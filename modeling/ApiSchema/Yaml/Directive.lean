import ApiSchema.Yaml.Cursor
import ApiSchema.Yaml.Token

/-!
Scanning directives, tags, anchors and aliases.
-/

namespace ApiSchema
namespace Yaml

def versionDigits : Nat := 9

def scanVersionNumber (c : Cursor) : Option (Nat × Cursor) :=
  let (digits, c) := c.takeWhile isDigit
  if digits.isEmpty ∨ versionDigits < digits.length then none
  else some (digits.foldl (fun n d => n * 10 + (d.toNat - '0'.toNat)) 0, c)

/-- A tag handle: `!`, `!!` or `!name!`. Outside a directive it may lack the second `!`, and then is
the beginning of a tag without a handle. -/
def scanTagHandle (directive : Bool) (c : Cursor) : Option (List Char × Cursor) :=
  if !c.isAt '!' then none
  else
    let (name, c) := (c.skip 1).takeWhile isWordChar
    if c.isAt '!' then some ('!' :: name ++ ['!'], c.skip 1)
    else if directive && !name.isEmpty then none
    else some ('!' :: name, c)

/-- The width in bytes that the first byte of an encoded character announces. -/
def encodedWidth? (byte : Nat) : Option Nat :=
  if byte < 0x80 then some 1
  else if byte / 0x20 = 0x6 then some 2
  else if byte / 0x10 = 0xE then some 3
  else if byte / 0x8 = 0x1E then some 4
  else none

/-- A byte written as `%` and two hexadecimal digits. -/
def scanEscapedByte (c : Cursor) : Option (Nat × Cursor) :=
  match c.rest with
  | '%' :: a :: b :: _ => (hexNumber? [a, b]).map fun n => (n, c.skip 3)
  | _ => none

/-- The remaining bytes of an escaped character, added to the bits read so far. -/
def scanEscapedTail : (count bits : Nat) → Cursor → Option (Nat × Cursor)
  | 0, bits, c => some (bits, c)
  | count + 1, bits, c => do
    let (byte, c) ← scanEscapedByte c
    if byte / 0x40 = 2 then scanEscapedTail count (bits * 0x40 + byte % 0x40) c else none

/-- The character with a code point, if there is one and its encoding has that many bytes. -/
def encodedChar? (width code : Nat) : Option Char :=
  let c := Char.ofNat code
  if c.toNat = code ∧ c.utf8Size = width then some c else none

/-- A character written as escaped bytes of its encoding. The bytes are refused if they do not fit
together; those that do may still encode no character. -/
def scanEscapedChar (c : Cursor) : Option (Option Char × Cursor) := do
  let (byte, c) ← scanEscapedByte c
  let width ← encodedWidth? byte
  let bits := if width = 1 then byte else byte % (1 <<< (7 - width))
  let (code, c) ← scanEscapedTail (width - 1) bits c
  return (encodedChar? width code, c)

/-- The characters of a tag. Those that delimit items of flow collections are among them only
between angle brackets. -/
def isTagChar (verbatim : Bool) (c : Char) : Bool :=
  isWordChar c || ";/?:@&=+$.%!~*'()".toList.contains c ||
    (verbatim && (c == ',' || c == '[' || c == ']'))

/-- Tag characters, latest first before `read`. -/
def scanTagChars (verbatim : Bool) : (steps : Nat) → (read : List (Option Char)) → Cursor →
    Option (List (Option Char) × Cursor)
  | 0, _, _ => none
  | steps + 1, read, c =>
    match c.ahead? 0 with
    | none => some (read.reverse, c)
    | some x =>
      if x = '%' then do
        let (y, c) ← scanEscapedChar c
        scanTagChars verbatim steps (y :: read) c
      else if isTagChar verbatim x then scanTagChars verbatim steps (some x :: read) (c.skip 1)
      else some (read.reverse, c)

/-- The part of a tag after its handle. `head` is what has been read as a handle and is none; its
`!` is dropped. There must be something to read unless there is such a head. -/
def scanTagSuffix (verbatim : Bool) (head : List Char) (c : Cursor) : Option (Tag × Cursor) := do
  let (chars, c) ← scanTagChars verbatim (c.rest.length + 1) [] c
  if chars.isEmpty && head.isEmpty then none
  else return (Tag.trim ⟨(head.drop 1).map some ++ chars⟩, c)

/-- A tag: `<...>` after the `!` gives it in full, otherwise it is a handle and a suffix. -/
def scanTag (flow : Bool) (c : Cursor) : Option (Token × Cursor) := do
  let (handle, suffix, c) ←
    if c.seesAt 1 (· == '<') then do
      let (suffix, c) ← scanTagSuffix true [] (c.skip 2)
      if c.isAt '>' then pure ([], suffix, c.skip 1) else none
    else do
      let (handle, c) ← scanTagHandle false c
      if 1 < handle.length ∧ handle.getLast? = some '!' then do
        let (suffix, c) ← scanTagSuffix false [] c
        pure (handle, suffix, c)
      else do
        let (suffix, c) ← scanTagSuffix false handle c
        if suffix.chars.isEmpty then pure ([], .ofString "!", c) else pure (['!'], suffix, c)
  if c.gapAt 0 || (flow && c.isAt ',') then
    return (.tag (String.ofList handle) suffix, c)
  else none

def scanAnchorName (c : Cursor) : Option (String × Cursor) :=
  let (name, c) := c.takeWhile isWordChar
  if name.isEmpty then none
  else if c.gapAt 0 || c.sees (fun x => "?:,]\x7d%@`".toList.contains x) then
    some (String.ofList name, c)
  else none

def scanDirectiveContent (name : List Char) (c : Cursor) : Option (Token × Cursor) :=
  let c := c.skipWhile isBlank
  if name = "YAML".toList then do
    let (major, c) ← scanVersionNumber c
    if !c.isAt '.' then none
    else do
      let (minor, c) ← scanVersionNumber (c.skip 1)
      return (.version major minor, c)
  else if name = "TAG".toList then do
    let (handle, c) ← scanTagHandle true c
    if !c.sees isBlank then none
    else do
      let (expansion, c) ← scanTagSuffix true [] (c.skipWhile isBlank)
      if c.gapAt 0 then
        return (.tagDirective (String.ofList handle) expansion, c)
      else none
  else none

/-- A directive line, whose `%` has been read. Only `%YAML` and `%TAG` are known. -/
def scanDirective (c : Cursor) : Option (Token × Cursor) := do
  let (name, c) := c.takeWhile isWordChar
  if name.isEmpty || !c.gapAt 0 then none
  else do
    let (token, c) ← scanDirectiveContent name c
    let c := (c.skipWhile isBlank).skipComment
    if c.atLineEnd then return (token, c.readBreak.2) else none

end Yaml
end ApiSchema

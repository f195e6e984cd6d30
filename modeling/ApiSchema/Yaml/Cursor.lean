/-!
Character classes of YAML, and places in a YAML text.
-/

namespace ApiSchema
namespace Yaml

/-- The characters that a YAML text may hold. -/
def isAllowed (c : Char) : Bool :=
  let n := c.toNat
  n == 0x09 || n == 0x0A || n == 0x0D || (0x20 ≤ n && n ≤ 0x7E) || n == 0x85 ||
    (0xA0 ≤ n && n ≤ 0xD7FF) || (0xE000 ≤ n && n ≤ 0xFFFD) || 0x10000 ≤ n

/-- The mark that may open a line to tell the encoding of the text. -/
def byteOrderMark : Char := '\ufeff'

def isBlank (c : Char) : Bool :=
  c == ' ' || c == '\t'

/-- Carriage return, line feed, next line, line separator and paragraph separator. -/
def isBreak (c : Char) : Bool :=
  c == '\r' || c == '\n' || c == '\u0085' || c == '\u2028' || c == '\u2029'

def isDigit (c : Char) : Bool :=
  decide ('0' ≤ c) && decide (c ≤ '9')

/-- ASCII letters and digits, `_` and `-`: the characters of anchors and of names in directives. -/
def isWordChar (c : Char) : Bool :=
  isDigit c || (decide ('A' ≤ c) && decide (c ≤ 'Z')) || (decide ('a' ≤ c) && decide (c ≤ 'z')) ||
    c == '_' || c == '-'

def hexValue? (c : Char) : Option Nat :=
  if isDigit c then some (c.toNat - '0'.toNat)
  else if 'a' ≤ c ∧ c ≤ 'f' then some (c.toNat - 'a'.toNat + 10)
  else if 'A' ≤ c ∧ c ≤ 'F' then some (c.toNat - 'A'.toNat + 10)
  else none

def hexNumber? (digits : List Char) : Option Nat :=
  digits.foldlM (fun n c => (hexValue? c).map (16 * n + ·)) 0

/-- How many bytes the encoding of some characters takes. -/
def byteCount (chars : List Char) : Nat :=
  chars.foldl (fun n c => n + c.utf8Size) 0

/-- A place in a text: what is still to come, the number of bytes and lines before it, and the
column, which counts characters. -/
structure Cursor where
  rest : List Char
  index : Nat := 0
  line : Nat := 0
  column : Nat := 0

namespace Cursor

def ahead? (c : Cursor) (count : Nat) : Option Char :=
  c.rest[count]?

def atEnd (c : Cursor) : Bool :=
  c.rest.isEmpty

/-- Whether the character `count` places ahead belongs to a class; the end belongs to none. -/
def seesAt (c : Cursor) (count : Nat) (p : Char → Bool) : Bool :=
  (c.ahead? count).any p

def sees (c : Cursor) (p : Char → Bool) : Bool :=
  c.seesAt 0 p

def isAt (c : Cursor) (x : Char) : Bool :=
  c.sees (· == x)

def gapAt (c : Cursor) (count : Nat) : Bool :=
  match c.ahead? count with
  | none => true
  | some x => isBlank x || isBreak x

/-- Whether a line break or the end comes next. -/
def atLineEnd (c : Cursor) : Bool :=
  match c.ahead? 0 with
  | none => true
  | some x => isBreak x

def skip (c : Cursor) (count : Nat) : Cursor :=
  { c with
    rest := c.rest.drop count
    index := c.index + byteCount (c.rest.take count)
    column := c.column + count }

def takeWhile (c : Cursor) (p : Char → Bool) : List Char × Cursor :=
  let taken := c.rest.takeWhile p
  (taken, c.skip taken.length)

def skipWhile (c : Cursor) (p : Char → Bool) : Cursor :=
  (c.takeWhile p).2

/-- Passes over a line break, if there is one, and gives what it stands for in a scalar. A carriage
return with a line feed is one break; only the two separators are kept as they are. -/
def readBreak (c : Cursor) : List Char × Cursor :=
  let next (rest : List Char) (bytes : Nat) : Cursor := ⟨rest, c.index + bytes, c.line + 1, 0⟩
  match c.rest with
  | '\r' :: '\n' :: rest => (['\n'], next rest 2)
  | x :: rest =>
    if x == '\u2028' || x == '\u2029' then ([x], next rest x.utf8Size)
    else if isBreak x then (['\n'], next rest x.utf8Size)
    else ([], c)
  | [] => ([], c)

/-- Passes over a comment, if one starts here. -/
def skipComment (c : Cursor) : Cursor :=
  if c.isAt '#' then c.skipWhile (fun x => !isBreak x) else c

/-- Whether one of the marks `---` and `...` that bound documents stands here. -/
def atDocumentMark (c : Cursor) (mark : Char) : Bool :=
  c.column == 0 && [mark, mark, mark].isPrefixOf c.rest && c.gapAt 3

def atDocumentBound (c : Cursor) : Bool :=
  c.atDocumentMark '-' || c.atDocumentMark '.'

end Cursor

end Yaml
end ApiSchema

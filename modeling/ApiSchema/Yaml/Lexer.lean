import ApiSchema.Yaml.Directive
import ApiSchema.Yaml.Scalar

/-!
From text to tokens.

Block collections are found by indentation: `indent` is the column of the innermost one, and `outer`
those around it. A mapping key without an indicator is only recognised at the `:` after it, so each
place where such a key could have begun is remembered and the `key` token put there afterwards. Such
a key stays within one line and 1024 bytes. All faults are alike here: there are no tokens then.
-/

namespace ApiSchema
namespace Yaml

/-- Where a mapping key without an indicator may have begun. It is `required` if nothing else could
stand there, at the column of a block mapping. -/
structure PossibleKey where
  required : Bool
  token : Nat
  index : Nat
  line : Nat
  column : Nat

/-- The state between two tokens. `keys` has one entry for each open flow collection, innermost
first, and a last one for the block around them. -/
structure Lexer where
  cursor : Cursor
  tokens : Array Token := #[]
  indent : Int := -1
  outer : List Int := []
  flow : Nat := 0
  keyAllowed : Bool := true
  keys : List (Option PossibleKey) := [none]

/-- The most bytes between the beginning of a key and its `:`. -/
def keyLength : Nat := 1024

namespace Lexer

def inFlow (s : Lexer) : Bool :=
  decide (0 < s.flow)

def emit (s : Lexer) (t : Token) : Lexer :=
  { s with tokens := s.tokens.push t }

/-- Puts a token before those from number `at` on. -/
def insert (s : Lexer) (place : Nat) (t : Token) : Lexer :=
  { s with tokens := s.tokens.insertIdxIfInBounds place t }

/-- Forgets the possible key of the innermost collection; none if the key is required. -/
def dropKey (s : Lexer) : Option Lexer :=
  match s.keys with
  | some key :: rest => if key.required then none else some { s with keys := none :: rest }
  | _ => some s

/-- Remembers that a key may begin here, if one is allowed. -/
def markKey (s : Lexer) : Option Lexer :=
  if !s.keyAllowed then some s
  else do
    let required := !s.inFlow && s.indent == (s.cursor.column : Int)
    let s ← s.dropKey
    let key : PossibleKey :=
      ⟨required, s.tokens.size, s.cursor.index, s.cursor.line, s.cursor.column⟩
    return { s with keys := some key :: s.keys.drop 1 }

/-- Forgets the keys that would be too long by now; none if one of them is required. -/
def dropStaleKeys (s : Lexer) : Option Lexer := do
  let keys ← s.keys.mapM fun key =>
    match key with
    | none => some none
    | some key =>
      if key.line < s.cursor.line ∨ key.index + keyLength < s.cursor.index then
        if key.required then none else some none
      else some (some key)
  return { s with keys }

/-- Opens a block collection at a column right of the current one, with its token at `place`. -/
def openBlock (s : Lexer) (column place : Nat) (t : Token) : Lexer :=
  if s.inFlow ∨ (column : Int) ≤ s.indent then s
  else { s.insert place t with indent := column, outer := s.indent :: s.outer }

/-- The columns left after closing all block collections right of `column`, and how many those
were. -/
def closeTo (column : Int) : (indent : Int) → (outer : List Int) → Int × List Int × Nat
  | indent, [] => (indent, [], 0)
  | indent, next :: outer =>
    if column < indent then
      let (indent, outer, closed) := closeTo column next outer
      (indent, outer, closed + 1)
    else (indent, next :: outer, 0)

/-- Closes all block collections right of a column. -/
def closeBlocks (s : Lexer) (column : Int) : Lexer :=
  if s.inFlow then s
  else
    let (indent, outer, closed) := closeTo column s.indent s.outer
    { s with indent, outer, tokens := s.tokens ++ Array.replicate closed .blockEnd }

/-- Passes over blanks, comments and line breaks, and over a byte order mark that opens a line,
which takes up a column of it. At the beginning of a line of a block, a tab is no blank. A new line
allows a key there. -/
def skipGap : (steps : Nat) → Lexer → Lexer
  | 0, s => s
  | steps + 1, s =>
    let c := if s.cursor.column == 0 && s.cursor.isAt byteOrderMark then s.cursor.skip 1 else s.cursor
    let c := c.skipWhile fun x => x == ' ' || ((s.inFlow || !s.keyAllowed) && x == '\t')
    let c := c.skipComment
    if c.sees isBreak then
      skipGap steps { s with cursor := c.readBreak.2, keyAllowed := s.keyAllowed || !s.inFlow }
    else { s with cursor := c }

def take (s : Lexer) (count : Nat) (t : Token) : Lexer :=
  { s.emit t with cursor := s.cursor.skip count }

def openFlow (s : Lexer) (t : Token) : Option Lexer := do
  let s ← s.markKey
  return { s.take 1 t with flow := s.flow + 1, keys := none :: s.keys, keyAllowed := true }

def closeFlow (s : Lexer) (t : Token) : Option Lexer := do
  let s ← s.dropKey
  let keys := if s.inFlow then s.keys.drop 1 else s.keys
  return { s.take 1 t with flow := s.flow - 1, keys, keyAllowed := false }

/-- A directive or document mark: everything before it ends. -/
def boundary (s : Lexer) : Option Lexer := do
  let s ← (s.closeBlocks (-1)).dropKey
  return { s with keyAllowed := false }

def blockEntry (s : Lexer) : Option Lexer := do
  if !s.inFlow && !s.keyAllowed then none
  else do
    let s ← (s.openBlock s.cursor.column s.tokens.size .blockSequenceStart).dropKey
    return { s.take 1 .blockEntry with keyAllowed := true }

def keyMark (s : Lexer) : Option Lexer := do
  if !s.inFlow && !s.keyAllowed then none
  else do
    let s ← (s.openBlock s.cursor.column s.tokens.size .blockMappingStart).dropKey
    return { s.take 1 .key with keyAllowed := !s.inFlow }

/-- The `:` before a value. If a key may have begun before it, that key is settled now. -/
def valueMark (s : Lexer) : Option Lexer :=
  match s.keys with
  | some key :: rest =>
    let s := s.insert key.token .key
    let s := s.openBlock key.column key.token .blockMappingStart
    some { s.take 1 .value with keys := none :: rest, keyAllowed := false }
  | _ =>
    if !s.inFlow && !s.keyAllowed then none
    else
      let s := s.openBlock s.cursor.column s.tokens.size .blockMappingStart
      some { s.take 1 .value with keyAllowed := !s.inFlow }

/-- A token that may begin a key. -/
def keyed (s : Lexer) (scan : Cursor → Option (Token × Cursor)) : Option Lexer := do
  let s ← s.markKey
  let (t, cursor) ← scan s.cursor
  return { s.emit t with cursor, keyAllowed := false }

/-- A plain scalar. A line break after it allows a key again. -/
def plain (s : Lexer) : Option Lexer := do
  let s ← s.markKey
  let (text, broken, cursor) ← scanPlain s.inFlow (s.indent + 1) s.cursor
  return { s.emit (.scalar (String.ofList text) true) with cursor, keyAllowed := broken }

def block (s : Lexer) (literal : Bool) : Option Lexer := do
  let s ← s.dropKey
  let (text, cursor) ← scanBlock literal s.indent (s.cursor.skip 1)
  return { s.emit (.scalar (String.ofList text) false) with cursor, keyAllowed := true }

def plainStart (s : Lexer) (x : Char) : Bool :=
  let c := s.cursor
  !(c.gapAt 0 || "-?:,[]\x7b\x7d#&*!|>'\"%@`".toList.contains x) ||
    (x == '-' && !c.seesAt 1 isBlank) ||
    (!s.inFlow && (x == '?' || x == ':') && !c.gapAt 1)

/-- The next token, or tokens, at a place where one begins with `x`. -/
def lexAt (s : Lexer) (x : Char) : Option Lexer :=
  let c := s.cursor
  if c.column == 0 && x == '%' then do
    let s ← s.boundary
    let (t, cursor) ← scanDirective (s.cursor.skip 1)
    return { s.emit t with cursor }
  else if c.atDocumentMark '-' then (s.boundary).map (·.take 3 .documentStart)
  else if c.atDocumentMark '.' then (s.boundary).map (·.take 3 .documentEnd)
  else if x == '[' then s.openFlow .flowSequenceStart
  else if x == '{' then s.openFlow .flowMappingStart
  else if x == ']' then s.closeFlow .flowSequenceEnd
  else if x == '}' then s.closeFlow .flowMappingEnd
  else if x == ',' then do
    let s ← s.dropKey
    return { s.take 1 .flowEntry with keyAllowed := true }
  else if x == '-' && c.gapAt 1 then s.blockEntry
  else if x == '?' && (s.inFlow || c.gapAt 1) then s.keyMark
  else if x == ':' && (s.inFlow || c.gapAt 1) then s.valueMark
  else if x == '*' then
    s.keyed fun c => (scanAnchorName (c.skip 1)).map fun (name, c) => (.alias name, c)
  else if x == '&' then
    s.keyed fun c => (scanAnchorName (c.skip 1)).map fun (name, c) => (.anchor name, c)
  else if x == '!' then s.keyed (scanTag s.inFlow)
  else if x == '|' && !s.inFlow then s.block true
  else if x == '>' && !s.inFlow then s.block false
  else if x == '\'' || x == '"' then
    s.keyed fun c => (scanQuoted (x == '\'') (c.skip 1)).map fun (text, c) =>
      (.scalar (String.ofList text) false, c)
  else if s.plainStart x then s.plain
  else none

/-- The end of the text ends everything. -/
def finish (s : Lexer) : Option Lexer := do
  let s ← (s.closeBlocks (-1)).dropKey
  return s.emit .streamEnd

/-- All tokens from here on. Each step passes over a character. -/
def run : (steps : Nat) → Lexer → Option (Array Token)
  | 0, _ => none
  | steps + 1, s => do
    let s ← (skipGap (s.cursor.rest.length + 1) s).dropStaleKeys
    let s := s.closeBlocks s.cursor.column
    match s.cursor.ahead? 0 with
    | none => return (← s.finish).tokens
    | some x => run steps (← s.lexAt x)

end Lexer

/-- The tokens of a text, if it can be cut into tokens at all. -/
def tokens? (text : String) : Option (Array Token) :=
  let chars := text.toList
  if chars.all isAllowed then
    let start : Lexer := { cursor := { rest := chars } }
    start.run (chars.length + 2)
  else none

end Yaml
end ApiSchema

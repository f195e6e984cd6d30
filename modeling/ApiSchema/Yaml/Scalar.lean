import ApiSchema.Yaml.Cursor

/-!
Scanning scalars: plain, quoted and block.

Within plain and quoted scalars, blanks and line breaks between two parts of the text form a `Gap`
that is folded: a single line break becomes a space, further ones stay. Loops take a number of
steps, each of which passes over a character; callers give one more than there are characters.
-/

namespace ApiSchema
namespace Yaml

/-- Blanks and line breaks inside a scalar. Once there has been a break, blanks do not count. -/
structure Gap where
  blanks : List Char := []
  broken : Bool := false
  first : List Char := []
  more : List Char := []

/-- What a gap stands for. -/
def Gap.folded (g : Gap) : List Char :=
  if !g.broken then g.blanks
  else if g.first = ['\n'] then if g.more.isEmpty then [' '] else g.more
  else g.first ++ g.more

/-- Scans a gap. A tab left of `indent` on a new line is refused. -/
def scanGap (indent : Int) : (steps : Nat) → Gap → Cursor → Option (Gap × Cursor)
  | 0, _, _ => none
  | steps + 1, g, c =>
    match c.ahead? 0 with
    | none => some (g, c)
    | some x =>
      if isBlank x then
        if !g.broken then scanGap indent steps { g with blanks := g.blanks ++ [x] } (c.skip 1)
        else if x = '\t' ∧ (c.column : Int) < indent then none
        else scanGap indent steps g (c.skip 1)
      else if isBreak x then
        let (text, c) := c.readBreak
        if g.broken then scanGap indent steps { g with more := g.more ++ text } c
        else scanGap indent steps { broken := true, first := text } c
      else some (g, c)

def isFlowDelimiter (c : Char) : Bool :=
  c == ',' || c == '[' || c == ']' || c == '{' || c == '}'

/-- The characters of a plain scalar up to a gap or to what ends the scalar, latest first before
`read`. Inside flow collections a delimiter ends it, and a `:` right before one is refused. -/
def scanPlainPart (flow : Bool) : (steps : Nat) → (read : List Char) → Cursor →
    Option (List Char × Cursor)
  | 0, _, _ => none
  | steps + 1, read, c =>
    match c.ahead? 0 with
    | none => some (read.reverse, c)
    | some x =>
      if isBlank x || isBreak x then some (read.reverse, c)
      else if flow && x == ':' && c.seesAt 1 (fun y => isFlowDelimiter y || y == '?') then none
      else if (x == ':' && c.gapAt 1) || (flow && isFlowDelimiter x) then some (read.reverse, c)
      else scanPlainPart flow steps (x :: read) (c.skip 1)

/-- A plain scalar from `c` on, after `text` and the gap `g`. It goes on over line breaks as long as
the lines are indented; the flag tells whether a line break was passed at the end. -/
def scanPlainFrom (flow : Bool) (indent : Int) : (steps : Nat) → (text : List Char) → Gap → Cursor →
    Option (List Char × Bool × Cursor)
  | 0, _, _, _ => none
  | steps + 1, text, g, c =>
    if c.atDocumentBound || c.isAt '#' then some (text, g.broken, c)
    else do
      let (part, c) ← scanPlainPart flow (c.rest.length + 1) [] c
      let (text, g) := if part.isEmpty then (text, g) else (text ++ g.folded ++ part, {})
      if !c.sees (fun x => isBlank x || isBreak x) then return (text, g.broken, c)
      let (g, c) ← scanGap indent (c.rest.length + 1) g c
      if !flow && decide ((c.column : Int) < indent) then return (text, g.broken, c)
      scanPlainFrom flow indent steps text g c

def scanPlain (flow : Bool) (indent : Int) (c : Cursor) : Option (List Char × Bool × Cursor) :=
  scanPlainFrom flow indent (c.rest.length + 1) [] {} c

/-- What the character after a backslash stands for, or how many hexadecimal digits follow it. -/
def escape? : Char → Option (Char ⊕ Nat)
  | '0' => some (.inl '\x00')
  | 'a' => some (.inl '\x07')
  | 'b' => some (.inl '\x08')
  | 't' | '\t' => some (.inl '\t')
  | 'n' => some (.inl '\n')
  | 'v' => some (.inl '\x0b')
  | 'f' => some (.inl '\x0c')
  | 'r' => some (.inl '\r')
  | 'e' => some (.inl '\x1b')
  | ' ' => some (.inl ' ')
  | '"' => some (.inl '"')
  | '/' => some (.inl '/')
  | '\\' => some (.inl '\\')
  | 'N' => some (.inl '\u0085')
  | '_' => some (.inl '\u00a0')
  | 'L' => some (.inl '\u2028')
  | 'P' => some (.inl '\u2029')
  | 'x' => some (.inr 2)
  | 'u' => some (.inr 4)
  | 'U' => some (.inr 8)
  | _ => none

/-- The character of an escape whose backslash has been read. -/
def scanEscape (c : Cursor) : Option (Char × Cursor) := do
  let x ← c.ahead? 0
  let c := c.skip 1
  match ← escape? x with
  | .inl y => return (y, c)
  | .inr length =>
    let digits := c.rest.take length
    if digits.length < length then none
    else
      let n ← hexNumber? digits
      if (0xD800 ≤ n ∧ n ≤ 0xDFFF) ∨ 0x10FFFF < n then none
      else return (Char.ofNat n, c.skip length)

/-- Where a part of a quoted scalar ends. -/
inductive PartEnd where
  /-- Before the closing quote, a gap or the end of the text. -/
  | plain
  /-- After a line break that was escaped. -/
  | escapedBreak
deriving DecidableEq

/-- The characters of a quoted scalar up to a gap or its closing quote, latest first before `read`.
Between single quotes only the quote is escaped, by doubling it. -/
def scanQuotedPart (single : Bool) : (steps : Nat) → (read : List Char) → Cursor →
    Option (List Char × PartEnd × Cursor)
  | 0, _, _ => none
  | steps + 1, read, c =>
    match c.ahead? 0 with
    | none => some (read.reverse, .plain, c)
    | some x =>
      if isBlank x || isBreak x then some (read.reverse, .plain, c)
      else if single && x == '\'' then
        if c.seesAt 1 (· == '\'') then scanQuotedPart single steps ('\'' :: read) (c.skip 2)
        else some (read.reverse, .plain, c)
      else if !single && x == '"' then some (read.reverse, .plain, c)
      else if !single && x == '\\' then
        if c.seesAt 1 isBreak then some (read.reverse, .escapedBreak, (c.skip 1).readBreak.2)
        else do
          let (y, c) ← scanEscape (c.skip 1)
          scanQuotedPart single steps (y :: read) c
      else scanQuotedPart single steps (x :: read) (c.skip 1)

/-- A quoted scalar from `c` on, after `text`, up to and over its closing quote. -/
def scanQuotedFrom (single : Bool) : (steps : Nat) → (text : List Char) → Cursor →
    Option (List Char × Cursor)
  | 0, _, _ => none
  | steps + 1, text, c =>
    if c.atDocumentBound || c.atEnd then none
    else do
      let (part, partEnd, c) ← scanQuotedPart single (c.rest.length + 1) [] c
      let text := text ++ part
      if c.isAt (if single then '\'' else '"') then return (text, c.skip 1)
      let (g, c) ← scanGap 0 (c.rest.length + 1) { broken := partEnd == .escapedBreak } c
      scanQuotedFrom single steps (text ++ g.folded) c

def scanQuoted (single : Bool) (c : Cursor) : Option (List Char × Cursor) :=
  scanQuotedFrom single (c.rest.length + 1) [] c

/-- Which line breaks at the end of a block scalar are kept. -/
inductive Chomping where
  | strip
  | clip
  | keep
deriving DecidableEq

/-- The indicators after `|` or `>`: chomping and an explicit indentation, in either order. -/
def scanBlockHeader (c : Cursor) : Option (Chomping × Nat × Cursor) :=
  let chomping (c : Cursor) : Chomping × Cursor :=
    if c.isAt '+' then (.keep, c.skip 1)
    else if c.isAt '-' then (.strip, c.skip 1)
    else (.clip, c)
  let increment (c : Cursor) : Option (Nat × Cursor) :=
    match c.ahead? 0 with
    | some x =>
      if x = '0' then none
      else if isDigit x then some (x.toNat - '0'.toNat, c.skip 1)
      else some (0, c)
    | none => some (0, c)
  if c.sees isDigit then do
    let (n, c) ← increment c
    let (chomp, c) := chomping c
    return (chomp, n, c)
  else do
    let (chomp, c') := chomping c
    let (n, c'') ← if chomp = .clip then some (0, c') else increment c'
    return (chomp, n, c'')

/-- Passes over indentation and empty lines of a block scalar. `indent` is 0 as long as the
indentation is not known; it is then that of the most indented line passed, but at least `least`. -/
def scanBlockBreaks (least : Nat) (indent : Nat) : (steps widest : Nat) → (breaks : List Char) →
    Cursor → Option (Nat × List Char × Cursor)
  | 0, _, _, _ => none
  | steps + 1, widest, breaks, c =>
    let room := if indent = 0 then c.rest.length else indent - c.column
    let c := c.skip (c.rest.takeWhile (· == ' ') |>.take room).length
    let widest := max widest c.column
    let inside := indent = 0 ∨ c.column < indent
    if inside ∧ c.isAt '\t' then none
    else if c.sees isBreak then
      let (text, c) := c.readBreak
      scanBlockBreaks least indent steps widest (breaks ++ text) c
    else some (if indent = 0 then max widest least else indent, breaks, c)

/-- The state between two lines of a block scalar: the text so far, the break that ended the last
line, the empty lines after it, and whether that line began with a blank. -/
structure BlockLines where
  text : List Char := []
  lineBreak : List Char := []
  empty : List Char
  blankStart : Bool := false

/-- The lines of a block scalar. In folded style a break between two lines that do not begin with a
blank becomes a space, or nothing if empty lines follow it. -/
def scanBlockLines (literal : Bool) (indent : Nat) : (steps : Nat) → BlockLines → Cursor →
    Option (BlockLines × Cursor)
  | 0, _, _ => none
  | steps + 1, b, c =>
    if c.column ≠ indent ∨ c.atEnd then some (b, c)
    else do
      let blank := c.sees isBlank
      let folds := !literal && b.lineBreak == ['\n'] && !b.blankStart && !blank
      let between :=
        if folds then if b.empty.isEmpty then [' '] else [] else b.lineBreak
      let (line, c) := c.takeWhile fun x => !isBreak x
      let text := b.text ++ between ++ b.empty ++ line
      let (lineBreak, c) := c.readBreak
      let (_, empty, c) ← scanBlockBreaks 1 indent (c.rest.length + 1) 0 [] c
      scanBlockLines literal indent steps { text, lineBreak, empty, blankStart := blank } c

/-- A block scalar whose `|` or `>` has been read, inside a block indented by `outer`. -/
def scanBlock (literal : Bool) (outer : Int) (c : Cursor) : Option (List Char × Cursor) := do
  let (chomping, increment, c) ← scanBlockHeader c
  let c := (c.skipWhile isBlank).skipComment
  if !c.atLineEnd then none
  else
    let c := c.readBreak.2
    let indent :=
      if increment = 0 then 0 else if 0 ≤ outer then outer.toNat + increment else increment
    let least := max 1 (outer + 1).toNat
    let (indent, empty, c) ← scanBlockBreaks least indent (c.rest.length + 1) 0 [] c
    let (b, c) ← scanBlockLines literal indent (c.rest.length + 1) { empty } c
    let tail := match chomping with
      | .strip => []
      | .clip => b.lineBreak
      | .keep => b.lineBreak ++ b.empty
    return (b.text ++ tail, c)

end Yaml
end ApiSchema

/-!
What can be wrong with a JSON text, and where.

A fault stands at a byte position: the number of bytes of the text up to and including the offending
one, or all of them when the text ends too early.
-/

namespace ApiSchema
namespace Json

/-- Why a JSON text is refused. -/
inductive Reason where
  | endInValue
  | endInList
  | endInObject
  | endInString
  | expectedValue
  | expectedWord
  | expectedColon
  | expectedListEnd
  | expectedObjectEnd
  | keyNotString
  | trailingComma
  | trailingCharacters
  | invalidNumber
  | numberOutOfRange
  | invalidEscape
  | loneSurrogate
  | brokenSurrogatePair
  | controlCharacter
  | tooDeep
deriving DecidableEq, Repr

namespace Reason

def message : Reason → String
  | endInValue => "EOF while parsing a value"
  | endInList => "EOF while parsing a list"
  | endInObject => "EOF while parsing an object"
  | endInString => "EOF while parsing a string"
  | expectedValue => "expected value"
  | expectedWord => "expected ident"
  | expectedColon => "expected `:`"
  | expectedListEnd => "expected `,` or `]`"
  | expectedObjectEnd => "expected `,` or `\x7d`"
  | keyNotString => "key must be a string"
  | trailingComma => "trailing comma"
  | trailingCharacters => "trailing characters"
  | invalidNumber => "invalid number"
  | numberOutOfRange => "number out of range"
  | invalidEscape => "invalid escape"
  | loneSurrogate => "lone leading surrogate in hex escape"
  | brokenSurrogatePair => "unexpected end of hex escape"
  | controlCharacter => "control character (\\u0000-\\u001F) found while parsing a string"
  | tooDeep => "recursion limit exceeded"

/-- Whether the text merely ended too early. -/
def isEnd : Reason → Bool
  | endInValue | endInList | endInObject | endInString => true
  | _ => false

end Reason

/-- A reason and the byte position it was found at. -/
structure Fault where
  reason : Reason
  position : Nat
deriving DecidableEq, Repr

/-- The line, counted from 1, and the column, counted in bytes after the last line break, that a
number of bytes of a text leads to. `line` and `column` are those reached so far. -/
def lineColumn : List Char → (position line column : Nat) → Nat × Nat
  | [], _, line, column => (line, column)
  | c :: rest, position, line, column =>
    if position = 0 then (line, column)
    else if c = '\n' then lineColumn rest (position - 1) (line + 1) 0
    else if position < c.utf8Size then (line, column + position)
    else lineColumn rest (position - c.utf8Size) line (column + c.utf8Size)

def Fault.message (fault : Fault) (text : String) : String :=
  let (line, column) := lineColumn text.toList fault.position 1 0
  fault.reason.message ++ " at line " ++ toString line ++ " column " ++ toString column

end Json
end ApiSchema

import ApiSchema.Json.Value
import ApiSchema.Binary64.Shortest

/-!
The compact text of a JSON value: no blanks, members in order, and only the escapes that JSON
demands.
-/

namespace ApiSchema
namespace Json

/-- One character inside a quoted text. The quote, the backslash and the control characters below
U+0020 are escaped, with the short form where there is one; all else is written as it is. -/
def quotedChar (c : Char) : List Char :=
  match c with
  | '"' => ['\\', '"']
  | '\\' => ['\\', '\\']
  | '\x08' => ['\\', 'b']
  | '\x0c' => ['\\', 'f']
  | '\n' => ['\\', 'n']
  | '\r' => ['\\', 'r']
  | '\t' => ['\\', 't']
  | c =>
    if c.toNat < 0x20 then
      ['\\', 'u', '0', '0', Nat.digitChar (c.toNat / 16), Nat.digitChar (c.toNat % 16)]
    else [c]

def quoted (s : String) : String :=
  "\"" ++ String.ofList (s.toList.flatMap quotedChar) ++ "\""

mutual

/-- The compact text of a value. -/
def compact : Json → String
  | .null => "null"
  | .bool true => "true"
  | .bool false => "false"
  | .integer i => toString i
  | .real x => x.text
  | .str s => quoted s
  | .arr items => "[" ++ String.intercalate "," (compactItems items) ++ "]"
  | .obj members => "\x7b" ++ String.intercalate "," (compactMembers members) ++ "\x7d"

def compactItems : List Json → List String
  | [] => []
  | item :: rest => compact item :: compactItems rest

def compactMembers : List (String × Json) → List String
  | [] => []
  | (key, value) :: rest => (quoted key ++ ":" ++ compact value) :: compactMembers rest

end

/-- A value as a label: a string as it is, anything else as its compact text. -/
def label : Json → String
  | .str s => s
  | value => value.compact

example : compact (.obj [("a", .arr [.integer (-1), .str "\n"]), ("b", .null)]) =
    "\x7b\"a\":[-1,\"\\n\"],\"b\":null\x7d" := by decide +kernel

end Json
end ApiSchema

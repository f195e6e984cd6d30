import ApiSchema.Text.Printable

/-!
Texts between quotes for a developer's eye.

The quote, the backslash and the usual controls have short escapes, other characters without a shape
of their own are given by their code point, and the rest stand for themselves.
-/

namespace ApiSchema
namespace Text

def quotedChar (c : Char) : List Char :=
  match c with
  | '"' => ['\\', '"']
  | '\\' => ['\\', '\\']
  | '\n' => ['\\', 'n']
  | '\r' => ['\\', 'r']
  | '\t' => ['\\', 't']
  | '\x00' => ['\\', '0']
  | c => if isPrintable c then [c] else ['\\', 'u', '{'] ++ Nat.toDigits 16 c.toNat ++ ['}']

def quoted (s : String) : String :=
  "\"" ++ String.ofList (s.toList.flatMap quotedChar) ++ "\""

example : quoted "a'\"\x1b" = "\"a'\\\"\\u\x7b1b\x7d\"" := by decide +kernel

end Text
end ApiSchema

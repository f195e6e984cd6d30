import ApiSchema.Json.Value
import ApiSchema.Yaml.Cursor
import ApiSchema.Yaml.Tag

/-!
What scalars stand for: nothing, a boolean, a number or a text.

A plain scalar without a tag is tried as each of these in turn. A tag of the standard set demands
one of them; other standard tags leave a text, and a tag of the document's own is refused. A tag
that begins like one of those but is no text counts for nothing.
-/

namespace ApiSchema
namespace Yaml

def radixNumber? (radix : Nat) (digits : List Char) : Option Nat :=
  if digits.isEmpty then none
  else digits.foldlM (fun n c => do
    let d ← hexValue? c
    if d < radix then some (radix * n + d) else none) 0

/-- Whether a scalar is a row of at least two digits, sign aside, that begins with a zero. Such a
row is no number. -/
def isZeroPadded (chars : List Char) : Bool :=
  let digits := match chars with
    | '-' :: rest | '+' :: rest => rest
    | _ => chars
  match digits with
  | '0' :: rest => !rest.isEmpty && rest.all isDigit
  | _ => false

/-- The value of digits after an optional prefix that names a radix. Decimal digits may not be
zero-padded; `whole` is the scalar they come from. -/
def prefixedNumber? (whole : List Char) : List Char → Option Nat
  | '0' :: 'x' :: digits => radixNumber? 16 digits
  | '0' :: 'o' :: digits => radixNumber? 8 digits
  | '0' :: 'b' :: digits => radixNumber? 2 digits
  | digits => if isZeroPadded whole then none else radixNumber? 10 digits

def integer? (chars : List Char) : Option Int :=
  match chars with
  | '+' :: digits => (prefixedNumber? chars digits).map Int.ofNat
  | '-' :: digits => (prefixedNumber? chars digits).map fun n => -(n : Int)
  | digits => (prefixedNumber? chars digits).map Int.ofNat

/-- How an integer that is written in a scalar is taken. -/
inductive Magnitude where
  /-- It fits 64 bits, signed or unsigned. -/
  | fits
  /-- It fits 128 bits only and is refused. -/
  | refused
  /-- It is no integer any more. -/
  | beyond

def magnitude (i : Int) : Magnitude :=
  if -0x8000000000000000 ≤ i ∧ i < 0x10000000000000000 then .fits
  else if -0x80000000000000000000000000000000 ≤ i ∧ i < 0x100000000000000000000000000000000 then
    .refused
  else .beyond

/-- The value of a decimal number after its sign: digits with an optional point, at least one of
them, and an optional exponent. -/
def decimal? (sign : Bool) (chars : List Char) : Option Binary64 := do
  let whole := chars.takeWhile isDigit
  let rest := chars.drop whole.length
  let (fraction, rest) := match rest with
    | '.' :: rest =>
      let fraction := rest.takeWhile isDigit
      (fraction, rest.drop fraction.length)
    | _ => ([], rest)
  let digits := whole ++ fraction
  if digits.isEmpty then none
  else
    let exponent ← match rest with
      | [] => some (0 : Int)
      | e :: rest =>
        if e = 'e' ∨ e = 'E' then
          match rest with
          | '-' :: rest => (radixNumber? 10 rest).map fun n => -(n : Int)
          | '+' :: rest => (radixNumber? 10 rest).map Int.ofNat
          | rest => (radixNumber? 10 rest).map Int.ofNat
        else none
    return Binary64.ofDecimal sign ((radixNumber? 10 digits).getD 0) (exponent - fraction.length)

/-- The value of a scalar that is written as a decimal number or as one of the words for infinity
and not-a-number, for which JSON has only `null`. A decimal beyond the largest number is none. -/
def real? (text : String) : Option Json :=
  let words := [".inf", ".Inf", ".INF", "+.inf", "+.Inf", "+.INF", "-.inf", "-.Inf", "-.INF",
    ".nan", ".NaN", ".NAN"]
  if words.contains text then some .null
  else do
    let x ← match text.toList with
      | '+' :: rest => decimal? false rest
      | '-' :: rest => decimal? true rest
      | chars => decimal? false chars
    if x.isFinite then some (.real x) else none

def isNullWord (text : String) : Bool :=
  ["null", "Null", "NULL", "~"].contains text

def boolWord? (text : String) : Option Bool :=
  if ["true", "True", "TRUE"].contains text then some true
  else if ["false", "False", "FALSE"].contains text then some false
  else none

/-- The integer of a scalar: a value, a refusal, or neither. -/
def integerValue? (text : String) : Option (Option Json) :=
  match integer? text.toList with
  | none => none
  | some i =>
    match magnitude i with
    | .fits => some (some (.integer i))
    | .refused => some none
    | .beyond => none

/-- What a plain scalar without a tag stands for. -/
def untagged (text : String) : Option Json :=
  if text.isEmpty || isNullWord text then some .null
  else
    match boolWord? text with
    | some b => some (.bool b)
    | none =>
      match integerValue? text with
      | some value => value
      | none =>
        if isZeroPadded text.toList then some (.str text)
        else some ((real? text).getD (.str text))

/-- What a scalar with a tag stands for. -/
def tagged (tag : Tag) (text : String) : Option Json :=
  match tag.text? with
  | some "tag:yaml.org,2002:bool" => (boolWord? text).map .bool
  | some "tag:yaml.org,2002:int" => (integerValue? text).getD none
  | some "tag:yaml.org,2002:float" => real? text
  | some "tag:yaml.org,2002:null" => if isNullWord text then some .null else none
  | _ => some (.str text)

/-- What a scalar stands for when no tag tells. -/
def implied (plain : Bool) (text : String) : Option Json :=
  if plain then untagged text else some (.str text)

def scalarValue (tag : Option Tag) (plain : Bool) (text : String) : Option Json :=
  match tag with
  | some tag =>
    if tag.isLocal then none
    else if tag.isMarked then implied plain text
    else tagged tag text
  | none => implied plain text

example : untagged "-0" = some (.integer 0) := by cbv
example : untagged "017" = some (.str "017") := by cbv
example : (untagged ".5" matches some (.real ⟨0x3fe0000000000000⟩)) = true := by decide +kernel
example : untagged "0X1F" = some (.str "0X1F") := by cbv
example : (untagged "18446744073709551616").isNone = true := by decide +kernel

end Yaml
end ApiSchema

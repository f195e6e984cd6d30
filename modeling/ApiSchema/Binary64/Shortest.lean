import ApiSchema.Binary64.Basic

/-!
The decimal text of a binary64 number with the fewest digits that read back as that number.

`shortest` works with exact natural numbers: it looks at the decimal grids with 1, 2, … 17 digits in
turn and stops at the first that has a point inside the interval of reals rounding to the number.
Only the two grid points around the number need a look, since any other point of the grid inside
the interval is further away on the same side. `text` decides how the digits are laid out.
-/

namespace ApiSchema
namespace Binary64

/-- A natural number of decimal digits and the exponent of its last digit. -/
structure Decimal where
  digits : Nat
  exponent : Int
deriving DecidableEq, Repr

def tenPowLe (e : Int) (num den : Nat) : Bool :=
  if 0 ≤ e then decide (den * Nat.pow 10 e.toNat ≤ num)
  else decide (den ≤ num * Nat.pow 10 (-e).toNat)

/-- The exponent of the leading decimal digit of `num / den`, which is `m · 2^q` for a number with
significand `m`. The logarithm is estimated to within one and then corrected. -/
def decimalExponent (num den : Nat) : Int :=
  let estimate := (((Nat.log2 num : Int) - (Nat.log2 den : Int)) * 30103).fdiv 100000
  if tenPowLe (estimate + 1) num den then estimate + 1
  else if tenPowLe estimate num den then estimate
  else estimate - 1

/-- The point with `count` digits nearest to a number, if one of the two around it reads back.
`num / den` is the number; `below / den` and `above / den` are how far the reals that round to it
reach, the ends included when `closed`. -/
def gridPoint? (num den below above : Nat) (closed : Bool) (leading : Int) (count : Nat) :
    Option Decimal :=
  let e := leading - (count - 1 : Nat)
  let up := Nat.pow 10 (-e).toNat
  let unit := den * Nat.pow 10 e.toNat
  let k := num * up / unit
  let rest := num * up % unit
  let within (distance reach : Nat) : Bool :=
    if closed then decide (distance ≤ reach) else decide (distance < reach)
  let lower := within rest (below * up)
  let upper := within (unit - rest) (above * up)
  match lower, upper with
  | false, false => none
  | true, false => some ⟨k, e⟩
  | false, true => some ⟨k + 1, e⟩
  | true, true =>
    if 2 * rest < unit then some ⟨k, e⟩
    else if unit < 2 * rest then some ⟨k + 1, e⟩
    else some ⟨k + k % 2, e⟩

/-- The shortest digits that read back as a positive finite number. Seventeen always do. -/
def shortest (x : Binary64) : Decimal :=
  let m := x.significand
  let q := x.scale - 2
  let up := 1 <<< q.toNat
  let den := 1 <<< (-q).toNat
  let num := 4 * m * up
  let above := 2 * up
  let below := if x.fraction = 0 ∧ 1 < x.exponentField then up else above
  let leading := decimalExponent num den
  let counts := (List.range 17).map (· + 1)
  match counts.findSome? (gridPoint? num den below above (m % 2 == 0) leading) with
  | some d => d
  | none => ⟨m, q + 2⟩

/-- The characters of a natural number, without trailing zeros, and how many zeros there were. -/
def trimZeros (n : Nat) : List Char × Nat :=
  let reversed := (Nat.toDigits 10 n).reverse
  let zeros := (reversed.takeWhile (· = '0')).length
  ((reversed.drop zeros).reverse, zeros)

/-- The text of a finite number. With `d.ddd · 10^e` as its shortest digits, `e` from -5 to 15 is
written positionally with at least one fraction digit, anything else with an exponent that always
has a sign. -/
def text (x : Binary64) : String :=
  let sign := if x.negative then "-" else ""
  if x.isZero then sign ++ "0.0"
  else
    let d := x.shortest
    let (digits, zeros) := trimZeros d.digits
    let count := digits.length
    let e := d.exponent + zeros + (count - 1 : Nat)
    let body :=
      if -5 ≤ e ∧ e < 0 then
        "0." ++ String.ofList (List.replicate ((-e).toNat - 1) '0' ++ digits)
      else if 0 ≤ e ∧ e ≤ 15 then
        let whole := e.toNat + 1
        if count ≤ whole then
          String.ofList (digits ++ List.replicate (whole - count) '0') ++ ".0"
        else String.ofList (digits.take whole) ++ "." ++ String.ofList (digits.drop whole)
      else
        let mantissa :=
          if count = 1 then String.ofList digits
          else String.ofList (digits.take 1) ++ "." ++ String.ofList (digits.drop 1)
        mantissa ++ (if e < 0 then "e-" else "e+") ++ toString e.natAbs
    sign ++ body

end Binary64
end ApiSchema

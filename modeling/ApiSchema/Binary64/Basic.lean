/-!
Binary floating point numbers of 64 bits, as bits with exact arithmetic on their values.

A finite number is `±m · 2^q` for the natural number `significand` and the integer `scale`. Every
operation computes the exact ratio of two natural numbers and rounds it once, to the nearest number
and to the even neighbour on a tie (`ofRatio`). Nothing here depends on the machine's own floats, so
all of it evaluates in the kernel.
-/

namespace ApiSchema

/-- A binary64 number by its bit pattern: sign, 11 bits of exponent, 52 bits of fraction. -/
structure Binary64 where
  bits : UInt64
deriving DecidableEq, Repr, Inhabited

namespace Binary64

/-- The weight of the sign bit, `2^63`. -/
def signWeight : Nat :=
  0x8000000000000000

/-- The weight of the lowest bit of the exponent field, `2^52`. -/
def exponentWeight : Nat :=
  0x10000000000000

def negative (x : Binary64) : Bool :=
  decide (signWeight ≤ x.bits.toNat)

def exponentField (x : Binary64) : Nat :=
  x.bits.toNat / exponentWeight % 2048

def fraction (x : Binary64) : Nat :=
  x.bits.toNat % exponentWeight

def isNan (x : Binary64) : Bool :=
  x.exponentField == 2047 && x.fraction != 0

def isFinite (x : Binary64) : Bool :=
  x.exponentField != 2047

def isZero (x : Binary64) : Bool :=
  x.bits.toNat % signWeight == 0

/-- The natural number `m` of a finite `±m · 2^q`. -/
def significand (x : Binary64) : Nat :=
  if x.exponentField = 0 then x.fraction else x.fraction + exponentWeight

/-- The integer `q` of a finite `±m · 2^q`. -/
def scale (x : Binary64) : Int :=
  (max 1 x.exponentField : Nat) - 1075

/-- Numeric equality: a not-a-number equals nothing, and the two zeros are equal. -/
def numericEq (x y : Binary64) : Bool :=
  !x.isNan && !y.isNan && (x.bits == y.bits || (x.isZero && y.isZero))

theorem numericEq_comm (x y : Binary64) : numericEq x y = numericEq y x := by
  simp only [numericEq, Bool.beq_comm (a := x.bits), Bool.and_comm (x := x.isZero)]
  cases x.isNan <;> cases y.isNan <;> rfl

theorem numericEq_self {x : Binary64} (h : x.isNan = false) : numericEq x x = true := by
  simp [numericEq, h]

def infinityBits : Nat :=
  2047 * exponentWeight

/-- The quotient nearest to `num / den`, the even one of two equally near. -/
def divideToEven (num den : Nat) : Nat :=
  let quotient := num / den
  let twice := 2 * (num % den)
  if twice < den then quotient
  else if den < twice then quotient + 1
  else quotient + quotient % 2

/-- The exponent of the leading binary digit of `num / den`, for positive `num` and `den`. -/
def leadingExponent (num den : Nat) : Int :=
  let guess : Int := (Nat.log2 num : Int) - (Nat.log2 den : Int)
  let reached :=
    if 0 ≤ guess then den <<< guess.toNat ≤ num else den ≤ num <<< (-guess).toNat
  if reached then guess else guess - 1

/-- The bits, sign aside, of the number nearest to `num / den`. The scale is the one that leaves 53
binary digits, but never below that of the subnormal numbers; a quotient rounded up to the next
power of two carries into the exponent field by itself, and what lies beyond the largest number is
infinity. -/
def magnitudeBits (num den : Nat) : Nat :=
  if num = 0 then 0
  else
    let q := max (leadingExponent num den - 52) (-1074)
    let m :=
      if 0 ≤ q then divideToEven num (den <<< q.toNat)
      else divideToEven (num <<< (-q).toNat) den
    min ((q + 1074).toNat * exponentWeight + m) infinityBits

/-- The number nearest to `± num / den`. -/
def ofRatio (sign : Bool) (num den : Nat) : Binary64 :=
  ⟨UInt64.ofNat ((if sign then signWeight else 0) + magnitudeBits num den)⟩

/-- The number nearest to `± (num / den) · 2^e`. -/
def ofScaled (sign : Bool) (num den : Nat) (e : Int) : Binary64 :=
  if 0 ≤ e then ofRatio sign (num <<< e.toNat) den else ofRatio sign num (den <<< (-e).toNat)

def ofNat (n : Nat) : Binary64 :=
  ofRatio false n 1

def ofInt (i : Int) : Binary64 :=
  ofRatio (decide (i < 0)) i.natAbs 1

/-- The same number with the sign reversed. -/
def negate (x : Binary64) : Binary64 :=
  ⟨x.bits ^^^ 0x8000000000000000⟩

/-- The rounded product of two finite numbers. -/
def mul (x y : Binary64) : Binary64 :=
  ofScaled (x.negative != y.negative) (x.significand * y.significand) 1 (x.scale + y.scale)

/-- The rounded quotient of two finite numbers, the second not zero. -/
def div (x y : Binary64) : Binary64 :=
  ofScaled (x.negative != y.negative) x.significand y.significand (x.scale - y.scale)

def tenPow (n : Nat) : Binary64 :=
  ofNat (Nat.pow 10 n)

/-- The number nearest to `± digits · 10^e`. Exponents far outside the range are settled by the
length of the digits alone. -/
def ofDecimal (sign : Bool) (digits : Nat) (e : Int) : Binary64 :=
  let length : Int := (Nat.log2 digits : Int) * 30103 / 100000 + 1
  if digits = 0 then ofRatio sign 0 1
  else if 400 < e + length then ⟨UInt64.ofNat ((if sign then signWeight else 0) + infinityBits)⟩
  else if e + length < -400 then ofRatio sign 0 1
  else if 0 ≤ e then ofRatio sign (digits * Nat.pow 10 e.toNat) 1
  else ofRatio sign digits (Nat.pow 10 (-e).toNat)

def hex (x : Binary64) : String :=
  let digits := Nat.toDigits 16 x.bits.toNat
  String.ofList (List.replicate (16 - digits.length) '0' ++ digits)

def ofHex? (text : String) : Option Binary64 :=
  let digit (c : Char) : Option Nat :=
    if '0' ≤ c ∧ c ≤ '9' then some (c.toNat - '0'.toNat)
    else if 'a' ≤ c ∧ c ≤ 'f' then some (c.toNat - 'a'.toNat + 10)
    else if 'A' ≤ c ∧ c ≤ 'F' then some (c.toNat - 'A'.toNat + 10)
    else none
  text.toList.foldlM (fun n c => (digit c).map (16 * n + ·)) 0 |>.map fun n => ⟨UInt64.ofNat n⟩

example : ofNat 2 = ⟨0x4000000000000000⟩ := by decide
example : ofRatio false 1 10 = ⟨0x3fb999999999999a⟩ := by decide
example : ofRatio true 5 (Nat.pow 10 324) = ⟨0x8000000000000001⟩ := by decide +kernel
example : ofNat 0xffffffffffffffff = ⟨0x43f0000000000000⟩ := by decide

end Binary64

end ApiSchema

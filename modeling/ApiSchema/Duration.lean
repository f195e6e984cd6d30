/-!
Lengths of time in whole nanoseconds, and their text.

The text takes the largest of `s`, `ms`, `µs` and `ns` that goes into the duration at least once,
and gives the exact fraction without trailing zeros.
-/

namespace ApiSchema

structure Duration where
  nanoseconds : Nat
deriving DecidableEq, Repr, Inhabited

namespace Duration

def perSecond : Nat :=
  1000000000

def ofMilliseconds (n : Nat) : Duration :=
  ⟨n * 1000000⟩

def ofParts (seconds nanoseconds : Nat) : Duration :=
  ⟨seconds * perSecond + nanoseconds⟩

def seconds (d : Duration) : Nat :=
  d.nanoseconds / perSecond

def subsecond (d : Duration) : Nat :=
  d.nanoseconds % perSecond

/-- The quotient `n / 10^places` as a decimal without trailing zeros. -/
def decimal (n places : Nat) : String :=
  let unit := Nat.pow 10 places
  let digits := Nat.toDigits 10 (n % unit)
  let padded := List.replicate (places - digits.length) '0' ++ digits
  let fraction := (padded.reverse.dropWhile (· = '0')).reverse
  let whole := toString (n / unit)
  if fraction.isEmpty then whole else whole ++ "." ++ String.ofList fraction

def text (d : Duration) : String :=
  let n := d.nanoseconds
  if perSecond ≤ n then decimal n 9 ++ "s"
  else if 1000000 ≤ n then decimal n 6 ++ "ms"
  else if 1000 ≤ n then decimal n 3 ++ "µs"
  else toString n ++ "ns"

example : (ofMilliseconds 1500).text = "1.5s" := by decide +kernel
example : (Duration.mk 1001).text = "1.001µs" := by decide +kernel
example : (Duration.mk 0).text = "0ns" := by decide +kernel

end Duration

end ApiSchema

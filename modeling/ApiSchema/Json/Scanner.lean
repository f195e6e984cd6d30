import ApiSchema.Json.Fault
import ApiSchema.Json.Value

/-!
Scanning the parts of a JSON text that hold no other values: blanks, words, quoted texts and
numbers.

A `Cursor` is what remains of the text together with the number of bytes already passed, so that
every fault can name its position.
-/

namespace ApiSchema
namespace Json

/-- A place in a text: the characters still to come and the bytes before them. -/
structure Cursor where
  rest : List Char
  offset : Nat

namespace Cursor

def start (text : String) : Cursor :=
  ⟨text.toList, 0⟩

def skip (c : Cursor) : Cursor :=
  match c.rest with
  | [] => c
  | x :: rest => ⟨rest, c.offset + x.utf8Size⟩

def drop (c : Cursor) (count : Nat) : Cursor :=
  ⟨c.rest.drop count, c.offset + count⟩

/-- A fault at the byte that comes next, or at the end when there is none. -/
def fault (c : Cursor) (reason : Reason) : Fault :=
  ⟨reason, if c.rest.isEmpty then c.offset else c.offset + 1⟩

/-- A fault at the last byte passed. -/
def faultBefore (c : Cursor) (reason : Reason) : Fault :=
  ⟨reason, c.offset⟩

end Cursor

def isBlank (c : Char) : Bool :=
  c == ' ' || c == '\t' || c == '\n' || c == '\r'

def isDigit (c : Char) : Bool :=
  decide ('0' ≤ c) && decide (c ≤ '9')

def digitValue (c : Char) : Nat :=
  c.toNat - '0'.toNat

def Cursor.skipBlanks (c : Cursor) : Cursor :=
  c.drop (c.rest.takeWhile isBlank).length

/-- Passes over the remaining characters of a word whose first has been read. -/
def scanWord : List Char → Cursor → Except Fault Cursor
  | [], c => .ok c
  | expected :: more, c =>
    match c.rest with
    | [] => .error (c.fault .endInValue)
    | x :: _ => if x = expected then scanWord more c.skip else .error (c.fault .expectedWord)

def hexValue? (c : Char) : Option Nat :=
  if isDigit c then some (digitValue c)
  else if 'a' ≤ c ∧ c ≤ 'f' then some (c.toNat - 'a'.toNat + 10)
  else if 'A' ≤ c ∧ c ≤ 'F' then some (c.toNat - 'A'.toNat + 10)
  else none

/-- Four hexadecimal digits. They are taken as four bytes, so a fault among them stands at the
fourth byte and a text with fewer left has ended too early. -/
def scanHex4 (c : Cursor) : Except Fault (Nat × Cursor) :=
  let bytes := (c.rest.take 4).foldl (fun n x => n + x.utf8Size) 0
  if bytes < 4 then .error ⟨.endInString, c.offset + bytes⟩
  else
    match c.rest with
    | a :: b :: x :: y :: rest =>
      match hexValue? a, hexValue? b, hexValue? x, hexValue? y with
      | some a, some b, some x, some y =>
        .ok (((a * 16 + b) * 16 + x) * 16 + y, ⟨rest, c.offset + 4⟩)
      | _, _, _, _ => .error ⟨.invalidEscape, c.offset + 4⟩
    | _ => .error ⟨.invalidEscape, c.offset + 4⟩

/-- The character of a `\u` escape whose `\u` has been read. A character beyond U+FFFF is written as
a high and a low surrogate, one escape each. -/
def scanUnicodeEscape (c : Cursor) : Except Fault (Char × Cursor) := do
  let (high, c) ← scanHex4 c
  if 0xDC00 ≤ high ∧ high ≤ 0xDFFF then throw (c.faultBefore .loneSurrogate)
  if high < 0xD800 ∨ 0xDBFF < high then return (Char.ofNat high, c)
  match c.rest with
  | [] => throw (c.fault .endInString)
  | '\\' :: _ =>
    let c := c.skip
    match c.rest with
    | [] => throw (c.fault .endInString)
    | 'u' :: _ =>
      let (low, c) ← scanHex4 c.skip
      if low < 0xDC00 ∨ 0xDFFF < low then throw (c.faultBefore .loneSurrogate)
      return (Char.ofNat ((high - 0xD800) * 0x400 + (low - 0xDC00) + 0x10000), c)
    | _ => throw (c.fault .brokenSurrogatePair)
  | _ => throw (c.fault .brokenSurrogatePair)

def escapedChar? : Char → Option Char
  | '"' => some '"'
  | '\\' => some '\\'
  | '/' => some '/'
  | 'b' => some '\x08'
  | 'f' => some '\x0c'
  | 'n' => some '\n'
  | 'r' => some '\r'
  | 't' => some '\t'
  | _ => none

/-- The next character of a quoted text, or none at the closing quote. -/
def scanQuotedChar (c : Cursor) : Except Fault (Option Char × Cursor) :=
  match c.rest with
  | [] => .error (c.fault .endInString)
  | '"' :: _ => .ok (none, c.skip)
  | '\\' :: _ =>
    let c := c.skip
    match c.rest with
    | [] => .error (c.fault .endInString)
    | 'u' :: _ => do
      let (x, c) ← scanUnicodeEscape c.skip
      return (some x, c)
    | x :: _ =>
      match escapedChar? x with
      | some y => .ok (some y, c.skip)
      | none => .error (c.fault .invalidEscape)
  | x :: _ =>
    if x.toNat < 0x20 then .error (c.fault .controlCharacter) else .ok (some x, c.skip)

/-- The characters of a quoted text up to its closing quote, latest first before `read`. Every step
passes over a character, so as many steps as characters are enough. -/
def scanQuotedChars : (steps : Nat) → (read : List Char) → Cursor →
    Except Fault (List Char × Cursor)
  | 0, _, c => .error (c.fault .endInString)
  | steps + 1, read, c => do
    match ← scanQuotedChar c with
    | (none, c) => return (read.reverse, c)
    | (some x, c) => scanQuotedChars steps (x :: read) c

def scanQuoted (c : Cursor) : Except Fault (String × Cursor) := do
  let (chars, c) ← scanQuotedChars (c.rest.length + 1) [] c
  return (String.ofList chars, c)

/-- The first natural number that 64 bits cannot hold. -/
def wordLimit : Nat :=
  0x10000000000000000

/-- Digits of a number as a significand below `wordLimit` and a power of ten. -/
structure Digits where
  significand : Nat
  exponent : Int

/-- Adds a digit of the integer part. From the first digit that does not fit, each raises the
exponent instead. -/
def Digits.addInteger (d : Digits) (c : Char) : Digits :=
  let grown := d.significand * 10 + digitValue c
  if d.exponent = 0 ∧ grown < wordLimit then ⟨grown, 0⟩ else ⟨d.significand, d.exponent + 1⟩

/-- Adds the digits of the fraction. From the first digit that does not fit, all are dropped. -/
def Digits.addFraction (d : Digits) : List Char → Digits
  | [] => d
  | c :: rest =>
    let grown := d.significand * 10 + digitValue c
    if grown < wordLimit then addFraction ⟨grown, d.exponent - 1⟩ rest else d

/-- The largest exponent that is told from all larger ones. -/
def exponentLimit : Nat :=
  0x7fffffff

/-- The value of exponent digits, or how many of them it took to pass `exponentLimit`. -/
def scanExponentDigits : List Char → (value count : Nat) → Except Nat Nat
  | [], value, _ => .ok value
  | c :: rest, value, count =>
    let grown := value * 10 + digitValue c
    if exponentLimit < grown then .error (count + 1) else scanExponentDigits rest grown (count + 1)

/-- Keeps an exponent between the smallest and the largest number of 32 bits. -/
def clampExponent (e : Int) : Int :=
  max (-0x80000000) (min 0x7fffffff e)

/-- The binary64 number of a significand and a power of ten, or none beyond the largest number. The
significand is rounded first and then multiplied or divided once, or more often where the power
itself is out of range; `divisions` bounds how often, and three leave nothing of any significand. -/
def scaleByTen (f : Binary64) (e : Int) : (divisions : Nat) → Option Binary64
  | 0 => some (Binary64.ofNat 0)
  | divisions + 1 =>
    if e.natAbs ≤ 308 then
      if 0 ≤ e then
        let product := f.mul (Binary64.tenPow e.natAbs)
        if product.isFinite then some product else none
      else some (f.div (Binary64.tenPow e.natAbs))
    else if f.isZero then some f
    else if 0 ≤ e then none
    else scaleByTen (f.div (Binary64.tenPow 308)) (e + 308) divisions

/-- The value of the digits of a number that is not an integer. -/
def Digits.toReal? (d : Digits) (sign : Bool) : Option Json :=
  (scaleByTen (Binary64.ofNat d.significand) d.exponent 3).map fun x =>
    .real (if sign then x.negate else x)

/-- Ends a number that is not an integer: reads an exponent, if one comes next, and rounds. -/
def scanExponent (sign : Bool) (d : Digits) (c : Cursor) : Except Fault (Json × Cursor) :=
  let settle (d : Digits) (c : Cursor) : Except Fault (Json × Cursor) :=
    match d.toReal? sign with
    | some value => .ok (value, c)
    | none => .error (c.faultBefore .numberOutOfRange)
  match c.rest with
  | x :: _ =>
    if x = 'e' ∨ x = 'E' then
      let c := c.skip
      let (lowers, c) : Bool × Cursor := match c.rest with
        | '-' :: _ => (true, c.skip)
        | '+' :: _ => (false, c.skip)
        | _ => (false, c)
      let digits := c.rest.takeWhile isDigit
      let after := c.drop digits.length
      if digits.isEmpty then
        .error (c.fault (if c.rest.isEmpty then .endInValue else .invalidNumber))
      else
        match scanExponentDigits digits 0 0 with
        | .ok e =>
          let e := if lowers then d.exponent - e else d.exponent + e
          settle ⟨d.significand, clampExponent e⟩ after
        | .error count =>
          if lowers ∨ d.significand = 0 then
            let zero := Binary64.ofNat 0
            .ok (.real (if sign then zero.negate else zero), after)
          else .error ((c.drop count).faultBefore .numberOutOfRange)
    else settle d c
  | [] => settle d c

/-- A number, from its sign or first digit on. Without point and exponent it is an integer if it
fits, except that `-0` is a real. -/
def scanNumber (c : Cursor) : Except Fault (Json × Cursor) :=
  let (sign, c) : Bool × Cursor := match c.rest with
    | '-' :: _ => (true, c.skip)
    | _ => (false, c)
  let digits := c.rest.takeWhile isDigit
  match digits with
  | [] => .error (c.fault (if c.rest.isEmpty then .endInValue else .invalidNumber))
  | '0' :: _ :: _ => .error (c.skip.fault .invalidNumber)
  | _ =>
    let d := digits.foldl Digits.addInteger ⟨0, 0⟩
    let c := c.drop digits.length
    match c.rest with
    | '.' :: _ =>
      let c := c.skip
      let fraction := c.rest.takeWhile isDigit
      if fraction.isEmpty then
        .error (c.fault (if c.rest.isEmpty then .endInValue else .invalidNumber))
      else scanExponent sign (d.addFraction fraction) (c.drop fraction.length)
    | 'e' :: _ | 'E' :: _ => scanExponent sign d c
    | _ =>
      if d.exponent = 0 then
        if sign then
          if 0 < d.significand ∧ d.significand ≤ 0x8000000000000000 then
            .ok (.integer (-(d.significand : Int)), c)
          else .ok (.real (Binary64.ofNat d.significand).negate, c)
        else .ok (.integer d.significand, c)
      else scanExponent sign d c

end Json
end ApiSchema

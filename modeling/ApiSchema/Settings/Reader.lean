import ApiSchema.Json.Reader
import ApiSchema.Settings.Basic

/-!
Settings as JSON text.

Settings are written as an object with the optional members `workers` and `timeout`, or as an array
of the two that may stop early. A timeout is `null` or a duration: an object with `secs` and
`nanos`, or an array of both. The text is read from left to right and the first refusal met is the
answer, be the text malformed, cut short, or well formed with the wrong content.
-/

namespace ApiSchema
namespace Settings

open Json (Cursor)

/-- Why a text gives no settings. -/
inductive Refusal where
  /-- It is no JSON. -/
  | malformed
  /-- It ends too early. -/
  | ended
  /-- It is JSON but gives no settings. -/
  | mismatched
deriving DecidableEq, Repr

/-- A fault of the text as a refusal. -/
def Refusal.ofFault (fault : Json.Fault) : Refusal :=
  if fault.reason.isEnd then ended else malformed

/-- A scanning step whose faults become refusals. -/
def scan {α : Type} (step : Except Json.Fault α) : Except Refusal α :=
  step.mapError Refusal.ofFault

/-- Refuses a value of the wrong kind. A scalar is read first, so that a fault in it comes before;
an array or object is refused at its bracket. -/
def refuseValue {α : Type} (c : Cursor) : Except Refusal α :=
  match c.rest with
  | [] => .error .ended
  | '[' :: _ | '{' :: _ => .error .mismatched
  | _ => do
    let _ ← scan (Json.readValue 1 0 c)
    throw .mismatched

def readNatural (bound : Nat) (c : Cursor) : Except Refusal (Nat × Cursor) :=
  let c := c.skipBlanks
  match c.rest with
  | [] => .error .ended
  | x :: _ =>
    if x = '-' ∨ Json.isDigit x then do
      let (value, c) ← scan (Json.scanNumber c)
      match value.natural? with
      | some n => if n ≤ bound then return (n, c) else throw .mismatched
      | none => throw .mismatched
    else refuseValue c

/-- Passes over what stands before the next array item, or says that there is none. -/
def nextItem (first : Bool) (c : Cursor) : Except Refusal (Option Cursor) :=
  let c := c.skipBlanks
  match c.rest with
  | [] => .error .ended
  | ']' :: _ => .ok none
  | ',' :: _ =>
    if first then .ok (some c)
    else
      let c := c.skip.skipBlanks
      match c.rest with
      | [] => .error .ended
      | ']' :: _ => .error .malformed
      | _ => .ok (some c)
  | _ => if first then .ok (some c) else .error .malformed

def closeArray (c : Cursor) : Except Refusal Cursor :=
  let c := c.skipBlanks
  match c.rest with
  | [] => .error .ended
  | ']' :: _ => .ok c.skip
  | _ => .error .malformed

/-- The next key of an object, or none at its closing brace. -/
def nextKey (first : Bool) (c : Cursor) : Except Refusal (Option (String × Cursor)) :=
  let key (c : Cursor) : Except Refusal (Option (String × Cursor)) :=
    match c.rest with
    | [] => .error .ended
    | '"' :: _ => do return some (← scan (Json.scanQuoted c.skip))
    | _ => .error .malformed
  let c := c.skipBlanks
  match c.rest with
  | [] => .error .ended
  | '}' :: _ => .ok none
  | ',' :: _ => if first then .error .malformed else key c.skip.skipBlanks
  | _ => if first then key c else .error .malformed

def expectColon (c : Cursor) : Except Refusal Cursor :=
  let c := c.skipBlanks
  match c.rest with
  | [] => .error .ended
  | ':' :: _ => .ok c.skip
  | _ => .error .malformed

/-- Reads the members of an object, which may only be those that `read` knows; `read` gives none for
a key that is unknown or was there before. Every step passes over a member. -/
def readMembers {σ : Type} (read : String → σ → Option (Cursor → Except Refusal (σ × Cursor))) :
    (steps : Nat) → (first : Bool) → σ → Cursor → Except Refusal (σ × Cursor)
  | 0, _, _, _ => .error .ended
  | steps + 1, first, state, c => do
    match ← nextKey first c with
    | none => return (state, c.skipBlanks.skip)
    | some (key, c) =>
      match read key state with
      | none => throw .mismatched
      | some value =>
        let (state, c) ← value (← expectColon c)
        readMembers read steps false state c

def maxWord : Nat := 0xffffffffffffffff

def maxHalfWord : Nat := 0xffffffff

/-- A duration of whole seconds and nanoseconds, if the seconds still fit a word after the
nanoseconds have been carried. -/
def checkDuration (seconds nanoseconds : Nat) : Except Refusal Duration :=
  if seconds + nanoseconds / Duration.perSecond ≤ maxWord then
    .ok (.ofParts seconds nanoseconds)
  else .error .mismatched

def readDuration (c : Cursor) : Except Refusal (Duration × Cursor) :=
  let c := c.skipBlanks
  match c.rest with
  | '{' :: _ => do
    let read (key : String) (state : Option Nat × Option Nat) :
        Option (Cursor → Except Refusal ((Option Nat × Option Nat) × Cursor)) :=
      if key = "secs" ∧ state.1.isNone then
        some fun c => do
          let (n, c) ← readNatural maxWord c
          return ((some n, state.2), c)
      else if key = "nanos" ∧ state.2.isNone then
        some fun c => do
          let (n, c) ← readNatural maxHalfWord c
          return ((state.1, some n), c)
      else none
    let (parts, after) ← readMembers read 3 true (none, none) c.skip
    match parts with
    | (some seconds, some nanoseconds) => return (← checkDuration seconds nanoseconds, after)
    | _ => throw .mismatched
  | '[' :: _ => do
    let some c ← nextItem true c.skip | throw .mismatched
    let (seconds, c) ← readNatural maxWord c
    let some c ← nextItem false c | throw .mismatched
    let (nanoseconds, c) ← readNatural maxHalfWord c
    let d ← checkDuration seconds nanoseconds
    return (d, ← closeArray c)
  | _ => refuseValue c

/-- A timeout: nothing, or a duration. -/
def readLimit (c : Cursor) : Except Refusal (Option Duration × Cursor) :=
  let c := c.skipBlanks
  match c.rest with
  | 'n' :: _ => do return (none, ← scan (Json.scanWord ['u', 'l', 'l'] c.skip))
  | _ => do
    let (d, c) ← readDuration c
    return (some d, c)

def readWorkers (c : Cursor) : Except Refusal (WorkerCount × Cursor) := do
  let (n, c) ← readNatural maxWord c
  if h : 0 < n then return (.exactly n h, c) else throw .mismatched

/-- What has been read of settings so far. -/
structure Draft where
  workers : Option WorkerCount := none
  limit : Option (Option Duration) := none

/-- Settings with defaults for what is missing. -/
def Draft.complete (p : Draft) : Settings where
  workers := p.workers.getD .processors
  limit := p.limit.getD none

def readMember (key : String) (p : Draft) :
    Option (Cursor → Except Refusal (Draft × Cursor)) :=
  if key = "workers" ∧ p.workers.isNone then
    some fun c => do
      let (workers, c) ← readWorkers c
      return ({ p with workers := some workers }, c)
  else if key = "timeout" ∧ p.limit.isNone then
    some fun c => do
      let (limit, c) ← readLimit c
      return ({ p with limit := some limit }, c)
  else none

def readArray (c : Cursor) : Except Refusal (Draft × Cursor) := do
  let some first ← nextItem true c | return ({}, ← closeArray c)
  let (workers, c) ← readWorkers first
  let some second ← nextItem false c | return ({ workers := some workers }, ← closeArray c)
  let (limit, c) ← readLimit second
  return ({ workers := some workers, limit := some limit }, ← closeArray c)

/-- The settings that a text gives. -/
def parse (text : String) : Except Refusal Settings := do
  let c := (Cursor.start text).skipBlanks
  let (settings, c) ← match c.rest with
    | '{' :: _ => readMembers readMember 3 true {} c.skip
    | '[' :: _ => readArray c.skip
    | _ => refuseValue c
  scan (Json.expectEnd c)
  return settings.complete

/-- The compact JSON text of settings with a known number of workers. -/
def text (workers : Nat) (limit : Option Duration) : String :=
  let limit := match limit with
    | none => "null"
    | some d =>
      "\x7b\"secs\":" ++ toString d.seconds ++ ",\"nanos\":" ++ toString d.subsecond ++ "\x7d"
  "\x7b\"workers\":" ++ toString workers ++ ",\"timeout\":" ++ limit ++ "\x7d"

end Settings
end ApiSchema

import ApiSchema.Json.Scanner

/-!
Reading a JSON text as a value.

The first fault met from left to right is the one reported. Arrays and objects may be nested up to
`nestingLimit` deep. A repeated member key keeps its first position and takes its last value.
-/

namespace ApiSchema
namespace Json

/-- One more open array or object than this is too many. -/
def nestingLimit : Nat :=
  127

mutual

/-- A value, from its first character on. `room` is how many more arrays or objects may be opened;
`steps` bounds the recursion, and every step passes over a character of the text. -/
def readValue (steps room : Nat) (c : Cursor) : Except Fault (Json × Cursor) :=
  match steps with
  | 0 => .error (c.fault .endInValue)
  | steps + 1 =>
    let c := c.skipBlanks
    match c.rest with
    | [] => .error (c.fault .endInValue)
    | 'n' :: _ => do return (.null, ← scanWord ['u', 'l', 'l'] c.skip)
    | 't' :: _ => do return (.bool true, ← scanWord ['r', 'u', 'e'] c.skip)
    | 'f' :: _ => do return (.bool false, ← scanWord ['a', 'l', 's', 'e'] c.skip)
    | '"' :: _ => do
      let (s, c) ← scanQuoted c.skip
      return (.str s, c)
    | '[' :: _ =>
      match room with
      | 0 => .error (c.fault .tooDeep)
      | room + 1 => do
        let (items, c) ← readItems steps room true c.skip
        return (.arr items, c)
    | '{' :: _ =>
      match room with
      | 0 => .error (c.fault .tooDeep)
      | room + 1 => do
        let (members, c) ← readMembers steps room true [] c.skip
        return (.obj members, c)
    | x :: _ => if x = '-' ∨ isDigit x then scanNumber c else .error (c.fault .expectedValue)

def readItems (steps room : Nat) (first : Bool) (c : Cursor) :
    Except Fault (List Json × Cursor) :=
  match steps with
  | 0 => .error (c.fault .endInList)
  | steps + 1 =>
    let c := c.skipBlanks
    match c.rest with
    | [] => .error (c.fault .endInList)
    | ']' :: _ => .ok ([], c.skip)
    | x :: _ =>
      if first then do
        let (item, c) ← readValue steps room c
        let (items, c) ← readItems steps room false c
        return (item :: items, c)
      else if x = ',' then
        let c := c.skip.skipBlanks
        match c.rest with
        | ']' :: _ => .error (c.fault .trailingComma)
        | _ => do
          let (item, c) ← readValue steps room c
          let (items, c) ← readItems steps room false c
          return (item :: items, c)
      else .error (c.fault .expectedListEnd)

/-- The members of an object up to and over its closing brace, added to those `read` so far. -/
def readMembers (steps room : Nat) (first : Bool) (read : List (String × Json)) (c : Cursor) :
    Except Fault (List (String × Json) × Cursor) :=
  match steps with
  | 0 => .error (c.fault .endInObject)
  | steps + 1 =>
    let c := c.skipBlanks
    match c.rest with
    | [] => .error (c.fault .endInObject)
    | '}' :: _ => .ok (read, c.skip)
    | x :: _ =>
      if first then readMember steps room read c
      else if x = ',' then
        let c := c.skip.skipBlanks
        match c.rest with
        | [] => .error (c.fault .endInValue)
        | '}' :: _ => .error (c.fault .trailingComma)
        | _ => readMember steps room read c
      else .error (c.fault .expectedObjectEnd)

/-- A member, from its key on, and those after it. -/
def readMember (steps room : Nat) (read : List (String × Json)) (c : Cursor) :
    Except Fault (List (String × Json) × Cursor) :=
  match steps with
  | 0 => .error (c.fault .endInObject)
  | steps + 1 =>
    match c.rest with
    | '"' :: _ => do
      let (key, c) ← scanQuoted c.skip
      let c := c.skipBlanks
      match c.rest with
      | [] => throw (c.fault .endInObject)
      | ':' :: _ =>
        let (value, c) ← readValue steps room c.skip
        readMembers steps room false (OrderedMap.insert key value read) c
      | _ => throw (c.fault .expectedColon)
    | _ => .error (c.fault .keyNotString)

end

/-- Refuses anything but blanks up to the end of the text. -/
def expectEnd (c : Cursor) : Except Fault Unit :=
  let c := c.skipBlanks
  if c.rest.isEmpty then .ok () else .error (c.fault .trailingCharacters)

/-- The value that a JSON text stands for, or the first fault in it. -/
def parse (text : String) : Except Fault Json := do
  let c := Cursor.start text
  let (value, c) ← readValue (3 * c.rest.length + 3) nestingLimit c
  expectEnd c
  return value

end Json
end ApiSchema

/-!
JSON pointers (RFC 6901): where in a document a key, a value or a schema stands.

A pointer is extended by a member key or by an array index. A key is escaped before it is appended,
so the pointer of a path says unambiguously which keys were followed; `Pointer.segments?` reads them
back.
-/

namespace ApiSchema

/-- A location in a document, held as the text of its JSON pointer. The root is the empty text. -/
structure Pointer where
  text : String
deriving DecidableEq, Repr, Inhabited

namespace Pointer

/-- The whole document. -/
def root : Pointer := ⟨""⟩

/-- How one character of a key is written: `~` as `~0`, `/` as `~1`, all else as itself. -/
def escapeChar : Char → List Char
  | '~' => ['~', '0']
  | '/' => ['~', '1']
  | c => [c]

/-- A key as one segment of a pointer. It holds no `/`. -/
def escape (key : String) : String :=
  String.ofList (key.toList.flatMap escapeChar)

/-- Reads escaped characters back. A `~` that starts no escape stands for itself. -/
def unescapeChars : List Char → List Char
  | '~' :: '0' :: rest => '~' :: unescapeChars rest
  | '~' :: '1' :: rest => '/' :: unescapeChars rest
  | c :: rest => c :: unescapeChars rest
  | [] => []

/-- The key that a segment was written for. -/
def unescape (segment : String) : String :=
  String.ofList (unescapeChars segment.toList)

/-- The member called `key` below this location. -/
def child (p : Pointer) (key : String) : Pointer :=
  ⟨p.text ++ "/" ++ escape key⟩

def element (p : Pointer) (index : Nat) : Pointer :=
  ⟨p.text ++ "/" ++ toString index⟩

/-- The location as a reader sees it, with the `#` that stands for the document. -/
def display (p : Pointer) : String :=
  "#" ++ p.text

/-- Cuts a text at every `/`. -/
def splitSlash : List Char → List (List Char)
  | [] => [[]]
  | c :: rest =>
    match splitSlash rest with
    | [] => [[c]]
    | head :: tail => if c = '/' then [] :: head :: tail else (c :: head) :: tail

/-- The keys along a pointer, or nothing when a non-empty text does not start with `/`. -/
def segments? (p : Pointer) : Option (List String) :=
  match p.text.toList with
  | [] => some []
  | '/' :: rest => some ((splitSlash rest).map fun s => String.ofList (unescapeChars s))
  | _ :: _ => none

end Pointer

end ApiSchema

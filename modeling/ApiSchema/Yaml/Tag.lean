/-!
Tags.

A tag may hold escaped bytes, and those need not encode a character. Such a tag still differs from
all tags that can be read as a text.
-/

namespace ApiSchema
namespace Yaml

/-- A tag or a part of one, with `none` for escaped bytes that encode no character. -/
structure Tag where
  chars : List (Option Char)
deriving DecidableEq, Repr

namespace Tag

def ofString (s : String) : Tag :=
  ⟨s.toList.map some⟩

def append (t u : Tag) : Tag :=
  ⟨t.chars ++ u.chars⟩

instance : Append Tag := ⟨append⟩

/-- The tag up to its first NUL, which ends it. -/
def trim (t : Tag) : Tag :=
  ⟨t.chars.takeWhile (· != some '\x00')⟩

/-- The text of a tag, unless some of it encodes no character. -/
def text? (t : Tag) : Option String :=
  (t.chars.mapM id).map String.ofList

def isMarked (t : Tag) : Bool :=
  t.chars.head? == some (some '!')

/-- Whether a tag is one of the document's own: these begin with their mark and are texts. -/
def isLocal (t : Tag) : Bool :=
  t.isMarked && t.text?.isSome

theorem text?_ofString (s : String) : (ofString s).text? = some s := by
  have h (l : List Char) : (l.map some).mapM id = some l := by
    induction l with
    | nil => rfl
    | cons c l ih => simp [ih]
  simp [ofString, text?, h]

theorem not_mem_trim (t : Tag) : some '\x00' ∉ t.trim.chars := by
  intro h
  have kept : t.trim.chars.all (· != some '\x00') = true := List.all_takeWhile
  simpa using List.all_eq_true.mp kept _ h

end Tag

end Yaml
end ApiSchema

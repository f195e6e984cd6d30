import ApiSchema.Proofs.Pointer

/-!
Different ways down lead to different pointers.

Below one place, a list of keys can be read off the pointer that it leads to: each key adds one `/`,
and what comes between one `/` and the next is a key in its escaped form.
-/

namespace ApiSchema
namespace Pointer

/-- The place below another that a list of keys leads to. -/
def descend (p : Pointer) (keys : List String) : Pointer :=
  keys.foldl child p

@[simp] theorem descend_nil (p : Pointer) : p.descend [] = p := rfl

theorem descend_append (p : Pointer) (keys keys' : List String) :
    p.descend (keys ++ keys') = (p.descend keys).descend keys' :=
  List.foldl_append

theorem toList_child (p : Pointer) (key : String) :
    (p.child key).text.toList = p.text.toList ++ '/' :: (escape key).toList := by
  simp [child]

theorem toList_descend (p : Pointer) (keys : List String) :
    (p.descend keys).text.toList =
      p.text.toList ++ keys.flatMap fun key => '/' :: (escape key).toList := by
  induction keys generalizing p with
  | nil => simp
  | cons key rest ih =>
      show ((p.child key).descend rest).text.toList = _
      rw [ih, toList_child, List.flatMap_cons, List.append_assoc]

/-- Escaped keys hold no `/`, so each of them is a part of its own. -/
theorem splitSlash_keys (chars : List Char) (keys : List String) :
    splitSlash (chars ++ keys.flatMap fun key => '/' :: (escape key).toList) =
      splitSlash chars ++ keys.map fun key => (escape key).toList := by
  induction keys generalizing chars with
  | nil => simp
  | cons key rest ih =>
      rw [List.flatMap_cons, ← List.append_assoc, ih,
        splitSlash_append chars (slash_notMem_escape key), List.append_assoc]
      rfl

theorem splitSlash_descend (p : Pointer) (keys : List String) :
    splitSlash (p.descend keys).text.toList =
      splitSlash p.text.toList ++ keys.map fun key => (escape key).toList := by
  rw [toList_descend, splitSlash_keys]

/-- The keys of a descent can be read off the pointer. -/
theorem descend_injective {p : Pointer} {keys keys' : List String}
    (h : p.descend keys = p.descend keys') : keys = keys' := by
  have hparts := congrArg (fun p => splitSlash p.text.toList) h
  simp only [splitSlash_descend] at hparts
  have hkeys := congrArg (List.map decode) (List.append_cancel_left hparts)
  simpa [Function.comp_def, decode_escape] using hkeys

/-- A key adds exactly one `/`. -/
theorem count_slash_child (p : Pointer) (key : String) :
    (p.child key).text.toList.count '/' = p.text.toList.count '/' + 1 := by
  rw [toList_child, List.count_append, List.count_cons_self,
    List.count_eq_zero.mpr (slash_notMem_escape key)]

theorem count_slash_descend (p : Pointer) (keys : List String) :
    (p.descend keys).text.toList.count '/' = p.text.toList.count '/' + keys.length := by
  induction keys generalizing p with
  | nil => rfl
  | cons key rest ih =>
      show ((p.child key).descend rest).text.toList.count '/' = _
      rw [ih, count_slash_child, List.length_cons]
      omega

/-- Cut at every `/`, a descent from the root gives its keys, after what comes before the first
`/`. -/
theorem split_descend (keys : List String) :
    ((root.descend keys).text.split '/').toList.map (fun part => decode part.copy.toList) =
      "" :: keys := by
  have hparts : ((root.descend keys).text.split '/').toList.map String.Slice.copy =
      "" :: keys.map escape := by
    rw [String.toList_split_char, ← splitSlash_eq_splitOn, splitSlash_descend]
    simp [root, splitSlash]
  have hnil : decode "".toList = "" := rfl
  have hread := congrArg (List.map fun part : String => decode part.toList) hparts
  simpa only [List.map_map, Function.comp_def, List.map_cons, decode_escape, List.map_id', hnil]
    using hread

/-- `segments?` gives the keys of a descent from the root. -/
theorem segments?_descend (keys : List String) : (root.descend keys).segments? = some keys := by
  rw [segments?, toList_descend]
  cases keys with
  | nil => rfl
  | cons key rest =>
      have hparts := splitSlash_keys (escape key).toList rest
      rw [splitSlash_of_notMem (slash_notMem_escape key)] at hparts
      have hread : ∀ key : String, String.ofList (unescapeChars (escape key).toList) = key :=
        unescape_escape
      simp [root, hparts, hread, Function.comp_def]

/-- Keys of any kind can be read back from a pointer. Each of them adds one `/`, since first every
`~` and then every `/` of its own is replaced, and cutting the pointer at `/` and undoing the two in
the opposite order gives the keys again. -/
theorem encoding_invertible :
    (∀ p key, (child p key).text = p.text ++ "/" ++
      String.ofList (replaceChar '/' ['~', '1'] (replaceChar '~' ['~', '0'] key.toList))) ∧
    (∀ keys, (root.descend keys).text.toList.count '/' = keys.length ∧
      ((root.descend keys).text.split '/').toList.map (fun part => decode part.copy.toList) =
        "" :: keys ∧
      (root.descend keys).segments? = some keys) ∧
    (∀ p index, element p index = child p (toString index)) ∧
    (∀ keys keys', root.descend keys = root.descend keys' ↔ keys = keys') ∧
    ∀ p a b, child p a = child p b ↔ a = b := by
  refine ⟨fun p key => ?_, fun keys => ⟨?_, split_descend keys, segments?_descend keys⟩,
    element_eq_child, fun keys keys' => ⟨descend_injective, congrArg _⟩,
    fun p a b => ⟨fun h => ?_, congrArg _⟩⟩
  · rw [child, escape_eq]
  · rw [count_slash_descend]
    exact Nat.zero_add _
  · have hkeys : [a] = [b] := descend_injective (show p.descend [a] = p.descend [b] from h)
    exact List.singleton_inj.mp hkeys

example : root.descend ["properties", "", "a/b", "~1"] = ⟨"/properties//a~1b/~01"⟩ := by decide

end Pointer
end ApiSchema

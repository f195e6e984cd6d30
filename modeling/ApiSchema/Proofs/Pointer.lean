import ApiSchema.Pointer
import ApiSchema.Proofs.Json.Distinct
import ApiSchema.Proofs.OrderedMap

/-!
Following pointers into a document, as RFC 6901 has it.

A pointer is cut at every `/`, and in each part `~1` stands for `/` and then `~0` for `~`. A part
names the member of an object, or by its decimal index the item of an array. `Pointer.child` and
`Pointer.element` lead one step further down.
-/

namespace ApiSchema

namespace Pointer

/-- Puts a text for every occurrence of a character. -/
def replaceChar (c : Char) (text chars : List Char) : List Char :=
  chars.flatMap fun d => if d = c then text else [d]

/-- Puts a character for every escape that ends in a given one. -/
def replaceEscape (last plain : Char) : List Char → List Char
  | '~' :: c :: rest =>
    if c = last then plain :: replaceEscape last plain rest
    else '~' :: replaceEscape last plain (c :: rest)
  | c :: rest => c :: replaceEscape last plain rest
  | [] => []

/-- The key that a part of a pointer stands for. -/
def decode (segment : List Char) : String :=
  String.ofList (replaceEscape '0' '~' (replaceEscape '1' '/' segment))

/-- The index that a part of a pointer is the decimal text of, without needless zeros. -/
def index? (segment : String) : Option Nat :=
  let index := Nat.ofDigitChars 10 segment.toList 0
  if toString index = segment then some index else none

end Pointer

/-- The part of a value that a key leads to. -/
def Json.below? (key : String) : Json → Option Json
  | .obj members => OrderedMap.get? key members
  | .arr items => (Pointer.index? key).bind fun index => items[index]?
  | _ => none

namespace Pointer

/-- The part of a document that a pointer leads to. -/
def resolve? (p : Pointer) (v : Json) : Option Json :=
  match p.text.toList with
  | [] => some v
  | '/' :: rest => (splitSlash rest).foldlM (fun v segment => v.below? (decode segment)) v
  | _ :: _ => none

theorem replaceEscape_cons {last plain c : Char} (hc : c ≠ '~') (rest : List Char) :
    replaceEscape last plain (c :: rest) = c :: replaceEscape last plain rest := by
  rw [replaceEscape]
  exact fun _ _ h => absurd h hc

/-- Escaping in one pass comes to the same as replacing first every `~` and then every `/`. -/
theorem escape_eq (key : String) :
    escape key =
      String.ofList (replaceChar '/' ['~', '1'] (replaceChar '~' ['~', '0'] key.toList)) := by
  rw [escape, replaceChar, replaceChar, List.flatMap_assoc]
  congr 2
  funext c
  fun_cases escapeChar c with
  | case1 => decide
  | case2 => decide
  | case3 c htilde hslash =>
      rw [if_neg htilde, List.flatMap_singleton, if_neg hslash]

/-- A `~` stays if what comes after it does not make it an escape. -/
theorem replaceEscape_tilde {last plain : Char} {rest : List Char} (h : rest.head? ≠ some last) :
    replaceEscape last plain ('~' :: rest) = '~' :: replaceEscape last plain rest := by
  cases rest with
  | nil => rfl
  | cons c rest =>
      rw [replaceEscape, if_neg]
      rintro rfl
      exact h rfl

theorem head?_replaceEscape {last plain c : Char} (hc : c ≠ plain) {chars : List Char}
    (h : chars.head? ≠ some c) : (replaceEscape last plain chars).head? ≠ some c := by
  fun_cases replaceEscape last plain chars with
  | case1 rest => simpa using Ne.symm hc
  | case2 => exact h
  | case3 => exact h
  | case4 => exact h

/-- Reading escapes in one pass comes to the same as replacing them one kind after the other. -/
theorem unescapeChars_eq (chars : List Char) :
    unescapeChars chars = replaceEscape '0' '~' (replaceEscape '1' '/' chars) := by
  fun_induction unescapeChars chars with
  | case1 rest ih =>
      have hfirst : replaceEscape '1' '/' ('~' :: '0' :: rest) =
          '~' :: '0' :: replaceEscape '1' '/' rest := by
        rw [replaceEscape_tilde (by simp), replaceEscape_cons (by decide)]
      rw [ih, hfirst, replaceEscape, if_pos rfl]
  | case2 rest ih => rw [ih, replaceEscape, if_pos rfl, replaceEscape_cons (by decide)]
  | case3 c rest h0 h1 ih =>
      rw [ih]
      by_cases hc : c = '~'
      · subst hc
        have hzero : rest.head? ≠ some '0' := by
          intro hhead
          obtain ⟨rest, rfl⟩ := List.head?_eq_some_iff.mp hhead
          exact h0 rest rfl rfl
        have hone : rest.head? ≠ some '1' := by
          intro hhead
          obtain ⟨rest, rfl⟩ := List.head?_eq_some_iff.mp hhead
          exact h1 rest rfl rfl
        rw [replaceEscape_tilde hone, replaceEscape_tilde (head?_replaceEscape (by decide) hzero)]
      · rw [replaceEscape_cons hc, replaceEscape_cons hc]
  | case4 => rfl

theorem unescapeChars_escape (chars : List Char) :
    unescapeChars (chars.flatMap escapeChar) = chars := by
  induction chars with
  | nil => rfl
  | cons c rest ih =>
      rw [List.flatMap_cons]
      fun_cases escapeChar c with
      | case1 => simp [unescapeChars, ih]
      | case2 => simp [unescapeChars, ih]
      | case3 c htilde hslash =>
          rw [List.singleton_append, unescapeChars, ih]
          · exact fun _ h => absurd h htilde
          · exact fun _ h => absurd h htilde

/-- A key is read back from its escaped form. -/
theorem unescape_escape (key : String) : unescape (escape key) = key := by
  rw [unescape, escape, String.toList_ofList, unescapeChars_escape, String.ofList_toList]

theorem decode_escape (key : String) : decode (escape key).toList = key := by
  rw [decode, ← unescapeChars_eq]
  exact unescape_escape key

theorem slash_notMem_escape (key : String) : '/' ∉ (escape key).toList := by
  rw [escape, String.toList_ofList]
  intro hmem
  obtain ⟨c, _, hc⟩ := List.mem_flatMap.mp hmem
  revert hc
  fun_cases escapeChar c with
  | case1 => decide
  | case2 => decide
  | case3 c _ hslash => simpa using Ne.symm hslash

theorem splitSlash_eq_splitOn (chars : List Char) : splitSlash chars = chars.splitOn '/' := by
  induction chars with
  | nil => rfl
  | cons c rest ih =>
      rw [splitSlash, ih, List.splitOn_cons_eq_if_modifyHead]
      obtain ⟨head, tail, hsplit⟩ := List.exists_cons_of_ne_nil (List.splitOn_ne_nil '/' rest)
      by_cases hc : c = '/' <;> simp [hsplit, hc]

theorem splitSlash_of_notMem {chars : List Char} (h : '/' ∉ chars) :
    splitSlash chars = [chars] := by
  rw [splitSlash_eq_splitOn, List.splitOn_eq_singleton h]

/-- What is appended after a `/` is a part of its own. -/
theorem splitSlash_append (chars : List Char) {segment : List Char} (h : '/' ∉ segment) :
    splitSlash (chars ++ '/' :: segment) = splitSlash chars ++ [segment] := by
  rw [splitSlash_eq_splitOn, splitSlash_eq_splitOn, List.splitOn_append_cons_self,
    List.splitOn_eq_singleton h]

/-- The pointer of a member leads to that member of what the pointer before leads to. -/
theorem resolve?_child (p : Pointer) (key : String) (v : Json) :
    (p.child key).resolve? v = (p.resolve? v).bind (Json.below? key) := by
  have htext : (p.child key).text.toList = p.text.toList ++ '/' :: (escape key).toList := by
    simp [child]
  unfold resolve?
  rw [htext]
  cases hp : p.text.toList with
  | nil => simp [splitSlash_of_notMem (slash_notMem_escape key), decode_escape]
  | cons c rest =>
      rw [List.cons_append]
      by_cases hc : c = '/'
      · subst hc
        simp [splitSlash_append rest (slash_notMem_escape key), List.foldlM_append, decode_escape]
      · split
        next h => cases h
        next h => exact absurd (List.cons.inj h).1 hc
        next => simp

/-- A key without special characters is its own escaped form. -/
theorem escape_of_notMem {key : String} (htilde : '~' ∉ key.toList) (hslash : '/' ∉ key.toList) :
    escape key = key := by
  have hchars : ∀ chars : List Char, '~' ∉ chars → '/' ∉ chars →
      chars.flatMap escapeChar = chars := by
    intro chars htilde hslash
    induction chars with
    | nil => rfl
    | cons c rest ih =>
        obtain ⟨hc, htilde⟩ := List.ne_and_not_mem_of_not_mem_cons htilde
        obtain ⟨hc', hslash⟩ := List.ne_and_not_mem_of_not_mem_cons hslash
        rw [List.flatMap_cons, ih htilde hslash, escapeChar]
        · rfl
        · exact Ne.symm hc
        · exact Ne.symm hc'
  rw [escape, hchars _ htilde hslash, String.ofList_toList]

theorem escape_toString (index : Nat) : escape (toString index) = toString index := by
  have hdigit : ∀ c ∈ (toString index).toList, c.isDigit := by
    intro c hc
    rw [Nat.toString_eq_repr, Nat.toList_repr] at hc
    exact Nat.isDigit_of_mem_toDigits (by decide) (by decide) hc
  exact escape_of_notMem (fun h => absurd (hdigit _ h) (by decide))
    fun h => absurd (hdigit _ h) (by decide)

/-- The pointer of an array item is that of a member called by its index. -/
theorem element_eq_child (p : Pointer) (index : Nat) :
    p.element index = p.child (toString index) := by
  rw [element, child, escape_toString]

theorem index?_toString (index : Nat) : index? (toString index) = some index := by
  have hread : Nat.ofDigitChars 10 (toString index).toList 0 = index := by
    rw [Nat.toString_eq_repr, Nat.toList_repr, Nat.ofDigitChars_ten_toDigits]
  simp only [index?, hread, if_true]

/-- The pointer of an array item leads to that item of what the pointer before leads to. -/
theorem resolve?_element (p : Pointer) (index : Nat) (v : Json) :
    (p.element index).resolve? v = (p.resolve? v).bind (Json.below? (toString index)) := by
  rw [element_eq_child, resolve?_child]

theorem resolve?_root (v : Json) : root.resolve? v = some v := rfl

theorem resolve?_member {p : Pointer} {v w : Json} {members : OrderedMap Json} {key : String}
    (hp : p.resolve? v = some (.obj members)) (hkey : OrderedMap.get? key members = some w) :
    (p.child key).resolve? v = some w := by
  rw [resolve?_child, hp]
  exact hkey

theorem resolve?_item {p : Pointer} {v w : Json} {items : List Json} {index : Nat}
    (hp : p.resolve? v = some (.arr items)) (hitem : items[index]? = some w) :
    (p.element index).resolve? v = some w := by
  rw [resolve?_element, hp, Option.bind_some, Json.below?, index?_toString]
  exact hitem

theorem below?_distinct {key : String} {v w : Json} (hv : v.Distinct)
    (h : v.below? key = some w) : w.Distinct := by
  cases hv with
  | arr distinct =>
      obtain ⟨index, _, hitem⟩ := Option.bind_eq_some_iff.mp h
      exact distinct w (List.mem_of_getElem? hitem)
  | obj _ distinct => exact distinct _ (OrderedMap.mem_of_get? h)
  | _ => cases h

/-- What every part of a value has if the value has it, so has whatever a pointer leads to. -/
theorem resolve?_of_below? {has : Json → Prop}
    (hbelow : ∀ key v w, has v → v.below? key = some w → has w) {p : Pointer} {v w : Json}
    (hv : has v) (h : p.resolve? v = some w) : has w := by
  have hfold : ∀ segments : List (List Char), ∀ v : Json, has v →
      segments.foldlM (fun v segment => v.below? (decode segment)) v = some w → has w := by
    intro segments
    induction segments with
    | nil =>
        intro v hv h
        exact Option.some.inj h ▸ hv
    | cons segment rest ih =>
        intro v hv h
        obtain ⟨u, hu, hrest⟩ := Option.bind_eq_some_iff.mp h
        exact ih u (hbelow _ v u hv hu) hrest
  unfold resolve? at h
  split at h
  · exact Option.some.inj h ▸ hv
  · exact hfold _ v hv h
  · cases h

/-- What a pointer leads to repeats no key if the document does not. -/
theorem resolve?_distinct {p : Pointer} {v w : Json} (hv : v.Distinct)
    (h : p.resolve? v = some w) : w.Distinct :=
  resolve?_of_below? (fun _ _ _ => below?_distinct) hv h

end Pointer
end ApiSchema

import HeaderSync.Proofs.Text.Offsets

/-!
# The bytes of a text

Offsets count the bytes of the UTF-8 form of a text, which is `bytes` here.

* `length_bytes` : there are `byteLength` of them;
* `flatMap_bytes_range'` : the bytes of a character stand in a row from its offset on;
* `le_or_le_of_isBoundary` : there is no boundary inside a character.
-/

namespace HeaderSync.Text

/-- The UTF-8 form of a text. -/
def bytes (t : Text) : List UInt8 :=
  t.flatMap String.utf8EncodeChar

@[simp] theorem bytes_nil : bytes [] = [] := rfl

@[simp] theorem bytes_cons (c : Char) (t : Text) :
    bytes (c :: t) = String.utf8EncodeChar c ++ bytes t := rfl

@[simp] theorem bytes_append (s t : Text) : bytes (s ++ t) = bytes s ++ bytes t :=
  List.flatMap_append

@[simp] theorem length_bytes (t : Text) : (bytes t).length = byteLength t := by
  induction t with
  | nil => rfl
  | cons c t ih => rw [bytes_cons, List.length_append, String.length_utf8EncodeChar, ih]; rfl

theorem flatMap_getElem?_range' {α : Type} (l : List α) (start count : Nat) :
    (List.range' start count).flatMap (fun p => l[p]?.toList) = (l.drop start).take count := by
  induction count generalizing start with
  | zero => rfl
  | succ count ih =>
    rw [List.range'_succ, List.flatMap_cons, ih]
    by_cases h : start < l.length
    · rw [List.getElem?_eq_getElem h, List.drop_eq_getElem_cons h]
      rfl
    · rw [List.getElem?_eq_none (by omega), List.drop_eq_nil_of_le (by omega),
        List.drop_eq_nil_of_le (by omega), List.take_nil, List.take_nil]
      rfl

/-- The bytes of a character stand in a row from its offset on. -/
theorem flatMap_bytes_range' (lead : Text) (c : Char) (t : Text) :
    (List.range' (byteLength lead) c.utf8Size).flatMap
      (fun p => (bytes (lead ++ c :: t))[p]?.toList) = String.utf8EncodeChar c := by
  rw [flatMap_getElem?_range', bytes_append, bytes_cons, ← length_bytes lead, List.drop_left,
    ← String.length_utf8EncodeChar c, List.take_left]

/-- There is no boundary inside a character. -/
theorem le_or_le_of_isBoundary {lead t : Text} {c : Char} {n : Nat}
    (h : isBoundary (lead ++ c :: t) n = true) :
    n ≤ byteLength lead ∨ byteLength lead + c.utf8Size ≤ n := by
  obtain ⟨a, b, hcut, rfl⟩ := isBoundary_iff.1 h
  by_contra hinside
  obtain ⟨m, rfl, hm⟩ := exists_between_of_le hcut (by omega)
  rw [byteLength_append] at hinside
  cases m with
  | nil => simp at hinside
  | cons d m =>
    obtain ⟨rfl, -⟩ := List.cons.inj hm
    rw [byteLength_cons] at hinside
    omega

end HeaderSync.Text

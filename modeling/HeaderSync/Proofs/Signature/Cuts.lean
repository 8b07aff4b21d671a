import HeaderSync.Proofs.Signature.TopLevel

/-!
# Where a list is cut

A list is cut into parts, each with a count of open brackets of its own. A part that is closed leaves
the count at zero, so the counts of the parts and the running count of the whole list agree at every
cut, whatever brackets are missing or too many.

* `topLevelParts_iff`, `depthOf_joinWith` : parts that close their brackets, and the running count behind
  them;
* `splitTopLevel_append_cons_iff` : a cut, exactly where the running count is zero;
* `splitTopLevel_lossless`.
-/

namespace HeaderSync.Signature

open Text

variable {separator : Char}

theorem topLevelParts_iff {depth : Nat} {part : Text} {parts : List Text} :
    TopLevelParts depth (part :: parts) ↔
      (parts ≠ [] → depthOf depth part = 0) ∧ ∀ next ∈ parts.dropLast, depthOf 0 next = 0 := by
  induction parts generalizing depth part with
  | nil => simp [TopLevelParts]
  | cons next parts ih =>
    rw [TopLevelParts, ih]
    cases parts <;> simp

/-- Behind parts that are all closed, with separators between them, no bracket is open. -/
theorem depthOf_joinWith (hsep : IsSeparator separator) {parts : List Text}
    (h : ∀ part ∈ parts, depthOf 0 part = 0) : depthOf 0 (joinWith [separator] parts) = 0 := by
  induction parts with
  | nil => rfl
  | cons part parts ih =>
    obtain ⟨hpart, hparts⟩ := List.forall_mem_cons.mp h
    cases parts with
    | nil => rwa [joinWith_singleton]
    | cons next parts =>
      rw [joinWith_cons_cons, depthOf_append, hpart, List.singleton_append, depthOf_cons,
        hsep.depthAfter, ih hparts]

/-- Every part but the last closes its brackets. -/
theorem depthOf_of_mem_dropLast_splitTopLevel {t part : Text}
    (h : part ∈ (splitTopLevel separator t).dropLast) : depthOf 0 part = 0 := by
  obtain ⟨first, parts, heq⟩ := List.exists_cons_of_ne_nil (splitTopLevelFrom_ne_nil separator 0 t)
  have hparts := topLevelParts_splitTopLevelFrom separator 0 t
  rw [splitTopLevel, heq] at h
  rw [heq] at hparts
  obtain ⟨hfirst, hrest⟩ := topLevelParts_iff.1 hparts
  cases parts with
  | nil => cases h
  | cons next parts =>
    rcases List.mem_cons.mp h with rfl | h
    · exact hfirst (List.cons_ne_nil _ _)
    · exact hrest part h

/-- A separator is where the parts in front of it and those behind it meet, exactly if the running
count of open brackets is zero there. -/
theorem splitTopLevel_append_cons_iff (hsep : IsSeparator separator) (before after : Text) :
    depthOf 0 before = 0 ↔
      ∃ front back, front ≠ [] ∧ back ≠ [] ∧
        splitTopLevel separator (before ++ separator :: after) = front ++ back ∧
        joinWith [separator] front = before ∧ joinWith [separator] back = after := by
  constructor
  · intro hdepth
    exact ⟨splitTopLevel separator before, splitTopLevel separator after,
      splitTopLevelFrom_ne_nil _ _ _, splitTopLevelFrom_ne_nil _ _ _,
      splitTopLevelFrom_append_cons hsep hdepth after, joinWith_splitTopLevelFrom _ _ _,
      joinWith_splitTopLevelFrom _ _ _⟩
  · rintro ⟨front, back, -, hback, hsplit, hbefore, -⟩
    have hclosed : ∀ part ∈ front, depthOf 0 part = 0 := by
      intro part hpart
      have hmem : part ∈ (splitTopLevel separator (before ++ separator :: after)).dropLast := by
        rw [hsplit, List.dropLast_append_of_ne_nil hback]
        exact List.mem_append_left _ hpart
      exact depthOf_of_mem_dropLast_splitTopLevel hmem
    rw [← hbefore]
    exact depthOf_joinWith hsep hclosed

/-- The parts of a list, joined again, are the list. None of them has a separator outside its own
brackets, and all but the last close theirs. So the list is cut at a separator exactly if the running
count of open brackets is zero there. -/
theorem splitTopLevel_lossless (hsep : separator ∉ brackets) (t : Text) :
    joinWith [separator] (splitTopLevel separator t) = t ∧
    (∀ part ∈ splitTopLevel separator t, ¬ AtTopLevel separator 0 part) ∧
    (∀ part ∈ (splitTopLevel separator t).dropLast, depthOf 0 part = 0) ∧
    ∀ before after, t = before ++ separator :: after →
      (depthOf 0 before = 0 ↔ ∃ front back, front ≠ [] ∧ back ≠ [] ∧
        splitTopLevel separator t = front ++ back ∧
        joinWith [separator] front = before ∧ joinWith [separator] back = after) := by
  have hsep := isSeparator_iff.2 hsep
  refine ⟨joinWith_splitTopLevelFrom separator 0 t,
    fun part => not_atTopLevel_of_mem_splitTopLevel hsep,
    fun part => depthOf_of_mem_dropLast_splitTopLevel, ?_⟩
  rintro before after rfl
  exact splitTopLevel_append_cons_iff hsep before after

/-- The law at a list with brackets that do not match and a character of two bytes. -/
theorem splitTopLevel_lossless_unmatched :
    ',' ∉ brackets ∧
    splitTopLevel ',' ")é>,f(a,[b),c" = ([")é>", "f(a,[b),c"] : List String).map String.toList ∧
    joinWith [','] (splitTopLevel ',' ")é>,f(a,[b),c") = (")é>,f(a,[b),c" : Text) ∧
    ¬ AtTopLevel ',' 0 "f(a,[b),c" ∧ depthOf 0 ")é>" = 0 := by
  have hsep : ',' ∉ brackets := by decide
  have hparts : splitTopLevel ',' ")é>,f(a,[b),c" =
      ([")é>", "f(a,[b),c"] : List String).map String.toList := by decide
  obtain ⟨hjoin, htop, hclosed, -⟩ := splitTopLevel_lossless hsep ")é>,f(a,[b),c"
  rw [hparts] at htop hclosed
  exact ⟨hsep, hparts, hjoin, htop _ (by simp), hclosed _ (by simp)⟩

end HeaderSync.Signature

import HeaderSync.Proofs.Text.Trim
import HeaderSync.Text.Letter

/-!
# Words

Everything about the words of a text follows from one equation: a character that is not kept ends a
run, and the next one starts afresh behind it.

* `runs_append_cons` : the equation;
* `runs_of_forall_append`, `runs_append_of_forall` : what is not kept at the ends does not count;
* `words_append_of_allBlank`, `words_of_allBlank_append`, `words_trim` : blanks at the ends do not
  count;
* `words_of_forall` : a text without blanks is one word;
* `isBlank_eq_false_of`, `inRanges_eq_false_of_rangesApart` : classes of characters without blanks;
* `isBlank_eq_false_of_isIdentifierChar`, `isBlank_eq_false_of_isWordChar` : an identifier and a word
  have none.
-/

namespace HeaderSync.Text

variable {keep : Char → Bool}

theorem runsFrom_append_cons {c : Char} (hc : keep c = false) (run s t : Text) :
    runsFrom keep run (s ++ c :: t) = runsFrom keep run s ++ runsFrom keep [] t := by
  induction s generalizing run with
  | nil =>
    rw [List.nil_append, runsFrom, runsFrom, hc]
    cases run <;> rfl
  | cons a s ih =>
    rw [List.cons_append, runsFrom, runsFrom, ih, ih]
    split
    · rfl
    · split <;> rfl

theorem runs_append_cons {c : Char} (hc : keep c = false) (s t : Text) :
    runs keep (s ++ c :: t) = runs keep s ++ runs keep t :=
  runsFrom_append_cons hc [] s t

theorem runsFrom_of_forall (run : Text) {t : Text} (ht : ∀ c ∈ t, keep c = true) :
    runsFrom keep run t = if (run.reverse ++ t).isEmpty then [] else [run.reverse ++ t] := by
  induction t generalizing run with
  | nil => cases run <;> simp [runsFrom]
  | cons c t ih =>
    obtain ⟨hc, ht⟩ := List.forall_mem_cons.mp ht
    rw [runsFrom, if_pos hc, ih _ ht]
    simp

/-- A text of which every character is kept is one run. -/
theorem runs_of_forall {t : Text} (hne : t ≠ []) (ht : ∀ c ∈ t, keep c = true) :
    runs keep t = [t] := by
  rw [runs, runsFrom_of_forall [] ht]
  simp [hne]

theorem runs_of_forall_append {l : Text} (hl : ∀ c ∈ l, keep c = false) (t : Text) :
    runs keep (l ++ t) = runs keep t := by
  induction l with
  | nil => rfl
  | cons c l ih =>
    obtain ⟨hc, hl⟩ := List.forall_mem_cons.mp hl
    rw [List.cons_append, ← List.nil_append (c :: _), runs_append_cons hc, ih hl]
    rfl

theorem runs_append_of_forall (s : Text) {r : Text} (hr : ∀ c ∈ r, keep c = false) :
    runs keep (s ++ r) = runs keep s := by
  cases r with
  | nil => rw [List.append_nil]
  | cons c r =>
    obtain ⟨hc, hr⟩ := List.forall_mem_cons.mp hr
    have hnil : runs keep r = runs keep [] := by simpa using runs_of_forall_append hr []
    rw [runs_append_cons hc, hnil]
    exact List.append_nil _

/-! ## Words -/

theorem words_append_cons {c : Char} (hc : isBlank c = true) (s t : Text) :
    words (s ++ c :: t) = words s ++ words t :=
  runs_append_cons (by simp [hc]) s t

theorem words_of_forall {t : Text} (hne : t ≠ []) (ht : ∀ c ∈ t, isBlank c = false) :
    words t = [t] :=
  runs_of_forall hne fun c hc => by simp [ht c hc]

theorem words_of_allBlank_append {l : Text} (hl : allBlank l = true) (t : Text) :
    words (l ++ t) = words t :=
  runs_of_forall_append (fun c hc => by simp [List.all_eq_true.mp hl c hc]) t

theorem words_append_of_allBlank (s : Text) {r : Text} (hr : allBlank r = true) :
    words (s ++ r) = words s :=
  runs_append_of_forall s fun c hc => by simp [List.all_eq_true.mp hr c hc]

theorem words_trim (t : Text) : words (trim t) = words t := by
  obtain ⟨l, r, ht, hl, hr⟩ := exists_trim t
  conv_rhs => rw [ht, words_of_allBlank_append hl, words_append_of_allBlank _ hr]

/-! ## Characters that are no blanks -/

/-- The code points of the blanks, one by one. -/
def blankPoints : List Nat :=
  blankRanges.flatMap fun range => List.range' range.1 (range.2 + 1 - range.1)

theorem toNat_mem_blankPoints {c : Char} (h : isBlank c = true) : c.toNat ∈ blankPoints := by
  simp only [isBlank, inRanges, List.any_eq_true, Bool.and_eq_true, decide_eq_true_eq] at h
  obtain ⟨range, hrange, hlo, hhi⟩ := h
  refine List.mem_flatMap.mpr ⟨range, hrange, ?_⟩
  rw [List.mem_range'_1]
  omega

/-- A class without blanks. -/
theorem isBlank_eq_false_of {p : Char → Bool}
    (hp : blankPoints.all (fun n => !p (Char.ofNat n)) = true) {c : Char} (h : p c = true) :
    isBlank c = false := by
  by_contra hb
  have hc := List.all_eq_true.mp hp c.toNat (toNat_mem_blankPoints (by simpa using hb))
  rw [Char.ofNat_toNat, h] at hc
  exact Bool.false_ne_true hc

/-- No range of `a` meets a range of `b`. -/
def rangesApart (a b : List (Nat × Nat)) : Bool :=
  a.all fun r => b.all fun s => Nat.blt r.2 s.1 || Nat.blt s.2 r.1

theorem inRanges_eq_false_of_rangesApart {a b : List (Nat × Nat)} (h : rangesApart a b = true)
    {c : Char} (hc : inRanges a c = true) : inRanges b c = false := by
  obtain ⟨r, hr, hcr⟩ := List.any_eq_true.mp hc
  refine List.any_eq_false.mpr fun s hs hcs => ?_
  have hapart := List.all_eq_true.mp (List.all_eq_true.mp h r hr) s hs
  simp only [Bool.or_eq_true, Bool.and_eq_true, Nat.blt_eq, decide_eq_true_eq] at hapart hcr hcs
  omega

theorem isBlank_eq_false_of_isLetter {c : Char} (h : isLetter c = true) : isBlank c = false := by
  have hapart : rangesApart letterRanges blankRanges = true := by decide +kernel
  rw [isLetter] at h
  split at h
  · exact isBlank_eq_false_of (p := isAsciiLetter) (by decide) h
  · exact inRanges_eq_false_of_rangesApart hapart h

theorem isBlank_eq_false_of_isDecimalDigit {c : Char} (h : isDecimalDigit c = true) :
    isBlank c = false := by
  have hapart : rangesApart decimalDigitRanges blankRanges = true := by decide
  rw [isDecimalDigit] at h
  split at h
  · exact isBlank_eq_false_of (p := isAsciiDigit) (by decide) h
  · exact inRanges_eq_false_of_rangesApart hapart h

theorem isBlank_eq_false_of_isIdentifierChar {c : Char} (h : isIdentifierChar c = true) :
    isBlank c = false := by
  have hapart : rangesApart otherNumberRanges blankRanges = true := by decide
  simp only [isIdentifierChar, isLetterOrNumber, Bool.or_eq_true, Bool.and_eq_true] at h
  rcases h with ((h | h) | ⟨-, h⟩) | h
  · exact isBlank_eq_false_of_isLetter h
  · exact isBlank_eq_false_of_isDecimalDigit h
  · exact inRanges_eq_false_of_rangesApart hapart h
  · exact isBlank_eq_false_of (p := (· == '_')) (by decide) h

theorem isBlank_eq_false_of_isWordChar {c : Char} (h : isWordChar c = true) : isBlank c = false := by
  have hmarks : rangesApart otherMarkRanges blankRanges = true := by decide
  have hconnectors : rangesApart connectorRanges blankRanges = true := by decide
  simp only [isWordChar, Bool.or_eq_true, Bool.and_eq_true] at h
  rcases h with ((h | h) | h) | ⟨-, h | h⟩
  · exact isBlank_eq_false_of_isLetter h
  · exact isBlank_eq_false_of_isDecimalDigit h
  · exact isBlank_eq_false_of (p := (· == '_')) (by decide) h
  · exact inRanges_eq_false_of_rangesApart hmarks h
  · exact inRanges_eq_false_of_rangesApart hconnectors h

end HeaderSync.Text

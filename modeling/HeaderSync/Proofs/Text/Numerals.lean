import HeaderSync.Proofs.Text.Separators
import HeaderSync.Proofs.Text.Words

/-!
# Numerals

A decimal numeral writes its value in digits; zeros in front and one `+` before them do not change it.

* `IsDigits`, `IsNumeral`, `IsSpacedNumeral` : the digits of a value, behind a sign, and between blanks;
* `isNumeral_decimal` : `decimal` writes one;
* `readDigits?_eq_some`, `readOffset?_eq_some`, `readOffset?_trim_eq_some` : what is read is what is
  written, as long as it is an offset.
-/

namespace HeaderSync.Text

/-- One digit or more, and together they write `n`. -/
structure IsDigits (t : Text) (n : Nat) : Prop where
  ne_nil : t ≠ []
  isDigit : ∀ c ∈ t, c.isDigit = true
  value_eq : Nat.ofDigitChars 10 t 0 = n

/-- The digits of `n`, with a sign or without. -/
inductive IsNumeral : Text → Nat → Prop
  | unsigned {digits : Text} {n : Nat} (h : IsDigits digits n) : IsNumeral digits n
  | signed {digits : Text} {n : Nat} (h : IsDigits digits n) : IsNumeral ('+' :: digits) n

/-- A numeral of `n` with nothing around it but blanks. -/
def IsSpacedNumeral (t : Text) (n : Nat) : Prop :=
  ∃ before numeral after, t = before ++ (numeral ++ after) ∧ allBlank before = true ∧
    allBlank after = true ∧ IsNumeral numeral n

variable {t : Text} {n : Nat}

theorem isNumeral_decimal (n : Nat) : IsNumeral (decimal n) n :=
  .unsigned {
    ne_nil := Nat.toDigits_ne_nil
    isDigit := fun _ => Nat.isDigit_of_mem_toDigits (by decide) (by decide)
    value_eq := Nat.ofDigitChars_ten_toDigits }

theorem IsNumeral.spaced (h : IsNumeral t n) : IsSpacedNumeral t n :=
  ⟨[], t, [], (List.append_nil t).symm, rfl, rfl, h⟩

/-! ## Characters -/

theorem isBlank_eq_false_of_isDigit {c : Char} (h : c.isDigit = true) : isBlank c = false := by
  have hascii : isAscii c = true := by
    simp only [Char.isDigit, Bool.and_eq_true, decide_eq_true_eq] at h
    exact decide_eq_true (Nat.lt_of_le_of_lt (UInt32.le_iff_toNat_le.mp h.2) (by decide))
  refine isBlank_eq_false_of_isIdentifierChar ?_
  have hdigit : isDecimalDigit c = true := by rw [isDecimalDigit, if_pos hascii]; exact h
  simp [isIdentifierChar, isLetterOrNumber, hdigit]

namespace IsNumeral

theorem isDigit_or_eq_of_mem (h : IsNumeral t n) {c : Char} (hc : c ∈ t) :
    c.isDigit = true ∨ c = '+' := by
  cases h with
  | unsigned h => exact .inl (h.isDigit c hc)
  | signed h => exact (List.mem_cons.mp hc).symm.imp_left (h.isDigit c)

theorem isBlank_eq_false (h : IsNumeral t n) : ∀ c ∈ t, isBlank c = false := by
  intro c hc
  rcases h.isDigit_or_eq_of_mem hc with hdigit | rfl
  · exact isBlank_eq_false_of_isDigit hdigit
  · decide

end IsNumeral

/-- No dot stands in a numeral or in the blanks around it. -/
theorem IsSpacedNumeral.dot_not_mem (h : IsSpacedNumeral t n) : '.' ∉ t := by
  obtain ⟨before, numeral, after, rfl, hbefore, hafter, hnumeral⟩ := h
  have hblank : ∀ s : Text, allBlank s = true → '.' ∉ s := fun s hs hmem =>
    absurd (List.all_eq_true.mp hs '.' hmem) (by decide)
  rw [List.mem_append, List.mem_append, not_or, not_or]
  refine ⟨hblank before hbefore, fun hmem => ?_, hblank after hafter⟩
  exact absurd (hnumeral.isDigit_or_eq_of_mem hmem) (by decide)

/-! ## Reading -/

theorem readDigits?_eq_some {value : Nat} :
    readDigits? value t = some n ↔
      (∀ c ∈ t, c.isDigit = true) ∧ Nat.ofDigitChars 10 t value = n := by
  induction t generalizing value with
  | nil => simp [readDigits?]
  | cons c t ih =>
    have hdigit : ('0' ≤ c && c ≤ '9') = c.isDigit := rfl
    rw [readDigits?, hdigit, List.forall_mem_cons, Nat.ofDigitChars_cons]
    split
    · rename_i hc
      rw [ih, hc]
      simp
    · rename_i hc
      simp [hc]

theorem isNumeral_iff : IsNumeral t n ↔ IsDigits ((dropLead? ['+'] t).getD t) n := by
  cases hsign : dropLead? ['+'] t with
  | none =>
    refine ⟨fun h => ?_, .unsigned⟩
    cases h with
    | unsigned h => exact h
    | signed h => cases hsign
  | some digits =>
    obtain rfl : t = '+' :: digits := dropLead?_eq_some.1 hsign
    refine ⟨fun h => ?_, .signed⟩
    cases h with
    | unsigned h => exact absurd (h.isDigit '+' List.mem_cons_self) (by decide)
    | signed h => exact h

/-- Numerals are read, as long as their value is an offset. -/
theorem readOffset?_eq_some : readOffset? t = some n ↔ IsNumeral t n ∧ n ≤ maxOffset := by
  rw [isNumeral_iff, readOffset?]
  generalize (dropLead? ['+'] t).getD t = digits
  simp only [List.isEmpty_iff]
  split
  · rename_i hnil
    exact ⟨nofun, fun h => absurd hnil h.1.ne_nil⟩
  · rename_i hne
    rw [Option.filter_eq_some_iff, readDigits?_eq_some, decide_eq_true_eq]
    exact and_congr_left fun _ => ⟨fun h => ⟨hne, h.1, h.2⟩, fun h => ⟨h.isDigit, h.value_eq⟩⟩

theorem readOffset?_trim_eq_some :
    readOffset? (trim t) = some n ↔ IsSpacedNumeral t n ∧ n ≤ maxOffset := by
  rw [readOffset?_eq_some]
  refine and_congr_left fun _ => ⟨fun h => ?_, ?_⟩
  · obtain ⟨before, after, heq, hbefore, hafter⟩ := exists_trim t
    exact ⟨before, trim t, after, heq, hbefore, hafter, h⟩
  · rintro ⟨before, numeral, after, rfl, hbefore, hafter, h⟩
    rwa [trim_of_allBlank_append hbefore, trim_append_of_allBlank _ hafter,
      trim_eq_self h.isBlank_eq_false]

end HeaderSync.Text

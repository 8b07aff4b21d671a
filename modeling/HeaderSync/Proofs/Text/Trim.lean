import HeaderSync.Text.Blank
import Mathlib.Data.List.TakeWhile
import Mathlib.Tactic.Common

/-!
# Trimming

* `exists_trim` : a text is its trimmed form between blanks;
* `trim_trim`, `trim_eq_self` : trimming twice is trimming once, and a text without blanks keeps
  all of it;
* `trimEnd_append_of_allBlank`, `trimEnd_append_of_not_allBlank` : of two texts the second one is
  trimmed, unless it shows nothing;
* `trim_of_allBlank_append`, `trim_append_of_allBlank` : blanks at the ends do not count.
-/

namespace HeaderSync.Text

theorem allBlank_takeWhile (t : Text) : allBlank (t.takeWhile isBlank) = true := by
  rw [allBlank, List.all_eq_true]
  exact fun c hc => List.mem_takeWhile_imp hc

/-! ## The cut -/

theorem takeWhile_append_trimStart (t : Text) : t.takeWhile isBlank ++ trimStart t = t :=
  List.takeWhile_append_dropWhile

theorem exists_trimEnd (t : Text) : ∃ r, t = trimEnd t ++ r ∧ allBlank r = true := by
  refine ⟨(t.reverse.takeWhile isBlank).reverse, ?_, ?_⟩
  · rw [trimEnd, ← List.reverse_append, List.takeWhile_append_dropWhile, List.reverse_reverse]
  · rw [allBlank, List.all_reverse]
    exact allBlank_takeWhile _

/-- A text is its trimmed form between blanks. -/
theorem exists_trim (t : Text) :
    ∃ l r, t = l ++ (trim t ++ r) ∧ allBlank l = true ∧ allBlank r = true := by
  obtain ⟨r, hr, hb⟩ := exists_trimEnd (trimStart t)
  refine ⟨t.takeWhile isBlank, r, ?_, allBlank_takeWhile t, hb⟩
  rw [trim, ← hr, takeWhile_append_trimStart]

/-! ## Nothing left to trim -/

theorem trimStart_eq_self_of_head {t : Text} (h : ∀ c ∈ t.head?, isBlank c = false) :
    trimStart t = t := by
  cases t with
  | nil => rfl
  | cons c t =>
    have hc : isBlank c = false := h c (by simp)
    simp [trimStart, hc]

theorem trimEnd_eq_self_of_last {t : Text} (h : ∀ c ∈ t.getLast?, isBlank c = false) :
    trimEnd t = t := by
  have hrev : trimStart t.reverse = t.reverse :=
    trimStart_eq_self_of_head (by simpa using h)
  rw [trimEnd]
  exact (congrArg List.reverse hrev).trans (List.reverse_reverse t)

theorem head_trimStart (t : Text) : ∀ c ∈ (trimStart t).head?, isBlank c = false := by
  intro c hc
  have := List.head?_dropWhile_not isBlank t
  rw [trimStart] at hc
  rw [Option.mem_def] at hc
  simpa [hc] using this

theorem last_trimEnd (t : Text) : ∀ c ∈ (trimEnd t).getLast?, isBlank c = false := by
  intro c hc
  rw [trimEnd, List.getLast?_reverse] at hc
  exact head_trimStart t.reverse c hc

theorem head_trim (t : Text) : ∀ c ∈ (trim t).head?, isBlank c = false := by
  intro c hc
  obtain ⟨r, hr, -⟩ := exists_trimEnd (trimStart t)
  refine head_trimStart t c ?_
  rw [Option.mem_def] at hc ⊢
  rw [hr, List.head?_append]
  simp [trim] at hc
  simp [hc]

theorem last_trim (t : Text) : ∀ c ∈ (trim t).getLast?, isBlank c = false :=
  last_trimEnd (trimStart t)

/-- A first character that shows stays the first. -/
theorem head?_trim_cons {c : Char} (hc : isBlank c = false) (t : Text) :
    (trim (c :: t)).head? = some c := by
  have hstart : trimStart (c :: t) = c :: t :=
    trimStart_eq_self_of_head (by rintro d ⟨⟩; exact hc)
  rw [trim, hstart]
  obtain ⟨r, hr, hblank⟩ := exists_trimEnd (c :: t)
  cases h : trimEnd (c :: t) with
  | nil =>
    rw [h, List.nil_append] at hr
    rw [← hr, allBlank, List.all_cons, hc] at hblank
    cases hblank
  | cons d u =>
    rw [h] at hr
    rw [List.head?_cons, (List.cons.inj hr).1]

theorem trim_eq_self_of_ends {t : Text} (hh : ∀ c ∈ t.head?, isBlank c = false)
    (hl : ∀ c ∈ t.getLast?, isBlank c = false) : trim t = t := by
  rw [trim, trimStart_eq_self_of_head hh, trimEnd_eq_self_of_last hl]

@[simp] theorem trim_trim (t : Text) : trim (trim t) = trim t :=
  trim_eq_self_of_ends (head_trim t) (last_trim t)

theorem trim_eq_self {t : Text} (h : ∀ c ∈ t, isBlank c = false) : trim t = t :=
  trim_eq_self_of_ends (fun c hc => h c (List.mem_of_mem_head? hc))
    (fun c hc => h c (List.mem_of_mem_getLast? hc))

/-! ## Appending -/

theorem trimEnd_append_of_allBlank (s : Text) {t : Text} (h : allBlank t = true) :
    trimEnd (s ++ t) = trimEnd s := by
  rw [trimEnd, List.reverse_append, List.dropWhile_append_of_pos, ← trimEnd]
  intro c hc
  exact List.all_eq_true.mp h c (List.mem_reverse.mp hc)

theorem trimEnd_append_of_not_allBlank (s : Text) {t : Text} (h : allBlank t = false) :
    trimEnd (s ++ t) = s ++ trimEnd t := by
  obtain ⟨c, hc, hnb⟩ : ∃ c ∈ t, isBlank c = false := by simpa [allBlank] using h
  have hne : t.reverse.dropWhile isBlank ≠ [] := by
    intro hnil
    have := List.dropWhile_eq_nil_iff.mp hnil c (List.mem_reverse.mpr hc)
    rw [hnb] at this
    exact Bool.false_ne_true this
  rw [trimEnd, trimEnd, List.reverse_append, List.dropWhile_append]
  simp [hne]

theorem trimStart_of_allBlank_append {l : Text} (h : allBlank l = true) (t : Text) :
    trimStart (l ++ t) = trimStart t :=
  List.dropWhile_append_of_pos fun c hc => List.all_eq_true.mp h c hc

theorem trim_of_allBlank_append {l : Text} (h : allBlank l = true) (t : Text) :
    trim (l ++ t) = trim t := by
  rw [trim, trim, trimStart_of_allBlank_append h]

theorem trim_append_of_allBlank (s : Text) {r : Text} (h : allBlank r = true) :
    trim (s ++ r) = trim s := by
  by_cases hs : allBlank s = true
  · have hr : trim r = trim [] := by simpa using trim_of_allBlank_append h []
    have hnil : trim s = trim [] := by simpa using trim_of_allBlank_append hs []
    rw [trim_of_allBlank_append hs, hr, hnil]
  · have hstart : trimStart (s ++ r) = trimStart s ++ r := by
      have hne : s.dropWhile isBlank ≠ [] := by
        intro hnil
        exact hs (List.all_eq_true.mpr (List.dropWhile_eq_nil_iff.mp hnil))
      rw [trimStart, trimStart, List.dropWhile_append, if_neg (by simpa using hne)]
    rw [trim, hstart, trimEnd_append_of_allBlank _ h, trim]

end HeaderSync.Text

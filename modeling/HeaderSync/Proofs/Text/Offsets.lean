import HeaderSync.Text.Basic
import Mathlib.Tactic.Common

/-!
# Cuts at byte offsets

A cut at an offset succeeds exactly at the end of a first part of the text.

* `splitAt?_eq_some_iff`, `takeBytes?_eq_some_iff`, `dropBytes?_eq_some_iff`,
  `slice?_eq_some_iff` : when and what a cut gives;
* `isBoundary_iff` : the boundaries of characters;
* `append_inj_of_byteLength` : a cut at an offset is unique.
-/

namespace HeaderSync.Text

theorem byteLength_eq_zero {t : Text} : byteLength t = 0 ↔ t = [] := by
  refine ⟨fun h => ?_, fun h => h ▸ rfl⟩
  by_contra hne
  have := byteLength_pos hne
  omega

theorem byteLength_le_of_sublist {s t : Text} (h : s.Sublist t) : byteLength s ≤ byteLength t := by
  induction h with
  | slnil => exact Nat.le_refl _
  | cons c _ ih =>
    rw [byteLength_cons]
    omega
  | cons_cons c _ ih =>
    rw [byteLength_cons, byteLength_cons]
    omega

/-- A longer first part of a text has no fewer bytes. -/
theorem byteLength_take_le {i j : Nat} (h : i ≤ j) (t : Text) :
    byteLength (t.take i) ≤ byteLength (t.take j) := by
  obtain ⟨rest, hrest⟩ : t.take i <+: t.take j := List.take_prefix_take_left h
  rw [← hrest, byteLength_append]
  exact Nat.le_add_right _ _

theorem splitAt?_zero (t : Text) : splitAt? t 0 = some ([], t) := by
  cases t <;> rfl

theorem splitAt?_cons_succ (c : Char) (t : Text) (n : Nat) :
    splitAt? (c :: t) (n + 1) =
      if c.utf8Size ≤ n + 1 then
        (splitAt? t (n + 1 - c.utf8Size)).map fun cut => (c :: cut.1, cut.2)
      else none := rfl

theorem splitAt?_append (a b : Text) : splitAt? (a ++ b) (byteLength a) = some (a, b) := by
  induction a with
  | nil => exact splitAt?_zero b
  | cons c a ih =>
    obtain ⟨n, hn⟩ : ∃ n, byteLength (c :: a) = n + 1 :=
      Nat.exists_eq_succ_of_ne_zero (Nat.ne_of_gt (byteLength_pos (List.cons_ne_nil c a)))
    have hrest : n + 1 - c.utf8Size = byteLength a := by
      rw [← hn, byteLength_cons]
      omega
    rw [List.cons_append, hn, splitAt?_cons_succ, if_pos (by rw [← hn, byteLength_cons]; omega),
      hrest, ih]
    rfl

theorem splitAt?_eq_some_iff {t a b : Text} {n : Nat} :
    splitAt? t n = some (a, b) ↔ t = a ++ b ∧ byteLength a = n := by
  constructor
  · intro h
    induction t generalizing n a with
    | nil =>
      cases n with
      | zero =>
        obtain ⟨rfl, rfl⟩ := Prod.mk.inj (Option.some.inj h)
        exact ⟨rfl, rfl⟩
      | succ n => cases h
    | cons c t ih =>
      cases n with
      | zero =>
        obtain ⟨rfl, rfl⟩ := Prod.mk.inj (Option.some.inj h)
        exact ⟨rfl, rfl⟩
      | succ n =>
        rw [splitAt?_cons_succ] at h
        split at h
        · rename_i hle
          obtain ⟨⟨a', b'⟩, hcut, heq⟩ := Option.map_eq_some_iff.mp h
          obtain ⟨rfl, rfl⟩ := Prod.mk.inj heq
          obtain ⟨ht, hlen⟩ := ih hcut
          refine ⟨by rw [ht]; rfl, ?_⟩
          rw [byteLength_cons, hlen]
          omega
        · cases h
  · rintro ⟨rfl, rfl⟩
    exact splitAt?_append a b

theorem takeBytes?_eq_some_iff {t a : Text} {n : Nat} :
    takeBytes? t n = some a ↔ ∃ b, t = a ++ b ∧ byteLength a = n := by
  rw [takeBytes?, Option.map_eq_some_iff]
  constructor
  · rintro ⟨⟨a, b⟩, hcut, rfl⟩
    exact ⟨b, splitAt?_eq_some_iff.1 hcut⟩
  · rintro ⟨b, h⟩
    exact ⟨(a, b), splitAt?_eq_some_iff.2 h, rfl⟩

theorem dropBytes?_eq_some_iff {t b : Text} {n : Nat} :
    dropBytes? t n = some b ↔ ∃ a, t = a ++ b ∧ byteLength a = n := by
  rw [dropBytes?, Option.map_eq_some_iff]
  constructor
  · rintro ⟨⟨a, b⟩, hcut, rfl⟩
    exact ⟨a, splitAt?_eq_some_iff.1 hcut⟩
  · rintro ⟨a, h⟩
    exact ⟨(a, b), splitAt?_eq_some_iff.2 h, rfl⟩

theorem takeBytes?_append (a b : Text) : takeBytes? (a ++ b) (byteLength a) = some a :=
  takeBytes?_eq_some_iff.2 ⟨b, rfl, rfl⟩

theorem dropBytes?_append (a b : Text) : dropBytes? (a ++ b) (byteLength a) = some b :=
  dropBytes?_eq_some_iff.2 ⟨a, rfl, rfl⟩

theorem slice?_eq_some_iff {t m : Text} {start stop : Nat} :
    slice? t start stop = some m ↔
      ∃ a b, t = a ++ m ++ b ∧ byteLength a = start ∧ byteLength (a ++ m) = stop := by
  rw [slice?]
  constructor
  · intro h
    split at h
    · rename_i hle
      obtain ⟨rest, hrest, htake⟩ := Option.bind_eq_some_iff.mp h
      obtain ⟨a, rfl, ha⟩ := dropBytes?_eq_some_iff.1 hrest
      obtain ⟨b, rfl, hm⟩ := takeBytes?_eq_some_iff.1 htake
      refine ⟨a, b, by rw [List.append_assoc], ha, ?_⟩
      rw [byteLength_append]
      omega
    · cases h
  · rintro ⟨a, b, rfl, rfl, rfl⟩
    rw [byteLength_append, if_pos (Nat.le_add_right _ _), List.append_assoc, dropBytes?_append]
    rw [Nat.add_sub_cancel_left]
    exact takeBytes?_append m b

/-- A cut at an offset is unique. -/
theorem append_inj_of_byteLength {a b c d : Text} (h : a ++ b = c ++ d)
    (hlen : byteLength a = byteLength c) : a = c ∧ b = d := by
  have hcut := splitAt?_append a b
  rw [h, hlen, splitAt?_append] at hcut
  obtain ⟨rfl, rfl⟩ := Prod.mk.inj (Option.some.inj hcut)
  exact ⟨rfl, rfl⟩

/-! ## Boundaries -/

theorem isBoundary_iff {t : Text} {n : Nat} :
    isBoundary t n = true ↔ ∃ a b, t = a ++ b ∧ byteLength a = n := by
  rw [isBoundary, Option.isSome_iff_exists]
  constructor
  · rintro ⟨⟨a, b⟩, h⟩
    exact ⟨a, b, splitAt?_eq_some_iff.1 h⟩
  · rintro ⟨a, b, h⟩
    exact ⟨(a, b), splitAt?_eq_some_iff.2 h⟩

theorem isBoundary_append (a b : Text) : isBoundary (a ++ b) (byteLength a) = true :=
  isBoundary_iff.2 ⟨a, b, rfl, rfl⟩

theorem isBoundary_byteLength (t : Text) : isBoundary t (byteLength t) = true :=
  isBoundary_iff.2 ⟨t, [], by simp, rfl⟩

theorem le_byteLength_of_isBoundary {t : Text} {n : Nat} (h : isBoundary t n = true) :
    n ≤ byteLength t := by
  obtain ⟨a, b, rfl, rfl⟩ := isBoundary_iff.1 h
  rw [byteLength_append]
  exact Nat.le_add_right _ _

/-- Between two cuts stands a part of the text. -/
theorem exists_between_of_le {a b c d : Text} (h : a ++ b = c ++ d)
    (hle : byteLength a ≤ byteLength c) : ∃ m, c = a ++ m ∧ b = m ++ d := by
  rcases List.append_eq_append_iff.mp h with ⟨m, rfl, rfl⟩ | ⟨m, rfl, rfl⟩
  · exact ⟨m, rfl, rfl⟩
  · rw [byteLength_append] at hle
    obtain rfl : m = [] := byteLength_eq_zero.1 (by omega)
    exact ⟨[], by simp, by simp⟩

end HeaderSync.Text

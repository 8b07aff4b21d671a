import HeaderSync.Proofs.Text.Trim
import Mathlib.Data.List.Lattice

/-!
# Separators

* `dropLead?_eq_some`, `dropTail?_eq_some` : what is left of a text without its beginning or its end;
* `IsFirstCut`, `splitOnce?_eq_some` : a text is cut where its first separator stands;
* `splitOnce?_of_disjoint_append`, `splitOnce?_append_of_disjoint` : what has no character of the
  separator may stand around a text;
* `splitOnce?_trim` : so blanks around it do not count, where the parts are trimmed;
* `splitOn_eq` : all parts of a text, from its first separator on.
-/

namespace HeaderSync.Text

theorem dropLead?_eq_some {lead t rest : Text} : dropLead? lead t = some rest ↔ t = lead ++ rest := by
  induction lead generalizing t with
  | nil => simp [dropLead?, eq_comm]
  | cons a lead ih =>
    cases t with
    | nil => simp [dropLead?]
    | cons c t =>
      by_cases h : a = c
      · simp [dropLead?, h, ih]
      · simp [dropLead?, h, Ne.symm h]

theorem dropTail?_eq_some {tail t rest : Text} : dropTail? tail t = some rest ↔ t = rest ++ tail := by
  rw [dropTail?, Option.map_eq_some_iff]
  constructor
  · rintro ⟨u, hu, rfl⟩
    rw [← List.reverse_reverse t, dropLead?_eq_some.1 hu, List.reverse_append, List.reverse_reverse]
  · rintro rfl
    exact ⟨rest.reverse, dropLead?_eq_some.2 List.reverse_append, List.reverse_reverse rest⟩

theorem isPrefixOf_eq_isSome_dropLead? (lead t : Text) :
    lead.isPrefixOf t = (dropLead? lead t).isSome := by
  rw [Bool.eq_iff_iff, List.isPrefixOf_iff_prefix, Option.isSome_iff_exists]
  exact exists_congr fun rest => by rw [dropLead?_eq_some, eq_comm]

variable {separator : Text}

/-! ## The first separator -/

theorem splitOnce?_of_lead {t rest : Text} (h : dropLead? separator t = some rest) :
    splitOnce? separator t = some ([], rest) := by
  cases t with
  | nil => exact congrArg (Option.map _) h
  | cons c t => rw [splitOnce?, h]

theorem splitOnce?_cons {c : Char} {t : Text} (h : dropLead? separator (c :: t) = none) :
    splitOnce? separator (c :: t) =
      (splitOnce? separator t).map fun cut => (c :: cut.1, cut.2) := by
  rw [splitOnce?, h]

/-- The separator stands between `before` and `after`, and nowhere earlier in `t`. -/
def IsFirstCut (separator t before after : Text) : Prop :=
  t = before ++ (separator ++ after) ∧
    ∀ earlier rest, t = earlier ++ (separator ++ rest) → before.length ≤ earlier.length

/-- Where the separator leads, nothing comes before the cut. -/
theorem isFirstCut_nil {t rest : Text} (h : t = separator ++ rest) {before after : Text} :
    IsFirstCut separator t before after ↔ before = [] ∧ after = rest := by
  subst h
  constructor
  · rintro ⟨heq, hfirst⟩
    obtain rfl := List.length_eq_zero_iff.mp (Nat.le_zero.mp (hfirst [] rest rfl))
    exact ⟨rfl, (List.append_cancel_left heq).symm⟩
  · rintro ⟨rfl, rfl⟩
    exact ⟨rfl, fun _ _ _ => Nat.zero_le _⟩

/-- Where it does not lead, the cut is that of the rest. -/
theorem isFirstCut_cons {c : Char} {t : Text} (h : dropLead? separator (c :: t) = none)
    {before after : Text} :
    IsFirstCut separator (c :: t) before after ↔
      ∃ front, before = c :: front ∧ IsFirstCut separator t front after := by
  have hlead : ∀ rest, c :: t ≠ separator ++ rest := by
    intro rest heq
    rw [dropLead?_eq_some.2 heq] at h
    cases h
  constructor
  · rintro ⟨heq, hfirst⟩
    cases before with
    | nil => exact absurd heq (hlead after)
    | cons d front =>
      obtain ⟨rfl, rfl⟩ := List.cons.inj heq
      refine ⟨front, rfl, rfl, fun earlier rest heq' => ?_⟩
      exact Nat.le_of_succ_le_succ (hfirst (c :: earlier) rest (congrArg (c :: ·) heq'))
  · rintro ⟨front, rfl, rfl, hfirst⟩
    refine ⟨rfl, fun earlier rest heq => ?_⟩
    cases earlier with
    | nil => exact absurd heq (hlead rest)
    | cons d earlier => exact Nat.succ_le_succ (hfirst earlier rest (List.cons.inj heq).2)

/-- A text is cut at the first occurrence of the separator. -/
theorem splitOnce?_eq_some {t before after : Text} :
    splitOnce? separator t = some (before, after) ↔ IsFirstCut separator t before after := by
  induction t generalizing before with
  | nil =>
    cases separator with
    | nil =>
      have hlead : dropLead? [] [] = some [] := rfl
      rw [splitOnce?_of_lead hlead, isFirstCut_nil (List.append_nil []).symm]
      simp [eq_comm]
    | cons a separator =>
      have hnone : splitOnce? (a :: separator) [] = none := rfl
      simp [hnone, IsFirstCut]
  | cons c t ih =>
    cases hlead : dropLead? separator (c :: t) with
    | some rest =>
      rw [splitOnce?_of_lead hlead, isFirstCut_nil (dropLead?_eq_some.1 hlead)]
      simp [eq_comm]
    | none =>
      rw [splitOnce?_cons hlead, isFirstCut_cons hlead, Option.map_eq_some_iff]
      constructor
      · rintro ⟨⟨front, back⟩, hcut, heq⟩
        obtain ⟨rfl, rfl⟩ := Prod.mk.inj heq
        exact ⟨front, rfl, ih.mp hcut⟩
      · rintro ⟨front, rfl, hcut⟩
        exact ⟨(front, after), ih.mpr hcut, rfl⟩

/-! ## What has no character of a separator -/

theorem dropLead?_append_of_disjoint {r : Text} (hr : r.Disjoint separator) (t : Text) :
    dropLead? separator (t ++ r) = (dropLead? separator t).map (· ++ r) := by
  induction separator generalizing t with
  | nil => rfl
  | cons a separator ih =>
    obtain ⟨ha, hr⟩ := List.disjoint_cons_right.mp hr
    cases t with
    | nil =>
      cases r with
      | nil => rfl
      | cons c r =>
        have hac : a ≠ c := fun heq => ha (heq ▸ List.mem_cons_self)
        exact if_neg hac
    | cons c t =>
      rw [List.cons_append, dropLead?, dropLead?, ih hr]
      split <;> rfl

theorem splitOnce?_of_disjoint_append (hne : separator ≠ []) {l : Text} (hl : l.Disjoint separator)
    (t : Text) :
    splitOnce? separator (l ++ t) = (splitOnce? separator t).map fun cut => (l ++ cut.1, cut.2) := by
  obtain ⟨a, separator, rfl⟩ := List.exists_cons_of_ne_nil hne
  induction l with
  | nil => exact Option.map_id'.symm
  | cons c l ih =>
    obtain ⟨hc, hl⟩ := List.disjoint_cons_left.mp hl
    have hac : a ≠ c := fun heq => hc (heq ▸ List.mem_cons_self)
    have hlead : dropLead? (a :: separator) (c :: (l ++ t)) = none := if_neg hac
    rw [List.cons_append, splitOnce?_cons hlead, ih hl, Option.map_map]
    rfl

theorem splitOnce?_append_of_disjoint (hne : separator ≠ []) (t : Text) {r : Text}
    (hr : r.Disjoint separator) :
    splitOnce? separator (t ++ r) = (splitOnce? separator t).map fun cut => (cut.1, cut.2 ++ r) := by
  induction t with
  | nil =>
    have hnone : splitOnce? separator [] = none := by
      obtain ⟨a, separator, rfl⟩ := List.exists_cons_of_ne_nil hne
      rfl
    have hr' := splitOnce?_of_disjoint_append hne hr []
    rw [List.append_nil, hnone] at hr'
    rw [List.nil_append, hr', hnone]
    rfl
  | cons c t ih =>
    have happend := dropLead?_append_of_disjoint hr (c :: t)
    cases hlead : dropLead? separator (c :: t) with
    | some rest =>
      rw [hlead] at happend
      rw [splitOnce?_of_lead happend, splitOnce?_of_lead hlead]
      rfl
    | none =>
      rw [hlead, List.cons_append] at happend
      rw [List.cons_append, splitOnce?_cons happend, splitOnce?_cons hlead, ih, Option.map_map,
        Option.map_map]
      rfl

/-- Blanks around a text do not come into its trimmed parts. -/
theorem splitOnce?_trim (hne : separator ≠ []) (hblank : separator.any isBlank = false) (t : Text) :
    (splitOnce? separator (trim t)).map (Prod.map trim trim) =
      (splitOnce? separator t).map (Prod.map trim trim) := by
  have hdisjoint : ∀ blanks : Text, allBlank blanks = true → blanks.Disjoint separator := by
    intro blanks hblanks c hc hc'
    exact absurd (List.all_eq_true.mp hblanks c hc) (List.any_eq_false.mp hblank c hc')
  obtain ⟨l, r, heq, hl, hr⟩ := exists_trim t
  conv_rhs =>
    rw [heq, splitOnce?_of_disjoint_append hne (hdisjoint l hl),
      splitOnce?_append_of_disjoint hne _ (hdisjoint r hr), Option.map_map, Option.map_map]
  refine Option.map_congr fun cut _ => ?_
  exact Prod.ext (trim_of_allBlank_append hl _).symm (trim_append_of_allBlank _ hr).symm

/-! ## All separators -/

theorem splitOnFrom_length_append (separator s t : Text) :
    splitOnFrom separator s.length (s ++ t) = splitOnFrom separator 0 t := by
  induction s with
  | nil => rfl
  | cons c s ih => rw [List.length_cons, List.cons_append, splitOnFrom, ih]

/-- The parts of a text are what stands before its first separator, and the parts of the rest. -/
theorem splitOn_eq (hne : separator ≠ []) (t : Text) :
    splitOn separator t =
      (splitOnce? separator t).elim [t] fun cut => cut.1 :: splitOn separator cut.2 := by
  obtain ⟨a, separator, rfl⟩ := List.exists_cons_of_ne_nil hne
  induction t with
  | nil => rfl
  | cons c t ih =>
    rw [splitOn, splitOnFrom, isPrefixOf_eq_isSome_dropLead?]
    cases hlead : dropLead? (a :: separator) (c :: t) with
    | some rest =>
      obtain ⟨rfl, heq⟩ := List.cons.inj (dropLead?_eq_some.1 hlead)
      have hskip : splitOnFrom (c :: separator) separator.length t =
          splitOn (c :: separator) rest := by
        rw [heq, List.append_eq, splitOnFrom_length_append, splitOn]
      rw [splitOnce?_of_lead hlead, List.length_cons, Nat.add_sub_cancel, hskip]
      rfl
    | none =>
      rw [splitOn] at ih
      rw [splitOnce?_cons hlead, ih]
      cases splitOnce? (a :: separator) t <;> rfl

theorem splitOnFrom_ne_nil (separator : Text) (skip : Nat) (t : Text) :
    splitOnFrom separator skip t ≠ [] := by
  fun_induction splitOnFrom separator skip t with
  | case1 | case3 => exact List.cons_ne_nil _ _
  | case2 skip c t ih => exact ih
  | case4 c t hlead ih => cases splitOnFrom separator 0 t <;> exact List.cons_ne_nil _ _

theorem splitOn_ne_nil (separator t : Text) : splitOn separator t ≠ [] :=
  splitOnFrom_ne_nil separator 0 t

end HeaderSync.Text

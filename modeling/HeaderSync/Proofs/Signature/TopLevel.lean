import HeaderSync.Proofs.Signature.Defaults

/-!
# The top level of a list

A character stands at top level when the brackets in front of it are all closed. Where a list is cut
is a matter of the depth alone, so a list written in two halves is cut as each half is, and the part
in which the first half ends and the one with which the second begins are one.

* `AtTopLevel c depth t` : `c` stands in `t` outside all brackets, of which `depth` are open before;
* `splitTopLevelFrom_append` : the parts of two halves (`weld`);
* `splitTopLevelFrom_eq_singleton_iff` : one part, exactly if no separator stands at top level;
* `joinWith_splitTopLevelFrom`, `not_atTopLevel_of_parts` : the parts make up the list, and none of
  them can be cut again;
* `beforeDefault?_eq_none_iff` : no default, exactly if no `=` stands at top level;
* `splitTopLevel_joinWith` : parts that close their brackets are found again where they were joined.
-/

namespace HeaderSync.Signature

open Text

/-! ## Characters at top level -/

/-- `c` stands in `t` outside all brackets, of which `depth` are open before `t`. -/
def AtTopLevel (c : Char) (depth : Nat) (t : Text) : Prop :=
  ∃ before after, t = before ++ c :: after ∧ depthOf depth before = 0

variable {c : Char} {depth : Nat} {s t : Text}

theorem not_atTopLevel_nil : ¬ AtTopLevel c depth [] := by
  rintro ⟨before, after, h, -⟩
  simp at h

theorem atTopLevel_cons {a : Char} :
    AtTopLevel c depth (a :: t) ↔ (a = c ∧ depth = 0) ∨ AtTopLevel c (depthAfter depth a) t := by
  constructor
  · rintro ⟨before, after, h, hdepth⟩
    cases before with
    | nil =>
      obtain ⟨rfl, -⟩ := List.cons.inj h
      exact .inl ⟨rfl, hdepth⟩
    | cons b before =>
      obtain ⟨rfl, rfl⟩ := List.cons.inj h
      exact .inr ⟨before, after, rfl, hdepth⟩
  · rintro (⟨rfl, rfl⟩ | ⟨before, after, rfl, hdepth⟩)
    · exact ⟨[], t, rfl, rfl⟩
    · exact ⟨a :: before, after, rfl, hdepth⟩

theorem atTopLevel_append :
    AtTopLevel c depth (s ++ t) ↔ AtTopLevel c depth s ∨ AtTopLevel c (depthOf depth s) t := by
  induction s generalizing depth with
  | nil => simp [not_atTopLevel_nil]
  | cons a s ih =>
    rw [List.cons_append, atTopLevel_cons, atTopLevel_cons, ih, depthOf_cons, or_assoc]

theorem AtTopLevel.mem (h : AtTopLevel c depth t) : c ∈ t := by
  obtain ⟨before, after, rfl, -⟩ := h
  simp

theorem not_atTopLevel_of_allBlank (hc : isBlank c = false) (ht : allBlank t = true) :
    ¬ AtTopLevel c depth t := by
  intro h
  have hblank := List.all_eq_true.mp ht c h.mem
  rw [hc] at hblank
  cases hblank

instance decidableAtTopLevel (c : Char) :
    (depth : Nat) → (t : Text) → Decidable (AtTopLevel c depth t)
  | _, [] => isFalse not_atTopLevel_nil
  | depth, a :: t =>
    have := decidableAtTopLevel c (depthAfter depth a) t
    decidable_of_iff _ atTopLevel_cons.symm

/-- There is no default exactly if no `=` stands at top level. -/
theorem beforeDefault?_eq_none_iff : beforeDefault? depth t = none ↔ ¬ AtTopLevel '=' depth t := by
  induction t generalizing depth with
  | nil => simp [beforeDefault?, not_atTopLevel_nil]
  | cons a t ih => rw [beforeDefault?_cons_eq_none, atTopLevel_cons, ih, not_or]

/-- What stands before the default is the text up to an `=`. -/
theorem exists_append_of_beforeDefault? {before : Text} (h : beforeDefault? depth t = some before) :
    ∃ value, t = before ++ '=' :: value := by
  induction t generalizing depth before with
  | nil => cases h
  | cons a t ih =>
    rw [beforeDefault?] at h
    split at h
    · rename_i hfirst
      simp only [Bool.and_eq_true, beq_iff_eq] at hfirst
      obtain rfl := Option.some.inj h
      exact ⟨t, by rw [hfirst.1]; rfl⟩
    · obtain ⟨rest, hrest, rfl⟩ := Option.map_eq_some_iff.mp h
      obtain ⟨value, rfl⟩ := ih hrest
      exact ⟨value, rfl⟩

/-- The first `=` at top level ends what stands before the default. -/
theorem beforeDefault?_append (hs : ¬ AtTopLevel '=' depth s) (hdepth : depthOf depth s = 0)
    (value : Text) : beforeDefault? depth (s ++ '=' :: value) = some s := by
  induction s generalizing depth with
  | nil =>
    obtain rfl : depth = 0 := hdepth
    rfl
  | cons a s ih =>
    rw [atTopLevel_cons, not_or] at hs
    have hfirst : (a == '=' && depth == 0) = false := by simpa using hs.1
    rw [List.cons_append, beforeDefault?, hfirst, ih hs.2 hdepth]
    rfl

/-! ## Parts of two halves -/

/-- One list of parts after another, where the last of the first and the first of the second are
one part. -/
def weld : List Text → List Text → List Text
  | [], others => others
  | [part], others => others.modifyHead (part ++ ·)
  | part :: parts, others => part :: weld parts others

theorem weld_singleton (part : Text) (others : List Text) :
    weld [part] others = others.modifyHead (part ++ ·) := rfl

theorem weld_cons (part : Text) {parts : List Text} (hne : parts ≠ []) (others : List Text) :
    weld (part :: parts) others = part :: weld parts others :=
  weld.eq_3 others part parts hne

theorem weld_consFirst (c : Char) {parts : List Text} (hne : parts ≠ []) {others : List Text}
    (hothers : others ≠ []) : weld (consFirst c parts) others = consFirst c (weld parts others) := by
  obtain ⟨part, parts, rfl⟩ := List.exists_cons_of_ne_nil hne
  obtain ⟨other, others, rfl⟩ := List.exists_cons_of_ne_nil hothers
  cases parts <;> rfl

theorem weld_nil_cons {parts : List Text} (hne : parts ≠ []) (others : List Text) :
    weld parts ([] :: others) = parts ++ others := by
  induction parts with
  | nil => exact absurd rfl hne
  | cons part parts ih =>
    cases parts with
    | nil => simp [weld_singleton]
    | cons next parts =>
      rw [weld_cons _ (List.cons_ne_nil _ _), ih (List.cons_ne_nil _ _)]
      rfl

variable {separator : Char}

/-- The two halves of a list are cut one after the other. -/
theorem splitTopLevelFrom_append (separator : Char) (depth : Nat) (s t : Text) :
    splitTopLevelFrom separator depth (s ++ t) =
      weld (splitTopLevelFrom separator depth s)
        (splitTopLevelFrom separator (depthOf depth s) t) := by
  induction s generalizing depth with
  | nil =>
    have hne := splitTopLevelFrom_ne_nil separator depth t
    obtain ⟨part, parts, h⟩ := List.exists_cons_of_ne_nil hne
    simp [weld_singleton, h]
  | cons a s ih =>
    have hne := splitTopLevelFrom_ne_nil separator
    rw [List.cons_append, splitTopLevelFrom_cons, splitTopLevelFrom_cons, depthOf_cons]
    split
    · rename_i h
      simp only [Bool.and_eq_true, Bool.not_eq_true', beq_iff_eq] at h
      obtain ⟨⟨⟨ho, hc⟩, -⟩, rfl⟩ := h
      have hdepth : depthAfter 0 a = 0 := by simp [depthAfter, ho, hc]
      rw [hdepth, ih, weld_cons _ (hne 0 s)]
    · rw [ih, weld_consFirst _ (hne _ s) (hne _ t)]

/-! ## Separators -/

/-- Parts of which all but the last close their brackets. -/
theorem topLevelParts_of_dropLast {parts : List Text}
    (h : ∀ part ∈ parts.dropLast, depthOf 0 part = 0) : TopLevelParts 0 parts := by
  match parts with
  | [] => trivial
  | [_] => trivial
  | part :: next :: parts =>
    obtain ⟨hpart, hparts⟩ := List.forall_mem_cons.mp h
    exact ⟨hpart, topLevelParts_of_dropLast hparts⟩

/-- A list is one part exactly if no separator stands in it at top level. -/
theorem splitTopLevelFrom_eq_singleton_iff (hsep : IsSeparator separator) :
    splitTopLevelFrom separator depth t = [t] ↔ ¬ AtTopLevel separator depth t := by
  induction t generalizing depth with
  | nil => simp [not_atTopLevel_nil]
  | cons a t ih =>
    rw [splitTopLevelFrom_cons, atTopLevel_cons]
    by_cases h : a = separator ∧ depth = 0
    · obtain ⟨rfl, rfl⟩ := h
      simp [hsep.1, hsep.2]
    · rw [if_neg (by simp only [Bool.and_eq_true, beq_iff_eq]; tauto), or_iff_right h, ← ih]
      obtain ⟨part, parts, heq⟩ := List.exists_cons_of_ne_nil
        (splitTopLevelFrom_ne_nil separator (depthAfter depth a) t)
      simp [heq, consFirst]

/-- No separator is left in a part at top level. -/
theorem not_atTopLevel_of_parts (hsep : IsSeparator separator) {part : Text} {parts : List Text}
    (h : splitTopLevelFrom separator depth t = part :: parts) :
    ¬ AtTopLevel separator depth part ∧ ∀ next ∈ parts, ¬ AtTopLevel separator 0 next := by
  induction t generalizing depth part parts with
  | nil =>
    obtain ⟨rfl, rfl⟩ := List.cons.inj h
    exact ⟨not_atTopLevel_nil, by simp⟩
  | cons a t ih =>
    obtain ⟨first, others, heq⟩ := List.exists_cons_of_ne_nil
      (splitTopLevelFrom_ne_nil separator (depthAfter depth a) t)
    obtain ⟨hfirst, hothers⟩ := ih heq
    rw [splitTopLevelFrom_cons] at h
    split at h
    · rename_i hcut
      simp only [Bool.and_eq_true, Bool.not_eq_true', beq_iff_eq] at hcut
      obtain ⟨⟨-, rfl⟩, rfl⟩ := hcut
      rw [hsep.depthAfter] at heq hfirst
      rw [heq] at h
      obtain ⟨rfl, rfl⟩ := List.cons.inj h
      exact ⟨not_atTopLevel_nil, List.forall_mem_cons.mpr ⟨hfirst, hothers⟩⟩
    · rename_i hcut
      rw [heq] at h
      obtain ⟨rfl, rfl⟩ := List.cons.inj h
      refine ⟨?_, hothers⟩
      rw [atTopLevel_cons, not_or]
      refine ⟨?_, hfirst⟩
      rintro ⟨rfl, rfl⟩
      exact hcut (by simp [hsep.1, hsep.2])

theorem not_atTopLevel_of_mem_splitTopLevel (hsep : IsSeparator separator) {part : Text}
    (h : part ∈ splitTopLevel separator t) : ¬ AtTopLevel separator 0 part := by
  obtain ⟨first, others, heq⟩ := List.exists_cons_of_ne_nil (splitTopLevelFrom_ne_nil separator 0 t)
  obtain ⟨hfirst, hothers⟩ := not_atTopLevel_of_parts hsep heq
  rw [splitTopLevel, heq] at h
  rcases List.mem_cons.mp h with rfl | h
  · exact hfirst
  · exact hothers part h

/-- The parts make up the list. -/
theorem joinWith_splitTopLevelFrom (separator : Char) (depth : Nat) (t : Text) :
    joinWith [separator] (splitTopLevelFrom separator depth t) = t := by
  induction t generalizing depth with
  | nil => rfl
  | cons a t ih =>
    obtain ⟨part, parts, heq⟩ := List.exists_cons_of_ne_nil
      (splitTopLevelFrom_ne_nil separator (depthAfter depth a) t)
    have ht := ih (depthAfter depth a)
    rw [splitTopLevelFrom_cons]
    split
    · rename_i hcut
      simp only [Bool.and_eq_true, Bool.not_eq_true', beq_iff_eq] at hcut
      obtain ⟨⟨⟨ho, hc⟩, rfl⟩, rfl⟩ := hcut
      have hdepth : depthAfter 0 a = 0 := by simp [depthAfter, ho, hc]
      rw [hdepth] at heq ht
      rw [heq] at ht ⊢
      rw [joinWith_cons_cons, ht]
      rfl
    · rw [heq] at ht ⊢
      rw [← ht, consFirst]
      cases parts with
      | nil => rw [joinWith_singleton, joinWith_singleton]
      | cons next parts => rw [joinWith_cons_cons, joinWith_cons_cons, List.cons_append]

/-- Text without a separator in front of a list belongs to its first part. -/
theorem splitTopLevelFrom_append_of_not (hsep : IsSeparator separator)
    (hs : ¬ AtTopLevel separator depth s) (t : Text) :
    splitTopLevelFrom separator depth (s ++ t) =
      (splitTopLevelFrom separator (depthOf depth s) t).modifyHead (s ++ ·) := by
  rw [splitTopLevelFrom_append, (splitTopLevelFrom_eq_singleton_iff hsep).mpr hs, weld_singleton]

/-- A separator at top level ends a part. -/
theorem splitTopLevelFrom_append_cons (hsep : IsSeparator separator) (hs : depthOf depth s = 0)
    (t : Text) :
    splitTopLevelFrom separator depth (s ++ separator :: t) =
      splitTopLevelFrom separator depth s ++ splitTopLevelFrom separator 0 t := by
  have hcut : splitTopLevelFrom separator 0 (separator :: t) =
      [] :: splitTopLevelFrom separator 0 t := by
    simp [splitTopLevelFrom_cons, hsep.1, hsep.2]
  rw [splitTopLevelFrom_append, hs, hcut, weld_nil_cons (splitTopLevelFrom_ne_nil _ _ _)]

/-- Blanks in front of a list belong to its first part. -/
theorem splitTopLevel_of_allBlank_append (hsep : IsSeparator separator)
    (hshown : isBlank separator = false) {pad : Text} (hpad : allBlank pad = true) (t : Text) :
    splitTopLevel separator (pad ++ t) = (splitTopLevel separator t).modifyHead (pad ++ ·) := by
  rw [splitTopLevel, splitTopLevelFrom_append_of_not hsep (not_atTopLevel_of_allBlank hshown hpad),
    depthOf_of_allBlank 0 hpad]
  rfl

/-- Parts that close their brackets are found again where they were joined, each cut by itself. -/
theorem splitTopLevel_joinWith (hsep : IsSeparator separator) (hshown : isBlank separator = false)
    {pad : Text} (hpad : allBlank pad = true) (part : Text) (parts : List Text)
    (h : TopLevelParts 0 (part :: parts)) :
    splitTopLevel separator (joinWith (separator :: pad) (part :: parts)) =
      splitTopLevel separator part ++
        parts.flatMap fun next => splitTopLevel separator (pad ++ next) := by
  induction parts generalizing part with
  | nil => rw [joinWith_singleton, List.flatMap_nil, List.append_nil]
  | cons next parts ih =>
    obtain ⟨first, others, heq⟩ := List.exists_cons_of_ne_nil (splitTopLevelFrom_ne_nil separator 0 next)
    have hnext : splitTopLevel separator next = first :: others := heq
    rw [joinWith_cons_cons, List.cons_append, splitTopLevel, splitTopLevelFrom_append_cons hsep h.1,
      ← splitTopLevel, ← splitTopLevel, splitTopLevel_of_allBlank_append hsep hshown hpad,
      ih next h.2, List.flatMap_cons, splitTopLevel_of_allBlank_append hsep hshown hpad, hnext]
    rfl

end HeaderSync.Signature

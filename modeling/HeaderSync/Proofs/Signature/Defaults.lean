import HeaderSync.Proofs.Text.Trim
import HeaderSync.Signature

/-!
# Argument lists without defaults

A default is recognized by an `=` outside all brackets. The depth of brackets is the same whether a
list is read as a whole or argument by argument, because the lists are only cut at depth zero.

* `depthOf` : the number of brackets that a text leaves open;
* `IsSeparator` : a character that is no bracket, so leaves the depth alone;
* `beforeDefault?_eq_none_iff_parts` : a list has no default iff none of its arguments has one;
* `beforeDefault?_stripDefaults` : none is left after stripping;
* `argumentTokens_stripDefaults` : the arguments keep their tokens.
-/

namespace HeaderSync.Signature

open Text

/-- The number of open brackets after `t`, of which `depth` were open before it. -/
def depthOf (depth : Nat) (t : Text) : Nat :=
  t.foldl depthAfter depth

@[simp] theorem depthOf_nil (depth : Nat) : depthOf depth [] = depth := rfl

@[simp] theorem depthOf_cons (depth : Nat) (c : Char) (t : Text) :
    depthOf depth (c :: t) = depthOf (depthAfter depth c) t := rfl

theorem depthOf_append (depth : Nat) (s t : Text) :
    depthOf depth (s ++ t) = depthOf (depthOf depth s) t := by
  rw [depthOf, List.foldl_append]
  rfl

/-! ## Characters that are no brackets -/

/-- A character that is no bracket. -/
def IsSeparator (c : Char) : Prop :=
  isOpening c = false ∧ isClosing c = false

instance : DecidablePred IsSeparator :=
  fun _ => inferInstanceAs (Decidable (_ ∧ _))

def brackets : List Char :=
  ['(', '<', '[', '\x7b', ')', '>', ']', '\x7d']

theorem isSeparator_iff {c : Char} : IsSeparator c ↔ c ∉ brackets := by
  simp only [IsSeparator, isOpening, isClosing, brackets, Bool.or_eq_false_iff, beq_eq_false_iff_ne,
    List.mem_cons, List.not_mem_nil, or_false, not_or]
  tauto

/-- A class of characters without brackets. -/
theorem isSeparator_of {p : Char → Bool} (hp : brackets.any p = false) {c : Char}
    (hc : p c = true) : IsSeparator c :=
  isSeparator_iff.2 fun hmem => List.any_eq_false.mp hp c hmem hc

theorem IsSeparator.depthAfter {c : Char} (h : IsSeparator c) (depth : Nat) :
    depthAfter depth c = depth := by
  simp [Signature.depthAfter, h.1, h.2]

/-- A text without brackets leaves the depth as it is. -/
theorem depthOf_of_forall {t : Text} (ht : ∀ c ∈ t, IsSeparator c) (depth : Nat) :
    depthOf depth t = depth := by
  induction t with
  | nil => rfl
  | cons c t ih =>
    obtain ⟨hc, ht⟩ := List.forall_mem_cons.mp ht
    rw [depthOf_cons, hc.depthAfter, ih ht]

theorem isSeparator_of_isBlank {c : Char} (h : isBlank c = true) : IsSeparator c :=
  isSeparator_of (p := isBlank) (by decide) h

theorem depthOf_of_allBlank (depth : Nat) {t : Text} (h : allBlank t = true) :
    depthOf depth t = depth :=
  depthOf_of_forall (fun c hc => isSeparator_of_isBlank (List.all_eq_true.mp h c hc)) depth

theorem depthOf_trim (depth : Nat) (t : Text) : depthOf depth (trim t) = depthOf depth t := by
  obtain ⟨l, r, ht, hl, hr⟩ := exists_trim t
  conv_rhs => rw [ht]
  rw [depthOf_append, depthOf_append, depthOf_of_allBlank depth hl, depthOf_of_allBlank _ hr]

/-! ## Defaults -/

theorem beforeDefault?_cons (depth : Nat) (c : Char) (t : Text) :
    beforeDefault? depth (c :: t) =
      if c == '=' && depth == 0 then some []
      else (beforeDefault? (depthAfter depth c) t).map (c :: ·) := rfl

theorem beforeDefault?_cons_eq_none (depth : Nat) (c : Char) (t : Text) :
    beforeDefault? depth (c :: t) = none ↔
      ¬ (c = '=' ∧ depth = 0) ∧ beforeDefault? (depthAfter depth c) t = none := by
  rw [beforeDefault?_cons]
  by_cases h : c = '=' ∧ depth = 0
  · simp [h]
  · simp only [Bool.and_eq_true, beq_iff_eq, h, if_false, Option.map_eq_none_iff, not_false_eq_true,
      true_and]

theorem beforeDefault?_append_eq_none (depth : Nat) (s t : Text) :
    beforeDefault? depth (s ++ t) = none ↔
      beforeDefault? depth s = none ∧ beforeDefault? (depthOf depth s) t = none := by
  induction s generalizing depth with
  | nil => exact (and_iff_right rfl).symm
  | cons c s ih =>
    rw [List.cons_append, beforeDefault?_cons_eq_none, ih, beforeDefault?_cons_eq_none,
      depthOf_cons, and_assoc]

/-- What stands before a default has none, and leaves no bracket open. -/
theorem beforeDefault?_eq_some {depth : Nat} {t before : Text}
    (h : beforeDefault? depth t = some before) :
    beforeDefault? depth before = none ∧ depthOf depth before = 0 := by
  induction t generalizing depth before with
  | nil => cases h
  | cons c t ih =>
    rw [beforeDefault?_cons] at h
    by_cases hc : (c == '=' && depth == 0) = true
    · rw [if_pos hc, Option.some.injEq] at h
      subst h
      simp only [Bool.and_eq_true, beq_iff_eq] at hc
      exact ⟨rfl, hc.2⟩
    · rw [if_neg hc] at h
      obtain ⟨rest, hrest, rfl⟩ := Option.map_eq_some_iff.mp h
      obtain ⟨hnone, hdepth⟩ := ih hrest
      refine ⟨(beforeDefault?_cons_eq_none _ _ _).mpr ⟨?_, hnone⟩, hdepth⟩
      simpa using hc

theorem beforeDefault?_of_allBlank (depth : Nat) {t : Text} (h : allBlank t = true) :
    beforeDefault? depth t = none := by
  induction t with
  | nil => rfl
  | cons c t ih =>
    simp only [allBlank, List.all_cons, Bool.and_eq_true] at h
    refine (beforeDefault?_cons_eq_none _ _ _).mpr ⟨?_, ?_⟩
    · rintro ⟨rfl, -⟩
      exact absurd h.1 (by decide)
    · rw [(isSeparator_of_isBlank h.1).depthAfter]
      exact ih h.2

theorem beforeDefault?_trim (depth : Nat) (t : Text) :
    beforeDefault? depth (trim t) = none ↔ beforeDefault? depth t = none := by
  obtain ⟨l, r, ht, hl, hr⟩ := exists_trim t
  conv_rhs => rw [ht]
  rw [beforeDefault?_append_eq_none, beforeDefault?_append_eq_none, depthOf_of_allBlank depth hl]
  simp [beforeDefault?_of_allBlank, hl, hr]

/-! ## Parts of a list -/

@[simp] theorem splitTopLevelFrom_nil (separator : Char) (depth : Nat) :
    splitTopLevelFrom separator depth [] = [[]] := rfl

theorem splitTopLevelFrom_cons (separator : Char) (depth : Nat) (c : Char) (t : Text) :
    splitTopLevelFrom separator depth (c :: t) =
      if !isOpening c && !isClosing c && c == separator && depth == 0 then
        [] :: splitTopLevelFrom separator 0 t
      else consFirst c (splitTopLevelFrom separator (depthAfter depth c) t) := rfl

theorem splitTopLevelFrom_ne_nil (separator : Char) (depth : Nat) (t : Text) :
    splitTopLevelFrom separator depth t ≠ [] := by
  cases t with
  | nil => simp
  | cons c t =>
    rw [splitTopLevelFrom_cons]
    split
    · simp
    · cases splitTopLevelFrom separator (depthAfter depth c) t <;> simp [consFirst]

/-- The first of the parts starts at `depth`, the others at depth zero, where each part but the last
ends. -/
def TopLevelParts (depth : Nat) : List Text → Prop
  | [] => True
  | [_] => True
  | part :: next :: parts => depthOf depth part = 0 ∧ TopLevelParts 0 (next :: parts)

theorem topLevelParts_consFirst (depth : Nat) (c : Char) (parts : List Text)
    (h : TopLevelParts (depthAfter depth c) parts) : TopLevelParts depth (consFirst c parts) := by
  match parts with
  | [] => trivial
  | [_] => trivial
  | _ :: _ :: _ => exact h

theorem topLevelParts_splitTopLevelFrom (separator : Char) (depth : Nat) (t : Text) :
    TopLevelParts depth (splitTopLevelFrom separator depth t) := by
  induction t generalizing depth with
  | nil => trivial
  | cons c t ih =>
    rw [splitTopLevelFrom_cons]
    split
    · rename_i h
      simp only [Bool.and_eq_true, beq_iff_eq] at h
      obtain ⟨part, parts, heq⟩ := List.exists_cons_of_ne_nil
        (splitTopLevelFrom_ne_nil separator 0 t)
      have := ih 0
      rw [heq] at this ⊢
      exact ⟨h.2, this⟩
    · exact topLevelParts_consFirst _ _ _ (ih _)

/-- The first of the parts, read from `depth` on, and the others have no default. -/
def NoDefaults (depth : Nat) : List Text → Prop
  | [] => True
  | part :: parts => beforeDefault? depth part = none ∧ ∀ p ∈ parts, beforeDefault? 0 p = none

theorem noDefaults_consFirst (depth : Nat) (c : Char) (parts : List Text) (hne : parts ≠ []) :
    NoDefaults depth (consFirst c parts) ↔
      ¬ (c = '=' ∧ depth = 0) ∧ NoDefaults (depthAfter depth c) parts := by
  cases parts with
  | nil => exact absurd rfl hne
  | cons part parts => rw [consFirst, NoDefaults, NoDefaults, beforeDefault?_cons_eq_none, and_assoc]

theorem noDefaults_splitTopLevelFrom {separator : Char} (hs : separator ≠ '=') (depth : Nat)
    (t : Text) :
    NoDefaults depth (splitTopLevelFrom separator depth t) ↔ beforeDefault? depth t = none := by
  induction t generalizing depth with
  | nil => simp [NoDefaults, beforeDefault?]
  | cons c t ih =>
    have hne := splitTopLevelFrom_ne_nil separator
    rw [splitTopLevelFrom_cons, beforeDefault?_cons_eq_none]
    split
    · rename_i h
      simp only [Bool.and_eq_true, Bool.not_eq_true', beq_iff_eq] at h
      obtain ⟨⟨⟨ho, hc⟩, rfl⟩, rfl⟩ := h
      have hdepth : depthAfter 0 c = 0 := by simp [depthAfter, ho, hc]
      rw [hdepth, ← ih 0]
      obtain ⟨part, parts, heq⟩ := List.exists_cons_of_ne_nil (hne 0 t)
      rw [heq]
      simp [NoDefaults, beforeDefault?, hs]
    · rw [noDefaults_consFirst _ _ _ (hne _ t), ih]

/-- A list has no default iff none of its arguments has one. -/
theorem beforeDefault?_eq_none_iff_parts (args : Text) :
    (∀ part ∈ splitTopLevel ',' args, beforeDefault? 0 part = none) ↔
      beforeDefault? 0 args = none := by
  rw [← noDefaults_splitTopLevelFrom (by decide : ',' ≠ '='), splitTopLevel]
  cases splitTopLevelFrom ',' 0 args with
  | nil => simp [NoDefaults]
  | cons part parts => simp [NoDefaults]

/-! ## Stripping -/

theorem joinWith_cons_cons (glue part next : Text) (parts : List Text) :
    joinWith glue (part :: next :: parts) = part ++ (glue ++ joinWith glue (next :: parts)) := by
  simp [joinWith, List.intersperse_cons_cons]

theorem joinWith_singleton (glue part : Text) : joinWith glue [part] = part := by
  simp [joinWith]

/-- An argument without its default. -/
def withoutDefault (part : Text) : Text :=
  trim ((beforeDefault? 0 part).getD part)

theorem beforeDefault?_withoutDefault (part : Text) :
    beforeDefault? 0 (withoutDefault part) = none := by
  rw [withoutDefault, beforeDefault?_trim]
  cases h : beforeDefault? 0 part with
  | none => exact h
  | some before => exact (beforeDefault?_eq_some h).1

theorem depthOf_withoutDefault {part : Text} (hd : depthOf 0 part = 0) :
    depthOf 0 (withoutDefault part) = 0 := by
  rw [withoutDefault, depthOf_trim]
  cases h : beforeDefault? 0 part with
  | none => exact hd
  | some before => exact (beforeDefault?_eq_some h).2

theorem beforeDefault?_joinWith_withoutDefault (parts : List Text) (h : TopLevelParts 0 parts) :
    beforeDefault? 0 (joinWith ", " (parts.map withoutDefault)) = none := by
  match parts with
  | [] => rfl
  | [part] =>
    rw [List.map_singleton, joinWith_singleton]
    exact beforeDefault?_withoutDefault part
  | part :: next :: parts =>
    have hd : depthOf 0 (withoutDefault part) = 0 := depthOf_withoutDefault h.1
    have hglue : depthOf 0 (", " : Text) = 0 := by decide
    rw [List.map_cons, List.map_cons, joinWith_cons_cons, beforeDefault?_append_eq_none, hd,
      beforeDefault?_append_eq_none, hglue, ← List.map_cons]
    exact ⟨beforeDefault?_withoutDefault part, by decide,
      beforeDefault?_joinWith_withoutDefault (next :: parts) h.2⟩

theorem stripDefaults_of_none {args : Text} (h : beforeDefault? 0 args = none) :
    stripDefaults args = trim args := by
  rw [stripDefaults, if_pos]
  rw [List.all_eq_true]
  intro part hpart
  rw [Option.isNone_iff_eq_none]
  exact (beforeDefault?_eq_none_iff_parts args).mpr h part hpart

/-- Stripping leaves no default. -/
theorem beforeDefault?_stripDefaults (args : Text) :
    beforeDefault? 0 (stripDefaults args) = none := by
  by_cases h : beforeDefault? 0 args = none
  · rw [stripDefaults_of_none h, beforeDefault?_trim, h]
  · rw [stripDefaults, if_neg]
    · exact beforeDefault?_joinWith_withoutDefault _ (topLevelParts_splitTopLevelFrom ',' 0 args)
    · rw [← beforeDefault?_eq_none_iff_parts] at h
      simpa using h

theorem stripDefaults_stripDefaults (args : Text) :
    stripDefaults (stripDefaults args) = trim (stripDefaults args) :=
  stripDefaults_of_none (beforeDefault?_stripDefaults args)

/-- A list has the same tokens with and without its defaults. -/
theorem argumentTokens_stripDefaults (args : Text) :
    argumentTokens (stripDefaults args) = argumentTokens args := by
  rw [argumentTokens, argumentTokens, stripDefaults_stripDefaults, trim_trim]

/-! ## Comparison -/

@[simp] theorem sameArgument_self (tokens : List Text) : sameArgument tokens tokens = true := by
  simp [sameArgument]

@[simp] theorem sameArguments_self (args : List (List Text)) : sameArguments args args = true := by
  induction args with
  | nil => rfl
  | cons tokens args ih => rw [sameArguments, sameArgument_self, ih, Bool.and_self]

/-- Stripping defaults does not count. -/
theorem argumentsEqual_stripDefaults (args : Text) :
    argumentsEqual (stripDefaults args) args = true := by
  rw [argumentsEqual, argumentTokens_stripDefaults, sameArguments_self]

end HeaderSync.Signature

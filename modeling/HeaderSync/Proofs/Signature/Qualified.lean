import HeaderSync.Proofs.Signature.Scopes

/-!
# Qualified names

Splitting a name at its scopes undoes joining them, as long as the scopes are identifiers.

* `IsScopeName` : an identifier other than the word `operator`;
* `IsScopeName.isScope` : it is a scope that nothing in it takes apart;
* `ColonsPaired` : colons stand in pairs only;
* `splitQualified_joinScopes` : the joined scopes come back, followed by those of the name.
-/

namespace HeaderSync

namespace Signature

open Text

/-- An identifier other than the word `operator`. -/
def IsScopeName (s : Text) : Prop :=
  isIdentifier s = true ∧ s ≠ operatorWord

instance (s : Text) : Decidable (IsScopeName s) :=
  inferInstanceAs (Decidable (_ ∧ _))

theorem isIdentifierChar_of_isIdentifier {s : Text} (h : isIdentifier s = true) :
    ∀ c ∈ s, isIdentifierChar c = true := by
  cases s with
  | nil => simp
  | cons a s =>
    simp only [isIdentifier, Bool.and_eq_true, Bool.or_eq_true, beq_iff_eq] at h
    intro c hc
    rcases List.mem_cons.mp hc with rfl | hc
    · rcases h.1 with hl | rfl
      · simp [isIdentifierChar, isLetterOrNumber, hl]
      · decide
    · exact List.all_eq_true.mp h.2 c hc

theorem IsScopeName.ne_nil {s : Text} (h : IsScopeName s) : s ≠ [] := by
  rintro rfl
  exact absurd h.1 (by decide)

theorem IsScopeName.identifierChar {s : Text} (h : IsScopeName s) :
    ∀ c ∈ s, isIdentifierChar c = true :=
  isIdentifierChar_of_isIdentifier h.1

theorem IsScopeName.trim_eq {s : Text} (h : IsScopeName s) : trim s = s :=
  trim_eq_self fun c hc => isBlank_eq_false_of_isIdentifierChar (h.identifierChar c hc)

/-! ## Colons in pairs -/

/-- Colons stand in pairs only. -/
inductive ColonsPaired : Text → Prop where
  | nil : ColonsPaired []
  | pair {t : Text} (h : ColonsPaired t) : ColonsPaired (':' :: ':' :: t)
  | char {c : Char} {t : Text} (hc : c ≠ ':') (h : ColonsPaired t) : ColonsPaired (c :: t)

/-- Decides `ColonsPaired` from left to right. -/
def colonsPaired : Text → Bool
  | [] => true
  | ':' :: ':' :: t => colonsPaired t
  | c :: t => c != ':' && colonsPaired t

theorem colonsPaired_iff (t : Text) : colonsPaired t = true ↔ ColonsPaired t := by
  constructor
  · intro h
    fun_induction colonsPaired t with
    | case1 => exact .nil
    | case2 t ih => exact (ih h).pair
    | case3 c t _ ih =>
      simp only [Bool.and_eq_true, bne_iff_ne] at h
      exact (ih h.2).char h.1
  · intro h
    induction h with
    | nil => rfl
    | pair _ ih => rwa [colonsPaired]
    | char hc _ ih =>
      rw [colonsPaired]
      · simp [hc, ih]
      · simp [hc]

instance (t : Text) : Decidable (ColonsPaired t) :=
  decidable_of_iff _ (colonsPaired_iff t)

namespace ColonsPaired

theorem append {s t : Text} (hs : ColonsPaired s) (ht : ColonsPaired t) :
    ColonsPaired (s ++ t) := by
  induction hs with
  | nil => exact ht
  | pair _ ih => exact ih.pair
  | char hc _ ih => exact ih.char hc

theorem reverse {t : Text} (h : ColonsPaired t) : ColonsPaired t.reverse := by
  induction h with
  | nil => exact nil
  | pair _ ih =>
    rw [List.reverse_cons, List.reverse_cons, List.append_assoc]
    exact ih.append nil.pair
  | char hc _ ih =>
    rw [List.reverse_cons]
    exact ih.append (nil.char hc)

theorem of_forall_ne {t : Text} (h : ∀ c ∈ t, c ≠ ':') : ColonsPaired t := by
  induction t with
  | nil => exact nil
  | cons c t ih =>
    exact (ih fun d hd => h d (List.mem_cons_of_mem c hd)).char (h c List.mem_cons_self)

/-- Pairs are not torn in front of another character. -/
theorem of_append_cons {s t : Text} {c : Char} (hc : c ≠ ':') (h : ColonsPaired (s ++ c :: t)) :
    ColonsPaired s := by
  generalize hu : s ++ c :: t = u at h
  induction h generalizing s with
  | nil => simp at hu
  | pair _ ih =>
    match s with
    | [] => simp_all
    | [a] => simp_all
    | a :: b :: s =>
      simp only [List.cons_append, List.cons.injEq] at hu
      obtain ⟨rfl, rfl, hu⟩ := hu
      exact (ih hu).pair
  | char ha _ ih =>
    match s with
    | [] => exact nil
    | a :: s =>
      simp only [List.cons_append, List.cons.injEq] at hu
      obtain ⟨rfl, hu⟩ := hu
      exact (ih hu).char ha

/-- Pairs are not torn in front of blanks. -/
theorem of_append_allBlank {s r : Text} (hr : allBlank r = true) (h : ColonsPaired (s ++ r)) :
    ColonsPaired s := by
  cases r with
  | nil => simpa using h
  | cons c r =>
    refine of_append_cons ?_ h
    rintro rfl
    simp only [allBlank, List.all_cons, Bool.and_eq_true] at hr
    exact absurd hr.1 (by decide)

end ColonsPaired

theorem IsScopeName.forall_ne_colon {s : Text} (h : IsScopeName s) : ∀ c ∈ s, c ≠ ':' := by
  rintro c hc rfl
  exact absurd (h.identifierChar ':' hc) (by decide)

theorem IsScopeName.colonsPaired {s : Text} (h : IsScopeName s) : ColonsPaired s :=
  ColonsPaired.of_forall_ne h.forall_ne_colon

/-! ## Scopes -/

theorem IsScopeName.forall_ne {s : Text} (h : IsScopeName s) :
    ∀ c ∈ s, c ≠ ':' ∧ c ≠ '<' ∧ c ≠ '>' := by
  intro c hc
  have hi := h.identifierChar c hc
  refine ⟨?_, ?_, ?_⟩ <;> (rintro rfl; exact absurd hi (by decide))

/-- The word `operator` does not stand in an identifier, unless it is the identifier. -/
theorem IsScopeName.not_hasOperatorWord {s : Text} (h : IsScopeName s) : ¬ HasOperatorWord [] s := by
  rintro ⟨before, rest, rfl, hbefore, hrest⟩
  have hchars := h.identifierChar
  have hnil : before = [] := by
    rcases List.eq_nil_or_concat before with rfl | ⟨init, last, rfl⟩
    · rfl
    · have hlast := hchars last (by simp)
      simp [hlast] at hbefore
  have hnone : rest = [] := by
    cases rest with
    | nil => rfl
    | cons c rest =>
      have hc := hchars c (by simp)
      simp [hc] at hrest
  exact h.2 (by rw [hnil, hnone, List.nil_append, List.append_nil])

theorem anglesOf_of_forall {s : Text} (hs : ∀ c ∈ s, c ≠ '<' ∧ c ≠ '>') (depth : Nat) :
    anglesOf depth s = depth := by
  induction s with
  | nil => rfl
  | cons c s ih =>
    obtain ⟨⟨hlt, hgt⟩, hs⟩ := List.forall_mem_cons.mp hs
    rw [anglesOf_cons, angleAfter, if_neg (by simpa using hlt), if_neg (by simpa using hgt), ih hs]

theorem IsScopeName.isScope {s : Text} (h : IsScopeName s) : IsScope s where
  ne_nil := h.ne_nil
  trim_eq := h.trim_eq
  closed := anglesOf_of_forall (fun c hc => (h.forall_ne c hc).2) 0
  whole := by
    rintro ⟨before, after, rfl, -⟩
    exact (h.forall_ne ':' (by simp)).1 rfl
  last_ne := fun hlast => (h.forall_ne ':' (List.mem_of_mem_getLast? hlast)).1 rfl
  noOperator := h.not_hasOperatorWord

theorem ColonsPaired.of_splitOperatorFrom? {t before rest : Text} (ht : ColonsPaired t)
    (h : splitOperatorFrom? [] t = some (before, rest)) : ColonsPaired before := by
  have heq := splitOperatorFrom?_eq_some h
  rw [List.reverse_nil, List.nil_append] at heq
  rw [heq] at ht
  exact ColonsPaired.of_append_cons (c := 'o') (by decide) ht

/-! ## Qualifiers of operators -/

theorem dropColons_append {u : Text} (h : ColonsPaired u) (t : Text) :
    dropColons (u ++ t) = if dropColons u = [] then dropColons t else dropColons u ++ t := by
  induction h with
  | nil => simp [dropColons]
  | pair _ ih => simpa [dropColons] using ih
  | char hc _ _ => simp [dropColons, hc]

theorem dropColons_scope {s : Text} (hs : IsScopeName s) :
    dropColons (s ++ [':', ':']).reverse = s.reverse := by
  rw [List.reverse_append]
  obtain ⟨init, last, hlast⟩ := (List.eq_nil_or_concat s).resolve_left hs.ne_nil
  have hne : last ≠ ':' := hs.forall_ne_colon last (by simp [hlast])
  simp [hlast, dropColons, hne]

theorem operatorQualifier_scope {s before : Text} (hs : IsScopeName s) (hb : ColonsPaired before) :
    operatorQualifier (s ++ ':' :: ':' :: before) =
      if operatorQualifier before = [] then s else s ++ ':' :: ':' :: operatorQualifier before := by
  have happ : s ++ ':' :: ':' :: before = s ++ [':', ':'] ++ before := by simp
  have hcolon : isBlank ':' = false := by decide
  rw [happ, operatorQualifier, operatorQualifier]
  by_cases hblank : allBlank before = true
  · have hnil : trimEnd before = [] := by
      simpa [trimEnd] using trimEnd_append_of_allBlank [] hblank
    have hscope : trimEnd (s ++ [':', ':']) = s ++ [':', ':'] :=
      trimEnd_eq_self_of_last (by simp [hcolon])
    rw [trimEnd_append_of_allBlank _ hblank, hscope, dropColons_scope hs, hnil]
    simp [dropColons]
  · obtain ⟨r, hr, hrb⟩ := exists_trimEnd before
    have hpaired : ColonsPaired (trimEnd before) := by
      rw [hr] at hb
      exact ColonsPaired.of_append_allBlank hrb hb
    rw [trimEnd_append_of_not_allBlank _ (by simpa using hblank), List.reverse_append,
      dropColons_append hpaired.reverse, dropColons_scope hs]
    split
    · rename_i hnil
      simp [hnil]
    · rename_i hne
      simp [hne]

theorem cleanScopes_operatorQualifier {s before : Text} (hs : IsScopeName s)
    (hb : ColonsPaired before) :
    cleanScopes (splitScopes (operatorQualifier (s ++ ':' :: ':' :: before))) =
      s :: cleanScopes (splitScopes (operatorQualifier before)) := by
  rw [operatorQualifier_scope hs hb]
  split
  · rename_i hnil
    rw [hnil, splitScopes, splitScopesFrom_of_not hs.isScope.whole, cleanScopes_cons hs.isScope]
    rfl
  · rw [splitScopes_scope hs.isScope, cleanScopes_cons hs.isScope]

/-! ## Joining and splitting -/

/-- A scope in front of a name becomes the first of its scopes. -/
theorem splitQualified_scope {s rest : Text} (hs : IsScopeName s) (hrest : ColonsPaired rest) :
    splitQualified (s ++ ':' :: ':' :: rest) =
      (s :: (splitQualified rest).1, (splitQualified rest).2) := by
  rw [splitQualified, splitQualified, splitOperatorFrom?_scope hs.isScope.noOperator]
  cases hop : splitOperatorFrom? [] rest with
  | some cut =>
    obtain ⟨before, after⟩ := cut
    have hpaired := hrest.of_splitOperatorFrom? hop
    exact congrArg (·, operatorName after) (cleanScopes_operatorQualifier hs hpaired)
  | none =>
    obtain ⟨part, parts, hparts⟩ := List.exists_cons_of_ne_nil (splitScopesFrom_ne_nil 0 rest)
    have hsplit : splitScopes rest = part :: parts := hparts
    simp only [Option.map_none, splitScopes_scope hs.isScope, hsplit, List.dropLast_cons_cons,
      cleanScopes_cons hs.isScope, List.getLastD_cons]

theorem colonsPaired_joinScopes {scopes : List Text} {name : Text}
    (hs : ∀ s ∈ scopes, IsScopeName s) (hname : ColonsPaired name) :
    ColonsPaired (joinScopes scopes name) := by
  induction scopes with
  | nil => rwa [joinScopes_nil]
  | cons s scopes ih =>
    rw [joinScopes_cons]
    have hrest := ih fun x hx => hs x (List.mem_cons_of_mem s hx)
    exact (hs s List.mem_cons_self).colonsPaired.append hrest.pair

/-- The joined scopes come back, followed by those of the name itself. -/
theorem splitQualified_joinScopes {scopes : List Text} {name : Text}
    (hs : ∀ s ∈ scopes, IsScopeName s) (hname : ColonsPaired name) :
    splitQualified (joinScopes scopes name) =
      (scopes ++ (splitQualified name).1, (splitQualified name).2) := by
  induction scopes with
  | nil => rw [joinScopes_nil, List.nil_append]
  | cons s scopes ih =>
    have hrest : ∀ x ∈ scopes, IsScopeName x := fun x hx => hs x (List.mem_cons_of_mem s hx)
    rw [joinScopes_cons,
      splitQualified_scope (hs s List.mem_cons_self) (colonsPaired_joinScopes hrest hname),
      ih hrest, List.cons_append]

end Signature

end HeaderSync

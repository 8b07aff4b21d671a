import HeaderSync.Proofs.Signature.Defaults
import HeaderSync.Proofs.Text.Separators
import HeaderSync.Proofs.Text.Words

/-!
# Scopes of a name

A name is cut at every `::` outside template brackets, unless it has an operator: then what stands
in front of the word `operator` is cut, and the rest is kept whole, so that neither the template
arguments of a scope nor the type that an operator casts to are taken apart.

* `AtScopeLevel` : a `::` outside the template brackets;
* `HasOperatorWord` : the word `operator`, not as a part of an identifier;
* `splitOperatorFrom?_of_leads`, `splitOperatorFrom?_of_not_leads` : one step of the search for it;
* `splitScopes_joinScopes`, `splitOperatorFrom?_joinScopes` : what both scans find in a joined name;
* `operatorQualifier_joinScopes` : the scopes in front of an operator;
* `splitQualified_joinScopes_eq` : joined scopes and the name in them are split back.
-/

namespace HeaderSync

namespace Text

theorem consFirst_ne_nil (c : Char) (parts : List Text) : consFirst c parts ≠ [] := by
  cases parts <;> simp [consFirst]

end Text

namespace Signature

open Text

/-! ## Template brackets -/

/-- The number of open template brackets after `c`. -/
def angleAfter (depth : Nat) (c : Char) : Nat :=
  if c == '<' then depth + 1 else if c == '>' then depth - 1 else depth

/-- The number of open template brackets after `t`, of which `depth` were open before it. -/
def anglesOf (depth : Nat) (t : Text) : Nat :=
  t.foldl angleAfter depth

@[simp] theorem anglesOf_nil (depth : Nat) : anglesOf depth [] = depth := rfl

@[simp] theorem anglesOf_cons (depth : Nat) (c : Char) (t : Text) :
    anglesOf depth (c :: t) = anglesOf (angleAfter depth c) t := rfl

/-- A `::` stands in `t` outside all template brackets, of which `depth` are open before `t`. -/
def AtScopeLevel (depth : Nat) (t : Text) : Prop :=
  ∃ before after, t = before ++ ':' :: ':' :: after ∧ anglesOf depth before = 0

variable {depth : Nat} {c : Char} {s t : Text}

theorem not_atScopeLevel_nil : ¬ AtScopeLevel depth [] := by
  rintro ⟨before, after, h, -⟩
  simp at h

theorem atScopeLevel_cons :
    AtScopeLevel depth (c :: t) ↔
      (depth = 0 ∧ c = ':' ∧ t.head? = some ':') ∨ AtScopeLevel (angleAfter depth c) t := by
  constructor
  · rintro ⟨before, after, h, hdepth⟩
    cases before with
    | nil =>
      obtain ⟨rfl, rfl⟩ := List.cons.inj h
      exact .inl ⟨hdepth, rfl, rfl⟩
    | cons a before =>
      obtain ⟨rfl, rfl⟩ := List.cons.inj h
      exact .inr ⟨before, after, rfl, hdepth⟩
  · rintro (⟨rfl, rfl, ht⟩ | ⟨before, after, rfl, hdepth⟩)
    · obtain ⟨after, rfl⟩ := List.head?_eq_some_iff.mp ht
      exact ⟨[], after, rfl, rfl⟩
    · exact ⟨c :: before, after, rfl, hdepth⟩

instance decidableAtScopeLevel : (depth : Nat) → (t : Text) → Decidable (AtScopeLevel depth t)
  | _, [] => isFalse not_atScopeLevel_nil
  | depth, c :: t =>
    have := decidableAtScopeLevel (angleAfter depth c) t
    decidable_of_iff _ atScopeLevel_cons.symm

/-! ## Cuts -/

theorem splitScopesFrom_nil (depth : Nat) : splitScopesFrom depth [] = [[]] := by
  cases depth <;> rfl

theorem splitScopesFrom_colons (t : Text) :
    splitScopesFrom 0 (':' :: ':' :: t) = [] :: splitScopesFrom 0 t := rfl

/-- Nothing is cut where no `::` begins. -/
theorem splitScopesFrom_cons (h : ¬ (depth = 0 ∧ c = ':' ∧ t.head? = some ':')) :
    splitScopesFrom depth (c :: t) = consFirst c (splitScopesFrom (angleAfter depth c) t) := by
  rw [splitScopesFrom.eq_3]
  · rfl
  · rintro after rfl rfl rfl
    exact h ⟨rfl, rfl, rfl⟩

theorem splitScopesFrom_ne_nil (depth : Nat) (t : Text) : splitScopesFrom depth t ≠ [] := by
  cases t with
  | nil =>
    rw [splitScopesFrom_nil]
    exact List.cons_ne_nil _ _
  | cons c t =>
    by_cases h : depth = 0 ∧ c = ':' ∧ t.head? = some ':'
    · obtain ⟨rfl, rfl, ht⟩ := h
      obtain ⟨after, rfl⟩ := List.head?_eq_some_iff.mp ht
      rw [splitScopesFrom_colons]
      exact List.cons_ne_nil _ _
    · rw [splitScopesFrom_cons h]
      exact consFirst_ne_nil _ _

/-- A name without a `::` outside its template brackets is not cut. -/
theorem splitScopesFrom_of_not (h : ¬ AtScopeLevel depth t) : splitScopesFrom depth t = [t] := by
  induction t generalizing depth with
  | nil => exact splitScopesFrom_nil depth
  | cons c t ih =>
    rw [atScopeLevel_cons, not_or] at h
    rw [splitScopesFrom_cons h.1, ih h.2, consFirst]

/-- A scope that closes its template brackets is cut off at the `::` behind it. -/
theorem splitScopesFrom_append (h : ¬ AtScopeLevel depth s) (hclosed : anglesOf depth s = 0)
    (hlast : s.getLast? ≠ some ':') (t : Text) :
    splitScopesFrom depth (s ++ ':' :: ':' :: t) = s :: splitScopesFrom 0 t := by
  induction s generalizing depth with
  | nil =>
    obtain rfl : depth = 0 := hclosed
    rw [List.nil_append, splitScopesFrom_colons]
  | cons c s ih =>
    rw [atScopeLevel_cons, not_or] at h
    have hcut : ¬ (depth = 0 ∧ c = ':' ∧ (s ++ ':' :: ':' :: t).head? = some ':') := by
      rintro ⟨hdepth, rfl, hhead⟩
      cases s with
      | nil => exact hlast rfl
      | cons d s => exact h.1 ⟨hdepth, rfl, hhead⟩
    have hrest : s.getLast? ≠ some ':' := by
      cases s with
      | nil => exact (Option.some_ne_none _).symm
      | cons d s => rwa [List.getLast?_cons_cons] at hlast
    rw [List.cons_append, splitScopesFrom_cons hcut, ih h.2 hclosed hrest, consFirst]

/-! ## The word `operator` -/

/-- The word `operator` stands in `t`, and no identifier goes on at its ends. In front of `t` stands
`passed`, last character first. -/
def HasOperatorWord (passed t : Text) : Prop :=
  ∃ before rest, t = before ++ (operatorWord ++ rest) ∧
    (before.reverse ++ passed).head?.any isIdentifierChar = false ∧
    rest.head?.any isIdentifierChar = false

theorem not_hasOperatorWord_nil {passed : Text} : ¬ HasOperatorWord passed [] := by
  rintro ⟨before, rest, h, -⟩
  have hword : operatorWord = [] :=
    (List.append_eq_nil_iff.mp (List.append_eq_nil_iff.mp h.symm).2).1
  exact absurd hword (by decide)

/-- The word `operator` leads `t`, with `rest` behind it. In front of `t` stands `passed`, last
character first. -/
structure LeadsOperator (passed t rest : Text) : Prop where
  eq_append : t = operatorWord ++ rest
  before : passed.head?.any isIdentifierChar = false
  behind : rest.head?.any isIdentifierChar = false

theorem hasOperatorWord_cons {passed : Text} :
    HasOperatorWord passed (c :: t) ↔
      (∃ rest, LeadsOperator passed (c :: t) rest) ∨ HasOperatorWord (c :: passed) t := by
  constructor
  · rintro ⟨before, rest, h, hbefore, hrest⟩
    cases before with
    | nil => exact .inl ⟨rest, h, hbefore, hrest⟩
    | cons a before =>
      obtain ⟨rfl, rfl⟩ := List.cons.inj h
      refine .inr ⟨before, rest, rfl, ?_, hrest⟩
      rwa [List.reverse_cons, List.append_assoc] at hbefore
  · rintro (⟨rest, hlead⟩ | ⟨before, rest, rfl, hbefore, hrest⟩)
    · exact ⟨[], rest, hlead.eq_append, hlead.before, hlead.behind⟩
    · refine ⟨c :: before, rest, rfl, ?_, hrest⟩
      rwa [List.reverse_cons, List.append_assoc]

/-- The word is found where it leads. -/
theorem splitOperatorFrom?_of_leads {passed rest : Text} (h : LeadsOperator passed t rest) :
    splitOperatorFrom? passed t = some (passed.reverse, rest) := by
  cases t with
  | nil => exact absurd (List.append_eq_nil_iff.mp h.eq_append.symm).1 (by decide)
  | cons c t =>
    have hlead : dropLead? operatorWord (c :: t) = some rest := dropLead?_eq_some.2 h.eq_append
    simp [splitOperatorFrom?, hlead, h.before, h.behind]

/-- Where it does not lead, a character is passed over. -/
theorem splitOperatorFrom?_of_not_leads {passed : Text}
    (h : ¬ ∃ rest, LeadsOperator passed (c :: t) rest) :
    splitOperatorFrom? passed (c :: t) = splitOperatorFrom? (c :: passed) t := by
  rw [splitOperatorFrom?]
  split
  · rename_i rest hlead
    rw [if_neg]
    intro hedges
    simp only [Bool.and_eq_true, Bool.not_eq_true'] at hedges
    exact h ⟨rest, dropLead?_eq_some.1 hlead, hedges.1, hedges.2⟩
  · rfl

/-- No operator is found exactly if the word is missing. -/
theorem splitOperatorFrom?_eq_none_iff {passed : Text} :
    splitOperatorFrom? passed t = none ↔ ¬ HasOperatorWord passed t := by
  induction t generalizing passed with
  | nil => exact iff_of_true rfl not_hasOperatorWord_nil
  | cons c t ih =>
    rw [hasOperatorWord_cons, not_or, ← ih]
    by_cases hlead : ∃ rest, LeadsOperator passed (c :: t) rest
    · obtain ⟨rest, hrest⟩ := hlead
      rw [splitOperatorFrom?_of_leads hrest]
      exact iff_of_false nofun fun h => h.1 ⟨rest, hrest⟩
    · rw [splitOperatorFrom?_of_not_leads hlead]
      exact (and_iff_right hlead).symm

instance (passed t : Text) : Decidable (HasOperatorWord passed t) :=
  decidable_of_iff (¬ splitOperatorFrom? passed t = none)
    (not_congr splitOperatorFrom?_eq_none_iff |>.trans not_not)

/-- What precedes the operator, and the operator with the rest, make up the name. -/
theorem splitOperatorFrom?_eq_some {passed t before rest : Text}
    (h : splitOperatorFrom? passed t = some (before, rest)) :
    passed.reverse ++ t = before ++ (operatorWord ++ rest) := by
  induction t generalizing passed with
  | nil => cases h
  | cons c t ih =>
    by_cases hlead : ∃ rest, LeadsOperator passed (c :: t) rest
    · obtain ⟨rest', hrest⟩ := hlead
      rw [splitOperatorFrom?_of_leads hrest] at h
      obtain ⟨rfl, rfl⟩ := Prod.mk.inj (Option.some.inj h)
      rw [hrest.eq_append]
    · rw [splitOperatorFrom?_of_not_leads hlead] at h
      simpa using ih h

/-- A text that ends outside an identifier only goes in front of what precedes the operator. -/
theorem splitOperatorFrom?_append {before : Text}
    (h : before.head?.any isIdentifierChar = false) (passed t : Text) :
    splitOperatorFrom? (passed ++ before) t =
      (splitOperatorFrom? passed t).map fun cut => (before.reverse ++ cut.1, cut.2) := by
  have hhead : (passed ++ before).head?.any isIdentifierChar =
      passed.head?.any isIdentifierChar := by
    cases passed with
    | nil => simpa using h
    | cons a passed => rfl
  induction t generalizing passed with
  | nil => rfl
  | cons c t ih =>
    by_cases hlead : ∃ rest, LeadsOperator passed (c :: t) rest
    · obtain ⟨rest, hrest⟩ := hlead
      rw [splitOperatorFrom?_of_leads hrest, splitOperatorFrom?_of_leads
        ⟨hrest.eq_append, hhead.trans hrest.before, hrest.behind⟩, List.reverse_append]
      rfl
    · have hlead' : ¬ ∃ rest, LeadsOperator (passed ++ before) (c :: t) rest := by
        rintro ⟨rest, hrest⟩
        exact hlead ⟨rest, hrest.eq_append, hhead.symm.trans hrest.before, hrest.behind⟩
      rw [splitOperatorFrom?_of_not_leads hlead, splitOperatorFrom?_of_not_leads hlead']
      exact ih (c :: passed) rfl

theorem splitOperatorFrom?_colon (before t : Text) :
    splitOperatorFrom? before (':' :: t) = splitOperatorFrom? (':' :: before) t := by
  refine splitOperatorFrom?_of_not_leads ?_
  rintro ⟨rest, hrest⟩
  have hhead : some ':' = operatorWord.head? := congrArg List.head? hrest.eq_append
  exact absurd hhead (by decide)

/-- A text without the word is passed over as a whole: the word has no colon, so none begins in the
text and ends behind it. -/
theorem splitOperatorFrom?_of_not {passed : Text} (hs : ¬ HasOperatorWord passed s) (t : Text) :
    splitOperatorFrom? passed (s ++ ':' :: t) = splitOperatorFrom? (s.reverse ++ passed) (':' :: t) := by
  induction s generalizing passed with
  | nil => rfl
  | cons c s ih =>
    rw [hasOperatorWord_cons, not_or] at hs
    obtain ⟨hword, hs⟩ := hs
    have hlead : ¬ ∃ rest, LeadsOperator passed (c :: (s ++ ':' :: t)) rest := by
      rintro ⟨rest, heq, hbefore, hbehind⟩
      rw [← List.cons_append] at heq
      rcases List.append_eq_append_iff.mp heq with ⟨u, hu, hafter⟩ | ⟨u, hu, rfl⟩
      · cases u with
        | nil => exact hword ⟨[], by rw [hu, List.append_nil, List.append_nil], hbefore, rfl⟩
        | cons d u =>
          obtain ⟨rfl, -⟩ := List.cons.inj hafter
          have hmem : ':' ∈ operatorWord := by rw [hu]; simp
          exact absurd hmem (by decide)
      · refine hword ⟨u, hu, hbefore, ?_⟩
        cases u with
        | nil => rfl
        | cons d u => exact hbehind
    rw [List.cons_append, splitOperatorFrom?_of_not_leads hlead, ih hs, List.reverse_cons,
      List.append_assoc, List.singleton_append]

/-- A scope in front of a name hides none of its operators. -/
theorem splitOperatorFrom?_scope (hs : ¬ HasOperatorWord [] s) (t : Text) :
    splitOperatorFrom? [] (s ++ ':' :: ':' :: t) =
      (splitOperatorFrom? [] t).map fun cut => (s ++ ':' :: ':' :: cut.1, cut.2) := by
  have hcolon : isIdentifierChar ':' = false := by decide
  rw [splitOperatorFrom?_of_not hs, List.append_nil, splitOperatorFrom?_colon,
    splitOperatorFrom?_colon, ← List.nil_append (':' :: ':' :: s.reverse),
    splitOperatorFrom?_append (by simp [hcolon])]
  simp

/-! ## Joined names -/

theorem joinScopes_nil (name : Text) : joinScopes [] name = name := by
  rw [joinScopes, List.nil_append, joinWith_singleton]

theorem joinScopes_cons (s : Text) (scopes : List Text) (name : Text) :
    joinScopes (s :: scopes) name = s ++ ':' :: ':' :: joinScopes scopes name := by
  have hne : scopes ++ [name] ≠ [] := by simp
  obtain ⟨part, parts, hparts⟩ := List.exists_cons_of_ne_nil hne
  rw [joinScopes, joinScopes, List.cons_append, hparts, joinWith_cons_cons]
  rfl

/-- The text of one scope: it closes its template brackets, and no `::` outside of them and no word
`operator` stands in it. -/
structure IsScope (s : Text) : Prop where
  ne_nil : s ≠ []
  trim_eq : trim s = s
  closed : anglesOf 0 s = 0
  whole : ¬ AtScopeLevel 0 s
  last_ne : s.getLast? ≠ some ':'
  noOperator : ¬ HasOperatorWord [] s

/-- A name that stands in scopes: a plain one without a `::` outside its template brackets, or that
of an operator in its normal form. -/
inductive IsMemberName (name : Text) : Prop where
  | plain (htrim : trim name = name) (hwhole : ¬ AtScopeLevel 0 name)
      (hoperator : ¬ HasOperatorWord [] name) : IsMemberName name
  | operator {rest : Text} (hname : name = operatorWord ++ rest)
      (hnormal : operatorName rest = name) : IsMemberName name

theorem cleanScopes_cons (h : IsScope s) (scopes : List Text) :
    cleanScopes (s :: scopes) = s :: cleanScopes scopes := by
  simp [cleanScopes, h.trim_eq, h.ne_nil]

variable {scopes : List Text} {name : Text}

theorem cleanScopes_eq_self (h : ∀ s ∈ scopes, IsScope s) : cleanScopes scopes = scopes := by
  induction scopes with
  | nil => rfl
  | cons s scopes ih =>
    obtain ⟨hs, hscopes⟩ := List.forall_mem_cons.mp h
    rw [cleanScopes_cons hs, ih hscopes]

theorem splitScopes_scope (h : IsScope s) (rest : Text) :
    splitScopes (s ++ ':' :: ':' :: rest) = s :: splitScopes rest :=
  splitScopesFrom_append h.whole h.closed h.last_ne rest

theorem splitScopes_joinScopes (h : ∀ s ∈ scopes, IsScope s) (hname : ¬ AtScopeLevel 0 name) :
    splitScopes (joinScopes scopes name) = scopes ++ [name] := by
  induction scopes with
  | nil => rw [joinScopes_nil, splitScopes, splitScopesFrom_of_not hname, List.nil_append]
  | cons s scopes ih =>
    obtain ⟨hs, hscopes⟩ := List.forall_mem_cons.mp h
    rw [joinScopes_cons, splitScopes_scope hs, ih hscopes, List.cons_append]

/-- The operator of a joined name is that of the name in the scopes. -/
theorem splitOperatorFrom?_joinScopes (h : ∀ s ∈ scopes, IsScope s) (name : Text) :
    splitOperatorFrom? [] (joinScopes scopes name) =
      (splitOperatorFrom? [] name).map fun cut => (joinScopes scopes cut.1, cut.2) := by
  induction scopes with
  | nil => simp [joinScopes_nil]
  | cons s scopes ih =>
    obtain ⟨hs, hscopes⟩ := List.forall_mem_cons.mp h
    rw [joinScopes_cons, splitOperatorFrom?_scope hs.noOperator, ih hscopes, Option.map_map]
    simp only [Function.comp_def, joinScopes_cons]

/-! ## Operators -/

/-- The qualifier of an operator, of which `before` is everything in front of the operator. -/
def operatorQualifier (before : Text) : Text :=
  (dropColons (trimEnd before).reverse).reverse

theorem dropColons_of_head {t : Text} (h : t.head? ≠ some ':') : dropColons t = t := by
  rw [dropColons]
  rintro after rfl
  exact h rfl

theorem joinScopes_append (scopes : List Text) (s name : Text) :
    joinScopes (scopes ++ [s]) name = joinScopes scopes s ++ ':' :: ':' :: name := by
  induction scopes with
  | nil => rw [List.nil_append, joinScopes_cons, joinScopes_nil, joinScopes_nil]
  | cons other scopes ih =>
    rw [List.cons_append, joinScopes_cons, ih, joinScopes_cons, List.append_assoc, List.cons_append,
      List.cons_append]

theorem getLast?_joinScopes (scopes : List Text) {s : Text} (hne : s ≠ []) :
    (joinScopes scopes s).getLast? = s.getLast? := by
  induction scopes with
  | nil => rw [joinScopes_nil]
  | cons other scopes ih =>
    rw [joinScopes_cons, List.getLast?_append, List.getLast?_cons_cons, List.getLast?_cons, ih,
      List.getLast?_eq_some_getLast hne]
    rfl

/-- In front of an operator stand the scopes, and the `::` behind the last one is taken off. -/
theorem operatorQualifier_joinScopes (h : ∀ s ∈ scopes, IsScope s) :
    cleanScopes (splitScopes (operatorQualifier (joinScopes scopes []))) = scopes := by
  rcases List.eq_nil_or_concat scopes with rfl | ⟨init, s, rfl⟩
  · decide
  · rw [List.concat_eq_append] at h ⊢
    have hs : IsScope s := h s (by simp)
    have hend : trimEnd (joinScopes (init ++ [s]) []) = joinScopes (init ++ [s]) [] := by
      refine trimEnd_eq_self_of_last ?_
      rw [joinScopes_append, List.getLast?_append]
      rintro c ⟨⟩
      decide
    have hhead : (joinScopes init s).reverse.head? ≠ some ':' := by
      rw [List.head?_reverse, getLast?_joinScopes init hs.ne_nil]
      exact hs.last_ne
    have hqualifier : operatorQualifier (joinScopes (init ++ [s]) []) = joinScopes init s := by
      rw [operatorQualifier, hend, joinScopes_append, List.reverse_append]
      exact (congrArg List.reverse (dropColons_of_head hhead)).trans (List.reverse_reverse _)
    rw [hqualifier, splitScopes_joinScopes (fun x hx => h x (by simp [hx])) hs.whole,
      cleanScopes_eq_self h]

/-- The normal form of an operator's name goes on with a blank or with what is no identifier. -/
theorem head_of_operatorName {rest : Text} (h : operatorName rest = operatorWord ++ rest) :
    rest.head?.any isIdentifierChar = false := by
  cases rest with
  | nil => rfl
  | cons c rest =>
    by_contra hc
    have hchar : isIdentifierChar c = true := by simpa using hc
    have hblank := isBlank_eq_false_of_isIdentifierChar hchar
    have hword : (trim (c :: rest)).head?.any isIdentifierChar = true := by
      rw [head?_trim_cons hblank]
      exact hchar
    have hspace : ("operator " : Text) = operatorWord ++ [' '] := by decide
    rw [operatorName, if_pos hword, hspace, List.append_assoc] at h
    obtain ⟨rfl, -⟩ := List.cons.inj (List.append_cancel_left h)
    exact absurd hchar (by decide)

/-- An operator is found right at the beginning of its name. -/
theorem splitOperatorFrom?_operator {rest : Text} (h : rest.head?.any isIdentifierChar = false) :
    splitOperatorFrom? [] (operatorWord ++ rest) = some ([], rest) :=
  splitOperatorFrom?_of_leads ⟨rfl, rfl, h⟩

/-- Joined scopes and the name in them are split back. -/
theorem splitQualified_joinScopes_eq (h : ∀ s ∈ scopes, IsScope s) (hname : IsMemberName name) :
    splitQualified (joinScopes scopes name) = (scopes, name) := by
  cases hname with
  | plain htrim hwhole hoperator =>
    rw [splitQualified, splitOperatorFrom?_joinScopes h,
      splitOperatorFrom?_eq_none_iff.2 hoperator]
    simp only [Option.map_none, splitScopes_joinScopes h hwhole, List.dropLast_concat,
      List.getLastD_concat, cleanScopes_eq_self h, htrim]
  | @operator rest hname hnormal =>
    have hhead := head_of_operatorName (hnormal.trans hname)
    have hsplit := splitOperatorFrom?_joinScopes h name
    rw [hname, splitOperatorFrom?_operator hhead, ← hname, Option.map_some] at hsplit
    rw [splitQualified, hsplit]
    exact Prod.ext (operatorQualifier_joinScopes h) hnormal

/-- Scopes with template arguments and with a colon, around an operator that casts to a qualified
type and around a destructor. -/
theorem splitQualified_joinScopes_eq_nested :
    splitQualified (joinScopes ["Map<K, std::pair<a, b>>", "x:y"] "operator const N::T *") =
        ([("Map<K, std::pair<a, b>>" : Text), "x:y"], ("operator const N::T *" : Text)) ∧
      splitQualified (joinScopes ["Map<K, std::pair<a, b>>", "x:y"] "~A") =
        ([("Map<K, std::pair<a, b>>" : Text), "x:y"], ("~A" : Text)) := by
  have hmap : IsScope "Map<K, std::pair<a, b>>" :=
    ⟨by decide, by decide, by decide, by decide, by decide, by decide⟩
  have hcolon : IsScope "x:y" := ⟨by decide, by decide, by decide, by decide, by decide, by decide⟩
  have hscopes : ∀ s ∈ [("Map<K, std::pair<a, b>>" : Text), "x:y"], IsScope s :=
    List.forall_mem_cons.mpr ⟨hmap, List.forall_mem_singleton.mpr hcolon⟩
  have hcast : IsMemberName "operator const N::T *" :=
    @IsMemberName.operator _ " const N::T *" (by decide) (by decide)
  have hdestructor : IsMemberName "~A" := .plain (by decide) (by decide) (by decide)
  exact ⟨splitQualified_joinScopes_eq hscopes hcast, splitQualified_joinScopes_eq hscopes hdestructor⟩

end Signature

end HeaderSync

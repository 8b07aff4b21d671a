import HeaderSync.Proofs.Signature.Arguments

/-!
# Literals as defaults

Stripping counts brackets and looks for commas, and it does so inside of literals, too. A literal
that closes the brackets it opens is stripped whole exactly if no comma stands in it at top level:
what follows such a comma becomes an argument of its own. A literal that leaves a bracket open hides
the parameters behind it.

* `bareArguments_default` : a parameter with a default is itself, and one more argument for each
  comma of the default;
* `count_joinWith` : the commas of a joined list;
* `stripDefaults_literals_iff` : when a list of literals is stripped whole;
* `stripDefaults_literal_comma` : a comma, and a bracket, in a literal.
-/

namespace HeaderSync.Signature

open Text

/-! ## Arguments with a default -/

/-- A declarator without brackets, commas and defaults, and without blanks around it. -/
structure IsBareDeclarator (d : Text) : Prop where
  chars : ∀ c ∈ d, IsSeparator c ∧ c ≠ ',' ∧ c ≠ '='
  trim_eq : trim d = d

instance (d : Text) : Decidable (IsBareDeclarator d) :=
  decidable_of_iff
    (d.all (fun c => decide (IsSeparator c ∧ c ≠ ',' ∧ c ≠ '=')) = true ∧ trim d = d)
    ⟨fun h => ⟨fun c hc => of_decide_eq_true (List.all_eq_true.mp h.1 c hc), h.2⟩,
      fun h => ⟨List.all_eq_true.mpr fun c hc => decide_eq_true (h.chars c hc), h.trim_eq⟩⟩

theorem IsBareDeclarator.depthOf_eq {d : Text} (h : IsBareDeclarator d) : depthOf 0 d = 0 :=
  depthOf_of_forall (fun c hc => (h.chars c hc).1) 0

/-- A parameter with a default is itself and all that follows a comma of the default. -/
theorem bareArguments_default {d : Text} (h : IsBareDeclarator d) (value : Text) :
    bareArguments (d ++ " = " ++ value) = d :: (bareArguments value).tail := by
  have hnot : ¬ AtTopLevel ',' 0 (d ++ " = ") := by
    rw [atTopLevel_append, h.depthOf_eq]
    rintro (htop | htop)
    · exact (h.chars ',' htop.mem).2.1 rfl
    · exact absurd htop (by decide)
  have hdepth : depthOf 0 (d ++ " = ") = 0 := by
    rw [depthOf_append, h.depthOf_eq]
    decide
  have hfree : ¬ AtTopLevel '=' 0 d := fun htop => (h.chars '=' htop.mem).2.2 rfl
  obtain ⟨first, others, heq⟩ := List.exists_cons_of_ne_nil (splitTopLevelFrom_ne_nil ',' 0 value)
  have hvalue : splitTopLevel ',' value = first :: others := heq
  rw [bareArguments, bareArguments, splitTopLevel,
    splitTopLevelFrom_append_of_not isSeparator_comma hnot, hdepth, ← splitTopLevel, hvalue,
    List.modifyHead_cons, List.map_cons, withoutDefault_default hfree h.depthOf_eq, h.trim_eq,
    List.map_cons, List.tail_cons]

theorem tail_bareArguments_eq_nil_iff (value : Text) :
    (bareArguments value).tail = [] ↔ ¬ AtTopLevel ',' 0 value := by
  rw [← splitTopLevelFrom_eq_singleton_iff isSeparator_comma]
  obtain ⟨first, others, heq⟩ := List.exists_cons_of_ne_nil (splitTopLevelFrom_ne_nil ',' 0 value)
  have hjoin := joinWith_splitTopLevelFrom ',' 0 value
  rw [heq] at hjoin
  rw [bareArguments, splitTopLevel, heq, List.map_cons, List.tail_cons, List.map_eq_nil_iff]
  constructor
  · rintro rfl
    rw [← hjoin, joinWith_singleton]
  · intro h
    exact (List.cons.inj h).2

/-! ## Counting commas -/

theorem exists_joinWith_cons (glue part : Text) (parts : List Text) :
    ∃ rest, joinWith glue (part :: parts) = part ++ rest := by
  cases parts with
  | nil => exact ⟨[], by rw [joinWith_singleton, List.append_nil]⟩
  | cons next parts => exact ⟨_, joinWith_cons_cons glue part next parts⟩

theorem count_joinWith (part : Text) (parts : List Text) :
    (joinWith ", " (part :: parts)).count ',' =
      (part :: parts).flatten.count ',' + parts.length := by
  induction parts generalizing part with
  | nil => simp [joinWith_singleton]
  | cons next parts ih =>
    have hglue : (", " : Text).count ',' = 1 := by decide
    rw [joinWith_cons_cons, List.count_append, List.count_append, ih, hglue,
      List.flatten_cons (l := part), List.count_append, List.length_cons]
    omega

section

variable {α β : Type} {f : α → β} {g : α → List β}

theorem length_le_length_flatMap (xs : List α) :
    xs.length ≤ (xs.flatMap fun x => f x :: g x).length := by
  induction xs with
  | nil => exact Nat.le_refl _
  | cons x xs ih =>
    rw [List.flatMap_cons, List.length_append, List.length_cons, List.length_cons]
    omega

/-- If every element gives rise to a thing, and all together to no more things than there are
elements, then none gives rise to another one. -/
theorem eq_nil_of_length_flatMap_le {xs : List α}
    (h : (xs.flatMap fun x => f x :: g x).length ≤ xs.length) : ∀ x ∈ xs, g x = [] := by
  induction xs with
  | nil => exact List.forall_mem_nil _
  | cons x xs ih =>
    have hrest := length_le_length_flatMap (f := f) (g := g) xs
    rw [List.flatMap_cons, List.length_append, List.length_cons, List.length_cons] at h
    refine List.forall_mem_cons.mpr ⟨List.length_eq_zero_iff.mp ?_, ih ?_⟩ <;> omega

end

/-! ## Literals -/

/-- A parameter with a string or a character as its default. -/
structure LiteralParameter where
  declarator : Text
  quote : Char
  content : Text
  bare : IsBareDeclarator declarator
  isQuote : quote = '"' ∨ quote = '\''

namespace LiteralParameter

def literal (p : LiteralParameter) : Text :=
  p.quote :: (p.content ++ [p.quote])

def text (p : LiteralParameter) : Text :=
  p.declarator ++ " = " ++ p.literal

variable (p : LiteralParameter)

theorem isSeparator_quote : IsSeparator p.quote ∧ p.quote ≠ ',' := by
  rcases p.isQuote with h | h <;> rw [h] <;> decide

/-- The quotes count neither as brackets nor as commas. -/
theorem depthOf_literal : depthOf 0 p.literal = depthOf 0 p.content := by
  have hquote := p.isSeparator_quote.1
  rw [literal, depthOf_cons, hquote.depthAfter, depthOf_append, depthOf_cons, hquote.depthAfter,
    depthOf_nil]

theorem atTopLevel_literal : AtTopLevel ',' 0 p.literal ↔ AtTopLevel ',' 0 p.content := by
  obtain ⟨hquote, hne⟩ := p.isSeparator_quote
  rw [literal, atTopLevel_cons, hquote.depthAfter, atTopLevel_append, atTopLevel_cons]
  simp [hne, not_atTopLevel_nil]

theorem depthOf_text : depthOf 0 p.text = depthOf 0 p.content := by
  have hsign : depthOf 0 (" = " : Text) = 0 := by decide
  rw [text, depthOf_append, depthOf_append, p.bare.depthOf_eq, hsign, depthOf_literal]

/-- The default of a parameter is one of the list, whatever stands behind it. -/
theorem beforeDefault?_text_append (rest : Text) : beforeDefault? 0 (p.text ++ rest) ≠ none := by
  rw [ne_eq, beforeDefault?_eq_none_iff, not_not]
  refine ⟨p.declarator ++ [' '], ' ' :: (p.literal ++ rest), by simp [text], ?_⟩
  rw [depthOf_append, p.bare.depthOf_eq]
  decide

theorem bareArguments_text :
    bareArguments p.text = p.declarator :: (bareArguments p.literal).tail :=
  bareArguments_default p.bare _

end LiteralParameter

variable {params : List LiteralParameter}

/-- A list of literals is stripped to its declarators and to what follows a comma of a literal. -/
theorem stripDefaults_literals (hne : params ≠ [])
    (hclosed : ∀ p ∈ params.dropLast, depthOf 0 p.content = 0) :
    stripDefaults (joinWith ", " (params.map (·.text))) =
      joinWith ", " (params.flatMap fun p => p.declarator :: (bareArguments p.literal).tail) := by
  have hparts : TopLevelParts 0 (params.map (·.text)) := by
    refine topLevelParts_of_dropLast fun part hpart => ?_
    rw [← List.map_dropLast] at hpart
    obtain ⟨p, hp, rfl⟩ := List.mem_map.mp hpart
    rw [p.depthOf_text, hclosed p hp]
  have hsome : beforeDefault? 0 (joinWith ", " (params.map (·.text))) ≠ none := by
    obtain ⟨p, ps, rfl⟩ := List.exists_cons_of_ne_nil hne
    obtain ⟨rest, hrest⟩ := exists_joinWith_cons ", " p.text (ps.map (·.text))
    rw [List.map_cons, hrest]
    exact p.beforeDefault?_text_append rest
  have hbare : bareArguments (joinWith (',' :: [' ']) (params.map (·.text))) =
      params.flatMap fun p => p.declarator :: (bareArguments p.literal).tail := by
    rw [bareArguments_joinWith (by decide) (by simpa using hne) hparts, List.flatMap_map]
    simp only [LiteralParameter.bareArguments_text]
  rw [stripDefaults_of_some hsome]
  exact congrArg (joinWith ", ") hbare

/-- A list without commas of its own is joined from no more parts than it has declarators. -/
theorem length_le_of_joinWith_eq {parts : List Text} (hparts : parts ≠ []) (hne : params ≠ [])
    (h : joinWith ", " parts = joinWith ", " (params.map (·.declarator))) :
    parts.length ≤ params.length := by
  obtain ⟨part, parts, rfl⟩ := List.exists_cons_of_ne_nil hparts
  obtain ⟨p, ps, rfl⟩ := List.exists_cons_of_ne_nil hne
  have hzero : ((p :: ps).map (·.declarator)).flatten.count ',' = 0 := by
    refine List.count_eq_zero.mpr fun hmem => ?_
    obtain ⟨d, hd, hcomma⟩ := List.mem_flatten.mp hmem
    obtain ⟨q, -, rfl⟩ := List.mem_map.mp hd
    exact (q.bare.chars ',' hcomma).2.1 rfl
  have hcount := congrArg (List.count ',') h
  rw [List.map_cons, count_joinWith, count_joinWith, ← List.map_cons, hzero,
    List.length_map] at hcount
  rw [List.length_cons, List.length_cons]
  omega

/-- Where every literal but the last closes the brackets it opens, the list is stripped to its
declarators exactly if no comma stands in a literal at top level. -/
theorem stripDefaults_literals_iff (hne : params ≠ [])
    (hclosed : ∀ p ∈ params.dropLast, depthOf 0 p.content = 0) :
    stripDefaults (joinWith ", " (params.map (·.text))) =
        joinWith ", " (params.map (·.declarator)) ↔
      ∀ p ∈ params, ¬ AtTopLevel ',' 0 p.content := by
  have hextra : ∀ p : LiteralParameter,
      (bareArguments p.literal).tail = [] ↔ ¬ AtTopLevel ',' 0 p.content :=
    fun p => (tail_bareArguments_eq_nil_iff _).trans (not_congr p.atTopLevel_literal)
  rw [stripDefaults_literals hne hclosed]
  constructor
  · intro h p hp
    have hparts : (params.flatMap fun p => p.declarator :: (bareArguments p.literal).tail) ≠ [] := by
      intro hnil
      exact absurd (List.flatMap_eq_nil_iff.mp hnil p hp) (List.cons_ne_nil _ _)
    exact (hextra p).mp (eq_nil_of_length_flatMap_le (length_le_of_joinWith_eq hparts hne h) p hp)
  · intro h
    have hsingle : ∀ p ∈ params,
        p.declarator :: (bareArguments p.literal).tail = [p.declarator] := by
      intro p hp
      rw [(hextra p).mpr (h p hp)]
    rw [List.flatMap_def, List.map_congr_left hsingle, ← List.flatMap_def, ← List.map_eq_flatMap]

/-- A text with brackets, commas and an equals sign inside, and a bracket as the last default. -/
theorem stripDefaults_literals_iff_bracketed :
    stripDefaults (joinWith ", " ["const char* call = \"f(x, y) = 0\"", "char open = '('"]) =
      joinWith ", " ["const char* call", "char open"] := by
  have hclosed : depthOf 0 ("f(x, y) = 0" : Text) = 0 := by decide
  have hcall : ¬ AtTopLevel ',' 0 ("f(x, y) = 0" : Text) := by decide
  have hopen : ¬ AtTopLevel ',' 0 ("(" : Text) := by decide
  have h := (stripDefaults_literals_iff
    (List.cons_ne_nil ⟨"const char* call", '"', "f(x, y) = 0", by decide, .inl rfl⟩
      [⟨"char open", '\'', "(", by decide, .inr rfl⟩])
    (List.forall_mem_singleton.mpr hclosed)).mpr
    (List.forall_mem_cons.mpr ⟨hcall, List.forall_mem_singleton.mpr hopen⟩)
  exact h

/-- A comma in a literal becomes a comma of the list, and a bracket in a literal hides the parameter
behind it. -/
theorem stripDefaults_literal_comma :
    stripDefaults "int a = ','" = ("int a, '" : Text) ∧
      stripDefaults "int a = ','" ≠ ("int a" : Text) ∧
      stripDefaults "char a = '(', char b = 'x'" = ("char a" : Text) ∧
      stripDefaults "char a = '(', char b = 'x'" ≠ ("char a, char b" : Text) := by
  decide

end HeaderSync.Signature

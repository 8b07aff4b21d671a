import HeaderSync.Proofs.Reader.Definitions
import HeaderSync.Proofs.Scan.Coverage
import HeaderSync.Proofs.Signature.Arguments
import HeaderSync.Reader.Class
import HeaderSync.Tree.Definition

/-!
# Blanks in the names of operators

The name of an operator may be written with blanks between its tokens. Splitting drops those in
front of a symbol. Of those at the brackets of `new[]` and `delete[]` it leaves one space each, while
declarations are read without them; so a definition belongs to such a declaration only if its
brackets are written tightly.

* `collapse_append_cons` : what is left of the blanks between two tokens;
* `OperatorSpelling` : the name of an operator, token by token, with the blanks between them;
* `matches_functionName_iff` : these spellings are what names a function besides plain names;
* `splitQualified_symbol`, `splitQualified_allocation` : what they are split into;
* `allocatorOf_name` : the spelling that a declaration is read with;
* `splitQualified_spelling_eq_iff` : when two spellings of one operator are split alike.
-/

namespace HeaderSync

open Text Pattern Shapes

namespace Text

/-! ## Blanks in a text -/

/-- A text that begins with a blank begins with no character of a kind that has no blanks. -/
theorem any_head?_append_of_allBlank {p : Char → Bool} (hp : ∀ {c}, p c = true → isBlank c = false)
    {gap : Text} (hne : gap ≠ []) (hgap : allBlank gap = true) (t : Text) :
    (gap ++ t).head?.any p = false := by
  obtain ⟨b, gap, rfl⟩ := List.exists_cons_of_ne_nil hne
  have hb : isBlank b = true := List.all_eq_true.mp hgap b List.mem_cons_self
  rw [List.cons_append, List.head?_cons, Option.any_some]
  by_contra hpb
  rw [hp (Bool.eq_true_of_not_eq_false hpb)] at hb
  cases hb

/-- What is left of the blanks between two tokens: one space, unless the tokens touch. -/
def seam (tight : Bool) : Text :=
  onlyIf (!tight) " "

theorem joinWith_append_cons (glue s word : Text) (rest : List Text) :
    joinWith glue ((s ++ word) :: rest) = s ++ joinWith glue (word :: rest) := by
  cases rest with
  | nil => rw [Signature.joinWith_singleton, Signature.joinWith_singleton]
  | cons next rest =>
    rw [Signature.joinWith_cons_cons, Signature.joinWith_cons_cons, List.append_assoc]

variable {s : Text} {c : Char}

/-- A text without blanks in front of a word becomes a part of the word. -/
theorem exists_words_append_cons (hs : ∀ d ∈ s, isBlank d = false) (hc : isBlank c = false)
    (t : Text) :
    ∃ word rest, words (c :: t) = word :: rest ∧ words (s ++ c :: t) = (s ++ word) :: rest := by
  obtain ⟨word, rest, ht, hword, hrest⟩ : ∃ word rest, c :: t = c :: word ++ rest ∧
      (∀ d ∈ c :: word, isBlank d = false) ∧ ∀ d ∈ rest.head?, isBlank d = true := by
    refine ⟨t.takeWhile fun d => !isBlank d, t.dropWhile fun d => !isBlank d, ?_, ?_, ?_⟩
    · rw [List.cons_append, List.takeWhile_append_dropWhile]
    · refine List.forall_mem_cons.mpr ⟨hc, fun d hd => ?_⟩
      simpa using List.mem_takeWhile_imp hd
    · intro d hd
      have hstop := List.head?_dropWhile_not (fun d => !isBlank d) t
      rw [Option.mem_def.mp hd] at hstop
      simpa using hstop
  have hne : s ++ c :: word ≠ [] := by simp
  have hall : ∀ d ∈ s ++ c :: word, isBlank d = false := List.forall_mem_append.mpr ⟨hs, hword⟩
  rw [ht, ← List.append_assoc]
  cases rest with
  | nil =>
    refine ⟨c :: word, [], ?_, ?_⟩
    · rw [List.append_nil, words_of_forall (by simp) hword]
    · rw [List.append_nil, words_of_forall hne hall]
  | cons b rest =>
    have hb : isBlank b = true := hrest b rfl
    refine ⟨c :: word, words rest, ?_, ?_⟩
    · rw [words_append_cons hb, words_of_forall (by simp) hword, List.singleton_append]
    · rw [words_append_cons hb, words_of_forall hne hall, List.singleton_append]

/-- Of the blanks between a token and what follows, one space is left. -/
theorem collapse_append_cons (hne : s ≠ []) (hs : ∀ d ∈ s, isBlank d = false) {gap : Text}
    (hgap : allBlank gap = true) (hc : isBlank c = false) (t : Text) :
    collapse (s ++ (gap ++ c :: t)) = s ++ (seam gap.isEmpty ++ collapse (c :: t)) := by
  obtain ⟨word, rest, hwords, happend⟩ := exists_words_append_cons hs hc t
  rw [collapse, collapse, hwords]
  cases gap with
  | nil =>
    rw [List.nil_append, happend, joinWith_append_cons]
    rfl
  | cons b gap =>
    have hb : isBlank b = true := List.all_eq_true.mp hgap b List.mem_cons_self
    have hrest : allBlank gap = true :=
      List.all_eq_true.mpr fun d hd => List.all_eq_true.mp hgap d (List.mem_cons_of_mem b hd)
    rw [List.cons_append, words_append_cons hb, words_of_forall hne hs,
      words_of_allBlank_append hrest, hwords, List.singleton_append, Signature.joinWith_cons_cons]
    rfl

end Text

namespace Signature

/-! ## Spellings -/

/-- A character of the symbol of an operator. -/
def isSignChar (c : Char) : Bool :=
  !isBlank c && !isWordChar c && !("();\x7b\x7d" : Text).contains c

/-- The symbol of an operator: a pair of parentheses, or any other signs. -/
def IsSign (sign : Text) : Prop :=
  sign = "()" ∨ sign ≠ [] ∧ ∀ c ∈ sign, isSignChar c = true

instance (sign : Text) : Decidable (IsSign sign) :=
  inferInstanceAs (Decidable (_ ∨ _ ∧ _))

def IsAllocationWord (word : Text) : Prop :=
  word = "new" ∨ word = "delete"

instance (word : Text) : Decidable (IsAllocationWord word) :=
  inferInstanceAs (Decidable (_ ∨ _))

/-- The gaps in front of two brackets, if there are any, are blank. -/
def BlankGaps (brackets : Option (Text × Text)) : Prop :=
  ∀ gaps ∈ brackets, allBlank gaps.1 = true ∧ allBlank gaps.2 = true

instance (brackets : Option (Text × Text)) : Decidable (BlankGaps brackets) :=
  inferInstanceAs (Decidable (∀ gaps ∈ brackets, _ ∧ _))

/-- Brackets with a gap in front of each. -/
def bracketText : Option (Text × Text) → Text
  | none => []
  | some (outer, inner) => outer ++ '[' :: (inner ++ "]")

/-- The name of an operator as it is written: its tokens behind the word `operator`, each with the
gap in front of it. -/
inductive OperatorSpelling where
  | symbol (gap sign : Text)
  | allocation (gap word : Text) (brackets : Option (Text × Text))

namespace OperatorSpelling

def text : OperatorSpelling → Text
  | symbol gap sign => operatorWord ++ (gap ++ sign)
  | allocation gap word brackets => operatorWord ++ (gap ++ (word ++ bracketText brackets))

/-- The tokens behind the word `operator`. -/
def tokens : OperatorSpelling → List Text
  | symbol _ sign => [sign]
  | allocation _ word brackets => word :: brackets.elim [] fun _ => ["[", "]"]

/-- The gaps are blank, and a word stands apart from the word `operator`. -/
def IsWritten : OperatorSpelling → Prop
  | symbol gap sign => allBlank gap = true ∧ IsSign sign
  | allocation gap word brackets =>
    gap ≠ [] ∧ allBlank gap = true ∧ IsAllocationWord word ∧ BlankGaps brackets

instance : (a : OperatorSpelling) → Decidable a.IsWritten
  | symbol _ _ => inferInstanceAs (Decidable (_ ∧ _))
  | allocation _ _ _ => inferInstanceAs (Decidable (_ ∧ _ ∧ _ ∧ BlankGaps _))

/-- The gaps that are seen in the split name, each with whether it is empty: those at the brackets,
and one in front of a symbol that begins like an identifier (such as a superscript digit). -/
def seams : OperatorSpelling → List Bool
  | symbol gap sign => if sign.head?.any isIdentifierChar then [gap.isEmpty] else []
  | allocation _ _ brackets => brackets.elim [] fun gaps => [gaps.1.isEmpty, gaps.2.isEmpty]

end OperatorSpelling

/-- The names of functions: plain ones, those of destructors and those of operators. -/
inductive IsFunctionName : Text → Prop where
  | plain {word : Text} (h : IsWord word) : IsFunctionName word
  | destructor {word : Text} (h : IsWord word) : IsFunctionName ('~' :: word)
  | operator {a : OperatorSpelling} (h : a.IsWritten) : IsFunctionName a.text

/-! ## What names a function -/

theorem IsSign.ne_nil {sign : Text} (h : IsSign sign) : sign ≠ [] := by
  rcases h with rfl | ⟨hne, -⟩
  · decide
  · exact hne

theorem IsSign.not_blank_word {sign : Text} (h : IsSign sign) :
    ∀ c ∈ sign, isBlank c = false ∧ isWordChar c = false := by
  rcases h with rfl | ⟨-, hchars⟩
  · decide
  · intro c hc
    have hsign := hchars c hc
    simp only [isSignChar, Bool.and_eq_true, Bool.not_eq_true'] at hsign
    exact hsign.1

theorem contains_signSet (c : Char) :
    (CharSet.compl (.blank ∪ .word ∪ .oneOf "();\x7b\x7d")).contains c = isSignChar c := by
  have hset : (CharSet.oneOf "();\x7b\x7d").contains c = ("();\x7b\x7d" : Text).contains c := by
    rw [Bool.eq_iff_iff, CharSet.contains_oneOf, List.contains_iff_mem]
  change (!(isBlank c || isWordChar c || (CharSet.oneOf "();\x7b\x7d").contains c)) = _
  rw [hset, Bool.not_or, Bool.not_or]
  rfl

section

variable {l s r : Text} {g : List Capture}

theorem matches_operatorSign_iff : operatorSign.Matches l s r g ↔ IsSign s ∧ g = [] := by
  have hsigns : (plus (char (.compl (.blank ∪ .word ∪ .oneOf "();\x7b\x7d")))).Matches l s r g ↔
      s ≠ [] ∧ (∀ c ∈ s, isSignChar c = true) ∧ g = [] := by
    rw [plus, matches_oneOrMore_char]
    simp only [contains_signSet]
  constructor
  · rintro (h | h | h)
    · obtain ⟨rfl, rfl⟩ := matches_lit.1 h
      exact ⟨.inl rfl, rfl⟩
    · obtain ⟨rfl, rfl⟩ := matches_lit.1 h
      exact ⟨.inr ⟨by decide, by decide⟩, rfl⟩
    · obtain ⟨hne, hchars, rfl⟩ := hsigns.mp h
      exact ⟨.inr ⟨hne, hchars⟩, rfl⟩
  · rintro ⟨rfl | ⟨hne, hchars⟩, rfl⟩
    · exact .inl (matches_lit.2 ⟨rfl, rfl⟩)
    · exact .inr (.inr (hsigns.mpr ⟨hne, hchars, rfl⟩))

theorem matches_blanks1 : blanks1.Matches l s r g ↔ s ≠ [] ∧ allBlank s = true ∧ g = [] := by
  rw [blanks1, plus, matches_oneOrMore_char, allBlank, List.all_eq_true]
  exact Iff.rfl

/-- The brackets behind `new` or `delete`, if there are any. -/
theorem matches_brackets_iff :
    (opt (blanks ++ lit "[" ++ blanks ++ lit "]")).Matches l s r g ↔
      (∃ brackets, s = bracketText brackets ∧ BlankGaps brackets) ∧ g = [] := by
  constructor
  · rintro (⟨_, _, _, _, rfl, rfl, ⟨_, inner, _, _, rfl, rfl, ⟨outer, _, _, _, rfl, rfl, houter,
      hopen⟩, hinner⟩, hclose⟩ | ⟨rfl, rfl⟩)
    · obtain ⟨rfl, rfl⟩ := matches_lit.1 hopen
      obtain ⟨rfl, rfl⟩ := matches_lit.1 hclose
      obtain ⟨hbefore, rfl⟩ := matches_blanks.1 houter
      obtain ⟨hwithin, rfl⟩ := matches_blanks.1 hinner
      refine ⟨⟨some (outer, inner), ?_, ?_⟩, rfl⟩
      · simp [bracketText]
      · rintro gaps ⟨⟩
        exact ⟨hbefore, hwithin⟩
    · exact ⟨⟨none, rfl, fun _ h => nomatch h⟩, rfl⟩
  · rintro ⟨⟨brackets, rfl, hgaps⟩, rfl⟩
    cases brackets with
    | none => exact .inr ⟨rfl, rfl⟩
    | some gaps =>
      obtain ⟨outer, inner⟩ := gaps
      obtain ⟨houter, hinner⟩ := hgaps _ rfl
      refine .inl ⟨outer ++ "[" ++ inner, "]", [], [], ?_, rfl, ⟨outer ++ "[", inner, [], [], rfl, rfl,
        ⟨outer, "[", [], [], rfl, rfl, matches_blanks.2 ⟨houter, rfl⟩, matches_lit.2 ⟨rfl, rfl⟩⟩,
        matches_blanks.2 ⟨hinner, rfl⟩⟩, matches_lit.2 ⟨rfl, rfl⟩⟩
      simp [bracketText]

theorem matches_symbol_iff :
    (lit "operator" ++ blanks ++ operatorSign).Matches l s r g ↔
      (∃ gap sign, (OperatorSpelling.symbol gap sign).IsWritten ∧
        s = (OperatorSpelling.symbol gap sign).text) ∧ g = [] := by
  constructor
  · rintro ⟨_, sign, _, _, rfl, rfl, ⟨_, gap, _, _, rfl, rfl, hword, hgap⟩, hsign⟩
    obtain ⟨rfl, rfl⟩ := matches_lit.1 hword
    obtain ⟨hblank, rfl⟩ := matches_blanks.1 hgap
    obtain ⟨hknown, rfl⟩ := matches_operatorSign_iff.1 hsign
    exact ⟨⟨gap, sign, ⟨hblank, hknown⟩, List.append_assoc ..⟩, rfl⟩
  · rintro ⟨⟨gap, sign, ⟨hgap, hsign⟩, rfl⟩, rfl⟩
    exact ⟨operatorWord ++ gap, sign, [], [], (List.append_assoc ..).symm, rfl,
      ⟨operatorWord, gap, [], [], rfl, rfl, matches_lit.2 ⟨rfl, rfl⟩,
        matches_blanks.2 ⟨hgap, rfl⟩⟩, matches_operatorSign_iff.2 ⟨hsign, rfl⟩⟩

theorem matches_allocationWord :
    (lit "new" ||| lit "delete").Matches l s r g ↔ IsAllocationWord s ∧ g = [] := by
  constructor
  · rintro (h | h)
    · exact ⟨.inl (matches_lit.1 h).1, (matches_lit.1 h).2⟩
    · exact ⟨.inr (matches_lit.1 h).1, (matches_lit.1 h).2⟩
  · rintro ⟨h | h, hg⟩
    · exact .inl (matches_lit.2 ⟨h, hg⟩)
    · exact .inr (matches_lit.2 ⟨h, hg⟩)

theorem IsAllocationWord.endsInWord {word : Text} (h : IsAllocationWord word) (t : Text) :
    (t ++ word).endsInWord = true := by
  rcases h with rfl | rfl
  all_goals
    rw [Text.endsInWord, List.getLast?_append]
    rfl

theorem startsWithWord_bracketText {brackets : Option (Text × Text)} (hgaps : BlankGaps brackets)
    (hr : r.startsWithWord = false) : (bracketText brackets ++ r).startsWithWord = false := by
  cases brackets with
  | none => exact hr
  | some gaps =>
    obtain ⟨outer, inner⟩ := gaps
    rcases eq_or_ne outer [] with rfl | hne
    · rfl
    · rw [bracketText, List.append_assoc]
      exact any_head?_append_of_allBlank isBlank_eq_false_of_isWordChar hne (hgaps _ rfl).1 _

theorem matches_allocation_iff (hr : r.startsWithWord = false) :
    (lit "operator" ++ blanks1 ++ allocationWord).Matches l s r g ↔
      (∃ gap word brackets, (OperatorSpelling.allocation gap word brackets).IsWritten ∧
        s = (OperatorSpelling.allocation gap word brackets).text) ∧ g = [] := by
  constructor
  · rintro ⟨_, _, _, _, rfl, rfl, ⟨_, gap, _, _, rfl, rfl, hword, hgap⟩,
      ⟨_, _, _, _, rfl, rfl, ⟨word, edge, _, _, rfl, rfl, hnew, hedge⟩, hbrackets⟩⟩
    obtain ⟨rfl, rfl⟩ := matches_lit.1 hword
    obtain ⟨hne, hblank, rfl⟩ := matches_blanks1.1 hgap
    obtain ⟨rfl, rfl, -⟩ := matches_wordEdge.1 hedge
    obtain ⟨⟨brackets, rfl, hgaps⟩, rfl⟩ := matches_brackets_iff.1 hbrackets
    obtain ⟨hknown, rfl⟩ := matches_allocationWord.1 hnew
    refine ⟨⟨gap, word, brackets, ⟨hne, hblank, hknown, hgaps⟩, ?_⟩, rfl⟩
    rw [OperatorSpelling.text, List.append_nil, List.append_assoc]
    rfl
  · rintro ⟨⟨gap, word, brackets, ⟨hne, hgap, hword, hgaps⟩, rfl⟩, rfl⟩
    have hedge : ∀ l, wordEdge.Matches (l ++ word) [] (bracketText brackets ++ r) [] := by
      intro l
      rw [matches_wordEdge, hword.endsInWord, startsWithWord_bracketText hgaps hr]
      exact ⟨rfl, rfl, Bool.noConfusion⟩
    exact ⟨operatorWord ++ gap, word ++ bracketText brackets, [], [], (List.append_assoc ..).symm, rfl,
      ⟨operatorWord, gap, [], [], rfl, rfl, matches_lit.2 ⟨rfl, rfl⟩,
        matches_blanks1.2 ⟨hne, hgap, rfl⟩⟩,
      ⟨word, bracketText brackets, [], [], rfl, rfl,
        ⟨word, [], [], [], (List.append_nil _).symm, rfl, matches_allocationWord.2 ⟨hword, rfl⟩,
          hedge _⟩,
        matches_brackets_iff.2 ⟨⟨brackets, rfl, hgaps⟩, rfl⟩⟩⟩

/-- In front of what is no word, a function is named by scopes with a name of a function in them. -/
theorem matches_functionName_iff {index : Nat} (hr : r.startsWithWord = false) :
    (∃ g, (functionName index).Matches l s r g) ↔
      ∃ ws name, (∀ w ∈ ws, IsWord w) ∧ IsFunctionName name ∧ s = joinScopes ws name := by
  constructor
  · rintro ⟨_, _, ⟨_, name, _, _, rfl, -, hscopes, hname⟩, -⟩
    obtain ⟨ws, hws, rfl, -⟩ := matches_scopes.1 hscopes
    refine ⟨ws, name, hws, ?_, (joinScopes_eq ws name).symm⟩
    rcases hname with hname | hname | ⟨tilde, word, _, _, rfl, -, htilde, hword⟩
    · obtain ⟨⟨gap, sign, hwritten, rfl⟩, -⟩ := matches_symbol_iff.1 hname
      exact .operator hwritten
    · obtain ⟨⟨gap, word, brackets, hwritten, rfl⟩, -⟩ := (matches_allocation_iff hr).mp hname
      exact .operator hwritten
    · have hname := (matches_plus_word.1 hword).1
      rcases htilde with htilde | ⟨rfl, -⟩
      · obtain ⟨rfl, -⟩ := matches_lit.1 htilde
        exact .destructor hname
      · exact .plain hname
  · rintro ⟨ws, name, hws, hname, rfl⟩
    rw [joinScopes_eq]
    refine exists_matches_group (exists_matches_append ⟨_, matches_scopes.2 ⟨ws, hws, rfl, rfl⟩⟩ ?_)
    cases hname with
    | plain hword =>
      exact ⟨_, .inr (.inr ⟨[], name, [], [], rfl, rfl, .inr ⟨rfl, rfl⟩,
        matches_plus_word.2 ⟨hword, rfl⟩⟩)⟩
    | @destructor word hword =>
      exact ⟨_, .inr (.inr ⟨"~", word, [], [], rfl, rfl, .inl (matches_lit.2 ⟨rfl, rfl⟩),
        matches_plus_word.2 ⟨hword, rfl⟩⟩)⟩
    | @operator a hwritten =>
      cases a with
      | symbol gap sign =>
        exact ⟨_, .inl (matches_symbol_iff.2 ⟨⟨gap, sign, hwritten, rfl⟩, rfl⟩)⟩
      | allocation gap word brackets =>
        exact ⟨_, .inr (.inl ((matches_allocation_iff hr).mpr
          ⟨⟨gap, word, brackets, hwritten, rfl⟩, rfl⟩))⟩

end

/-! ## Splitting -/

variable {scopes : List Text}

theorem operatorName_append_of_allBlank {gap : Text} (hgap : allBlank gap = true) (t : Text) :
    operatorName (gap ++ t) = operatorName t := by
  rw [operatorName, operatorName, trim_of_allBlank_append hgap]

/-- An operator that begins like an identifier stands behind a space. -/
theorem operatorName_of_isIdentifierChar {c : Char} (hc : isIdentifierChar c = true) (t : Text) :
    operatorName (c :: t) = "operator " ++ normalizeType (c :: t) := by
  have hhead := head?_trim_cons (isBlank_eq_false_of_isIdentifierChar hc) t
  rw [operatorName, hhead, Option.any_some, if_pos hc, normalizeType, normalizeType, tokens_trim]

/-- An operator behind scopes, where the word `operator` ends. -/
theorem splitQualified_operator (hscopes : ∀ s ∈ scopes, IsScopeName s) {rest : Text}
    (hrest : rest.head?.any isIdentifierChar = false) :
    splitQualified (joinScopes scopes (operatorWord ++ rest)) = (scopes, operatorName rest) := by
  have hisScope : ∀ s ∈ scopes, IsScope s := fun s hs => (hscopes s hs).isScope
  rw [splitQualified, splitOperatorFrom?_joinScopes hisScope, splitOperatorFrom?_operator hrest]
  exact congrArg (·, operatorName rest) (operatorQualifier_joinScopes hisScope)

/-- A gap keeps an operator apart from the word `operator`. -/
theorem splitQualified_gap (hscopes : ∀ s ∈ scopes, IsScopeName s) {gap rest : Text}
    (hgap : allBlank gap = true) (h : gap ≠ [] ∨ rest.head?.any isIdentifierChar = false) :
    splitQualified (joinScopes scopes (operatorWord ++ (gap ++ rest))) =
      (scopes, operatorName rest) := by
  rw [splitQualified_operator hscopes, operatorName_append_of_allBlank hgap]
  rcases eq_or_ne gap [] with rfl | hne
  · exact h.resolve_left fun hne => hne rfl
  · exact any_head?_append_of_allBlank isBlank_eq_false_of_isIdentifierChar hne hgap rest

/-! ### Allocation -/

theorem IsAllocationWord.isIdentifierChar {word : Text} (h : IsAllocationWord word) :
    word ≠ [] ∧ ∀ c ∈ word, isIdentifierChar c = true := by
  rcases h with rfl | rfl
  · exact ⟨by decide, by decide⟩
  · exact ⟨by decide, by decide⟩

/-- The brackets as they stand in a split name. -/
def settled (brackets : Option (Text × Text)) : Option (Text × Text) :=
  brackets.map fun gaps => (seam gaps.1.isEmpty, seam gaps.2.isEmpty)

theorem collapse_bracketText {word : Text} (hword : IsAllocationWord word)
    {brackets : Option (Text × Text)} (hgaps : BlankGaps brackets) :
    collapse (word ++ bracketText brackets) = word ++ bracketText (settled brackets) := by
  obtain ⟨hne, hchars⟩ := hword.isIdentifierChar
  have hsolid : ∀ c ∈ word, isBlank c = false := fun c hc =>
    isBlank_eq_false_of_isIdentifierChar (hchars c hc)
  cases brackets with
  | none =>
    rw [settled, Option.map_none, bracketText, List.append_nil, collapse, words_of_forall hne hsolid,
      joinWith_singleton]
  | some gaps =>
    obtain ⟨outer, inner⟩ := gaps
    obtain ⟨houter, hinner⟩ := hgaps _ rfl
    have hclose : collapse ("[" ++ (inner ++ "]")) = "[" ++ (seam inner.isEmpty ++ "]") :=
      collapse_append_cons (by decide) (by decide) hinner (by decide) []
    have hopen := collapse_append_cons hne hsolid houter (c := '[') (by decide) (inner ++ "]")
    rw [bracketText, hopen]
    exact congrArg (fun t => word ++ (seam outer.isEmpty ++ t)) hclose

theorem eq_or_isBlank_of_mem_bracketText {brackets : Option (Text × Text)}
    (hgaps : BlankGaps brackets) {c : Char} (hc : c ∈ bracketText brackets) :
    c = '[' ∨ c = ']' ∨ isBlank c = true := by
  cases brackets with
  | none => cases hc
  | some gaps =>
    obtain ⟨houter, hinner⟩ := hgaps _ rfl
    rcases List.mem_append.mp hc with hc | hc
    · exact .inr (.inr (List.all_eq_true.mp houter c hc))
    · rcases List.mem_cons.mp hc with rfl | hc
      · exact .inl rfl
      · rcases List.mem_append.mp hc with hc | hc
        · exact .inr (.inr (List.all_eq_true.mp hinner c hc))
        · exact .inr (.inl (List.mem_singleton.mp hc))

/-- What `new` and `delete` are split into: of the gaps at the brackets, a space is left. -/
theorem splitQualified_allocation (hscopes : ∀ s ∈ scopes, IsScopeName s) {gap word : Text}
    {brackets : Option (Text × Text)}
    (h : (OperatorSpelling.allocation gap word brackets).IsWritten) :
    splitQualified (joinScopes scopes (OperatorSpelling.allocation gap word brackets).text) =
      (scopes, "operator " ++ (word ++ bracketText (settled brackets))) := by
  obtain ⟨hne, hgap, hword, hgaps⟩ := h
  obtain ⟨hwordNe, hchars⟩ := hword.isIdentifierChar
  have hmark : ∀ c ∈ word ++ bracketText brackets, c ≠ '*' ∧ c ≠ '&' := by
    refine List.forall_mem_append.mpr ⟨fun c hc => ?_, ?_⟩
    · have hchar := hchars c hc
      constructor <;> (rintro rfl; exact absurd hchar (by decide))
    · intro c hc
      rcases eq_or_isBlank_of_mem_bracketText hgaps hc with rfl | rfl | hblank
      · decide
      · decide
      · constructor <;> (rintro rfl; exact absurd hblank (by decide))
  obtain ⟨c, t, rfl⟩ := List.exists_cons_of_ne_nil hwordNe
  rw [OperatorSpelling.text, splitQualified_gap hscopes hgap (.inl hne), List.cons_append,
    operatorName_of_isIdentifierChar (hchars c List.mem_cons_self), ← List.cons_append, normalizeType,
    tokens, flatMap_detachChar hmark]
  exact congrArg (fun name => (scopes, ("operator " : Text) ++ name)) (collapse_bracketText hword hgaps)

/-! ### Symbols -/

theorem mem_of_mem_splitScopesFrom {depth : Nat} {t part : Text} {c : Char}
    (hpart : part ∈ splitScopesFrom depth t) (hc : c ∈ part) : c ∈ t := by
  fun_induction splitScopesFrom depth t generalizing part with
  | case1 =>
    rw [List.mem_singleton.mp hpart] at hc
    exact hc
  | case2 t ih =>
    rcases List.mem_cons.mp hpart with rfl | hpart
    · cases hc
    · exact List.mem_cons_of_mem _ (List.mem_cons_of_mem _ (ih hpart hc))
  | case3 depth a t =>
    rename_i ih
    obtain ⟨first, more, hsplit⟩ := List.exists_cons_of_ne_nil (splitScopesFrom_ne_nil _ t)
    rw [hsplit, consFirst] at hpart
    rcases List.mem_cons.mp hpart with rfl | hpart
    · rcases List.mem_cons.mp hc with rfl | hc
      · exact List.mem_cons_self
      · exact List.mem_cons_of_mem a (ih (hsplit ▸ List.mem_cons_self) hc)
    · exact List.mem_cons_of_mem a (ih (hsplit ▸ List.mem_cons_of_mem first hpart) hc)

/-- A name without operators and without blanks is split into names without blanks. -/
theorem not_isBlank_of_mem_splitQualified {name : Text} (hoperator : splitOperatorFrom? [] name = none)
    (hsolid : ∀ c ∈ name, isBlank c = false) :
    ∀ c ∈ (splitQualified name).2, isBlank c = false := by
  have hne := splitScopesFrom_ne_nil 0 name
  have hlast : (splitScopes name).getLastD [] ∈ splitScopes name := by
    rw [splitScopes, List.getLastD_eq_getLast?, List.getLast?_eq_some_getLast hne]
    exact List.getLast_mem hne
  have hpart : ∀ c ∈ (splitScopes name).getLastD [], isBlank c = false := fun c hc =>
    hsolid c (mem_of_mem_splitScopesFrom hlast hc)
  intro c hc
  rw [splitQualified, hoperator] at hc
  change c ∈ trim ((splitScopes name).getLastD []) at hc
  rw [trim_eq_self hpart] at hc
  exact hpart c hc

/-- The word `operator` does not end where an identifier goes on, and no other one begins in a
symbol. -/
theorem not_hasOperatorWord_sign {sign : Text} (hsign : IsSign sign)
    (hhead : sign.head?.any isIdentifierChar = true) : ¬ HasOperatorWord [] (operatorWord ++ sign) := by
  rintro ⟨before, rest, h, -, hrest⟩
  rw [← List.append_assoc] at h
  rcases List.append_eq_append_iff.mp h with ⟨u, hu, hsplit⟩ | ⟨u, hu, hsplit⟩
  · rcases List.eq_nil_or_concat u with rfl | ⟨u, c, rfl⟩
    · rw [List.nil_append] at hsplit
      rw [← hsplit, hhead] at hrest
      cases hrest
    · rw [List.concat_eq_append] at hu hsplit
      have hlast := congrArg List.getLast? hu
      rw [List.getLast?_append, ← List.append_assoc, List.getLast?_concat] at hlast
      obtain rfl : 'r' = c := Option.some.inj hlast
      have hchar := (hsign.not_blank_word 'r' (by rw [hsplit]; simp)).2
      exact absurd hchar (by decide)
  · have hlength := congrArg List.length hu
    simp only [List.length_append] at hlength
    obtain rfl : u = [] := List.eq_nil_of_length_eq_zero (by omega)
    rw [List.nil_append] at hsplit
    rw [hsplit, hhead] at hrest
    cases hrest

theorem splitQualified_symbol (hscopes : ∀ s ∈ scopes, IsScopeName s) {gap sign : Text}
    (hgap : allBlank gap = true) (h : gap ≠ [] ∨ sign.head?.any isIdentifierChar = false) :
    splitQualified (joinScopes scopes (OperatorSpelling.symbol gap sign).text) =
      (scopes, operatorName sign) :=
  splitQualified_gap hscopes hgap h

/-- Without a gap, a symbol that begins like an identifier makes one word with `operator`. -/
theorem splitQualified_symbol_ne (hscopes : ∀ s ∈ scopes, IsScopeName s) {sign : Text}
    (hsign : IsSign sign) (hhead : sign.head?.any isIdentifierChar = true) :
    splitQualified (joinScopes scopes (OperatorSpelling.symbol [] sign).text) ≠
      (scopes, operatorName sign) := by
  obtain ⟨c, t, rfl⟩ := List.exists_cons_of_ne_nil hsign.ne_nil
  have hnone : splitOperatorFrom? [] (joinScopes scopes (operatorWord ++ c :: t)) = none := by
    rw [splitOperatorFrom?_joinScopes fun s hs => (hscopes s hs).isScope,
      splitOperatorFrom?_eq_none_iff.2 (not_hasOperatorWord_sign hsign hhead)]
    rfl
  have hsolid : ∀ d ∈ joinScopes scopes (operatorWord ++ c :: t), isBlank d = false := by
    intro d hd
    rw [joinScopes_eq] at hd
    rcases List.mem_append.mp hd with hd | hd
    · rcases mem_scopesText hd with rfl | ⟨s, hs, hd⟩
      · decide
      · exact isBlank_eq_false_of_isIdentifierChar ((hscopes s hs).identifierChar d hd)
    · rcases List.mem_append.mp hd with hd | hd
      · have hword : ∀ d ∈ operatorWord, isBlank d = false := by decide
        exact hword d hd
      · exact (hsign.not_blank_word d hd).1
  intro heq
  have hspace := not_isBlank_of_mem_splitQualified hnone hsolid ' '
  rw [OperatorSpelling.text, List.nil_append] at heq
  rw [heq, operatorName_of_isIdentifierChar hhead] at hspace
  exact absurd (hspace (by simp)) (by decide)

/-! ## Two spellings of one operator -/

variable {a b : OperatorSpelling}

theorem splitQualified_symbol_eq_iff (hscopes : ∀ s ∈ scopes, IsScopeName s) {gap gap' sign : Text}
    (ha : (OperatorSpelling.symbol gap sign).IsWritten)
    (hb : (OperatorSpelling.symbol gap' sign).IsWritten) :
    splitQualified (joinScopes scopes (OperatorSpelling.symbol gap sign).text) =
        splitQualified (joinScopes scopes (OperatorSpelling.symbol gap' sign).text) ↔
      (OperatorSpelling.symbol gap sign).seams = (OperatorSpelling.symbol gap' sign).seams := by
  cases hhead : sign.head?.any isIdentifierChar with
  | false =>
    rw [splitQualified_symbol hscopes ha.1 (.inr hhead), splitQualified_symbol hscopes hb.1 (.inr hhead)]
    simp [OperatorSpelling.seams, hhead]
  | true =>
    have hseams : ∀ g, (OperatorSpelling.symbol g sign).seams = [g.isEmpty] := fun g => by
      rw [OperatorSpelling.seams, if_pos hhead]
    rw [hseams, hseams, List.singleton_inj]
    rcases eq_or_ne gap [] with rfl | hgap <;> rcases eq_or_ne gap' [] with rfl | hgap'
    · exact iff_of_true rfl rfl
    · rw [splitQualified_symbol hscopes hb.1 (.inl hgap')]
      exact iff_of_false (splitQualified_symbol_ne hscopes ha.2 hhead) (by simpa using hgap')
    · rw [splitQualified_symbol hscopes ha.1 (.inl hgap)]
      exact iff_of_false (splitQualified_symbol_ne hscopes hb.2 hhead).symm (by simpa using hgap)
    · rw [splitQualified_symbol hscopes ha.1 (.inl hgap), splitQualified_symbol hscopes hb.1 (.inl hgap')]
      exact iff_of_true rfl (by rw [List.isEmpty_eq_false_iff.mpr hgap,
        List.isEmpty_eq_false_iff.mpr hgap'])

theorem splitQualified_allocation_eq_iff (hscopes : ∀ s ∈ scopes, IsScopeName s)
    {gap gap' word : Text} {brackets brackets' : Option (Text × Text)}
    (ha : (OperatorSpelling.allocation gap word brackets).IsWritten)
    (hb : (OperatorSpelling.allocation gap' word brackets').IsWritten)
    (hbrackets : brackets.isSome = brackets'.isSome) :
    splitQualified (joinScopes scopes (OperatorSpelling.allocation gap word brackets).text) =
        splitQualified (joinScopes scopes (OperatorSpelling.allocation gap' word brackets').text) ↔
      (OperatorSpelling.allocation gap word brackets).seams =
        (OperatorSpelling.allocation gap' word brackets').seams := by
  have hseam : ∀ p p' q q' : Bool,
      bracketText (some (seam p, seam p')) = bracketText (some (seam q, seam q')) ↔
        [p, p'] = [q, q'] := by decide
  rw [splitQualified_allocation hscopes ha, splitQualified_allocation hscopes hb, Prod.mk.injEq,
    List.append_cancel_left_eq, List.append_cancel_left_eq]
  cases brackets with
  | none =>
    obtain rfl := Option.isNone_iff_eq_none.mp (by simpa using hbrackets.symm)
    simp [OperatorSpelling.seams]
  | some gaps =>
    obtain ⟨gaps', rfl⟩ := Option.isSome_iff_exists.mp hbrackets.symm
    rw [settled, settled, Option.map_some, Option.map_some, hseam]
    simp [OperatorSpelling.seams]

/-- A symbol is no word. -/
theorem not_isAllocationWord_of_isSign {sign : Text} (h : IsSign sign) : ¬ IsAllocationWord sign := by
  rintro (rfl | rfl)
  · exact absurd h (by decide)
  · exact absurd h (by decide)

/-- Two spellings of one operator are split alike exactly if they agree on which gaps at the brackets
are empty. -/
theorem splitQualified_text_eq_iff (hscopes : ∀ s ∈ scopes, IsScopeName s) (ha : a.IsWritten)
    (hb : b.IsWritten) (htokens : a.tokens = b.tokens) :
    splitQualified (joinScopes scopes a.text) = splitQualified (joinScopes scopes b.text) ↔
      a.seams = b.seams := by
  cases a with
  | symbol gap sign =>
    cases b with
    | symbol gap' sign' =>
      obtain rfl := List.singleton_inj.mp htokens
      exact splitQualified_symbol_eq_iff hscopes ha hb
    | allocation gap' word' brackets' =>
      obtain ⟨rfl, -⟩ := List.cons.inj htokens
      exact absurd hb.2.2.1 (not_isAllocationWord_of_isSign ha.2)
  | allocation gap word brackets =>
    cases b with
    | symbol gap' sign' =>
      obtain ⟨rfl, -⟩ := List.cons.inj htokens
      exact absurd ha.2.2.1 (not_isAllocationWord_of_isSign hb.2)
    | allocation gap' word' brackets' =>
      obtain ⟨rfl, hrest⟩ := List.cons.inj htokens
      refine splitQualified_allocation_eq_iff hscopes ha hb ?_
      cases brackets <;> cases brackets' <;> simp_all

/-! ## The name of a declaration -/

/-- The declarations of `new` and `delete` in a part of a class. -/
def allocatorUnit : BodyPattern :=
  (BodyPattern.parens allocatorHead).withTail (.lit ";")

theorem captured_allocatorHead {l s r : Text} {g : List Capture}
    (h : allocatorHead.Matches l s r g) : IsAllocationWord (captured g 2) := by
  obtain ⟨_, _, _, brackets, -, rfl, ⟨_, _, _, _, -, rfl, ⟨_, _, _, _, -, rfl, -,
    ⟨word, hword, rfl⟩⟩, hblanks⟩, hbrackets⟩ := h
  obtain ⟨-, rfl⟩ := matches_blanks.1 hblanks
  obtain ⟨hknown, rfl⟩ := matches_allocationWord.1 hword
  rcases hbrackets with ⟨inner, hinner, rfl⟩ | ⟨-, rfl⟩
  · obtain rfl := hinner.captures_eq_nil (by decide)
    exact hknown
  · exact hknown

theorem isAllocationWord_of_mem_takeOut {part : Fragment}
    (horder : part.cells.Pairwise Cell.Before) {hit : Hit}
    (hhit : hit ∈ (allocatorUnit.takeOut part).1) : IsAllocationWord (hit.group 2) := by
  have hm : allocatorUnit.IsDelimited := (BodyPattern.isDelimited_parens _).withTail _
  obtain ⟨window, hwindow, hstep, -⟩ := (BodyPattern.takeOut_coverage hm horder).2 hit hhit
  obtain ⟨_, _, _, _, _, _, _, _, g, -, -, hmatch, hgroups⟩ :=
    BodyPattern.exists_captured_of_step hm (horder.sublist hwindow) hstep
  obtain ⟨_, _, _, _, -, rfl, ⟨_, _, _, _, -, rfl, hhead, hblanks⟩, hparen⟩ := hmatch
  obtain ⟨-, rfl⟩ := matches_blanks.1 hblanks
  obtain ⟨-, rfl⟩ := matches_lit.1 hparen
  rw [hgroups 2 (by decide) (by decide)]
  exact captured_allocatorHead hhead

/-- The operator that a declaration of `new` or `delete` is read as. -/
def allocatorSpelling (hit : Hit) : OperatorSpelling :=
  .allocation " " (hit.group 2) (if hit.hasGroup 3 then some ([], []) else none)

/-- A declaration is read with tight brackets. -/
theorem allocatorOf_name (hit : Hit) : (Reader.allocatorOf hit).name = (allocatorSpelling hit).text := by
  have hspace : ("operator " : Text) = operatorWord ++ " " := by decide
  change "operator " ++ hit.group 2 ++ onlyIf (hit.hasGroup 3) "[]" =
    operatorWord ++ (" " ++ (hit.group 2 ++
      bracketText (if hit.hasGroup 3 then some ([], []) else none)))
  rw [hspace, List.append_assoc, List.append_assoc]
  cases hit.hasGroup 3
  · rfl
  · rfl

theorem allocatorSpelling_isWritten {hit : Hit} (h : IsAllocationWord (hit.group 2)) :
    (allocatorSpelling hit).IsWritten := by
  refine ⟨by decide, by decide, h, ?_⟩
  cases hit.hasGroup 3
  · rintro gaps ⟨⟩
  · rintro gaps ⟨⟩
    exact ⟨rfl, rfl⟩

/-- A definition agrees with the declaration in its seams exactly if all of them are tight. -/
theorem seams_eq_allocatorSpelling_iff {hit : Hit} {gap word : Text}
    {brackets : Option (Text × Text)}
    (htokens : (OperatorSpelling.allocation gap word brackets).tokens =
      (allocatorSpelling hit).tokens) :
    (OperatorSpelling.allocation gap word brackets).seams = (allocatorSpelling hit).seams ↔
      ∀ tight ∈ (OperatorSpelling.allocation gap word brackets).seams, tight = true := by
  rw [allocatorSpelling] at htokens ⊢
  cases brackets with
  | none =>
    cases hgroup : hit.hasGroup 3
    · simp [OperatorSpelling.seams]
    · simp [OperatorSpelling.tokens, hgroup] at htokens
  | some gaps =>
    cases hgroup : hit.hasGroup 3
    · simp [OperatorSpelling.tokens, hgroup] at htokens
    · simp [OperatorSpelling.seams]

/-- A definition has the path of the operator that the classes around it declare exactly if they are
split alike. -/
theorem path_eq_allocator_iff (hscopes : ∀ s ∈ scopes, IsScopeName s) {gap word : Text}
    {brackets : Option (Text × Text)}
    (ha : (OperatorSpelling.allocation gap word brackets).IsWritten) {hit : Hit}
    (hword : IsAllocationWord (hit.group 2)) (namespaces : List Text) (chain : ClassChain)
    {f : Function}
    (hf : f.name = joinScopes scopes (OperatorSpelling.allocation gap word brackets).text) :
    (Definition.ofFunction namespaces [] [] f).path =
        (Definition.ofFunction namespaces scopes chain (Reader.allocatorOf hit)).path ↔
      splitQualified (joinScopes scopes (OperatorSpelling.allocation gap word brackets).text) =
        splitQualified (joinScopes scopes (allocatorSpelling hit).text) := by
  have hb := allocatorSpelling_isWritten hword
  have hsource := splitQualified_allocation hscopes ha
  have hheader := splitQualified_allocation hscopes hb
  have hown := splitQualified_allocation (List.forall_mem_nil _) hb
  rw [joinScopes_nil] at hown
  have hpath : ∀ qualifiers chain f, (Definition.ofFunction namespaces qualifiers chain f).path =
      namespaces ++ (qualifiers ++ (splitQualified f.name).1) ++ [(splitQualified f.name).2] :=
    fun _ _ _ => rfl
  rw [hpath, hpath, hf, allocatorOf_name, allocatorSpelling, hsource, hheader, hown,
    List.append_nil, List.nil_append, List.append_cancel_left_eq, List.singleton_inj, Prod.mk.injEq]
  exact (and_iff_right rfl).symm

/-- Two spellings of one operator are split alike exactly if they agree on which gaps at the brackets
are empty; and the definition of an operator that a class declares belongs to the declaration exactly
if its brackets are tight. -/
theorem splitQualified_spelling_eq_iff (hscopes : ∀ s ∈ scopes, IsScopeName s) (ha : a.IsWritten) :
    (∀ b : OperatorSpelling, b.IsWritten → a.tokens = b.tokens →
      (splitQualified (joinScopes scopes a.text) = splitQualified (joinScopes scopes b.text) ↔
        a.seams = b.seams)) ∧
      ∀ (part : Fragment), part.cells.Pairwise Cell.Before →
        ∀ hit ∈ (allocatorUnit.takeOut part).1, a.tokens = (allocatorSpelling hit).tokens →
        ∀ (namespaces : List Text) (chain : ClassChain) (f : Function),
        f.name = joinScopes scopes a.text →
        ((Definition.ofFunction namespaces [] [] f).path =
            (Definition.ofFunction namespaces scopes chain (Reader.allocatorOf hit)).path ↔
          ∀ tight ∈ a.seams, tight = true) := by
  refine ⟨fun b hb htokens => splitQualified_text_eq_iff hscopes ha hb htokens, ?_⟩
  intro part horder hit hhit htokens namespaces chain f hf
  have hword := isAllocationWord_of_mem_takeOut horder hhit
  cases a with
  | symbol gap sign =>
    obtain ⟨rfl, -⟩ := List.cons.inj htokens
    exact absurd hword (not_isAllocationWord_of_isSign ha.2)
  | allocation gap word brackets =>
    rw [path_eq_allocator_iff hscopes ha hword namespaces chain hf,
      splitQualified_text_eq_iff hscopes ha (allocatorSpelling_isWritten hword) htokens,
      seams_eq_allocatorSpelling_iff htokens]

/-- Blanks in front of the bracket count only as there or not, and with them the definition is not
that of the declared operator. -/
theorem splitQualified_spelling_eq_iff_spaced :
    let scopes : List Text := ["N", "A"]
    let a : OperatorSpelling := .allocation "\t " "new" (some (" ", ""))
    let b : OperatorSpelling := .allocation " " "new" (some ("  ", ""))
    let part := Fragment.ofText "void* operator new[](int n);"
    (∀ s ∈ scopes, IsScopeName s) ∧ a.IsWritten ∧ b.IsWritten ∧
      part.cells.Pairwise Cell.Before ∧
      splitQualified (joinScopes scopes a.text) = splitQualified (joinScopes scopes b.text) ∧
      ∃ hit ∈ (allocatorUnit.takeOut part).1, ∀ namespaces chain (f : Function),
        f.name = joinScopes scopes a.text →
        (Definition.ofFunction namespaces [] [] f).path ≠
          (Definition.ofFunction namespaces scopes chain (Reader.allocatorOf hit)).path := by
  intro scopes a b part
  have hscopes : ∀ s ∈ scopes, IsScopeName s := by decide
  have ha : a.IsWritten := by decide
  have hb : b.IsWritten := by decide
  have horder : part.cells.Pairwise Cell.Before := by
    rw [Fragment.cells_ofText]
    exact pairwise_cells 0 _
  have hseam : ¬ ∀ tight ∈ a.seams, tight = true := by decide
  obtain ⟨hit, hhit, htokens⟩ : ∃ hit ∈ (allocatorUnit.takeOut part).1,
      a.tokens = (allocatorSpelling hit).tokens := by decide +kernel
  have hlaw := splitQualified_spelling_eq_iff hscopes ha
  refine ⟨hscopes, ha, hb, horder, (hlaw.1 b hb (by decide)).mpr (by decide), hit, hhit, ?_⟩
  intro namespaces chain f hf hpath
  exact hseam ((hlaw.2 part horder hit hhit htokens namespaces chain f hf).mp hpath)

/-- A blank in front of the brackets makes a difference: both spellings name functions and have the
same tokens, but they are not split alike, and one of them is not what a declaration is read as. -/
theorem splitQualified_blank_before_brackets :
    let a : OperatorSpelling := .allocation " " "new" (some (" ", ""))
    let b : OperatorSpelling := .allocation " " "new" (some ("", ""))
    a.IsWritten ∧ b.IsWritten ∧ a.tokens = b.tokens ∧
      (∀ c ∈ [a, b], ∃ g, (functionName 2).Matches [] (joinScopes ["A"] c.text) "(int n)" g) ∧
      splitQualified (joinScopes ["A"] a.text) = ([("A" : Text)], ("operator new []" : Text)) ∧
      splitQualified (joinScopes ["A"] b.text) = ([("A" : Text)], ("operator new[]" : Text)) ∧
      (allocatorUnit.takeOut (Fragment.ofText "void* operator new [](int n);")).1.map
        (fun hit => (Reader.allocatorOf hit).name) = [("operator new[]" : Text)] := by
  intro a b
  have ha : a.IsWritten := by decide
  have hb : b.IsWritten := by decide
  refine ⟨ha, hb, by decide, ?_, by decide, by decide, by decide +kernel⟩
  intro c hc
  have hc : c.IsWritten := by
    rcases List.mem_pair.mp hc with rfl | rfl
    · exact ha
    · exact hb
  exact (matches_functionName_iff (by decide)).mpr ⟨["A"], c.text, by decide, .operator hc, rfl⟩

end Signature

end HeaderSync

import HeaderSync.Proofs.Reader.Basic
import HeaderSync.Proofs.Reader.Definitions

/-!
# Reading back what was written

A source is written as definitions with blank lines between them, and namespaces around some of
them. It is read back as what was written.

* `blockText`, `takes_namespace` : a namespace is taken as a whole;
* `Readable` : the heading of a function tells what it is;
* `IsReadable` : the function can be read back from its definition, and each search takes the
  definitions of its kind and passes over the others.
-/

namespace HeaderSync

open Text Pattern Shapes Reader BodyPattern

/-! ## Namespaces -/

/-- The heading of a namespace up to its brace. -/
def blockHeading (name : Text) : Text :=
  "namespace" ++ ' ' :: (name ++ [' '])

/-- A namespace with the text `inside` between its braces. -/
def blockText (name inside : Text) : Text :=
  blockHeading name ++ '\x7b' :: (inside ++ ['\x7d'])

/-- The name of a namespace: letters, digits and colons, and not the word `namespace` itself. -/
structure IsNamespaceName (name : Text) : Prop where
  head : name.head?.any CharSet.identifierStart.contains = true
  chars : name.all (CharSet.word ∪ CharSet.single ':').contains = true
  ne_keyword : name ≠ "namespace"
  not_suffix : ¬ (":namespace" : Text) <:+ name

theorem isWordChar_or_colon {c : Char} (h : (CharSet.word ∪ CharSet.single ':').contains c = true) :
    isWordChar c = true ∨ c = ':' := by
  rw [CharSet.contains_union] at h
  exact h.imp id fun hcolon => (eq_of_beq hcolon).symm

theorem isBlank_of_isNameChar {c : Char} (h : IsNameChar c) : isBlank c = false := by
  by_contra hb
  exact not_isNameChar_of_isBlank (by simpa using hb) h

namespace IsNamespaceName

variable {name : Text}

theorem isNameChar (h : IsNamespaceName name) : ∀ c ∈ name, IsNameChar c := fun c hc =>
  (isWordChar_or_colon (List.all_eq_true.mp h.chars c hc)).imp id .inl

theorem exists_cons (h : IsNamespaceName name) :
    ∃ c t, name = c :: t ∧ CharSet.identifierStart.contains c = true := by
  cases name with
  | nil => cases h.head
  | cons c t => exact ⟨c, t, rfl, h.head⟩

theorem isFlat_blockHeading (h : IsNamespaceName name) : IsFlat (blockHeading name) := by
  have hkeyword : IsFlat "namespace" := by decide
  have hspace : IsFlat [' '] := by decide
  exact hkeyword.append (hspace.append ((isFlat_of_isNameChar h.isNameChar).append hspace))

theorem isUnmarked_blockHeading (h : IsNamespaceName name) : IsUnmarked (blockHeading name) := by
  have hkeyword : IsUnmarked "namespace" := by decide
  have hspace : IsUnmarked [' '] := by decide
  exact hkeyword.append (hspace.append ((isUnmarked_of_isNameChar h.isNameChar).append hspace))

/-- The heading is told apart from the blanks in front of the brace. -/
theorem eq_of_append_blank (h : IsNamespaceName name) {u blank : Text}
    (hu : ∀ c ∈ u.getLast?, isBlank c = false) (hblank : allBlank blank = true)
    (heq : u ++ blank = blockHeading name) : u = "namespace" ++ ' ' :: name := by
  have hlast : ∀ c ∈ ("namespace" ++ ' ' :: name).getLast?, isBlank c = false := by
    intro c hc
    obtain ⟨d, t, rfl, -⟩ := h.exists_cons
    rw [List.getLast?_append_of_ne_nil _ (List.cons_ne_nil _ _), List.getLast?_cons_cons] at hc
    exact isBlank_of_isNameChar (h.isNameChar c (List.mem_of_mem_getLast? hc))
  have hspace : ∀ c ∈ [' '], ¬ isBlank c = false := by decide
  have hblanks : ∀ c ∈ blank, ¬ isBlank c = false := by
    intro c hc hb
    rw [List.all_eq_true.mp hblank c hc] at hb
    cases hb
  refine (append_inj_of_getLast hblanks hspace hu hlast (heq.trans ?_)).1
  rw [List.append_assoc, List.cons_append]
  rfl

end IsNamespaceName

/-- The first bracket from a place of the heading on is the brace behind it. -/
theorem blockHeading_eq_of_split {name : Text} (hname : IsNamespaceName name) {a b rest s r : Text}
    (ht : blockHeading name ++ ['\x7b'] = a ++ b) (hb : b ≠ []) (hs : IsFlat s)
    (hrest : b ++ rest = s ++ '\x7b' :: r) : a ++ s = blockHeading name ∧ r = rest := by
  have h : blockHeading name ++ '\x7b' :: rest = a ++ (s ++ '\x7b' :: r) := by
    rw [← hrest, ← List.append_assoc, ← ht]
    simp
  rcases hname.isFlat_blockHeading.split hs (by decide) (by decide) h with
    ⟨hheading, -, hr⟩ | ⟨a', rfl, -⟩
  · exact ⟨hheading.symm, hr.symm⟩
  · have hlen := congrArg List.length ht
    have hpos := List.length_pos_iff.mpr hb
    simp only [List.length_append, List.length_cons, List.length_nil] at hlen
    omega

theorem startsWithWord_namespace (t : Text) : startsWithWord ("namespace" ++ t) = true := by
  change isWordChar 'n' = true
  decide

/-- The heading of a namespace is not that of one without a name. -/
theorem misses_anonymousNamespace_heading {name : Text} (hname : IsNamespaceName name) :
    (braces anonymousNamespaceHead).head.Misses (blockHeading name ++ ['\x7b']) := by
  intro l a b rest s r g ht hb hrest hmatch
  obtain ⟨s, blank, rfl, hblank, ⟨_, word, _, _, rfl, -, hedge, hword⟩⟩ := matches_braces.1 hmatch
  obtain ⟨rfl, -, hedge⟩ := matches_wordEdge.1 hedge
  obtain ⟨rfl, -⟩ := matches_lit.1 hword
  rw [List.nil_append] at hrest
  have hsplit : b ++ rest = ("namespace" ++ blank) ++ '\x7b' :: r := by simpa using hrest
  obtain ⟨hheading, -⟩ := blockHeading_eq_of_split hname ht hb
    (IsFlat.append (by decide) (isFlat_of_allBlank hblank)) hsplit
  have hnamed : a ++ "namespace" = "namespace" ++ ' ' :: name :=
    hname.eq_of_append_blank (by simp; decide) hblank (by simpa using hheading)
  -- The word would have to be the name, or the last part of it.
  obtain ⟨m, rfl, hm⟩ := exists_append_of_notMem (by decide) hnamed
  rcases List.eq_nil_or_concat m with rfl | ⟨m, c, rfl⟩
  · exact hname.ne_keyword hm.symm
  · rw [List.concat_eq_append] at hm hedge
    have hends : (l ++ ("namespace" ++ ' ' :: (m ++ [c]))).endsInWord = isWordChar c := by
      rw [← List.cons_append, ← List.append_assoc, ← List.append_assoc, endsInWord,
        List.getLast?_concat, Option.any_some]
    have hc : isWordChar c = false := by
      rw [hends, startsWithWord_namespace] at hedge
      simpa using hedge
    have hcolon : c = ':' :=
      (isWordChar_or_colon (List.all_eq_true.mp hname.chars c (by simp [← hm]))).resolve_left
        (by simp [hc])
    exact hname.not_suffix ⟨m, by rw [← hm, hcolon]; simp⟩

theorem exists_matches_namespace {name l r : Text} (hname : IsNamespaceName name)
    (hl : l.endsInWord = false) :
    ∃ g, (braces namespaceHead).head.Matches l (blockHeading name ++ ['\x7b']) r g := by
  obtain ⟨c, t, rfl, hc⟩ := hname.exists_cons
  have ht : ∀ d ∈ t, (CharSet.word ∪ CharSet.single ':').contains d = true := fun d hd =>
    List.all_eq_true.mp hname.chars d (List.mem_cons_of_mem c hd)
  have hkeyword : ∀ r, ∃ g, (wordEdge ++ opt (lit "inline" ++ blanks1) ++ lit "namespace").Matches l
      ([] ++ ("namespace" : Text)) r g := fun r =>
    exists_matches_append (exists_matches_append_nil
      ⟨[], matches_wordEdge.2 ⟨rfl, rfl, by
        rw [hl, startsWithWord_namespace]
        decide⟩⟩ exists_matches_opt_nil) ⟨_, matches_lit.2 ⟨rfl, rfl⟩⟩
  have hblank : ∀ l r, ∃ g, blanks1.Matches l [' '] r g := fun l r =>
    ⟨_, matches_oneOrMore_char.2 ⟨by decide, by decide, rfl⟩⟩
  have hnamed : ∀ l r, ∃ g, (group 1 (char .identifierStart ++
      star (char (.word ∪ .single ':')))).Matches l ([c] ++ t) r g := fun l r =>
    exists_matches_group (exists_matches_append ⟨[], ⟨c, rfl, hc⟩, rfl⟩
      ⟨[], matches_zeroOrMore_char.2 ⟨ht, rfl⟩⟩)
  obtain ⟨g, hg⟩ : ∃ g, namespaceHead.Matches l ([] ++ ("namespace" : Text) ++ [' '] ++ ([c] ++ t))
      (" " ++ '\x7b' :: r) g :=
    exists_matches_append (exists_matches_append (hkeyword _) (hblank _ _)) (hnamed _ _)
  refine ⟨g, matches_braces.2 ⟨_, " ", ?_, rfl, hg⟩⟩
  unfold blockHeading
  simp only [List.nil_append, List.append_assoc, List.cons_append]
  rfl

/-- The name that is found in a heading. -/
theorem name_of_matches {name s blank l r : Text} {g : List Capture} (hname : IsNamespaceName name)
    (hblank : allBlank blank = true) (hheading : s ++ blank = blockHeading name)
    (h : namespaceHead.Matches l s r g) : captured g 1 = name := by
  obtain ⟨s₁, n, _, _, rfl, rfl, ⟨s₂, b, _, _, rfl, -, ⟨s₃, k, _, _, rfl, -,
    ⟨e, o, _, _, rfl, -, hedge, ho⟩, hk⟩, hb⟩, g', hn, rfl⟩ := h
  obtain ⟨rfl, -⟩ := matches_wordEdge.1 hedge
  obtain ⟨rfl, -⟩ := matches_lit.1 hk
  obtain ⟨-, hbs, -⟩ := matches_oneOrMore_char.1 hb
  obtain ⟨_, n, _, _, rfl, -, ⟨⟨d, rfl, hd⟩, -⟩, hns⟩ := hn
  change d :: n = name
  have hdword := isWordChar_of_identifierStart hd
  have hchars : ∀ c ∈ d :: n, IsNameChar c := List.forall_mem_cons.mpr ⟨.inl hdword, fun c hc =>
    (isWordChar_or_colon ((matches_zeroOrMore_char.1 hns).1 c hc)).imp id .inl⟩
  have hsame := hname.eq_of_append_blank (fun c hc => isBlank_of_isNameChar (hchars c ?_)) hblank
    hheading
  · rcases ho with ⟨i, o, _, _, rfl, -, hi, -⟩ | ⟨rfl, -⟩
    · obtain ⟨rfl, -⟩ := matches_lit.1 hi
      exact absurd (congrArg List.head? hsame) (by simp)
    · obtain ⟨c, t, rfl, hc⟩ := hname.exists_cons
      have hsplit : b ++ d :: n = [' '] ++ c :: t :=
        List.append_cancel_left (by simpa using hsame : "namespace" ++ (b ++ d :: n) = _)
      have hnot : ∀ {c : Char}, CharSet.identifierStart.contains c = true → ¬ isBlank c = true := by
        intro c hc
        rw [isBlank_eq_false_of_isWordChar (isWordChar_of_identifierStart hc)]
        exact Bool.false_ne_true
      obtain ⟨-, rfl, rfl⟩ := append_cons_inj_of_forall hbs (by decide) (hnot hd) (hnot hc) hsplit
      rfl
  · rw [List.getLast?_append_of_ne_nil _ (by simp)] at hc
    exact List.mem_of_mem_getLast? hc

/-- A namespace is taken. -/
theorem takes_namespace {name inside : Text} (hname : IsNamespaceName name)
    (hinside : Delimiters.braces.Balanced inside) :
    (braces namespaceHead).Takes (blockText name inside) fun g i =>
      captured g 1 = name ∧ i = inside where
  exists_match l rest hl := by
    obtain ⟨g, hg⟩ := exists_matches_namespace (r := inside ++ '\x7d' :: rest) hname hl
    exact ⟨_, _, g, by simp [blockText], hg⟩
  isWhole l rest s r g hrest hmatch := by
    obtain ⟨s, blank, rfl, hblank, hhead⟩ := matches_braces.1 hmatch
    have hflat := (hhead.isFlat (by decide)).append (isFlat_of_allBlank hblank)
    have hsplit : blockHeading name ++ '\x7b' :: (inside ++ '\x7d' :: rest) =
        [] ++ ((s ++ blank) ++ '\x7b' :: r) := by simpa [blockText] using hrest
    rcases hname.isFlat_blockHeading.split hflat (by decide) (by decide) hsplit with
      ⟨hheading, -, -⟩ | ⟨a, hnil, -⟩
    · rw [List.nil_append] at hheading
      refine ⟨s ++ blank, inside, by simp; rfl, ⟨?_, hinside⟩,
        ⟨name_of_matches hname hblank hheading.symm hhead, rfl⟩, fun unit hunit => rfl⟩
      rw [blockText, hheading]
      rfl
    · simp at hnil

/-! ## Functions -/

/-- The definition of a function with the text `body` between its braces. -/
def Written.ofFunction (f : Function) (body : Text) : Written where
  front := onlyIf (!f.returnType.isEmpty) (f.returnType ++ " ") ++ f.name
  args := f.args
  isConst := f.isConst
  body := body

/-- The function is recognized for what it is by its heading. -/
inductive Readable (f : Function) : Prop where
  | constructor (ws : List Text) (v : Text) (hws : ∀ u ∈ ws, IsWord u) (hv : IsWord v)
      (hname : f.name = scopesText (ws ++ [v]) ++ v) (htype : f.returnType = [])
      (hconst : f.isConst = false)
  | destructor (ws : List Text) (v : Text) (hws : ∀ u ∈ ws, IsWord u) (hv : IsWord v)
      (hname : f.name = scopesText (ws ++ [v]) ++ '~' :: v) (htype : f.returnType = [])
      (hargs : f.args = []) (hconst : f.isConst = false)
  | function (ws : List Text) (n : Text) (hws : ∀ u ∈ ws, IsWord u) (hn : IsWord n)
      (hname : f.name = scopesText ws ++ n) (hlast : ws.getLast? ≠ some n)
      (htype : IsTypeText f.returnType)
      (hoperator : ¬ Signature.operatorWord <:+: f.returnType ++ ' ' :: f.name)
      (hsignature : plausibleSignature definitionForbidden f.returnType f.name = true)

/-- Which search takes the definition. -/
inductive DefinitionKind where
  | constructor
  | destructor
  | function
deriving DecidableEq

def Function.definitionKind (f : Function) : DefinitionKind :=
  if !f.returnType.isEmpty then .function
  else if '~' ∈ f.name then .destructor
  else .constructor

namespace Readable

variable {f : Function} {body : Text}

theorem kind_constructor {ws : List Text} {v : Text} (hws : ∀ u ∈ ws, IsWord u) (hv : IsWord v)
    (hname : f.name = scopesText (ws ++ [v]) ++ v) (htype : f.returnType = []) :
    f.definitionKind = .constructor := by
  have htilde : '~' ∉ f.name := by
    rw [hname, List.mem_append, not_or]
    refine ⟨fun hmem => ?_, hv.notMem (by decide)⟩
    obtain ⟨u, hu, hc⟩ := (mem_scopesText hmem).resolve_left (by decide)
    rcases List.mem_append.mp hu with hu | hu
    · exact (hws u hu).notMem (c := '~') (by decide) hc
    · rw [List.mem_singleton.mp hu] at hc
      exact hv.notMem (c := '~') (by decide) hc
  rw [Function.definitionKind, htype, if_neg (by simp), if_neg htilde]

theorem kind_destructor {ws : List Text} {v : Text}
    (hname : f.name = scopesText (ws ++ [v]) ++ '~' :: v) (htype : f.returnType = []) :
    f.definitionKind = .destructor := by
  rw [Function.definitionKind, htype, if_neg (by simp), if_pos (by simp [hname])]

theorem kind_function (htype : IsTypeText f.returnType) : f.definitionKind = .function := by
  rw [Function.definitionKind, if_pos]
  simpa using htype.ne_nil

theorem front_special (htype : f.returnType = []) : (Written.ofFunction f body).front = f.name := by
  simp [Written.ofFunction, htype, onlyIf]

theorem front_function (htype : IsTypeText f.returnType) :
    (Written.ofFunction f body).front = f.returnType ++ ' ' :: f.name := by
  have hne : (!f.returnType.isEmpty) = true := by simpa using htype.ne_nil
  simp [Written.ofFunction, onlyIf, hne]

/-- A function is told by its return type. -/
theorem of_kind_function (h : Readable f) (hkind : f.definitionKind = .function) :
    ∃ ws n, (∀ u ∈ ws, IsWord u) ∧ IsWord n ∧ f.name = scopesText ws ++ n ∧
      IsTypeText f.returnType ∧ ¬ Signature.operatorWord <:+: f.returnType ++ ' ' :: f.name ∧
      plausibleSignature definitionForbidden f.returnType f.name = true := by
  cases h with
  | constructor ws v hws hv hname htype =>
    rw [kind_constructor hws hv hname htype] at hkind
    cases hkind
  | destructor ws v hws hv hname htype =>
    rw [kind_destructor hname htype] at hkind
    cases hkind
  | function ws n hws hn hname hlast htype hoperator hsignature =>
    exact ⟨ws, n, hws, hn, hname, htype, hoperator, hsignature⟩

end Readable

theorem Hit.hasGroup_eq (hit : Hit) (index : Nat) :
    hit.hasGroup index = !allBlank (hit.group index) := by
  rw [hasGroup, group]
  cases hit.group? index <;> rfl

/-- The function as it is read at `s`. -/
def Function.readAt (f : Function) (s : Span) : Function :=
  { f with kind := .standalone, span := s }

/-- What a search says makes `read` answer with the function. -/
def ReadsFunction (m : BodyPattern) (read : Hit → Function) (f : Function) (g : List Capture)
    (inside : Text) : Prop :=
  ∀ hit : Hit, hit.Says m.head.groupCount g inside → read hit = f.readAt hit.span

/-- The function can be read back from its definition. -/
structure IsReadable (f : Function) (body : Text) : Prop where
  heading : Readable f
  plain : (Written.ofFunction f body).IsPlain
  trimmed : trim f.args = f.args

namespace IsReadable

variable {f : Function} {body : Text}

theorem takes_constructor (h : IsReadable f body) (hkind : f.definitionKind = .constructor) :
    constructorUnit.Takes (Written.ofFunction f body).text
      (ReadsFunction constructorUnit constructorDefinitionOf f) := by
  cases h.heading with
  | constructor ws v hws hv hname htype hconst =>
    have hfront : (Written.ofFunction f body).front = f.name := Readable.front_special htype
    refine (Written.takes_constructor h.plain hws hv (hfront.trans hname) hconst).imp ?_
    rintro g inside ⟨h₁, h₄⟩ hit hsaid
    rw [constructorDefinitionOf, hsaid.group 1 (by decide) (by decide),
      hsaid.group 4 (by decide) (by decide), h₁, h₄, hfront]
    change specialOf f.name (trim f.args) false hit.span = _
    rw [h.trimmed, specialOf, Function.readAt, htype, hconst]
  | destructor ws v hws hv hname htype =>
    rw [Readable.kind_destructor hname htype] at hkind
    cases hkind
  | function ws n hws hn hname hlast htype =>
    rw [Readable.kind_function htype] at hkind
    cases hkind

theorem refuses_constructor (h : IsReadable f body) (hkind : f.definitionKind ≠ .constructor) :
    constructorUnit.Refuses (Written.ofFunction f body).text := by
  cases h.heading with
  | constructor ws v hws hv hname htype hconst =>
    exact absurd (Readable.kind_constructor hws hv hname htype) hkind
  | destructor ws v hws hv hname htype =>
    exact refuses_of_misses
      (Written.misses_constructor h.plain hv ((Readable.front_special htype).trans hname))
  | function ws n hws hn hname hlast htype =>
    exact Written.refuses_constructor h.plain hws hn hlast
      ((Readable.front_function htype).trans (by rw [hname]))

theorem takes_destructor (h : IsReadable f body) (hkind : f.definitionKind = .destructor) :
    destructorUnit.Takes (Written.ofFunction f body).text
      (ReadsFunction destructorUnit destructorDefinitionOf f) := by
  cases h.heading with
  | constructor ws v hws hv hname htype hconst =>
    rw [Readable.kind_constructor hws hv hname htype] at hkind
    cases hkind
  | destructor ws v hws hv hname htype hargs hconst =>
    have hfront : (Written.ofFunction f body).front = f.name := Readable.front_special htype
    refine (Written.takes_destructor h.plain hws hv (hfront.trans hname) hargs hconst).imp ?_
    intro g inside h₁ hit hsaid
    rw [destructorDefinitionOf, hsaid.group 1 (by decide) (by decide), h₁, hfront, specialOf,
      Function.readAt, htype, hargs, hconst]
  | function ws n hws hn hname hlast htype =>
    rw [Readable.kind_function htype] at hkind
    cases hkind

theorem misses_destructor (h : IsReadable f body) (hkind : f.definitionKind = .function) :
    destructorUnit.head.Misses (Written.ofFunction f body).text := by
  obtain ⟨ws, n, hws, hn, hname, htype, -⟩ := h.heading.of_kind_function hkind
  refine Written.misses_destructor h.plain ?_
  rw [Readable.front_function htype, hname]
  simp only [List.mem_append, List.mem_cons, not_or]
  refine ⟨fun hmem => ?_, by decide, fun hmem => ?_, hn.notMem (by decide)⟩
  · exact absurd (List.all_eq_true.mp htype.chars _ hmem) (by decide)
  · obtain ⟨u, hu, hc⟩ := (mem_scopesText hmem).resolve_left (by decide)
    exact (hws u hu).notMem (c := '~') (by decide) hc

theorem misses_cast (h : IsReadable f body) (hkind : f.definitionKind = .function) :
    (braces castDefinitionHead).head.Misses (Written.ofFunction f body).text := by
  obtain ⟨ws, n, -, -, -, htype, hoperator, -⟩ := h.heading.of_kind_function hkind
  exact Written.misses_cast h.plain (by rwa [Readable.front_function htype])

theorem takes_definition (h : IsReadable f body) (hkind : f.definitionKind = .function) :
    definitionUnit.Takes (Written.ofFunction f body).text
      (ReadsFunction definitionUnit definitionOf f) := by
  obtain ⟨ws, n, hws, hn, hname, htype, hoperator, hsignature⟩ := h.heading.of_kind_function hkind
  have hfront : (Written.ofFunction f body).front = f.returnType ++ ' ' :: f.name :=
    Readable.front_function htype
  refine (Written.takes_definition h.plain htype hws hn (hname ▸ hfront) (hfront ▸ hoperator)
    (hname ▸ hsignature)).imp ?_
  rintro g inside ⟨h₂, h₁, h₃, h₄⟩ hit hsaid
  have hconst : hit.hasGroup 4 = f.isConst := by
    rw [hit.hasGroup_eq, hsaid.group 4 (by decide) (by decide), h₄]
    exact Bool.not_not _
  rw [definitionOf, hconst, hsaid.group 1 (by decide) (by decide),
    hsaid.group 2 (by decide) (by decide), hsaid.group 3 (by decide) (by decide), h₁, h₂, h₃,
    ← hname, Function.readAt]
  change Function.mk f.name f.returnType (trim f.args) f.isConst .standalone hit.span = _
  rw [h.trimmed]

end IsReadable

end HeaderSync

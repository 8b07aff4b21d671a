import HeaderSync.Proofs.Text.Separators
import HeaderSync.Proofs.Text.Words
import HeaderSync.Settings
import Mathlib.Data.List.Basic

/-!
# Names by a pattern

Settings that have no issues have a pattern with one placeholder, and the text around it goes
together with any identifier. So the name of an interface is an identifier, and the class can be read
off it. In the other direction any text between the two ends is taken for the name of a class, also
one that starts with a digit.

* `isAsciiIdentifier_iff` : identifiers by their characters;
* `NamePattern.IsUsable` : the two ends of a pattern, and what they are good for;
* `Settings.exists_isUsable`, `Settings.isAsciiIdentifier_of_mem` : what settings without issues
  guarantee;
* `Settings.interfacePattern_invertible` : the names of interfaces and those of classes;
* `Settings.implementationName_unusable_iff` : when the name of an implementation is no identifier.
-/

namespace HeaderSync

open Text

/-! ## Identifiers -/

/-- An ASCII letter or digit, or an underscore. -/
def isAsciiNameChar (c : Char) : Bool :=
  isAsciiLetter c || isAsciiDigit c || c == '_'

theorem isAsciiDigit_eq_false_of_le {c : Char} (h : 'A' ≤ c) : isAsciiDigit c = false := by
  by_contra hdigit
  simp only [isAsciiDigit, Bool.not_eq_false, Bool.and_eq_true, decide_eq_true_eq] at hdigit
  exact absurd (Char.le_trans h hdigit.2) (by decide)

/-- What an identifier starts with. -/
theorem isAsciiLetter_or_underscore_iff {c : Char} :
    (isAsciiLetter c || c == '_') = true ↔ isAsciiNameChar c = true ∧ isAsciiDigit c = false := by
  constructor
  · intro h
    have hle : 'A' ≤ c := by
      simp only [isAsciiLetter, Bool.or_eq_true, Bool.and_eq_true, decide_eq_true_eq, beq_iff_eq] at h
      obtain (h | h) | rfl := h
      · exact Char.le_trans (by decide) h.1
      · exact h.1
      · decide
    have hdigit := isAsciiDigit_eq_false_of_le hle
    exact ⟨by rwa [isAsciiNameChar, hdigit, Bool.or_false], hdigit⟩
  · rintro ⟨h, hdigit⟩
    rwa [isAsciiNameChar, hdigit, Bool.or_false] at h

/-- An identifier is not empty, has letters, digits and underscores, and no digit in front. -/
theorem isAsciiIdentifier_iff {t : Text} : isAsciiIdentifier t = true ↔
    t ≠ [] ∧ (∀ c ∈ t, isAsciiNameChar c = true) ∧ ∀ c ∈ t.head?, isAsciiDigit c = false := by
  cases t with
  | nil => simp [isAsciiIdentifier]
  | cons c t =>
    have htail : (t.all fun c => isAsciiLetter c || isAsciiDigit c || c == '_') = true ↔
        ∀ d ∈ t, isAsciiNameChar d = true := List.all_eq_true
    rw [isAsciiIdentifier, Bool.and_eq_true, isAsciiLetter_or_underscore_iff, htail,
      List.forall_mem_cons]
    simp only [ne_eq, reduceCtorEq, not_false_eq_true, true_and, List.head?_cons, Option.mem_def,
      Option.some.injEq, forall_eq']
    exact and_right_comm

theorem isBlank_eq_false_of_isAsciiNameChar {c : Char} (h : isAsciiNameChar c = true) :
    isBlank c = false :=
  isBlank_eq_false_of (p := isAsciiNameChar) (by decide) h

/-- An identifier may be followed by more characters of one. -/
theorem isAsciiIdentifier_append {s t : Text} (hs : isAsciiIdentifier s = true)
    (ht : ∀ c ∈ t, isAsciiNameChar c = true) : isAsciiIdentifier (s ++ t) = true := by
  rw [isAsciiIdentifier_iff] at hs ⊢
  obtain ⟨hne, hchars, hhead⟩ := hs
  rw [List.head?_append_of_ne_nil s hne]
  exact ⟨List.append_ne_nil_of_left_ne_nil hne t, List.forall_mem_append.mpr ⟨hchars, ht⟩, hhead⟩

/-- A name taken by the default rule is an identifier. -/
theorem isAsciiIdentifier_defaultImplementationName {interface : Text}
    (h : isAsciiIdentifier interface = true) :
    isAsciiIdentifier (defaultImplementationName interface) = true := by
  have hending : isAsciiIdentifier (interface ++ "Impl") = true :=
    isAsciiIdentifier_append h (by decide)
  unfold defaultImplementationName
  split
  · rename_i next rest
    split
    · rename_i hupper
      simp only [Bool.and_eq_true, decide_eq_true_eq] at hupper
      obtain ⟨-, hchars, -⟩ := isAsciiIdentifier_iff.1 h
      refine isAsciiIdentifier_iff.2 ⟨List.cons_ne_nil next rest,
        (List.forall_mem_cons.mp hchars).2, ?_⟩
      rintro c ⟨⟩
      exact isAsciiDigit_eq_false_of_le hupper.1
    · exact hending
  · exact hending

/-! ## Patterns -/

namespace NamePattern

/-- The pattern has the ends `before` and `after` around its only placeholder, and whatever
identifier stands between them, the whole is one. -/
structure IsUsable (pattern : NamePattern) (before after : Text) : Prop where
  cut : splitOnce? namePlaceholder pattern.text = some (before, after)
  interfaceName_eq (name : Text) : pattern.interfaceName name = before ++ (name ++ after)
  before_chars : ∀ c ∈ before, isAsciiNameChar c = true
  before_head : ∀ c ∈ before.head?, isAsciiDigit c = false
  after_chars : ∀ c ∈ after, isAsciiNameChar c = true

variable {pattern : NamePattern} {before after name interface : Text}

namespace IsUsable

/-- The name that is read off is what stands between the two ends. -/
theorem implementationName?_eq_some (h : pattern.IsUsable before after) :
    pattern.implementationName? interface = some name ↔
      interface = before ++ (name ++ after) ∧ name ≠ [] ∧ ∀ c ∈ name, isBlank c = false := by
  have hcut : ∀ {m : Text}, (dropLead? before interface).bind (dropTail? after) = some m ↔
      interface = before ++ (m ++ after) := by
    intro m
    simp only [Option.bind_eq_some_iff, dropLead?_eq_some, dropTail?_eq_some]
    exact ⟨fun ⟨_, heq, heq'⟩ => heq' ▸ heq, fun heq => ⟨_, heq, rfl⟩⟩
  have hread : pattern.implementationName? interface =
      ((dropLead? before interface).bind (dropTail? after)).bind fun m =>
        if m.isEmpty || m.any isBlank then none else some m := by
    rw [implementationName?, h.cut, Option.bind_assoc]
    rfl
  rw [hread, Option.bind_eq_some_iff]
  constructor
  · rintro ⟨m, hm, hif⟩
    split at hif
    · cases hif
    · rename_i hgood
      obtain rfl := Option.some.inj hif
      simp only [Bool.or_eq_true, List.isEmpty_iff, List.any_eq_true, not_or, not_exists, not_and,
        Bool.not_eq_true] at hgood
      exact ⟨hcut.mp hm, hgood⟩
  · rintro ⟨heq, hne, hblank⟩
    refine ⟨name, hcut.mpr heq, if_neg ?_⟩
    simpa [hne] using hblank

/-- An identifier between the two ends makes an identifier. -/
theorem isAsciiIdentifier_interfaceName (h : pattern.IsUsable before after)
    (hname : isAsciiIdentifier name = true) :
    isAsciiIdentifier (pattern.interfaceName name) = true := by
  rw [h.interfaceName_eq]
  have hend : isAsciiIdentifier (name ++ after) = true :=
    isAsciiIdentifier_append hname h.after_chars
  by_cases hbefore : before = []
  · rwa [hbefore, List.nil_append]
  · refine isAsciiIdentifier_append ?_ (isAsciiIdentifier_iff.1 hend).2.1
    exact isAsciiIdentifier_iff.2 ⟨hbefore, h.before_chars, h.before_head⟩

end IsUsable

/-- A pattern with one placeholder that makes an identifier of one name is good for all. -/
theorem exists_isUsable (hcount : (splitOn namePlaceholder pattern.text).length = 2)
    (hsample : isAsciiIdentifier (pattern.interfaceName "Name") = true) :
    ∃ before after, pattern.IsUsable before after := by
  have hne : namePlaceholder ≠ [] := by decide
  rw [splitOn_eq hne] at hcount
  cases hcut : splitOnce? namePlaceholder pattern.text with
  | none => rw [hcut] at hcount; cases hcount
  | some cut =>
    obtain ⟨before, after⟩ := cut
    have hrest : splitOnce? namePlaceholder after = none := by
      rw [hcut, Option.elim_some, List.length_cons, splitOn_eq hne] at hcount
      cases hmore : splitOnce? namePlaceholder after with
      | none => rfl
      | some cut =>
        have hpos := List.length_pos_iff.mpr (splitOn_ne_nil namePlaceholder cut.2)
        rw [hmore, Option.elim_some, List.length_cons] at hcount
        omega
    have hparts : splitOn namePlaceholder pattern.text = [before, after] := by
      rw [splitOn_eq hne, hcut, Option.elim_some, splitOn_eq hne, hrest]
      rfl
    have heq : ∀ name, pattern.interfaceName name = before ++ (name ++ after) := by
      intro name
      rw [interfaceName, replaceAll, hparts]
      simp [joinWith]
    rw [heq] at hsample
    obtain ⟨-, hchars, hhead⟩ := isAsciiIdentifier_iff.1 hsample
    obtain ⟨hbefore, hend⟩ := List.forall_mem_append.mp hchars
    exact ⟨before, after, {
      cut := hcut
      interfaceName_eq := heq
      before_chars := hbefore
      before_head := fun c hc => hhead c (List.mem_head?_append_of_mem_head? hc)
      after_chars := (List.forall_mem_append.mp hend).2 }⟩

end NamePattern

/-! ## Settings -/

namespace Settings

variable {s : Settings}

theorem exists_isUsable (h : s.issues = []) : ∃ before after, s.names.pattern.IsUsable before after := by
  rw [issues, List.append_eq_nil_iff, List.append_eq_nil_iff] at h
  obtain ⟨⟨-, hpattern⟩, -⟩ := h
  rw [patternIssues] at hpattern
  split at hpattern
  · cases hpattern
  · rename_i hcount
    split at hpattern
    · cases hpattern
    · rename_i hsample
      have hone : (splitOn namePlaceholder s.interfacePattern).length = 2 := by simpa using hcount
      have hgood : isAsciiIdentifier (s.names.pattern.interfaceName "Name") = true := by
        rwa [Bool.not_eq_true', Bool.not_eq_false] at hsample
      exact NamePattern.exists_isUsable hone hgood

/-- Both names of an entry are identifiers. -/
theorem isAsciiIdentifier_of_mem (h : s.issues = []) {interface name : Text}
    (hmem : (interface, name) ∈ s.implementations) :
    isAsciiIdentifier interface = true ∧ isAsciiIdentifier name = true := by
  rw [issues, List.append_eq_nil_iff, List.flatMap_eq_nil_iff] at h
  have hentry : implementationIssues interface name = [] :=
    h.2 (interface, name) (List.mem_mergeSort.mpr hmem)
  rw [implementationIssues, List.map_eq_nil_iff, List.filter_eq_nil_iff] at hentry
  simpa using hentry

/-- The name of an interface is an identifier, the class is read off it, and it is the name of the
implementation if no other one is fixed. Whatever is read off a name, the pattern gives that name
back. -/
theorem interfacePattern_invertible (h : s.issues = []) :
    (∀ name, isAsciiIdentifier name = true →
      let interface := s.names.pattern.interfaceName name
      isAsciiIdentifier interface = true ∧
        s.names.pattern.implementationName? interface = some name ∧
        (s.names.fixed.lookup interface = none → s.names.implementationName interface = name)) ∧
      ∀ interface name, s.names.pattern.implementationName? interface = some name →
        s.names.pattern.interfaceName name = interface := by
  obtain ⟨before, after, hpattern⟩ := exists_isUsable h
  constructor
  · intro name hname interface
    obtain ⟨hne, hchars, -⟩ := isAsciiIdentifier_iff.1 hname
    have hread : s.names.pattern.implementationName? interface = some name :=
      hpattern.implementationName?_eq_some.mpr ⟨hpattern.interfaceName_eq name, hne, fun c hc =>
        isBlank_eq_false_of_isAsciiNameChar (hchars c hc)⟩
    refine ⟨hpattern.isAsciiIdentifier_interfaceName hname, hread, fun hfixed => ?_⟩
    rw [ConfiguredNames.implementationName, hfixed, hread, Option.getD_some]
  · intro interface name hread
    rw [hpattern.interfaceName_eq, (hpattern.implementationName?_eq_some.mp hread).1]

/-- A name that consists of the ends of the pattern is not mistaken for them. -/
theorem interfacePattern_invertible_overlapping :
    let s : Settings := { Settings.default with interfacePattern := "A$\x7bname\x7dA" }
    s.issues = [] ∧ isAsciiIdentifier "A" = true ∧
      s.names.pattern.implementationName? "AAA" = some ("A" : Text) ∧
      s.names.implementationName "AAA" = ("A" : Text) := by
  intro s
  have hvalid : s.issues = [] := by decide +kernel
  have hname : isAsciiIdentifier "A" = true := by decide
  obtain ⟨-, hread, himplementation⟩ := (interfacePattern_invertible hvalid).1 "A" hname
  exact ⟨hvalid, hname, hread, himplementation rfl⟩

/-- The name of an implementation is an identifier, unless it is read off by the pattern and starts
with a digit. -/
theorem implementationName_unusable_iff (h : s.issues = []) {interface : Text}
    (hinterface : isAsciiIdentifier interface = true) :
    isAsciiIdentifier (s.names.implementationName interface) = false ↔
      s.names.fixed.lookup interface = none ∧ ∃ digit rest,
        s.names.pattern.implementationName? interface = some (digit :: rest) ∧
          isAsciiDigit digit = true := by
  rw [ConfiguredNames.implementationName]
  cases hfixed : s.names.fixed.lookup interface with
  | some name =>
    obtain ⟨entries, entries', heq, -⟩ := List.lookup_eq_some_iff.mp hfixed
    have hmem : (interface, name) ∈ s.implementations := by
      rw [show s.implementations = entries ++ (interface, name) :: entries' from heq]
      exact List.mem_append_right _ List.mem_cons_self
    simp [(isAsciiIdentifier_of_mem h hmem).2]
  | none =>
    cases hread : s.names.pattern.implementationName? interface with
    | none => simp [isAsciiIdentifier_defaultImplementationName hinterface]
    | some name =>
      -- All characters of the name stand in the identifier, so only the first one can be wrong.
      obtain ⟨before, after, hpattern⟩ := exists_isUsable h
      obtain ⟨rfl, hne, -⟩ := hpattern.implementationName?_eq_some.mp hread
      obtain ⟨-, hchars, -⟩ := isAsciiIdentifier_iff.1 hinterface
      have hname : ∀ c ∈ name, isAsciiNameChar c = true :=
        (List.forall_mem_append.mp (List.forall_mem_append.mp hchars).2).1
      obtain ⟨c, rest, rfl⟩ := List.exists_cons_of_ne_nil hne
      have hiff : isAsciiIdentifier (c :: rest) = true ↔ isAsciiDigit c = false := by
        rw [isAsciiIdentifier_iff]
        refine ⟨fun hgood => hgood.2.2 c rfl, fun hdigit => ⟨hne, hname, ?_⟩⟩
        rintro _ ⟨⟩
        exact hdigit
      rw [← Bool.not_eq_true, Option.getD_some, hiff]
      simp

theorem implementationName_unusable_iff_inner_digit :
    Settings.default.issues = [] ∧ isAsciiIdentifier "IShape2D" = true ∧
      isAsciiIdentifier (Settings.default.names.implementationName "IShape2D") = true := by
  have hvalid : Settings.default.issues = [] := by decide +kernel
  have hinterface : isAsciiIdentifier "IShape2D" = true := by decide
  refine ⟨hvalid, hinterface, ?_⟩
  by_contra hbad
  obtain ⟨-, digit, rest, hread, hdigit⟩ :=
    (implementationName_unusable_iff hvalid hinterface).mp (by simpa using hbad)
  have hshape : Settings.default.names.pattern.implementationName? "IShape2D" =
      some ('S' :: "hape2D".toList) := by decide
  obtain ⟨rfl, -⟩ := List.cons.inj (Option.some.inj (hshape.symm.trans hread))
  cases hdigit

/-- The pattern takes the first letter of `I2D` for its own, and leaves no identifier. -/
theorem implementationName_digit_first :
    Settings.default.issues = [] ∧ isAsciiIdentifier "I2D" = true ∧
      Settings.default.names.implementationName "I2D" = ("2D" : Text) ∧
      isAsciiIdentifier (Settings.default.names.implementationName "I2D") = false := by
  decide +kernel

end Settings

end HeaderSync

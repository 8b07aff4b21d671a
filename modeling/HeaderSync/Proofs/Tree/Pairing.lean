import HeaderSync.Proofs.Reader.Basic
import HeaderSync.Proofs.Tree.Provenance
import HeaderSync.Reader.Header

/-!
# Declarations and their definitions

A file of declarations and the file of definitions for it are written from one tree, by different
rules for functions, constructors, destructors and classes. The two go together: a member is declared
once or not at all, and has one definition exactly if it is declared as neither pure, defaulted nor
deleted.

* `Mode.definitions?` : the form of definitions that goes with a form of declarations;
* `hasNoBody` : a declaration that is pure, defaulted or deleted;
* `Member.IsDeclaration` : the line declares the member;
* `Member.render_eq_empty_or_declaration` : one member in both forms;
* `Class.exists_writtenFor`, `Namespace.exists_writtenFor` : whether a member is written at all is
  decided in both forms alike;
* `declaration_iff_definition` : the two files.
-/

namespace HeaderSync

/-- The form of definitions that goes with a form of declarations. -/
def Mode.definitions? : Mode → Option Mode
  | header => some source
  | implHeader => some implSource
  | _ => none

theorem Mode.eq_of_definitions {declared defined : Mode}
    (h : declared.definitions? = some defined) :
    (declared = .header ∧ defined = .source) ∨ (declared = .implHeader ∧ defined = .implSource) := by
  cases declared <;> simp_all [definitions?]

theorem Mode.isImplementation_of_definitions {declared defined : Mode}
    (h : declared.definitions? = some defined) :
    declared.isImplementation = defined.isImplementation := by
  rcases eq_of_definitions h with ⟨rfl, rfl⟩ | ⟨rfl, rfl⟩ <;> rfl

theorem ClassChain.accepts_of_definitions (chain : ClassChain) {declared defined : Mode}
    (h : declared.definitions? = some defined) : chain.accepts declared = chain.accepts defined := by
  simp only [accepts, ClassNames.accepts, Mode.isImplementation_of_definitions h]

/-- The declaration is pure, defaulted or deleted. -/
def hasNoBody (t : Text) : Bool :=
  [" = 0;", " = default;", " = delete;"].any fun ending : String =>
    List.isSuffixOf (ending : Text) t

theorem hasNoBody_of_ending (ending : String)
    (h : ending ∈ [" = 0;", " = default;", " = delete;"]) (front : Text) :
    hasNoBody (front ++ ending) = true := by
  refine List.any_eq_true.mpr ⟨ending, h, ?_⟩
  rw [List.isSuffixOf_iff_suffix]
  exact List.suffix_append front _

/-- What ends with the parameters, `const` or `override` is none of these. -/
theorem hasNoBody_of_parameters (ending : String)
    (h : ending ∈ [");", ") const;", ") override;", ") const override;"]) (front : Text) :
    hasNoBody (front ++ ending) = false := by
  simp only [List.mem_cons, List.not_mem_nil, or_false] at h
  rcases h with rfl | rfl | rfl | rfl <;> simp [hasNoBody, List.isSuffixOf, List.isPrefixOf]

theorem hasNoBody_defaulted (defaulted : Option Defaulted) (front : Text) :
    hasNoBody (front ++ ")" ++ Defaulted.ending defaulted ++ ";") = defaulted.isSome := by
  cases defaulted with
  | none =>
    rw [Defaulted.ending, List.append_nil, List.append_assoc]
    exact hasNoBody_of_parameters ");" (by simp) front
  | some d =>
    rw [List.append_assoc]
    cases d with
    | default => exact hasNoBody_of_ending " = default;" (by simp) _
    | delete => exact hasNoBody_of_ending " = delete;" (by simp) _

theorem hasNoBody_signature (f : Function) {after : Text} (h : after ∈ ([[], " override"] : List Text))
    (front name args : Text) :
    hasNoBody (front ++ f.signature name args ++ after ++ ";") = false := by
  have hsplit : front ++ f.signature name args ++ after ++ ";" =
      front ++ Text.onlyIf (!f.returnType.isEmpty) (f.returnType ++ " ") ++ name ++ "(" ++ args ++
        (")" ++ Text.onlyIf f.isConst " const" ++ after ++ ";") := by
    simp [Function.signature]
  rw [hsplit]
  simp only [List.mem_cons, List.not_mem_nil, or_false] at h
  cases f.isConst with
  | false =>
    rcases h with rfl | rfl
    · exact hasNoBody_of_parameters ");" (by simp) _
    · exact hasNoBody_of_parameters ") override;" (by simp) _
  | true =>
    rcases h with rfl | rfl
    · exact hasNoBody_of_parameters ") const;" (by simp) _
    · exact hasNoBody_of_parameters ") const override;" (by simp) _

/-! ## Members -/

/-- A function in both forms: left out, pure, or declared and defined. -/
theorem FunctionKind.form_definitions (kind : FunctionKind) {declared defined : Mode}
    (hmodes : declared.definitions? = some defined) :
    (kind.form declared = .skip ∧ kind.form defined = .skip) ∨
      ∃ before after, kind.form declared = .declaration before after ∧
        ((after = (" = 0" : Text) ∧ kind.form defined = .skip) ∨
          (after ∈ ([[], " override"] : List Text) ∧ kind.form defined = .definition)) := by
  obtain ⟨rfl, rfl⟩ | ⟨rfl, rfl⟩ := Mode.eq_of_definitions hmodes
  · cases kind with
    | member v | castOperator v =>
      cases v with
      | none | virtual => exact .inr ⟨_, _, rfl, .inr ⟨by simp, rfl⟩⟩
      | override => exact .inr ⟨_, _, rfl, .inr ⟨by simp, rfl⟩⟩
      | pure => exact .inr ⟨_, _, rfl, .inl ⟨rfl, rfl⟩⟩
    | static | friend | allocator | standalone => exact .inr ⟨_, _, rfl, .inr ⟨by simp, rfl⟩⟩
  · cases kind with
    | member v | castOperator v =>
      cases v with
      | none | virtual | override => exact .inl ⟨rfl, rfl⟩
      | pure => exact .inr ⟨_, _, rfl, .inr ⟨by simp, rfl⟩⟩
    | static | friend | allocator | standalone => exact .inl ⟨rfl, rfl⟩

namespace Member

/-- The line declares the member under its own name. -/
def IsDeclaration (chain : ClassChain) (mode : Mode) (m : Member) (t : Text) : Prop :=
  ∃ before after, t = before ++ m.ownName chain mode ++ "(" ++ m.args ++ ")" ++ after ++ ";"

/-- A member in a source: it has a definition, or it is left out. -/
theorem render_of_isSource {o : RenderOptions} (hmode : o.mode.isSource = true) {m : Member}
    (hadmits : o.admits m.span = true) (chain : ClassChain) :
    m.render chain o =
      if m.hasDefinition chain o.mode then definitionLines (m.heading o chain) m.body
      else Lines.empty := by
  cases hdef : m.hasDefinition chain o.mode with
  | true => exact render_of_hasDefinition hmode hdef hadmits
  | false =>
    cases m with
    | function f => exact Function.render_eq_empty hmode hdef
    | constructor c => exact Constructor.render_eq_empty hmode hdef
    | destructor d => exact Destructor.render_eq_empty hmode hdef

/-- The member is left out and has no definition, or it is declared, and has a definition unless the
declaration says that there is no body. -/
def Paired (chain : ClassChain) (declared : RenderOptions) (defined : Mode) (m : Member) : Prop :=
  (m.render chain declared = Lines.empty ∧ m.hasDefinition chain defined = false) ∨
    ∃ t, m.render chain declared = Lines.line t ∧ m.IsDeclaration chain declared.mode t ∧
      m.hasDefinition chain defined = !hasNoBody t

theorem paired_function {declared : RenderOptions} {defined : Mode}
    (hmodes : declared.mode.definitions? = some defined) {f : Function}
    (hadmits : declared.admits f.span = true) (chain : ClassChain) :
    Paired chain declared defined (.function f) := by
  have hdeclares : ∀ before after : Text, IsDeclaration chain declared.mode (.function f)
      (before ++ f.signature f.name f.args ++ after ++ ";") := fun before after =>
    ⟨before ++ Text.onlyIf (!f.returnType.isEmpty) (f.returnType ++ " "),
      Text.onlyIf f.isConst " const" ++ after, by simp [Function.signature, ownName, args]⟩
  rw [Paired, render, Function.render, hadmits, hasDefinition, Function.hasDefinition,
    chain.accepts_of_definitions hmodes]
  cases chain.accepts defined with
  | false => exact .inl ⟨rfl, Bool.and_false _⟩
  | true =>
  obtain ⟨hd, hs⟩ | ⟨before, after, hd, ⟨rfl, hs⟩ | ⟨hafter, hs⟩⟩ := f.kind.form_definitions hmodes
  · rw [hd, hs]
    exact .inl ⟨rfl, rfl⟩
  · have hbody : hasNoBody (before ++ f.signature f.name f.args ++ " = 0" ++ ";") = true := by
      rw [List.append_assoc]
      exact hasNoBody_of_ending " = 0;" (by simp) _
    rw [hd, hs]
    refine .inr ⟨_, rfl, hdeclares before " = 0", ?_⟩
    rw [hbody]
    rfl
  · rw [hd, hs]
    refine .inr ⟨_, rfl, hdeclares before after, ?_⟩
    rw [hasNoBody_signature f hafter]
    rfl

theorem paired_constructor {declared : RenderOptions} {defined : Mode}
    (hmodes : declared.mode.definitions? = some defined) {c : Constructor}
    (hadmits : declared.admits c.span = true) (chain : ClassChain) :
    Paired chain declared defined (.constructor c) := by
  rw [Paired, render, hasDefinition, Constructor.hasDefinition,
    ← chain.accepts_of_definitions hmodes]
  cases haccepts : chain.accepts declared.mode with
  | false =>
    rw [Constructor.render, haccepts]
    exact .inl ⟨rfl, Bool.and_false _⟩
  | true =>
    have hwritten : c.render chain declared = c.declaration (chain.ownName declared.mode) := by
      rw [Constructor.render, haccepts, hadmits]
      rcases Mode.eq_of_definitions hmodes with ⟨hd, -⟩ | ⟨hd, -⟩ <;> rw [hd] <;> rfl
    have hsource : defined.isSource = true := by
      rcases Mode.eq_of_definitions hmodes with ⟨-, rfl⟩ | ⟨-, rfl⟩ <;> rfl
    refine .inr ⟨_, hwritten, ⟨Text.onlyIf c.isExplicit "explicit ", _, rfl⟩, ?_⟩
    rw [hasNoBody_defaulted, hsource]
    cases c.defaulted <;> rfl

theorem paired_destructor {declared : RenderOptions} {defined : Mode}
    (hmodes : declared.mode.definitions? = some defined) {d : Destructor}
    (hadmits : declared.admits d.span = true) (chain : ClassChain) :
    Paired chain declared defined (.destructor d) := by
  rw [Paired, render, Destructor.render, hadmits, hasDefinition]
  rcases Mode.eq_of_definitions hmodes with ⟨hd, rfl⟩ | ⟨hd, rfl⟩
  · rw [hd]
    refine .inr ⟨_, rfl, ⟨Text.onlyIf d.isVirtual "virtual ", Defaulted.ending d.defaulted, ?_⟩, ?_⟩
    · simp [ownName, args]
    · have hsplit : Text.onlyIf d.isVirtual "virtual " ++ ("~" ++ chain.ownName .header) ++ "()" ++
          Defaulted.ending d.defaulted ++ ";" =
          Text.onlyIf d.isVirtual "virtual " ++ ("~" ++ chain.ownName .header) ++ "(" ++ ")" ++
            Defaulted.ending d.defaulted ++ ";" := by
        simp
      rw [hsplit, hasNoBody_defaulted, Destructor.hasDefinition]
      cases d.defaulted <;> rfl
  · rw [hd, Destructor.hasDefinition]
    cases chain.isInterface with
    | false => exact .inl ⟨rfl, rfl⟩
    | true =>
      refine .inr ⟨_, rfl, ⟨[], " override", ?_⟩, ?_⟩
      · simp [ownName, args]
      · have hsplit : "~" ++ chain.ownName .implHeader ++ "() override;" =
            "~" ++ chain.ownName .implHeader ++ "(" ++ (") override;" : String) := by
          simp
        rw [hsplit, hasNoBody_of_parameters _ (by simp)]
        rfl

/-- Where a member is wanted, its declaration decides on its definition. -/
theorem paired {declared : RenderOptions} {defined : Mode}
    (hmodes : declared.mode.definitions? = some defined) {m : Member}
    (hadmits : declared.admits m.span = true) (chain : ClassChain) :
    Paired chain declared defined m := by
  cases m with
  | function f => exact paired_function hmodes hadmits chain
  | constructor c => exact paired_constructor hmodes hadmits chain
  | destructor d => exact paired_destructor hmodes hadmits chain

end Member

/-! ## Trees -/

/-- The class is written, as an implementation or as it is, and overlaps the range. -/
def Class.wanted (range : Option Span) (implementation : Bool) (c : Class) : Bool :=
  (!implementation || c.names.isInterface) && range.all fun range => range.overlaps c.span

/-- Whether a member of a class is written is decided by the range and by whether the form is about
an implementation. -/
theorem Class.exists_writtenFor (range : Option Span) (implementation : Bool) {chain : ClassChain}
    {m : Member} (place : MemberPlace) : ∀ (c : Class) (outer : ClassChain),
      c.member? outer place = some (chain, m) →
      ∃ wanted : Bool, ∀ o : RenderOptions, o.range = range →
        o.mode.isImplementation = implementation → o.mode.listsMembers = true →
        (c.traced outer o).writtenFor place =
          if wanted then (m.render chain o).shown else [] := by
  induction place with
  | function i | constructor i | destructor =>
    intro c outer h
    obtain ⟨item, hitem, heq⟩ := Option.map_eq_some_iff.mp h
    obtain ⟨rfl, rfl⟩ := Prod.mk.inj heq
    refine ⟨c.wanted range implementation, ?_⟩
    rintro o rfl rfl hlists
    rw [writtenFor_traced hlists]
    simp only [hitem]
    rfl
  | inClass i place ih =>
    intro c outer h
    obtain ⟨item, hitem, h⟩ := Option.bind_eq_some_iff.mp h
    obtain ⟨wanted, hbelow⟩ := ih item.2 _ h
    refine ⟨c.wanted range implementation && wanted, ?_⟩
    rintro o rfl rfl hlists
    rw [writtenFor_traced hlists]
    simp only [hitem, Option.elim_some, hbelow o rfl rfl hlists]
    change (if c.wanted o.range o.mode.isImplementation then _ else _) = _
    cases c.wanted o.range o.mode.isImplementation <;> rfl
  | inNamespace i place =>
    intro c outer h
    cases h

theorem Namespace.exists_memberOptions (name : Text) (o : RenderOptions) :
    ∃ scopes, memberOptions name o = o.nested scopes := by
  rw [memberOptions]
  split
  · exact ⟨_, rfl⟩
  · exact ⟨[], by rw [RenderOptions.nested, List.append_nil]⟩

/-- The same for the members of a namespace, which may get qualified names. -/
theorem Namespace.exists_writtenFor (range : Option Span) (implementation : Bool)
    {chain : ClassChain} {m : Member} (place : MemberPlace) : ∀ n : Namespace,
      n.member? place = some (chain, m) →
      ∃ wanted : Bool, ∀ o : RenderOptions, o.range = range →
        o.mode.isImplementation = implementation → o.mode.listsMembers = true →
        ∃ scopes, (n.traced o).writtenFor place =
          if wanted then (m.render chain (o.nested scopes)).shown else [] := by
  induction place with
  | function i =>
    intro n h
    obtain ⟨f, hf, heq⟩ := Option.map_eq_some_iff.mp h
    obtain ⟨rfl, rfl⟩ := Prod.mk.inj heq
    refine ⟨n.isRoot || range.all fun range => range.overlaps n.span, ?_⟩
    rintro o rfl - -
    obtain ⟨scopes, hscopes⟩ := exists_memberOptions n.name o
    refine ⟨scopes, ?_⟩
    rw [writtenFor_traced, hscopes]
    simp only [hf]
    rfl
  | inClass i place =>
    intro n h
    obtain ⟨c, hc, h⟩ := Option.bind_eq_some_iff.mp h
    obtain ⟨wanted, hbelow⟩ := c.exists_writtenFor range implementation place [] h
    refine ⟨(n.isRoot || range.all fun range => range.overlaps n.span) && wanted, ?_⟩
    intro o hrange hmode hlists
    obtain ⟨scopes, hscopes⟩ := exists_memberOptions n.name o
    refine ⟨scopes, ?_⟩
    rw [writtenFor_traced, hscopes, RenderOptions.admits, hrange]
    simp only [hc, Option.elim_some, hbelow (o.nested scopes) hrange hmode hlists]
    cases n.isRoot || range.all fun range => range.overlaps n.span <;> rfl
  | inNamespace i place ih =>
    intro n h
    obtain ⟨k, hk, h⟩ := Option.bind_eq_some_iff.mp h
    obtain ⟨wanted, hbelow⟩ := ih k h
    refine ⟨(n.isRoot || range.all fun range => range.overlaps n.span) && wanted, ?_⟩
    intro o hrange hmode hlists
    obtain ⟨outer, hscopes⟩ := exists_memberOptions n.name o
    obtain ⟨inner, hwritten⟩ := hbelow (o.nested outer) hrange hmode hlists
    have hnested : (o.nested outer).nested inner = o.nested (outer ++ inner) := by
      simp only [RenderOptions.nested, List.append_assoc]
    refine ⟨outer ++ inner, ?_⟩
    rw [writtenFor_traced, hscopes, RenderOptions.admits, hrange]
    simp only [hk, Option.elim_some, hwritten, hnested]
    cases n.isRoot || range.all fun range => range.overlaps n.span <;> rfl
  | constructor i | destructor =>
    intro n h
    cases h

/-- The lines of a tree as declarations and as definitions, traced to its members. A member is in
neither, or it has one declaration and, unless that is pure, defaulted or deleted, one definition. -/
theorem declaration_iff_definition (n : Namespace) {declared defined : RenderOptions}
    (hmodes : declared.mode.definitions? = some defined.mode)
    (hrange : declared.range = defined.range) {place : MemberPlace} {chain : ClassChain} {m : Member}
    (hm : n.member? place = some (chain, m)) :
    (n.traced declared).lines = n.render declared ∧ (n.traced defined).lines = n.render defined ∧
      (((n.traced declared).writtenFor place = [] ∧ (n.traced defined).writtenFor place = []) ∨
        ∃ t, (n.traced declared).writtenFor place = [[t]] ∧
          m.IsDeclaration chain declared.mode t ∧
          if hasNoBody t then (n.traced defined).writtenFor place = []
          else ∃ scopes, (n.traced defined).writtenFor place =
            [(definitionLines (m.heading (defined.nested scopes) chain) m.body).texts]) := by
  refine ⟨n.lines_traced declared, n.lines_traced defined, ?_⟩
  have hlists : declared.mode.listsMembers = true ∧ defined.mode.listsMembers = true ∧
      defined.mode.isSource = true := by
    rcases Mode.eq_of_definitions hmodes with ⟨hd, hs⟩ | ⟨hd, hs⟩ <;> rw [hd, hs] <;> decide
  obtain ⟨wanted, hwritten⟩ := n.exists_writtenFor defined.range defined.mode.isImplementation
    place hm
  obtain ⟨outer, hdeclared⟩ := hwritten declared hrange
    (Mode.isImplementation_of_definitions hmodes) hlists.1
  obtain ⟨scopes, hdefined⟩ := hwritten defined rfl rfl hlists.2.1
  rw [hdeclared, hdefined]
  cases wanted with
  | false => exact .inl ⟨rfl, rfl⟩
  | true =>
    cases hadmits : defined.admits m.span with
    | false =>
      have hadmits' : declared.admits m.span = false := by
        rw [RenderOptions.admits, hrange]
        exact hadmits
      rw [Member.render_of_not_admits (o := declared.nested outer) hadmits' chain,
        Member.render_of_not_admits (o := defined.nested scopes) hadmits chain]
      exact .inl ⟨rfl, rfl⟩
    | true =>
      have hadmits' : declared.admits m.span = true := by
        rw [RenderOptions.admits, hrange]
        exact hadmits
      rw [Member.render_of_isSource (o := defined.nested scopes) hlists.2.2 hadmits chain]
      have hpaired : Member.Paired chain (declared.nested outer) defined.mode m :=
        @Member.paired (declared.nested outer) _ hmodes _ hadmits' chain
      obtain ⟨hempty, hdef⟩ | ⟨t, hline, hdeclares, hdef⟩ := hpaired
      · change m.hasDefinition chain (defined.nested scopes).mode = false at hdef
        rw [hempty, hdef]
        exact .inl ⟨rfl, rfl⟩
      · change m.hasDefinition chain (defined.nested scopes).mode = _ at hdef
        rw [hline, hdef]
        refine .inr ⟨t, rfl, hdeclares, ?_⟩
        cases hasNoBody t with
        | false => exact ⟨scopes, rfl⟩
        | true => rfl

/-- A private destructor of an interface is declared in the public section of the class that
implements the interface, and has its definition in the source of that class. -/
theorem declaration_iff_definition_destructor :
    ∃ root chain m,
      readHeader ("class I{~I();virtual int f()=0;};" : String) = .ok root ∧
      root.member? (.inClass 0 .destructor) = some (chain, m) ∧
      (root.traced (.ofMode .implHeader)).writtenFor (.inClass 0 .destructor) =
        ([["~IImpl() override;"]] : List (List Text)) ∧
      ∃ scopes, (root.traced (.ofMode .implSource)).writtenFor (.inClass 0 .destructor) =
        [(definitionLines (m.heading ((RenderOptions.ofMode .implSource).nested scopes) chain)
          m.body).texts] := by
  obtain ⟨root, hread, hroot⟩ := Reader.exists_read
    (x := readHeader ("class I{~I();virtual int f()=0;};" : String))
    (p := fun root => (root.member? (.inClass 0 .destructor)).isSome &&
      (root.traced (.ofMode .implHeader)).writtenFor (.inClass 0 .destructor) ==
        ([["~IImpl() override;"]] : List (List Text))) (by decide +kernel)
  rw [Bool.and_eq_true, beq_iff_eq] at hroot
  obtain ⟨⟨chain, m⟩, hm⟩ := Option.isSome_iff_exists.mp hroot.1
  have hmodes : (RenderOptions.ofMode .implHeader).mode.definitions? =
      some (RenderOptions.ofMode .implSource).mode := rfl
  obtain ⟨-, -, hneither | ⟨t, ht, -, hdefined⟩⟩ :=
    declaration_iff_definition root hmodes rfl hm
  · rw [hneither.1] at hroot
    cases hroot.2
  · obtain rfl : t = "~IImpl() override;" := by
      rw [hroot.2] at ht
      simpa using ht.symm
    exact ⟨root, chain, m, hread, hm, hroot.2, hdefined⟩

end HeaderSync

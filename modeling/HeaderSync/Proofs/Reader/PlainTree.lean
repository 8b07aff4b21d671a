import HeaderSync.Proofs.Reader.WrittenLines
import HeaderSync.Proofs.Tree.Selection
import Mathlib.Data.List.Infix

/-!
# Plain trees

The definitions that a header calls for are read back from a source if they are plain: words for
names, no conversions and operators, and no brackets, literals and comments in types and parameters.

* `Definition.IsPlain` : the definition is told by its heading;
* `Definition.IsPlain.isReadable` : it can be read back;
* `Namespace.blocksNamed` : the namespaces can be written as blocks;
* `WritesDefinitions`, `Namespace.writes_render` : what is written for a tree is a list of items
  with its definitions.
-/

namespace HeaderSync

open Text Signature Shapes Reader SourceMerge

/-! ## Plain definitions -/

def FunctionKind.isConversion : FunctionKind → Bool
  | castOperator _ => true
  | _ => false

instance (t : Text) : Decidable (IsTypeText t) :=
  decidable_of_iff (t.head?.any CharSet.identifierStart.contains = true ∧
      t.all (CharSet.word ∪ CharSet.oneOf ":<>,\t *&").contains = true ∧
      t.getLast?.all (!isBlank ·) = true)
    ⟨fun h => ⟨h.1, h.2.1, h.2.2⟩, fun h => ⟨h.head, h.chars, h.last⟩⟩

instance (name : Text) : Decidable (IsNamespaceName name) :=
  decidable_of_iff (name.head?.any CharSet.identifierStart.contains = true ∧
      name.all (CharSet.word ∪ CharSet.single ':').contains = true ∧ name ≠ "namespace" ∧
      ¬ (":namespace" : Text) <:+ name)
    ⟨fun h => ⟨h.1, h.2.1, h.2.2.1, h.2.2.2⟩,
      fun h => ⟨h.head, h.chars, h.ne_keyword, h.not_suffix⟩⟩

/-- A function that is told from the other kinds of definitions when its name is written with the
qualifiers `scopes`: it has a return type and is not called like the last of them. -/
structure Function.IsPlain (scopes : List Text) (f : Function) : Prop where
  name : IsWord f.name
  ne_scope : scopes.getLast? ≠ some f.name
  type : IsTypeText f.returnType
  no_conversion : f.kind.isConversion = false
  no_operator : ¬ operatorWord <:+: f.returnType ++ ' ' :: joinScopes scopes f.name
  signature : plausibleSignature definitionForbidden f.returnType (joinScopes scopes f.name) = true

instance (scopes : List Text) (f : Function) : Decidable (f.IsPlain scopes) :=
  decidable_of_iff (IsWord f.name ∧ scopes.getLast? ≠ some f.name ∧ IsTypeText f.returnType ∧
      f.kind.isConversion = false ∧
      ¬ operatorWord <:+: f.returnType ++ ' ' :: joinScopes scopes f.name ∧
      plausibleSignature definitionForbidden f.returnType (joinScopes scopes f.name) = true)
    ⟨fun h => ⟨h.1, h.2.1, h.2.2.1, h.2.2.2.1, h.2.2.2.2.1, h.2.2.2.2.2⟩,
      fun h => ⟨h.name, h.ne_scope, h.type, h.no_conversion, h.no_operator, h.signature⟩⟩

/-- A member that is told from the other kinds when its name is written with the qualifiers
`scopes`. -/
def Member.IsPlain (mode : Mode) (chain : ClassChain) (scopes : List Text) : Member → Prop
  | function f => f.IsPlain scopes
  | constructor _ | destructor _ => IsWord (chain.ownName mode)

instance (mode : Mode) (chain : ClassChain) (scopes : List Text) :
    (m : Member) → Decidable (m.IsPlain mode chain scopes)
  | .function f => inferInstanceAs (Decidable (f.IsPlain scopes))
  | .constructor _ | .destructor _ => inferInstanceAs (Decidable (IsWord (chain.ownName mode)))

namespace Definition

/-- The qualifiers with which the name is written. -/
def writtenScopes (style : NamespaceStyle) (mode : Mode) (d : Definition) : List Text :=
  SourceMerge.writtenScopes style d.namespaces ++ d.member.scopes d.chain mode

/-- The definition is told by its heading when it is written in the style: its qualifiers are words,
and there are no brackets, literals and comments among its parameters. -/
structure IsPlain (style : NamespaceStyle) (mode : Mode) (d : Definition) : Prop where
  scopes : ∀ s ∈ d.writtenScopes style mode, IsWord s
  args : IsClear (stripDefaults d.args)
  trimmed : trim (stripDefaults d.args) = stripDefaults d.args
  member : d.member.IsPlain mode d.chain (d.writtenScopes style mode)

instance (style : NamespaceStyle) (mode : Mode) (d : Definition) :
    Decidable (d.IsPlain style mode) :=
  decidable_of_iff ((∀ s ∈ d.writtenScopes style mode, IsWord s) ∧ IsClear (stripDefaults d.args) ∧
      trim (stripDefaults d.args) = stripDefaults d.args ∧
      d.member.IsPlain mode d.chain (d.writtenScopes style mode))
    ⟨fun h => ⟨h.1, h.2.1, h.2.2.1, h.2.2.2⟩, fun h => ⟨h.scopes, h.args, h.trimmed, h.member⟩⟩

end Definition

/-! ## Their headings -/

theorem isClear_of_isNameChar {t : Text} (h : ∀ c ∈ t, IsNameChar c) : IsClear t :=
  ⟨isFlat_of_isNameChar h, isUnmarked_of_isNameChar h⟩

theorem IsTypeText.isClear {t : Text} (h : IsTypeText t) : IsClear t := by
  have hbad : ∀ c ∈ brackets ++ marks,
      (CharSet.word ∪ CharSet.oneOf ":<>,\t *&").contains c = false := by decide
  have hnot : ∀ c ∈ t, c ∉ brackets ++ marks := by
    intro c hc hmem
    have hin := List.all_eq_true.mp h.chars c hc
    rw [hbad c hmem] at hin
    cases hin
  exact ⟨fun c hc hmem => hnot c hc (List.mem_append_left _ hmem),
    fun c hc hmem => hnot c hc (List.mem_append_right _ hmem)⟩

theorem IsWord.endsInWord_append {w : Text} (h : IsWord w) (t : Text) :
    (t ++ w).endsInWord = true := by
  obtain ⟨init, last, rfl⟩ := (List.eq_nil_or_concat w).resolve_left h.1
  rw [List.concat_eq_append, ← List.append_assoc, endsInWord, List.getLast?_concat]
  exact h.2 last (by simp)

/-- A definition whose parts are clear is plain. -/
theorem Written.isPlain_of_isClear {w : Written} (hfront : IsClear w.front)
    (hends : w.front.endsInWord = true) (hargs : IsClear w.args) (hbody : IsClear w.body) :
    w.IsPlain where
  front := hfront.1
  endsInWord := hends
  args := hargs.1
  body := hbody.1
  unmarked := by
    have hopen : IsUnmarked ['('] := by decide
    have hclose : IsUnmarked [')'] := by decide
    have hbrace : IsUnmarked ['\x7b'] := by decide
    have hlast : IsUnmarked ['\x7d'] := by decide
    have hending : IsUnmarked w.ending := by
      rw [ending]
      split <;> decide
    exact hfront.2.append (hopen.append (hargs.2.append (hclose.append (hending.append
      (hbrace.append (hbody.2.append hlast))))))

namespace Readable

variable {f : Function} {body : Text}

/-- The name of a function that is told by its heading. -/
theorem isClear_name (h : Readable f) : IsClear f.name ∧ ∀ t, (t ++ f.name).endsInWord = true := by
  cases h with
  | constructor ws v hws hv hname =>
    have hall : ∀ u ∈ ws ++ [v], IsWord u :=
      List.forall_mem_append.mpr ⟨hws, List.forall_mem_singleton.mpr hv⟩
    rw [hname]
    refine ⟨isClear_of_isNameChar (List.forall_mem_append.mpr
      ⟨isNameChar_scopesText hall, isNameChar_of_isWord hv⟩), fun t => ?_⟩
    rw [← List.append_assoc]
    exact hv.endsInWord_append _
  | destructor ws v hws hv hname =>
    have hall : ∀ u ∈ ws ++ [v], IsWord u :=
      List.forall_mem_append.mpr ⟨hws, List.forall_mem_singleton.mpr hv⟩
    rw [hname]
    refine ⟨isClear_of_isNameChar (List.forall_mem_append.mpr ⟨isNameChar_scopesText hall,
      List.forall_mem_cons.mpr ⟨.inr (.inr rfl), isNameChar_of_isWord hv⟩⟩), fun t => ?_⟩
    rw [List.append_cons, ← List.append_assoc]
    exact hv.endsInWord_append _
  | function ws n hws hn hname =>
    rw [hname]
    refine ⟨isClear_of_isNameChar (List.forall_mem_append.mpr
      ⟨isNameChar_scopesText hws, isNameChar_of_isWord hn⟩), fun t => ?_⟩
    rw [← List.append_assoc]
    exact hn.endsInWord_append _

theorem isClear_returnType (h : Readable f) : IsClear f.returnType := by
  cases h with
  | constructor ws v hws hv hname htype => rw [htype]; decide
  | destructor ws v hws hv hname htype => rw [htype]; decide
  | function ws n hws hn hname hlast htype => exact htype.isClear

/-- A function that is told by its heading can be read back if nothing else is in the way. -/
theorem isReadable (h : Readable f) (hargs : IsClear f.args) (htrim : trim f.args = f.args)
    (hbody : IsClear body) : IsReadable f body where
  heading := h
  plain := by
    obtain ⟨hname, hends⟩ := h.isClear_name
    refine Written.isPlain_of_isClear (IsClear.append ?_ hname) (hends _) hargs hbody
    have hspace : IsClear " " := by decide
    rw [onlyIf]
    split
    · exact h.isClear_returnType.append hspace
    · decide
  trimmed := htrim

end Readable

theorem ClassChain.exists_scopes {chain : ClassChain} {mode : Mode} (h : chain.ownName mode ≠ []) :
    ∃ outer, chain.scopes mode = outer ++ [chain.ownName mode] := by
  rcases List.eq_nil_or_concat chain with rfl | ⟨outer, names, rfl⟩
  · exact absurd rfl h
  · refine ⟨ClassChain.scopes outer mode, ?_⟩
    rw [List.concat_eq_append, Class.scopes_concat, Class.ownName_concat]

/-- The emitted function in terms of the member. -/
theorem SourceMerge.emittedFunction_eq {mode : Mode} {scopes : List Text} {d : Definition}
    (h : d.Declared mode) : emittedFunction mode scopes d =
      { name := joinScopes (scopes ++ d.member.scopes d.chain mode) (d.member.ownName d.chain mode)
        returnType := d.member.returnType
        args := stripDefaults d.member.args
        isConst := d.member.isConst
        kind := .standalone
        span := d.span } := by
  have hfields := h.eq_ofMember
  have htype : d.returnType = d.member.returnType := congrArg Definition.returnType hfields
  have hargs : d.args = d.member.args := congrArg Definition.args hfields
  have hconst : d.isConst = d.member.isConst := congrArg Definition.isConst hfields
  rw [emittedFunction, htype, hargs, hconst]

namespace Definition.IsPlain

variable {style : NamespaceStyle} {mode : Mode} {d : Definition}

/-- The class that owns a constructor or a destructor is the last of the qualifiers. -/
theorem exists_owner (h : d.IsPlain style mode) (hword : IsWord (d.chain.ownName mode))
    (hscopes : d.member.scopes d.chain mode = d.chain.scopes mode) :
    ∃ ws, d.writtenScopes style mode = ws ++ [d.chain.ownName mode] ∧ ∀ s ∈ ws, IsWord s := by
  obtain ⟨outer, houter⟩ := ClassChain.exists_scopes hword.1
  have hwritten : d.writtenScopes style mode =
      SourceMerge.writtenScopes style d.namespaces ++ outer ++ [d.chain.ownName mode] := by
    rw [Definition.writtenScopes, hscopes, houter, List.append_assoc]
  exact ⟨_, hwritten, fun s hs => h.scopes s (by rw [hwritten]; exact List.mem_append_left _ hs)⟩

/-- The heading of a plain definition tells what it is. -/
theorem readable (h : d.IsPlain style mode) (hd : d.Declared mode) :
    Readable (emittedFunction mode (SourceMerge.writtenScopes style d.namespaces) d) := by
  rw [emittedFunction_eq hd]
  change Readable ⟨joinScopes (d.writtenScopes style mode) _, _, _, _, _, _⟩
  rw [joinScopes_eq]
  have hmember := h.member
  cases hm : d.member with
  | function f =>
    rw [hm] at hmember
    obtain ⟨hname, hscope, htype, -, hoperator, hsignature⟩ := hmember
    rw [joinScopes_eq] at hoperator hsignature
    exact .function _ f.name h.scopes hname rfl hscope htype hoperator hsignature
  | constructor c =>
    rw [hm] at hmember
    obtain ⟨ws, hwritten, hws⟩ := h.exists_owner hmember (by rw [hm]; rfl)
    rw [hwritten]
    exact .constructor ws (d.chain.ownName mode) hws hmember rfl rfl rfl
  | destructor c =>
    rw [hm] at hmember
    obtain ⟨ws, hwritten, hws⟩ := h.exists_owner hmember (by rw [hm]; rfl)
    rw [hwritten]
    have hargs : stripDefaults [] = [] := by decide
    exact .destructor ws (d.chain.ownName mode) hws hmember rfl rfl hargs rfl

/-- What is written between the braces of a plain definition. -/
theorem isClear_body (h : d.IsPlain style mode) {indent : Text} (hindent : allBlank indent = true) :
    IsClear (bodyText indent d.member.body) := by
  refine isClear_bodyText hindent ?_
  have hmember := h.member
  cases hm : d.member with
  | function f =>
    rw [hm] at hmember
    refine isClear_stub (fun v hkind => ?_) hmember.type.isClear
    have hconversion := hmember.no_conversion
    rw [hkind] at hconversion
    cases hconversion
  | constructor c => exact List.forall_mem_nil _
  | destructor c => exact List.forall_mem_nil _

/-- A plain definition can be read back from what is written for it. -/
theorem isReadable (h : d.IsPlain style mode) (hd : d.Declared mode) {indent : Text}
    (hindent : allBlank indent = true) :
    IsReadable (emittedFunction mode (SourceMerge.writtenScopes style d.namespaces) d)
      (bodyText indent d.member.body) :=
  (h.readable hd).isReadable h.args h.trimmed (h.isClear_body hindent)

end Definition.IsPlain

/-! ## Trees -/

/-- The function that is written for a definition, and the namespaces around it. -/
def Definition.written (style : NamespaceStyle) (mode : Mode) (d : Definition) :
    List Text × Function :=
  (writtenNamespaces style [] d.namespaces,
    emittedFunction mode (SourceMerge.writtenScopes style d.namespaces) d)

namespace Namespace

mutual

/-- The namespaces of the tree can be written as blocks, those without a name apart. -/
def blocksNamed : Namespace → Bool
  | ⟨name, _, _, _, _, nested, _⟩ =>
    (name.isEmpty || decide (IsNamespaceName name)) && blocksNamedAll nested
termination_by structural n => n

def blocksNamedAll : List Namespace → Bool
  | [] => true
  | n :: rest => n.blocksNamed && blocksNamedAll rest
termination_by structural ns => ns

end

theorem blocksNamedAll_eq_all (nested : List Namespace) :
    blocksNamedAll nested = nested.all blocksNamed := by
  induction nested with
  | nil => rfl
  | cons n rest ih => rw [blocksNamedAll, ih, List.all_cons]

theorem blocksNamed_iff {n : Namespace} : n.blocksNamed = true ↔
    (n.isRoot = true ∨ IsNamespaceName n.name) ∧ ∀ m ∈ n.nested, m.blocksNamed = true := by
  cases n
  rw [blocksNamed, blocksNamedAll_eq_all, Bool.and_eq_true, Bool.or_eq_true, decide_eq_true_eq,
    List.all_eq_true]
  rfl

end Namespace

/-- The options for what stands in the namespaces `path`. -/
def RenderOptions.within (o : RenderOptions) (path : List Text) : RenderOptions :=
  o.nested (SourceMerge.writtenScopes o.style path)

/-- The lines in the namespaces `path` are a list of items, which are written for the definitions. -/
def WritesDefinitions (o : RenderOptions) (path : List Text) (l : Lines) (ds : List Definition) :
    Prop :=
  Writes o.indent (writtenNamespaces o.style [] path) l (ds.map (Definition.written o.style o.mode))

section Tree

variable {o : RenderOptions} (hmode : o.mode.isSource = true) (hrange : o.range = none)
  (hscopes : o.nameScopes = []) (hindent : allBlank o.indent = true)

include hmode hrange hscopes hindent in
/-- A plain definition is an item of the source. -/
theorem Definition.IsPlain.writes {d : Definition} (h : d.IsPlain o.style o.mode)
    (hd : d.Declared o.mode) :
    WritesDefinitions o d.namespaces (d.render (o.within d.namespaces)) [d] := by
  have hrender := render_eq_definition (o := o.within d.namespaces) hd hmode hrange
  have hnested : (o.within d.namespaces).nameScopes =
      SourceMerge.writtenScopes o.style d.namespaces := by
    rw [RenderOptions.within, RenderOptions.nested, hscopes, List.nil_append]
  rw [hrender, hnested]
  exact .definition (h.isReadable hd hindent)

namespace Namespace

include hmode in
/-- The options for the members of a namespace, in either style. -/
theorem memberOptions_within (n : Namespace) (path : List Text) :
    memberOptions n.name (o.within path) = o.within (path ++ n.segments) := by
  rw [RenderOptions.within, RenderOptions.within]
  cases hstyle : o.style with
  | qualified => exact memberOptions_nested hmode hstyle n path
  | blocks =>
    rw [memberOptions, if_neg (by simp [qualifies, RenderOptions.nested, hstyle])]
    rfl

include hmode hrange hscopes hindent in
/-- The members of a namespace are written as its own definitions and what is written for the nested
namespaces. -/
theorem writes_members {n : Namespace} {path : List Text}
    (hown : ∀ d ∈ n.ownDefinitions path (some o.mode), d.Declared o.mode ∧ d.IsPlain o.style o.mode)
    (hnested : ∀ m ∈ n.nested, WritesDefinitions o path (m.render (o.within path))
      (m.definitionsFrom path (some o.mode))) :
    WritesDefinitions o path (n.members (o.within path) (n.nested.map (·.render (o.within path))))
      (n.ownDefinitions path (some o.mode) ++
        n.nested.flatMap (·.definitionsFrom path (some o.mode))) := by
  have hdefinitions : ∀ d ∈ n.writtenDefinitions path o.mode,
      WritesDefinitions o path (d.render (o.within path)) [d] := by
    intro d hd
    obtain ⟨hdeclared, hplain⟩ := hown d ((n.mem_ownDefinitions path _ d).mpr hd)
    rw [← (madeIn_of_mem_writtenDefinitions hd).1.namespaces_eq]
    exact hplain.writes hmode hrange hscopes hindent hdeclared
  rw [members_eq (o := o.within path) hmode n (.inl hrange) path]
  refine ((Writes.separated hdefinitions).appendBlock (Writes.separated hnested)).congr fun d => ?_
  change d ∈ List.flatMap (fun e => [Definition.written o.style o.mode e]) _ ++ _ ↔ _
  rw [← List.map_eq_flatMap, List.map_append, List.map_flatMap, List.mem_append, List.mem_append,
    List.mem_map, List.mem_map]
  simp only [mem_ownDefinitions]

include hmode hrange hscopes hindent in
/-- What is written for a tree is a list of items with the definitions that it calls for. -/
theorem writes_render (n : Namespace) : ∀ path : List Text,
    (∀ d ∈ n.definitionsFrom path (some o.mode), d.Declared o.mode ∧ d.IsPlain o.style o.mode) →
    (o.style = .blocks → n.blocksNamed = true) →
    WritesDefinitions o path (n.render (o.within path)) (n.definitionsFrom path (some o.mode)) := by
  induction n using Namespace.induction with
  | step n ih =>
    intro path hplain hblocks
    rw [definitionsFrom_eq] at hplain ⊢
    have hnested : ∀ m ∈ n.nested, WritesDefinitions o (path ++ n.segments)
        (m.render (o.within (path ++ n.segments)))
        (m.definitionsFrom (path ++ n.segments) (some o.mode)) := by
      intro m hm
      refine ih m hm _ (fun d hd => hplain d ?_) fun hstyle => ?_
      · exact List.mem_append_right _ (List.mem_flatMap.mpr ⟨m, hm, hd⟩)
      · exact (blocksNamed_iff.1 (hblocks hstyle)).2 m hm
    have hmembers := writes_members hmode hrange hscopes hindent
      (fun d hd => hplain d (List.mem_append_left _ hd)) hnested
    rw [render_eq, memberOptions_within hmode]
    dsimp only
    split
    · rename_i hroot
      rwa [segments_of_isRoot hroot, List.append_nil] at hmembers ⊢
    · rename_i hroot
      have hadmits : (o.within path).admits n.span = true :=
        RenderOptions.admits_of_range_none _ hrange n.span
      rw [hadmits, Bool.not_true, if_neg Bool.false_ne_true]
      unfold WritesDefinitions at hmembers ⊢
      cases hstyle : o.style with
      | qualified =>
        have hqualifies : qualifies (o.within path) = true := by
          simp [qualifies, RenderOptions.within, RenderOptions.nested, hmode, hstyle]
        rw [if_pos hqualifies]
        rwa [hstyle] at hmembers
      | blocks =>
        have hqualifies : ¬ qualifies (o.within path) = true := by
          simp [qualifies, RenderOptions.within, RenderOptions.nested, hstyle]
        have hname := (blocksNamed_iff.1 (hblocks hstyle)).1.resolve_left hroot
        rw [if_neg hqualifies]
        rw [hstyle] at hmembers
        exact Writes.wrapInNamespace hname hmembers

end Namespace

end Tree

end HeaderSync

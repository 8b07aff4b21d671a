import HeaderSync.Proofs.Signature.Braces

/-!
# Balanced braces in written trees

Every piece of code that opens a brace in a line also closes it in a later one, and what it writes in
between is balanced. So a tree is written with balanced braces if its names, its types and its
arguments have none.

* `Lines.Balanced` : the braces of lines, whatever their indentation, are balanced;
* `Lines.Balanced.separated`, `Lines.Balanced.enclose` : blocks, and lines in a pair of braces;
* `Class.texts`, `Namespace.texts` : all texts of a tree;
* `Member.balanced_render`, `Class.balanced_render`, `Namespace.balanced_render`.
-/

namespace HeaderSync

open Text Signature

/-! ## Lines -/

namespace Lines

/-- The braces of the lines. -/
def braces (l : Lines) : Text :=
  l.items.flatMap fun item => Text.braces item.2

/-- As many braces are closed as are opened, and none before it is opened. -/
def Balanced (l : Lines) : Prop :=
  BraceBalanced l.braces

variable {a b : Lines}

theorem braces_append (a b : Lines) : (a ++ b).braces = a.braces ++ b.braces :=
  List.flatMap_append

theorem braces_nest (level : Nat) (l : Lines) : (l.nest level).braces = l.braces :=
  List.flatMap_map ..

theorem braces_line (t : Text) : (line t).braces = Text.braces t :=
  List.flatMap_singleton ..

/-- Indentation and line feeds add no braces. -/
theorem braces_render {indent : Text} (hindent : NoBraces indent) (l : Lines) :
    Text.braces (l.render indent) = l.braces := by
  have hitem : ∀ item, Text.braces (renderItem indent item) = Text.braces item.2 := by
    rintro ⟨level, t⟩
    have hlevel : NoBraces (List.replicate level indent).flatten := by
      intro c hc
      obtain ⟨part, hpart, hc⟩ := List.mem_flatten.mp hc
      exact hindent c (List.eq_of_mem_replicate hpart ▸ hc)
    rw [renderItem]
    split
    · rename_i hempty
      rw [List.isEmpty_iff.mp hempty]
    · rw [Text.braces_append, hlevel.braces_eq, List.nil_append]
  have hglue : NoBraces "\n" := by decide
  rw [render, braces_joinWith hglue, List.flatMap_map, braces]
  simp only [hitem]

theorem balanced_empty : Balanced empty :=
  braceBalanced_nil

theorem balanced_line {t : Text} (h : NoBraces t) : (line t).Balanced := by
  rw [Balanced, braces_line, h.braces_eq]
  exact braceBalanced_nil

namespace Balanced

theorem append (ha : a.Balanced) (hb : b.Balanced) : (a ++ b).Balanced := by
  rw [Balanced, braces_append]
  exact BraceBalanced.append ha hb

theorem nest (level : Nat) (ha : a.Balanced) : (a.nest level).Balanced := by
  rw [Balanced, braces_nest]
  exact ha

theorem concat {blocks : List Lines} (h : ∀ b ∈ blocks, b.Balanced) : (concat blocks).Balanced := by
  induction blocks with
  | nil => exact balanced_empty
  | cons b blocks ih =>
    obtain ⟨hb, hblocks⟩ := List.forall_mem_cons.mp h
    exact hb.append (ih hblocks)

theorem appendBlock (ha : a.Balanced) (hb : b.Balanced) : (a.appendBlock b).Balanced := by
  rw [Lines.appendBlock]
  split
  · exact ha
  · split
    · exact hb
    · exact (ha.append (balanced_line (List.forall_mem_nil _))).append hb

theorem separated {blocks : List Lines} (h : ∀ b ∈ blocks, b.Balanced) :
    (separated blocks).Balanced :=
  List.foldlRecOn (motive := Balanced) blocks _ balanced_empty fun _ ha b hb => ha.appendBlock (h b hb)

/-- Balanced lines between one that ends in an opening brace and one that starts with the closing
brace. -/
theorem enclose {before after : Text} (hbefore : NoBraces before) (hafter : NoBraces after)
    (ha : a.Balanced) : (line (before ++ " \x7b") ++ a ++ line ('\x7d' :: after)).Balanced := by
  have hopen : Text.braces (before ++ " \x7b") = ['\x7b'] := by
    rw [Text.braces_append, hbefore.braces_eq]
    decide
  have hclose : Text.braces ('\x7d' :: after) = ['\x7d'] := by
    rw [← List.singleton_append, Text.braces_append, hafter.braces_eq]
    decide
  rw [Balanced, braces_append, braces_append, braces_line, braces_line, hopen, hclose]
  exact BraceBalanced.enclose ha

/-- The text of balanced lines is balanced. -/
theorem render {indent : Text} (ha : a.Balanced) (hindent : NoBraces indent) :
    BraceBalanced (a.render indent) :=
  braceBalanced_braces.1 (braces_render hindent a ▸ ha)

end Balanced

end Lines

open Lines

theorem balanced_definitionLines {heading : Text} {body : Lines} (hheading : NoBraces heading)
    (hbody : body.Balanced) : (definitionLines heading body).Balanced :=
  (hbody.nest 1).enclose hheading (List.forall_mem_nil _)

theorem balanced_wrapInNamespace {name : Text} {members : Lines} (hname : NoBraces name)
    (hmembers : members.Balanced) : (wrapInNamespace name members).Balanced := by
  have hheading : NoBraces ("namespace " ++ name) := NoBraces.append (by decide) hname
  have hblank : blank.Balanced := balanced_line (List.forall_mem_nil _)
  have hinner : (blank ++ members ++ blank).Balanced :=
    (hblank.append hmembers).append hblank
  rw [wrapInNamespace]
  split
  · exact hmembers
  · rw [Lines.append_assoc _ blank members, Lines.append_assoc _ (blank ++ members) blank]
    exact hinner.enclose hheading (List.forall_mem_nil _)

/-! ## Texts of a tree -/

/-- The names that the class has in its file and in the modes. -/
def ClassNames.texts (names : ClassNames) : List Text :=
  names.declared :: Mode.all.map names.resolvedName

/-- The names of all classes of the chain. -/
def ClassChain.texts (chain : ClassChain) : List Text :=
  chain.flatMap ClassNames.texts

def Function.texts (f : Function) : List Text :=
  [f.name, f.returnType, f.args]

def Member.texts : Member → List Text
  | function f => f.texts
  | constructor c => [c.args]
  | destructor _ => []

namespace Class

mutual

/-- The names, bases, return types and arguments of the class and of those nested in it. -/
def texts : Class → List Text
  | ⟨names, _, bases, _, _, constructors, functions, nested⟩ =>
    names.texts ++ bases ++ constructors.map (·.2.args) ++ functions.flatMap (·.2.texts) ++
      textsAll nested
termination_by structural c => c

def textsAll : List (Access × Class) → List Text
  | [] => []
  | (_, c) :: rest => c.texts ++ textsAll rest
termination_by structural cs => cs

end

theorem textsAll_eq_flatMap (nested : List (Access × Class)) :
    textsAll nested = nested.flatMap (·.2.texts) := by
  induction nested with
  | nil => rfl
  | cons item rest ih => rw [textsAll, ih, List.flatMap_cons]

theorem forall_texts_iff {p : Text → Prop} {c : Class} : (∀ t ∈ c.texts, p t) ↔
    (∀ t ∈ c.names.texts, p t) ∧ (∀ t ∈ c.bases, p t) ∧ (∀ item ∈ c.constructors, p item.2.args) ∧
      (∀ item ∈ c.functions, ∀ t ∈ item.2.texts, p t) ∧
      ∀ item ∈ c.nested, ∀ t ∈ item.2.texts, p t := by
  cases c
  rw [texts, textsAll_eq_flatMap]
  simp only [List.forall_mem_append, List.forall_mem_map, List.forall_mem_flatMap, and_assoc]

end Class

namespace Namespace

mutual

/-- The name of the namespace, those of everything in it, and all bases, return types and
arguments. -/
def texts : Namespace → List Text
  | ⟨name, _, _, functions, classes, nested, _⟩ =>
    name :: (functions.flatMap Function.texts ++ classes.flatMap Class.texts ++ textsAll nested)
termination_by structural n => n

def textsAll : List Namespace → List Text
  | [] => []
  | n :: rest => n.texts ++ textsAll rest
termination_by structural ns => ns

end

theorem textsAll_eq_flatMap (nested : List Namespace) : textsAll nested = nested.flatMap texts := by
  induction nested with
  | nil => rfl
  | cons n rest ih => rw [textsAll, ih, List.flatMap_cons]

theorem forall_texts_iff {p : Text → Prop} {n : Namespace} : (∀ t ∈ n.texts, p t) ↔
    p n.name ∧ (∀ f ∈ n.functions, ∀ t ∈ f.texts, p t) ∧ (∀ c ∈ n.classes, ∀ t ∈ c.texts, p t) ∧
      ∀ m ∈ n.nested, ∀ t ∈ m.texts, p t := by
  cases n
  rw [texts, textsAll_eq_flatMap]
  simp only [List.forall_mem_cons, List.forall_mem_append, List.forall_mem_flatMap, and_assoc]

/-- The segments of a name without braces. -/
theorem noBraces_of_mem_segmentsOf {name segment : Text} (h : NoBraces name)
    (hsegment : segment ∈ segmentsOf name) : NoBraces segment := by
  obtain ⟨part, hpart, rfl⟩ := List.mem_map.mp (List.mem_filter.mp hsegment).1
  exact (h.of_mem_splitOn (by decide) hpart).trim

end Namespace

/-! ## Names of classes -/

namespace ClassNames

variable {names : ClassNames}

theorem noBraces_fallback (h : NoBraces names.declared) (mode : Mode) :
    NoBraces (names.fallback mode) := by
  have himplementation : NoBraces (defaultImplementationName names.declared) := by
    unfold defaultImplementationName
    split
    · rename_i next rest hdeclared
      split
      · exact fun c hc => h c (hdeclared ▸ List.mem_cons_of_mem _ hc)
      · exact h.append (by decide)
    · exact h.append (by decide)
  cases mode with
  | header | source => exact h
  | implHeader | implSource =>
    rw [fallback]
    split
    · exact himplementation
    · exact h
  | interfaceHeader => exact NoBraces.joinWith h (by decide)
  | factoryHeader => exact h.append (by decide)

/-- The name in a mode has no brace if those provided and the declared one have none. -/
theorem noBraces_name (h : ∀ t ∈ names.texts, NoBraces t) (mode : Mode) :
    NoBraces (names.name mode) := by
  obtain ⟨hdeclared, hmodes⟩ := List.forall_mem_cons.mp h
  have hresolved := List.forall_mem_map.mp hmodes mode (by cases mode <;> decide)
  rw [resolvedName] at hresolved
  rw [name]
  cases hprovided : names.provided? mode with
  | none => exact noBraces_fallback hdeclared mode
  | some t =>
    rw [hprovided] at hresolved
    exact hresolved

end ClassNames

namespace ClassChain

theorem forall_texts_concat {p : Text → Prop} {outer : ClassChain} {names : ClassNames}
    (houter : ∀ t ∈ outer.texts, p t) (hnames : ∀ t ∈ names.texts, p t) :
    ∀ t ∈ ClassChain.texts (outer ++ [names]), p t := by
  rw [texts, List.flatMap_append, List.flatMap_singleton]
  exact List.forall_mem_append.mpr ⟨houter, hnames⟩

variable {chain : ClassChain} (h : ∀ t ∈ chain.texts, NoBraces t)
include h

theorem noBraces_name {names : ClassNames} (hnames : names ∈ chain) (mode : Mode) :
    NoBraces (names.name mode) :=
  ClassNames.noBraces_name (List.forall_mem_flatMap.mp h names hnames) mode

theorem noBraces_of_mem_scopes (mode : Mode) : ∀ t ∈ chain.scopes mode, NoBraces t :=
  List.forall_mem_map.mpr fun _ hnames => noBraces_name h hnames mode

theorem noBraces_scopedName (mode : Mode) : NoBraces (chain.scopedName mode) :=
  NoBraces.joinWith (by decide) (noBraces_of_mem_scopes h mode)

theorem noBraces_ownName (mode : Mode) : NoBraces (chain.ownName mode) := by
  rw [ownName]
  cases hlast : chain.getLast? with
  | none => exact List.forall_mem_nil _
  | some names => exact noBraces_name h (List.mem_of_getLast? hlast) mode

end ClassChain

theorem noBraces_qualifiedName {o : RenderOptions} {classes : List Text} {name : Text}
    (hscopes : ∀ t ∈ o.nameScopes, NoBraces t) (hclasses : ∀ t ∈ classes, NoBraces t)
    (hname : NoBraces name) : NoBraces (qualifiedName o classes name) := by
  refine NoBraces.joinWith (by decide) (List.forall_mem_append.mpr ⟨?_, ?_⟩)
  · exact List.forall_mem_append.mpr ⟨hscopes, hclasses⟩
  · exact List.forall_mem_singleton.mpr hname

/-! ## Members -/

/-- What stands around the signature of a declaration has no brace. -/
theorem FunctionKind.noBraces_form {kind : FunctionKind} {mode : Mode} {before after : Text}
    (h : kind.form mode = .declaration before after) : NoBraces before ∧ NoBraces after := by
  have hvirtuality : ∀ virtuality, Form.ofVirtuality virtuality mode = .declaration before after →
      NoBraces before ∧ NoBraces after := by
    intro virtuality h
    cases virtuality <;> cases mode <;> cases h <;> decide
  have hspecifier : ∀ specifier, NoBraces specifier →
      Form.ofSpecifier specifier mode = .declaration before after →
        NoBraces before ∧ NoBraces after := by
    intro specifier hspecifier h
    cases mode <;> cases h
    exact ⟨hspecifier, List.forall_mem_nil _⟩
  cases kind with
  | member virtuality | castOperator virtuality => exact hvirtuality virtuality h
  | static => exact hspecifier _ (by decide) h
  | friend => exact hspecifier _ (by decide) h
  | allocator | standalone => exact hspecifier [] (List.forall_mem_nil _) h

theorem Defaulted.noBraces_ending (defaulted : Option Defaulted) : NoBraces (ending defaulted) := by
  rcases defaulted with _ | _ | _ <;> decide

namespace Function

variable {f : Function} (h : ∀ t ∈ f.texts, NoBraces t)
include h

theorem noBraces_signature {name args : Text} (hname : NoBraces name) (hargs : NoBraces args) :
    NoBraces (f.signature name args) := by
  have htype : NoBraces (f.returnType ++ " ") :=
    NoBraces.append (h _ (by simp [texts])) (by decide)
  have hcall : NoBraces (Text.onlyIf (!f.returnType.isEmpty) (f.returnType ++ " ") ++ name ++ "(") :=
    ((htype.onlyIf _).append hname).append (by decide)
  exact ((hcall.append hargs).append (by decide)).append (NoBraces.onlyIf _ (by decide))

theorem noBraces_of_returnedType? {t : Text} (ht : f.returnedType? = some t) : NoBraces t := by
  have hname : NoBraces f.name := h _ (by simp [texts])
  have htype : NoBraces f.returnType := h _ (by simp [texts])
  have hkept := (Option.mem_filter_iff.mp ht).1
  split at hkept
  · exact hname.splitQualified.dropLead? hkept
  · exact Option.some.inj hkept ▸ htype.normalizeReturnType

theorem balanced_stub : f.stub.Balanced := by
  rw [stub]
  cases hreturned : f.returnedType? with
  | none => exact balanced_empty
  | some t =>
    have ht := noBraces_of_returnedType? h hreturned
    refine Balanced.append (balanced_line (NoBraces.append ?_ (by decide)))
      (balanced_line (by decide))
    cases htail : dropTail? " &" t with
    | none => exact ht
    | some referenced => exact NoBraces.append (by decide) (ht.dropTail? htail)

end Function

section Render

variable {chain : ClassChain} {o : RenderOptions}
  (hchain : ∀ t ∈ chain.texts, NoBraces t)
  (hscopes : ∀ t ∈ o.nameScopes, NoBraces t)
include hchain hscopes

theorem Function.balanced_render {f : Function} (hf : ∀ t ∈ f.texts, NoBraces t) :
    (f.render chain o).Balanced := by
  have hname : NoBraces f.name := hf _ (by simp [texts])
  have hargs : NoBraces f.args := hf _ (by simp [texts])
  rw [render]
  split
  · exact balanced_empty
  · cases hform : f.kind.form o.mode with
    | skip => exact balanced_empty
    | declaration before after =>
      obtain ⟨hbefore, hafter⟩ := FunctionKind.noBraces_form hform
      have hsignature := hbefore.append (noBraces_signature hf hname hargs)
      exact balanced_line ((hsignature.append hafter).append (by decide))
    | definition =>
      have hclasses : ∀ t ∈ f.classScopes chain o.mode, NoBraces t := by
        rw [classScopes]
        split
        · exact List.forall_mem_nil _
        · exact ClassChain.noBraces_of_mem_scopes hchain o.mode
      have hqualified := noBraces_qualifiedName hscopes hclasses hname
      exact balanced_definitionLines (noBraces_signature hf hqualified hargs.stripDefaults)
        (balanced_stub hf)

theorem Constructor.balanced_render {c : Constructor} (hargs : NoBraces c.args) :
    (c.render chain o).Balanced := by
  have hname := ClassChain.noBraces_ownName hchain o.mode
  have hdeclaration : (c.declaration (chain.ownName o.mode)).Balanced := by
    have hcall : NoBraces (Text.onlyIf c.isExplicit "explicit " ++ chain.ownName o.mode ++ "(") :=
      ((NoBraces.onlyIf _ (by decide)).append hname).append (by decide)
    have hending := Defaulted.noBraces_ending c.defaulted
    exact balanced_line ((((hcall.append hargs).append (by decide)).append hending).append
      (by decide))
  have hdefinition : (definitionLines (qualifiedName o (chain.scopes o.mode)
      (chain.ownName o.mode) ++ "(" ++ stripDefaults c.args ++ ")") empty).Balanced := by
    have hqualified := noBraces_qualifiedName hscopes
      (ClassChain.noBraces_of_mem_scopes hchain o.mode) hname
    have hcall := (hqualified.append (t := "(") (by decide)).append hargs.stripDefaults
    exact balanced_definitionLines (hcall.append (by decide)) balanced_empty
  rw [render]
  split
  · exact balanced_empty
  · dsimp only
    split
    · exact hdeclaration
    · exact hdeclaration
    · split
      · exact hdefinition
      · exact balanced_empty
    · split
      · exact hdefinition
      · exact balanced_empty
    · exact balanced_empty
    · exact balanced_empty

theorem Destructor.balanced_render (d : Destructor) : (d.render chain o).Balanced := by
  have hname : NoBraces ("~" ++ chain.ownName o.mode) :=
    NoBraces.append (by decide) (ClassChain.noBraces_ownName hchain o.mode)
  have hdefinition : (definitionLines (qualifiedName o (chain.scopes o.mode)
      ("~" ++ chain.ownName o.mode) ++ "()") empty).Balanced := by
    have hqualified := noBraces_qualifiedName hscopes
      (ClassChain.noBraces_of_mem_scopes hchain o.mode) hname
    exact balanced_definitionLines (hqualified.append (by decide)) balanced_empty
  rw [render]
  split
  · exact balanced_empty
  · dsimp only
    split
    · have hending := Defaulted.noBraces_ending d.defaulted
      have hcall : NoBraces (Text.onlyIf d.isVirtual "virtual " ++ ("~" ++ chain.ownName o.mode) ++
          "()") := ((NoBraces.onlyIf _ (by decide)).append hname).append (by decide)
      exact balanced_line ((hcall.append hending).append (by decide))
    · exact balanced_line ((NoBraces.append (by decide) hname).append (by decide))
    · exact balanced_line ((NoBraces.append (by decide) hname).append (by decide))
    · split
      · exact balanced_line (hname.append (by decide))
      · exact balanced_empty
    · split
      · exact hdefinition
      · exact balanced_empty
    · split
      · exact hdefinition
      · exact balanced_empty

theorem Member.balanced_render {m : Member} (h : ∀ t ∈ m.texts, NoBraces t) :
    (m.render chain o).Balanced := by
  cases m with
  | function f => exact f.balanced_render hchain hscopes h
  | constructor c => exact c.balanced_render hchain hscopes (List.forall_mem_singleton.mp h)
  | destructor d => exact d.balanced_render hchain hscopes

/-! ## Classes -/

theorem Class.balanced_membersIn {c : Class} (h : ∀ t ∈ c.texts, NoBraces t)
    {nested : List (Access × Lines)} (hnested : ∀ item ∈ nested, item.2.Balanced) (access : Access)
    (destructor : Option Destructor) : (c.membersIn chain o nested access destructor).Balanced := by
  obtain ⟨-, -, hconstructors, hfunctions, -⟩ := forall_texts_iff.1 h
  have hblocks : ∀ b ∈ (itemsIn access c.constructors).map (·.render chain o) ++
      destructor.toList.map (·.render chain o) ++
        (itemsIn access c.functions).map (·.render chain o) ++ itemsIn access nested,
      b.Balanced := by
    simp only [List.mem_append, List.mem_map]
    rintro b (((⟨k, hk, rfl⟩ | ⟨d, -, rfl⟩) | ⟨f, hf, rfl⟩) | hb)
    · exact k.balanced_render hchain hscopes (hconstructors _ (mem_itemsIn.1 hk))
    · exact d.balanced_render hchain hscopes
    · exact f.balanced_render hchain hscopes (hfunctions _ (mem_itemsIn.1 hf))
    · exact hnested _ (mem_itemsIn.1 hb)
  rw [membersIn]
  split
  · exact Balanced.separated hblocks
  · exact Balanced.concat hblocks

end Render

namespace Class

theorem noBraces_label (access : Access) : NoBraces access.label := by
  cases access <;> decide

theorem balanced_labelled (access : Access) {members : Lines} (h : members.Balanced) :
    (labelled access members).Balanced := by
  rw [labelled]
  split
  · exact h
  · exact (balanced_line (noBraces_label access)).append (h.nest 1)

theorem balanced_wrap {heading : Text} {body : Lines} (hheading : NoBraces heading)
    (hbody : body.Balanced) : (wrap heading body).Balanced :=
  hbody.enclose hheading (List.forall_mem_singleton.mpr (by decide))

/-- In every mode a class is written with balanced braces if its nested classes are. -/
theorem balanced_renderWith {c : Class} {chain : ClassChain} {o : RenderOptions}
    (h : ∀ t ∈ c.texts, NoBraces t) (hchain : ∀ t ∈ chain.texts, NoBraces t)
    (hscopes : ∀ t ∈ o.nameScopes, NoBraces t) {nested : List (Access × Lines)}
    (hnested : ∀ item ∈ nested, item.2.Balanced) : (c.renderWith chain o nested).Balanced := by
  obtain ⟨hnames, hbases, -⟩ := forall_texts_iff.1 h
  have hname := ClassNames.noBraces_name hnames
  have hscoped := ClassChain.noBraces_scopedName hchain .header
  have hmembers := balanced_membersIn hchain hscopes h hnested
  have hsections : ∀ destructor : Access → Option Destructor,
      (Lines.concat (Access.all.map fun access => labelled access
        (c.membersIn chain o nested access (destructor access)))).Balanced := fun destructor =>
    Balanced.concat (List.forall_mem_map.mpr fun access _ =>
      balanced_labelled access (hmembers access (destructor access)))
  have hdefinitions : (Lines.separated (Access.all.map fun access =>
      c.membersIn chain o nested access (c.destructorIn access))).Balanced :=
    Balanced.separated (List.forall_mem_map.mpr fun access _ => hmembers access _)
  have hdestructor : ∀ mode, (Lines.line ("virtual ~" ++ c.names.name mode ++
      "() = default;")).Balanced := fun mode =>
    balanced_line ((NoBraces.append (by decide) (hname mode)).append (by decide))
  have hclass : ∀ mode, NoBraces ("class " ++ c.names.name mode) := fun mode =>
    NoBraces.append (by decide) (hname mode)
  have hpublic := balanced_line (noBraces_label .pub)
  rw [renderWith]
  split
  · exact balanced_empty
  · split
    · -- the class as it is declared
      have hkeyword : NoBraces (c.keyword.word ++ " " ++ c.names.name o.mode) := by
        refine NoBraces.append ?_ (hname o.mode)
        cases c.keyword <;> decide
      have hlist : NoBraces (" : " ++ Text.joinWith ", " c.bases) :=
        NoBraces.append (by decide) (NoBraces.joinWith (by decide) hbases)
      exact balanced_wrap (hkeyword.append (hlist.onlyIf _)) (hsections c.destructorIn)
    · -- its implementation
      exact balanced_wrap (((hclass o.mode).append (by decide)).append hscoped) (hsections _)
    · -- its interface
      exact balanced_wrap (hclass o.mode)
        (hpublic.append (((hdestructor o.mode).append (hmembers .pub none)).nest 1))
    · -- its factory
      have hcreated : NoBraces (if c.names.isInterface then c.names.name .implHeader
          else c.names.declared) := by
        split
        · exact hname .implHeader
        · exact hname .header
      have hpointer : NoBraces ("virtual std::unique_ptr<" ++ chain.scopedName .header ++
          "> create") := (NoBraces.append (by decide) hscoped).append (by decide)
      have hcreate := balanced_line ((hpointer.append hcreated).append (t := "() = 0;") (by decide))
      exact balanced_wrap (hclass .factoryHeader)
        (hpublic.append (((hdestructor .factoryHeader).append hcreate).nest 1))
    · exact hdefinitions
    · exact hdefinitions

/-- A class without braces in its texts is written with balanced braces. -/
theorem balanced_render {o : RenderOptions} (hscopes : ∀ t ∈ o.nameScopes, NoBraces t) (c : Class) :
    ∀ outer : ClassChain, (∀ t ∈ outer.texts, NoBraces t) → (∀ t ∈ c.texts, NoBraces t) →
      (c.render outer o).Balanced := by
  induction c using Class.induction with
  | step c ih =>
    intro outer houter h
    obtain ⟨hnames, -, -, -, hnested⟩ := forall_texts_iff.1 h
    have hchain := ClassChain.forall_texts_concat houter hnames
    rw [render_eq]
    exact balanced_renderWith h hchain hscopes (List.forall_mem_map.mpr fun item hitem =>
      ih item hitem _ hchain (hnested item hitem))

end Class

/-! ## Namespaces -/

namespace Namespace

/-- A tree without braces in its texts is written with balanced braces. -/
theorem balanced_render (n : Namespace) : ∀ o : RenderOptions, (∀ t ∈ o.nameScopes, NoBraces t) →
    (∀ t ∈ n.texts, NoBraces t) → (n.render o).Balanced := by
  induction n using Namespace.induction with
  | step n ih =>
    intro o hscopes h
    obtain ⟨hname, hfunctions, hclasses, hnested⟩ := forall_texts_iff.1 h
    have hinner : ∀ t ∈ (memberOptions n.name o).nameScopes, NoBraces t := by
      rw [memberOptions]
      split
      · exact List.forall_mem_append.mpr ⟨hscopes, fun t ht => noBraces_of_mem_segmentsOf hname ht⟩
      · exact hscopes
    have hnone : ∀ t ∈ ClassChain.texts [], NoBraces t := List.forall_mem_nil _
    have hmembers : (n.members (memberOptions n.name o)
        (n.nested.map (·.render (memberOptions n.name o)))).Balanced := by
      refine Balanced.separated (List.forall_mem_append.mpr ⟨List.forall_mem_append.mpr ⟨?_, ?_⟩, ?_⟩)
      · exact List.forall_mem_map.mpr fun c hc => c.balanced_render hinner [] hnone (hclasses c hc)
      · exact List.forall_mem_map.mpr fun f hf => f.balanced_render hnone hinner (hfunctions f hf)
      · exact List.forall_mem_map.mpr fun m hm => ih m hm _ hinner (hnested m hm)
    rw [render_eq]
    dsimp only
    split
    · exact hmembers
    · split
      · exact balanced_empty
      · split
        · exact hmembers
        · exact balanced_wrapInNamespace hname hmembers

end Namespace

end HeaderSync

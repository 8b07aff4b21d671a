import HeaderSync.Proofs.Difference
import HeaderSync.Proofs.Merge.Deepest
import HeaderSync.Proofs.Reader.Basic
import HeaderSync.Proofs.Tree.Declared

/-!
# A second merge into a source

After a merge, a source has the definitions that it kept and those that were written into it. What
the heading of a new definition says, read back as a function of the source, equals the definition
that the header calls for, so that a second merge finds nothing to do.

* `SourceMerge.emittedFunction` : the function that the heading of a new definition denotes;
* `render_eq_definition` : it is what is written;
* `equals_emitted` : read back at its place, it is the definition that was wanted;
* `second_sync_unchanged` : a second comparison adds and removes nothing.
-/

namespace HeaderSync

open Signature

namespace SourceMerge

/-! ## What is written -/

/-- The qualifiers in front of a name in a namespace that lacks the segments `missing`. -/
def writtenScopes : NamespaceStyle → (missing : List Text) → List Text
  | .qualified, missing => missing
  | .blocks, _ => []

/-- The namespaces around a definition that is written at the end of the namespace at `path`. -/
def writtenNamespaces : NamespaceStyle → (path missing : List Text) → List Text
  | .qualified, path, _ => path
  | .blocks, path, missing => path ++ missing

theorem writtenNamespaces_append (style : NamespaceStyle) (path missing : List Text) :
    writtenNamespaces style path missing ++ writtenScopes style missing = path ++ missing := by
  cases style <;> simp [writtenNamespaces, writtenScopes]

theorem mem_of_mem_writtenScopes {style : NamespaceStyle} {missing : List Text} {s : Text}
    (h : s ∈ writtenScopes style missing) : s ∈ missing := by
  cases style with
  | qualified => exact h
  | blocks => cases h

/-- The function that the heading of a new definition denotes, when it is written with the
qualifiers `scopes`. -/
def emittedFunction (mode : Mode) (scopes : List Text) (d : Definition) : Function where
  name := joinScopes (scopes ++ d.member.scopes d.chain mode) (d.member.ownName d.chain mode)
  returnType := d.returnType
  args := stripDefaults d.args
  isConst := d.isConst
  kind := .standalone
  span := d.span

/-- The line in front of the body of a function of a source. -/
def heading (f : Function) : Text :=
  f.signature f.name f.args

/-- A new definition as the source has it after the merge, in the deepest namespace on its path. -/
def emitted (style : NamespaceStyle) (mode : Mode) (existing : Namespace) (d : Definition) :
    Definition :=
  let (address, _, missing) := deepest existing d.namespaces
  Definition.ofFunction (writtenNamespaces style (existing.pathTo address) missing) [] []
    (emittedFunction mode (writtenScopes style missing) d)

/-- The definitions of a source after a merge: those that stay, then the new ones. -/
def resynced (style : NamespaceStyle) (mode : Mode) (existing header : Namespace) :
    List Definition :=
  let diff := Difference.compare Definition.equals existing.parsedDefinitions
    (header.declaredDefinitions mode)
  (existing.parsedDefinitions.filter fun d => d ∉ diff.removed) ++
    diff.added.map (emitted style mode existing)

/-! ## The text of a new definition -/

/-- What is written for a declared definition has the heading of the emitted function. -/
theorem render_eq_definition {d : Definition} {o : RenderOptions} (h : d.Declared o.mode)
    (hmode : o.mode.isSource = true) (hrange : o.range = none) :
    d.render o =
      definitionLines (heading (emittedFunction o.mode o.nameScopes d)) d.member.body := by
  have hfields := h.eq_ofMember
  have hret : d.returnType = d.member.returnType := congrArg Definition.returnType hfields
  have hargs : d.args = d.member.args := congrArg Definition.args hfields
  have hconst : d.isConst = d.member.isConst := congrArg Definition.isConst hfields
  rw [Definition.render, Member.render_of_hasDefinition hmode h.hasDefinition
    (o.admits_of_range_none hrange _), heading, emittedFunction, hret, hargs, hconst]
  rfl

theorem render_eq_definitionLines {d : Definition} {o : RenderOptions} (h : d.Declared o.mode)
    (hmode : o.mode.isSource = true) (hrange : o.range = none) :
    ∃ body, d.render o =
      definitionLines (heading (emittedFunction o.mode o.nameScopes d)) body :=
  ⟨d.member.body, render_eq_definition h hmode hrange⟩

/-! ## Reading it back -/

/-- A declared definition with its qualifiers as one path. -/
theorem path_of_declared {mode : Mode} {d : Definition} (h : d.Declared mode) :
    d.path = d.namespaces ++ (d.member.scopes d.chain mode ++
      (splitQualified (d.member.ownName d.chain mode)).1) ++
      [(splitQualified (d.member.ownName d.chain mode)).2] := by
  have hclasses := congrArg Definition.classes h.eq_ofMember
  have hname := congrArg Definition.name h.eq_ofMember
  rw [Definition.path, hclasses, hname]
  rfl

theorem path_ofFunction_emittedFunction {mode : Mode} {d : Definition} (h : d.Declared mode)
    {namespaces scopes : List Text} (hscopes : ∀ s ∈ scopes, IsScopeName s)
    (hns : namespaces ++ scopes = d.namespaces) :
    (Definition.ofFunction namespaces [] [] (emittedFunction mode scopes d)).path = d.path := by
  have hall : ∀ s ∈ scopes ++ d.member.scopes d.chain mode, IsScopeName s := fun s hs =>
    (List.mem_append.mp hs).elim (hscopes s) (h.scopes s)
  have hsplit := splitQualified_joinScopes hall h.ownName
  rw [path_of_declared h, Definition.path, Definition.ofFunction, Definition.ofName,
    emittedFunction, hsplit, ← hns]
  simp

/-- Read back, the emitted function is the definition that was wanted. -/
theorem equals_ofFunction_emittedFunction {mode : Mode} {d : Definition} (h : d.Declared mode)
    {namespaces scopes : List Text} (hscopes : ∀ s ∈ scopes, IsScopeName s)
    (hns : namespaces ++ scopes = d.namespaces) :
    (Definition.ofFunction namespaces [] [] (emittedFunction mode scopes d)).equals d = true := by
  rw [Definition.equals, path_ofFunction_emittedFunction h hscopes hns]
  simp [Definition.ofFunction, Definition.ofName, emittedFunction, argumentsEqual_stripDefaults]

/-- So it is at the place where it is written. -/
theorem equals_emitted {style : NamespaceStyle} {mode : Mode} {existing : Namespace}
    {d : Definition} (hroot : existing.isRoot = true) (h : d.Declared mode) :
    (emitted style mode existing d).equals d = true := by
  have hplace := deepest_pathTo existing d.namespaces
  rw [Namespace.segments_of_isRoot hroot, List.nil_append] at hplace
  have hns := (writtenNamespaces_append style (existing.pathTo (deepest existing d.namespaces).1)
    (deepest existing d.namespaces).2.2).trans hplace
  have hscopes : ∀ s ∈ writtenScopes style (deepest existing d.namespaces).2.2, IsScopeName s := by
    intro s hs
    refine h.namespaces s ?_
    rw [← hplace]
    exact List.mem_append_right _ (mem_of_mem_writtenScopes hs)
  exact equals_ofFunction_emittedFunction h hscopes hns

/-- A second merge finds nothing to do: after a merge in either style, the definitions of the source
and those that the header calls for agree, and each new definition was written with the heading of
the function it is read back as. -/
theorem second_sync_unchanged (style : NamespaceStyle) (mode : Mode)
    (hmode : mode.isSource = true) (existing header : Namespace) (hroot : existing.isRoot = true)
    (hnames : header.wellNamed mode = true) :
    let declared := header.declaredDefinitions mode
    let second := Difference.compare Definition.equals (resynced style mode existing header) declared
    second.added = [] ∧ second.removed = [] ∧
      ∀ d ∈ (Difference.compare Definition.equals existing.parsedDefinitions declared).added,
      ∀ o : MergeOptions, o.mode = mode → o.range = none →
        let scopes := writtenScopes style (deepest existing d.namespaces).2.2
        ∃ body, d.render (o.renderOptions.nested scopes) =
          definitionLines (heading (emittedFunction mode scopes d)) body := by
  intro declared second
  have hdeclared : ∀ d ∈ (Difference.compare Definition.equals existing.parsedDefinitions
      declared).added, d.Declared mode := fun d hd =>
    Namespace.declared_of_mem_declaredDefinitions hnames d (Difference.mem_added.1 hd).1
  obtain ⟨hadded, hremoved⟩ := Difference.compare_resynced (emitted style mode existing)
    fun d hd => equals_emitted hroot (hdeclared d hd)
  refine ⟨hadded, hremoved, ?_⟩
  rintro d hd o rfl hrange
  exact render_eq_definitionLines (o := o.renderOptions.nested _) (hdeclared d hd) hmode hrange

/-- The law at a source that lacks a constructor with a default and a function of a namespace it
does not have, and that has a definition too many. -/
theorem second_sync_unchanged_shape :
    ∃ header existing,
      readHeader ("namespace g{class S{S(int n=3);};namespace h{void p();}}" : String) =
        .ok header ∧
      readSource ("namespace g{void f(){}}" : String) = .ok existing ∧
      header.wellNamed .source = true ∧
      let declared := header.declaredDefinitions .source
      (Difference.compare Definition.equals existing.parsedDefinitions declared).added ≠ [] ∧
      (Difference.compare Definition.equals (resynced .qualified .source existing header)
        declared).isUnchanged = true := by
  obtain ⟨header, existing, hheader, hsource, hlacks⟩ := Reader.exists_read_both
    (x := readHeader ("namespace g{class S{S(int n=3);};namespace h{void p();}}" : String))
    (y := readSource ("namespace g{void f(){}}" : String))
    (p := fun header existing => header.wellNamed .source && !(Difference.compare Definition.equals
        existing.parsedDefinitions (header.declaredDefinitions .source)).added.isEmpty)
    (by decide +kernel)
  rw [Bool.and_eq_true] at hlacks
  obtain ⟨hadded, hremoved, -⟩ := second_sync_unchanged .qualified .source rfl existing header
    (isRoot_of_readSource hsource) hlacks.1
  refine ⟨header, existing, hheader, hsource, hlacks.1, by simpa using hlacks.2, ?_⟩
  rw [Difference.isUnchanged, hadded, hremoved]
  rfl

end SourceMerge

end HeaderSync

import HeaderSync.Proofs.Merge.Application
import HeaderSync.Proofs.Merge.Completions
import HeaderSync.Proofs.Merge.Insertions
import HeaderSync.Proofs.Tree.Braces

/-!
# Balanced braces in merged text

A merge trims the lines of a node, indents them like the place that they go to, and puts line feeds
around them. None of this adds or takes a brace, and what is written for a part of a tree is balanced
as that for the whole tree is.

* `Text.braces_insertedText` : the braces of inserted text are those of its lines;
* `MergeOptions.balanced_of_mem_diffEdits` : what is inserted of a list is balanced if each element is;
* `HeaderMerge.balanced_of_mem_mergeNamespace` : what goes into a header;
* `Definition.texts`, `Namespace.noBraces_of_mem_definitionsFrom` : the texts of the definitions of a
  tree;
* `SourceMerge.balanced_of_mem_edits` : what goes into a source;
* `generated_braces_balanced` : all of it.
-/

namespace HeaderSync

open Text

/-! ## Inserted text -/

theorem Text.braces_indentLine {indent : Text} (hindent : NoBraces indent) (line : Text) :
    braces (indentLine indent line) = braces line := by
  rw [indentLine]
  split
  · rename_i hblank
    exact (NoBraces.of_allBlank hblank).braces_eq.symm
  · rw [braces_append, hindent.braces_eq, List.nil_append]

/-- The braces of inserted text are those of its lines. -/
theorem Text.braces_insertedText {anchor : Anchor} (hindent : NoBraces anchor.indent)
    (rendered : Text) : braces (insertedText anchor rendered) = braces rendered := by
  have hglue : NoBraces "\n" := by decide
  have hlines : ((lines rendered).map (indentLine anchor.indent)).flatMap braces =
      braces rendered := by
    rw [List.flatMap_map, ← flatMap_braces_lines rendered]
    simp only [braces_indentLine hindent]
  rw [insertedText, braces_append, braces_append, hglue.braces_eq, (hglue.onlyIf _).braces_eq,
    braces_joinWith hglue, hlines, List.nil_append, List.append_nil]

theorem noBraces_lineIndent (t : Text) (position : Nat) : NoBraces (lineIndent t position) := by
  intro c hc
  have hblank := List.mem_takeWhile_imp hc
  simp only [Bool.or_eq_true, beq_iff_eq] at hblank
  rcases hblank with rfl | rfl <;> decide

theorem Anchor.noBraces_closingOf (document : Text) (n : Namespace) :
    NoBraces (closingOf document n).indent := by
  rw [closingOf]
  split
  · exact List.forall_mem_nil _
  · exact noBraces_lineIndent _ _

/-- What the edit puts in is balanced. -/
def Edit.Balanced (e : Edit) : Prop :=
  BraceBalanced e.replacement

namespace MergeOptions

variable {o : MergeOptions} (hindent : NoBraces o.indent)
include hindent

theorem balanced_of_insertAt {anchor : Anchor} (hanchor : NoBraces anchor.indent) {l : Lines}
    (hl : l.Balanced) {e : Edit} (h : o.insertAt anchor l = some e) : e.Balanced := by
  rw [insertAt] at h
  split at h
  · cases h
  · obtain rfl := Option.some.inj h
    refine BraceBalanced.congr ?_ (hl.render hindent)
    exact (braces_trim _).symm.trans (braces_insertedText hanchor _).symm

/-- What is inserted of a list is balanced if all of its elements are. -/
theorem balanced_of_mem_diffEdits {α : Type} {anchor : Option Anchor}
    (hanchor : ∀ a ∈ anchor, NoBraces a.indent) {equals : α → α → Bool} {existing generated : List α}
    {span : α → Span} {render : α → Lines} (h : ∀ new ∈ generated, (render new).Balanced) {e : Edit}
    (he : e ∈ o.diffEdits anchor (Difference.compare equals existing generated) span render) :
    e.Balanced := by
  rcases List.mem_append.mp he with he | he
  · cases anchor with
    | none => cases he
    | some a =>
      obtain ⟨new, hnew, hinsert⟩ := List.mem_filterMap.mp he
      exact balanced_of_insertAt hindent (hanchor a rfl) (h new (Difference.mem_added.1 hnew).1)
        hinsert
  · obtain ⟨old, -, hremove⟩ := List.mem_filterMap.mp he
    rw [remove] at hremove
    split at hremove
    · exact Option.some.inj hremove ▸ braceBalanced_nil
    · cases hremove

end MergeOptions

/-! ## Headers -/

namespace HeaderMerge

variable {document : Text} {o : MergeOptions} (hindent : NoBraces o.indent)
include hindent

section Classes

variable {chain : ClassChain} (hchain : ∀ t ∈ chain.texts, NoBraces t)
  {existing generated : Class}
include hchain

theorem balanced_of_mem_destructorEdits {e : Edit}
    (he : e ∈ destructorEdits document o chain existing generated) : e.Balanced := by
  refine MergeOptions.balanced_of_mem_diffEdits hindent ?_ (fun d _ => ?_) he
  · intro a ha
    obtain ⟨s, -, rfl⟩ := Option.map_eq_some_iff.mp ha
    exact noBraces_lineIndent _ _
  · exact d.balanced_render hchain (List.forall_mem_nil _)

theorem balanced_of_mem_memberEdits (h : ∀ t ∈ generated.texts, NoBraces t) {access : Access}
    {e : Edit} (he : e ∈ memberEdits document o chain existing generated access) : e.Balanced := by
  obtain ⟨-, -, hconstructors, hfunctions, hnested⟩ := Class.forall_texts_iff.1 h
  rw [memberEdits] at he
  split at he
  · cases he
  · rename_i s hs
    have hanchor : ∀ a ∈ some (Anchor.after document s), NoBraces a.indent := by
      rintro a ⟨⟩
      exact noBraces_lineIndent _ _
    have hscopes : ∀ t ∈ o.renderOptions.nameScopes, NoBraces t := List.forall_mem_nil _
    simp only [List.mem_append] at he
    rcases he with (he | he) | he
    · refine MergeOptions.balanced_of_mem_diffEdits hindent hanchor (fun c hc => ?_) he
      exact c.balanced_render hscopes chain hchain (hnested _ (mem_itemsIn.1 hc))
    · refine MergeOptions.balanced_of_mem_diffEdits hindent hanchor (fun f hf => ?_) he
      exact f.balanced_render hchain hscopes (hfunctions _ (mem_itemsIn.1 hf))
    · refine MergeOptions.balanced_of_mem_diffEdits hindent hanchor (fun c hc => ?_) he
      exact c.balanced_render hchain hscopes (hconstructors _ (mem_itemsIn.1 hc))

/-- The edits for a class put in balanced texts if those inside its nested classes do. -/
theorem balanced_of_mem_classEdits (h : ∀ t ∈ generated.texts, NoBraces t)
    {nested : List (Access × List Edit)} (hnested : ∀ item ∈ nested, ∀ e ∈ item.2, e.Balanced)
    {e : Edit} (he : e ∈ classEdits document o chain existing generated nested) : e.Balanced := by
  have haccess : ∀ access, e ∈ memberEdits document o chain existing generated access ++
      (itemsIn access nested).flatten → e.Balanced := by
    intro access he
    rcases List.mem_append.mp he with he | he
    · exact balanced_of_mem_memberEdits hindent hchain h he
    · obtain ⟨edits, hedits, he⟩ := List.mem_flatten.mp he
      exact hnested _ (mem_itemsIn.1 hedits) e he
  rw [classEdits] at he
  split at he
  · exact haccess .pub he
  · rcases List.mem_append.mp he with he | he
    · exact balanced_of_mem_destructorEdits hindent hchain he
    · obtain ⟨access, -, he⟩ := List.mem_flatMap.mp he
      exact haccess access he

end Classes

theorem balanced_of_mem_mergeClass {existing : Class} : ∀ {generated : Class} {outer : ClassChain},
    (∀ t ∈ outer.texts, NoBraces t) → (∀ t ∈ generated.texts, NoBraces t) →
      ∀ e ∈ mergeClass document o outer existing generated, e.Balanced := by
  induction existing using Class.induction with
  | step existing ih =>
    intro generated outer houter h e he
    obtain ⟨hnames, -, -, -, hinner⟩ := Class.forall_texts_iff.1 h
    have hchain := ClassChain.forall_texts_concat houter hnames
    rw [mergeClass_eq] at he
    refine balanced_of_mem_classEdits hindent hchain h ?_ he
    refine List.forall_mem_map.mpr fun item hitem e he => ?_
    dsimp only at he
    cases hfind : (itemsIn item.1 generated.nested).find? (Class.equals o.mode item.2) with
    | none =>
      rw [hfind] at he
      cases he
    | some g =>
      rw [hfind] at he
      exact ih item hitem hchain (hinner _ (mem_itemsIn.1 (List.mem_of_find?_eq_some hfind))) e he

theorem balanced_of_mem_levelEdits {existing generated : Namespace}
    (h : ∀ t ∈ generated.texts, NoBraces t) {e : Edit}
    (he : e ∈ levelEdits document o existing generated) : e.Balanced := by
  obtain ⟨-, hfunctions, hclasses, hnested⟩ := Namespace.forall_texts_iff.1 h
  have hanchor : ∀ a ∈ some (Anchor.closingOf document existing), NoBraces a.indent := by
    rintro a ⟨⟩
    exact Anchor.noBraces_closingOf _ _
  have hchain : ∀ t ∈ ClassChain.texts [], NoBraces t := List.forall_mem_nil _
  have hscopes : ∀ t ∈ o.renderOptions.nameScopes, NoBraces t := List.forall_mem_nil _
  simp only [levelEdits, List.mem_append] at he
  rcases he with (he | he) | he
  · refine MergeOptions.balanced_of_mem_diffEdits hindent hanchor (fun c hc => ?_) he
    exact c.balanced_render hscopes [] hchain (hclasses c hc)
  · refine MergeOptions.balanced_of_mem_diffEdits hindent hanchor (fun f hf => ?_) he
    exact f.balanced_render hchain hscopes (hfunctions f hf)
  · refine MergeOptions.balanced_of_mem_diffEdits hindent hanchor (fun m hm => ?_) he
    exact m.balanced_render _ hscopes (hnested m hm)

/-- What a merge of a tree without braces puts into a header is balanced. -/
theorem balanced_of_mem_mergeNamespace {existing : Namespace} : ∀ {generated : Namespace},
    (∀ t ∈ generated.texts, NoBraces t) →
      ∀ e ∈ mergeNamespace document o existing generated, e.Balanced := by
  induction existing using Namespace.induction with
  | step existing ih =>
    intro generated h e he
    obtain ⟨-, -, hclasses, hnested⟩ := Namespace.forall_texts_iff.1 h
    simp only [mergeNamespace_eq, List.mem_append, List.mem_flatMap] at he
    rcases he with (he | ⟨n, hn, he⟩) | he
    · exact balanced_of_mem_levelEdits hindent h he
    · cases hfind : generated.nested.find? n.equals with
      | none =>
        rw [hfind] at he
        cases he
      | some g =>
        rw [hfind] at he
        exact ih n hn (hnested g (List.mem_of_find?_eq_some hfind)) e he
    · obtain ⟨⟨c, g⟩, hchanged, he⟩ := List.mem_flatMap.mp he
      have hg := List.mem_of_find?_eq_some (Difference.mem_changed.1 hchanged).2
      exact balanced_of_mem_mergeClass hindent (List.forall_mem_nil _) (hclasses g hg) e he

end HeaderMerge

/-! ## Sources -/

/-- The namespaces around the definition, the names of the classes that own it, and the texts of its
member. -/
def Definition.texts (d : Definition) : List Text :=
  d.namespaces ++ d.chain.texts ++ d.member.texts

theorem Definition.forall_texts_iff {p : Text → Prop} {d : Definition} : (∀ t ∈ d.texts, p t) ↔
    (∀ t ∈ d.namespaces, p t) ∧ (∀ t ∈ d.chain.texts, p t) ∧ ∀ t ∈ d.member.texts, p t := by
  rw [texts, List.forall_mem_append, List.forall_mem_append, and_assoc]

/-- The definitions that a class calls for have no other texts than the class, those around it and the
namespaces. -/
theorem Class.forall_texts_of_mem_definitions {p : Text → Prop} {namespaces : List Text}
    (hnamespaces : ∀ t ∈ namespaces, p t) {mode : Mode} (c : Class) : ∀ outer : ClassChain,
      (∀ t ∈ outer.texts, p t) → (∀ t ∈ c.texts, p t) →
        ∀ d ∈ c.definitions outer namespaces mode, ∀ t ∈ d.texts, p t := by
  induction c using Class.induction with
  | step c ih =>
    intro outer houter h d hd
    obtain ⟨hnames, -, hconstructors, hfunctions, hnested⟩ := forall_texts_iff.1 h
    have hchain := ClassChain.forall_texts_concat houter hnames
    rw [definitions_eq] at hd
    split at hd
    · obtain ⟨access, -, hd⟩ := List.mem_flatMap.mp hd
      simp only [definitionsIn, List.mem_append, List.mem_map, List.mem_filter] at hd
      rcases hd with ((⟨k, ⟨hk, -⟩, rfl⟩ | ⟨k, -, rfl⟩) | ⟨f, ⟨hf, -⟩, rfl⟩) | hd
      · have hargs := List.forall_mem_singleton.mpr (hconstructors _ (mem_itemsIn.1 hk))
        exact Definition.forall_texts_iff.2 ⟨hnamespaces, hchain, hargs⟩
      · exact Definition.forall_texts_iff.2 ⟨hnamespaces, hchain, List.forall_mem_nil _⟩
      · have hf := hfunctions _ (mem_itemsIn.1 hf)
        exact Definition.forall_texts_iff.2 ⟨hnamespaces, hchain, hf⟩
      · obtain ⟨definitions, hdefinitions, hd⟩ := List.mem_flatten.mp hd
        obtain ⟨inner, hinner, heq⟩ := List.mem_map.mp (mem_itemsIn.1 hdefinitions)
        obtain ⟨rfl, rfl⟩ := Prod.mk.inj heq
        exact ih inner hinner _ hchain (hnested inner hinner) d hd
    · cases hd

/-- The definitions that a tree without braces calls for have none. -/
theorem Namespace.noBraces_of_mem_definitionsFrom {mode : Mode} (n : Namespace) :
    ∀ path : List Text, (∀ t ∈ path, NoBraces t) → (∀ t ∈ n.texts, NoBraces t) →
      ∀ d ∈ n.definitionsFrom path (some mode), ∀ t ∈ d.texts, NoBraces t := by
  induction n using Namespace.induction with
  | step n ih =>
    intro path hpath h d hd
    obtain ⟨hname, hfunctions, hclasses, hnested⟩ := forall_texts_iff.1 h
    have hnamespaces : ∀ t ∈ path ++ n.segments, NoBraces t :=
      List.forall_mem_append.mpr ⟨hpath, fun t ht => noBraces_of_mem_segmentsOf hname ht⟩
    have hchain : ∀ t ∈ ClassChain.texts [], NoBraces t := List.forall_mem_nil _
    rw [definitionsFrom_eq, ownDefinitions, List.mem_append, List.mem_append] at hd
    rcases hd with (hd | hd) | hd
    · obtain ⟨f, hf, rfl⟩ := List.mem_map.mp hd
      have hf := hfunctions f (List.mem_filter.mp hf).1
      exact Definition.forall_texts_iff.2 ⟨hnamespaces, hchain, hf⟩
    · obtain ⟨c, hc, hd⟩ := List.mem_flatMap.mp hd
      exact c.forall_texts_of_mem_definitions hnamespaces [] hchain (hclasses c hc) d hd
    · obtain ⟨m, hm, hd⟩ := List.mem_flatMap.mp hd
      exact ih m hm _ hnamespaces (hnested m hm) d hd

namespace SourceMerge

/-- An insertion is written with balanced braces, whether the missing namespaces are qualifiers or
blocks. -/
theorem balanced_renderInsertion {o : MergeOptions} {i : Insertion}
    (hmissing : ∀ t ∈ i.missing, NoBraces t)
    (hdefinitions : ∀ d ∈ i.definitions, ∀ t ∈ d.texts, NoBraces t) :
    (renderInsertion o i).Balanced := by
  have hblocks : ∀ scopes : List Text, (∀ t ∈ scopes, NoBraces t) → (Lines.separated
      (i.definitions.map (·.render (o.renderOptions.nested scopes)))).Balanced := by
    intro scopes hscopes
    refine Lines.Balanced.separated (List.forall_mem_map.mpr fun d hd => ?_)
    obtain ⟨-, hchain, hmember⟩ := Definition.forall_texts_iff.1 (hdefinitions d hd)
    exact d.member.balanced_render hchain hscopes hmember
  rw [renderInsertion]
  split
  · exact hblocks i.missing hmissing
  · have hmembers := hblocks [] (List.forall_mem_nil _)
    generalize i.missing = missing at hmissing ⊢
    induction missing with
    | nil => exact hmembers
    | cons name missing ih =>
      obtain ⟨hname, hmissing⟩ := List.forall_mem_cons.mp hmissing
      exact balanced_wrapInNamespace hname (ih hmissing)

/-- The missing namespaces of an insertion are some of those around its definitions. -/
theorem exists_missing_subset {style : NamespaceStyle} {existing : Namespace}
    (hroot : existing.isRoot = true) {added : List Definition} {i : Insertion}
    (hi : i ∈ planInsertions style existing added) :
    ∃ d ∈ i.definitions, d ∈ added ∧ i.missing ⊆ d.namespaces := by
  obtain ⟨d, hd, hadded⟩ := exists_added_of_mem_planInsertions hi
  obtain ⟨-, hconserves, -⟩ := planInsertions_conserves style existing added
  have hway := (hconserves i hi).2.2 d hd
  rw [Namespace.segments_of_isRoot hroot, List.nil_append] at hway
  exact ⟨d, hd, hadded, hway ▸ List.subset_append_right _ _⟩

/-- What a merge of a tree without braces puts into a source is balanced. -/
theorem balanced_of_mem_edits {generated existing : Namespace} {o : MergeOptions} {document : Text}
    (hindent : NoBraces o.indent) (hroot : existing.isRoot = true)
    (h : ∀ t ∈ generated.texts, NoBraces t) :
    ∀ e ∈ edits generated o document existing, e.Balanced := by
  intro e he
  rw [edits_eq] at he
  rcases List.mem_append.mp he with he | he
  · split at he
    · obtain ⟨s, -, rfl⟩ := List.mem_map.mp he
      exact braceBalanced_nil
    · cases he
  · obtain ⟨i, hi, hinsert⟩ := List.mem_filterMap.mp he
    have hadded : ∀ d ∈ (difference generated existing o).added, ∀ t ∈ d.texts, NoBraces t :=
      fun d hd => generated.noBraces_of_mem_definitionsFrom [] (List.forall_mem_nil _) h d
        (List.mem_filter.mp (Difference.mem_added.1 hd).1).1
    have hdefinitions := (definitions_of_mem_planInsertions hi).1.subset
    obtain ⟨d, -, hd, hmissing⟩ := exists_missing_subset hroot hi
    have hnamespaces := (Definition.forall_texts_iff.1 (hadded d hd)).1
    exact MergeOptions.balanced_of_insertAt hindent (Anchor.noBraces_closingOf _ _)
      (balanced_renderInsertion (fun t ht => hnamespaces t (hmissing ht))
        fun d hd => hadded d (hdefinitions hd)) hinsert

end SourceMerge

/-! ## All that is written for a tree -/

/-- If no name, resolved name, base, return type or argument text of a tree has a brace, then the tree
is written with balanced braces in every mode, style and range and with every indentation, and so is
every text that a merge of the tree puts into a header or a source. -/
theorem generated_braces_balanced (n : Namespace) (h : ∀ t ∈ n.texts, NoBraces t) :
    (∀ o : RenderOptions, (∀ t ∈ o.nameScopes, NoBraces t) → allBlank o.indent = true →
      BraceBalanced ((n.render o).render o.indent)) ∧
    ∀ (o : MergeOptions) (document : Text), allBlank o.indent = true → ∀ edits,
      mergeHeader n o document = .ok edits ∨ mergeSource n o document = .ok edits →
        ∀ position text label, .insert position text label ∈ edits → BraceBalanced text := by
  refine ⟨fun o hscopes hindent => ?_, fun o document hindent edits hedits position text label he => ?_⟩
  · exact (n.balanced_render o hscopes h).render (NoBraces.of_allBlank hindent)
  · have hindent := NoBraces.of_allBlank hindent
    suffices hbalanced : (Edit.insert position text label).Balanced from hbalanced
    rcases hedits with hedits | hedits
    · obtain ⟨existing, -, heq⟩ := Reader.bind_eq_ok.1 hedits
      obtain rfl := Except.ok.inj heq
      exact HeaderMerge.balanced_of_mem_mergeNamespace hindent h _ ((orderEdits_perm _).mem_iff.mp he)
    · obtain ⟨existing, hread, heq⟩ := Reader.bind_eq_ok.1 hedits
      obtain rfl := Except.ok.inj heq
      exact SourceMerge.balanced_of_mem_edits hindent (isRoot_of_readSource hread) h _
        ((orderEdits_perm _).mem_iff.mp he)

/-- A class in a namespace, as its interface, and as it is merged into a source with another namespace
in it. -/
theorem generated_braces_balanced_class :
    ∃ root edits, readHeader ("namespace N{class S:B{S(int n=1);int f();};}" : String) = .ok root ∧
      (∀ t ∈ root.texts, NoBraces t) ∧
      BraceBalanced ((root.render (.ofMode .interfaceHeader)).render "    ") ∧
      mergeSource root { MergeOptions.ofMode .source "a.cc" with style := .blocks }
        ("namespace M{}" : String) = .ok edits ∧
      edits ≠ [] ∧
      ∀ position text label, .insert position text label ∈ edits → BraceBalanced text := by
  obtain ⟨root, existing, hheader, hsource, htexts⟩ := Reader.exists_read_both
    (x := readHeader ("namespace N{class S:B{S(int n=1);int f();};}" : String))
    (y := readSource ("namespace M{}" : String))
    (p := fun root existing => decide (∀ t ∈ root.texts, NoBraces t) &&
      !(SourceMerge.edits root { MergeOptions.ofMode .source "a.cc" with style := .blocks }
        ("namespace M{}" : String) existing).isEmpty)
    (by decide +kernel)
  rw [Bool.and_eq_true, decide_eq_true_eq] at htexts
  obtain ⟨hrender, hmerge⟩ := generated_braces_balanced root htexts.1
  have hedits := mergeSource_eq root
    { MergeOptions.ofMode .source "a.cc" with style := .blocks } hsource
  refine ⟨root, _, hheader, htexts.1, ?_, hedits, ?_, hmerge _ _ (by decide) _ (.inr hedits)⟩
  · exact hrender (.ofMode .interfaceHeader) (List.forall_mem_nil _) (by decide)
  · intro hnil
    have hperm := orderEdits_perm (SourceMerge.edits root
      { MergeOptions.ofMode .source "a.cc" with style := .blocks } ("namespace M{}" : String) existing)
    rw [hnil] at hperm
    rw [hperm.nil_eq.symm] at htexts
    cases htexts.2

end HeaderSync

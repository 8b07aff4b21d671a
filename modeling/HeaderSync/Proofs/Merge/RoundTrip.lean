import HeaderSync.Proofs.Merge.FreshSource
import HeaderSync.Proofs.Reader.PlainTree

/-!
# Sources that were just written

The source that is written for a header with plain definitions is read back as the definitions that
the header calls for, so a merge into it has nothing to do.

* `Reader.text_erase` : a text without marks has no comments and preprocessor lines;
* `Writes.exists_readSource` : lines that are a list of items are read back;
* `mergeSource_of_written` : what is written for a header is in sync with it, whatever comments and
  preprocessor lines stand around it;
* `mergeSource_renderFile` : so is a new file without a preamble.
-/

namespace HeaderSync

open Text Signature Shapes Reader SourceMerge

/-! ## Files -/

namespace Reader

/-- A comment or a literal starts with a mark. -/
theorem exists_mark_of_comment {l s r : Text} {g : List Capture} (h : comment.Matches l s r g) :
    ∃ c ∈ s, c ∈ marks := by
  have hquoted : ∀ quote, (literal quote).Holds [quote] := fun quote =>
    ((Pattern.holds_lit [quote]).append_left _).append_left _
  have hblock : (Pattern.lit "/*" ++ Pattern.starLazy (Pattern.char .all) ++ Pattern.lit "*/").Holds
      "/*" := ((Pattern.holds_lit "/*").append_left _).append_left _
  have hline : (Pattern.lit "//" ++ Pattern.star (Pattern.char (.noneOf ['\n']))).Holds "//" :=
    (Pattern.holds_lit "//").append_left _
  rcases h with ⟨_, h | h, -⟩ | h | h
  · exact ⟨'"', (hquoted '"' _ _ _ _ h).subset (by decide), by decide⟩
  · exact ⟨'\'', (hquoted '\'' _ _ _ _ h).subset (by decide), by decide⟩
  · exact ⟨'/', (hblock _ _ _ _ h).subset (by decide), by decide⟩
  · exact ⟨'/', (hline _ _ _ _ h).subset (by decide), by decide⟩

/-- A preprocessor line has its mark. -/
theorem exists_mark_of_preprocessorLine {l s r : Text} {g : List Capture}
    (h : preprocessorLine.Matches l s r g) : ∃ c ∈ s, c ∈ marks := by
  have hholds : preprocessorLine.Holds "#" :=
    (Pattern.Holds.append_right (Pattern.holds_lit "#") _).append_left _
  exact ⟨'#', (hholds _ _ _ _ h).subset (by decide), by decide⟩

/-- Without marks there are no comments and preprocessor lines. -/
theorem text_erase {document : Text} (h : IsUnmarked document) :
    (erasePreprocessor (eraseComments (Fragment.ofText document))).text = document := by
  have hnone : ∀ p : Pattern, (∀ l s r g, p.Matches l s r g → ∃ c ∈ s, c ∈ marks) →
      p.find? document = none := fun p hp =>
    Pattern.find?_eq_none_of_forall fun l s r g hmatch => by
      obtain ⟨c, hc, hmark⟩ := hp l s r g hmatch
      exact ⟨c, hc, fun hmem => h c hmem hmark⟩
  have hcells := Fragment.cells_ofText document
  have htext : (Fragment.ofText document).text = document := by
    rw [Fragment.text_eq, hcells, text_cells]
  have horder : (Fragment.ofText document).cells.Pairwise Cell.Before := by
    rw [hcells]
    exact pairwise_cells 0 document
  have hcomments :
      (eraseComments (Fragment.ofText document)).cells = (Fragment.ofText document).cells := by
    rw [eraseComments, Fragment.find_eq_nil]
    · exact Fragment.cells_splice_nil horder
    · rw [htext]
      exact hnone _ fun _ _ _ _ => exists_mark_of_comment
  rw [erasePreprocessor, Fragment.takeOut]
  dsimp only
  rw [Fragment.find_eq_nil]
  · rw [Fragment.text_eq, List.map_nil, Fragment.cells_splice_nil (hcomments ▸ horder), hcomments,
      ← Fragment.text_eq, htext]
  · rw [Fragment.text_eq, hcomments, ← Fragment.text_eq, htext]
    exact hnone _ fun _ _ _ _ => exists_mark_of_preprocessorLine

end Reader

theorem renderFile_eq (root : Namespace) {o : RenderOptions} (hmode : o.mode.isSource = true) :
    renderFile root o ⟨[], none⟩ = (root.render o).render o.indent ++ "\n" := by
  have hincludes : includeLines o.mode ⟨[], none⟩ = [] := by
    cases hm : o.mode with
    | source | implSource => rfl
    | header | implHeader | interfaceHeader | factoryHeader => exact absurd (hm ▸ hmode) (by decide)
  rw [renderFile, hincludes, hmode]
  dsimp only
  cases hbody : (root.render o).render o.indent with
  | nil => rfl
  | cons c t => exact congrArg (· ++ _) (joinWith_singleton _ _)

/-! ## Merging into what was written -/

theorem Restores.congr {found : List Definition} {defined more : List (List Text × Function)}
    (h : Restores found defined) (hsame : ∀ d, d ∈ defined ↔ d ∈ more) : Restores found more where
  written e he := by
    obtain ⟨d, hd, hread⟩ := h.written e he
    exact ⟨d, (hsame d).mp hd, hread⟩
  found d hd := h.found d ((hsame d).mpr hd)

/-- There are no marks in what is written. -/
theorem Writes.isUnmarked {indent : Text} {place : List Text} {l : Lines}
    {defined : List (List Text × Function)} (h : Writes indent place l defined) :
    IsUnmarked (l.render indent) := by
  obtain ⟨items, hitems, hlines, -⟩ := h
  rw [hlines]
  exact (isSound_of_items hitems).unmarked

/-- Lines that are a list of items are read back, with blanks around them. -/
theorem Writes.exists_readSource {indent : Text} {l : Lines} {defined : List (List Text × Function)}
    (h : Writes indent [] l defined) {document before after : Text}
    (hbefore : allBlank before = true) (hafter : allBlank after = true)
    (htext : (erasePreprocessor (eraseComments (Fragment.ofText document))).text =
      before ++ (l.render indent ++ after)) :
    ∃ n, readSource document = .ok n ∧ Restores n.parsedDefinitions defined := by
  obtain ⟨items, hitems, hlines, hdefined⟩ := h
  have hall : ∀ i ∈ .gap before :: (items ++ [.gap after]), i.IsPlain [] :=
    List.forall_mem_cons.mpr ⟨.gap hbefore, List.forall_mem_append.mpr
      ⟨hitems, List.forall_mem_singleton.mpr (.gap hafter)⟩⟩
  rw [hlines] at htext
  obtain ⟨n, hread, hrestores⟩ := readSource_of_items hall (htext.trans (by
    rw [List.flatMap_cons, List.flatMap_append, List.flatMap_singleton]
    rfl))
  refine ⟨n, hread, hrestores.congr fun d => ?_⟩
  rw [List.flatMap_cons, List.flatMap_append, List.flatMap_singleton, ← hdefined]
  simp [SourceItem.defined]

section Merge

variable {header : Namespace} {o : MergeOptions}

/-- A definition that was written for a header is read back as the one that was wanted. -/
theorem equals_written {mode : Mode} (hnames : header.wellNamed mode = true) {d : Definition}
    (hd : d ∈ header.declaredDefinitions mode) (style : NamespaceStyle) (s : Span) :
    (Definition.ofFunction (d.written style mode).1 [] []
      ((d.written style mode).2.readAt s)).equals d = true := by
  have hdeclared := Namespace.declared_of_mem_declaredDefinitions hnames d hd
  exact equals_ofFunction_emittedFunction hdeclared
    (fun s hs => hdeclared.namespaces s (mem_of_mem_writtenScopes hs))
    (writtenNamespaces_append style [] d.namespaces)

/-- A source that restores the definitions that a header calls for agrees with it. -/
theorem edits_eq_nil_of_restores {existing : Namespace} (hroot : existing.isRoot = true)
    (hnames : header.wellNamed o.mode = true) (hrange : o.range = none)
    (h : Restores existing.parsedDefinitions
      ((header.declaredDefinitions o.mode).map (Definition.written o.style o.mode)))
    (document : Text) : edits header o document existing = [] := by
  have hadmits : (header.declaredDefinitions o.mode).filter
      (fun d => o.renderOptions.admits d.span) = header.declaredDefinitions o.mode :=
    List.filter_eq_self.mpr fun d _ => o.renderOptions.admits_of_range_none hrange d.span
  refine edits_eq_nil document hroot ?_ ?_
  · rw [difference, hadmits, Difference.added_eq_nil_iff]
    intro d hd
    obtain ⟨s, hs⟩ := h.found _ (List.mem_map_of_mem hd)
    exact ⟨_, hs, equals_written hnames hd o.style s⟩
  · rw [difference, hadmits, Difference.removed_eq_nil_iff]
    intro e he
    obtain ⟨_, hwritten, s, rfl⟩ := h.written e he
    obtain ⟨d, hd, rfl⟩ := List.mem_map.mp hwritten
    exact ⟨d, hd, equals_written hnames hd o.style s⟩

variable (hmode : o.mode.isSource = true) (hrange : o.range = none)
  (hindent : allBlank o.indent = true) (hnames : header.wellNamed o.mode = true)
  (hplain : ∀ d ∈ header.declaredDefinitions o.mode, d.IsPlain o.style o.mode)
  (hblocks : o.style = .blocks → header.blocksNamed = true)
include hmode hrange hindent hnames hplain hblocks

/-- What is written for a header is a list of items with the definitions that it calls for. -/
theorem writes_header : Writes o.indent [] (header.render o.renderOptions)
    ((header.declaredDefinitions o.mode).map (Definition.written o.style o.mode)) := by
  have hwrites := Namespace.writes_render (o := o.renderOptions) hmode hrange rfl hindent header []
    (fun d hd => ⟨Namespace.declared_of_mem_declaredDefinitions hnames d hd, hplain d hd⟩) hblocks
  have hplace : ∀ style, writtenNamespaces style [] [] = [] ∧
      SourceMerge.writtenScopes style [] = [] := by
    intro style
    cases style <;> exact ⟨rfl, rfl⟩
  rwa [RenderOptions.within, WritesDefinitions, (hplace _).1, (hplace _).2] at hwrites

/-- What is written for a header is in sync with it, whatever comments and preprocessor lines stand
around it. -/
theorem mergeSource_of_written {document before after : Text} (hbefore : allBlank before = true)
    (hafter : allBlank after = true)
    (htext : (erasePreprocessor (eraseComments (Fragment.ofText document))).text =
      before ++ ((header.render o.renderOptions).render o.indent ++ after)) :
    mergeSource header o document = .ok [] := by
  obtain ⟨existing, hread, hrestores⟩ := (writes_header hmode hrange hindent hnames hplain
    hblocks).exists_readSource hbefore hafter htext
  have hroot := isRoot_of_readSource hread
  have hedits := edits_eq_nil_of_restores hroot hnames hrange hrestores document
  rw [mergeSource, hread]
  change Except.ok (orderEdits (edits header o document existing)) = _
  rw [hedits, orderEdits, List.mergeSort_nil]

/-- A merge into the file that was just written for a header has nothing to do. -/
theorem mergeSource_renderFile :
    mergeSource header o (renderFile header o.renderOptions ⟨[], none⟩) = .ok [] := by
  have hwrites := writes_header hmode hrange hindent hnames hplain hblocks
  have hfeed : IsUnmarked "\n" := by decide
  have herased := text_erase (hwrites.isUnmarked.append hfeed)
  rw [renderFile_eq header (o := o.renderOptions) hmode]
  exact mergeSource_of_written hmode hrange hindent hnames hplain hblocks rfl (by decide)
    (herased.trans (List.nil_append _).symm)

end Merge

/-- The law at a header with a class in a namespace, in both styles. -/
theorem mergeSource_renderFile_shape : ∃ header,
    readHeader ("namespace g{class S{S(int n=3);int&f()const;};}" : String) =
      .ok header ∧
    ∀ style, mergeSource header { MergeOptions.ofMode .source [] with style := style }
      (renderFile header { RenderOptions.ofMode .source with style := style } ⟨[], none⟩) =
        .ok [] := by
  obtain ⟨header, hread, hlaw⟩ := Reader.exists_read
    (x := readHeader ("namespace g{class S{S(int n=3);int&f()const;};}" : String))
    (p := fun header => header.wellNamed .source && header.blocksNamed &&
      (header.declaredDefinitions .source).all fun d =>
        decide (d.IsPlain .qualified .source) && decide (d.IsPlain .blocks .source))
    (by decide +kernel)
  simp only [Bool.and_eq_true, List.all_eq_true, decide_eq_true_eq] at hlaw
  obtain ⟨⟨hnames, hblocks⟩, hplain⟩ := hlaw
  refine ⟨header, hread, fun style => ?_⟩
  refine mergeSource_renderFile (o := { MergeOptions.ofMode .source [] with style := style }) rfl rfl
    rfl hnames (fun d hd => ?_) fun _ => hblocks
  cases style with
  | qualified => exact (hplain d hd).1
  | blocks => exact (hplain d hd).2

end HeaderSync

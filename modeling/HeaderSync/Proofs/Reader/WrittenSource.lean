import HeaderSync.Proofs.Reader.Placed
import HeaderSync.Proofs.Reader.SourceItems

/-!
# Reading a source that was written

* `readsAs_items` : the body of a namespace is read as the functions that its items define.
-/

namespace HeaderSync

open Text Pattern Shapes Reader BodyPattern SourceItem

/-! ## Namespaces and what is in them -/

/-- If what was found for each item is read, so is the whole list. -/
theorem exists_mapM_of_forall₂ {ι α β ε : Type} {P : ι → α → Prop} {R : ι → β → Prop}
    {f : α → Except ε β} {items : List ι} {xs : List α} (h : List.Forall₂ P items xs)
    (hread : ∀ i ∈ items, ∀ x ∈ xs, P i x → ∃ y, f x = .ok y ∧ R i y) :
    ∃ ys, xs.mapM f = .ok ys ∧ List.Forall₂ R items ys := by
  induction h with
  | nil => exact ⟨[], rfl, .nil⟩
  | @cons i x items xs hix _ ih =>
    obtain ⟨y, hy, hiy⟩ := hread i List.mem_cons_self x List.mem_cons_self hix
    obtain ⟨ys, hys, hitems⟩ := ih fun j hj z hz =>
      hread j (List.mem_cons_of_mem i hj) z (List.mem_cons_of_mem x hz)
    exact ⟨y :: ys, by rw [List.mapM_cons, hy, hys]; rfl, .cons hiy hitems⟩

theorem byteLength_text_le {items : List SourceItem} {i : SourceItem} (hi : i ∈ items) :
    byteLength i.text ≤ byteLength (items.flatMap SourceItem.text) := by
  rw [List.flatMap_def]
  exact byteLength_le_of_sublist (List.sublist_flatten_of_mem (List.mem_map_of_mem hi))

theorem byteLength_lt_blockText (name inside : Text) :
    byteLength inside < byteLength (blockText name inside) := by
  rw [blockText, byteLength_append, byteLength_cons, byteLength_append]
  have := Char.utf8Size_pos '\x7b'
  omega

section Items

variable {place : List Text} {items : List SourceItem}

/-- The namespaces among the items are taken out. -/
theorem takeOut_namespaces_of_items (hitems : ∀ i ∈ items, i.IsPlain place) {content : Fragment}
    (horder : content.cells.Pairwise Cell.Before)
    (htext : content.text = items.flatMap SourceItem.text) :
    List.Forall₂ (fun i (hit : Hit) => ∃ name inside defined, i = block name inside defined ∧
        hit.group 1 = name ∧ (hit.groupFragment 2).text = inside)
      (items.filter isBlock) ((braces namespaceHead).takeOut content).1 ∧
    ((braces namespaceHead).takeOut content).2.text =
      (items.filter fun i => !i.isBlock).flatMap SourceItem.text := by
  let told : SourceItem → List Capture → Text → Prop := fun i g inside =>
    ∃ name defined, i = block name inside defined ∧ captured g 1 = name
  have hrefuses : ∀ i ∈ items, i.isBlock = false → (braces namespaceHead).Refuses i.text := by
    intro i hi hblock
    cases hitems i hi with
    | gap h => exact refuses_of_misses (misses_of_allBlank (by decide) (by decide) h)
    | definition h => exact refuses_of_misses (Written.misses_namespace h.plain)
    | block => cases hblock
  have htakes : ∀ i ∈ items, i.isBlock = true → (braces namespaceHead).Takes i.text (told i) := by
    intro i hi hblock
    cases hitems i hi with
    | gap | definition => cases hblock
    | block hname hinside =>
      refine (takes_namespace hname hinside.balanced).imp ?_
      rintro g inside ⟨hg, rfl⟩
      exact ⟨_, _, rfl, hg⟩
  obtain ⟨hfound, hrest⟩ := takeOut_of_pieces (isSimple_braces _) (by decide) items
    (fun i hi => (hitems i hi).endsInWord) hrefuses htakes horder htext
  refine ⟨hfound.imp ?_, hrest⟩
  rintro i hit ⟨g, inside, hsaid, name, defined, rfl, hname⟩
  exact ⟨name, inside, defined, rfl, (hsaid.group 1 (by decide) (by decide)).trans hname,
    hsaid.fragment⟩

theorem isSimple_of_mem_filter (hitems : ∀ i ∈ items, i.IsPlain place) :
    ∀ i ∈ items.filter fun i => !i.isBlock, i.IsSimple := by
  intro i hi
  obtain ⟨hi, hblock⟩ := List.mem_filter.mp hi
  exact (hitems i hi).isSimple (by simpa using hblock)

theorem definition_mem_filter {f : Function} {body : Text} :
    definition f body ∈ items.filter (fun i => !i.isBlock) ↔ definition f body ∈ items := by
  simp [List.mem_filter, isBlock]

theorem trim_name {name : Text} (h : IsNamespaceName name) : trim name = name :=
  trim_eq_self fun c hc => isBlank_of_isNameChar (h.isNameChar c hc)

/-- The definitions of a namespace that was read, if those that are nested in it restore the blocks
and its functions restore the definitions. -/
theorem restores_assemble (document : Text) (span : Span) (body : Option Span) {name : Text}
    {outer : List Text} (hplace : outer ++ Namespace.segmentsOf name = place)
    (hitems : ∀ i ∈ items, i.IsPlain place) {content : Fragment}
    (horder : content.cells.Pairwise Cell.Before)
    (htext : content.text = (items.filter fun i => !i.isBlock).flatMap SourceItem.text)
    {nested : List Namespace}
    (hnested : List.Forall₂ (fun i (m : Namespace) =>
      Restores (m.definitionsFrom place none) (SourceItem.defined place i))
      (items.filter isBlock) nested) :
    Restores ((assemble document name span body nested ([], sourceFunctions content)).definitionsFrom
      outer none) (items.flatMap (SourceItem.defined place)) := by
  obtain ⟨hwritten, hfound⟩ := sourceFunctions_of_items (isSimple_of_mem_filter hitems) horder htext
  have hdefinitions : (assemble document name span body nested
      ([], sourceFunctions content)).definitionsFrom outer none =
      (sourceFunctions content).map (Definition.ofFunction place [] []) ++
        nested.flatMap (·.definitionsFrom place none) := by
    rw [Namespace.definitionsFrom_eq]
    subst hplace
    simp [Namespace.ownDefinitions, assemble, Namespace.segments]
  rw [hdefinitions]
  constructor
  · intro e he
    rcases List.mem_append.mp he with he | he
    · obtain ⟨g, hg, rfl⟩ := List.mem_map.mp he
      obtain ⟨f, body, s, hf, rfl⟩ := hwritten g hg
      exact ⟨(place, f), List.mem_flatMap.mpr ⟨_, definition_mem_filter.1 hf,
        List.mem_singleton_self _⟩, s, rfl⟩
    · obtain ⟨m, hm, he⟩ := List.mem_flatMap.mp he
      obtain ⟨i, hi, hrestores⟩ := exists_of_forall₂_right hnested m hm
      obtain ⟨d, hd, hsame⟩ := hrestores.written e he
      exact ⟨d, List.mem_flatMap.mpr ⟨i, (List.mem_filter.mp hi).1, hd⟩, hsame⟩
  · intro d hd
    obtain ⟨i, hi, hd⟩ := List.mem_flatMap.mp hd
    cases i with
    | gap blank => cases hd
    | definition f body =>
      obtain rfl := List.mem_singleton.mp hd
      obtain ⟨s, hs⟩ := hfound f body (definition_mem_filter.2 hi)
      exact ⟨s, List.mem_append_left _ (List.mem_map_of_mem hs)⟩
    | block name inside defined =>
      obtain ⟨m, hm, hrestores⟩ := exists_of_forall₂_left hnested _
        (List.mem_filter.mpr ⟨hi, rfl⟩)
      obtain ⟨s, hs⟩ := hrestores.found d hd
      exact ⟨s, List.mem_append_right _ (List.mem_flatMap.mpr ⟨m, hm, hs⟩)⟩

/-- The body of a namespace is read as the functions that its items define. -/
theorem readsAs_items (hitems : ∀ i ∈ items, i.IsPlain place) :
    ReadsAs (items.flatMap SourceItem.text) place (items.flatMap (SourceItem.defined place)) := by
  intro document name fuel span body content outer hplace horder htext hfuel
  cases fuel with
  | zero => omega
  | succ fuel =>
    have hanonymous : (braces anonymousNamespaceHead).takeOut content = ([], content) := by
      refine takeOut_of_find?_eq_none horder ?_
      rw [htext]
      exact Misses.find?_eq_none (by decide) (isSound_of_items hitems).named
    obtain ⟨hhits, hrest⟩ := takeOut_namespaces_of_items hitems horder htext
    obtain ⟨nested, hread, hnested⟩ := exists_mapM_of_forall₂
      (f := fun hit : Hit => readBody sourceMembers document fuel (trim (hit.group 1)) hit.span
        ((hit.group? 2).map Group.span) (hit.groupFragment 2))
      (R := fun i (m : Namespace) =>
        Restores (m.definitionsFrom place none) (SourceItem.defined place i)) hhits (by
      rintro i hi hit hhit ⟨name, inside, defined, rfl, hname, hinside⟩
      have hmem := (List.mem_filter.mp hi).1
      have hlen := byteLength_text_le hmem
      have hlt := byteLength_lt_blockText name inside
      have hcells := cells_groupFragment_sublist (isDelimited_braces namespaceHead) horder hhit
      cases hitems _ hmem with
      | block hplain _ hreads =>
        refine hreads document _ fuel hit.span _ _ place ?_ (horder.sublist hcells) hinside ?_
        · rw [hname, trim_name hplain]
        · change byteLength (blockText name inside) ≤ _ at hlen
          omega)
    have horder' := horder.sublist ((braces namespaceHead).cells_takeOut_sublist content)
    refine ⟨_, ?_, restores_assemble document span body hplace hitems horder' hrest hnested⟩
    simp only [readBody, erase, hanonymous, hread]
    rfl

end Items

/-! ## Documents -/

/-- A document without comments and preprocessor lines is read as the functions that it defines. -/
theorem readSource_of_items {items : List SourceItem} (hitems : ∀ i ∈ items, i.IsPlain [])
    {document : Text} (htext : (erasePreprocessor (eraseComments (Fragment.ofText document))).text =
      items.flatMap SourceItem.text) :
    ∃ n, readSource document = .ok n ∧
      Restores n.parsedDefinitions (items.flatMap (SourceItem.defined [])) := by
  have hcells := cells_content_sublist document
  refine readsAs_items hitems document [] _ _ _ _ [] rfl ?_ htext ?_
  · exact (pairwise_cells 0 document).sublist hcells
  · have hlen := byteLength_le_of_sublist (hcells.map Cell.char)
    rw [← Cell.text, ← Fragment.text_eq, htext] at hlen
    rw [← Cell.text, text_cells] at hlen
    exact Nat.lt_succ_of_le hlen

end HeaderSync

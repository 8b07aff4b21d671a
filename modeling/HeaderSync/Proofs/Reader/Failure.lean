import HeaderSync.Proofs.Reader.Checked
import HeaderSync.Proofs.Reader.Enclosure

/-!
# Why a header is not read

A header is not read if and only if one of its classes declares two destructors. The declarations are
hits of the destructor of the class in its sections, so no two of them start at the same place.

* `Reader.sectionOf`, `Reader.destructorsOf` : the sections of a class and the destructors declared in
  them;
* `Reader.IsClass` : the classes that are read, at any depth;
* `Reader.isCause_of_readHeader` : what a failure is due to;
* `Reader.isAssembled_of_readHeader`, `Reader.IsAssembled.length_le` : what a success leaves out;
* `Reader.Declares` : where the declarations stand, and what they look like;
* `read_fails_on_destructors`.
-/

namespace HeaderSync

open Text

namespace Reader

open Shapes BodyPattern

/-! ## Destructors of a class -/

/-- What is left of the body of a class without enumerations, nested classes and inline definitions. -/
def ownBody (hit : Hit) : Fragment :=
  eraseInline (classUnit.erase (enumOrUnion.erase (hit.groupFragment 4)))

/-- The part of the body of a class under an access. -/
def sectionOf (hit : Hit) (access : Access) : Fragment :=
  (partition (ownBody hit) (labelsIn (ownBody hit))
    (ClassKeyword.read (hit.group 1)).defaultAccess).parts access

/-- The destructors that a class declares, section by section. -/
def destructorsOf (hit : Hit) : List Hit :=
  Access.all.flatMap fun access => (sectionOf hit access).find (destructor (hit.group 2))

/-- The error for a class that declares more than one destructor. -/
def destructorsError (hit : Hit) : ParseError :=
  .multipleDestructors (hit.group 2) (destructorsOf hit).length

/-- A class is put together unless it declares more than one destructor. -/
theorem assembleClass_cases (hit : Hit) (nested : List Class) :
    let body := classUnit.erase (enumOrUnion.erase (hit.groupFragment 4))
    (2 ≤ (destructorsOf hit).length ∧
        assembleClass hit nested body = .error (destructorsError hit)) ∨
      ((destructorsOf hit).length ≤ 1 ∧ ∃ c, assembleClass hit nested body = .ok c) := by
  intro body
  have hlength : ((Access.all.map fun access =>
      (access, readSection (hit.group 2) access (sectionOf hit access))).flatMap
        fun section_ => section_.2.destructors).length = (destructorsOf hit).length := by
    simp only [List.flatMap_map, List.length_flatMap, destructorsOf, readSection, Fragment.takeOut,
      List.length_map]
  rcases Nat.lt_or_ge 1 (destructorsOf hit).length with hmany | hfew
  · refine .inl ⟨hmany, ?_⟩
    rw [← hlength] at hmany
    rw [destructorsError, ← hlength, assembleClass]
    exact if_pos hmany
  · refine .inr ⟨hfew, ?_⟩
    rw [← hlength] at hfew
    rw [assembleClass]
    exact ⟨_, if_neg (Nat.not_lt_of_le hfew)⟩

/-! ## Classes of a document -/

/-- What is left of the body of a namespace without its namespaces. -/
def withoutNamespaces (content : Fragment) : Fragment :=
  (braces namespaceHead).erase ((braces anonymousNamespaceHead).erase content)

/-- The classes that are read: those in the body of a namespace, and those in the body of a class. -/
inductive IsClass (document : Text) : Hit → Prop where
  | member {content : Fragment} {hit : Hit} (hcontent : IsBody document content)
      (hhit : hit ∈ (classUnit.takeOut (enumOrUnion.erase (withoutNamespaces content))).1) :
      IsClass document hit
  | nested {outer hit : Hit} (houter : IsClass document outer)
      (hhit : hit ∈ (classUnit.takeOut (enumOrUnion.erase (outer.groupFragment 4))).1) :
      IsClass document hit

/-- The class declares more than one destructor, and the error says so. -/
def IsCause (document : Text) (e : ParseError) : Prop :=
  ∃ hit, IsClass document hit ∧ 2 ≤ (destructorsOf hit).length ∧ e = destructorsError hit

/-! ## Failures -/

section Failure

variable {document : Text} {e : ParseError}

/-- The body of a class of a fragment fits one level deeper. -/
theorem Fits.classBody {fuel : Nat} {f : Fragment} (h : Fits (fuel + 1) f) {hit : Hit}
    (hhit : hit ∈ (classUnit.takeOut f).1) :
    Fits fuel (enumOrUnion.erase (hit.groupFragment 4)) :=
  Fits.erase (h.inside isDelimited_classUnit hhit) enumOrUnion

/-- If classes are not read, one of them, or one below them, is the cause. -/
theorem isCause_of_readClasses {fuel : Nat} {f : Fragment} (hfits : Fits fuel f)
    (hf : ∀ hit ∈ (classUnit.takeOut f).1, IsClass document hit)
    (h : readClasses fuel f = .error e) : IsCause document e := by
  induction fuel generalizing f with
  | zero => cases h
  | succ fuel ih =>
    rw [readClasses] at h
    rcases bind_eq_error.1 h with h | ⟨_, -, h⟩
    · obtain ⟨hit, hhit, h⟩ := exists_of_mapM_error h
      have hclass := hf hit hhit
      have hbody := hfits.classBody hhit
      rcases bind_eq_error.1 h with h | ⟨⟨nested, body⟩, hnested, h⟩
      · exact ih hbody (fun inner hinner => .nested hclass hinner) h
      · obtain ⟨fuel, rfl⟩ := hbody.exists_succ
        obtain rfl := eq_erase_of_readClasses hnested
        rcases assembleClass_cases hit nested with ⟨hmany, herror⟩ | ⟨-, c, hok⟩
        · exact ⟨hit, hclass, hmany, Except.error.inj (h.symm.trans herror)⟩
        · cases h.symm.trans hok
    · cases h

theorem isCause_of_headerMembers {content : Fragment} (hcontent : IsBody document content)
    (horder : (withoutNamespaces content).cells.Pairwise Cell.Before)
    (h : headerMembers (withoutNamespaces content) = .error e) : IsCause document e := by
  rw [headerMembers] at h
  rcases bind_eq_error.1 h with h | ⟨_, -, h⟩
  · refine isCause_of_readClasses ⟨?_, Nat.lt_succ_self _⟩ (fun hit hhit => .member hcontent hhit) h
    exact horder.sublist (enumOrUnion.cells_erase_sublist _)
  · cases h

theorem isCause_of_readBody {fuel : Nat} {name : Text} {span : Span} {body : Option Span}
    {content : Fragment} (hcontent : IsBody document content) (hfits : Fits fuel content)
    (h : readBody headerMembers document fuel name span body content = .error e) :
    IsCause document e := by
  induction fuel generalizing name span body content with
  | zero => cases h
  | succ fuel ih =>
    have hnamespaces := hfits.erase (braces anonymousNamespaceHead)
    rw [readBody] at h
    rcases bind_eq_error.1 h with h | ⟨nested, -, h⟩
    · obtain ⟨hit, hhit, h⟩ := exists_of_mapM_error h
      exact ih (.nested hcontent hhit) (hnamespaces.namespaceBody hhit) h
    · rcases bind_eq_error.1 h with h | ⟨_, -, h⟩
      · exact isCause_of_headerMembers hcontent (hnamespaces.erase (braces namespaceHead)).ordered h
      · cases h

/-- If a header is not read, one of its classes is the cause. -/
theorem isCause_of_readHeader (h : readHeader document = .error e) : IsCause document e :=
  isCause_of_readBody .document (fits_document (Nat.lt_succ_self _)) h

end Failure

/-! ## Successes -/

/-- The class was put together, and its body was read to its full depth. -/
def IsAssembled (hit : Hit) : Prop :=
  ∃ fuel nested rest c, Fits fuel (enumOrUnion.erase (hit.groupFragment 4)) ∧
    readClasses fuel (enumOrUnion.erase (hit.groupFragment 4)) = .ok (nested, rest) ∧
    assembleClass hit nested rest = .ok c

theorem isAssembled_of_readClasses {fuel : Nat} {f rest : Fragment} {classes : List Class}
    (hfits : Fits fuel f) (h : readClasses fuel f = .ok (classes, rest)) {hit : Hit}
    (hhit : hit ∈ (classUnit.takeOut f).1) : IsAssembled hit := by
  obtain ⟨fuel, rfl⟩ := hfits.exists_succ
  rw [readClasses] at h
  obtain ⟨_, hclasses, -⟩ := bind_eq_ok.1 h
  obtain ⟨c, hc⟩ := exists_ok_of_mapM hclasses hhit
  obtain ⟨⟨nested, body⟩, hnested, hclass⟩ := bind_eq_ok.1 hc
  exact ⟨fuel, nested, body, c, hfits.classBody hhit, hnested, hclass⟩

/-- A class that was put together declares at most one destructor. -/
theorem IsAssembled.length_le {hit : Hit} (h : IsAssembled hit) : (destructorsOf hit).length ≤ 1 := by
  obtain ⟨fuel, nested, rest, c, hfits, hnested, hclass⟩ := h
  obtain ⟨fuel, rfl⟩ := hfits.exists_succ
  obtain rfl := eq_erase_of_readClasses hnested
  rcases assembleClass_cases hit nested with ⟨-, herror⟩ | ⟨hfew, -⟩
  · cases hclass.symm.trans herror
  · exact hfew

section Success

variable {document : Text} {n : Namespace}

/-- If a header is read, so is the body of each of its namespaces. -/
theorem exists_readBody_of_isBody (h : readHeader document = .ok n) {content : Fragment}
    (hcontent : IsBody document content) : ∃ fuel name span body m, Fits fuel content ∧
      readBody headerMembers document fuel name span body content = .ok m := by
  induction hcontent with
  | document => exact ⟨_, _, _, _, n, fits_document (Nat.lt_succ_self _), h⟩
  | @nested content hit _ hhit ih =>
    obtain ⟨fuel, name, span, body, m, hfits, hread⟩ := ih
    obtain ⟨fuel, rfl⟩ := hfits.exists_succ
    rw [readBody] at hread
    obtain ⟨_, hnested, -⟩ := bind_eq_ok.1 hread
    obtain ⟨inner, hinner⟩ := exists_ok_of_mapM hnested hhit
    have hnamespaces := hfits.erase (braces anonymousNamespaceHead)
    exact ⟨_, _, _, _, inner, hnamespaces.namespaceBody hhit, hinner⟩

/-- If a header is read, each of its classes is put together. -/
theorem isAssembled_of_readHeader (h : readHeader document = .ok n) {hit : Hit}
    (hclass : IsClass document hit) : IsAssembled hit := by
  induction hclass with
  | @member content hit hcontent hhit =>
    obtain ⟨fuel, name, span, body, m, hfits, hread⟩ := exists_readBody_of_isBody h hcontent
    obtain ⟨fuel, rfl⟩ := hfits.exists_succ
    have hbody : Fits (fuel + 1) (withoutNamespaces content) :=
      (hfits.erase (braces anonymousNamespaceHead)).erase (braces namespaceHead)
    rw [readBody] at hread
    obtain ⟨_, -, hread⟩ := bind_eq_ok.1 hread
    obtain ⟨members, hmembers, -⟩ := bind_eq_ok.1 hread
    obtain ⟨⟨classes, rest⟩, hclasses, -⟩ := bind_eq_ok.1 hmembers
    exact isAssembled_of_readClasses
      ⟨(hbody.erase enumOrUnion).ordered, Nat.lt_succ_self _⟩ hclasses hhit
  | nested _ hhit ih =>
    obtain ⟨fuel, nested, rest, c, hfits, hnested, -⟩ := ih
    exact isAssembled_of_readClasses hfits hnested hhit

end Success

/-! ## Sections -/

theorem pairwise_labelsIn {body : Fragment} (horder : body.cells.Pairwise Cell.Before) :
    (labelsIn body).Pairwise fun l m => l.2.stop ≤ m.2.first := by
  refine (Fragment.pairwise_find horder accessLabel).filterMap _ fun h k hle l hl m hm => ?_
  obtain ⟨_, -, rfl⟩ := Option.map_eq_some_iff.mp hl
  obtain ⟨_, -, rfl⟩ := Option.map_eq_some_iff.mp hm
  exact hle

/-- The sections start behind the first label. -/
theorem first_le_of_mem_sectionSpans {last : Nat} {labels : List (Access × Span)}
    (hlabels : labels.Pairwise fun l m => l.2.stop ≤ m.2.first) {label : Access × Span}
    (hhead : labels.head? = some label) {section_ : Access × Span}
    (h : section_ ∈ sectionSpans last labels) : label.2.stop ≤ section_.2.first := by
  induction labels generalizing label with
  | nil => cases hhead
  | cons first rest ih =>
    obtain rfl := Option.some.inj hhead
    obtain ⟨access, span⟩ := first
    obtain ⟨hfirst, hrest⟩ := List.pairwise_cons.mp hlabels
    rw [sectionSpans, List.mem_append] at h
    rcases h with h | h
    · rw [Option.mem_toList, Option.map_eq_some_iff] at h
      obtain ⟨s, hs, rfl⟩ := h
      exact (Span.between?_eq_some hs).1.ge
    · cases rest with
      | nil => cases h
      | cons next rest =>
        have hnext := hfirst next List.mem_cons_self
        have hlt := next.2.first_lt_stop
        have hle := ih hrest rfl h
        dsimp only at hnext ⊢
        omega

/-- The sections are in order. -/
theorem pairwise_sectionSpans {last : Nat} {labels : List (Access × Span)}
    (hlabels : labels.Pairwise fun l m => l.2.stop ≤ m.2.first) :
    (sectionSpans last labels).Pairwise fun s t => s.2.stop ≤ t.2.first := by
  induction labels with
  | nil => exact .nil
  | cons label rest ih =>
    obtain ⟨access, span⟩ := label
    obtain ⟨hfirst, hrest⟩ := List.pairwise_cons.mp hlabels
    rw [sectionSpans, List.pairwise_append]
    refine ⟨?_, ih hrest, fun s hs t ht => ?_⟩
    · cases Span.between? _ _ with
      | none => exact .nil
      | some s => exact List.pairwise_singleton _ _
    · rw [Option.mem_toList, Option.map_eq_some_iff] at hs
      obtain ⟨s, hs, rfl⟩ := hs
      cases rest with
      | nil => cases ht
      | cons next rest =>
        have hnext := hfirst next List.mem_cons_self
        have hlast : s.last = next.2.first - 1 := (Span.between?_eq_some hs).2
        have hlt := next.2.first_lt_stop
        have hspan := span.first_lt_stop
        have hle := first_le_of_mem_sectionSpans hrest rfl ht
        unfold Span.stop at *
        dsimp only at *
        omega

section Parts

variable {body : Fragment} {labels : List (Access × Span)} {default access other : Access} {b c : Block}

/-- A block of a part stands in a section of the access, or apart from all sections, under the default
access. -/
theorem mem_parts {last : Nat} (hlast : body.last? = some last)
    (hb : b ∈ ((partition body labels default).parts access).blocks) :
    b ∈ (body.slice (itemsIn access (sectionSpans last labels))).blocks ∨
      access = default ∧ ∀ s ∈ sectionSpans last labels, b.span.Disjoint s.2 := by
  rw [parts_partition hlast] at hb
  split at hb
  · rename_i hdefault
    rw [Fragment.union, List.mem_mergeSort, List.mem_append] at hb
    refine hb.imp_right fun hb => ⟨hdefault, fun s hs => ?_⟩
    exact disjoint_of_mem_outside hb (List.mem_map_of_mem hs)
  · exact .inl hb

/-- The parts under different accesses do not overlap. -/
theorem disjoint_parts (hlabels : labels.Pairwise fun l m => l.2.stop ≤ m.2.first)
    (hne : access ≠ other) (hb : b ∈ ((partition body labels default).parts access).blocks)
    (hc : c ∈ ((partition body labels default).parts other).blocks) : b.span.Disjoint c.span := by
  cases hlast : body.last? with
  | none =>
    rw [partition, hlast] at hb
    cases hb
  | some last =>
    have hapart : (sectionSpans last labels).Pairwise fun s t => s.2.Disjoint t.2 :=
      (pairwise_sectionSpans hlabels).imp fun h => Span.disjoint_iff.2 (.inl h)
    rcases mem_parts hlast hb with hb | ⟨hdefault, hb⟩ <;>
      rcases mem_parts hlast hc with hc | ⟨hdefault', hc⟩
    · refine Fragment.disjoint_of_mem_slice hc fun t ht => ?_
      refine (Fragment.disjoint_of_mem_slice hb fun s hs => ?_).symm
      refine hapart.forall (mem_itemsIn.1 ht) (mem_itemsIn.1 hs) fun heq => hne ?_
      exact (Prod.mk.inj heq).1.symm
    · exact (Fragment.disjoint_of_mem_slice hb fun s hs => hc _ (mem_itemsIn.1 hs)).symm
    · exact Fragment.disjoint_of_mem_slice hc fun t ht => hb _ (mem_itemsIn.1 ht)
    · exact absurd (hdefault.trans hdefault'.symm) hne

/-- The characters of different parts stand at different places. -/
theorem offset_ne_of_parts (hlabels : labels.Pairwise fun l m => l.2.stop ≤ m.2.first)
    (hne : access ≠ other) {x y : Cell}
    (hx : x ∈ ((partition body labels default).parts access).cells)
    (hy : y ∈ ((partition body labels default).parts other).cells) : x.offset ≠ y.offset := by
  obtain ⟨b, hb, hx⟩ := List.mem_flatMap.mp hx
  obtain ⟨c, hc, hy⟩ := List.mem_flatMap.mp hy
  have hdisjoint := Span.disjoint_iff.1 (disjoint_parts hlabels hne hb hc)
  have hxin := Block.bounds_of_mem_cells hx
  have hyin := Block.bounds_of_mem_cells hy
  have hxlt := x.offset_lt_stop
  have hylt := y.offset_lt_stop
  omega

end Parts

/-! ## Declarations -/

section Class

variable {document : Text} {hit : Hit}

/-- The body of a class stands in the span of the class, behind its start. -/
theorem inside_of_mem_classUnit {f : Fragment} (horder : f.cells.Pairwise Cell.Before)
    (hhit : hit ∈ (classUnit.takeOut f).1) : (hit.groupFragment 4).cells.Sublist f.cells ∧
      ∀ x ∈ (hit.groupFragment 4).cells, hit.span.first < x.offset ∧ x.stop ≤ hit.span.stop := by
  obtain ⟨window, hwindow, hstep⟩ := exists_step_of_mem_takeOut hhit
  have hworder := horder.sublist hwindow
  obtain ⟨_, _, opening, _, closing, _, _, hunit⟩ := isUnit_of_step isDelimited_classUnit hworder hstep
  obtain ⟨hgroup, hbetween⟩ : (hit.groupFragment 4).cells.Sublist window.cells ∧ _ :=
    hunit.groupFragment_spec hworder
  obtain ⟨-, -, hopening, -, hclosing⟩ := hunit.delimiters_mem hworder
  refine ⟨hgroup.trans hwindow, fun x hx => ?_⟩
  have hx := hbetween x hx
  have h₁ := opening.offset_lt_stop
  have h₂ := closing.offset_lt_stop
  omega

/-- The class is found among characters of the document. -/
theorem IsClass.exists_fragment (h : IsClass document hit) : ∃ f : Fragment,
    f.cells.Sublist (cells 0 document) ∧ hit ∈ (classUnit.takeOut f).1 := by
  induction h with
  | member hcontent hhit =>
    refine ⟨_, ?_, hhit⟩
    exact (((enumOrUnion.cells_erase_sublist _).trans (cells_erase_sublist _ _)).trans
      (cells_erase_sublist _ _)).trans hcontent.cells_sublist
  | nested _ hhit ih =>
    obtain ⟨f, hf, houter⟩ := ih
    refine ⟨_, ?_, hhit⟩
    have hinside := (inside_of_mem_classUnit ((pairwise_cells 0 document).sublist hf) houter).1
    exact ((enumOrUnion.cells_erase_sublist _).trans hinside).trans hf

/-- Where the destructors of a class are declared, and what the declarations look like. -/
structure Declares (document : Text) (hit : Hit) : Prop where
  /-- The class stands in the document. -/
  bounded : hit.span.Bounded (cells 0 document)
  /-- The declarations stand in the class. -/
  within : ∀ d ∈ destructorsOf hit, hit.span.contains d.span = true
  /-- They read as destructors of the class. -/
  isMatch : ∀ d ∈ destructorsOf hit, ∃ l r g, (destructor (hit.group 2)).Matches l d.text r g
  /-- No two of them start at the same place. -/
  apart : (destructorsOf hit).Pairwise fun d e => d.span.first ≠ e.span.first

/-- The declarations of different sections start at different places. -/
theorem first_ne_of_sections (horder : (ownBody hit).cells.Pairwise Cell.Before)
    {access other : Access} (hne : access ≠ other) {d e : Hit} {p : Pattern}
    (hd : d ∈ (sectionOf hit access).find p) (he : e ∈ (sectionOf hit other).find p) :
    d.span.first ≠ e.span.first := by
  obtain ⟨⟨x, hx, hdx⟩, -⟩ := Fragment.bounded_of_mem_find hd
  obtain ⟨⟨y, hy, hey⟩, -⟩ := Fragment.bounded_of_mem_find he
  rw [hdx, hey]
  exact offset_ne_of_parts (pairwise_labelsIn horder) hne hx hy

theorem IsClass.declares (h : IsClass document hit) : Declares document hit := by
  obtain ⟨f, hf, hhit⟩ := h.exists_fragment
  have hforder := (pairwise_cells 0 document).sublist hf
  obtain ⟨hinside, hspan⟩ := inside_of_mem_classUnit hforder hhit
  have hown : (ownBody hit).cells.Sublist (hit.groupFragment 4).cells :=
    ((cells_eraseInline_sublist _).trans (classUnit.cells_erase_sublist _)).trans
      (enumOrUnion.cells_erase_sublist _)
  have horder := hforder.sublist (hown.trans hinside)
  refine ⟨(bounded_of_mem_takeOut hhit).mono hf.subset, fun d hd => ?_, fun d hd => ?_, ?_⟩
  · obtain ⟨access, -, hd⟩ := List.mem_flatMap.mp hd
    refine ((Fragment.bounded_of_mem_find hd).mono ?_).contains fun x hx =>
      ⟨Nat.le_of_lt (hspan x hx).1, (hspan x hx).2⟩
    exact fun x hx => hown.subset (cells_partition_subset hx)
  · obtain ⟨access, -, hd⟩ := List.mem_flatMap.mp hd
    obtain ⟨l, r, g, -, hmatch⟩ := Fragment.exists_matches_of_mem_find hd
    exact ⟨l, r, g, hmatch⟩
  · refine List.pairwise_flatMap.mpr ⟨fun access _ => ?_, ?_⟩
    · refine (Fragment.pairwise_find (pairwise_partition horder _ _ _) _).imp fun {d e} hle => ?_
      exact Nat.ne_of_lt (Nat.lt_of_lt_of_le d.span.first_lt_stop hle)
    · have hall : Access.all.Pairwise (· ≠ ·) := by decide
      exact hall.imp fun hne d hd e he => first_ne_of_sections horder hne hd he

end Class

end Reader

/-! ## Every document -/

/-- In more steps than the document has bytes, every source is read, and every header is read unless one
of its classes declares two destructors or more. No notation fails to be read, whatever the names of the
classes are; no span is inverted and no block is empty; and no search and no descent is cut short. -/
theorem read_fails_on_destructors (document : Text) {clock : Nat}
    (hclock : byteLength document < clock) :
    (∃ n, readSource document = .ok n ∧ Checked.readSource clock document = .ok n) ∧
      ((∃ n, readHeader document = .ok n ∧ Checked.readHeader clock document = .ok n ∧
          ∀ hit, Reader.IsClass document hit → (Reader.destructorsOf hit).length ≤ 1) ∨
        ∃ hit count, Reader.IsClass document hit ∧ Reader.Declares document hit ∧
          count = (Reader.destructorsOf hit).length ∧ 2 ≤ count ∧
          readHeader document = .error (.multipleDestructors (hit.group 2) count) ∧
          Checked.readHeader clock document =
            .error (.parse (.multipleDestructors (hit.group 2) count))) := by
  constructor
  · obtain ⟨n, hn⟩ := exists_readSource document
    exact ⟨n, hn, by rw [Checked.readSource_eq hclock, hn, Except.mapError]⟩
  · cases hread : readHeader document with
    | ok n =>
      refine .inl ⟨n, rfl, by rw [Checked.readHeader_eq hclock, hread, Except.mapError], ?_⟩
      exact fun hit hclass => (Reader.isAssembled_of_readHeader hread hclass).length_le
    | error e =>
      obtain ⟨hit, hclass, hmany, rfl⟩ := Reader.isCause_of_readHeader hread
      refine .inr ⟨hit, _, hclass, hclass.declares, rfl, hmany, rfl, ?_⟩
      rw [Checked.readHeader_eq hclock, hread, Except.mapError]
      rfl

/-- One destructor in each of two sections. -/
theorem read_fails_on_destructors_twice :
    let document : Text := "struct A\x7b~A();private:~A();\x7d;"
    byteLength document < 40 ∧ (∃ n, Checked.readSource 40 document = .ok n) ∧
      readHeader document = .error (.multipleDestructors "A" 2) ∧
      Checked.readHeader 40 document = .error (.parse (.multipleDestructors "A" 2)) ∧
      ∃ hit, Reader.IsClass document hit ∧ Reader.Declares document hit ∧ hit.group 2 = ("A" : Text) ∧
        (Reader.destructorsOf hit).length = 2 := by
  intro document
  have hclock : byteLength document < 40 := by decide
  have hheader : readHeader document = .error (.multipleDestructors "A" 2) :=
    Reader.eq_error_of_failure? (by decide +kernel)
  obtain ⟨⟨n, -, hsource⟩, hfails⟩ := read_fails_on_destructors document hclock
  obtain ⟨m, hok, -⟩ | ⟨hit, count, hclass, hdeclares, hcount, -, herror, hchecked⟩ := hfails
  · cases hheader.symm.trans hok
  · obtain ⟨hname, rfl⟩ := ParseError.multipleDestructors.inj
      (Except.error.inj (herror.symm.trans hheader))
    refine ⟨hclock, ⟨n, hsource⟩, hheader, hname ▸ hchecked, hit, hclass, hdeclares, hname, hcount.symm⟩

end HeaderSync

import HeaderSync.Proofs.Reader.Notations
import HeaderSync.Proofs.Reader.Placed
import HeaderSync.Proofs.Reader.Siblings

/-!
# Reading with every check made

The readers take for granted that the notations of their shapes can be read, that the spans and blocks
they make are well formed, and that their searches and descents end. The checked readers take nothing
for granted: they read a notation where it is used, make spans and blocks by the ways that can fail, and
count the steps of every search and the depth of every descent. With more steps than the document has
bytes they fail where the readers fail, and nowhere else.

* `CheckedError`, `Checked.readHeader`, `Checked.readSource`;
* `Reader.Fits` : a fragment in order that is not too long;
* `Checked.takeOut_eq`, `Checked.takeOutUnits_eq`, `Checked.partition_eq` : no check fails;
* `Checked.readClasses_eq`, `Checked.readBody_eq` : descents end;
* `Checked.readHeader_eq`, `Checked.readSource_eq`.
-/

namespace HeaderSync

open Text

/-- Why a checked reader stops. -/
inductive CheckedError where
  | parse (e : ParseError)
  | text (e : TextError)
  | invalidPattern (written : Text)
  | outOfSteps
deriving DecidableEq, Repr

/-! ## Checked readers -/

namespace Checked

open Reader

def pattern (written : Text) : Except CheckedError Pattern :=
  match Pattern.read? written with
  | some p => .ok p
  | none => .error (.invalidPattern written)

/-- The hits of the pattern, and the fragment without them. -/
def takeOut (w : WrittenPattern) (f : Fragment) : Except CheckedError (List Hit × Fragment) := do
  let p ← pattern w.written
  return f.takeOut p

/-- The units of the body pattern, and the fragment without them, found in `clock` steps. -/
def takeOutUnits (w : WrittenUnit) (clock : Nat) (f : Fragment) :
    Except CheckedError (List Hit × Fragment) := do
  let delimiters := w.unit.delimiters
  let head ← pattern (w.head ++ "\\s*" ++ Pattern.escape [delimiters.opening])
  let tail ← w.tail.mapM fun tail =>
    pattern ("^" ++ Pattern.escape [delimiters.closing] ++ "\\s*" ++ tail)
  match BodyPattern.search? { head, delimiters, tail, accepts := w.unit.accepts } clock f with
  | some found => .ok found
  | none => .error .outOfSteps

def eraseComments (f : Fragment) : Except CheckedError Fragment := do
  let comment ← pattern Notations.comment.written
  return f.splice (((f.find comment).filter fun hit => !hit.hasGroup 1).map Hit.span)

def eraseInline (clock : Nat) (f : Fragment) : Except CheckedError Fragment := do
  let cut ← takeOutUnits Notations.inlineDefinition clock f
  let cut ← takeOutUnits Notations.braced clock cut.2
  return cut.2

/-! ### Classes -/

def labelsIn (body : Fragment) : Except CheckedError (List (Access × Span)) := do
  let label ← pattern Notations.accessLabel.written
  return (body.find label).filterMap fun hit =>
    (Access.read? (hit.group 1)).map fun access => (access, hit.span)

/-- The spans after each label, up to the next one or to `last`, where there is something between. -/
def sectionSpans (last : Nat) :
    List (Access × Span) → Except CheckedError (List (Access × Span))
  | [] => .ok []
  | (access, label) :: rest => do
    let until_ := rest.head?.elim last fun next => next.2.first - 1
    let sections ← sectionSpans last rest
    if label.stop ≤ until_ then
      let span ← (Span.ofBounds label.stop until_).mapError .text
      return (access, span) :: sections
    else return sections

def partition (body : Fragment) (labels : List (Access × Span)) (default : Access) :
    Except CheckedError Sections :=
  match body.last? with
  | none => .ok { parts := fun _ => Fragment.empty, rest := body }
  | some last => do
    let spans ← sectionSpans last labels
    let label ← pattern Notations.accessLabel.written
    let cut := (body.splice (spans.map (·.2))).takeOutside label
    let blocks ← cut.1.mapM fun piece => (Block.ofText piece.text piece.span.first).mapError .text
    return {
      parts := fun access =>
        let inside := body.slice (itemsIn access spans)
        if access = default then inside.union ⟨blocks⟩ else inside
      rest := cut.2 }

def readSection (clock : Nat) (className : Text) (access : Access) (part : Fragment) :
    Except CheckedError SectionMembers := do
  let destructors ← takeOut (Notations.destructor className) part
  let constructors ← takeOutUnits (Notations.constructorUnit className) clock destructors.2
  let allocators ← takeOutUnits Notations.allocatorUnit clock constructors.2
  let casts ← takeOut Notations.castOperator allocators.2
  let friends ← takeOutUnits Notations.friendUnit clock casts.2
  let members ← takeOutUnits Notations.memberUnit clock friends.2
  let functions := allocators.1.map allocatorOf ++ casts.1.filterMap castOperatorOf? ++
    friends.1.map friendOf ++ members.1.filterMap memberOf?
  return {
    destructors := destructors.1.map (destructorOf access)
    constructors := constructors.1.map constructorOf
    functions := functions.mergeSort fun f g => f.span.first ≤ g.span.first }

def isInterfaceBody (clock : Nat) (body : Fragment) : Except CheckedError Bool := do
  let cut ← takeOutUnits Notations.classUnit clock body
  let cut ← takeOutUnits Notations.enumOrUnion clock cut.2
  let pure_ ← pattern Notations.pureVirtual.written
  return cut.2.isMatch pure_

def assembleClass (clock : Nat) (hit : Hit) (nested : List Class) (body : Fragment) :
    Except CheckedError Class := do
  let keyword := ClassKeyword.read (hit.group 1)
  let name := hit.group 2
  let isInterface ← isInterfaceBody clock (hit.groupFragment 4)
  let body ← eraseInline clock body
  let labels ← labelsIn body
  let sections ← partition body labels keyword.defaultAccess
  let members ← Access.all.mapM fun access => do
    return (access, ← readSection clock name access (sections.parts access))
  let destructors := members.flatMap fun section_ => section_.2.destructors
  if 1 < destructors.length then
    .error (.parse (.multipleDestructors name destructors.length))
  else
    return {
      names := ClassNames.ofDeclared name isInterface
      keyword
      bases := ((Signature.splitTopLevel ',' (hit.group 3)).map Text.trim).filter fun base =>
        !base.isEmpty
      span := hit.span
      destructor := destructors.head?
      constructors := members.flatMap fun (access, section_) =>
        section_.constructors.map fun c => (access, c)
      functions := members.flatMap fun (access, section_) =>
        section_.functions.map fun f => (access, f)
      nested := nested.map fun c => (accessAt labels keyword.defaultAccess c.span.first, c) }

/-- Reads the classes of a fragment, `clock` levels deep. -/
def readClasses : (clock : Nat) → Fragment → Except CheckedError (List Class × Fragment)
  | 0, _ => .error .outOfSteps
  | clock + 1, f => do
    let cut ← takeOutUnits Notations.classUnit (clock + 1) f
    let classes ← cut.1.mapM fun hit => do
      let inner ← takeOutUnits Notations.enumOrUnion (clock + 1) (hit.groupFragment 4)
      let found ← readClasses clock inner.2
      assembleClass (clock + 1) hit found.1 found.2
    return (classes, cut.2)

/-! ### Namespaces -/

/-- Reads the members of a namespace, `clock` steps long and levels deep. -/
abbrev MemberReader := Nat → Fragment → Except CheckedError (List Class × List Function)

def headerMembers : MemberReader := fun clock body => do
  let cut ← takeOutUnits Notations.enumOrUnion clock body
  let found ← readClasses clock cut.2
  let rest ← eraseInline clock found.2
  let functions ← takeOutUnits Notations.standaloneUnit clock rest
  return (found.1, functions.1.map standaloneOf)

def sourceMembers : MemberReader := fun clock body => do
  let cut ← takeOutUnits Notations.typeUnit clock body
  let constructors ← takeOutUnits Notations.constructorDefinition clock cut.2
  let destructors ← takeOutUnits Notations.destructorDefinition clock constructors.2
  let casts ← takeOutUnits Notations.castDefinition clock destructors.2
  let functions ← takeOutUnits Notations.definition clock casts.2
  return ([], (constructors.1.map constructorDefinitionOf ++
      destructors.1.map destructorDefinitionOf ++ casts.1.map castDefinitionOf ++
      functions.1.map definitionOf).mergeSort fun f g => f.span.first ≤ g.span.first)

/-- Reads the body of a namespace, `clock` levels deep. -/
def readBody (read : MemberReader) (document : Text) : (clock : Nat) → (name : Text) → Span →
    Option Span → Fragment → Except CheckedError Namespace
  | 0, _, _, _, _ => .error .outOfSteps
  | clock + 1, name, span, body, content => do
    let cut ← takeOutUnits Notations.anonymousNamespaceUnit (clock + 1) content
    let cut ← takeOutUnits Notations.namespaceUnit (clock + 1) cut.2
    let nested ← cut.1.mapM fun hit =>
      readBody read document clock (Text.trim (hit.group 1)) hit.span
        ((hit.group? 2).map Group.span) (hit.groupFragment 2)
    return assemble document name span body nested (← read (clock + 1) cut.2)

def readDocument (read : MemberReader) (clock : Nat) (document : Text) :
    Except CheckedError Namespace := do
  let span ← (Span.ofBounds 0 (byteLength document - 1)).mapError .text
  let content ← eraseComments (Fragment.ofText document)
  let cut ← takeOut Notations.preprocessorLine content
  readBody read document clock [] span (some span) cut.2

/-- Reads the declarations of a header in `clock` steps. -/
def readHeader (clock : Nat) (document : Text) : Except CheckedError Namespace :=
  readDocument headerMembers clock document

/-- Reads the definitions of a source in `clock` steps. -/
def readSource (clock : Nat) (document : Text) : Except CheckedError Namespace :=
  readDocument sourceMembers clock document

end Checked

/-! ## Fragments that fit -/

namespace Reader

/-- The fragment is in order, and shorter than the number of steps. -/
structure Fits (clock : Nat) (f : Fragment) : Prop where
  ordered : f.cells.Pairwise Cell.Before
  length_lt : f.length < clock

theorem Fits.of_sublist {clock : Nat} {f g : Fragment} (h : Fits clock f)
    (hsub : g.cells.Sublist f.cells) : Fits clock g :=
  ⟨h.ordered.sublist hsub, Nat.lt_of_le_of_lt (Fragment.length_le_of_sublist hsub) h.length_lt⟩

theorem Fits.mono {clock clock' : Nat} {f : Fragment} (h : Fits clock f) (hle : clock ≤ clock') :
    Fits clock' f :=
  ⟨h.ordered, Nat.lt_of_lt_of_le h.length_lt hle⟩

theorem Fits.exists_succ {clock : Nat} {f : Fragment} (h : Fits clock f) : ∃ n, clock = n + 1 :=
  Nat.exists_eq_succ_of_ne_zero (Nat.ne_zero_of_lt h.length_lt)

theorem Fits.erase {clock : Nat} {f : Fragment} (h : Fits clock f) (m : BodyPattern) :
    Fits clock (m.takeOut f).2 :=
  h.of_sublist (m.cells_takeOut_sublist f)

theorem Fits.takeOut {clock : Nat} {f : Fragment} (h : Fits clock f) (p : Pattern) :
    Fits clock (f.takeOut p).2 :=
  h.of_sublist (f.cells_takeOut_sublist p)

/-- The inside of a unit is shorter than the fragment that it is found in: the opening delimiter is
missing. -/
theorem Fits.inside {clock : Nat} {f : Fragment} (h : Fits (clock + 1) f) {m : BodyPattern}
    (hm : m.IsDelimited) {unit : Hit} (hunit : unit ∈ (m.takeOut f).1) :
    Fits clock (unit.groupFragment (m.head.groupCount + 1)) := by
  obtain ⟨window, hwindow, hstep⟩ := BodyPattern.exists_step_of_mem_takeOut hunit
  have hworder := h.ordered.sublist hwindow
  obtain ⟨_, _, opening, _, _, _, _, hparts⟩ := BodyPattern.isUnit_of_step hm hworder hstep
  obtain ⟨hsub, hbetween⟩ := hparts.groupFragment_spec hworder
  have hinside := hworder.sublist hsub
  have hopening : (opening :: (unit.groupFragment (m.head.groupCount + 1)).cells).Sublist
      window.cells := by
    refine Cell.sublist_of_subset (.cons (fun x hx => (hbetween x hx).1) hinside) hworder ?_
    exact List.cons_subset.mpr ⟨(hparts.delimiters_mem hworder).1, hsub.subset⟩
  have hle := byteLength_le_of_sublist ((hopening.trans hwindow).map Cell.char)
  have hpos := opening.char.utf8Size_pos
  have hlt := h.length_lt
  rw [List.map_cons, byteLength_cons] at hle
  rw [Fragment.length, Fragment.text_eq] at hlt
  refine ⟨hinside, ?_⟩
  rw [Fragment.length, Fragment.text_eq]
  unfold Cell.text at hlt ⊢
  omega

theorem groupCount_namespaceHead :
    (BodyPattern.braces Shapes.namespaceHead).head.groupCount = 1 := by
  decide

/-- The body of a namespace of a fragment fits one level deeper. -/
theorem Fits.namespaceBody {clock : Nat} {f : Fragment} (h : Fits (clock + 1) f) {hit : Hit}
    (hhit : hit ∈ ((BodyPattern.braces Shapes.namespaceHead).takeOut f).1) :
    Fits clock (hit.groupFragment 2) := by
  have hinside := h.inside (BodyPattern.isDelimited_braces _) hhit
  rwa [groupCount_namespaceHead] at hinside

/-- What a document is read from fits where the document does. -/
theorem fits_document {document : Text} {clock : Nat} (h : byteLength document < clock) :
    Fits clock (erasePreprocessor (eraseComments (Fragment.ofText document))) := by
  have hwhole : Fits clock (Fragment.ofText document) := by
    refine ⟨?_, ?_⟩
    · rw [Fragment.cells_ofText]
      exact pairwise_cells 0 document
    · rwa [Fragment.length, Fragment.text_eq, Fragment.cells_ofText, text_cells]
  refine hwhole.of_sublist ?_
  rw [Fragment.cells_ofText]
  exact cells_content_sublist document

theorem eq_erase_of_readClasses {fuel : Nat} {f rest : Fragment} {classes : List Class}
    (h : readClasses (fuel + 1) f = .ok (classes, rest)) :
    rest = classUnit.erase f := by
  obtain ⟨_, -, h⟩ := bind_eq_ok.1 h
  exact (Prod.mk.inj (Except.ok.inj h)).2.symm

end Reader

namespace Checked

open Reader

/-! ## Checks -/

theorem pattern_eq {written : Text} {shape : Pattern} (h : Pattern.Writes written shape) :
    ∃ p, pattern written = .ok p ∧ p.Regroups shape := by
  obtain ⟨p, hread, hp⟩ := h
  exact ⟨p, by rw [pattern, hread], hp⟩

theorem find_eq {p q : Pattern} (h : p.Regroups q) (f : Fragment) : f.find p = f.find q := by
  rw [Fragment.find, Fragment.find, h.findAll_eq]

theorem ok_bind {ε α β : Type} (a : α) (f : α → Except ε β) : (Except.ok a >>= f) = f a := rfl

theorem takeOut_eq (w : WrittenPattern) (f : Fragment) : takeOut w f = .ok (f.takeOut w.shape) := by
  obtain ⟨p, hp, hregroups⟩ := pattern_eq w.writes
  rw [takeOut, hp, ok_bind, Fragment.takeOut, Fragment.takeOut, find_eq hregroups]
  rfl

/-- The notation of a body pattern is read as the body pattern. -/
theorem exists_regroups (w : WrittenUnit) : ∃ head tail,
    pattern (w.head ++ "\\s*" ++ Pattern.escape [w.unit.delimiters.opening]) = .ok head ∧
    w.tail.mapM (fun tail => pattern ("^" ++ Pattern.escape [w.unit.delimiters.closing] ++ "\\s*" ++
      tail)) = .ok tail ∧
    BodyPattern.Regroups ⟨head, w.unit.delimiters, tail, w.unit.accepts⟩ w.unit := by
  obtain ⟨headText, tailText, ⟨shape, delimiters, tailShape, accepts⟩, hhead, htail⟩ := w
  obtain ⟨head, hread, hregroups⟩ := pattern_eq hhead
  cases htail with
  | none => exact ⟨head, none, hread, rfl, hregroups, .none, rfl, rfl⟩
  | some hwrites =>
    obtain ⟨tail, htail, htailRegroups⟩ := pattern_eq hwrites
    refine ⟨head, some tail, hread, ?_, hregroups, .some htailRegroups, rfl, rfl⟩
    rw [Option.mapM_some, htail]
    rfl

theorem takeOutUnits_eq (w : WrittenUnit) {clock : Nat} {f : Fragment} (h : Fits clock f) :
    takeOutUnits w clock f = .ok (w.unit.takeOut f) := by
  obtain ⟨head, tail, hhead, htail, hregroups⟩ := exists_regroups w
  rw [takeOutUnits, hhead, ok_bind, htail, ok_bind, hregroups.search?_eq,
    BodyPattern.search?_eq h.length_lt]

theorem eraseComments_eq (f : Fragment) : eraseComments f = .ok (Reader.eraseComments f) := by
  obtain ⟨p, hp, hregroups⟩ := pattern_eq Notations.comment.writes
  rw [eraseComments, hp, ok_bind, find_eq hregroups]
  rfl

theorem eraseInline_eq {clock : Nat} {f : Fragment} (h : Fits clock f) :
    eraseInline clock f = .ok (Reader.eraseInline f) := by
  rw [eraseInline, takeOutUnits_eq _ h, ok_bind, takeOutUnits_eq _ (h.erase _), ok_bind]
  rfl

theorem labelsIn_eq (body : Fragment) : labelsIn body = .ok (Reader.labelsIn body) := by
  obtain ⟨p, hp, hregroups⟩ := pattern_eq Notations.accessLabel.writes
  rw [labelsIn, hp, ok_bind, find_eq hregroups]
  rfl

/-! ## Sections -/

/-- A section is only made where something stands between two labels. -/
theorem sectionSpans_eq (last : Nat) (labels : List (Access × Span)) :
    sectionSpans last labels = .ok (Reader.sectionSpans last labels) := by
  induction labels with
  | nil => rfl
  | cons label rest ih =>
    obtain ⟨access, label⟩ := label
    rw [sectionSpans, Reader.sectionSpans, ih, ok_bind, Span.ofBounds, Span.between?]
    split
    · rfl
    · rfl

/-- What stands outside the sections are blocks, which are not empty. -/
theorem mapM_ofBlock (blocks : List Block) :
    (blocks.map Hit.ofBlock).mapM (fun piece =>
      (Block.ofText piece.text piece.span.first).mapError CheckedError.text) = .ok blocks := by
  have hblock : ∀ b : Block, Block.ofText (Hit.ofBlock b).text (Hit.ofBlock b).span.first = .ok b :=
    fun b => dif_pos b.content_ne_nil
  induction blocks with
  | nil => rfl
  | cons b blocks ih =>
    rw [List.map_cons, List.mapM_cons, ih, hblock]
    rfl

theorem partition_eq (body : Fragment) (labels : List (Access × Span)) (default : Access) :
    partition body labels default = .ok (Reader.partition body labels default) := by
  obtain ⟨p, hp, hregroups⟩ := pattern_eq Notations.accessLabel.writes
  rw [partition, Reader.partition]
  cases body.last? with
  | none => rfl
  | some last =>
    dsimp only
    rw [sectionSpans_eq, ok_bind, hp, ok_bind, Fragment.takeOutside, Fragment.takeOutside,
      find_eq hregroups, mapM_ofBlock, ok_bind]
    dsimp only
    rw [filterMap_ofBlock]
    rfl

/-! ## Classes -/

theorem readSection_eq {clock : Nat} {part : Fragment} (h : Fits clock part) (className : Text)
    (access : Access) :
    readSection clock className access part = .ok (Reader.readSection className access part) := by
  have hdestructors := h.takeOut (Notations.destructor className).shape
  have hconstructors := hdestructors.erase (Notations.constructorUnit className).unit
  have hallocators := hconstructors.erase Notations.allocatorUnit.unit
  have hcasts := hallocators.takeOut Notations.castOperator.shape
  have hfriends := hcasts.erase Notations.friendUnit.unit
  rw [readSection, takeOut_eq, ok_bind, takeOutUnits_eq _ hdestructors, ok_bind,
    takeOutUnits_eq _ hconstructors, ok_bind, takeOut_eq, ok_bind, takeOutUnits_eq _ hcasts, ok_bind,
    takeOutUnits_eq _ hfriends, ok_bind]
  rfl

theorem isInterfaceBody_eq {clock : Nat} {body : Fragment} (h : Fits clock body) :
    isInterfaceBody clock body = .ok (Reader.isInterfaceBody body) := by
  obtain ⟨p, hp, hregroups⟩ := pattern_eq Notations.pureVirtual.writes
  rw [isInterfaceBody, takeOutUnits_eq _ h, ok_bind, takeOutUnits_eq _ (h.erase _), ok_bind, hp,
    ok_bind, Fragment.isMatch, hregroups.isMatch_eq]
  rfl

/-- The parts of a body are not longer than the body. -/
theorem fits_partition {clock : Nat} {body : Fragment} (h : Fits clock body)
    (labels : List (Access × Span)) (default access : Access) :
    Fits clock ((Reader.partition body labels default).parts access) :=
  h.of_sublist (Cell.sublist_of_subset (pairwise_partition h.ordered labels default access) h.ordered
    cells_partition_subset)

theorem mapM_readSection {clock : Nat} {parts : Access → Fragment}
    (h : ∀ access, Fits clock (parts access)) (className : Text) :
    Access.all.mapM (fun access => do
      return (access, ← readSection clock className access (parts access))) =
      .ok (Access.all.map fun access =>
        (access, Reader.readSection className access (parts access))) := by
  simp only [fun access => readSection_eq (h access) className access, ok_bind]
  rfl

theorem assembleClass_eq {clock : Nat} {hit : Hit} {body : Fragment}
    (hhit : Fits clock (hit.groupFragment 4)) (hbody : Fits clock body) (nested : List Class) :
    assembleClass clock hit nested body =
      (Reader.assembleClass hit nested body).mapError .parse := by
  have hinline : Fits clock (Reader.eraseInline body) :=
    hbody.of_sublist (cells_eraseInline_sublist body)
  rw [assembleClass, isInterfaceBody_eq hhit, ok_bind, eraseInline_eq hbody, ok_bind, labelsIn_eq,
    ok_bind, partition_eq, ok_bind, mapM_readSection (fun _ => fits_partition hinline ..), ok_bind,
    Reader.assembleClass]
  dsimp only
  split
  · rfl
  · rfl

theorem error_bind {ε α β : Type} (e : ε) (f : α → Except ε β) : (Except.error e >>= f) = .error e :=
  rfl

theorem mapError_bind {ε ε' α β : Type} (lift : ε → ε') (x : Except ε α) (f : α → Except ε β) :
    (x >>= f).mapError lift = x.mapError lift >>= fun a => (f a).mapError lift := by
  cases x with
  | error e => rfl
  | ok a => rfl

theorem mapM_mapError {ε ε' α β : Type} {lift : ε → ε'} {f : α → Except ε' β} {g : α → Except ε β}
    {xs : List α} (h : ∀ x ∈ xs, f x = (g x).mapError lift) :
    xs.mapM f = (xs.mapM g).mapError lift := by
  induction xs with
  | nil => rfl
  | cons x xs ih =>
    obtain ⟨hx, hxs⟩ := List.forall_mem_cons.mp h
    rw [List.mapM_cons, List.mapM_cons, hx, ih hxs]
    simp only [mapError_bind]
    rfl

/-- With enough fuel, and enough steps, classes are read to their full depth. -/
theorem readClasses_eq {clock fuel : Nat} {f : Fragment} (h : Fits clock f) (hfuel : Fits fuel f) :
    readClasses clock f = (Reader.readClasses fuel f).mapError .parse := by
  induction clock generalizing fuel f with
  | zero => cases h.length_lt
  | succ clock ih =>
    obtain ⟨fuel, rfl⟩ := hfuel.exists_succ
    rw [readClasses, Reader.readClasses, takeOutUnits_eq _ h, ok_bind, mapError_bind,
      mapM_mapError]
    · rfl
    intro hit hhit
    have hinside : Fits clock (hit.groupFragment 4) := h.inside isDelimited_classUnit hhit
    have hbody : Fits clock (Reader.enumOrUnion.erase (hit.groupFragment 4)) := hinside.erase _
    have hbodyFuel : Fits fuel (Reader.enumOrUnion.erase (hit.groupFragment 4)) :=
      (hfuel.inside isDelimited_classUnit hhit).erase _
    have hread := ih hbody hbodyFuel
    rw [takeOutUnits_eq _ (hinside.mono (Nat.le_succ clock)), ok_bind, mapError_bind]
    change readClasses clock (Reader.enumOrUnion.erase (hit.groupFragment 4)) >>= _ = _
    rw [hread]
    cases hnested : Reader.readClasses fuel (Reader.enumOrUnion.erase (hit.groupFragment 4)) with
    | error e => rw [Except.mapError, error_bind, error_bind]
    | ok found =>
      obtain ⟨nested, body⟩ := found
      obtain ⟨fuel, rfl⟩ := hbodyFuel.exists_succ
      obtain rfl := eq_erase_of_readClasses hnested
      rw [Except.mapError, ok_bind, ok_bind]
      exact assembleClass_eq (hinside.mono (Nat.le_succ clock))
        ((hbody.erase Reader.classUnit).mono (Nat.le_succ clock)) nested

/-! ## Namespaces -/

/-- The checked reader of members fails where the reader does, on every body that fits. -/
def Follows (read : MemberReader) (members : HeaderSync.MemberReader) : Prop :=
  ∀ ⦃clock : Nat⦄ ⦃body : Fragment⦄, Fits clock body →
    read clock body = (members body).mapError .parse

theorem follows_headerMembers : Follows headerMembers Reader.headerMembers := by
  intro clock body h
  have hbody : Fits clock (Reader.enumOrUnion.erase body) := h.erase _
  rw [headerMembers, Reader.headerMembers, takeOutUnits_eq _ h, ok_bind]
  change readClasses clock (Reader.enumOrUnion.erase body) >>= _ = _
  rw [readClasses_eq hbody ⟨hbody.ordered, Nat.lt_succ_self _⟩, mapError_bind]
  cases hclasses : Reader.readClasses _ (Reader.enumOrUnion.erase body) with
  | error e => rw [Except.mapError, error_bind, error_bind]
  | ok found =>
    obtain ⟨classes, rest⟩ := found
    obtain rfl := eq_erase_of_readClasses hclasses
    have hrest : Fits clock (Reader.classUnit.erase (Reader.enumOrUnion.erase body)) := hbody.erase _
    rw [Except.mapError, ok_bind, ok_bind, eraseInline_eq hrest, ok_bind,
      takeOutUnits_eq _ (hrest.of_sublist (cells_eraseInline_sublist _)), ok_bind]
    rfl

theorem follows_sourceMembers : Follows sourceMembers Reader.sourceMembers := by
  intro clock body h
  have htypes := h.erase Notations.typeUnit.unit
  have hconstructors := htypes.erase Notations.constructorDefinition.unit
  have hdestructors := hconstructors.erase Notations.destructorDefinition.unit
  have hcasts := hdestructors.erase Notations.castDefinition.unit
  rw [sourceMembers, takeOutUnits_eq _ h, ok_bind, takeOutUnits_eq _ htypes, ok_bind,
    takeOutUnits_eq _ hconstructors, ok_bind, takeOutUnits_eq _ hdestructors, ok_bind,
    takeOutUnits_eq _ hcasts, ok_bind]
  rfl

/-- With enough fuel, and enough steps, namespaces are read to their full depth. -/
theorem readBody_eq {read : MemberReader} {members : HeaderSync.MemberReader}
    (hread : Follows read members) (document : Text) {clock fuel : Nat} {name : Text} {span : Span}
    {body : Option Span} {content : Fragment} (h : Fits clock content) (hfuel : Fits fuel content) :
    readBody read document clock name span body content =
      (Reader.readBody members document fuel name span body content).mapError .parse := by
  induction clock generalizing fuel name span body content with
  | zero => cases h.length_lt
  | succ clock ih =>
    obtain ⟨fuel, rfl⟩ := hfuel.exists_succ
    have hcontent := h.erase Notations.anonymousNamespaceUnit.unit
    have hcontentFuel := hfuel.erase Notations.anonymousNamespaceUnit.unit
    rw [readBody, Reader.readBody, takeOutUnits_eq _ h, ok_bind, takeOutUnits_eq _ hcontent, ok_bind,
      mapError_bind, mapM_mapError]
    · refine congrArg _ (funext fun nested => ?_)
      rw [hread (hcontent.erase Notations.namespaceUnit.unit), mapError_bind]
      rfl
    · intro hit hhit
      exact ih (hcontent.namespaceBody hhit) (hcontentFuel.namespaceBody hhit)

/-- With more steps than the document has bytes, no check fails and no search or descent is cut short.
-/
theorem readDocument_eq {read : MemberReader} {members : HeaderSync.MemberReader}
    (hread : Follows read members) {document : Text} {clock : Nat}
    (hclock : byteLength document < clock) :
    readDocument read clock document =
      (Reader.readDocument members document).mapError .parse := by
  have hspan : Span.ofBounds 0 (byteLength document - 1) = .ok (documentSpan document) := rfl
  rw [readDocument, hspan, Except.mapError, ok_bind, eraseComments_eq, ok_bind, takeOut_eq, ok_bind]
  exact readBody_eq hread document (fits_document hclock) (fits_document (Nat.lt_succ_self _))

theorem readHeader_eq {document : Text} {clock : Nat} (hclock : byteLength document < clock) :
    readHeader clock document = (HeaderSync.readHeader document).mapError .parse :=
  readDocument_eq follows_headerMembers hclock

theorem readSource_eq {document : Text} {clock : Nat} (hclock : byteLength document < clock) :
    readSource clock document = (HeaderSync.readSource document).mapError .parse :=
  readDocument_eq follows_sourceMembers hclock

end Checked

end HeaderSync

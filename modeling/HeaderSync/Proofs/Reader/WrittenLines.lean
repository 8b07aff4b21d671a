import HeaderSync.Proofs.Merge.SecondSync
import HeaderSync.Proofs.Reader.WrittenSource
import HeaderSync.Proofs.Tree.Blocks

/-!
# Lines that are read back

* `Lines.render_appendBlock` : two blocks are written with a blank line between them;
* `render_definitionLines` : the lines of a definition are its text;
* `Writes` : lines that are a list of items;
* `Writes.appendBlock`, `Writes.separated` : blocks of such lines;
* `Writes.wrapInNamespace` : a namespace around them.
-/

namespace HeaderSync

open Text Signature

/-! ## Lines -/

namespace Text

theorem joinWith_append (glue : Text) {parts more : List Text} (hparts : parts ≠ [])
    (hmore : more ≠ []) :
    joinWith glue (parts ++ more) = joinWith glue parts ++ (glue ++ joinWith glue more) := by
  induction parts with
  | nil => exact absurd rfl hparts
  | cons part parts ih =>
    cases parts with
    | nil =>
      obtain ⟨next, more, rfl⟩ := List.exists_cons_of_ne_nil hmore
      rw [List.singleton_append, Signature.joinWith_cons_cons, Signature.joinWith_singleton]
    | cons next parts =>
      rw [List.cons_append, List.cons_append, joinWith_cons_cons, ← List.cons_append,
        ih (List.cons_ne_nil _ _), joinWith_cons_cons]
      simp only [List.append_assoc]

end Text

namespace Lines

variable {indent : Text}

theorem render_append {a b : Lines} (ha : a.isEmpty = false) (hb : b.isEmpty = false) :
    (a ++ b).render indent = a.render indent ++ '\n' :: b.render indent := by
  change joinWith "\n" ((a.items ++ b.items).map (renderItem indent)) = _
  rw [List.map_append, joinWith_append]
  · rfl
  · simpa [isEmpty] using ha
  · simpa [isEmpty] using hb

theorem render_blank : blank.render indent = [] :=
  rfl

theorem render_line (t : Text) : (line t).render indent = t := by
  cases t with
  | nil => rfl
  | cons c t => simp [line, lineAt, render, renderItem, Signature.joinWith_singleton]

/-- Two blocks are written with a blank line between them. -/
theorem render_appendBlock {a b : Lines} (ha : a.isEmpty = false) (hb : b.isEmpty = false) :
    (a.appendBlock b).render indent = a.render indent ++ ("\n\n" ++ b.render indent) := by
  have hab : (a ++ blank).isEmpty = false := by
    change (a.items ++ blank.items).isEmpty = false
    simp [blank, line, lineAt]
  rw [appendBlock, if_neg (by simp [hb]), if_neg (by simp [ha]), render_append hab hb,
    render_append ha rfl, render_blank]
  simp

/-- The last line after others, each of which ends in a line feed. -/
theorem render_append_line (l : Lines) (t : Text) :
    (l ++ line t).render indent = l.items.flatMap (fun item => renderItem indent item ++ ['\n']) ++ t := by
  change joinWith "\n" ((l.items ++ [(0, t)]).map (renderItem indent)) = _
  rw [List.map_append, List.map_singleton]
  have hlast : renderItem indent (0, t) = t := by
    cases t <;> simp [renderItem]
  rw [hlast]
  generalize l.items = items
  induction items with
  | nil => exact joinWith_singleton _ _
  | cons item items ih =>
    rw [List.map_cons, List.cons_append, ← List.singleton_append, joinWith_append _ (by simp)
      (by simp), ih, joinWith_singleton, List.flatMap_cons]
    simp

end Lines

open Lines

/-! ## Definitions -/

/-- What stands between the braces of a definition with the lines `body`. -/
def bodyText (indent : Text) (body : Lines) : Text :=
  '\n' :: (body.nest 1).items.flatMap fun item => renderItem indent item ++ ['\n']

/-- The lines of a definition are its text. -/
theorem render_definitionLines (indent : Text) (f : Function) (body : Lines) :
    (definitionLines (SourceMerge.heading f) body).render indent =
      (Written.ofFunction f (bodyText indent body)).text := by
  have hfirst : ∀ t : Text, renderItem indent (0, t) = t := fun t => by
    cases t <;> simp [renderItem]
  rw [definitionLines, render_append_line]
  change List.flatMap _ ((0, SourceMerge.heading f ++ " \x7b") :: (body.nest 1).items) ++ _ = _
  rw [List.flatMap_cons, hfirst, bodyText, SourceMerge.heading, Function.signature]
  cases hconst : f.isConst <;>
    simp [Written.text, Written.ofFunction, Written.ending, hconst, onlyIf]

/-- Without brackets and marks. -/
def IsClear (t : Text) : Prop :=
  IsFlat t ∧ IsUnmarked t

instance (t : Text) : Decidable (IsClear t) :=
  inferInstanceAs (Decidable (_ ∧ _))

namespace IsClear

variable {s t : Text}

theorem append (hs : IsClear s) (ht : IsClear t) : IsClear (s ++ t) :=
  ⟨hs.1.append ht.1, hs.2.append ht.2⟩

theorem of_subset (ht : IsClear t) (h : ∀ c ∈ s, c ∈ t ∨ c = ' ') : IsClear s := by
  have hspace : ' ' ∉ brackets ∧ ' ' ∉ marks := by decide
  constructor
  · intro c hc
    rcases h c hc with hc | rfl
    · exact ht.1 c hc
    · exact hspace.1
  · intro c hc
    rcases h c hc with hc | rfl
    · exact ht.2 c hc
    · exact hspace.2

theorem of_allBlank (h : allBlank t = true) : IsClear t :=
  ⟨isFlat_of_allBlank h, isUnmarked_of_allBlank h⟩

theorem flatMap {α : Type} {f : α → Text} {xs : List α} (h : ∀ x ∈ xs, IsClear (f x)) :
    IsClear (xs.flatMap f) :=
  ⟨fun c hc => by
    obtain ⟨x, hx, hc⟩ := List.mem_flatMap.mp hc
    exact (h x hx).1 c hc,
  fun c hc => by
    obtain ⟨x, hx, hc⟩ := List.mem_flatMap.mp hc
    exact (h x hx).2 c hc⟩

end IsClear

theorem mem_of_mem_runsFrom {keep : Char → Bool} {run t w : Text} (hw : w ∈ runsFrom keep run t) :
    ∀ c ∈ w, c ∈ run ∨ c ∈ t := by
  induction t generalizing run with
  | nil =>
    rw [runsFrom] at hw
    split at hw
    · cases hw
    · obtain rfl := List.mem_singleton.mp hw
      exact fun c hc => .inl (List.mem_reverse.mp hc)
  | cons a t ih =>
    intro c hc
    rw [runsFrom] at hw
    split at hw
    · rcases ih hw c hc with h | h
      · exact (List.mem_cons.mp h).elim (fun h => .inr (h ▸ List.mem_cons_self)) .inl
      · exact .inr (List.mem_cons_of_mem a h)
    · split at hw
      · exact .inr (List.mem_cons_of_mem a ((ih hw c hc).resolve_left (by simp)))
      · rcases List.mem_cons.mp hw with rfl | hw
        · exact .inl (List.mem_reverse.mp hc)
        · exact .inr (List.mem_cons_of_mem a ((ih hw c hc).resolve_left (by simp)))

theorem mem_of_mem_joinWith {glue : Text} {parts : List Text} {c : Char}
    (h : c ∈ joinWith glue parts) : c ∈ glue ∨ ∃ part ∈ parts, c ∈ part := by
  induction parts with
  | nil => cases h
  | cons part parts ih =>
    cases parts with
    | nil =>
      rw [joinWith_singleton] at h
      exact .inr ⟨part, List.mem_cons_self, h⟩
    | cons next parts =>
      rw [joinWith_cons_cons, List.mem_append, List.mem_append] at h
      rcases h with h | h | h
      · exact .inr ⟨part, List.mem_cons_self, h⟩
      · exact .inl h
      · exact (ih h).imp id fun ⟨other, hother, hc⟩ => ⟨other, List.mem_cons_of_mem part hother, hc⟩

/-- The words of a type have its characters, and blanks at most. -/
theorem mem_of_mem_tokens {t token : Text} (htoken : token ∈ tokens t) {c : Char} (hc : c ∈ token) :
    c ∈ t ∨ c = ' ' := by
  have hmem := (mem_of_mem_runsFrom htoken c hc).resolve_left (by simp)
  obtain ⟨a, ha, hc⟩ := List.mem_flatMap.mp hmem
  rw [detachChar] at hc
  split at hc
  · rcases List.mem_cons.mp hc with rfl | hc
    · exact .inr rfl
    · rcases List.mem_cons.mp hc with rfl | hc
      · exact .inl ha
      · exact .inr (List.mem_singleton.mp hc)
  · exact .inl (List.mem_singleton.mp hc ▸ ha)

/-- Bringing a return type into one spelling adds blanks at most. -/
theorem mem_of_mem_normalizeReturnType {t : Text} {c : Char} (h : c ∈ normalizeReturnType t) :
    c ∈ t ∨ c = ' ' := by
  rcases mem_of_mem_joinWith h with h | ⟨token, htoken, hc⟩
  · exact .inr (List.mem_singleton.mp h)
  · exact mem_of_mem_tokens (List.mem_filter.mp htoken).1 hc

theorem mem_of_dropTail? {tail t rest : Text} (h : dropTail? tail t = some rest) {c : Char}
    (hc : c ∈ rest) : c ∈ t := by
  obtain ⟨u, hu, rfl⟩ := Option.map_eq_some_iff.mp h
  rw [← List.mem_reverse, dropLead?_eq_some.1 hu]
  exact List.mem_append_right _ (List.mem_reverse.mp hc)

/-- What a new body returns is as clear as the return type. -/
theorem isClear_stub {f : Function} (hkind : ∀ v, f.kind ≠ .castOperator v)
    (htype : IsClear f.returnType) : ∀ item ∈ f.stub.items, IsClear item.2 := by
  have hreturned : ∀ t ∈ f.returnedType?, IsClear t := by
    intro t ht
    have hsome : some (normalizeReturnType f.returnType) = some t := by
      rw [Function.returnedType?] at ht
      have hkept := (Option.mem_filter_iff.mp ht).1
      split at hkept
      · exact absurd ‹_› (hkind _)
      · exact hkept
    obtain rfl := Option.some.inj hsome
    exact htype.of_subset fun c hc => mem_of_mem_normalizeReturnType hc
  rw [Function.stub]
  cases hreturn : f.returnedType? with
  | none => exact List.forall_mem_nil _
  | some t =>
    have ht := hreturned t hreturn
    have hlast : IsClear " returnValue;" := by decide
    have hstatic : IsClear "static " := by decide
    refine List.forall_mem_cons.mpr ⟨IsClear.append ?_ hlast, List.forall_mem_singleton.mpr (by decide)⟩
    cases htail : dropTail? " &" t with
    | none => exact ht
    | some referenced =>
      exact hstatic.append (ht.of_subset fun c hc => .inl (mem_of_dropTail? htail hc))

/-- A body is clear if its lines are. -/
theorem isClear_bodyText {indent : Text} (hindent : allBlank indent = true) {body : Lines}
    (h : ∀ item ∈ body.items, IsClear item.2) : IsClear (bodyText indent body) := by
  have hnewline : IsClear ['\n'] := by decide
  refine hnewline.append (IsClear.flatMap fun item hitem => IsClear.append ?_ hnewline)
  obtain ⟨⟨level, t⟩, ht, rfl⟩ := List.mem_map.mp hitem
  rw [renderItem]
  split
  · exact IsClear.of_allBlank rfl
  · refine IsClear.append (IsClear.of_allBlank (List.all_eq_true.mpr fun c hc => ?_)) (h _ ht)
    obtain ⟨u, hu, hc⟩ := List.mem_flatten.mp hc
    rw [List.eq_of_mem_replicate hu] at hc
    exact List.all_eq_true.mp hindent c hc

/-! ## Items -/

/-- The lines are a list of items at `place`, which define the functions `defined`. -/
def Writes (indent : Text) (place : List Text) (l : Lines) (defined : List (List Text × Function)) :
    Prop :=
  ∃ items : List SourceItem, (∀ i ∈ items, i.IsPlain place) ∧
    l.render indent = items.flatMap SourceItem.text ∧
    ∀ d, d ∈ items.flatMap (SourceItem.defined place) ↔ d ∈ defined

theorem SourceItem.eq_nil_of_text {place : List Text} {i : SourceItem} (h : i.text = []) :
    i.defined place = [] := by
  cases i with
  | gap blank => rfl
  | definition f body => exact absurd h (Written.text_ne_nil _)
  | block name inside defined =>
    have htext : blockText name inside = [] := h
    simp [blockText] at htext

namespace Writes

variable {indent : Text} {place : List Text} {a b : Lines}
  {defined more : List (List Text × Function)}

theorem empty : Writes indent place Lines.empty [] :=
  ⟨[], List.forall_mem_nil _, rfl, fun _ => Iff.rfl⟩

theorem congr (h : Writes indent place a defined) (hsame : ∀ d, d ∈ defined ↔ d ∈ more) :
    Writes indent place a more := by
  obtain ⟨items, hitems, htext, hdefined⟩ := h
  exact ⟨items, hitems, htext, fun d => (hdefined d).trans (hsame d)⟩

theorem blockHeading_eq (name : Text) : blockHeading name = "namespace " ++ (name ++ " ") :=
  rfl

/-- Nothing is defined in no lines. -/
theorem eq_nil (h : Writes indent place Lines.empty defined) : defined = [] := by
  obtain ⟨items, -, htext, hdefined⟩ := h
  refine List.eq_nil_iff_forall_not_mem.mpr fun d hd => ?_
  obtain ⟨i, hi, hd⟩ := List.mem_flatMap.mp ((hdefined d).mpr hd)
  have hnil : i.text = [] := List.flatMap_eq_nil_iff.mp htext.symm i hi
  rw [SourceItem.eq_nil_of_text hnil] at hd
  cases hd

/-- A definition that can be read back. -/
theorem definition {f : Function} {body : Lines}
    (h : IsReadable f (bodyText indent body)) :
    Writes indent place (definitionLines (SourceMerge.heading f) body) [(place, f)] :=
  ⟨[.definition f (bodyText indent body)], List.forall_mem_singleton.mpr (.definition h), by
    rw [render_definitionLines, List.flatMap_singleton]
    rfl, fun d => Iff.rfl⟩

theorem appendBlock (ha : Writes indent place a defined) (hb : Writes indent place b more) :
    Writes indent place (a.appendBlock b) (defined ++ more) := by
  by_cases hbe : b.isEmpty = true
  · rw [eq_empty_of_isEmpty hbe] at hb ⊢
    rwa [hb.eq_nil, List.append_nil]
  by_cases hae : a.isEmpty = true
  · rw [eq_empty_of_isEmpty hae] at ha ⊢
    rwa [ha.eq_nil, List.nil_append, empty_appendBlock]
  obtain ⟨items, hitems, htext, hdefined⟩ := ha
  obtain ⟨items', hitems', htext', hdefined'⟩ := hb
  refine ⟨items ++ .gap "\n\n" :: items', ?_, ?_, fun d => ?_⟩
  · exact List.forall_mem_append.mpr ⟨hitems, List.forall_mem_cons.mpr ⟨.gap (by decide), hitems'⟩⟩
  · rw [render_appendBlock (by simpa using hae) (by simpa using hbe), htext, htext',
      List.flatMap_append, List.flatMap_cons]
    rfl
  · rw [List.flatMap_append, List.mem_append, List.mem_append, hdefined, ← hdefined']
    rfl

theorem separated {α : Type} {block : α → Lines} {told : α → List (List Text × Function)}
    {xs : List α} (h : ∀ x ∈ xs, Writes indent place (block x) (told x)) :
    Writes indent place (Lines.separated (xs.map block)) (xs.flatMap told) := by
  induction xs with
  | nil => exact empty
  | cons x xs ih =>
    obtain ⟨hx, hxs⟩ := List.forall_mem_cons.mp h
    rw [List.map_cons, separated_cons, List.flatMap_cons]
    exact hx.appendBlock (ih hxs)

/-- A namespace around the lines. -/
theorem wrapInNamespace {name : Text} (hname : IsNamespaceName name)
    (h : Writes indent (place ++ Namespace.segmentsOf name) a defined) :
    Writes indent place (HeaderSync.wrapInNamespace name a) defined := by
  rw [HeaderSync.wrapInNamespace]
  split
  · rename_i hempty
    rw [eq_empty_of_isEmpty hempty] at h ⊢
    rw [h.eq_nil]
    exact empty
  · rename_i hne
    obtain ⟨items, hitems, htext, hdefined⟩ := h
    let inner : List SourceItem := .gap "\n\n" :: (items ++ [.gap "\n\n"])
    have hinner : ∀ i ∈ inner, i.IsPlain (place ++ Namespace.segmentsOf name) :=
      List.forall_mem_cons.mpr ⟨.gap (by decide), List.forall_mem_append.mpr
        ⟨hitems, List.forall_mem_singleton.mpr (.gap (by decide))⟩⟩
    refine ⟨[.block name (inner.flatMap SourceItem.text)
      (inner.flatMap (SourceItem.defined (place ++ Namespace.segmentsOf name)))],
      List.forall_mem_singleton.mpr (.block hname (isSound_of_items hinner) (readsAs_items hinner)),
      ?_, fun d => ?_⟩
    · have htop : (line ("namespace " ++ name ++ " \x7b") ++ blank).isEmpty = false := rfl
      have hbody : (line ("namespace " ++ name ++ " \x7b") ++ blank ++ a).isEmpty = false := rfl
      have hall : (line ("namespace " ++ name ++ " \x7b") ++ blank ++ a ++ blank).isEmpty = false :=
        rfl
      rw [render_append hall rfl, render_append hbody rfl, render_append htop (by simpa using hne),
        render_append rfl rfl, render_line, render_line, render_blank, htext,
        List.flatMap_singleton]
      have htext' : inner.flatMap SourceItem.text =
          '\n' :: '\n' :: (items.flatMap SourceItem.text ++ ['\n', '\n']) := by
        change '\n' :: '\n' :: List.flatMap _ (items ++ [.gap "\n\n"]) = _
        rw [List.flatMap_append]
        rfl
      change _ = blockText name (inner.flatMap SourceItem.text)
      rw [htext', blockText, blockHeading_eq]
      simp only [List.append_assoc, List.cons_append, List.nil_append]
      rfl
    · rw [List.flatMap_singleton]
      change d ∈ List.flatMap _ (items ++ [.gap "\n\n"]) ↔ _
      rw [List.flatMap_append, List.mem_append, hdefined]
      exact or_iff_left (List.not_mem_nil)

end Writes

end HeaderSync

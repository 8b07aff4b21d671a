import HeaderSync.Proofs.Reader.ReadBack
import HeaderSync.Proofs.Tree.Induction

/-!
# Sources put together from items

A source that is written in one go is a list of items: blanks, definitions, and namespaces with
items inside. Reading it restores the definitions.

* `SourceItem.text` : an item as it is written;
* `Restores` : the definitions that were read are those that were written;
* `sourceFunctions_of_items` : the definitions at one place;
* `ReadsAs` : what the body of a namespace is read as.
-/

namespace HeaderSync

open Text Pattern Shapes Reader BodyPattern

/-- A piece of a source. A namespace comes with the functions that are defined in it, each with the
namespaces around it. -/
inductive SourceItem where
  | gap (blank : Text)
  | definition (f : Function) (body : Text)
  | block (name inside : Text) (defined : List (List Text × Function))

namespace SourceItem

def text : SourceItem → Text
  | gap blank => blank
  | definition f body => (Written.ofFunction f body).text
  | block name inside _ => blockText name inside

/-- The search that takes a definition. -/
def kind? : SourceItem → Option DefinitionKind
  | definition f _ => some f.definitionKind
  | gap _ | block _ _ _ => none

def isBlock : SourceItem → Bool
  | block _ _ _ => true
  | gap _ | definition _ _ => false

/-- Blanks, or a definition that can be read back. -/
inductive IsSimple : SourceItem → Prop where
  | gap {blank : Text} (h : allBlank blank = true) : IsSimple (gap blank)
  | definition {f : Function} {body : Text} (h : IsReadable f body) : IsSimple (definition f body)

theorem endsInWord_text_definition (f : Function) (body : Text) :
    (definition f body).text.endsInWord = false := by
  have htext : (definition f body).text = ((Written.ofFunction f body).front ++
      '(' :: (f.args ++ ')' :: ((Written.ofFunction f body).ending ++ '\x7b' :: body))) ++ ['\x7d'] := by
    simp [text, Written.text, Written.ofFunction]
  rw [htext, endsInWord, List.getLast?_concat]
  decide

theorem endsInWord_of_allBlank {t : Text} (h : allBlank t = true) : t.endsInWord = false := by
  by_contra hends
  have hnil := eq_nil_of_endsInWord (u := []) h (by simpa using hends)
  rw [hnil] at hends
  exact hends rfl

theorem IsSimple.endsInWord {i : SourceItem} (h : i.IsSimple) : i.text.endsInWord = false := by
  cases h with
  | gap h => exact endsInWord_of_allBlank h
  | definition h => exact endsInWord_text_definition _ _

end SourceItem

open SourceItem

/-! ## The definitions at one place -/

theorem exists_of_forall₂_right {α β : Type} {R : α → β → Prop} {xs : List α} {ys : List β}
    (h : List.Forall₂ R xs ys) : ∀ y ∈ ys, ∃ x ∈ xs, R x y := by
  induction h with
  | nil => exact List.forall_mem_nil _
  | cons hr _ ih =>
    refine List.forall_mem_cons.mpr ⟨⟨_, List.mem_cons_self, hr⟩, fun y hy => ?_⟩
    obtain ⟨x, hx, hxy⟩ := ih y hy
    exact ⟨x, List.mem_cons_of_mem _ hx, hxy⟩

theorem exists_of_forall₂_left {α β : Type} {R : α → β → Prop} {xs : List α} {ys : List β}
    (h : List.Forall₂ R xs ys) : ∀ x ∈ xs, ∃ y ∈ ys, R x y :=
  exists_of_forall₂_right h.flip

/-- The items that the search for definitions of a kind leaves. -/
def remaining (kind : DefinitionKind) (items : List SourceItem) : List SourceItem :=
  items.filter fun i => !(i.kind? == some kind)

theorem isSimple_remaining {kind : DefinitionKind} {items : List SourceItem}
    (h : ∀ i ∈ items, i.IsSimple) : ∀ i ∈ remaining kind items, i.IsSimple :=
  fun i hi => h i (List.mem_filter.mp hi).1

theorem definition_mem_remaining {items : List SourceItem} {kind : DefinitionKind} {f : Function}
    {body : Text} : definition f body ∈ remaining kind items ↔
      definition f body ∈ items ∧ f.definitionKind ≠ kind := by
  rw [remaining, List.mem_filter]
  simp [kind?]

/-- What one search finds among items, and what it leaves. -/
theorem search_of_items (m : BodyPattern) (read : Hit → Function) (kind : DefinitionKind)
    (hm : m.IsSimple) (hconsume : m.head.roundsConsume = true) {items : List SourceItem}
    (hitems : ∀ i ∈ items, i.IsSimple)
    (hgap : ∀ t, allBlank t = true → m.head.Misses t)
    (hrefuses : ∀ f body, definition f body ∈ items → IsReadable f body → f.definitionKind ≠ kind →
      m.Refuses (definition f body).text)
    (htakes : ∀ f body, IsReadable f body → f.definitionKind = kind →
      m.Takes (definition f body).text (ReadsFunction m read f))
    {content : Fragment} (horder : content.cells.Pairwise Cell.Before)
    (htext : content.text = items.flatMap SourceItem.text) :
    (∀ hit ∈ (m.takeOut content).1, ∃ f body, definition f body ∈ items ∧
        read hit = f.readAt hit.span) ∧
      (∀ f body, definition f body ∈ items → f.definitionKind = kind →
        ∃ hit ∈ (m.takeOut content).1, read hit = f.readAt hit.span) ∧
      (m.takeOut content).2.text = (remaining kind items).flatMap SourceItem.text := by
  let taken : SourceItem → Bool := fun i => i.kind? == some kind
  let told : SourceItem → List Capture → Text → Prop := fun i g inside =>
    ∃ f body, i = definition f body ∧ ReadsFunction m read f g inside
  have hrefuses' : ∀ i ∈ items, taken i = false → m.Refuses i.text := by
    intro i hi htaken
    cases hitems i hi with
    | gap h => exact refuses_of_misses (hgap _ h)
    | definition h => exact hrefuses _ _ hi h (by simpa [taken, kind?] using htaken)
  have htakes' : ∀ i ∈ items, taken i = true → m.Takes i.text (told i) := by
    intro i hi htaken
    cases hitems i hi with
    | gap h => simp [taken, kind?] at htaken
    | @definition f body h =>
      exact (htakes _ _ h (by simpa [taken, kind?] using htaken)).imp fun g inside hread =>
        ⟨f, body, rfl, hread⟩
  obtain ⟨hfound, hrest⟩ := takeOut_of_pieces hm hconsume items
    (fun i hi => (hitems i hi).endsInWord) hrefuses' htakes' horder htext
  refine ⟨fun hit hhit => ?_, fun f body hf hkind => ?_, hrest⟩
  · obtain ⟨i, hi, g, inside, hsaid, f, body, rfl, hread⟩ := exists_of_forall₂_right hfound hit hhit
    exact ⟨f, body, (List.mem_filter.mp hi).1, hread hit hsaid⟩
  · obtain ⟨hit, hhit, g, inside, hsaid, f', body', heq, hread⟩ := exists_of_forall₂_left hfound
      (definition f body) (List.mem_filter.mpr ⟨hf, by simp [taken, kind?, hkind]⟩)
    obtain ⟨rfl, rfl⟩ := SourceItem.definition.inj heq
    exact ⟨hit, hhit, hread hit hsaid⟩

theorem misses_of_items {p : Pattern} {items : List SourceItem} (hitems : ∀ i ∈ items, i.IsSimple)
    (hgap : ∀ t, allBlank t = true → p.Misses t)
    (hdefinition : ∀ f body, definition f body ∈ items → IsReadable f body →
      p.Misses (definition f body).text) : p.Misses (items.flatMap SourceItem.text) :=
  misses_flatMap fun i hi => by
    cases hitems i hi with
    | gap h => exact hgap _ h
    | definition h => exact hdefinition _ _ hi h

theorem kind_eq_function {kind : DefinitionKind} (h₁ : kind ≠ .constructor)
    (h₂ : kind ≠ .destructor) : kind = .function := by
  cases kind with
  | constructor => exact absurd rfl h₁
  | destructor => exact absurd rfl h₂
  | function => rfl

/-- No local types are found among definitions. -/
theorem takeOut_types_of_items {items : List SourceItem} (hitems : ∀ i ∈ items, i.IsSimple)
    {content : Fragment} (horder : content.cells.Pairwise Cell.Before)
    (htext : content.text = items.flatMap SourceItem.text) :
    ((braces typeHead).withTail (.lit ";")).takeOut content = ([], content) := by
  have hnone : (braces typeHead).head.find? content.text = none := by
    rw [htext]
    refine Misses.find?_eq_none (by decide) (misses_of_items hitems ?_ ?_)
    · exact fun t ht => misses_of_allBlank (by decide) (by decide) ht
    · exact fun f body _ h => Written.misses_type h.plain
  exact takeOut_of_find?_eq_none horder hnone

/-- No conversions are found among functions. -/
theorem takeOut_casts_of_items {items : List SourceItem} (hitems : ∀ i ∈ items, i.IsSimple)
    (hkinds : ∀ f body, definition f body ∈ items → f.definitionKind = .function)
    {content : Fragment} (horder : content.cells.Pairwise Cell.Before)
    (htext : content.text = items.flatMap SourceItem.text) :
    (braces castDefinitionHead).takeOut content = ([], content) := by
  have hnone : (braces castDefinitionHead).head.find? content.text = none := by
    rw [htext]
    refine Misses.find?_eq_none (by decide) (misses_of_items hitems ?_ ?_)
    · exact fun t ht => misses_of_allBlank (by decide) (by decide +kernel) ht
    · exact fun f body hf h => h.misses_cast (hkinds f body hf)
  exact takeOut_of_find?_eq_none horder hnone

/-- The functions of a body without local types and conversions. -/
theorem mem_sourceFunctions_iff {content : Fragment}
    (htypes : ((braces typeHead).withTail (.lit ";")).takeOut content = ([], content))
    (hcasts : (braces castDefinitionHead).takeOut
        (destructorUnit.takeOut (constructorUnit.takeOut content).2).2 =
      ([], (destructorUnit.takeOut (constructorUnit.takeOut content).2).2)) {g : Function} :
    g ∈ sourceFunctions content ↔
      (∃ hit ∈ (constructorUnit.takeOut content).1, constructorDefinitionOf hit = g) ∨
      (∃ hit ∈ (destructorUnit.takeOut (constructorUnit.takeOut content).2).1,
        destructorDefinitionOf hit = g) ∨
      ∃ hit ∈ (definitionUnit.takeOut
        (destructorUnit.takeOut (constructorUnit.takeOut content).2).2).1, definitionOf hit = g := by
  unfold constructorUnit destructorUnit at *
  simp only [sourceFunctions, erase, htypes, hcasts, List.mem_mergeSort, List.mem_append,
    List.mem_map, List.map_nil, List.not_mem_nil, or_false, or_assoc]

/-- The functions that are read are those that were written. -/
theorem sourceFunctions_of_items {items : List SourceItem} (hitems : ∀ i ∈ items, i.IsSimple)
    {content : Fragment} (horder : content.cells.Pairwise Cell.Before)
    (htext : content.text = items.flatMap SourceItem.text) :
    (∀ g ∈ sourceFunctions content, ∃ f body s, definition f body ∈ items ∧ g = f.readAt s) ∧
      ∀ f body, definition f body ∈ items → ∃ s, f.readAt s ∈ sourceFunctions content := by
  -- Constructors are taken first, then destructors; functions are left.
  obtain ⟨hfound₁, hall₁, htext₁⟩ := search_of_items constructorUnit constructorDefinitionOf
    .constructor ((isSimple_braces _).only _) (by decide) hitems
    (fun t ht => misses_of_allBlank (by decide) (by decide +kernel) ht)
    (fun f body _ h hkind => h.refuses_constructor hkind)
    (fun f body h hkind => h.takes_constructor hkind) horder htext
  have horder₁ := horder.sublist (constructorUnit.cells_takeOut_sublist content)
  have hitems₁ : ∀ i ∈ remaining .constructor items, i.IsSimple := isSimple_remaining hitems
  obtain ⟨hfound₂, hall₂, htext₂⟩ := search_of_items destructorUnit destructorDefinitionOf
    .destructor ((isSimple_braces _).only _) (by decide) hitems₁
    (fun t ht => misses_of_allBlank (by decide) (by decide +kernel) ht)
    (fun f body hf h hkind => refuses_of_misses
      (h.misses_destructor (kind_eq_function (definition_mem_remaining.1 hf).2 hkind)))
    (fun f body h hkind => h.takes_destructor hkind) horder₁ htext₁
  have horder₂ := horder₁.sublist (destructorUnit.cells_takeOut_sublist _)
  have hitems₂ : ∀ i ∈ remaining .destructor (remaining .constructor items), i.IsSimple :=
    isSimple_remaining hitems₁
  have hkinds : ∀ f body, definition f body ∈ remaining .destructor (remaining .constructor items) →
      f.definitionKind = .function := by
    intro f body hf
    obtain ⟨hf, hdestructor⟩ := definition_mem_remaining.1 hf
    exact kind_eq_function (definition_mem_remaining.1 hf).2 hdestructor
  obtain ⟨hfound₃, hall₃, -⟩ := search_of_items definitionUnit definitionOf .function
    ((isSimple_braces _).only _) (by decide) hitems₂
    (fun t ht => misses_of_allBlank (by decide) (by decide) ht)
    (fun f body hf _ hkind => absurd (hkinds f body hf) hkind)
    (fun f body h hkind => h.takes_definition hkind) horder₂ htext₂
  have hread {g : Function} := mem_sourceFunctions_iff (g := g)
    (takeOut_types_of_items hitems horder htext)
    (takeOut_casts_of_items hitems₂ hkinds horder₂ htext₂)
  refine ⟨fun g hg => ?_, fun f body hf => ?_⟩
  · rcases hread.mp hg with ⟨hit, hhit, rfl⟩ | ⟨hit, hhit, rfl⟩ | ⟨hit, hhit, rfl⟩
    · obtain ⟨f, body, hf, hsame⟩ := hfound₁ hit hhit
      exact ⟨f, body, hit.span, hf, hsame⟩
    · obtain ⟨f, body, hf, hsame⟩ := hfound₂ hit hhit
      exact ⟨f, body, hit.span, (definition_mem_remaining.1 hf).1, hsame⟩
    · obtain ⟨f, body, hf, hsame⟩ := hfound₃ hit hhit
      have hf₁ := (definition_mem_remaining.1 hf).1
      exact ⟨f, body, hit.span, (definition_mem_remaining.1 hf₁).1, hsame⟩
  · cases hkind : f.definitionKind with
    | constructor =>
      obtain ⟨hit, hhit, hsame⟩ := hall₁ f body hf hkind
      exact ⟨hit.span, hread.mpr (.inl ⟨hit, hhit, hsame⟩)⟩
    | destructor =>
      have hf₁ : definition f body ∈ remaining .constructor items :=
        definition_mem_remaining.2 ⟨hf, by rw [hkind]; decide⟩
      obtain ⟨hit, hhit, hsame⟩ := hall₂ f body hf₁ hkind
      exact ⟨hit.span, hread.mpr (.inr (.inl ⟨hit, hhit, hsame⟩))⟩
    | function =>
      have hf₁ : definition f body ∈ remaining .constructor items :=
        definition_mem_remaining.2 ⟨hf, by rw [hkind]; decide⟩
      have hf₂ : definition f body ∈ remaining .destructor (remaining .constructor items) :=
        definition_mem_remaining.2 ⟨hf₁, by rw [hkind]; decide⟩
      obtain ⟨hit, hhit, hsame⟩ := hall₃ f body hf₂ hkind
      exact ⟨hit.span, hread.mpr (.inr (.inr ⟨hit, hhit, hsame⟩))⟩

/-! ## Namespaces -/

/-- Each definition that was found is one of those that were written, and each of those was found. -/
structure Restores (found : List Definition) (defined : List (List Text × Function)) : Prop where
  written : ∀ e ∈ found, ∃ d ∈ defined, ∃ s, e = Definition.ofFunction d.1 [] [] (d.2.readAt s)
  found : ∀ d ∈ defined, ∃ s, Definition.ofFunction d.1 [] [] (d.2.readAt s) ∈ found

/-- The body `t` of a namespace at `place` is read as the functions `defined`. -/
def ReadsAs (t : Text) (place : List Text) (defined : List (List Text × Function)) : Prop :=
  ∀ (document name : Text) (fuel : Nat) (span : Span) (body : Option Span) (content : Fragment)
    (outer : List Text), outer ++ Namespace.segmentsOf name = place →
    content.cells.Pairwise Cell.Before → content.text = t → byteLength t < fuel →
    ∃ n, readBody sourceMembers document fuel name span body content = .ok n ∧
      Restores (n.definitionsFrom outer none) defined

/-- The text can stand in a namespace. -/
structure IsSound (t : Text) : Prop where
  balanced : Delimiters.braces.Balanced t
  named : (braces anonymousNamespaceHead).head.Misses t
  unmarked : IsUnmarked t

namespace SourceItem

/-- The functions that an item at `place` defines. -/
def defined (place : List Text) : SourceItem → List (List Text × Function)
  | gap _ => []
  | definition f _ => [(place, f)]
  | block _ _ defined => defined

/-- An item at `place` that can be read back. -/
inductive IsPlain (place : List Text) : SourceItem → Prop where
  | gap {blank : Text} (h : allBlank blank = true) : IsPlain place (gap blank)
  | definition {f : Function} {body : Text} (h : IsReadable f body) :
      IsPlain place (definition f body)
  | block {name inside : Text} {defined : List (List Text × Function)} (hname : IsNamespaceName name)
      (hinside : IsSound inside)
      (hreads : ReadsAs inside (place ++ Namespace.segmentsOf name) defined) :
      IsPlain place (block name inside defined)

variable {place : List Text} {i : SourceItem}

theorem IsPlain.isSimple (h : i.IsPlain place) (hblock : i.isBlock = false) : i.IsSimple := by
  cases h with
  | gap h => exact .gap h
  | definition h => exact .definition h
  | block => cases hblock

theorem IsPlain.endsInWord (h : i.IsPlain place) : i.text.endsInWord = false := by
  cases h with
  | gap h => exact endsInWord_of_allBlank h
  | definition h => exact endsInWord_text_definition _ _
  | @block name inside defined =>
    have htext : (SourceItem.block name inside defined).text =
        (blockHeading name ++ '\x7b' :: inside) ++ ['\x7d'] := by
      simp [text, blockText]
    rw [htext, Text.endsInWord, List.getLast?_concat]
    decide

end SourceItem

/-! ## Texts that can stand in a namespace -/

namespace IsSound

variable {s t : Text}

theorem append (hs : IsSound s) (ht : IsSound t) : IsSound (s ++ t) where
  balanced := hs.balanced.append ht.balanced
  named := hs.named.append ht.named
  unmarked := hs.unmarked.append ht.unmarked

theorem nil : IsSound [] where
  balanced := Delimiters.balanced_nil
  named := misses_nil
  unmarked := List.forall_mem_nil _

theorem flatMap {ι : Type} {text : ι → Text} {items : List ι} (h : ∀ i ∈ items, IsSound (text i)) :
    IsSound (items.flatMap text) := by
  induction items with
  | nil => exact nil
  | cons i items ih =>
    obtain ⟨hi, hitems⟩ := List.forall_mem_cons.mp h
    exact hi.append (ih hitems)

theorem of_allBlank (h : allBlank t = true) : IsSound t where
  balanced := balanced_of_isFlat (isFlat_of_allBlank h) (isUnmarked_of_allBlank h)
  named := misses_of_allBlank (by decide) (by decide) h
  unmarked := isUnmarked_of_allBlank h

theorem balanced_singleton {c : Char} (hc : c = '(' ∨ c = ')') : Delimiters.braces.Balanced [c] :=
  Delimiters.balanced_of_forall fun d hd => by
    obtain rfl := List.mem_singleton.mp hd
    rcases hc with rfl | rfl <;> exact ⟨by decide, by decide, by decide, by decide⟩

/-- A definition. -/
theorem of_isPlain {w : Written} (hw : w.IsPlain) : IsSound w.text where
  balanced := by
    have hpart : ∀ {t : Text}, IsFlat t → (∀ c ∈ t, c ∈ w.text) → Delimiters.braces.Balanced t :=
      fun hflat hin => balanced_of_isFlat hflat fun c hc => hw.unmarked c (hin c hc)
    have hfront := hpart hw.front fun c hc => by simp [Written.text, hc]
    have hargs := hpart hw.args fun c hc => by simp [Written.text, hc]
    have hending := hpart w.isFlat_ending fun c hc => by simp [Written.text, hc]
    have hbody : Delimiters.braces.Balanced ('\x7b' :: (w.body ++ ['\x7d'])) :=
      hw.balanced.group (by decide)
    exact hfront.append ((balanced_singleton (.inl rfl)).append
      (hargs.append ((balanced_singleton (.inr rfl)).append (hending.append hbody))))
  named := Written.misses_anonymousNamespace hw
  unmarked := hw.unmarked

theorem misses_closing : (braces anonymousNamespaceHead).head.Misses ['\x7d'] :=
  misses_of_forall (by decide) (by decide)

/-- A namespace. -/
theorem block {name inside : Text} (hname : IsNamespaceName name) (h : IsSound inside) :
    IsSound (blockText name inside) where
  balanced := by
    have hheading : Delimiters.braces.Balanced (blockHeading name) :=
      balanced_of_isFlat hname.isFlat_blockHeading hname.isUnmarked_blockHeading
    exact hheading.append (h.balanced.group (by decide))
  named := by
    have htext : blockText name inside = (blockHeading name ++ ['\x7b']) ++ (inside ++ ['\x7d']) := by
      simp [blockText]
    rw [htext]
    exact (misses_anonymousNamespace_heading hname).append (h.named.append misses_closing)
  unmarked :=
    have hopen : IsUnmarked ['\x7b'] := by decide
    have hclose : IsUnmarked ['\x7d'] := by decide
    hname.isUnmarked_blockHeading.append (hopen.append (h.unmarked.append hclose))

end IsSound

theorem SourceItem.IsPlain.isSound {place : List Text} {i : SourceItem} (h : i.IsPlain place) :
    IsSound i.text := by
  cases h with
  | gap h => exact .of_allBlank h
  | definition h => exact .of_isPlain h.plain
  | block hname hinside => exact .block hname hinside

theorem isSound_of_items {place : List Text} {items : List SourceItem}
    (h : ∀ i ∈ items, i.IsPlain place) : IsSound (items.flatMap SourceItem.text) :=
  .flatMap fun i hi => (h i hi).isSound

end HeaderSync

import HeaderSync.Proofs.Reader.Placed
import HeaderSync.Proofs.Reader.ReadBack
import HeaderSync.Proofs.Scan.Coverage

/-!
# What stands in the span of a namespace

A document is read without its comments, preprocessor lines and anonymous namespaces. Whatever else
stands in the span of a namespace is part of its heading, one of its braces, or in its body.

* `Reader.IsBody` : the bodies that are read;
* `Reader.LeftOut` : what is left out of them;
* `Reader.Gapless` : between the characters of a body nothing else is missing;
* `Namespace.Framed` : heading, braces and body of a namespace in the document;
* `Namespace.framedBelow_of_readSource` : every namespace of a source is framed.
-/

namespace HeaderSync

open Text Shapes BodyPattern

namespace Reader

/-! ## What is left out -/

/-- The bodies that are read: the document without its comments and preprocessor lines, and, of a
body without its anonymous namespaces, the inside of each namespace. -/
inductive IsBody (document : Text) : Fragment → Prop where
  | document : IsBody document (erasePreprocessor (eraseComments (Fragment.ofText document)))
  | nested {content : Fragment} {hit : Hit} (hcontent : IsBody document content)
      (hhit : hit ∈ ((braces namespaceHead).takeOut
        ((braces anonymousNamespaceHead).erase content)).1) :
      IsBody document (hit.groupFragment 2)

/-- Bodies hold characters of the document, in order. -/
theorem IsBody.cells_sublist {document : Text} {content : Fragment} (h : IsBody document content) :
    content.cells.Sublist (cells 0 document) := by
  induction h with
  | document => exact cells_content_sublist document
  | nested _ hhit ih =>
    have herased := ((braces anonymousNamespaceHead).cells_erase_sublist _).trans ih
    exact (cells_groupFragment_sublist (isDelimited_braces _)
      ((pairwise_cells 0 document).sublist herased) hhit).trans herased

/-- The character stands in a comment, on a preprocessor line or in an anonymous namespace. -/
inductive LeftOut (document : Text) (x : Cell) : Prop where
  | comment {hit : Hit} (hhit : hit ∈ (Fragment.ofText document).find comment)
      (hliteral : hit.hasGroup 1 = false) (hx : x.Inside hit.span) : LeftOut document x
  | preprocessorLine {hit : Hit}
      (hhit : hit ∈ (eraseComments (Fragment.ofText document)).find preprocessorLine)
      (hx : x.Inside hit.span) : LeftOut document x
  | anonymousNamespace {content : Fragment} {hit : Hit} (hcontent : IsBody document content)
      (hhit : hit ∈ ((braces anonymousNamespaceHead).takeOut content).1)
      (hx : x.Inside hit.span) : LeftOut document x

/-- From one character of the fragment to another nothing is missing but what is left out. -/
def Gapless (document : Text) (content : Fragment) : Prop :=
  ∀ s : Span, s.Bounded content.cells → ∀ x ∈ cells 0 document, x.Inside s →
    x ∈ content.cells ∨ LeftOut document x

section Gapless

variable {document : Text} {content : Fragment}

theorem gapless_document (document : Text) :
    Gapless document (erasePreprocessor (eraseComments (Fragment.ofText document))) := by
  intro s _ x hx _
  have horder : (Fragment.ofText document).cells.Pairwise Cell.Before := by
    rw [Fragment.cells_ofText]
    exact pairwise_cells 0 document
  rw [← Fragment.cells_ofText] at hx
  have hcomments : x ∈ (eraseComments (Fragment.ofText document)).cells ∨ _ :=
    Fragment.mem_splice_or_hit horder (fun hit hhit => (List.mem_filter.mp hhit).1) hx
  rcases hcomments with hx | ⟨hit, hhit, hin⟩
  · have hlines : x ∈ (erasePreprocessor (eraseComments (Fragment.ofText document))).cells ∨ _ :=
      Fragment.mem_splice_or_hit (horder.sublist (Fragment.cells_splice_sublist _ _))
        (fun hit hhit => hhit) hx
    rcases hlines with hx | ⟨hit, hhit, hin⟩
    · exact .inl hx
    · exact .inr (.preprocessorLine hhit hin)
  · obtain ⟨hhit, hliteral⟩ := List.mem_filter.mp hhit
    exact .inr (.comment hhit (by simpa using hliteral) hin)

/-- Without anonymous namespaces. -/
theorem Gapless.erase (h : Gapless document content) (hbody : IsBody document content)
    (hsub : content.cells.Sublist (cells 0 document)) :
    Gapless document ((braces anonymousNamespaceHead).erase content) := by
  intro s hs x hx hin
  rcases h s (hs.mono (cells_erase_sublist _ content).subset) x hx hin with hx | hleft
  · have horder := (pairwise_cells 0 document).sublist hsub
    rcases (takeOut_coverage (isDelimited_braces _) horder).1 x hx with hx | ⟨hit, hhit, hin⟩
    · exact .inl hx
    · exact .inr (.anonymousNamespace hbody hhit hin)
  · exact .inr hleft

/-- A namespace of a body: its heading, its braces, and its inside, which is gapless again. -/
structure IsBlock (document : Text) (hit : Hit) (head : List Cell) (opening : Cell)
    (inside : List Cell) (closing : Cell) : Prop where
  cells : (head ++ opening :: (inside ++ [closing])).Sublist (cells 0 document)
  opening_char : opening.char = '\x7b'
  closing_char : closing.char = '\x7d'
  frames : hit.span.Frames (head ++ opening :: (inside ++ [closing]))
  cells_inside : (hit.groupFragment 2).cells = inside
  body : ∀ g, hit.group? 2 = some g → g.span.Frames inside
  covered : ∀ x ∈ Text.cells 0 document, x.Inside hit.span →
    x ∈ head ++ opening :: (inside ++ [closing]) ∨ LeftOut document x
  heading : ∃ l r g, (braces namespaceHead).head.Matches l (Cell.text (head ++ [opening])) r g ∧
    hit.group 1 = captured g 1

theorem Gapless.exists_isBlock (h : Gapless document content)
    (hsub : content.cells.Sublist (cells 0 document)) {hit : Hit}
    (hhit : hit ∈ ((braces namespaceHead).takeOut content).1) :
    ∃ head opening inside closing, IsBlock document hit head opening inside closing := by
  have hm := isDelimited_braces namespaceHead
  have horder := (pairwise_cells 0 document).sublist hsub
  obtain ⟨window, hwindow, hstep, hall⟩ := (takeOut_coverage hm horder).2 hit hhit
  obtain ⟨before, head, opening, inside, closing, tail, after, r, g, hunit, hfragment, hmatch,
    hgroups⟩ := exists_captured_of_step hm (horder.sublist hwindow) hstep
  obtain rfl := hunit.tail_eq_nil rfl
  have hworder := horder.sublist hwindow
  refine ⟨head, opening, inside, closing,
    { cells := ?_
      opening_char := hunit.opening_char
      closing_char := hunit.closing_char
      frames := hunit.frames
      cells_inside := hfragment
      body := fun g hg => (hunit.body g hg).1
      covered := fun x hx hin => ?_
      heading := ⟨_, r, g, hmatch, hgroups 1 Nat.one_pos (by decide)⟩ }⟩
  · refine List.Sublist.trans ?_ (hwindow.trans hsub)
    rw [hunit.cells]
    exact (List.sublist_append_right _ _).trans (List.sublist_append_left _ _)
  · refine (h hit.span (bounded_of_mem_takeOut hhit) x hx hin).imp_left fun hx => ?_
    have hx := hall x hx hin
    rw [hunit.cells] at hx hworder
    obtain ⟨-, hbefore, hafter⟩ := Fragment.inside_or_outside hworder hunit.frames
    rcases List.mem_append.mp hx with hx | hx
    · rcases List.mem_append.mp hx with hx | hx
      · exact (Cell.not_outside_of_inside hin (hbefore x hx)).elim
      · exact hx
    · exact (Cell.not_outside_of_inside hin (hafter x hx)).elim

end Gapless

section Block

variable {document : Text} {hit : Hit} {head inside : List Cell} {opening closing : Cell}

theorem IsBlock.inside_sublist (h : IsBlock document hit head opening inside closing) :
    inside.Sublist (Text.cells 0 document) :=
  (((List.sublist_append_left _ _).cons _).trans (List.sublist_append_right _ _)).trans h.cells

/-- The inside of a namespace is gapless. -/
theorem IsBlock.gapless (h : IsBlock document hit head opening inside closing) :
    Gapless document (hit.groupFragment 2) := by
  intro s hs x hx hin
  rw [h.cells_inside] at hs ⊢
  have horder := (pairwise_cells 0 document).sublist h.cells
  obtain ⟨⟨y, hy, hfirst⟩, z, hz, hstop⟩ := hs
  have hspan : ∀ w ∈ inside, w.Inside hit.span := fun w hw =>
    h.frames.contains horder (by simp [hw])
  have hxspan : x.Inside hit.span := by
    have hy := (hspan y hy).1
    have hz := (hspan z hz).2
    unfold Cell.Inside at hin ⊢
    omega
  refine (h.covered x hx hxspan).imp_left fun hmem => ?_
  -- Neither the heading nor a brace stands between two characters of the inside.
  obtain ⟨-, hgroup, hhead⟩ := List.pairwise_append.mp horder
  obtain ⟨hopening, hrest⟩ := List.pairwise_cons.mp hgroup
  have hclosing := (List.pairwise_append.mp hrest).2.2
  have hlt := x.offset_lt_stop
  unfold Cell.Inside at hin
  simp only [List.mem_append, List.mem_cons, List.not_mem_nil, or_false] at hmem
  rcases hmem with hmem | rfl | hmem | rfl
  · have hbefore : x.stop ≤ y.offset := hhead x hmem y (by simp [hy])
    omega
  · have hbefore : x.stop ≤ y.offset := hopening y (by simp [hy])
    omega
  · exact hmem
  · have hbefore : z.stop ≤ x.offset := hclosing z hz x (by simp)
    omega

end Block

/-! ## Headings -/

/-- The text is a heading up to its brace: the word `namespace`, with `inline` in front of it or
not, and the name. -/
def IsHeading (name t : Text) : Prop :=
  ∃ lead gap rest, t = lead ++ "namespace" ++ gap ++ name ++ rest ∧
    (lead = [] ∨ ∃ blank, lead = "inline" ++ blank ∧ allBlank blank = true) ∧
    allBlank gap = true ∧ allBlank rest = true

theorem isHeading_of_matches {l s r : Text} {g : List Capture}
    (h : (braces namespaceHead).head.Matches l (s ++ ['\x7b']) r g) :
    IsHeading (trim (captured g 1)) s := by
  obtain ⟨s', rest, hs, hrest, hhead⟩ := matches_braces.1 h
  rw [← List.append_assoc] at hs
  obtain rfl : s = s' ++ rest := List.append_cancel_right hs
  obtain ⟨_, name, _, _, rfl, rfl, ⟨_, gap, _, _, rfl, -, ⟨_, keyword, _, _, rfl, -,
    ⟨edge, lead, _, _, rfl, -, hedge, hlead⟩, hkeyword⟩, hgap⟩, g', hname, rfl⟩ := hhead
  obtain ⟨rfl, -⟩ := Pattern.matches_wordEdge.1 hedge
  obtain ⟨rfl, -⟩ := Pattern.matches_lit.1 hkeyword
  obtain ⟨-, hgaps, -⟩ := Pattern.matches_oneOrMore_char.1 hgap
  obtain ⟨_, name, _, _, rfl, -, ⟨⟨c, rfl, hc⟩, -⟩, hchars⟩ := hname
  have hvisible : ∀ d ∈ c :: name, isBlank d = false := by
    refine List.forall_mem_cons.mpr
      ⟨isBlank_eq_false_of_isWordChar (isWordChar_of_identifierStart hc), fun d hd => ?_⟩
    exact isBlank_of_isNameChar
      ((isWordChar_or_colon ((Pattern.matches_zeroOrMore_char.1 hchars).1 d hd)).imp id .inl)
  change IsHeading (trim (c :: name)) _
  rw [trim_eq_self hvisible]
  refine ⟨lead, gap, rest, rfl, ?_, List.all_eq_true.mpr hgaps, hrest⟩
  rcases hlead with ⟨word, blank, _, _, rfl, -, hword, hblank⟩ | ⟨rfl, -⟩
  · obtain ⟨rfl, -⟩ := Pattern.matches_lit.1 hword
    obtain ⟨-, hblanks, -⟩ := Pattern.matches_oneOrMore_char.1 hblank
    exact .inr ⟨blank, rfl, List.all_eq_true.mpr hblanks⟩
  · exact .inl rfl

end Reader

/-! ## Framed namespaces -/

namespace Namespace

/-- The heading of the namespace and its braces in the document, with the body between them. All
else in its span was left out when the document was read. -/
structure Framed (document : Text) (n : Namespace) (head : List Cell) (opening closing : Cell) :
    Prop where
  cells : (head ++ [opening, closing]).Sublist (cells 0 document)
  heading : Reader.IsHeading n.name (Cell.text head)
  opening_char : opening.char = '\x7b'
  closing_char : closing.char = '\x7d'
  span : n.span.Frames (head ++ [opening, closing])
  body : ∀ b ∈ n.body, b.Bounded (Text.cells 0 document) ∧
    opening.stop ≤ b.first ∧ b.stop ≤ closing.offset
  covered : ∀ x ∈ Text.cells 0 document, x.Inside n.span → x ∈ head ∨ x = opening ∨ x = closing ∨
    (∃ b ∈ n.body, x.Inside b) ∨ Reader.LeftOut document x
  blankOutside : n.blankOutside = Reader.blankOutside document n.body n.memberSpans

/-- The namespaces below this one are framed, at any depth. -/
inductive FramedBelow (document : Text) : Namespace → Prop where
  | intro {n : Namespace}
      (framed : ∀ m ∈ n.nested, ∃ head opening closing, m.Framed document head opening closing)
      (nested : ∀ m ∈ n.nested, FramedBelow document m) : FramedBelow document n

end Namespace

namespace Reader

/-- A namespace that is read from the inside of a block is framed by it. -/
theorem IsBlock.framed {document : Text} {hit : Hit} {head inside : List Cell}
    {opening closing : Cell} (h : IsBlock document hit head opening inside closing)
    {nested : List Namespace} {members : List Class × List Function} :
    (assemble document (trim (hit.group 1)) hit.span ((hit.group? 2).map Group.span) nested
      members).Framed document head opening closing := by
  have horder := (pairwise_cells 0 document).sublist h.cells
  have hbraces : (head ++ [opening, closing]).Sublist (head ++ opening :: (inside ++ [closing])) :=
    ((List.sublist_append_right inside [closing]).cons_cons opening).append_left head
  refine
    { cells := hbraces.trans h.cells
      heading := ?_
      opening_char := h.opening_char
      closing_char := h.closing_char
      span := ?_
      body := fun b hb => ?_
      covered := fun x hx hin => ?_
      blankOutside := rfl }
  · obtain ⟨l, r, g, hmatch, hgroup⟩ := h.heading
    rw [Cell.text_append, Cell.text_cons, h.opening_char] at hmatch
    change IsHeading (trim (hit.group 1)) _
    rw [hgroup]
    exact isHeading_of_matches hmatch
  · obtain ⟨first, hfirst, last, hlast, hspan⟩ := h.frames
    refine ⟨first, ?_, last, ?_, hspan⟩
    · rw [List.head?_append] at hfirst ⊢
      exact hfirst
    · rw [List.getLast?_append_of_ne_nil _ (List.cons_ne_nil _ _)] at hlast ⊢
      rw [← List.cons_append, List.getLast?_concat] at hlast
      exact hlast
  · obtain ⟨g, hg, rfl⟩ := Option.map_eq_some_iff.mp hb
    have hframes := h.body g hg
    refine ⟨hframes.bounded fun x hx => h.cells.subset (by simp [hx]), ?_⟩
    obtain ⟨y, hy, hfirst⟩ := hframes.exists_first
    obtain ⟨z, hz, hstop⟩ := hframes.exists_last
    obtain ⟨hopening, hrest⟩ := List.pairwise_cons.mp (List.pairwise_append.mp horder).2.1
    have hy : opening.stop ≤ y.offset := hopening y (List.mem_append_left _ hy)
    have hz : z.stop ≤ closing.offset :=
      (List.pairwise_append.mp hrest).2.2 z hz closing (List.mem_singleton_self _)
    exact ⟨hfirst ▸ hy, hstop ▸ hz⟩
  · rcases h.covered x hx hin with hmem | hleft
    · simp only [List.mem_append, List.mem_cons, List.not_mem_nil, or_false] at hmem
      rcases hmem with hmem | rfl | hmem | rfl
      · exact .inl hmem
      · exact .inr (.inl rfl)
      · refine .inr (.inr (.inr (.inl ?_)))
        cases hgroup : hit.group? 2 with
        | none =>
          rw [← h.cells_inside, Hit.groupFragment, hgroup] at hmem
          cases hmem
        | some g =>
          have hinside := (pairwise_cells 0 document).sublist h.inside_sublist
          exact ⟨g.span, rfl, (h.body g hgroup).contains hinside hmem⟩
      · exact .inr (.inr (.inl rfl))
    · exact .inr (.inr (.inr (.inr hleft)))

/-- The namespaces that are found in a body are framed. -/
theorem framedBelow_of_readBody {read : MemberReader} {document : Text} {fuel : Nat} {name : Text}
    {span : Span} {body : Option Span} {content : Fragment} {n : Namespace}
    (hbody : IsBody document content) (hsub : content.cells.Sublist (cells 0 document))
    (hgapless : Gapless document content)
    (h : readBody read document fuel name span body content = .ok n) : n.FramedBelow document := by
  induction fuel generalizing name span body content n with
  | zero =>
    obtain rfl := Except.ok.inj h
    exact ⟨List.forall_mem_nil _, List.forall_mem_nil _⟩
  | succ fuel ih =>
    rw [readBody] at h
    obtain ⟨nested, hnested, h⟩ := bind_eq_ok.1 h
    obtain ⟨members, -, h⟩ := bind_eq_ok.1 h
    obtain rfl := Except.ok.inj h
    have herase := ((braces anonymousNamespaceHead).cells_erase_sublist content).trans hsub
    have hblock : ∀ m ∈ nested, ∃ hit head opening inside closing,
        IsBlock document hit head opening inside closing ∧ IsBody document (hit.groupFragment 2) ∧
        readBody read document fuel (trim (hit.group 1)) hit.span ((hit.group? 2).map Group.span)
          (hit.groupFragment 2) = .ok m := by
      intro m hm
      obtain ⟨hit, hhit, hm⟩ := exists_of_mem_mapM hnested hm
      obtain ⟨head, opening, inside, closing, hblock⟩ :=
        (hgapless.erase hbody hsub).exists_isBlock herase hhit
      exact ⟨hit, head, opening, inside, closing, hblock, .nested hbody hhit, hm⟩
    refine ⟨fun m hm => ?_, fun m hm => ?_⟩
    · obtain ⟨hit, head, opening, inside, closing, hblock, -, hm⟩ := hblock m hm
      obtain ⟨nested, members, rfl⟩ := exists_assemble_of_readBody hm
      exact ⟨head, opening, closing, hblock.framed⟩
    · obtain ⟨hit, head, opening, inside, closing, hblock, hinner, hm⟩ := hblock m hm
      refine ih hinner ?_ hblock.gapless hm
      rw [hblock.cells_inside]
      exact hblock.inside_sublist

end Reader

/-- The namespaces of a source are framed. -/
theorem Namespace.framedBelow_of_readSource {document : Text} {n : Namespace}
    (h : readSource document = .ok n) : n.FramedBelow document :=
  Reader.framedBelow_of_readBody .document (Reader.cells_content_sublist document)
    (Reader.gapless_document document) h

end HeaderSync

import HeaderSync.Proofs.Text.Trim
import HeaderSync.Proofs.Tree.Induction

/-!
# What is shown of a tree

In the mode of headers every member and every class is written with something to see. A namespace is,
unless there is nothing in it at all.

* `Lines.Shows` : some line has a character that is not blank;
* `Lines.shows_separated`, `Lines.isEmpty_separated` : blocks set apart by empty lines;
* `Function.shows_render`, `Constructor.shows_render`, `Destructor.shows_render`,
  `Class.shows_render`;
* `Namespace.isHollow` : a namespace with no function and no class at any depth;
* `Namespace.shows_render`, `Namespace.isEmpty_render`.
-/

namespace HeaderSync

open Text

namespace Lines

/-- Some line has a character that is not blank. -/
def Shows (l : Lines) : Prop :=
  ∃ item ∈ l.items, allBlank item.2 = false

theorem Shows.append_left {l m : Lines} (h : l.Shows) : (l ++ m).Shows := by
  obtain ⟨item, hitem, hshow⟩ := h
  exact ⟨item, List.mem_append_left _ hitem, hshow⟩

theorem Shows.append_right {l m : Lines} (h : m.Shows) : (l ++ m).Shows := by
  obtain ⟨item, hitem, hshow⟩ := h
  exact ⟨item, List.mem_append_right _ hitem, hshow⟩

theorem Shows.isEmpty_eq {l : Lines} (h : l.Shows) : l.isEmpty = false := by
  obtain ⟨item, hitem, -⟩ := h
  rw [isEmpty, List.isEmpty_eq_false_iff]
  exact List.ne_nil_of_mem hitem

theorem shows_line {t : Text} {c : Char} (hc : c ∈ t) (hb : isBlank c = false) : (line t).Shows := by
  refine ⟨(0, t), List.mem_singleton.mpr rfl, ?_⟩
  by_contra hall
  rw [Bool.not_eq_false, allBlank, List.all_eq_true] at hall
  rw [hall c hc] at hb
  cases hb

theorem mem_joinWith {glue part : Text} {parts : List Text} (h : part ∈ parts) {c : Char}
    (hc : c ∈ part) : c ∈ joinWith glue parts := by
  rw [joinWith, List.mem_flatten]
  refine ⟨part, ?_, hc⟩
  induction parts with
  | nil => cases h
  | cons first rest ih =>
    cases rest with
    | nil => simpa using h
    | cons next rest =>
      rw [List.intersperse_cons_cons]
      rcases List.mem_cons.mp h with rfl | h
      · exact List.mem_cons_self
      · exact List.mem_cons_of_mem _ (List.mem_cons_of_mem _ (ih h))

/-- Lines that show something show it in their text. -/
theorem Shows.trim_render_ne_nil {l : Lines} (h : l.Shows) (indent : Text) :
    trim (l.render indent) ≠ [] := by
  obtain ⟨⟨level, t⟩, hitem, hshow⟩ := h
  obtain ⟨c, hc, hb⟩ : ∃ c ∈ t, isBlank c = false := by simpa [allBlank] using hshow
  have hmem : c ∈ l.render indent := by
    refine mem_joinWith (List.mem_map_of_mem hitem) ?_
    rw [renderItem, if_neg (by simpa using List.ne_nil_of_mem hc)]
    exact List.mem_append_right _ hc
  intro hnil
  obtain ⟨before, after, htext, hbefore, hafter⟩ := exists_trim (l.render indent)
  rw [hnil, List.nil_append] at htext
  rw [htext, List.mem_append] at hmem
  have hblank : isBlank c = true := hmem.elim (List.all_eq_true.mp hbefore c)
    (List.all_eq_true.mp hafter c)
  rw [hblank] at hb
  cases hb

theorem trim_render_of_isEmpty {l : Lines} (h : l.isEmpty = true) (indent : Text) :
    trim (l.render indent) = [] := by
  rw [isEmpty, List.isEmpty_iff] at h
  rw [render, h]
  rfl

/-! ## Blocks -/

theorem isEmpty_appendBlock (l block : Lines) :
    (l.appendBlock block).isEmpty = (l.isEmpty && block.isEmpty) := by
  rw [appendBlock]
  split
  · rename_i h
    simp [h]
  · rename_i h
    split
    · rename_i hl
      simp [hl]
    · rename_i hl
      have hitems : l.items ≠ [] := by simpa [isEmpty] using hl
      have hempty : l.isEmpty = false := by simpa using hl
      rw [hempty, Bool.false_and]
      change (l.items ++ blank.items ++ block.items).isEmpty = false
      simp [hitems]

theorem isEmpty_appendSeparated (l : Lines) (blocks : List Lines) :
    (l.appendSeparated blocks).isEmpty = (l.isEmpty && blocks.all isEmpty) := by
  induction blocks generalizing l with
  | nil => simp [appendSeparated]
  | cons block blocks ih =>
    have h := ih (l.appendBlock block)
    rw [isEmpty_appendBlock] at h
    rw [List.all_cons, ← Bool.and_assoc, ← h]
    rfl

theorem isEmpty_separated (blocks : List Lines) :
    (separated blocks).isEmpty = blocks.all isEmpty := by
  rw [separated, isEmpty_appendSeparated]
  rfl

theorem Shows.appendBlock_left {l : Lines} (h : l.Shows) (block : Lines) :
    (l.appendBlock block).Shows := by
  rw [appendBlock]
  split
  · exact h
  · rw [if_neg (by simp [h.isEmpty_eq])]
    exact h.append_left.append_left

theorem Shows.appendBlock_right {block : Lines} (h : block.Shows) (l : Lines) :
    (l.appendBlock block).Shows := by
  rw [appendBlock, if_neg (by simp [h.isEmpty_eq])]
  split
  · exact h
  · exact h.append_right

theorem Shows.appendSeparated {l : Lines} (h : l.Shows) (blocks : List Lines) :
    (l.appendSeparated blocks).Shows := by
  induction blocks generalizing l with
  | nil => exact h
  | cons block blocks ih => exact ih (h.appendBlock_left block)

theorem shows_appendSeparated {blocks : List Lines} {block : Lines} (hmem : block ∈ blocks)
    (h : block.Shows) (l : Lines) : (l.appendSeparated blocks).Shows := by
  induction blocks generalizing l with
  | nil => cases hmem
  | cons first blocks ih =>
    rcases List.mem_cons.mp hmem with rfl | hmem
    · exact (h.appendBlock_right l).appendSeparated blocks
    · exact ih hmem (l.appendBlock first)

theorem shows_separated {blocks : List Lines} {block : Lines} (hmem : block ∈ blocks)
    (h : block.Shows) : (separated blocks).Shows :=
  shows_appendSeparated hmem h empty

end Lines

/-! ## Members -/

section Header

variable {o : RenderOptions}

theorem ClassChain.accepts_header (chain : ClassChain) : chain.accepts .header = true := by
  rw [ClassChain.accepts]
  split <;> rfl

theorem FunctionKind.form_header (kind : FunctionKind) :
    ∃ before after, kind.form .header = .declaration before after := by
  rcases kind with (_ | _ | _ | _) | _ | _ | (_ | _ | _ | _) | _ | _ <;> exact ⟨_, _, rfl⟩

variable (hmode : o.mode = .header) (hrange : o.range = none)
include hmode hrange

theorem Function.shows_render (f : Function) (chain : ClassChain) : (f.render chain o).Shows := by
  obtain ⟨before, after, hform⟩ := f.kind.form_header
  rw [Function.render, hmode, chain.accepts_header, o.admits_of_range_none hrange, hform]
  exact Lines.shows_line (c := ';') (by simp) (by decide)

theorem Constructor.shows_render (c : Constructor) (chain : ClassChain) :
    (c.render chain o).Shows := by
  rw [Constructor.render, hmode, chain.accepts_header, o.admits_of_range_none hrange]
  exact Lines.shows_line (c := ';') (by simp) (by decide)

theorem Destructor.shows_render (d : Destructor) (chain : ClassChain) :
    (d.render chain o).Shows := by
  rw [Destructor.render, hmode, o.admits_of_range_none hrange]
  exact Lines.shows_line (c := ';') (by simp) (by decide)

theorem Class.shows_render (c : Class) (outer : ClassChain) : (c.render outer o).Shows := by
  rw [Class.render_eq, Class.renderWith, hmode, ClassNames.accepts, o.admits_of_range_none hrange]
  exact Lines.Shows.append_right (Lines.shows_line (c := ';') (by simp) (by decide))

end Header

/-! ## Namespaces -/

namespace Namespace

mutual

/-- No function and no class stands in the namespace, at any depth. -/
def isHollow : Namespace → Bool
  | ⟨_, _, _, functions, classes, nested, _⟩ =>
    functions.isEmpty && classes.isEmpty && areHollow nested
termination_by structural n => n

def areHollow : List Namespace → Bool
  | [] => true
  | n :: rest => n.isHollow && areHollow rest
termination_by structural ns => ns

end

theorem areHollow_eq_all (nested : List Namespace) : areHollow nested = nested.all isHollow := by
  induction nested with
  | nil => rfl
  | cons n rest ih => rw [areHollow, ih, List.all_cons]

theorem isHollow_eq (n : Namespace) :
    n.isHollow = (n.functions.isEmpty && n.classes.isEmpty && n.nested.all isHollow) := by
  cases n
  rw [isHollow, areHollow_eq_all]

theorem memberOptions_header {o : RenderOptions} (hmode : o.mode = .header) (name : Text) :
    memberOptions name o = o := by
  rw [memberOptions, if_neg]
  simp [qualifies, hmode, Mode.isSource]

theorem shows_wrapInNamespace {members : Lines} (h : members.Shows) (name : Text) :
    (wrapInNamespace name members).Shows := by
  rw [wrapInNamespace, if_neg (by simp [h.isEmpty_eq])]
  exact Lines.Shows.append_right (Lines.shows_line (c := '\x7d') (by simp) (by decide))

variable {o : RenderOptions}

/-- A namespace with something in it is written with something to see. -/
theorem shows_render (hmode : o.mode = .header) (hrange : o.range = none) (n : Namespace) :
    n.isHollow = false → (n.render o).Shows := by
  induction n using Namespace.induction with
  | step n ih =>
    intro hollow
    have hmembers : (n.members o (n.nested.map (·.render o))).Shows := by
      rw [isHollow_eq] at hollow
      rw [members]
      by_cases hf : n.functions = []
      · by_cases hc : n.classes = []
        · obtain ⟨m, hm, hshow⟩ : ∃ m ∈ n.nested, m.isHollow = false := by
            simpa [hf, hc] using hollow
          exact Lines.shows_separated (by simp; exact .inr (.inr ⟨m, hm, rfl⟩)) (ih m hm hshow)
        · obtain ⟨c, rest, hc⟩ := List.exists_cons_of_ne_nil hc
          refine Lines.shows_separated ?_ (c.shows_render hmode hrange [])
          simp [hc]
      · obtain ⟨f, rest, hf⟩ := List.exists_cons_of_ne_nil hf
        refine Lines.shows_separated ?_ (f.shows_render hmode hrange [])
        simp [hf]
    rw [render_eq, memberOptions_header hmode, o.admits_of_range_none hrange]
    dsimp only
    split
    · exact hmembers
    · split
      · rename_i h
        cases h
      · split
        · exact hmembers
        · exact shows_wrapInNamespace hmembers n.name

/-- A namespace with nothing in it is not written. -/
theorem isEmpty_render (hmode : o.mode = .header) (n : Namespace) :
    n.isHollow = true → (n.render o).isEmpty = true := by
  induction n using Namespace.induction with
  | step n ih =>
    intro hollow
    rw [isHollow_eq, Bool.and_eq_true, Bool.and_eq_true, List.isEmpty_iff, List.isEmpty_iff,
      List.all_eq_true] at hollow
    obtain ⟨⟨hf, hc⟩, hnested⟩ := hollow
    have hmembers : (n.members o (n.nested.map (·.render o))).isEmpty = true := by
      rw [members, Lines.isEmpty_separated, hf, hc, List.all_eq_true]
      intro block hblock
      simp only [List.map_nil, List.nil_append, List.mem_map] at hblock
      obtain ⟨m, hm, rfl⟩ := hblock
      exact ih m hm (hnested m hm)
    rw [render_eq, memberOptions_header hmode]
    dsimp only
    split
    · exact hmembers
    · split
      · rfl
      · split
        · exact hmembers
        · rw [wrapInNamespace, if_pos hmembers]
          exact hmembers

end Namespace

end HeaderSync

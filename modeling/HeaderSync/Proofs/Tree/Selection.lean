import HeaderSync.Proofs.Tree.Blocks
import Mathlib.Data.List.Perm.Basic

/-!
# Which definitions a source is written with

Writing a source goes through the tree of a header, leaves out what is not wanted and qualifies what
it writes. Listing the definitions that a header calls for is a second walk over the same tree. Both
come to the same members.

* `Namespace.holdsMembers` : members stand in the span of their class or namespace;
* `Namespace.madeIn_of_mem_definitionsFrom` : how the definitions of a namespace are made;
* `Namespace.exists_render_eq_separated` : a namespace is written as its definitions, each with the
  names of the namespaces around it;
* `render_eq_declaredDefinitions` : so is a whole header, up to the order of the definitions.
-/

namespace HeaderSync

open Lines

namespace Namespace

/-! ## Members in the spans of their namespaces -/

mutual

/-- The members of the namespace stand in its span, and so it is with its classes and the nested
namespaces. -/
def holdsMembers : Namespace → Bool
  | n@⟨_, span, _, _, classes, nested, _⟩ =>
    n.memberSpans.all span.contains && classes.all Class.nestedSpans && holdsMembersAll nested
termination_by structural n => n

def holdsMembersAll : List Namespace → Bool
  | [] => true
  | n :: rest => n.holdsMembers && holdsMembersAll rest
termination_by structural ns => ns

end

theorem holdsMembersAll_eq_all (nested : List Namespace) :
    holdsMembersAll nested = nested.all holdsMembers := by
  induction nested with
  | nil => rfl
  | cons n rest ih => rw [holdsMembersAll, ih, List.all_cons]

theorem holdsMembers_iff {n : Namespace} : n.holdsMembers = true ↔
    (∀ s ∈ n.memberSpans, n.span.contains s = true) ∧ (∀ c ∈ n.classes, c.nestedSpans = true) ∧
      ∀ m ∈ n.nested, m.holdsMembers = true := by
  cases n
  rw [holdsMembers, holdsMembersAll_eq_all, Bool.and_eq_true, Bool.and_eq_true, List.all_eq_true,
    List.all_eq_true, List.all_eq_true, and_assoc]

/-- Members that stand in the body of their namespace stand in its span. -/
theorem holdsMembers_of_nestedSpans {n : Namespace} (h : n.nestedSpans = true) :
    n.holdsMembers = true := by
  induction n using Namespace.induction with
  | step n ih =>
    obtain ⟨hbody, hmembers, hclasses, hnested⟩ := nestedSpans_iff.1 h
    refine holdsMembers_iff.2 ⟨fun s hs => ?_, hclasses, fun m hm => ih m hm (hnested m hm).2⟩
    obtain ⟨b, hb, hcontains⟩ := hmembers s hs
    exact Span.contains_trans (hbody b hb) hcontains

/-! ## How definitions are made -/

theorem madeIn_of_mem_writtenDefinitions {n : Namespace} {path : List Text} {mode : Mode}
    {d : Definition} (h : d ∈ n.writtenDefinitions path mode) :
    d.MadeIn path mode ∧ (n.holdsMembers = true → n.span.contains d.span = true) := by
  rw [writtenDefinitions, List.mem_append] at h
  rcases h with h | h
  · obtain ⟨c, hc, hd⟩ := List.mem_flatMap.mp h
    obtain ⟨hmade, hcontains⟩ := c.madeIn_of_mem_definitions [] hd
    refine ⟨hmade, fun hn => ?_⟩
    obtain ⟨hmembers, hclasses, -⟩ := holdsMembers_iff.1 hn
    exact Span.contains_trans
      (hmembers c.span (List.mem_append_left _ (List.mem_append_right _ (List.mem_map_of_mem hc))))
      (hcontains (hclasses c hc))
  · obtain ⟨f, hf, rfl⟩ := List.mem_map.mp h
    obtain ⟨hmem, hdef⟩ := List.mem_filter.mp hf
    refine ⟨⟨rfl, rfl, hdef⟩, fun hn => (holdsMembers_iff.1 hn).1 f.span ?_⟩
    exact List.mem_append_right _ (List.mem_map_of_mem hmem)

/-- The definitions of a namespace are made of members at any depth, which stand in its span where
members do. -/
theorem madeIn_of_mem_definitionsFrom {mode : Mode} {d : Definition} (n : Namespace) :
    ∀ path : List Text, d ∈ n.definitionsFrom path (some mode) →
      d.MadeIn d.namespaces mode ∧ (n.holdsMembers = true → n.span.contains d.span = true) := by
  induction n using Namespace.induction with
  | step n ih =>
    intro path hd
    rw [definitionsFrom_eq, List.mem_append, mem_ownDefinitions] at hd
    rcases hd with hd | hd
    · obtain ⟨hmade, hcontains⟩ := madeIn_of_mem_writtenDefinitions hd
      exact ⟨⟨rfl, hmade.span_eq, hmade.hasDefinition⟩, hcontains⟩
    · obtain ⟨m, hm, hd⟩ := List.mem_flatMap.mp hd
      obtain ⟨hmade, hcontains⟩ := ih m hm _ hd
      refine ⟨hmade, fun hn => ?_⟩
      obtain ⟨hmembers, -, hnested⟩ := holdsMembers_iff.1 hn
      have hspan : m.span ∈ n.memberSpans :=
        List.mem_append_left _ (List.mem_append_left _ (List.mem_map_of_mem hm))
      exact Span.contains_trans (hmembers m.span hspan) (hcontains (hnested m hm))

/-! ## What is written -/

theorem ownDefinitions_perm (n : Namespace) (path : List Text) (mode : Mode) :
    (n.writtenDefinitions path mode).Perm (n.ownDefinitions path (some mode)) :=
  List.perm_append_comm

section Qualified

variable {o : RenderOptions} (hmode : o.mode.isSource = true) (hstyle : o.style = .qualified)
include hmode hstyle

theorem qualifies_nested (path : List Text) : qualifies (o.nested path) = true := by
  rw [qualifies, RenderOptions.nested, hmode, hstyle]
  rfl

/-- The names of a namespace go behind those around it. -/
theorem memberOptions_nested (n : Namespace) (path : List Text) :
    memberOptions n.name (o.nested path) = o.nested (path ++ n.segments) := by
  rw [memberOptions, if_pos (qualifies_nested hmode hstyle path), RenderOptions.nested,
    RenderOptions.nested, RenderOptions.nested, List.append_assoc, segments]

/-- A namespace that is wanted is written as its members. -/
theorem render_nested_eq_members {n : Namespace}
    (hwanted : (n.isRoot || o.admits n.span) = true) (path : List Text) :
    n.render (o.nested path) = n.members (o.nested (path ++ n.segments))
      (n.nested.map (·.render (o.nested (path ++ n.segments)))) := by
  rw [render_eq, memberOptions_nested hmode hstyle, qualifies_nested hmode hstyle]
  dsimp only
  split
  · rfl
  · rename_i hroot
    have hadmits : (o.nested path).admits n.span = true := by
      simpa [hroot, RenderOptions.admits, RenderOptions.nested] using hwanted
    rw [hadmits, Bool.not_true, if_neg Bool.false_ne_true, if_pos rfl]

/-- A namespace is written as its definitions, each with the names of the namespaces around it. Where
the namespace is not wanted, none of them is. -/
theorem exists_render_eq_separated (n : Namespace) : ∀ path : List Text, n.holdsMembers = true →
    ∃ ds : List Definition, ds.Perm (n.definitionsFrom path (some o.mode)) ∧
      n.render (o.nested path) = separated (ds.map fun d => d.render (o.nested d.namespaces)) := by
  induction n using Namespace.induction with
  | step n ih =>
    intro path hn
    obtain ⟨-, hclasses, hnested⟩ := holdsMembers_iff.1 hn
    by_cases hwanted : (n.isRoot || o.admits n.span) = true
    · -- The members are written one after the other, and those of the nested namespaces behind them.
      choose! written hperm hwritten using fun m hm =>
        ih m hm (path ++ n.segments) (hnested m hm)
      refine ⟨n.writtenDefinitions (path ++ n.segments) o.mode ++ n.nested.flatMap written, ?_, ?_⟩
      · rw [definitionsFrom_eq]
        exact (n.ownDefinitions_perm _ _).append (List.Perm.flatMap_left _ hperm)
      · have hown : (n.writtenDefinitions (path ++ n.segments) o.mode).map
            (·.render (o.nested (path ++ n.segments))) =
            (n.writtenDefinitions (path ++ n.segments) o.mode).map fun d =>
              d.render (o.nested d.namespaces) :=
          List.map_congr_left fun d hd => by
            rw [(madeIn_of_mem_writtenDefinitions hd).1.namespaces_eq]
        have hbelow : n.nested.map (·.render (o.nested (path ++ n.segments))) =
            n.nested.map fun m => separated ((written m).map fun d =>
              d.render (o.nested d.namespaces)) := List.map_congr_left hwritten
        have hmembers := members_eq (o := o.nested (path ++ n.segments)) hmode n (.inr hclasses)
          (path ++ n.segments) (n.nested.map (·.render (o.nested (path ++ n.segments))))
        rw [render_nested_eq_members hmode hstyle hwanted, hmembers, hbelow, separated_flatMap,
          List.map_append, separated_append, List.map_flatMap, ← hown]
        rfl
    · rw [Bool.or_eq_true, not_or, Bool.not_eq_true, Bool.not_eq_true] at hwanted
      refine ⟨_, .refl _, ?_⟩
      rw [separated_eq_empty, render_eq]
      · dsimp only
        rw [hwanted.1, if_neg Bool.false_ne_true, if_pos]
        exact congrArg (!·) hwanted.2
      · rw [List.forall_mem_map]
        intro d hd
        obtain ⟨hmade, hcontains⟩ := n.madeIn_of_mem_definitionsFrom path hd
        refine Definition.MadeIn.render_of_not_admits (o := o.nested d.namespaces) hmade ?_
        change o.admits d.span = false
        by_contra hadmits
        rw [Bool.not_eq_false] at hadmits
        rw [o.admits_of_contains (hcontains hn) hadmits] at hwanted
        cases hwanted.2

end Qualified

end Namespace

/-- What is written for a header, with qualified names, are the definitions that it calls for and that
are wanted, in some order, each with the names of its namespaces, and none of them is written as
nothing. -/
theorem render_eq_declaredDefinitions (o : RenderOptions) (hmode : o.mode.isSource = true)
    (hstyle : o.style = .qualified) (root : Namespace)
    (hroot : root.holdsMembers = true) :
    ∃ ds : List Definition,
      ds.Perm ((root.declaredDefinitions o.mode).filter fun d => o.admits d.span) ∧
      root.render o = separated (ds.map fun d => d.render (o.nested d.namespaces)) ∧
      ∀ d ∈ ds, (d.render (o.nested d.namespaces)).isEmpty = false := by
  obtain ⟨ds, hperm, hrender⟩ := root.exists_render_eq_separated hmode hstyle [] hroot
  have hmade : ∀ d ∈ ds, d.MadeIn d.namespaces o.mode := fun d hd =>
    (root.madeIn_of_mem_definitionsFrom [] (hperm.mem_iff.mp hd)).1
  have hnil : o.nested [] = o := by rw [RenderOptions.nested, List.append_nil]
  refine ⟨ds.filter fun d => o.admits d.span, hperm.filter _, ?_, fun d hd => ?_⟩
  · rw [← hnil, hrender, separated_filter _ (fun d => o.admits d.span), hnil]
    intro d hd hadmits
    exact Definition.MadeIn.render_of_not_admits (o := o.nested d.namespaces) (hmade d hd) hadmits
  · obtain ⟨hd, hadmits⟩ := List.mem_filter.mp hd
    rw [Definition.MadeIn.render_of_admits (o := o.nested d.namespaces) (hmade d hd) hmode hadmits]
    rfl

/-- The range leaves out the constructor of the class, but not the class. -/
theorem render_eq_declaredDefinitions_range :
    ∃ root, readHeader ("namespace g{class S{S(int n=3);void f();};void q();}" : String) =
        .ok root ∧ root.holdsMembers = true ∧
      let o : RenderOptions :=
        { RenderOptions.ofMode .source with range := some ⟨35, 44, by decide⟩ }
      root.render o = ⟨[(0, "void g::S::f() \x7b"), (0, "\x7d"), (0, []), (0, "void g::q() \x7b"),
        (0, "\x7d")]⟩ ∧
      ∃ ds : List Definition, ds.length = 2 ∧
        ds.Perm ((root.declaredDefinitions .source).filter fun d => o.admits d.span) ∧
        root.render o = separated (ds.map fun d => d.render (o.nested d.namespaces)) := by
  obtain ⟨root, hread, hroot⟩ := Reader.exists_read
    (x := readHeader ("namespace g{class S{S(int n=3);void f();};void q();}" : String))
    (p := fun root =>
      let o : RenderOptions :=
        { RenderOptions.ofMode .source with range := some ⟨35, 44, by decide⟩ }
      root.holdsMembers && ((root.declaredDefinitions .source).filter fun d =>
        o.admits d.span).length == 2 && root.render o == ⟨[(0, "void g::S::f() \x7b"), (0, "\x7d"),
          (0, []), (0, "void g::q() \x7b"), (0, "\x7d")]⟩) (by decide +kernel)
  simp only [Bool.and_eq_true, beq_iff_eq] at hroot
  obtain ⟨⟨hholds, hlength⟩, hrender⟩ := hroot
  obtain ⟨ds, hperm, hwritten, -⟩ := render_eq_declaredDefinitions
    { RenderOptions.ofMode .source with range := some ⟨35, 44, by decide⟩ } rfl rfl root hholds
  exact ⟨root, hread, hholds, hrender, ds, hperm.length_eq.trans hlength, hperm, hwritten⟩

end HeaderSync

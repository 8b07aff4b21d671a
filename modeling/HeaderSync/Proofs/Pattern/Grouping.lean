import HeaderSync.Proofs.Pattern.Matches

/-!
# Grouping of patterns

How a sequence is put together from smaller ones, and a set from unions, makes no difference to what is
matched. `Pattern.parts` takes a pattern apart into a list in which nothing is grouped any more;
patterns with the same parts are found at the same places, with the same groups.

This holds where no round of a repetition can be empty (`Pattern.roundsConsume`): only then no part of
the pattern is watched, and the way down to a part is never looked at.

* `CharSet.flat`, `CharSet.contains_flat`;
* `Pattern.join`, `Pattern.parts`;
* `Pattern.run_part` : the way down to a part does not matter;
* `Pattern.run_join_parts` : neither does the grouping;
* `Pattern.Regroups`, `Pattern.Regroups.find?_eq`, `Pattern.Regroups.findAll_eq`,
  `Pattern.Regroups.isMatch_eq`.
-/

namespace HeaderSync

/-! ## Sets of characters -/

namespace CharSet

def unionOf : List CharSet → CharSet
  | [] => none
  | s :: sets => s ∪ unionOf sets

/-- The sets that a set is the union of. -/
def members : CharSet → List CharSet
  | union s t => s.members ++ t.members
  | compl s => [compl (unionOf s.members)]
  | none => [none]
  | single c => [single c]
  | range lo hi => [range lo hi]
  | digit => [digit]
  | blank => [blank]
  | word => [word]

/-- The set without its grouping. -/
def flat (s : CharSet) : CharSet :=
  unionOf s.members

theorem contains_unionOf (sets : List CharSet) (c : Char) :
    (unionOf sets).contains c = sets.any fun s => s.contains c := by
  induction sets with
  | nil => rfl
  | cons s sets ih => exact congrArg (s.contains c || ·) ih

theorem contains_flat (s : CharSet) (c : Char) : s.flat.contains c = s.contains c := by
  induction s with
  | union s t ihs iht =>
    rw [flat, contains_unionOf] at ihs iht ⊢
    rw [members, List.any_append, ihs, iht]
    rfl
  | compl s ih =>
    rw [flat, members, contains_unionOf, List.any_cons, List.any_nil, Bool.or_false]
    exact congrArg (!·) ih
  | none | single | range | digit | blank | word =>
    rw [flat, members, contains_unionOf, List.any_cons, List.any_nil, Bool.or_false]

end CharSet

/-! ## Parts of patterns -/

namespace Pattern

/-- One pattern after the other. -/
def join : List Pattern → Pattern
  | [] => empty
  | p :: ps => seq p (join ps)

/-- The patterns that a pattern is the sequence of. -/
def parts : Pattern → List Pattern
  | empty => []
  | char set => [char set.flat]
  | assert place => [assert place]
  | seq p q => p.parts ++ q.parts
  | alt p q => [alt (join p.parts) (join q.parts)]
  | zeroOrMore greedy p => [zeroOrMore greedy (join p.parts)]
  | oneOrMore greedy p => [oneOrMore greedy (join p.parts)]
  | group index p => [group index (join p.parts)]

theorem parts_append (p q : Pattern) : (p ++ q).parts = p.parts ++ q.parts := rfl

theorem parts_foldl_seq (p : Pattern) (ps : List Pattern) :
    (ps.foldl seq p).parts = p.parts ++ ps.flatMap parts := by
  induction ps generalizing p with
  | nil => rw [List.foldl_nil, List.flatMap_nil, List.append_nil]
  | cons q ps ih => rw [List.foldl_cons, ih, parts, List.flatMap_cons, List.append_assoc]

theorem parts_lit (t : Text) : (lit t).parts = t.map fun c => char (CharSet.single c).flat := by
  rw [lit]
  cases t with
  | nil => rfl
  | cons c t =>
    rw [List.map_cons]
    dsimp only
    rw [parts_foldl_seq, List.flatMap_map, List.map_cons, List.map_eq_flatMap]
    rfl

/-! ## What a pattern has in common with its parts -/

attribute [local simp] join parts groupCount isNullable roundsConsume

theorem groupCount_join_append (ps qs : List Pattern) :
    (join (ps ++ qs)).groupCount = max (join ps).groupCount (join qs).groupCount := by
  induction ps with
  | nil => simp
  | cons p ps ih => simp [ih, Nat.max_assoc]

theorem groupCount_join_parts (p : Pattern) : (join p.parts).groupCount = p.groupCount := by
  induction p with
  | empty | char | assert => rfl
  | seq p q ihp ihq => rw [parts, groupCount_join_append, ihp, ihq, groupCount]
  | alt p q ihp ihq => simp [ihp, ihq]
  | zeroOrMore _ p ih | oneOrMore _ p ih | group _ p ih => simp [ih]

theorem isNullable_join_append (ps qs : List Pattern) :
    (join (ps ++ qs)).isNullable = ((join ps).isNullable && (join qs).isNullable) := by
  induction ps with
  | nil => simp
  | cons p ps ih => simp [ih, Bool.and_assoc]

theorem isNullable_join_parts (p : Pattern) : (join p.parts).isNullable = p.isNullable := by
  induction p with
  | empty | char | assert | zeroOrMore => rfl
  | seq p q ihp ihq => rw [parts, isNullable_join_append, ihp, ihq, isNullable]
  | alt p q ihp ihq => simp [ihp, ihq]
  | oneOrMore _ p ih | group _ p ih => simp [ih]

theorem roundsConsume_join_append (ps qs : List Pattern) :
    (join (ps ++ qs)).roundsConsume = ((join ps).roundsConsume && (join qs).roundsConsume) := by
  induction ps with
  | nil => simp
  | cons p ps ih => simp [ih, Bool.and_assoc]

theorem roundsConsume_join_parts (p : Pattern) : (join p.parts).roundsConsume = p.roundsConsume := by
  induction p with
  | empty | char | assert => rfl
  | seq p q ihp ihq => rw [parts, roundsConsume_join_append, ihp, ihq, roundsConsume]
  | alt p q ihp ihq => simp [ihp, ihq]
  | zeroOrMore _ p ih | oneOrMore _ p ih => simp [ih, isNullable_join_parts]
  | group _ p ih => simp [ih]

theorem roundsConsume_append (p q : Pattern) :
    (p ++ q).roundsConsume = (p.roundsConsume && q.roundsConsume) :=
  rfl

theorem roundsConsume_lit (t : Text) : (lit t).roundsConsume = true := by
  rw [← roundsConsume_join_parts, parts_lit]
  induction t with
  | nil => rfl
  | cons c t ih => rw [List.map_cons, join, roundsConsume, ih, roundsConsume, Bool.and_self]

/-! ## Runs -/

section Run

variable {β : Type} {subject : Array Char} {p : Pattern}

/-- The rounds of a repetition that is not watched do not depend on the way down to it. -/
theorem rounds_part (round : Cursor → (Cursor → Option β) → Option β) (greedy : Bool)
    (part part' : PartId) (fuel : Nat) (c : Cursor) (k : Cursor → Option β) :
    rounds round greedy false part fuel c k = rounds round greedy false part' fuel c k := by
  induction fuel generalizing c with
  | zero => rfl
  | succ fuel ih =>
    have hrest : (fun c' => rounds round greedy false part fuel c' k) =
        fun c' => rounds round greedy false part' fuel c' k := funext ih
    rw [rounds, rounds, hrest]
    rfl

theorem run_zeroOrMore (hp : p.isNullable = false) (greedy : Bool) (part : PartId) (c : Cursor)
    (k : Cursor → Option β) :
    run subject (zeroOrMore greedy p) false part c k =
      rounds (run subject p false (0 :: part)) greedy false (1 :: part)
        (subject.size + 2 - c.pos) c k := by
  rw [run, hp]
  rfl

theorem run_oneOrMore (hp : p.isNullable = false) (greedy : Bool) (part : PartId) (c : Cursor)
    (k : Cursor → Option β) :
    run subject (oneOrMore greedy p) false part c k =
      run subject p false (0 :: part) c fun c' =>
        rounds (run subject p false (0 :: part)) greedy false (1 :: part)
          (subject.size + 2 - c'.pos) c' k := by
  rw [run, hp]
  rfl

theorem run_alt (p q : Pattern) (part : PartId) (c : Cursor) (k : Cursor → Option β) :
    run subject (alt p q) false part c k =
      firstOf (run subject p false (0 :: part) c k) fun _ =>
        run subject q false (1 :: part) c k :=
  rfl

theorem run_group (index : Nat) (p : Pattern) (part : PartId) (c : Cursor)
    (k : Cursor → Option β) :
    run subject (group index p) false part c k =
      run subject p false (0 :: part) c fun c' =>
        k { c' with groups := (index, c.pos, c'.pos) :: c'.groups } :=
  rfl

/-- Where nothing is watched, the way down to a part does not matter. -/
theorem run_part (hp : p.roundsConsume = true) (part part' : PartId) :
    (run subject p false part : Cursor → (Cursor → Option β) → Option β) =
      run subject p false part' := by
  induction p generalizing part part' with
  | empty | char | assert => rfl
  | seq p q ihp ihq =>
    rw [roundsConsume, Bool.and_eq_true] at hp
    funext c k
    rw [run, run, ihp hp.1 _ (0 :: part'), ihq hp.2 _ (1 :: part')]
  | alt p q ihp ihq =>
    rw [roundsConsume, Bool.and_eq_true] at hp
    funext c k
    rw [run_alt, run_alt, ihp hp.1 _ (0 :: part'), ihq hp.2 _ (1 :: part')]
  | zeroOrMore greedy p ih =>
    rw [roundsConsume, Bool.and_eq_true, Bool.not_eq_true'] at hp
    funext c k
    rw [run_zeroOrMore hp.1, run_zeroOrMore hp.1, ih hp.2 _ (0 :: part')]
    exact rounds_part ..
  | oneOrMore greedy p ih =>
    rw [roundsConsume, Bool.and_eq_true, Bool.not_eq_true'] at hp
    funext c k
    rw [run_oneOrMore hp.1, run_oneOrMore hp.1, ih hp.2 _ (0 :: part')]
    exact congrArg _ (funext fun c' => rounds_part ..)
  | group index p ih =>
    funext c k
    rw [run_group, run_group, ih hp _ (0 :: part')]

/-- Sequences one after the other are a sequence. -/
theorem run_join_append {ps qs : List Pattern} (hps : (join ps).roundsConsume = true)
    (hqs : (join qs).roundsConsume = true) (part : PartId) (c : Cursor) (k : Cursor → Option β) :
    run subject (join (ps ++ qs)) false part c k =
      run subject (join ps) false part c fun c' => run subject (join qs) false part c' k := by
  induction ps generalizing part c with
  | nil => rfl
  | cons p ps ih =>
    rw [join, roundsConsume, Bool.and_eq_true] at hps
    rw [List.cons_append, join, join, run, run]
    refine congrArg _ (funext fun c' => ?_)
    rw [ih hps.2, run_part hqs]

/-- The grouping of a pattern does not matter. -/
theorem run_join_parts (hp : p.roundsConsume = true) (part : PartId) :
    (run subject (join p.parts) false part : Cursor → (Cursor → Option β) → Option β) =
      run subject p false part := by
  induction p generalizing part with
  | empty | assert => rfl
  | char set =>
    funext c k
    simp only [parts, join, run, CharSet.contains_flat]
  | seq p q ihp ihq =>
    rw [roundsConsume, Bool.and_eq_true] at hp
    funext c k
    rw [parts, run_join_append ((roundsConsume_join_parts p).trans hp.1)
      ((roundsConsume_join_parts q).trans hp.2), ihp hp.1, ihq hp.2, run, run_part hp.1 part,
      run_part hp.2 part]
  | alt p q ihp ihq =>
    rw [roundsConsume, Bool.and_eq_true] at hp
    funext c k
    rw [parts, join, join, run, run_alt, run_alt, ihp hp.1, ihq hp.2, run_part hp.1 _ (0 :: part),
      run_part hp.2 _ (1 :: part)]
    rfl
  | zeroOrMore greedy p ih =>
    rw [roundsConsume, Bool.and_eq_true, Bool.not_eq_true'] at hp
    have hjoin := (isNullable_join_parts p).trans hp.1
    funext c k
    rw [parts, join, join, run, run_zeroOrMore hjoin, run_zeroOrMore hp.1, ih hp.2,
      run_part hp.2 _ (0 :: part), rounds_part _ _ _ (1 :: part)]
    rfl
  | oneOrMore greedy p ih =>
    rw [roundsConsume, Bool.and_eq_true, Bool.not_eq_true'] at hp
    have hjoin := (isNullable_join_parts p).trans hp.1
    funext c k
    rw [parts, join, join, run, run_oneOrMore hjoin, run_oneOrMore hp.1, ih hp.2,
      run_part hp.2 _ (0 :: part)]
    exact congrArg _ (funext fun c' => rounds_part ..)
  | group index p ih =>
    funext c k
    rw [parts, join, join, run, run_group, run_group, ih hp, run_part (p := p) hp _ (0 :: part)]
    rfl

end Run

/-! ## Matches -/

/-- The patterns differ in nothing but their grouping. -/
def Regroups (p q : Pattern) : Prop :=
  p.parts = q.parts ∧ q.roundsConsume = true

instance (p q : Pattern) : Decidable (p.Regroups q) :=
  inferInstanceAs (Decidable (_ ∧ _))

namespace Regroups

variable {p q : Pattern}

theorem groupCount_eq (h : p.Regroups q) : p.groupCount = q.groupCount := by
  rw [← groupCount_join_parts p, h.1, groupCount_join_parts]

theorem matchAt?_eq (h : p.Regroups q) : p.matchAt? = q.matchAt? := by
  have hp : p.roundsConsume = true := by
    rw [← roundsConsume_join_parts p, h.1, roundsConsume_join_parts, h.2]
  funext subject i
  rw [matchAt?, matchAt?, ← run_join_parts hp, h.1, run_join_parts h.2]

theorem leftmostFrom?_eq (h : p.Regroups q) : p.leftmostFrom? = q.leftmostFrom? := by
  have hfrom : p.matchFrom? = q.matchFrom? := by
    funext subject fuel i
    induction fuel generalizing i with
    | zero => rfl
    | succ fuel ih => rw [matchFrom?, matchFrom?, h.matchAt?_eq, ih]
  funext subject i
  rw [leftmostFrom?, leftmostFrom?, hfrom]

theorem captures_eq (h : p.Regroups q) : p.captures = q.captures := by
  funext t start c
  rw [captures, captures, h.groupCount_eq]

theorem find?_eq (h : p.Regroups q) : p.find? = q.find? := by
  funext t
  rw [find?, find?, h.leftmostFrom?_eq, h.captures_eq]

theorem isMatch_eq (h : p.Regroups q) : p.isMatch = q.isMatch := by
  funext t
  rw [isMatch, isMatch, h.leftmostFrom?_eq]

theorem findAll_eq (h : p.Regroups q) : p.findAll = q.findAll := by
  have hall : p.allFrom = q.allFrom := by
    funext subject fuel i
    induction fuel generalizing i with
    | zero => rfl
    | succ fuel ih => simp only [allFrom, nextFrom?, h.leftmostFrom?_eq, ih]
  funext t
  rw [findAll, findAll, h.leftmostFrom?_eq, h.captures_eq, hall]

end Regroups

end Pattern

end HeaderSync

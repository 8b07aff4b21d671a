import HeaderSync.Pattern.Matching
import HeaderSync.Proofs.Text.Offsets
import Mathlib.Tactic.Common

/-!
# What patterns match

`Pattern.Matches` says which texts a pattern matches, whatever it prefers, and what its groups take.

* `Pattern.exists_of_run` : every place that `run` hands on is one up to which the pattern matches;
* `Pattern.isSome_run` : where the pattern matches, `run` finds a way, as long as no round of a
  repetition is empty;
* `Pattern.exists_of_find?`, `Pattern.isSome_find?` : what is found is a match, and a match is found
  that starts no later than any other;
* `Pattern.pairwise_findAll`, `Pattern.exists_of_mem_findAll` : all that is found is in order, and
  matches;
* `Pattern.exists_mem_findAll` : a match that no earlier one reaches into is found;
* `Pattern.EndsIn` : the pattern ends with a given character.
-/

namespace HeaderSync

/-- What a group takes: its number, the text in front of it, and its own text. -/
abbrev Capture := Nat × Text × Text

/-- A group as a cursor remembers it. -/
def Capture.places : Capture → Nat × Nat × Nat
  | (index, before, taken) => (index, before.length, (before ++ taken).length)

namespace Pattern

/-- Rounds of `round`, any number of them, one after the other. -/
inductive Rounds (round : Text → Text → Text → List Capture → Prop) :
    Text → Text → Text → List Capture → Prop where
  | nil {l r : Text} : Rounds round l [] r []
  | cons {l s s' r : Text} {g g' : List Capture} (hround : round l s (s' ++ r) g)
      (hmore : Rounds round (l ++ s) s' r g') : Rounds round l (s ++ s') r (g' ++ g)

/-- The pattern matches `s` between `l` and `r`. The groups are listed as they are passed, the last
one first. -/
def Matches : Pattern → (l s r : Text) → List Capture → Prop
  | empty, _, s, _, g => s = [] ∧ g = []
  | char set, _, s, _, g => (∃ a, s = [a] ∧ set.contains a = true) ∧ g = []
  | assert place, l, s, r, g => s = [] ∧ g = [] ∧ place.holds (l ++ r).toArray l.length = true
  | seq p q, l, s, r, g => ∃ s₁ s₂ g₁ g₂, s = s₁ ++ s₂ ∧ g = g₂ ++ g₁ ∧
      p.Matches l s₁ (s₂ ++ r) g₁ ∧ q.Matches (l ++ s₁) s₂ r g₂
  | alt p q, l, s, r, g => p.Matches l s r g ∨ q.Matches l s r g
  | zeroOrMore _ p, l, s, r, g => Rounds p.Matches l s r g
  | oneOrMore _ p, l, s, r, g => ∃ s₁ s₂ g₁ g₂, s = s₁ ++ s₂ ∧ g = g₂ ++ g₁ ∧
      p.Matches l s₁ (s₂ ++ r) g₁ ∧ Rounds p.Matches (l ++ s₁) s₂ r g₂
  | group index p, l, s, r, g => ∃ g', p.Matches l s r g' ∧ g = (index, l, s) :: g'

/-! ## Runs -/

variable {β : Type}

theorem firstOf_eq_some {a : Option β} {b : Unit → Option β} {r : β}
    (h : firstOf a b = some r) : a = some r ∨ b () = some r := by
  cases a with
  | none => exact .inr h
  | some a => exact .inl h

/-- The place and the groups of a cursor after `s` was passed. -/
structure Passes (l s : Text) (g : List Capture) (c c' : Cursor) : Prop where
  pos : c'.pos = (l ++ s).length
  groups : c'.groups = g.map Capture.places ++ c.groups

theorem Passes.trans {l s s' : Text} {g g' : List Capture} {c c' c'' : Cursor}
    (h : Passes l s g c c') (h' : Passes (l ++ s) s' g' c' c'') :
    Passes l (s ++ s') (g' ++ g) c c'' where
  pos := by rw [h'.pos, List.append_assoc]
  groups := by rw [h'.groups, h.groups, List.map_append, List.append_assoc]

theorem Passes.of_enter {l s : Text} {g : List Capture} {c entered c' : Cursor} {watched : Bool}
    {part : PartId} (henter : c.enter watched part = some entered)
    (h : Passes l s g entered c') : Passes l s g c c' := by
  rw [Cursor.enter] at henter
  split at henter
  · obtain rfl := Option.some.inj henter
    exact h
  · split at henter
    · cases henter
    · obtain rfl := Option.some.inj henter
      exact ⟨h.pos, h.groups⟩

theorem pos_of_enter {c c' : Cursor} {watched : Bool} {part : PartId}
    (h : c.enter watched part = some c') : c'.pos = c.pos := by
  rw [Cursor.enter] at h
  split at h
  · rw [Option.some.inj h]
  · split at h
    · cases h
    · rw [← Option.some.inj h]

/-- The result `b` of `k` comes from a place up to which `p` matches from `c` on. -/
def Reaches (p : Text → Text → Text → List Capture → Prop) (l rest : Text) (c : Cursor)
    (k : Cursor → Option β) (b : β) : Prop :=
  ∃ s r g c', rest = s ++ r ∧ p l s r g ∧ Passes l s g c c' ∧ k c' = some b

theorem Reaches.of_enter {p : Text → Text → Text → List Capture → Prop} {l rest : Text}
    {c entered : Cursor} {watched : Bool} {part : PartId} {k : Cursor → Option β} {b : β}
    (henter : c.enter watched part = some entered) (h : Reaches p l rest entered k b) :
    Reaches p l rest c k b := by
  obtain ⟨s, r, g, c', hrest, hp, hpass, hk⟩ := h
  exact ⟨s, r, g, c', hrest, hp, hpass.of_enter henter, hk⟩

theorem Reaches.nil {p : Text → Text → Text → List Capture → Prop} {l rest : Text} {c : Cursor}
    {k : Cursor → Option β} {b : β} (hpos : c.pos = l.length) (hp : p l [] rest [])
    (hk : k c = some b) : Reaches p l rest c k b :=
  ⟨[], rest, [], c, rfl, hp, ⟨by rw [hpos, List.append_nil], rfl⟩, hk⟩

/-- One round, and then more of them. -/
theorem Reaches.more {p : Text → Text → Text → List Capture → Prop} {l rest : Text} {c : Cursor}
    {k k' : Cursor → Option β} {b : β} (h : Reaches p l rest c k' b)
    (hmore : ∀ l' rest' c', l' ++ rest' = l ++ rest → c'.pos = l'.length → k' c' = some b →
      Reaches (Rounds p) l' rest' c' k b) :
    Reaches (Rounds p) l rest c k b := by
  obtain ⟨s, r, g, c', rfl, hp, hpass, hk⟩ := h
  obtain ⟨s', r, g', c'', rfl, hrounds, hpass', hk⟩ :=
    hmore (l ++ s) r c' (List.append_assoc ..) hpass.pos hk
  refine ⟨s ++ s', r, g' ++ g, c'', (List.append_assoc ..).symm, ?_, hpass.trans hpass', hk⟩
  exact .cons hp hrounds

/-- Rounds of a match are a repetition. -/
theorem reaches_of_rounds {t : Text} {p : Text → Text → Text → List Capture → Prop}
    {round : Cursor → (Cursor → Option β) → Option β}
    (hround : ∀ l rest c k b, l ++ rest = t → c.pos = l.length → round c k = some b →
      Reaches p l rest c k b)
    {greedy watched : Bool} {part : PartId} {fuel : Nat} {l rest : Text} {c : Cursor}
    {k : Cursor → Option β} {b : β} (ht : l ++ rest = t) (hpos : c.pos = l.length)
    (h : rounds round greedy watched part fuel c k = some b) : Reaches (Rounds p) l rest c k b := by
  induction fuel generalizing l rest c with
  | zero => cases h
  | succ fuel ih =>
    rw [rounds] at h
    split at h
    · cases h
    rename_i entered henter
    have hentered := (pos_of_enter henter).trans hpos
    refine Reaches.of_enter henter ?_
    have hmore : (round entered fun c' => rounds round greedy watched part fuel c' k) = some b →
        Reaches (Rounds p) l rest entered k b := fun h =>
      (hround l rest _ _ _ ht hentered h).more fun _ _ _ hl hpos h => ih (hl.trans ht) hpos h
    dsimp only at h
    split at h
    · rcases firstOf_eq_some h with h | h
      · exact hmore h
      · exact .nil hentered .nil h
    · rcases firstOf_eq_some h with h | h
      · exact .nil hentered .nil h
      · exact hmore h

/-- The result of a run comes from a place up to which the pattern matches. -/
theorem reaches_of_run {t : Text} {p : Pattern} {watched : Bool} {part : PartId} {l rest : Text}
    {c : Cursor} {k : Cursor → Option β} {b : β} (ht : l ++ rest = t) (hpos : c.pos = l.length)
    (h : run t.toArray p watched part c k = some b) : Reaches p.Matches l rest c k b := by
  induction p generalizing watched part l rest c k b with
  | empty => exact .nil hpos ⟨rfl, rfl⟩ h
  | char set =>
    rw [run, hpos] at h
    split at h
    · rename_i a hat
      split at h
      · rename_i hset
        rw [← ht, List.getElem?_toArray, List.getElem?_append_right (Nat.le_refl _), Nat.sub_self,
          ← List.head?_eq_getElem?] at hat
        obtain ⟨r, rfl⟩ := List.head?_eq_some_iff.mp hat
        refine ⟨[a], r, [], c.advance, rfl, ⟨⟨a, rfl, hset⟩, rfl⟩, ⟨?_, rfl⟩, h⟩
        rw [List.length_append, ← hpos]
        rfl
      · cases h
    · cases h
  | assert place =>
    rw [run, hpos] at h
    split at h
    · rename_i hplace
      exact .nil hpos ⟨rfl, rfl, ht ▸ hplace⟩ h
    · cases h
  | seq p q ihp ihq =>
    obtain ⟨s, r, g, c', rfl, hp, hpass, h⟩ := ihp ht hpos h
    rw [← List.append_assoc] at ht
    obtain ⟨s', r, g', c'', rfl, hq, hpass', hk⟩ := ihq ht hpass.pos h
    refine ⟨s ++ s', r, g' ++ g, c'', (List.append_assoc ..).symm, ?_, hpass.trans hpass', hk⟩
    exact ⟨s, s', g, g', rfl, rfl, hp, hq⟩
  | alt p q ihp ihq =>
    rw [run] at h
    split at h
    · cases h
    rename_i entered henter
    have hentered := (pos_of_enter henter).trans hpos
    refine Reaches.of_enter henter ?_
    rcases firstOf_eq_some h with h | h
    · obtain ⟨s, r, g, c', hrest, hp, hpass, hk⟩ := ihp ht hentered h
      exact ⟨s, r, g, c', hrest, .inl hp, hpass, hk⟩
    · obtain ⟨s, r, g, c', hrest, hq, hpass, hk⟩ := ihq ht hentered h
      exact ⟨s, r, g, c', hrest, .inr hq, hpass, hk⟩
  | zeroOrMore greedy p ih =>
    rw [run] at h
    dsimp only at h
    change Reaches (Rounds p.Matches) l rest c k b
    split at h
    · split at h
      · cases h
      rename_i entered henter
      have hentered := (pos_of_enter henter).trans hpos
      refine Reaches.of_enter henter ?_
      have hmore : (run t.toArray p (watched || p.isNullable) (0 :: part) entered fun c =>
            rounds (fun c k => run t.toArray p (watched || p.isNullable) (0 :: part) c k) greedy
              (watched || p.isNullable) (1 :: part) (t.toArray.size + 2 - c.pos) c k) = some b →
          Reaches (Rounds p.Matches) l rest entered k b := fun h =>
        (ih ht hentered h).more fun _ _ _ hl hpos h =>
          reaches_of_rounds (fun _ _ _ _ _ => ih) (hl.trans ht) hpos h
      split at h
      · rcases firstOf_eq_some h with h | h
        · exact hmore h
        · exact .nil hentered .nil h
      · rcases firstOf_eq_some h with h | h
        · exact .nil hentered .nil h
        · exact hmore h
    · exact reaches_of_rounds (fun _ _ _ _ _ => ih) ht hpos h
  | oneOrMore greedy p ih =>
    rw [run] at h
    obtain ⟨s, r, g, c', rfl, hp, hpass, h⟩ := ih ht hpos h
    rw [← List.append_assoc] at ht
    obtain ⟨s', r, g', c'', rfl, hrounds, hpass', hk⟩ :=
      reaches_of_rounds (fun _ _ _ _ _ => ih) ht hpass.pos h
    refine ⟨s ++ s', r, g' ++ g, c'', (List.append_assoc ..).symm, ?_, hpass.trans hpass', hk⟩
    exact ⟨s, s', g, g', rfl, rfl, hp, hrounds⟩
  | group index p ih =>
    rw [run] at h
    split at h
    · cases h
    rename_i entered henter
    have hentered := (pos_of_enter henter).trans hpos
    refine Reaches.of_enter henter ?_
    obtain ⟨s, r, g, c', hrest, hp, hpass, hk⟩ := ih ht hentered h
    refine ⟨s, r, (index, l, s) :: g, { c' with groups := (index, entered.pos, c'.pos) :: c'.groups },
      hrest, ⟨g, hp, rfl⟩, ⟨hpass.pos, ?_⟩, hk⟩
    rw [hpass.groups, hpass.pos, hentered]
    rfl

/-! ## Ways to match -/

/-- No round of a repetition can be empty. -/
def roundsConsume : Pattern → Bool
  | empty | char _ | assert _ => true
  | seq p q | alt p q => p.roundsConsume && q.roundsConsume
  | zeroOrMore _ p | oneOrMore _ p => !p.isNullable && p.roundsConsume
  | group _ p => p.roundsConsume

theorem ne_nil_of_matches {p : Pattern} (hp : p.isNullable = false) {l s r : Text}
    {g : List Capture} (h : p.Matches l s r g) : s ≠ [] := by
  induction p generalizing l s r g with
  | empty | assert | zeroOrMore => cases hp
  | char set =>
    obtain ⟨⟨a, rfl, -⟩, -⟩ := h
    exact List.cons_ne_nil a []
  | seq p q ihp ihq =>
    obtain ⟨s₁, s₂, g₁, g₂, rfl, -, hp', hq'⟩ := h
    rw [isNullable, Bool.and_eq_false_iff] at hp
    rw [ne_eq, List.append_eq_nil_iff, not_and_or]
    exact hp.imp (ihp · hp') (ihq · hq')
  | alt p q ihp ihq =>
    rw [isNullable, Bool.or_eq_false_iff] at hp
    exact h.elim (ihp hp.1) (ihq hp.2)
  | oneOrMore greedy p ih =>
    obtain ⟨s₁, s₂, g₁, g₂, rfl, -, hp', -⟩ := h
    exact List.append_ne_nil_of_left_ne_nil (ih hp hp') s₂
  | group index p ih =>
    obtain ⟨g', h, -⟩ := h
    exact ih hp h

/-- The rest succeeds from every cursor at place `i`. -/
def SucceedsAt (k : Cursor → Option β) (i : Nat) : Prop :=
  ∀ c : Cursor, c.pos = i → (k c).isSome = true

theorem isSome_firstOf {a : Option β} {b : Unit → Option β}
    (h : a.isSome = true ∨ (b ()).isSome = true) : (firstOf a b).isSome = true := by
  cases a with
  | none => exact h.resolve_left Bool.false_ne_true
  | some a => rfl

theorem isSome_rounds_succ {round : Cursor → (Cursor → Option β) → Option β} {greedy : Bool}
    {part : PartId} {fuel : Nat} {c : Cursor} {k : Cursor → Option β}
    (h : (k c).isSome = true ∨
      (round c fun c' => rounds round greedy false part fuel c' k).isSome = true) :
    (rounds round greedy false part (fuel + 1) c k).isSome = true := by
  change (if greedy then firstOf (round c _) _ else firstOf (k c) _).isSome = true
  split
  · exact isSome_firstOf h.symm
  · exact isSome_firstOf h

theorem isSome_rounds {t : Text} {p : Text → Text → Text → List Capture → Prop}
    {round : Cursor → (Cursor → Option β) → Option β}
    (hround : ∀ l s r g c k, l ++ s ++ r = t → p l s r g → c.pos = l.length →
      SucceedsAt k (l ++ s).length → (round c k).isSome = true)
    (hne : ∀ l s r g, p l s r g → s ≠ []) {greedy : Bool} {part : PartId} {l s r : Text}
    {g : List Capture} (h : Rounds p l s r g) {fuel : Nat} (hfuel : s.length < fuel) {c : Cursor}
    {k : Cursor → Option β} (ht : l ++ s ++ r = t) (hpos : c.pos = l.length)
    (hk : SucceedsAt k (l ++ s).length) :
    (rounds round greedy false part fuel c k).isSome = true := by
  induction h generalizing fuel c with
  | nil =>
    obtain ⟨fuel, rfl⟩ := Nat.exists_eq_add_one_of_ne_zero (Nat.ne_zero_of_lt hfuel)
    rw [List.append_nil] at hk
    exact isSome_rounds_succ (.inl (hk c hpos))
  | @cons l s s' r g g' hp hmore ih =>
    have hpos' := List.length_pos_iff.mpr (hne _ _ _ _ hp)
    rw [List.length_append] at hfuel
    obtain ⟨fuel, rfl⟩ := Nat.exists_eq_add_one_of_ne_zero (Nat.ne_zero_of_lt hfuel)
    refine isSome_rounds_succ (.inr ?_)
    refine hround l s (s' ++ r) g c _ (by simpa using ht) hp hpos fun c' hc' => ?_
    exact ih (by omega) (by simpa using ht) hc' (by simpa using hk)

/-- Where the pattern matches, a run finds a way. -/
theorem isSome_run {t : Text} {p : Pattern} (hp : p.roundsConsume = true) {part : PartId}
    {l s r : Text} {g : List Capture} (h : p.Matches l s r g) {c : Cursor} {k : Cursor → Option β}
    (ht : l ++ s ++ r = t) (hpos : c.pos = l.length) (hk : SucceedsAt k (l ++ s).length) :
    (run t.toArray p false part c k).isSome = true := by
  induction p generalizing part l s r g c k with
  | empty =>
    obtain ⟨rfl, -⟩ := h
    exact hk c (by rw [hpos, List.append_nil])
  | char set =>
    obtain ⟨⟨a, rfl, hset⟩, -⟩ := h
    have hat : t.toArray[c.pos]? = some a := by
      rw [← ht, hpos, List.getElem?_toArray]
      simp
    rw [run, hat]
    simp only [hset, if_true]
    exact hk _ (by rw [Cursor.advance, hpos, List.length_append]; rfl)
  | assert place =>
    obtain ⟨rfl, -, hplace⟩ := h
    rw [List.append_nil] at ht hk
    rw [run, hpos, ← ht, if_pos hplace]
    exact hk c hpos
  | seq p q ihp ihq =>
    obtain ⟨s₁, s₂, g₁, g₂, rfl, -, hp', hq'⟩ := h
    rw [roundsConsume, Bool.and_eq_true] at hp
    rw [run]
    refine ihp hp.1 hp' (by simpa using ht) hpos fun c' hc' => ?_
    exact ihq hp.2 hq' (by simpa using ht) hc' (by simpa using hk)
  | alt p q ihp ihq =>
    rw [roundsConsume, Bool.and_eq_true] at hp
    rw [run]
    dsimp only [Cursor.enter]
    exact isSome_firstOf (h.imp (ihp hp.1 · ht hpos hk) (ihq hp.2 · ht hpos hk))
  | zeroOrMore greedy p ih =>
    rw [roundsConsume, Bool.and_eq_true, Bool.not_eq_true'] at hp
    rw [run]
    simp only [hp.1, Bool.false_or, Bool.false_eq_true, if_false]
    refine isSome_rounds (fun _ _ _ _ _ _ ht h => ih hp.2 h ht) (fun _ _ _ _ => ne_nil_of_matches hp.1)
      h ?_ ht hpos hk
    rw [← ht, hpos]
    simp only [List.size_toArray, List.length_append]
    omega
  | oneOrMore greedy p ih =>
    obtain ⟨s₁, s₂, g₁, g₂, rfl, -, hp', hmore⟩ := h
    rw [roundsConsume, Bool.and_eq_true, Bool.not_eq_true'] at hp
    rw [run]
    simp only [hp.1, Bool.false_or]
    refine ih hp.2 hp' (by simpa using ht) hpos fun c' hc' => ?_
    refine isSome_rounds (fun _ _ _ _ _ _ ht h => ih hp.2 h ht) (fun _ _ _ _ => ne_nil_of_matches hp.1)
      hmore ?_ (by simpa using ht) hc' (by simpa using hk)
    rw [← ht, hc']
    simp only [List.size_toArray, List.length_append]
    omega
  | group index p ih =>
    obtain ⟨g', h, -⟩ := h
    rw [run]
    dsimp only [Cursor.enter]
    exact ih hp h ht hpos fun c' hc' => hk _ hc'

/-! ## Searches -/

/-- The result of a search, as texts: where the match stands and what its groups take. -/
structure Found (p : Pattern) (t l s r : Text) (g : List Capture) (c : Cursor) : Prop where
  text : l ++ s ++ r = t
  isMatch : p.Matches l s r g
  pos : c.pos = (l ++ s).length
  groups : c.groups = g.map Capture.places

theorem found_of_matchAt? {t : Text} {p : Pattern} {i start : Nat} {c : Cursor}
    (hi : i ≤ t.length) (h : p.matchAt? t.toArray i = some (start, c)) :
    start = i ∧ ∃ l s r g, Found p t l s r g c ∧ l.length = i := by
  have hlen : (t.take i).length = i := by rw [List.length_take, Nat.min_eq_left hi]
  obtain ⟨s, r, g, c', hrest, hmatch, hpass, heq⟩ :=
    reaches_of_run (List.take_append_drop i t) hlen.symm h
  obtain ⟨rfl, rfl⟩ := Prod.mk.inj (Option.some.inj heq)
  refine ⟨rfl, t.take i, s, r, g, ⟨?_, hmatch, hpass.pos, ?_⟩, hlen⟩
  · rw [List.append_assoc, ← hrest, List.take_append_drop]
  · rw [hpass.groups, List.append_nil]

/-- What a search finds is a match in its reach. -/
theorem found_of_matchFrom? {t : Text} {p : Pattern} {fuel i start : Nat} {c : Cursor}
    (hfuel : i + fuel ≤ t.length + 1) (h : p.matchFrom? t.toArray fuel i = some (start, c)) :
    i ≤ start ∧ ∃ l s r g, Found p t l s r g c ∧ l.length = start := by
  induction fuel generalizing i with
  | zero => cases h
  | succ fuel ih =>
    rw [matchFrom?] at h
    split at h
    · rename_i hfound
      obtain rfl := Option.some.inj h
      obtain ⟨rfl, hfound⟩ := found_of_matchAt? (by omega) hfound
      exact ⟨Nat.le_refl _, hfound⟩
    · obtain ⟨hle, hfound⟩ := ih (by omega) h
      exact ⟨Nat.le_of_succ_le hle, hfound⟩

/-- If there is a match in the reach of a search, it finds one that starts no later. -/
theorem exists_matchFrom? {t : Text} {p : Pattern} (hp : p.roundsConsume = true) {l s r : Text}
    {g : List Capture} (ht : l ++ s ++ r = t) (h : p.Matches l s r g) {fuel i : Nat}
    (hi : i ≤ l.length) (hfuel : l.length < i + fuel) :
    ∃ start c, p.matchFrom? t.toArray fuel i = some (start, c) ∧ start ≤ l.length := by
  induction fuel generalizing i with
  | zero => omega
  | succ fuel ih =>
    rw [matchFrom?]
    split
    · rename_i found hfound
      have hlen : l.length ≤ t.length := by
        rw [← ht]
        simp
      obtain ⟨hstart, -⟩ := found_of_matchAt? (Nat.le_trans hi hlen) hfound
      exact ⟨_, _, rfl, hstart ▸ hi⟩
    · rename_i hnone
      have hne : i ≠ l.length := by
        rintro rfl
        have hsome : (p.matchAt? t.toArray l.length).isSome = true :=
          isSome_run hp h ht rfl fun _ _ => rfl
        rw [hnone] at hsome
        cases hsome
      exact ih (by omega) (by omega)

/-- What the groups of a match take, in byte offsets. -/
def groupRanges (p : Pattern) (g : List Capture) : List (Option (Nat × Nat)) :=
  (List.range p.groupCount).map fun i =>
    (g.lookup (i + 1)).map fun (before, taken) =>
      (Text.byteLength before, Text.byteLength (before ++ taken))

theorem lookup_places (g : List Capture) (index : Nat) :
    (g.map Capture.places).lookup index =
      (g.lookup index).map fun (before, taken) => (before.length, (before ++ taken).length) := by
  induction g with
  | nil => rfl
  | cons capture g ih =>
    obtain ⟨i, before, taken⟩ := capture
    rw [List.map_cons, Capture.places, List.lookup_cons, List.lookup_cons]
    split
    · rfl
    · exact ih

/-- The groups of rounds lie in the text if those of each round do. -/
theorem Rounds.prefix_of_mem {p : Text → Text → Text → List Capture → Prop}
    (hp : ∀ l s r g, p l s r g → ∀ x ∈ g, x.2.1 ++ x.2.2 <+: l ++ s) {l s r : Text}
    {g : List Capture} (h : Rounds p l s r g) : ∀ x ∈ g, x.2.1 ++ x.2.2 <+: l ++ s := by
  induction h with
  | nil => exact List.forall_mem_nil _
  | @cons l s s' r g g' hround _ ih =>
    rw [← List.append_assoc]
    refine List.forall_mem_append.mpr ⟨ih, fun x hx => ?_⟩
    exact (hp _ _ _ _ hround x hx).trans (List.prefix_append _ _)

/-- The groups of a match lie in the text up to its end. -/
theorem Matches.prefix_of_mem {p : Pattern} {l s r : Text} {g : List Capture}
    (h : p.Matches l s r g) : ∀ x ∈ g, x.2.1 ++ x.2.2 <+: l ++ s := by
  induction p generalizing l s r g with
  | empty | char =>
    rw [h.2]
    exact List.forall_mem_nil _
  | assert =>
    rw [h.2.1]
    exact List.forall_mem_nil _
  | seq p q ihp ihq =>
    obtain ⟨s₁, s₂, g₁, g₂, rfl, rfl, hp, hq⟩ := h
    rw [← List.append_assoc]
    refine List.forall_mem_append.mpr ⟨ihq hq, fun x hx => ?_⟩
    exact (ihp hp x hx).trans (List.prefix_append _ _)
  | alt p q ihp ihq => exact h.elim ihp ihq
  | zeroOrMore greedy p ih => exact Rounds.prefix_of_mem (fun _ _ _ _ => ih) h
  | oneOrMore greedy p ih =>
    obtain ⟨s₁, s₂, g₁, g₂, rfl, rfl, hp, hmore⟩ := h
    rw [← List.append_assoc]
    refine List.forall_mem_append.mpr
      ⟨Rounds.prefix_of_mem (fun _ _ _ _ => ih) hmore, fun x hx => ?_⟩
    exact (ih hp x hx).trans (List.prefix_append _ _)
  | group index p ih =>
    obtain ⟨g', hp, rfl⟩ := h
    exact List.forall_mem_cons.mpr ⟨List.prefix_rfl, ih hp⟩

/-- The byte offsets of a match are those of its texts. -/
theorem Found.captures_eq {p : Pattern} {t l s r : Text} {g : List Capture} {c : Cursor}
    (h : Found p t l s r g c) : p.captures t l.length c =
      ⟨Text.byteLength l, Text.byteLength (l ++ s), p.groupRanges g⟩ := by
  have htake : ∀ {u : Text}, u <+: l ++ s → t.take u.length = u := by
    intro u hu
    rw [← h.text]
    exact (List.prefix_iff_eq_take.mp (hu.trans (List.prefix_append _ _))).symm
  have hgroups : ∀ x ∈ g, t.take x.2.1.length = x.2.1 ∧
      t.take (x.2.1 ++ x.2.2).length = x.2.1 ++ x.2.2 := fun x hx =>
    have hx := h.isMatch.prefix_of_mem x hx
    ⟨htake ((List.prefix_append _ _).trans hx), htake hx⟩
  rw [captures, h.pos, groupRanges]
  dsimp only
  rw [htake (List.prefix_append l s), htake List.prefix_rfl]
  congr 1
  refine List.map_congr_left fun i _ => ?_
  rw [h.groups, lookup_places, Option.map_map]
  cases hlookup : g.lookup (i + 1) with
  | none => rfl
  | some x =>
    obtain ⟨front, back, hg, -⟩ := List.lookup_eq_some_iff.mp hlookup
    obtain ⟨hbefore, htaken⟩ := hgroups (i + 1, x) (by rw [hg]; simp)
    simp only [Option.map_some, Function.comp_apply, hbefore, htaken]

/-- What is found is a match. -/
theorem exists_of_find? {p : Pattern} {t : Text} {c : Captures} (h : p.find? t = some c) :
    ∃ l s r g, l ++ s ++ r = t ∧ p.Matches l s r g ∧
      c = ⟨Text.byteLength l, Text.byteLength (l ++ s), p.groupRanges g⟩ := by
  rw [find?, Option.map_eq_some_iff] at h
  obtain ⟨⟨start, cursor⟩, hfrom, rfl⟩ := h
  obtain ⟨-, l, s, r, g, hfound, rfl⟩ := found_of_matchFrom? (by simp) hfrom
  exact ⟨l, s, r, g, hfound.text, hfound.isMatch, hfound.captures_eq⟩

/-- If there is a match, one is found that starts no later. -/
theorem exists_find? {p : Pattern} (hp : p.roundsConsume = true) {t l s r : Text}
    {g : List Capture} (ht : l ++ s ++ r = t) (h : p.Matches l s r g) :
    ∃ l' s' r' g', l' ++ s' ++ r' = t ∧ p.Matches l' s' r' g' ∧ l'.length ≤ l.length ∧
      p.find? t = some ⟨Text.byteLength l', Text.byteLength (l' ++ s'), p.groupRanges g'⟩ := by
  have hlen : l.length < 0 + (t.toArray.size + 1 - 0) := by
    rw [← ht, List.size_toArray, List.length_append, List.length_append]
    omega
  obtain ⟨start, c, hfrom, hle⟩ := exists_matchFrom? hp ht h (Nat.zero_le _) hlen
  obtain ⟨-, l', s', r', g', hfound, rfl⟩ := found_of_matchFrom? (by simp) hfrom
  refine ⟨l', s', r', g', hfound.text, hfound.isMatch, hle, ?_⟩
  rw [find?, leftmostFrom?, hfrom, Option.map_some]
  exact congrArg some hfound.captures_eq

/-- A text is matched if there is a match somewhere in it. -/
theorem isMatch_iff {p : Pattern} (hp : p.roundsConsume = true) {t : Text} :
    p.isMatch t = true ↔ ∃ l s r g, l ++ s ++ r = t ∧ p.Matches l s r g := by
  have hfind : p.isMatch t = (p.find? t).isSome := (Option.isSome_map ..).symm
  rw [hfind, Option.isSome_iff_exists]
  constructor
  · rintro ⟨c, hc⟩
    obtain ⟨l, s, r, g, ht, hmatch, -⟩ := exists_of_find? hc
    exact ⟨l, s, r, g, ht, hmatch⟩
  · rintro ⟨l, s, r, g, ht, hmatch⟩
    obtain ⟨_, _, _, _, -, -, -, hc⟩ := exists_find? hp ht hmatch
    exact ⟨_, hc⟩

/-- No match starts before the one that is found. -/
theorem start_le_of_find? {p : Pattern} (hp : p.roundsConsume = true) {t l s r : Text}
    {g : List Capture} (ht : l ++ s ++ r = t) (h : p.Matches l s r g) {c : Captures}
    (hfind : p.find? t = some c) : c.start ≤ Text.byteLength l := by
  obtain ⟨l', s', r', g', ht', -, hle, hfind'⟩ := exists_find? hp ht h
  obtain rfl := Option.some.inj (hfind.symm.trans hfind')
  have hl' : l' <+: t := ⟨s' ++ r', by rw [← ht', List.append_assoc]⟩
  have hl : l <+: t := ⟨s ++ r, by rw [← ht, List.append_assoc]⟩
  obtain ⟨m, rfl⟩ := List.prefix_of_prefix_length_le hl' hl hle
  rw [Text.byteLength_append l' m]
  exact Nat.le_add_right _ _

/-! ## Order of matches -/

theorem found_of_leftmostFrom? {p : Pattern} {t : Text} {i start : Nat} {c : Cursor}
    (h : p.leftmostFrom? t.toArray i = some (start, c)) :
    i ≤ start ∧ ∃ l s r g, Found p t l s r g c ∧ l.length = start := by
  have hi : i ≤ t.length := by
    by_contra hi
    rw [leftmostFrom?, List.size_toArray, Nat.sub_eq_zero_of_le (by omega)] at h
    cases h
  exact found_of_matchFrom? (by simp; omega) h

/-- A match starts where it is looked for or later, and does not end before. -/
theorem le_of_leftmostFrom? {p : Pattern} {t : Text} {i start : Nat} {c : Cursor}
    (h : p.leftmostFrom? t.toArray i = some (start, c)) : i ≤ start ∧ start ≤ c.pos := by
  obtain ⟨hle, l, s, r, g, hfound, rfl⟩ := found_of_leftmostFrom? h
  refine ⟨hle, ?_⟩
  rw [hfound.pos, List.length_append]
  exact Nat.le_add_right _ _

theorem le_of_nextFrom? {p : Pattern} {t : Text} {i start : Nat} {c : Cursor}
    (h : p.nextFrom? t.toArray i = some (start, c)) : i ≤ start ∧ start ≤ c.pos := by
  rw [nextFrom?] at h
  split at h
  · rename_i hfound
    split at h
    · obtain ⟨hstart, hpos⟩ := le_of_leftmostFrom? h
      exact ⟨Nat.le_of_succ_le hstart, hpos⟩
    · obtain ⟨rfl, rfl⟩ := Prod.mk.inj (Option.some.inj h)
      exact le_of_leftmostFrom? hfound
  · cases h

/-- Each match starts where the one before has ended, or later. -/
theorem pairwise_allFrom (p : Pattern) (t : Text) (fuel i : Nat) :
    (∀ found ∈ p.allFrom t.toArray fuel i, i ≤ found.1) ∧
      (p.allFrom t.toArray fuel i).Pairwise fun a b => a.2.pos ≤ b.1 := by
  induction fuel generalizing i with
  | zero => exact ⟨List.forall_mem_nil _, .nil⟩
  | succ fuel ih =>
    rw [allFrom]
    split
    · rename_i start c hnext
      obtain ⟨hstart, hpos⟩ := le_of_nextFrom? hnext
      obtain ⟨hlater, hpairwise⟩ := ih c.pos
      refine ⟨List.forall_mem_cons.mpr ⟨hstart, fun found hfound => ?_⟩, .cons hlater hpairwise⟩
      exact Nat.le_trans (Nat.le_trans hstart hpos) (hlater found hfound)
    · exact ⟨List.forall_mem_nil _, .nil⟩

/-- The matches in a text are in order. -/
theorem pairwise_findAll (p : Pattern) (t : Text) :
    (p.findAll t).Pairwise fun c d => c.stop ≤ d.start := by
  rw [findAll]
  dsimp only
  split
  · rename_i start c hfound
    obtain ⟨hlater, hpairwise⟩ := p.pairwise_allFrom t (t.toArray.size + 1 - c.pos) c.pos
    rw [List.pairwise_map]
    refine List.Pairwise.imp (fun h => ?_) (List.Pairwise.cons hlater hpairwise)
    exact Text.byteLength_take_le h t
  · exact .nil

theorem found_of_nextFrom? {p : Pattern} {t : Text} {i start : Nat} {c : Cursor}
    (h : p.nextFrom? t.toArray i = some (start, c)) :
    ∃ l s r g, Found p t l s r g c ∧ l.length = start := by
  rw [nextFrom?] at h
  split at h
  · rename_i hfound
    split at h
    · exact (found_of_leftmostFrom? h).2
    · obtain ⟨rfl, rfl⟩ := Prod.mk.inj (Option.some.inj h)
      exact (found_of_leftmostFrom? hfound).2
  · cases h

theorem found_of_mem_allFrom {p : Pattern} {t : Text} {fuel i : Nat} {found : Nat × Cursor}
    (h : found ∈ p.allFrom t.toArray fuel i) :
    ∃ l s r g, Found p t l s r g found.2 ∧ l.length = found.1 := by
  induction fuel generalizing i with
  | zero => cases h
  | succ fuel ih =>
    rw [allFrom] at h
    split at h
    · rename_i hnext
      rcases List.mem_cons.mp h with rfl | h
      · exact found_of_nextFrom? hnext
      · exact ih h
    · cases h

/-- All that is found are matches. -/
theorem exists_of_mem_findAll {p : Pattern} {t : Text} {c : Captures} (h : c ∈ p.findAll t) :
    ∃ l s r g, l ++ s ++ r = t ∧ p.Matches l s r g ∧
      c = ⟨Text.byteLength l, Text.byteLength (l ++ s), p.groupRanges g⟩ := by
  rw [findAll] at h
  dsimp only at h
  split at h
  · rename_i hfirst
    obtain ⟨⟨start, cursor⟩, hmem, rfl⟩ := List.mem_map.mp h
    have hfound : ∃ l s r g, Found p t l s r g cursor ∧ l.length = start := by
      rcases List.mem_cons.mp hmem with heq | hmem
      · obtain ⟨rfl, rfl⟩ := Prod.mk.inj heq
        exact (found_of_leftmostFrom? hfirst).2
      · exact found_of_mem_allFrom hmem
    obtain ⟨l, s, r, g, hfound, rfl⟩ := hfound
    exact ⟨l, s, r, g, hfound.text, hfound.isMatch, hfound.captures_eq⟩
  · cases h

/-! ## Matches that are found -/

section Reached

variable {p : Pattern} {t l s r : Text} {g : List Capture}

/-- No match in the text that starts before `l` ends reaches beyond it. -/
def Apart (p : Pattern) (t l : Text) : Prop :=
  ∀ l' s' r' g', l' ++ s' ++ r' = t → p.Matches l' s' r' g' → l'.length < l.length →
    (l' ++ s').length ≤ l.length

/-- A search for a match comes upon it, or upon one that ends before it. -/
theorem exists_leftmostFrom? (hp : p.roundsConsume = true) (hne : p.isNullable = false)
    (ht : l ++ s ++ r = t) (h : p.Matches l s r g) (hapart : p.Apart t l) {i : Nat}
    (hi : i ≤ l.length) :
    ∃ start c, p.leftmostFrom? t.toArray i = some (start, c) ∧ i ≤ start ∧ start < c.pos ∧
      (start = l.length ∨ c.pos ≤ l.length) := by
  have hlen : l.length < i + (t.toArray.size + 1 - i) := by
    rw [← ht, List.size_toArray, List.length_append, List.length_append]
    omega
  obtain ⟨start, c, hfrom, hle⟩ := exists_matchFrom? hp ht h hi hlen
  obtain ⟨hstart, l', s', r', g', hfound, rfl⟩ := found_of_leftmostFrom? hfrom
  have hpos := List.length_pos_iff.mpr (ne_nil_of_matches hne hfound.isMatch)
  refine ⟨l'.length, c, hfrom, hstart, ?_, ?_⟩
  · rw [hfound.pos, List.length_append]
    omega
  · rcases Nat.eq_or_lt_of_le hle with heq | hlt
    · exact .inl heq
    · rw [hfound.pos]
      exact .inr (hapart l' s' r' g' hfound.text hfound.isMatch hlt)

theorem exists_mem_allFrom (hp : p.roundsConsume = true) (hne : p.isNullable = false)
    (ht : l ++ s ++ r = t) (h : p.Matches l s r g) (hapart : p.Apart t l) (fuel : Nat)
    {i : Nat} (hi : i ≤ l.length) (hfuel : t.length < i + fuel) :
    ∃ c, (l.length, c) ∈ p.allFrom t.toArray fuel i := by
  induction fuel generalizing i with
  | zero =>
    rw [← ht, List.length_append, List.length_append] at hfuel
    omega
  | succ fuel ih =>
    obtain ⟨start, c, hfrom, hstart, hpos, hend⟩ := exists_leftmostFrom? hp hne ht h hapart hi
    have hnext : p.nextFrom? t.toArray i = some (start, c) := by
      have hnot : ¬ (start = i ∧ c.pos = i) := by omega
      simp [nextFrom?, hfrom, hnot]
    rw [allFrom, hnext]
    rcases hend with rfl | hle
    · exact ⟨c, List.mem_cons_self⟩
    · obtain ⟨c', hc'⟩ := ih hle (by omega)
      exact ⟨c', List.mem_cons_of_mem _ hc'⟩

/-- Where a match starts that no earlier one reaches into, a match is found. -/
theorem exists_mem_findAll (hp : p.roundsConsume = true) (hne : p.isNullable = false)
    (ht : l ++ s ++ r = t) (h : p.Matches l s r g) (hapart : p.Apart t l) :
    ∃ s' r' g', l ++ s' ++ r' = t ∧ p.Matches l s' r' g' ∧
      ⟨Text.byteLength l, Text.byteLength (l ++ s'), p.groupRanges g'⟩ ∈ p.findAll t := by
  obtain ⟨start, c, hfrom, -, -, hend⟩ :=
    exists_leftmostFrom? hp hne ht h hapart (Nat.zero_le l.length)
  obtain ⟨c', hc'⟩ : ∃ c', (l.length, c') ∈
      (start, c) :: p.allFrom t.toArray (t.toArray.size + 1 - c.pos) c.pos := by
    rcases hend with rfl | hle
    · exact ⟨c, List.mem_cons_self⟩
    · obtain ⟨c', hc'⟩ := exists_mem_allFrom hp hne ht h hapart
        (t.toArray.size + 1 - c.pos) hle (by rw [List.size_toArray]; omega)
      exact ⟨c', List.mem_cons_of_mem _ hc'⟩
  obtain ⟨l', s', r', g', hfound, hlen⟩ :
      ∃ l' s' r' g', Found p t l' s' r' g' c' ∧ l'.length = l.length := by
    rcases List.mem_cons.mp hc' with heq | hc'
    · obtain ⟨rfl, rfl⟩ := Prod.mk.inj heq
      exact (found_of_leftmostFrom? hfrom).2
    · exact found_of_mem_allFrom hc'
  have htext := hfound.text
  rw [← ht, List.append_assoc, List.append_assoc] at htext
  obtain rfl : l' = l := List.append_inj_left htext hlen
  refine ⟨s', r', g', hfound.text, hfound.isMatch, ?_⟩
  rw [findAll]
  dsimp only
  rw [hfrom]
  exact List.mem_map.mpr ⟨_, hc', hfound.captures_eq⟩

end Reached

/-! ## Last characters -/

/-- Whatever the pattern matches ends with the character `a`. -/
def EndsIn (a : Char) : Pattern → Prop
  | char set => ∀ c, set.contains c = true → c = a
  | seq _ q => q.EndsIn a
  | _ => False

theorem EndsIn.last {a : Char} {p : Pattern} (hp : p.EndsIn a) {l s r : Text} {g : List Capture}
    (h : p.Matches l s r g) : ∃ s', s = s' ++ [a] := by
  induction p generalizing l s r g with
  | char set =>
    obtain ⟨⟨c, rfl, hset⟩, -⟩ := h
    exact ⟨[], by rw [hp c hset]; rfl⟩
  | seq p q _ ih =>
    obtain ⟨s₁, s₂, g₁, g₂, rfl, -, -, hq⟩ := h
    obtain ⟨s', rfl⟩ := ih hp hq
    exact ⟨s₁ ++ s', (List.append_assoc ..).symm⟩
  | _ => exact hp.elim

theorem endsIn_lit (a : Char) : (lit [a]).EndsIn a := by
  intro c hc
  exact (beq_iff_eq.mp hc).symm

end Pattern

end HeaderSync

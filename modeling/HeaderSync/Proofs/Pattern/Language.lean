import HeaderSync.Proofs.Pattern.Matches

/-!
# What the parts of patterns match

* `Pattern.matches_lit`, `Pattern.matches_zeroOrMore_char`, `Pattern.matches_oneOrMore_char` : words
  and runs of characters;
* `Pattern.matches_wordEdge` : where a word starts or ends;
* `Pattern.avoids`, `Pattern.canStartWith` : characters that no match holds, or starts with;
* `Pattern.Holds` : texts that every match holds;
* `Pattern.isGroupless` : patterns whose matches take no groups;
* `Pattern.Misses` : texts in which no match starts.
-/

namespace HeaderSync

/-- The text ends with a character of a word. -/
def Text.endsInWord (t : Text) : Bool :=
  t.getLast?.any isWordChar

/-- The text starts with a character of a word. -/
def Text.startsWithWord (t : Text) : Bool :=
  t.head?.any isWordChar

namespace CharSet

theorem contains_oneOf (t : Text) (c : Char) : (oneOf t).contains c = true ↔ c ∈ t := by
  induction t with
  | nil => simp [oneOf, contains]
  | cons a t ih =>
    cases t with
    | nil =>
      rw [oneOf, contains, beq_iff_eq, List.mem_singleton]
      exact eq_comm
    | cons b t =>
      change (a == c || (oneOf (b :: t)).contains c) = true ↔ _
      rw [Bool.or_eq_true, ih, beq_iff_eq, List.mem_cons (a := c) (b := a)]
      exact or_congr_left eq_comm

theorem contains_noneOf (t : Text) (c : Char) : (noneOf t).contains c = true ↔ c ∉ t := by
  rw [noneOf, contains, Bool.not_eq_true', ← Bool.not_eq_true, contains_oneOf]

theorem contains_union (s t : CharSet) (c : Char) :
    (s ∪ t).contains c = true ↔ s.contains c = true ∨ t.contains c = true :=
  iff_of_eq (Bool.or_eq_true ..)

end CharSet

namespace Pattern

variable {p q : Pattern} {l s r : Text} {g : List Capture}

/-! ## Words and runs -/

theorem matches_foldl_seq {u : Text} (hp : ∀ l s r g, p.Matches l s r g ↔ s = u ∧ g = [])
    (t : Text) (l s r : Text) (g : List Capture) :
    ((t.map fun c => char (.single c)).foldl seq p).Matches l s r g ↔ s = u ++ t ∧ g = [] := by
  induction t generalizing p u with
  | nil => rw [List.append_nil]; exact hp l s r g
  | cons a t ih =>
    rw [List.map_cons, List.foldl_cons, ih (u := u ++ [a]), List.append_assoc, List.singleton_append]
    intro l s r g
    constructor
    · rintro ⟨s₁, s₂, g₁, g₂, rfl, rfl, hp', ⟨⟨b, rfl, hb⟩, rfl⟩⟩
      obtain ⟨rfl, rfl⟩ := (hp _ _ _ _).mp hp'
      rw [eq_of_beq hb]
      exact ⟨rfl, rfl⟩
    · rintro ⟨rfl, rfl⟩
      exact ⟨u, [a], [], [], rfl, rfl, (hp _ _ _ _).mpr ⟨rfl, rfl⟩, ⟨a, rfl, beq_self_eq_true a⟩, rfl⟩

/-- One pattern after the other. -/
theorem matches_append {p q : Pattern} :
    (p ++ q).Matches l s r g ↔ ∃ s₁ s₂ g₁ g₂, s = s₁ ++ s₂ ∧ g = g₂ ++ g₁ ∧
      p.Matches l s₁ (s₂ ++ r) g₁ ∧ q.Matches (l ++ s₁) s₂ r g₂ := Iff.rfl

theorem matches_group {p : Pattern} {index : Nat} :
    (group index p).Matches l s r g ↔ ∃ g', p.Matches l s r g' ∧ g = (index, l, s) :: g' := Iff.rfl

theorem matches_lit {t : Text} : (lit t).Matches l s r g ↔ s = t ∧ g = [] := by
  cases t with
  | nil => exact Iff.rfl
  | cons a t =>
    refine matches_foldl_seq (u := [a]) (fun l s r g => ?_) t l s r g
    constructor
    · rintro ⟨⟨b, rfl, hb⟩, rfl⟩
      rw [eq_of_beq hb]
      exact ⟨rfl, rfl⟩
    · rintro ⟨rfl, rfl⟩
      exact ⟨⟨a, rfl, beq_self_eq_true a⟩, rfl⟩

theorem matches_zeroOrMore_char {greedy : Bool} {set : CharSet} :
    (zeroOrMore greedy (char set)).Matches l s r g ↔ (∀ c ∈ s, set.contains c = true) ∧ g = [] := by
  constructor
  · intro h
    change Rounds (char set).Matches l s r g at h
    induction h with
    | nil => exact ⟨List.forall_mem_nil _, rfl⟩
    | cons hround _ ih =>
      obtain ⟨⟨a, rfl, ha⟩, rfl⟩ := hround
      exact ⟨List.forall_mem_append.mpr ⟨List.forall_mem_singleton.mpr ha, ih.1⟩, by rw [ih.2]; rfl⟩
  · rintro ⟨hs, rfl⟩
    change Rounds (char set).Matches l s r []
    induction s generalizing l with
    | nil => exact .nil
    | cons a s ih =>
      obtain ⟨ha, hs⟩ := List.forall_mem_cons.mp hs
      exact Rounds.cons (s := [a]) ⟨⟨a, rfl, ha⟩, rfl⟩ (ih hs)

theorem matches_oneOrMore_char {greedy : Bool} {set : CharSet} :
    (oneOrMore greedy (char set)).Matches l s r g ↔
      s ≠ [] ∧ (∀ c ∈ s, set.contains c = true) ∧ g = [] := by
  constructor
  · rintro ⟨s₁, s₂, g₁, g₂, rfl, rfl, ⟨⟨a, rfl, ha⟩, rfl⟩, hmore⟩
    change (zeroOrMore greedy (char set)).Matches _ s₂ r g₂ at hmore
    obtain ⟨hs, rfl⟩ := matches_zeroOrMore_char.1 hmore
    exact ⟨List.cons_ne_nil a s₂, List.forall_mem_cons.mpr ⟨ha, hs⟩, rfl⟩
  · rintro ⟨hne, hs, rfl⟩
    obtain ⟨a, s, rfl⟩ := List.exists_cons_of_ne_nil hne
    obtain ⟨ha, hs⟩ := List.forall_mem_cons.mp hs
    have hmore : (zeroOrMore greedy (char set)).Matches (l ++ [a]) s r [] :=
      matches_zeroOrMore_char.2 ⟨hs, rfl⟩
    exact ⟨[a], s, [], [], rfl, rfl, ⟨⟨a, rfl, ha⟩, rfl⟩, hmore⟩

theorem matches_wordEdge :
    wordEdge.Matches l s r g ↔ s = [] ∧ g = [] ∧ l.endsInWord ≠ r.startsWithWord := by
  have hbefore : wordBefore (l ++ r).toArray l.length = l.endsInWord := by
    rcases List.eq_nil_or_concat l with rfl | ⟨l, c, rfl⟩
    · rfl
    · simp [wordBefore, wordAt, Text.endsInWord]
  have hat : wordAt (l ++ r).toArray l.length = r.startsWithWord := by
    cases r <;> simp [wordAt, Text.startsWithWord]
  change s = [] ∧ g = [] ∧ (wordBefore _ _ != wordAt _ _) = true ↔ _
  rw [hbefore, hat, bne_iff_ne]

/-! ## Characters that no match holds -/

/-- No match of the pattern holds the character `a`. -/
def avoids (a : Char) : Pattern → Bool
  | empty | assert _ => true
  | char set => !set.contains a
  | seq p q | alt p q => p.avoids a && q.avoids a
  | zeroOrMore _ p | oneOrMore _ p | group _ p => p.avoids a

theorem Rounds.notMem {round : Text → Text → Text → List Capture → Prop} {a : Char}
    (hround : ∀ l s r g, round l s r g → a ∉ s) (h : Rounds round l s r g) : a ∉ s := by
  induction h with
  | nil => exact List.not_mem_nil
  | cons hr _ ih =>
    rw [List.mem_append]
    exact not_or.mpr ⟨hround _ _ _ _ hr, ih⟩

theorem Matches.notMem {a : Char} (hp : p.avoids a = true) (h : p.Matches l s r g) : a ∉ s := by
  induction p generalizing l s r g with
  | empty | assert =>
    rw [h.1]
    exact List.not_mem_nil
  | char set =>
    obtain ⟨⟨b, rfl, hb⟩, -⟩ := h
    rw [List.mem_singleton]
    rintro rfl
    rw [avoids, hb] at hp
    cases hp
  | seq p q ihp ihq =>
    obtain ⟨s₁, s₂, g₁, g₂, rfl, -, hp', hq'⟩ := h
    rw [avoids, Bool.and_eq_true] at hp
    rw [List.mem_append]
    exact not_or.mpr ⟨ihp hp.1 hp', ihq hp.2 hq'⟩
  | alt p q ihp ihq =>
    rw [avoids, Bool.and_eq_true] at hp
    exact h.elim (ihp hp.1) (ihq hp.2)
  | zeroOrMore greedy p ih => exact Rounds.notMem (fun _ _ _ _ => ih hp) h
  | oneOrMore greedy p ih =>
    obtain ⟨s₁, s₂, g₁, g₂, rfl, -, hp', hmore⟩ := h
    rw [List.mem_append]
    exact not_or.mpr ⟨ih hp hp', Rounds.notMem (fun _ _ _ _ => ih hp) hmore⟩
  | group index p ih =>
    obtain ⟨g', h, -⟩ := h
    exact ih hp h

/-- A match of the pattern may start with the character `a`. -/
def canStartWith (a : Char) : Pattern → Bool
  | empty | assert _ => false
  | char set => set.contains a
  | seq p q => p.canStartWith a || p.isNullable && q.canStartWith a
  | alt p q => p.canStartWith a || q.canStartWith a
  | zeroOrMore _ p | oneOrMore _ p | group _ p => p.canStartWith a

theorem Rounds.exists_cons {round : Text → Text → Text → List Capture → Prop} {a : Char}
    (h : Rounds round l s r g) (hs : s.head? = some a) :
    ∃ l' s' r' g', s'.head? = some a ∧ round l' s' r' g' := by
  induction h with
  | nil => cases hs
  | @cons l s s' r g g' hround _ ih =>
    cases s with
    | nil => exact ih hs
    | cons b s => exact ⟨l, b :: s, s' ++ r, g, hs, hround⟩

theorem Matches.canStartWith {a : Char} (h : p.Matches l s r g) (hs : s.head? = some a) :
    p.canStartWith a = true := by
  induction p generalizing l s r g with
  | empty | assert =>
    rw [h.1] at hs
    cases hs
  | char set =>
    obtain ⟨⟨b, rfl, hb⟩, -⟩ := h
    obtain rfl := Option.some.inj hs
    exact hb
  | seq p q ihp ihq =>
    obtain ⟨s₁, s₂, g₁, g₂, rfl, -, hp, hq⟩ := h
    rw [Pattern.canStartWith, Bool.or_eq_true, Bool.and_eq_true]
    cases s₁ with
    | nil =>
      refine .inr ⟨?_, ihq hq hs⟩
      by_contra hnull
      exact ne_nil_of_matches (Bool.not_eq_true _ ▸ hnull) hp rfl
    | cons b s₁ => exact .inl (ihp hp hs)
  | alt p q ihp ihq =>
    rw [Pattern.canStartWith, Bool.or_eq_true]
    exact h.imp (ihp · hs) (ihq · hs)
  | zeroOrMore greedy p ih =>
    obtain ⟨l', s', r', g', hs', hp⟩ := Rounds.exists_cons h hs
    exact ih hp hs'
  | oneOrMore greedy p ih =>
    obtain ⟨s₁, s₂, g₁, g₂, rfl, -, hp, hmore⟩ := h
    cases s₁ with
    | nil =>
      obtain ⟨l', s', r', g', hs', hp⟩ := Rounds.exists_cons hmore hs
      exact ih hp hs'
    | cons b s₁ => exact ih hp hs
  | group index p ih =>
    obtain ⟨g', h, -⟩ := h
    exact ih h hs

/-! ## Words that every match holds -/

/-- Every match of the pattern holds the text `t`. -/
def Holds (p : Pattern) (t : Text) : Prop :=
  ∀ l s r g, p.Matches l s r g → t <:+: s

theorem holds_lit (t : Text) : (lit t).Holds t := by
  intro l s r g h
  obtain ⟨rfl, -⟩ := matches_lit.1 h
  exact List.infix_rfl

theorem Holds.append_left {t : Text} (h : p.Holds t) (q : Pattern) : (p ++ q).Holds t := by
  rintro l _ r _ ⟨s₁, s₂, _, _, rfl, -, hp, -⟩
  exact (h _ _ _ _ hp).trans (List.prefix_append s₁ s₂).isInfix

theorem Holds.append_right {t : Text} (h : q.Holds t) (p : Pattern) : (p ++ q).Holds t := by
  rintro l _ r _ ⟨s₁, s₂, _, _, rfl, -, -, hq⟩
  exact (h _ _ _ _ hq).trans (List.suffix_append s₁ s₂).isInfix

theorem Holds.group {t : Text} (h : p.Holds t) (index : Nat) : (group index p).Holds t := by
  rintro l s r _ ⟨g, hp, -⟩
  exact h _ _ _ _ hp

/-! ## Groups -/

/-- The pattern has no groups. -/
def isGroupless : Pattern → Bool
  | empty | assert _ | char _ => true
  | seq p q | alt p q => p.isGroupless && q.isGroupless
  | zeroOrMore _ p | oneOrMore _ p => p.isGroupless
  | group _ _ => false

theorem Rounds.captures_eq_nil {round : Text → Text → Text → List Capture → Prop}
    (hround : ∀ l s r g, round l s r g → g = []) (h : Rounds round l s r g) : g = [] := by
  induction h with
  | nil => rfl
  | cons hr _ ih => rw [ih, hround _ _ _ _ hr, List.append_nil]

theorem Matches.captures_eq_nil (hp : p.isGroupless = true) (h : p.Matches l s r g) : g = [] := by
  induction p generalizing l s r g with
  | empty => exact h.2
  | assert place => exact h.2.1
  | char set => exact h.2
  | seq p q ihp ihq =>
    obtain ⟨s₁, s₂, g₁, g₂, -, rfl, hp', hq'⟩ := h
    rw [isGroupless, Bool.and_eq_true] at hp
    rw [ihp hp.1 hp', ihq hp.2 hq', List.append_nil]
  | alt p q ihp ihq =>
    rw [isGroupless, Bool.and_eq_true] at hp
    exact h.elim (ihp hp.1) (ihq hp.2)
  | zeroOrMore greedy p ih => exact Rounds.captures_eq_nil (fun _ _ _ _ => ih hp) h
  | oneOrMore greedy p ih =>
    obtain ⟨s₁, s₂, g₁, g₂, -, rfl, hp', hmore⟩ := h
    rw [ih hp hp', Rounds.captures_eq_nil (fun _ _ _ _ => ih hp) hmore, List.append_nil]
  | group index p => cases hp

/-! ## Texts in which no match starts -/

/-- No match of the pattern starts in the text `t`, whatever stands around it. -/
def Misses (p : Pattern) (t : Text) : Prop :=
  ∀ l a b rest s r g, t = a ++ b → b ≠ [] → b ++ rest = s ++ r → ¬ p.Matches (l ++ a) s r g

theorem misses_nil : p.Misses [] := by
  intro l a b rest s r g ht hb
  exact absurd (List.append_eq_nil_iff.mp ht.symm).2 hb

theorem Misses.append {t t' : Text} (h : p.Misses t) (h' : p.Misses t') : p.Misses (t ++ t') := by
  intro l a b rest s r g ht hb hrest hmatch
  rcases List.append_eq_append_iff.mp ht with ⟨c, rfl, ht'⟩ | ⟨c, rfl, rfl⟩
  · exact h' (l ++ t) c b rest s r g ht' hb hrest (by rwa [List.append_assoc])
  · by_cases hc : c = []
    · subst hc
      refine h' (l ++ a) [] t' rest s r g rfl hb hrest (by rwa [List.append_nil])
    · exact h l a c (t' ++ rest) s r g rfl hc (by rw [← List.append_assoc, hrest]) hmatch

theorem misses_flatMap {ι : Type} {text : ι → Text} {items : List ι}
    (h : ∀ i ∈ items, p.Misses (text i)) : p.Misses (items.flatMap text) := by
  induction items with
  | nil => exact misses_nil
  | cons i items ih =>
    obtain ⟨hi, hitems⟩ := List.forall_mem_cons.mp h
    exact hi.append (ih hitems)

/-- Nothing starts with a character that no match starts with. -/
theorem misses_of_forall (hp : p.isNullable = false) {t : Text}
    (h : ∀ c ∈ t, p.canStartWith c = false) : p.Misses t := by
  rintro l a b rest s r g rfl hb hrest hmatch
  obtain ⟨c, b, rfl⟩ := List.exists_cons_of_ne_nil hb
  obtain ⟨d, s, rfl⟩ := List.exists_cons_of_ne_nil (ne_nil_of_matches hp hmatch)
  obtain rfl := (List.cons.inj hrest).1
  have hstart := hmatch.canStartWith rfl
  rw [h c (by simp)] at hstart
  cases hstart

/-- Nothing is found in a text that lacks what every match has. -/
theorem find?_eq_none_of_forall {t : Text}
    (h : ∀ l s r g, p.Matches l s r g → ∃ c ∈ s, c ∉ t) : p.find? t = none := by
  cases hfind : p.find? t with
  | none => rfl
  | some c =>
    obtain ⟨l, s, r, g, rfl, hmatch, -⟩ := exists_of_find? hfind
    obtain ⟨c, hc, hnot⟩ := h _ _ _ _ hmatch
    exact absurd (by simp [hc]) hnot

theorem Misses.find?_eq_none (hp : p.isNullable = false) {t : Text} (h : p.Misses t) :
    p.find? t = none := by
  cases hfind : p.find? t with
  | none => rfl
  | some c =>
    obtain ⟨l, s, r, g, ht, hmatch, -⟩ := exists_of_find? hfind
    refine absurd hmatch (h [] l (s ++ r) [] s r g ?_ ?_ (List.append_nil _))
    · rw [← ht, List.append_assoc]
    · exact List.append_ne_nil_of_left_ne_nil (ne_nil_of_matches hp hmatch) r

end Pattern

end HeaderSync

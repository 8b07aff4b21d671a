import HeaderSync.Pattern.Reading
import HeaderSync.Proofs.Pattern.Grouping

/-!
# Reading of notations

The notation of a pattern is read token by token, so a text that is escaped and put between two
notations is read as itself, whatever it is.

* `Pattern.Writes` : the text is the notation of the pattern, up to its grouping;
* `Notation.tokensWithin?_mono`, `Notation.tokensWithin?_step` : tokens one by one;
* `Notation.tokensWithin?_escape` : the tokens of an escaped text;
* `Notation.exists_read?_escape` : an escaped text between two notations.
-/

namespace HeaderSync.Pattern

/-- The text is a notation of the pattern, up to its grouping. -/
def Writes (written : Text) (p : Pattern) : Prop :=
  ∃ q, read? written = some q ∧ q.Regroups p

instance (written : Text) (p : Pattern) : Decidable (Writes written p) :=
  match h : read? written with
  | none => .isFalse fun ⟨_, hread, _⟩ => by simp [h] at hread
  | some q => decidable_of_iff (q.Regroups p)
      ⟨fun hq => ⟨q, h, hq⟩, fun ⟨_, hread, hq⟩ => Option.some.inj (h.symm.trans hread) ▸ hq⟩

namespace Notation

/-! ## Tokens -/

theorem tokensWithin?_nil (n : Nat) : tokensWithin? n [] = some [] := by
  cases n <;> rfl

theorem tokensWithin?_succ {n : Nat} {t : Text} (ht : t ≠ []) :
    tokensWithin? (n + 1) t =
      (readToken? t).bind fun next => (tokensWithin? n next.2).map (next.1 :: ·) := by
  obtain ⟨c, t, rfl⟩ := List.exists_cons_of_ne_nil ht
  rw [tokensWithin?]
  cases readToken? (c :: t) with
  | none => rfl
  | some next => exact (Option.map_eq_bind ..).symm

/-- More fuel finds the same tokens. -/
theorem tokensWithin?_mono {n m : Nat} (hle : n ≤ m) {t : Text} {ts : List Token}
    (h : tokensWithin? n t = some ts) : tokensWithin? m t = some ts := by
  induction n generalizing m t ts with
  | zero =>
    cases t with
    | nil => rw [← h, tokensWithin?_nil, tokensWithin?_nil]
    | cons c t => cases h
  | succ n ih =>
    by_cases ht : t = []
    · rw [← h, ht, tokensWithin?_nil, tokensWithin?_nil]
    · obtain ⟨m, rfl⟩ : ∃ k, m = k + 1 := ⟨m - 1, by omega⟩
      rw [tokensWithin?_succ ht] at h ⊢
      obtain ⟨next, hnext, h⟩ := Option.bind_eq_some_iff.mp h
      obtain ⟨rest, hrest, rfl⟩ := Option.map_eq_some_iff.mp h
      rw [hnext, Option.bind_some, ih (Nat.le_of_succ_le_succ hle) hrest, Option.map_some]

theorem tokensWithin?_step {n : Nat} {t rest : Text} {token : Token} {ts : List Token}
    (hread : readToken? t = some (token, rest)) (hrest : tokensWithin? n rest = some ts) :
    tokensWithin? (n + 1) t = some (token :: ts) := by
  have ht : t ≠ [] := by
    rintro rfl
    cases hread
  rw [tokensWithin?_succ ht, hread, Option.bind_some, hrest, Option.map_some]

/-- A star before anything but a question mark prefers more rounds. -/
theorem readToken?_star {u : Text} (hu : u.head? ≠ some '?') :
    readToken? ('*' :: u) = some (.count true 0 none, u) := by
  cases u with
  | nil => rfl
  | cons c u =>
    have hc : c ≠ '?' := by simpa using hu
    rw [readToken?, countToken]
    intro _ h
    exact hc (List.cons.inj h).1

/-! ## Escaped texts -/

/-- The character itself as a token. -/
def Token.ofChar (c : Char) : Token :=
  .piece (.char (.single c))

/-- The signs that mean something else than themselves. -/
def signs : Text := "\\.+*?()|[]\x7b\x7d^$#&-~"

theorem readToken?_of_sign {c : Char} (h : c ∈ signs) (t : Text) :
    readToken? ('\\' :: c :: t) = some (.ofChar c, t) := by
  have hsigns : (signs.all fun c => decide
      (c ∉ ("bBAz" : Text) ∧ classEscape? c = none ∧ charEscape? c = some c)) = true := by decide
  obtain ⟨hplace, hclass, hchar⟩ := of_decide_eq_true (List.all_eq_true.mp hsigns c h)
  have hescape : readEscape? (c :: t) = some (.char (.single c), t) := by
    unfold readEscape?
    split
    all_goals simp_all
  rw [readToken?, hescape]
  rfl

theorem readToken?_of_not_sign {c : Char} (h : c ∉ signs) (t : Text) :
    readToken? (c :: t) = some (.ofChar c, t) := by
  rw [readToken?]
  · rfl
  all_goals
    intros
    subst_vars
    exact h (by decide)

theorem escape_cons (c : Char) (t : Text) :
    escape (c :: t) = (if c ∈ signs then ['\\', c] else [c]) ++ escape t :=
  rfl

theorem length_le_escape (t : Text) : t.length ≤ (escape t).length := by
  induction t with
  | nil => exact Nat.zero_le _
  | cons c t ih =>
    rw [escape_cons, List.length_append, List.length_cons]
    split <;> simp <;> omega

/-- An escaped text is read as itself. -/
theorem tokensWithin?_escape (name : Text) {n : Nat} {u : Text} {ts : List Token}
    (h : tokensWithin? n u = some ts) :
    tokensWithin? (n + name.length) (escape name ++ u) = some (name.map Token.ofChar ++ ts) := by
  induction name with
  | nil => exact h
  | cons c name ih =>
    rw [escape_cons, List.length_cons, ← Nat.add_assoc, List.append_assoc]
    have hread : readToken? ((if c ∈ signs then ['\\', c] else [c]) ++ (escape name ++ u)) =
        some (.ofChar c, escape name ++ u) := by
      split
      · exact readToken?_of_sign ‹_› _
      · exact readToken?_of_not_sign ‹_› _
    exact tokensWithin?_step hread ih

/-- An escaped text makes no repetition before it prefer fewer rounds. -/
theorem head_escape_append {name u : Text} (hu : u.head? ≠ some '?') :
    (escape name ++ u).head? ≠ some '?' := by
  cases name with
  | nil => exact hu
  | cons c name =>
    rw [escape_cons]
    split
    · simp
    · rename_i hc
      rintro h
      obtain rfl : c = '?' := by simpa using h
      exact hc (by decide)

/-! ## Levels -/

theorem parts_current (l : Level) : l.current.parts = l.parts.reverse.flatMap Pattern.parts := by
  rw [Level.current]
  split
  · rename_i h
    rw [h]
    rfl
  · rename_i p ps h
    rw [h, parts_foldl_seq, List.flatMap_cons]

/-- The builder outside all groups, with a single alternative so far. -/
def Builder.outer (nextIndex : Nat) (parts : List Pattern) (repeatable : Bool) : Builder :=
  ⟨[], ⟨none, ⟨false, false⟩, [], parts, repeatable⟩, nextIndex⟩

theorem finish?_outer (nextIndex : Nat) (parts : List Pattern) (repeatable : Bool) :
    ∃ q, (Builder.outer nextIndex parts repeatable).finish? = some q ∧
      q.parts = parts.reverse.flatMap Pattern.parts :=
  ⟨_, rfl, parts_current _⟩

/-- Characters are put on top of the parts before them. -/
theorem foldlM_ofChar (name : Text) (nextIndex : Nat) (parts : List Pattern) (repeatable : Bool) :
    ∃ again, (name.map Token.ofChar).foldlM Builder.step? (.outer nextIndex parts repeatable) =
      some (.outer nextIndex ((name.map fun c => char (.single c)).reverse ++ parts) again) := by
  induction name generalizing parts repeatable with
  | nil => exact ⟨repeatable, rfl⟩
  | cons c name ih =>
    obtain ⟨again, h⟩ := ih (char (.single c) :: parts) true
    refine ⟨again, ?_⟩
    rw [List.map_cons, List.map_cons, List.reverse_cons, List.append_assoc]
    exact h

/-! ## Escaped texts between notations -/

/-- An escaped text is read as itself between two notations, of which the first is cut into tokens
before whatever follows it and the second adds the same parts to whatever stands before it. -/
theorem exists_read?_escape (name : Text) {lead tail : Text} {tokens : List Token}
    {before after : List Pattern} {nextIndex last : Nat} {repeatable again : Bool}
    (hlength : tokens.length ≤ lead.length)
    (hlead : ∀ {n : Nat} {u : Text} {ts : List Token}, u.head? ≠ some '?' →
      tokensWithin? n u = some ts → tokensWithin? (n + tokens.length) (lead ++ u) = some (tokens ++ ts))
    (hbefore : tokens.foldlM Builder.step? .start = some (.outer nextIndex before repeatable))
    (htail : tail.head? ≠ some '?')
    (hafter : ∀ (parts : List Pattern) (repeatable : Bool),
      (tokens? tail).bind (List.foldlM Builder.step? (.outer nextIndex parts repeatable)) =
        some (.outer last (after ++ parts) again)) :
    ∃ q, read? (lead ++ escape name ++ tail) = some q ∧
      q.parts = before.reverse.flatMap Pattern.parts ++ (lit name).parts ++
        after.reverse.flatMap Pattern.parts := by
  obtain ⟨ts, hts, -⟩ := Option.bind_eq_some_iff.mp (hafter [] false)
  have htokens : tokens? (lead ++ escape name ++ tail) =
      some (tokens ++ (name.map Token.ofChar ++ ts)) := by
    rw [List.append_assoc]
    refine tokensWithin?_mono ?_ (hlead (head_escape_append htail) (tokensWithin?_escape name hts))
    have hescape := length_le_escape name
    rw [List.length_append, List.length_append]
    omega
  obtain ⟨again', hname⟩ := foldlM_ofChar name nextIndex before repeatable
  have hrest := hafter ((name.map fun c => char (.single c)).reverse ++ before) again'
  rw [hts, Option.bind_some] at hrest
  obtain ⟨q, hfinish, hparts⟩ := finish?_outer last
    (after ++ ((name.map fun c => char (.single c)).reverse ++ before)) again
  refine ⟨q, ?_, ?_⟩
  · have hbuild : (tokens ++ (name.map Token.ofChar ++ ts)).foldlM Builder.step? .start =
        some (.outer last (after ++ ((name.map fun c => char (.single c)).reverse ++ before))
          again) := by
      rw [List.foldlM_append, hbefore, Option.bind_eq_bind, Option.bind_some, List.foldlM_append,
        hname, Option.bind_eq_bind, Option.bind_some, hrest]
    rw [read?, htokens, Option.bind_eq_bind, Option.bind_some, hbuild]
    exact hfinish
  · rw [hparts, List.reverse_append, List.reverse_append, List.reverse_reverse, List.flatMap_append,
      List.flatMap_append, List.flatMap_map, parts_lit, List.map_eq_flatMap]
    rfl

end Notation

end HeaderSync.Pattern

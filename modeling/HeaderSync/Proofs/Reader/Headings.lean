import HeaderSync.Proofs.Scan.Pieces
import HeaderSync.Proofs.Signature.Qualified
import HeaderSync.Reader.Source

/-!
# Headings of definitions

What the recognizers of a source make of a definition that is written plainly: a heading, parameters
without brackets, perhaps `const`, and a body without brackets.

* `Written` : such a definition;
* `Written.first_bracket` : the first bracket that a search comes upon tells where it started;
* `matches_constructor`, `matches_destructor`, `matches_definition` : what the heads match.
-/

namespace HeaderSync

open Text

/-! ## Splitting texts -/

/-- A list is split in one way only at its first element without a property. -/
theorem append_cons_inj_of_forall {α : Type} {P : α → Prop} {a a' b b' : List α} {x x' : α}
    (ha : ∀ c ∈ a, P c) (ha' : ∀ c ∈ a', P c) (hx : ¬ P x) (hx' : ¬ P x')
    (h : a ++ x :: b = a' ++ x' :: b') : a = a' ∧ x = x' ∧ b = b' := by
  induction a generalizing a' with
  | nil =>
    cases a' with
    | nil => exact ⟨rfl, List.cons.inj h⟩
    | cons c a' =>
      obtain ⟨rfl, -⟩ := List.cons.inj h
      exact absurd (ha' x List.mem_cons_self) hx
  | cons c a ih =>
    cases a' with
    | nil =>
      obtain ⟨rfl, -⟩ := List.cons.inj h
      exact absurd (ha c List.mem_cons_self) hx'
    | cons c' a' =>
      obtain ⟨rfl, htail⟩ := List.cons.inj h
      obtain ⟨rfl, hrest⟩ := ih (List.forall_mem_cons.mp ha).2 (List.forall_mem_cons.mp ha').2 htail
      exact ⟨rfl, hrest⟩

/-- A list is split in one way only after its last element with a property. -/
theorem append_inj_of_getLast {α : Type} {P : α → Prop} {u u' v v' : List α} (hv : ∀ c ∈ v, ¬ P c)
    (hv' : ∀ c ∈ v', ¬ P c) (hu : ∀ c ∈ u.getLast?, P c) (hu' : ∀ c ∈ u'.getLast?, P c)
    (h : u ++ v = u' ++ v') : u = u' ∧ v = v' := by
  have hnil : ∀ {w m t : List α}, (∀ c ∈ m ++ t, ¬ P c) → (∀ c ∈ (w ++ m).getLast?, P c) →
      m = [] := by
    intro w m t hm hw
    by_contra hne
    obtain ⟨m, c, rfl⟩ := List.eq_nil_or_concat m |>.resolve_left hne
    rw [List.concat_eq_append, ← List.append_assoc, List.getLast?_concat] at hw
    exact hm c (by simp) (hw c rfl)
  rcases List.append_eq_append_iff.mp h with ⟨m, rfl, rfl⟩ | ⟨m, rfl, rfl⟩
  · obtain rfl := hnil hv hu'
    simp
  · obtain rfl := hnil hv' hu
    simp

/-- A text without the character `d` starts behind it. -/
theorem exists_append_of_notMem {d : Char} {a q u t : Text} (hq : d ∉ q) (h : a ++ q = u ++ d :: t) :
    ∃ m, a = u ++ d :: m ∧ m ++ q = t := by
  have h' : a ++ q = (u ++ [d]) ++ t := by simpa using h
  rcases List.append_eq_append_iff.mp h' with ⟨m, hu, rfl⟩ | ⟨m, rfl, rfl⟩
  · rcases List.eq_nil_or_concat m with rfl | ⟨m, c, rfl⟩
    · exact ⟨[], by simpa using hu.symm, by simp⟩
    · rw [List.concat_eq_append, ← List.append_assoc] at hu
      obtain rfl : d = c := by simpa using (List.append_inj' hu rfl).2
      exact absurd (by simp) hq
  · exact ⟨m, by simp, rfl⟩

/-! ## Definitions -/

/-- What is said of the characters of a text is decided along the text. -/
instance (p : Char → Prop) [DecidablePred p] (t : Text) : Decidable (∀ c ∈ t, p c) :=
  List.decidableBAll p t

def brackets : Text := "()\x7b\x7d"

/-- Without brackets. -/
def IsFlat (t : Text) : Prop :=
  ∀ c ∈ t, c ∉ brackets

instance (t : Text) : Decidable (IsFlat t) :=
  inferInstanceAs (Decidable (∀ c ∈ t, c ∉ brackets))

theorem IsFlat.append {s t : Text} (hs : IsFlat s) (ht : IsFlat t) : IsFlat (s ++ t) :=
  List.forall_mem_append.mpr ⟨hs, ht⟩

/-- What literals, comments and preprocessor lines are told by. -/
def marks : Text := ['"', '\'', '/', '#']

/-- Without marks. -/
def IsUnmarked (t : Text) : Prop :=
  ∀ c ∈ t, c ∉ marks

instance (t : Text) : Decidable (IsUnmarked t) :=
  inferInstanceAs (Decidable (∀ c ∈ t, c ∉ marks))

theorem IsUnmarked.append {s t : Text} (hs : IsUnmarked s) (ht : IsUnmarked t) :
    IsUnmarked (s ++ t) :=
  List.forall_mem_append.mpr ⟨hs, ht⟩

theorem Pattern.Matches.isFlat {p : Pattern} {l s r : Text} {g : List Capture}
    (h : p.Matches l s r g) (hp : brackets.all p.avoids = true) : IsFlat s :=
  fun c hc hbracket => h.notMem (List.all_eq_true.mp hp c hbracket) hc

theorem isFlat_of_allBlank {t : Text} (h : allBlank t = true) : IsFlat t := by
  have hbrackets : ∀ c ∈ brackets, isBlank c = false := by
    decide
  intro c hc hbracket
  have hb := hbrackets c hbracket
  rw [List.all_eq_true.mp h c hc] at hb
  cases hb

theorem isUnmarked_of_allBlank {t : Text} (h : allBlank t = true) : IsUnmarked t := by
  have hmarks : ∀ c ∈ marks, isBlank c = false := by
    decide
  intro c hc hmark
  have hb := hmarks c hmark
  rw [List.all_eq_true.mp h c hc] at hb
  cases hb

theorem matches_blanks {l s r : Text} {g : List Capture} :
    Pattern.blanks.Matches l s r g ↔ allBlank s = true ∧ g = [] := by
  rw [Pattern.blanks, Pattern.star, Pattern.matches_zeroOrMore_char, allBlank, List.all_eq_true]
  exact Iff.rfl

/-- A head in front of a brace. -/
theorem matches_braces {p : Pattern} {l s r : Text} {g : List Capture} :
    (BodyPattern.braces p).head.Matches l s r g ↔ ∃ s₁ blank, s = s₁ ++ (blank ++ ['\x7b']) ∧
      allBlank blank = true ∧ p.Matches l s₁ (blank ++ '\x7b' :: r) g := by
  constructor
  · rintro ⟨s, brace, g', g₂, rfl, rfl, ⟨s₁, blank, g₁, g₃, rfl, rfl, hp, hblank⟩, hbrace⟩
    obtain ⟨rfl, rfl⟩ := Pattern.matches_lit.1 hbrace
    obtain ⟨hall, rfl⟩ := matches_blanks.1 hblank
    exact ⟨s₁, blank, List.append_assoc .., hall, hp⟩
  · rintro ⟨s₁, blank, rfl, hblank, hp⟩
    exact ⟨s₁ ++ blank, ['\x7b'], g, [], (List.append_assoc ..).symm, rfl,
      ⟨s₁, blank, g, [], rfl, rfl, hp, matches_blanks.2 ⟨hblank, rfl⟩⟩,
      Pattern.matches_lit.2 ⟨rfl, rfl⟩⟩

/-- The text `x` up to its first bracket is a part of `a`, or the search for a bracket from `a` on
ends right there. -/
theorem IsFlat.split {x y a s₁ s₂ : Text} {c d : Char} (hx : IsFlat x) (hs : IsFlat s₁)
    (hd : d ∈ brackets) (hc : c ∈ brackets) (h : x ++ d :: y = a ++ (s₁ ++ c :: s₂)) :
    x = a ++ s₁ ∧ d = c ∧ y = s₂ ∨ ∃ a', a = x ++ d :: a' ∧ y = a' ++ (s₁ ++ c :: s₂) := by
  have hnot : ∀ {e : Char}, e ∈ brackets → ¬ e ∉ brackets := fun he hne => hne he
  rcases List.append_eq_append_iff.mp h with ⟨m, rfl, hm⟩ | ⟨m, rfl, hm⟩
  · cases m with
    | nil =>
      obtain ⟨rfl, rfl, rfl⟩ := append_cons_inj_of_forall (a := []) (P := (· ∉ brackets))
        (List.forall_mem_nil _) hs (hnot hd) (hnot hc) hm
      exact .inl ⟨by simp, rfl, rfl⟩
    | cons e m =>
      obtain ⟨rfl, rfl⟩ := List.cons.inj hm
      exact .inr ⟨m, rfl, rfl⟩
  · obtain ⟨rfl, rfl, rfl⟩ := append_cons_inj_of_forall (P := (· ∉ brackets)) hs
      (List.forall_mem_append.mp hx).2 (hnot hc) (hnot hd) hm
    exact .inl ⟨rfl, rfl, rfl⟩

/-- A definition: what stands before the parameters, the parameters, whether `const` follows them,
and the body. -/
structure Written where
  front : Text
  args : Text
  isConst : Bool
  body : Text

namespace Written

/-- What stands between the parameters and the body. -/
def ending (w : Written) : Text :=
  if w.isConst then " const " else " "

def text (w : Written) : Text :=
  w.front ++ '(' :: (w.args ++ ')' :: (w.ending ++ '\x7b' :: (w.body ++ ['\x7d'])))

/-- No brackets but those around the parameters and the body, and no marks. A word, the name, stands
before the parameters. -/
structure IsPlain (w : Written) : Prop where
  front : IsFlat w.front
  endsInWord : w.front.endsInWord = true
  args : IsFlat w.args
  body : IsFlat w.body
  unmarked : IsUnmarked w.text

theorem isFlat_ending (w : Written) : IsFlat w.ending := by
  rw [ending]
  split <;> decide

variable {w : Written}

/-- The first bracket from a place of the definition on tells where that place is. -/
theorem first_bracket (hw : w.IsPlain) {a b rest s₁ s₂ : Text} {c : Char} (ht : w.text = a ++ b)
    (hb : b ≠ []) (hrest : b ++ rest = s₁ ++ c :: s₂) (hs : IsFlat s₁) (hc : c ∈ brackets) :
    c = '(' ∧ w.front = a ++ s₁ ∧
        s₂ = w.args ++ ')' :: (w.ending ++ '\x7b' :: (w.body ++ '\x7d' :: rest)) ∨
      c = ')' ∨ c = '\x7b' ∧ s₁ <:+ w.ending ∨ c = '\x7d' := by
  have h : w.front ++ '(' :: (w.args ++ ')' :: (w.ending ++ '\x7b' :: (w.body ++ '\x7d' :: rest))) =
      a ++ (s₁ ++ c :: s₂) := by
    rw [← hrest, ← List.append_assoc, ← ht, text]
    simp
  rcases hw.front.split hs (by decide) hc h with ⟨hfront, rfl, hs₂⟩ | ⟨a, rfl, hargs⟩
  · exact .inl ⟨rfl, hfront, hs₂.symm⟩
  rcases hw.args.split hs (by decide) hc hargs with ⟨-, rfl, -⟩ | ⟨a, rfl, hending⟩
  · exact .inr (.inl rfl)
  rcases w.isFlat_ending.split hs (by decide) hc hending with ⟨heq, rfl, -⟩ | ⟨a, rfl, hbody⟩
  · exact .inr (.inr (.inl ⟨rfl, a, heq.symm⟩))
  rcases hw.body.split hs (by decide) hc hbody with ⟨-, rfl, -⟩ | ⟨a, rfl, -⟩
  · exact .inr (.inr (.inr rfl))
  · have hlen := congrArg List.length ht
    have hpos := List.length_pos_iff.mpr hb
    simp only [text, List.length_append, List.length_cons, List.length_nil] at hlen
    omega

/-- Words that a heading may start with, and no definition does. -/
def headKeywords : List Text := ["namespace", "class", "struct", "union", "enum"]

/-- A heading without brackets that has one of those words is none of the definition. -/
theorem misses_braces (hw : w.IsPlain) {p : Pattern} (hp : brackets.all p.avoids = true)
    (hword : ∀ l s r g, p.Matches l s r g → ∃ k ∈ headKeywords, k <:+: s) :
    (BodyPattern.braces p).head.Misses w.text := by
  intro l a b rest s r g ht hb hrest h
  obtain ⟨s, blank, rfl, hblank, hmatch⟩ := matches_braces.1 h
  obtain ⟨k, hk, hin⟩ := hword _ _ _ _ hmatch
  have hending : ∀ k ∈ headKeywords, ¬ k <:+: (" " : Text) ∧ ¬ k <:+: (" const " : Text) := by
    decide +kernel
  have hsplit : b ++ rest = (s ++ blank) ++ '\x7b' :: r := by simpa using hrest
  rcases first_bracket hw ht hb hsplit
    ((hmatch.isFlat hp).append (isFlat_of_allBlank hblank)) (by decide) with
    ⟨hc, -⟩ | hc | ⟨-, hsuffix⟩ | hc
  · cases hc
  · cases hc
  · have hinfix := (hin.trans (List.prefix_append s blank).isInfix).trans hsuffix.isInfix
    rw [ending] at hinfix
    split at hinfix
    · exact (hending k hk).2 hinfix
    · exact (hending k hk).1 hinfix
  · cases hc

end Written

/-! ## Names -/

/-- One or more characters of a word. -/
def IsWord (w : Text) : Prop :=
  w ≠ [] ∧ ∀ c ∈ w, isWordChar c = true

instance (w : Text) : Decidable (IsWord w) :=
  inferInstanceAs (Decidable (_ ∧ _))

theorem IsWord.notMem {w : Text} (h : IsWord w) {c : Char} (hc : isWordChar c = false) : c ∉ w := by
  intro hmem
  rw [h.2 c hmem] at hc
  cases hc

/-- Scopes, each with the colons behind it. -/
def scopesText (ws : List Text) : Text :=
  ws.flatMap (· ++ ("::" : Text))

theorem scopesText_concat (ws : List Text) (v : Text) :
    scopesText (ws ++ [v]) = scopesText ws ++ (v ++ "::") := by
  simp [scopesText]

theorem joinScopes_eq (scopes : List Text) (name : Text) :
    Signature.joinScopes scopes name = scopesText scopes ++ name := by
  induction scopes with
  | nil => exact Signature.joinScopes_nil name
  | cons s scopes ih =>
    rw [Signature.joinScopes_cons, ih]
    simp [scopesText]

/-- Scopes end with a colon. -/
theorem getLast_scopesText (ws : List Text) : ∀ c ∈ (scopesText ws).getLast?, c = ':' := by
  rcases List.eq_nil_or_concat ws with rfl | ⟨ws, v, rfl⟩
  · simp [scopesText]
  · rw [List.concat_eq_append, scopesText_concat]
    simp

theorem mem_scopesText {ws : List Text} {c : Char} (h : c ∈ scopesText ws) :
    c = ':' ∨ ∃ w ∈ ws, c ∈ w := by
  obtain ⟨w, hw, hc⟩ := List.mem_flatMap.mp h
  rcases List.mem_append.mp hc with hc | hc
  · exact .inr ⟨w, hw, hc⟩
  · have hcolons : ∀ c ∈ ("::" : Text), c = ':' := by decide
    exact .inl (hcolons c hc)

/-- No blanks follow a word that ends a text. -/
theorem eq_nil_of_endsInWord {u blank : Text} (hblank : allBlank blank = true)
    (h : (u ++ blank).endsInWord = true) : blank = [] := by
  by_contra hne
  obtain ⟨blank, c, rfl⟩ := List.eq_nil_or_concat blank |>.resolve_left hne
  rw [List.concat_eq_append] at hblank h
  rw [← List.append_assoc, endsInWord, List.getLast?_concat, Option.any_some] at h
  have hc := isBlank_eq_false_of_isWordChar h
  rw [List.all_eq_true.mp hblank c (by simp)] at hc
  cases hc

/-- A name behind scopes is what follows the last colon. -/
theorem name_eq_of_append {u n n' : Text} {ws : List Text} (hu : ∀ c ∈ u.getLast?, c = ':')
    (hn : IsWord n) (hn' : IsWord n') (h : u ++ n = scopesText ws ++ n') :
    n = n' ∧ u = scopesText ws := by
  have hcolon : ∀ {n : Text}, IsWord n → ∀ c ∈ n, c ≠ ':' := by
    rintro n hn c hc rfl
    exact hn.notMem (c := ':') (by decide) hc
  obtain ⟨rfl, rfl⟩ := append_inj_of_getLast (P := (· = ':')) (hcolon hn) (hcolon hn') hu
    (getLast_scopesText ws) h
  exact ⟨rfl, rfl⟩

/-- The last of several scopes. -/
theorem exists_last_scope {u : Text} {ws : List Text} (h : u ++ ("::" : Text) = scopesText ws) :
    ∃ ws' v, ws = ws' ++ [v] ∧ u = scopesText ws' ++ v := by
  rcases List.eq_nil_or_concat ws with rfl | ⟨ws', v, rfl⟩
  · simp [scopesText] at h
  · rw [List.concat_eq_append, scopesText_concat, ← List.append_assoc] at h
    exact ⟨ws', v, List.concat_eq_append .., List.append_cancel_right h⟩

/-- The last scope in front of a name is whole, unless there is a character of it before the text. -/
theorem scope_eq_or_cut {m v v' : Text} {ws ws' : List Text} (hv : IsWord v) (hv' : IsWord v')
    (hws' : ∀ u ∈ ws', IsWord u) (h : m ++ scopesText ws ++ v = scopesText ws' ++ v') :
    v = v' ∨ ws = [] ∧ ∃ m' c, m = m' ++ [c] ∧ isWordChar c = true := by
  by_cases hcolon : ∀ c ∈ (m ++ scopesText ws).getLast?, c = ':'
  · exact .inl (name_eq_of_append hcolon hv hv' h).1
  · rcases List.eq_nil_or_concat ws with rfl | ⟨ws, u, rfl⟩
    · right
      rw [show scopesText [] = [] from rfl, List.append_nil] at h hcolon
      rcases List.eq_nil_or_concat m with rfl | ⟨m, c, rfl⟩
      · exact absurd (by simp) hcolon
      · rw [List.concat_eq_append] at h hcolon ⊢
        have hc : c ≠ ':' := fun heq => hcolon (by simp [heq])
        refine ⟨rfl, m, c, rfl, ?_⟩
        have hmem : c ∈ scopesText ws' ++ v' := by
          rw [← h]
          simp
        rcases List.mem_append.mp hmem with hmem | hmem
        · obtain ⟨u, hu, hmem⟩ := (mem_scopesText hmem).resolve_left hc
          exact (hws' u hu).2 c hmem
        · exact hv'.2 c hmem
    · rw [List.concat_eq_append, scopesText_concat] at hcolon
      exact absurd (by simp) hcolon

open Pattern Shapes

variable {l s r : Text} {g : List Capture}

theorem matches_plus_word : (plus (char .word)).Matches l s r g ↔ IsWord s ∧ g = [] := by
  rw [plus, matches_oneOrMore_char, ← and_assoc]
  exact Iff.rfl

theorem matches_scopes :
    scopes.Matches l s r g ↔ ∃ ws : List Text, (∀ w ∈ ws, IsWord w) ∧ s = scopesText ws ∧ g = [] := by
  constructor
  · intro h
    change Rounds (plus (char .word) ++ lit "::").Matches l s r g at h
    induction h with
    | nil => exact ⟨[], List.forall_mem_nil _, rfl, rfl⟩
    | cons hround _ ih =>
      obtain ⟨w, c, g₁, g₂, rfl, rfl, hw, hc⟩ := hround
      obtain ⟨hword, rfl⟩ := matches_plus_word.1 hw
      obtain ⟨rfl, rfl⟩ := matches_lit.1 hc
      obtain ⟨ws, hws, rfl, rfl⟩ := ih
      exact ⟨w :: ws, List.forall_mem_cons.mpr ⟨hword, hws⟩, rfl, rfl⟩
  · rintro ⟨ws, hws, rfl, rfl⟩
    change Rounds (plus (char .word) ++ lit "::").Matches l _ r []
    induction ws generalizing l with
    | nil => exact .nil
    | cons w ws ih =>
      obtain ⟨hw, hws⟩ := List.forall_mem_cons.mp hws
      exact Rounds.cons (g := []) ⟨w, "::", [], [], rfl, rfl, matches_plus_word.2 ⟨hw, rfl⟩,
        matches_lit.2 ⟨rfl, rfl⟩⟩ (ih hws)

/-! ## Parameters -/

/-- The first parenthesis of the text, if there is one, is an opening one. -/
def OpensFirst (x : Text) : Prop :=
  ∀ y z, x = y ++ ')' :: z → '(' ∈ y

theorem opensFirst_of_rounds {round : Text → Text → Text → List Capture → Prop}
    (hround : ∀ l s r g, round l s r g → (∃ c, s = [c] ∧ c ≠ ')') ∨ ∃ more, s = '(' :: more)
    (h : Rounds round l s r g) : OpensFirst s := by
  induction h with
  | nil => intro y z heq; simp at heq
  | cons hr _ ih =>
    intro y z heq
    rcases hround _ _ _ _ hr with ⟨c, rfl, hc⟩ | ⟨more, rfl⟩
    · cases y with
      | nil => exact absurd (List.cons.inj heq).1 hc
      | cons d y => exact List.mem_cons_of_mem d (ih y z (List.cons.inj heq).2)
    · cases y with
      | nil => exact absurd (List.cons.inj heq).1 (by decide)
      | cons d y => exact List.mem_cons.mpr (.inl (List.cons.inj heq).1)

/-- Parameters up to the parenthesis that closes them. -/
theorem OpensFirst.eq_of_append {x y s t : Text} (hx : OpensFirst x) (hy : IsFlat y)
    (h : x ++ ')' :: s = y ++ ')' :: t) : x = y ∧ s = t := by
  have hflat : ∀ c ∈ x, c ≠ '(' ∧ c ≠ ')' := by
    rcases List.append_eq_append_iff.mp h with ⟨m, rfl, -⟩ | ⟨m, rfl, hm⟩
    · intro c hc
      have hc' := hy c (List.mem_append_left _ hc)
      constructor <;> rintro rfl <;> exact hc' (by decide)
    · cases m with
      | nil =>
        intro c hc
        rw [List.append_nil] at hc
        have hc' := hy c hc
        constructor <;> rintro rfl <;> exact hc' (by decide)
      | cons d m =>
        obtain ⟨rfl, -⟩ := List.cons.inj hm
        exact absurd (hx y m rfl) fun hmem => hy _ hmem (by decide)
  have hflat' : ∀ c ∈ y, c ≠ '(' ∧ c ≠ ')' := by
    intro c hc
    constructor <;> rintro rfl <;> exact hy _ hc (by decide)
  obtain ⟨rfl, -, rfl⟩ := append_cons_inj_of_forall (P := fun c => c ≠ '(' ∧ c ≠ ')') hflat hflat'
    (by decide) (by decide) h
  exact ⟨rfl, rfl⟩

theorem matches_arguments {index : Nat} (h : (arguments index).Matches l s r g) :
    ∃ x, s = '(' :: (x ++ [')']) ∧ g = [(index, l ++ ['('], x)] ∧ OpensFirst x := by
  obtain ⟨s₁, s₂, g₁, g₂, rfl, rfl, ⟨s₃, x, g₃, g₄, rfl, rfl, hopen, g', hx, rfl⟩, hclose⟩ := h
  obtain ⟨rfl, rfl⟩ := matches_lit.1 hopen
  obtain ⟨rfl, rfl⟩ := matches_lit.1 hclose
  obtain rfl := hx.captures_eq_nil (by decide)
  refine ⟨x, rfl, rfl, opensFirst_of_rounds ?_ hx⟩
  rintro l s r g (⟨⟨c, rfl, hc⟩, -⟩ | ⟨s₁, s₂, _, _, rfl, -, ⟨s₃, s₄, _, _, rfl, -, hround, -⟩, -⟩)
  · refine .inl ⟨c, rfl, ?_⟩
    rintro rfl
    exact (CharSet.contains_noneOf _ _).mp hc (by decide)
  · obtain ⟨rfl, -⟩ := matches_lit.1 hround
    exact .inr ⟨s₄ ++ s₂, rfl⟩

theorem matches_arguments_of_isFlat {index : Nat} {x : Text} (hx : IsFlat x) :
    (arguments index).Matches l ('(' :: (x ++ [')'])) r [(index, l ++ ['('], x)] := by
  have hrounds : ∀ l' r', (star (char (.noneOf "()") ||| lit "(" ++ star (char (.noneOf "()") |||
      lit "(" ++ star (char (.noneOf "()")) ++ lit ")") ++ lit ")")).Matches l' x r' [] := by
    intro l' r'
    change Rounds _ l' x r' []
    induction x generalizing l' with
    | nil => exact .nil
    | cons c x ih =>
      obtain ⟨hc, hx⟩ := List.forall_mem_cons.mp hx
      refine Rounds.cons (s := [c]) (g := []) (.inl ⟨⟨c, rfl, ?_⟩, rfl⟩) (ih hx _)
      rw [CharSet.contains_noneOf]
      exact fun hmem => hc (List.mem_append_left ("\x7b\x7d" : Text) hmem)
  exact ⟨'(' :: x, [')'], [(index, l ++ ['('], x)], [], rfl, rfl,
    ⟨['('], x, [], [(index, l ++ ['('], x)], rfl, rfl, matches_lit.2 ⟨rfl, rfl⟩, [],
      hrounds _ _, rfl⟩, matches_lit.2 ⟨rfl, rfl⟩⟩

/-- Blanks, and perhaps the word `noexcept`. -/
def IsLoose (e : Text) : Prop :=
  ∀ c ∈ e, isBlank c = true ∨ c ∈ ("noexcept" : Text)

theorem isLoose_of_allBlank {e : Text} (h : allBlank e = true) : IsLoose e :=
  fun c hc => .inl (List.all_eq_true.mp h c hc)

theorem IsLoose.append {e e' : Text} (h : IsLoose e) (h' : IsLoose e') : IsLoose (e ++ e') :=
  List.forall_mem_append.mpr ⟨h, h'⟩

theorem IsLoose.notMem {e : Text} (h : IsLoose e) {c : Char} (hblank : isBlank c = false)
    (hword : c ∉ ("noexcept" : Text)) : c ∉ e := by
  intro hc
  rcases h c hc with hb | hc'
  · rw [hblank] at hb
    cases hb
  · exact hword hc'

theorem IsLoose.isFlat {e : Text} (h : IsLoose e) : IsFlat e := by
  have hbrackets : ∀ c ∈ brackets, isBlank c = false ∧ c ∉ ("noexcept" : Text) := by decide +kernel
  exact fun c hc hbracket => h.notMem (hbrackets c hbracket).1 (hbrackets c hbracket).2 hc

theorem matches_noexcept (h : (opt (word "noexcept")).Matches l s r g) : IsLoose s ∧ g = [] := by
  rcases h with ⟨s₁, s₂, g₁, g₂, rfl, rfl, hword, hblank⟩ | ⟨rfl, rfl⟩
  · obtain ⟨rfl, rfl⟩ := matches_lit.1 hword
    obtain ⟨hall, rfl⟩ := matches_blanks.1 hblank
    exact ⟨IsLoose.append (fun c hc => .inr hc) (isLoose_of_allBlank hall), rfl⟩
  · exact ⟨List.forall_mem_nil _, rfl⟩

namespace Written

variable {w : Written} {a b rest n x y : Text}

/-- A name and parameters that are found in the definition are its own. -/
theorem args_eq_of_split (hw : w.IsPlain) (ht : w.text = a ++ b) (hb : b ≠ [])
    (hrest : b ++ rest = n ++ '(' :: (x ++ ')' :: y)) (hn : IsFlat n) (hx : OpensFirst x) :
    w.front = a ++ n ∧ x = w.args ∧ y = w.ending ++ '\x7b' :: (w.body ++ '\x7d' :: rest) := by
  rcases first_bracket hw ht hb hrest hn (by decide) with
    ⟨-, hfront, hargs⟩ | hc | ⟨hc, -⟩ | hc
  · exact ⟨hfront, hx.eq_of_append hw.args hargs⟩
  · cases hc
  · cases hc
  · cases hc

/-- The same with what stands before the body. -/
theorem eq_of_split (hw : w.IsPlain) (ht : w.text = a ++ b) (hb : b ≠ []) {e r : Text}
    (hrest : b ++ rest = n ++ '(' :: (x ++ ')' :: (e ++ '\x7b' :: r))) (hn : IsFlat n)
    (hx : OpensFirst x) (he : IsFlat e) :
    w.front = a ++ n ∧ x = w.args ∧ e = w.ending ∧
      b = n ++ '(' :: (x ++ ')' :: (e ++ '\x7b' :: (w.body ++ ['\x7d']))) := by
  obtain ⟨hfront, rfl, hy⟩ := args_eq_of_split hw ht hb hrest hn hx
  obtain ⟨rfl, -, -⟩ := append_cons_inj_of_forall (P := (· ∉ brackets)) he w.isFlat_ending
    (by decide) (by decide) hy
  refine ⟨hfront, rfl, rfl, ?_⟩
  rw [text, hfront, List.append_assoc] at ht
  exact (List.append_cancel_left ht).symm

/-- Without `const` a loose ending is the only one. -/
theorem isConst_of_isLoose (h : IsLoose w.ending) : w.isConst = false := by
  rw [ending] at h
  cases hconst : w.isConst with
  | false => rfl
  | true =>
    rw [hconst] at h
    exact absurd (by decide) (h.notMem (c := 's') (by decide) (by decide))

end Written

/-! ## Heads -/

/-- The name of a constructor, or of a destructor with the tilde in `colons`. -/
theorem matches_ownName {colons : Text}
    (h : (group 1 (scopes ++ group 2 (plus (char .word)) ++ lit colons ++
      group 3 (plus (char .word)))).Matches l s r g) :
    ∃ ws v w, (∀ u ∈ ws, IsWord u) ∧ IsWord v ∧ IsWord w ∧ s = scopesText ws ++ v ++ colons ++ w ∧
      captured g 1 = s ∧ captured g 2 = v ∧ captured g 3 = w ∧ captured g 4 = [] := by
  obtain ⟨g', hname, rfl⟩ := matches_group.1 h
  obtain ⟨s₁, w, g₁, g₂, rfl, rfl, h, hw⟩ := matches_append.1 hname
  obtain ⟨s₂, c, g₃, g₄, rfl, rfl, h, hc⟩ := matches_append.1 h
  obtain ⟨s₃, v, g₅, g₆, rfl, rfl, hws, hv⟩ := matches_append.1 h
  obtain ⟨g₇, hvplus, rfl⟩ := matches_group.1 hv
  obtain ⟨g₈, hwplus, rfl⟩ := matches_group.1 hw
  obtain ⟨ws, hwords, rfl, rfl⟩ := matches_scopes.1 hws
  obtain ⟨hvword, rfl⟩ := matches_plus_word.1 hvplus
  obtain ⟨rfl, rfl⟩ := matches_lit.1 hc
  obtain ⟨hwword, rfl⟩ := matches_plus_word.1 hwplus
  exact ⟨ws, v, w, hwords, hvword, hwword, rfl, rfl, rfl, rfl, rfl⟩

theorem matches_constructorHead (h : constructorDefinitionHead.Matches l s r g) :
    ∃ ws v w blank x tail, (∀ u ∈ ws, IsWord u) ∧ IsWord v ∧ IsWord w ∧ allBlank blank = true ∧
      OpensFirst x ∧ s = scopesText ws ++ v ++ "::" ++ w ++ blank ++ '(' :: (x ++ ')' :: tail) ∧
      (IsLoose tail ∨ ∃ e more, tail = e ++ ':' :: more ∧ IsLoose e) ∧
      captured g 1 = scopesText ws ++ v ++ "::" ++ w ∧ captured g 2 = v ∧ captured g 3 = w ∧
      captured g 4 = x := by
  obtain ⟨s₁, i, g₁, g₂, rfl, rfl, h, hi⟩ := matches_append.1 h
  obtain ⟨s₂, e₂, g₃, g₄, rfl, rfl, h, he₂⟩ := matches_append.1 h
  obtain ⟨s₃, e₁, g₅, g₆, rfl, rfl, h, he₁⟩ := matches_append.1 h
  obtain ⟨s₄, args, g₇, g₈, rfl, rfl, h, hargs⟩ := matches_append.1 h
  obtain ⟨s₅, blank, g₉, g₁₀, rfl, rfl, hname, hblank⟩ := matches_append.1 h
  obtain ⟨ws, v, w, hws, hv, hw, rfl, h₁, h₂, h₃, -⟩ := matches_ownName hname
  obtain ⟨hallBlank, rfl⟩ := matches_blanks.1 hblank
  obtain ⟨x, rfl, rfl, hx⟩ := matches_arguments hargs
  obtain ⟨hblank₁, rfl⟩ := matches_blanks.1 he₁
  obtain ⟨hloose, rfl⟩ := matches_noexcept he₂
  have hloose' := (isLoose_of_allBlank hblank₁).append hloose
  obtain rfl := hi.captures_eq_nil (by decide)
  refine ⟨ws, v, w, blank, x, e₁ ++ e₂ ++ i, hws, hv, hw, hallBlank, hx, by simp, ?_, h₁, h₂, h₃, rfl⟩
  rcases hi with ⟨c, more, _, _, rfl, -, hc, -⟩ | ⟨rfl, -⟩
  · obtain ⟨rfl, -⟩ := matches_lit.1 hc
    exact .inr ⟨e₁ ++ e₂, more, rfl, hloose'⟩
  · rw [List.append_nil]
    exact .inl hloose'

theorem matches_destructorHead (h : destructorDefinitionHead.Matches l s r g) :
    ∃ ws v w blank x tail, (∀ u ∈ ws, IsWord u) ∧ IsWord v ∧ IsWord w ∧ allBlank blank = true ∧
      IsFlat x ∧ s = scopesText ws ++ v ++ "::~" ++ w ++ blank ++ '(' :: (x ++ ')' :: tail) ∧
      IsLoose tail ∧
      captured g 1 = scopesText ws ++ v ++ "::~" ++ w ∧ captured g 2 = v ∧ captured g 3 = w := by
  obtain ⟨s₁, e₂, g₁, g₂, rfl, rfl, h, he₂⟩ := matches_append.1 h
  obtain ⟨s₂, args, g₃, g₄, rfl, rfl, h, hargs⟩ := matches_append.1 h
  obtain ⟨s₃, blank, g₅, g₆, rfl, rfl, hname, hblank⟩ := matches_append.1 h
  obtain ⟨ws, v, w, hws, hv, hw, rfl, h₁, h₂, h₃, -⟩ := matches_ownName hname
  obtain ⟨hallBlank, rfl⟩ := matches_blanks.1 hblank
  obtain ⟨hloose, rfl⟩ := matches_noexcept he₂
  obtain rfl := hargs.captures_eq_nil (by decide)
  obtain ⟨s₄, e₁, _, _, rfl, -, hargs, he₁⟩ := matches_append.1 hargs
  obtain ⟨s₅, c, _, _, rfl, -, hargs, hc⟩ := matches_append.1 hargs
  obtain ⟨s₆, v', _, _, rfl, -, hargs, hv'⟩ := matches_append.1 hargs
  obtain ⟨o, b, _, _, rfl, -, ho, hb⟩ := matches_append.1 hargs
  obtain ⟨rfl, -⟩ := matches_lit.1 ho
  obtain ⟨rfl, -⟩ := matches_lit.1 hc
  refine ⟨ws, v, w, blank, b ++ v', e₁ ++ e₂, hws, hv, hw, hallBlank, ?_, by simp, ?_, h₁, h₂, h₃⟩
  · exact (hb.isFlat (by decide)).append (hv'.isFlat (by decide))
  · exact (isLoose_of_allBlank (matches_blanks.1 he₁).1).append hloose

/-- The word `operator` stands before the first bracket, which opens parameters or is a part of the
name. -/
def NamesOperator (s : Text) : Prop :=
  ∃ n y, s = n ++ '(' :: y ∧ IsFlat n ∧ Signature.operatorWord <:+: n

theorem NamesOperator.append {s : Text} (h : NamesOperator s) (t : Text) :
    NamesOperator (s ++ t) := by
  obtain ⟨n, y, rfl, hn, hword⟩ := h
  exact ⟨n, y ++ t, by simp, hn, hword⟩

theorem matches_castHead (h : castDefinitionHead.Matches l s r g) : NamesOperator s := by
  let target := group 1 (scopes ++ lit "operator") ++ blanks1 ++ castTarget 2 ++ blanks
  have hword : target.Holds Signature.operatorWord :=
    ((((holds_lit _).append_right _).group 1).append_left _).append_left _ |>.append_left _
  obtain ⟨s₁, s₂, _, _, rfl, -, h, -⟩ := matches_append.1 h
  obtain ⟨s₃, s₄, _, _, rfl, -, h, -⟩ := matches_append.1 h
  obtain ⟨s₅, s₆, _, _, rfl, -, h, -⟩ := matches_append.1 h
  obtain ⟨s₇, s₈, _, _, rfl, -, h, -⟩ := matches_append.1 h
  obtain ⟨n, paren, _, _, rfl, -, htarget, h⟩ := matches_append.1 h
  obtain ⟨s₉, s₁₀, _, _, rfl, -, hparen, -⟩ := matches_append.1 h
  obtain ⟨rfl, -⟩ := matches_lit.1 hparen
  have hflat : IsFlat n := Matches.isFlat (p := target) htarget (by decide)
  have hname : NamesOperator (n ++ ("(" ++ s₁₀)) :=
    ⟨n, s₁₀, rfl, hflat, hword _ _ _ _ htarget⟩
  exact (((hname.append s₈).append s₆).append s₄).append s₂

/-- What the characters of a name are. -/
def IsNameChar (c : Char) : Prop :=
  isWordChar c = true ∨ c = ':' ∨ c = '~'

theorem isNameChar_of_isWord {w : Text} (h : IsWord w) : ∀ c ∈ w, IsNameChar c :=
  fun c hc => .inl (h.2 c hc)

theorem isNameChar_scopesText {ws : List Text} (h : ∀ w ∈ ws, IsWord w) :
    ∀ c ∈ scopesText ws, IsNameChar c := by
  intro c hc
  rcases mem_scopesText hc with rfl | ⟨w, hw, hc⟩
  · exact .inr (.inl rfl)
  · exact isNameChar_of_isWord (h w hw) c hc

theorem matches_operatorSign (h : operatorSign.Matches l s r g) : s = "()" ∨ IsFlat s := by
  rcases h with h | h | h
  · exact .inl (matches_lit.1 h).1
  · exact .inr (h.isFlat (by decide))
  · exact .inr (h.isFlat (by decide))

theorem matches_functionName {index : Nat} (h : (functionName index).Matches l s r g) :
    (∃ n m, s = n ++ m ∧ IsFlat n ∧ Signature.operatorWord <:+: n ∧ (m = "()" ∨ m = [])) ∨
      s ≠ [] ∧ (∀ c ∈ s, IsNameChar c) ∧ g = [(index, l, s)] := by
  obtain ⟨g', ⟨s₁, s₂, g₁, g₂, rfl, rfl, hscopes, hname⟩, rfl⟩ := h
  obtain ⟨ws, hws, rfl, rfl⟩ := matches_scopes.1 hscopes
  have hflat := hscopes.isFlat (by decide)
  rcases hname with ⟨s₃, sign, _, _, rfl, -, hword, hsign⟩ | hname | hname
  · have hoperator := ((holds_lit Signature.operatorWord).append_left blanks) _ _ _ _ hword
    have hinfix := hoperator.trans (List.suffix_append (scopesText ws) s₃).isInfix
    have hflat₃ := hflat.append (hword.isFlat (by decide))
    rcases matches_operatorSign hsign with rfl | hsignFlat
    · exact .inl ⟨scopesText ws ++ s₃, "()", by simp, hflat₃, hinfix, .inl rfl⟩
    · exact .inl ⟨scopesText ws ++ s₃ ++ sign, [], by simp, hflat₃.append hsignFlat,
        hinfix.trans (List.prefix_append _ sign).isInfix, .inr rfl⟩
  · have hoperator := (((holds_lit Signature.operatorWord).append_left blanks1).append_left
      allocationWord) _ _ _ _ hname
    exact .inl ⟨scopesText ws ++ s₂, [], by simp, hflat.append (hname.isFlat (by decide)),
      hoperator.trans (List.suffix_append (scopesText ws) s₂).isInfix, .inr rfl⟩
  · obtain ⟨tilde, w, g₃, g₄, rfl, rfl, htilde, hw⟩ := hname
    obtain ⟨hword, rfl⟩ := matches_plus_word.1 hw
    have htilde' : (∀ c ∈ tilde, IsNameChar c) ∧ g₃ = [] := by
      rcases htilde with htilde | ⟨rfl, rfl⟩
      · obtain ⟨rfl, rfl⟩ := matches_lit.1 htilde
        exact ⟨by simp [IsNameChar], rfl⟩
      · exact ⟨List.forall_mem_nil _, rfl⟩
    obtain ⟨hchars, rfl⟩ := htilde'
    refine .inr ⟨?_, ?_, rfl⟩
    · simp [hword.1]
    · exact List.forall_mem_append.mpr ⟨isNameChar_scopesText hws,
        List.forall_mem_append.mpr ⟨hchars, isNameChar_of_isWord hword⟩⟩

/-- The word `const` between blanks and perhaps `noexcept`. -/
theorem matches_const {e₁ k e₂ e₃ : Text} (h₁ : allBlank e₁ = true)
    (hk : (opt (group 4 (lit "const"))).Matches l k r g) (h₂ : allBlank e₂ = true)
    (h₃ : IsLoose e₃) :
    IsFlat (e₁ ++ k ++ e₂ ++ e₃) ∧ (g = [] ∧ IsLoose (e₁ ++ k ++ e₂ ++ e₃) ∨
      g = [(4, l, ("const" : Text))] ∧ 's' ∈ e₁ ++ k ++ e₂ ++ e₃) := by
  have hflat := (((isFlat_of_allBlank h₁).append (hk.isFlat (by decide))).append
    (isFlat_of_allBlank h₂)).append h₃.isFlat
  refine ⟨hflat, ?_⟩
  rcases hk with ⟨g', hk, rfl⟩ | ⟨rfl, rfl⟩
  · obtain ⟨rfl, rfl⟩ := matches_lit.1 hk
    exact .inr ⟨rfl, by simp⟩
  · rw [List.append_nil]
    exact .inl ⟨rfl, ((isLoose_of_allBlank h₁).append (isLoose_of_allBlank h₂)).append h₃⟩

theorem matches_returnType {index : Nat} (h : (returnType index).Matches l s r g) :
    ∃ t blank, s = t ++ blank ∧ allBlank blank = true ∧ g = [(index, l, t)] ∧ IsFlat t ∧
      ∃ t' c, t = t' ++ [c] ∧ c ∈ ("\t *&" : Text) := by
  obtain ⟨s₁, blank, g₁, g₂, rfl, rfl, ⟨e, t, g₃, g₄, rfl, rfl, hedge, g', ht, rfl⟩, hblank⟩ := h
  obtain ⟨rfl, rfl, -⟩ := matches_wordEdge.1 hedge
  obtain ⟨hall, rfl⟩ := matches_blanks.1 hblank
  obtain rfl := ht.captures_eq_nil (by decide)
  have hflat := ht.isFlat (by decide)
  obtain ⟨t', _, _, _, rfl, -, -, ⟨⟨c, rfl, hc⟩, -⟩⟩ := ht
  exact ⟨t' ++ [c], blank, rfl, hall, by simp, hflat, t', c, rfl,
    (CharSet.contains_oneOf _ _).mp hc⟩

theorem matches_definitionHead (h : definitionHead.Matches l s r g) : NamesOperator s ∨
    ∃ t blank q blank' x e, s = t ++ blank ++ q ++ blank' ++ '(' :: (x ++ ')' :: e) ∧
      allBlank blank = true ∧ allBlank blank' = true ∧ IsFlat t ∧
      (∃ t' c, t = t' ++ [c] ∧ c ∈ ("\t *&" : Text)) ∧ q ≠ [] ∧ (∀ c ∈ q, IsNameChar c) ∧
      OpensFirst x ∧ IsFlat e ∧ captured g 1 = t ∧ captured g 2 = q ∧ captured g 3 = x ∧
      (captured g 4 = [] ∧ IsLoose e ∨ captured g 4 = "const" ∧ 's' ∈ e) := by
  obtain ⟨s₁, e₃, g₁, g₂, rfl, rfl, h, he₃⟩ := matches_append.1 h
  obtain ⟨s₂, e₂, g₃, g₄, rfl, rfl, h, he₂⟩ := matches_append.1 h
  obtain ⟨s₃, k, g₅, g₆, rfl, rfl, h, hk⟩ := matches_append.1 h
  obtain ⟨s₄, e₁, g₇, g₈, rfl, rfl, h, he₁⟩ := matches_append.1 h
  obtain ⟨s₅, args, g₉, g₁₀, rfl, rfl, h, hargs⟩ := matches_append.1 h
  obtain ⟨s₆, blank', g₁₁, g₁₂, rfl, rfl, h, hblank'⟩ := matches_append.1 h
  obtain ⟨type, q, g₁₃, g₁₄, rfl, rfl, htype, hname⟩ := matches_append.1 h
  obtain ⟨t, blank, rfl, hblank, rfl, htflat, ht⟩ := matches_returnType htype
  obtain ⟨hall', rfl⟩ := matches_blanks.1 hblank'
  obtain ⟨x, rfl, rfl, hx⟩ := matches_arguments hargs
  obtain ⟨hall₁, rfl⟩ := matches_blanks.1 he₁
  obtain ⟨hall₂, rfl⟩ := matches_blanks.1 he₂
  obtain ⟨hloose, rfl⟩ := matches_noexcept he₃
  obtain ⟨heflat, hconst⟩ := matches_const hall₁ hk hall₂ hloose
  rcases matches_functionName hname with ⟨n, m, rfl, hn, hword, hm⟩ | ⟨hq, hchars, rfl⟩
  · left
    have hflat := (htflat.append (isFlat_of_allBlank hblank)).append hn
    have hinfix := hword.trans (List.suffix_append (t ++ blank) n).isInfix
    rcases hm with rfl | rfl
    · exact ⟨t ++ blank ++ n, _, by simp; rfl, hflat, hinfix⟩
    · exact ⟨t ++ blank ++ n ++ blank', _, by simp; rfl, hflat.append (isFlat_of_allBlank hall'),
        hinfix.trans (List.prefix_append _ blank').isInfix⟩
  · refine .inr ⟨t, blank, q, blank', x, e₁ ++ k ++ e₂ ++ e₃, by simp, hblank, hall', htflat, ht, hq,
      hchars, hx, heflat, ?_⟩
    rcases hconst with ⟨rfl, hloose⟩ | ⟨rfl, hs⟩
    · exact ⟨rfl, rfl, rfl, .inl ⟨rfl, hloose⟩⟩
    · exact ⟨rfl, rfl, rfl, .inr ⟨rfl, hs⟩⟩

end HeaderSync

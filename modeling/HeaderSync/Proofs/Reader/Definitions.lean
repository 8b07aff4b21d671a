import HeaderSync.Proofs.Reader.Headings

/-!
# Recognizing definitions

What each search of a source makes of a definition that is written plainly: which one takes it, and
that the searches before that one pass over it.
-/

namespace HeaderSync

open Text Pattern Shapes Reader BodyPattern

theorem BodyPattern.refuses_of_misses {m : BodyPattern} {t : Text} (h : m.head.Misses t) :
    m.Refuses t := by
  intro l a b rest s r g ht hb hrest hmatch
  exact absurd hmatch (h l a b rest s r g ht hb hrest)

/-- No match starts with a blank. -/
theorem Pattern.misses_of_allBlank {p : Pattern} (hp : p.isNullable = false)
    (hblank : blankPoints.all (fun n => !p.canStartWith (Char.ofNat n)) = true) {t : Text}
    (ht : allBlank t = true) : p.Misses t := by
  refine misses_of_forall hp fun c hc => ?_
  have hc' := List.all_eq_true.mp hblank c.toNat (toNat_mem_blankPoints (List.all_eq_true.mp ht c hc))
  rwa [Char.ofNat_toNat, Bool.not_eq_true'] at hc'

/-! ## Putting matches together -/

section

variable {p q : Pattern} {l s t r : Text}

theorem exists_matches_append (hp : ∃ g, p.Matches l s (t ++ r) g)
    (hq : ∃ g, q.Matches (l ++ s) t r g) : ∃ g, (p ++ q).Matches l (s ++ t) r g := by
  obtain ⟨g, hp⟩ := hp
  obtain ⟨g', hq⟩ := hq
  exact ⟨g' ++ g, s, t, g, g', rfl, rfl, hp, hq⟩

theorem exists_matches_append_nil (hp : ∃ g, p.Matches l s r g)
    (hq : ∃ g, q.Matches (l ++ s) [] r g) : ∃ g, (p ++ q).Matches l s r g := by
  simpa using exists_matches_append (t := []) hp hq

theorem exists_matches_blanks (h : allBlank s = true) : ∃ g, blanks.Matches l s r g :=
  ⟨[], matches_blanks.2 ⟨h, rfl⟩⟩

theorem exists_matches_opt_nil : ∃ g, (opt p).Matches l [] r g :=
  ⟨[], .inr ⟨rfl, rfl⟩⟩

theorem exists_matches_or_right (h : ∃ g, q.Matches l s r g) : ∃ g, (p ||| q).Matches l s r g := by
  obtain ⟨g, h⟩ := h
  exact ⟨g, .inr h⟩

theorem exists_matches_group {index : Nat} (h : ∃ g, p.Matches l s r g) :
    ∃ g, (group index p).Matches l s r g := by
  obtain ⟨g, h⟩ := h
  exact ⟨_, g, h, rfl⟩

theorem exists_matches_ownName {ws : List Text} {v colons n : Text} (hws : ∀ u ∈ ws, IsWord u)
    (hv : IsWord v) (hn : IsWord n) : ∃ g, (group 1 (scopes ++ group 2 (plus (char .word)) ++
      lit colons ++ group 3 (plus (char .word)))).Matches l (scopesText ws ++ v ++ colons ++ n) r g :=
  exists_matches_group <| exists_matches_append (exists_matches_append (exists_matches_append
    ⟨_, matches_scopes.2 ⟨ws, hws, rfl, rfl⟩⟩
    (exists_matches_group ⟨_, matches_plus_word.2 ⟨hv, rfl⟩⟩))
    ⟨_, matches_lit.2 ⟨rfl, rfl⟩⟩)
    (exists_matches_group ⟨_, matches_plus_word.2 ⟨hn, rfl⟩⟩)

end

/-! ## Constructors -/

def constructorUnit : BodyPattern :=
  (braces constructorDefinitionHead).only namesItself

theorem exists_matches_constructor {ws : List Text} {v n args l r : Text} (hws : ∀ u ∈ ws, IsWord u)
    (hv : IsWord v) (hn : IsWord n) (hargs : IsFlat args) :
    ∃ g, constructorUnit.head.Matches l
      (scopesText ws ++ v ++ "::" ++ n ++ '(' :: (args ++ ')' :: " \x7b")) r g := by
  have hhead : ∀ r, ∃ g, constructorDefinitionHead.Matches l
      (scopesText ws ++ v ++ "::" ++ n ++ '(' :: (args ++ [')'])) r g := fun r =>
    exists_matches_append_nil (exists_matches_append_nil (exists_matches_append_nil
      (exists_matches_append (exists_matches_append_nil (exists_matches_ownName hws hv hn)
        (exists_matches_blanks rfl)) ⟨_, matches_arguments_of_isFlat hargs⟩)
      (exists_matches_blanks rfl)) exists_matches_opt_nil) exists_matches_opt_nil
  obtain ⟨g, hg⟩ := hhead (" " ++ '\x7b' :: r)
  exact ⟨g, matches_braces.2 ⟨_, " ", by simp, rfl, hg⟩⟩

theorem notMem_of_isNameChar {q : Text} (hq : ∀ c ∈ q, IsNameChar c) {d : Char}
    (hword : isWordChar d = false) (hcolon : d ≠ ':') (htilde : d ≠ '~') : d ∉ q := by
  intro hmem
  rcases hq _ hmem with hc | hc | hc
  · rw [hword] at hc
    cases hc
  · exact hcolon hc
  · exact htilde hc

theorem forall_notMem_of_isNameChar {t bad : Text} (h : ∀ c ∈ t, IsNameChar c)
    (hbad : ∀ c ∈ bad, isWordChar c = false ∧ c ≠ ':' ∧ c ≠ '~') : ∀ c ∈ t, c ∉ bad := by
  intro c hc hmem
  obtain ⟨hword, hcolon, htilde⟩ := hbad c hmem
  exact notMem_of_isNameChar h hword hcolon htilde hc

theorem isFlat_of_isNameChar {t : Text} (h : ∀ c ∈ t, IsNameChar c) : IsFlat t :=
  forall_notMem_of_isNameChar h (by decide)

theorem isUnmarked_of_isNameChar {t : Text} (h : ∀ c ∈ t, IsNameChar c) : IsUnmarked t :=
  forall_notMem_of_isNameChar h (by decide)

theorem isNameChar_ownName {ws : List Text} {v colons n : Text} (hws : ∀ u ∈ ws, IsWord u)
    (hv : IsWord v) (hcolons : ∀ c ∈ colons, c = ':' ∨ c = '~') (hn : IsWord n) :
    ∀ c ∈ scopesText ws ++ v ++ colons ++ n, IsNameChar c :=
  List.forall_mem_append.mpr ⟨List.forall_mem_append.mpr ⟨List.forall_mem_append.mpr
    ⟨isNameChar_scopesText hws, isNameChar_of_isWord hv⟩, fun c hc => .inr (hcolons c hc)⟩,
    isNameChar_of_isWord hn⟩

theorem balanced_of_isFlat {t : Text} (hflat : IsFlat t) (hmarks : IsUnmarked t) :
    Delimiters.braces.Balanced t := by
  have hbrackets : ∀ c ∉ brackets, c ≠ '\x7b' ∧ c ≠ '\x7d' := by
    intro c hc
    constructor <;> rintro rfl <;> exact hc (by decide)
  have hquotes : ∀ c ∉ marks, c ≠ '"' ∧ c ≠ '\'' := by
    intro c hc
    constructor <;> rintro rfl <;> exact hc (by decide)
  refine Delimiters.balanced_of_forall fun c hc => ?_
  obtain ⟨hopen, hclose⟩ := hbrackets c (hflat c hc)
  exact ⟨hopen, hclose, hquotes c (hmarks c hc)⟩

namespace Written

variable {w : Written} {l a b rest s r : Text} {g : List Capture}

/-- The body is closed by its brace. -/
theorem IsPlain.balanced (hw : w.IsPlain) : Delimiters.braces.Balanced w.body :=
  balanced_of_isFlat hw.body fun c hc => hw.unmarked c (by simp [text, hc])

theorem text_ne_nil (w : Written) : w.text ≠ [] := by
  simp [text]

/-- A heading that is found in the definition is the end of its own, and the body is that of the
definition. -/
theorem isWhole_of_split {m : BodyPattern} (hm : m.delimiters = .braces) (hw : w.IsPlain)
    (ht : w.text = a ++ b) (hb : b ≠ []) {n x e : Text}
    (hrest : b ++ rest = n ++ '(' :: (x ++ ')' :: (e ++ '\x7b' :: r))) (hn : IsFlat n)
    (hx : OpensFirst x) (he : IsFlat e) :
    w.front = a ++ n ∧ x = w.args ∧ e = w.ending ∧
      m.IsWhole b (n ++ '(' :: (x ++ ')' :: e)) w.body := by
  obtain ⟨hfront, hargs, hending, hb⟩ := eq_of_split hw ht hb hrest hn hx he
  refine ⟨hfront, hargs, hending, ?_, hm ▸ hw.balanced⟩
  rw [hb, hm]
  simp [Delimiters.braces]

/-- A constructor that is found in the definition. -/
theorem constructor_of_matches (hw : w.IsPlain) (ht : w.text = a ++ b) (hb : b ≠ [])
    (hrest : b ++ rest = s ++ r) (h : constructorUnit.head.Matches l s r g) :
    ∃ ws v n s', (∀ u ∈ ws, IsWord u) ∧ IsWord v ∧ IsWord n ∧
      w.front = a ++ (scopesText ws ++ v ++ "::" ++ n) ∧ w.isConst = false ∧
      s = s' ++ ['\x7b'] ∧ constructorUnit.IsWhole b s' w.body ∧
      captured g 1 = scopesText ws ++ v ++ "::" ++ n ∧ captured g 2 = v ∧ captured g 3 = n ∧
      captured g 4 = w.args := by
  obtain ⟨s, blank', rfl, hblank', hhead⟩ := matches_braces.1 h
  obtain ⟨ws, v, n, blank, x, tail, hws, hv, hn, hblank, hx, rfl, htail, h₁, h₂, h₃, h₄⟩ :=
    matches_constructorHead hhead
  have hname := isNameChar_ownName hws hv (by decide : ∀ c ∈ ("::" : Text), c = ':' ∨ c = '~') hn
  have hflat := (isFlat_of_isNameChar hname).append (isFlat_of_allBlank hblank)
  rcases htail with htail | ⟨e, more, rfl, he⟩
  · have hloose := htail.append (isLoose_of_allBlank hblank')
    have hsplit : b ++ rest = (scopesText ws ++ v ++ "::" ++ n ++ blank) ++
        '(' :: (x ++ ')' :: (tail ++ blank' ++ '\x7b' :: r)) := by simpa using hrest
    obtain ⟨hfront, rfl, hending, hwhole⟩ :=
      isWhole_of_split (m := constructorUnit) rfl hw ht hb hsplit hflat hx hloose.isFlat
    rw [← List.append_assoc] at hfront
    obtain rfl := eq_nil_of_endsInWord hblank (hfront ▸ hw.endsInWord)
    rw [List.append_nil] at hfront
    exact ⟨ws, v, n, _, hws, hv, hn, hfront, isConst_of_isLoose (hending ▸ hloose), by simp, hwhole,
      h₁, h₂, h₃, h₄⟩
  · -- A list of initializers would have to start before the body.
    have hsplit : b ++ rest = (scopesText ws ++ v ++ "::" ++ n ++ blank) ++
        '(' :: (x ++ ')' :: (e ++ ':' :: (more ++ (blank' ++ '\x7b' :: r)))) := by simpa using hrest
    obtain ⟨-, -, hending⟩ := args_eq_of_split hw ht hb hsplit hflat hx
    have hcolon : ∀ c ∈ e, c ≠ ':' ∧ c ≠ '\x7b' := fun c hc =>
      ⟨fun heq => he.notMem (c := ':') (by decide) (by decide) (heq ▸ hc),
        fun heq => he.notMem (c := '\x7b') (by decide) (by decide) (heq ▸ hc)⟩
    have hcolon' : ∀ c ∈ w.ending, c ≠ ':' ∧ c ≠ '\x7b' := by
      rw [ending]
      split <;> decide
    obtain ⟨-, heq, -⟩ := append_cons_inj_of_forall (P := fun c => c ≠ ':' ∧ c ≠ '\x7b') hcolon
      hcolon' (by decide) (by decide) hending
    cases heq

/-- A constructor is taken. -/
theorem takes_constructor (hw : w.IsPlain) {ws : List Text} {v : Text} (hws : ∀ u ∈ ws, IsWord u)
    (hv : IsWord v) (hfront : w.front = scopesText (ws ++ [v]) ++ v) (hconst : w.isConst = false) :
    constructorUnit.Takes w.text fun g _ => captured g 1 = w.front ∧ captured g 4 = w.args where
  exists_match l rest hl := by
    obtain ⟨g, hg⟩ := exists_matches_constructor (l := l) (r := w.body ++ '\x7d' :: rest) hws hv hv
      hw.args
    refine ⟨_, _, g, ?_, hg⟩
    simp [text, hfront, ending, hconst, scopesText_concat]
  isWhole l rest s r g hrest hmatch := by
    obtain ⟨ws', v', n, s', hws', hv', hn, hsame, -, rfl, hwhole, h₁, h₂, h₃, h₄⟩ :=
      constructor_of_matches hw (a := []) rfl w.text_ne_nil hrest hmatch
    rw [hfront, List.nil_append] at hsame
    obtain ⟨rfl, hscopes⟩ := name_eq_of_append (by simp) hn hv hsame.symm
    obtain ⟨ws'', v'', heq, hlast⟩ := exists_last_scope hscopes
    obtain ⟨rfl, rfl⟩ : ws = ws'' ∧ n = v'' := by simpa using heq
    obtain ⟨rfl, -⟩ := name_eq_of_append (getLast_scopesText ws') hv' hn hlast
    refine ⟨s', w.body, rfl, hwhole, ⟨?_, h₄⟩, fun unit hunit => ?_⟩
    · rw [h₁, hfront, ← hscopes]
    · change (unit.group 2 == unit.group 3) = true
      rw [hunit.group 2 (by decide) (by decide), hunit.group 3 (by decide) (by decide), h₂, h₃,
        beq_self_eq_true]

/-- A function that is not named like the scope around it is no constructor. -/
theorem refuses_constructor (hw : w.IsPlain) {type : Text} {ws : List Text} {n : Text}
    (hws : ∀ u ∈ ws, IsWord u) (hn : IsWord n) (hlast : ws.getLast? ≠ some n)
    (hfront : w.front = type ++ ' ' :: (scopesText ws ++ n)) : constructorUnit.Refuses w.text := by
  intro l a b rest s r g ht hb hrest hmatch hfirst
  obtain ⟨ws', v', n', s', hws', hv', hn', hsame, hconst, rfl, hwhole, -, h₂, h₃, -⟩ :=
    constructor_of_matches hw ht hb hrest hmatch
  have hname := isNameChar_ownName hws' hv' (by decide : ∀ c ∈ ("::" : Text), c = ':' ∨ c = '~') hn'
  rw [hfront] at hsame
  obtain ⟨m, rfl, hm⟩ := exists_append_of_notMem
    (notMem_of_isNameChar hname (by decide) (by decide) (by decide)) hsame.symm
  obtain ⟨rfl, hscopes⟩ := name_eq_of_append (u := m ++ (scopesText ws' ++ v' ++ "::")) (by simp) hn' hn
    (by simpa using hm)
  rw [← List.append_assoc] at hscopes
  obtain ⟨ws₁, v, rfl, hv⟩ := exists_last_scope hscopes
  have hws₁ : ∀ u ∈ ws₁, IsWord u := fun u hu => hws u (List.mem_append_left _ hu)
  rw [← List.append_assoc] at hv
  rcases scope_eq_or_cut hv' (hws v (by simp)) hws₁ hv with rfl | ⟨rfl, m, c, rfl, hc⟩
  · refine ⟨s', w.body, rfl, hwhole, fun unit hunit => ?_⟩
    change (unit.group 2 == unit.group 3) = false
    rw [hunit.group 2 (by decide) (by decide), hunit.group 3 (by decide) (by decide), h₂, h₃,
      beq_eq_false_iff_ne]
    rintro rfl
    exact hlast (by simp)
  · -- A scope that is cut short could start one character earlier.
    have hcv : IsWord (c :: v') := ⟨List.cons_ne_nil c v', List.forall_mem_cons.mpr ⟨hc, hv'.2⟩⟩
    obtain ⟨g', hg'⟩ := exists_matches_constructor (l := l ++ (type ++ ' ' :: m))
      (r := w.body ++ '\x7d' :: rest) (List.forall_mem_nil IsWord) hcv hn' hw.args
    refine absurd hg' (hfirst (type ++ ' ' :: m) c _ _ g' (by simp) ?_)
    rw [text, hfront, hsame, List.append_assoc] at ht
    rw [← List.append_cancel_left ht]
    simp [scopesText, ending, hconst]

/-- A destructor is no constructor. -/
theorem misses_constructor (hw : w.IsPlain) {u v : Text} (hv : IsWord v)
    (hfront : w.front = u ++ '~' :: v) : constructorUnit.head.Misses w.text := by
  intro l a b rest s r g ht hb hrest hmatch
  obtain ⟨ws', v', n, s', hws', hv', hn, hsame, -⟩ := constructor_of_matches hw ht hb hrest hmatch
  have hcolons : ∀ c ∈ scopesText ws' ++ v' ++ "::" ++ n, c ≠ '~' := by
    rintro c hc rfl
    simp only [List.mem_append] at hc
    rcases hc with ((hc | hc) | hc) | hc
    · obtain ⟨u, hu, hc⟩ := (mem_scopesText hc).resolve_left (by decide)
      exact (hws' u hu).notMem (c := '~') (by decide) hc
    · exact hv'.notMem (c := '~') (by decide) hc
    · exact absurd hc (by decide)
    · exact hn.notMem (c := '~') (by decide) hc
  rw [hfront] at hsame
  obtain ⟨m, -, hm⟩ := exists_append_of_notMem (fun hmem => hcolons _ hmem rfl) hsame.symm
  refine hv.notMem (c := ':') (by decide) ?_
  rw [← hm]
  simp

end Written

/-! ## Destructors -/

def destructorUnit : BodyPattern :=
  (braces destructorDefinitionHead).only namesItself

theorem exists_matches_destructor {ws : List Text} {v n l r : Text} (hws : ∀ u ∈ ws, IsWord u)
    (hv : IsWord v) (hn : IsWord n) :
    ∃ g, destructorUnit.head.Matches l (scopesText ws ++ v ++ "::~" ++ n ++ "() \x7b") r g := by
  have hparens : ∀ l r, ∃ g, noArguments.Matches l ("(" ++ ")") r g := fun l r =>
    exists_matches_append_nil (exists_matches_append (exists_matches_append_nil
      (exists_matches_append_nil ⟨_, matches_lit.2 ⟨rfl, rfl⟩⟩ (exists_matches_blanks rfl))
      exists_matches_opt_nil) ⟨_, matches_lit.2 ⟨rfl, rfl⟩⟩) (exists_matches_blanks rfl)
  have hhead : ∀ r, ∃ g, destructorDefinitionHead.Matches l
      (scopesText ws ++ v ++ "::~" ++ n ++ ("(" ++ ")")) r g := fun r =>
    exists_matches_append_nil (exists_matches_append (exists_matches_append_nil
      (exists_matches_ownName hws hv hn) (exists_matches_blanks rfl)) (hparens _ _))
      exists_matches_opt_nil
  obtain ⟨g, hg⟩ := hhead (" " ++ '\x7b' :: r)
  exact ⟨g, matches_braces.2 ⟨_, " ", by simp, rfl, hg⟩⟩

namespace Written

variable {w : Written} {l a b rest s r : Text} {g : List Capture}

/-- A destructor that is found in the definition. -/
theorem destructor_of_matches (hw : w.IsPlain) (ht : w.text = a ++ b) (hb : b ≠ [])
    (hrest : b ++ rest = s ++ r) (h : destructorUnit.head.Matches l s r g) :
    ∃ ws v n s', (∀ u ∈ ws, IsWord u) ∧ IsWord v ∧ IsWord n ∧
      w.front = a ++ (scopesText ws ++ v ++ "::~" ++ n) ∧
      s = s' ++ ['\x7b'] ∧ destructorUnit.IsWhole b s' w.body ∧
      captured g 1 = scopesText ws ++ v ++ "::~" ++ n ∧ captured g 2 = v ∧ captured g 3 = n := by
  obtain ⟨s, blank', rfl, hblank', hhead⟩ := matches_braces.1 h
  obtain ⟨ws, v, n, blank, x, tail, hws, hv, hn, hblank, hx, rfl, htail, h₁, h₂, h₃⟩ :=
    matches_destructorHead hhead
  have hname := isNameChar_ownName hws hv (by decide : ∀ c ∈ ("::~" : Text), c = ':' ∨ c = '~') hn
  have hflat := (isFlat_of_isNameChar hname).append (isFlat_of_allBlank hblank)
  have hsplit : b ++ rest = (scopesText ws ++ v ++ "::~" ++ n ++ blank) ++
      '(' :: (x ++ ')' :: (tail ++ blank' ++ '\x7b' :: r)) := by simpa using hrest
  have hopens : OpensFirst x := by
    rintro y z rfl
    exact absurd (hx ')' (by simp)) (by decide)
  obtain ⟨hfront, rfl, -, hwhole⟩ := isWhole_of_split (m := destructorUnit) rfl hw ht hb hsplit hflat
    hopens (htail.isFlat.append (isFlat_of_allBlank hblank'))
  rw [← List.append_assoc] at hfront
  obtain rfl := eq_nil_of_endsInWord hblank (hfront ▸ hw.endsInWord)
  rw [List.append_nil] at hfront
  exact ⟨ws, v, n, _, hws, hv, hn, hfront, by simp, hwhole, h₁, h₂, h₃⟩

/-- A destructor is taken. -/
theorem takes_destructor (hw : w.IsPlain) {ws : List Text} {v : Text} (hws : ∀ u ∈ ws, IsWord u)
    (hv : IsWord v) (hfront : w.front = scopesText (ws ++ [v]) ++ '~' :: v) (hargs : w.args = [])
    (hconst : w.isConst = false) :
    destructorUnit.Takes w.text fun g _ => captured g 1 = w.front where
  exists_match l rest hl := by
    obtain ⟨g, hg⟩ := exists_matches_destructor (l := l) (r := w.body ++ '\x7d' :: rest) hws hv hv
    refine ⟨_, _, g, ?_, hg⟩
    simp [text, hfront, ending, hconst, scopesText_concat, hargs]
  isWhole l rest s r g hrest hmatch := by
    obtain ⟨ws', v', n, s', hws', hv', hn, hsame, rfl, hwhole, h₁, h₂, h₃⟩ :=
      destructor_of_matches hw (a := []) rfl w.text_ne_nil hrest hmatch
    rw [hfront, List.nil_append] at hsame
    have htilde : ∀ {ws : List Text}, (∀ u ∈ ws, IsWord u) → ∀ c ∈ scopesText ws, c ≠ '~' := by
      rintro ws hws c hc rfl
      obtain ⟨u, hu, hc⟩ := (mem_scopesText hc).resolve_left (by decide)
      exact (hws u hu).notMem (c := '~') (by decide) hc
    have hconcat : ∀ {ws : List Text} {v : Text}, (∀ u ∈ ws, IsWord u) → IsWord v →
        ∀ u ∈ ws ++ [v], IsWord u := fun hws hv =>
      List.forall_mem_append.mpr ⟨hws, List.forall_mem_singleton.mpr hv⟩
    have hsplit : scopesText (ws' ++ [v']) ++ '~' :: n = scopesText (ws ++ [v]) ++ '~' :: v := by
      rw [hsame, scopesText_concat]
      simp
    obtain ⟨hscopes, -, rfl⟩ := append_cons_inj_of_forall (P := (· ≠ '~')) (htilde (hconcat hws' hv'))
      (htilde (hconcat hws hv)) (by decide) (by decide) hsplit
    rw [scopesText_concat, scopesText_concat, ← List.append_assoc, ← List.append_assoc] at hscopes
    obtain ⟨rfl, -⟩ := name_eq_of_append (getLast_scopesText ws') hv' hn
      (List.append_cancel_right hscopes)
    refine ⟨s', w.body, rfl, hwhole, ?_, fun unit hunit => ?_⟩
    · rw [h₁, hfront, hsame]
    · change (unit.group 2 == unit.group 3) = true
      rw [hunit.group 2 (by decide) (by decide), hunit.group 3 (by decide) (by decide), h₂, h₃,
        beq_self_eq_true]

/-- A definition without a tilde in its heading is no destructor. -/
theorem misses_destructor (hw : w.IsPlain) (htilde : '~' ∉ w.front) :
    destructorUnit.head.Misses w.text := by
  intro l a b rest s r g ht hb hrest hmatch
  obtain ⟨ws', v', n, s', -, -, -, hsame, -⟩ := destructor_of_matches hw ht hb hrest hmatch
  rw [hsame] at htilde
  exact htilde (by simp)

end Written

/-! ## Conversions -/

theorem Written.not_namesOperator {w : Written} (hw : w.IsPlain)
    (hoperator : ¬ Signature.operatorWord <:+: w.front) {a b rest s r : Text} (ht : w.text = a ++ b)
    (hb : b ≠ []) (hrest : b ++ rest = s ++ r) : ¬ NamesOperator s := by
  rintro ⟨n, y, rfl, hn, hword⟩
  have hsplit : b ++ rest = n ++ '(' :: (y ++ r) := by simpa using hrest
  rcases first_bracket hw ht hb hsplit hn (by decide) with ⟨-, hfront, -⟩ | hc | ⟨hc, -⟩ | hc
  · rw [hfront] at hoperator
    exact hoperator (hword.trans (List.suffix_append a n).isInfix)
  · cases hc
  · cases hc
  · cases hc

/-- A definition that does not name an operator is no conversion. -/
theorem Written.misses_cast {w : Written} (hw : w.IsPlain)
    (hoperator : ¬ Signature.operatorWord <:+: w.front) :
    (braces castDefinitionHead).head.Misses w.text := by
  intro l a b rest s r g ht hb hrest hmatch
  obtain ⟨s, blank, rfl, -, hhead⟩ := matches_braces.1 hmatch
  rw [List.append_assoc] at hrest
  exact not_namesOperator hw hoperator ht hb hrest (matches_castHead hhead)

/-! ## Functions -/

/-- A return type as it is written: it starts with a letter and ends with no blank. -/
structure IsTypeText (t : Text) : Prop where
  head : t.head?.any CharSet.identifierStart.contains = true
  chars : t.all (CharSet.word ∪ CharSet.oneOf ":<>,\t *&").contains = true
  last : t.getLast?.all (!isBlank ·) = true

theorem isWordChar_of_identifierStart {c : Char} (h : CharSet.identifierStart.contains c = true) :
    isWordChar c = true := by
  have hascii : ∀ n < 128, CharSet.identifierStart.contains (Char.ofNat n) = true →
      isWordChar (Char.ofNat n) = true := by decide
  have hlt : c.toNat < 128 := by
    simp only [CharSet.identifierStart, CharSet.asciiLetter, CharSet.contains_union, CharSet.contains,
      Bool.and_eq_true, decide_eq_true_eq, beq_iff_eq] at h
    have hle : ∀ {d : Char}, c ≤ d → d.toNat < 128 → c.toNat < 128 := fun h hd =>
      Nat.lt_of_le_of_lt (UInt32.le_iff_toNat_le.mp (Char.le_def.mp h)) hd
    rcases h with (⟨-, h⟩ | ⟨-, h⟩) | rfl
    · exact hle h (by decide)
    · exact hle h (by decide)
    · decide
  have hc := hascii c.toNat hlt
  rw [Char.ofNat_toNat] at hc
  exact hc h

/-- Blanks behind a return type do not count for a signature. -/
theorem plausibleSignature_of_append {forbidden : List Text} {t blank : Text}
    (hblank : allBlank blank = true) (name : Text) :
    plausibleSignature forbidden (t ++ blank) name = plausibleSignature forbidden t name := by
  have hruns : runs isIdentifierChar (t ++ blank) = runs isIdentifierChar t := by
    refine runs_append_of_forall t fun c hc => ?_
    by_contra hchar
    have hb := isBlank_eq_false_of_isIdentifierChar (by simpa using hchar)
    rw [List.all_eq_true.mp hblank c hc] at hb
    cases hb
  rw [plausibleSignature, plausibleSignature, hruns]

theorem exists_matches_definition {w : Written} {type : Text} {ws : List Text} {n l r : Text}
    (htype : IsTypeText type) (hws : ∀ u ∈ ws, IsWord u) (hn : IsWord n) (hargs : IsFlat w.args)
    (hl : l.endsInWord = false) :
    ∃ g, definitionUnit.head.Matches l (type ++ ' ' :: (scopesText ws ++ n) ++
      '(' :: (w.args ++ ')' :: (w.ending ++ ['\x7b']))) r g := by
  obtain ⟨c, t, rfl, hc⟩ : ∃ c t, type = c :: t ∧ CharSet.identifierStart.contains c = true := by
    cases type with
    | nil => cases htype.head
    | cons c t => exact ⟨c, t, rfl, htype.head⟩
  have ht : ∀ d ∈ t, (CharSet.word ∪ CharSet.oneOf ":<>,\t *&").contains d = true := fun d hd =>
    List.all_eq_true.mp htype.chars d (List.mem_cons_of_mem c hd)
  have hreturn : ∀ r, ∃ g, (returnType 1).Matches l ([] ++ ([c] ++ t ++ [' '])) r g := fun r =>
    exists_matches_append_nil (exists_matches_append
      ⟨[], matches_wordEdge.2 ⟨rfl, rfl, by
        rw [hl]
        simp [startsWithWord, isWordChar_of_identifierStart hc]⟩⟩
      (exists_matches_group (exists_matches_append (exists_matches_append
        ⟨[], ⟨c, rfl, hc⟩, rfl⟩ ⟨[], matches_zeroOrMore_char.2 ⟨ht, rfl⟩⟩)
        ⟨[], ⟨' ', rfl, by decide⟩, rfl⟩))) (exists_matches_blanks rfl)
  have hname : ∀ l r, ∃ g, (functionName 2).Matches l (scopesText ws ++ ([] ++ n)) r g := fun l r =>
    exists_matches_group (exists_matches_append ⟨_, matches_scopes.2 ⟨ws, hws, rfl, rfl⟩⟩
      (exists_matches_or_right (exists_matches_or_right (exists_matches_append exists_matches_opt_nil
        ⟨_, matches_plus_word.2 ⟨hn, rfl⟩⟩))))
  have hargs' : ∀ r, ∃ g, (returnType 1 ++ functionName 2 ++ blanks ++ arguments 3).Matches l
      ([] ++ ([c] ++ t ++ [' ']) ++ (scopesText ws ++ ([] ++ n)) ++ '(' :: (w.args ++ [')'])) r g :=
    fun r => exists_matches_append (exists_matches_append_nil (exists_matches_append (hreturn _)
      (hname _ _)) (exists_matches_blanks rfl)) ⟨_, matches_arguments_of_isFlat hargs⟩
  rw [Written.ending]
  cases w.isConst with
  | false =>
    obtain ⟨g, hg⟩ : ∃ g, definitionHead.Matches l _ (" " ++ '\x7b' :: r) g :=
      exists_matches_append_nil (exists_matches_append_nil (exists_matches_append_nil
        (exists_matches_append_nil (hargs' _) (exists_matches_blanks rfl)) exists_matches_opt_nil)
        (exists_matches_blanks rfl)) exists_matches_opt_nil
    exact ⟨g, matches_braces.2 ⟨_, " ", by simp, rfl, hg⟩⟩
  | true =>
    have hconst : ∀ l r, ∃ g, (opt (group 4 (lit "const"))).Matches l "const" r g := fun l r =>
      ⟨_, .inl ⟨[], matches_lit.2 ⟨rfl, rfl⟩, rfl⟩⟩
    obtain ⟨g, hg⟩ : ∃ g, definitionHead.Matches l _ ([] ++ '\x7b' :: r) g :=
      exists_matches_append_nil (exists_matches_append (exists_matches_append
        (exists_matches_append (hargs' _) (exists_matches_blanks (s := " ") rfl)) (hconst _ _))
        (exists_matches_blanks (s := " ") rfl)) exists_matches_opt_nil
    exact ⟨g, matches_braces.2 ⟨_, [], by simp, rfl, hg⟩⟩

/-- Signs that end a return type and stand in no name. -/
theorem not_isNameChar_of_mem {c : Char} (h : c ∈ ("\t *&" : Text)) : ¬ IsNameChar c := by
  have hsigns : ∀ c ∈ ("\t *&" : Text), isWordChar c = false ∧ c ≠ ':' ∧ c ≠ '~' := by decide
  obtain ⟨hword, hcolon, htilde⟩ := hsigns c h
  rintro (hc | hc | hc)
  · rw [hword] at hc
    cases hc
  · exact hcolon hc
  · exact htilde hc

theorem not_isNameChar_of_isBlank {c : Char} (h : isBlank c = true) : ¬ IsNameChar c := by
  rintro (hc | rfl | rfl)
  · rw [isBlank_eq_false_of_isWordChar hc] at h
    cases h
  · exact absurd h (by decide)
  · exact absurd h (by decide)

/-- A return type and a name are told apart by what stands between them. -/
theorem type_eq_of_append {t blank q type name : Text} (hblank : allBlank blank = true)
    (ht : ∃ t' c, t = t' ++ [c] ∧ c ∈ ("\t *&" : Text)) (hq : ∀ c ∈ q, IsNameChar c)
    (hname : ∀ c ∈ name, IsNameChar c) (h : t ++ blank ++ q = type ++ ' ' :: name) :
    t ++ blank = type ++ [' '] ∧ q = name := by
  have hlast : ∀ c ∈ (t ++ blank).getLast?, ¬ IsNameChar c := by
    intro c hc
    rcases List.eq_nil_or_concat blank with rfl | ⟨blank, d, rfl⟩
    · obtain ⟨t, d, rfl, hd⟩ := ht
      obtain rfl : d = c := by simpa using hc
      exact not_isNameChar_of_mem hd
    · rw [List.concat_eq_append] at hc hblank
      obtain rfl : d = c := by simpa [← List.append_assoc] using hc
      exact not_isNameChar_of_isBlank (List.all_eq_true.mp hblank d (by simp))
  have hlast' : ∀ c ∈ (type ++ [' ']).getLast?, ¬ IsNameChar c := by
    intro c hc
    obtain rfl : ' ' = c := by simpa using hc
    exact not_isNameChar_of_isBlank (by decide)
  exact append_inj_of_getLast (P := fun c => ¬ IsNameChar c) (fun c hc hnot => hnot (hq c hc))
    (fun c hc hnot => hnot (hname c hc)) hlast hlast' (by simpa using h)

theorem IsTypeText.head_not_blank {type : Text} (h : IsTypeText type) :
    ∀ c ∈ type.head?, isBlank c = false := by
  intro c hc
  have hstart := h.head
  rw [Option.mem_def.mp hc] at hstart
  exact isBlank_eq_false_of_isWordChar (isWordChar_of_identifierStart hstart)

theorem IsTypeText.last_not_blank {type : Text} (h : IsTypeText type) :
    ∀ c ∈ type.getLast?, isBlank c = false := by
  intro c hc
  have hlast := h.last
  rw [Option.mem_def.mp hc] at hlast
  simpa using hlast

theorem IsTypeText.ne_nil {type : Text} (h : IsTypeText type) : type ≠ [] := by
  rintro rfl
  cases h.head

/-- A return type without the blanks behind it. -/
theorem trim_of_append_blank {t blank type : Text} (htype : IsTypeText type)
    (hblank : allBlank blank = true) (h : t ++ blank = type ++ [' ']) : trim t = type := by
  have hend : trimEnd t = type := by
    rw [← trimEnd_append_of_allBlank t hblank, h, trimEnd_append_of_allBlank type (by decide)]
    exact trimEnd_eq_self_of_last htype.last_not_blank
  have hstart : trimStart t = t := by
    refine trimStart_eq_self_of_head fun c hc => ?_
    obtain ⟨t, rfl⟩ := List.head?_eq_some_iff.mp hc
    obtain ⟨d, type, rfl⟩ := List.exists_cons_of_ne_nil htype.ne_nil
    obtain rfl : c = d := (List.cons.inj h).1
    exact htype.head_not_blank c rfl
  rw [trim, hstart, hend]

namespace Written

variable {w : Written}

theorem captured_const {e blank : Text} {g : List Capture} (hblank : allBlank blank = true)
    (he : e ++ blank = w.ending)
    (h : captured g 4 = [] ∧ IsLoose e ∨ captured g 4 = "const" ∧ 's' ∈ e) :
    allBlank (captured g 4) = !w.isConst := by
  rcases h with ⟨hnone, hloose⟩ | ⟨hsome, hmem⟩
  · rw [hnone, isConst_of_isLoose (he ▸ hloose.append (isLoose_of_allBlank hblank))]
    rfl
  · have hconst : w.isConst = true := by
      by_contra hconst
      rw [ending, if_neg hconst] at he
      have hmem' : 's' ∈ (" " : Text) := he ▸ List.mem_append_left _ hmem
      exact absurd hmem' (by decide)
    rw [hsome, hconst]
    decide

/-- A function is taken. -/
theorem takes_definition (hw : w.IsPlain) {type : Text} {ws : List Text} {n : Text}
    (htype : IsTypeText type) (hws : ∀ u ∈ ws, IsWord u) (hn : IsWord n)
    (hfront : w.front = type ++ ' ' :: (scopesText ws ++ n))
    (hoperator : ¬ Signature.operatorWord <:+: w.front)
    (hsignature : plausibleSignature definitionForbidden type (scopesText ws ++ n) = true) :
    definitionUnit.Takes w.text fun g _ =>
      captured g 2 = scopesText ws ++ n ∧ trim (captured g 1) = type ∧ captured g 3 = w.args ∧
        allBlank (captured g 4) = !w.isConst where
  exists_match l rest hl := by
    obtain ⟨g, hg⟩ := exists_matches_definition (r := w.body ++ '\x7d' :: rest) htype hws hn hw.args hl
    refine ⟨_, _, g, ?_, hg⟩
    rw [text, hfront]
    simp
  isWhole l rest s r g hrest hmatch := by
    obtain ⟨s, blank, rfl, hblank, hhead⟩ := matches_braces.1 hmatch
    rcases matches_definitionHead hhead with hoperator' | ⟨t, blank₁, q, blank₂, x, e, rfl, hblank₁,
      hblank₂, htflat, ht, -, hq, hx, he, h₁, h₂, h₃, h₄⟩
    · rw [List.append_assoc] at hrest
      exact absurd hoperator' (not_namesOperator hw hoperator (a := []) rfl w.text_ne_nil hrest)
    have hflat := ((htflat.append (isFlat_of_allBlank hblank₁)).append
      (isFlat_of_isNameChar hq)).append (isFlat_of_allBlank hblank₂)
    have hsplit : w.text ++ rest = (t ++ blank₁ ++ q ++ blank₂) ++
        '(' :: (x ++ ')' :: (e ++ blank ++ '\x7b' :: r)) := by simpa using hrest
    obtain ⟨hsame, rfl, hending, hwhole⟩ := isWhole_of_split (m := definitionUnit) rfl hw (a := []) rfl
      w.text_ne_nil hsplit hflat hx (he.append (isFlat_of_allBlank hblank))
    rw [List.nil_append] at hsame
    obtain rfl := eq_nil_of_endsInWord hblank₂ (hsame ▸ hw.endsInWord)
    have hnameChars : ∀ c ∈ scopesText ws ++ n, IsNameChar c :=
      List.forall_mem_append.mpr ⟨isNameChar_scopesText hws, isNameChar_of_isWord hn⟩
    rw [List.append_nil, hfront] at hsame
    obtain ⟨htype', rfl⟩ := type_eq_of_append hblank₁ ht hq hnameChars hsame.symm
    refine ⟨_, w.body, by simp; rfl, hwhole,
      ⟨h₂, by rw [h₁, trim_of_append_blank htype hblank₁ htype'], h₃,
        captured_const hblank hending h₄⟩, fun unit hunit => ?_⟩
    change plausibleSignature definitionForbidden (unit.group 1) (unit.group 2) = true
    rw [hunit.group 1 (by decide) (by decide), hunit.group 2 (by decide) (by decide), h₁, h₂,
      ← plausibleSignature_of_append hblank₁, htype', plausibleSignature_of_append (by decide)]
    exact hsignature

end Written

/-! ## Types and namespaces -/

theorem holds_namespaceHead : namespaceHead.Holds "namespace" :=
  (((holds_lit "namespace").append_right _).append_left _).append_left _

theorem matches_typeHead {l s r : Text} {g : List Capture} (h : typeHead.Matches l s r g) :
    ∃ k ∈ Written.headKeywords, k <:+: s := by
  obtain ⟨s₁, s₂, _, _, rfl, -, ⟨s₃, s₄, _, _, rfl, -, ⟨s₅, s₆, _, _, rfl, -, -, hword⟩, -⟩, -⟩ := h
  have hinfix : s₆ <:+: s₅ ++ s₆ ++ s₄ ++ s₂ := ⟨s₅, s₄ ++ s₂, by simp⟩
  rcases hword with hword | hword | hword | hword
  all_goals
    rw [(matches_lit.1 hword).1] at hinfix ⊢
    exact ⟨_, by decide, hinfix⟩

namespace Written

variable {w : Written}

theorem misses_anonymousNamespace (hw : w.IsPlain) :
    (braces anonymousNamespaceHead).head.Misses w.text :=
  misses_braces hw (by decide) fun l s r g h =>
    ⟨"namespace", by decide, ((holds_lit "namespace").append_right _) l s r g h⟩

theorem misses_namespace (hw : w.IsPlain) : (braces namespaceHead).head.Misses w.text :=
  misses_braces hw (by decide) fun l s r g h =>
    ⟨"namespace", by decide, holds_namespaceHead l s r g h⟩

theorem misses_type (hw : w.IsPlain) : (braces typeHead).head.Misses w.text :=
  misses_braces hw (by decide) fun l s r g h => matches_typeHead h

end Written

end HeaderSync

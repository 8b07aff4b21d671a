import HeaderSync.Proofs.Body

/-!
# The first balanced group

What a scan looks for, said without the walk that it makes. Literals are given by their grammar; a place
of a group is code if no literal is open there; and a group ends where as many of its delimiters in code
were closed as were opened, for the first time.

* `IsContent`, `IsCode` : the inside of a literal, and a text that leaves none open;
* `Masking.after`, `Masking.after_eq_code_iff` : the masking that a walk arrives at;
* `Text.unmasked` : how often a character stands in code;
* `Delimiters.IsFirstGroup` : the first group from some place on;
* `Delimiters.closeFrom?_eq_some_iff` : where a walk through the inside of a group ends;
* `Delimiters.exists_closeFrom?_of_deeper` : deeper groups are closed earlier;
* `Delimiters.scan?_eq_some_iff_first`, `Delimiters.scan?_append_left` : what a scan answers;
* `Delimiters.scan?_iff_isFirstGroup`.
-/

namespace HeaderSync

open Text

/-! ## Literals -/

/-- The characters between which literals stand. -/
def IsQuote (c : Char) : Prop :=
  c = '"' ∨ c = '\''

instance (c : Char) : Decidable (IsQuote c) :=
  inferInstanceAs (Decidable (_ ∨ _))

/-- What may stand behind the quote of a literal that is still open. -/
inductive IsContent (quote : Char) : Text → Prop where
  | nil : IsContent quote []
  | plain {c : Char} {t : Text} (hslash : c ≠ '\\') (hquote : c ≠ quote) (hline : c ≠ '\n')
    (ht : IsContent quote t) : IsContent quote (c :: t)
  | escaped (c : Char) {t : Text} (ht : IsContent quote t) : IsContent quote ('\\' :: c :: t)

/-- A text of characters in code and of literals that are all closed. A literal ends with its own quote
or with its line. -/
inductive IsCode : Text → Prop where
  | nil : IsCode []
  | char {c : Char} {t : Text} (hc : ¬ IsQuote c) (ht : IsCode t) : IsCode (c :: t)
  | literal {quote ending : Char} {content t : Text} (hquote : IsQuote quote)
    (hcontent : IsContent quote content) (hending : ending = quote ∨ ending = '\n')
    (ht : IsCode t) : IsCode (quote :: (content ++ ending :: t))

theorem IsContent.append {quote : Char} {s t : Text} (hs : IsContent quote s)
    (ht : IsContent quote t) : IsContent quote (s ++ t) := by
  induction hs with
  | nil => exact ht
  | plain hslash hquote hline _ ih => exact .plain hslash hquote hline ih
  | escaped c _ ih => exact .escaped c ih

namespace Masking

/-- The masking behind a character. -/
def next : Masking → Char → Masking
  | escaped quote, _ => literal quote
  | literal quote, c =>
    if c = '\\' then escaped quote
    else if c = quote || c = '\n' then code
    else literal quote
  | code, c => if c = '"' || c = '\'' then literal c else code

theorem next_escaped (quote c : Char) : (escaped quote).next c = literal quote := rfl

theorem next_literal (quote c : Char) :
    (literal quote).next c =
      if c = '\\' then escaped quote
      else if c = quote || c = '\n' then code
      else literal quote := rfl

theorem next_code (c : Char) : code.next c = if c = '"' || c = '\'' then literal c else code := rfl

/-- The masking behind a text. -/
def after (m : Masking) (t : Text) : Masking :=
  t.foldl next m

@[simp] theorem after_nil (m : Masking) : m.after [] = m := rfl

@[simp] theorem after_cons (m : Masking) (c : Char) (t : Text) :
    m.after (c :: t) = (m.next c).after t := rfl

theorem after_append (m : Masking) (s t : Text) : m.after (s ++ t) = (m.after s).after t :=
  List.foldl_append

theorem next_code_of_quote {c : Char} (h : IsQuote c) : code.next c = literal c := by
  rcases h with rfl | rfl <;> rfl

theorem next_code_of_not_quote {c : Char} (h : ¬ IsQuote c) : code.next c = code := by
  rw [IsQuote, not_or] at h
  simp [next_code, h.1, h.2]

theorem after_literal {quote : Char} {t : Text} (h : IsContent quote t) :
    (literal quote).after t = literal quote := by
  induction h with
  | nil => rfl
  | plain hslash hne hline _ ih => simp [next_literal, hslash, hne, hline, ih]
  | escaped c _ ih => simpa [next_literal, next_escaped] using ih

theorem after_of_isCode {t : Text} (h : IsCode t) : code.after t = code := by
  induction h with
  | nil => rfl
  | char hc _ ih => rw [after_cons, next_code_of_not_quote hc, ih]
  | @literal quote ending content t hquote hcontent hending _ ih =>
    have hslash : ending ≠ '\\' := by
      rcases hending with rfl | rfl
      · rcases hquote with rfl | rfl <;> decide
      · decide
    have hend : (Masking.literal quote).next ending = code := by
      simp [next_literal, hslash, hending]
    rw [after_cons, next_code_of_quote hquote, after_append, after_literal hcontent, after_cons,
      hend, ih]

/-- What ends in code is code. A walk may start in code or behind the content of an open literal, with
or without a backslash after it. -/
theorem isCode_of_after (t : Text) :
    (code.after t = code → IsCode t) ∧
    ∀ quote content, IsQuote quote → IsContent quote content →
      ((literal quote).after t = code → IsCode (quote :: (content ++ t))) ∧
      ((escaped quote).after t = code → IsCode (quote :: (content ++ '\\' :: t))) := by
  induction t with
  | nil => exact ⟨fun _ => .nil, fun _ _ _ _ => ⟨nofun, nofun⟩⟩
  | cons c t ih =>
    obtain ⟨hcode, hopen⟩ := ih
    refine ⟨fun h => ?_, fun quote content hquote hcontent => ⟨fun h => ?_, fun h => ?_⟩⟩
    · rw [after_cons] at h
      by_cases hc : IsQuote c
      · rw [next_code_of_quote hc] at h
        exact (hopen c [] hc .nil).1 h
      · rw [next_code_of_not_quote hc] at h
        exact .char hc (hcode h)
    · rw [after_cons, next_literal] at h
      split at h
      · rename_i hslash
        rw [hslash]
        exact (hopen quote content hquote hcontent).2 h
      · rename_i hslash
        split at h
        · rename_i hend
          rw [Bool.or_eq_true, decide_eq_true_eq, decide_eq_true_eq] at hend
          exact .literal hquote hcontent hend (hcode h)
        · rename_i hplain
          rw [Bool.or_eq_true, decide_eq_true_eq, decide_eq_true_eq, not_or] at hplain
          have hmore := hcontent.append (.plain hslash hplain.1 hplain.2 .nil)
          simpa using (hopen quote (content ++ [c]) hquote hmore).1 h
    · have hmore := hcontent.append (.escaped c .nil)
      simpa using (hopen quote (content ++ ['\\', c]) hquote hmore).1 h

theorem after_eq_code_iff {t : Text} : code.after t = code ↔ IsCode t :=
  ⟨(isCode_of_after t).1, after_of_isCode⟩

end Masking

instance (t : Text) : Decidable (IsCode t) :=
  decidable_of_iff _ Masking.after_eq_code_iff

/-! ## Counting in code -/

/-- How often the character `x` stands in the text outside literals. -/
def Text.unmasked (x : Char) (t : Text) : Nat :=
  (List.range t.length).countP fun i => t[i]? = some x ∧ IsCode (t.take i)

theorem Text.unmasked_concat (x : Char) (t : Text) (c : Char) :
    unmasked x (t ++ [c]) = unmasked x t + if c = x ∧ IsCode t then 1 else 0 := by
  have hfront : ∀ i ∈ List.range t.length,
      decide ((t ++ [c])[i]? = some x ∧ IsCode ((t ++ [c]).take i)) =
        decide (t[i]? = some x ∧ IsCode (t.take i)) := by
    intro i hi
    rw [List.mem_range] at hi
    rw [List.getElem?_append_left hi, List.take_append_of_le_length hi.le]
  unfold unmasked
  rw [List.length_append, List.length_singleton, List.range_succ, List.countP_append,
    List.countP_congr fun i hi => by rw [hfront i hi]]
  simp [List.countP_cons]

namespace Delimiters

/-- The delimiters differ from each other and from quotes. -/
structure IsProper (d : Delimiters) : Prop where
  ne : d.opening ≠ d.closing
  opening_not_quote : ¬ IsQuote d.opening
  closing_not_quote : ¬ IsQuote d.closing

/-- Behind an opening delimiter and the text `t`, as many delimiters were closed as were opened. -/
def Balances (d : Delimiters) (t : Text) : Prop :=
  unmasked d.closing t = unmasked d.opening t + 1

instance (d : Delimiters) (t : Text) : Decidable (d.Balances t) :=
  inferInstanceAs (Decidable (_ = _))

/-- The first opening delimiter from byte `start` on stands at `openAt`, and `closeAt` is the first place
behind it up to which as many delimiters are closed as opened. -/
def IsFirstGroup (d : Delimiters) (t : Text) (start openAt closeAt : Nat) : Prop :=
  ∃ passed lead inside x rest,
    t = passed ++ (lead ++ d.opening :: (inside ++ x :: rest)) ∧
    byteLength passed = start ∧ d.opening ∉ lead ∧ openAt = byteLength (passed ++ lead) ∧
    closeAt = byteLength (passed ++ (lead ++ d.opening :: inside)) ∧
    d.Balances (inside ++ [x]) ∧ ∀ s, s <+: inside → ¬ d.Balances s

/-- An opening delimiter stands at `place`, behind the one at `openAt` and in code. -/
def OpensBehind (d : Delimiters) (t : Text) (openAt place : Nat) : Prop :=
  ∃ lead between rest, t = lead ++ d.opening :: (between ++ d.opening :: rest) ∧
    byteLength lead = openAt ∧ place = byteLength (lead ++ d.opening :: between) ∧ IsCode between

variable {d : Delimiters}

/-! ## Steps of a walk -/

theorem closeFrom?_code (offset depth : Nat) (c : Char) (t : Text) :
    d.closeFrom? offset depth .code (c :: t) =
      if c = d.opening then d.closeFrom? (offset + c.utf8Size) (depth + 1) .code t
      else if c = d.closing then
        if depth ≤ 1 then some offset
        else d.closeFrom? (offset + c.utf8Size) (depth - 1) .code t
      else d.closeFrom? (offset + c.utf8Size) depth (Masking.code.next c) t := rfl

/-- Inside a literal no character opens or closes a group. -/
theorem closeFrom?_masked {m : Masking} (hm : m ≠ .code) (offset depth : Nat) (c : Char) (t : Text) :
    d.closeFrom? offset depth m (c :: t) =
      d.closeFrom? (offset + c.utf8Size) depth (m.next c) t := by
  cases m with
  | code => exact absurd rfl hm
  | literal quote => rfl
  | escaped quote => rfl

theorem closeFrom?_cons (hd : d.IsProper) (offset depth : Nat) (m : Masking) (c : Char) (t : Text) :
    d.closeFrom? offset depth m (c :: t) =
      if m = .code ∧ c = d.opening then
        d.closeFrom? (offset + c.utf8Size) (depth + 1) (m.next c) t
      else if m = .code ∧ c = d.closing then
        if depth ≤ 1 then some offset
        else d.closeFrom? (offset + c.utf8Size) (depth - 1) (m.next c) t
      else d.closeFrom? (offset + c.utf8Size) depth (m.next c) t := by
  by_cases hm : m = .code
  · subst hm
    by_cases hopen : c = d.opening
    · subst hopen
      simp [closeFrom?_code, Masking.next_code_of_not_quote hd.opening_not_quote]
    · by_cases hclose : c = d.closing
      · subst hclose
        simp [closeFrom?_code, hopen, Masking.next_code_of_not_quote hd.closing_not_quote]
      · simp [closeFrom?_code, hopen, hclose]
  · simp [closeFrom?_masked hm, hm]

/-- A character after which the group is balanced ends the walk. Otherwise the walk goes on, with the
depth that the delimiters up to there leave. -/
theorem closeFrom?_step (hd : d.IsProper) {s : Text} {depth : Nat}
    (hdepth : depth + unmasked d.closing s = unmasked d.opening s + 1) (hs : ¬ d.Balances s)
    (offset : Nat) (c : Char) (t : Text) :
    (d.Balances (s ++ [c]) ∧
      d.closeFrom? offset depth (Masking.code.after s) (c :: t) = some offset) ∨
    ¬ d.Balances (s ++ [c]) ∧ ∃ depth',
      depth' + unmasked d.closing (s ++ [c]) = unmasked d.opening (s ++ [c]) + 1 ∧
      d.closeFrom? offset depth (Masking.code.after s) (c :: t) =
        d.closeFrom? (offset + c.utf8Size) depth' (Masking.code.after (s ++ [c])) t := by
  have hafter : Masking.code.after (s ++ [c]) = (Masking.code.after s).next c := by
    rw [Masking.after_append]
    rfl
  unfold Balances at hs ⊢
  simp only [closeFrom?_cons hd, Masking.after_eq_code_iff, hafter, unmasked_concat]
  by_cases hcode : IsCode s
  · by_cases hopen : c = d.opening
    · subst hopen
      simp only [hcode, hd.ne, and_true, and_false, if_true, if_false]
      exact .inr ⟨by omega, depth + 1, by omega, rfl⟩
    · by_cases hclose : c = d.closing
      · subst hclose
        simp only [hcode, hopen, and_true, and_false, if_true, if_false]
        by_cases hone : depth ≤ 1
        · exact .inl ⟨by omega, if_pos hone⟩
        · exact .inr ⟨by omega, depth - 1, by omega, if_neg hone⟩
      · simp only [hopen, hclose, and_false, false_and, if_false]
        exact .inr ⟨hs, depth, hdepth, rfl⟩
  · simp only [hcode, and_false, false_and, if_false]
    exact .inr ⟨hs, depth, hdepth, rfl⟩

/-- A walk through a group of which `s` was read ends at the first character that balances it. -/
theorem closeFrom?_eq_some_iff (hd : d.IsProper) {s t : Text} {offset depth closeAt : Nat}
    (hdepth : depth + unmasked d.closing s = unmasked d.opening s + 1)
    (hs : ∀ s', s' <+: s → ¬ d.Balances s') :
    d.closeFrom? offset depth (Masking.code.after s) t = some closeAt ↔
      ∃ inside x rest, t = inside ++ x :: rest ∧ closeAt = offset + byteLength inside ∧
        d.Balances (s ++ inside ++ [x]) ∧ ∀ s', s' <+: s ++ inside → ¬ d.Balances s' := by
  induction t generalizing s offset depth with
  | nil =>
    constructor
    · intro h
      cases hmask : Masking.code.after s <;> rw [hmask] at h <;> cases h
    · rintro ⟨inside, x, rest, h, -⟩
      simp at h
  | cons c t ih =>
    obtain ⟨hbalances, hstep⟩ | ⟨hopen, depth', hdepth', hstep⟩ :=
      closeFrom?_step hd hdepth (hs s List.prefix_rfl) offset c t
    · rw [hstep, Option.some.injEq]
      constructor
      · rintro rfl
        exact ⟨[], c, t, rfl, rfl, by simpa using hbalances, by simpa using hs⟩
      · rintro ⟨inside, x, rest, ht, rfl, -, hnone⟩
        cases inside with
        | nil => rfl
        | cons a inside =>
          -- The group would be balanced before.
          obtain ⟨rfl, -⟩ := List.cons.inj ht
          exact absurd hbalances (hnone _ ⟨inside, by simp⟩)
    · have hs' : ∀ s', s' <+: s ++ [c] → ¬ d.Balances s' := by
        intro s' hprefix
        rcases List.prefix_concat_iff.mp hprefix with rfl | hprefix
        · exact hopen
        · exact hs s' hprefix
      rw [hstep, ih hdepth' hs']
      constructor
      · rintro ⟨inside, x, rest, rfl, rfl, hbalances, hnone⟩
        refine ⟨c :: inside, x, rest, rfl, ?_, by simpa using hbalances, by simpa using hnone⟩
        rw [byteLength_cons, Nat.add_assoc]
      · rintro ⟨inside, x, rest, ht, rfl, hbalances, hnone⟩
        cases inside with
        | nil =>
          obtain ⟨rfl, -⟩ := List.cons.inj ht
          exact absurd (by simpa using hbalances) hopen
        | cons a inside =>
          obtain ⟨rfl, rfl⟩ := List.cons.inj ht
          refine ⟨inside, x, rest, rfl, ?_, by simpa using hbalances, by simpa using hnone⟩
          rw [byteLength_cons, Nat.add_assoc]

/-! ## The opening delimiter -/

theorem groupFrom?_eq_some_iff {t : Text} {offset openAt closeAt : Nat} :
    d.groupFrom? offset t = some (openAt, closeAt) ↔
      ∃ lead rest, t = lead ++ d.opening :: rest ∧ d.opening ∉ lead ∧
        openAt = offset + byteLength lead ∧
        d.closeFrom? (openAt + d.opening.utf8Size) 1 .code rest = some closeAt := by
  induction t generalizing offset with
  | nil =>
    constructor
    · intro h
      cases h
    · rintro ⟨lead, rest, h, -⟩
      simp at h
  | cons c t ih =>
    rw [groupFrom?]
    split
    · rename_i hc
      subst hc
      constructor
      · intro h
        obtain ⟨close, hclose, heq⟩ := Option.map_eq_some_iff.mp h
        obtain ⟨rfl, rfl⟩ := Prod.mk.inj heq
        exact ⟨[], t, rfl, List.not_mem_nil, rfl, hclose⟩
      · rintro ⟨lead, rest, ht, hlead, rfl, hclose⟩
        cases lead with
        | nil =>
          obtain ⟨-, rfl⟩ := List.cons.inj ht
          rw [byteLength_nil, Nat.add_zero] at hclose ⊢
          rw [hclose]
          rfl
        | cons a lead =>
          obtain ⟨rfl, -⟩ := List.cons.inj ht
          exact absurd List.mem_cons_self hlead
    · rename_i hc
      rw [ih]
      constructor
      · rintro ⟨lead, rest, rfl, hlead, rfl, hclose⟩
        refine ⟨c :: lead, rest, rfl, ?_, by rw [byteLength_cons, Nat.add_assoc], hclose⟩
        rintro (_ | ⟨_, hmem⟩)
        · exact hc rfl
        · exact hlead hmem
      · rintro ⟨lead, rest, ht, hlead, rfl, hclose⟩
        cases lead with
        | nil =>
          obtain ⟨rfl, -⟩ := List.cons.inj ht
          exact absurd rfl hc
        | cons a lead =>
          obtain ⟨rfl, rfl⟩ := List.cons.inj ht
          refine ⟨lead, rest, rfl, fun hmem => hlead (.tail _ hmem), ?_, hclose⟩
          rw [byteLength_cons, Nat.add_assoc]

/-- A scan from a boundary, as the walk from the first opening delimiter on. -/
theorem scan?_eq_some_iff {passed t : Text} {openAt closeAt : Nat} :
    d.scan? (passed ++ t) (byteLength passed) = some (openAt, closeAt) ↔
      ∃ lead rest, t = lead ++ d.opening :: rest ∧ d.opening ∉ lead ∧
        openAt = byteLength (passed ++ lead) ∧
        d.closeFrom? (openAt + d.opening.utf8Size) 1 .code rest = some closeAt := by
  rw [scan?, dropBytes?_append, Option.bind_eq_bind, Option.bind_some, groupFrom?_eq_some_iff]
  simp only [byteLength_append]

/-! ## Groups inside groups -/

/-- Fewer groups are closed earlier. -/
theorem exists_closeFrom?_of_succ {offset depth closeAt : Nat} {m : Masking} {t : Text}
    (hdepth : 0 < depth) (h : d.closeFrom? offset (depth + 1) m t = some closeAt) :
    ∃ earlier, earlier < closeAt ∧ d.closeFrom? offset depth m t = some earlier := by
  induction t generalizing offset depth m with
  | nil => cases m <;> cases h
  | cons c t ih =>
    cases m with
    | escaped quote => exact ih hdepth h
    | literal quote => exact ih hdepth h
    | code =>
      rw [closeFrom?_code] at h ⊢
      split at h
      · rename_i hopen
        rw [if_pos hopen]
        exact ih (Nat.succ_pos depth) h
      · rename_i hopen
        rw [if_neg hopen]
        split at h
        · rename_i hclose
          rw [if_neg (by omega), Nat.add_sub_cancel] at h
          rw [if_pos hclose]
          by_cases hone : depth ≤ 1
          · obtain ⟨inside, rest, -, hat⟩ := exists_of_closeFrom? h
            have hpos := c.utf8Size_pos
            exact ⟨offset, by omega, by rw [if_pos hone]⟩
          · rw [if_neg hone]
            have hdeep : 0 < depth - 1 := by omega
            exact ih hdeep (by rwa [Nat.sub_add_cancel hdepth])
        · rename_i hclose
          rw [if_neg hclose]
          exact ih hdepth h

/-- Of several open groups, the last one is closed before all of them are. -/
theorem exists_closeFrom?_of_deeper {offset depth closeAt : Nat} {m : Masking} {t : Text}
    (h : d.closeFrom? offset (depth + 2) m t = some closeAt) :
    ∃ earlier, earlier < closeAt ∧ d.closeFrom? offset 1 m t = some earlier := by
  induction depth generalizing closeAt with
  | zero => exact exists_closeFrom?_of_succ Nat.one_pos h
  | succ depth ih =>
    obtain ⟨middle, hlt, hmiddle⟩ := exists_closeFrom?_of_succ (by omega) h
    obtain ⟨earlier, hearlier, hclose⟩ := ih hmiddle
    exact ⟨earlier, by omega, hclose⟩

/-- A walk that does not end in `s` goes on behind it, with groups still open. -/
theorem exists_closeFrom?_behind (hd : d.IsProper) {offset depth closeAt : Nat} {m : Masking}
    {s t : Text} (hdepth : 0 < depth) (hle : offset + byteLength s ≤ closeAt)
    (h : d.closeFrom? offset depth m (s ++ t) = some closeAt) :
    ∃ depth', 0 < depth' ∧
      d.closeFrom? (offset + byteLength s) depth' (m.after s) t = some closeAt := by
  induction s generalizing offset depth m with
  | nil => exact ⟨depth, hdepth, h⟩
  | cons c s ih =>
    have hpos := c.utf8Size_pos
    rw [byteLength_cons] at hle
    rw [List.cons_append, closeFrom?_cons hd] at h
    rw [byteLength_cons, ← Nat.add_assoc]
    split at h
    · exact ih (Nat.succ_pos depth) (by omega) h
    · split at h
      · split at h
        · have := Option.some.inj h
          omega
        · exact ih (by omega) (by omega) h
      · exact ih hdepth (by omega) h

/-- A group that opens in code inside another one is closed inside it. -/
theorem exists_scan?_of_opensBehind (hd : d.IsProper) {lead between rest : Text} {closeAt : Nat}
    (hcode : IsCode between) (hle : byteLength (lead ++ d.opening :: between) ≤ closeAt)
    (h : d.closeFrom? (byteLength lead + d.opening.utf8Size) 1 .code
      (between ++ d.opening :: rest) = some closeAt) :
    ∃ close, d.scan? (lead ++ d.opening :: (between ++ d.opening :: rest))
        (byteLength (lead ++ d.opening :: between)) =
          some (byteLength (lead ++ d.opening :: between), close) ∧
      byteLength (lead ++ d.opening :: between) < close ∧ close < closeAt := by
  have hplace : byteLength (lead ++ d.opening :: between) =
      byteLength lead + d.opening.utf8Size + byteLength between := by
    rw [byteLength_append, byteLength_cons, Nat.add_assoc]
  rw [hplace] at hle
  obtain ⟨depth, hdepth, hwalk⟩ := exists_closeFrom?_behind hd Nat.one_pos hle h
  obtain ⟨depth, rfl⟩ := Nat.exists_eq_succ_of_ne_zero hdepth.ne'
  rw [Masking.after_of_isCode hcode, closeFrom?_code, if_pos rfl] at hwalk
  obtain ⟨close, hlt, hclose⟩ := exists_closeFrom?_of_deeper hwalk
  obtain ⟨inside, after, -, hat⟩ := exists_of_closeFrom? hclose
  have hpos := d.opening.utf8Size_pos
  refine ⟨close, ?_, by omega, hlt⟩
  rw [show lead ++ d.opening :: (between ++ d.opening :: rest) =
    (lead ++ d.opening :: between) ++ d.opening :: rest by simp, scan?_eq_some_iff]
  refine ⟨[], rest, rfl, List.not_mem_nil, by rw [List.append_nil], ?_⟩
  rw [hplace]
  exact hclose

/-! ## Scans -/

/-- A scan answers with the first group from its place on. -/
theorem scan?_eq_some_iff_first (hd : d.IsProper) {passed t : Text} {openAt closeAt : Nat} :
    d.scan? (passed ++ t) (byteLength passed) = some (openAt, closeAt) ↔
      d.IsFirstGroup (passed ++ t) (byteLength passed) openAt closeAt := by
  have hwalk : ∀ {offset : Nat} {t : Text}, d.closeFrom? offset 1 .code t = some closeAt ↔
      ∃ inside x rest, t = inside ++ x :: rest ∧ closeAt = offset + byteLength inside ∧
        d.Balances (inside ++ [x]) ∧ ∀ s', s' <+: inside → ¬ d.Balances s' := by
    intro offset t
    refine closeFrom?_eq_some_iff hd (s := []) rfl fun s' hs' => ?_
    rw [List.prefix_nil.mp hs']
    simp [Balances, unmasked]
  rw [scan?_eq_some_iff]
  constructor
  · rintro ⟨lead, rest, rfl, hlead, rfl, hclose⟩
    obtain ⟨inside, x, rest, rfl, rfl, hbalances, hnone⟩ := hwalk.mp hclose
    refine ⟨passed, lead, inside, x, rest, rfl, rfl, hlead, rfl, ?_, hbalances, hnone⟩
    simp only [byteLength_append, byteLength_cons]
    omega
  · rintro ⟨passed', lead, inside, x, after, ht, hpassed, hlead, rfl, rfl, hbalances, hnone⟩
    obtain ⟨rfl, rfl⟩ := append_inj_of_byteLength ht hpassed.symm
    refine ⟨lead, _, rfl, hlead, rfl, hwalk.mpr ⟨inside, x, after, rfl, ?_, hbalances, hnone⟩⟩
    simp only [byteLength_append, byteLength_cons]
    omega

/-- A scan finds the same group in a longer text. -/
theorem scan?_append_left (hd : d.IsProper) (lead : Text) {passed t : Text} {openAt closeAt : Nat}
    (h : d.scan? (passed ++ t) (byteLength passed) = some (openAt, closeAt)) :
    d.scan? (lead ++ passed ++ t) (byteLength (lead ++ passed)) =
      some (byteLength lead + openAt, byteLength lead + closeAt) := by
  obtain ⟨passed', skipped, inside, x, rest, ht, hpassed, hskipped, rfl, rfl, hbalances, hnone⟩ :=
    (scan?_eq_some_iff_first hd).mp h
  rw [scan?_eq_some_iff_first hd]
  refine ⟨lead ++ passed', skipped, inside, x, rest, ?_, ?_, hskipped, ?_, ?_, hbalances, hnone⟩
  · rw [List.append_assoc, ht, List.append_assoc]
  · rw [byteLength_append, hpassed, byteLength_append]
  · rw [List.append_assoc, byteLength_append lead]
  · rw [List.append_assoc, byteLength_append lead]

/-- A scan finds exactly the first balanced group, and none if there is none: it answers with the first
opening delimiter from the given place on, and with the first place behind it up to which as many
delimiters are closed as opened, those in literals left out. A group that opens in code inside the one
that is found is closed inside it. -/
theorem scan?_iff_isFirstGroup (hd : d.IsProper) {t : Text} {start : Nat}
    (hstart : isBoundary t start = true) :
    (∀ openAt closeAt,
      d.scan? t start = some (openAt, closeAt) ↔ d.IsFirstGroup t start openAt closeAt) ∧
    ∀ openAt closeAt place, d.scan? t start = some (openAt, closeAt) →
      d.OpensBehind t openAt place → place < closeAt →
      ∃ close, d.scan? t place = some (place, close) ∧ place < close ∧ close < closeAt := by
  obtain ⟨passed, rest, rfl, rfl⟩ := isBoundary_iff.1 hstart
  refine ⟨fun openAt closeAt => scan?_eq_some_iff_first hd,
    fun openAt closeAt place h hopens hlt => ?_⟩
  obtain ⟨lead, behind, rfl, -, rfl, hclose⟩ := scan?_eq_some_iff.1 h
  obtain ⟨lead', between, after, ht, hopen, rfl, hcode⟩ := hopens
  rw [← List.append_assoc] at ht
  obtain ⟨rfl, hrest⟩ := append_inj_of_byteLength ht hopen.symm
  obtain ⟨-, rfl⟩ := List.cons.inj hrest
  rw [← List.append_assoc]
  exact exists_scan?_of_opensBehind hd hcode hlt.le hclose

theorem isProper_braces : braces.IsProper :=
  ⟨by decide, by decide, by decide⟩

/-- A brace in a literal does not close the group. -/
theorem scan?_iff_isFirstGroup_literal :
    let t : Text := "a\x7b'\x7d'\x7b\x7d\x7d\x7d"
    braces.IsFirstGroup t 0 1 7 ∧ ¬ braces.IsFirstGroup t 0 1 3 ∧
      ∃ close, braces.scan? t 5 = some (5, close) ∧ 5 < close ∧ close < 7 := by
  intro t
  have hstart : isBoundary t 0 = true := by decide
  obtain ⟨hfirst, hinner⟩ := scan?_iff_isFirstGroup isProper_braces hstart
  have hscan : braces.scan? t 0 = some (1, 7) := by decide
  refine ⟨(hfirst 1 7).mp hscan, fun h => ?_, hinner 1 7 5 hscan ?_ (by decide)⟩
  · have hthree := (hfirst 1 3).mpr h
    rw [hscan] at hthree
    exact absurd hthree (by decide)
  · exact ⟨['a'], ['\'', '\x7d', '\''], ['\x7d', '\x7d', '\x7d'], by decide, by decide,
      by decide, by decide⟩

end Delimiters

end HeaderSync

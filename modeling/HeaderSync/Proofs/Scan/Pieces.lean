import HeaderSync.Proofs.Pattern.Language
import HeaderSync.Proofs.Scan

/-!
# Scanning a text piece by piece

A text is put together from pieces, and of each piece it is known what a search makes of it, whatever
stands around it: all matches that start in it are refused, or it is taken as a whole. Then it is
known what a scan of the whole text comes to.

* `BodyPattern.Refuses`, `BodyPattern.Takes` : what a search makes of a piece;
* `BodyPattern.exists_scans`, `BodyPattern.takeOut_of_pieces` : what it makes of all of them.
-/

namespace HeaderSync

open Text

theorem Text.endsInWord_append (s t : Text) :
    (s ++ t).endsInWord = if t = [] then s.endsInWord else t.endsInWord := by
  split
  · rename_i h
    rw [h, List.append_nil]
  · rename_i h
    rw [endsInWord, List.getLast?_append_of_ne_nil _ h]
    rfl

namespace BodyPattern

variable (m : BodyPattern)

/-- The text `t` is a unit from the match `s` on: a head and a group that is closed at the end. -/
structure IsWhole (t s inside : Text) : Prop where
  text : t = s ++ m.delimiters.opening :: (inside ++ [m.delimiters.closing])
  balanced : m.delimiters.Balanced inside

/-- Every match that starts in the text `t`, whatever stands around it, is the head of a group that
ends with `t`, and is refused. A match counts only if none starts right before it. -/
def Refuses (t : Text) : Prop :=
  ∀ l a b rest s r g, t = a ++ b → b ≠ [] → b ++ rest = s ++ r → m.head.Matches (l ++ a) s r g →
    (∀ a' c s' r' g', a = a' ++ [c] → c :: (b ++ rest) = s' ++ r' →
      ¬ m.head.Matches (l ++ a') s' r' g') →
    ∃ s' inside, s = s' ++ [m.delimiters.opening] ∧ m.IsWhole b s' inside ∧
      ∀ unit : Hit, unit.Says m.head.groupCount g inside → m.accepts unit = false

/-- The text `t` is a unit that is taken, whatever stands around it, as long as no word runs into it.
The match and the inside of the group are such that `told` holds. -/
structure Takes (t : Text) (told : List Capture → Text → Prop) : Prop where
  exists_match : ∀ l rest, l.endsInWord = false →
    ∃ s r g, t ++ rest = s ++ r ∧ m.head.Matches l s r g
  isWhole : ∀ l rest s r g, t ++ rest = s ++ r → m.head.Matches l s r g →
    ∃ s' inside, s = s' ++ [m.delimiters.opening] ∧ m.IsWhole t s' inside ∧ told g inside ∧
      ∀ unit : Hit, unit.Says m.head.groupCount g inside → m.accepts unit = true

theorem Takes.imp {m : BodyPattern} {t : Text} {told told' : List Capture → Text → Prop}
    (h : m.Takes t told) (himp : ∀ g inside, told g inside → told' g inside) : m.Takes t told' where
  exists_match := h.exists_match
  isWhole l rest s r g hrest hmatch := by
    obtain ⟨s', inside, hs, hwhole, htold, haccepts⟩ := h.isWhole l rest s r g hrest hmatch
    exact ⟨s', inside, hs, hwhole, himp g inside htold, haccepts⟩

/-- No match starts in the text `l` if `rest` follows it. -/
def Quiet (l rest : Text) : Prop :=
  ∀ a b s r g, l = a ++ b → b ≠ [] → b ++ rest = s ++ r → ¬ m.head.Matches a s r g

variable {m}

theorem quiet_nil (rest : Text) : m.Quiet [] rest := by
  intro a b s r g h hb
  exact absurd (List.append_eq_nil_iff.mp h.symm).2 hb

/-- A match behind a quiet text starts at its end or later. -/
theorem Quiet.exists_append {l rest : Text} (h : m.Quiet l rest) {l' s r : Text}
    {g : List Capture} (heq : l' ++ s ++ r = l ++ rest) (hmatch : m.head.Matches l' s r g) :
    ∃ a, l' = l ++ a ∧ rest = a ++ (s ++ r) := by
  rw [List.append_assoc] at heq
  rcases List.append_eq_append_iff.mp heq with ⟨b, rfl, hrest⟩ | ⟨a, rfl, hrest⟩
  · by_cases hb : b = []
    · subst hb
      exact ⟨[], by simp, by simpa using hrest.symm⟩
    · exact absurd hmatch (h l' b s r g rfl hb hrest.symm)
  · exact ⟨a, rfl, hrest⟩

/-- A text that is followed by nothing is searched in vain if it is quiet. -/
theorem Quiet.find?_eq_none (hm : m.IsSimple) {l : Text} (h : m.Quiet l []) :
    m.head.find? l = none := by
  cases hfind : m.head.find? l with
  | none => rfl
  | some c =>
    obtain ⟨l', s, r, g, heq, hmatch, -⟩ := Pattern.exists_of_find? hfind
    obtain ⟨s', rfl⟩ := hm.head_ends.last hmatch
    obtain ⟨a, -, hnil⟩ := h.exists_append (by rw [heq, List.append_nil]) hmatch
    simp at hnil

/-- The head of a unit that is found, with what follows the unit. -/
theorem finds_of_isWhole {l t s inside r rest : Text} {g : List Capture}
    (hwhole : m.IsWhole t s inside) (hr : t ++ rest = s ++ [m.delimiters.opening] ++ r)
    (hmatch : m.head.Matches l (s ++ [m.delimiters.opening]) r g)
    (hfind : m.head.find? (l ++ (t ++ rest)) =
      some ⟨byteLength l, byteLength (l ++ (s ++ [m.delimiters.opening])), m.head.groupRanges g⟩) :
    m.Finds l s inside rest g := by
  have ht : t ++ rest = s ++ m.delimiters.opening :: (inside ++ m.delimiters.closing :: rest) := by
    rw [hwhole.text]
    simp
  obtain rfl : r = inside ++ m.delimiters.closing :: rest := by
    rw [ht, List.append_assoc, List.singleton_append] at hr
    exact (List.cons.inj (List.append_cancel_left hr)).2.symm
  exact ⟨hmatch, ht ▸ hfind, hwhole.balanced⟩

/-- Of a piece in which something starts behind a quiet text, the first match is found. -/
theorem Quiet.exists_find? (hconsume : m.head.roundsConsume = true) {l t rest : Text}
    (h : m.Quiet l (t ++ rest)) {a b s r : Text} {g : List Capture} (ht : t = a ++ b) (hb : b ≠ [])
    (hrest : b ++ rest = s ++ r) (hmatch : m.head.Matches (l ++ a) s r g) :
    ∃ a' b' s' r' g', t = a' ++ b' ∧ b' ≠ [] ∧ a'.length ≤ a.length ∧ b' ++ rest = s' ++ r' ∧
      m.head.Matches (l ++ a') s' r' g' ∧ m.head.find? (l ++ (t ++ rest)) =
        some ⟨byteLength (l ++ a'), byteLength (l ++ a' ++ s'), m.head.groupRanges g'⟩ := by
  have heq : l ++ a ++ s ++ r = l ++ (t ++ rest) := by
    rw [ht, List.append_assoc _ b, hrest]
    simp
  obtain ⟨l', s', r', g', heq', hmatch', hle, hfind⟩ := Pattern.exists_find? hconsume heq hmatch
  obtain ⟨a', rfl, hafter⟩ := h.exists_append heq' hmatch'
  have hlen : a'.length ≤ a.length := by simpa using hle
  have hlt : a'.length < t.length := by
    rw [ht, List.length_append]
    have hpos := List.length_pos_iff.mpr hb
    omega
  rcases List.append_eq_append_iff.mp hafter with ⟨b', hb', -⟩ | ⟨b', hb', hrest'⟩
  · rw [hb', List.length_append] at hlt
    omega
  · refine ⟨a', b', s', r', g', hb', ?_, hlen, hrest'.symm, hmatch', hfind⟩
    rintro rfl
    rw [hb', List.append_nil] at hlt
    exact Nat.lt_irrefl _ hlt

/-- A piece in which nothing starts is quiet. -/
theorem Quiet.append {l t rest : Text} (h : m.Quiet l (t ++ rest))
    (ht : ∀ a b s r g, t = a ++ b → b ≠ [] → b ++ rest = s ++ r → ¬ m.head.Matches (l ++ a) s r g) :
    m.Quiet (l ++ t) rest := by
  intro a b s r g heq hb hrest hmatch
  rcases List.append_eq_append_iff.mp heq with ⟨c, rfl, htc⟩ | ⟨c, rfl, rfl⟩
  · exact ht c b s r g htc hb hrest hmatch
  · by_cases hc : c = []
    · subst hc
      exact ht [] t s r g rfl hb hrest (by simpa using hmatch)
    · exact h a c s r g rfl hc (by rw [← List.append_assoc, hrest]) hmatch

variable {ι : Type} {text : ι → Text} {taken : ι → Bool} {told : ι → List Capture → Text → Prop}

/-- What a scan makes of pieces behind a quiet text. -/
theorem exists_scans_after (hm : m.IsSimple) (hconsume : m.head.roundsConsume = true)
    (items : List ι) (hends : ∀ i ∈ items, (text i).endsInWord = false)
    (hrefuses : ∀ i ∈ items, taken i = false → m.Refuses (text i))
    (htakes : ∀ i ∈ items, taken i = true → m.Takes (text i) (told i)) {l : Text}
    (hl : l.endsInWord = false) (hquiet : m.Quiet l (items.flatMap text)) :
    ∃ units, m.Scans (l ++ items.flatMap text) units
        (l ++ (items.filter fun i => !taken i).flatMap text) ∧
      List.Forall₂ (fun i (unit : List Capture × Text) => told i unit.1 unit.2)
        (items.filter taken) units := by
  induction items generalizing l with
  | nil =>
    refine ⟨[], ?_, .nil⟩
    rw [List.filter_nil, List.flatMap_nil, List.append_nil]
    exact .stop (hquiet.find?_eq_none hm)
  | cons i items ih =>
    obtain ⟨hend, hends⟩ := List.forall_mem_cons.mp hends
    obtain ⟨hrefuse, hrefuses⟩ := List.forall_mem_cons.mp hrefuses
    obtain ⟨htake, htakes⟩ := List.forall_mem_cons.mp htakes
    rw [List.flatMap_cons] at hquiet ⊢
    cases htaken : taken i with
    | true =>
      rw [List.filter_cons_of_neg (by rw [htaken]; simp), List.filter_cons_of_pos htaken]
      obtain ⟨s, r, g, heq, hmatch⟩ := (htake htaken).exists_match l (items.flatMap text) hl
      have hne : text i ≠ [] := by
        obtain ⟨_, _, -, hwhole, -⟩ := (htake htaken).isWhole l _ s r g heq hmatch
        rw [hwhole.text]
        simp
      obtain ⟨a, b, s, r, g, ht, -, hlen, hrest, hmatch, hfind⟩ :=
        hquiet.exists_find? hconsume (a := []) rfl hne heq (by simpa using hmatch)
      obtain rfl : a = [] := List.length_eq_zero_iff.mp (Nat.le_zero.mp hlen)
      obtain rfl : text i = b := ht
      rw [List.append_nil] at hmatch hfind
      obtain ⟨s, inside, rfl, hwhole, hsaid, hyes⟩ := (htake htaken).isWhole l _ s r g hrest hmatch
      obtain ⟨units, hscan, htold⟩ := ih hends hrefuses htakes rfl (quiet_nil _)
      refine ⟨(g, inside) :: units, ?_, .cons hsaid htold⟩
      have htake := Scans.take (finds_of_isWhole hwhole hrest hmatch hfind) hyes hscan
      rw [hwhole.text]
      simpa using htake
    | false =>
      rw [List.filter_cons_of_pos (by rw [htaken]; rfl), List.filter_cons_of_neg (by rw [htaken]; simp),
        List.flatMap_cons]
      by_cases hex : ∃ a b s r g, text i = a ++ b ∧ b ≠ [] ∧ b ++ items.flatMap text = s ++ r ∧
          m.head.Matches (l ++ a) s r g
      · obtain ⟨a, b, s, r, g, ht, hb, hrest, hmatch⟩ := hex
        obtain ⟨a, b, s, r, g, ht, hb, -, hrest, hmatch, hfind⟩ :=
          hquiet.exists_find? hconsume ht hb hrest hmatch
        have hfirst : ∀ a' c s' r' g', a = a' ++ [c] → c :: (b ++ items.flatMap text) = s' ++ r' →
            ¬ m.head.Matches (l ++ a') s' r' g' := by
          rintro a' c s' r' g' rfl hrest' hmatch'
          have hle := Pattern.start_le_of_find? hconsume (l := l ++ a') (r := r') (by
            rw [List.append_assoc, ← hrest', ht]
            simp) hmatch' hfind
          have hpos := c.utf8Size_pos
          simp only [byteLength_append, byteLength_cons, byteLength_nil] at hle
          omega
        obtain ⟨s, inside, rfl, hwhole, hno⟩ :=
          hrefuse htaken l a b _ s r g ht hb hrest hmatch hfirst
        obtain ⟨units, hscan, htold⟩ := ih hends hrefuses htakes rfl (quiet_nil _)
        have hfinds := finds_of_isWhole hwhole hrest hmatch (by rw [ht] at hfind; simpa using hfind)
        refine ⟨units, ?_, htold⟩
        have hskip := Scans.skip hfinds hno hscan
        rw [ht, hwhole.text]
        simpa using hskip
      · have hquiet' : m.Quiet (l ++ text i) (items.flatMap text) :=
          hquiet.append fun a b s r g ht hb hrest hmatch =>
            hex ⟨a, b, s, r, g, ht, hb, hrest, hmatch⟩
        obtain ⟨units, hscan, htold⟩ := ih hends hrefuses htakes (l := l ++ text i)
          (by rw [endsInWord_append]; split <;> assumption) hquiet'
        exact ⟨units, by simpa using hscan, htold⟩

/-- What a scan makes of pieces. -/
theorem exists_scans (hm : m.IsSimple) (hconsume : m.head.roundsConsume = true)
    (items : List ι) (hends : ∀ i ∈ items, (text i).endsInWord = false)
    (hrefuses : ∀ i ∈ items, taken i = false → m.Refuses (text i))
    (htakes : ∀ i ∈ items, taken i = true → m.Takes (text i) (told i)) :
    ∃ units, m.Scans (items.flatMap text) units
        ((items.filter fun i => !taken i).flatMap text) ∧
      List.Forall₂ (fun i (unit : List Capture × Text) => told i unit.1 unit.2)
        (items.filter taken) units :=
  exists_scans_after hm hconsume items hends hrefuses htakes (l := []) rfl (quiet_nil _)

/-- What is taken out of a fragment whose text is put together from pieces. -/
theorem takeOut_of_pieces (hm : m.IsSimple) (hconsume : m.head.roundsConsume = true)
    (items : List ι) (hends : ∀ i ∈ items, (text i).endsInWord = false)
    (hrefuses : ∀ i ∈ items, taken i = false → m.Refuses (text i))
    (htakes : ∀ i ∈ items, taken i = true → m.Takes (text i) (told i)) {f : Fragment}
    (horder : f.cells.Pairwise Cell.Before) (htext : f.text = items.flatMap text) :
    List.Forall₂ (fun i (hit : Hit) => ∃ g inside, hit.Says m.head.groupCount g inside ∧
        told i g inside) (items.filter taken) (m.takeOut f).1 ∧
      (m.takeOut f).2.text = (items.filter fun i => !taken i).flatMap text := by
  obtain ⟨units, hscan, htold⟩ := exists_scans hm hconsume items hends hrefuses htakes
  obtain ⟨hunits, hkept⟩ := tells_takeOut hm horder (htext ▸ hscan)
  refine ⟨?_, hkept⟩
  clear hscan hkept
  generalize (m.takeOut f).1 = hits at hunits
  generalize items.filter taken = takenItems at htold
  induction hunits generalizing takenItems with
  | nil =>
    cases htold
    exact .nil
  | cons hhit _ ih =>
    cases htold with
    | cons hitem hrest => exact .cons ⟨_, _, hhit, hitem⟩ (ih _ hrest)

end BodyPattern

end HeaderSync

import HeaderSync.Proofs.Span
import HeaderSync.Proofs.Text.Numerals

/-!
# The half-open notation

A span is read from `start..stop`, the offset where it starts and the one right behind it.

* `Span.IsRange` : the texts in this notation;
* `Span.isRange_of_isSpacedNumeral` : whatever stands around the numerals, the dots between them are the
  first ones;
* `Span.read_eq` : blanks around the whole do not count, as those around its parts do not;
* `Span.read_eq_ok`, `Span.read_eq_error` : the texts that a span is read from, and what comes of others;
* `Span.read_iff_isRange`.
-/

namespace HeaderSync.Span

open Text

/-- The text writes the offsets from `start` up to `stop`, which is not one of them: a numeral before
its first `..` and one behind it, and blanks around them. -/
def IsRange (input : Text) (start stop : Nat) : Prop :=
  ∃ front back, IsFirstCut ".." input front back ∧ IsSpacedNumeral front start ∧
    IsSpacedNumeral back stop

/-- Two numerals have no dot between them but those of the notation. -/
theorem isRange_of_isSpacedNumeral {front back : Text} {start stop : Nat}
    (hfront : IsSpacedNumeral front start) (hback : IsSpacedNumeral back stop) :
    IsRange (front ++ (".." ++ back)) start stop := by
  have hdisjoint : front.Disjoint ".." := by
    intro c hc hdot
    obtain rfl : c = '.' := by simpa using hdot
    exact hfront.dot_not_mem hc
  have hcut : splitOnce? ".." (front ++ (".." ++ back)) = some (front, back) := by
    rw [splitOnce?_of_disjoint_append (by decide) hdisjoint]
    simp [splitOnce?, dropLead?]
  exact ⟨front, back, splitOnce?_eq_some.1 hcut, hfront, hback⟩

/-! ## Reading -/

/-- The span between the offsets that two numerals write. -/
def ofEnds? (ends : Text × Text) : Option Span := do
  let start ← readOffset? ends.1
  let stop ← readOffset? ends.2
  if start < stop then between? start (stop - 1) else none

variable {input : Text} {span : Span}

theorem ofEnds?_eq_some {front back : Text} :
    ofEnds? (front, back) = some span ↔
      readOffset? front = some span.first ∧ readOffset? back = some span.stop := by
  simp only [ofEnds?, Option.bind_eq_bind, Option.bind_eq_some_iff]
  constructor
  · rintro ⟨start, hstart, stop, hstop, h⟩
    split at h
    · obtain ⟨hfirst, hlast⟩ := between?_eq_some h
      have hle : span.stop = stop := by rw [Span.stop]; omega
      rw [hstart, hstop, hfirst, hle]
      exact ⟨rfl, rfl⟩
    · cases h
  · rintro ⟨hfirst, hstop⟩
    refine ⟨span.first, hfirst, span.stop, hstop, ?_⟩
    rw [if_pos span.first_lt_stop]
    exact dif_pos span.first_le_last

/-- A text is cut, and the trimmed parts are read. -/
theorem read_eq (input : Text) :
    read input = (((splitOnce? ".." input).map (Prod.map trim trim)).bind ofEnds?).elim
      (.error (.badRange input)) .ok := by
  rw [← splitOnce?_trim (by decide) (by decide), Option.bind_map, read]
  -- What is done with the parts of the cut unfolds to `ofEnds?` of the trimmed ones.
  split
  · rename_i span hspan
    have hfound : (splitOnce? ".." (trim input)).bind (ofEnds? ∘ Prod.map trim trim) = some span :=
      hspan
    rw [hfound, Option.elim_some]
  · rename_i hnone
    have hfound : (splitOnce? ".." (trim input)).bind (ofEnds? ∘ Prod.map trim trim) = none := hnone
    rw [hfound, Option.elim_none]

/-- A span is read from the texts that write its ends. -/
theorem read_eq_ok :
    read input = .ok span ↔ IsRange input span.first span.stop ∧ span.stop ≤ maxOffset := by
  have hlt := span.first_lt_stop
  have hends : ∀ front back, ofEnds? (trim front, trim back) = some span ↔
      (IsSpacedNumeral front span.first ∧ IsSpacedNumeral back span.stop) ∧
        span.stop ≤ maxOffset := by
    intro front back
    rw [ofEnds?_eq_some, readOffset?_trim_eq_some, readOffset?_trim_eq_some]
    -- What bounds the offset behind the span bounds its first one.
    constructor
    · rintro ⟨⟨hfront, -⟩, hback, hle⟩
      exact ⟨⟨hfront, hback⟩, hle⟩
    · rintro ⟨⟨hfront, hback⟩, hle⟩
      exact ⟨⟨hfront, by omega⟩, hback, hle⟩
  have helim : ∀ found : Option Span,
      found.elim (.error (.badRange input)) .ok = (.ok span : Except TextError Span) ↔
        found = some span := by
    intro found
    cases found <;> simp
  rw [read_eq, helim, Option.bind_map, Option.bind_eq_some_iff]
  constructor
  · rintro ⟨⟨front, back⟩, hcut, h⟩
    obtain ⟨hnumerals, hle⟩ := (hends front back).mp h
    exact ⟨⟨front, back, splitOnce?_eq_some.1 hcut, hnumerals⟩, hle⟩
  · rintro ⟨⟨front, back, hcut, hnumerals⟩, hle⟩
    exact ⟨(front, back), splitOnce?_eq_some.2 hcut, (hends front back).mpr ⟨hnumerals, hle⟩⟩

/-- Where no span is read, the text is given back. -/
theorem read_eq_error {e : TextError} :
    read input = .error e ↔ e = .badRange input ∧ ∀ span, ¬ read input = .ok span := by
  rw [read_eq]
  cases ((splitOnce? ".." input).map (Prod.map trim trim)).bind ofEnds? with
  | none => simp [eq_comm]
  | some span => simp

theorem exists_read_eq_ok :
    (∃ span, read input = .ok span) ↔
      ∃ start stop, IsRange input start stop ∧ start < stop ∧ stop ≤ maxOffset := by
  constructor
  · rintro ⟨span, h⟩
    obtain ⟨hrange, hle⟩ := read_eq_ok.1 h
    exact ⟨span.first, span.stop, hrange, span.first_lt_stop, hle⟩
  · rintro ⟨start, stop, hrange, hlt, hle⟩
    have hstop : stop - 1 + 1 = stop := Nat.sub_add_cancel (Nat.zero_lt_of_lt hlt)
    refine ⟨⟨start, stop - 1, by omega⟩, read_eq_ok.2 ?_⟩
    rw [Span.stop, hstop]
    exact ⟨hrange, hle⟩

/-- The plain notation of a span is read as that span. -/
theorem read_decimal (h : span.stop ≤ maxOffset) :
    read (decimal span.first ++ (".." ++ decimal span.stop)) = .ok span :=
  read_eq_ok.2 ⟨isRange_of_isSpacedNumeral (isNumeral_decimal span.first).spaced
    (isNumeral_decimal span.stop).spaced, h⟩

/-- The texts that write `start..stop`, with offsets of 64 bits in order, are read as the span from
`start` to right before `stop`. Any other text is given back with the error. So each span that ends
before the largest offset is read from its plain notation. -/
theorem read_iff_isRange :
    (∀ input span, read input = .ok span ↔ ∃ start stop, IsRange input start stop ∧ start < stop ∧
      stop < UInt64.size ∧ span.first = start ∧ span.last = stop - 1) ∧
    (∀ input e, read input = .error e ↔ e = .badRange input ∧
      ¬ ∃ start stop, IsRange input start stop ∧ start < stop ∧ stop < UInt64.size) ∧
    ∀ span : Span, span.last < UInt64.size - 1 →
      read (decimal span.first ++ (".." ++ decimal span.stop)) = .ok span := by
  have hmax (n : Nat) : n ≤ maxOffset ↔ n < UInt64.size := Nat.lt_succ_iff.symm
  refine ⟨fun input span => ?_, fun input e => ?_, fun span hlast => read_decimal ?_⟩
  · rw [read_eq_ok, hmax]
    constructor
    · rintro ⟨hrange, hlt⟩
      exact ⟨span.first, span.stop, hrange, span.first_lt_stop, hlt, rfl, rfl⟩
    · rintro ⟨start, stop, hrange, hlt, hbound, rfl, hlast⟩
      obtain rfl : span.stop = stop := by rw [Span.stop]; omega
      exact ⟨hrange, hbound⟩
  · rw [read_eq_error, ← not_exists, exists_read_eq_ok]
    simp only [hmax]
  · rw [hmax, Span.stop]
    omega

/-- A range up to the largest offset, with zeros, a sign and blanks; the same range without them; and
three dots, which leave one too many. -/
theorem read_iff_isRange_largest :
    let span : Span := ⟨7, UInt64.size - 2, by decide⟩
    read "\u3000+007 ..\t18446744073709551615\n" = .ok span ∧
      (span.last < UInt64.size - 1 ∧ read "7..18446744073709551615" = .ok span) ∧
      ¬ ∃ start stop, IsRange "1...3" start stop ∧ start < stop ∧ stop < UInt64.size := by
  intro span
  obtain ⟨hok, herror, hplain⟩ := read_iff_isRange
  have hlast : span.last < UInt64.size - 1 := by decide
  have htext : (decimal span.first ++ (".." ++ decimal span.stop) : Text) =
      "7..18446744073709551615" := by decide
  have hfront : IsSpacedNumeral "\u3000+007 " 7 :=
    ⟨"\u3000", "+007", " ", by decide, by decide, by decide,
      .signed ⟨by decide, List.all_eq_true.mp (by decide), by decide⟩⟩
  have hback : IsSpacedNumeral "\t18446744073709551615\n" (UInt64.size - 1) :=
    ⟨"\t", "18446744073709551615", "\n", by decide, by decide, by decide,
      .unsigned ⟨by decide, List.all_eq_true.mp (by decide), by decide⟩⟩
  have hrange := isRange_of_isSpacedNumeral hfront hback
  have hinput : ("\u3000+007 " ++ (".." ++ "\t18446744073709551615\n") : Text) =
      "\u3000+007 ..\t18446744073709551615\n" := by decide
  rw [hinput] at hrange
  have hbad : read "1...3" = .error (.badRange "1...3") := by decide
  exact ⟨(hok _ span).mpr ⟨7, UInt64.size - 1, hrange, by decide, by decide, rfl, rfl⟩,
    ⟨hlast, htext ▸ hplain span hlast⟩, ((herror _ _).mp hbad).2⟩

end HeaderSync.Span

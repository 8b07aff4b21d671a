import HeaderSync.Pattern.Cache
import Mathlib.Data.List.Nodup

/-!
# Runs of the cache

Whatever a cache of patterns was asked before, it answers as if it read every pattern afresh. This
holds for every notation, so the notation is a parameter here; `PatternCache.get?` is the case of the
usual one.

* `PatternCache.Call`, `PatternCache.step`, `PatternCache.run` : calls, and their answers in order;
* `PatternCache.Sound` : what the cache holds is what reading afresh gives, under different texts, and
  there is not too much of it;
* `PatternCache.Sound.step`, `PatternCache.Sound.run` : one call, and all calls of a run;
* `PatternCache.run_eq_fresh` : all runs from the empty cache.
-/

namespace HeaderSync.PatternCache

/-- What a cache can be asked for. -/
inductive Call where
  | get (written : Text)
  | clear
deriving DecidableEq, Repr

variable (read : Text → Option Pattern)

/-- What is answered if every pattern is read afresh. Clearing has no answer. -/
def Call.fresh : Call → Option (Option Pattern)
  | get written => some (read written)
  | clear => none

/-- The answer to a call, and the cache after it. -/
def step (cache : PatternCache) : Call → Option (Option Pattern) × PatternCache
  | .get written => (some (cache.getWith read written).1, (cache.getWith read written).2)
  | .clear => (none, empty)

/-- The answers to calls in order, and the cache after them. -/
def run (cache : PatternCache) : List Call → List (Option (Option Pattern)) × PatternCache
  | [] => ([], cache)
  | call :: calls =>
    let rest := run (cache.step read call).2 calls
    ((cache.step read call).1 :: rest.1, rest.2)

/-- The cache holds what reading afresh gives, each text once, and no more than it may. -/
structure Sound (cache : PatternCache) : Prop where
  read_eq : ∀ entry ∈ cache.entries, read entry.1 = some entry.2
  nodup : (cache.entries.map Prod.fst).Nodup
  size_le : cache.size ≤ capacity

variable {read} {cache : PatternCache} {written : Text}

theorem sound_empty : Sound read empty where
  read_eq := List.forall_mem_nil _
  nodup := List.nodup_nil
  size_le := Nat.zero_le _

/-- What a call can do: find the pattern, or read it and keep it, or fail to read it; before reading, a
full cache is emptied. -/
theorem getWith_cases (read : Text → Option Pattern) (cache : PatternCache) (written : Text) :
    (∃ p, (written, p) ∈ cache.entries ∧ cache.getWith read written = (some p, cache)) ∨
      written ∉ cache.entries.map Prod.fst ∧
        ∃ kept, (kept = cache ∧ cache.size < capacity ∨ kept = empty) ∧
          ((∃ p, read written = some p ∧
              cache.getWith read written = (some p, ⟨(written, p) :: kept.entries⟩)) ∨
            read written = none ∧ cache.getWith read written = (none, kept)) := by
  rw [getWith]
  cases hlookup : cache.entries.lookup written with
  | some p =>
    refine .inl ⟨p, ?_, rfl⟩
    obtain ⟨before, after, hentries, -⟩ := List.lookup_eq_some_iff.mp hlookup
    rw [hentries]
    exact List.mem_append_right _ List.mem_cons_self
  | none =>
    refine .inr ⟨?_, if capacity ≤ cache.size then empty else cache, ?_, ?_⟩
    · intro hmem
      obtain ⟨entry, hentry, rfl⟩ := List.mem_map.mp hmem
      have hne := List.lookup_eq_none_iff.mp hlookup entry hentry
      simp at hne
    · split
      · exact .inr rfl
      · exact .inl ⟨rfl, Nat.lt_of_not_le ‹_›⟩
    · cases hread : read written with
      | some p => exact .inl ⟨p, rfl, rfl⟩
      | none => exact .inr ⟨rfl, rfl⟩

/-- Keeping one more pattern that was just read. -/
theorem Sound.cons (h : Sound read cache) {p : Pattern} (hread : read written = some p)
    (hnew : written ∉ cache.entries.map Prod.fst) (hsize : cache.size < capacity) :
    Sound read ⟨(written, p) :: cache.entries⟩ where
  read_eq := List.forall_mem_cons.mpr ⟨hread, h.read_eq⟩
  nodup := List.nodup_cons.mpr ⟨hnew, h.nodup⟩
  size_le := hsize

/-- A sound cache answers as if it read the pattern afresh, and stays sound. -/
theorem Sound.getWith (h : Sound read cache) (written : Text) :
    (cache.getWith read written).1 = read written ∧
      Sound read (cache.getWith read written).2 := by
  obtain ⟨p, hmem, heq⟩ | ⟨hnew, kept, hkept, hanswer⟩ := getWith_cases read cache written
  · rw [heq]
    exact ⟨(h.read_eq _ hmem).symm, h⟩
  · -- The cache that a new pattern is added to is sound, not full, and lacks the pattern.
    obtain ⟨hsound, hlacks, hsize⟩ : Sound read kept ∧ written ∉ kept.entries.map Prod.fst ∧
        kept.size < capacity := by
      obtain ⟨rfl, hsize⟩ | rfl := hkept
      · exact ⟨h, hnew, hsize⟩
      · exact ⟨sound_empty, List.not_mem_nil, by decide⟩
    obtain ⟨p, hread, heq⟩ | ⟨hread, heq⟩ := hanswer
    · rw [heq]
      exact ⟨hread.symm, hsound.cons hread hlacks hsize⟩
    · rw [heq]
      exact ⟨hread.symm, hsound⟩

theorem Sound.step (h : Sound read cache) (call : Call) :
    (cache.step read call).1 = call.fresh read ∧ Sound read (cache.step read call).2 := by
  cases call with
  | get written =>
    obtain ⟨hanswer, hsound⟩ := h.getWith written
    exact ⟨congrArg some hanswer, hsound⟩
  | clear => exact ⟨rfl, sound_empty⟩

theorem Sound.run (h : Sound read cache) (calls : List Call) :
    (cache.run read calls).1 = calls.map (Call.fresh read) ∧
      Sound read (cache.run read calls).2 := by
  induction calls generalizing cache with
  | nil => exact ⟨rfl, h⟩
  | cons call calls ih =>
    obtain ⟨hanswer, hsound⟩ := h.step call
    obtain ⟨hanswers, hlast⟩ := ih hsound
    refine ⟨?_, hlast⟩
    rw [List.map_cons, ← hanswer, ← hanswers]
    rfl

/-- A pattern that was asked for and can be read is in the cache. -/
theorem lookup_getWith {p : Pattern} (h : (cache.getWith read written).1 = some p) :
    (cache.getWith read written).2.entries.lookup written = some p := by
  rw [PatternCache.getWith] at h ⊢
  cases hlookup : cache.entries.lookup written with
  | some q =>
    rw [hlookup] at h
    exact hlookup.trans h
  | none =>
    rw [hlookup] at h
    cases hread : read written with
    | some q =>
      rw [hread] at h
      exact List.lookup_cons_self.trans h
    | none =>
      rw [hread] at h
      cases h

/-- Every run from the empty cache is answered as if each pattern was read afresh. Afterwards the cache
holds nothing but what its texts are read into, each text once, none that cannot be read, and at most
256 of them; and it does hold a pattern that it was just asked for. With the usual notation, the next
pattern asked for is the one that the notation has for it. -/
theorem run_eq_fresh (read : Text → Option Pattern) (calls : List Call) :
    (empty.run read calls).1 = calls.map (Call.fresh read) ∧
      (∀ entry ∈ (empty.run read calls).2.entries, read entry.1 = some entry.2) ∧
      (∀ written, read written = none →
        written ∉ (empty.run read calls).2.entries.map Prod.fst) ∧
      ((empty.run read calls).2.entries.map Prod.fst).Nodup ∧
      (empty.run read calls).2.size ≤ 256 ∧
      (∀ written p, read written = some p →
        ((empty.run read calls).2.getWith read written).2.entries.lookup written = some p) ∧
      ∀ written, ((empty.run Pattern.read? calls).2.get? written).1 = Pattern.read? written := by
  obtain ⟨hanswers, hsound⟩ := (sound_empty : Sound read empty).run calls
  refine ⟨hanswers, hsound.read_eq, fun written hread hmem => ?_, hsound.nodup, hsound.size_le,
    fun written p hread => lookup_getWith ?_,
    fun written => ((sound_empty.run calls).2.getWith written).1⟩
  · obtain ⟨entry, hentry, rfl⟩ := List.mem_map.mp hmem
    rw [hsound.read_eq entry hentry] at hread
    cases hread
  · rw [(hsound.getWith written).1, hread]

end HeaderSync.PatternCache

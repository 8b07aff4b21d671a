import HeaderSync.Files.Store
import Mathlib.Data.Option.Basic
import Mathlib.Tactic.Common

/-!
# Files in memory: rewriting one file

Putting a new content into a file that is there already changes this file and nothing else.

* `FileStore.lookup_insert` : the files of the store afterwards;
* `FileStore.entry?_insert`, `FileStore.locate_insert` : what is at the end of some names, and where
  a path leads;
* `FileStore.read_insert`, `FileStore.read_insert_of_ne` : the file itself, and the others;
* `FileStore.put?_of_read` : a file that can be read can be rewritten.
-/

namespace HeaderSync.FileStore

variable {s : FileStore} {names other : List Text} {path content new : Text}

theorem lookup_cons_of_ne {key : List Text} (h : other ≠ key) (value : Text)
    (files : List (List Text × Text)) :
    ((key, value) :: files).lookup other = files.lookup other := by
  rw [List.lookup_cons, beq_eq_false_iff_ne.mpr h]

theorem lookup_filter_ne (files : List (List Text × Text)) (names other : List Text) :
    (files.filter fun file => file.1 ≠ names).lookup other =
      if other = names then none else files.lookup other := by
  induction files with
  | nil => simp
  | cons file files ih =>
    obtain ⟨key, value⟩ := file
    by_cases hkey : key = names
    · rw [List.filter_cons_of_neg (by simpa using hkey), ih, hkey]
      by_cases hother : other = names
      · rw [if_pos hother, if_pos hother]
      · rw [if_neg hother, if_neg hother, lookup_cons_of_ne hother]
    · rw [List.filter_cons_of_pos (by simpa using hkey)]
      by_cases hother : other = key
      · rw [hother, List.lookup_cons_self, List.lookup_cons_self, if_neg hkey]
      · rw [lookup_cons_of_ne hother, lookup_cons_of_ne hother, ih]

theorem lookup_insert (s : FileStore) (names : List Text) (new : Text) (other : List Text) :
    (s.insert names new).files.lookup other =
      if other = names then some new else s.files.lookup other := by
  rw [insert, List.lookup_append, lookup_filter_ne]
  by_cases hother : other = names
  · rw [if_pos hother, if_pos hother, hother, List.lookup_cons_self]
    rfl
  · rw [if_neg hother, if_neg hother, lookup_cons_of_ne hother, List.lookup_nil, Option.or_none]

/-- A file was there, so there are the same directories. -/
theorem any_isPrefixOf_insert (h : s.files.lookup names = some content) (new : Text)
    (other : List Text) :
    (s.insert names new).files.any (fun file => other.isPrefixOf file.1) =
      s.files.any fun file => other.isPrefixOf file.1 := by
  obtain ⟨before, after, hfiles, -⟩ := List.lookup_eq_some_iff.mp h
  rw [Bool.eq_iff_iff, List.any_eq_true, List.any_eq_true]
  constructor
  · rintro ⟨file, hfile, hprefix⟩
    rcases List.mem_append.mp hfile with hfile | hfile
    · exact ⟨file, (List.mem_filter.mp hfile).1, hprefix⟩
    · rw [List.mem_singleton.mp hfile] at hprefix
      exact ⟨(names, content), by simp [hfiles], hprefix⟩
  · rintro ⟨file, hfile, hprefix⟩
    by_cases hkey : file.1 = names
    · exact ⟨(names, new), by simp [insert], hkey ▸ hprefix⟩
    · have hkept : file ∈ s.files.filter fun file => file.1 ≠ names :=
        List.mem_filter.mpr ⟨hfile, by simpa using hkey⟩
      exact ⟨file, List.mem_append_left _ hkept, hprefix⟩

theorem lookup_of_entry (h : s.entry? names = some (.file content)) :
    s.files.lookup names = some content := by
  unfold entry? at h
  split at h
  · next content' hlookup =>
    cases h
    exact hlookup
  · split at h <;> cases h

theorem entry?_insert (h : s.entry? names = some (.file content)) (new : Text)
    (other : List Text) : entry? (s.insert names new) other =
      if other = names then some (.file new) else s.entry? other := by
  unfold entry?
  rw [lookup_insert, any_isPrefixOf_insert (lookup_of_entry h)]
  by_cases hother : other = names
  · simp [hother]
  · rw [if_neg hother, if_neg hother]
    rfl

theorem walk_insert (h : s.entry? names = some (.file content)) (new : Text)
    (start steps : List Text) : (s.insert names new).walk start steps = s.walk start steps := by
  induction steps generalizing start with
  | nil => rfl
  | cons step steps ih =>
    rw [walk, walk, entry?_insert h]
    by_cases hstart : start = names
    · rw [if_pos hstart, hstart, h]
    · rw [if_neg hstart, ih, ih]

theorem locate_insert (h : s.entry? names = some (.file content)) (new path : Text) :
    (s.insert names new).locate path = s.locate path :=
  walk_insert h new _ _

/-! ## Reading -/

/-- A file that can be read stands at the end of the names that its path leads to. -/
theorem read_eq_ok_iff : s.read path = .ok content ↔
    Path.isName (Path.lastSegment path) = true ∧
      ∃ names, s.locate path = .ok names ∧ s.entry? names = some (.file content) := by
  rw [read, find]
  cases hlocate : s.locate path with
  | error error => simp [bind, Except.bind]
  | ok names =>
    cases hentry : s.entry? names with
    | none => simp [bind, Except.bind, hentry]
    | some entry =>
      cases entry with
      | directory => simp [bind, Except.bind, hentry, pure, Except.pure]
      | file found =>
        cases hname : Path.isName (Path.lastSegment path) <;>
          simp [bind, Except.bind, hentry, pure, Except.pure]

theorem read_insert (hname : Path.isName (Path.lastSegment path) = true)
    (hlocate : s.locate path = .ok names) (h : s.entry? names = some (.file content)) (new : Text) :
    (s.insert names new).read path = .ok new := by
  refine read_eq_ok_iff.2 ⟨hname, names, (locate_insert h new path).trans hlocate, ?_⟩
  rw [entry?_insert h, if_pos rfl]

theorem read_insert_of_ne (h : s.entry? names = some (.file content)) (new : Text) {path : Text}
    (hne : s.locate path ≠ .ok names) : (s.insert names new).read path = s.read path := by
  rw [read, read, find, find, locate_insert h]
  cases hlocate : s.locate path with
  | error => rfl
  | ok names' =>
    have hnames : names' ≠ names := fun heq => hne (heq ▸ hlocate)
    simp only [bind, Except.bind, entry?_insert h, if_neg hnames]

theorem put?_of_read (hname : Path.isName (Path.lastSegment path) = true)
    (hlocate : s.locate path = .ok names) (h : s.entry? names = some (.file content)) (new : Text) :
    s.put? path new = some (s.insert names new) := by
  simp [put?, hname, hlocate, h, Except.toOption]

end HeaderSync.FileStore

import HeaderSync.Command.Run
import HeaderSync.Proofs.Files.Store

/-!
# Applying edits to a file

A file is rewritten as a whole, by a batch that was made for its content, or it is left alone. This
holds for every hash, so the hash is a parameter here; the program runs with
`Verification.digestOf`.

* `EditBatch.Update`, `EditBatch.update_applyToFileWith` : the five things that can become of a
  file;
* `EditBatch.Update.applied_iff` : when the edits are done, and what the file is then;
* `FileStore.runBatch`, `FileStore.exists_runBatch` : the same in a store of files, where no other
  file is touched;
* `EditBatch.applyToFile_all_or_nothing` : all files and all edits.
-/

namespace HeaderSync

open Text

/-- A text that is short enough to be kept is recognized exactly. -/
theorem Verification.eq_of_acceptsWith {hash : Text → UInt64} {original t : Text}
    (hshort : byteLength original ≤ exactLimit)
    (h : (Verification.ofTextWith hash original).acceptsWith hash t = true) : t = original := by
  rw [ofTextWith, if_neg (by omega)] at h
  exact beq_iff_eq.mp h

/-! ## One file -/

namespace EditBatch

/-- What can become of a file that a batch is applied to: a batch without edits leaves it; a file
that cannot be read, one that the batch was not made for, and one that the edits do not fit are
errors; or else the edits are done. -/
inductive Update (hash : Text → UInt64) (batch : EditBatch) :
    Option Text → Except EditError EditResult × Option Text → Prop where
  | nothing {file : Option Text} (hedits : batch.edits = []) :
    Update hash batch file (.ok .unchanged, file)
  | missing (hedits : batch.edits ≠ []) : Update hash batch none (.error .io, none)
  | stale {old : Text} (hedits : batch.edits ≠ [])
    (hexpected : batch.expected.acceptsWith hash old = false) :
    Update hash batch (some old) (.error .beforeTextMismatch, some old)
  | refused {old : Text} {error : EditError} (hedits : batch.edits ≠ [])
    (hexpected : batch.expected.acceptsWith hash old = true)
    (herror : batch.apply old = .error error) :
    Update hash batch (some old) (.error error, some old)
  | done {old new : Text} (hedits : batch.edits ≠ [])
    (hexpected : batch.expected.acceptsWith hash old = true) (hnew : batch.apply old = .ok new) :
    Update hash batch (some old) (.ok (.applied batch.edits.length), some new)

theorem update_applyToFileWith (hash : Text → UInt64) (batch : EditBatch) (file : Option Text) :
    batch.Update hash file (batch.applyToFileWith hash file) := by
  rw [applyToFileWith.eq_def]
  split
  · rename_i hedits
    exact .nothing (List.isEmpty_iff.mp hedits)
  · rename_i hedits
    have hedits : batch.edits ≠ [] := fun h => hedits (List.isEmpty_iff.mpr h)
    cases file with
    | none => exact .missing hedits
    | some old =>
      dsimp only
      cases hexpected : batch.expected.acceptsWith hash old with
      | false => exact .stale hedits hexpected
      | true =>
        cases hresult : batch.apply old with
        | error error => exact .refused hedits hexpected hresult
        | ok new => exact .done hedits hexpected hresult

namespace Update

variable {hash : Text → UInt64} {batch : EditBatch} {file : Option Text}
  {answer : Except EditError EditResult × Option Text}

/-- Only a batch that is applied writes. -/
theorem eq_of_forall_ne (h : batch.Update hash file answer)
    (hnone : ∀ n, answer.1 ≠ .ok (.applied n)) : answer.2 = file := by
  cases h with
  | nothing | missing | stale | refused => rfl
  | done => exact absurd rfl (hnone _)

theorem unchanged_iff (h : batch.Update hash file answer) :
    answer.1 = .ok .unchanged ↔ batch.edits = [] := by
  cases h with
  | nothing hedits => simp [hedits]
  | missing hedits | stale hedits | refused hedits | done hedits => simp [hedits]

theorem applied_iff (h : batch.Update hash file answer) (n : Nat) :
    answer.1 = .ok (.applied n) ↔ batch.edits ≠ [] ∧ n = batch.edits.length ∧
      ∃ old new, file = some old ∧ batch.expected.acceptsWith hash old = true ∧
        batch.apply old = .ok new ∧ answer.2 = some new := by
  cases h with
  | nothing hedits => simp [hedits]
  | missing => simp
  | stale hedits hexpected => simp [hexpected]
  | refused hedits hexpected herror => simp [herror]
  | done hedits hexpected hnew =>
    constructor
    · intro hn
      cases hn
      exact ⟨hedits, rfl, _, _, rfl, hexpected, hnew, rfl⟩
    · rintro ⟨-, rfl, -⟩
      rfl

end Update

end EditBatch

/-! ## A store of files -/

namespace FileStore

variable (hash : Text → UInt64) (batch : EditBatch) (path output : Text) (s : FileStore)

/-- The answer to applying a batch to the file at a path, with the output so far, and the files
afterwards. -/
def runBatch : (Except Failure EditResult × Text) × FileStore :=
  ((fileSystem.applyBatchWith hash path batch).run.run output).run s

/-- An action on the files comes first. -/
theorem run_action_bind {α β : Type} (action : StateM FileStore α)
    (next : α → Session (StateM FileStore) β) :
    ((FileSystem.action action >>= next).run.run output).run s =
      ((next (action.run s).1).run.run output).run (action.run s).2 :=
  rfl

theorem runBatch_eq :
    let answer := batch.applyToFileWith hash (s.read path).toOption
    s.runBatch hash batch path output =
      ((fileSystem.commit path answer).run.run output).run s := by
  have hread : ((s.read path).mapError FileError.message).toOption = (s.read path).toOption := by
    cases s.read path <;> rfl
  rw [← hread, runBatch, FileSystem.applyBatchWith, run_action_bind]
  rfl

theorem run_commit_applied {later : FileStore} {new : Text} (n : Nat)
    (hput : s.put? path new = some later) :
    ((fileSystem.commit path (.ok (.applied n), some new)).run.run output).run s =
      ((.ok (.applied n), output), later) := by
  have hwrite : (fileSystem.write path new).run s = pure (true, later) := by
    simp [fileSystem, hput]
  rw [FileSystem.commit, FileSystem.writeFile, bind_assoc, run_action_bind, hwrite]
  rfl

/-- The answer and the file are as for the file alone. No other file is touched, and none at all
unless edits were applied. -/
theorem exists_runBatch :
    let answer := batch.applyToFileWith hash (s.read path).toOption
    ∃ later, s.runBatch hash batch path output = ((answer.1.mapError (.edit path), output), later) ∧
      (later.read path).toOption = answer.2 ∧
      (∀ other, s.locate other ≠ s.locate path → later.read other = s.read other) ∧
      ((∀ n, answer.1 ≠ .ok (.applied n)) → later = s) := by
  have hupdate := batch.update_applyToFileWith hash (s.read path).toOption
  rw [runBatch_eq]
  generalize batch.applyToFileWith hash (s.read path).toOption = answer at hupdate ⊢
  generalize hfile : (s.read path).toOption = file at hupdate
  cases hupdate with
  | nothing | missing | stale | refused => exact ⟨s, rfl, hfile, fun _ _ => rfl, fun _ => rfl⟩
  | @done old new hedits hexpected hnew =>
    have hread : s.read path = .ok old := by
      cases hread : s.read path <;> simp_all [Except.toOption]
    obtain ⟨hname, names, hlocate, hentry⟩ := read_eq_ok_iff.1 hread
    refine ⟨s.insert names new, ?_, ?_, fun other hother => ?_, fun hnone => absurd rfl (hnone _)⟩
    · exact run_commit_applied path output s _ (put?_of_read hname hlocate hentry new)
    · rw [read_insert hname hlocate hentry]
      rfl
    · exact read_insert_of_ne hentry new (hlocate ▸ hother)

end FileStore

/-! ## All files and all edits -/

namespace EditBatch

/-- A file is left as it was unless edits were applied, which happens exactly if there are some, the
file holds a text that the batch was made for, and they fit it; the file then holds what they make
of it. A short text is recognized exactly. In a store of files, the file at a path is treated so,
and no other one is touched. -/
theorem applyToFile_all_or_nothing (hash : Text → UInt64) (original : Text) (edits : List Edit) :
    let batch := ofTextWith hash original edits
    (∀ file : Option Text,
      let answer := batch.applyToFileWith hash file
      (∀ error, answer.1 = .error error → answer.2 = file) ∧
      (answer.1 = .ok .unchanged → answer.2 = file) ∧
      (answer.1 = .ok .unchanged ↔ edits = []) ∧
      (∀ n, answer.1 = .ok (.applied n) ↔ edits ≠ [] ∧ n = edits.length ∧
        ∃ old new, file = some old ∧ batch.expected.acceptsWith hash old = true ∧
          batch.apply old = .ok new ∧ answer.2 = some new) ∧
      (∀ n, answer.1 = .ok (.applied n) → byteLength original ≤ 1024 → file = some original)) ∧
    ∀ (s : FileStore) (path output : Text),
      let answer := batch.applyToFileWith hash (s.read path).toOption
      ∃ later, s.runBatch hash batch path output =
          ((answer.1.mapError (.edit path), output), later) ∧
        (later.read path).toOption = answer.2 ∧
        (∀ other, s.locate other ≠ s.locate path → later.read other = s.read other) ∧
        ((∀ n, answer.1 ≠ .ok (.applied n)) → later = s) := by
  intro batch
  refine ⟨fun file => ?_, fun s path output => s.exists_runBatch hash batch path output⟩
  have hupdate := batch.update_applyToFileWith hash file
  refine ⟨fun error herror => ?_, fun hunchanged => ?_, hupdate.unchanged_iff, hupdate.applied_iff,
    fun n hn hshort => ?_⟩
  · exact hupdate.eq_of_forall_ne fun n => by simp [herror]
  · exact hupdate.eq_of_forall_ne fun n => by simp [hunchanged]
  · obtain ⟨-, -, old, -, hfile, hexpected, -⟩ := (hupdate.applied_iff n).mp hn
    rw [hfile, Verification.eq_of_acceptsWith hshort hexpected]

end EditBatch

end HeaderSync

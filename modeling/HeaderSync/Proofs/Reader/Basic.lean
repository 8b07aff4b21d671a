import HeaderSync.Reader.Header
import HeaderSync.Reader.Source
import Mathlib.Tactic.Common

/-!
# Results of reading

* `bind_eq_ok`, `exists_mapM`, `exists_of_mem_mapM`, `exists_ok_of_mapM` : how a reader that was put
  together succeeds;
* `bind_eq_error`, `exists_of_mapM_error` : how it fails;
* `exists_read`, `exists_read_both` : what documents are read into, if they are read at all;
* `isRoot_of_readHeader`, `isRoot_of_readSource` : a whole document has no name;
* `exists_readSource` : every source is read.
-/

namespace HeaderSync

namespace Reader

theorem bind_eq_ok {ε α β : Type} {x : Except ε α} {f : α → Except ε β} {b : β} :
    x >>= f = .ok b ↔ ∃ a, x = .ok a ∧ f a = .ok b := by
  cases x with
  | error e => simp [bind, Except.bind]
  | ok a => simp [bind, Except.bind]

theorem bind_eq_error {ε α β : Type} {x : Except ε α} {f : α → Except ε β} {e : ε} :
    x >>= f = .error e ↔ x = .error e ∨ ∃ a, x = .ok a ∧ f a = .error e := by
  cases x with
  | error e' => simp [bind, Except.bind]
  | ok a => simp [bind, Except.bind]

theorem exists_mapM {ε α β : Type} {f : α → Except ε β} (h : ∀ x, ∃ y, f x = .ok y)
    (xs : List α) : ∃ ys, xs.mapM f = .ok ys := by
  induction xs with
  | nil => exact ⟨[], rfl⟩
  | cons x xs ih =>
    obtain ⟨y, hy⟩ := h x
    obtain ⟨ys, hys⟩ := ih
    refine ⟨y :: ys, ?_⟩
    rw [List.mapM_cons, hy, hys]
    rfl

theorem exists_of_mem_mapM {ε α β : Type} {f : α → Except ε β} {xs : List α} {ys : List β}
    (h : xs.mapM f = .ok ys) {y : β} (hy : y ∈ ys) : ∃ x ∈ xs, f x = .ok y := by
  induction xs generalizing ys with
  | nil =>
    obtain rfl := Except.ok.inj h
    cases hy
  | cons x xs ih =>
    rw [List.mapM_cons] at h
    obtain ⟨first, hfirst, h⟩ := bind_eq_ok.1 h
    obtain ⟨rest, hrest, h⟩ := bind_eq_ok.1 h
    obtain rfl := Except.ok.inj h
    rcases List.mem_cons.mp hy with rfl | hy
    · exact ⟨x, List.mem_cons_self, hfirst⟩
    · obtain ⟨x', hx', hread⟩ := ih hrest hy
      exact ⟨x', List.mem_cons_of_mem x hx', hread⟩

theorem exists_ok_of_mapM {ε α β : Type} {f : α → Except ε β} {xs : List α} {ys : List β}
    (h : xs.mapM f = .ok ys) {x : α} (hx : x ∈ xs) : ∃ y, f x = .ok y := by
  induction xs generalizing ys with
  | nil => cases hx
  | cons first xs ih =>
    rw [List.mapM_cons] at h
    obtain ⟨y, hfirst, h⟩ := bind_eq_ok.1 h
    obtain ⟨rest, hrest, -⟩ := bind_eq_ok.1 h
    rcases List.mem_cons.mp hx with rfl | hx
    · exact ⟨y, hfirst⟩
    · exact ih hrest hx

theorem exists_of_mapM_error {ε α β : Type} {f : α → Except ε β} {xs : List α} {e : ε}
    (h : xs.mapM f = .error e) : ∃ x ∈ xs, f x = .error e := by
  induction xs with
  | nil => cases h
  | cons x xs ih =>
    rw [List.mapM_cons] at h
    rcases bind_eq_error.1 h with hx | ⟨_, -, h⟩
    · exact ⟨x, List.mem_cons_self, hx⟩
    · rcases bind_eq_error.1 h with hxs | ⟨_, -, h⟩
      · obtain ⟨y, hy, hread⟩ := ih hxs
        exact ⟨y, List.mem_cons_of_mem x hy, hread⟩
      · cases h

theorem exists_read {x : Except ParseError Namespace} {p : Namespace → Bool}
    (h : x.toOption.any p = true) : ∃ n, x = .ok n ∧ p n = true := by
  cases x with
  | error e => simp [Except.toOption] at h
  | ok n => exact ⟨n, rfl, by simpa [Except.toOption] using h⟩

theorem exists_read_both {x y : Except ParseError Namespace} {p : Namespace → Namespace → Bool}
    (h : x.toOption.any (fun m => y.toOption.any (p m)) = true) :
    ∃ m n, x = .ok m ∧ y = .ok n ∧ p m n = true := by
  obtain ⟨m, hm, h⟩ := exists_read h
  obtain ⟨n, hn, h⟩ := exists_read h
  exact ⟨m, n, hm, hn, h⟩

/-- The error of a reader that failed. -/
def failure? {α : Type} : Except ParseError α → Option ParseError
  | .error e => some e
  | .ok _ => none

theorem eq_error_of_failure? {α : Type} {x : Except ParseError α} {e : ParseError}
    (h : failure? x = some e) : x = .error e := by
  cases x with
  | error e' => exact congrArg Except.error (Option.some.inj h)
  | ok a => cases h

/-- A namespace is put together from the nested ones and the members found in it. -/
theorem exists_assemble_of_readBody {read : MemberReader} {document name : Text} {fuel : Nat}
    {span : Span} {body : Option Span} {content : Fragment} {n : Namespace}
    (h : readBody read document fuel name span body content = .ok n) :
    ∃ nested members, n = assemble document name span body nested members := by
  cases fuel with
  | zero => exact ⟨[], ([], []), (Except.ok.inj h).symm⟩
  | succ fuel =>
    rw [readBody] at h
    obtain ⟨nested, -, h⟩ := bind_eq_ok.1 h
    obtain ⟨members, -, h⟩ := bind_eq_ok.1 h
    exact ⟨nested, members, (Except.ok.inj h).symm⟩

/-- A namespace has the name and the span that its body was read with. -/
theorem name_span_of_readBody {read : MemberReader} {document name : Text} {fuel : Nat} {span : Span}
    {body : Option Span} {content : Fragment} {n : Namespace}
    (h : readBody read document fuel name span body content = .ok n) :
    n.name = name ∧ n.span = span := by
  obtain ⟨_, _, rfl⟩ := exists_assemble_of_readBody h
  exact ⟨rfl, rfl⟩

theorem exists_readBody {read : MemberReader} (hread : ∀ f, ∃ members, read f = .ok members)
    (document : Text) (fuel : Nat) (name : Text) (span : Span) (body : Option Span)
    (content : Fragment) : ∃ n, readBody read document fuel name span body content = .ok n := by
  induction fuel generalizing name span body content with
  | zero => exact ⟨_, rfl⟩
  | succ fuel ih =>
    have hnested := exists_mapM fun hit : Hit =>
      ih (Text.trim (hit.group 1)) hit.span ((hit.group? 2).map Group.span) (hit.groupFragment 2)
    rw [readBody]
    dsimp only
    obtain ⟨nested, hnested⟩ := hnested (BodyPattern.takeOut _ _).1
    obtain ⟨members, hmembers⟩ := hread _
    exact ⟨_, bind_eq_ok.2 ⟨nested, hnested, bind_eq_ok.2 ⟨members, hmembers, rfl⟩⟩⟩

theorem isRoot_of_readDocument {read : MemberReader} {document : Text} {n : Namespace}
    (h : readDocument read document = .ok n) : n.isRoot = true := by
  rw [Namespace.isRoot, (name_span_of_readBody h).1]
  rfl

end Reader

theorem isRoot_of_readHeader {document : Text} {n : Namespace} (h : readHeader document = .ok n) :
    n.isRoot = true :=
  Reader.isRoot_of_readDocument h

theorem isRoot_of_readSource {document : Text} {n : Namespace} (h : readSource document = .ok n) :
    n.isRoot = true :=
  Reader.isRoot_of_readDocument h

/-- Every source is read. -/
theorem exists_readSource (document : Text) : ∃ n, readSource document = .ok n :=
  Reader.exists_readBody (fun _ => ⟨_, rfl⟩) ..

end HeaderSync

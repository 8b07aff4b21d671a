import HeaderSync.Text.Basic

/-!
# Paths

A path is a text whose names are divided by slashes. Slashes at the end, and names `.` after the
first one, do not count.

* `Path.parent?`: the path of the directory around it.
* `Path.fileName?`: its last name.
* `Path.ancestors`: the path itself, its parent, the parent of that, and so on.
-/

namespace HeaderSync.Path

open Text

/-- A path, given backwards, without slashes and names `.` at its end. The root stays. -/
def trimBackwards : Text → Text
  | '/' :: c :: t => trimBackwards (c :: t)
  | '.' :: '/' :: t => trimBackwards ('/' :: t)
  | t => t

theorem length_trimBackwards (t : Text) : (trimBackwards t).length ≤ t.length := by
  fun_induction trimBackwards t with
  | case1 c t ih => simp only [List.length_cons] at ih ⊢; omega
  | case2 t ih => simp only [List.length_cons] at ih ⊢; omega
  | case3 => exact Nat.le_refl _

/-- The parent of a path, both given backwards. -/
def parentBackwards? (p : Text) : Option Text :=
  match trimBackwards p with
  | [] => none
  | c :: t => if c = '/' then none else some (trimBackwards (t.dropWhile (· != '/')))

theorem length_of_parentBackwards? {p q : Text} (h : parentBackwards? p = some q) :
    q.length < p.length := by
  unfold parentBackwards? at h
  have hp := length_trimBackwards p
  split at h
  · cases h
  · next c t heq =>
    split at h
    · cases h
    · cases h
      rw [heq, List.length_cons] at hp
      have := length_trimBackwards (t.dropWhile (· != '/'))
      have := (List.dropWhile_sublist (l := t) (· != '/')).length_le
      omega

/-- The path of the directory around a path: empty for a single name, none for the root and for an
empty path. -/
def parent? (p : Text) : Option Text :=
  (parentBackwards? p.reverse).map List.reverse

/-- The text is the name of something in a directory: it is not empty, `.` or `..`. -/
def isName (t : Text) : Bool :=
  t ∉ [[], ['.'], ['.', '.']]

/-- What stands after the last slash. -/
def lastSegment (p : Text) : Text :=
  (p.reverse.takeWhile (· != '/')).reverse

/-- The last name of a path, if there is one. -/
def fileName? (p : Text) : Option Text :=
  let name := lastSegment (trimBackwards p.reverse).reverse
  if isName name then some name else none

def ancestorsBackwards (p : Text) : List Text :=
  match _h : parentBackwards? p with
  | none => [p]
  | some q => p :: ancestorsBackwards q
termination_by p.length
decreasing_by exact length_of_parentBackwards? _h

/-- The path, its parent, the parent of that, and so on. -/
def ancestors (p : Text) : List Text :=
  (ancestorsBackwards p.reverse).map List.reverse

/-- The path of `name` in the directory `dir`. -/
def join (dir name : Text) : Text :=
  if dir.isEmpty || dir.getLast? == some '/' then dir ++ name else dir ++ "/" ++ name

/-- The steps of a path: names, and `..` for the way up. -/
def steps (p : Text) : List Text :=
  (splitOn "/" p).filter fun name => name ≠ [] && name ≠ ['.']

/-- The path starts at the root. -/
def isAbsolute (p : Text) : Bool :=
  p.head? == some '/'

end HeaderSync.Path

import HeaderSync.Files.Basic
import HeaderSync.Files.Path

/-!
# Files in memory

A `FileStore` holds files by the names on the way from the root to them. A directory is there as
long as something is in it; the root and the working directory always are.

* `FileStore.find`: what is at a path.
* `FileStore.put?`: the store with a file at a path.
* `FileStore.fileSystem`: the actions of a program on a store.
-/

namespace HeaderSync

structure FileStore where
  /-- The name of the working directory, which lies in the root. A path that starts with it starts
  at the root. -/
  home : Text
  /-- The files by the names on the way to them, the home being the first for those below it. -/
  files : List (List Text × Text)
deriving DecidableEq, Repr

/-- What is at a place. -/
inductive FileEntry where
  | file (content : Text)
  | directory
deriving DecidableEq, Repr

namespace FileStore

/-- The files of a working directory, given by their paths in it. -/
def ofFiles (home : Text) (files : List (Text × Text)) : FileStore :=
  ⟨home, files.map fun (path, content) => (home :: Path.steps path, content)⟩

/-- The files of the working directory by their paths in it. -/
def homeFiles (s : FileStore) : List (Text × Text) :=
  s.files.filterMap fun (names, content) =>
    match names with
    | [] => none
    | top :: names => if top = s.home then some (Text.joinWith "/" names, content) else none

/-- What is at the end of these names. -/
def entry? (s : FileStore) (names : List Text) : Option FileEntry :=
  match s.files.lookup names with
  | some content => some (.file content)
  | none =>
    if names = [] || names = [s.home] || s.files.any (fun file => names.isPrefixOf file.1) then
      some .directory
    else none

/-- Walks the steps from a directory; every place but the last has to be a directory. -/
def walk (s : FileStore) : (names steps : List Text) → Except FileError (List Text)
  | names, [] => .ok names
  | names, step :: steps =>
    match s.entry? names with
    | none => .error .notFound
    | some (.file _) => .error .notDirectory
    | some .directory =>
      if step = ['.', '.'] then s.walk names.dropLast steps else s.walk (names ++ [step]) steps

/-- The names on the way to a path. -/
def locate (s : FileStore) (path : Text) : Except FileError (List Text) :=
  let steps := Path.steps path
  let fromRoot := Path.isAbsolute path || steps.head? == some s.home
  s.walk (if fromRoot then [] else [s.home]) steps

/-- What is at a path. A path that ends in a slash is one of a directory. -/
def find (s : FileStore) (path : Text) : Except FileError FileEntry := do
  let names ← s.locate path
  match s.entry? names with
  | none => .error .notFound
  | some (.file content) =>
    if Path.isName (Path.lastSegment path) then return .file content else .error .notDirectory
  | some .directory => return .directory

def read (s : FileStore) (path : Text) : Except FileError Text := do
  match ← s.find path with
  | .file content => return content
  | .directory => .error .isDirectory

/-- The store with this file; one that was there before is replaced. -/
def insert (s : FileStore) (names : List Text) (content : Text) : FileStore :=
  { s with files := s.files.filter (fun file => file.1 ≠ names) ++ [(names, content)] }

/-- The store with a file at the path, if it can be put there: the directory around it has to exist,
and there must be no directory in its place. -/
def put? (s : FileStore) (path content : Text) : Option FileStore := do
  guard (Path.isName (Path.lastSegment path))
  let names ← (s.locate path).toOption
  guard (s.entry? names != some .directory)
  return s.insert names content

/-- The actions of a program on the store. -/
def fileSystem : FileSystem (StateM FileStore) where
  workingDirectory := return (← get).home
  isFile path := return (← get).read path |>.isOk
  read path := return (← get).read path |>.mapError FileError.message
  write path content := do
    match (← get).put? path content with
    | some s => set s; return true
    | none => return false

end FileStore

end HeaderSync

import HeaderSync.Text.Basic

/-!
# File systems

The program reaches files only through a `FileSystem`, a record of four actions in some monad. It
can so be run over real files and over files in memory (`FileStore`).
-/

namespace HeaderSync

/-- Why a file cannot be read. -/
inductive FileError where
  | notFound
  | notDirectory
  | isDirectory
deriving DecidableEq, Repr

def FileError.message : FileError → Text
  | notFound => "No such file or directory (os error 2)"
  | notDirectory => "Not a directory (os error 20)"
  | isDirectory => "Is a directory (os error 21)"

structure FileSystem (m : Type → Type) where
  /-- The path of the directory that relative paths start from. -/
  workingDirectory : m Text
  /-- A file, and no directory, is at the path. -/
  isFile : (path : Text) → m Bool
  /-- The content of a file, or why it cannot be read. -/
  read : (path : Text) → m (Except Text Text)
  /-- Puts a file in place, whole or not at all; tells whether it could. -/
  write : (path content : Text) → m Bool

end HeaderSync

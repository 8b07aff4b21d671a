import HeaderSync.Command.Basic
import HeaderSync.Files.Basic
import HeaderSync.Files.Path
import HeaderSync.LineDiff
import HeaderSync.Merge.Completion
import HeaderSync.Merge.Header
import HeaderSync.Settings
import HeaderSync.Tree.Naming

/-!
# Running commands

`runArguments` does what a command line asks for, over any `FileSystem`, and answers with an
`Outcome`: an exit code, what was printed, and the report of a failure.

What was printed before a failure stays printed, so a command is a `Session`: a failure ends it, and
the output outlives the failure.
-/

namespace HeaderSync

open Text

/-! ## Failures -/

/-- Why a command was given up. -/
inductive Failure where
  | unreadable (path reason : Text)
  | unparsable (path : Text) (error : ParseError)
  | settingsUnreadable (path reason : Text)
  | badSettings (path : Text) (error : SettingsError)
  | edit (path : Text) (error : EditError)
deriving DecidableEq, Repr

namespace Failure

def message : Failure → Text
  | unreadable path _ => "failed to read " ++ path
  | unparsable path _ => "failed to parse " ++ path
  | settingsUnreadable path reason => "cannot read " ++ path ++ ": " ++ reason
  | badSettings path error => error.message path
  | edit path error => error.message path

/-- What is behind the failure, if that is known. -/
def cause? : Failure → Option Text
  | unreadable _ reason => some reason
  | unparsable _ error => some error.message
  | settingsUnreadable _ reason => some reason
  | badSettings _ (.unusable issues) => some (joinWith "\n" (issues.map SettingsIssue.message))
  | badSettings _ .notToml => none
  | edit _ _ => none

/-- Each line four spaces to the right. -/
def indented (t : Text) : Text :=
  joinWith "\n" ((splitOn "\n" t).map ("    " ++ ·))

/-- The part of a report that gives the cause. -/
def causeText : Option Text → Text
  | none => []
  | some cause => "\n\nCaused by:\n" ++ indented cause

/-- The whole report. -/
def report (f : Failure) : Text :=
  "Error: " ++ f.message ++ causeText f.cause?

end Failure

/-! ## Sessions -/

/-- A step of a command: it prints, and may fail. -/
abbrev Session (m : Type → Type) := ExceptT Failure (StateT Text m)

variable {m : Type → Type} [Monad m]

namespace Session

def print (t : Text) : Session m Unit :=
  modify (· ++ t)

def printLine (t : Text) : Session m Unit :=
  print (t ++ "\n")

/-- Goes on with a result, or gives up with the failure made of the error. -/
def orFail {ε α : Type} (failure : ε → Failure) : Except ε α → Session m α
  | .ok a => pure a
  | .error e => throw (failure e)

end Session

open Session

/-- The name of the file of settings that is looked for. -/
def settingsFileName : Text := "codegen-cpp.toml"

namespace FileSystem

def action {α : Type} (a : m α) : Session m α :=
  liftM a

def readFile (fs : FileSystem m) (path : Text) : Session m Text := do
  orFail (.unreadable path) (← action (fs.read path))

/-- The tree of a header, with the names that a mode needs. -/
def readTree (fs : FileSystem m) (settings : Settings) (mode : Mode) (path : Text) :
    Session m Namespace := do
  let root ← orFail (.unparsable path) (readHeader (← fs.readFile path))
  return root.provideNames settings.names.provider [mode]

/-- Puts a file in place. -/
def writeFile (fs : FileSystem m) (path content : Text) : Session m Unit := do
  if !(← action (fs.write path content)) then throw (.edit path .io)

/-! ## Settings -/

def loadSettings (fs : FileSystem m) (path : Text) : Session m Settings := do
  let t ← orFail (.settingsUnreadable path) (← action (fs.read path))
  orFail (.badSettings path) (Settings.read t)

/-- The first of the paths with a file. -/
def firstFile (fs : FileSystem m) : List Text → Session m (Option Text)
  | [] => return none
  | path :: paths => do
    if ← action (fs.isFile path) then return some path else fs.firstFile paths

/-- The directory around a file. -/
def directoryOf (fs : FileSystem m) (file : Text) : Session m Text :=
  match Path.parent? file with
  | some (c :: dir) => return c :: dir
  | _ => action fs.workingDirectory

/-- The settings of the given file; without one, of the nearest file of settings in the directory
around `file` or above it, and the default ones if there is none. -/
def settingsFor (fs : FileSystem m) (config : Option Text) (file : Text) : Session m Settings := do
  match config with
  | some path => fs.loadSettings path
  | none =>
    let candidates := (Path.ancestors (← fs.directoryOf file)).map (Path.join · settingsFileName)
    match ← fs.firstFile candidates with
    | some path => fs.loadSettings path
    | none => return Settings.default

end FileSystem

/-! ## Commands -/

/-- The last name of a path, or the path itself if it has none. -/
def displayName (path : Text) : Text :=
  (Path.fileName? path).getD path

/-- The line and the column of a byte offset, both from 1 on; columns count bytes. -/
def lineAndColumn (t : Text) (position : Nat) : Nat × Nat :=
  let before := (takeBytes? t (min position (byteLength t))).getD []
  (before.count '\n' + 1, byteLength (lastLine before) + 1)

/-- The line that announces an edit. -/
def editLine (file content : Text) (edit : Edit) : Text :=
  let (line, column) := lineAndColumn content edit.position
  (if edit.isInsert then ['+'] else ['-']) ++ " " ++ edit.label ++ " (" ++ file ++ ":" ++
    decimal line ++ ":" ++ decimal column ++ ")"

/-- Both versions of a file under the heading of a difference. -/
def diffText (file old new : Text) : Text :=
  "\n--- " ++ file ++ " (original)\n+++ " ++ file ++ " (synced)\n" ++ lineDiff old new

namespace FileSystem

def runOutline (fs : FileSystem m) (file : Text) (asSource : Bool) : Session m Unit := do
  let t ← fs.readFile file
  let root ← orFail (.unparsable file) (if asSource then readSource t else readHeader t)
  printLine root.outline.render

def runGenerate (fs : FileSystem m) (config : Option Text) (header : Text) (mode : Mode)
    (output : Option Text) (range : Option Span) : Session m Unit := do
  let settings ← fs.settingsFor config header
  let root ← fs.readTree settings mode header
  let generated := renderFile root { settings.renderOptions mode with range }
    (settings.preamble mode (some (displayName header)))
  match output with
  | none => print generated
  | some path =>
    fs.writeFile path generated
    printLine ("✓ Wrote " ++ path)

/-- Acts on what applying a batch to a file came to: an error ends the session, and a file with
edits applied is written. -/
def commit (fs : FileSystem m) (file : Text) :
    Except EditError EditResult × Option Text → Session m EditResult
  | (.error error, _) => throw (.edit file error)
  | (.ok (.applied n), some updated) => do
    fs.writeFile file updated
    return .applied n
  | (.ok result, _) => return result

/-- Applies a batch to a file that is read again for it. Digests are made with `hash`. -/
def applyBatchWith (hash : Text → UInt64) (fs : FileSystem m) (file : Text) (batch : EditBatch) :
    Session m EditResult := do
  let content ← action (fs.read file)
  fs.commit file (batch.applyToFileWith hash content.toOption)

/-- Applies a batch to a file that is read again for it. -/
def applyBatch (fs : FileSystem m) (file : Text) (batch : EditBatch) : Session m EditResult :=
  fs.applyBatchWith Verification.digestOf file batch

/-- Announces the edits of a file, shows and applies them as the flags want. -/
def finishSync (fs : FileSystem m) (file content : Text) (edits : List Edit) (flags : SyncFlags) :
    Session m Unit := do
  if edits.isEmpty then printLine ("✓ " ++ file ++ " is up to date")
  else
    print (edits.flatMap fun edit => editLine file content edit ++ "\n")
    let batch := EditBatch.ofText content edits
    if flags.diff then
      print (diffText file content (← orFail (.edit file) (batch.apply content)))
    if flags.apply then
      match ← fs.applyBatch file batch with
      | .applied n => printLine ("✓ Applied " ++ decimal n ++ " edit(s) to " ++ file)
      | .unchanged => printLine ("⊘ " ++ file ++ " unchanged")
    else printLine "[DRY RUN - pass --apply to write the changes]"

def runSync (fs : FileSystem m) (config : Option Text) (target : SyncTarget) (wanted file : Text)
    (mode : Mode) (flags : SyncFlags) : Session m Unit := do
  let settings ← fs.settingsFor config file
  let generated ← fs.readTree settings mode wanted
  let content ← fs.readFile file
  let options := settings.mergeOptions mode file
  let options := { options with
    range := flags.range, removeUnmatched := options.removeUnmatched && !flags.keepUnmatched }
  let edits ← orFail (.unparsable file)
    (match target with
    | .source => mergeSource generated options content
    | .header => mergeHeader generated options content)
  fs.finishSync file content edits flags

def runComplete (fs : FileSystem m) (config : Option Text) (header source : Text) (offset : Nat)
    (mode : Mode) : Session m Unit := do
  let settings ← fs.settingsFor config source
  let generated ← fs.readTree settings mode header
  let content ← fs.readFile source
  let options := settings.mergeOptions mode (displayName source)
  let completions ← orFail (.unparsable source) (completionsAt generated options content offset)
  printLine (Json.array (completions.map Completion.outline)).render

def runCommand (fs : FileSystem m) (config : Option Text) : Command → Session m Unit
  | .outline file asSource => fs.runOutline file asSource
  | .generate header mode output range => fs.runGenerate config header mode output range
  | .sync target wanted file mode flags => fs.runSync config target wanted file mode flags
  | .complete header source offset mode => fs.runComplete config header source offset mode

end FileSystem

/-! ## Outcomes -/

structure Outcome where
  /-- Success is 0, a failure 1, and a command line that asks for nothing 2. -/
  code : Nat
  output : Text
  error : Option Text
deriving DecidableEq, Repr

namespace Outcome

def ofSession : Except Failure Unit × Text → Outcome
  | (.ok (), output) => ⟨0, output, none⟩
  | (.error failure, output) => ⟨1, output, some failure.report⟩

/-- The answer to a command line that cannot be read. -/
def misuse : Outcome := ⟨2, [], none⟩

end Outcome

/-- The name and number of this version. -/
def versionText : Text := "codegen-cpp 0.1.0\n"

/-- Does what the words of a command line ask for. -/
def runArguments (fs : FileSystem m) (words : List Text) : m Outcome :=
  match Request.read? words with
  | none => return Outcome.misuse
  | some .version => return ⟨0, versionText, none⟩
  | some (.run config command) => Outcome.ofSession <$> (fs.runCommand config command).run.run []

end HeaderSync

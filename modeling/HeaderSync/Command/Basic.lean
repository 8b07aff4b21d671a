import HeaderSync.Command.Options
import HeaderSync.Mode

/-!
# Commands

What the program can be asked for, and how it is asked on a command line.

* `Command`: the work to do.
* `Request.read?`: what the words of a command line ask for; none if they ask for nothing.
-/

namespace HeaderSync

structure SyncFlags where
  /-- Write the changes to the file. -/
  apply : Bool
  /-- Show the lines of both versions. -/
  diff : Bool
  /-- Never delete. -/
  keepUnmatched : Bool
  /-- Only what overlaps this span of the wanted header. -/
  range : Option Span
deriving DecidableEq, Repr

/-- What kind of file is brought in line with a header. -/
inductive SyncTarget where
  | header
  | source
deriving DecidableEq, Repr

namespace SyncTarget

/-- The modes whose form can be merged into such a file. -/
def admits : SyncTarget → Mode → Bool
  | source, mode => mode.isSource
  | header, mode => !mode.isSource && mode ≠ .factoryHeader

def defaultMode : SyncTarget → Mode
  | source => .source
  | header => .header

end SyncTarget

inductive Command where
  /-- Show the structure of a file. -/
  | outline (file : Text) (asSource : Bool)
  /-- Write out a header in a mode, to a file or to the output. -/
  | generate (header : Text) (mode : Mode) (output : Option Text) (range : Option Span)
  /-- Bring `file` in line with the header `wanted`. -/
  | sync (target : SyncTarget) (wanted file : Text) (mode : Mode) (flags : SyncFlags)
  /-- List what the header adds at an offset of the source. -/
  | complete (header source : Text) (offset : Nat) (mode : Mode)
deriving DecidableEq, Repr

/-! ## On the command line -/

inductive CommandName where
  | outline
  | generate
  | sync
  | syncHeader
  | complete
deriving DecidableEq, Repr

namespace CommandName

def all : List CommandName :=
  [outline, generate, sync, syncHeader, complete]

def word : CommandName → Text
  | outline => "outline"
  | generate => "generate"
  | sync => "sync"
  | syncHeader => "sync-header"
  | complete => "complete"

def read? (t : Text) : Option CommandName :=
  all.find? fun name => name.word == t

end CommandName

namespace OptionRule

def config : OptionRule := ⟨"config", some 'c', .value⟩

def verbose : OptionRule := ⟨"verbose", some 'v', .repeated⟩

def version : OptionRule := ⟨"version", some 'V', .final⟩

def mode : OptionRule := ⟨"mode", some 'm', .value⟩

/-- An option with a value and no letter. -/
def valued (long : Text) : OptionRule := ⟨long, none, .value⟩

/-- Options of all commands. -/
def everywhere : List OptionRule := [config, verbose]

/-- Options of the commands that change a file. -/
def syncing : List OptionRule :=
  [mode, ⟨"apply", some 'a', .flag⟩, ⟨"diff", some 'd', .flag⟩, ⟨"keep-unmatched", none, .flag⟩,
    valued "range"]

end OptionRule

open OptionRule in
/-- The options of a command. -/
def CommandName.rules : CommandName → List OptionRule
  | outline => ⟨"source", none, .flag⟩ :: everywhere
  | generate => mode :: ⟨"output", some 'o', .value⟩ :: valued "range" :: everywhere
  | sync => valued "header" :: valued "source" :: syncing ++ everywhere
  | syncHeader => valued "from" :: valued "into" :: syncing ++ everywhere
  | complete => valued "header" :: valued "source" :: valued "at" :: mode :: everywhere

namespace OptionReader

/-- The mode that was asked for, if it is one of those allowed; the default if none was. -/
def mode? (r : OptionReader) (default : Mode) (allowed : Mode → Bool) : Option Mode :=
  match r.value? "mode" with
  | none => some default
  | some label => (Mode.read? label).filter allowed

/-- The range that was asked for, if any; none at all if it cannot be read. -/
def range? (r : OptionReader) : Option (Option Span) :=
  match r.value? "range" with
  | none => some none
  | some t => (Span.read t).toOption.map some

def syncFlags? (r : OptionReader) : Option SyncFlags := do
  return {
    apply := r.has "apply"
    diff := r.has "diff"
    keepUnmatched := r.has "keep-unmatched"
    range := ← r.range? }

/-- The command with the options and operands that were given. -/
def command? (r : OptionReader) : (name : CommandName) → (operands : List Text) → Option Command
  | .outline, [file] => some (.outline file (r.has "source"))
  | .generate, [header] => do
    return .generate header (← r.mode? .source fun _ => true) (r.value? "output") (← r.range?)
  | .sync, [] => do
    return .sync .source (← r.value? "header") (← r.value? "source")
      (← r.mode? SyncTarget.source.defaultMode SyncTarget.source.admits) (← r.syncFlags?)
  | .syncHeader, [] => do
    return .sync .header (← r.value? "from") (← r.value? "into")
      (← r.mode? SyncTarget.header.defaultMode SyncTarget.header.admits) (← r.syncFlags?)
  | .complete, [] => do
    return .complete (← r.value? "header") (← r.value? "source")
      (← Text.readOffset? (← r.value? "at"))
      (← r.mode? SyncTarget.source.defaultMode SyncTarget.source.admits)
  | _, _ => none

end OptionReader

/-- What a command line asks for. -/
inductive Request where
  | version
  /-- A command, with the settings of this file if one is given. -/
  | run (config : Option Text) (command : Command)
deriving DecidableEq, Repr

namespace Request

/-- The words after the name of a command; `operands` are those read so far, last first. Options
that were given before the name stand for those that are not given after it. -/
def readCommand? (config : Option Text) (name : CommandName) (r : OptionReader)
    (operands : List Text) : (words : List Text) → Option Request
  | [] =>
    if r.waiting.isSome || operands.contains [] then none
    else (r.command? name operands.reverse).map (run (r.value? "config" <|> config))
  | word :: words => do
    match ← r.feed word with
    | .option r => readCommand? config name r operands words
    | .operand => readCommand? config name r (word :: operands) words
    | .final _ => none

/-- The words from the first on: options of all commands, then the name of one. -/
def readFrom? (r : OptionReader) : (words : List Text) → Option Request
  | [] => none
  | word :: words => do
    match ← r.feed word with
    | .option r => readFrom? r words
    | .final _ => some version
    | .operand =>
      if r.operandsOnly then none
      else
        let name ← CommandName.read? word
        readCommand? (r.value? "config") name (.start name.rules) [] words

def read? (words : List Text) : Option Request :=
  readFrom? (.start (OptionRule.version :: OptionRule.everywhere)) words

end Request

end HeaderSync

import HeaderSync.Text.Basic

/-!
# Balanced groups

`Delimiters.scan?` finds the first group between balanced delimiters. Delimiters inside a string or
character literal of the group do not count; a literal ends at its own quote or at the end of its
line, unless a backslash stands before it.
-/

namespace HeaderSync

structure Delimiters where
  opening : Char
  closing : Char
deriving DecidableEq, Repr

/-- Whether a place of a group is code, inside a literal, or right after a backslash there. -/
inductive Masking where
  | code
  | literal (quote : Char)
  | escaped (quote : Char)
deriving DecidableEq, Repr

namespace Delimiters

def braces : Delimiters := ⟨'\x7b', '\x7d'⟩

def parens : Delimiters := ⟨'(', ')'⟩

/-- The offset of the delimiter that closes `depth` open groups, in a text that starts at
`offset`. -/
def closeFrom? (d : Delimiters) : (offset depth : Nat) → Masking → Text → Option Nat
  | _, _, _, [] => none
  | offset, depth, .escaped quote, c :: t =>
    closeFrom? d (offset + c.utf8Size) depth (.literal quote) t
  | offset, depth, .literal quote, c :: t =>
    let next :=
      if c = '\\' then .escaped quote
      else if c = quote || c = '\n' then .code
      else .literal quote
    closeFrom? d (offset + c.utf8Size) depth next t
  | offset, depth, .code, c :: t =>
    if c = d.opening then closeFrom? d (offset + c.utf8Size) (depth + 1) .code t
    else if c = d.closing then
      if depth ≤ 1 then some offset
      else closeFrom? d (offset + c.utf8Size) (depth - 1) .code t
    else
      let next := if c = '"' || c = '\'' then .literal c else .code
      closeFrom? d (offset + c.utf8Size) depth next t

/-- The first group of a text that starts at `offset`. -/
def groupFrom? (d : Delimiters) : (offset : Nat) → Text → Option (Nat × Nat)
  | _, [] => none
  | offset, c :: t =>
    if c = d.opening then
      (d.closeFrom? (offset + c.utf8Size) 1 .code t).map fun closeAt => (offset, closeAt)
    else groupFrom? d (offset + c.utf8Size) t

/-- The offsets of both delimiters of the first group that opens at byte `start` or later. There is
none if that group is never closed. -/
def scan? (d : Delimiters) (t : Text) (start : Nat) : Option (Nat × Nat) := do
  d.groupFrom? start (← Text.dropBytes? t start)

end Delimiters

end HeaderSync

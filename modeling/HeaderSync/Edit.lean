import HeaderSync.Span

/-!
# Edits

An `Edit` inserts text into a document or deletes a span of it. All edits of an `EditBatch` are
given in the offsets of the document before any of them.

* `EditBatch.validate`: the edits fit the document and each other.
* `EditBatch.apply`: the document with all edits done.
* `EditBatch.applyToFile`: the same for a file, which has to hold the text that the batch was made
  for.
-/

namespace HeaderSync

open Text

inductive Edit where
  /-- Puts `text` in front of the byte at `position`. -/
  | insert (position : Nat) (text label : Text)
  | delete (span : Span) (label : Text)
deriving DecidableEq, Repr

namespace Edit

/-- The first offset that the edit touches. -/
def position : Edit → Nat
  | insert position _ _ => position
  | delete span _ => span.first

/-- The offset after the last byte that the edit removes. -/
def stop : Edit → Nat
  | insert position _ _ => position
  | delete span _ => span.stop

def label : Edit → Text
  | insert _ _ label => label
  | delete _ label => label

def isInsert : Edit → Bool
  | insert _ _ _ => true
  | delete _ _ => false

/-- The text that takes the place of what is removed. -/
def replacement : Edit → Text
  | insert _ text _ => text
  | delete _ _ => []

end Edit

/-! ## Errors -/

/-- Why a batch is not applied. -/
inductive EditError where
  | invalidByteRange (start stop length : Nat)
  | notCharBoundary (offset : Nat)
  | overlap (firstStart firstStop secondStart secondStop : Nat)
  /-- The file does not hold the text that the batch was made for. -/
  | beforeTextMismatch
  /-- The file cannot be read or written. -/
  | io
deriving DecidableEq, Repr

/-- A half-open range as it is shown in messages. -/
def displayRange (start stop : Nat) : Text :=
  "[" ++ decimal start ++ ", " ++ decimal stop ++ ")"

/-- The wording of the error for an edit of `file`. -/
def EditError.message (file : Text) : EditError → Text
  | .invalidByteRange start stop length =>
    "Invalid byte range: " ++ displayRange start stop ++ " in document of length " ++ decimal length
  | .notCharBoundary offset => "Byte offset " ++ decimal offset ++ " is not on a character boundary"
  | .overlap a b c d => "Overlapping edits: " ++ displayRange a b ++ " and " ++ displayRange c d
  | .beforeTextMismatch => file ++ " changed since it was parsed"
  | .io => "File I/O error:"

/-! ## Verification -/

/-- How a file is recognized as the one that a batch was made for. -/
inductive Verification where
  | exact (text : Text)
  | digest (value : UInt64)
deriving DecidableEq, Repr

namespace Verification

/-- A 64-bit digest of the text. -/
def digestOf (t : Text) : UInt64 :=
  t.foldl (fun h c => (h ^^^ c.toNat.toUInt64) * 1099511628211) 14695981039346656037

/-- Texts up to this many bytes are kept, longer ones only by their digest. -/
def exactLimit : Nat := 1024

/-- How `t` is recognized, with `hash` for its digest. -/
def ofTextWith (hash : Text → UInt64) (t : Text) : Verification :=
  if exactLimit < byteLength t then digest (hash t) else exact t

def ofText (t : Text) : Verification :=
  ofTextWith digestOf t

/-- The text is recognized, with `hash` for its digest. -/
def acceptsWith (hash : Text → UInt64) (t : Text) : Verification → Bool
  | exact expected => t == expected
  | digest value => hash t == value

def accepts (t : Text) (v : Verification) : Bool :=
  v.acceptsWith digestOf t

end Verification

/-! ## Batches -/

structure EditBatch where
  expected : Verification
  edits : List Edit
deriving DecidableEq, Repr

namespace EditBatch

/-- The edits made for `text`, which is recognized with `hash` for its digest. -/
def ofTextWith (hash : Text → UInt64) (text : Text) (edits : List Edit) : EditBatch :=
  ⟨.ofTextWith hash text, edits⟩

/-- The edits made for `text`. -/
def ofText (text : Text) (edits : List Edit) : EditBatch :=
  ofTextWith Verification.digestOf text edits

/-- What is wrong with one edit of `content` by itself. -/
def editError? (content : Text) (edit : Edit) : Option EditError :=
  if byteLength content < edit.stop then
    some (.invalidByteRange edit.position edit.stop (byteLength content))
  else if !isBoundary content edit.position then some (.notCharBoundary edit.position)
  else if !isBoundary content edit.stop then some (.notCharBoundary edit.stop)
  else none

/-- The first two neighbours that overlap, of edits ordered by position. -/
def neighbourOverlap? : List Edit → Option EditError
  | a :: b :: rest =>
    if b.position < a.stop then some (.overlap a.position a.stop b.position b.stop)
    else neighbourOverlap? (b :: rest)
  | _ => none

/-- An insertion may touch a deletion, and not go inside it. -/
def insideOverlap? (deletions : List Edit) (edit : Edit) : Option EditError :=
  (deletions.find? fun d => d.position < edit.position && edit.position < d.stop).map fun d =>
    .overlap d.position d.stop edit.position edit.position

/-- What is wrong with the batch for `content`: each edit by itself first, then deletions that
overlap, then insertions into a deletion. -/
def error? (batch : EditBatch) (content : Text) : Option EditError :=
  let deletions := (batch.edits.filter fun edit => !edit.isInsert).mergeSort fun a b =>
    a.position ≤ b.position
  batch.edits.findSome? (editError? content) <|>
    neighbourOverlap? deletions <|>
    (batch.edits.filter Edit.isInsert).findSome? (insideOverlap? deletions)

/-- The text with the bytes `start .. stop - 1` replaced. -/
def replaceRange (t : Text) (start stop : Nat) (new : Text) : Text :=
  match takeBytes? t start, dropBytes? t stop with
  | some before, some after => before ++ new ++ after
  | _, _ => t

/-- Which of two edits, each with its place in the batch, is done first: the one further down; at
one position a deletion before insertions, and of these the last one in the batch. -/
def doneBefore (a b : Edit × Nat) : Bool :=
  b.1.position < a.1.position ||
    (a.1.position == b.1.position &&
      ((!a.1.isInsert && b.1.isInsert) || (a.1.isInsert == b.1.isInsert && b.2 ≤ a.2)))

/-- The edits from the bottom of the document to its top, so that the offsets of those still to do
stay right. -/
def bottomUp (batch : EditBatch) : List Edit :=
  (batch.edits.zipIdx.mergeSort doneBefore).map (·.1)

/-- The document with all edits done. -/
def apply (batch : EditBatch) (content : Text) : Except EditError Text :=
  match batch.error? content with
  | some error => .error error
  | none =>
    .ok (batch.bottomUp.foldl (fun t e => replaceRange t e.position e.stop e.replacement) content)

end EditBatch

/-! ## Files -/

/-- What became of a file. -/
inductive EditResult where
  | applied (edits : Nat)
  | unchanged
deriving DecidableEq, Repr

/-- Applies the batch to a file with this content, or to a missing one; the second part is the file
afterwards. A batch without edits does not look at the file. Digests are made with `hash`. -/
def EditBatch.applyToFileWith (hash : Text → UInt64) (batch : EditBatch) (file : Option Text) :
    Except EditError EditResult × Option Text :=
  if batch.edits.isEmpty then (.ok .unchanged, file)
  else
    match file with
    | none => (.error .io, file)
    | some content =>
      if !batch.expected.acceptsWith hash content then (.error .beforeTextMismatch, file)
      else
        match batch.apply content with
        | .error error => (.error error, file)
        | .ok updated => (.ok (.applied batch.edits.length), some updated)

/-- Applies the batch to a file with this content, or to a missing one. -/
def EditBatch.applyToFile (batch : EditBatch) (file : Option Text) :
    Except EditError EditResult × Option Text :=
  batch.applyToFileWith Verification.digestOf file

end HeaderSync

import HeaderSync.Text.Quoted

/-!
# JSON

The structured values that the program prints, and their layout: every item and every field on a
line of its own, two spaces a level.
-/

namespace HeaderSync

open Text

inductive Json where
  | null
  | boolean (value : Bool)
  | number (value : Nat)
  | string (value : Text)
  | array (items : List Json)
  /-- Fields are written in the order of the list. -/
  | object (fields : List (Text × Json))
deriving Repr

namespace Json

def ofOption {α : Type} (f : α → Json) : Option α → Json
  | some a => f a
  | none => null

def ofTexts (texts : List Text) : Json :=
  array (texts.map string)

/-! ## Layout -/

/-- A control character by its code point, in four hexadecimal digits. -/
def controlEscape (c : Char) : Text :=
  let digits := hexadecimal c.toNat
  "\\u" ++ List.replicate (4 - digits.length) '0' ++ digits

def escapedChar (c : Char) : Text :=
  match c with
  | '"' => "\\\""
  | '\\' => "\\\\"
  | '\n' => "\\n"
  | '\r' => "\\r"
  | '\t' => "\\t"
  | '\x08' => "\\b"
  | '\x0c' => "\\f"
  | c => if c < ' ' then controlEscape c else [c]

def escapedText (t : Text) : Text :=
  "\"" ++ t.flatMap escapedChar ++ "\""

/-- The end of a line and the spaces that the next one of the level starts with. -/
def newLine (level : Nat) : Text :=
  '\n' :: List.replicate (2 * level) ' '

/-- Parts between brackets, each on a line of its own; without parts the brackets touch. -/
def bracketed (left right : Char) (level : Nat) (parts : List Text) : Text :=
  if parts.isEmpty then [left, right]
  else
    [left] ++ joinWith "," (parts.map (newLine (level + 1) ++ ·)) ++ newLine level ++ [right]

mutual

/-- The text of a value whose line is indented by `level`. -/
def renderAt (level : Nat) : Json → Text
  | null => "null"
  | boolean true => "true"
  | boolean false => "false"
  | number n => decimal n
  | string t => escapedText t
  | array items => bracketed '[' ']' level (renderItems (level + 1) items)
  | object fields => bracketed '{' '}' level (renderFields (level + 1) fields)
termination_by structural j => j

def renderItems (level : Nat) : List Json → List Text
  | [] => []
  | item :: rest => renderAt level item :: renderItems level rest
termination_by structural items => items

def renderFields (level : Nat) : List (Text × Json) → List Text
  | [] => []
  | (key, value) :: rest =>
    (escapedText key ++ ": " ++ renderAt level value) :: renderFields level rest
termination_by structural fields => fields

end

def render (j : Json) : Text :=
  renderAt 0 j

end Json

end HeaderSync

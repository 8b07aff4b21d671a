import HeaderSync.Toml.Basic
import HeaderSync.Toml.Scalar

/-!
# Reading TOML

`Toml.read?` reads a document: lines with headers, lines with entries, comments and empty lines. A
text that is no document, or that defines something twice, gives nothing.

The readers below take a piece off the front of a text and give the rest; recursion into arrays and
tables in braces is bounded by the length of the text.
-/

namespace HeaderSync

namespace TomlReader

open Text

/-! ## Blanks, line ends and comments -/

def skipBlanks (t : Text) : Text :=
  t.dropWhile fun c => c == ' ' || c == '\t'

/-- The rest after a line end. -/
def dropLineEnd? : Text → Option Text
  | '\n' :: t => some t
  | '\r' :: '\n' :: t => some t
  | _ => none

/-- A character that may stand in a comment or a literal string. -/
def isPlain (c : Char) : Bool :=
  c == '\t' || (0x20 ≤ c.toNat && c.toNat != 0x7f)

/-- The rest after a comment, if there is one. -/
def skipComment : Text → Text
  | '#' :: t => t.dropWhile isPlain
  | t => t

/-- The rest after blanks and a comment, if a line end or the end of the text follows. -/
def finishLine? (t : Text) : Option Text :=
  match skipComment (skipBlanks t) with
  | [] => some []
  | t => dropLineEnd? t

/-- The rest after blanks, comments and line ends; `fuel` bounds their number. -/
def skipLines : (fuel : Nat) → Text → Text
  | 0, t => t
  | fuel + 1, t =>
    let t := skipComment (skipBlanks t)
    match dropLineEnd? t with
    | some t => skipLines fuel t
    | none => t

def skipAll (t : Text) : Text :=
  skipLines (t.length + 1) t

/-! ## Strings -/

/-- The character of `n` hexadecimal digits at the start, and the rest. -/
def readCodePoint? (n : Nat) (t : Text) : Option (Char × Text) :=
  let digits := t.take n
  if digits.length = n && digits.all TomlScalar.isHexDigit then
    let code := TomlScalar.digitsValue 16 digits
    if code.isValidChar then some (Char.ofNat code, t.drop n) else none
  else none

/-- An escape after its backslash. -/
def readEscape? : Text → Option (Char × Text)
  | 'b' :: t => some ('\x08', t)
  | 't' :: t => some ('\t', t)
  | 'n' :: t => some ('\n', t)
  | 'f' :: t => some ('\x0c', t)
  | 'r' :: t => some ('\r', t)
  | 'e' :: t => some ('\x1b', t)
  | '"' :: t => some ('"', t)
  | '\\' :: t => some ('\\', t)
  | 'x' :: t => readCodePoint? 2 t
  | 'u' :: t => readCodePoint? 4 t
  | 'U' :: t => readCodePoint? 8 t
  | _ => none

/-- A string in double quotes on one line, after its opening quote. -/
def readBasic? : (fuel : Nat) → Text → Option (Text × Text)
  | _, '"' :: t => some ([], t)
  | 0, _ => none
  | fuel + 1, '\\' :: t => do
    let (c, t) ← readEscape? t
    let (s, t) ← readBasic? fuel t
    return (c :: s, t)
  | fuel + 1, c :: t =>
    if isPlain c then (readBasic? fuel t).map fun (s, t) => (c :: s, t) else none
  | _ + 1, [] => none

/-- A string in single quotes on one line, after its opening quote. -/
def readLiteral? : Text → Option (Text × Text)
  | '\'' :: t => some ([], t)
  | c :: t => if isPlain c then (readLiteral? t).map fun (s, t) => (c :: s, t) else none
  | [] => none

/-- The end of a string in three quotes: up to two more quotes belong to the string. -/
def closingQuotes? (quote : Char) (t : Text) : Option (Text × Text) :=
  let quotes := t.takeWhile (· == quote)
  if 3 ≤ quotes.length && quotes.length ≤ 5 then
    some (quotes.drop 3, t.drop quotes.length)
  else none

/-- The rest after a backslash at the end of a line: blanks and line ends up to the next character.
-/
def skipLineBreak? (t : Text) : Option Text :=
  match dropLineEnd? (skipBlanks t) with
  | some t => some (t.dropWhile fun c => c == ' ' || c == '\t' || c == '\n' || c == '\r')
  | none => none

/-- A string in three double quotes, after them. -/
def readLongBasic? : (fuel : Nat) → Text → Option (Text × Text)
  | 0, _ => none
  | fuel + 1, t =>
    match closingQuotes? '"' t, t with
    | some closed, _ => some closed
    | none, '\\' :: rest =>
      match skipLineBreak? rest with
      | some rest => readLongBasic? fuel rest
      | none => do
        let (c, rest) ← readEscape? rest
        let (s, rest) ← readLongBasic? fuel rest
        return (c :: s, rest)
    | none, c :: rest =>
      match dropLineEnd? (c :: rest) with
      | some rest => (readLongBasic? fuel rest).map fun (s, rest) => ('\n' :: s, rest)
      | none =>
        if isPlain c then (readLongBasic? fuel rest).map fun (s, rest) => (c :: s, rest) else none
    | none, [] => none

/-- A string in three single quotes, after them. -/
def readLongLiteral? : (fuel : Nat) → Text → Option (Text × Text)
  | 0, _ => none
  | fuel + 1, t =>
    match closingQuotes? '\'' t, t with
    | some closed, _ => some closed
    | none, c :: rest =>
      match dropLineEnd? (c :: rest) with
      | some rest => (readLongLiteral? fuel rest).map fun (s, rest) => ('\n' :: s, rest)
      | none =>
        if isPlain c then (readLongLiteral? fuel rest).map fun (s, rest) => (c :: s, rest) else none
    | none, [] => none

/-- The text without the line end it starts with. -/
def dropFirstLineEnd (t : Text) : Text :=
  (dropLineEnd? t).getD t

/-- A string of any kind. -/
def readString? (t : Text) : Option (Text × Text) :=
  match t with
  | '"' :: '"' :: '"' :: rest => readLongBasic? (rest.length + 1) (dropFirstLineEnd rest)
  | '\'' :: '\'' :: '\'' :: rest => readLongLiteral? (rest.length + 1) (dropFirstLineEnd rest)
  | '"' :: rest => readBasic? rest.length rest
  | '\'' :: rest => readLiteral? rest
  | _ => none

/-! ## Keys -/

def isBareKeyChar (c : Char) : Bool :=
  isAsciiLetter c || isAsciiDigit c || c == '_' || c == '-'

/-- One part of a key: bare, or a string on one line. -/
def readKeyPart? (t : Text) : Option (Text × Text) :=
  match t with
  | '"' :: rest => readBasic? rest.length rest
  | '\'' :: rest => readLiteral? rest
  | _ =>
    let key := t.takeWhile isBareKeyChar
    if key.isEmpty then none else some (key, t.drop key.length)

/-- The parts of a dotted key: those before the last one, and the last one. -/
def readKey? : (fuel : Nat) → Text → Option (List Text × Text × Text)
  | 0, _ => none
  | fuel + 1, t => do
    let (part, rest) ← readKeyPart? (skipBlanks t)
    match skipBlanks rest with
    | '.' :: rest => do
      let (path, key, rest) ← readKey? fuel rest
      return (part :: path, key, rest)
    | rest => return ([], part, rest)

/-! ## Values -/

/-- The characters of numbers, dates and times. -/
def isScalarChar (c : Char) : Bool :=
  isAsciiLetter c || isAsciiDigit c || c == '_' || c == '+' || c == '-' || c == '.' || c == ':'

/-- The text of a number, date or time; a space may stand between a date and a time. -/
def scalarText (t : Text) : Text :=
  let first := t.takeWhile isScalarChar
  match t.drop first.length with
  | ' ' :: rest =>
    if TomlScalar.isDate first && rest.head?.any isAsciiDigit then
      first ++ " " ++ rest.takeWhile isScalarChar
    else first
  | _ => first

def readScalar? (t : Text) : Option (Toml × Text) :=
  let written := scalarText t
  let rest := t.drop written.length
  if written == ("true" : Text) then some (.boolean true, rest)
  else if written == ("false" : Text) then some (.boolean false, rest)
  else if TomlScalar.isScalar written then some (.scalar, rest)
  else none

/-- A table to which nothing can be added. -/
def closeBraces : Toml → Toml
  | .table _ entries => .table .braces entries
  | t => t

mutual

/-- A value. -/
def readValue? : (fuel : Nat) → Text → Option (Toml × Text)
  | 0, _ => none
  | _ + 1, '"' :: t => (readString? ('"' :: t)).map fun (s, rest) => (.string s, rest)
  | _ + 1, '\'' :: t => (readString? ('\'' :: t)).map fun (s, rest) => (.string s, rest)
  | fuel + 1, '[' :: t => (readItems? fuel t).map fun (items, rest) => (.array items, rest)
  | fuel + 1, '{' :: t => readEntries? fuel Toml.emptyDocument t
  | _ + 1, t => readScalar? t

/-- The items of an array, after its opening bracket or a comma. -/
def readItems? : (fuel : Nat) → Text → Option (List Toml × Text)
  | 0, _ => none
  | fuel + 1, t =>
    match skipAll t with
    | ']' :: rest => some ([], rest)
    | t => do
      let (item, rest) ← readValue? fuel t
      match skipAll rest with
      | ',' :: rest => do
        let (items, rest) ← readItems? fuel rest
        return (item :: items, rest)
      | ']' :: rest => return ([item], rest)
      | _ => none

/-- The entries of a table in braces, after its opening brace or a comma, added to `table`. -/
def readEntries? : (fuel : Nat) → (table : Toml) → Text → Option (Toml × Text)
  | 0, _, _ => none
  | fuel + 1, table, t =>
    match skipAll t with
    | '}' :: rest => some (closeBraces table, rest)
    | t => do
      let (path, key, rest) ← readKey? (t.length + 1) t
      let rest ← dropLead? "=" rest
      let (value, rest) ← readValue? fuel (skipBlanks rest)
      let table ← table.insert? path key value
      match skipAll rest with
      | ',' :: rest => readEntries? fuel table rest
      | '}' :: rest => return (closeBraces table, rest)
      | _ => none

end

/-! ## Documents -/

/-- The document read so far, and the path of the header in force. -/
structure State where
  document : Toml
  header : List Text

/-- A line, after its leading blanks. -/
def readLine? (st : State) (t : Text) : Option (State × Text) :=
  match t with
  | '[' :: '[' :: rest => do
    let (path, key, rest) ← readKey? (rest.length + 1) rest
    let rest ← finishLine? (← dropLead? "]]" rest)
    return (⟨← st.document.openRow? path key, path ++ [key]⟩, rest)
  | '[' :: rest => do
    let (path, key, rest) ← readKey? (rest.length + 1) rest
    let rest ← finishLine? (← dropLead? "]" rest)
    return (⟨← st.document.openTable? path key, path ++ [key]⟩, rest)
  | _ =>
    match finishLine? t with
    | some rest => some (st, rest)
    | none => do
      let (path, key, rest) ← readKey? (t.length + 1) t
      let (value, rest) ← readValue? (t.length + 1) (skipBlanks (← dropLead? "=" rest))
      let rest ← finishLine? rest
      return ({ st with document := ← st.document.at? st.header (·.insert? path key value) }, rest)

/-- The lines of a text, of which there are at most `fuel`. -/
def readLines? : (fuel : Nat) → State → Text → Option Toml
  | _, st, [] => some st.document
  | 0, _, _ :: _ => none
  | fuel + 1, st, c :: t => do
    let (st, rest) ← readLine? st (skipBlanks (c :: t))
    readLines? fuel st rest

end TomlReader

/-- The document that a text writes down. A byte order mark may stand in front of it. -/
def Toml.read? (t : Text) : Option Toml :=
  let t := (Text.dropLead? ['\ufeff'] t).getD t
  TomlReader.readLines? t.length ⟨.emptyDocument, []⟩ t

end HeaderSync

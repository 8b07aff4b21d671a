import HeaderSync.Text.Blank
import HeaderSync.Text.Letter

/-!
# Signatures

The text of C++ declarators, brought into a form in which a declaration and its definition compare
equal.

* `splitTopLevel`: the parts between separators that stand outside all brackets.
* `splitQualified`, `joinScopes`: a qualified name and its scopes; names of operators stay whole.
* `stripDefaults`: an argument list without default values.
* `normalizeType`, `normalizeReturnType`: one spelling for the blanks of a type.
* `argumentsEqual`: two argument lists declare the same parameter types.
-/

namespace HeaderSync.Signature

open Text

/-- Keywords that are a type on their own, never the name of a parameter. -/
def typeKeywords : List Text :=
  ["auto", "bool", "char", "char16_t", "char32_t", "char8_t", "const", "double", "float", "int",
    "long", "short", "signed", "unsigned", "void", "volatile", "wchar_t"]

/-- Words that make no type by themselves. -/
def qualifiers : List Text :=
  ["const", "volatile", "struct", "class", "enum", "typename", "register"]

/-- Specifiers that a declaration has and its definition has not, or the other way round. -/
def declarationSpecifiers : List Text :=
  ["inline", "static", "virtual", "extern", "explicit", "friend", "constexpr"]

/-! ## Brackets -/

def isOpening (c : Char) : Bool :=
  c == '(' || c == '<' || c == '[' || c == '\x7b'

def isClosing (c : Char) : Bool :=
  c == ')' || c == '>' || c == ']' || c == '\x7d'

/-- The number of open brackets after `c`; a closing bracket too many does not count. -/
def depthAfter (depth : Nat) (c : Char) : Nat :=
  if isOpening c then depth + 1 else if isClosing c then depth - 1 else depth

/-- The parts of a text that starts inside `depth` brackets. -/
def splitTopLevelFrom (separator : Char) : (depth : Nat) → Text → List Text
  | _, [] => [[]]
  | depth, c :: t =>
    if !isOpening c && !isClosing c && c == separator && depth == 0 then
      [] :: splitTopLevelFrom separator 0 t
    else consFirst c (splitTopLevelFrom separator (depthAfter depth c) t)

/-- The parts of the text between the separators outside all brackets. -/
def splitTopLevel (separator : Char) (t : Text) : List Text :=
  splitTopLevelFrom separator 0 t

/-! ## Types -/

/-- Sets `*` and `&` apart. -/
def detachChar (c : Char) : Text :=
  if c == '*' || c == '&' then [' ', c, ' '] else [c]

/-- The words of a type, with `*` and `&` as words of their own. -/
def tokens (t : Text) : List Text :=
  words (t.flatMap detachChar)

/-- The type with single spaces, also around `*` and `&`. -/
def normalizeType (t : Text) : Text :=
  joinWith " " (tokens t)

/-- The type without the specifiers that do not belong to it. -/
def normalizeReturnType (t : Text) : Text :=
  joinWith " " ((tokens t).filter fun token => !declarationSpecifiers.contains token)

/-! ## Names -/

/-- The parts of a name between `::` outside template brackets. -/
def splitScopesFrom : (depth : Nat) → Text → List Text
  | _, [] => [[]]
  | 0, ':' :: ':' :: t => [] :: splitScopesFrom 0 t
  | depth, c :: t =>
    let depth := if c == '<' then depth + 1 else if c == '>' then depth - 1 else depth
    consFirst c (splitScopesFrom depth t)

def splitScopes (name : Text) : List Text :=
  splitScopesFrom 0 name

def operatorWord : Text := "operator"

/-- The texts before and after the first word `operator`; `before` is the text already passed, last
character first. -/
def splitOperatorFrom? (before : Text) : Text → Option (Text × Text)
  | [] => none
  | c :: t =>
    match dropLead? operatorWord (c :: t) with
    | some rest =>
      if !before.head?.any isIdentifierChar && !rest.head?.any isIdentifierChar then
        some (before.reverse, rest)
      else splitOperatorFrom? (c :: before) t
    | none => splitOperatorFrom? (c :: before) t

/-- The name of an operator, given what follows the word `operator`. -/
def operatorName (rest : Text) : Text :=
  let rest := trim rest
  if rest.head?.any isIdentifierChar then "operator " ++ normalizeType rest
  else operatorWord ++ (words rest).flatten

/-- A text given last character first, without the `::` that it ends with. -/
def dropColons : Text → Text
  | ':' :: ':' :: t => dropColons t
  | t => t

/-- The scopes without surrounding blanks, less the empty ones. -/
def cleanScopes (scopes : List Text) : List Text :=
  (scopes.map trim).filter fun scope => !scope.isEmpty

/-- The scopes of a qualified name, and the name in them. -/
def splitQualified (name : Text) : List Text × Text :=
  match splitOperatorFrom? [] name with
  | some (before, rest) =>
    let qualifier := (dropColons (trimEnd before).reverse).reverse
    (cleanScopes (splitScopes qualifier), operatorName rest)
  | none =>
    let scopes := splitScopes name
    (cleanScopes scopes.dropLast, trim (scopes.getLastD []))

/-- The scopes and the name with `::` between them. -/
def joinScopes (scopes : List Text) (name : Text) : Text :=
  joinWith "::" (scopes ++ [name])

/-! ## Arguments -/

/-- The text before the first `=` outside all brackets, if there is one. -/
def beforeDefault? : (depth : Nat) → Text → Option Text
  | _, [] => none
  | depth, c :: t =>
    if c == '=' && depth == 0 then some []
    else (beforeDefault? (depthAfter depth c) t).map (c :: ·)

/-- The argument list without default values. -/
def stripDefaults (args : Text) : Text :=
  let parts := splitTopLevel ',' args
  if parts.all fun part => (beforeDefault? 0 part).isNone then trim args
  else joinWith ", " (parts.map fun part => trim ((beforeDefault? 0 part).getD part))

def isIdentifier : Text → Bool
  | [] => false
  | c :: t => (isLetter c || c == '_') && t.all isIdentifierChar

/-- A token that makes a type. -/
def isTypeToken (token : Text) : Bool :=
  !qualifiers.contains token && token != ("*" : Text) && token != ("&" : Text)

/-- The tokens of an argument without its name, if the last token can only be a name. -/
def unnamed? (tokens : List Text) : Option (List Text) := do
  let last ← tokens.getLast?
  let rest := tokens.dropLast
  if rest.any isTypeToken && isIdentifier last && !typeKeywords.contains last then some rest
  else none

/-- The tokens of each argument; a list that is empty or only `void` has none. -/
def argumentTokens (args : Text) : List (List Text) :=
  let stripped := trim (stripDefaults args)
  if stripped.isEmpty || stripped == ("void" : Text) then []
  else (splitTopLevel ',' stripped).map tokens

/-- Two arguments have the same type, whether their names are left out or not. -/
def sameArgument (a b : List Text) : Bool :=
  a == b || unnamed? a == some b || unnamed? b == some a ||
    ((unnamed? a).isSome && unnamed? a == unnamed? b)

/-- The lists agree in length and, place by place, in type. -/
def sameArguments : List (List Text) → List (List Text) → Bool
  | [], [] => true
  | a :: as, b :: bs => sameArgument a b && sameArguments as bs
  | _, _ => false

/-- Two argument lists declare the same parameter types. Names and default values do not count, and
`(void)` is `()`. -/
def argumentsEqual (a b : Text) : Bool :=
  sameArguments (argumentTokens a) (argumentTokens b)

end HeaderSync.Signature

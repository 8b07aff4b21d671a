import HeaderSync.Body

/-!
# Shapes of C++ text

The patterns by which C++ text is recognized, and a test (`plausibleSignature`) that tells a
declaration from a statement of the same shape. The numbers of groups are those of the hit of the
whole pattern.
-/

namespace HeaderSync.Shapes

open Pattern

/-- A word between the blanks that may follow it. -/
def word (t : Text) : Pattern := lit t ++ blanks

/-! ## Comments and preprocessor lines -/

/-- A string or character literal. -/
def literal (quote : Char) : Pattern :=
  lit [quote] ++ star (char (.noneOf [quote, '\\', '\n']) ||| lit "\\" ++ char (.noneOf ['\n'])) ++
    lit [quote]

/-- Comments. A literal is matched too, as group 1, so that what looks like a comment inside it is
left alone. -/
def comment : Pattern :=
  group 1 (literal '"' ||| literal '\'') |||
    (lit "/*" ++ starLazy (char .all) ++ lit "*/" ||| lit "//" ++ star (char (.noneOf ['\n'])))

/-- A preprocessor line with its continuation lines. -/
def preprocessorLine : Pattern :=
  assert .lineStart ++ star (char (.oneOf [' ', '\t'])) ++ lit "#" ++
    star (char (.noneOf ['\\', '\n']) ||| lit "\\" ++ char .all)

/-! ## Namespaces -/

/-- Group 1 is the name. -/
def namespaceHead : Pattern :=
  wordEdge ++ opt (lit "inline" ++ blanks1) ++ lit "namespace" ++ blanks1 ++
    group 1 (char .identifierStart ++ star (char (.word ∪ .single ':')))

def anonymousNamespaceHead : Pattern := wordEdge ++ lit "namespace"

/-! ## Declarators -/

/-- What a type is written with. -/
def typeChar : Pattern := char (.word ∪ .oneOf ":<>,\t *&")

/-- A return type, as group `index`. It ends in a blank, `*` or `&`. -/
def returnType (index : Nat) : Pattern :=
  wordEdge ++ group index (char .identifierStart ++ starLazy typeChar ++ char (.oneOf "\t *&")) ++
    blanks

/-- The scopes in front of a qualified name. -/
def scopes : Pattern := star (plus (char .word) ++ lit "::")

/-- The sign of an operator. -/
def operatorSign : Pattern :=
  lit "()" ||| (lit "[]" ||| plus (char (.compl (.blank ∪ .word ∪ .oneOf "();\x7b\x7d"))))

/-- The words of the operators that allocate and free. -/
def allocationWord : Pattern :=
  (lit "new" ||| lit "delete") ++ wordEdge ++ opt (blanks ++ lit "[" ++ blanks ++ lit "]")

/-- A name, possibly qualified, possibly of an operator, as group `index`. -/
def functionName (index : Nat) : Pattern :=
  group index
    (scopes ++
      ((lit "operator" ++ blanks ++ operatorSign) |||
        ((lit "operator" ++ blanks1 ++ allocationWord) ||| opt (lit "~") ++ plus (char .word))))

/-- An argument list in parentheses, with up to two levels of parentheses inside; the list is group
`index`. -/
def arguments (index : Nat) : Pattern :=
  let other := char (.noneOf "()")
  lit "(" ++
    group index (star (other |||
      lit "(" ++ star (other ||| lit "(" ++ star other ++ lit ")") ++ lit ")")) ++
    lit ")"

/-- The target type of a conversion operator, as group `index`. -/
def castTarget (index : Nat) : Pattern :=
  group index (char .identifierStart ++ starLazy typeChar)

/-! ## Classes -/

/-- Group 1 is the keyword, group 2 the name, group 3 the list of bases. -/
def classHead : Pattern :=
  wordEdge ++ group 1 (lit "class" ||| lit "struct") ++ blanks1 ++
    opt (char (.range 'A' 'Z') ++
      star (char (.range 'A' 'Z' ∪ .range '0' '9' ∪ .single '_')) ++ blanks1) ++
    group 2 (char .identifierStart ++ star (char .word)) ++ blanks ++ opt (word "final") ++
    opt (word ":" ++ group 3 (plusLazy (char (.noneOf "\x7b;"))))

def enumOrUnionHead : Pattern :=
  wordEdge ++ (lit "enum" ||| lit "union") ++ wordEdge ++ star (char (.noneOf ";\x7b\x7d()"))

/-- Any local type of a source file. -/
def typeHead : Pattern :=
  wordEdge ++ (lit "class" ||| (lit "struct" ||| (lit "union" ||| lit "enum"))) ++ wordEdge ++
    star (char (.noneOf ";\x7b\x7d()"))

def pureVirtual : Pattern :=
  wordEdge ++ lit "virtual" ++ wordEdge ++ starLazy (char (.noneOf ";")) ++ word "=" ++ word "0" ++
    lit ";"

/-- Group 1 is the access. -/
def accessLabel : Pattern :=
  wordEdge ++ group 1 (lit "public" ||| (lit "protected" ||| lit "private")) ++ blanks ++ lit ":"

/-- An inline definition up to its body. It crosses no single colon up to its parenthesis, so an
access label in front of it stays; behind the parenthesis initializers may stand. -/
def inlineHead : Pattern :=
  char (.identifierStart ∪ .single '~') ++ star (char (.noneOf ";\x7b\x7d():") ||| lit "::") ++
    lit "(" ++ starLazy (char (.noneOf ";\x7b\x7d")) ++ lit ")" ++
    starLazy (char (.noneOf ";\x7b\x7d"))

/-! ## Members of classes -/

/-- Group 1 is the return type, group 2 `new` or `delete`, group 3 the brackets. -/
def allocatorHead : Pattern :=
  opt (wordEdge ++ lit "static" ++ blanks1) ++ wordEdge ++
    group 1 (word "void" ++ lit "*" ||| lit "void") ++ blanks ++ wordEdge ++ lit "operator" ++
    blanks1 ++ group 2 (lit "new" ||| lit "delete") ++ blanks ++ opt (group 3 (word "[" ++ lit "]"))

/-- What follows the parameters of a member function: group `i` is `const`, group `i + 1` is
`override`, group `i + 2` is `= 0`. -/
def memberEnding (i : Nat) : Pattern :=
  opt (group i (lit "const")) ++ blanks ++ opt (word "noexcept") ++
    opt (group (i + 1) (lit "override")) ++ blanks ++ opt (word "final") ++
    opt (group (i + 2) (word "=" ++ lit "0")) ++ blanks ++ lit ";"

/-- Group 1 is `virtual`, group 2 the target type, then follow those of the ending. -/
def castOperator : Pattern :=
  opt (wordEdge ++ group 1 (lit "virtual") ++ blanks1) ++
    opt (wordEdge ++ lit "explicit" ++ blanks1) ++ wordEdge ++ lit "operator" ++ blanks1 ++
    castTarget 2 ++ blanks ++ word "(" ++ word ")" ++ memberEnding 3

/-- Group 1 is the return type, group 2 the name. -/
def friendHead : Pattern :=
  wordEdge ++ lit "friend" ++ blanks1 ++ returnType 1 ++ functionName 2

/-- Group 1 is `const`. -/
def friendEnding : Pattern := opt (group 1 (lit "const")) ++ blanks ++ lit ";"

/-- Group 1 is the specifier, group 2 the return type, group 3 the name. -/
def memberHead : Pattern :=
  opt (wordEdge ++ group 1 (lit "virtual" ||| lit "static") ++ blanks1) ++ returnType 2 ++
    functionName 3

/-- The words `= default` or `= delete`, as group `index`. -/
def defaultedEnding (index : Nat) : Pattern :=
  opt (word "=" ++ group index (lit "default" ||| lit "delete") ++ blanks) ++ lit ";"

/-- Group 1 is `default` or `delete`. -/
def constructorEnding : Pattern := opt (word "noexcept") ++ defaultedEnding 1

/-- Group 1 is `explicit`. -/
def constructorHead (className : Text) : Pattern :=
  opt (wordEdge ++ group 1 (lit "explicit") ++ blanks1) ++ wordEdge ++ lit className

/-- An empty parameter list. -/
def noArguments : Pattern := word "(" ++ opt (word "void") ++ lit ")" ++ blanks

/-- Group 1 is `virtual`, group 2 `override`, group 3 `default` or `delete`. -/
def destructor (className : Text) : Pattern :=
  opt (wordEdge ++ group 1 (lit "virtual") ++ blanks1) ++ word "~" ++ lit className ++ blanks ++
    noArguments ++ opt (word "noexcept") ++ opt (group 2 (lit "override")) ++ blanks ++
    opt (word "final") ++ defaultedEnding 3

/-! ## Functions outside classes -/

/-- Group 1 is the return type, group 2 the name. -/
def standaloneHead : Pattern := returnType 1 ++ functionName 2

def standaloneEnding : Pattern := opt (word "noexcept") ++ lit ";"

/-- Group 1 is the return type, group 2 the name, group 3 the arguments, group 4 `const`. -/
def definitionHead : Pattern :=
  returnType 1 ++ functionName 2 ++ blanks ++ arguments 3 ++ blanks ++
    opt (group 4 (lit "const")) ++ blanks ++ opt (word "noexcept")

/-- Group 1 is the qualified name, groups 2 and 3 are its last two parts, group 4 the arguments. A
list of initializers may follow. -/
def constructorDefinitionHead : Pattern :=
  group 1 (scopes ++ group 2 (plus (char .word)) ++ lit "::" ++ group 3 (plus (char .word))) ++
    blanks ++ arguments 4 ++ blanks ++ opt (word "noexcept") ++
    opt (lit ":" ++
      star (char .word ++ lit "\x7b" ++ star (char (.noneOf "\x7b\x7d")) ++ lit "\x7d" |||
        char (.noneOf "\x7b\x7d;")))

/-- Group 1 is the qualified name, groups 2 and 3 are its last two parts without the tilde. -/
def destructorDefinitionHead : Pattern :=
  group 1 (scopes ++ group 2 (plus (char .word)) ++ lit "::~" ++ group 3 (plus (char .word))) ++
    blanks ++ noArguments ++ opt (word "noexcept")

/-- Group 1 is the qualified word `operator`, group 2 the target type, group 3 `const`. -/
def castDefinitionHead : Pattern :=
  group 1 (scopes ++ lit "operator") ++ blanks1 ++ castTarget 2 ++ blanks ++ word "(" ++ word ")" ++
    opt (group 3 (lit "const")) ++ blanks ++ opt (word "noexcept")

/-! ## Signatures -/

/-- Words that no function is named by. -/
def statementKeywords : List Text :=
  ["if", "for", "while", "switch", "return", "sizeof", "decltype", "alignof", "static_assert",
    "catch", "throw", "new", "delete"]

/-- The return type has no word of `forbidden`, and the name does not start with a word of a
statement. -/
def plausibleSignature (forbidden : List Text) (returnType name : Text) : Bool :=
  !(Text.runs Text.isIdentifierChar returnType).any forbidden.contains &&
    !(Text.runs Text.isIdentifierChar name).head?.any statementKeywords.contains

end HeaderSync.Shapes

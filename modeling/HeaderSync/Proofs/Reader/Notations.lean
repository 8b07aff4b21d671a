import HeaderSync.Proofs.Pattern.Notation
import HeaderSync.Proofs.Scan.Clock
import HeaderSync.Reader.Header
import HeaderSync.Reader.Source

/-!
# Notations of the shapes

The shapes of C++ text, each with the notation it is usually written in. All of them can be read, and
are read as the shapes, also those that are put together from the name of a class, whatever the name.

* `WrittenPattern`, `WrittenUnit` : a pattern, and a body pattern, with its notation;
* `Notations.writes_destructor`, `Notations.writes_constructorHead` : the notations for the name of a
  class;
* `Notations.comment` and so on : the shapes with their notations.
-/

namespace HeaderSync

open Pattern

/-- A pattern with a notation of it. -/
structure WrittenPattern where
  written : Text
  shape : Pattern
  writes : Pattern.Writes written shape

/-- A body pattern with notations of its head, without the opening delimiter, and of what has to follow
the closing one. -/
structure WrittenUnit where
  head : Text
  tail : Option Text
  unit : BodyPattern
  writes_head : Pattern.Writes (head ++ "\\s*" ++ escape [unit.delimiters.opening]) unit.head
  writes_tail : Option.Rel
    (fun tail => Pattern.Writes ("^" ++ escape [unit.delimiters.closing] ++ "\\s*" ++ tail)) tail
    unit.tail

namespace Notations

open Pattern.Notation Shapes BodyPattern Reader

/-! ## Names of classes -/

section Destructor

def destructorLead : Text := "(?:\\b(virtual)\\s+)?~\\s*"

def destructorTail : Text :=
  "\\s*\\(\\s*(?:void\\s*)?\\)\\s*(?:noexcept\\s*)?(override)?\\s*(?:final\\s*)?" ++
    "(?:=\\s*(default|delete)\\s*)?;"

def destructorTokens : List Token :=
  (tokens? destructorLead).getD []

theorem reads_destructorLead {n : Nat} {u : Text} {ts : List Token} (hu : u.head? ≠ some '?')
    (h : tokensWithin? n u = some ts) :
    tokensWithin? (n + destructorTokens.length) (destructorLead ++ u) =
      some (destructorTokens ++ ts) := by
  change tokensWithin? (n + 18) _ = _
  iterate 17 refine tokensWithin?_step rfl ?_
  exact tokensWithin?_step (readToken?_star hu) h

/-- The parts before the name of the class, the last one first. -/
def destructorBefore : List Pattern :=
  [blanks, lit "~", opt (wordEdge ++ group 1 (lit "virtual") ++ blanks1)]

/-- The parts after the name of the class, the last one first. -/
def destructorAfter : List Pattern :=
  [lit ";", opt (word "=" ++ group 3 (lit "default" ||| lit "delete") ++ blanks), opt (word "final"),
    blanks, opt (group 2 (lit "override")), opt (word "noexcept"), blanks, lit ")", opt (word "void"),
    blanks, lit "(", blanks]

set_option maxRecDepth 20000 in
theorem reads_destructorTail (parts : List Pattern) (repeatable : Bool) :
    (tokens? destructorTail).bind (List.foldlM Builder.step? (.outer 2 parts repeatable)) =
      some (.outer 4 (destructorAfter ++ parts) true) :=
  rfl

theorem writes_destructor (className : Text) :
    Pattern.Writes (destructorLead ++ escape className ++ destructorTail)
      (Shapes.destructor className) := by
  have hbefore : destructorTokens.foldlM Builder.step? .start =
      some (.outer 2 destructorBefore true) := by decide +kernel
  obtain ⟨q, hread, hparts⟩ := exists_read?_escape className (by decide +kernel)
    reads_destructorLead hbefore (by decide +kernel) reads_destructorTail
  refine ⟨q, hread, hparts.trans ?_, ?_⟩
  · simp only [Shapes.destructor, parts_append, List.append_assoc]
    rfl
  · simp only [Shapes.destructor, roundsConsume_append, roundsConsume_lit, Bool.and_true]
    rfl

end Destructor

section Constructor

def constructorLead : Text := "(?:\\b(explicit)\\s+)?\\b"

def constructorTokens : List Token :=
  (tokens? constructorLead).getD []

theorem reads_constructorLead {n : Nat} {u : Text} {ts : List Token}
    (h : tokensWithin? n u = some ts) :
    tokensWithin? (n + constructorTokens.length) (constructorLead ++ u) =
      some (constructorTokens ++ ts) := by
  change tokensWithin? (n + 17) _ = _
  iterate 16 refine tokensWithin?_step rfl ?_
  exact tokensWithin?_step rfl h

theorem reads_constructorTail (parts : List Pattern) (repeatable : Bool) :
    (tokens? "\\s*\\(").bind (List.foldlM Builder.step? (.outer 2 parts repeatable)) =
      some (.outer 2 ([lit "(", blanks] ++ parts) true) :=
  rfl

theorem writes_constructorHead (className : Text) :
    Pattern.Writes (constructorLead ++ escape className ++ "\\s*" ++ escape ['('])
      (parens (constructorHead className)).head := by
  have hbefore : constructorTokens.foldlM Builder.step? .start = some (.outer 2
      [wordEdge, opt (wordEdge ++ group 1 (lit "explicit") ++ blanks1)] true) := by decide +kernel
  obtain ⟨q, hread, hparts⟩ := exists_read?_escape className (by decide +kernel)
    (fun _ => reads_constructorLead) hbefore (by decide +kernel) reads_constructorTail
  have hnotation : ("\\s*" : Text) ++ escape ['('] = "\\s*\\(" := by decide
  rw [List.append_assoc _ _ (escape ['(']), hnotation]
  refine ⟨q, hread, hparts.trans ?_, ?_⟩
  · simp only [parens, ofHead, constructorHead, parts_append, List.append_assoc]
    rfl
  · simp only [parens, ofHead, constructorHead, roundsConsume_append, roundsConsume_lit, Bool.and_true]
    rfl

theorem writes_constructorEnding :
    Pattern.Writes ("^" ++ escape [')'] ++ "\\s*" ++ "(?:noexcept\\s*)?(?:=\\s*(default|delete)\\s*)?;")
      (.assert .textStart ++ lit [')'] ++ blanks ++ constructorEnding) := by
  decide +kernel

end Constructor

/-! ## Shapes -/

def comment : WrittenPattern where
  written := "(\"(?:[^\"\\\\\\n]|\\\\.)*\"|'(?:[^'\\\\\\n]|\\\\.)*')|/\\*(?s:.*?)\\*/|//[^\\n]*"
  shape := Shapes.comment
  writes := by decide +kernel

def preprocessorLine : WrittenPattern where
  written := "(?m)^[ \\t]*#(?:[^\\\\\\n]|\\\\(?s:.))*"
  shape := Shapes.preprocessorLine
  writes := by decide +kernel

def pureVirtual : WrittenPattern where
  written := "\\bvirtual\\b[^;]*?=\\s*0\\s*;"
  shape := Shapes.pureVirtual
  writes := by decide +kernel

def accessLabel : WrittenPattern where
  written := "\\b(public|protected|private)\\s*:"
  shape := Shapes.accessLabel
  writes := by decide +kernel

def castOperator : WrittenPattern where
  written := "(?:\\b(virtual)\\s+)?(?:\\bexplicit\\s+)?\\boperator\\s+" ++
    "([A-Za-z_][\\w:<>,\\t *&]*?)\\s*" ++
    "\\(\\s*\\)\\s*(const)?\\s*(?:noexcept\\s*)?(override)?\\s*(?:final\\s*)?(=\\s*0)?\\s*;"
  shape := Shapes.castOperator
  writes := by decide +kernel

def destructor (className : Text) : WrittenPattern where
  written := destructorLead ++ escape className ++ destructorTail
  shape := Shapes.destructor className
  writes := writes_destructor className

/-! ## Units -/

def namespaceUnit : WrittenUnit where
  head := "\\b(?:inline\\s+)?namespace\\s+([A-Za-z_][\\w:]*)"
  tail := none
  unit := braces namespaceHead
  writes_head := by decide +kernel
  writes_tail := .none

def anonymousNamespaceUnit : WrittenUnit where
  head := "\\bnamespace"
  tail := none
  unit := braces anonymousNamespaceHead
  writes_head := by decide +kernel
  writes_tail := .none

def enumOrUnion : WrittenUnit where
  head := "\\b(?:enum|union)\\b[^;\x7b\x7d()]*"
  tail := some ";"
  unit := Reader.enumOrUnion
  writes_head := by decide +kernel
  writes_tail := .some (by decide +kernel)

def classUnit : WrittenUnit where
  head := "\\b(class|struct)\\s+(?:[A-Z][A-Z0-9_]*\\s+)?([A-Za-z_]\\w*)\\s*(?:final\\s*)?" ++
    "(?::\\s*([^\x7b;]+?))?"
  tail := some ";"
  unit := Reader.classUnit
  writes_head := by decide +kernel
  writes_tail := .some (by decide +kernel)

def inlineDefinition : WrittenUnit where
  head := "[A-Za-z_~](?:[^;\x7b\x7d():]|::)*\\([^;\x7b\x7d]*?\\)[^;\x7b\x7d]*?"
  tail := none
  unit := braces inlineHead
  writes_head := by decide +kernel
  writes_tail := .none

/-- Whatever stands in braces. -/
def braced : WrittenUnit where
  head := ""
  tail := none
  unit := braces .empty
  writes_head := by decide +kernel
  writes_tail := .none

/-! ## Members of classes -/

/-- A return type, then a name. -/
def declarator : Text :=
  "\\b([A-Za-z_][\\w:<>,\\t *&]*?[\\t *&])\\s*" ++
    "((?:\\w+::)*(?:operator\\s*(?:\\(\\)|\\[\\]|[^\\s\\w();\x7b\x7d]+)|" ++
    "operator\\s+(?:new|delete)\\b(?:\\s*\\[\\s*\\])?|~?\\w+))"

def constructorUnit (className : Text) : WrittenUnit where
  head := constructorLead ++ escape className
  tail := some "(?:noexcept\\s*)?(?:=\\s*(default|delete)\\s*)?;"
  unit := (parens (constructorHead className)).withTail constructorEnding
  writes_head := writes_constructorHead className
  writes_tail := .some writes_constructorEnding

def allocatorUnit : WrittenUnit where
  head := "(?:\\bstatic\\s+)?\\b(void\\s*\\*|void)\\s*\\boperator\\s+(new|delete)\\s*(\\[\\s*\\])?"
  tail := some ";"
  unit := (parens allocatorHead).withTail (.lit ";")
  writes_head := by decide +kernel
  writes_tail := .some (by decide +kernel)

def friendUnit : WrittenUnit where
  head := "\\bfriend\\s+" ++ declarator
  tail := some "(const)?\\s*;"
  unit := Reader.friendUnit
  writes_head := by decide +kernel
  writes_tail := .some (by decide +kernel)

def memberUnit : WrittenUnit where
  head := "(?:\\b(virtual|static)\\s+)?" ++ declarator
  tail := some "(const)?\\s*(?:noexcept\\s*)?(override)?\\s*(?:final\\s*)?(=\\s*0)?\\s*;"
  unit := Reader.memberUnit
  writes_head := by decide +kernel
  writes_tail := .some (by decide +kernel)

/-! ## Functions outside classes -/

def standaloneUnit : WrittenUnit where
  head := declarator
  tail := some "(?:noexcept\\s*)?;"
  unit := Reader.standaloneUnit
  writes_head := by decide +kernel
  writes_tail := .some (by decide +kernel)

/-- Arguments in parentheses. -/
def arguments : Text := "\\(((?:[^()]|\\((?:[^()]|\\([^()]*\\))*\\))*)\\)"

def typeUnit : WrittenUnit where
  head := "\\b(?:class|struct|union|enum)\\b[^;\x7b\x7d()]*"
  tail := some ";"
  unit := (braces typeHead).withTail (.lit ";")
  writes_head := by decide +kernel
  writes_tail := .some (by decide +kernel)

def constructorDefinition : WrittenUnit where
  head := "((?:\\w+::)*(\\w+)::(\\w+))\\s*" ++ arguments ++
    "\\s*(?:noexcept\\s*)?(?::(?:\\w\\\x7b[^\x7b\x7d]*\\\x7d|[^\x7b\x7d;])*)?"
  tail := none
  unit := (braces constructorDefinitionHead).only namesItself
  writes_head := by decide +kernel
  writes_tail := .none

def destructorDefinition : WrittenUnit where
  head := "((?:\\w+::)*(\\w+)::~(\\w+))\\s*\\(\\s*(?:void\\s*)?\\)\\s*(?:noexcept\\s*)?"
  tail := none
  unit := (braces destructorDefinitionHead).only namesItself
  writes_head := by decide +kernel
  writes_tail := .none

def castDefinition : WrittenUnit where
  head := "((?:\\w+::)*operator)\\s+([A-Za-z_][\\w:<>,\\t *&]*?)\\s*\\(\\s*\\)\\s*(const)?\\s*" ++
    "(?:noexcept\\s*)?"
  tail := none
  unit := braces castDefinitionHead
  writes_head := by decide +kernel
  writes_tail := .none

def definition : WrittenUnit where
  head := declarator ++ "\\s*" ++ arguments ++ "\\s*(const)?\\s*(?:noexcept\\s*)?"
  tail := none
  unit := definitionUnit
  writes_head := by decide +kernel
  writes_tail := .none

end Notations

end HeaderSync

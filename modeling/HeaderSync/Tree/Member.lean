import HeaderSync.Lines
import HeaderSync.Names
import HeaderSync.Signature

/-!
# Members

The functions, constructors and destructors of a parsed file, and how each is written in a mode. A
member does not know the classes around it; where it matters, they are given as a `ClassChain` with
the class that owns the member last, and an empty chain for a function outside all classes.

* `Function.render`, `Constructor.render`, `Destructor.render`: the lines of the member; there are
  none if it is not written in the mode.
* `hasDefinition`: the member is written with a body in the mode.
* `equals`: two members declare the same, as far as a merge is concerned.
-/

namespace HeaderSync

open Signature

/-- Who may use a member. -/
inductive Access where
  | pub
  | prot
  | priv
deriving DecidableEq, Repr

namespace Access

def all : List Access := [.pub, .prot, .priv]

def word : Access → Text
  | .pub => "public"
  | .prot => "protected"
  | .priv => "private"

def read? (t : Text) : Option Access :=
  all.find? fun access => access.word == t

/-- The label that opens a section of a class. -/
def label (access : Access) : Text :=
  access.word ++ ":"

end Access

/-- The items filed under `access`, in order. -/
def itemsIn {α : Type} (access : Access) (items : List (Access × α)) : List α :=
  (items.filter fun item => item.1 == access).map (·.2)

/-- How a special member ends that has no body of its own: `= default` or `= delete`. -/
inductive Defaulted where
  | default
  | delete
deriving DecidableEq, Repr

namespace Defaulted

def word : Defaulted → Text
  | default => "default"
  | delete => "delete"

def read? (t : Text) : Option Defaulted :=
  [default, delete].find? fun d => d.word == t

/-- What stands between the parameters and the semicolon. -/
def ending : Option Defaulted → Text
  | some d => " = " ++ d.word
  | none => []

end Defaulted

inductive Virtuality where
  | none
  | virtual
  | override
  | pure
deriving DecidableEq, Repr

inductive FunctionKind where
  | member (virtuality : Virtuality)
  | static
  | friend
  /-- A conversion `operator T()`; the name carries the type. -/
  | castOperator (virtuality : Virtuality)
  /-- The `operator new` or `operator delete` of a class. -/
  | allocator
  /-- A function outside all classes, or any definition in a source file. -/
  | standalone
deriving DecidableEq, Repr

def FunctionKind.virtuality? : FunctionKind → Option Virtuality
  | member virtuality | castOperator virtuality => some virtuality
  | _ => none

structure Function where
  name : Text
  returnType : Text
  args : Text
  isConst : Bool
  kind : FunctionKind
  span : Span
deriving DecidableEq, Repr

structure Constructor where
  args : Text
  isExplicit : Bool
  defaulted : Option Defaulted
  span : Span
deriving DecidableEq, Repr

structure Destructor where
  /-- Declared `virtual` or `override`. -/
  isVirtual : Bool
  defaulted : Option Defaulted
  access : Access
  span : Span
deriving DecidableEq, Repr

/-- A name with the qualifiers of the options and those of the classes around it. -/
def qualifiedName (o : RenderOptions) (classes : List Text) (name : Text) : Text :=
  joinScopes (o.nameScopes ++ classes) name

/-- A heading, the lines of the body, and the closing brace. -/
def definitionLines (heading : Text) (body : Lines) : Lines :=
  Lines.line (heading ++ " \x7b") ++ body.nest 1 ++ Lines.line "\x7d"

/-! ## Functions -/

/-- How a function is written in one mode. -/
inductive Form where
  | skip
  /-- A declaration with this text in front of the signature and that behind it. -/
  | declaration (before after : Text)
  | definition
deriving DecidableEq, Repr

namespace Form

def plain : Form := declaration [] []

def pureVirtual : Form := declaration "virtual " " = 0"

def overriding : Form := declaration [] " override"

/-- Functions that may be virtual. -/
def ofVirtuality : Virtuality → Mode → Form
  | .none, .header => plain
  | .virtual, .header => declaration "virtual " []
  | .override, .header => overriding
  | .pure, .header => pureVirtual
  | .pure, .source => skip
  | _, .source => definition
  | .pure, .implHeader => overriding
  | .pure, .implSource => definition
  | .none, .interfaceHeader => skip
  | _, .interfaceHeader => pureVirtual
  | _, _ => skip

/-- Functions that are never virtual: declared with `specifier`, defined without. -/
def ofSpecifier (specifier : Text) : Mode → Form
  | .header => declaration specifier []
  | .source => definition
  | _ => skip

end Form

def FunctionKind.form (kind : FunctionKind) (mode : Mode) : Form :=
  match kind with
  | member virtuality | castOperator virtuality => Form.ofVirtuality virtuality mode
  | static => Form.ofSpecifier "static " mode
  | friend => Form.ofSpecifier "friend " mode
  | allocator | standalone => Form.ofSpecifier [] mode

namespace Function

def isPure (f : Function) : Bool :=
  f.kind.virtuality? == some .pure

/-- The function is written with a body in the mode. -/
def hasDefinition (f : Function) (chain : ClassChain) (mode : Mode) : Bool :=
  f.kind.form mode == .definition && chain.accepts mode

/-- The classes that qualify the name of the definition. A friend is in no class. -/
def classScopes (f : Function) (chain : ClassChain) (mode : Mode) : List Text :=
  if f.kind = .friend then [] else chain.scopes mode

def signature (f : Function) (name args : Text) : Text :=
  Text.onlyIf (!f.returnType.isEmpty) (f.returnType ++ " ") ++ name ++ "(" ++ args ++ ")" ++
    Text.onlyIf f.isConst " const"

/-- The type of what the body returns, if it returns anything. -/
def returnedType? (f : Function) : Option Text :=
  let returned :=
    match f.kind with
    | .castOperator _ => Text.dropLead? "operator " (splitQualified f.name).2
    | _ => some (normalizeReturnType f.returnType)
  returned.filter fun t => !t.isEmpty && t != ("void" : Text)

/-- The body of a new definition: it returns a variable of the right type. -/
def stub (f : Function) : Lines :=
  match f.returnedType? with
  | none => Lines.empty
  | some returned =>
    let type :=
      match Text.dropTail? " &" returned with
      | some referenced => "static " ++ referenced
      | none => returned
    Lines.line (type ++ " returnValue;") ++ Lines.line "return returnValue;"

def definition (f : Function) (chain : ClassChain) (o : RenderOptions) : Lines :=
  let name := qualifiedName o (f.classScopes chain o.mode) f.name
  definitionLines (f.signature name (stripDefaults f.args)) f.stub

def render (f : Function) (chain : ClassChain) (o : RenderOptions) : Lines :=
  if !chain.accepts o.mode || !o.admits f.span then Lines.empty
  else
    match f.kind.form o.mode with
    | .skip => Lines.empty
    | .declaration before after => Lines.line (before ++ f.signature f.name f.args ++ after ++ ";")
    | .definition => f.definition chain o

/-- Same name, types and constness. -/
def equals (f g : Function) : Bool :=
  splitQualified f.name == splitQualified g.name &&
    normalizeReturnType f.returnType == normalizeReturnType g.returnType &&
    argumentsEqual f.args g.args && f.isConst == g.isConst

end Function

/-! ## Constructors -/

namespace Constructor

/-- The constructor is written with a body in the mode. -/
def hasDefinition (c : Constructor) (chain : ClassChain) (mode : Mode) : Bool :=
  mode.isSource && c.defaulted.isNone && chain.accepts mode

def declaration (c : Constructor) (name : Text) : Lines :=
  Lines.line (Text.onlyIf c.isExplicit "explicit " ++ name ++ "(" ++ c.args ++ ")" ++
    Defaulted.ending c.defaulted ++ ";")

def render (c : Constructor) (chain : ClassChain) (o : RenderOptions) : Lines :=
  if !chain.accepts o.mode || !o.admits c.span then Lines.empty
  else
    let name := chain.ownName o.mode
    match o.mode with
    | .header | .implHeader => c.declaration name
    | .source | .implSource =>
      if c.defaulted.isNone then
        definitionLines
          (qualifiedName o (chain.scopes o.mode) name ++ "(" ++ stripDefaults c.args ++ ")")
          Lines.empty
      else Lines.empty
    | .interfaceHeader | .factoryHeader => Lines.empty

/-- Same parameter types. -/
def equals (c d : Constructor) : Bool :=
  argumentsEqual c.args d.args

end Constructor

/-! ## Destructors -/

namespace Destructor

/-- The destructor is written with a body in the mode. The implementation of an interface always
gets one. -/
def hasDefinition (d : Destructor) (chain : ClassChain) : Mode → Bool
  | .source => d.defaulted.isNone
  | .implSource => chain.isInterface
  | _ => false

def render (d : Destructor) (chain : ClassChain) (o : RenderOptions) : Lines :=
  if !o.admits d.span then Lines.empty
  else
    let name := "~" ++ chain.ownName o.mode
    match o.mode with
    | .header =>
      Lines.line (Text.onlyIf d.isVirtual "virtual " ++ name ++ "()" ++
        Defaulted.ending d.defaulted ++ ";")
    | .interfaceHeader | .factoryHeader => Lines.line ("virtual " ++ name ++ "() = default;")
    | .implHeader => if chain.isInterface then Lines.line (name ++ "() override;") else Lines.empty
    | .source | .implSource =>
      if d.hasDefinition chain o.mode then
        definitionLines (qualifiedName o (chain.scopes o.mode) name ++ "()") Lines.empty
      else Lines.empty

/-- Both virtual or neither. -/
def equals (d e : Destructor) : Bool :=
  d.isVirtual == e.isVirtual

end Destructor

end HeaderSync

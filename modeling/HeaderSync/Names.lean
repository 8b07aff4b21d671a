import HeaderSync.Mode

/-!
# Names of classes

A class has its declared name in the file it was parsed from, and other names in the other modes.
The name of an implementation, and that of an interface, is asked of a `NameProvider`, each at most
once for a class.

* `NamePattern`: a pattern for the names of interfaces, such as `I${name}`, and its inverse.
* `ConfiguredNames`: a provider that knows some names and forms the others by a pattern.
* `ClassNames.resolve`: asks for the names that some modes need.
* `ClassNames.name`, `ClassNames.resolvedName`: the name in a mode.
* `ClassChain.scopes`, `ClassChain.scopedName`: the name of a nested class with those of the classes
  around it.
-/

namespace HeaderSync

open Text

/-! ## Patterns of names -/

/-- What stands for the name of the class in a pattern. -/
def namePlaceholder : Text := "$\x7bname\x7d"

/-- The name of an interface with a placeholder for that of the class. -/
structure NamePattern where
  text : Text
deriving DecidableEq, Repr

namespace NamePattern

def default : NamePattern := ⟨"I" ++ namePlaceholder⟩

def interfaceName (pattern : NamePattern) (name : Text) : Text :=
  replaceAll namePlaceholder name pattern.text

/-- The name for which the pattern gives `interface`. -/
def implementationName? (pattern : NamePattern) (interface : Text) : Option Text := do
  let (before, after) ← splitOnce? namePlaceholder pattern.text
  let name ← dropTail? after (← dropLead? before interface)
  if name.isEmpty || name.any isBlank then none else some name

end NamePattern

/-- So `IShape` becomes `Shape`, and any other name gets `Impl` behind it. -/
def defaultImplementationName (interface : Text) : Text :=
  match interface with
  | 'I' :: next :: rest => if 'A' ≤ next && next ≤ 'Z' then next :: rest else interface ++ "Impl"
  | _ => interface ++ "Impl"

/-! ## Providers -/

/-- A name that the parsed text does not give. -/
inductive NameQuestion where
  /-- The class that implements `interface`. -/
  | implementationOf (interface : Text)
  /-- The interface taken from `className`. -/
  | interfaceOf (className : Text)
deriving DecidableEq, Repr

/-- Answers to all questions. -/
abbrev NameProvider := NameQuestion → Text

/-- Names of implementations that are known, and a pattern for the others. -/
structure ConfiguredNames where
  pattern : NamePattern
  fixed : List (Text × Text)
deriving DecidableEq, Repr

namespace ConfiguredNames

def default : ConfiguredNames := ⟨.default, []⟩

/-- A fixed name first, then the name that the pattern gives, then the default. -/
def implementationName (names : ConfiguredNames) (interface : Text) : Text :=
  match names.fixed.lookup interface with
  | some name => name
  | none =>
    (names.pattern.implementationName? interface).getD (defaultImplementationName interface)

def provider (names : ConfiguredNames) : NameProvider
  | .implementationOf interface => names.implementationName interface
  | .interfaceOf className => names.pattern.interfaceName className

end ConfiguredNames

/-! ## Names of one class -/

/-- The name of a class in its file, whether it is an interface, and the names provided for it, each
under the mode that needs it. -/
structure ClassNames where
  declared : Text
  isInterface : Bool
  implHeader : Option Text
  implSource : Option Text
  interfaceHeader : Option Text
deriving DecidableEq, Repr

namespace ClassNames

def ofDeclared (declared : Text) (isInterface : Bool) : ClassNames :=
  ⟨declared, isInterface, none, none, none⟩

/-- Only an interface has an implementation. -/
def accepts (names : ClassNames) (mode : Mode) : Bool :=
  !mode.isImplementation || names.isInterface

/-- The name provided for the mode. -/
def provided? (names : ClassNames) : Mode → Option Text
  | .implHeader => names.implHeader
  | .implSource => names.implSource
  | .interfaceHeader => names.interfaceHeader
  | _ => none

/-- Asks for the name that the mode needs, unless it is known. The answer about an implementation is
for its header and for its source. -/
def resolveOne {m : Type → Type} [Monad m] (ask : NameQuestion → m Text) (mode : Mode)
    (names : ClassNames) : m ClassNames :=
  if (names.provided? mode).isSome then pure names
  else
    match mode with
    | .implHeader | .implSource =>
      if names.isInterface then do
        let name ← ask (.implementationOf names.declared)
        return { names with implHeader := some name, implSource := some name }
      else pure names
    | .interfaceHeader => do
      return { names with interfaceHeader := some (← ask (.interfaceOf names.declared)) }
    | _ => pure names

/-- Asks for the names that the modes need, one mode after the other. -/
def resolveWith {m : Type → Type} [Monad m] (ask : NameQuestion → m Text) (modes : List Mode)
    (names : ClassNames) : m ClassNames :=
  modes.foldlM (fun names mode => names.resolveOne ask mode) names

/-- The names that `provider` gives for the modes; known ones stay. -/
def resolve (provider : NameProvider) (modes : List Mode) (names : ClassNames) : ClassNames :=
  names.resolveWith (m := Id) provider modes

/-- The name that the class has in the mode when none was provided. -/
def fallback (names : ClassNames) : Mode → Text
  | .header | .source => names.declared
  | .implHeader | .implSource =>
    if names.isInterface then defaultImplementationName names.declared else names.declared
  | .interfaceHeader => NamePattern.default.interfaceName names.declared
  | .factoryHeader => names.declared ++ "Factory"

/-- The name of the class in the mode. -/
def name (names : ClassNames) (mode : Mode) : Text :=
  (names.provided? mode).getD (names.fallback mode)

/-- The name provided for the mode, or else the declared one: a class of an existing file is what it
is called there. -/
def resolvedName (names : ClassNames) (mode : Mode) : Text :=
  (names.provided? mode).getD names.declared

end ClassNames

/-! ## Nested classes -/

/-- The names of classes, each nested in the one before it. -/
abbrev ClassChain := List ClassNames

namespace ClassChain

/-- The name of every class of the chain. -/
def scopes (chain : ClassChain) (mode : Mode) : List Text :=
  chain.map fun names => names.name mode

/-- The name `Outer::Inner` of the innermost class. -/
def scopedName (chain : ClassChain) (mode : Mode) : Text :=
  joinWith "::" (chain.scopes mode)

/-- A member of the innermost class can be written in the mode; so can what is in no class, unless
the mode is about an implementation. -/
def accepts (chain : ClassChain) (mode : Mode) : Bool :=
  match chain.getLast? with
  | some names => names.accepts mode
  | none => !mode.isImplementation

/-- The name of the innermost class in the mode. -/
def ownName (chain : ClassChain) (mode : Mode) : Text :=
  chain.getLast?.elim [] fun names => names.name mode

/-- The innermost class is an interface. -/
def isInterface (chain : ClassChain) : Bool :=
  chain.getLast?.any ClassNames.isInterface

end ClassChain

end HeaderSync

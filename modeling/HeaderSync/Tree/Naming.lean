import HeaderSync.Tree.Basic

/-!
# Names in trees

`Namespace.provideNames` asks a provider for the names that some modes need, for every class of the
tree.
-/

namespace HeaderSync

namespace Class

mutual

def provideNames (provider : NameProvider) (modes : List Mode) : Class → Class
  | ⟨names, keyword, bases, span, destructor, constructors, functions, nested⟩ =>
    ⟨names.resolve provider modes, keyword, bases, span, destructor, constructors, functions,
      provideAll provider modes nested⟩
termination_by structural c => c

def provideAll (provider : NameProvider) (modes : List Mode) :
    List (Access × Class) → List (Access × Class)
  | [] => []
  | (access, c) :: rest => (access, c.provideNames provider modes) :: provideAll provider modes rest
termination_by structural cs => cs

end

end Class

namespace Namespace

mutual

def provideNames (provider : NameProvider) (modes : List Mode) : Namespace → Namespace
  | ⟨name, span, body, functions, classes, nested, blankOutside⟩ =>
    ⟨name, span, body, functions, classes.map (·.provideNames provider modes),
      provideAll provider modes nested, blankOutside⟩
termination_by structural n => n

def provideAll (provider : NameProvider) (modes : List Mode) : List Namespace → List Namespace
  | [] => []
  | n :: rest => n.provideNames provider modes :: provideAll provider modes rest
termination_by structural ns => ns

end

end Namespace

end HeaderSync

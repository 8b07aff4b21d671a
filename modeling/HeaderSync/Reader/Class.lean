import HeaderSync.Reader.Basic

/-!
# Reading classes

A class is read from the inside of its braces: enumerations and nested classes are cut out, then
inline definitions, then what is left is parted by its access labels (`partition`), and each part is
searched for destructors, constructors and functions.
-/

namespace HeaderSync.Reader

open Shapes BodyPattern

/-- Words that no return type of a member contains. -/
def memberForbidden : List Text :=
  ["static", "operator", "friend", "virtual", "typedef", "using", "return", "template", "explicit"]

/-- Words that no return type of a function outside classes contains. -/
def freeForbidden : List Text :=
  ["operator", "friend", "virtual", "typedef", "using", "return", "template"]

/-! ## What is cut out first -/

def enumOrUnion : BodyPattern := (braces enumOrUnionHead).withTail (.lit ";")

def classUnit : BodyPattern := (braces classHead).withTail (.lit ";")

/-- The fragment without inline definitions and without any group in braces left behind. -/
def eraseInline (f : Fragment) : Fragment :=
  (braces .empty).erase ((braces inlineHead).erase f)

/-! ## Sections -/

/-- The access labels of a class body. -/
def labelsIn (body : Fragment) : List (Access × Span) :=
  (body.find accessLabel).filterMap fun hit =>
    (Access.read? (hit.group 1)).map fun access => (access, hit.span)

/-- The access in force at an offset. -/
def accessAt (labels : List (Access × Span)) (default : Access) (offset : Nat) : Access :=
  ((labels.takeWhile fun label => label.2.first < offset).getLast?.map (·.1)).getD default

/-- The spans after each label, up to the next one or to `last`. -/
def sectionSpans (last : Nat) : List (Access × Span) → List (Access × Span)
  | [] => []
  | (access, label) :: rest =>
    let until_ := rest.head?.elim last fun next => next.2.first - 1
    ((Span.between? label.stop until_).map fun span => (access, span)).toList ++
      sectionSpans last rest

/-- The parts of a class body under each access, and what remains. -/
structure Sections where
  parts : Access → Fragment
  rest : Fragment

/-- Parts a class body by its labels. What stands before the first label has the default access. -/
def partition (body : Fragment) (labels : List (Access × Span)) (default : Access) : Sections :=
  match body.last? with
  | none => { parts := fun _ => Fragment.empty, rest := body }
  | some last =>
    let spans := sectionSpans last labels
    let (outside, rest) := (body.splice (spans.map (·.2))).takeOutside accessLabel
    let blocks := outside.filterMap fun piece => Block.ofText? piece.text piece.span.first
    { parts := fun access =>
        let inside := body.slice (itemsIn access spans)
        if access = default then inside.union ⟨blocks⟩ else inside
      rest }

/-! ## Members -/

def destructorOf (access : Access) (hit : Hit) : Destructor where
  isVirtual := hit.hasGroup 1 || hit.hasGroup 2
  defaulted := Defaulted.read? (hit.group 3)
  access := access
  span := hit.span

def constructorOf (hit : Hit) : Constructor where
  args := Text.trim (hit.group 2)
  isExplicit := hit.hasGroup 1
  defaulted := Defaulted.read? (hit.group 3)
  span := hit.span

def virtuality (isVirtual isOverride isPure : Bool) : Virtuality :=
  if isPure then .pure
  else if isOverride then .override
  else if isVirtual then .virtual
  else .none

def allocatorOf (hit : Hit) : Function where
  name := "operator " ++ hit.group 2 ++ Text.onlyIf (hit.hasGroup 3) "[]"
  returnType := Text.collapse (hit.group 1)
  args := Text.trim (hit.group 4)
  isConst := false
  kind := .allocator
  span := hit.span

/-- A pure conversion that is not virtual is none. -/
def castOperatorOf? (hit : Hit) : Option Function :=
  if hit.hasGroup 5 && !hit.hasGroup 1 then none
  else some
    { name := "operator " ++ Text.collapse (hit.group 2)
      returnType := []
      args := []
      isConst := hit.hasGroup 3
      kind := .castOperator (virtuality (hit.hasGroup 1) (hit.hasGroup 4) (hit.hasGroup 5))
      span := hit.span }

def friendOf (hit : Hit) : Function where
  name := hit.group 2
  returnType := Text.trim (hit.group 1)
  args := Text.trim (hit.group 3)
  isConst := hit.hasGroup 4
  kind := .friend
  span := hit.span

/-- A pure function that is not virtual is none. -/
def memberOf? (hit : Hit) : Option Function :=
  let isVirtual := hit.group 1 == ("virtual" : Text)
  if hit.hasGroup 7 && !isVirtual then none
  else some
    { name := hit.group 3
      returnType := Text.trim (hit.group 2)
      args := Text.trim (hit.group 4)
      isConst := hit.hasGroup 5
      kind :=
        if hit.group 1 == ("static" : Text) then .static
        else .member (virtuality isVirtual (hit.hasGroup 6) (hit.hasGroup 7))
      span := hit.span }

def friendUnit : BodyPattern :=
  ((parens friendHead).withTail friendEnding).only fun hit =>
    plausibleSignature freeForbidden (hit.group 1) (hit.group 2)

def memberUnit : BodyPattern :=
  ((parens memberHead).withTail (memberEnding 1)).only fun hit =>
    plausibleSignature memberForbidden (hit.group 2) (hit.group 3)

/-- The members found in one part of a class body. -/
structure SectionMembers where
  destructors : List Destructor
  constructors : List Constructor
  functions : List Function

/-- Reads a part of the body of the class `className`: destructors, constructors, allocators,
conversions, friends, then all other functions. The functions are put in the order of the document.
-/
def readSection (className : Text) (access : Access) (part : Fragment) : SectionMembers :=
  let (destructors, part) := part.takeOut (destructor className)
  let (constructors, part) :=
    ((parens (constructorHead className)).withTail constructorEnding).takeOut part
  let (allocators, part) := ((parens allocatorHead).withTail (.lit ";")).takeOut part
  let (casts, part) := part.takeOut castOperator
  let (friends, part) := friendUnit.takeOut part
  let (members, _) := memberUnit.takeOut part
  let functions := allocators.map allocatorOf ++ casts.filterMap castOperatorOf? ++
    friends.map friendOf ++ members.filterMap memberOf?
  { destructors := destructors.map (destructorOf access)
    constructors := constructors.map constructorOf
    functions := functions.mergeSort fun f g => f.span.first ≤ g.span.first }

/-! ## Classes -/

/-- A class is an interface if its own text, nested types left out, declares something pure. -/
def isInterfaceBody (body : Fragment) : Bool :=
  (enumOrUnion.erase (classUnit.erase body)).isMatch pureVirtual

/-- The class of a unit, given its nested classes and the rest of its body. -/
def assembleClass (hit : Hit) (nested : List Class) (body : Fragment) : Except ParseError Class :=
  let keyword := ClassKeyword.read (hit.group 1)
  let name := hit.group 2
  let body := eraseInline body
  let labels := labelsIn body
  let parts := (partition body labels keyword.defaultAccess).parts
  let members := Access.all.map fun access => (access, readSection name access (parts access))
  let destructors := members.flatMap fun section_ => section_.2.destructors
  if 1 < destructors.length then .error (.multipleDestructors name destructors.length)
  else .ok
    { names := ClassNames.ofDeclared name (isInterfaceBody (hit.groupFragment 4))
      keyword
      bases := ((Signature.splitTopLevel ',' (hit.group 3)).map Text.trim).filter fun base =>
        !base.isEmpty
      span := hit.span
      destructor := destructors.head?
      constructors := members.flatMap fun (access, section_) =>
        section_.constructors.map fun c => (access, c)
      functions := members.flatMap fun (access, section_) =>
        section_.functions.map fun f => (access, f)
      nested := nested.map fun c => (accessAt labels keyword.defaultAccess c.span.first, c) }

/-- Reads the classes of a fragment, and cuts them out of it. The body of a class is shorter than
the fragment, so `fuel` is the length of the fragment. -/
def readClasses : (fuel : Nat) → Fragment → Except ParseError (List Class × Fragment)
  | 0, f => .ok ([], f)
  | fuel + 1, f => do
    let (hits, rest) := classUnit.takeOut f
    let classes ← hits.mapM fun hit => do
      let (nested, body) ← readClasses fuel (enumOrUnion.erase (hit.groupFragment 4))
      assembleClass hit nested body
    return (classes, rest)

end HeaderSync.Reader

import HeaderSync.Reader.Class

/-!
# Reading headers

A header declares: classes with their members, and functions outside classes.
-/

namespace HeaderSync

namespace Reader

open Shapes

def standaloneOf (hit : Hit) : Function where
  name := hit.group 2
  returnType := Text.trim (hit.group 1)
  args := Text.trim (hit.group 3)
  isConst := false
  kind := .standalone
  span := hit.span

def standaloneUnit : BodyPattern :=
  ((BodyPattern.parens standaloneHead).withTail standaloneEnding).only fun hit =>
    plausibleSignature freeForbidden (hit.group 1) (hit.group 2)

def headerMembers : MemberReader := fun body => do
  let body := enumOrUnion.erase body
  let (classes, body) ← readClasses (body.length + 1) body
  let (functions, _) := standaloneUnit.takeOut (eraseInline body)
  return (classes, functions.map standaloneOf)

end Reader

/-- Reads the declarations of a header. -/
def readHeader (document : Text) : Except ParseError Namespace :=
  Reader.readDocument Reader.headerMembers document

end HeaderSync

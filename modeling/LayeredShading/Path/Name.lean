/-!
# Names

A prim name consists of ASCII letters, digits and underscores and does not start with a digit. A
property name is one or more parts joined by single colons; a part consists of the same characters
and may start with a digit.
-/

namespace LayeredShading

/-- Whether a character may stand in a name: an ASCII letter or digit, or an underscore. -/
def isNameChar (char : Char) : Bool :=
  char.isAlphanum || char == '_'

/-- Whether a text is the name of a prim, a variant set or a variant. -/
def isPrimName (name : String) : Bool :=
  match name.toList with
  | [] => false
  | first :: rest => isNameChar first && !first.isDigit && rest.all isNameChar

/-- Whether characters continue a property name, after a colon or at the start if `fresh`, and
within a part otherwise. -/
def continuesPropertyName (fresh : Bool) : List Char → Bool
  | [] => !fresh
  | ':' :: rest => !fresh && continuesPropertyName true rest
  | char :: rest => isNameChar char && continuesPropertyName false rest

/-- Whether a text is the name of a property. -/
def isPropertyName (name : String) : Bool :=
  continuesPropertyName true name.toList

end LayeredShading

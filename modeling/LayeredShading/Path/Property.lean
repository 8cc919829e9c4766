import LayeredShading.Path.Reader
import LayeredShading.Text.Split

/-!
# Property paths

A property path names an attribute of a prim. Its text is the path of the prim, a dot and the name
of the property; names contain no dot, so the last dot of a text is the one that separates.
-/

namespace LayeredShading

/-- The path of an attribute: its prim and its name. -/
structure PropertyPath where
  prim : PrimPath
  name : String
  deriving DecidableEq, Repr, Inhabited

namespace PropertyPath

/-- The text of a property path. -/
def text (path : PropertyPath) : String :=
  path.prim.text ++ "." ++ path.name

/-- The same property of another prim. -/
def withPrim (path : PropertyPath) (prim : PrimPath) : PropertyPath :=
  { path with prim }

end PropertyPath

namespace PrimPath

/-- The path of a property of the prim. The root has no properties. -/
def property (path : PrimPath) (name : String) : Except Error PropertyPath :=
  if path.isRoot || !isPropertyName name then .error (.invalidPath (path.text ++ "." ++ name))
  else .ok ⟨path, name⟩

end PrimPath

namespace PropertyPath

/-- The property path that a text spells. -/
def parse (text : String) : Except Error PropertyPath :=
  match Text.splitAtLast? '.' text with
  | none => .error (.invalidPath text)
  | some (prim, name) => do (← PrimPath.parse prim).property name

end PropertyPath

end LayeredShading

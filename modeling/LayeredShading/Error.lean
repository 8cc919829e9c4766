/-!
# Errors

Every operation that can fail gives one of these causes. `Error.message` is the text shown to a
user and `Error.kind` the group that a caller acts on. Names of prims, sets and variants appear as
the texts that the caller wrote.
-/

namespace LayeredShading

/-- Why an operation failed. -/
inductive Error where
  /-- Something that cannot be authored was asked for. -/
  | invalidArgument (reason : String)
  /-- The prim does not declare the variant set. -/
  | unknownVariantSet (prim set : String)
  /-- The variant set does not declare the variant. -/
  | unknownVariant (prim set variant : String)
  /-- Two variants of one set would have the same name. -/
  | duplicateVariant (name : String)
  /-- A base material would inherit from the material that it is meant for. -/
  | baseMaterialCycle (material base : String)
  /-- An edit scope was used after its release. -/
  | staleEditScope (scope : String)
  /-- No opinion is authored at the path. -/
  | primNotFound (path : String)
  /-- The layer stack has no layer of that index. -/
  | layerOutOfBounds (index count : Nat)
  /-- The text is not a path, or the path is not one that can be used here. -/
  | invalidPath (path : String)
  /-- The value does not fit the declared type. -/
  | invalidValue (reason : String)
  /-- A file could not be read or written. -/
  | fileAccess (reason : String)
  /-- The text is not a scene file. -/
  | malformedText (reason : String)
  /-- Any other cause. -/
  | other (reason : String)
  deriving DecidableEq, Repr, Inhabited

/-- The group of an error. -/
inductive ErrorKind where
  /-- The caller passed something that cannot be authored. -/
  | invalidArgument
  /-- The operation went through a handle that is no longer usable. -/
  | state
  /-- A path, value, file or stored prim is at fault. -/
  | store
  deriving DecidableEq, Repr

namespace Error

/-- The group that an error belongs to. -/
def kind : Error → ErrorKind
  | invalidArgument _ | unknownVariantSet .. | unknownVariant .. | duplicateVariant _
  | baseMaterialCycle .. | layerOutOfBounds .. => .invalidArgument
  | staleEditScope _ => .state
  | primNotFound _ | invalidPath _ | invalidValue _ | fileAccess _ | malformedText _
  | other _ => .store

/-- Whether the caller passed something that cannot be authored. -/
def isInvalidArgument (error : Error) : Bool :=
  error.kind == .invalidArgument

/-- The text shown to a user. -/
def message : Error → String
  | invalidArgument reason => "Invalid argument: " ++ reason
  | unknownVariantSet prim set => "Unknown variant set '" ++ set ++ "' on " ++ prim
  | unknownVariant prim set variant =>
    "Unknown variant '" ++ variant ++ "' in variant set '" ++ set ++ "' on " ++ prim
  | duplicateVariant name => "Duplicate variant name '" ++ name ++ "'"
  | baseMaterialCycle material base =>
    "Base material " ++ base ++ " of " ++ material ++ " forms a cycle"
  | staleEditScope scope => "Edit scope for " ++ scope ++ " has already been released"
  | primNotFound path => "Prim not found: " ++ path
  | layerOutOfBounds index count =>
    "Layer index " ++ toString index ++ " out of bounds (count: " ++ toString count ++ ")"
  | invalidPath path => "Invalid path: " ++ path
  | invalidValue reason => "Invalid value: " ++ reason
  | fileAccess reason => "I/O error: " ++ reason
  | malformedText reason => "JSON error: " ++ reason
  | other reason => reason

end Error

end LayeredShading

import LayeredShading.Stage.Basic

/-!
# Authoring

An edit is a program that reads and changes a stage and may fail; what it has changed before it
fails stays changed. The operations here check their arguments first. They write one spec of the
layer that the edit target names, at the path that the target maps the prim to; only
`Edit.definePrim` may make further specs, for prims above that do not exist yet.
-/

namespace LayeredShading

/-- A program that changes a stage. -/
abbrev Edit := EStateM Error Stage

namespace Edit

/-- Fail with the error of a result that is one. -/
def check {α : Type} : Except Error α → Edit α
  | .ok value => pure value
  | .error error => throw error

/-- Change the spec of a prim at the edit target, where a blank one is made if there is none. -/
def changeSpec (path : PrimPath) (specifier : Specifier) (change : PrimSpec → PrimSpec) :
    Edit Unit := do
  let stage ← get
  let target := stage.target
  if target.layer < stage.layers.length then
    set { stage with layers := stage.layers.modify target.layer fun layer =>
            layer.changeSpec (target.specPath path) specifier change }
  else throw (.layerOutOfBounds target.layer stage.layers.length)

/-- Change the spec of a prim at the edit target if there is one. -/
def changeOwnSpec (path : PrimPath) (change : PrimSpec → PrimSpec) : Edit Unit :=
  modify fun stage =>
    { stage with layers := stage.layers.modify stage.target.layer fun layer =>
        layer.changeOwnSpec (stage.target.specPath path) change }

/-- The composed prim at a path, which has to exist. -/
def requirePrim (path : PrimPath) : Edit ComposedPrim := do
  match (← get).prim? path with
  | some prim => return prim
  | none => throw (.primNotFound path.text)

/-- The composed attribute at a path, which has to be declared. -/
def requireAttribute (path : PropertyPath) : Edit ComposedAttribute := do
  match (← requirePrim path.prim).attribute? path.name with
  | some composed => return composed
  | none => throw (.invalidArgument ("attribute " ++ path.text ++ " is not declared"))

/-- The variant set of a prim, which has to be declared. -/
def requireVariantSet (path : PrimPath) (set : String) : Edit ComposedVariantSet := do
  match (← requirePrim path).variantSet? set with
  | some composed => return composed
  | none => throw (.unknownVariantSet path.text set)

/-- The variant set of a prim, which has to declare a variant. -/
def requireVariant (path : PrimPath) (choice : VariantChoice) : Edit Unit := do
  if !(← requireVariantSet path choice.set).hasVariant choice.variant then
    throw (.unknownVariant path.text choice.set choice.variant)

/-- Refuse a text that is no prim name; variant sets and variants are named like prims. -/
def requireName (name : String) : Edit Unit := do
  let _ ← check (PrimPath.root.child name)

/-- Append a blank layer, which is weaker than all others, and give its index. -/
def addSublayer (identifier : String) : Edit Nat := do
  let stage ← get
  set { stage with layers := stage.layers ++ [Layer.blank identifier] }
  return stage.layers.length

/-- Let authoring go to another target. -/
def setTarget (target : EditTarget) : Edit Unit := do
  let stage ← get
  if target.layer < stage.layers.length then set { stage with target }
  else throw (.layerOutOfBounds target.layer stage.layers.length)

/-- Define a prim, and the prims above it that do not exist. -/
def definePrim (path : PrimPath) (typeName : Option String) : Edit Unit := do
  check path.requireScenePath
  path.ancestry.dropLast.forM fun above => do
    if !(← get).hasPrim above then changeSpec above .define id
  changeSpec path .define fun spec => { spec with typeName := typeName <|> spec.typeName }

/-- Make a spec for a prim that exists. -/
def overridePrim (path : PrimPath) : Edit Unit := do
  check path.requireScenePath
  let _ ← requirePrim path
  changeSpec path .override id

/-- Declare an attribute of a prim that exists. -/
def createAttribute (path : PropertyPath) (type : ValueType) (custom : Bool) : Edit Unit := do
  if let some existing := (← requirePrim path.prim).attribute? path.name then
    if existing.type ≠ type then
      throw (.invalidArgument ("attribute " ++ path.text ++ " is declared as " ++
        existing.type.name ++ ", not " ++ type.name))
  changeSpec path.prim .override fun spec =>
    spec.changeAttribute path.name (.declare type custom) id

/-- Set the default of a declared attribute. -/
def setDefault (path : PropertyPath) (value : Value) : Edit Unit := do
  let composed ← requireAttribute path
  if value.type ≠ composed.type then
    throw (.invalidValue (path.text ++ " is a " ++ composed.type.name ++ ", got " ++
      value.type.name))
  changeSpec path.prim .override fun spec =>
    spec.changeAttribute path.name (.declare composed.type composed.custom)
      fun own => { own with default := some value }

/-- Remove the default of an attribute at the edit target. -/
def clearDefault (path : PropertyPath) : Edit Unit :=
  changeOwnSpec path.prim fun spec =>
    spec.changeOwnAttribute path.name fun own => { own with default := none }

/-- Set the connections of a declared attribute. No connections are an opinion, too. -/
def setConnections (path : PropertyPath) (sources : List PropertyPath) : Edit Unit := do
  let composed ← requireAttribute path
  if let some source := sources.find? fun source => source.prim.hasChoices then
    throw (.invalidPath source.text)
  changeSpec path.prim .override fun spec =>
    spec.changeAttribute path.name (.declare composed.type composed.custom)
      fun own => { own with connections := some sources }

/-- Add a connection to a declared attribute as the last one. Where the edit target says nothing
about the connections yet, it takes over the composed ones. -/
def addConnection (path source : PropertyPath) : Edit Unit := do
  let composed ← requireAttribute path
  if source.prim.hasChoices then throw (.invalidPath source.text)
  changeSpec path.prim .override fun spec =>
    spec.changeAttribute path.name (.declare composed.type composed.custom) fun own =>
      let before := own.connections.getD composed.connections
      { own with connections := some (before.filter (· ≠ source) ++ [source]) }

/-- Remove what the edit target says about the connections of an attribute. -/
def clearConnections (path : PropertyPath) : Edit Unit :=
  changeOwnSpec path.prim fun spec =>
    spec.changeOwnAttribute path.name fun own => { own with connections := none }

/-- Let a prim refer to another. -/
def addReference (path source : PrimPath) : Edit Unit := do
  check source.requireScenePath
  let _ ← requirePrim path
  changeSpec path .override fun spec => { spec with references := addNew spec.references source }

/-- Set the prims that a prim specializes. -/
def setSpecializes (path : PrimPath) (sources : List PrimPath) : Edit Unit := do
  sources.forM fun source => check source.requireScenePath
  let _ ← requirePrim path
  changeSpec path .override fun spec => { spec with specializes := some sources }

/-- Remove what the edit target says about the prims that a prim specializes. -/
def clearSpecializes (path : PrimPath) : Edit Unit :=
  changeOwnSpec path fun spec => { spec with specializes := none }

/-- Declare a variant set. -/
def addVariantSet (path : PrimPath) (set : String) : Edit Unit := do
  requireName set
  let _ ← requirePrim path
  changeSpec path .override fun spec => spec.addVariantSet set

/-- Declare a variant, and its set if it is not declared yet. -/
def addVariant (path : PrimPath) (choice : VariantChoice) : Edit Unit := do
  requireName choice.set
  requireName choice.variant
  let _ ← requirePrim path
  changeSpec path .override fun spec => spec.addVariants choice.set [choice.variant]

/-- Select a declared variant. -/
def selectVariant (path : PrimPath) (choice : VariantChoice) : Edit Unit := do
  requireVariant path choice
  changeSpec path .override fun spec =>
    { spec with variantSelection := spec.variantSelection.insert choice.set choice.variant }

/-- Remove the selection of a variant set at the edit target. -/
def clearSelection (path : PrimPath) (set : String) : Edit Unit :=
  changeOwnSpec path fun spec =>
    { spec with variantSelection := spec.variantSelection.erase set }

end Edit

end LayeredShading

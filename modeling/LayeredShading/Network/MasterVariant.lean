import LayeredShading.Network.EditScope

/-!
# Master variants

A master material is a prim with one variant per material of a list, each of which refers to its
material. Selecting a variant then makes the master stand in for that material. Everything is
checked before anything is authored.
-/

namespace LayeredShading

namespace MasterVariant

/-- Refuse a material of the list that cannot be a variant of the master, where `taken` are the
names of the variants before it and `existing` is the variant set as it is. -/
def checkMaterial (stage : Stage) (master : PrimPath) (existing : Option ComposedVariantSet)
    (taken : List String) (material : PrimPath) : Except Error (List String) := do
  if !Material.isMaterial stage material then
    throw (Error.invalidArgument (material.text ++ " is not a material"))
  if master.overlaps material then
    throw (Error.invalidArgument (material.text ++ " cannot be a variant of " ++ master.text))
  let name := Material.name material
  if taken.contains name || existing.any fun set => set.hasVariant name then
    throw (Error.duplicateVariant name)
  return taken ++ [name]

/-- Refuse a master, a variant set or materials that master variants cannot be made of. -/
def check (stage : Stage) (master : PrimPath) (materials : List PrimPath) (set : String) :
    Except Error Unit := do
  if materials.isEmpty then
    throw (Error.invalidArgument "no materials for master variant")
  if !isPrimName set then
    throw (Error.invalidArgument ("bad variant set name '" ++ set ++ "'"))
  match stage.prim? master with
  | none => throw (Error.invalidArgument ("master prim " ++ master.text ++ " does not exist"))
  | some composed =>
    let _ ← materials.foldlM (checkMaterial stage master (composed.variantSet? set)) []

/-- Add a variant for one material to the master. -/
def addMaterial (master : PrimPath) (set : String) (material : PrimPath) : Edit Unit := do
  let choice : VariantChoice := ⟨set, Material.name material⟩
  Edit.addVariant master choice
  EditScope.during master choice none (Edit.addReference master material)

/-- Make one variant per material on the master, named after the materials' prims and in their
order. The selection stays as it is. -/
def create (master : PrimPath) (materials : List PrimPath) (set : Option String) : Edit Unit := do
  let set := set.getD Material.variantSet
  Edit.check (check (← get) master materials set)
  materials.forM (addMaterial master set)

end MasterVariant

end LayeredShading

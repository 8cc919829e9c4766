import LayeredShading.Text.Quoted

/-!
# Prim metadata

Metadata maps keys to texts and lists them in the order in which they were first set. `set`
overwrites in place, and `fillFrom` adds only the keys that are not there yet, which is how a
stronger opinion takes in a weaker one.
-/

namespace LayeredShading

/-- Entries in the order of their first setting. -/
structure Metadata where
  entries : List (String × String)
  deriving DecidableEq, Repr, Inhabited

namespace Metadata

/-- Metadata without entries. -/
def empty : Metadata := ⟨[]⟩

/-- The value of a key. -/
def get? (metadata : Metadata) (key : String) : Option String :=
  metadata.entries.lookup key

/-- Whether a key has a value. -/
def contains (metadata : Metadata) (key : String) : Bool :=
  metadata.entries.any fun entry => entry.1 == key

/-- The number of entries. -/
def size (metadata : Metadata) : Nat := metadata.entries.length

/-- Whether there is no entry. -/
def isEmpty (metadata : Metadata) : Bool := metadata.entries.isEmpty

/-- Set the value of a key in a list of entries: in place if the key is there, and at the end
otherwise. -/
def setEntry (key value : String) : List (String × String) → List (String × String)
  | [] => [(key, value)]
  | entry :: rest =>
    if entry.1 = key then (key, value) :: rest else entry :: setEntry key value rest

/-- Set the value of a key. -/
def set (metadata : Metadata) (key value : String) : Metadata :=
  ⟨setEntry key value metadata.entries⟩

/-- Remove a key. -/
def erase (metadata : Metadata) (key : String) : Metadata :=
  ⟨metadata.entries.eraseP fun entry => entry.1 == key⟩

/-- Remove a key, which gives back the value that it had. -/
def remove (metadata : Metadata) (key : String) : Option String × Metadata :=
  (metadata.get? key, metadata.erase key)

/-- Add the entries of weaker metadata whose keys are not there yet. -/
def fillFrom (metadata weaker : Metadata) : Metadata :=
  weaker.entries.foldl
    (fun filled entry => if filled.contains entry.1 then filled else ⟨filled.entries ++ [entry]⟩)
    metadata

/-- Set the listed entries one after the other. -/
def ofList (entries : List (String × String)) : Metadata :=
  entries.foldl (fun metadata entry => metadata.set entry.1 entry.2) empty

/-- The key of the model kind. -/
def kindKey : String := "kind"

/-- The key of the documentation. -/
def documentationKey : String := "documentation"

/-- The model kind. -/
def kind? (metadata : Metadata) : Option String := metadata.get? kindKey

/-- The documentation. -/
def documentation? (metadata : Metadata) : Option String := metadata.get? documentationKey

/-- The entries as text, separated by semicolons. -/
def text (metadata : Metadata) : String :=
  ";".intercalate (metadata.entries.map fun entry => entry.1 ++ "=" ++ entry.2)

/-- The entries as text with keys and values quoted. -/
def quotedText (metadata : Metadata) : String :=
  "\x7b" ++
    ", ".intercalate (metadata.entries.map fun entry =>
      Text.quote entry.1 ++ ": " ++ Text.quote entry.2) ++ "\x7d"

end Metadata

end LayeredShading

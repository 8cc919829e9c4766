import LayeredShading.Path.Basic

/-!
# Reading paths

The text of a path is a slash, for the root, or a slash and one or more segments. A segment is a
prim name followed by any number of choices `{set=variant}`. Two segments are separated by a
slash, which may be left out after a choice, and no slash stands at the end. The reader takes one
character at a time and keeps what it has read of the current segment.
-/

namespace LayeredShading

namespace PrimPath

/-- What has been read of a path: the finished segments and the open part of the next one. -/
inductive Scan where
  /-- After a slash, where a name has to start. -/
  | afterSlash (finished : List Segment)
  /-- Within a prim name. -/
  | inName (finished : List Segment) (name : String)
  /-- Within the name of a variant set. -/
  | inSet (finished : List Segment) (segment : Segment) (set : String)
  /-- Within the name of a variant. -/
  | inVariant (finished : List Segment) (segment : Segment) (set variant : String)
  /-- After a choice. -/
  | afterChoice (finished : List Segment) (segment : Segment)
  deriving DecidableEq, Repr

/-- The name continued by a character, if it is still a name then. -/
def continueName (name : String) (char : Char) : Option String :=
  if isPrimName (name.push char) then some (name.push char) else none

/-- Read one more character. -/
def Scan.next? (scan : Scan) (char : Char) : Option Scan :=
  match scan with
  | .afterSlash finished => (continueName "" char).map (.inName finished)
  | .inName finished name =>
    match char with
    | '/' => some (.afterSlash (finished ++ [.plain name]))
    | '\x7b' => some (.inSet finished (.plain name) "")
    | _ => (continueName name char).map (.inName finished)
  | .inSet finished segment set =>
    match char with
    | '=' => if set.isEmpty then none else some (.inVariant finished segment set "")
    | _ => (continueName set char).map (.inSet finished segment)
  | .inVariant finished segment set variant =>
    match char with
    | '\x7d' =>
      if variant.isEmpty then none
      else
        let choices := segment.choices ++ [⟨set, variant⟩]
        some (.afterChoice finished { segment with choices })
    | _ => (continueName variant char).map (.inVariant finished segment set)
  | .afterChoice finished segment =>
    match char with
    | '/' => some (.afterSlash (finished ++ [segment]))
    | '\x7b' => some (.inSet finished segment "")
    | _ => (continueName "" char).map (.inName (finished ++ [segment]))

/-- The segments of a text that ends here. -/
def Scan.finish? : Scan → Option (List Segment)
  | .inName finished name => some (finished ++ [.plain name])
  | .afterChoice finished segment => some (finished ++ [segment])
  | _ => none

/-- The path that characters spell. -/
def ofChars? : List Char → Option PrimPath
  | ['/'] => some root
  | '/' :: chars => do
    let scan ← chars.foldlM Scan.next? (.afterSlash [])
    return ⟨← scan.finish?⟩
  | _ => none

/-- The path that a text spells. -/
def parse (text : String) : Except Error PrimPath :=
  match ofChars? text.toList with
  | some path => .ok path
  | none => .error (.invalidPath text)

end PrimPath

end LayeredShading

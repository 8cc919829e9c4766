import LayeredShading.Path.Basic

/-!
# Edit targets

Authoring goes to one layer of the stack, and there it may be redirected into variants: an opinion
on a prim at or below the one that owns the variant set is then kept in the sub-tree of the
variant. `specPath` says where an opinion on a prim is kept.
-/

namespace LayeredShading

/-- A variant that authoring is redirected into, with the prim that owns its set. -/
structure Redirection where
  prim : PrimPath
  choice : VariantChoice
  deriving DecidableEq, Repr, Inhabited

namespace Redirection

/-- The redirection as text. -/
def text (redirection : Redirection) : String :=
  redirection.prim.text ++ redirection.choice.text

end Redirection

/-- Where authoring goes: a layer, the strongest being number zero, and redirections in the order
in which they were added. -/
structure EditTarget where
  layer : Nat
  redirections : List Redirection
  deriving DecidableEq, Repr, Inhabited

namespace EditTarget

/-- The target that is a layer without redirections. -/
def ofLayer (layer : Nat) : EditTarget := ⟨layer, []⟩

/-- The same redirections in another layer. -/
def withLayer (target : EditTarget) (layer : Nat) : EditTarget := { target with layer }

/-- Whether authoring is redirected into any variant. -/
def isRedirected (target : EditTarget) : Bool := !target.redirections.isEmpty

/-- Redirect authoring on a prim and below it into a variant as well. -/
def redirect (target : EditTarget) (prim : PrimPath) (choice : VariantChoice) : EditTarget :=
  { target with redirections := target.redirections ++ [⟨prim.stripChoices, choice⟩] }

/-- The path at which an opinion on a prim is kept. -/
def specPath (target : EditTarget) (path : PrimPath) : PrimPath :=
  target.redirections.foldl
    (fun mapped redirection =>
      if path.stripChoices.isUnder redirection.prim then
        mapped.choose redirection.prim.depth redirection.choice
      else mapped)
    path

/-- The target as text. -/
def text (target : EditTarget) : String :=
  "layer " ++ toString target.layer ++
    String.join (target.redirections.map fun redirection => " " ++ redirection.text)

end EditTarget

end LayeredShading

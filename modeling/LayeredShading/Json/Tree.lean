import LayeredShading.Json.Token

/-!
# JSON syntax trees

The tree of a JSON text, before numbers and strings are given their meaning. The tree is built from
the tokens with a stack of the containers that are still open, so a text of any depth has one;
limits on depth belong to those who read the tree.
-/

namespace LayeredShading

/-- The syntax tree of a JSON text. -/
inductive JsonTree where
  | null
  | bool (value : Bool)
  | number (literal : NumberLiteral)
  | string (units : List Nat)
  | array (items : List JsonTree)
  | object (fields : List (List Nat × JsonTree))
  deriving Inhabited

namespace JsonTree

/-- A container that is still open, with its content in reverse. An object waits for the value of
a field. -/
inductive Frame where
  | array (items : List JsonTree)
  | object (fields : List (List Nat × JsonTree)) (name : List Nat)

/-- What has to come next. -/
inductive Phase where
  /-- A value. -/
  | value (open_ : List Frame)
  /-- A first item or the end of the array just opened. -/
  | firstItem (open_ : List Frame)
  /-- A first field or the end of the object just opened. -/
  | firstField (open_ : List Frame)
  /-- The name of a further field. -/
  | field (fields : List (List Nat × JsonTree)) (open_ : List Frame)
  /-- The colon after a name. -/
  | colon (fields : List (List Nat × JsonTree)) (name : List Nat) (open_ : List Frame)
  /-- A comma or the end of the innermost container. -/
  | more (frame : Frame) (open_ : List Frame)
  /-- Nothing. -/
  | done (tree : JsonTree)

/-- Put a finished value into the innermost open container. -/
def complete (tree : JsonTree) : List Frame → Phase
  | [] => .done tree
  | .array items :: rest => .more (.array (tree :: items)) rest
  | .object fields name :: rest => .more (.object ((name, tree) :: fields) name) rest

/-- Read a token that starts a value. -/
def startValue? (open_ : List Frame) : JsonToken → Option Phase
  | .null => some (complete .null open_)
  | .bool value => some (complete (.bool value) open_)
  | .number literal => some (complete (.number literal) open_)
  | .string units => some (complete (.string units) open_)
  | .openArray => some (.firstItem open_)
  | .openObject => some (.firstField open_)
  | _ => none

/-- Read one more token. -/
def Phase.next? (phase : Phase) (token : JsonToken) : Option Phase :=
  match phase with
  | .value open_ => startValue? open_ token
  | .firstItem open_ =>
    if token = .closeArray then some (complete (.array []) open_)
    else startValue? (.array [] :: open_) token
  | .firstField open_ =>
    match token with
    | .closeObject => some (complete (.object []) open_)
    | .string name => some (.colon [] name open_)
    | _ => none
  | .field fields open_ =>
    match token with
    | .string name => some (.colon fields name open_)
    | _ => none
  | .colon fields name open_ =>
    if token = .colon then some (.value (.object fields name :: open_)) else none
  | .more (.array items) open_ =>
    match token with
    | .comma => some (.value (.array items :: open_))
    | .closeArray => some (complete (.array items.reverse) open_)
    | _ => none
  | .more (.object fields _) open_ =>
    match token with
    | .comma => some (.field fields open_)
    | .closeObject => some (complete (.object fields.reverse) open_)
    | _ => none
  | .done _ => none

/-- The tree of a sequence of tokens. -/
def ofTokens? (tokens : List JsonToken) : Option JsonTree := do
  match ← tokens.foldlM Phase.next? (.value []) with
  | .done tree => some tree
  | _ => none

/-- The tree of a text. -/
def ofText? (text : String) : Option JsonTree := do
  ofTokens? (← JsonToken.scan? text)

end JsonTree

end LayeredShading

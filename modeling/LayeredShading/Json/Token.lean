import LayeredShading.Json.Number

/-!
# JSON tokens

A JSON text is a sequence of marks, words, numbers and strings, with blanks between them. The
scanner takes one character at a time. The content of a string is kept as code points and escaped
16-bit units, so that a reader that skips a string need not care whether its surrogates pair up;
`decodeUnits?` gives the text of one whose surrogates do.
-/

namespace LayeredShading

/-- A token of a JSON text. -/
inductive JsonToken where
  | openArray
  | closeArray
  | openObject
  | closeObject
  | comma
  | colon
  | null
  | bool (value : Bool)
  | number (literal : NumberLiteral)
  | string (units : List Nat)
  deriving DecidableEq, Repr

namespace JsonToken

/-- Where the scanner stands: between tokens, within a bare word or number, or within a string.
The characters of the open token are kept in reverse. -/
inductive Mode where
  | between
  | bare (chars : List Char)
  | text (units : List Nat)
  | escape (units : List Nat)
  | hex (units : List Nat) (value digits : Nat)
  deriving DecidableEq, Repr

/-- The tokens that are finished, the last one first, and the open one. -/
structure Scan where
  finished : List JsonToken
  mode : Mode
  deriving DecidableEq, Repr

/-- The four blanks of JSON. -/
def isBlank (char : Char) : Bool :=
  char == ' ' || char == '\t' || char == '\n' || char == '\r'

/-- The token that a single character makes. -/
def mark? : Char → Option JsonToken
  | '[' => some openArray
  | ']' => some closeArray
  | '\x7b' => some openObject
  | '\x7d' => some closeObject
  | ',' => some comma
  | ':' => some colon
  | _ => none

/-- The token that a bare run of characters makes. -/
def ofBare? (chars : List Char) : Option JsonToken :=
  if chars = ['n', 'u', 'l', 'l'] then some null
  else if chars = ['t', 'r', 'u', 'e'] then some (bool true)
  else if chars = ['f', 'a', 'l', 's', 'e'] then some (bool false)
  else (NumberLiteral.ofChars? chars).map number

/-- The character that stands for itself or for a control character after a backslash. -/
def escaped? : Char → Option Char
  | '"' => some '"'
  | '\\' => some '\\'
  | '/' => some '/'
  | 'b' => some '\x08'
  | 'f' => some '\x0c'
  | 'n' => some '\n'
  | 'r' => some '\r'
  | 't' => some '\t'
  | _ => none

/-- The value of a hexadecimal digit of either case. -/
def hexValue? (char : Char) : Option Nat :=
  if '0' ≤ char ∧ char ≤ '9' then some (char.toNat - '0'.toNat)
  else if 'a' ≤ char ∧ char ≤ 'f' then some (char.toNat - 'a'.toNat + 10)
  else if 'A' ≤ char ∧ char ≤ 'F' then some (char.toNat - 'A'.toNat + 10)
  else none

/-- Read a character that stands between tokens. -/
def startToken (finished : List JsonToken) (char : Char) : Scan :=
  if isBlank char then ⟨finished, .between⟩
  else if char = '"' then ⟨finished, .text []⟩
  else match mark? char with
    | some token => ⟨token :: finished, .between⟩
    | none => ⟨finished, .bare [char]⟩

/-- Read one more character. -/
def Scan.next? (scan : Scan) (char : Char) : Option Scan :=
  match scan.mode with
  | .between => some (startToken scan.finished char)
  | .bare chars =>
    if isBlank char || char == '"' || (mark? char).isSome then do
      startToken ((← ofBare? chars.reverse) :: scan.finished) char
    else some { scan with mode := .bare (char :: chars) }
  | .text units =>
    if char = '"' then some ⟨string units.reverse :: scan.finished, .between⟩
    else if char = '\\' then some { scan with mode := .escape units }
    else if char.toNat < 0x20 then none
    else some { scan with mode := .text (char.toNat :: units) }
  | .escape units =>
    if char = 'u' then some { scan with mode := .hex units 0 4 }
    else (escaped? char).map fun meant => { scan with mode := .text (meant.toNat :: units) }
  | .hex units value digits => do
    let value := value * 16 + (← hexValue? char)
    if digits ≤ 1 then some { scan with mode := .text (value :: units) }
    else some { scan with mode := .hex units value (digits - 1) }

/-- The tokens of a text that ends here. -/
def Scan.finish? (scan : Scan) : Option (List JsonToken) :=
  match scan.mode with
  | .between => some scan.finished.reverse
  | .bare chars => do return ((← ofBare? chars.reverse) :: scan.finished).reverse
  | _ => none

/-- The tokens of a text. -/
def scan? (text : String) : Option (List JsonToken) := do
  (← text.toList.foldlM Scan.next? ⟨[], .between⟩).finish?

/-- The characters of a string's units. A leading surrogate and the trailing one after it are one
character; a surrogate on its own is none. -/
def decodeUnits? : List Nat → Option (List Char)
  | [] => some []
  | unit :: rest =>
    if 0xD800 ≤ unit ∧ unit < 0xDC00 then
      match rest with
      | trail :: rest =>
        if 0xDC00 ≤ trail ∧ trail < 0xE000 then
          (decodeUnits? rest).map
            (Char.ofNat (0x10000 + (unit - 0xD800) * 0x400 + (trail - 0xDC00)) :: ·)
        else none
      | [] => none
    else if 0xDC00 ≤ unit ∧ unit < 0xE000 then none
    else (decodeUnits? rest).map (Char.ofNat unit :: ·)

end JsonToken

end LayeredShading

/-!
# Splitting text

Names are taken apart at a separator or behind a fixed lead. `splitAtLast?` loses nothing: its two
parts joined by the separator are the text (`splitAtLast?_eq_some_iff`).
-/

namespace LayeredShading

namespace Text

/-- The characters before and after the last separator, or `none` if there is none. -/
def splitCharsAtLast? (separator : Char) : List Char → Option (List Char × List Char)
  | [] => none
  | char :: rest =>
    match splitCharsAtLast? separator rest with
    | some (head, tail) => some (char :: head, tail)
    | none => if char = separator then some ([], rest) else none

/-- The text before and after the last separator, or `none` if there is none. -/
def splitAtLast? (separator : Char) (text : String) : Option (String × String) :=
  (splitCharsAtLast? separator text.toList).map fun parts =>
    (String.ofList parts.1, String.ofList parts.2)

/-- The parts of a text between separators: one part more than there are separators. -/
def partsOfChars (separator : Char) : List Char → List (List Char)
  | [] => [[]]
  | char :: rest =>
    if char = separator then [] :: partsOfChars separator rest
    else match partsOfChars separator rest with
      | [] => [[char]]
      | part :: parts => (char :: part) :: parts

/-- The parts of a text between separators. -/
def partsBetween (separator : Char) (text : String) : List String :=
  (partsOfChars separator text.toList).map String.ofList

/-- The text after a lead, or `none` if it does not start with it. -/
def dropLead? (lead text : String) : Option String :=
  (lead.toList.isPrefixOf? text.toList).map String.ofList

/-- Whether a text starts with a lead. -/
def startsWith (lead text : String) : Bool :=
  lead.toList.isPrefixOf text.toList

theorem splitCharsAtLast?_eq_none_iff {separator : Char} {chars : List Char} :
    splitCharsAtLast? separator chars = none ↔ separator ∉ chars := by
  induction chars with
  | nil => simp [splitCharsAtLast?]
  | cons char rest ih =>
    unfold splitCharsAtLast?
    cases found : splitCharsAtLast? separator rest with
    | some parts => simp_all
    | none =>
      have absent := ih.mp found
      by_cases same : char = separator
      · simp [same]
      · simp [same, absent, Ne.symm same]

theorem splitCharsAtLast?_eq_some_iff {separator : Char} {chars head tail : List Char} :
    splitCharsAtLast? separator chars = some (head, tail) ↔
      chars = head ++ separator :: tail ∧ separator ∉ tail := by
  induction chars generalizing head tail with
  | nil => simp [splitCharsAtLast?]
  | cons char rest ih =>
    unfold splitCharsAtLast?
    cases found : splitCharsAtLast? separator rest with
    | some parts =>
      obtain ⟨front, back⟩ := parts
      obtain ⟨rfl, absent⟩ := ih.mp found
      simp only [Option.some.injEq, Prod.mk.injEq]
      constructor
      · rintro ⟨rfl, rfl⟩
        exact ⟨rfl, absent⟩
      · rintro ⟨equal, apart⟩
        cases head with
        | nil =>
          obtain ⟨_, rfl⟩ := List.cons.inj equal
          simp at apart
        | cons first front' =>
          obtain ⟨rfl, rest_eq⟩ := List.cons.inj equal
          have again := ih.mpr ⟨rest_eq, apart⟩
          rw [found] at again
          simp_all
    | none =>
      have absent := splitCharsAtLast?_eq_none_iff.mp found
      by_cases same : char = separator
      · subst same
        simp only [if_true, Option.some.injEq, Prod.mk.injEq]
        constructor
        · rintro ⟨rfl, rfl⟩
          exact ⟨rfl, absent⟩
        · rintro ⟨equal, _⟩
          cases head with
          | nil => exact ⟨rfl, (List.cons.inj equal).2⟩
          | cons first front =>
            obtain ⟨_, equal⟩ := List.cons.inj equal
            exact absurd (equal ▸ by simp) absent
      · simp only [same, if_false, reduceCtorEq, false_iff, not_and]
        intro equal
        cases head with
        | nil => exact absurd (List.cons.inj equal).1 same
        | cons first front =>
          obtain ⟨_, equal⟩ := List.cons.inj equal
          exact absurd (equal ▸ by simp) absent

/-- A text without the separator is not split. -/
theorem splitAtLast?_eq_none_iff {separator : Char} {text : String} :
    splitAtLast? separator text = none ↔ separator ∉ text.toList := by
  rw [splitAtLast?, Option.map_eq_none_iff, splitCharsAtLast?_eq_none_iff]

/-- A text is split into two parts exactly if it is these joined by the separator and the second
one does not contain it. -/
theorem splitAtLast?_eq_some_iff {separator : Char} {text head tail : String} :
    splitAtLast? separator text = some (head, tail) ↔
      text = head ++ String.singleton separator ++ tail ∧ separator ∉ tail.toList := by
  have joined : text = head ++ String.singleton separator ++ tail ↔
      text.toList = head.toList ++ separator :: tail.toList := by
    rw [← String.toList_inj]
    simp
  rw [joined, ← splitCharsAtLast?_eq_some_iff, splitAtLast?]
  constructor
  · intro found
    obtain ⟨⟨front, back⟩, split, parts⟩ := Option.map_eq_some_iff.mp found
    obtain ⟨rfl, rfl⟩ := Prod.mk.inj parts
    simpa using split
  · intro split
    rw [split, Option.map_some, String.ofList_toList, String.ofList_toList]

end Text

end LayeredShading

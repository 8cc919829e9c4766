/-!
# Lists without repetition

Many lists of a scene keep each element once, at its first place. `addNew` and `addAllNew` add
elements at the end unless they are there already.
-/

namespace LayeredShading

variable {α : Type} [DecidableEq α]

/-- The list with an element at the end, unless it is there already. -/
def addNew (list : List α) (element : α) : List α :=
  if element ∈ list then list else list ++ [element]

/-- The list with the elements of another that are not there yet at the end, each once. -/
def addAllNew (list others : List α) : List α :=
  others.foldl addNew list

theorem mem_addNew {list : List α} {element other : α} :
    other ∈ addNew list element ↔ other ∈ list ∨ other = element := by
  unfold addNew
  split <;> simp_all

theorem mem_addAllNew {list others : List α} {element : α} :
    element ∈ addAllNew list others ↔ element ∈ list ∨ element ∈ others := by
  unfold addAllNew
  induction others generalizing list with
  | nil => simp
  | cons head rest ih => simp [ih, mem_addNew, or_assoc]

/-- Adding what is there already changes nothing. -/
theorem addNew_of_mem {list : List α} {element : α} (mem : element ∈ list) :
    addNew list element = list := by
  simp [addNew, mem]

/-- An element other than the head is added behind the head. -/
theorem addNew_cons_of_ne {head element : α} (apart : element ≠ head) (rest : List α) :
    addNew (head :: rest) element = head :: addNew rest element := by
  unfold addNew
  by_cases mem : element ∈ rest <;> simp [mem, apart]

theorem addAllNew_append (list first second : List α) :
    addAllNew list (first ++ second) = addAllNew (addAllNew list first) second :=
  List.foldl_append

/-- Elements can be added to the elements that are added. -/
theorem addAllNew_addAllNew (list first second : List α) :
    addAllNew list (addAllNew first second) = addAllNew (addAllNew list first) second := by
  have step (first : List α) (element : α) :
      addAllNew list (addNew first element) = addNew (addAllNew list first) element := by
    by_cases mem : element ∈ first
    · rw [addNew_of_mem mem, addNew_of_mem (mem_addAllNew.mpr (.inr mem))]
    · rw [show addNew first element = first ++ [element] by simp [addNew, mem], addAllNew_append]
      rfl
  induction second generalizing first with
  | nil => rfl
  | cons element rest ih =>
    calc addAllNew list (addAllNew first (element :: rest))
        = addAllNew (addAllNew list (addNew first element)) rest := ih _
      _ = addAllNew (addNew (addAllNew list first) element) rest := by rw [step]

/-- Elements that are all new are added at the end. -/
theorem addAllNew_of_nodup {list others : List α} (nodup : (list ++ others).Nodup) :
    addAllNew list others = list ++ others := by
  induction others generalizing list with
  | nil => exact (List.append_nil list).symm
  | cons head rest ih =>
    have apart : head ∉ list := fun mem =>
      (List.nodup_append.mp nodup).2.2 head mem head List.mem_cons_self rfl
    have step : addNew list head = list ++ [head] := if_neg apart
    calc addAllNew list (head :: rest)
        = addAllNew (list ++ [head]) rest := congrArg (addAllNew · rest) step
      _ = list ++ head :: rest := by rw [ih (by simpa using nodup)]; simp

theorem nodup_addNew {list : List α} (nodup : list.Nodup) (element : α) :
    (addNew list element).Nodup := by
  unfold addNew
  split
  · exact nodup
  · simpa [List.nodup_append, nodup] using fun other mem equal => by simp_all

theorem nodup_addAllNew {list : List α} (nodup : list.Nodup) (others : List α) :
    (addAllNew list others).Nodup := by
  unfold addAllNew
  induction others generalizing list with
  | nil => exact nodup
  | cons head rest ih => exact ih (nodup_addNew nodup head)

/-- The elements that are added are those that are not there yet, each at its first place. -/
theorem addAllNew_eq_append (list others : List α) :
    addAllNew list others =
      list ++ (others.filter fun other => decide (other ∉ list)).eraseDups := by
  induction others generalizing list with
  | nil => simp [addAllNew]
  | cons head rest ih =>
    have step : addAllNew list (head :: rest) = addAllNew (addNew list head) rest := rfl
    by_cases mem : head ∈ list
    · rw [step, addNew_of_mem mem, ih, List.filter_cons_of_neg (by simpa using mem)]
    · have later : (rest.filter fun other => decide (other ∉ list ++ [head])) =
          (rest.filter fun other => decide (other ∉ list)).filter fun other => !other == head := by
        rw [List.filter_filter]
        exact List.filter_congr fun other _ => by
          by_cases same : other = head <;> simp [same]
      rw [step, show addNew list head = list ++ [head] from if_neg mem, ih, later,
        List.filter_cons_of_pos (by simpa using mem), List.eraseDups_cons]
      simp

/-- Adding to nothing keeps of each element the first occurrence. -/
theorem addAllNew_nil (others : List α) : addAllNew [] others = others.eraseDups := by
  rw [addAllNew_eq_append, List.nil_append, List.filter_eq_self.mpr fun _ _ => by simp]

theorem nodup_eraseDups (list : List α) : list.eraseDups.Nodup := by
  rw [← addAllNew_nil]
  exact nodup_addAllNew List.nodup_nil list

end LayeredShading

/-!
# Sorted maps

A finite map whose entries are kept in ascending key order, so that two maps with the same entries
are equal and listing one needs no sorting. The main statements say what each operation does to a
look-up (`get?_insert`, `get?_erase`, `get?_modify`), that a look-up finds exactly the entries
(`get?_eq_some_iff`), that look-ups determine the map (`ext_get?`), and that a scan of a range of
keys finds all that satisfy a test (`takeWhile_entriesFrom`).
-/

namespace LayeredShading

/-- A list of entries with strictly ascending keys. -/
structure SortedMap (κ ν : Type) [Ord κ] where
  entries : List (κ × ν)
  sorted : entries.Pairwise fun first second => compare first.1 second.1 = .lt

namespace SortedMap

variable {κ ν : Type} [Ord κ]

/-- Two maps with the same entries are equal. -/
@[ext]
theorem ext {first second : SortedMap κ ν} (entries_eq : first.entries = second.entries) :
    first = second := by
  cases first; cases second; simp_all

instance [DecidableEq κ] [DecidableEq ν] : DecidableEq (SortedMap κ ν) := fun first second =>
  decidable_of_iff (first.entries = second.entries) ⟨ext, fun equal => equal ▸ rfl⟩

/-- The map without entries. -/
def empty : SortedMap κ ν := ⟨[], .nil⟩

instance : Inhabited (SortedMap κ ν) := ⟨empty⟩

instance : EmptyCollection (SortedMap κ ν) := ⟨empty⟩

/-- The number of entries. -/
def size (map : SortedMap κ ν) : Nat := map.entries.length

/-- Whether there is no entry. -/
def isEmpty (map : SortedMap κ ν) : Bool := map.entries.isEmpty

/-- The keys in ascending order. -/
def keys (map : SortedMap κ ν) : List κ := map.entries.map (·.1)

/-- The value at a key. -/
def get? [DecidableEq κ] (map : SortedMap κ ν) (key : κ) : Option ν :=
  (map.entries.find? fun entry => decide (entry.1 = key)).map (·.2)

/-- Whether a key has a value. -/
def contains [DecidableEq κ] (map : SortedMap κ ν) (key : κ) : Bool :=
  (map.get? key).isSome

/-- Put an entry into a sorted list, in place of the entry with the same key if there is one. -/
def insertEntry (key : κ) (value : ν) : List (κ × ν) → List (κ × ν)
  | [] => [(key, value)]
  | entry :: rest =>
    match compare key entry.1 with
    | .lt => (key, value) :: entry :: rest
    | .eq => (key, value) :: rest
    | .gt => entry :: insertEntry key value rest

theorem mem_of_mem_insertEntry {key : κ} {value : ν} {entry : κ × ν} {list : List (κ × ν)}
    (mem : entry ∈ insertEntry key value list) : entry = (key, value) ∨ entry ∈ list := by
  induction list with
  | nil => simpa [insertEntry] using mem
  | cons head rest ih =>
    unfold insertEntry at mem
    split at mem <;> simp only [List.mem_cons] at mem ⊢ <;> grind

/-- Inserting keeps a list sorted. -/
theorem pairwise_insertEntry [Std.TransOrd κ] [Std.LawfulEqOrd κ] (key : κ) (value : ν)
    {list : List (κ × ν)}
    (sorted : list.Pairwise fun first second => compare first.1 second.1 = .lt) :
    (insertEntry key value list).Pairwise
      fun first second => compare first.1 second.1 = .lt := by
  induction list with
  | nil => simp [insertEntry]
  | cons head rest ih =>
    obtain ⟨above, tail⟩ := List.pairwise_cons.mp sorted
    unfold insertEntry
    split
    next order =>
      refine List.pairwise_cons.mpr ⟨?_, sorted⟩
      intro entry mem
      rcases List.mem_cons.mp mem with rfl | mem
      · exact order
      · exact Std.TransCmp.lt_trans order (above entry mem)
    next order =>
      have same : key = head.1 := Std.LawfulEqCmp.eq_of_compare order
      subst same
      exact List.pairwise_cons.mpr ⟨above, tail⟩
    next order =>
      refine List.pairwise_cons.mpr ⟨?_, ih tail⟩
      intro entry mem
      rcases mem_of_mem_insertEntry mem with rfl | mem
      · exact Std.OrientedCmp.lt_of_gt order
      · exact above entry mem

/-- Set the value at a key. -/
def insert [Std.TransOrd κ] [Std.LawfulEqOrd κ] (map : SortedMap κ ν) (key : κ) (value : ν) :
    SortedMap κ ν :=
  ⟨insertEntry key value map.entries, pairwise_insertEntry key value map.sorted⟩

/-- Remove the value at a key. -/
def erase [DecidableEq κ] (map : SortedMap κ ν) (key : κ) : SortedMap κ ν :=
  ⟨map.entries.filter fun entry => decide (entry.1 ≠ key), map.sorted.filter _⟩

/-- Change the value at a key that has one. -/
def modify [DecidableEq κ] (map : SortedMap κ ν) (key : κ) (change : ν → ν) : SortedMap κ ν :=
  ⟨map.entries.map fun entry => if entry.1 = key then (entry.1, change entry.2) else entry,
    List.pairwise_map.mpr (map.sorted.imp fun {first second} order => by
      simpa [apply_ite Prod.fst] using order)⟩

/-- Change the value at a key, which is `absent` where the key has none. -/
def update [DecidableEq κ] [Std.TransOrd κ] [Std.LawfulEqOrd κ] (map : SortedMap κ ν) (key : κ)
    (absent : ν) (change : ν → ν) : SortedMap κ ν :=
  map.insert key (change ((map.get? key).getD absent))

/-- The map that has the listed entries; of two with the same key the later one counts. -/
def ofList [Std.TransOrd κ] [Std.LawfulEqOrd κ] (list : List (κ × ν)) : SortedMap κ ν :=
  list.foldl (fun map entry => map.insert entry.1 entry.2) empty

/-- Both maps together; where both have the key, the value is the combination of the first map's
and the second's. -/
def merge [DecidableEq κ] [Std.TransOrd κ] [Std.LawfulEqOrd κ] (combine : ν → ν → ν)
    (first second : SortedMap κ ν) : SortedMap κ ν :=
  second.entries.foldl
    (fun merged entry => merged.insert entry.1
      (match first.get? entry.1 with
        | some value => combine value entry.2
        | none => entry.2))
    first

/-- The map with each value replaced by its image. -/
def mapValues {ω : Type} (map : SortedMap κ ν) (image : κ → ν → ω) : SortedMap κ ω :=
  ⟨map.entries.map fun entry => (entry.1, image entry.1 entry.2), List.pairwise_map.mpr map.sorted⟩

/-- The entries whose key satisfies a test. -/
def filterKeys (map : SortedMap κ ν) (test : κ → Bool) : SortedMap κ ν :=
  ⟨map.entries.filter fun entry => test entry.1, map.sorted.filter _⟩

/-- The entries from a key on. -/
def entriesFrom (map : SortedMap κ ν) (key : κ) : List (κ × ν) :=
  map.entries.dropWhile fun entry => (compare entry.1 key).isLT

section Scan

variable {α : Type} {test : α → Bool} {list : List α}

/-- If all elements before an accepted one are accepted, the accepted ones are the first ones. -/
theorem takeWhile_eq_filter
    (initial : list.Pairwise fun first second => test second = true → test first = true) :
    list.takeWhile test = list.filter test := by
  induction list with
  | nil => rfl
  | cons head rest ih =>
    obtain ⟨before, tail⟩ := List.pairwise_cons.mp initial
    rw [List.takeWhile_cons, List.filter_cons]
    split
    next => rw [ih tail]
    next refused =>
      exact (List.filter_eq_nil_iff.mpr fun element mem accepted =>
        refused (before element mem accepted)).symm

/-- If all elements before an accepted one are accepted, the others are those after the first
ones. -/
theorem dropWhile_eq_filter
    (initial : list.Pairwise fun first second => test second = true → test first = true) :
    list.dropWhile test = list.filter fun element => !test element := by
  induction list with
  | nil => rfl
  | cons head rest ih =>
    obtain ⟨before, tail⟩ := List.pairwise_cons.mp initial
    rw [List.dropWhile_cons, List.filter_cons]
    split
    next accepted => simp [accepted, ih tail]
    next refused =>
      have others : (rest.filter fun element => !test element) = rest := by
        refine List.filter_eq_self.mpr fun element mem => ?_
        simpa using mt (before element mem) refused
      simp [refused, others]

end Scan

/-- The entries from a key on are those whose keys are not before it. -/
theorem entriesFrom_eq [Std.TransOrd κ] (map : SortedMap κ ν) (key : κ) :
    map.entriesFrom key = map.entries.filter fun entry => !(compare entry.1 key).isLT := by
  refine dropWhile_eq_filter (map.sorted.imp fun {first second} order below => ?_)
  simp only [Ordering.isLT_iff_eq_lt] at below ⊢
  exact Std.TransCmp.lt_trans order below

/-- A scan from a key on that ends before the first refused key misses no accepted one, provided
that none comes before the key and that from the key on all keys before an accepted one are
accepted. -/
theorem takeWhile_entriesFrom [Std.TransOrd κ] (map : SortedMap κ ν) {key : κ} {test : κ → Bool}
    (start : ∀ other, test other = true → compare other key ≠ .lt)
    (convex : ∀ other later, compare other key ≠ .lt → compare other later = .lt →
      test later = true → test other = true) :
    ((map.entriesFrom key).takeWhile fun entry => test entry.1) =
      (map.filterKeys test).entries := by
  rw [entriesFrom_eq, takeWhile_eq_filter, List.filter_filter]
  · refine List.filter_congr fun entry _ => ?_
    cases accepted : test entry.1 with
    | false => rfl
    | true => simpa [Ordering.isGE_iff_ne_lt] using start entry.1 accepted
  · refine (map.sorted.filter _).imp_of_mem fun {first second} mem _ order accepted => ?_
    refine convex first.1 second.1 ?_ order accepted
    simpa [Ordering.isGE_iff_ne_lt] using (List.mem_filter.mp mem).2

theorem mem_insertEntry [Std.TransOrd κ] [Std.LawfulEqOrd κ] {key : κ} {value : ν}
    {entry : κ × ν} {list : List (κ × ν)}
    (sorted : list.Pairwise fun first second => compare first.1 second.1 = .lt) :
    entry ∈ insertEntry key value list ↔
      entry = (key, value) ∨ entry ∈ list ∧ entry.1 ≠ key := by
  induction list with
  | nil => simp [insertEntry]
  | cons head rest ih =>
    obtain ⟨above, tail⟩ := List.pairwise_cons.mp sorted
    unfold insertEntry
    split
    next order =>
      have apart : ∀ other ∈ head :: rest, other.1 ≠ key := by
        intro other mem equal
        have less : compare key other.1 = .lt := by
          rcases List.mem_cons.mp mem with rfl | mem
          · exact order
          · exact Std.TransCmp.lt_trans order (above other mem)
        simp [equal, Std.ReflCmp.compare_self] at less
      simp only [List.mem_cons (b := (key, value))]
      grind
    next order =>
      have same : key = head.1 := Std.LawfulEqCmp.eq_of_compare order
      have apart : ∀ other ∈ rest, other.1 ≠ key := by
        intro other mem equal
        have less := above other mem
        simp [equal, same, Std.ReflCmp.compare_self] at less
      simp only [List.mem_cons]
      grind
    next order =>
      have apart : head.1 ≠ key := by
        intro equal
        simp [equal, Std.ReflCmp.compare_self] at order
      simp only [List.mem_cons, ih tail]
      grind

/-- Sorted lists with the same members are the same. -/
theorem entries_eq_of_mem_iff [Std.OrientedOrd κ] {first second : List (κ × ν)}
    (sortedFirst : first.Pairwise fun one two => compare one.1 two.1 = .lt)
    (sortedSecond : second.Pairwise fun one two => compare one.1 two.1 = .lt)
    (same : ∀ entry, entry ∈ first ↔ entry ∈ second) : first = second := by
  induction first generalizing second with
  | nil =>
    cases second with
    | nil => rfl
    | cons head rest => exact absurd ((same head).mpr (by simp)) (by simp)
  | cons one rest ih =>
    cases second with
    | nil => exact absurd ((same one).mp (by simp)) (by simp)
    | cons two others =>
      obtain ⟨aboveOne, sortedRest⟩ := List.pairwise_cons.mp sortedFirst
      obtain ⟨aboveTwo, sortedOthers⟩ := List.pairwise_cons.mp sortedSecond
      have irreflexive : ∀ entry : κ × ν, compare entry.1 entry.1 ≠ .lt := by
        intro entry
        simp [Std.ReflCmp.compare_self]
      have heads : one = two := by
        rcases List.mem_cons.mp ((same one).mp (by simp)) with equal | mem
        · exact equal
        · rcases List.mem_cons.mp ((same two).mpr (by simp)) with equal | mem'
          · exact equal.symm
          · have less := aboveTwo one mem
            have more := Std.OrientedCmp.gt_of_lt (aboveOne two mem')
            rw [less] at more
            cases more
      subst heads
      congr 1
      refine ih sortedRest sortedOthers fun entry => ?_
      have both := same entry
      simp only [List.mem_cons] at both
      constructor
      · intro mem
        rcases both.mp (Or.inr mem) with rfl | mem'
        · exact absurd (aboveOne entry mem) (irreflexive entry)
        · exact mem'
      · intro mem
        rcases both.mpr (Or.inr mem) with rfl | mem'
        · exact absurd (aboveTwo entry mem) (irreflexive entry)
        · exact mem'

/-- No key has two entries. -/
theorem nodup_keys [Std.ReflOrd κ] (map : SortedMap κ ν) : map.keys.Nodup := by
  refine List.pairwise_map.mpr (map.sorted.imp fun {first second} order equal => ?_)
  simp [equal, Std.ReflCmp.compare_self] at order

section Lookup

variable [DecidableEq κ]

theorem get?_empty (key : κ) : (empty : SortedMap κ ν).get? key = none := rfl

/-- A look-up in a list with distinct keys finds exactly the entries. -/
theorem find?_eq_some_iff_mem [Std.LawfulEqOrd κ] {list : List (κ × ν)}
    (sorted : list.Pairwise fun first second => compare first.1 second.1 = .lt)
    {key : κ} {value : ν} :
    (list.find? fun entry => decide (entry.1 = key)).map (·.2) = some value ↔
      (key, value) ∈ list := by
  induction list with
  | nil => simp
  | cons head rest ih =>
    obtain ⟨above, tail⟩ := List.pairwise_cons.mp sorted
    by_cases same : head.1 = key
    · have absent : ∀ other, (key, other) ∉ rest := by
        intro other mem
        have order := above _ mem
        simp [same, Std.ReflCmp.compare_self] at order
      simp only [List.find?_cons, same, decide_true, Option.map_some, Option.some.injEq,
        List.mem_cons, absent, or_false]
      constructor
      · rintro rfl; rw [← same]
      · intro equal; rw [← equal]
    · simp only [List.find?_cons, same, decide_false, ih tail, List.mem_cons]
      constructor
      · exact Or.inr
      · rintro (equal | mem)
        · exact absurd (congrArg Prod.fst equal).symm same
        · exact mem

/-- A look-up finds exactly the entries. -/
theorem get?_eq_some_iff [Std.LawfulEqOrd κ] {map : SortedMap κ ν} {key : κ} {value : ν} :
    map.get? key = some value ↔ (key, value) ∈ map.entries :=
  find?_eq_some_iff_mem map.sorted

theorem mem_keys_iff [Std.LawfulEqOrd κ] {map : SortedMap κ ν} {key : κ} :
    key ∈ map.keys ↔ ∃ value, map.get? key = some value := by
  simp [keys, get?_eq_some_iff]

/-- After an insertion the key has the new value and every other key what it had. -/
theorem get?_insert [Std.TransOrd κ] [Std.LawfulEqOrd κ] (map : SortedMap κ ν) (key other : κ)
    (value : ν) :
    (map.insert key value).get? other = if other = key then some value else map.get? other := by
  apply Option.ext
  intro found
  rw [get?_eq_some_iff, insert, mem_insertEntry map.sorted]
  split
  next same => simp [same, eq_comm]
  next apart => simp [apart, get?_eq_some_iff]

/-- After an erasure the key has no value and every other key what it had. -/
theorem get?_erase [Std.LawfulEqOrd κ] (map : SortedMap κ ν) (key other : κ) :
    (map.erase key).get? other = if other = key then none else map.get? other := by
  apply Option.ext
  intro found
  rw [get?_eq_some_iff, erase, List.mem_filter]
  split
  next same => simp [same]
  next apart => simp [apart, get?_eq_some_iff]

/-- A modification changes the value at the key, if there is one, and no other. -/
theorem get?_modify (map : SortedMap κ ν) (key other : κ) (change : ν → ν) :
    (map.modify key change).get? other =
      if other = key then (map.get? key).map change else map.get? other := by
  unfold get? modify
  simp only
  induction map.entries with
  | nil => simp
  | cons head rest ih =>
    rw [List.map_cons, List.find?_cons, List.find?_cons, List.find?_cons]
    by_cases atKey : head.1 = key <;> by_cases sought : other = key <;>
      by_cases atOther : head.1 = other <;> simp_all

/-- An update changes the value at the key and no other. -/
theorem get?_update [Std.TransOrd κ] [Std.LawfulEqOrd κ] (map : SortedMap κ ν) (key other : κ)
    (absent : ν) (change : ν → ν) :
    (map.update key absent change).get? other =
      if other = key then some (change ((map.get? key).getD absent)) else map.get? other :=
  get?_insert map key other _

theorem get?_filterKeys [Std.LawfulEqOrd κ] (map : SortedMap κ ν) (test : κ → Bool) (key : κ) :
    (map.filterKeys test).get? key = if test key then map.get? key else none := by
  apply Option.ext
  intro found
  rw [get?_eq_some_iff, filterKeys, List.mem_filter]
  split
  next holds => simp [holds, get?_eq_some_iff]
  next fails => simp [fails]

theorem get?_mapValues {ω : Type} (map : SortedMap κ ν) (image : κ → ν → ω) (key : κ) :
    (map.mapValues image).get? key = (map.get? key).map (image key) := by
  unfold get? mapValues
  simp only
  induction map.entries with
  | nil => rfl
  | cons head rest ih =>
    rw [List.map_cons, List.find?_cons, List.find?_cons]
    by_cases same : head.1 = key
    · simp [same]
    · simpa [same] using ih

/-- Inserting entries with distinct keys one after the other, each with a value made from the
entry, gives each key its entry's value and leaves every other key what it had. -/
theorem get?_foldl_insert [Std.TransOrd κ] [Std.LawfulEqOrd κ] {list : List (κ × ν)}
    (sorted : list.Pairwise fun first second => compare first.1 second.1 = .lt)
    (value : κ × ν → ν) (map : SortedMap κ ν) (key : κ) :
    (list.foldl (fun merged entry => merged.insert entry.1 (value entry)) map).get? key =
      (((list.find? fun entry => decide (entry.1 = key)).map value) <|> map.get? key) := by
  induction list generalizing map with
  | nil => simp
  | cons head rest ih =>
    obtain ⟨above, tail⟩ := List.pairwise_cons.mp sorted
    rw [List.foldl_cons, ih tail, get?_insert, List.find?_cons]
    by_cases same : head.1 = key
    · have absent : (rest.find? fun entry => decide (entry.1 = key)) = none := by
        rw [List.find?_eq_none]
        intro entry mem
        have order := above entry mem
        have apart : entry.1 ≠ key := by
          intro equal
          simp [same, equal, Std.ReflCmp.compare_self] at order
        simpa using apart
      simp [same, absent]
    · simp [same, Ne.symm same]

/-- A merge combines the values at keys that both maps have and takes over all others. -/
theorem get?_merge [Std.TransOrd κ] [Std.LawfulEqOrd κ] (combine : ν → ν → ν)
    (first second : SortedMap κ ν) (key : κ) :
    (first.merge combine second).get? key =
      Option.merge combine (first.get? key) (second.get? key) := by
  rw [merge, get?_foldl_insert second.sorted (fun entry =>
    match first.get? entry.1 with
    | some value => combine value entry.2
    | none => entry.2)]
  show _ = Option.merge combine (first.get? key)
    ((second.entries.find? fun entry => decide (entry.1 = key)).map (·.2))
  cases found : second.entries.find? fun entry => decide (entry.1 = key) with
  | none => simp
  | some entry =>
    have atKey : entry.1 = key := by simpa using List.find?_some found
    subst atKey
    cases mine : first.get? entry.1 <;> simp [mine]

/-- Maps that give the same answer to every look-up are equal. -/
theorem ext_get? [Std.TransOrd κ] [Std.LawfulEqOrd κ] {first second : SortedMap κ ν}
    (same : ∀ key, first.get? key = second.get? key) : first = second := by
  apply ext
  apply entries_eq_of_mem_iff first.sorted second.sorted
  intro entry
  rw [← Prod.eta entry, ← get?_eq_some_iff, ← get?_eq_some_iff, same]

end Lookup

end SortedMap

end LayeredShading

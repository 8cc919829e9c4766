import LayeredShading.DistinctList
import LayeredShading.Metadata
import Mathlib.Logic.Basic

/-!
# Keys and values of metadata

Each operation on metadata is described by the keys that are listed afterwards and by what a look-up
finds. Metadata that is filled from weaker metadata has the keys of both, the new ones at the end
(`keys_fill_from`), and of each key the stronger value (`get_fill_from`); where several opinions are
merged, it does not matter which are merged first (`fill_from_assoc`). Where no key is listed twice,
keys and values tell all (`ext_get`).
-/

namespace LayeredShading

namespace Metadata

/-- The keys in the order of their first setting. -/
def keys (metadata : Metadata) : List String := metadata.entries.map (·.1)

/-- A key has a value exactly if it is listed. -/
theorem contains_iff {metadata : Metadata} {key : String} :
    metadata.contains key = true ↔ key ∈ metadata.keys := by
  simp [contains, keys]

/-- A look-up finds nothing exactly at the keys that are not listed. -/
theorem get_eq_none_iff {metadata : Metadata} {key : String} :
    metadata.get? key = none ↔ key ∉ metadata.keys := by
  simp only [get?, keys, List.lookup_eq_none_iff, List.mem_map, not_exists, not_and,
    bne_iff_ne, ne_comm (a := key), ne_eq]

/-- The first entry of a key counts. -/
theorem lookup_entry (entry : String × String) (rest : List (String × String)) (key : String) :
    (entry :: rest).lookup key = if key = entry.1 then some entry.2 else rest.lookup key := by
  rw [List.lookup_cons]
  by_cases h : key = entry.1
  · rw [if_pos h, beq_iff_eq.mpr h]
  · rw [if_neg h, beq_false_of_ne h]

/-! ## Setting and removing -/

/-- A key that is set keeps its place; a new one comes last. -/
theorem keys_set (metadata : Metadata) (key value : String) :
    (metadata.set key value).keys = addNew metadata.keys key := by
  obtain ⟨entries⟩ := metadata
  show (setEntry key value entries).map (·.1) = addNew (entries.map (·.1)) key
  induction entries with
  | nil => rfl
  | cons entry rest ih =>
      rw [setEntry]
      split
      next h => simp [← h, addNew]
      next h => rw [List.map_cons, List.map_cons, ih, addNew_cons_of_ne (Ne.symm h)]

theorem get_set (metadata : Metadata) (key value other : String) :
    (metadata.set key value).get? other =
      if other = key then some value else metadata.get? other := by
  obtain ⟨entries⟩ := metadata
  show (setEntry key value entries).lookup other =
    if other = key then some value else entries.lookup other
  induction entries with
  | nil => exact lookup_entry (key, value) [] other
  | cons entry rest ih =>
      rw [setEntry, lookup_entry entry]
      split
      next h =>
        rw [lookup_entry, h]
        by_cases hother : other = key <;> simp only [hother, if_true, if_false]
      next h =>
        rw [lookup_entry, ih]
        by_cases hother : other = entry.1
        · rw [if_pos hother, if_pos hother, if_neg (hother ▸ h)]
        · rw [if_neg hother, if_neg hother]

theorem keys_erase (metadata : Metadata) (key : String) :
    (metadata.erase key).keys = metadata.keys.erase key := by
  rw [List.erase_eq_eraseP', keys, keys, List.eraseP_map]
  rfl

theorem get_erase_of_ne {key other : String} (hne : other ≠ key) (metadata : Metadata) :
    (metadata.erase key).get? other = metadata.get? other := by
  obtain ⟨entries⟩ := metadata
  show (entries.eraseP fun entry => entry.1 == key).lookup other = entries.lookup other
  induction entries with
  | nil => rfl
  | cons entry rest ih =>
      by_cases h : entry.1 = key
      · rw [List.eraseP_cons_of_pos (by simpa using h), lookup_entry, if_neg (h ▸ hne)]
      · rw [List.eraseP_cons_of_neg (by simpa using h), lookup_entry, lookup_entry, ih]

/-- A key that is listed once is gone when it is removed. -/
theorem get_erase {metadata : Metadata} (h : metadata.keys.Nodup) (key : String) :
    (metadata.erase key).get? key = none := by
  rw [get_eq_none_iff, keys_erase]
  exact h.not_mem_erase

/-! ## Filling from weaker metadata -/

theorem keys_fill_from (strong weak : Metadata) :
    (strong.fillFrom weak).keys = addAllNew strong.keys weak.keys := by
  obtain ⟨entries⟩ := weak
  unfold fillFrom
  induction entries generalizing strong with
  | nil => rfl
  | cons entry rest ih =>
      rw [List.foldl_cons, ih]
      show addAllNew _ _ = addAllNew (addNew strong.keys entry.1) _
      congr 1
      by_cases hmem : entry.1 ∈ strong.keys
      · rw [if_pos (contains_iff.mpr hmem), addNew_of_mem hmem]
      · rw [if_neg (contains_iff.not.mpr hmem), addNew, if_neg hmem]
        simp [keys]

/-- Of each key the stronger value counts. -/
theorem get_fill_from (strong weak : Metadata) (key : String) :
    (strong.fillFrom weak).get? key = (strong.get? key <|> weak.get? key) := by
  obtain ⟨entries⟩ := weak
  unfold fillFrom
  induction entries generalizing strong with
  | nil => simp [get?]
  | cons entry rest ih =>
      obtain ⟨name, value⟩ := entry
      have hsplit : List.lookup key ((name, value) :: rest) =
          (List.lookup key [(name, value)]).or (List.lookup key rest) := by
        rw [← List.singleton_append, List.lookup_append]
      rw [List.foldl_cons, ih]
      simp only [get?, hsplit, Option.orElse_eq_or, Option.orElse_eq_orElse]
      by_cases hmem : name ∈ strong.keys
      · rw [if_pos (contains_iff.mpr hmem)]
        cases hvalue : strong.entries.lookup key with
        | some value => rfl
        | none =>
            -- what is passed over has another key
            have hne : key ≠ name := fun h => get_eq_none_iff.mp hvalue (h ▸ hmem)
            simp [hne]
      · rw [if_neg (contains_iff.not.mpr hmem), List.lookup_append, Option.or_assoc]

theorem fill_from_append (metadata : Metadata) (first second : List (String × String)) :
    metadata.fillFrom ⟨first ++ second⟩ = (metadata.fillFrom ⟨first⟩).fillFrom ⟨second⟩ :=
  List.foldl_append

theorem fill_from_of_contains {metadata : Metadata} {entry : String × String}
    (h : metadata.contains entry.1 = true) : metadata.fillFrom ⟨[entry]⟩ = metadata :=
  if_pos h

theorem fill_from_of_new {metadata : Metadata} {entry : String × String}
    (h : ¬ metadata.contains entry.1 = true) :
    metadata.fillFrom ⟨[entry]⟩ = ⟨metadata.entries ++ [entry]⟩ :=
  if_neg h

/-- Filling is associative, the order of the entries included. -/
theorem fill_from_assoc (strong middle weak : Metadata) :
    (strong.fillFrom middle).fillFrom weak = strong.fillFrom (middle.fillFrom weak) := by
  have hone (middle : Metadata) (entry : String × String) :
      (strong.fillFrom middle).fillFrom ⟨[entry]⟩ =
        strong.fillFrom (middle.fillFrom ⟨[entry]⟩) := by
    by_cases h : middle.contains entry.1 = true
    · have hthere : (strong.fillFrom middle).contains entry.1 = true := by
        rw [contains_iff, keys_fill_from, mem_addAllNew]
        exact .inr (contains_iff.mp h)
      rw [fill_from_of_contains h, fill_from_of_contains hthere]
    · rw [fill_from_of_new h, fill_from_append]
  obtain ⟨entries⟩ := weak
  induction entries generalizing middle with
  | nil => rfl
  | cons entry rest ih =>
      calc (strong.fillFrom middle).fillFrom ⟨entry :: rest⟩
          = ((strong.fillFrom middle).fillFrom ⟨[entry]⟩).fillFrom ⟨rest⟩ :=
            fill_from_append _ [entry] rest
        _ = (strong.fillFrom (middle.fillFrom ⟨[entry]⟩)).fillFrom ⟨rest⟩ := by rw [hone]
        _ = strong.fillFrom ((middle.fillFrom ⟨[entry]⟩).fillFrom ⟨rest⟩) := ih _
        _ = strong.fillFrom (middle.fillFrom ⟨entry :: rest⟩) :=
            congrArg _ (fill_from_append middle [entry] rest).symm

/-! ## Keys and values tell all -/

/-- Where no key is listed twice, the entries are the keys with their values. -/
theorem entries_eq_map {metadata : Metadata} (h : metadata.keys.Nodup) :
    metadata.entries = metadata.keys.map fun key => (key, (metadata.get? key).getD "") := by
  obtain ⟨entries⟩ := metadata
  induction entries with
  | nil => rfl
  | cons entry rest ih =>
      obtain ⟨name, value⟩ := entry
      obtain ⟨hname, hrest⟩ := List.nodup_cons.mp h
      have htail := ih hrest
      simp only [keys, get?, List.map_cons, List.lookup_cons_self, Option.getD_some] at htail hname ⊢
      congr 1
      calc rest
          = (rest.map (·.1)).map fun key => (key, (rest.lookup key).getD "") := htail
        _ = _ := List.map_congr_left fun key hkey => by
            have hne : key ≠ name := fun h => hname (h ▸ hkey)
            rw [lookup_entry, if_neg hne]

/-- Metadata that lists the same keys, each once, with the same values is the same. -/
theorem ext_get {first second : Metadata} (hdistinct : first.keys.Nodup)
    (hkeys : first.keys = second.keys) (hvalues : ∀ key, first.get? key = second.get? key) :
    first = second := by
  have hentries : first.entries = second.entries := by
    rw [entries_eq_map hdistinct, entries_eq_map (hkeys ▸ hdistinct), hkeys]
    exact List.map_congr_left fun key _ => by rw [hvalues]
  cases first
  cases second
  exact congrArg Metadata.mk hentries

end Metadata

end LayeredShading

import LayeredShading.Proofs.Metadata
import Mathlib.Data.Finmap

/-!
# Metadata as a map in the order of insertion

Metadata comes about by setting and removing keys, by filling from weaker metadata and by collecting
entries (`History`). However it came about, it answers like the finite map that the same operations
make, and it lists the keys of that map in the order in which they were inserted
(`map_in_insertion_order`).

Operations that concern several keys are taken apart into changes of single keys (`Change`), since
each change inserts at most one. What one change does to the listed keys is `keys_change`; from it,
`keys_in_order` follows for any number of changes.
-/

namespace LayeredShading

namespace Metadata

/-- A finite map from keys to texts. -/
abbrev TextMap := Finmap fun _ : String => String

/-- Metadata represents a map if it lists each of its keys once and finds its values. -/
structure Represents (metadata : Metadata) (map : TextMap) : Prop where
  distinct : metadata.keys.Nodup
  values : ∀ key, metadata.get? key = map.lookup key

namespace Represents

variable {metadata weaker : Metadata} {map others : TextMap}

theorem empty : Represents .empty ∅ := ⟨List.nodup_nil, fun _ => rfl⟩

/-- A value that is set is inserted. -/
theorem set (h : Represents metadata map) (key value : String) :
    Represents (metadata.set key value) (map.insert key value) where
  distinct := keys_set metadata key value ▸ nodup_addNew h.distinct key
  values other := by
    rw [get_set, h.values]
    by_cases hother : other = key
    · subst hother
      rw [if_pos rfl, Finmap.lookup_insert]
    · rw [if_neg hother, Finmap.lookup_insert_of_ne _ hother]

/-- A value that is removed is erased. -/
theorem erase (h : Represents metadata map) (key : String) :
    Represents (metadata.erase key) (map.erase key) where
  distinct := keys_erase metadata key ▸ h.distinct.erase key
  values other := by
    by_cases hother : other = key
    · subst hother
      rw [get_erase h.distinct, Finmap.lookup_erase]
    · rw [get_erase_of_ne hother, Finmap.lookup_erase_ne hother, h.values]

/-- In a union, the map on the left counts where both have a key. -/
theorem fillFrom (h : Represents metadata map) (hweaker : Represents weaker others) :
    Represents (metadata.fillFrom weaker) (map ∪ others) where
  distinct := keys_fill_from metadata weaker ▸ nodup_addAllNew h.distinct _
  values key := by
    rw [get_fill_from, h.values, hweaker.values]
    by_cases hkey : key ∈ map
    · obtain ⟨value, hvalue⟩ := Finmap.mem_iff.mp hkey
      rw [Finmap.lookup_union_left hkey, hvalue]
      rfl
    · rw [Finmap.lookup_union_right hkey, Finmap.lookup_eq_none.mpr hkey]
      rfl

theorem mem_keys_iff (h : Represents metadata map) {key : String} :
    key ∈ metadata.keys ↔ key ∈ map := by
  rw [← not_iff_not, ← get_eq_none_iff, h.values, Finmap.lookup_eq_none]

/-- There are as many keys as the map has. -/
theorem size_eq (h : Represents metadata map) : metadata.size = map.keys.card := by
  have hkeys : metadata.keys.toFinset = map.keys := by
    ext key
    rw [List.mem_toFinset, h.mem_keys_iff, Finmap.mem_keys]
  rw [← hkeys, List.toFinset_card_of_nodup h.distinct, keys, List.length_map, size]

/-- Metadata represents one map only. -/
theorem map_unique (h : Represents metadata map) (hothers : Represents metadata others) :
    map = others :=
  Finmap.ext_lookup fun key => by rw [← h.values, hothers.values]

end Represents

/-! ## Changes of single keys -/

/-- What can happen to a key: a value is put in, or offered in case that there is none, or the key
is dropped. -/
inductive Change where
  | put (key value : String)
  | offer (key value : String)
  | drop (key : String)
  deriving DecidableEq

namespace Change

/-- A map after a change. -/
def onMap (map : TextMap) : Change → TextMap
  | put key value => map.insert key value
  | offer key value => map ∪ .singleton key value
  | drop key => map.erase key

/-- Metadata after a change. -/
def onMetadata (metadata : Metadata) : Change → Metadata
  | put key value => metadata.set key value
  | offer key value => metadata.fillFrom ⟨[(key, value)]⟩
  | drop key => metadata.erase key

end Change

/-- The map that changes make of the empty one. -/
def mapAfter (changes : List Change) : TextMap := changes.foldl Change.onMap ∅

/-- The metadata that changes make of the empty one. -/
def metadataAfter (changes : List Change) : Metadata := changes.foldl Change.onMetadata .empty

theorem metadata_after_concat (changes : List Change) (change : Change) :
    metadataAfter (changes ++ [change]) = change.onMetadata (metadataAfter changes) :=
  List.foldl_concat ..

/-- One change does the same to the metadata and to the map. -/
theorem Represents.change {metadata : Metadata} {map : TextMap} (h : Represents metadata map)
    (change : Change) : Represents (change.onMetadata metadata) (change.onMap map) := by
  cases change with
  | put key value => exact h.set key value
  | offer key value =>
      have hsingle : Represents ⟨[(key, value)]⟩ (.singleton key value) :=
        Represents.empty.set key value
      exact h.fillFrom hsingle
  | drop key => exact h.erase key

theorem represents_after (changes : List Change) :
    Represents (metadataAfter changes) (mapAfter changes) :=
  List.foldl_rel .empty fun change _ _ _ h => h.change change

/-- A change leaves the order of the keys that are kept, and the one that it may add comes last. -/
theorem keys_change (metadata : Metadata) (change : Change) :
    (change.onMetadata metadata).keys.Sublist metadata.keys ∨
      ∃ key ∉ metadata.keys, (change.onMetadata metadata).keys = metadata.keys ++ [key] := by
  have hadd (key : String) : (addNew metadata.keys key).Sublist metadata.keys ∨
      ∃ new ∉ metadata.keys, addNew metadata.keys key = metadata.keys ++ [new] := by
    by_cases hmem : key ∈ metadata.keys
    · exact .inl (by rw [addNew_of_mem hmem])
    · exact .inr ⟨key, hmem, if_neg hmem⟩
  cases change with
  | put key value => exact keys_set metadata key value ▸ hadd key
  | offer key value => exact keys_fill_from metadata ⟨[(key, value)]⟩ ▸ hadd key
  | drop key => exact .inl (keys_erase metadata key ▸ List.erase_sublist)

/-! ## When a key was inserted -/

/-- The change at a place is the first insertion of a key since the key was last absent: the key is
absent before this change, and there after it and after every later one. -/
structure InsertedAt (changes : List Change) (key : String) (place : Nat) : Prop where
  within : place < changes.length
  absent : key ∉ mapAfter (changes.take place)
  present : ∀ later, place < later → later ≤ changes.length → key ∈ mapAfter (changes.take later)

namespace InsertedAt

variable {changes : List Change} {change : Change} {key : String} {place other : Nat}

theorem mem (h : InsertedAt changes key place) : key ∈ mapAfter changes := by
  have hpresent := h.present changes.length h.within le_rfl
  rwa [List.take_length] at hpresent

/-- A key has not been inserted for good at two places. -/
theorem unique (h : InsertedAt changes key place) (hother : InsertedAt changes key other) :
    place = other := by
  obtain hlt | heq | hlt := Nat.lt_trichotomy place other
  · exact absurd (h.present other hlt hother.within.le) hother.absent
  · exact heq
  · exact absurd (hother.present place hlt h.within.le) h.absent

/-- A further change that leaves the key there leaves the place of its insertion. -/
theorem extend (h : InsertedAt changes key place)
    (hmem : key ∈ mapAfter (changes ++ [change])) :
    InsertedAt (changes ++ [change]) key place := by
  have htake {count : Nat} (hle : count ≤ changes.length) :
      (changes ++ [change]).take count = changes.take count :=
    List.take_append_of_le_length hle
  have hlength : (changes ++ [change]).length = changes.length + 1 := List.length_append
  refine ⟨?_, ?_, fun later hlt hle => ?_⟩
  · rw [hlength]
    exact Nat.lt_succ_of_lt h.within
  · rw [htake h.within.le]
    exact h.absent
  · by_cases hbefore : later ≤ changes.length
    · rw [htake hbefore]
      exact h.present later hlt hbefore
    · rwa [List.take_of_length_le (by omega)]

/-- A key that is there only since the last change was inserted by it. -/
theorem last (hnew : key ∉ mapAfter changes) (hmem : key ∈ mapAfter (changes ++ [change])) :
    InsertedAt (changes ++ [change]) key changes.length := by
  have hlength : (changes ++ [change]).length = changes.length + 1 := List.length_append
  refine ⟨by omega, ?_, fun later hlt hle => ?_⟩
  · rwa [List.take_left]
  · rwa [List.take_of_length_le (by omega)]

end InsertedAt

/-- Every key that is there was inserted by some change. -/
theorem exists_inserted_at {changes : List Change} {key : String} (h : key ∈ mapAfter changes) :
    ∃ place, InsertedAt changes key place := by
  induction changes using List.reverseRecOn with
  | nil => exact absurd h Finmap.notMem_empty
  | append_singleton changes change ih =>
      by_cases hbefore : key ∈ mapAfter changes
      · obtain ⟨place, hplace⟩ := ih hbefore
        exact ⟨place, hplace.extend h⟩
      · exact ⟨changes.length, .last hbefore h⟩

/-- One key was inserted before another one. -/
def InsertedBefore (changes : List Change) (first second : String) : Prop :=
  ∃ earlier later, earlier < later ∧
    InsertedAt changes first earlier ∧ InsertedAt changes second later

/-- Two keys that are kept by a change stay in their order. -/
theorem InsertedBefore.extend {changes : List Change} {change : Change} {first second : String}
    (h : InsertedBefore changes first second)
    (hfirst : first ∈ mapAfter (changes ++ [change]))
    (hsecond : second ∈ mapAfter (changes ++ [change])) :
    InsertedBefore (changes ++ [change]) first second := by
  obtain ⟨earlier, later, hlt, hearlier, hlater⟩ := h
  exact ⟨earlier, later, hlt, hearlier.extend hfirst, hlater.extend hsecond⟩

/-- After any changes, the keys are listed in the order in which they were inserted. -/
theorem keys_in_order (changes : List Change) :
    (metadataAfter changes).keys.Pairwise (InsertedBefore changes) := by
  induction changes using List.reverseRecOn with
  | nil => exact .nil
  | append_singleton changes change ih =>
      have hmem {key : String} (h : key ∈ (metadataAfter (changes ++ [change])).keys) :
          key ∈ mapAfter (changes ++ [change]) :=
        (represents_after _).mem_keys_iff.mp h
      have hstep := keys_change (metadataAfter changes) change
      rw [← metadata_after_concat] at hstep
      obtain hkept | ⟨new, hnew, hadded⟩ := hstep
      · exact (ih.sublist hkept).imp_of_mem fun hfirst hsecond h =>
          h.extend (hmem hfirst) (hmem hsecond)
      · have hold {key : String} (h : key ∈ (metadataAfter changes).keys) :
            key ∈ mapAfter (changes ++ [change]) :=
          hmem (hadded ▸ List.mem_append_left _ h)
        have hlast : InsertedAt (changes ++ [change]) new changes.length :=
          .last ((represents_after changes).mem_keys_iff.not.mp hnew) (hmem (by simp [hadded]))
        rw [hadded, List.pairwise_append]
        refine ⟨ih.imp_of_mem fun hfirst hsecond h => h.extend (hold hfirst) (hold hsecond),
          List.pairwise_singleton _ _, fun key hkey other hother => ?_⟩
        obtain rfl := List.mem_singleton.mp hother
        obtain ⟨place, hplace⟩ :=
          exists_inserted_at ((represents_after changes).mem_keys_iff.mp hkey)
        exact ⟨place, changes.length, hplace.within, hplace.extend (hold hkey), hlast⟩

/-! ## How metadata comes about -/

/-- How metadata came about: from nothing or by collecting entries, and from there by setting and
removing keys and by filling from weaker metadata, which came about in a way of its own. -/
inductive History where
  | empty
  | set (before : History) (key value : String)
  | remove (before : History) (key : String)
  | fill (before weaker : History)
  | collect (entries : List (String × String))

namespace History

/-- The metadata that came about. -/
def metadata : History → Metadata
  | empty => .empty
  | set before key value => before.metadata.set key value
  | remove before key => (before.metadata.remove key).2
  | fill before weaker => before.metadata.fillFrom weaker.metadata
  | collect entries => ofList entries

/-- The finite map that the same operations make: setting overwrites, removing deletes, filling adds
the keys that are absent, and collecting sets one entry after the other. -/
def map : History → TextMap
  | empty => ∅
  | set before key value => before.map.insert key value
  | remove before key => before.map.erase key
  | fill before weaker => before.map ∪ weaker.map
  | collect entries => entries.foldl (fun map entry => map.insert entry.1 entry.2) ∅

/-- What happened to single keys. Weaker metadata offers its entries in the order in which it lists
them. -/
def changes : History → List Change
  | empty => []
  | set before key value => before.changes ++ [.put key value]
  | remove before key => before.changes ++ [.drop key]
  | fill before weaker =>
    before.changes ++ weaker.metadata.entries.map fun entry => .offer entry.1 entry.2
  | collect entries => entries.map fun entry => .put entry.1 entry.2

theorem represents (history : History) : Represents history.metadata history.map := by
  induction history with
  | empty => exact .empty
  | set before key value ih => exact ih.set key value
  | remove before key ih => exact ih.erase key
  | fill before weaker ih ihweaker => exact ih.fillFrom ihweaker
  | collect entries => exact List.foldl_rel .empty fun entry _ _ _ h => h.set entry.1 entry.2

/-- The changes of single keys that a history comes to make its metadata. -/
theorem metadata_after_changes (history : History) :
    metadataAfter history.changes = history.metadata := by
  induction history with
  | empty => rfl
  | set before key value ih =>
      rw [changes, metadata_after_concat, ih]
      rfl
  | remove before key ih =>
      rw [changes, metadata_after_concat, ih]
      rfl
  | fill before weaker ih _ =>
      -- filling takes what it is offered entry by entry
      calc metadataAfter (before.fill weaker).changes
          = (weaker.metadata.entries.map fun entry => Change.offer entry.1 entry.2).foldl
              Change.onMetadata (metadataAfter before.changes) := List.foldl_append
        _ = weaker.metadata.entries.foldl (fun filled entry => filled.fillFrom ⟨[entry]⟩)
              before.metadata := by rw [ih, List.foldl_map]; rfl
        _ = (before.fill weaker).metadata := rfl
  | collect entries => exact List.foldl_map

theorem map_after_changes (history : History) : mapAfter history.changes = history.map :=
  (metadata_after_changes history ▸ represents_after history.changes).map_unique
    history.represents

end History

/-- Metadata is a map that keeps the order of insertion. However it came about, no key is listed
twice, and look-ups, tests and removals of a key and the number of entries agree with the finite map
that the same operations make. This map is the one that the changes of single keys make; each of its
keys was inserted by exactly one of them since it was last absent, and the keys are listed in the
order of these insertions. Filling is associative, with the entries in the same order. -/
theorem map_in_insertion_order :
    (∀ history : History,
      history.metadata.keys.Nodup ∧
      (∀ key, history.metadata.get? key = history.map.lookup key ∧
        (history.metadata.contains key = true ↔ key ∈ history.map) ∧
        (history.metadata.remove key).1 = history.map.lookup key) ∧
      history.metadata.size = history.map.keys.card ∧
      mapAfter history.changes = history.map ∧
      (∀ key, key ∈ history.map ↔ ∃! place, InsertedAt history.changes key place) ∧
      history.metadata.keys.Pairwise (InsertedBefore history.changes)) ∧
    ∀ strong middle weak : Metadata,
      (strong.fillFrom middle).fillFrom weak = strong.fillFrom (middle.fillFrom weak) := by
  refine ⟨fun history => ?_, fill_from_assoc⟩
  have hmap := history.map_after_changes
  have hrepresents := history.represents
  refine ⟨hrepresents.distinct, fun key => ⟨hrepresents.values key, ?_, hrepresents.values key⟩,
    hrepresents.size_eq, hmap, fun key => ⟨fun hkey => ?_, ?_⟩, ?_⟩
  · rw [contains_iff, hrepresents.mem_keys_iff]
  · obtain ⟨place, hplace⟩ := exists_inserted_at (hmap ▸ hkey)
    exact ⟨place, hplace, fun other hother => hother.unique hplace⟩
  · rintro ⟨place, hplace, -⟩
    exact hmap ▸ hplace.mem
  · exact history.metadata_after_changes ▸ keys_in_order history.changes

/-- A key that is removed and set again comes behind those that stayed; a key that is overwritten
keeps its place, and what filling adds comes last. -/
example :
    (History.fill
      (.set (.set (.remove (.collect [("kind", "prop"), ("documentation", "a chair")]) "kind")
        "kind" "set") "documentation" "an old chair")
      (.collect [("state", "draft"), ("kind", "assembly")])).metadata.entries =
      [("documentation", "an old chair"), ("kind", "set"), ("state", "draft")] := by
  decide

end Metadata

end LayeredShading

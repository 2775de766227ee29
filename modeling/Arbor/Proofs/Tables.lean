import Arbor.Proofs.Results
import Arbor.Table

/-!
# Entries of tables

A table is known by its entries. Which entries are there behind inserting or erasing is said
here, and that the entries of a table, written down in order and read again, give the table
back. The steps that read them again never go back in the list, because each key is above
all keys that came before it.
-/
namespace Arbor.Table

variable {α : Type}

/-- Tables with the same entries are the same. -/
theorem ext_entries {first second : Table α} (same : first.entries = second.entries) :
    first = second := by
  cases first
  cases second
  cases same
  rfl

/-- A key that is above all keys of a table has an entry of its own at the end. -/
theorem entries_insert_of_forall_lt {table : Table α} {key : Text}
    (above : ∀ entry ∈ table.entries, entry.1 < key) (value : α) :
    (table.insert key value).entries = table.entries ++ [(key, value)] := by
  have kept : table.entries.filter (fun entry => decide (entry.1 < key)) = table.entries := by
    refine List.filter_eq_self.mpr fun entry among => ?_
    exact decide_eq_true (above entry among)
  have dropped : table.entries.filter (fun entry => decide (key < entry.1)) = [] := by
    refine List.filter_eq_nil_iff.mpr fun entry among => ?_
    simpa using List.lt_asymm (above entry among)
  show table.entries.filter _ ++ (key, value) :: table.entries.filter _ = _
  rw [kept, dropped]

/-- Reading entries in order puts them behind those that are there. -/
theorem entries_foldl_insert {entries : List (Text × α)} {table : Table α}
    (ascending : (table.entries ++ entries).Pairwise fun earlier later => earlier.1 < later.1) :
    (entries.foldl (fun table entry => table.insert entry.1 entry.2) table).entries =
      table.entries ++ entries := by
  induction entries generalizing table with
  | nil => rw [List.foldl_nil, List.append_nil]
  | cons entry entries ih =>
    have above : ∀ earlier ∈ table.entries, earlier.1 < entry.1 := fun earlier among =>
      (List.pairwise_append.mp ascending).2.2 earlier among entry List.mem_cons_self
    have inserted := entries_insert_of_forall_lt above entry.2
    rw [List.append_cons] at ascending ⊢
    rw [List.foldl_cons, ih (by rw [inserted]; exact ascending), inserted]

/-- Entries in the order of their keys are the entries of their table. -/
theorem entries_ofList {entries : List (Text × α)}
    (ascending : entries.Pairwise fun earlier later => earlier.1 < later.1) :
    (ofList entries).entries = entries := by
  exact @entries_foldl_insert α entries empty ascending

/-- Inserting leaves the entries of other keys as they are. -/
theorem mem_entries_insert {table : Table α} {key : Text} {value : α} {entry : Text × α}
    (among : entry ∈ (table.insert key value).entries) :
    entry = (key, value) ∨ entry ∈ table.entries := by
  rcases List.mem_append.mp among with below | behind
  · exact Or.inr (List.mem_filter.mp below).1
  · rcases List.mem_cons.mp behind with same | above
    · exact Or.inl same
    · exact Or.inr (List.mem_filter.mp above).1

/-- Erasing adds no entry. -/
theorem mem_of_mem_entries_erase {table : Table α} {key : Text} {entry : Text × α}
    (among : entry ∈ (table.erase key).entries) : entry ∈ table.entries :=
  (List.mem_filter.mp among).1

/-- The value of a key stands in an entry. -/
theorem mem_entries_of_get? {table : Table α} {key : Text} {value : α}
    (found : table.get? key = some value) : (key, value) ∈ table.entries := by
  obtain ⟨before, after, split, _⟩ := List.lookup_eq_some_iff.mp found
  rw [split]
  exact List.mem_append_right before List.mem_cons_self

/-- What stands in an entry is found under its key. -/
theorem get?_of_mem_entries {table : Table α} {key : Text} {value : α}
    (among : (key, value) ∈ table.entries) : table.get? key = some value := by
  obtain ⟨before, after, split⟩ := List.append_of_mem among
  refine List.lookup_eq_some_iff.mpr ⟨before, after, split, ?_⟩
  intro entry earlier
  have ascending := table.ascending
  rw [split] at ascending
  have below : entry.1 < key :=
    (List.pairwise_append.mp ascending).2.2 entry earlier _ List.mem_cons_self
  simpa using fun same : key = entry.1 => List.lt_irrefl key (same ▸ below)

/-- A table is known by what is found in it. -/
theorem ext_get? {first second : Table α} (same : ∀ key, first.get? key = second.get? key) :
    first = second := by
  have nodup (table : Table α) : table.entries.Nodup := by
    refine table.ascending.imp ?_
    rintro entry _ below rfl
    exact List.lt_irrefl entry.1 below
  have entries (entry : Text × α) : entry ∈ first.entries ↔ entry ∈ second.entries := by
    constructor
    · intro among
      exact mem_entries_of_get? ((same entry.1).symm.trans (get?_of_mem_entries among))
    · intro among
      exact mem_entries_of_get? ((same entry.1).trans (get?_of_mem_entries among))
  have order : ∀ entry other : Text × α, entry ∈ first.entries → other ∈ second.entries →
      entry.1 < other.1 → other.1 < entry.1 → entry = other :=
    fun _ _ _ _ below above => absurd above (List.lt_asymm below)
  exact ext_entries (List.Perm.eq_of_pairwise order first.ascending second.ascending
    ((List.perm_ext_iff_of_nodup (nodup first) (nodup second)).mpr entries))

/-- A key of a table is one with a value. -/
theorem mem_keys_iff {table : Table α} {key : Text} :
    key ∈ table.keys ↔ ∃ value, table.get? key = some value := by
  constructor
  · intro among
    obtain ⟨⟨_, value⟩, listed, rfl⟩ := List.mem_map.mp among
    exact ⟨value, get?_of_mem_entries listed⟩
  · rintro ⟨value, found⟩
    exact List.mem_map_of_mem (mem_entries_of_get? found)

/-- Inserting adds one key. -/
theorem mem_keys_insert {table : Table α} {inserted key : Text} {value : α} :
    key ∈ (table.insert inserted value).keys ↔ key = inserted ∨ key ∈ table.keys := by
  simp only [mem_keys_iff, get?_insert]
  by_cases same : key = inserted <;> simp [same]

/-- The keys of the table of a list of entries are those of the entries. -/
theorem mem_keys_ofList {entries : List (Text × α)} {key : Text} :
    key ∈ (ofList entries).keys ↔ key ∈ entries.map Prod.fst := by
  have behind (table : Table α) :
      key ∈ (entries.foldl (fun table entry => table.insert entry.1 entry.2) table).keys ↔
        key ∈ table.keys ∨ key ∈ entries.map Prod.fst := by
    induction entries generalizing table with
    | nil => simp
    | cons entry entries ih =>
      rw [List.foldl_cons, ih, mem_keys_insert, List.map_cons, List.mem_cons, or_assoc,
        or_left_comm]
  exact (behind empty).trans (or_iff_right List.not_mem_nil)

/-! ## Values that are replaced -/

variable {ε β γ : Type}

/-- Values that are changed in front of a step are the values of another step. -/
theorem mapEntries_map (f : α → β) (step : β → Except ε γ) (entries : List (Text × α)) :
    mapEntries step (entries.map fun entry => (entry.1, f entry.2)) =
      mapEntries (fun value => step (f value)) entries := by
  induction entries with
  | nil => rfl
  | cons entry entries ih =>
    obtain ⟨key, value⟩ := entry
    rw [List.map_cons, mapEntries, mapEntries, ih]

/-- Entries can be read off the replaced ones, if values can be read off the results. -/
theorem map_of_mapEntries {step : α → Except ε β} {back : β → α} {entries : List (Text × α)}
    {results : List (Text × β)}
    (undone : ∀ value result, step value = .ok result → back result = value)
    (done : mapEntries step entries = .ok results) :
    results.map (fun entry => (entry.1, back entry.2)) = entries := by
  induction entries generalizing results with
  | nil =>
    obtain rfl : [] = results := Except.ok.inj done
    rfl
  | cons entry entries ih =>
    obtain ⟨key, value⟩ := entry
    rw [mapEntries] at done
    split at done
    · cases done
    · next result stepped =>
      obtain ⟨others, tail, rfl⟩ := map_eq_ok_iff.mp done
      rw [List.map_cons, undone value result stepped, ih tail]

/-- A step that gives every value back gives the entries back. -/
theorem mapEntries_eq_self {step : α → Except ε α} {entries : List (Text × α)}
    (fixed : ∀ entry ∈ entries, step entry.2 = .ok entry.2) :
    mapEntries step entries = .ok entries := by
  induction entries with
  | nil => rfl
  | cons entry entries ih =>
    obtain ⟨here, later⟩ := List.forall_mem_cons.mp fixed
    obtain ⟨key, value⟩ := entry
    simp only [mapEntries, here, ih later]
    rfl

/-- The entries of the table with the replaced values. -/
theorem map_entries_mapValues (step : α → Except ε β) (table : Table α) :
    (table.mapValues step).map entries = mapEntries step table.entries := by
  unfold mapValues
  split
  · next fault found => exact found.symm
  · next results found => exact found.symm

end Arbor.Table

import Arbor.Text.Basic

/-!
# Tables by text

A table assigns values to texts and lists them in the order of their keys, which is
the order of code points and therefore also that of the UTF-8 bytes. Each key has one
entry. The order is part of the type: the entries are strictly ascending, so two
tables with the same entries are the same table.
-/
namespace Arbor

/-- A finite map from texts, listed in ascending order of its keys. -/
structure Table (α : Type) where
  /-- The keys with their values. -/
  entries : List (Text × α)
  ascending : entries.Pairwise fun earlier later => earlier.1 < later.1

namespace Table

variable {α : Type}

/-- The table without entries. -/
def empty : Table α :=
  ⟨[], .nil⟩

instance : Inhabited (Table α) :=
  ⟨empty⟩

/-- The value of a key. -/
def get? (table : Table α) (key : Text) : Option α :=
  table.entries.lookup key

/-- Gives a key a value, in place of the one it had. -/
def insert (table : Table α) (key : Text) (value : α) : Table α where
  entries :=
    table.entries.filter (fun entry => decide (entry.1 < key)) ++
      (key, value) :: table.entries.filter (fun entry => decide (key < entry.1))
  ascending := by
    refine List.pairwise_append.2
      ⟨table.ascending.filter _, List.pairwise_cons.2 ⟨?_, table.ascending.filter _⟩, ?_⟩
    · intro later found
      simpa using (List.mem_filter.1 found).2
    · intro earlier found later follows
      have below : earlier.1 < key := by simpa using (List.mem_filter.1 found).2
      rcases List.mem_cons.1 follows with rfl | follows
      · exact below
      · have above : key < later.1 := by simpa using (List.mem_filter.1 follows).2
        exact List.lt_trans below above

/-- Takes a key out. -/
def erase (table : Table α) (key : Text) : Table α where
  entries := table.entries.filter fun entry => entry.1 != key
  ascending := table.ascending.filter _

/-- The table of a list of entries, in which a later entry of a key replaces an earlier
one. -/
def ofList (entries : List (Text × α)) : Table α :=
  entries.foldl (fun table entry => table.insert entry.1 entry.2) empty

/-- The keys in ascending order. -/
def keys (table : Table α) : List Text :=
  table.entries.map Prod.fst

/-- The number of keys. -/
def size (table : Table α) : Nat :=
  table.entries.length

/-- Whether there is no key. -/
def isEmpty (table : Table α) : Bool :=
  table.entries.isEmpty

/-- Replaces the value of each entry by the result of a step that may fail. -/
def mapEntries {ε β : Type} (step : α → Except ε β) :
    List (Text × α) → Except ε (List (Text × β))
  | [] => .ok []
  | (key, value) :: rest =>
    match step value with
    | .error fault => .error fault
    | .ok result => (mapEntries step rest).map ((key, result) :: ·)

/-- The step sees the values only: the keys stay as they are. -/
theorem keys_of_mapEntries {ε β : Type} {step : α → Except ε β} {entries : List (Text × α)}
    {results : List (Text × β)} (done : mapEntries step entries = .ok results) :
    results.map Prod.fst = entries.map Prod.fst := by
  fun_induction mapEntries step entries generalizing results with
  | case1 => cases done; rfl
  | case2 => cases done
  | case3 key value rest result _ ih =>
    cases tail : mapEntries step rest with
    | error _ => simp [tail, Except.map] at done
    | ok others =>
      simp only [tail, Except.map, Except.ok.injEq] at done
      subst done
      simp [ih tail]

/-- Each result belongs to an entry with its key. -/
theorem exists_of_mem_mapEntries {ε β : Type} {step : α → Except ε β}
    {entries : List (Text × α)} {results : List (Text × β)}
    (done : mapEntries step entries = .ok results) :
    ∀ result ∈ results, ∃ value, (result.1, value) ∈ entries ∧ step value = .ok result.2 := by
  fun_induction mapEntries step entries generalizing results with
  | case1 => cases done; simp
  | case2 => cases done
  | case3 key value rest first found ih =>
    cases tail : mapEntries step rest with
    | error _ => simp [tail, Except.map] at done
    | ok others =>
      simp only [tail, Except.map, Except.ok.injEq] at done
      subst done
      intro result among
      rcases List.mem_cons.mp among with rfl | later
      · exact ⟨value, List.mem_cons_self, found⟩
      · obtain ⟨other, listed, stepped⟩ := ih tail result later
        exact ⟨other, List.mem_cons_of_mem _ listed, stepped⟩

/-- Replaces every value by the result of a step that may fail; the first failure in
key order is the one that counts. -/
def mapValues {ε β : Type} (step : α → Except ε β) (table : Table α) : Except ε (Table β) :=
  match done : mapEntries step table.entries with
  | .error fault => .error fault
  | .ok results => .ok ⟨results, by
      have ascending := List.pairwise_map.2 table.ascending
      rw [← keys_of_mapEntries done] at ascending
      exact List.pairwise_map.1 ascending⟩

/-- The entries of the new table come from the old ones. -/
theorem mapEntries_of_mapValues {ε β : Type} {step : α → Except ε β} {table : Table α}
    {result : Table β} (done : table.mapValues step = .ok result) :
    mapEntries step table.entries = .ok result.entries := by
  unfold mapValues at done
  split at done
  · cases done
  · next results found =>
    cases done
    exact found

/-- No key has a value in the empty table. -/
@[simp] theorem get?_empty (key : Text) : (empty : Table α).get? key = none := rfl

/-- A filter by the key hides exactly the keys that it refuses. -/
theorem lookup_filter_key (p : Text → Bool) (entries : List (Text × α)) (key : Text) :
    (entries.filter fun entry => p entry.1).lookup key =
      if p key then entries.lookup key else none := by
  induction entries with
  | nil => simp
  | cons entry rest ih =>
    obtain ⟨name, value⟩ := entry
    by_cases same : key = name
    · subst same
      by_cases kept : p key <;> simp [kept, ih]
    · have different : (key == name) = false := by simpa using same
      by_cases kept : p name <;> simp [List.lookup_cons, kept, ih, different]

/-- Erasing takes the value of one key and of no other. -/
theorem get?_erase (table : Table α) (erased key : Text) :
    (table.erase erased).get? key = if key = erased then none else table.get? key := by
  have filtered := lookup_filter_key (fun name => name != erased) table.entries key
  by_cases same : key = erased <;> simpa [get?, erase, same] using filtered

/-- Inserting gives one key its value and leaves the others theirs. -/
theorem get?_insert (table : Table α) (inserted key : Text) (value : α) :
    (table.insert inserted value).get? key =
      if key = inserted then some value else table.get? key := by
  have below := lookup_filter_key (fun name => decide (name < inserted)) table.entries key
  have above := lookup_filter_key (fun name => decide (inserted < name)) table.entries key
  simp only [decide_eq_true_eq] at below above
  by_cases same : key = inserted
  · subst same
    rw [if_neg (List.lt_irrefl key)] at below
    simp [get?, insert, List.lookup_append, below]
  · have different : (key == inserted) = false := by simpa using same
    simp only [get?, insert, List.lookup_append, below, above, List.lookup_cons, different,
      same, if_false]
    by_cases less : key < inserted
    · simp [less, List.lt_asymm less]
    · by_cases more : inserted < key
      · simp [less, more]
      · exact absurd (List.le_antisymm (List.not_lt.1 more) (List.not_lt.1 less)) same
end Table

end Arbor

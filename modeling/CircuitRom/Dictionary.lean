/-!
# Insertion-ordered dictionaries

A `Dictionary` maps names to values and remembers the order in which the names first came.
Writing a name again replaces its value and keeps its place: a name has its first position and
its last value.
-/

namespace CircuitRom

/-- A finite map from names to values that lists its names in the order of their first insertion. -/
structure Dictionary (α : Type) where
  /-- The names with their values. -/
  entries : List (String × α)
  /-- No name occurs twice. -/
  distinct : (entries.map Prod.fst).Nodup
deriving DecidableEq

namespace Dictionary

variable {α : Type}

/-- The dictionary without names. -/
def empty : Dictionary α := ⟨[], List.nodup_nil⟩

instance : Inhabited (Dictionary α) := ⟨empty⟩

/-- The names in order. -/
def keys (d : Dictionary α) : List String := d.entries.map Prod.fst

/-- The values in the order of their names. -/
def values (d : Dictionary α) : List α := d.entries.map Prod.snd

/-- The number of names. -/
def size (d : Dictionary α) : Nat := d.entries.length

/-- Is there no name? -/
def isEmpty (d : Dictionary α) : Bool := d.entries.isEmpty

/-- The value of a name. -/
def find? (d : Dictionary α) (key : String) : Option α := d.entries.lookup key

/-- Does the name have a value? -/
def contains (d : Dictionary α) (key : String) : Bool := (d.find? key).isSome

/-- The position of a name. -/
def indexOf? (d : Dictionary α) (key : String) : Option Nat := d.keys.idxOf? key

/-! ## Writing -/

/-- Replace the value of a name in a list of entries, or append the name. -/
def put (key : String) (value : α) : List (String × α) → List (String × α)
  | [] => [(key, value)]
  | entry :: rest =>
    if entry.1 = key then (key, value) :: rest else entry :: put key value rest

/-- A key keeps its place, and a new one goes to the end. -/
theorem map_fst_put (key : String) (value : α) (entries : List (String × α)) :
    (put key value entries).map Prod.fst =
      if key ∈ entries.map Prod.fst then entries.map Prod.fst
      else entries.map Prod.fst ++ [key] := by
  induction entries with
  | nil => simp [put]
  | cons entry rest ih =>
    by_cases h : entry.1 = key
    · simp [put, h]
    · have h' : key ≠ entry.1 := fun e => h e.symm
      by_cases hk : key ∈ rest.map Prod.fst
      · simp only [put, if_neg h, List.map_cons, ih, if_pos hk]
        rw [if_pos (List.mem_cons_of_mem _ hk)]
      · simp only [put, if_neg h, List.map_cons, ih, if_neg hk]
        rw [if_neg (by simp only [List.mem_cons, not_or]; exact ⟨h', hk⟩)]
        rfl

theorem nodup_map_fst_put (key : String) (value : α) {entries : List (String × α)}
    (h : (entries.map Prod.fst).Nodup) : ((put key value entries).map Prod.fst).Nodup := by
  rw [map_fst_put]
  split
  · exact h
  · next hk =>
    refine List.nodup_append.2 ⟨h, by simp, ?_⟩
    intro a ha b hb
    simp only [List.mem_singleton] at hb
    subst hb
    exact fun e => hk (e ▸ ha)

theorem forall_mem_put {p : String × α → Prop} {key : String} {value : α}
    {entries : List (String × α)} (h : p (key, value)) (hs : ∀ entry ∈ entries, p entry) :
    ∀ entry ∈ put key value entries, p entry := by
  induction entries with
  | nil => simpa [put] using h
  | cons entry rest ih =>
    obtain ⟨he, hr⟩ := List.forall_mem_cons.1 hs
    by_cases hk : entry.1 = key
    · rw [put, if_pos hk]
      exact List.forall_mem_cons.2 ⟨h, hr⟩
    · rw [put, if_neg hk]
      exact List.forall_mem_cons.2 ⟨he, ih hr⟩

/-- Give a name a value. -/
def insert (d : Dictionary α) (key : String) (value : α) : Dictionary α :=
  ⟨put key value d.entries, nodup_map_fst_put key value d.distinct⟩

/-- Insert a list of names and values, first to last. -/
def insertAll (d : Dictionary α) (entries : List (String × α)) : Dictionary α :=
  entries.foldl (fun d entry => d.insert entry.1 entry.2) d

/-- The dictionary of a list of names and values. -/
def ofList (entries : List (String × α)) : Dictionary α := empty.insertAll entries

/-- All entries of `d` overwritten and extended by those of `e`. -/
def merge (d e : Dictionary α) : Dictionary α := d.insertAll e.entries

/-- Change the value of one name, if the name is there. -/
def modify (d : Dictionary α) (key : String) (f : α → α) : Dictionary α :=
  ⟨d.entries.map fun entry => (entry.1, if entry.1 = key then f entry.2 else entry.2), by
    simpa [Function.comp_def] using d.distinct⟩

/-- Do two dictionaries give the same names the same values, in whatever order? -/
def sameEntries [DecidableEq α] (d e : Dictionary α) : Bool :=
  d.size == e.size && d.entries.all fun entry => e.find? entry.1 == some entry.2

/-! ## What a dictionary shows after a write -/

theorem ext_entries {d e : Dictionary α} (h : d.entries = e.entries) : d = e := by
  cases d; cases e; cases h; rfl

@[simp] theorem entries_empty : (empty : Dictionary α).entries = [] := rfl

@[simp] theorem entries_insert (d : Dictionary α) (key : String) (value : α) :
    (d.insert key value).entries = put key value d.entries := rfl

theorem keys_insert (d : Dictionary α) (key : String) (value : α) :
    (d.insert key value).keys = if key ∈ d.keys then d.keys else d.keys ++ [key] :=
  map_fst_put key value d.entries

/-- Only the key that is put changes its value. -/
theorem lookup_put (key k : String) (value : α) (entries : List (String × α)) :
    (put key value entries).lookup k = if k = key then some value else entries.lookup k := by
  induction entries with
  | nil => by_cases h : k = key <;> simp [put, List.lookup_cons, h, beq_eq_false_iff_ne.2]
  | cons entry rest ih =>
    obtain ⟨name, v⟩ := entry
    by_cases hn : name = key
    · subst hn
      by_cases hk : k = name
      · subst hk; simp [put]
      · simp [put, List.lookup_cons, hk, beq_eq_false_iff_ne.2 hk]
    · rw [put, if_neg hn]
      by_cases hk : k = name
      · subst hk; simp [hn]
      · simp [List.lookup_cons, beq_eq_false_iff_ne.2 hk, ih]

/-- A name that was just written has its value, and every other name keeps its own. -/
@[simp] theorem find?_insert (d : Dictionary α) (key k : String) (value : α) :
    (d.insert key value).find? k = if k = key then some value else d.find? k :=
  lookup_put key k value d.entries

theorem find?_eq_none_iff {d : Dictionary α} {key : String} :
    d.find? key = none ↔ key ∉ d.keys := by
  rw [find?, List.lookup_eq_none_iff, keys, List.mem_map]
  constructor
  · rintro h ⟨entry, hentry, rfl⟩
    simpa using h entry hentry
  · intro h entry hentry
    rw [bne_iff_ne]
    exact fun hkey => h ⟨entry, hentry, hkey.symm⟩

theorem contains_eq_false_iff {d : Dictionary α} {key : String} :
    d.contains key = false ↔ key ∉ d.keys := by
  rw [contains, Option.isSome_eq_false_iff, Option.isNone_iff_eq_none, find?_eq_none_iff]

theorem put_of_not_mem {key : String} {entries : List (String × α)}
    (h : key ∉ entries.map Prod.fst) (value : α) :
    put key value entries = entries ++ [(key, value)] := by
  induction entries with
  | nil => rfl
  | cons entry rest ih =>
    rw [List.map_cons, List.mem_cons, not_or] at h
    rw [put, if_neg fun hkey => h.1 hkey.symm, ih h.2]
    rfl

/-- A new name goes to the end. -/
theorem entries_insert_of_not_mem {d : Dictionary α} {key : String} (h : key ∉ d.keys)
    (value : α) : (d.insert key value).entries = d.entries ++ [(key, value)] :=
  put_of_not_mem h value

/-- The value of a name stands in the first entry with that name. -/
theorem find?_eq_map_find? (d : Dictionary α) (key : String) :
    d.find? key = (d.entries.find? (·.1 == key)).map (·.2) := by
  rw [find?]
  induction d.entries with
  | nil => rfl
  | cons entry rest ih =>
    rw [List.lookup_cons, List.find?_cons, Bool.beq_comm, ih]
    split <;> rfl

/-- What is found is an entry. -/
theorem mem_of_find? {d : Dictionary α} {key : String} {value : α}
    (h : d.find? key = some value) : (key, value) ∈ d.entries := by
  obtain ⟨before, after, hsplit, -⟩ := List.lookup_eq_some_iff.1 h
  rw [hsplit]
  simp

end Dictionary
end CircuitRom

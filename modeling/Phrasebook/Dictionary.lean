/-!
# Dictionaries

Finite maps from names to values, kept as a list of entries that is sorted by name and holds every
name at most once. Names are ordered by their characters.
-/

namespace Phrasebook

/-- A sorted list of named values without repeated names. -/
structure Dictionary (α : Type u) where
  entries : List (String × α)
  sorted : entries.Pairwise fun a b => a.1 < b.1

namespace Dictionary

variable {α : Type u}

/-- The dictionary without entries. -/
def empty : Dictionary α := ⟨[], .nil⟩

instance : EmptyCollection (Dictionary α) := ⟨empty⟩

instance : Inhabited (Dictionary α) := ⟨empty⟩

/-- The value of a name in a list of entries. -/
def findIn (name : String) : List (String × α) → Option α
  | [] => none
  | (n, v) :: rest => if n = name then some v else findIn name rest

/-- Puts an entry at its place in a sorted list, instead of one of the same name. -/
def insertIn (name : String) (value : α) : List (String × α) → List (String × α)
  | [] => [(name, value)]
  | (n, v) :: rest =>
    if name < n then (name, value) :: (n, v) :: rest
    else if name = n then (name, value) :: rest
    else (n, v) :: insertIn name value rest

theorem mem_insertIn {name : String} {value : α} {entries : List (String × α)}
    {e : String × α} (h : e ∈ insertIn name value entries) :
    e = (name, value) ∨ e ∈ entries := by
  fun_induction insertIn name value entries <;> grind

theorem pairwise_insertIn (name : String) (value : α) {entries : List (String × α)}
    (h : entries.Pairwise fun a b => a.1 < b.1) :
    (insertIn name value entries).Pairwise fun a b => a.1 < b.1 := by
  fun_induction insertIn name value entries with
  | case1 => simp
  | case2 n v rest hlt =>
    obtain ⟨hn, hr⟩ := List.pairwise_cons.mp h
    refine List.pairwise_cons.mpr ⟨?_, h⟩
    intro e he
    rcases List.mem_cons.mp he with rfl | he
    · exact hlt
    · exact String.lt_trans hlt (hn e he)
  | case3 v rest hlt => exact List.pairwise_cons.mpr (List.pairwise_cons.mp h)
  | case4 n v rest hlt hne ih =>
    obtain ⟨hn, hr⟩ := List.pairwise_cons.mp h
    refine List.pairwise_cons.mpr ⟨?_, ih hr⟩
    intro e he
    rcases mem_insertIn he with rfl | he
    · exact Std.lt_of_le_of_ne (String.not_lt.mp hlt) (Ne.symm hne)
    · exact hn e he

/-- The value of a name. -/
def find? (d : Dictionary α) (name : String) : Option α := findIn name d.entries

/-- Whether a name has a value. -/
def contains (d : Dictionary α) (name : String) : Bool := (d.find? name).isSome

/-- Gives a value to a name, instead of any value it had. -/
def insert (d : Dictionary α) (name : String) (value : α) : Dictionary α :=
  ⟨insertIn name value d.entries, pairwise_insertIn name value d.sorted⟩

/-- Removes a name. -/
def erase (d : Dictionary α) (name : String) : Dictionary α :=
  ⟨d.entries.filter (·.1 != name), d.sorted.filter _⟩

/-- The number of names. -/
def size (d : Dictionary α) : Nat := d.entries.length

/-- Whether there are no names. -/
def isEmpty (d : Dictionary α) : Bool := d.entries.isEmpty

/-- The names in order. -/
def names (d : Dictionary α) : List String := d.entries.map (·.1)

/-- Inserts entries one after the other, so that the last one of a name stays. -/
def insertAll (d : Dictionary α) (entries : List (String × α)) : Dictionary α :=
  entries.foldl (fun d e => d.insert e.1 e.2) d

/-- The dictionary of a list of entries, of which the last one of a name stays. -/
def ofList (entries : List (String × α)) : Dictionary α := empty.insertAll entries

theorem findIn_insertIn (name : String) (value : α) (other : String)
    (entries : List (String × α)) :
    findIn other (insertIn name value entries) =
      if name = other then some value else findIn other entries := by
  fun_induction insertIn name value entries <;> grind [findIn]

theorem mem_of_findIn {name : String} {v : α} {entries : List (String × α)}
    (h : findIn name entries = some v) : (name, v) ∈ entries := by
  fun_induction findIn name entries <;> grind

@[simp] theorem find?_empty (name : String) : (empty : Dictionary α).find? name = none := rfl

@[simp] theorem find?_insert (d : Dictionary α) (name : String) (value : α) (other : String) :
    (d.insert name value).find? other = if name = other then some value else d.find? other :=
  findIn_insertIn name value other d.entries

theorem findIn_filter_ne (name other : String) (entries : List (String × α)) :
    findIn other (entries.filter (·.1 != name)) =
      if name = other then none else findIn other entries := by
  induction entries with
  | nil => simp [findIn]
  | cons e rest ih => by_cases h : e.1 = name <;> grind [findIn]

@[simp] theorem find?_erase (d : Dictionary α) (name other : String) :
    (d.erase name).find? other = if name = other then none else d.find? other :=
  findIn_filter_ne name other d.entries

end Dictionary

end Phrasebook

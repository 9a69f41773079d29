/-!
# Tables

A table maps names to entries and keeps them in the order in which the names came first. A new entry
for a known name takes the place of the old one.
-/

namespace LittleLang

/-- Entries by name, in the order of first insertion. -/
structure Table (α : Type) where
  entries : List (String × α) := []
  deriving Repr

namespace Table

variable {α : Type}

def put (name : String) (a : α) : List (String × α) → List (String × α)
  | [] => [(name, a)]
  | (key, b) :: rest => if key = name then (name, a) :: rest else (key, b) :: put name a rest

def insert (t : Table α) (name : String) (a : α) : Table α :=
  ⟨put name a t.entries⟩

def get? (t : Table α) (name : String) : Option α :=
  t.entries.lookup name

def contains (t : Table α) (name : String) : Bool :=
  (t.get? name).isSome

/-- The names in order. -/
def names (t : Table α) : List String :=
  t.entries.map Prod.fst

def size (t : Table α) : Nat :=
  t.entries.length

/-- A name is in the table if there is an entry for it. -/
theorem mem_names (t : Table α) (name : String) : name ∈ t.names ↔ t.contains name = true := by
  obtain ⟨entries⟩ := t
  unfold names contains get?
  induction entries with
  | nil => simp
  | cons e rest ih =>
    obtain ⟨key, a⟩ := e
    by_cases h : name = key
    · simp [h]
    · have hlookup : List.lookup name ((key, a) :: rest) = List.lookup name rest := by
        rw [List.lookup_cons, beq_false_of_ne h]
      rw [hlookup, ← ih]
      simp [h]

/-! ## Lookups after an insertion -/

theorem lookup_put (name key : String) (a : α) (entries : List (String × α)) :
    (put name a entries).lookup key = if key = name then some a else entries.lookup key := by
  induction entries with
  | nil => grind [put]
  | cons e rest ih =>
    obtain ⟨k, b⟩ := e
    by_cases hk : k = name <;> by_cases h : key = k <;> grind [put]

theorem get?_insert (t : Table α) (name key : String) (a : α) :
    (t.insert name a).get? key = if key = name then some a else t.get? key :=
  lookup_put name key a t.entries

theorem contains_insert (t : Table α) (name key : String) (a : α) :
    (t.insert name a).contains key = (key = name || t.contains key) := by
  unfold contains
  rw [get?_insert]
  by_cases h : key = name <;> simp [h]

theorem map_fst_put (name : String) (a : α) (entries : List (String × α)) :
    (put name a entries).map Prod.fst =
      if name ∈ entries.map Prod.fst then entries.map Prod.fst
      else entries.map Prod.fst ++ [name] := by
  induction entries with
  | nil => simp [put]
  | cons e rest ih =>
    obtain ⟨k, b⟩ := e
    by_cases hk : k = name
    · simp [put, hk]
    · have hk' : ¬name = k := fun h => hk h.symm
      simp only [put, hk, if_false, List.map_cons, ih, List.mem_cons, hk', false_or]
      split <;> simp

/-- A known name keeps its place, and a new one comes last. -/
theorem names_insert (t : Table α) (name : String) (a : α) :
    (t.insert name a).names = if name ∈ t.names then t.names else t.names ++ [name] :=
  map_fst_put name a t.entries

end Table

end LittleLang

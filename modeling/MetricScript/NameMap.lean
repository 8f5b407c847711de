/-! Finite maps from names, kept as lists of entries in ascending order of name. -/

namespace MetricScript

/-- A finite map from names. -/
structure NameMap (α : Type) where
  /-- The entries, in ascending order of name, no name twice. -/
  entries : List (String × α)
  deriving Inhabited

namespace NameMap

variable {α : Type}

/-- Puts an entry into an ascending list of entries, in place of one with the same name. -/
def insertEntry (name : String) (value : α) : List (String × α) → List (String × α)
  | [] => [(name, value)]
  | (key, old) :: rest =>
    if name < key then (name, value) :: (key, old) :: rest
    else if name = key then (name, value) :: rest
    else (key, old) :: insertEntry name value rest

/-- The entries of a list in ascending order of name; of several with one name the last counts. -/
def sortEntries (entries : List (String × α)) : List (String × α) :=
  entries.foldl (fun sorted (name, value) => insertEntry name value sorted) []

def empty : NameMap α := ⟨[]⟩

def find? (m : NameMap α) (name : String) : Option α :=
  m.entries.lookup name

/-- Gives a name a value, whatever it had before. -/
def insert (m : NameMap α) (name : String) (value : α) : NameMap α :=
  ⟨insertEntry name value m.entries⟩

/-- Takes a name out. -/
def erase (m : NameMap α) (name : String) : NameMap α :=
  ⟨m.entries.filter fun entry => entry.1 ≠ name⟩

/-- The names with a value, in ascending order. -/
def names (m : NameMap α) : List String :=
  m.entries.map Prod.fst

def size (m : NameMap α) : Nat :=
  m.entries.length

/-! ### Looking up after a change -/

@[simp] theorem find?_empty (name : String) : (empty : NameMap α).find? name = none := rfl

theorem lookup_cons_of_ne {name key : String} (h : name ≠ key) (value : α)
    (rest : List (String × α)) : ((key, value) :: rest).lookup name = rest.lookup name := by
  rw [List.lookup_cons, beq_false_of_ne h]

theorem lookup_insertEntry_self (name : String) (value : α) (entries : List (String × α)) :
    (insertEntry name value entries).lookup name = some value := by
  induction entries with
  | nil => exact List.lookup_cons_self
  | cons entry rest ih =>
    obtain ⟨key, old⟩ := entry
    unfold insertEntry
    split
    · exact List.lookup_cons_self
    · split
      · exact List.lookup_cons_self
      · next hne => rw [lookup_cons_of_ne hne, ih]

theorem lookup_insertEntry_of_ne {name other : String} (h : other ≠ name) (value : α)
    (entries : List (String × α)) :
    (insertEntry name value entries).lookup other = entries.lookup other := by
  induction entries with
  | nil => exact lookup_cons_of_ne h value []
  | cons entry rest ih =>
    obtain ⟨key, old⟩ := entry
    unfold insertEntry
    split
    · exact lookup_cons_of_ne h value _
    · split
      · next heq =>
        subst heq
        rw [lookup_cons_of_ne h, lookup_cons_of_ne h]
      · rw [List.lookup_cons, List.lookup_cons, ih]

@[simp] theorem find?_insert_self (m : NameMap α) (name : String) (value : α) :
    (m.insert name value).find? name = some value :=
  lookup_insertEntry_self name value m.entries

theorem find?_insert_of_ne (m : NameMap α) {name other : String} (h : other ≠ name) (value : α) :
    (m.insert name value).find? other = m.find? other :=
  lookup_insertEntry_of_ne h value m.entries

theorem lookup_filter_ne (name other : String) (entries : List (String × α)) :
    (entries.filter fun entry => entry.1 ≠ name).lookup other =
      if other = name then none else entries.lookup other := by
  induction entries with
  | nil => simp
  | cons entry rest ih =>
    obtain ⟨key, value⟩ := entry
    by_cases hkey : key = name
    · rw [List.filter_cons_of_neg (by simp [hkey]), ih]
      split
      · rfl
      · next hne => rw [lookup_cons_of_ne (hkey ▸ hne)]
    · rw [List.filter_cons_of_pos (by simp [hkey]), List.lookup_cons, List.lookup_cons, ih]
      by_cases hother : other = name
      · subst hother
        rw [beq_false_of_ne (Ne.symm hkey), if_pos rfl]
      · simp [hother]

@[simp] theorem find?_erase_self (m : NameMap α) (name : String) :
    (m.erase name).find? name = none := by
  rw [find?, erase, lookup_filter_ne, if_pos rfl]

theorem find?_erase_of_ne (m : NameMap α) {name other : String} (h : other ≠ name) :
    (m.erase name).find? other = m.find? other := by
  rw [find?, erase, lookup_filter_ne, if_neg h, find?]

/-! ### Entries -/

theorem mem_of_lookup {κ : Type} [BEq κ] [LawfulBEq κ] {key : κ} {value : α}
    {entries : List (κ × α)} (h : entries.lookup key = some value) : (key, value) ∈ entries := by
  rcases List.lookup_eq_some_iff.mp h with ⟨front, rest, rfl, -⟩
  exact List.mem_append_right front List.mem_cons_self

theorem mem_of_find? {m : NameMap α} {name : String} {value : α}
    (h : m.find? name = some value) : (name, value) ∈ m.entries :=
  mem_of_lookup h

theorem mem_insertEntry {name : String} {value : α} {entries : List (String × α)}
    {entry : String × α} (h : entry ∈ insertEntry name value entries) :
    entry = (name, value) ∨ entry ∈ entries := by
  induction entries with
  | nil => simpa [insertEntry] using h
  | cons first rest ih =>
    obtain ⟨key, old⟩ := first
    simp only [insertEntry] at h
    split at h
    · simpa using h
    · split at h
      · rcases List.mem_cons.mp h with h | h
        · exact Or.inl h
        · exact Or.inr (List.mem_cons_of_mem _ h)
      · rcases List.mem_cons.mp h with h | h
        · exact Or.inr (h ▸ List.mem_cons_self)
        · exact (ih h).imp_right (List.mem_cons_of_mem _)

theorem mem_insert {m : NameMap α} {name : String} {value : α} {entry : String × α}
    (h : entry ∈ (m.insert name value).entries) : entry = (name, value) ∨ entry ∈ m.entries :=
  mem_insertEntry h

end NameMap

end MetricScript

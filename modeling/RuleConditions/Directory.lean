/-!
# Directories

A directory holds values under distinct names.  Inserting under a name that is taken replaces the
value there (`get?_insert`), so of several values given for one name the last one counts.

Main statements:

* `get?_insert`: what a look-up finds after an insertion;
* `get?_empty`: the empty directory holds nothing.
-/

namespace RuleConditions

/-- Values under distinct names. -/
structure Directory (α : Type) where
  entries : List (String × α)
  distinct : entries.Pairwise (fun a b => a.1 ≠ b.1)

namespace Directory

variable {α : Type}

/-- The directory without entries. -/
def empty : Directory α := ⟨[], .nil⟩

/-- The value under a name. -/
def get? (d : Directory α) (name : String) : Option α :=
  d.entries.lookup name

/-- The number of names. -/
def size (d : Directory α) : Nat := d.entries.length

/-- Puts a value under a name, in place of one that is there. -/
def insert (d : Directory α) (name : String) (value : α) : Directory α where
  entries := (name, value) :: d.entries.filter fun entry => entry.1 != name
  distinct := by
    refine .cons (fun entry h => ?_) (d.distinct.filter _)
    have := (List.mem_filter.1 h).2
    exact fun same => by simp [← same] at this

/-- Inserts several values in order. -/
def insertAll (d : Directory α) (entries : List (String × α)) : Directory α :=
  entries.foldl (fun d entry => d.insert entry.1 entry.2) d

/-- The directory of a list of entries; of several under one name the last counts. -/
def ofList (entries : List (String × α)) : Directory α := empty.insertAll entries

/-- Lists every item under each of its names; of several items under one name the last counts. -/
def ofNamed (names : α → List String) (items : List α) : Directory α :=
  ofList (items.flatMap fun item => (names item).map (·, item))

/-! ### Look-up -/

@[simp]
theorem get?_empty (name : String) : (empty : Directory α).get? name = none := rfl

/-- Filtering out the entries under one name does not touch the others. -/
theorem lookup_filter_ne (entries : List (String × α)) {name other : String} (h : other ≠ name) :
    (entries.filter fun entry => entry.1 != name).lookup other = entries.lookup other := by
  induction entries with
  | nil => rfl
  | cons entry rest ih =>
    obtain ⟨key, value⟩ := entry
    by_cases same : key = name
    · subst same
      simp [List.lookup_cons, ih, beq_eq_false_iff_ne.2 h]
    · simp [same, List.lookup_cons, ih]

/-- After an insertion the name has the new value and every other name keeps its own. -/
@[simp]
theorem get?_insert (d : Directory α) (name other : String) (value : α) :
    (d.insert name value).get? other = if other = name then some value else d.get? other := by
  by_cases h : other = name
  · simp [get?, insert, h]
  · simp [get?, insert, List.lookup_cons, h, beq_eq_false_iff_ne.2 h, lookup_filter_ne]

end Directory

end RuleConditions

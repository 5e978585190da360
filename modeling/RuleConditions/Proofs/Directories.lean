import Mathlib.Data.List.Basic
import Mathlib.Data.List.Induction
import RuleConditions.Catalogue

/-!
# Directories of named items

An item has several names, and items may share names.  A directory of items is filled item by item,
and each item is put under all its names in turn, so an item takes over every name of its own from
the items before it (`get?_insertAll_map`) and leaves the other names as they are.  What is left in
the end under a name is the last item that has it (`get?_ofNamed_eq_some_iff`).

No two functions of the catalogue share a name, so that there the order does not matter
(`Function.find?_eq_some_iff`).
-/

namespace RuleConditions

namespace Directory

variable {α : Type} {names : α → List String} {items : List α} {name : String} {item : α}

/-! ### The names of a directory -/

/-- The names under which there is a value. -/
def keys (d : Directory α) : List String := d.entries.map Prod.fst

theorem mem_keys_iff (d : Directory α) (name : String) :
    name ∈ d.keys ↔ (d.get? name).isSome = true := by
  rw [keys, get?, List.lookup_isSome_iff, List.mem_map]
  exact exists_congr fun entry => and_congr_right' (by rw [beq_iff_eq, eq_comm])

/-! ### Filling -/

/-- **One item.**  Put under several names, an item is found under each of them, and every other
name keeps its value. -/
theorem get?_insertAll_map (d : Directory α) (item : α) (added : List String) (name : String) :
    (d.insertAll (added.map (·, item))).get? name =
      if name ∈ added then some item else d.get? name := by
  induction added generalizing d with
  | nil => rfl
  | cons key added ih =>
    have hstep : d.insertAll ((key :: added).map (·, item)) =
        (d.insert key item).insertAll (added.map (·, item)) := rfl
    rw [hstep, ih, get?_insert]
    by_cases hadded : name ∈ added
    · rw [if_pos hadded, if_pos (List.mem_cons_of_mem key hadded)]
    · -- only the first insertion can be under this name
      rw [if_neg hadded]
      simp only [List.mem_cons, hadded, or_false]

theorem insertAll_append (d : Directory α) (front rest : List (String × α)) :
    d.insertAll (front ++ rest) = (d.insertAll front).insertAll rest :=
  List.foldl_append

theorem ofNamed_concat (names : α → List String) (items : List α) (item : α) :
    ofNamed names (items ++ [item]) =
      (ofNamed names items).insertAll ((names item).map (·, item)) := by
  rw [ofNamed, List.flatMap_append, List.flatMap_singleton, ofList, insertAll_append]
  rfl

/-- **All items.**  A name is looked up among the items from the last to the first. -/
theorem get?_ofNamed (names : α → List String) (items : List α) (name : String) :
    (ofNamed names items).get? name = items.reverse.find? (name ∈ names ·) := by
  induction items using List.reverseRec with
  | nil => rfl
  | append_singleton items item ih =>
    rw [ofNamed_concat, get?_insertAll_map, ih, List.reverse_concat]
    by_cases hname : name ∈ names item <;> simp [hname]

theorem mem_keys_ofNamed :
    name ∈ (ofNamed names items).keys ↔ ∃ item ∈ items, name ∈ names item := by
  rw [mem_keys_iff, get?_ofNamed, List.find?_isSome]
  simp only [List.mem_reverse, decide_eq_true_eq]

/-! ### The last item of a name -/

/-- The item has the name, and no item after it has. -/
def IsLastNamed (names : α → List String) (items : List α) (name : String) (item : α) : Prop :=
  ∃ before after, items = before ++ item :: after ∧ name ∈ names item ∧
    ∀ later ∈ after, name ∉ names later

theorem find?_reverse_eq_some_iff :
    items.reverse.find? (name ∈ names ·) = some item ↔ IsLastNamed names items name item := by
  rw [List.find?_eq_some_iff_append]
  constructor
  · rintro ⟨hname, after, before, hitems, hafter⟩
    refine ⟨before.reverse, after.reverse, ?_, of_decide_eq_true hname, fun later hlater => ?_⟩
    · rw [List.reverse_eq_append_iff, List.reverse_cons] at hitems
      rw [hitems, List.append_assoc, List.singleton_append]
    · simpa using hafter later (List.mem_reverse.mp hlater)
  · rintro ⟨before, after, rfl, hname, hafter⟩
    refine ⟨decide_eq_true hname, after.reverse, before.reverse, by simp, fun later hlater => ?_⟩
    simpa using hafter later (List.mem_reverse.mp hlater)

/-- **The last one counts.** -/
theorem get?_ofNamed_eq_some_iff :
    (ofNamed names items).get? name = some item ↔ IsLastNamed names items name item := by
  rw [get?_ofNamed, find?_reverse_eq_some_iff]

/-- A further name hides a name of an item before it, and a name hides a further name. -/
example :
    let directory := ofNamed (fun item : String × List String => item.1 :: item.2)
      [("log", ["ln", "ln"]), ("ln", []), ("power", ["log"])]
    directory.get? "ln" = some ("ln", []) ∧ directory.get? "log" = some ("power", ["log"]) := by
  decide

/-- Where no two items share a name, each item is the last one under each of its names. -/
theorem isLastNamed_iff_of_pairwise
    (hitems : items.Pairwise fun a b => ∀ name ∈ names a, name ∉ names b) :
    IsLastNamed names items name item ↔ item ∈ items ∧ name ∈ names item := by
  constructor
  · rintro ⟨before, after, rfl, hname, -⟩
    exact ⟨by simp, hname⟩
  · rintro ⟨hitem, hname⟩
    obtain ⟨before, after, rfl⟩ := List.append_of_mem hitem
    have hrest := (List.pairwise_append.mp hitems).2.1
    exact ⟨before, after, rfl, hname, fun later hlater =>
      (List.pairwise_cons.mp hrest).1 later hlater name hname⟩

/-- **Directories of items with a name and further names**, such as functions.  Whatever names the
items have, and however often a name occurs in them, the directory has just the names and the
further names of all items, and each of them leads to the last item that has it. -/
theorem mem_keys_and_get?_ofNamed (own : α → String) (further : α → List String)
    (items : List α) (name : String) :
    (name ∈ (ofNamed (fun item => own item :: further item) items).keys ↔
      ∃ item ∈ items, name = own item ∨ name ∈ further item) ∧
    ∀ item, (ofNamed (fun item => own item :: further item) items).get? name = some item ↔
      ∃ before after, items = before ++ item :: after ∧
        (name = own item ∨ name ∈ further item) ∧
        ∀ later ∈ after, name ≠ own later ∧ name ∉ further later := by
  constructor
  · rw [mem_keys_ofNamed]
    simp only [List.mem_cons]
  · intro item
    rw [get?_ofNamed_eq_some_iff]
    simp only [IsLastNamed, List.mem_cons, not_or]

end Directory

/-! ### The catalogue -/

theorem pairwise_functions :
    functions.Pairwise fun f g => ∀ name ∈ f.names, name ∉ g.names := by
  decide

/-- **Every function can be called by each of its names**, and a name calls no other function. -/
theorem Function.find?_eq_some_iff {name : String} {f : Function} :
    Function.find? name = some f ↔ f ∈ functions ∧ name ∈ f.names := by
  rw [Function.find?, functionDirectory, Directory.get?_ofNamed_eq_some_iff,
    Directory.isLastNamed_iff_of_pairwise pairwise_functions]

end RuleConditions

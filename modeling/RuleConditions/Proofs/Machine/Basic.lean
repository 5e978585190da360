import RuleConditions.Error

/-!
# A machine with positions and counters

Elsewhere a slice is a list of its own and a number of open brackets is any integer.  A machine
keeps one list and cuts slices out of it between two positions, and its counters have a fixed width.
Each access and each count is checked here, and a check that fails stops the computation at a
fault.  A loop that moves a position on is given a number of rounds, and calls within each other a
number of levels; where these do not suffice there is no result at all.

So `x = pure a` says three things of a computation: it ends with the rounds it is given, no check on
the way fails, and it comes to `a`.  The counters of open brackets, which may be negative, are the
only ones that a list can be too long for.  `Gives short x a` says the same of short lists; of long
ones it says that nothing else can happen than that such a counter overflows.
-/

namespace RuleConditions

/-- Why a machine stops before it has a result. -/
inductive Machine.Fault where
  /-- Among `length` items there is none at the position. -/
  | outside (position length : Nat)
  /-- No part of `length` items lies between the two positions. -/
  | misplaced (start stop length : Nat)
  /-- A position or the depth does not fit its counter. -/
  | overflow (count : Int)
  /-- The number of open brackets does not fit its counter. -/
  | brackets (count : Int)
deriving DecidableEq, Repr

/-- A computation of the machine.  It is `none` where it has not ended. -/
abbrev Machine (α : Type) := ExceptT Machine.Fault Option α

namespace Machine

variable {α β : Type}

/-! ### Checked steps -/

/-- The computation is out of rounds. -/
def unfinished : Machine α := ExceptT.mk none

/-- The item at a position. -/
def lookUp (items : List α) (position : Nat) : Machine α :=
  match items[position]? with
  | some item => pure item
  | none => throw (.outside position items.length)

/-- The items from one position up to another. -/
def between (items : List α) (start stop : Nat) : Machine (List α) :=
  if start ≤ stop ∧ stop ≤ items.length then pure ((items.take stop).drop start)
  else throw (.misplaced start stop items.length)

/-- What the counters of brackets stay below on both sides of zero: they have 32 bits and a sign. -/
def counterBound : Nat := Nat.pow 2 31

/-- What a count without sign stays below.  Words have 32 bits; wider ones hold more. -/
def wordBound : Nat := Nat.pow 2 32

/-- Keeps a number of open brackets in a counter with a sign. -/
def signed (count : Int) : Machine Int :=
  if -counterBound ≤ count ∧ count < counterBound then pure count else throw (.brackets count)

/-- Keeps a count in a word. -/
def unsigned (count : Nat) : Machine Nat :=
  if count < wordBound then pure count else throw (.overflow count)

/-- Keeps a count in a counter that is wide enough for the positions of a list, and no wider. -/
def counted (items : List α) (count : Nat) : Machine Nat :=
  if count ≤ items.length then pure count else throw (.overflow count)

/-- The position in front of another. -/
def predecessor : (position : Nat) → Machine Nat
  | 0 => throw (.overflow (-1))
  | position + 1 => pure position

/-! ### Where the checks pass -/

variable {items : List α} {item : α}

theorem lookUp_eq {position : Nat} (h : items[position]? = some item) :
    lookUp items position = pure item := by
  rw [lookUp, h]

/-- Behind some items stands the next one. -/
theorem lookUp_append (front back : List α) (item : α) :
    lookUp (front ++ item :: back) front.length = pure item :=
  lookUp_eq (by simp)

/-- Behind some items stand those of the next part. -/
theorem between_eq (front middle back : List α) {start stop : Nat}
    (hitems : front ++ middle ++ back = items) (hstart : start = front.length)
    (hstop : stop = front.length + middle.length) : between items start stop = pure middle := by
  have hinside : start ≤ stop ∧ stop ≤ items.length := by
    rw [← hitems, List.length_append, List.length_append]
    omega
  have hmiddle : (items.take stop).drop start = middle := by
    rw [← hitems, hstop, ← List.length_append, List.take_left, hstart, List.drop_left]
  rw [between, if_pos hinside, hmiddle]

/-- What makes a list short: the counters of brackets hold the number of its items. -/
def IsShort (items : List α) : Prop := items.length < counterBound

theorem IsShort.of_le {part : List α} (hle : part.length ≤ items.length) (h : IsShort items) :
    IsShort part :=
  Nat.lt_of_le_of_lt hle h

/-- The computation comes to `a`, unless a counter of brackets overflows on the way, which it does
not where `short` holds.  Either way it ends, and no other check fails. -/
def Gives (short : Prop) (x : Machine α) (a : α) : Prop :=
  x = pure a ∨ ¬short ∧ ∃ count, x = throw (.brackets count)

namespace Gives

variable {short short' : Prop} {x : Machine α} {a : α} {f : α → Machine β} {b : β}

theorem eq_pure (h : Gives short x a) (hshort : short) : x = pure a :=
  h.resolve_right fun hlong => hlong.1 hshort

/-- However long a list is, nothing else can happen. -/
theorem pure_or_brackets (h : Gives short x a) :
    x = pure a ∨ ∃ count, x = throw (.brackets count) :=
  h.imp_right And.right

/-- What is short enough for a part is short enough for the whole. -/
theorem mono (h : Gives short x a) (himp : short' → short) : Gives short' x a :=
  h.imp_right fun hlong => ⟨mt himp hlong.1, hlong.2⟩

theorem bind (h : Gives short x a) (hf : Gives short (f a) b) : Gives short (x >>= f) b := by
  obtain rfl | ⟨hlong, count, rfl⟩ := h
  · rwa [pure_bind]
  · exact .inr ⟨hlong, count, rfl⟩

theorem findSomeM? {f : α → Machine (Option β)} {g : α → Option β} {items : List α}
    (h : ∀ item ∈ items, Gives short (f item) (g item)) :
    Gives short (items.findSomeM? f) (items.findSome? g) := by
  induction items with
  | nil => exact .inl rfl
  | cons item items ih =>
    obtain ⟨hitem, hitems⟩ := List.forall_mem_cons.mp h
    rw [List.findSomeM?, List.findSome?]
    refine hitem.bind ?_
    cases g item with
    | none => exact ih hitems
    | some b => exact .inl rfl

end Gives

/-- Where brackets are few enough, their number fits its counter. -/
theorem gives_signed {short : Prop} {count : Int} (h : short → count.natAbs < counterBound) :
    Gives short (signed count) count := by
  unfold signed
  split
  · exact .inl rfl
  · rename_i hbound
    exact .inr ⟨fun hshort => hbound (by have := h hshort; omega), count, rfl⟩

theorem unsigned_eq {count : Nat} (h : count < wordBound) : unsigned count = pure count :=
  if_pos h

theorem counted_eq {count : Nat} (h : count ≤ items.length) : counted items count = pure count :=
  if_pos h

end Machine

end RuleConditions

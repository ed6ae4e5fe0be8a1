/-! The two link slots of a block, and values of which there is one for each slot. -/

namespace Recompiler

/-- Which of the two ways out of a block that another block can be linked to. -/
inductive Slot where
  | first
  | second
  deriving DecidableEq, Repr, Inhabited

namespace Slot

/-- Position of a slot in tables that hold both. -/
def index : Slot → Nat
  | first => 0
  | second => 1

/-- The slot at a position. -/
def ofIndex? : Nat → Option Slot
  | 0 => some first
  | 1 => some second
  | _ => none

@[simp] theorem ofIndex?_index (slot : Slot) : ofIndex? slot.index = some slot := by
  cases slot <;> rfl

end Slot

/-- A value for each link slot. -/
structure PerSlot (α : Type) where
  first : α
  second : α
  deriving DecidableEq, Repr, Inhabited

namespace PerSlot

variable {α : Type}

def get (v : PerSlot α) : Slot → α
  | .first => v.first
  | .second => v.second

/-- Changes the value of one slot. -/
def modify (v : PerSlot α) (slot : Slot) (f : α → α) : PerSlot α :=
  match slot with
  | .first => { v with first := f v.first }
  | .second => { v with second := f v.second }

def toList (v : PerSlot α) : List α :=
  [v.first, v.second]

@[simp] theorem get_modify_self (v : PerSlot α) (slot : Slot) (f : α → α) :
    (v.modify slot f).get slot = f (v.get slot) := by
  cases slot <;> rfl

theorem get_modify_of_ne (v : PerSlot α) {slot other : Slot} (h : other ≠ slot) (f : α → α) :
    (v.modify slot f).get other = v.get other := by
  cases slot <;> cases other
  · exact absurd rfl h
  · rfl
  · rfl
  · exact absurd rfl h

end PerSlot

end Recompiler

/-
The singly linked lists of list.c. The elements of a program are of any finite type; a loop over a list that meets more
elements than there are never ends and has no result.
-/
import Mathlib.Tactic

namespace Contiki.Lists

section

structure State (α : Type) where
  next : α → Option α
  list : Option α

variable {α : Type} [DecidableEq α]

def State.setNext (s : State α) (a : α) (v : Option α) : State α := { s with next := Function.update s.next a v }

section

variable (s : State α) (a b : α) (p v : Option α)

@[simp] theorem State.setNext_next : (s.setNext a v).next b = if b = a then v else s.next b := Function.update_apply ..

@[simp] theorem State.setNext_list : (s.setNext a v).list = s.list := rfl

end

variable [Fintype α] (s : State α)

/-! ## list.c -/

/-- The loop of `list_tail` from `l`. -/
@[grind =]
def tailFrom (s : State α) : Nat → α → Option α
  | 0, _ => none
  | k + 1, l => match s.next l with
    | none => some l
    | some m => tailFrom s k m

def listTail : Option (Option α) := match s.list with
  | none => some none
  | some l => (tailFrom s (Fintype.card α) l).map some

/-- What `list_remove` does with the element `l` once it is found, with `r` before it. -/
def listUnlink (s : State α) (r : Option α) (l : α) : State α :=
  let t := match r with
    | none => { s with list := s.next l }
    | some r => s.setNext r (s.next l)
  t.setNext l none

/-- The loop of `list_remove` from `l`, with the element `r` before it. -/
@[grind =]
def removeFrom (s : State α) (item : α) : Nat → Option α → Option α → Option (State α)
  | _, _, none => some s
  | 0, _, some _ => none
  | k + 1, r, some l => if l = item then some (listUnlink s r l) else removeFrom s item k (some l) (s.next l)

def listRemove (item : α) : Option (State α) := removeFrom s item (Fintype.card α) none s.list

def listAdd (item : α) : Option (State α) := do
  let s ← listRemove s item
  let s := s.setNext item none
  match ← listTail s with
  | none => some { s with list := some item }
  | some l => some (s.setNext l (some item))

def listPush (item : α) : Option (State α) := do
  let s ← listRemove s item
  some { s.setNext item s.list with list := some item }

def listInsert (previtem : Option α) (newitem : α) : Option (State α) := match previtem with
  | none => listPush s newitem
  | some p => do
    let s ← listRemove s newitem
    let s := s.setNext newitem (s.next p)
    some (s.setNext p (some newitem))

end

end Contiki.Lists

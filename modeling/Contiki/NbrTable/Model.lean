/-
The neighbor tables of nbr-table.c. A neighbor is the index of its key block, and the item of a table at that index
belongs to it; a pointer to an item is its table and its index. The calls of callbacks are recorded as they happen.
-/
import Contiki.Core.Memb
import Contiki.Lib.History

namespace Contiki.NbrTable

open Contiki.Core

/-! ## State -/

def MAX_NUM_TABLES : Nat := 8

/-- `NBR_TABLE_MAX_NEIGHBORS`, `linkaddr_null`, an item of zero bytes, and which callbacks pass the item they are called
with to `nbr_table_remove`. -/
structure Config (A D C : Type) where
  maxNeighbors : Nat
  linkaddrNull : A
  zero : D
  removes : C → Bool

/-- `nbr_table_t`: `data` is the array of its items. -/
structure Table (D C : Type) where
  index : Nat
  callback : Option C
  data : Nat → D

/-- A callback that was called: the table, the item, and the neighbors known at that moment. -/
structure Called (T : Type) where
  table : T
  item : Nat
  keys : List Nat

/-- The static variables of nbr-table.c and the tables. -/
structure State (T A D C : Type) where
  neighborAddrMem : Memb
  nbrTableKeys : List Nat
  lladdr : Nat → A
  usedMap : Nat → BitVec 8
  lockedMap : Nat → BitVec 8
  allTables : Nat → Option T
  numTables : Nat
  table : T → Table D C
  called : List (Called T)

variable {T A D C : Type} [DecidableEq T] [DecidableEq A]

def init (cfg : Config A D C) : State T A D C where
  neighborAddrMem := .init cfg.maxNeighbors
  nbrTableKeys := []
  lladdr := fun _ => cfg.linkaddrNull
  usedMap := fun _ => 0
  lockedMap := fun _ => 0
  allTables := fun _ => none
  numTables := 0
  table := fun _ => ⟨0, none, fun _ => cfg.zero⟩
  called := []

/-! ## The bitmaps -/

/-- `nbr_get_bit` of the table with this index, on an item that is not `NULL`. -/
def nbrGetBit (bitmap : Nat → BitVec 8) (index item : Nat) : Bool := bitmap item &&& 1#8 <<< index != 0

/-- `nbr_set_bit` of the table with this index, on an item that is not `NULL`. -/
def nbrSetBit (bitmap : Nat → BitVec 8) (index item : Nat) (value : Bool) : Nat → BitVec 8 :=
  Function.update bitmap item
    (if value then bitmap item ||| 1#8 <<< index else bitmap item &&& ~~~(1#8 <<< index))

/-! ## Looking up -/

/-- `index_from_lladdr`, of an address that is not `NULL`. -/
def indexFromLladdr (s : State T A D C) (lladdr : A) : Option Nat :=
  s.nbrTableKeys.find? fun key => s.lladdr key = lladdr

/-- `nbr_table_get_from_lladdr`, of an address that is not `NULL`. -/
@[grind =]
def nbrTableGetFromLladdr (s : State T A D C) (table : T) (lladdr : A) : Option Nat :=
  match indexFromLladdr s lladdr with
  | none => none
  | some item => if nbrGetBit s.usedMap (s.table table).index item then some item else none

def nbrTableIsRegistered (s : State T A D C) (table : T) : Bool :=
  (s.table table).index < MAX_NUM_TABLES ∧ s.allTables (s.table table).index = some table

/-! ## Removing a neighbor -/

/-- `nbr_table_remove`, with the value it returns. -/
def nbrTableRemove (s : State T A D C) (table : T) : Option Nat → State T A D C × Bool
  | none => (s, false)
  | some item =>
    ({ s with
        usedMap := nbrSetBit s.usedMap (s.table table).index item false
        lockedMap := nbrSetBit s.lockedMap (s.table table).index item false }, true)

/-- `nbr_table_lock`, with the value it returns. -/
def nbrTableLock (s : State T A D C) (table : T) : Option Nat → State T A D C × Bool
  | none => (s, false)
  | some item => ({ s with lockedMap := nbrSetBit s.lockedMap (s.table table).index item true }, true)

/-- `nbr_table_unlock`, with the value it returns. -/
def nbrTableUnlock (s : State T A D C) (table : T) : Option Nat → State T A D C × Bool
  | none => (s, false)
  | some item => ({ s with lockedMap := nbrSetBit s.lockedMap (s.table table).index item false }, true)

def runCallback (cfg : Config A D C) (s : State T A D C) (table : T) (callback : C) (item : Nat) : State T A D C :=
  let s := { s with called := s.called ++ [⟨table, item, s.nbrTableKeys⟩] }
  if cfg.removes callback then (nbrTableRemove s table (some item)).1 else s

/-- One round of the loop of `remove_key`. -/
@[grind =]
def callTable (cfg : Config A D C) (key : Nat) (s : State T A D C) (i : Nat) : State T A D C :=
  match s.allTables i with
  | none => s
  | some table => match (s.table table).callback with
    | none => s
    | some callback =>
      if nbrGetBit s.usedMap (s.table table).index key then runCallback cfg s table callback key else s

def removeKey (cfg : Config A D C) (s : State T A D C) (key : Nat) (doFree : Bool) : State T A D C :=
  let s := (List.range MAX_NUM_TABLES).foldl (callTable cfg key) s
  { s with
    usedMap := Function.update s.usedMap key 0
    lockedMap := Function.update s.lockedMap key 0
    nbrTableKeys := listRemove s.nbrTableKeys key
    neighborAddrMem := if doFree then s.neighborAddrMem.free key else s.neighborAddrMem }

/-- The loop of `nbr_table_clear`. -/
@[grind =]
def clearLoop (cfg : Config A D C) : Nat → State T A D C → State T A D C
  | 0, s => s
  | fuel + 1, s => match s.nbrTableKeys.head? with
    | none => s
    | some k => clearLoop cfg fuel (removeKey cfg s k true)

def nbrTableClear (cfg : Config A D C) (s : State T A D C) : State T A D C :=
  clearLoop cfg s.nbrTableKeys.length s

/-! ## Adding a neighbor -/

/-- The loop of `used_count`, over the eight bits of a byte. -/
def usedCountLoop : Nat → Nat → Nat
  | 0, _ => 0
  | fuel + 1, used => if used = 0 then 0 else (if used % 2 = 1 then 1 else 0) + usedCountLoop fuel (used / 2)

def usedCount (s : State T A D C) (lladdr : A) : Nat :=
  match indexFromLladdr s lladdr with
  | none => 0
  | some item => usedCountLoop 8 (s.usedMap item).toNat

def nbrTableGcGetWorst (s : State T A D C) (lladdr1 lladdr2 : A) : A :=
  if usedCount s lladdr2 < usedCount s lladdr1 then lladdr2 else lladdr1

def nbrTableCanAcceptNew (_new : A) (_candidateForRemoval : Option A) : Bool := true

/-- The loop of `select_for_removal`: the rest of the list and `worst_lladdr`. -/
@[grind =]
def worstUnlocked (s : State T A D C) : List Nat → Option A → Option A
  | [], worst => worst
  | k :: ks, worst =>
    if s.lockedMap k = 0 then
      match worst with
      | none => worstUnlocked s ks (some (s.lladdr k))
      | some w => worstUnlocked s ks (some (nbrTableGcGetWorst s w (s.lladdr k)))
    else worstUnlocked s ks worst

def selectForRemoval (s : State T A D C) (new : A) : Option A :=
  match worstUnlocked s s.nbrTableKeys none with
  | none => none
  | some worst => if nbrTableCanAcceptNew new (some worst) then some worst else none

/-- `entry_is_allowed`, with the address to be removed. -/
def entryIsAllowed (s : State T A D C) (table : T) (lladdr : A) : Bool × Option A :=
  if (nbrTableGetFromLladdr s table lladdr).isSome then
    (true, none)
  else if (indexFromLladdr s lladdr).isSome ∨ 0 < s.neighborAddrMem.numfree then
    (nbrTableCanAcceptNew lladdr none, none)
  else
    ((selectForRemoval s lladdr).isSome, selectForRemoval s lladdr)

def nbrTableAllocate (cfg : Config A D C) (s : State T A D C) (toBeRemovedLladdr : Option A) :
    Option (Nat × State T A D C) :=
  match s.neighborAddrMem.alloc with
  | some (new, mem) => some (new, { s with neighborAddrMem := mem })
  | none => match toBeRemovedLladdr.bind (indexFromLladdr s) with
    | none => none
    | some toBeRemoved => some (toBeRemoved, removeKey cfg s toBeRemoved false)

@[grind =]
def findOrAllocate (cfg : Config A D C) (s : State T A D C) (lladdr : A) (toBeRemoved : Option A) :
    Option (Nat × State T A D C) :=
  match indexFromLladdr s lladdr with
  | some index => some (index, s)
  | none => match nbrTableAllocate cfg s toBeRemoved with
    | none => none
    | some (key, s) =>
      some (key, { s with
        nbrTableKeys := listAdd s.nbrTableKeys key
        lladdr := Function.update s.lladdr key lladdr })

def setItem (s : State T A D C) (table : T) (item : Nat) (d : D) : State T A D C :=
  { s with
    table := Function.update s.table table { s.table table with data := Function.update (s.table table).data item d } }

/-- `nbr_table_add_lladdr`, with the item it returns. -/
@[grind =]
def nbrTableAddLladdr (cfg : Config A D C) (s : State T A D C) (table : T) (lladdr : Option A) :
    State T A D C × Option Nat :=
  let lladdr := lladdr.getD cfg.linkaddrNull
  match entryIsAllowed s table lladdr with
  | (false, _) => (s, none)
  | (true, toBeRemoved) => match findOrAllocate cfg s lladdr toBeRemoved with
    | none => (s, none)
    | some (index, s) =>
      let s := setItem s table index cfg.zero
      ({ s with usedMap := nbrSetBit s.usedMap (s.table table).index index true }, some index)

/-! ## Registering a table -/

/-- `nbr_table_register`, with the value it returns. -/
def nbrTableRegister (s : State T A D C) (table : T) (callback : Option C) : State T A D C × Bool :=
  if nbrTableIsRegistered s table then
    ({ s with table := Function.update s.table table { s.table table with callback := callback } }, true)
  else if s.numTables < MAX_NUM_TABLES then
    ({ s with
        numTables := s.numTables + 1
        table := Function.update s.table table { s.table table with index := s.numTables, callback := callback }
        allTables := Function.update s.allTables s.numTables (some table) }, true)
  else (s, false)

end Contiki.NbrTable

/-
The candidate cells of advanced_cell_alloc.c: the list from which requests are built, the ring buffer of cells that were
found to be interfered with, and the search for a cell that takes a candidate's place. Which elements of the two arrays
are accessed is logged. An index behind the end of the ring buffer reads the fields behind it, as `int`s of 32 bits, and
then other memory.
-/
import Contiki.Lib.RingBuffer
import Contiki.SfSimple.Model

namespace Contiki.CellAlloc

open Contiki.Lib Contiki.SfSimple Contiki.Tsch

/-! ## Data -/

def candCellListLen : Nat := 9

def blacklistMaxSize : Nat := 5

def tschScheduleDefaultLength : Nat := 101

/-- An access to an element of `candidate_cell_list` or of the blacklist's buffer. -/
inductive Access
  | cand (i : Nat)
  | buffer (k : Nat)
  deriving DecidableEq, Repr

def Access.InBounds : Access → Prop
  | cand i => i < candCellListLen
  | buffer k => k < blacklistMaxSize

structure Alloc where
  cand : Nat → Cell
  blacklist : RingBuffer Cell
  log : List Access

def Alloc.access (a : Alloc) (accesses : List Access) : Alloc := { a with log := a.log ++ accesses }

def Alloc.put (a : Alloc) (i : Nat) (c : Cell) : Alloc :=
  { a.access [.cand i] with cand := Function.update a.cand i c }

@[simp] theorem Alloc.put_same (a : Alloc) (i : Nat) (c : Cell) : (a.put i c).cand i = c := Function.update_self ..

theorem Alloc.put_of_ne (a : Alloc) {i j : Nat} (c : Cell) (h : j ≠ i) : (a.put i c).cand j = a.cand j :=
  Function.update_of_ne h ..

/-- Two numbers of `random_rand`. -/
abbrev Draw := UInt16 × UInt16

def Draw.timeslot (d : Draw) : UInt16 :=
  let slot := (d.1 &&& 0xFF) % 101
  if slot = 0 then slot + 1 else slot

/-- The channel that is made of a draw, one of `NUMBER_OF_CHANNELS`. -/
def Draw.channel (d : Draw) : UInt16 := (d.2 &&& 0xFF) % 4

def Draw.cell (d : Draw) : Cell := ⟨d.timeslot, d.channel⟩

/-! ## Loops that look for a match -/

/-- The elements that a loop looks at which ends with the first that matches. -/
@[grind =]
def looked (hit : Nat → Bool) : List Nat → List Nat
  | [] => []
  | k :: ks => k :: if hit k then [] else looked hit ks

/-- Such a loop gets to the last element and does not match it either. -/
@[grind =]
def passes (hit : Nat → Bool) : List Nat → Bool
  | [] => false
  | k :: ks => if hit k then false else ks.isEmpty || passes hit ks

/-! ## The first candidates -/

/-- The loop of `init_cand_cell_list`. -/
@[grind =]
def fillLoop : List Draw → Nat → Nat → Alloc → Option (Alloc × List Draw)
  | [], _, _, _ => none
  | d :: draws, slotCheck, index, a =>
    let hit := fun i => (a.cand i).timeslotOffset == d.timeslot
    let slotCheck := if index = 0 then slotCheck else if passes hit (List.range index) then 1 else slotCheck + 1
    let a := a.access ((looked hit (List.range index)).map .cand)
    if slotCheck = 1 then
      let a := a.put index d.cell
      if index + 1 < candCellListLen then fillLoop draws (slotCheck + 1) (index + 1) a else some (a, draws)
    else if slotCheck > tschScheduleDefaultLength then some (a, draws)
    else if index < candCellListLen then fillLoop draws slotCheck index a
    else some (a, draws)

def initCandCellList (draws : List Draw) (a : Alloc) : Option (Alloc × List Draw) := fillLoop draws 1 0 a

def initAdvancedCellAlloc (draws : List Draw) (a : Alloc) : Option (Alloc × List Draw) :=
  (initCandCellList draws a).map fun r => ({ r.1 with blacklist := r.1.blacklist.clear }, r.2)

def Alloc.zero : Alloc := ⟨fun _ => ⟨0, 0⟩, ⟨fun _ => ⟨0, 0⟩, 0, 0, 0⟩, []⟩

/-! ## Replacing a candidate -/

/-- `push` on the blacklist. -/
def push (c : Cell) (a : Alloc) : Alloc :=
  { a.access [.buffer a.blacklist.tail] with blacklist := a.blacklist.push blacklistMaxSize c }

/-- An `int` read as a cell. -/
def intCell (n : Nat) : Cell := ⟨UInt16.ofNat n, UInt16.ofNat (n / 65536)⟩

/-- `blacklist.buffer[k]`; behind the buffer are `head`, `tail` and `count`, and then `behind`. -/
def bufferAt (b : RingBuffer Cell) (behind : Nat → Cell) (k : Nat) : Cell :=
  if k < blacklistMaxSize then b.buffer k
  else if k = blacklistMaxSize then intCell b.head
  else if k = blacklistMaxSize + 1 then intCell b.tail
  else if k = blacklistMaxSize + 2 then intCell b.count
  else behind (k - (blacklistMaxSize + 3))

def occupied {A : Type} (s : Schedule A) (timeslot : UInt16) : Bool :=
  match tschScheduleGetSlotframeByHandle s 0 with
  | none => false
  | some sf => (tschScheduleGetLinkByTimeslot s sf timeslot).isSome

section

variable {A : Type} (s : Schedule A) (behind : Nat → Cell)

/-- The indices that the loop over the blacklist reads. -/
def blacklisted (b : RingBuffer Cell) : List Nat := (List.range b.count).map fun k => b.head + k

/-- One round of the search for a cell in place of candidate `i`, and whether it is the last. -/
def searchRound (i : Nat) (d : Draw) (a : Alloc) : Alloc × Bool :=
  if occupied s d.timeslot then (a, false)
  else
    let sameSlot := fun j => (a.cand j).timeslotOffset == d.timeslot
    let sameCell := fun k => bufferAt a.blacklist behind k == d.cell
    let new := passes sameSlot (List.range candCellListLen)
    let clear := passes sameCell (blacklisted a.blacklist)
    let a := a.access ((looked sameSlot (List.range candCellListLen)).map .cand ++
      (looked sameCell (blacklisted a.blacklist)).map .buffer)
    (if clear then a.put i d.cell else a, new && clear)

/-- The search: it ends with the draws when it has not found a cell. -/
@[grind =]
def search (i : Nat) : List Draw → Alloc → Option (Alloc × List Draw)
  | [], _ => none
  | d :: draws, a =>
    let r := searchRound s behind i d a
    if r.2 then some (r.1, draws) else search i draws r.1

def candidateAt (timeslot : UInt16) (a : Alloc) : Option Nat :=
  (List.range candCellListLen).find? fun i => (a.cand i).timeslotOffset == timeslot

def replaceCandidateCell (timeslot : UInt16) (draws : List Draw) (a : Alloc) : Option (Alloc × List Draw) :=
  let sought := fun i => (a.cand i).timeslotOffset == timeslot
  match candidateAt timeslot a with
  | none => some (a.access ((looked sought (List.range candCellListLen)).map .cand), draws)
  | some i => search s behind i draws (a.access ((looked sought (List.range candCellListLen)).map .cand))

/-! ## Updating the list -/

def networkInterfereCells : List Cell := [⟨2, 3⟩, ⟨4, 1⟩, ⟨7, 3⟩, ⟨8, 1⟩, ⟨9, 1⟩, ⟨12, 1⟩, ⟨15, 2⟩, ⟨16, 2⟩, ⟨25, 2⟩,
  ⟨26, 2⟩, ⟨27, 0⟩, ⟨28, 2⟩, ⟨29, 0⟩, ⟨32, 1⟩, ⟨33, 2⟩, ⟨39, 2⟩, ⟨42, 2⟩, ⟨43, 2⟩, ⟨49, 1⟩, ⟨52, 2⟩, ⟨53, 0⟩, ⟨55, 2⟩,
  ⟨56, 2⟩, ⟨58, 1⟩, ⟨63, 3⟩, ⟨67, 2⟩, ⟨68, 1⟩, ⟨69, 2⟩, ⟨70, 3⟩, ⟨72, 1⟩, ⟨74, 0⟩, ⟨77, 1⟩, ⟨86, 0⟩, ⟨87, 0⟩, ⟨91, 3⟩,
  ⟨96, 0⟩, ⟨98, 1⟩, ⟨99, 2⟩, ⟨100, 2⟩, ⟨101, 0⟩]

/-- The comparisons that `update_cand_cell_list` makes: each candidate with each of the cells. -/
def comparisons : List (Nat × Cell) :=
  (List.range candCellListLen).flatMap fun i => networkInterfereCells.map fun c => (i, c)

/-- One comparison: whether the candidate is the cell, and then its replacement and that of its neighbor. -/
def compare (i : Nat) (c : Cell) (draws : List Draw) (a : Alloc) : Option (Alloc × List Draw × Bool) :=
  let a := a.access [.cand i]
  if a.cand i = c then
    (replaceCandidateCell s behind (a.cand i).timeslotOffset draws (push (a.cand i) a)).bind fun r =>
      let a := r.1.access [.cand (i + 1)]
      (replaceCandidateCell s behind (a.cand (i + 1)).timeslotOffset r.2 a).map fun r => (r.1, r.2, true)
  else some (a, draws, false)

/-- The loops of `update_cand_cell_list`, and the value it returns. -/
def updateLoop : List (Nat × Cell) → Bool → List Draw → Alloc → Option (Alloc × List Draw × Bool)
  | [], ret, draws, a => some (a, draws, ret)
  | p :: rest, ret, draws, a =>
    (compare s behind p.1 p.2 draws a).bind fun r => updateLoop rest (ret || r.2.2) r.2.1 r.1

def updateCandCellList (draws : List Draw) (a : Alloc) : Option (Alloc × List Draw × Bool) :=
  updateLoop s behind comparisons false draws a

end

end Contiki.CellAlloc

/-
The scheduling function sf-simple.c: its handlers for ADD, DELETE and RELOCATE requests, the callbacks that run when a
response was sent, and the builders of ADD and RELOCATE requests. The buffers are memory, so that what lies behind
`res_storage` and behind a short list can be seen to be read; the host is little-endian.
-/
import Contiki.Sixtop.Message
import Contiki.Tsch.Schedule

namespace Contiki.SfSimple

open Contiki.Lib Contiki.Sixtop Contiki.Tsch

/-! ## Cells -/

/-- `sf_simple_cell_t`. -/
@[ext] structure Cell where
  timeslotOffset : UInt16
  channelOffset : UInt16
  deriving DecidableEq, Repr

def Cell.bytes (c : Cell) : List UInt8 :=
  [UInt8.ofNat c.timeslotOffset.toNat, UInt8.ofNat (c.timeslotOffset.toNat / 256),
    UInt8.ofNat c.channelOffset.toNat, UInt8.ofNat (c.channelOffset.toNat / 256)]

theorem Cell.length_bytes (c : Cell) : c.bytes.length = 4 := rfl

theorem length_flatMap_bytes (cs : List Cell) : (cs.flatMap Cell.bytes).length = 4 * cs.length := by
  induction cs with
  | nil => rfl
  | cons c cs ih =>
    rw [List.flatMap_cons, List.length_append, ih, Cell.length_bytes, List.length_cons]
    omega

/-- `read_cell`, at the byte `i` of a list. -/
def readCell (list : Mem) (i : Nat) : Cell :=
  ⟨UInt16.ofNat (Mem.load 2 i list), UInt16.ofNat (Mem.load 2 (i + 2) list)⟩

/-- The whole cells of a list of `len` bytes. -/
def cellsIn (list : Mem) (len : Nat) : List Cell := (List.range (len / 4)).map fun k => readCell list (4 * k)

theorem read_four (i : Nat) (m : Mem) : Mem.read i 4 m = [m i, m (i + 1), m (i + 2), m (i + 3)] := rfl

theorem readCell_of_read {c : Cell} {i : Nat} {m : Mem} (h : Mem.read i 4 m = c.bytes) : readCell m i = c := by
  obtain ⟨ts, ch⟩ := c
  rw [read_four, Cell.bytes] at h
  simp only [List.cons.injEq, and_true] at h
  obtain ⟨h₀, h₁, h₂, h₃⟩ := h
  have hts := ts.toNat_lt
  have hch := ch.toNat_lt
  simp only [readCell, Mem.load, h₀, h₁, h₂, h₃, Cell.mk.injEq]
  constructor
  · apply UInt16.toNat.inj
    simp
    omega
  · apply UInt16.toNat.inj
    simp
    omega

theorem bytes_readCell (i : Nat) (m : Mem) : (readCell m i).bytes = Mem.read i 4 m := by
  have hlt : ∀ x, (m x).toNat < 256 := fun x => (m x).toNat_lt
  have h₀ := hlt i
  have h₁ := hlt (i + 1)
  have h₂ := hlt (i + 2)
  have h₃ := hlt (i + 2 + 1)
  have hbyte : ∀ (a b : UInt8), UInt8.ofNat ((a.toNat + 256 * b.toNat) % 65536) = a ∧
      UInt8.ofNat ((a.toNat + 256 * b.toNat) % 65536 / 256) = b := by
    intro a b
    have ha := a.toNat_lt
    have hb := b.toNat_lt
    constructor
    · apply UInt8.toNat.inj
      simp
    · apply UInt8.toNat.inj
      simp
      omega
  obtain ⟨e₀, e₁⟩ := hbyte (m i) (m (i + 1))
  obtain ⟨e₂, e₃⟩ := hbyte (m (i + 2)) (m (i + 2 + 1))
  rw [read_four]
  simp only [readCell, Cell.bytes, Mem.load, Nat.mul_zero, Nat.add_zero, UInt16.toNat_ofNat', Nat.reducePow]
  rw [e₀, e₁, e₂, e₃]

def sfSimpleMaxLinks : Nat := 4

def sfSimpleSfid : UInt8 := 0xf0

/-- The size of `res_storage` and of `req_storage`. -/
def storageSize : Nat := 4 + sfSimpleMaxLinks * 4

/-- A body handed to `sixp_output`: the memory behind the pointer, and the length. -/
structure Message where
  mem : Mem
  len : Nat

def Message.bytes (r : Message) : List UInt8 := Mem.read 0 r.len r.mem

variable {A : Type} [DecidableEq A]

/-! ## The schedule -/

def slotframeHandle : UInt16 := 0

def cellOf (l : Link A) : Cell := ⟨l.timeslot, l.channelOffset⟩

def tschScheduleGetLinkByOffsets (s : Schedule A) (sf : Nat) (timeslot channelOffset : UInt16) : Option Nat :=
  (s.slotframe sf).linksList.find? fun l => (s.link l).timeslot = timeslot ∧ (s.link l).channelOffset = channelOffset

def firstValid (cells : List Cell) : Option Cell := cells.find? fun c => c.timeslotOffset ≠ 0xffff

/-- `add_links_to_schedule` for the cells of a list, with the link that `tsch_schedule_add_link` returns: only the first
cell that has a timeslot is added. -/
def addLinksToSchedule (cfg : Config A) (peer : A) (linkOption : UInt8) (cells : List Cell) (room : Bool) (s : State A) :
    State A × Option Nat :=
  match tschScheduleGetSlotframeByHandle s.sched slotframeHandle, firstValid cells with
  | some sf, some c =>
    tschScheduleAddLink cfg s sf linkOption .normal (some peer) c.timeslotOffset c.channelOffset true room
  | _, _ => (s, none)

/-- The loop of `remove_links_to_schedule`. -/
@[grind =]
def removeCells (sf : Nat) : List Cell → State A → State A
  | [], s => s
  | c :: cs, s =>
    removeCells sf cs (if c.timeslotOffset = 0xffff then s
      else (tschScheduleRemoveLinkByOffsets s sf c.timeslotOffset c.channelOffset).1)

/-- `remove_links_to_schedule` for the cells of a list. -/
def removeLinksToSchedule (cells : List Cell) (s : State A) : State A :=
  match tschScheduleGetSlotframeByHandle s.sched slotframeHandle with
  | none => s
  | some sf => removeCells sf cells s

/-! ## Requests -/

/-- The variables of the loops that gather cells into `res_storage`: `i`, `feasible_link`, the storage with the memory
behind it, and `res_len`. -/
structure Gather where
  i : UInt8
  feasibleLink : Nat
  storage : Mem
  resLen : Nat

/-- `sixp_pkt_set_cell_list` on `res_storage`, whose return value is not looked at. -/
def putCell (c : Cell) (cellOffset : Nat) (storage : Mem) : Mem :=
  (Body.sixpPktSetCellList .response Rc.success (some (memOf c.bytes)) 4 cellOffset (some storage) storageSize).body.getD
    storage

/-- One round of the loop of `add_req_input` and `relocate_req_input`. -/
def gatherStep (free : UInt16 → Bool) (list : Mem) (g : Gather) : Gather :=
  let cell := readCell list g.i.toNat
  if free cell.timeslotOffset then
    ⟨g.i + 4, g.feasibleLink + 1, putCell cell g.feasibleLink g.storage, g.resLen + 4⟩
  else { g with i := g.i + 4 }

/-- The loop of `add_req_input` and `relocate_req_input`, for at most `fuel` rounds. -/
@[grind =]
def gather (free : UInt16 → Bool) (list : Mem) (listLen numCells : Nat) : Nat → Gather → Option Gather
  | 0, _ => none
  | fuel + 1, g =>
    if g.i.toNat < listLen ∧ g.feasibleLink < numCells then gather free list listLen numCells fuel (gatherStep free list g)
    else some g

/-- The end of `add_req_input` and `relocate_req_input`: the response, if there is one; nothing where the loop has not
ended after `fuel` rounds. -/
def gatherReply (free : UInt16 → Bool) (list : Mem) (listLen numCells fuel : Nat) (storage : Mem) :
    Option (Option Message) :=
  (gather free list listLen numCells fuel ⟨0, 0, Mem.fill 0 storageSize 0 storage, 0⟩).map fun g =>
    if g.feasibleLink = numCells then some ⟨g.storage, g.resLen⟩ else none

def freeSlot (s : Schedule A) (sf : Nat) (timeslot : UInt16) : Bool :=
  (tschScheduleGetLinkByTimeslot s sf timeslot).isNone

def listVars : Body.ListOut := ⟨some 0, some 0⟩

/-- `add_req_input` on the body of a request: the response, if there is one. -/
@[grind =]
def addReqInput (s : Schedule A) (storage : Mem) (body : List UInt8) (fuel : Nat) : Option (Option Message) :=
  let num := Body.sixpPktGetNumCells .request Cmd.add (some 0) (some (memOf body)) body.length
  let list := Body.sixpPktGetCellList .request Cmd.add listVars (some (memOf body)) body.length
  match num.ok, num.out, list.ok, list.out with
  | true, some numCells, true, ⟨some start, some len⟩ =>
    match tschScheduleGetSlotframeByHandle s slotframeHandle with
    | none => some none
    | some sf =>
      if 0 < numCells ∧ 0 < len then
        gatherReply (freeSlot s sf) (fun i => memOf body (start + i)) len numCells.toNat fuel storage
      else some none
  | _, _, _, _ => some none

/-- `relocate_req_input`: the response, if there is one, with the cell that `current_cell_to_be_relocated` is set to. -/
@[grind =]
def relocateReqInput (s : Schedule A) (storage : Mem) (body : List UInt8) (fuel : Nat) :
    Option (Option (Message × Cell)) :=
  let num := Body.sixpPktGetNumCells .request Cmd.relocate (some 0) (some (memOf body)) body.length
  let rel := Body.sixpPktGetRelCellList .request Cmd.relocate listVars (some (memOf body)) body.length
  let cand := Body.sixpPktGetCandCellList .request Cmd.relocate listVars (some (memOf body)) body.length
  match num.ok, num.out, rel.ok, rel.out, cand.ok, cand.out with
  | true, some numCells, true, ⟨some relStart, some relLen⟩, true, ⟨some start, some len⟩ =>
    match tschScheduleGetSlotframeByHandle s slotframeHandle with
    | none => some none
    | some sf =>
      if 0 < numCells ∧ 0 < relLen ∧ 0 < len then
        (gatherReply (freeSlot s sf) (fun i => memOf body (start + i)) len numCells.toNat fuel storage).map fun r =>
          r.map fun r => (r, readCell (memOf body) relStart)
      else some none
  | _, _, _, _, _, _ => some none

/-- The loop of `delete_req_input`, for at most `fuel` rounds; `removed_link` stays 0. -/
@[grind =]
def gatherScheduled (found : Cell → Bool) (list : Mem) (listLen : Nat) : Nat → Gather → Option Gather
  | 0, _ => none
  | fuel + 1, g =>
    if g.i.toNat < listLen then
      let cell := readCell list g.i.toNat
      gatherScheduled found list listLen fuel (if found cell then
        ⟨g.i + 4, 0, putCell cell 0 g.storage, g.resLen + 4⟩ else { g with i := g.i + 4 })
    else some g

def scheduled (s : Schedule A) (sf : Nat) (c : Cell) : Bool :=
  (tschScheduleGetLinkByOffsets s sf c.timeslotOffset c.channelOffset).isSome

/-- `delete_req_input`: the response, if there is one. -/
def deleteReqInput (s : Schedule A) (storage : Mem) (body : List UInt8) (fuel : Nat) : Option (Option Message) :=
  let num := Body.sixpPktGetNumCells .request Cmd.delete (some 0) (some (memOf body)) body.length
  let list := Body.sixpPktGetCellList .request Cmd.delete listVars (some (memOf body)) body.length
  match num.ok, num.out, list.ok, list.out with
  | true, some numCells, true, ⟨some start, some len⟩ =>
    match tschScheduleGetSlotframeByHandle s slotframeHandle with
    | none => some none
    | some sf =>
      let g : Gather := ⟨0, 0, Mem.fill 0 storageSize 0 storage, 0⟩
      let g := if 0 < numCells ∧ 0 < len then
        gatherScheduled (scheduled s sf) (fun i => memOf body (start + i)) len fuel g else some g
      g.map fun g => some ⟨g.storage, g.resLen⟩
  | _, _, _, _ => some none

/-! ## Callbacks -/

/-- The cells of the list that `sixp_pkt_get_cell_list` finds in a response of `len` bytes. -/
@[grind =]
def responseCells (mem : Mem) (len : Nat) : Option (List Cell) :=
  let list := Body.sixpPktGetCellList .response Rc.success listVars (some mem) len
  match list.ok, list.out with
  | true, ⟨some start, some n⟩ => some (cellsIn (fun i => mem (start + i)) n)
  | _, _ => none

/-- `delete_response_sent_callback` with status SUCCESS, for a peer that is in the neighbor table. -/
def deleteResponseSentCallback (r : Message) (s : State A) : State A :=
  match responseCells r.mem r.len with
  | none => s
  | some cells => removeLinksToSchedule cells s

/-! ## Responses -/

/-- What `response_input` did: the schedule that it left, the places of the body that it read, the timeslots that
`replace_candidate_cell` was called for, and the link that `add_links_to_schedule` added. -/
structure Handled (A : Type) where
  state : State A
  reads : List Span
  replaced : List UInt16
  added : Option Nat

/-- The reads of `print_cell_list` and `remove_links_to_schedule`. -/
def cellSpans (start len : Nat) : List Span := (List.range (len / 4)).map fun k => ⟨start + 4 * k, 4⟩

/-- The reads of `add_links_to_schedule`, which stops at the first cell that has a timeslot. -/
def addSpans (start len : Nat) (cells : List Cell) : List Span :=
  (cellSpans start len).take ((cells.takeWhile fun c => c.timeslotOffset = 0xffff).length + 1)

def Handled.unchanged (s : State A) : Handled A := ⟨s, [], [], none⟩

/-- What `response_input` does for a command with the `len` bytes of cells that the getter found at `start`; `relocated`
is `current_cell_to_be_relocated`. -/
def handleCells (cfg : Config A) (relocated : Cell) (body : Mem) (start len : Nat) (peer : A) (room : Bool) (s : State A)
    (cmd : PktCode) : Handled A :=
  let cells := cellsIn (fun i => body (start + i)) len
  let first := readCell body start
  let present := (tschScheduleGetSlotframeByHandle s.sched slotframeHandle).isSome
  if cmd = Cmd.add then
    let r := addLinksToSchedule cfg peer LINK_OPTION_TX cells room s
    ⟨r.1, cellSpans start len ++ (if present then addSpans start len cells else []) ++ [⟨start, 4⟩],
      [first.timeslotOffset], r.2⟩
  else if cmd = Cmd.delete then
    ⟨removeLinksToSchedule cells s, cellSpans start len ++ if present then cellSpans start len else [], [], none⟩
  else if cmd = Cmd.relocate then
    let r := addLinksToSchedule cfg peer LINK_OPTION_TX cells room s
    ⟨removeLinksToSchedule [relocated] r.1,
      cellSpans start len ++ [⟨start, 2⟩] ++ if present then addSpans start len cells else [],
      [first.timeslotOffset], r.2⟩
  else .unchanged s

/-- `response_input`, given the command of the transaction with the peer, if the peer has one and is in the table of
neighbors. -/
@[grind =]
def responseInput (cfg : Config A) (cmd : Option PktCode) (relocated : Cell) (rc : PktCode) (body : List UInt8) (peer : A)
    (room : Bool) (s : State A) : Handled A :=
  match cmd with
  | none => .unchanged s
  | some cmd =>
    if rc = Rc.success then
      let list := Body.sixpPktGetCellList .response Rc.success listVars (some (memOf body)) body.length
      match list.ok, list.out with
      | true, ⟨some start, some len⟩ => handleCells cfg relocated (memOf body) start len peer room s cmd
      | _, _ => .unchanged s
    else .unchanged s

/-! ## Building requests -/

/-- `get_candidate_add`: the first cells of the candidate list. -/
def getCandidateAdd (candidates : Nat → Cell) : List Cell := (List.range sfSimpleMaxLinks).map candidates

/-- What `sf_simple_add_links` hands to `sixp_output`, unless it returns -1. -/
def sfSimpleAddLinks (candidates : Nat → Cell) (numLinks : UInt8) (storage : Mem) : Option Message :=
  let cells := (getCandidateAdd candidates).flatMap Cell.bytes
  let m := Mem.fill 0 storageSize 0 storage
  let r₁ := Body.sixpPktSetCellOptions .request Cmd.add 1 (some m) storageSize
  let r₂ := Body.sixpPktSetNumCells .request Cmd.add numLinks r₁.body storageSize
  let r₃ := Body.sixpPktSetCellList .request Cmd.add (some (memOf cells)) (4 * 4) 0 r₂.body storageSize
  if r₁.ok ∧ r₂.ok ∧ r₃.ok then r₃.body.map fun m => ⟨m, 4 + 4 * 4⟩ else none

/-- What `sf_simple_relocate_links` hands to `sixp_output`; a setter that fails is only reported. -/
def sfSimpleRelocateLinks (candidates : Nat → Cell) (numLinks : UInt8) (cellToRelocate : Cell) (storage : Mem) :
    Option Message :=
  let cells := (getCandidateAdd candidates).flatMap Cell.bytes
  let m := Mem.fill 0 storageSize 0 storage
  let r₁ := Body.sixpPktSetCellOptions .request Cmd.relocate 1 (some m) storageSize
  let r₂ := Body.sixpPktSetNumCells .request Cmd.relocate numLinks r₁.body storageSize
  let r₃ := Body.sixpPktSetRelCellList .request Cmd.relocate (some (memOf cellToRelocate.bytes)) 4 0 r₂.body storageSize
  let r₄ := Body.sixpPktSetCandCellList .request Cmd.relocate (some (memOf cells)) (3 * 4) 0 r₃.body storageSize
  r₄.body.map fun m => ⟨m, 2 + 1 + 1 + sfSimpleMaxLinks * 4⟩

end Contiki.SfSimple

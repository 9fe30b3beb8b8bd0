/-
The packet queues of tsch-queue.c. A neighbor is named by its address: its entry in the neighbor table is locked, so that
only the module itself takes it out. A packet is the index of its block with the number under which it was accepted,
which the source does not keep: two packets that had the same block are told apart by it. A call takes the lock where it
is free and gives it back before it returns, so that the lock is free between calls.
-/
import Contiki.Core.Memb
import Contiki.Core.Ringbufindex

namespace Contiki.Tsch

section

open Contiki.Core

/-! ## Data -/

/-- The addresses and sizes of a configuration. The ring buffers have a power of two of places. -/
structure Config (A : Type) where
  linkaddrNull : A
  tschEbAddress : A
  tschBroadcastAddress : A
  queuebufNum : Nat
  queueNumPerNeighbor : Nat
  dequeuedArraySize : Nat
  maxLinks : Nat
  maxSlotframes : Nat
  macMinBe : Nat
  macMaxBe : Nat
  queue_size : ∃ k, queueNumPerNeighbor = 2 ^ k
  dequeued_size : ∃ k, dequeuedArraySize = 2 ^ k

/-- A pointer to a `struct tsch_packet`. -/
structure PacketPtr where
  block : Nat
  id : Nat
deriving DecidableEq

inductive MacTx
  | ok | collision | noack | deferred | err | errFatal
deriving DecidableEq

/-- `struct tsch_packet`. -/
structure Packet where
  transmissions : UInt8
  maxTransmissions : UInt8
  ret : MacTx

/-- `struct tsch_neighbor`. -/
structure Nbr where
  isBroadcast : Bool
  isTimeSource : Bool
  backoffExponent : Nat
  backoffWindow : UInt16
  txLinksCount : UInt8
  dedicatedTxLinksCount : UInt8
  txArray : Nat → PacketPtr
  txRingbuf : Ringbufindex

structure Queues (A : Type) where
  nbr : A → Option Nbr
  packetMemb : Memb
  packet : Nat → Packet
  accepted : Nat

variable {A : Type} [DecidableEq A]

/-! ## Neighbors -/

/-- `tsch_queue_backoff_reset`. -/
def Nbr.backoffReset (cfg : Config A) (n : Nbr) : Nbr := { n with backoffWindow := 0, backoffExponent := cfg.macMinBe }

def newNbr (cfg : Config A) (addr : A) : Nbr where
  isBroadcast := addr = cfg.tschEbAddress ∨ addr = cfg.tschBroadcastAddress
  isTimeSource := false
  backoffExponent := cfg.macMinBe
  backoffWindow := 0
  txLinksCount := 0
  dedicatedTxLinksCount := 0
  txArray := fun _ => ⟨0, 0⟩
  txRingbuf := .init cfg.queueNumPerNeighbor

/-- `tsch_queue_add_nbr`; `room` says whether the neighbor table takes a new entry. -/
def tschQueueAddNbr (cfg : Config A) (q : Queues A) (addr : A) (room : Bool) : Queues A :=
  match q.nbr addr with
  | some _ => q
  | none => if room then { q with nbr := Function.update q.nbr addr (some (newNbr cfg addr)) } else q

def Queues.modify (q : Queues A) (addr : A) (f : Nbr → Nbr) : Queues A :=
  { q with nbr := Function.update q.nbr addr ((q.nbr addr).map f) }

/-- `tsch_queue_update_time_source` to the neighbor `newAddr`, from the one that is the time source; it returns early
where the neighbor cannot be added. -/
def tschQueueUpdateTimeSource (cfg : Config A) (q : Queues A) (old newAddr : Option A) (room : Bool) : Queues A :=
  let q := match newAddr with
    | none => q
    | some a => tschQueueAddNbr cfg q a room
  if (newAddr.map fun a => (q.nbr a).isSome) = some false then
    q
  else if newAddr = old then
    q
  else
    let q := match newAddr with
      | none => q
      | some a => q.modify a fun n => { n with isTimeSource := true }
    match old with
    | none => q
    | some a => q.modify a fun n => { n with isTimeSource := false }

/-- The neighbors that `tsch_queue_free_unused_neighbors` deallocates. -/
def Nbr.unused (n : Nbr) : Bool := !n.isBroadcast && !n.isTimeSource && n.txLinksCount = 0 && n.txRingbuf.empty

/-- `tsch_queue_free_unused_neighbors`: the queue that `tsch_queue_remove_nbr` flushes is empty. -/
def tschQueueFreeUnusedNeighbors (q : Queues A) : Queues A :=
  { q with nbr := fun addr => (q.nbr addr).filter fun n => !n.unused }

/-! ## Packets -/

def Nbr.packets (n : Nbr) : List PacketPtr := n.txRingbuf.contents n.txArray

/-- `tsch_queue_add_packet`, with the packet it returns; `qb` says whether there is a queue buffer left. -/
@[grind =]
def tschQueueAddPacket (cfg : Config A) (q : Queues A) (addr : A) (maxTransmissions : UInt8) (room qb : Bool) :
    Queues A × Option PacketPtr :=
  let q := tschQueueAddNbr cfg q addr room
  match q.nbr addr with
  | none => (q, none)
  | some n => match n.txRingbuf.peekPut with
    | none => (q, none)
    | some putIndex => match q.packetMemb.alloc with
      | none => (q, none)
      | some (block, mem) =>
        if qb then
          let p : PacketPtr := ⟨block, q.accepted⟩
          let n := { n with txArray := Function.update n.txArray putIndex p, txRingbuf := n.txRingbuf.put }
          ({ nbr := Function.update q.nbr addr (some n)
             packetMemb := mem
             packet := Function.update q.packet block ⟨0, maxTransmissions, .deferred⟩
             accepted := q.accepted + 1 }, some p)
        else ({ q with packetMemb := mem.free block }, none)

def tschQueueRemovePacketFromQueue (q : Queues A) (addr : A) : Queues A × Option PacketPtr :=
  match q.nbr addr with
  | none => (q, none)
  | some n =>
    ({ q with nbr := Function.update q.nbr addr (some { n with txRingbuf := n.txRingbuf.get.1 }) },
      n.txRingbuf.get.2.map n.txArray)

def tschQueueFreePacket (q : Queues A) (p : PacketPtr) : Queues A :=
  { q with packetMemb := q.packetMemb.free p.block }

/-- `tsch_queue_backoff_inc`; `rand` is what `random_rand` gives. -/
def Nbr.backoffInc (cfg : Config A) (rand : UInt16) (n : Nbr) : Nbr :=
  let exponent := min (n.backoffExponent + 1) cfg.macMaxBe
  let window := UInt16.ofNat ((rand.toNat >>> 6) % 2 ^ exponent)
  { n with backoffExponent := exponent, backoffWindow := if window.toNat < 65535 then window + 1 else window }

/-- `tsch_queue_packet_sent`, with whether the packet is still in the queue. -/
def tschQueuePacketSent (cfg : Config A) (q : Queues A) (addr : A) (p : PacketPtr) (isSharedLink : Bool) (status : MacTx)
    (rand : UInt16) : Queues A × Bool :=
  let isUnicast := ((q.nbr addr).map fun n => !n.isBroadcast) = some true
  if status = .ok then
    let q := (tschQueueRemovePacketFromQueue q addr).1
    let isEmpty := (q.nbr addr).map (fun n => n.txRingbuf.empty) = some true
    (if isUnicast ∧ (isSharedLink ∨ isEmpty) then q.modify addr (Nbr.backoffReset cfg) else q, false)
  else
    let drop := (q.packet p.block).transmissions ≥ (q.packet p.block).maxTransmissions
    let q := if drop then (tschQueueRemovePacketFromQueue q addr).1 else q
    (if isUnicast ∧ isSharedLink then q.modify addr (Nbr.backoffInc cfg rand) else q, !drop)

/-- `tsch_queue_get_packet_for_nbr`: the first packet, unless the neighbor has to back off on a shared link. -/
def tschQueueGetPacketForNbr (q : Queues A) (addr : A) (isSharedLink : Bool) : Option PacketPtr :=
  match q.nbr addr with
  | none => none
  | some n => match n.txRingbuf.peekGet with
    | none => none
    | some getIndex => if isSharedLink ∧ n.backoffWindow ≠ 0 then none else some (n.txArray getIndex)

/-- `tsch_queue_get_unicast_packet_for_any`, over the neighbors in the order of the neighbor table. -/
@[grind =]
def tschQueueGetUnicastPacketForAny (q : Queues A) (isSharedLink : Bool) : List A → Option (A × PacketPtr)
  | [] => none
  | addr :: addrs =>
    match (q.nbr addr).filter fun n => !n.isBroadcast && n.txLinksCount = 0 with
    | none => tschQueueGetUnicastPacketForAny q isSharedLink addrs
    | some _ => match tschQueueGetPacketForNbr q addr isSharedLink with
      | some p => some (addr, p)
      | none => tschQueueGetUnicastPacketForAny q isSharedLink addrs

def tschQueueUpdateAllBackoffWindows (cfg : Config A) (q : Queues A) (destAddr : A) : Queues A :=
  let update := fun (addr : A) (n : Nbr) =>
    if n.backoffWindow ≠ 0 ∧ ((n.txLinksCount = 0 ∧ destAddr = cfg.tschBroadcastAddress) ∨
        (n.txLinksCount ≠ 0 ∧ destAddr = addr)) then
      { n with backoffWindow := n.backoffWindow - 1 }
    else n
  { q with nbr := fun addr => (q.nbr addr).map (update addr) }

end

/-!
The schedule of tsch-schedule.c: slotframes with their lists of links, in two block pools. A link is the index of its
block; `current_link` and `backup_link`, which tsch-slot-operation.c keeps from one slot to the next, also carry the
handle of the link that was selected, so that a block that was freed and taken again is told apart.
-/

section

open Contiki.Core

/-! ## Data -/

def LINK_OPTION_TX : UInt8 := 1

def LINK_OPTION_RX : UInt8 := 2

def LINK_OPTION_SHARED : UInt8 := 4

/-- `enum link_type`. -/
inductive LinkType
  | normal | advertising | advertisingOnly
deriving DecidableEq

/-- `struct tsch_link`. The handle is the number that `current_link_handle` had, of which the source keeps 16 bits. -/
structure Link (A : Type) where
  handle : Nat
  addr : A
  slotframeHandle : UInt16
  timeslot : UInt16
  channelOffset : UInt16
  linkOptions : UInt8
  linkType : LinkType

def Link.isTx {A : Type} (l : Link A) : Bool := l.linkOptions &&& LINK_OPTION_TX != 0

def Link.isRx {A : Type} (l : Link A) : Bool := l.linkOptions &&& LINK_OPTION_RX != 0

def Link.isShared {A : Type} (l : Link A) : Bool := l.linkOptions &&& LINK_OPTION_SHARED != 0

/-- `struct tsch_slotframe`; `size` stands for the divisor. -/
structure Slotframe where
  handle : UInt16
  size : UInt16
  linksList : List Nat

/-- A pointer to a `struct tsch_link`, with the handle of the link that was selected. -/
structure LinkPtr where
  block : Nat
  handle : Nat
deriving DecidableEq

/-- The pools, the slotframes in use and the counter of link handles. -/
structure Schedule (A : Type) where
  linkMemb : Memb
  link : Nat → Link A
  slotframeMemb : Memb
  slotframe : Nat → Slotframe
  slotframeList : List Nat
  currentLinkHandle : Nat

/-- `struct tsch_asn_t`. -/
structure Asn where
  ls4b : UInt32
  ms1b : UInt8

inductive Phase
  | idle | tx (dequeuedIndex : Nat) | rx
deriving DecidableEq

/-- The variables of tsch-slot-operation.c. -/
structure Slot (A : Type) where
  currentLink : Option LinkPtr
  backupLink : Option LinkPtr
  currentPacket : Option PacketPtr
  currentNeighbor : Option A
  dequeuedRingbuf : Ringbufindex
  dequeuedArray : Nat → PacketPtr
  burstLinkScheduled : Bool
  currentAsn : Asn
  isAssociated : Bool
  phase : Phase

structure State (A : Type) where
  sched : Schedule A
  queues : Queues A
  slot : Slot A

variable {A : Type} [DecidableEq A]

/-! ## Slotframes -/

def tschScheduleGetSlotframeByHandle (s : Schedule A) (handle : UInt16) : Option Nat :=
  s.slotframeList.find? fun sf => (s.slotframe sf).handle = handle

/-- `tsch_schedule_add_slotframe`, with the slotframe it returns. -/
def tschScheduleAddSlotframe (s : State A) (handle size : UInt16) : State A × Option Nat :=
  if size = 0 then
    (s, none)
  else if (tschScheduleGetSlotframeByHandle s.sched handle).isSome then
    (s, none)
  else match s.sched.slotframeMemb.alloc with
    | none => (s, none)
    | some (sf, mem) =>
      ({ s with sched := { s.sched with
          slotframeMemb := mem
          slotframe := Function.update s.sched.slotframe sf ⟨handle, size, []⟩
          slotframeList := listAdd s.sched.slotframeList sf } }, some sf)

/-! ## Links -/

def tschScheduleGetLinkByTimeslot (s : Schedule A) (sf : Nat) (timeslot : UInt16) : Option Nat :=
  (s.slotframe sf).linksList.find? fun l => (s.link l).timeslot = timeslot

def Schedule.setLinks (s : Schedule A) (sf : Nat) (links : List Nat) : Schedule A :=
  { s with slotframe := Function.update s.slotframe sf { s.slotframe sf with linksList := links } }

/-- The counters of a neighbor after a TX link with the options of `l` came. -/
def Nbr.countUp (l : Link A) (n : Nbr) : Nbr :=
  { n with
    txLinksCount := n.txLinksCount + 1
    dedicatedTxLinksCount := if l.isShared then n.dedicatedTxLinksCount else n.dedicatedTxLinksCount + 1 }

/-- The counters of a neighbor after a TX link with the options of `l` went. -/
def Nbr.countDown (l : Link A) (n : Nbr) : Nbr :=
  { n with
    txLinksCount := n.txLinksCount - 1
    dedicatedTxLinksCount := if l.isShared then n.dedicatedTxLinksCount else n.dedicatedTxLinksCount - 1 }

/-- `tsch_schedule_remove_link`, with the value it returns. -/
def tschScheduleRemoveLink (s : State A) (sf l : Nat) : State A × Bool :=
  if (s.sched.link l).slotframeHandle = (s.sched.slotframe sf).handle then
    let link := s.sched.link l
    let slot := if s.slot.currentLink.map LinkPtr.block = some l then { s.slot with currentLink := none } else s.slot
    let sched := { s.sched.setLinks sf (listRemove (s.sched.slotframe sf).linksList l) with
      linkMemb := s.sched.linkMemb.free l }
    let queues := if link.isTx then s.queues.modify link.addr (Nbr.countDown link) else s.queues
    (⟨sched, queues, slot⟩, true)
  else (s, false)

/-- The part of `tsch_schedule_add_link` after the link at the timeslot was removed. -/
def addLink (cfg : Config A) (s : State A) (sf : Nat) (linkOptions : UInt8) (linkType : LinkType) (address : Option A)
    (timeslot channelOffset : UInt16) (room : Bool) : State A × Option Nat :=
  match s.sched.linkMemb.alloc with
  | none => (s, none)
  | some (l, mem) =>
    let link : Link A := ⟨s.sched.currentLinkHandle, address.getD cfg.linkaddrNull, (s.sched.slotframe sf).handle,
      timeslot, channelOffset, linkOptions, linkType⟩
    let sched := { s.sched.setLinks sf (listAdd (s.sched.slotframe sf).linksList l) with
      linkMemb := mem
      link := Function.update s.sched.link l link
      currentLinkHandle := s.sched.currentLinkHandle + 1 }
    let queues :=
      if link.isTx then (tschQueueAddNbr cfg s.queues link.addr room).modify link.addr (Nbr.countUp link) else s.queues
    (⟨sched, queues, s.slot⟩, some l)

/-- `tsch_schedule_add_link`, with the link it returns; `room` says whether the neighbor table takes a new entry. -/
def tschScheduleAddLink (cfg : Config A) (s : State A) (sf : Nat) (linkOptions : UInt8) (linkType : LinkType)
    (address : Option A) (timeslot channelOffset : UInt16) (doRemove room : Bool) : State A × Option Nat :=
  if (timeslot.toNat : Int) > (s.sched.slotframe sf).size.toNat - 1 then
    (s, none)
  else
    let s := if doRemove then
        match tschScheduleGetLinkByTimeslot s.sched sf timeslot with
        | none => s
        | some l => (tschScheduleRemoveLink s sf l).1
      else s
    addLink cfg s sf linkOptions linkType address timeslot channelOffset room

/-- The loop of `tsch_schedule_remove_link_by_offsets`, which goes through the list as it was. -/
@[grind =]
def removeByOffsets (timeslot channelOffset : UInt16) (sf : Nat) : List Nat → State A → State A × Bool
  | [], s => (s, false)
  | l :: ls, s =>
    if (s.sched.link l).timeslot = timeslot ∧ (s.sched.link l).channelOffset = channelOffset then
      let r := tschScheduleRemoveLink s sf l
      let rest := removeByOffsets timeslot channelOffset sf ls r.1
      (rest.1, r.2 || rest.2)
    else removeByOffsets timeslot channelOffset sf ls s

/-- `tsch_schedule_remove_link_by_offsets`, with the value it returns. -/
def tschScheduleRemoveLinkByOffsets (s : State A) (sf : Nat) (timeslot channelOffset : UInt16) : State A × Bool :=
  removeByOffsets timeslot channelOffset sf (s.sched.slotframe sf).linksList s

/-- The loop of `tsch_schedule_remove_slotframe`. -/
@[grind =]
def removeLinks (sf : Nat) : Nat → State A → State A
  | 0, s => s
  | fuel + 1, s => match (s.sched.slotframe sf).linksList.head? with
    | none => s
    | some l => removeLinks sf fuel (tschScheduleRemoveLink s sf l).1

def tschScheduleRemoveSlotframe (s : State A) (sf : Nat) : State A :=
  let s := removeLinks sf (s.sched.slotframe sf).linksList.length s
  { s with sched := { s.sched with
      slotframeMemb := s.sched.slotframeMemb.free sf
      slotframeList := listRemove s.sched.slotframeList sf } }

/-- The loop of `tsch_schedule_remove_all_slotframes`. -/
@[grind =]
def removeSlotframes : Nat → State A → State A
  | 0, s => s
  | fuel + 1, s => match s.sched.slotframeList.head? with
    | none => s
    | some sf => removeSlotframes fuel (tschScheduleRemoveSlotframe s sf)

def tschScheduleRemoveAllSlotframes (s : State A) : State A := removeSlotframes s.sched.slotframeList.length s

/-! ## The next active link -/

/-- `TSCH_ASN_MOD`, with the remainder of 2 ^ 32 that a divisor holds. -/
def Asn.mod (asn : Asn) (val : UInt16) : Nat :=
  (asn.ls4b.toNat % val.toNat + asn.ms1b.toNat * (2 ^ 32 % val.toNat) % val.toNat) % val.toNat

/-- `TSCH_ASN_INC`. -/
@[grind =]
def Asn.inc (asn : Asn) (inc : Nat) : Asn :=
  let ls4b := asn.ls4b + UInt32.ofNat inc
  ⟨ls4b, if ls4b < asn.ls4b then asn.ms1b + 1 else asn.ms1b⟩

/-- `default_tsch_link_comparator`. -/
def tschLinkComparator (s : State A) (a b : Nat) : Nat :=
  if ¬ (s.sched.link a).isTx then a
  else if (s.sched.link a).addr ≠ (s.sched.link b).addr then
    let count := fun l => match s.queues.nbr (s.sched.link l).addr with
      | none => 0
      | some n => n.txRingbuf.elements
    if count a ≥ count b then a else b
  else a

/-- The best link so far with the time to it, and a backup link at the same time. -/
structure Best where
  time : Nat
  best : Nat
  backup : Option Nat

/-- `new_best` of the two links, which may be neither. -/
def newBest (s : State A) (best l : Nat) : Option Nat :=
  let a := s.sched.link best
  let b := s.sched.link l
  if a.isTx = b.isTx then
    if b.slotframeHandle ≠ a.slotframeHandle then
      if b.slotframeHandle < a.slotframeHandle then some l else none
    else some (tschLinkComparator s best l)
  else if b.isTx then some l else none

def backupWith (s : State A) (backup : Option Nat) (l : Nat) : Option Nat :=
  if (s.sched.link l).isRx then
    match backup with
    | none => some l
    | some b => if (s.sched.link l).slotframeHandle < (s.sched.link b).slotframeHandle then some l else some b
  else backup

/-- One round of the inner loop of `tsch_schedule_get_next_active_link`. -/
def nextActiveRound (s : State A) (timeslot size : Nat) (acc : Option Best) (l : Nat) : Option Best :=
  let linkTimeslot := (s.sched.link l).timeslot.toNat
  let timeTo := if linkTimeslot > timeslot then linkTimeslot - timeslot else size + linkTimeslot - timeslot
  match acc with
  | none => some ⟨timeTo, l, none⟩
  | some b =>
    if timeTo < b.time then
      some ⟨timeTo, l, none⟩
    else if timeTo = b.time then
      let new := newBest s b.best l
      let backup := if new ≠ some l then backupWith s b.backup l else b.backup
      let backup := if new ≠ some b.best then backupWith s backup b.best else backup
      some ⟨b.time, new.getD b.best, backup⟩
    else some b

/-- The loops of `tsch_schedule_get_next_active_link`. -/
def nextActive (s : State A) (asn : Asn) : Option Best :=
  s.sched.slotframeList.foldl (fun acc sf =>
    (s.sched.slotframe sf).linksList.foldl
      (nextActiveRound s (asn.mod (s.sched.slotframe sf).size) (s.sched.slotframe sf).size.toNat) acc) none

end

end Contiki.Tsch

/-
The slot operation of tsch-slot-operation.c: from its start to where it waits for the radio, from there to its end, and
the choice of the link for the next slot. What the radio and the random generator give is a parameter. Each part also
returns the pointers to links that it reads from.
-/
import Contiki.Tsch.Schedule
import Contiki.Lib.Run

namespace Contiki.Tsch

section

open Contiki.Core

variable {A : Type} [DecidableEq A]

/-- `get_packet_and_neighbor_for_link`, over the neighbors in the order of the neighbor table. -/
@[grind =]
def getPacketAndNeighborForLink (cfg : Config A) (q : Queues A) (link : Link A) (order : List A) :
    Option PacketPtr × Option A :=
  if ¬ link.isTx then (none, none)
  else
    let eb := if link.linkType ≠ .normal then tschQueueGetPacketForNbr q cfg.tschEbAddress link.isShared else none
    match eb with
    | some p => (some p, some cfg.tschEbAddress)
    | none =>
      if link.linkType = .advertisingOnly then (none, some cfg.tschEbAddress)
      else match tschQueueGetPacketForNbr q link.addr link.isShared with
        | some p => (some p, some link.addr)
        | none =>
          let n := (q.nbr link.addr).map fun _ => link.addr
          if n = some cfg.tschBroadcastAddress then
            match tschQueueGetUnicastPacketForAny q link.isShared order with
            | some (addr, p) => (some p, some addr)
            | none => (none, n)
          else (none, n)

@[grind =]
def updateLinkBackoff (cfg : Config A) (s : State A) (link : Option LinkPtr) : State A :=
  match link with
  | none => s
  | some l =>
    if (s.sched.link l.block).isTx ∧ (s.sched.link l.block).isShared then
      { s with queues := tschQueueUpdateAllBackoffWindows cfg s.queues (s.sched.link l.block).addr }
    else s

def linkPtr (s : Schedule A) (block : Nat) : LinkPtr := ⟨block, (s.link block).handle⟩

/-- The call of `tsch_schedule_get_next_active_link` that sets `current_link` and `backup_link`, with the number of slots
to wait. -/
def getNextActiveLink (s : State A) : State A × Nat :=
  match nextActive s s.slot.currentAsn with
  | none => ({ s with slot := { s.slot with currentLink := none, backupLink := none } }, 1)
  | some b =>
    ({ s with slot := { s.slot with
        currentLink := some (linkPtr s.sched b.best)
        backupLink := b.backup.map (linkPtr s.sched) } }, b.time)

def scheduleNext (cfg : Config A) (s : State A) : State A × List LinkPtr :=
  let reads := s.slot.currentLink.toList
  let s := updateLinkBackoff cfg s s.slot.currentLink
  let r := if s.slot.burstLinkScheduled ∧ s.slot.currentLink.isSome then
      ({ s with slot := { s.slot with backupLink := none } }, 1)
    else getNextActiveLink s
  ({ r.1 with slot := { r.1.slot with currentAsn := r.1.slot.currentAsn.inc r.2 } }, reads)

@[grind =]
def scheduleLoop (cfg : Config A) : Nat → State A → State A × List LinkPtr
  | 0, s => scheduleNext cfg s
  | misses + 1, s =>
    let r := scheduleNext cfg s
    let rest := scheduleLoop cfg misses r.1
    (rest.1, r.2 ++ rest.2)

/-- How a slot ends: the node has lost its network, or it schedules the next slot after missing some. -/
inductive Ending
  | leave
  | next (misses : Nat)

/-- The end of the slot operation, up to `PT_YIELD`. -/
@[grind =]
def slotEnd (cfg : Config A) (s : State A) : Ending → State A × List LinkPtr
  | .leave => ({ s with slot := { s.slot with isAssociated := false, phase := .idle } }, [])
  | .next misses => scheduleLoop cfg misses { s with slot := { s.slot with phase := .idle } }

/-- The slot is active or not: it sends, listens or ends. -/
@[grind =]
def slotActivity (cfg : Config A) (s : State A) (l : LinkPtr) (ending : Ending) : State A × List LinkPtr :=
  let s := { s with slot := { s.slot with burstLinkScheduled := false } }
  match s.slot.currentPacket with
  | some _ => match s.slot.dequeuedRingbuf.peekPut with
    -- there is no place to put the packet when it is done: nothing is sent
    | none => slotEnd cfg s ending
    | some dequeuedIndex => ({ s with slot := { s.slot with phase := .tx dequeuedIndex } }, [])
  | none =>
    if (s.sched.link l.block).isRx then ({ s with slot := { s.slot with phase := .rx } }, [])
    else slotEnd cfg s ending

/-- A packet is sought for the link `l`. -/
def seekPacket (cfg : Config A) (s : State A) (l : LinkPtr) (order : List A) : State A :=
  let found := getPacketAndNeighborForLink cfg s.queues (s.sched.link l.block) order
  { s with slot := { s.slot with currentPacket := found.1, currentNeighbor := found.2 } }

/-- Whether the slot switches to the backup link `b`. -/
def skipsBestLink (s : State A) (l b : LinkPtr) : Bool :=
  !(s.sched.link l.block).isRx || (s.sched.link b.block).slotframeHandle < (s.sched.link l.block).slotframeHandle

/-- The slot operation from its start to where it waits; `ending` is how it ends where it does not wait. -/
@[grind =]
def slotStart (cfg : Config A) (s : State A) (lockRequested : Bool) (order : List A) (ending : Ending) :
    State A × List LinkPtr :=
  match s.slot.currentLink with
  | none => slotEnd cfg s ending
  | some l =>
    if lockRequested then slotEnd cfg s ending
    else
      let s := seekPacket cfg s l order
      match s.slot.currentPacket, s.slot.backupLink with
      | none, some b =>
        if skipsBestLink s l b then
          let s := updateLinkBackoff cfg s (some l)
          let s := { s with slot := { s.slot with currentLink := some b } }
          let r := slotActivity cfg (seekPacket cfg s b order) b ending
          (r.1, [l, b, b] ++ r.2)
        else
          let r := slotActivity cfg s l ending
          (r.1, [l, b] ++ r.2)
      | _, _ =>
        let r := slotActivity cfg s l ending
        (r.1, [l] ++ r.2)

/-- The end of `tsch_tx_slot`, when the radio is done with the packet. -/
def txDone (cfg : Config A) (s : State A) (dequeuedIndex : Nat) (p : PacketPtr) (addr : A) (l : LinkPtr) (status : MacTx)
    (rand : UInt16) (burst : Bool) : State A :=
  let packet := s.queues.packet p.block
  let queues := { s.queues with
    packet := Function.update s.queues.packet p.block
      { packet with transmissions := packet.transmissions + 1, ret := status } }
  let sent := tschQueuePacketSent cfg queues addr p (s.sched.link l.block).isShared status rand
  let slot := { s.slot with burstLinkScheduled := burst && status = .ok }
  { s with
    queues := sent.1
    slot := if sent.2 then slot else
      { slot with
        dequeuedArray := Function.update slot.dequeuedArray dequeuedIndex p
        dequeuedRingbuf := slot.dequeuedRingbuf.put } }

/-- The slot operation from where it waited to its end. -/
@[grind =]
def slotFinish (cfg : Config A) (s : State A) (status : MacTx) (rand : UInt16) (burst : Bool) (ending : Ending) :
    State A × List LinkPtr :=
  match s.slot.phase, s.slot.currentPacket, s.slot.currentNeighbor, s.slot.currentLink with
  | .tx dequeuedIndex, some p, some addr, some l =>
    let r := slotEnd cfg (txDone cfg s dequeuedIndex p addr l status rand burst) ending
    (r.1, [l] ++ r.2)
  | _, _, _, _ => slotEnd cfg s ending

/-- `tsch_slot_operation_sync` and `tsch_slot_operation_start`: the node has joined a network. -/
@[grind =]
def slotOperationStart (s : State A) (asn : Asn) : Nat → State A
  | 0 =>
    let r := getNextActiveLink { s with slot := { s.slot with isAssociated := true, currentAsn := asn } }
    { r.1 with slot := { r.1.slot with currentAsn := r.1.slot.currentAsn.inc r.2 } }
  | misses + 1 =>
    let r := getNextActiveLink { s with slot := { s.slot with isAssociated := true, currentAsn := asn } }
    slotOperationStart r.1 (r.1.slot.currentAsn.inc r.2) misses

end

/-!
Runs of the TSCH module: calls from processes, the callbacks they make, and the slot operation, which interrupts them. A
call that takes the lock waits for the end of a slot. A callback may call the module again before it returns, so that a
stack keeps the calls that wait for theirs. A queue is flushed packet by packet, and a slot may start or end in between.
-/

section

open Contiki.Core Contiki.Lib

variable {A : Type} [DecidableEq A]

inductive Event (A : Type)
  | accepted (id : Nat) (addr : A)
  | left (id : Nat) (addr : A)
  | handed (id : Nat)
  | called (id : Nat)
  | freed (id : Nat)
  | accessed (id : Nat)
deriving DecidableEq

inductive Frame
  | flush (p : PacketPtr)
  | pending (p : PacketPtr)
deriving DecidableEq

/-- The module, the calls that wait for a callback (the innermost first), the events so far (the latest first), and the
pointers to links that the last part of a slot operation read from. -/
structure World (A : Type) where
  state : State A
  frames : List Frame
  events : List (Event A)
  reads : List LinkPtr

inductive Action (A : Type)
  | addSlotframe (handle size : UInt16)
  | removeSlotframe (sf : Nat)
  | removeAllSlotframes
  | addLink (sf : Nat) (linkOptions : UInt8) (linkType : LinkType) (address : Option A)
      (timeslot channelOffset : UInt16) (doRemove room : Bool)
  | removeLink (sf l : Nat)
  | removeLinkByOffsets (sf : Nat) (timeslot channelOffset : UInt16)
  | addPacket (addr : A) (maxTransmissions : UInt8) (room qb : Bool)
  | flush (addr : A)
  | flushReturn
  | resetBackoff (addr : A)
  | pending
  | pendingReturn
  | freeUnused
  | timeSource (old newAddr : Option A) (room : Bool)
  | join (asn : Asn) (misses : Nat)
  | slotStart (lockRequested : Bool) (order : List A) (ending : Ending)
  | slotFinish (status : MacTx) (rand : UInt16) (burst : Bool) (ending : Ending)

def Schedule.links (s : Schedule A) : List Nat := s.slotframeList.flatMap fun sf => (s.slotframe sf).linksList

/-- A call of the schedule is made with a slotframe of the schedule, and between slots. -/
def Callable (s : State A) (sf : Nat) : Prop := s.slot.phase = .idle ∧ sf ∈ s.sched.slotframeList

instance (s : State A) (sf : Nat) : Decidable (Callable s sf) := inferInstanceAs (Decidable (_ ∧ _))

/-- The part of a packet that is accepted. -/
def acceptedEvents (addr : A) : Option PacketPtr → List (Event A)
  | none => []
  | some p => [.accepted p.id addr]

/-- What the start of a slot does to packets: one that is sent is read. -/
def startEvents (s : State A) : List (Event A) :=
  match s.slot.phase, s.slot.currentPacket with
  | .tx _, some p => [.accessed p.id]
  | _, _ => []

/-- What the end of a slot does to packets. -/
def finishEvents (cfg : Config A) (s : State A) (status : MacTx) (rand : UInt16) : List (Event A) :=
  match s.slot.phase, s.slot.currentPacket, s.slot.currentNeighbor, s.slot.currentLink with
  | .tx _, some p, some addr, some l =>
    let packet := s.queues.packet p.block
    let queues := { s.queues with
      packet := Function.update s.queues.packet p.block
        { packet with transmissions := packet.transmissions + 1, ret := status } }
    if (tschQueuePacketSent cfg queues addr p (s.sched.link l.block).isShared status rand).2 then [.accessed p.id]
    else
      .handed p.id :: ((tschQueueRemovePacketFromQueue queues addr).2.toList.map fun p' => .left p'.id addr) ++
        [.accessed p.id]
  | _, _, _, _ => []

def World.to (w : World A) (state : State A) : World A := { w with state := state, reads := [] }

/-- One round of `tsch_queue_flush_nbr_queue`, up to its callback. -/
@[grind =]
def flushRound (w : World A) (addr : A) : Option (World A) :=
  match tschQueueRemovePacketFromQueue w.state.queues addr with
  | (_, none) => none
  | (q, some p) =>
    let q := { q with packet := Function.update q.packet p.block { q.packet p.block with ret := .err } }
    some ⟨{ w.state with queues := q }, .flush p :: w.frames,
      .called p.id :: .accessed p.id :: .left p.id addr :: w.events, []⟩

/-- One round of `tsch_tx_process_pending`, up to its callback. -/
@[grind =]
def pendingRound (w : World A) : Option (World A) :=
  match w.frames, w.state.slot.dequeuedRingbuf.peekGet with
  | [], some i =>
    let p := w.state.slot.dequeuedArray i
    some ⟨w.state, [.pending p], .called p.id :: .accessed p.id :: w.events, []⟩
  | _, _ => none

/-- The innermost callback returns, and the packet is freed. -/
@[grind =]
def callbackReturn (w : World A) : Option (World A) :=
  match w.frames with
  | [] => none
  | .flush p :: frames =>
    some ⟨{ w.state with queues := tschQueueFreePacket w.state.queues p }, frames, .freed p.id :: w.events, []⟩
  | .pending p :: frames =>
    some ⟨{ w.state with
        queues := tschQueueFreePacket w.state.queues p
        slot := { w.state.slot with dequeuedRingbuf := w.state.slot.dequeuedRingbuf.get.1 } }, frames,
      .freed p.id :: w.events, []⟩

@[grind =]
def step (cfg : Config A) (w : World A) : Action A → Option (World A)
  | .addSlotframe handle size =>
    if w.state.slot.phase = .idle then some (w.to (tschScheduleAddSlotframe w.state handle size).1) else none
  | .removeSlotframe sf =>
    if Callable w.state sf then some (w.to (tschScheduleRemoveSlotframe w.state sf)) else none
  | .removeAllSlotframes =>
    if w.state.slot.phase = .idle then some (w.to (tschScheduleRemoveAllSlotframes w.state)) else none
  | .addLink sf linkOptions linkType address timeslot channelOffset doRemove room =>
    if Callable w.state sf then
      some (w.to (tschScheduleAddLink cfg w.state sf linkOptions linkType address timeslot channelOffset doRemove room).1)
    else none
  | .removeLink sf l =>
    if Callable w.state sf ∧ l ∈ w.state.sched.links then some (w.to (tschScheduleRemoveLink w.state sf l).1) else none
  | .removeLinkByOffsets sf timeslot channelOffset =>
    if Callable w.state sf then
      some (w.to (tschScheduleRemoveLinkByOffsets w.state sf timeslot channelOffset).1)
    else none
  | .addPacket addr maxTransmissions room qb =>
    if (w.state.queues.nbr addr).isSome ∨ w.state.slot.phase = .idle then
      let r := tschQueueAddPacket cfg w.state.queues addr maxTransmissions room qb
      some ⟨{ w.state with queues := r.1 }, w.frames, acceptedEvents addr r.2 ++ w.events, []⟩
    else none
  | .flush addr => flushRound w addr
  | .flushReturn => match w.frames with
    | .flush _ :: _ => callbackReturn w
    | _ => none
  | .resetBackoff addr => some (w.to { w.state with queues := w.state.queues.modify addr (Nbr.backoffReset cfg) })
  | .pending => pendingRound w
  | .pendingReturn => match w.frames with
    | .pending _ :: _ => callbackReturn w
    | _ => none
  | .freeUnused =>
    if w.state.slot.phase = .idle then
      some (w.to { w.state with queues := tschQueueFreeUnusedNeighbors w.state.queues })
    else none
  | .timeSource old newAddr room =>
    if w.state.slot.phase = .idle then
      some (w.to { w.state with queues := tschQueueUpdateTimeSource cfg w.state.queues old newAddr room })
    else none
  | .join asn misses =>
    if ¬ w.state.slot.isAssociated ∧ w.state.slot.phase = .idle then some (w.to (slotOperationStart w.state asn misses))
    else none
  | .slotStart lockRequested order ending =>
    if w.state.slot.isAssociated ∧ w.state.slot.phase = .idle then
      let r := slotStart cfg w.state lockRequested order ending
      some ⟨r.1, w.frames, startEvents r.1 ++ w.events, r.2⟩
    else none
  | .slotFinish status rand burst ending =>
    if w.state.slot.phase ≠ .idle then
      let r := slotFinish cfg w.state status rand burst ending
      some ⟨r.1, w.frames, finishEvents cfg w.state status rand ++ w.events, r.2⟩
    else none

/-- After `tsch_schedule_init` and `tsch_queue_init`, before the node joins a network; `rooms` say whether the neighbor
table takes the two virtual neighbors. -/
def World.init (cfg : Config A) (ebRoom broadcastRoom : Bool) : World A :=
  let queues : Queues A :=
    { nbr := fun _ => none, packetMemb := .init cfg.queuebufNum, packet := fun _ => ⟨0, 0, .deferred⟩, accepted := 0 }
  let queues := tschQueueAddNbr cfg queues cfg.tschEbAddress ebRoom
  let sched : Schedule A :=
    { linkMemb := .init cfg.maxLinks, link := fun _ => ⟨0, cfg.linkaddrNull, 0, 0, 0, 0, .normal⟩,
      slotframeMemb := .init cfg.maxSlotframes, slotframe := fun _ => ⟨0, 0, []⟩, slotframeList := [],
      currentLinkHandle := 0 }
  let slot : Slot A :=
    { currentLink := none, backupLink := none, currentPacket := none, currentNeighbor := none,
      dequeuedRingbuf := .init cfg.dequeuedArraySize, dequeuedArray := fun _ => ⟨0, 0⟩, burstLinkScheduled := false,
      currentAsn := ⟨0, 0⟩, isAssociated := false, phase := .idle }
  ⟨⟨sched, tschQueueAddNbr cfg queues cfg.tschBroadcastAddress broadcastRoom, slot⟩, [], [], []⟩

theorem four_eq_pow : ∃ k, 4 = 2 ^ k := ⟨2, rfl⟩

def smallConfig : Config Nat where
  linkaddrNull := 0
  tschEbAddress := 1
  tschBroadcastAddress := 2
  queuebufNum := 4
  queueNumPerNeighbor := 4
  dequeuedArraySize := 4
  maxLinks := 4
  maxSlotframes := 2
  macMinBe := 1
  macMaxBe := 5
  queue_size := four_eq_pow
  dequeued_size := four_eq_pow

end

end Contiki.Tsch

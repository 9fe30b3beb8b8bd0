/-
The packet queues of csma-output.c. A block of a pool is named by its index, a list is the list of its
items. The sent callback is the last thing that both csma_output_packet and the transmission of a packet
do, so what a callback calls is the next call of the run; the calls of mac_call_sent_callback are
collected in `callbacks`.
-/
import Contiki.Core.Memb

namespace Contiki.Csma

open Contiki.Core

variable {A : Type} [DecidableEq A]

/-- CSMA_MAX_NEIGHBOR_QUEUES, CSMA_MAX_PACKET_PER_NEIGHBOR, QUEUEBUF_NUM, CSMA_MAX_BACKOFF and
CSMA_MAX_FRAME_RETRIES. A neighbor may have a packet, and the last two are counted in eight bits. -/
structure Conf where
  neighborQueues : Nat
  packetPerNeighbor : Nat
  queuebufNum : Nat
  maxBackoff : Nat
  maxFrameRetries : Nat
  packetPerNeighbor_pos : 0 < packetPerNeighbor
  maxBackoff_lt : maxBackoff < 255
  maxFrameRetries_lt : maxFrameRetries < 255

/-- The results that `send_one_packet` hands to `packet_sent`. -/
inductive TxResult
  | ok
  | noack
  | collision
  | err
  | errFatal
  deriving DecidableEq

inductive Status
  | tx (result : TxResult)
  | queueFull
  deriving DecidableEq

/-- A call of `mac_call_sent_callback`; `sent` stands for the callback and its pointer. -/
structure Callback where
  sent : Nat
  status : Status
  ntx : UInt8

/-- `struct packet_queue` without its link. -/
structure Packet where
  buf : Nat
  ptr : Nat

/-- `struct qbuf_metadata`; `sent` is the callback together with its `cptr`. -/
structure Metadata where
  sent : Nat
  maxTransmissions : UInt8

/-- `struct neighbor_queue`; `transmitTimer` tells whether its timer is set. -/
structure Neighbor (A : Type) where
  addr : A
  transmitTimer : Bool
  transmissions : UInt8
  collisions : UInt8
  packetQueue : List Nat

/-- The pools of queuebuf.c, and the data block of each buffer. -/
structure Queuebuf where
  bufmem : Memb
  buframmem : Memb
  ramPtr : Nat → Nat

/-- The pools, their blocks, `neighbor_list`, and the callbacks made. -/
structure State (A : Type) where
  neighborMemb : Memb
  packetMemb : Memb
  metadataMemb : Memb
  queuebuf : Queuebuf
  neighbors : Nat → Neighbor A
  packets : Nat → Packet
  metadata : Nat → Metadata
  neighborList : List Nat
  callbacks : List Callback

/-! ## queuebuf.c -/

@[grind =]
def Queuebuf.newFromPacketbuf (q : Queuebuf) : Option Nat × Queuebuf :=
  match q.bufmem.alloc with
  | none => (none, q)
  | some (buf, bufmem) =>
    let q := { q with bufmem := bufmem }
    match q.buframmem.alloc with
    | none => (none, { q with bufmem := q.bufmem.free buf })
    | some (ram, buframmem) =>
      (some buf, { q with buframmem := buframmem, ramPtr := Function.update q.ramPtr buf ram })

def Queuebuf.free (q : Queuebuf) (buf : Nat) : Queuebuf :=
  if buf < q.bufmem.num then
    let q := { q with buframmem := q.buframmem.free (q.ramPtr buf) }
    { q with bufmem := q.bufmem.free buf }
  else q

/-! ## Neighbors -/

def State.setNeighbor (s : State A) (n : Nat) (v : Neighbor A) : State A :=
  { s with neighbors := Function.update s.neighbors n v }

def State.callSentCallback (s : State A) (sent : Nat) (status : Status) (ntx : UInt8) : State A :=
  { s with callbacks := s.callbacks ++ [⟨sent, status, ntx⟩] }

def neighborQueueFromAddr (addr : A) (s : State A) : Option Nat :=
  s.neighborList.find? fun n => (s.neighbors n).addr = addr

/-- `schedule_transmission`: the timer is set, whatever the delay. -/
def scheduleTransmission (n : Nat) (s : State A) : State A :=
  s.setNeighbor n { s.neighbors n with transmitTimer := true }

/-! ## The outcome of a transmission -/

def freePacket (n p : Nat) (s : State A) : State A :=
  let s := s.setNeighbor n { s.neighbors n with packetQueue := listRemove (s.neighbors n).packetQueue p }
  let s := { s with queuebuf := s.queuebuf.free (s.packets p).buf }
  let s := { s with metadataMemb := s.metadataMemb.free (s.packets p).ptr }
  let s := { s with packetMemb := s.packetMemb.free p }
  if (s.neighbors n).packetQueue ≠ [] then
    scheduleTransmission n (s.setNeighbor n { s.neighbors n with transmissions := 0, collisions := 0 })
  else
    let s := s.setNeighbor n { s.neighbors n with transmitTimer := false }
    let s := { s with neighborList := listRemove s.neighborList n }
    { s with neighborMemb := s.neighborMemb.free n }

def txDone (status : TxResult) (q n : Nat) (s : State A) : State A :=
  let metadata := s.metadata (s.packets q).ptr
  let ntx := (s.neighbors n).transmissions
  (freePacket n q s).callSentCallback metadata.sent (.tx status) ntx

def rexmit (n : Nat) (s : State A) : State A := scheduleTransmission n s

def collision (c : Conf) (q n : Nat) (numTransmissions : UInt8) (s : State A) : State A :=
  let metadata := s.metadata (s.packets q).ptr
  let s := s.setNeighbor n { s.neighbors n with collisions := (s.neighbors n).collisions + numTransmissions }
  let s :=
    if (s.neighbors n).collisions.toNat > c.maxBackoff then
      s.setNeighbor n { s.neighbors n with collisions := 0, transmissions := (s.neighbors n).transmissions + 1 }
    else s
  if (s.neighbors n).transmissions ≥ metadata.maxTransmissions then txDone .collision q n s else rexmit n s

def noack (q n : Nat) (numTransmissions : UInt8) (s : State A) : State A :=
  let metadata := s.metadata (s.packets q).ptr
  let s := s.setNeighbor n
    { s.neighbors n with collisions := 0, transmissions := (s.neighbors n).transmissions + numTransmissions }
  if (s.neighbors n).transmissions ≥ metadata.maxTransmissions then txDone .noack q n s else rexmit n s

def txOk (q n : Nat) (numTransmissions : UInt8) (s : State A) : State A :=
  txDone .ok q n (s.setNeighbor n
    { s.neighbors n with collisions := 0, transmissions := (s.neighbors n).transmissions + numTransmissions })

@[grind =]
def packetSent (c : Conf) (n q : Nat) (status : TxResult) (numTransmissions : UInt8) (s : State A) : State A :=
  match status with
  | .ok => txOk q n numTransmissions s
  | .noack => noack q n numTransmissions s
  | .collision => collision c q n numTransmissions s
  | status => txDone status q n s

/-- `transmit_from_queue` when the timer of `n` expires, with the result of the radio. -/
def transmitFromQueue (c : Conf) (n : Nat) (result : TxResult) (s : State A) : State A :=
  let s := s.setNeighbor n { s.neighbors n with transmitTimer := false }
  match (s.neighbors n).packetQueue with
  | [] => s
  | q :: _ => packetSent c n q result 1 s

/-! ## csma_output_packet -/

def findOrAllocNeighbor (addr : A) (s : State A) : Option Nat × State A :=
  match neighborQueueFromAddr addr s with
  | some n => (some n, s)
  | none =>
    match s.neighborMemb.alloc with
    | none => (none, s)
    | some (n, memb) =>
      let s := { s with neighborMemb := memb }
      let s := s.setNeighbor n
        { s.neighbors n with addr := addr, transmissions := 0, collisions := 0, packetQueue := [] }
      (some n, { s with neighborList := listAdd s.neighborList n })

def allocPacket (s : State A) : Option Nat × State A :=
  match s.packetMemb.alloc with
  | none => (none, s)
  | some (q, memb) =>
    let s := { s with packetMemb := memb }
    match s.metadataMemb.alloc with
    | none => (none, { s with packetMemb := s.packetMemb.free q })
    | some (ptr, memb) =>
      let s := { s with metadataMemb := memb, packets := Function.update s.packets q { s.packets q with ptr := ptr } }
      match s.queuebuf.newFromPacketbuf with
      | (some buf, queuebuf) =>
        (some q, { s with
          queuebuf := queuebuf
          packets := Function.update s.packets q { s.packets q with buf := buf } })
      | (none, queuebuf) =>
        let s := { s with queuebuf := queuebuf }
        let s := { s with metadataMemb := s.metadataMemb.free (s.packets q).ptr }
        (none, { s with packetMemb := s.packetMemb.free q })

/-- `max_transmissions` from the attribute of the packet. -/
def maxTransmissions (c : Conf) (attr : UInt16) : UInt8 :=
  if attr.toUInt8 = 0 then UInt8.ofNat (c.maxFrameRetries + 1) else attr.toUInt8

/-- `csma_output_packet` for a packet to `addr` with the attribute MAX_MAC_TRANSMISSIONS. -/
def csmaOutputPacket (c : Conf) (addr : A) (attr : UInt16) (sent : Nat) (s : State A) : State A :=
  match findOrAllocNeighbor addr s with
  | (none, s) => s.callSentCallback sent .queueFull 1
  | (some n, s) =>
    if (s.neighbors n).packetQueue.length < c.packetPerNeighbor then
      match allocPacket s with
      | (some q, s) =>
        let s := { s with
          metadata := Function.update s.metadata (s.packets q).ptr ⟨sent, maxTransmissions c attr⟩ }
        let s := s.setNeighbor n { s.neighbors n with packetQueue := listAdd (s.neighbors n).packetQueue q }
        if (s.neighbors n).packetQueue.head? = some q then scheduleTransmission n s else s
      | (none, s) =>
        let s :=
          if (s.neighbors n).packetQueue.length = 0 then
            let s := { s with neighborList := listRemove s.neighborList n }
            { s with neighborMemb := s.neighborMemb.free n }
          else s
        s.callSentCallback sent .queueFull 1
    else s.callSentCallback sent .queueFull 1

/-- `csma_output_init`. -/
def State.init [Inhabited A] (c : Conf) : State A where
  neighborMemb := Memb.init c.neighborQueues
  packetMemb := Memb.init c.queuebufNum
  metadataMemb := Memb.init c.queuebufNum
  queuebuf := ⟨Memb.init c.queuebufNum, Memb.init c.queuebufNum, fun _ => 0⟩
  neighbors := fun _ => ⟨default, false, 0, 0, []⟩
  packets := fun _ => ⟨0, 0⟩
  metadata := fun _ => ⟨0, 0⟩
  neighborList := []
  callbacks := []

end Contiki.Csma

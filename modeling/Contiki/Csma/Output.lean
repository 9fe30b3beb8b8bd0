/-
Giving a packet to csma_output_packet: it joins the queue of its receiver, or nothing changes and
its callback says that the queue is full. Whatever was allocated on the way is given back.
-/
import Contiki.Csma.Queues

namespace Contiki.Csma

open Contiki.Core

variable {A : Type} [DecidableEq A] {s t : State A} {others : List Nat} {busy : Option Nat} {n q : Nat} {a : A}

/-! ## Allocating a packet -/

/-- The two states differ in the pools of packets and in blocks that are not in use. -/
structure SameQueues (s t : State A) : Prop where
  neighborMemb : t.neighborMemb = s.neighborMemb
  neighbors : t.neighbors = s.neighbors
  neighborList : t.neighborList = s.neighborList
  metadata : t.metadata = s.metadata
  callbacks : t.callbacks = s.callbacks
  packets : ∀ p ∈ s.queued, t.packets p = s.packets p

omit [DecidableEq A] in
theorem SameQueues.queued (h : SameQueues s t) : t.queued = s.queued := by
  simp only [State.queued, h.neighbors, h.neighborList]

omit [DecidableEq A] in
theorem SameQueues.map_packets {β : Type} (h : SameQueues s t) (f : Packet → β) :
    (s.queued.map fun p => f (t.packets p)) = s.queued.map fun p => f (s.packets p) :=
  List.map_congr_left fun p hp => by rw [h.packets p hp]

omit [DecidableEq A] in
theorem Pools.repool (h : Pools s others busy) (hs : SameQueues s t) (hp : t.packetMemb.Holds s.queued)
    (hm : t.metadataMemb.Holds (s.queued.map fun p => (t.packets p).ptr))
    (hb : t.queuebuf.Holds (s.queued.map (fun p => (t.packets p).buf) ++ others)) : Pools t others busy := by
  refine ⟨?_, by rwa [hs.queued], by rwa [hs.queued], by rwa [hs.queued], ?_, ?_, ?_⟩
  · rw [hs.neighborMemb, hs.neighborList]
    exact h.neighbors
  · rw [hs.neighbors, hs.neighborList]
    exact h.addrs
  · rw [hs.neighbors, hs.neighborList]
    exact h.nonempty
  · rw [hs.neighbors, hs.neighborList]
    exact h.timer

theorem SameQueues.queue (hs : SameQueues s t) (h : Pools s others busy) (h' : Pools t others busy) :
    t.queue = s.queue := by
  funext b
  refine queue_congr h h' (fun m hm hmem => ?_) fun m hm hmem => ?_
  · refine ⟨by rwa [hs.neighborList], by rwa [hs.neighbors], ?_⟩
    simp only [State.queueOf, hs.neighbors]
    congr 1
    refine List.map_congr_left fun p hp => ?_
    have hpq : p ∈ s.queued := List.mem_flatMap.2 ⟨m, hmem, hp⟩
    simp only [State.entry, hs.packets p hpq, hs.metadata]
  · rw [hs.neighborList] at hmem
    rw [hs.neighbors] at hm
    exact ⟨hmem, hm⟩

/-- A new packet with its metadata and its buffer. -/
structure Allocated (s t : State A) (others : List Nat) (q : Nat) : Prop where
  same : SameQueues s t
  new : q ∉ s.queued
  packetMemb : t.packetMemb.Holds (q :: s.queued)
  metadataMemb : t.metadataMemb.Holds ((q :: s.queued).map fun p => (t.packets p).ptr)
  queuebuf : t.queuebuf.Holds ((q :: s.queued).map (fun p => (t.packets p).buf) ++ others)

/-- What `allocPacket` leaves behind: with the new packet, or with the pools as they were. -/
def AllocOutcome (s : State A) (others : List Nat) (busy : Option Nat) : Option Nat × State A → Prop
  | (some q, t) => Allocated s t others q
  | (none, t) => SameQueues s t ∧ Pools t others busy

omit [DecidableEq A] in
theorem allocPacket_spec (h : Pools s others busy) : AllocOutcome s others busy (allocPacket s) := by
  unfold allocPacket
  cases ha : s.packetMemb.alloc with
  | none => exact ⟨⟨rfl, rfl, rfl, rfl, rfl, fun _ _ => rfl⟩, h⟩
  | some r =>
    obtain ⟨q, memb⟩ := r
    obtain ⟨hnew, -, hq⟩ := h.packets.alloc ha
    have hne : ∀ p ∈ s.queued, p ≠ q := fun p hp he => hnew (he ▸ hp)
    have hback : (memb.free q).Holds s.queued := hq.free_perm (List.Perm.refl _)
    dsimp only
    cases hm : s.metadataMemb.alloc with
    | none =>
      have hs : SameQueues s { s with packetMemb := memb.free q } := ⟨rfl, rfl, rfl, rfl, rfl, fun _ _ => rfl⟩
      exact ⟨hs, h.repool hs hback h.metadata h.queuebuf⟩
    | some r =>
      obtain ⟨ptr, membm⟩ := r
      obtain ⟨-, -, hptr⟩ := h.metadata.alloc hm
      dsimp only
      cases hb : s.queuebuf.newFromPacketbuf with
      | mk buf queuebuf =>
        cases buf with
        | some buf =>
          have hpk : ∀ p ∈ s.queued, Function.update (Function.update s.packets q { s.packets q with ptr := ptr }) q
              { Function.update s.packets q { s.packets q with ptr := ptr } q with buf := buf } p = s.packets p := by
            intro p hp
            rw [Function.update_of_ne (hne p hp), Function.update_of_ne (hne p hp)]
          have hself : (Function.update (Function.update s.packets q { s.packets q with ptr := ptr }) q
              { Function.update s.packets q { s.packets q with ptr := ptr } q with buf := buf }) q = ⟨buf, ptr⟩ := by
            rw [Function.update_self, Function.update_self]
          refine ⟨⟨rfl, rfl, rfl, rfl, rfl, hpk⟩, hnew, hq, hptr.perm (List.Perm.of_eq ?_),
            (h.queuebuf.new_some hb).perm (List.Perm.of_eq ?_)⟩
          · rw [List.map_cons]
            exact congrArg₂ List.cons (congrArg Packet.ptr hself)
              (List.map_congr_left fun p hp => congrArg Packet.ptr (hpk p hp))
          · rw [List.map_cons, List.cons_append]
            exact congrArg₂ List.cons (congrArg Packet.buf hself) (congrArg (· ++ others)
              (List.map_congr_left fun p hp => congrArg Packet.buf (hpk p hp)))
        | none =>
          have hpk : ∀ p ∈ s.queued, Function.update s.packets q { s.packets q with ptr := ptr } p = s.packets p :=
            fun p hp => Function.update_of_ne (hne p hp) ..
          have hs : SameQueues s
              { s with
                packetMemb := memb.free q
                metadataMemb := membm.free (Function.update s.packets q { s.packets q with ptr := ptr } q).ptr
                packets := Function.update s.packets q { s.packets q with ptr := ptr }
                queuebuf := queuebuf } := ⟨rfl, rfl, rfl, rfl, rfl, hpk⟩
          refine ⟨hs, h.repool hs hback ?_ ?_⟩
          · rw [hs.map_packets Packet.ptr]
            exact hptr.free_perm (List.Perm.of_eq (by rw [Function.update_self]))
          · rw [hs.map_packets Packet.buf]
            exact h.queuebuf.new_none hb

/-! ## The packet joins a queue -/

def State.enqueue (s : State A) (n q : Nat) (m : Metadata) : State A :=
  { s with metadata := Function.update s.metadata (s.packets q).ptr m }.setNeighbor n
    { s.neighbors n with packetQueue := listAdd (s.neighbors n).packetQueue q }

section

variable {m : Metadata} (h : Pools s others (some n)) (hn : n ∈ s.neighborList) (ha : Allocated s t others q)

include hn ha

omit [DecidableEq A] in
theorem enqueue_self : (t.enqueue n q m).neighbors n =
    { s.neighbors n with packetQueue := (s.neighbors n).packetQueue ++ [q] } := by
  have hq : q ∉ (s.neighbors n).packetQueue := fun hq => ha.new (List.mem_flatMap.2 ⟨n, hn, hq⟩)
  rw [State.enqueue, setNeighbor_self, ha.same.neighbors, listAdd_new hq]

omit [DecidableEq A] hn in
theorem enqueue_ne {k : Nat} (hk : k ≠ n) : (t.enqueue n q m).neighbors k = s.neighbors k := by
  rw [State.enqueue, setNeighbor_ne _ hk, ha.same.neighbors]

include h

omit [DecidableEq A] in
theorem queued_enqueue : (t.enqueue n q m).queued.Perm (q :: s.queued) := by
  have hl : (t.enqueue n q m).neighborList = s.neighborList := ha.same.neighborList
  rw [State.queued, hl]
  refine flatMap_perm_cons h.neighbors.nodup hn ?_ fun k _ hk => ?_
  · rw [enqueue_self hn ha]
    exact List.perm_append_singleton q _
  · rw [enqueue_ne ha hk]

omit [DecidableEq A] in
theorem Pools.enqueue : Pools (t.enqueue n q m) others (some n) := by
  have hp := queued_enqueue (m := m) h hn ha
  have hl : (t.enqueue n q m).neighborList = s.neighborList := ha.same.neighborList
  have haddr : ∀ k, ((t.enqueue n q m).neighbors k).addr = (s.neighbors k).addr := by
    intro k
    by_cases hk : k = n
    · rw [hk, enqueue_self hn ha]
    · rw [enqueue_ne ha hk]
  have hbusy : ∀ {k : Nat}, some n ≠ some k → k ≠ n := fun hk he => hk (by rw [he])
  refine ⟨?_, ha.packetMemb.perm hp, ha.metadataMemb.perm (hp.map _), ha.queuebuf.perm ((hp.map _).append_right _),
    fun k hk l hl' => ?_, fun k hk hne => ?_, fun k hne => ?_⟩
  · rw [hl, show (t.enqueue n q m).neighborMemb = s.neighborMemb from ha.same.neighborMemb]
    exact h.neighbors
  · rw [haddr, haddr]
    rw [hl] at hk hl'
    exact h.addrs k hk l hl'
  · rw [enqueue_ne ha (hbusy hne)]
    rw [hl] at hk
    exact h.nonempty k hk hne
  · rw [enqueue_ne ha (hbusy hne), hl]
    exact h.timer k hne

omit [DecidableEq A] h hn in
theorem entry_enqueue {p : Nat} (hp : p ∈ s.queued) : (t.enqueue n q m).entry p = s.entry p := by
  have hne : (t.packets p).ptr ≠ (t.packets q).ptr := by
    intro he
    exact (List.nodup_cons.1 ha.metadataMemb.nodup).1 (List.mem_map.2 ⟨p, hp, he⟩)
  show Entry.mk (Function.update t.metadata (t.packets q).ptr m (t.packets p).ptr).sent
    (Function.update t.metadata (t.packets q).ptr m (t.packets p).ptr).maxTransmissions = _
  rw [Function.update_of_ne hne, ha.same.packets p hp, ha.same.metadata]
  rfl

theorem queue_enqueue : (t.enqueue n q m).queue = Function.update s.queue (s.neighbors n).addr
    (some ⟨(s.queueOf n).entries ++ [⟨m.sent, m.maxTransmissions⟩], (s.neighbors n).transmissions,
      (s.neighbors n).collisions⟩) := by
  have h' := h.enqueue (m := m) hn ha
  have hself := enqueue_self (m := m) hn ha
  have hl : (t.enqueue n q m).neighborList = s.neighborList := ha.same.neighborList
  funext b
  by_cases hb : b = (s.neighbors n).addr
  · rw [hb, Function.update_self]
    have := queue_of_mem h' (show n ∈ (t.enqueue n q m).neighborList by rwa [hl])
    rw [hself] at this
    rw [this, State.queueOf, hself]
    have hold : (s.neighbors n).packetQueue.map (t.enqueue n q m).entry = (s.neighbors n).packetQueue.map s.entry :=
      List.map_congr_left fun p hp => entry_enqueue ha (List.mem_flatMap.2 ⟨n, hn, hp⟩)
    have hnew : (t.enqueue n q m).entry q = ⟨m.sent, m.maxTransmissions⟩ := by
      show Entry.mk (Function.update t.metadata (t.packets q).ptr m (t.packets q).ptr).sent
        (Function.update t.metadata (t.packets q).ptr m (t.packets q).ptr).maxTransmissions = _
      rw [Function.update_self]
    rw [List.map_append, hold, List.map_singleton, hnew]
    rfl
  · rw [Function.update_of_ne hb]
    refine queue_elsewhere h h' (fun k _ => by rw [hl]) (fun k hk => enqueue_ne ha hk) (fun _ => rfl) (fun _ => ?_)
      (fun p hp => entry_enqueue ha hp) hb
    rw [hself]

end

/-! ## The neighbor of a packet -/

def Queue.empty : Queue := ⟨[], 0, 0⟩

def State.admitNbr (s : State A) (n : Nat) (memb : Memb) (a : A) : State A :=
  { { s with neighborMemb := memb }.setNeighbor n
      { s.neighbors n with addr := a, transmissions := 0, collisions := 0, packetQueue := [] } with
    neighborList := listAdd s.neighborList n }

section

variable {memb : Memb} (h : Pools s others none) (hal : s.neighborMemb.alloc = some (n, memb))

omit [DecidableEq A] in
theorem admit_self : (s.admitNbr n memb a).neighbors n =
    { s.neighbors n with addr := a, transmissions := 0, collisions := 0, packetQueue := [] } := Function.update_self ..

omit [DecidableEq A] in
theorem admit_ne {m : Nat} (hm : m ≠ n) : (s.admitNbr n memb a).neighbors m = s.neighbors m := Function.update_of_ne hm ..

include h hal

omit [DecidableEq A] in
theorem admit_list : n ∉ s.neighborList ∧ (s.admitNbr n memb a).neighborList = s.neighborList ++ [n] :=
  have hnew := (h.neighbors.alloc hal).1
  ⟨hnew, listAdd_new hnew⟩

omit [DecidableEq A] in
theorem queued_admit : (s.admitNbr n memb a).queued = s.queued := by
  obtain ⟨hnew, hlist⟩ := admit_list (a := a) h hal
  rw [State.queued, hlist, List.flatMap_append, List.flatMap_singleton, admit_self, List.append_nil]
  refine List.flatMap_congr fun m hm => ?_
  have hne : m ≠ n := fun he => hnew (he ▸ hm)
  rw [admit_ne hne]

omit [DecidableEq A] in
theorem Pools.admitNbr (hf : ∀ m ∈ s.neighborList, (s.neighbors m).addr ≠ a) :
    Pools (s.admitNbr n memb a) others (some n) := by
  obtain ⟨hnew, hlist⟩ := admit_list (a := a) h hal
  have hqueued := queued_admit (a := a) h hal
  have hmem : ∀ m, m ∈ (s.admitNbr n memb a).neighborList ↔ m ∈ s.neighborList ∨ m = n := by
    intro m
    rw [hlist, List.mem_append, List.mem_singleton]
  have hold : ∀ m ∈ s.neighborList, m ≠ n := fun m hm he => hnew (he ▸ hm)
  have hbusy : ∀ {m : Nat}, some n ≠ some m → m ≠ n := fun hm he => hm (by rw [he])
  have hnone : ∀ m : Nat, (none : Option Nat) ≠ some m := fun m => (Option.some_ne_none m).symm
  refine ⟨?_, ?_, ?_, ?_, fun m hm k hk he => ?_, fun m hm hne => ?_, fun m hne => ?_⟩
  · rw [hlist]
    exact (h.neighbors.alloc hal).2.2.perm (List.perm_append_singleton n _)
  · rw [hqueued]
    exact h.packets
  · rw [hqueued]
    exact h.metadata
  · rw [hqueued]
    exact h.queuebuf
  · rcases (hmem m).1 hm with hm' | hm'
    · rw [admit_ne (hold m hm')] at he
      rcases (hmem k).1 hk with hk' | hk'
      · rw [admit_ne (hold k hk')] at he
        exact h.addrs m hm' k hk' he
      · rw [hk', admit_self] at he
        exact absurd he (hf m hm')
    · rw [hm', admit_self] at he
      rcases (hmem k).1 hk with hk' | hk'
      · rw [admit_ne (hold k hk')] at he
        exact absurd he.symm (hf k hk')
      · rw [hm', hk']
  · rw [admit_ne (hbusy hne)]
    exact h.nonempty m (((hmem m).1 hm).resolve_right (hbusy hne)) (hnone m)
  · rw [admit_ne (hbusy hne), h.timer m (hnone m), hmem]
    exact ⟨Or.inl, fun hm => hm.resolve_right (hbusy hne)⟩

theorem queue_admit {b : A} (hf : ∀ m ∈ s.neighborList, (s.neighbors m).addr ≠ a) (hb : b ≠ a) :
    (s.admitNbr n memb a).queue b = s.queue b := by
  obtain ⟨hnew, hlist⟩ := admit_list (a := a) h hal
  refine queue_elsewhere h (h.admitNbr hal hf) (fun m hm => ?_) (fun m hm => admit_ne hm) (fun hn => absurd hn hnew)
    (fun _ => by rw [admit_self]) (fun _ _ => rfl) hb
  rw [hlist]
  simp [hm]

end

/-- A neighbor for the address: the one on the list, or a new one with an empty queue. -/
structure Found (s t : State A) (others : List Nat) (a : A) (n : Nat) : Prop where
  pools : Pools t others (some n)
  mem : n ∈ t.neighborList
  addr : (t.neighbors n).addr = a
  timer : (t.neighbors n).transmitTimer = true ↔ (t.neighbors n).packetQueue ≠ []
  queueOf : t.queueOf n = (s.queue a).getD Queue.empty
  old : (t.neighbors n).packetQueue ≠ [] → s.queue a = some (t.queueOf n)
  new : (t.neighbors n).packetQueue = [] → s.queue a = none
  queue : ∀ b, b ≠ a → t.queue b = s.queue b
  callbacks : t.callbacks = s.callbacks

/-- What `findOrAllocNeighbor` comes back with. -/
def FindOutcome (s : State A) (others : List Nat) (a : A) : Option Nat × State A → Prop
  | (some n, t) => Found s t others a n
  | (none, t) => t = s

theorem findOrAllocNeighbor_spec (h : Pools s others none) (a : A) : FindOutcome s others a (findOrAllocNeighbor a s) := by
  have hnone : ∀ m : Nat, (none : Option Nat) ≠ some m := fun m => (Option.some_ne_none m).symm
  unfold findOrAllocNeighbor
  cases hf : neighborQueueFromAddr a s with
  | some n =>
    obtain ⟨hn, ha⟩ := find_some hf
    have hq := h.nonempty n hn (hnone n)
    have hqa : s.queue a = some (s.queueOf n) := by rw [State.queue, hf, Option.map_some]
    exact ⟨h.serve n, hn, ha, ⟨fun _ => hq, fun _ => (h.timer n (hnone n)).2 hn⟩, by rw [hqa, Option.getD_some],
      fun _ => hqa, fun he => absurd he hq, fun _ _ => rfl, rfl⟩
  | none =>
    dsimp only
    cases hal : s.neighborMemb.alloc with
    | none => rfl
    | some r =>
      obtain ⟨n, memb⟩ := r
      have hf := find_none hf
      have hqa : s.queue a = none := queue_of_not_mem hf
      obtain ⟨hnew, hlist⟩ := admit_list (a := a) h hal
      show Found s (s.admitNbr n memb a) others a n
      refine ⟨h.admitNbr hal hf, by simp [hlist], by rw [admit_self], ?_, ?_, fun he => absurd ?_ he, fun _ => hqa,
        fun b hb => queue_admit h hal hf hb, rfl⟩
      · rw [admit_self, h.timer n (hnone n)]
        simp [hnew]
      · rw [hqa, State.queueOf, admit_self]
        rfl
      · rw [admit_self]

/-! ## csma_output_packet -/

/-- The packet is in the queue of its receiver. -/
structure Accepted (s t : State A) (others : List Nat) (a : A) (e : Entry) : Prop where
  pools : Pools t others none
  queue : t.queue = Function.update s.queue a
    (some ⟨((s.queue a).getD Queue.empty).entries ++ [e], ((s.queue a).getD Queue.empty).transmissions,
      ((s.queue a).getD Queue.empty).collisions⟩)
  callbacks : t.callbacks = s.callbacks

/-- The packet is refused, and its callback made. -/
structure Refused (s t : State A) (others : List Nat) (sent : Nat) : Prop where
  pools : Pools t others none
  queue : t.queue = s.queue
  callbacks : t.callbacks = s.callbacks ++ [⟨sent, .queueFull, 1⟩]

theorem Found.settled (hf : Found s t others a n) {u : State A} (hu : Pools u others (some n)) (hs : SameQueues t u)
    (hne : (t.neighbors n).packetQueue ≠ []) : Pools u others none ∧ u.queue = s.queue := by
  have hmem : n ∈ u.neighborList := by
    rw [hs.neighborList]
    exact hf.mem
  refine ⟨hu.served hmem (by rwa [hs.neighbors]) (by rw [hs.neighbors, hf.timer]; exact hne), ?_⟩
  rw [hs.queue hf.pools hu]
  funext b
  by_cases hb : b = a
  · have := queue_of_mem hf.pools hf.mem
    rw [hf.addr] at this
    rw [hb, this, hf.old hne]
  · exact hf.queue b hb

theorem Found.undone (hf : Found s t others a n) {u : State A} (hu : Pools u others (some n)) (hs : SameQueues t u)
    (he : (t.neighbors n).packetQueue = []) : Pools (u.leave n) others none ∧ (u.leave n).queue = s.queue := by
  have hmem : n ∈ u.neighborList := by
    rw [hs.neighborList]
    exact hf.mem
  have hue : (u.neighbors n).packetQueue = [] := by rw [hs.neighbors, he]
  have hut : (u.neighbors n).transmitTimer = false := by
    rw [hs.neighbors, ← Bool.not_eq_true, hf.timer]
    exact fun hne => hne he
  refine ⟨hu.leave hmem hue hut, ?_⟩
  rw [queue_leave hu hmem hue hut, hs.neighbors, hf.addr, hs.queue hf.pools hu]
  funext b
  by_cases hb : b = a
  · rw [hb, Function.update_self, hf.new he]
  · rw [Function.update_of_ne hb]
    exact hf.queue b hb

theorem Found.joined (hf : Found s t others a n) {u : State A} (ha : Allocated t u others q) (m : Metadata) : Accepted s
      (if ((u.enqueue n q m).neighbors n).packetQueue.head? = some q then scheduleTransmission n (u.enqueue n q m)
        else u.enqueue n q m) others a ⟨m.sent, m.maxTransmissions⟩ := by
  have he := hf.pools.enqueue (m := m) hf.mem ha
  have hself := enqueue_self (m := m) hf.mem ha
  have hmem : n ∈ (u.enqueue n q m).neighborList := by
    rw [show (u.enqueue n q m).neighborList = t.neighborList from ha.same.neighborList]
    exact hf.mem
  have hne : ((u.enqueue n q m).neighbors n).packetQueue ≠ [] := by simp [hself]
  have hview : (u.enqueue n q m).queue = Function.update s.queue a
      (some ⟨((s.queue a).getD Queue.empty).entries ++ [⟨m.sent, m.maxTransmissions⟩],
        ((s.queue a).getD Queue.empty).transmissions, ((s.queue a).getD Queue.empty).collisions⟩) := by
    rw [queue_enqueue hf.pools hf.mem ha, hf.addr, ← hf.queueOf]
    funext b
    by_cases hb : b = a
    · rw [hb, Function.update_self, Function.update_self]
      rfl
    · rw [Function.update_of_ne hb, Function.update_of_ne hb]
      exact hf.queue b hb
  have hcb : (u.enqueue n q m).callbacks = s.callbacks := ha.same.callbacks.trans hf.callbacks
  split
  · exact ⟨he.schedule hmem hne, by rw [queue_schedule he hmem, hview], hcb⟩
  · rename_i hhead
    refine ⟨he.served hmem hne ?_, hview, hcb⟩
    rw [hself]
    refine hf.timer.2 fun hempty => hhead ?_
    rw [hself, hempty]
    rfl

theorem csmaOutputPacket_spec (c : Conf) (h : Pools s others none) (a : A) (attr : UInt16) (sent : Nat) :
    Accepted s (csmaOutputPacket c a attr sent s) others a ⟨sent, maxTransmissions c attr⟩ ∨
      Refused s (csmaOutputPacket c a attr sent s) others sent := by
  have hfind := findOrAllocNeighbor_spec h a
  unfold csmaOutputPacket
  cases hr : findOrAllocNeighbor a s with
  | mk r t =>
    rw [hr] at hfind
    cases r with
    | none =>
      obtain rfl : t = s := hfind
      exact .inr ⟨h.callback .., rfl, rfl⟩
    | some n =>
      have hfound : Found s t others a n := hfind
      dsimp only
      by_cases hlen : (t.neighbors n).packetQueue.length < c.packetPerNeighbor
      · rw [if_pos hlen]
        have halloc := allocPacket_spec hfound.pools
        cases hu : allocPacket t with
        | mk r u =>
          rw [hu] at halloc
          cases r with
          | some q => exact .inl (hfound.joined halloc ⟨sent, maxTransmissions c attr⟩)
          | none =>
            obtain ⟨hs, hpools⟩ : SameQueues t u ∧ Pools u others (some n) := halloc
            have hcb : u.callbacks = s.callbacks := hs.callbacks.trans hfound.callbacks
            refine .inr ?_
            dsimp only
            by_cases he : (u.neighbors n).packetQueue.length = 0
            · rw [if_pos he]
              obtain ⟨hp, hq⟩ := hfound.undone hpools hs (by rwa [hs.neighbors, List.length_eq_zero_iff] at he)
              exact ⟨hp.callback .., hq, congrArg (· ++ _) hcb⟩
            · rw [if_neg he]
              obtain ⟨hp, hq⟩ := hfound.settled hpools hs (by rwa [hs.neighbors, List.length_eq_zero_iff] at he)
              exact ⟨hp.callback .., hq, congrArg (· ++ _) hcb⟩
      · rw [if_neg hlen]
        -- a full queue is not empty, so the neighbor is an old one
        have hne : (t.neighbors n).packetQueue ≠ [] := by
          intro he
          rw [he] at hlen
          exact hlen c.packetPerNeighbor_pos
        obtain ⟨hp, hq⟩ := hfound.settled hfound.pools ⟨rfl, rfl, rfl, rfl, rfl, fun _ _ => rfl⟩ hne
        exact .inr ⟨hp.callback .., hq, congrArg (· ++ _) hfound.callbacks⟩

end Contiki.Csma

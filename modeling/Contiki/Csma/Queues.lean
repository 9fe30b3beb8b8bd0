/-
The pools behind the packet queues: which blocks are out is read off the neighbor list and the queues
of its neighbors, and each function of csma-output.c keeps that so. Seen from outside each address has
a queue of packets with the counters of its first one, and that is all the functions change.
-/
import Contiki.Csma.Model

namespace Contiki.Core

/-! ## Blocks up to their order -/

theorem Memb.Holds.free_perm {m : Memb} {bs cs : List Nat} {i : Nat} (h : m.Holds bs) (hp : bs.Perm (i :: cs)) :
    (m.free i).Holds cs := by
  have hi : i ∈ bs := hp.mem_iff.2 (List.mem_cons_self ..)
  refine (h.free hi).2.perm ?_
  have := hp.erase i
  rw [List.erase_cons_head] at this
  exact this.symm

theorem flatMap_perm_cons {α β : Type} {l : List α} {f g : α → List β} {a : α} {x : β} (hnd : l.Nodup) (ha : a ∈ l)
    (hx : (f a).Perm (x :: g a)) (hother : ∀ b ∈ l, b ≠ a → f b = g b) : (l.flatMap f).Perm (x :: l.flatMap g) := by
  obtain ⟨l₁, l₂, rfl⟩ := List.append_of_mem ha
  have h₁ : l₁.flatMap f = l₁.flatMap g := by
    refine List.flatMap_congr fun b hb => hother b (by simp [hb]) ?_
    rintro rfl
    exact (List.nodup_append.1 hnd).2.2 b hb b (List.mem_cons_self ..) rfl
  have h₂ : l₂.flatMap f = l₂.flatMap g := by
    refine List.flatMap_congr fun b hb => hother b (by simp [hb]) ?_
    rintro rfl
    exact (List.nodup_cons.1 (List.nodup_append.1 hnd).2.1).1 hb
  simp only [List.flatMap_append, List.flatMap_cons, h₁, h₂]
  exact ((hx.append_right _).append_left _).trans List.perm_middle

end Contiki.Core

namespace Contiki.Csma

open Contiki.Core

variable {A : Type} [DecidableEq A]

/-! ## Queue buffers -/

/-- Exactly the buffers `bs` are out, each with its block of data. -/
structure Queuebuf.Holds (q : Queuebuf) (bs : List Nat) : Prop where
  bufmem : q.bufmem.Holds bs
  buframmem : q.buframmem.Holds (bs.map q.ramPtr)

theorem Queuebuf.Holds.perm {q : Queuebuf} {bs cs : List Nat} (h : q.Holds bs) (hp : cs.Perm bs) : q.Holds cs :=
  ⟨h.bufmem.perm hp, h.buframmem.perm (hp.map _)⟩

theorem Queuebuf.Holds.new_some {q q' : Queuebuf} {bs : List Nat} {buf : Nat} (h : q.Holds bs)
    (hn : q.newFromPacketbuf = (some buf, q')) : q'.Holds (buf :: bs) := by
  unfold Queuebuf.newFromPacketbuf at hn
  split at hn
  · cases hn
  · rename_i b memb halloc
    obtain ⟨hnot, -, hb⟩ := h.bufmem.alloc halloc
    dsimp only at hn
    split at hn
    · cases hn
    · rename_i ram memb' halloc'
      cases hn
      obtain ⟨-, -, hr⟩ := h.buframmem.alloc halloc'
      refine ⟨hb, ?_⟩
      have hmap : bs.map (Function.update q.ramPtr buf ram) = bs.map q.ramPtr := by
        refine List.map_congr_left fun x hx => Function.update_of_ne ?_ ..
        rintro rfl
        exact hnot hx
      simpa [hmap] using hr

theorem Queuebuf.Holds.new_none {q q' : Queuebuf} {bs : List Nat} (h : q.Holds bs)
    (hn : q.newFromPacketbuf = (none, q')) : q'.Holds bs := by
  unfold Queuebuf.newFromPacketbuf at hn
  split at hn
  · cases hn
    exact h
  · rename_i b memb halloc
    obtain ⟨-, -, hb⟩ := h.bufmem.alloc halloc
    dsimp only at hn
    split at hn
    · cases hn
      exact ⟨hb.free_perm (List.Perm.refl _), h.buframmem⟩
    · cases hn

theorem Queuebuf.Holds.free {q : Queuebuf} {bs cs : List Nat} {buf : Nat} (h : q.Holds bs) (hp : bs.Perm (buf :: cs)) :
    (q.free buf).Holds cs := by
  have hlt : buf < q.bufmem.num := ((h.bufmem.mem buf).1 (hp.mem_iff.2 (List.mem_cons_self ..))).1
  unfold Queuebuf.free
  rw [if_pos hlt]
  exact ⟨h.bufmem.free_perm hp, h.buframmem.free_perm (hp.map q.ramPtr)⟩

/-! ## The blocks in use -/

def State.queued (s : State A) : List Nat := s.neighborList.flatMap fun n => (s.neighbors n).packetQueue

/-- The blocks that are out are those of the neighbors on the list and of the packets in their queues,
`others` are the buffers of other modules. A neighbor on the list, except for the one in `busy`, has a
packet, and its timer is set. -/
structure Pools (s : State A) (others : List Nat) (busy : Option Nat) : Prop where
  neighbors : s.neighborMemb.Holds s.neighborList
  packets : s.packetMemb.Holds s.queued
  metadata : s.metadataMemb.Holds (s.queued.map fun p => (s.packets p).ptr)
  queuebuf : s.queuebuf.Holds (s.queued.map (fun p => (s.packets p).buf) ++ others)
  addrs : ∀ n ∈ s.neighborList, ∀ m ∈ s.neighborList, (s.neighbors n).addr = (s.neighbors m).addr → n = m
  nonempty : ∀ n ∈ s.neighborList, busy ≠ some n → (s.neighbors n).packetQueue ≠ []
  timer : ∀ n, busy ≠ some n → ((s.neighbors n).transmitTimer = true ↔ n ∈ s.neighborList)

/-! ## The queue of an address -/

structure Entry where
  sent : Nat
  max : UInt8

structure Queue where
  entries : List Entry
  transmissions : UInt8
  collisions : UInt8

def State.entry (s : State A) (p : Nat) : Entry :=
  let m := s.metadata (s.packets p).ptr
  ⟨m.sent, m.maxTransmissions⟩

def State.queueOf (s : State A) (n : Nat) : Queue :=
  ⟨(s.neighbors n).packetQueue.map s.entry, (s.neighbors n).transmissions, (s.neighbors n).collisions⟩

def State.queue (s : State A) (a : A) : Option Queue := (neighborQueueFromAddr a s).map s.queueOf

variable {s s' : State A} {others : List Nat} {busy : Option Nat} {n p : Nat} {a : A}

theorem find_eq_some (h : Pools s others busy) (hn : n ∈ s.neighborList) :
    neighborQueueFromAddr (s.neighbors n).addr s = some n := by
  unfold neighborQueueFromAddr
  cases hf : s.neighborList.find? fun m => (s.neighbors m).addr = (s.neighbors n).addr with
  | none =>
    rw [List.find?_eq_none] at hf
    exact absurd (hf n hn) (by simp)
  | some m =>
    have hm := List.mem_of_find?_eq_some hf
    have he : (s.neighbors m).addr = (s.neighbors n).addr := by simpa using List.find?_some hf
    rw [h.addrs m hm n hn he]

theorem find_some (h : neighborQueueFromAddr a s = some n) : n ∈ s.neighborList ∧ (s.neighbors n).addr = a :=
  ⟨List.mem_of_find?_eq_some h, by simpa using List.find?_some h⟩

theorem find_none (h : neighborQueueFromAddr a s = none) : ∀ n ∈ s.neighborList, (s.neighbors n).addr ≠ a := by
  intro n hn he
  have := List.find?_eq_none.1 h n hn
  simp [he] at this

theorem queue_of_mem (h : Pools s others busy) (hn : n ∈ s.neighborList) : s.queue (s.neighbors n).addr = some (s.queueOf n) := by
  rw [State.queue, find_eq_some h hn]
  rfl

theorem queue_of_not_mem (h : ∀ n ∈ s.neighborList, (s.neighbors n).addr ≠ a) : s.queue a = none := by
  rw [State.queue, Option.map_eq_none_iff, neighborQueueFromAddr, List.find?_eq_none]
  intro n hn
  simpa using h n hn

theorem queue_eq_some {q : Queue} (h : s.queue a = some q) :
    ∃ n ∈ s.neighborList, (s.neighbors n).addr = a ∧ s.queueOf n = q := by
  rw [State.queue, Option.map_eq_some_iff] at h
  obtain ⟨n, hn, rfl⟩ := h
  exact ⟨n, (find_some hn).1, (find_some hn).2, rfl⟩

theorem Pools.entries_ne_nil {q : Queue} (h : Pools s others none) (hq : s.queue a = some q) : q.entries ≠ [] := by
  obtain ⟨n, hn, -, rfl⟩ := queue_eq_some hq
  rw [State.queueOf, Ne, List.map_eq_nil_iff]
  exact h.nonempty n hn (Option.some_ne_none n).symm

theorem queue_congr (h : Pools s others busy) {others' : List Nat} {busy' : Option Nat} (h' : Pools s' others' busy')
    (hlist : ∀ m, (s.neighbors m).addr = a → m ∈ s.neighborList → m ∈ s'.neighborList ∧
      (s'.neighbors m).addr = a ∧ s'.queueOf m = s.queueOf m)
    (hlist' : ∀ m, (s'.neighbors m).addr = a → m ∈ s'.neighborList → m ∈ s.neighborList ∧ (s.neighbors m).addr = a) :
    s'.queue a = s.queue a := by
  by_cases hex : ∃ m ∈ s.neighborList, (s.neighbors m).addr = a
  · obtain ⟨m, hm, ha⟩ := hex
    obtain ⟨hm', ha', hq⟩ := hlist m ha hm
    have h₁ := queue_of_mem h hm
    have h₂ := queue_of_mem h' hm'
    rw [ha] at h₁
    rw [ha'] at h₂
    rw [h₁, h₂, hq]
  · have hnone : ∀ m ∈ s.neighborList, (s.neighbors m).addr ≠ a := fun m hm ha => hex ⟨m, hm, ha⟩
    rw [queue_of_not_mem hnone]
    refine queue_of_not_mem fun m hm ha => ?_
    obtain ⟨hm₁, ha₁⟩ := hlist' m ha hm
    exact hnone m hm₁ ha₁

/-! ## Changing the record of a neighbor -/

omit [DecidableEq A] in
@[simp] theorem setNeighbor_self (v : Neighbor A) : (s.setNeighbor n v).neighbors n = v := Function.update_self ..

omit [DecidableEq A] in
theorem setNeighbor_ne {m : Nat} (v : Neighbor A) (h : m ≠ n) : (s.setNeighbor n v).neighbors m = s.neighbors m :=
  Function.update_of_ne h ..

omit [DecidableEq A] in
theorem setNeighbor_packetQueue {v : Neighbor A} (hq : v.packetQueue = (s.neighbors n).packetQueue) (m : Nat) :
    ((s.setNeighbor n v).neighbors m).packetQueue = (s.neighbors m).packetQueue := by
  by_cases hm : m = n
  · rw [hm, setNeighbor_self, hq]
  · rw [setNeighbor_ne v hm]

omit [DecidableEq A] in
theorem queued_setNeighbor {v : Neighbor A} (hq : v.packetQueue = (s.neighbors n).packetQueue) :
    (s.setNeighbor n v).queued = s.queued := by
  simp only [State.queued, setNeighbor_packetQueue hq]
  rfl

omit [DecidableEq A] in
theorem Pools.counters {v : Neighbor A} (h : Pools s others (some n)) (ha : v.addr = (s.neighbors n).addr)
    (hq : v.packetQueue = (s.neighbors n).packetQueue) : Pools (s.setNeighbor n v) others (some n) := by
  have haddr : ∀ m, ((s.setNeighbor n v).neighbors m).addr = (s.neighbors m).addr := by
    intro m
    by_cases hm : m = n
    · rw [hm, setNeighbor_self, ha]
    · rw [setNeighbor_ne v hm]
  have hqueued := queued_setNeighbor hq
  refine ⟨h.neighbors, ?_, ?_, ?_, fun m hm k hk => ?_, fun m hm hne => ?_, fun m hne => ?_⟩
  · rw [hqueued]
    exact h.packets
  · rw [hqueued]
    exact h.metadata
  · rw [hqueued]
    exact h.queuebuf
  · rw [haddr, haddr]
    exact h.addrs m hm k hk
  · rw [setNeighbor_packetQueue hq]
    exact h.nonempty m hm hne
  · have hm : m ≠ n := fun he => hne (by rw [he])
    rw [setNeighbor_ne v hm]
    exact h.timer m hne

omit [DecidableEq A] in
theorem Pools.served (h : Pools s others (some n)) (hn : n ∈ s.neighborList) (hq : (s.neighbors n).packetQueue ≠ [])
    (ht : (s.neighbors n).transmitTimer = true) : Pools s others none where
  neighbors := h.neighbors
  packets := h.packets
  metadata := h.metadata
  queuebuf := h.queuebuf
  addrs := h.addrs
  nonempty m hm _ := by
    by_cases hmn : m = n
    · rwa [hmn]
    · exact h.nonempty m hm fun he => hmn (Option.some.inj he).symm
  timer m _ := by
    by_cases hmn : m = n
    · rw [hmn]
      exact ⟨fun _ => hn, fun _ => ht⟩
    · exact h.timer m fun he => hmn (Option.some.inj he).symm

omit [DecidableEq A] in
theorem Pools.serve (h : Pools s others none) (n : Nat) : Pools s others (some n) where
  neighbors := h.neighbors
  packets := h.packets
  metadata := h.metadata
  queuebuf := h.queuebuf
  addrs := h.addrs
  nonempty m hm _ := h.nonempty m hm (Option.some_ne_none _).symm
  timer m _ := h.timer m (Option.some_ne_none _).symm

omit [DecidableEq A] in
theorem Pools.callback (h : Pools s others busy) (sent : Nat) (status : Status) (ntx : UInt8) :
    Pools (s.callSentCallback sent status ntx) others busy :=
  ⟨h.neighbors, h.packets, h.metadata, h.queuebuf, h.addrs, h.nonempty, h.timer⟩

theorem queue_elsewhere {others' : List Nat} {busy' : Option Nat} {b : A} (h : Pools s others busy) (h' : Pools s' others' busy')
    (hlist : ∀ m, m ≠ n → (m ∈ s'.neighborList ↔ m ∈ s.neighborList)) (hother : ∀ m, m ≠ n → s'.neighbors m = s.neighbors m)
    (ha : n ∈ s.neighborList → (s.neighbors n).addr = a) (ha' : n ∈ s'.neighborList → (s'.neighbors n).addr = a)
    (he : ∀ p ∈ s.queued, s'.entry p = s.entry p) (hb : b ≠ a) : s'.queue b = s.queue b := by
  refine queue_congr h h' (fun m hm hmem => ?_) fun m hm hmem => ?_
  · have hne : m ≠ n := by
      rintro rfl
      exact hb (hm.symm.trans (ha hmem))
    refine ⟨(hlist m hne).2 hmem, by rw [hother m hne, hm], ?_⟩
    simp only [State.queueOf, hother m hne]
    congr 1
    exact List.map_congr_left fun p hp => he p (List.mem_flatMap.2 ⟨m, hmem, hp⟩)
  · have hne : m ≠ n := by
      rintro rfl
      exact hb (hm.symm.trans (ha' hmem))
    rw [hother m hne] at hm
    exact ⟨(hlist m hne).1 hmem, hm⟩

theorem queue_counters {v : Neighbor A} (h : Pools s others (some n)) (hn : n ∈ s.neighborList)
    (ha : v.addr = (s.neighbors n).addr) (hq : v.packetQueue = (s.neighbors n).packetQueue) :
    (s.setNeighbor n v).queue = Function.update s.queue (s.neighbors n).addr
      (some ⟨(s.neighbors n).packetQueue.map s.entry, v.transmissions, v.collisions⟩) := by
  have h' := h.counters ha hq
  funext a
  by_cases hae : a = (s.neighbors n).addr
  · rw [hae, Function.update_self]
    have := queue_of_mem h' (show n ∈ (s.setNeighbor n v).neighborList from hn)
    rw [setNeighbor_self, ha] at this
    rw [this, State.queueOf, setNeighbor_self, hq]
    rfl
  · rw [Function.update_of_ne hae]
    refine queue_elsewhere h h' (fun m _ => Iff.rfl) (fun m hm => setNeighbor_ne v hm) (fun _ => rfl) (fun _ => ?_)
      (fun p _ => rfl) hae
    rw [setNeighbor_self, ha]

end Contiki.Csma

/-!
What the functions of csma-output.c do to the queues: the first packet of a queue leaves, a packet
joins a queue, a neighbor comes and goes. The pools stay as they should be throughout.
-/

namespace Contiki.Csma

open Contiki.Core

variable {A : Type} [DecidableEq A] {s t : State A} {others : List Nat} {n p : Nat} {rest : List Nat}

/-! ## A neighbor leaves -/

def State.leave (s : State A) (n : Nat) : State A :=
  { s with neighborList := listRemove s.neighborList n, neighborMemb := s.neighborMemb.free n }

omit [DecidableEq A] in
theorem queued_leave (hnd : s.neighborList.Nodup) (hq : (s.neighbors n).packetQueue = []) :
    (s.leave n).queued = s.queued := by
  have hempty : ∀ l : List Nat, l.Nodup → (listRemove l n).flatMap (fun m => (s.neighbors m).packetQueue) =
      l.flatMap fun m => (s.neighbors m).packetQueue := by
    intro l hl
    by_cases hn : n ∈ l
    · obtain ⟨l₁, l₂, rfl⟩ := List.append_of_mem hn
      have hn₁ : n ∉ l₁ := fun hm => (List.nodup_append.1 hl).2.2 n hm n (List.mem_cons_self ..) rfl
      rw [listRemove, List.erase_append_right _ hn₁, List.erase_cons_head]
      simp [hq]
    · rw [listRemove, List.erase_of_not_mem hn]
  exact hempty s.neighborList hnd

omit [DecidableEq A] in
theorem Pools.leave (h : Pools s others (some n)) (hn : n ∈ s.neighborList) (hq : (s.neighbors n).packetQueue = [])
    (ht : (s.neighbors n).transmitTimer = false) : Pools (s.leave n) others none := by
  have hqueued := queued_leave h.neighbors.nodup hq
  have hmem : ∀ m, m ∈ (s.leave n).neighborList ↔ m ≠ n ∧ m ∈ s.neighborList := fun m => h.neighbors.nodup.mem_erase_iff
  have hbusy : ∀ m, m ≠ n → some n ≠ some m := fun m hm he => hm (Option.some.inj he).symm
  refine ⟨h.neighbors.free_perm (List.perm_cons_erase hn), ?_, ?_, ?_, fun m hm k hk => ?_, fun m hm _ => ?_,
    fun m _ => ?_⟩
  · rw [hqueued]
    exact h.packets
  · rw [hqueued]
    exact h.metadata
  · rw [hqueued]
    exact h.queuebuf
  · exact h.addrs m ((hmem m).1 hm).2 k ((hmem k).1 hk).2
  · exact h.nonempty m ((hmem m).1 hm).2 (hbusy m ((hmem m).1 hm).1)
  · rw [hmem]
    show (s.neighbors m).transmitTimer = true ↔ _
    by_cases hm : m = n
    · simp [hm, ht]
    · simpa [hm] using h.timer m (hbusy m hm)

theorem queue_leave (h : Pools s others (some n)) (hn : n ∈ s.neighborList) (hq : (s.neighbors n).packetQueue = [])
    (ht : (s.neighbors n).transmitTimer = false) :
    (s.leave n).queue = Function.update s.queue (s.neighbors n).addr none := by
  have h' := h.leave hn hq ht
  have hmem : ∀ m, m ∈ (s.leave n).neighborList ↔ m ≠ n ∧ m ∈ s.neighborList := fun m => h.neighbors.nodup.mem_erase_iff
  funext a
  by_cases hae : a = (s.neighbors n).addr
  · rw [hae, Function.update_self]
    refine queue_of_not_mem fun m hm he => ?_
    obtain ⟨hne, hm'⟩ := (hmem m).1 hm
    exact hne (h.addrs m hm' n hn he)
  · rw [Function.update_of_ne hae]
    exact queue_elsewhere h h' (fun m hm => by simp [hmem, hm]) (fun _ _ => rfl) (fun _ => rfl) (fun _ => rfl)
      (fun _ _ => rfl) hae

/-! ## The end of a transmission: the timer is set again or the neighbor goes -/

omit [DecidableEq A] in
theorem Pools.schedule (h : Pools s others (some n)) (hn : n ∈ s.neighborList) (hq : (s.neighbors n).packetQueue ≠ []) :
    Pools (scheduleTransmission n s) others none := by
  have hc : Pools (scheduleTransmission n s) others (some n) :=
    h.counters (v := { s.neighbors n with transmitTimer := true }) rfl rfl
  exact hc.served hn (by rwa [scheduleTransmission, setNeighbor_self]) (by rw [scheduleTransmission, setNeighbor_self])

theorem queue_schedule (h : Pools s others (some n)) (hn : n ∈ s.neighborList) :
    (scheduleTransmission n s).queue = s.queue := by
  rw [scheduleTransmission, queue_counters (v := { s.neighbors n with transmitTimer := true }) h hn rfl rfl]
  refine Function.update_eq_self_iff.2 ?_
  rw [queue_of_mem h hn]
  rfl

/-- The neighbor leaves after `ctimer_stop`. -/
def State.stop (s : State A) (n : Nat) : State A :=
  (s.setNeighbor n { s.neighbors n with transmitTimer := false }).leave n

theorem stop_spec (h : Pools s others (some n)) (hn : n ∈ s.neighborList) (hq : (s.neighbors n).packetQueue = []) :
    Pools (s.stop n) others none ∧ (s.stop n).queue = Function.update s.queue (s.neighbors n).addr none := by
  obtain ⟨v, hv⟩ : ∃ v : Neighbor A, v = { s.neighbors n with transmitTimer := false } := ⟨_, rfl⟩
  have ha : v.addr = (s.neighbors n).addr := by rw [hv]
  have hvq : v.packetQueue = (s.neighbors n).packetQueue := by rw [hv]
  have hc := h.counters ha hvq
  have hq' : ((s.setNeighbor n v).neighbors n).packetQueue = [] := by rw [setNeighbor_self, hvq, hq]
  have ht' : ((s.setNeighbor n v).neighbors n).transmitTimer = false := by rw [setNeighbor_self, hv]
  have hstop : s.stop n = (s.setNeighbor n v).leave n := by rw [hv, State.stop]
  rw [hstop]
  refine ⟨hc.leave hn hq' ht', ?_⟩
  rw [queue_leave hc hn hq' ht', setNeighbor_self, ha, queue_counters h hn ha hvq, Function.update_idem]

/-! ## The first packet leaves -/

def State.dequeue (s : State A) (n p : Nat) : State A :=
  { s.setNeighbor n { s.neighbors n with packetQueue := listRemove (s.neighbors n).packetQueue p } with
    queuebuf := s.queuebuf.free (s.packets p).buf
    metadataMemb := s.metadataMemb.free (s.packets p).ptr
    packetMemb := s.packetMemb.free p }

omit [DecidableEq A] in
theorem dequeue_self (hq : (s.neighbors n).packetQueue = p :: rest) :
    (s.dequeue n p).neighbors n = { s.neighbors n with packetQueue := rest } := by
  show (s.setNeighbor n _).neighbors n = _
  rw [setNeighbor_self, hq, listRemove, List.erase_cons_head]

omit [DecidableEq A] in
theorem dequeue_ne {m : Nat} (hm : m ≠ n) : (s.dequeue n p).neighbors m = s.neighbors m := setNeighbor_ne _ hm

omit [DecidableEq A] in
theorem queued_dequeue (h : Pools s others (some n)) (hn : n ∈ s.neighborList)
    (hq : (s.neighbors n).packetQueue = p :: rest) : s.queued.Perm (p :: (s.dequeue n p).queued) := by
  refine flatMap_perm_cons h.neighbors.nodup hn ?_ fun m _ hm => ?_
  · rw [dequeue_self hq, hq]
  · rw [dequeue_ne hm]

omit [DecidableEq A] in
theorem Pools.dequeue (h : Pools s others (some n)) (hn : n ∈ s.neighborList)
    (hq : (s.neighbors n).packetQueue = p :: rest) : Pools (s.dequeue n p) others (some n) := by
  have hp := queued_dequeue h hn hq
  have hself := dequeue_self (p := p) hq
  have haddr : ∀ m, ((s.dequeue n p).neighbors m).addr = (s.neighbors m).addr := by
    intro m
    by_cases hm : m = n
    · rw [hm, hself]
    · rw [dequeue_ne hm]
  have hbusy : ∀ {m : Nat}, some n ≠ some m → m ≠ n := fun hm he => hm (by rw [he])
  refine ⟨h.neighbors, h.packets.free_perm hp, h.metadata.free_perm (hp.map _), ?_, fun m hm k hk => ?_,
    fun m hm hne => ?_, fun m hne => ?_⟩
  · exact h.queuebuf.free ((hp.map _).append_right _)
  · rw [haddr, haddr]
    exact h.addrs m hm k hk
  · rw [dequeue_ne (hbusy hne)]
    exact h.nonempty m hm hne
  · rw [dequeue_ne (hbusy hne)]
    exact h.timer m hne

theorem queue_dequeue (h : Pools s others (some n)) (hn : n ∈ s.neighborList)
    (hq : (s.neighbors n).packetQueue = p :: rest) :
    (s.dequeue n p).queue = Function.update s.queue (s.neighbors n).addr
      (some ⟨rest.map s.entry, (s.neighbors n).transmissions, (s.neighbors n).collisions⟩) := by
  have h' := h.dequeue hn hq
  have hself := dequeue_self (p := p) hq
  funext a
  by_cases hae : a = (s.neighbors n).addr
  · rw [hae, Function.update_self]
    have := queue_of_mem h' (show n ∈ (s.dequeue n p).neighborList from hn)
    rw [hself] at this
    rw [this, State.queueOf, hself]
    rfl
  · rw [Function.update_of_ne hae]
    refine queue_elsewhere h h' (fun m _ => Iff.rfl) (fun m hm => dequeue_ne hm) (fun _ => rfl) (fun _ => ?_)
      (fun p _ => rfl) hae
    rw [hself]

@[grind =]
def Queue.tail (q : Queue) : Option Queue :=
  match q.entries.tail with
  | [] => none
  | e :: es => some ⟨e :: es, 0, 0⟩

/-- The blocks, data and callbacks that a function leaves alone. -/
structure SameData (s t : State A) : Prop where
  packets : t.packets = s.packets
  metadata : t.metadata = s.metadata
  callbacks : t.callbacks = s.callbacks

omit [DecidableEq A] in
theorem SameData.entry (h : SameData s t) : t.entry = s.entry := by
  funext p
  simp only [State.entry, h.packets, h.metadata]

/-- The outcome of `freePacket`. -/
structure Freed (s t : State A) (others : List Nat) (n : Nat) : Prop where
  pools : Pools t others none
  queue : t.queue = Function.update s.queue (s.neighbors n).addr (s.queueOf n).tail
  data : SameData s t

omit [DecidableEq A] in
theorem freePacket_eq (n p : Nat) (s : State A) : freePacket n p s =
    if ((s.dequeue n p).neighbors n).packetQueue ≠ [] then
      scheduleTransmission n ((s.dequeue n p).setNeighbor n
        { (s.dequeue n p).neighbors n with transmissions := 0, collisions := 0 })
    else (s.dequeue n p).stop n := rfl

theorem freePacket_spec (h : Pools s others (some n)) (hn : n ∈ s.neighborList)
    (hq : (s.neighbors n).packetQueue = p :: rest) : Freed s (freePacket n p s) others n := by
  have hd := h.dequeue hn hq
  have hself := dequeue_self (p := p) hq
  have hview := queue_dequeue h hn hq
  have haddr : ((s.dequeue n p).neighbors n).addr = (s.neighbors n).addr := by rw [hself]
  have hn' : n ∈ (s.dequeue n p).neighborList := hn
  rw [freePacket_eq]
  cases rest with
  | nil =>
    have hempty : ((s.dequeue n p).neighbors n).packetQueue = [] := by rw [hself]
    rw [if_neg (by simpa using hempty)]
    obtain ⟨hpools, hqueue⟩ := stop_spec hd hn' hempty
    refine ⟨hpools, ?_, rfl, rfl, rfl⟩
    rw [hqueue, hview, haddr, Function.update_idem]
    simp [Queue.tail, State.queueOf, hq]
  | cons r rs =>
    have hne : ((s.dequeue n p).neighbors n).packetQueue ≠ [] := by simp [hself]
    rw [if_pos hne]
    obtain ⟨v, hv⟩ : ∃ v : Neighbor A, v = { (s.dequeue n p).neighbors n with transmissions := 0, collisions := 0 } :=
      ⟨_, rfl⟩
    have ha : v.addr = ((s.dequeue n p).neighbors n).addr := by rw [hv]
    have hvq : v.packetQueue = ((s.dequeue n p).neighbors n).packetQueue := by rw [hv]
    rw [← hv]
    have hc := hd.counters ha hvq
    refine ⟨hc.schedule hn' (by rwa [setNeighbor_self, hvq]), ?_, rfl, rfl, rfl⟩
    rw [queue_schedule hc hn', queue_counters hd hn' ha hvq, hview, haddr, Function.update_idem, hv, hself]
    simp [Queue.tail, State.queueOf, hq, State.dequeue]
    rfl

end Contiki.Csma

/-!
One transmission. Whatever the radio says, the counters of the neighbor move first, and then its
first packet is either done or sent again.
-/

namespace Contiki.Csma

open Contiki.Core

variable {A : Type} [DecidableEq A] {s t : State A} {others : List Nat} {n p : Nat} {rest : List Nat}

/-- `transmissions` and `collisions` after a transmission. -/
@[grind =]
def counters (c : Conf) (result : TxResult) (transmissions collisions : UInt8) : UInt8 × UInt8 :=
  match result with
  | .ok | .noack => (transmissions + 1, 0)
  | .collision =>
    if (collisions + 1).toNat > c.maxBackoff then (transmissions + 1, 0) else (transmissions, collisions + 1)
  | .err | .errFatal => (transmissions, collisions)

/-- Whether the packet is done, `transmissions` being the counter after the transmission. -/
@[grind =]
def finished (result : TxResult) (max transmissions : UInt8) : Bool :=
  match result with
  | .noack | .collision => transmissions ≥ max
  | .ok | .err | .errFatal => true

omit [DecidableEq A] in
theorem setNeighbor_setNeighbor (v w : Neighbor A) : (s.setNeighbor n v).setNeighbor n w = s.setNeighbor n w := by
  simp only [State.setNeighbor, Function.update_idem]

omit [DecidableEq A] in
theorem setNeighbor_neighbors : s.setNeighbor n (s.neighbors n) = s := by
  simp only [State.setNeighbor, Function.update_eq_self]

def State.counted (s : State A) (c : Conf) (n : Nat) (result : TxResult) : State A :=
  s.setNeighbor n { s.neighbors n with
    transmissions := (counters c result (s.neighbors n).transmissions (s.neighbors n).collisions).1
    collisions := (counters c result (s.neighbors n).transmissions (s.neighbors n).collisions).2 }

omit [DecidableEq A] in
theorem packetSent_eq (c : Conf) (n q : Nat) (result : TxResult) (s : State A) : packetSent c n q result 1 s =
    if finished result (s.entry q).max
        (counters c result (s.neighbors n).transmissions (s.neighbors n).collisions).1 then
      txDone result q n (s.counted c n result) else rexmit n (s.counted c n result) := by
  cases result with
  | ok => rfl
  | noack => simp [packetSent, noack, finished, counters, State.counted, State.entry]
  | collision =>
    unfold packetSent collision State.counted
    by_cases hk : ((s.neighbors n).collisions + 1).toNat > c.maxBackoff
    · simp only [setNeighbor_self, setNeighbor_setNeighbor, counters, finished, State.entry, hk, if_true, decide_eq_true_eq]
    · simp only [setNeighbor_self, setNeighbor_setNeighbor, counters, finished, State.entry, hk, if_false, decide_eq_true_eq]
  | err =>
    rw [State.counted]
    exact congrArg _ setNeighbor_neighbors.symm
  | errFatal =>
    rw [State.counted]
    exact congrArg _ setNeighbor_neighbors.symm

/-! ## When the timer of a neighbor expires -/

/-- The packet is sent again later: only the counters of its queue have changed. -/
structure Retried (s t : State A) (others : List Nat) (a : A) (q : Queue) : Prop where
  pools : Pools t others none
  queue : t.queue = Function.update s.queue a (some q)
  callbacks : t.callbacks = s.callbacks

/-- The packet is done: it has left its queue and its blocks, and its callback is made. -/
structure Completed (s t : State A) (others : List Nat) (a : A) (tail : Option Queue) (b : Callback) : Prop where
  pools : Pools t others none
  queue : t.queue = Function.update s.queue a tail
  callbacks : t.callbacks = s.callbacks ++ [b]

omit [DecidableEq A] in
theorem timer_packet (h : Pools s others none) (ht : (s.neighbors n).transmitTimer = true) :
    n ∈ s.neighborList ∧ ∃ p rest, (s.neighbors n).packetQueue = p :: rest := by
  have hn := (h.timer n (Option.some_ne_none _).symm).1 ht
  exact ⟨hn, List.exists_cons_of_ne_nil (h.nonempty n hn (Option.some_ne_none _).symm)⟩

section

variable {c : Conf} {result : TxResult} (h : Pools s others none) (hn : n ∈ s.neighborList)
  (hq : (s.neighbors n).packetQueue = p :: rest)

include h hn hq

theorem transmitFromQueue_eq (c : Conf) (result : TxResult) : ∃ u : State A, Pools u others (some n) ∧ n ∈ u.neighborList ∧ SameData s u ∧
    u.neighbors n = { s.neighbors n with
      transmitTimer := false
      transmissions := (counters c result (s.neighbors n).transmissions (s.neighbors n).collisions).1
      collisions := (counters c result (s.neighbors n).transmissions (s.neighbors n).collisions).2 } ∧
    u.queue = Function.update s.queue (s.neighbors n).addr (some (u.queueOf n)) ∧
    transmitFromQueue c n result s =
      if finished result (s.entry p).max (u.neighbors n).transmissions then txDone result p n u else rexmit n u := by
  obtain ⟨v, hv⟩ : ∃ v : Neighbor A, v = { s.neighbors n with transmitTimer := false } := ⟨_, rfl⟩
  obtain ⟨w, hw⟩ : ∃ w : Neighbor A, w = { s.neighbors n with
      transmitTimer := false
      transmissions := (counters c result (s.neighbors n).transmissions (s.neighbors n).collisions).1
      collisions := (counters c result (s.neighbors n).transmissions (s.neighbors n).collisions).2 } := ⟨_, rfl⟩
  have hu : (s.setNeighbor n v).counted c n result = s.setNeighbor n w := by
    rw [State.counted, setNeighbor_setNeighbor, setNeighbor_self, hv, hw]
  have hself : (s.setNeighbor n w).neighbors n = w := setNeighbor_self w
  have hwa : w.addr = (s.neighbors n).addr := by rw [hw]
  have hwq : w.packetQueue = (s.neighbors n).packetQueue := by rw [hw]
  refine ⟨s.setNeighbor n w, (h.serve n).counters hwa hwq, hn, ⟨rfl, rfl, rfl⟩, by rw [hself, hw],
    ?_, ?_⟩
  · rw [queue_counters (h.serve n) hn hwa hwq, State.queueOf, hself, hwq]
    rfl
  · have hhead : ((s.setNeighbor n v).neighbors n).packetQueue = p :: rest := by rw [setNeighbor_self, hv, hq]
    unfold transmitFromQueue
    rw [← hv]
    simp only [hhead]
    rw [packetSent_eq, hu, setNeighbor_self, hself, hv, hw]
    rfl

theorem transmit_again (hf : finished result (s.entry p).max
      (counters c result (s.neighbors n).transmissions (s.neighbors n).collisions).1 = false) :
    Retried s (transmitFromQueue c n result s) others (s.neighbors n).addr
      ⟨(s.queueOf n).entries, (counters c result (s.neighbors n).transmissions (s.neighbors n).collisions).1,
        (counters c result (s.neighbors n).transmissions (s.neighbors n).collisions).2⟩ := by
  obtain ⟨u, hu, hnu, hsame, hself, hqueue, heq⟩ := transmitFromQueue_eq h hn hq c result
  rw [heq, hself, if_neg (by simpa using hf), rexmit]
  have hne : (u.neighbors n).packetQueue ≠ [] := by simp [hself, hq]
  refine ⟨hu.schedule hnu hne, ?_, hsame.callbacks⟩
  rw [queue_schedule hu hnu, hqueue, State.queueOf, hsame.entry, hself]
  rfl

theorem transmit_done (hf : finished result (s.entry p).max
      (counters c result (s.neighbors n).transmissions (s.neighbors n).collisions).1 = true) :
    Completed s (transmitFromQueue c n result s) others (s.neighbors n).addr (s.queueOf n).tail
      ⟨(s.entry p).sent, .tx result, (counters c result (s.neighbors n).transmissions (s.neighbors n).collisions).1⟩ := by
  obtain ⟨u, hu, hnu, hsame, hself, hqueue, heq⟩ := transmitFromQueue_eq h hn hq c result
  rw [heq, hself, if_pos hf]
  have hspec := freePacket_spec hu hnu (show (u.neighbors n).packetQueue = p :: rest by rw [hself, hq])
  have haddr : (u.neighbors n).addr = (s.neighbors n).addr := by rw [hself]
  have htail : (u.queueOf n).tail = (s.queueOf n).tail := by
    simp only [Queue.tail, State.queueOf, hsame.entry, hself]
  have hsent : (u.metadata (u.packets p).ptr).sent = (s.entry p).sent := by
    rw [hsame.packets, hsame.metadata]
    rfl
  refine ⟨hspec.pools.callback .., ?_, ?_⟩
  · show (freePacket n p u).queue = _
    rw [hspec.queue, hqueue, haddr, Function.update_idem, htail]
  · show (freePacket n p u).callbacks ++ [_] = _
    rw [hspec.data.callbacks, hsame.callbacks, hsent, hself]

end

end Contiki.Csma

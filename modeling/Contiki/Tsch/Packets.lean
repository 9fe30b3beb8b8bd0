/-
The packets of the module take the way of `Traffic`: every step of a run is none or one of its steps, as long as no queue
is flushed while the slot operation waits with the first packet of that queue.
-/
import Contiki.Tsch.Traffic
import Contiki.Tsch.Links

namespace Contiki.Tsch

open Contiki.Core Contiki.Lib

variable {A : Type} [DecidableEq A] {cfg : Config A} {q q' : Queues A} {s s' : State A} {w w' : World A} {a addr : A}
  {p : PacketPtr} {ps : List PacketPtr} {l : Nat} {ls : List Nat}

/-! ## What is claimed -/

def Phase.isTx : Phase → Bool
  | .tx _ => true
  | _ => false

/-- The condition on a step: the queue is not flushed whose first packet the slot operation sends. -/
def FlushClean (w : World A) : Action A → Prop
  | .flush addr => w.state.slot.phase.isTx = true → w.state.slot.currentNeighbor ≠ some addr
  | _ => True

instance (w : World A) : ∀ action, Decidable (FlushClean w action)
  | .flush addr => inferInstanceAs (Decidable (w.state.slot.phase.isTx = true → w.state.slot.currentNeighbor ≠ some addr))
  | .addSlotframe .. | .removeSlotframe .. | .removeAllSlotframes | .addLink .. | .removeLink ..
  | .removeLinkByOffsets .. | .addPacket .. | .flushReturn | .resetBackoff .. | .pending | .pendingReturn | .freeUnused
  | .timeSource .. | .join .. | .slotStart .. | .slotFinish .. => isTrue trivial

def Queues.queued (q : Queues A) (a : A) : List PacketPtr :=
  match q.nbr a with
  | none => []
  | some n => n.packets

def World.traffic (w : World A) : Traffic A where
  queued := w.state.queues.queued
  dequeued := w.state.slot.dequeuedRingbuf.contents w.state.slot.dequeuedArray
  frames := w.frames
  events := w.events
  accepted := w.state.queues.accepted

/-! ## The invariant -/

/-- The ring buffers of all neighbors are well formed. -/
def Queues.RingsWF (q : Queues A) : Prop := ∀ a n, q.nbr a = some n → n.txRingbuf.WF

/-- The slot waits with the first packet of a queue, and there is a place for it among the dequeued packets. -/
structure Waits (s : State A) (dequeuedIndex : Nat) : Prop where
  place : s.slot.dequeuedRingbuf.peekPut = some dequeuedIndex
  link : s.slot.currentLink.isSome
  packet : ∃ p addr ps, s.slot.currentPacket = some p ∧ s.slot.currentNeighbor = some addr ∧
    s.queues.queued addr = p :: ps

structure World.Inv (w : World A) : Prop where
  rings : w.state.queues.RingsWF
  dequeued : w.state.slot.dequeuedRingbuf.WF
  waits : ∀ i, w.state.slot.phase = .tx i → Waits w.state i
  traffic : w.traffic.Inv

/-! ## Calls that leave the packets alone -/

/-- The queues hold the same packets. -/
structure SameQueued (q q' : Queues A) : Prop where
  queued : q'.queued = q.queued
  rings : q.RingsWF → q'.RingsWF
  accepted : q'.accepted = q.accepted

omit [DecidableEq A] in
theorem SameQueued.refl (q : Queues A) : SameQueued q q := ⟨rfl, id, rfl⟩

omit [DecidableEq A] in
theorem SameQueued.trans {q'' : Queues A} (h : SameQueued q q') (h' : SameQueued q' q'') : SameQueued q q'' :=
  ⟨h'.queued.trans h.queued, fun hq => h'.rings (h.rings hq), h'.accepted.trans h.accepted⟩

omit [DecidableEq A] in
@[simp] theorem queued_some {n : Nbr} (h : q.nbr a = some n) : q.queued a = n.packets := by
  simp [Queues.queued, h]

omit [DecidableEq A] in
@[simp] theorem queued_none (h : q.nbr a = none) : q.queued a = [] := by
  simp [Queues.queued, h]

theorem setNbr_queued {n : Nbr} (h : q'.nbr = Function.update q.nbr addr (some n)) :
    q'.queued = Function.update q.queued addr n.packets := by
  funext a
  by_cases ha : a = addr
  · subst ha
    rw [Function.update_self, queued_some (n := n) (by rw [h, Function.update_self])]
  · rw [Function.update_of_ne ha]
    unfold Queues.queued
    rw [h, Function.update_of_ne ha]

theorem setNbr_rings {n : Nbr} (h : q'.nbr = Function.update q.nbr addr (some n)) (hq : q.RingsWF)
    (hn : n.txRingbuf.WF) : q'.RingsWF := by
  intro a n' hn'
  rw [h] at hn'
  by_cases ha : a = addr
  · subst ha
    rw [Function.update_self] at hn'
    cases hn'
    exact hn
  · rw [Function.update_of_ne ha] at hn'
    exact hq a n' hn'

theorem sameQueued_modify (f : Nbr → Nbr)
    (hf : ∀ n, (f n).txRingbuf = n.txRingbuf ∧ (f n).txArray = n.txArray) : SameQueued q (q.modify addr f) := by
  refine ⟨?_, ?_, rfl⟩
  · funext a
    unfold Queues.queued
    by_cases ha : a = addr
    · subst ha
      rw [modify_self]
      cases q.nbr a with
      | none => rfl
      | some n => simp [Nbr.packets, hf n]
    · rw [modify_other ha]
  · intro h a n hn
    by_cases ha : a = addr
    · subst ha
      rw [modify_self, Option.map_eq_some_iff] at hn
      obtain ⟨n', hn', rfl⟩ := hn
      rw [(hf n').1]
      exact h a n' hn'
    · rw [modify_other ha] at hn
      exact h a n hn

omit [DecidableEq A] in
theorem BackoffOnly.sameQueued (h : BackoffOnly q q') : SameQueued q q' := by
  have hcore : ∀ {n n' : Nbr}, n'.core = n.core → n'.txRingbuf = n.txRingbuf ∧ n'.txArray = n.txArray :=
    fun he => ⟨(Nbr.mk.inj he).2.2.2.2.2.2.2, (Nbr.mk.inj he).2.2.2.2.2.2.1⟩
  refine ⟨?_, ?_, h.accepted⟩
  · funext a
    cases hn' : q'.nbr a with
    | none =>
      have hn := h.nbr a
      rw [hn', Option.map_none, eq_comm, Option.map_eq_none_iff] at hn
      rw [queued_none hn', queued_none hn]
    | some n' =>
      obtain ⟨n, hn, he⟩ := h.some hn'
      rw [queued_some hn', queued_some hn]
      unfold Nbr.packets
      rw [(hcore he).1, (hcore he).2]
  · intro hq a n' hn'
    obtain ⟨n, hn, he⟩ := h.some hn'
    rw [(hcore he).1]
    exact hq a n hn

omit [DecidableEq A] in
theorem ringbuf_pos (cfg : Config A) : 0 < cfg.queueNumPerNeighbor := by
  obtain ⟨k, hk⟩ := cfg.queue_size
  rw [hk]
  exact Nat.two_pow_pos k

theorem sameQueued_addNbr (cfg : Config A) (q : Queues A) (addr : A) (room : Bool) :
    SameQueued q (tschQueueAddNbr cfg q addr room) := by
  unfold tschQueueAddNbr
  cases hn : q.nbr addr with
  | some n => exact .refl q
  | none =>
    dsimp only
    split
    · refine ⟨?_, fun h => setNbr_rings rfl h (Ringbufindex.init_wf (ringbuf_pos cfg)), rfl⟩
      rw [setNbr_queued rfl, Function.update_eq_self_iff, queued_none hn]
      simp [Nbr.packets, newNbr]
    · exact .refl q

theorem sameQueued_updateTimeSource (cfg : Config A) (q : Queues A) (old newAddr : Option A) (room : Bool) :
    SameQueued q (tschQueueUpdateTimeSource cfg q old newAddr room) := by
  have hflag : ∀ (q : Queues A) (a : A) (flag : Bool), SameQueued q (q.modify a fun n => { n with isTimeSource := flag }) :=
    fun q a flag => sameQueued_modify _ fun n => ⟨rfl, rfl⟩
  unfold tschQueueUpdateTimeSource
  cases newAddr with
  | none =>
    dsimp only
    split
    · exact .refl q
    · split
      · exact .refl q
      · cases old with
        | none => exact .refl q
        | some b => exact hflag _ b false
  | some c =>
    have hadd := sameQueued_addNbr cfg q c room
    dsimp only
    split
    · exact hadd
    · split
      · exact hadd
      · cases old with
        | none => exact hadd.trans (hflag _ c true)
        | some b => exact hadd.trans ((hflag _ c true).trans (hflag _ b false))

omit [DecidableEq A] in
theorem sameQueued_freeUnused (q : Queues A) : SameQueued q (tschQueueFreeUnusedNeighbors q) := by
  have hnbr : ∀ a, (tschQueueFreeUnusedNeighbors q).nbr a = (q.nbr a).filter fun n => !n.unused := fun _ => rfl
  refine ⟨?_, ?_, rfl⟩
  · funext a
    cases hn : q.nbr a with
    | none =>
      rw [queued_none hn, queued_none]
      rw [hnbr, hn]
      rfl
    | some n =>
      by_cases hu : n.unused = true
      · have he : n.txRingbuf.empty = true := by
          unfold Nbr.unused at hu
          simp only [Bool.and_eq_true] at hu
          exact hu.2
        rw [queued_some hn, queued_none]
        · exact ((n.txRingbuf.empty_iff n.txArray).1 he).symm
        · rw [hnbr, hn]
          simp [hu]
      · rw [queued_some hn]
        apply queued_some
        rw [hnbr, hn]
        simp [hu]
  · intro h a n hn
    rw [hnbr] at hn
    exact h a n (Option.filter_eq_some_iff.1 hn).1

theorem Shrinks.sameQueued (h : Shrinks s ls s') : SameQueued s.queues s'.queues := by
  induction h with
  | refl => exact .refl _
  | link hr _ ih =>
    refine SameQueued.trans ?_ ih
    rw [hr.queues]
    split
    · exact sameQueued_modify _ fun n => ⟨rfl, rfl⟩
    · exact .refl _
  | slotframe _ _ _ _ hqueues _ _ ih => exact hqueues ▸ ih

theorem Added.sameQueued {new : Link A} {room : Bool} (h : Added cfg s s' l new room) :
    SameQueued s.queues s'.queues := by
  rw [h.queues]
  split
  · exact (sameQueued_addNbr cfg s.queues new.addr room).trans (sameQueued_modify _ fun n => ⟨rfl, rfl⟩)
  · exact .refl _

/-! ## Calls that move packets -/

/-- The first packet of a queue is removed from it. -/
structure Dequeues (q q' : Queues A) (addr : A) (ps : List PacketPtr) : Prop where
  queued : q'.queued = Function.update q.queued addr ps
  rings : q'.RingsWF
  accepted : q'.accepted = q.accepted

theorem removePacket_dequeues (h : q.RingsWF) (hq : q.queued addr = p :: ps) :
    (tschQueueRemovePacketFromQueue q addr).2 = some p ∧
    Dequeues q (tschQueueRemovePacketFromQueue q addr).1 addr ps := by
  unfold tschQueueRemovePacketFromQueue
  cases hn : q.nbr addr with
  | none =>
    rw [queued_none hn] at hq
    cases hq
  | some n =>
    rw [queued_some hn] at hq
    have hwf := h addr n hn
    obtain ⟨i, hi, hp⟩ := hwf.peekGet_head hq
    obtain ⟨hget, hc⟩ := hwf.contents_get hi n.txArray
    unfold Nbr.packets at hq
    rw [hc, List.cons.injEq] at hq
    refine ⟨by simp [hget, hp], ?_, setNbr_rings rfl h hwf.get_wf, rfl⟩
    rw [setNbr_queued rfl]
    exact congrArg _ hq.2

theorem removePacket_some (h : q.RingsWF) (hp : (tschQueueRemovePacketFromQueue q addr).2 = some p) :
    ∃ ps, q.queued addr = p :: ps := by
  cases hq : q.queued addr with
  | cons p' ps =>
    rw [(removePacket_dequeues h hq).1] at hp
    cases hp
    exact ⟨ps, rfl⟩
  | nil =>
    unfold tschQueueRemovePacketFromQueue at hp
    cases hn : q.nbr addr with
    | none => simp [hn] at hp
    | some n =>
      rw [queued_some hn] at hq
      have hnone := (n.txRingbuf.peekGet_none n.txArray).2 hq
      simp [hn, Ringbufindex.get_none hnone] at hp

theorem addPacket_queued (cfg : Config A) (h : q.RingsWF) (addr : A) (maxTransmissions : UInt8) (room qb : Bool) :
    ((tschQueueAddPacket cfg q addr maxTransmissions room qb).2 = none ∧
      SameQueued q (tschQueueAddPacket cfg q addr maxTransmissions room qb).1) ∨
    ∃ block, (tschQueueAddPacket cfg q addr maxTransmissions room qb).2 = some ⟨block, q.accepted⟩ ∧
      (tschQueueAddPacket cfg q addr maxTransmissions room qb).1.queued =
        Function.update q.queued addr (q.queued addr ++ [⟨block, q.accepted⟩]) ∧
      (tschQueueAddPacket cfg q addr maxTransmissions room qb).1.RingsWF ∧
      (tschQueueAddPacket cfg q addr maxTransmissions room qb).1.accepted = q.accepted + 1 := by
  have hadd := sameQueued_addNbr cfg q addr room
  have hrings := hadd.rings h
  unfold tschQueueAddPacket
  dsimp only
  rw [← hadd.queued, ← hadd.accepted]
  generalize tschQueueAddNbr cfg q addr room = q₁ at hadd hrings
  cases hn : q₁.nbr addr with
  | none => exact .inl ⟨rfl, hadd⟩
  | some n =>
    dsimp only
    cases hi : n.txRingbuf.peekPut with
    | none => exact .inl ⟨rfl, hadd⟩
    | some i =>
      dsimp only
      cases q₁.packetMemb.alloc with
      | none => exact .inl ⟨rfl, hadd⟩
      | some m =>
        obtain ⟨block, mem⟩ := m
        dsimp only
        cases qb with
        | false => exact .inl ⟨rfl, hadd.trans ⟨rfl, id, rfl⟩⟩
        | true =>
          have hwf := hrings addr n hn
          refine .inr ⟨block, rfl, ?_, setNbr_rings rfl hrings hwf.put_wf, rfl⟩
          rw [if_pos rfl, setNbr_queued rfl, queued_some hn]
          exact congrArg _ (hwf.contents_put hi n.txArray _)

theorem packetSent_queued (cfg : Config A) (h : q.RingsWF) (hq : q.queued addr = p :: ps) (shared : Bool) (status : MacTx)
    (rand : UInt16) : ((tschQueuePacketSent cfg q addr p shared status rand).2 = true ∧
      SameQueued q (tschQueuePacketSent cfg q addr p shared status rand).1) ∨
    ((tschQueuePacketSent cfg q addr p shared status rand).2 = false ∧
      Dequeues q (tschQueuePacketSent cfg q addr p shared status rand).1 addr ps) := by
  obtain ⟨-, hd⟩ := removePacket_dequeues h hq
  have hthen : ∀ {q' q'' : Queues A}, Dequeues q q' addr ps → SameQueued q' q'' → Dequeues q q'' addr ps :=
    fun hd hs => ⟨hs.queued.trans hd.queued, hs.rings hd.rings, hs.accepted.trans hd.accepted⟩
  have hreset : ∀ q : Queues A, SameQueued q (q.modify addr (Nbr.backoffReset cfg)) :=
    fun q => sameQueued_modify _ fun n => ⟨rfl, rfl⟩
  have hinc : ∀ q : Queues A, SameQueued q (q.modify addr (Nbr.backoffInc cfg rand)) :=
    fun q => sameQueued_modify _ fun n => ⟨rfl, rfl⟩
  unfold tschQueuePacketSent
  dsimp only
  by_cases hok : status = .ok
  · rw [if_pos hok]
    refine .inr ⟨rfl, ?_⟩
    dsimp only
    split
    · exact hthen hd (hreset _)
    · exact hd
  · rw [if_neg hok]
    by_cases hdrop : (q.packet p.block).transmissions ≥ (q.packet p.block).maxTransmissions
    · refine .inr ⟨by simp [hdrop], ?_⟩
      simp only [hdrop, if_true]
      split
      · exact hthen hd (hinc _)
      · exact hd
    · refine .inl ⟨by simp [hdrop], ?_⟩
      simp only [hdrop, if_false]
      split
      · exact hinc _
      · exact .refl _

/-! ## Steps -/

/-- The slot operation has the same dequeued packets and waits as before. -/
structure SameSlot (s s' : State A) : Prop where
  ring : s'.slot.dequeuedRingbuf = s.slot.dequeuedRingbuf
  array : s'.slot.dequeuedArray = s.slot.dequeuedArray
  phase : s'.slot.phase = s.slot.phase

theorem Shrinks.sameSlot (h : Shrinks s ls s') : SameSlot s s' := by
  induction h with
  | refl => exact ⟨rfl, rfl, rfl⟩
  | @link t t' _ l _ hr _ ih =>
    have hs : SameSlot t t' := by
      have hslot := hr.slot
      split at hslot
      · exact ⟨by rw [hslot], by rw [hslot], by rw [hslot]⟩
      · exact ⟨by rw [hslot], by rw [hslot], by rw [hslot]⟩
    exact ⟨ih.ring.trans hs.ring, ih.array.trans hs.array, ih.phase.trans hs.phase⟩
  | slotframe _ _ _ _ _ hslot _ ih =>
    exact ⟨ih.ring.trans (congrArg _ hslot), ih.array.trans (congrArg _ hslot), ih.phase.trans (congrArg _ hslot)⟩

namespace World.Inv

theorem traffic_same (h : w.Inv) (hq : SameQueued w.state.queues w'.state.queues)
    (hring : w'.state.slot.dequeuedRingbuf = w.state.slot.dequeuedRingbuf)
    (harray : w'.state.slot.dequeuedArray = w.state.slot.dequeuedArray) (hframes : w'.frames = w.frames)
    (hevents : w'.events = w.events) : w'.traffic.Inv := by
  have he : w'.traffic = w.traffic := by
    unfold World.traffic
    rw [hq.queued, hring, harray, hframes, hevents, hq.accepted]
  rw [he]
  exact h.traffic

theorem idle (h : w.Inv) (hq : SameQueued w.state.queues w'.state.queues) (hs : SameSlot w.state w'.state)
    (hidle : w.state.slot.phase = .idle) (hframes : w'.frames = w.frames) (hevents : w'.events = w.events) : w'.Inv := by
  refine ⟨hq.rings h.rings, hs.ring ▸ h.dequeued, fun i hi => ?_, h.traffic_same hq hs.ring hs.array hframes hevents⟩
  rw [hs.phase, hidle] at hi
  cases hi

theorem shrinks (h : w.Inv) {s' : State A} (hs : Shrinks w.state ls s') (hidle : w.state.slot.phase = .idle) :
    (w.to s').Inv :=
  h.idle hs.sameQueued hs.sameSlot hidle rfl rfl

theorem addLink (h : w.Inv) (hsched : w.state.sched.Inv) {sf : Nat} (hc : Callable w.state sf) (linkOptions : UInt8)
    (linkType : LinkType) (address : Option A) (timeslot channelOffset : UInt16) (doRemove room : Bool) :
    (w.to (tschScheduleAddLink cfg w.state sf linkOptions linkType address timeslot channelOffset doRemove room).1).Inv := by
  obtain ⟨-, he⟩ | ⟨-, s₁, hs₁, hsf, -, he⟩ :=
    tschScheduleAddLink_cases cfg hsched hc.2 linkOptions linkType address timeslot channelOffset doRemove room
  · rw [he]
    exact h.idle (.refl _) ⟨rfl, rfl, rfl⟩ hc.1 rfl rfl
  · rw [he]
    obtain ⟨-, hsame⟩ | ⟨-, l, hadd⟩ :=
      addLink_spec cfg (hs₁.inv hsched) hsf linkOptions linkType address timeslot channelOffset room
    · rw [hsame]
      exact h.shrinks hs₁ hc.1
    · have hslot := hs₁.sameSlot
      refine h.idle (hs₁.sameQueued.trans hadd.sameQueued) ⟨?_, ?_, ?_⟩ hc.1 rfl rfl
      · exact (congrArg Slot.dequeuedRingbuf hadd.slot).trans hslot.ring
      · exact (congrArg Slot.dequeuedArray hadd.slot).trans hslot.array
      · exact (congrArg Slot.phase hadd.slot).trans hslot.phase

theorem addPacket (h : w.Inv) (addr : A) (maxTransmissions : UInt8) (room qb : Bool) :
    World.Inv ⟨{ w.state with queues := (tschQueueAddPacket cfg w.state.queues addr maxTransmissions room qb).1 }, w.frames,
      acceptedEvents addr (tschQueueAddPacket cfg w.state.queues addr maxTransmissions room qb).2 ++ w.events, []⟩ := by
  obtain ⟨hnone, hq⟩ | ⟨block, hsome, hqueued, hrings, haccepted⟩ :=
    addPacket_queued cfg h.rings addr maxTransmissions room qb
  · rw [hnone]
    refine ⟨hq.rings h.rings, h.dequeued, fun i hi => ?_, h.traffic_same hq rfl rfl rfl rfl⟩
    obtain ⟨hplace, hlink, p, a, ps, hp, ha, hqueue⟩ := h.waits i hi
    exact ⟨hplace, hlink, p, a, ps, hp, ha, (congrFun hq.queued a).trans hqueue⟩
  · rw [hsome]
    refine ⟨hrings, h.dequeued, fun i hi => ?_, ?_⟩
    · obtain ⟨hplace, hlink, p, a, ps, hp, ha, hqueue⟩ := h.waits i hi
      -- the first packet of a queue stays the first when one is added
      have hhead : ∃ ps', Function.update w.state.queues.queued addr
          (w.state.queues.queued addr ++ [⟨block, w.state.queues.accepted⟩]) a = p :: ps' := by
        by_cases haa : a = addr
        · subst haa
          rw [Function.update_self, hqueue]
          exact ⟨_, rfl⟩
        · rw [Function.update_of_ne haa]
          exact ⟨ps, hqueue⟩
      obtain ⟨ps', hps'⟩ := hhead
      exact ⟨hplace, hlink, p, a, ps', hp, ha, (congrFun hqueued a).trans hps'⟩
    · have hstep := (Traffic.Step.accept w.traffic addr block).inv h.traffic
      unfold World.traffic at hstep ⊢
      rw [hqueued, haccepted]
      exact hstep

theorem flush (h : w.Inv) (hclean : w.state.slot.phase.isTx = true → w.state.slot.currentNeighbor ≠ some addr)
    (hs : flushRound w addr = some w') : w'.Inv := by
  unfold flushRound at hs
  cases hr : tschQueueRemovePacketFromQueue w.state.queues addr with
  | mk q o =>
    cases o with
    | none => simp [hr] at hs
    | some p =>
      rw [hr] at hs
      cases hs
      obtain ⟨ps, hq⟩ := removePacket_some h.rings (show (tschQueueRemovePacketFromQueue w.state.queues addr).2 = some p by
        rw [hr])
      obtain ⟨-, hd⟩ := removePacket_dequeues h.rings hq
      rw [hr] at hd
      refine ⟨hd.rings, h.dequeued, fun i hi => ?_, ?_⟩
      · have hphase : w.state.slot.phase = .tx i := hi
        obtain ⟨hplace, hlink, p', a, ps', hp, ha, hqueue⟩ := h.waits i hphase
        refine ⟨hplace, hlink, p', a, ps', hp, ha, ?_⟩
        have hne : a ≠ addr := fun he => hclean (by rw [hphase]; rfl) (he ▸ ha)
        exact (congrFun hd.queued a).trans ((Function.update_of_ne hne _ _).trans hqueue)
      · have hstep := (Traffic.Step.flush (t := w.traffic) hq).inv h.traffic
        have hqueued := hd.queued
        have haccepted := hd.accepted
        dsimp only at hqueued haccepted
        unfold World.traffic at hstep ⊢
        dsimp only at hstep ⊢
        rw [← hqueued, ← haccepted] at hstep
        exact hstep

theorem callbackReturn (h : w.Inv) (hs : Tsch.callbackReturn w = some w') : w'.Inv := by
  unfold Tsch.callbackReturn at hs
  cases hf : w.frames with
  | nil => simp [hf] at hs
  | cons f frames =>
    cases f with
    | flush p =>
      simp only [hf, Option.some.injEq] at hs
      subst hs
      refine ⟨h.rings, h.dequeued, fun i hi => ?_, (Traffic.Step.flushed hf).inv h.traffic⟩
      obtain ⟨hplace, hlink, hpacket⟩ := h.waits i hi
      exact ⟨hplace, hlink, hpacket⟩
    | pending p =>
      simp only [hf, Option.some.injEq] at hs
      subst hs
      obtain ⟨hnil, hhead⟩ := h.traffic.bottom [] p frames hf
      obtain ⟨ps, hd⟩ := List.head?_eq_some_iff.1 hhead
      obtain ⟨i, hi, -⟩ := h.dequeued.peekGet_head hd
      obtain ⟨-, hc⟩ := h.dequeued.contents_get hi w.state.slot.dequeuedArray
      refine ⟨h.rings, h.dequeued.get_wf, fun j hj => ?_, ?_⟩
      · obtain ⟨hplace, hlink, hpacket⟩ := h.waits j hj
        exact ⟨h.dequeued.peekPut_get hplace, hlink, hpacket⟩
      · have hstep := (Traffic.Step.processed (t := w.traffic) hf).inv h.traffic
        unfold World.traffic at hstep ⊢
        dsimp only at hstep ⊢
        rw [hc, List.tail_cons] at hstep
        exact hstep

theorem pending (h : w.Inv) (hs : pendingRound w = some w') : w'.Inv := by
  unfold pendingRound at hs
  cases hf : w.frames with
  | cons f frames => simp [hf] at hs
  | nil =>
    cases hi : w.state.slot.dequeuedRingbuf.peekGet with
    | none => simp [hf, hi] at hs
    | some i =>
      simp only [hf, hi, Option.some.injEq] at hs
      subst hs
      obtain ⟨-, hc⟩ := h.dequeued.contents_get hi w.state.slot.dequeuedArray
      refine ⟨h.rings, h.dequeued, fun j hj => ?_, (Traffic.Step.pending (t := w.traffic) hf hc).inv h.traffic⟩
      obtain ⟨hplace, hlink, hpacket⟩ := h.waits j hj
      exact ⟨hplace, hlink, hpacket⟩

/-! ### The slot operation -/

omit [DecidableEq A] in
theorem heads_queued (hq : q.RingsWF) (h : Heads q addr p) : ∃ ps, q.queued addr = p :: ps := by
  obtain ⟨n, i, hn, hi, rfl⟩ := h
  rw [queued_some hn]
  exact ⟨_, ((hq addr n hn).contents_get hi n.txArray).2⟩

theorem slotStart (h : w.Inv) (lockRequested : Bool) (order : List A) (ending : Ending) :
    World.Inv ⟨(Tsch.slotStart cfg w.state lockRequested order ending).1, w.frames,
      startEvents (Tsch.slotStart cfg w.state lockRequested order ending).1 ++ w.events,
      (Tsch.slotStart cfg w.state lockRequested order ending).2⟩ := by
  obtain ⟨hquiet, hsends⟩ := slotStart_spec cfg w.state lockRequested order ending
  generalize Tsch.slotStart cfg w.state lockRequested order ending = r at hquiet hsends
  have hq := hquiet.queues.sameQueued
  have hrings := hq.rings h.rings
  have hsame : (World.traffic ⟨r.1, w.frames, w.events, r.2⟩).Inv :=
    h.traffic_same hq hquiet.ring hquiet.array rfl rfl
  have hring : r.1.slot.dequeuedRingbuf.WF := hquiet.ring ▸ h.dequeued
  cases hphase : r.1.slot.phase with
  | idle =>
    have he : startEvents r.1 = [] := by
      simp [startEvents, hphase]
    rw [he]
    exact ⟨hrings, hring, fun i hi => absurd (hphase.symm.trans hi) (by simp), hsame⟩
  | rx =>
    have he : startEvents r.1 = [] := by
      simp [startEvents, hphase]
    rw [he]
    exact ⟨hrings, hring, fun i hi => absurd (hphase.symm.trans hi) (by simp), hsame⟩
  | tx j =>
    obtain ⟨-, -, p, addr, hp, -, hheads⟩ := hsends j hphase
    obtain ⟨ps, hqueue⟩ := heads_queued hrings hheads
    have he : startEvents r.1 = [.accessed p.id] := by
      simp [startEvents, hphase, hp]
    rw [he]
    refine ⟨hrings, hring, fun i hi => ?_, ?_⟩
    · obtain ⟨hplace, hlink, p', a, hp', ha, hheads'⟩ := hsends i hi
      obtain ⟨ps', hqueue'⟩ := heads_queued hrings hheads'
      exact ⟨hplace, hlink, p', a, ps', hp', ha, hqueue'⟩
    · exact (Traffic.Step.read (t := World.traffic ⟨r.1, w.frames, w.events, r.2⟩) (a := addr)
        (show p ∈ r.1.queues.queued addr by simp [hqueue])).inv hsame

theorem slotEnd {events : List (Event A)} (hrings : s.queues.RingsWF) (hring : s.slot.dequeuedRingbuf.WF)
    {frames : List Frame} (htraffic : (World.traffic ⟨s, frames, events, []⟩).Inv) (ending : Ending)
    (reads : List LinkPtr) : World.Inv ⟨(Tsch.slotEnd cfg s ending).1, frames, events, reads⟩ := by
  obtain ⟨hquiet, hidle⟩ := slotEnd_quiet cfg s ending
  have hq := hquiet.queues.sameQueued
  refine ⟨hq.rings hrings, ?_, fun i hi => absurd (hidle.symm.trans hi) (by simp), ?_⟩
  · rw [hquiet.ring]
    exact hring
  · have he : World.traffic ⟨(Tsch.slotEnd cfg s ending).1, frames, events, reads⟩ =
        World.traffic ⟨s, frames, events, []⟩ := by
      unfold World.traffic
      rw [hq.queued, hquiet.ring, hquiet.array, hq.accepted]
    rw [he]
    exact htraffic

theorem slotFinish (h : w.Inv) (status : MacTx) (rand : UInt16) (burst : Bool) (ending : Ending) :
    World.Inv ⟨(Tsch.slotFinish cfg w.state status rand burst ending).1, w.frames,
      finishEvents cfg w.state status rand ++ w.events, (Tsch.slotFinish cfg w.state status rand burst ending).2⟩ := by
  cases hphase : w.state.slot.phase with
  | idle =>
    simp only [Tsch.slotFinish, finishEvents, hphase, List.nil_append]
    exact slotEnd h.rings h.dequeued h.traffic ending _
  | rx =>
    simp only [Tsch.slotFinish, finishEvents, hphase, List.nil_append]
    exact slotEnd h.rings h.dequeued h.traffic ending _
  | tx i =>
    obtain ⟨hplace, hlink, p, addr, ps, hp, ha, hqueue⟩ := h.waits i hphase
    obtain ⟨l, hl⟩ := Option.isSome_iff_exists.1 hlink
    simp only [Tsch.slotFinish, finishEvents, hphase, hp, ha, hl]
    -- the counter and the status of the packet are set before it is looked at
    let q : Queues A := { w.state.queues with
      packet := Function.update w.state.queues.packet p.block
        { w.state.queues.packet p.block with
          transmissions := (w.state.queues.packet p.block).transmissions + 1, ret := status } }
    have hrings : q.RingsWF := h.rings
    have hqueue' : q.queued addr = p :: ps := hqueue
    have hread := (Traffic.Step.read (t := w.traffic) (a := addr) (show p ∈ w.state.queues.queued addr by
      simp [hqueue])).inv h.traffic
    have hdone := (Traffic.Step.done (t := w.traffic) hqueue).inv h.traffic
    obtain ⟨hstays, hq⟩ | ⟨hgoes, hd⟩ :=
      packetSent_queued cfg hrings hqueue' (w.state.sched.link l.block).isShared status rand
    · rw [if_pos hstays]
      refine slotEnd ?_ ?_ ?_ ending _
      · exact hq.rings hrings
      · unfold txDone
        dsimp only
        rw [if_pos hstays]
        exact h.dequeued
      · unfold World.traffic txDone at *
        dsimp only at *
        rw [if_pos hstays, hq.queued, hq.accepted]
        exact hread
    · obtain ⟨hfirst, -⟩ := removePacket_dequeues hrings hqueue'
      have hgo : ¬ (tschQueuePacketSent cfg q addr p (w.state.sched.link l.block).isShared status rand).2 = true := by
        simp [hgoes]
      rw [if_neg hgo, hfirst]
      refine slotEnd ?_ ?_ ?_ ending _
      · exact hd.rings
      · unfold txDone
        dsimp only
        rw [if_neg hgo]
        exact h.dequeued.put_wf
      · unfold World.traffic txDone at *
        dsimp only at *
        rw [if_neg hgo, hd.queued, hd.accepted]
        dsimp only
        rw [h.dequeued.contents_put hplace]
        exact hdone

end World.Inv

theorem step_packets {action : Action A} (hsched : w.state.sched.Inv) (h : w.Inv) (hc : FlushClean w action)
    (hs : step cfg w action = some w') : w'.Inv := by
  cases action with
  | addSlotframe handle size =>
    simp only [step, Option.ite_none_right_eq_some, Option.some.injEq] at hs
    obtain ⟨hidle, rfl⟩ := hs
    exact h.shrinks (addSlotframe_shrinks hsched handle size) hidle
  | removeSlotframe sf =>
    simp only [step, Option.ite_none_right_eq_some, Option.some.injEq] at hs
    obtain ⟨hcall, rfl⟩ := hs
    exact h.shrinks (removeSlotframe_shrinks hsched hcall.2).1 hcall.1
  | removeAllSlotframes =>
    simp only [step, Option.ite_none_right_eq_some, Option.some.injEq] at hs
    obtain ⟨hidle, rfl⟩ := hs
    obtain ⟨ls, hls⟩ := removeSlotframes_shrinks w.state.sched.slotframeList.length w.state hsched
    exact h.shrinks hls hidle
  | addLink sf linkOptions linkType address timeslot channelOffset doRemove room =>
    simp only [step, Option.ite_none_right_eq_some, Option.some.injEq] at hs
    obtain ⟨hcall, rfl⟩ := hs
    exact h.addLink hsched hcall linkOptions linkType address timeslot channelOffset doRemove room
  | removeLink sf l =>
    simp only [step, Option.ite_none_right_eq_some, Option.some.injEq] at hs
    obtain ⟨⟨hcall, hl⟩, rfl⟩ := hs
    obtain ⟨ls, hls, -⟩ := removeLink_shrinks hsched hcall.2 hl
    exact h.shrinks hls hcall.1
  | removeLinkByOffsets sf timeslot channelOffset =>
    simp only [step, Option.ite_none_right_eq_some, Option.some.injEq] at hs
    obtain ⟨hcall, rfl⟩ := hs
    exact h.shrinks (removeByOffsets_shrinks timeslot channelOffset sf _ w.state hsched hcall.2
      (hsched.list_nodup hcall.2) fun _ hl => hl) hcall.1
  | addPacket addr maxTransmissions room qb =>
    simp only [step, Option.ite_none_right_eq_some, Option.some.injEq] at hs
    obtain ⟨-, rfl⟩ := hs
    exact h.addPacket addr maxTransmissions room qb
  | flush addr => exact h.flush hc hs
  | flushReturn =>
    simp only [step] at hs
    split at hs
    · exact h.callbackReturn hs
    · cases hs
  | resetBackoff addr =>
    cases hs
    have hq : SameQueued w.state.queues (w.state.queues.modify addr (Nbr.backoffReset cfg)) :=
      sameQueued_modify _ fun n => ⟨rfl, rfl⟩
    refine ⟨hq.rings h.rings, h.dequeued, fun i hi => ?_, h.traffic_same hq rfl rfl rfl rfl⟩
    obtain ⟨hplace, hlink, p, a, ps, hp, ha, hqueue⟩ := h.waits i hi
    exact ⟨hplace, hlink, p, a, ps, hp, ha, (congrFun hq.queued a).trans hqueue⟩
  | pending => exact h.pending hs
  | pendingReturn =>
    simp only [step] at hs
    split at hs
    · exact h.callbackReturn hs
    · cases hs
  | freeUnused =>
    simp only [step, Option.ite_none_right_eq_some, Option.some.injEq] at hs
    obtain ⟨hidle, rfl⟩ := hs
    exact h.idle (sameQueued_freeUnused w.state.queues) ⟨rfl, rfl, rfl⟩ hidle rfl rfl
  | timeSource old newAddr room =>
    simp only [step, Option.ite_none_right_eq_some, Option.some.injEq] at hs
    obtain ⟨hidle, rfl⟩ := hs
    exact h.idle (sameQueued_updateTimeSource cfg w.state.queues old newAddr room) ⟨rfl, rfl, rfl⟩ hidle rfl rfl
  | join asn misses =>
    simp only [step, Option.ite_none_right_eq_some, Option.some.injEq] at hs
    obtain ⟨⟨-, hidle⟩, rfl⟩ := hs
    have he := slotOperationStart_ended misses w.state asn
    exact h.idle he.queues.sameQueued ⟨he.ring, he.array, he.phase⟩ hidle rfl rfl
  | slotStart lockRequested order ending =>
    simp only [step, Option.ite_none_right_eq_some, Option.some.injEq] at hs
    obtain ⟨-, rfl⟩ := hs
    exact h.slotStart lockRequested order ending
  | slotFinish status rand burst ending =>
    simp only [step, Option.ite_none_right_eq_some, Option.some.injEq] at hs
    obtain ⟨-, rfl⟩ := hs
    exact h.slotFinish status rand burst ending

theorem init_packets (cfg : Config A) (ebRoom broadcastRoom : Bool) : (World.init cfg ebRoom broadcastRoom).Inv := by
  let q : Queues A :=
    { nbr := fun _ => none, packetMemb := .init cfg.queuebufNum, packet := fun _ => ⟨0, 0, .deferred⟩, accepted := 0 }
  have hq : SameQueued q (World.init cfg ebRoom broadcastRoom).state.queues :=
    (sameQueued_addNbr cfg q cfg.tschEbAddress ebRoom).trans (sameQueued_addNbr cfg _ cfg.tschBroadcastAddress broadcastRoom)
  refine ⟨hq.rings (fun _ _ hn => nomatch hn), ?_, (fun _ hi => nomatch hi), ?_⟩
  · obtain ⟨k, hk⟩ := cfg.dequeued_size
    exact Ringbufindex.init_wf (hk ▸ Nat.two_pow_pos k)
  · have he : (World.init cfg ebRoom broadcastRoom).traffic = ⟨fun _ => [], [], [], [], 0⟩ := by
      unfold World.traffic
      rw [hq.queued, hq.accepted]
      simp [World.init, q]
      rfl
    rw [he]
    exact Traffic.init_inv

/-- In every run that never flushes the queue whose first packet the slot operation sends, each packet is called and freed
at most once and never read afterwards, and the packets of a neighbor leave its queue in order, each for itself. -/
theorem packets_run (cfg : Config A) (ebRoom broadcastRoom : Bool) (actions : List (Action A))
    (hc : AllSteps (step cfg) FlushClean (World.init cfg ebRoom broadcastRoom) actions) :
    AllStates (step cfg) (fun w => Handled w.events) (World.init cfg ebRoom broadcastRoom) actions := by
  have hrun : AllStates (step cfg) World.Inv (World.init cfg ebRoom broadcastRoom) actions :=
    allStates_of_allSteps (J := fun w => w.state.sched.Inv) (fun _ _ _ h hs => step_inv h hs)
      (fun _ _ _ hsched h hc hs => step_packets hsched h hc hs) actions _ (init_inv cfg ebRoom broadcastRoom)
      (init_packets cfg ebRoom broadcastRoom) hc
  exact hrun.mono fun _ h => h.traffic.handled

def packetSending : List (Action Nat) :=
  [.addSlotframe 1 10, .addLink 0 LINK_OPTION_TX .normal (some 5) 3 0 true true, .addPacket 5 8 true true, .join ⟨0, 0⟩ 0,
    .slotStart false [] (.next 0)]

/-- The packet is processed, and its queue is flushed with another packet in it after that. -/
theorem packets_run_flush : AllStates (step smallConfig) (fun w => Handled w.events) (World.init smallConfig true true)
      (packetSending ++ [.addPacket 5 8 true true, .slotFinish .ok 0 false (.next 0), .flush 5, .flushReturn, .pending,
        .pendingReturn]) :=
  packets_run smallConfig true true _ (by decide)

/-- The queue is flushed while the packet is sent: its callback is called a second time when it is processed. -/
theorem flushed_and_sent : ¬ AllStates (step smallConfig) (fun w => Handled w.events) (World.init smallConfig true true)
      (packetSending ++ [.flush 5, .flushReturn, .slotFinish .ok 0 false (.next 0), .pending]) := by
  intro h
  have hrun : (exec (step smallConfig) (World.init smallConfig true true) (packetSending ++
      [.flush 5, .flushReturn, .slotFinish .ok 0 false (.next 0), .pending])).map (fun w => calledIds w.events) =
      some [0, 0] := by decide
  obtain ⟨w, hw, hcalled⟩ := Option.map_eq_some_iff.1 hrun
  have hn := (h.last hw).calledOnce
  rw [hcalled] at hn
  simp at hn

end Contiki.Tsch

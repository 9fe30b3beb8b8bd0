/-
What each part of the slot operation leaves alone: it never changes the schedule, and of the queues it changes, besides
the one packet that it sends, only how long neighbors back off.
-/
import Contiki.Tsch.System
import Contiki.Lib.Nested

namespace Contiki.Tsch

section

open Contiki.Core

variable {A : Type} [DecidableEq A] {cfg : Config A} {q q' q'' : Queues A} {s s' : State A} {a addr : A}

/-! ## Queues that differ in the backoff -/

def Nbr.core (n : Nbr) : Nbr := { n with backoffWindow := 0, backoffExponent := 0 }

structure BackoffOnly (q q' : Queues A) : Prop where
  nbr : ∀ a, (q'.nbr a).map Nbr.core = (q.nbr a).map Nbr.core
  packetMemb : q'.packetMemb = q.packetMemb
  packet : q'.packet = q.packet
  accepted : q'.accepted = q.accepted

omit [DecidableEq A] in
theorem BackoffOnly.refl (q : Queues A) : BackoffOnly q q := ⟨fun _ => rfl, rfl, rfl, rfl⟩

omit [DecidableEq A] in
theorem BackoffOnly.trans (h : BackoffOnly q q') (h' : BackoffOnly q' q'') : BackoffOnly q q'' :=
  ⟨fun a => (h'.nbr a).trans (h.nbr a), h'.packetMemb.trans h.packetMemb, h'.packet.trans h.packet,
    h'.accepted.trans h.accepted⟩

@[simp] theorem modify_self (f : Nbr → Nbr) : (q.modify addr f).nbr addr = (q.nbr addr).map f := by
  simp [Queues.modify]

@[simp] theorem modify_other (h : a ≠ addr) (f : Nbr → Nbr) : (q.modify addr f).nbr a = q.nbr a := by
  simp [Queues.modify, h]

theorem backoffOnly_updateAll (destAddr : A) : BackoffOnly q (tschQueueUpdateAllBackoffWindows cfg q destAddr) := by
  refine ⟨fun a => ?_, rfl, rfl, rfl⟩
  simp only [tschQueueUpdateAllBackoffWindows, Option.map_map]
  congr 1
  funext n
  simp only [Function.comp_apply]
  split <;> rfl

omit [DecidableEq A] in
theorem BackoffOnly.some (h : BackoffOnly q q') {n' : Nbr} (hn : q'.nbr a = some n') :
    ∃ n, q.nbr a = some n ∧ n'.core = n.core := by
  have hmap := h.nbr a
  rw [hn] at hmap
  cases hq : q.nbr a with
  | none => simp [hq] at hmap
  | some n => exact ⟨n, rfl, by simpa [hq] using hmap⟩

/-! ## The end of a slot -/

/-- A slot operation that only looks for the next links. -/
structure Ended (s s' : State A) : Prop where
  sched : s'.sched = s.sched
  queues : BackoffOnly s.queues s'.queues
  ring : s'.slot.dequeuedRingbuf = s.slot.dequeuedRingbuf
  array : s'.slot.dequeuedArray = s.slot.dequeuedArray
  phase : s'.slot.phase = s.slot.phase

omit [DecidableEq A] in
theorem Ended.trans {s'' : State A} (h : Ended s s') (h' : Ended s' s'') : Ended s s'' :=
  ⟨h'.sched.trans h.sched, h.queues.trans h'.queues, h'.ring.trans h.ring, h'.array.trans h.array,
    h'.phase.trans h.phase⟩

theorem updateLinkBackoff_ended (cfg : Config A) (s : State A) (link : Option LinkPtr) :
    Ended s (updateLinkBackoff cfg s link) ∧ (updateLinkBackoff cfg s link).slot = s.slot := by
  unfold updateLinkBackoff
  cases link with
  | none => exact ⟨⟨rfl, .refl _, rfl, rfl, rfl⟩, rfl⟩
  | some l =>
    dsimp only
    split
    · exact ⟨⟨rfl, backoffOnly_updateAll _, rfl, rfl, rfl⟩, rfl⟩
    · exact ⟨⟨rfl, .refl _, rfl, rfl, rfl⟩, rfl⟩

theorem getNextActiveLink_ended : Ended s (getNextActiveLink s).1 := by
  unfold getNextActiveLink
  cases nextActive s s.slot.currentAsn with
  | none => exact ⟨rfl, .refl _, rfl, rfl, rfl⟩
  | some b => exact ⟨rfl, .refl _, rfl, rfl, rfl⟩

theorem scheduleNext_ended (cfg : Config A) (s : State A) : Ended s (scheduleNext cfg s).1 := by
  obtain ⟨hb, -⟩ := updateLinkBackoff_ended cfg s s.slot.currentLink
  unfold scheduleNext
  dsimp only
  split
  · exact hb.trans ⟨rfl, .refl _, rfl, rfl, rfl⟩
  · exact (hb.trans getNextActiveLink_ended).trans ⟨rfl, .refl _, rfl, rfl, rfl⟩

theorem scheduleLoop_ended (cfg : Config A) : ∀ (misses : Nat) (s : State A), Ended s (scheduleLoop cfg misses s).1
  | 0, s => scheduleNext_ended cfg s
  | misses + 1, s => (scheduleNext_ended cfg s).trans (scheduleLoop_ended cfg misses _)

theorem slotOperationStart_ended : ∀ (misses : Nat) (s : State A) (asn : Asn), Ended s (slotOperationStart s asn misses)
  | 0, s, asn => by
    unfold slotOperationStart
    have h : Ended s { s with slot := { s.slot with isAssociated := true, currentAsn := asn } } :=
      ⟨rfl, .refl _, rfl, rfl, rfl⟩
    exact (h.trans getNextActiveLink_ended).trans ⟨rfl, .refl _, rfl, rfl, rfl⟩
  | misses + 1, s, asn => by
    unfold slotOperationStart
    have h : Ended s { s with slot := { s.slot with isAssociated := true, currentAsn := asn } } :=
      ⟨rfl, .refl _, rfl, rfl, rfl⟩
    exact (h.trans getNextActiveLink_ended).trans (slotOperationStart_ended misses _ _)

/-- A part of the slot operation that sends nothing: it ends idle, or waits. -/
structure Quiet (s s' : State A) : Prop where
  sched : s'.sched = s.sched
  queues : BackoffOnly s.queues s'.queues
  ring : s'.slot.dequeuedRingbuf = s.slot.dequeuedRingbuf
  array : s'.slot.dequeuedArray = s.slot.dequeuedArray

omit [DecidableEq A] in
omit [DecidableEq A] in
theorem Quiet.trans {s'' : State A} (h : Quiet s s') (h' : Quiet s' s'') : Quiet s s'' :=
  ⟨h'.sched.trans h.sched, h.queues.trans h'.queues, h'.ring.trans h.ring, h'.array.trans h.array⟩

theorem slotEnd_quiet (cfg : Config A) (s : State A) (ending : Ending) :
    Quiet s (slotEnd cfg s ending).1 ∧ (slotEnd cfg s ending).1.slot.phase = .idle := by
  cases ending with
  | leave => exact ⟨⟨rfl, .refl _, rfl, rfl⟩, rfl⟩
  | next misses =>
    have h := scheduleLoop_ended cfg misses { s with slot := { s.slot with phase := .idle } }
    exact ⟨⟨h.sched, h.queues, h.ring, h.array⟩, h.phase⟩

/-! ## The start of a slot -/

def Heads (q : Queues A) (addr : A) (p : PacketPtr) : Prop :=
  ∃ n i, q.nbr addr = some n ∧ n.txRingbuf.peekGet = some i ∧ n.txArray i = p

structure Sends (s : State A) (dequeuedIndex : Nat) : Prop where
  place : s.slot.dequeuedRingbuf.peekPut = some dequeuedIndex
  link : s.slot.currentLink.isSome
  packet : ∃ p addr, s.slot.currentPacket = some p ∧ s.slot.currentNeighbor = some addr ∧ Heads s.queues addr p

omit [DecidableEq A] in
omit [DecidableEq A] in
theorem getPacketForNbr_heads {shared : Bool} {p : PacketPtr} (h : tschQueueGetPacketForNbr q addr shared = some p) :
    Heads q addr p := by
  unfold tschQueueGetPacketForNbr at h
  cases hn : q.nbr addr with
  | none => simp [hn] at h
  | some n =>
    cases hi : n.txRingbuf.peekGet with
    | none => simp [hn, hi] at h
    | some i =>
      simp only [hn, hi] at h
      split at h
      · cases h
      · cases h
        exact ⟨n, i, hn, hi, rfl⟩

omit [DecidableEq A] in
theorem getUnicastPacketForAny_heads {shared : Bool} {p : PacketPtr} : ∀ {order : List A},
    tschQueueGetUnicastPacketForAny q shared order = some (addr, p) → Heads q addr p
  | [], h => by cases h
  | a :: order, h => by
    unfold tschQueueGetUnicastPacketForAny at h
    split at h
    · exact getUnicastPacketForAny_heads h
    · split at h
      · rename_i hp
        cases h
        exact getPacketForNbr_heads hp
      · exact getUnicastPacketForAny_heads h

theorem getPacketAndNeighbor_heads {link : Link A} {order : List A} {p : PacketPtr} {target : Option A}
    (h : getPacketAndNeighborForLink cfg q link order = (some p, target)) :
    ∃ addr, target = some addr ∧ Heads q addr p := by
  unfold getPacketAndNeighborForLink at h
  dsimp only at h
  split at h
  · cases h
  · split at h
    · rename_i p' heb
      cases h
      refine ⟨cfg.tschEbAddress, rfl, ?_⟩
      split at heb
      · exact getPacketForNbr_heads heb
      · cases heb
    · split at h
      · cases h
      · split at h
        · rename_i p' hp
          cases h
          exact ⟨link.addr, rfl, getPacketForNbr_heads hp⟩
        · split at h
          · split at h
            · rename_i addr' p' hany
              cases h
              exact ⟨addr', rfl, getUnicastPacketForAny_heads hany⟩
            · cases h
          · cases h

/-- What the slot seeks a packet for it finds at the head of a queue. -/
def Found (s : State A) : Prop :=
  ∀ p, s.slot.currentPacket = some p → ∃ addr, s.slot.currentNeighbor = some addr ∧ Heads s.queues addr p

theorem seekPacket_found (cfg : Config A) (s : State A) (l : LinkPtr) (order : List A) : Found (seekPacket cfg s l order) :=
  fun _ hp => getPacketAndNeighbor_heads (Prod.ext hp rfl)

theorem slotActivity_spec (cfg : Config A) (hf : Found s) (hl : s.slot.currentLink.isSome) (l : LinkPtr) (ending : Ending) :
    Quiet s (slotActivity cfg s l ending).1 ∧
    ∀ i, (slotActivity cfg s l ending).1.slot.phase = .tx i → Sends (slotActivity cfg s l ending).1 i := by
  unfold slotActivity
  dsimp only
  have hidle : ∀ s' : State A, Quiet s s' →
      Quiet s (slotEnd cfg s' ending).1 ∧
      ∀ i, (slotEnd cfg s' ending).1.slot.phase = .tx i → Sends (slotEnd cfg s' ending).1 i := by
    intro s' hs
    obtain ⟨hq, hp⟩ := slotEnd_quiet cfg s' ending
    refine ⟨hs.trans hq, fun i hi => ?_⟩
    rw [hp] at hi
    cases hi
  split
  · rename_i p hp
    split
    · exact hidle _ ⟨rfl, .refl _, rfl, rfl⟩
    · rename_i i hi
      refine ⟨⟨rfl, .refl _, rfl, rfl⟩, fun j hj => ?_⟩
      simp only [Phase.tx.injEq] at hj
      subst hj
      obtain ⟨addr, ha, hh⟩ := hf p hp
      exact ⟨hi, hl, p, addr, hp, ha, hh⟩
  · split
    · refine ⟨⟨rfl, .refl _, rfl, rfl⟩, fun j hj => ?_⟩
      cases hj
    · exact hidle _ ⟨rfl, .refl _, rfl, rfl⟩

theorem slotStart_spec (cfg : Config A) (s : State A) (lockRequested : Bool) (order : List A) (ending : Ending) :
    Quiet s (slotStart cfg s lockRequested order ending).1 ∧
    ∀ i, (slotStart cfg s lockRequested order ending).1.slot.phase = .tx i →
      Sends (slotStart cfg s lockRequested order ending).1 i := by
  have hend : Quiet s (slotEnd cfg s ending).1 ∧
      ∀ i, (slotEnd cfg s ending).1.slot.phase = .tx i → Sends (slotEnd cfg s ending).1 i := by
    obtain ⟨hq, hp⟩ := slotEnd_quiet cfg s ending
    refine ⟨hq, fun i hi => ?_⟩
    rw [hp] at hi
    cases hi
  unfold slotStart
  split
  · exact hend
  · rename_i l hl
    split
    · exact hend
    · have hl' : (seekPacket cfg s l order).slot.currentLink.isSome := by
        show s.slot.currentLink.isSome = true
        rw [hl]
        rfl
      have hseek : Quiet s (seekPacket cfg s l order) := ⟨rfl, .refl _, rfl, rfl⟩
      obtain ⟨hq, hp⟩ := slotActivity_spec cfg (seekPacket_found cfg s l order) hl' l ending
      dsimp only
      split
      · rename_i b _ _
        split
        · obtain ⟨hu, hus⟩ := updateLinkBackoff_ended cfg (seekPacket cfg s l order) (some l)
          let s₁ : State A := { updateLinkBackoff cfg (seekPacket cfg s l order) (some l) with
            slot := { (updateLinkBackoff cfg (seekPacket cfg s l order) (some l)).slot with currentLink := some b } }
          have hs₁ : Quiet s s₁ := hseek.trans ⟨hu.sched, hu.queues, hu.ring, hu.array⟩
          have hs₂ : Quiet s (seekPacket cfg s₁ b order) := hs₁.trans ⟨rfl, .refl _, rfl, rfl⟩
          obtain ⟨hq', hp'⟩ := slotActivity_spec cfg (seekPacket_found cfg s₁ b order) rfl b ending
          exact ⟨hs₂.trans hq', hp'⟩
        · exact ⟨hseek.trans hq, hp⟩
      · exact ⟨hseek.trans hq, hp⟩

end

/-!
What holds of the schedule between calls: the two pools hold the slotframes and the links, every link is in the list of
the slotframe whose handle it has, and handles of links are not used twice. A call that removes takes links off one by
one and frees slotframes that have none left.
-/

section

open Contiki.Core Contiki.Lib

variable {A : Type} [DecidableEq A] {cfg : Config A} {s s' s'' : State A} {sf l b : Nat} {ls ls' : List Nat} {a : A}

/-! ## The invariant -/

structure Schedule.Inv (s : Schedule A) : Prop where
  slotframes : s.slotframeMemb.Holds s.slotframeList
  links : s.linkMemb.Holds s.links
  handles : (s.slotframeList.map fun sf => (s.slotframe sf).handle).Nodup
  home : ∀ sf ∈ s.slotframeList, ∀ l ∈ (s.slotframe sf).linksList, (s.link l).slotframeHandle = (s.slotframe sf).handle
  older : ∀ l ∈ s.links, (s.link l).handle < s.currentLinkHandle

omit [DecidableEq A] in
theorem mem_links {s : Schedule A} : l ∈ s.links ↔ ∃ sf ∈ s.slotframeList, l ∈ (s.slotframe sf).linksList := by
  simp [Schedule.links]

omit [DecidableEq A] in
theorem Schedule.Inv.list_nodup {s : Schedule A} (h : s.Inv) (hsf : sf ∈ s.slotframeList) :
    (s.slotframe sf).linksList.Nodup :=
  (List.nodup_flatMap.1 h.links.nodup).1 sf hsf

omit [DecidableEq A] in
theorem Schedule.Inv.at_home {s : Schedule A} (h : s.Inv) (hsf : sf ∈ s.slotframeList) (hl : l ∈ s.links)
    (he : (s.link l).slotframeHandle = (s.slotframe sf).handle) : l ∈ (s.slotframe sf).linksList := by
  obtain ⟨sf', hsf', hl'⟩ := mem_links.1 hl
  have heq : sf' = sf := List.inj_on_of_nodup_map h.handles hsf' hsf ((h.home sf' hsf' l hl').symm.trans he)
  exact heq ▸ hl'

omit [DecidableEq A] in
theorem setLinks_handle (s : Schedule A) (sf sf' : Nat) (ls : List Nat) :
    ((s.setLinks sf ls).slotframe sf').handle = (s.slotframe sf').handle := by
  unfold Schedule.setLinks
  by_cases h : sf' = sf
  · subst h
    simp
  · simp [h]

omit [DecidableEq A] in
theorem setLinks_list (s : Schedule A) (sf : Nat) (ls : List Nat) :
    (fun sf' => ((s.setLinks sf ls).slotframe sf').linksList) =
      Function.update (fun sf' => (s.slotframe sf').linksList) sf ls := by
  funext sf'
  unfold Schedule.setLinks
  by_cases h : sf' = sf
  · subst h
    simp
  · simp [h]

omit [DecidableEq A] in
theorem setLinks_links (s : Schedule A) (sf : Nat) (ls : List Nat) : (s.setLinks sf ls).links =
      s.slotframeList.flatMap (Function.update (fun sf' => (s.slotframe sf').linksList) sf ls) := by
  rw [← setLinks_list]
  rfl

/-! ## A link goes -/

/-- The link `l` is taken off the schedule, from `current_link` and from the counters of its neighbor. -/
structure Removed (s s' : State A) (l : Nat) : Prop where
  inv : s'.sched.Inv
  perm : (l :: s'.sched.links).Perm s.sched.links
  link : s'.sched.link = s.sched.link
  list : s'.sched.slotframeList = s.sched.slotframeList
  counter : s'.sched.currentLinkHandle = s.sched.currentLinkHandle
  num : s'.sched.linkMemb.num = s.sched.linkMemb.num
  queues : s'.queues = if (s.sched.link l).isTx then
    s.queues.modify (s.sched.link l).addr (Nbr.countDown (s.sched.link l)) else s.queues
  slot : s'.slot = if s.slot.currentLink.map LinkPtr.block = some l then
    { s.slot with currentLink := none } else s.slot

theorem removeLink_other (h : (s.sched.link l).slotframeHandle ≠ (s.sched.slotframe sf).handle) :
    tschScheduleRemoveLink s sf l = (s, false) := if_neg h

theorem removeLink_removed (h : s.sched.Inv) (hsf : sf ∈ s.sched.slotframeList)
    (hl : l ∈ (s.sched.slotframe sf).linksList) :
    Removed s (tschScheduleRemoveLink s sf l).1 l ∧
    (tschScheduleRemoveLink s sf l).1.sched.slotframe sf =
      { s.sched.slotframe sf with linksList := (s.sched.slotframe sf).linksList.erase l } := by
  have hlinks : l ∈ s.sched.links := mem_links.2 ⟨sf, hsf, hl⟩
  have hperm : (l :: (s.sched.setLinks sf (listRemove (s.sched.slotframe sf).linksList l)).links).Perm
      s.sched.links := by
    rw [setLinks_links]
    exact flatMap_erase_perm hsf h.slotframes.nodup hl
  unfold tschScheduleRemoveLink
  rw [if_pos (h.home sf hsf l hl)]
  refine ⟨⟨?_, hperm, rfl, rfl, rfl, (h.links.free hlinks).1, rfl, rfl⟩, by simp [Schedule.setLinks, listRemove]⟩
  constructor
  case slotframes => exact h.slotframes
  case links =>
    refine (h.links.free hlinks).2.perm ?_
    exact (List.perm_cons l).1 (hperm.trans (List.perm_cons_erase hlinks))
  case handles =>
    have : (s.sched.slotframeList.map fun sf' =>
        ((s.sched.setLinks sf (listRemove (s.sched.slotframe sf).linksList l)).slotframe sf').handle) =
        s.sched.slotframeList.map fun sf' => (s.sched.slotframe sf').handle :=
      List.map_congr_left fun sf' _ => setLinks_handle _ _ _ _
    exact this ▸ h.handles
  case home =>
    intro sf' hsf' l' hl'
    refine Eq.trans (h.home sf' hsf' l' ?_) (setLinks_handle _ _ _ _).symm
    have hlist := congrFun (setLinks_list s.sched sf (listRemove (s.sched.slotframe sf).linksList l)) sf'
    have hl' : l' ∈ Function.update (fun sf' => (s.sched.slotframe sf').linksList) sf
        (listRemove (s.sched.slotframe sf).linksList l) sf' := hlist ▸ hl'
    by_cases hne : sf' = sf
    · subst hne
      rw [Function.update_self] at hl'
      exact List.mem_of_mem_erase hl'
    · rwa [Function.update_of_ne hne] at hl'
  case older =>
    intro l' hl'
    exact h.older l' (hperm.mem_iff.1 (List.mem_cons_of_mem _ hl'))

/-! ## Several links go -/

/-- The links `ls` are taken off one by one, and slotframes without links are freed. -/
inductive Shrinks : State A → List Nat → State A → Prop
  | refl (s : State A) : Shrinks s [] s
  | link {s s' s'' : State A} {l : Nat} {ls : List Nat} (h : Removed s s' l) (h' : Shrinks s' ls s'') :
      Shrinks s (l :: ls) s''
  | slotframe {s s' s'' : State A} {ls : List Nat} (hinv : s'.sched.Inv) (hperm : s'.sched.links.Perm s.sched.links)
      (hlink : s'.sched.link = s.sched.link) (hcounter : s'.sched.currentLinkHandle = s.sched.currentLinkHandle)
      (hqueues : s'.queues = s.queues) (hslot : s'.slot = s.slot) (h' : Shrinks s' ls s'') : Shrinks s ls s''

theorem Shrinks.trans (h : Shrinks s ls s') (h' : Shrinks s' ls' s'') : Shrinks s (ls ++ ls') s'' := by
  induction h with
  | refl => exact h'
  | link hr _ ih => exact .link hr (ih h')
  | slotframe h1 h2 h3 h4 h5 h6 _ ih => exact .slotframe h1 h2 h3 h4 h5 h6 (ih h')

theorem Shrinks.inv (h : Shrinks s ls s') (hs : s.sched.Inv) : s'.sched.Inv := by
  induction h with
  | refl => exact hs
  | link hr _ ih => exact ih hr.inv
  | slotframe h1 _ _ _ _ _ _ ih => exact ih h1

theorem Shrinks.perm (h : Shrinks s ls s') : (ls ++ s'.sched.links).Perm s.sched.links := by
  induction h with
  | refl => exact .refl _
  | link hr _ ih => exact (ih.cons _).trans hr.perm
  | slotframe _ h2 _ _ _ _ _ ih => exact ih.trans h2

theorem Shrinks.isSome (h : Shrinks s ls s') (a : A) : (s'.queues.nbr a).isSome = (s.queues.nbr a).isSome := by
  induction h with
  | refl => rfl
  | @link t _ _ l _ hr _ ih =>
    refine ih.trans ?_
    rw [hr.queues]
    split
    · by_cases ha : a = (t.sched.link l).addr
      · subst ha
        simp
      · rw [modify_other ha]
    · rfl
  | slotframe _ _ _ _ h5 _ _ ih => exact ih.trans (by rw [h5])

theorem Shrinks.link_eq (h : Shrinks s ls s') : s'.sched.link = s.sched.link := by
  induction h with
  | refl => rfl
  | link hr _ ih => exact ih.trans hr.link
  | slotframe _ _ h3 _ _ _ _ ih => exact ih.trans h3

theorem removeByOffsets_shrinks (timeslot channelOffset : UInt16) (sf : Nat) : ∀ (ls : List Nat) (s : State A),
    s.sched.Inv → sf ∈ s.sched.slotframeList → ls.Nodup → (∀ l ∈ ls, l ∈ (s.sched.slotframe sf).linksList) →
    Shrinks s (ls.filter fun l => (s.sched.link l).timeslot = timeslot ∧ (s.sched.link l).channelOffset = channelOffset)
      (removeByOffsets timeslot channelOffset sf ls s).1
  | [], s, _, _, _, _ => .refl s
  | l :: ls, s, h, hsf, hn, hls => by
    obtain ⟨hl, hn⟩ := List.nodup_cons.1 hn
    unfold removeByOffsets
    by_cases hm : (s.sched.link l).timeslot = timeslot ∧ (s.sched.link l).channelOffset = channelOffset
    · rw [if_pos hm, List.filter_cons_of_pos (by simpa using hm)]
      obtain ⟨hr, hlist⟩ := removeLink_removed h hsf (hls l (by simp))
      refine .link hr ?_
      have ih := removeByOffsets_shrinks timeslot channelOffset sf ls (tschScheduleRemoveLink s sf l).1 hr.inv
        (hr.list ▸ hsf) hn fun l' hl' => by
          rw [hlist]
          refine (List.mem_erase_of_ne ?_).2 (hls l' (by simp [hl']))
          rintro rfl
          exact hl hl'
      rw [hr.link] at ih
      exact ih
    · rw [if_neg hm, List.filter_cons_of_neg (by simpa using hm)]
      exact removeByOffsets_shrinks timeslot channelOffset sf ls s h hsf hn fun l' hl' => hls l' (by simp [hl'])

theorem removeLinks_shrinks (sf : Nat) : ∀ (fuel : Nat) (s : State A), s.sched.Inv → sf ∈ s.sched.slotframeList →
    (s.sched.slotframe sf).linksList.length ≤ fuel →
    Shrinks s (s.sched.slotframe sf).linksList (removeLinks sf fuel s) ∧
    (removeLinks sf fuel s).sched.slotframeList = s.sched.slotframeList ∧
    ((removeLinks sf fuel s).sched.slotframe sf).linksList = []
  | 0, s, _, _, hf => by
    have hnil := List.length_eq_zero_iff.1 (Nat.le_zero.1 hf)
    rw [hnil]
    exact ⟨.refl s, rfl, hnil⟩
  | fuel + 1, s, h, hsf, hf => by
    unfold removeLinks
    cases hls : (s.sched.slotframe sf).linksList with
    | nil => exact ⟨.refl s, rfl, hls⟩
    | cons l ls =>
      obtain ⟨hr, hlist⟩ := removeLink_removed h hsf (show l ∈ (s.sched.slotframe sf).linksList by simp [hls])
      have hlist' : ((tschScheduleRemoveLink s sf l).1.sched.slotframe sf).linksList = ls := by
        simp [hlist, hls]
      have hlen : ls.length ≤ fuel := by
        simpa [hls] using hf
      obtain ⟨ih, hsame, hnil⟩ := removeLinks_shrinks sf fuel (tschScheduleRemoveLink s sf l).1 hr.inv
        (hr.list ▸ hsf) (by rw [hlist']; exact hlen)
      rw [hlist'] at ih
      exact ⟨.link hr ih, hsame.trans hr.list, hnil⟩

theorem removeSlotframe_shrinks (h : s.sched.Inv) (hsf : sf ∈ s.sched.slotframeList) :
    Shrinks s (s.sched.slotframe sf).linksList (tschScheduleRemoveSlotframe s sf) ∧
    (tschScheduleRemoveSlotframe s sf).sched.slotframeList = s.sched.slotframeList.erase sf := by
  obtain ⟨hs, hsame, hnil⟩ := removeLinks_shrinks sf _ s h hsf le_rfl
  have hinv := hs.inv h
  unfold tschScheduleRemoveSlotframe
  generalize removeLinks sf (s.sched.slotframe sf).linksList.length s = t at hs hsame hnil hinv
  have hsf' : sf ∈ t.sched.slotframeList := hsame ▸ hsf
  have hlinks : ((t.sched.slotframeList.erase sf).flatMap fun sf' => (t.sched.slotframe sf').linksList).Perm
      t.sched.links := by
    have hp := ((List.perm_cons_erase hsf').flatMap_right fun sf' => (t.sched.slotframe sf').linksList).symm
    rw [List.flatMap_cons, hnil, List.nil_append] at hp
    exact hp
  have hfreed : Shrinks t [] { t with sched := { t.sched with
      slotframeMemb := t.sched.slotframeMemb.free sf
      slotframeList := listRemove t.sched.slotframeList sf } } := by
    refine .slotframe ?_ ?_ ?_ ?_ ?_ ?_ (.refl _)
    · constructor
      case slotframes => exact (hinv.slotframes.free hsf').2
      case links => exact hinv.links.perm hlinks
      case handles => exact hinv.handles.sublist ((List.erase_sublist).map _)
      case home => exact fun sf' hm => hinv.home sf' (List.mem_of_mem_erase hm)
      case older => exact fun l hl => hinv.older l (hlinks.mem_iff.1 hl)
    · exact hlinks
    · rfl
    · rfl
    · rfl
    · rfl
  refine ⟨?_, by simp [listRemove, hsame]⟩
  rw [← List.append_nil (s.sched.slotframe sf).linksList]
  exact hs.trans hfreed

theorem removeSlotframes_shrinks : ∀ (fuel : Nat) (s : State A), s.sched.Inv →
    ∃ ls, Shrinks s ls (removeSlotframes fuel s)
  | 0, s, _ => ⟨[], .refl s⟩
  | fuel + 1, s, h => by
    unfold removeSlotframes
    cases hsf : s.sched.slotframeList with
    | nil => exact ⟨[], .refl s⟩
    | cons sf sfs =>
      have hmem : sf ∈ s.sched.slotframeList := by simp [hsf]
      obtain ⟨hs, -⟩ := removeSlotframe_shrinks h hmem
      obtain ⟨ls, hls⟩ := removeSlotframes_shrinks fuel (tschScheduleRemoveSlotframe s sf) (hs.inv h)
      exact ⟨_, hs.trans hls⟩

theorem addSlotframe_shrinks (h : s.sched.Inv) (handle size : UInt16) :
    Shrinks s [] (tschScheduleAddSlotframe s handle size).1 := by
  unfold tschScheduleAddSlotframe
  split
  · exact .refl s
  · split
    · exact .refl s
    · rename_i hnone
      split
      · exact .refl s
      · rename_i sf mem ha
        obtain ⟨hnew, -, hholds⟩ := h.slotframes.alloc ha
        have hne : ∀ sf' ∈ s.sched.slotframeList, sf' ≠ sf := by
          rintro sf' hsf' rfl
          exact hnew hsf'
        have hlist : listAdd s.sched.slotframeList sf = s.sched.slotframeList ++ [sf] := listAdd_new hnew
        have hlinks : ((listAdd s.sched.slotframeList sf).flatMap fun sf' =>
            (Function.update s.sched.slotframe sf ⟨handle, size, []⟩ sf').linksList) = s.sched.links := by
          rw [hlist, List.flatMap_append]
          simp only [List.flatMap_cons, Function.update_self, List.flatMap_nil, List.append_nil]
          apply List.flatMap_congr
          intro sf' hsf'
          rw [Function.update_of_ne (hne sf' hsf')]
        refine .slotframe ?_ ?_ ?_ ?_ ?_ ?_ (.refl _)
        · constructor
          case slotframes =>
            refine hholds.perm ?_
            rw [hlist]
            exact List.perm_append_singleton _ _
          case links => exact h.links.perm (List.Perm.of_eq hlinks)
          case handles =>
            have hmap : (s.sched.slotframeList.map fun sf' =>
                (Function.update s.sched.slotframe sf ⟨handle, size, []⟩ sf').handle) =
                s.sched.slotframeList.map fun sf' => (s.sched.slotframe sf').handle :=
              List.map_congr_left fun sf' hsf' => by rw [Function.update_of_ne (hne sf' hsf')]
            show ((listAdd s.sched.slotframeList sf).map fun sf' =>
              (Function.update s.sched.slotframe sf ⟨handle, size, []⟩ sf').handle).Nodup
            rw [hlist, List.map_append, hmap, List.nodup_append]
            refine ⟨h.handles, by simp, ?_⟩
            intro x hx y hy
            obtain ⟨sf', hsf', rfl⟩ := List.mem_map.1 hx
            simp only [List.map_cons, Function.update_self, List.map_nil, List.mem_singleton] at hy
            rw [hy]
            intro he
            apply hnone
            rw [tschScheduleGetSlotframeByHandle, List.find?_isSome]
            exact ⟨sf', hsf', by simpa using he⟩
          case home =>
            intro sf' hsf' l hl
            rcases mem_listAdd.1 hsf' with rfl | hsf'
            · simp at hl
            · simp only [Function.update_of_ne (hne sf' hsf')] at hl ⊢
              exact h.home sf' hsf' l hl
          case older => exact fun l hl => h.older l ((List.Perm.of_eq hlinks).mem_iff.1 hl)
        · exact List.Perm.of_eq hlinks
        · rfl
        · rfl
        · rfl
        · rfl

/-! ## A link comes -/

/-- The link that `tsch_schedule_add_link` removes first. -/
def replaced (s : State A) (sf : Nat) (timeslot : UInt16) (doRemove : Bool) : List Nat :=
  if doRemove then (tschScheduleGetLinkByTimeslot s.sched sf timeslot).toList else []

/-- The link `new` joins the schedule at the block `l`, and the counters of its neighbor. -/
structure Added (cfg : Config A) (s s' : State A) (l : Nat) (new : Link A) (room : Bool) : Prop where
  inv : s'.sched.Inv
  perm : s'.sched.links.Perm (l :: s.sched.links)
  fresh : l ∉ s.sched.links
  link : s'.sched.link = Function.update s.sched.link l new
  handle : new.handle = s.sched.currentLinkHandle
  queues : s'.queues = if new.isTx then
    (tschQueueAddNbr cfg s.queues new.addr room).modify new.addr (Nbr.countUp new) else s.queues
  slot : s'.slot = s.slot

theorem addLink_spec (cfg : Config A) (h : s.sched.Inv) (hsf : sf ∈ s.sched.slotframeList) (linkOptions : UInt8) (linkType : LinkType)
    (address : Option A) (timeslot channelOffset : UInt16) (room : Bool) : (s.sched.linkMemb.alloc = none ∧
      (addLink cfg s sf linkOptions linkType address timeslot channelOffset room).1 = s) ∨
    (s.sched.linkMemb.alloc ≠ none ∧ ∃ l,
      Added cfg s (addLink cfg s sf linkOptions linkType address timeslot channelOffset room).1 l
        ⟨s.sched.currentLinkHandle, address.getD cfg.linkaddrNull, (s.sched.slotframe sf).handle, timeslot,
          channelOffset, linkOptions, linkType⟩ room) := by
  unfold addLink
  cases ha : s.sched.linkMemb.alloc with
  | none => exact .inl ⟨rfl, rfl⟩
  | some p =>
    obtain ⟨l, mem⟩ := p
    refine .inr ⟨by simp, l, ?_⟩
    obtain ⟨hnew, -, hholds⟩ := h.links.alloc ha
    have hoff : l ∉ (s.sched.slotframe sf).linksList := fun hl => hnew (mem_links.2 ⟨sf, hsf, hl⟩)
    have hperm : (s.sched.setLinks sf (listAdd (s.sched.slotframe sf).linksList l)).links.Perm (l :: s.sched.links) := by
      rw [setLinks_links, listAdd_new hoff]
      exact flatMap_append_perm hsf h.slotframes.nodup
    have hold : ∀ l' ∈ s.sched.links, l' ≠ l := by
      rintro l' hl' rfl
      exact hnew hl'
    refine ⟨?_, hperm, hnew, rfl, rfl, rfl, rfl⟩
    constructor
    case slotframes => exact h.slotframes
    case links => exact hholds.perm hperm
    case handles =>
      have hmap : (s.sched.slotframeList.map fun sf' =>
          ((s.sched.setLinks sf (listAdd (s.sched.slotframe sf).linksList l)).slotframe sf').handle) =
          s.sched.slotframeList.map fun sf' => (s.sched.slotframe sf').handle :=
        List.map_congr_left fun sf' _ => setLinks_handle _ _ _ _
      exact hmap ▸ h.handles
    case home =>
      intro sf' hsf' l' hl'
      refine Eq.trans ?_ (setLinks_handle _ _ _ _).symm
      have hlist := congrFun (setLinks_list s.sched sf (listAdd (s.sched.slotframe sf).linksList l)) sf'
      have hl' : l' ∈ Function.update (fun sf' => (s.sched.slotframe sf').linksList) sf
          (listAdd (s.sched.slotframe sf).linksList l) sf' := hlist ▸ hl'
      by_cases hne : sf' = sf
      · subst hne
        rw [Function.update_self] at hl'
        rcases mem_listAdd.1 hl' with rfl | hl'
        · simp
        · simp only [Function.update_of_ne (hold l' (mem_links.2 ⟨sf', hsf', hl'⟩))]
          exact h.home sf' hsf' l' hl'
      · rw [Function.update_of_ne hne] at hl'
        simp only [Function.update_of_ne (hold l' (mem_links.2 ⟨sf', hsf', hl'⟩))]
        exact h.home sf' hsf' l' hl'
    case older =>
      intro l' hl'
      rcases List.mem_cons.1 (hperm.mem_iff.1 hl') with rfl | hl'
      · simp
      · simp only [Function.update_of_ne (hold l' hl')]
        exact Nat.lt_succ_of_lt (h.older l' hl')

theorem tschScheduleAddLink_cases (cfg : Config A) (h : s.sched.Inv) (hsf : sf ∈ s.sched.slotframeList) (linkOptions : UInt8)
    (linkType : LinkType) (address : Option A) (timeslot channelOffset : UInt16) (doRemove room : Bool) :
    (((timeslot.toNat : Int) > (s.sched.slotframe sf).size.toNat - 1) ∧
      (tschScheduleAddLink cfg s sf linkOptions linkType address timeslot channelOffset doRemove room).1 = s) ∨
    (¬ ((timeslot.toNat : Int) > (s.sched.slotframe sf).size.toNat - 1) ∧
      ∃ s₁, Shrinks s (replaced s sf timeslot doRemove) s₁ ∧ sf ∈ s₁.sched.slotframeList ∧
        s₁.sched.linkMemb.num = s.sched.linkMemb.num ∧
        tschScheduleAddLink cfg s sf linkOptions linkType address timeslot channelOffset doRemove room =
          addLink cfg s₁ sf linkOptions linkType address timeslot channelOffset room) := by
  unfold tschScheduleAddLink
  by_cases hbig : (timeslot.toNat : Int) > (s.sched.slotframe sf).size.toNat - 1
  · exact .inl ⟨hbig, by rw [if_pos hbig]⟩
  · refine .inr ⟨hbig, ?_⟩
    rw [if_neg hbig]
    unfold replaced
    cases doRemove with
    | false => exact ⟨s, .refl s, hsf, rfl, rfl⟩
    | true =>
      cases hl : tschScheduleGetLinkByTimeslot s.sched sf timeslot with
      | none => exact ⟨s, .refl s, hsf, rfl, rfl⟩
      | some l =>
        have hmem : l ∈ (s.sched.slotframe sf).linksList := List.mem_of_find?_eq_some hl
        obtain ⟨hr, -⟩ := removeLink_removed h hsf hmem
        exact ⟨_, .link hr (.refl _), hr.list ▸ hsf, hr.num, rfl⟩

/-! ## Runs -/

theorem slotFinish_sched {status : MacTx} {rand : UInt16} {burst : Bool} {ending : Ending} :
    (slotFinish cfg s status rand burst ending).1.sched = s.sched := by
  unfold slotFinish
  split
  · exact (slotEnd_quiet cfg _ ending).1.sched
  · exact (slotEnd_quiet cfg _ ending).1.sched

theorem removeLink_shrinks (h : s.sched.Inv) (hsf : sf ∈ s.sched.slotframeList) (hl : l ∈ s.sched.links) :
    ∃ ls, Shrinks s ls (tschScheduleRemoveLink s sf l).1 ∧ ∀ l' ∈ ls, l' = l := by
  by_cases he : (s.sched.link l).slotframeHandle = (s.sched.slotframe sf).handle
  · obtain ⟨hr, -⟩ := removeLink_removed h hsf (h.at_home hsf hl he)
    exact ⟨[l], .link hr (.refl _), by simp⟩
  · rw [removeLink_other he]
    exact ⟨[], .refl s, by simp⟩

theorem flushRound_state {w w' : World A} (h : flushRound w a = some w') :
    ∃ q, w'.state = { w.state with queues := q } := by
  unfold flushRound at h
  split at h
  · cases h
  · cases h
    exact ⟨_, rfl⟩

omit [DecidableEq A] in
theorem pendingRound_state {w w' : World A} (h : pendingRound w = some w') : w'.state = w.state := by
  unfold pendingRound at h
  split at h
  · cases h
    rfl
  · cases h

omit [DecidableEq A] in
theorem callbackReturn_state {w w' : World A} (h : callbackReturn w = some w') :
    w'.state.sched = w.state.sched ∧ w'.state.queues.nbr = w.state.queues.nbr := by
  unfold callbackReturn at h
  split at h
  · cases h
  · cases h
    exact ⟨rfl, rfl⟩
  · cases h
    exact ⟨rfl, rfl⟩

theorem step_shrinks {w w' : World A} {action : Action A} (h : w.state.sched.Inv) (hs : step cfg w action = some w')
    (ha : match action with
      | .addSlotframe .. | .removeSlotframe .. | .removeAllSlotframes | .removeLink .. | .removeLinkByOffsets .. => True
      | _ => False) : ∃ ls, Shrinks w.state ls w'.state := by
  cases action with
  | addSlotframe handle size =>
    simp only [step, Option.ite_none_right_eq_some, Option.some.injEq] at hs
    obtain ⟨-, rfl⟩ := hs
    exact ⟨_, addSlotframe_shrinks h handle size⟩
  | removeSlotframe sf =>
    simp only [step, Option.ite_none_right_eq_some, Option.some.injEq] at hs
    obtain ⟨hc, rfl⟩ := hs
    exact ⟨_, (removeSlotframe_shrinks h hc.2).1⟩
  | removeAllSlotframes =>
    simp only [step, Option.ite_none_right_eq_some, Option.some.injEq] at hs
    obtain ⟨-, rfl⟩ := hs
    exact removeSlotframes_shrinks _ w.state h
  | removeLink sf l =>
    simp only [step, Option.ite_none_right_eq_some, Option.some.injEq] at hs
    obtain ⟨⟨hc, hl⟩, rfl⟩ := hs
    obtain ⟨ls, hls, -⟩ := removeLink_shrinks h hc.2 hl
    exact ⟨ls, hls⟩
  | removeLinkByOffsets sf timeslot channelOffset =>
    simp only [step, Option.ite_none_right_eq_some, Option.some.injEq] at hs
    obtain ⟨hc, rfl⟩ := hs
    exact ⟨_, removeByOffsets_shrinks timeslot channelOffset sf _ w.state h hc.2 (h.list_nodup hc.2) fun _ hl => hl⟩
  | _ => exact absurd ha id

theorem step_inv {w w' : World A} {action : Action A} (h : w.state.sched.Inv) (hs : step cfg w action = some w') :
    w'.state.sched.Inv := by
  have hshrinks := step_shrinks h hs
  cases action with
  | addSlotframe => exact (hshrinks trivial).elim fun _ hls => hls.inv h
  | removeSlotframe => exact (hshrinks trivial).elim fun _ hls => hls.inv h
  | removeAllSlotframes => exact (hshrinks trivial).elim fun _ hls => hls.inv h
  | removeLink => exact (hshrinks trivial).elim fun _ hls => hls.inv h
  | removeLinkByOffsets => exact (hshrinks trivial).elim fun _ hls => hls.inv h
  | addLink sf linkOptions linkType address timeslot channelOffset doRemove room =>
    simp only [step, Option.ite_none_right_eq_some, Option.some.injEq] at hs
    obtain ⟨hc, rfl⟩ := hs
    show (tschScheduleAddLink cfg w.state sf linkOptions linkType address timeslot channelOffset doRemove room).1.sched.Inv
    obtain ⟨-, he⟩ | ⟨-, s₁, hs₁, hsf, -, he⟩ :=
      tschScheduleAddLink_cases cfg h hc.2 linkOptions linkType address timeslot channelOffset doRemove room
    · rw [he]
      exact h
    · rw [he]
      obtain ⟨-, hsame⟩ | ⟨-, l, hadd⟩ :=
        addLink_spec cfg (hs₁.inv h) hsf linkOptions linkType address timeslot channelOffset room
      · rw [hsame]
        exact hs₁.inv h
      · exact hadd.inv
  | addPacket =>
    simp only [step, Option.ite_none_right_eq_some, Option.some.injEq] at hs
    obtain ⟨-, rfl⟩ := hs
    exact h
  | flush addr =>
    obtain ⟨q, he⟩ := flushRound_state (show flushRound w addr = some w' from hs)
    rw [he]
    exact h
  | flushReturn =>
    simp only [step] at hs
    split at hs
    · rw [(callbackReturn_state hs).1]
      exact h
    · cases hs
  | resetBackoff =>
    cases hs
    exact h
  | pending =>
    rw [pendingRound_state (show pendingRound w = some w' from hs)]
    exact h
  | pendingReturn =>
    simp only [step] at hs
    split at hs
    · rw [(callbackReturn_state hs).1]
      exact h
    · cases hs
  | freeUnused =>
    simp only [step, Option.ite_none_right_eq_some, Option.some.injEq] at hs
    obtain ⟨-, rfl⟩ := hs
    exact h
  | timeSource =>
    simp only [step, Option.ite_none_right_eq_some, Option.some.injEq] at hs
    obtain ⟨-, rfl⟩ := hs
    exact h
  | join asn misses =>
    simp only [step, Option.ite_none_right_eq_some, Option.some.injEq] at hs
    obtain ⟨-, rfl⟩ := hs
    show (slotOperationStart w.state asn misses).sched.Inv
    rw [(slotOperationStart_ended misses w.state asn).sched]
    exact h
  | slotStart lockRequested order ending =>
    simp only [step, Option.ite_none_right_eq_some, Option.some.injEq] at hs
    obtain ⟨-, rfl⟩ := hs
    show (slotStart cfg w.state lockRequested order ending).1.sched.Inv
    rw [(slotStart_spec cfg w.state lockRequested order ending).1.sched]
    exact h
  | slotFinish status rand burst ending =>
    simp only [step, Option.ite_none_right_eq_some, Option.some.injEq] at hs
    obtain ⟨-, rfl⟩ := hs
    show (slotFinish cfg w.state status rand burst ending).1.sched.Inv
    rw [slotFinish_sched]
    exact h

theorem init_inv (cfg : Config A) (ebRoom broadcastRoom : Bool) :
    (World.init cfg ebRoom broadcastRoom).state.sched.Inv := by
  constructor
  case slotframes => exact Memb.init_holds _
  case links => exact Memb.init_holds _
  all_goals simp [World.init, Schedule.links]

end

end Contiki.Tsch

/-
The counters of TX links: a neighbor has as many as its counters say exactly as long as it is never created while there
is a TX link to its address, and no link comes when the 8 bits of the counter are used up.
-/
import Contiki.Tsch.Links

namespace Contiki.Tsch

open Contiki.Core Contiki.Lib

variable {A : Type} [DecidableEq A] {cfg : Config A} {s s' : State A} {q q' : Queues A} {a addr : A} {l sf : Nat}
  {ls : List Nat} {room : Bool}

/-! ## What is claimed -/

def txLinksIn (s : Schedule A) (links : List Nat) (addr : A) : Nat :=
  links.countP fun l => (s.link l).isTx ∧ (s.link l).addr = addr

def dedicatedIn (s : Schedule A) (links : List Nat) (addr : A) : Nat :=
  links.countP fun l => (s.link l).isTx ∧ ¬ (s.link l).isShared ∧ (s.link l).addr = addr

def Balanced (s : State A) : Prop :=
  ∀ a n, s.queues.nbr a = some n →
    n.txLinksCount.toNat = txLinksIn s.sched s.sched.links a ∧
    n.dedicatedTxLinksCount.toNat = dedicatedIn s.sched s.sched.links a

/-- `tsch_schedule_add_link` adds a link: the timeslot is in the slotframe, and there is a block for it. -/
def Adds (s : State A) (sf : Nat) (timeslot : UInt16) (doRemove : Bool) : Prop :=
  ¬ ((timeslot.toNat : Int) > (s.sched.slotframe sf).size.toNat - 1) ∧
    (replaced s sf timeslot doRemove ≠ [] ∨ s.sched.linkMemb.alloc ≠ none)

/-- A neighbor with `links` TX links can count one more, and one that is created has none. -/
def CanCount (q : Queues A) (addr : A) (room : Bool) (links : Nat) : Prop :=
  ((q.nbr addr).isSome → links < 255) ∧ (q.nbr addr = none → room = true → links = 0)

/-- The condition on a step: no neighbor is created while there is a TX link to its address, and a neighbor that gets a
TX link has less than 255 of them. -/
@[grind =]
def Countable (cfg : Config A) (w : World A) : Action A → Prop
  | .addLink sf linkOptions _ address timeslot _ doRemove room =>
    Callable w.state sf → Adds w.state sf timeslot doRemove → linkOptions &&& LINK_OPTION_TX ≠ 0 →
      CanCount w.state.queues (address.getD cfg.linkaddrNull) room
        (txLinksIn w.state.sched (w.state.sched.links.filter fun l => l ∉ replaced w.state sf timeslot doRemove)
          (address.getD cfg.linkaddrNull))
  | .addPacket addr _ room _ =>
    w.state.slot.phase = .idle → w.state.queues.nbr addr = none → room = true →
      txLinksIn w.state.sched w.state.sched.links addr = 0
  | .timeSource _ (some addr) room =>
    w.state.slot.phase = .idle → w.state.queues.nbr addr = none → room = true →
      txLinksIn w.state.sched w.state.sched.links addr = 0
  | _ => True

/-! ## Counting links -/

omit [DecidableEq A] in
theorem dedicatedIn_le [DecidableEq A] (s : Schedule A) (ls : List Nat) (addr : A) :
    dedicatedIn s ls addr ≤ txLinksIn s ls addr :=
  List.countP_mono_left fun l _ h => by
    simp only [decide_eq_true_eq] at h ⊢
    exact ⟨h.1, h.2.2⟩

theorem txLinksIn_cons (s : Schedule A) (l : Nat) (ls : List Nat) (addr : A) : txLinksIn s (l :: ls) addr =
      txLinksIn s ls addr + if (s.link l).isTx ∧ (s.link l).addr = addr then 1 else 0 := by
  simp [txLinksIn, List.countP_cons]

theorem txLinksIn_append (s : Schedule A) (ls ls' : List Nat) (addr : A) :
    txLinksIn s (ls ++ ls') addr = txLinksIn s ls addr + txLinksIn s ls' addr := List.countP_append

theorem dedicatedIn_cons (s : Schedule A) (l : Nat) (ls : List Nat) (addr : A) : dedicatedIn s (l :: ls) addr =
      dedicatedIn s ls addr + if (s.link l).isTx ∧ ¬ (s.link l).isShared ∧ (s.link l).addr = addr then 1 else 0 := by
  simp [dedicatedIn, List.countP_cons]

theorem txLinksIn_perm (s : Schedule A) {ls ls' : List Nat} (h : ls.Perm ls') (addr : A) :
    txLinksIn s ls addr = txLinksIn s ls' addr := h.countP_eq _

theorem dedicatedIn_perm (s : Schedule A) {ls ls' : List Nat} (h : ls.Perm ls') (addr : A) :
    dedicatedIn s ls addr = dedicatedIn s ls' addr := h.countP_eq _

theorem txLinksIn_congr {s s' : Schedule A} (h : ∀ l ∈ ls, s'.link l = s.link l) (addr : A) :
    txLinksIn s' ls addr = txLinksIn s ls addr :=
  List.countP_congr fun l hl => by rw [h l hl]

theorem dedicatedIn_congr {s s' : Schedule A} (h : ∀ l ∈ ls, s'.link l = s.link l) (addr : A) :
    dedicatedIn s' ls addr = dedicatedIn s ls addr :=
  List.countP_congr fun l hl => by rw [h l hl]

/-! ## Counters of neighbors -/

def Queues.counts (q : Queues A) (a : A) : Option (UInt8 × UInt8) :=
  (q.nbr a).map fun n => (n.txLinksCount, n.dedicatedTxLinksCount)

omit [DecidableEq A] in
theorem counts_some {n : Nbr} (h : q.nbr a = some n) : q.counts a = some (n.txLinksCount, n.dedicatedTxLinksCount) := by
  simp [Queues.counts, h]

theorem balanced_congr (hc : ∀ a, s'.queues.counts a = s.queues.counts a) (hs : s'.sched = s.sched) :
    Balanced s' ↔ Balanced s := by
  have hmono : ∀ {s s' : State A}, (∀ a, s'.queues.counts a = s.queues.counts a) → s'.sched = s.sched →
      Balanced s → Balanced s' := by
    intro s s' hc hs h a n hn
    have hca := hc a
    rw [counts_some hn] at hca
    cases hn' : s.queues.nbr a with
    | none => simp [Queues.counts, hn'] at hca
    | some n' =>
      rw [counts_some hn'] at hca
      simp only [Option.some.injEq, Prod.mk.injEq] at hca
      obtain ⟨h1, h2⟩ := h a n' hn'
      rw [hs, hca.1, hca.2]
      exact ⟨h1, h2⟩
  exact ⟨hmono (fun a => (hc a).symm) hs.symm, hmono hc hs⟩

theorem counts_modify (f : Nbr → Nbr)
    (hf : ∀ n, (f n).txLinksCount = n.txLinksCount ∧ (f n).dedicatedTxLinksCount = n.dedicatedTxLinksCount) (a : A) :
    (q.modify addr f).counts a = q.counts a := by
  unfold Queues.counts
  by_cases ha : a = addr
  · subst ha
    rw [modify_self, Option.map_map]
    congr 1
    funext n
    simp [(hf n).1, (hf n).2]
  · rw [modify_other ha]

omit [DecidableEq A] in
theorem BackoffOnly.counts (h : BackoffOnly q q') (a : A) : q'.counts a = q.counts a := by
  have hcore : ∀ q : Queues A, q.counts a =
      ((q.nbr a).map Nbr.core).map fun n => (n.txLinksCount, n.dedicatedTxLinksCount) := by
    intro q
    rw [Queues.counts, Option.map_map]
    rfl
  rw [hcore q', hcore q, h.nbr a]

theorem counts_removePacket (q : Queues A) (addr a : A) : (tschQueueRemovePacketFromQueue q addr).1.counts a = q.counts a := by
  unfold tschQueueRemovePacketFromQueue
  cases hn : q.nbr addr with
  | none => rfl
  | some n =>
    by_cases ha : a = addr
    · subst ha
      simp [Queues.counts, hn]
    · simp [Queues.counts, ha]

theorem counts_packetSent {p : PacketPtr} {shared : Bool} {status : MacTx} {rand : UInt16} (a : A) :
    (tschQueuePacketSent cfg q addr p shared status rand).1.counts a = q.counts a := by
  have hremove := counts_removePacket q addr a
  have hreset : ∀ q : Queues A, (q.modify addr (Nbr.backoffReset cfg)).counts a = q.counts a :=
    fun q => counts_modify (Nbr.backoffReset cfg) (fun n => ⟨rfl, rfl⟩) a
  have hinc : ∀ q : Queues A, (q.modify addr (Nbr.backoffInc cfg rand)).counts a = q.counts a :=
    fun q => counts_modify (Nbr.backoffInc cfg rand) (fun n => ⟨rfl, rfl⟩) a
  unfold tschQueuePacketSent
  dsimp only
  split
  · split
    · exact (hreset _).trans hremove
    · exact hremove
  · split
    · rw [hinc]
      split
      · exact hremove
      · rfl
    · split
      · exact hremove
      · rfl

theorem counts_addNbr (cfg : Config A) (q : Queues A) (addr : A) (room : Bool) (a : A) :
    (tschQueueAddNbr cfg q addr room).counts a =
      if q.nbr addr = none ∧ room = true ∧ a = addr then some (0, 0) else q.counts a := by
  unfold tschQueueAddNbr
  cases hn : q.nbr addr with
  | some n => simp
  | none =>
    cases room with
    | false => simp
    | true =>
      by_cases ha : a = addr
      · subst ha
        simp [Queues.counts, newNbr]
      · simp [Queues.counts, ha]

theorem counts_addPacket {maxTransmissions : UInt8} {qb : Bool} (a : A) :
    (tschQueueAddPacket cfg q addr maxTransmissions room qb).1.counts a = (tschQueueAddNbr cfg q addr room).counts a := by
  unfold tschQueueAddPacket
  dsimp only
  generalize tschQueueAddNbr cfg q addr room = q
  cases hn : q.nbr addr with
  | none => rfl
  | some n =>
    dsimp only
    cases n.txRingbuf.peekPut with
    | none => rfl
    | some i =>
      dsimp only
      cases q.packetMemb.alloc with
      | none => rfl
      | some p =>
        dsimp only
        cases qb with
        | false => rfl
        | true =>
          by_cases ha : a = addr
          · subst ha
            simp [Queues.counts, hn]
          · simp [Queues.counts, ha]

theorem counts_updateTimeSource (cfg : Config A) (q : Queues A) (room : Bool) (old newAddr : Option A) (a : A) :
    (tschQueueUpdateTimeSource cfg q old newAddr room).counts a =
      match newAddr with
      | none => q.counts a
      | some addr => (tschQueueAddNbr cfg q addr room).counts a := by
  have hflag : ∀ (q : Queues A) (addr : A) (flag : Bool),
      (q.modify addr fun n => { n with isTimeSource := flag }).counts a = q.counts a :=
    fun q addr flag => counts_modify (fun n => { n with isTimeSource := flag }) (fun n => ⟨rfl, rfl⟩) a
  unfold tschQueueUpdateTimeSource
  cases newAddr with
  | none =>
    dsimp only
    split
    · rfl
    · split
      · rfl
      · cases old with
        | none => rfl
        | some b => exact hflag _ b false
  | some addr =>
    dsimp only
    split
    · rfl
    · split
      · rfl
      · cases old with
        | none => exact hflag _ addr true
        | some b => exact (hflag _ b false).trans (hflag _ addr true)

/-! ## Links that go -/

omit [DecidableEq A] in
theorem toNat_pred {x : UInt8} (h : 1 ≤ x.toNat) : (x - 1).toNat + 1 = x.toNat := by
  have hx := x.toNat_lt
  rw [UInt8.toNat_sub]
  simp only [UInt8.toNat_one]
  omega

omit [DecidableEq A] in
theorem toNat_succ {x : UInt8} {m : Nat} (h : x.toNat = m) : (x + 1).toNat = m + 1 ↔ m < 255 := by
  have hx := x.toNat_lt
  rw [UInt8.toNat_add]
  simp only [UInt8.toNat_one]
  omega

theorem Removed.balanced (h : Removed s s' l) (hb : Balanced s) : Balanced s' := by
  intro a n' hn'
  have htx := txLinksIn_perm s.sched h.perm a
  have hded := dedicatedIn_perm s.sched h.perm a
  rw [txLinksIn_cons] at htx
  rw [dedicatedIn_cons] at hded
  rw [txLinksIn_congr (fun l _ => congrFun h.link l), dedicatedIn_congr (fun l _ => congrFun h.link l)]
  rw [h.queues] at hn'
  by_cases hcount : (s.sched.link l).isTx = true ∧ (s.sched.link l).addr = a
  · obtain ⟨ht, rfl⟩ := hcount
    rw [if_pos ht, modify_self, Option.map_eq_some_iff] at hn'
    obtain ⟨n, hn, rfl⟩ := hn'
    obtain ⟨h1, h2⟩ := hb _ n hn
    rw [if_pos ⟨ht, rfl⟩] at htx
    have htx' := toNat_pred (x := n.txLinksCount) (by omega)
    refine ⟨by simp only [Nbr.countDown]; omega, ?_⟩
    simp only [Nbr.countDown]
    by_cases hs : (s.sched.link l).isShared = true
    · rw [if_pos hs]
      rw [if_neg (by simp [hs])] at hded
      omega
    · rw [if_neg hs]
      rw [if_pos ⟨ht, hs, rfl⟩] at hded
      have hded' := toNat_pred (x := n.dedicatedTxLinksCount) (by omega)
      omega
  · have hn : s.queues.nbr a = some n' := by
      split at hn'
      · rename_i ht
        rwa [modify_other fun ha => hcount ⟨ht, ha.symm⟩] at hn'
      · exact hn'
    obtain ⟨h1, h2⟩ := hb a n' hn
    rw [if_neg hcount] at htx
    rw [if_neg fun hc => hcount ⟨hc.1, hc.2.2⟩] at hded
    omega

theorem Shrinks.balanced (h : Shrinks s ls s') (hb : Balanced s) : Balanced s' := by
  induction h with
  | refl => exact hb
  | link hr _ ih => exact ih (hr.balanced hb)
  | slotframe _ hperm hlink _ hqueues _ _ ih =>
    apply ih
    intro a n hn
    rw [hqueues] at hn
    rw [txLinksIn_congr (fun l _ => congrFun hlink l), dedicatedIn_congr (fun l _ => congrFun hlink l),
      txLinksIn_perm _ hperm, dedicatedIn_perm _ hperm]
    exact hb a n hn

/-! ## Neighbors and links that come -/

theorem balanced_addNbr (cfg : Config A) (addr : A) (room : Bool) (hb : Balanced s) (q' : Queues A)
    (hc : ∀ a, q'.counts a = (tschQueueAddNbr cfg s.queues addr room).counts a) :
    Balanced { s with queues := q' } ↔ (s.queues.nbr addr = none → room = true → txLinksIn s.sched s.sched.links addr = 0) := by
  have hle := dedicatedIn_le s.sched s.sched.links addr
  by_cases hnew : s.queues.nbr addr = none ∧ room = true
  · have hnone : s.queues.counts addr = none := by
      simp [Queues.counts, hnew.1]
    have hcount : ∀ a, q'.counts a = if a = addr then some (0, 0) else s.queues.counts a := by
      intro a
      rw [hc, counts_addNbr]
      simp [hnew.1, hnew.2]
    constructor
    · intro h _ _
      have haddr := hcount addr
      rw [if_pos rfl, Queues.counts, Option.map_eq_some_iff] at haddr
      obtain ⟨n, hn, he⟩ := haddr
      have h1 := (h addr n hn).1
      simp only [Prod.mk.injEq] at he
      rw [he.1] at h1
      exact h1.symm
    · intro h a n hn
      have hz := h hnew.1 hnew.2
      have ha := hcount a
      rw [counts_some hn] at ha
      by_cases haa : a = addr
      · subst haa
        simp only [if_true, Option.some.injEq, Prod.mk.injEq] at ha
        rw [ha.1, ha.2, hz]
        exact ⟨rfl, by simp; omega⟩
      · rw [if_neg haa, Queues.counts, eq_comm, Option.map_eq_some_iff] at ha
        obtain ⟨n', hn', he⟩ := ha
        simp only [Prod.mk.injEq] at he
        rw [← he.1, ← he.2]
        exact hb a n' hn'
  · have hsame : Balanced { s with queues := q' } ↔ Balanced s := balanced_congr (fun a => by
      rw [hc, counts_addNbr, if_neg fun h => hnew ⟨h.1, h.2.1⟩]) rfl
    refine ⟨fun _ h1 h2 => absurd ⟨h1, h2⟩ hnew, fun _ => hsame.2 hb⟩

theorem Added.balanced {new : Link A} (h : Added cfg s s' l new room) (hb : Balanced s) :
    Balanced s' ↔ (new.isTx = true → CanCount s.queues new.addr room (txLinksIn s.sched s.sched.links new.addr)) := by
  have hlink : s'.sched.link l = new := by
    rw [h.link, Function.update_self]
  have hold : ∀ l' ∈ s.sched.links, s'.sched.link l' = s.sched.link l' := by
    intro l' hl'
    rw [h.link, Function.update_of_ne]
    rintro rfl
    exact h.fresh hl'
  have htx : ∀ a, txLinksIn s'.sched s'.sched.links a =
      txLinksIn s.sched s.sched.links a + if new.isTx ∧ new.addr = a then 1 else 0 := by
    intro a
    rw [txLinksIn_perm _ h.perm, txLinksIn_cons, hlink, txLinksIn_congr hold]
  have hded : ∀ a, dedicatedIn s'.sched s'.sched.links a =
      dedicatedIn s.sched s.sched.links a + if new.isTx ∧ ¬ new.isShared ∧ new.addr = a then 1 else 0 := by
    intro a
    rw [dedicatedIn_perm _ h.perm, dedicatedIn_cons, hlink, dedicatedIn_congr hold]
  by_cases ht : new.isTx = true
  · have hq : s'.queues = (tschQueueAddNbr cfg s.queues new.addr room).modify new.addr (Nbr.countUp new) := by
      rw [h.queues, if_pos ht]
    -- the other neighbors are as they were
    have hother : ∀ a, a ≠ new.addr → ∀ n, s'.queues.nbr a = some n →
        n.txLinksCount.toNat = txLinksIn s'.sched s'.sched.links a ∧
        n.dedicatedTxLinksCount.toNat = dedicatedIn s'.sched s'.sched.links a := by
      intro a ha n hn
      rw [hq, modify_other ha] at hn
      have hc := counts_addNbr cfg s.queues new.addr room a
      rw [counts_some hn, if_neg fun hc => ha hc.2.2, Queues.counts, eq_comm, Option.map_eq_some_iff] at hc
      obtain ⟨n', hn', he⟩ := hc
      simp only [Prod.mk.injEq] at he
      rw [htx, hded, if_neg fun hc => ha hc.2.symm, if_neg fun hc => ha hc.2.2.symm, ← he.1, ← he.2]
      exact hb a n' hn'
    have hself : ∀ n, (tschQueueAddNbr cfg s.queues new.addr room).nbr new.addr = some n →
        ((n.countUp new).txLinksCount.toNat = txLinksIn s'.sched s'.sched.links new.addr ∧
          (n.countUp new).dedicatedTxLinksCount.toNat = dedicatedIn s'.sched s'.sched.links new.addr ↔
        (n.txLinksCount + 1).toNat = txLinksIn s.sched s.sched.links new.addr + 1 ∧
          (if new.isShared then n.dedicatedTxLinksCount else n.dedicatedTxLinksCount + 1).toNat =
            dedicatedIn s.sched s.sched.links new.addr + if new.isShared then 0 else 1) := by
      intro n _
      rw [htx, hded, if_pos ⟨ht, rfl⟩]
      cases hs : new.isShared <;> simp [Nbr.countUp, ht, hs]
    have hle := dedicatedIn_le s.sched s.sched.links new.addr
    have hall : Balanced s' ↔ ∀ n, (tschQueueAddNbr cfg s.queues new.addr room).nbr new.addr = some n →
        (n.txLinksCount + 1).toNat = txLinksIn s.sched s.sched.links new.addr + 1 ∧
          (if new.isShared then n.dedicatedTxLinksCount else n.dedicatedTxLinksCount + 1).toNat =
            dedicatedIn s.sched s.sched.links new.addr + if new.isShared then 0 else 1 := by
      constructor
      · intro hb' n hn
        refine (hself n hn).1 (hb' new.addr _ ?_)
        rw [hq, modify_self, hn]
        rfl
      · intro hn a n' hn'
        by_cases ha : a = new.addr
        · subst ha
          rw [hq, modify_self, Option.map_eq_some_iff] at hn'
          obtain ⟨n, hn₁, rfl⟩ := hn'
          exact (hself n hn₁).2 (hn n hn₁)
        · exact hother a ha n' hn'
    rw [hall]
    simp only [ht, true_implies, CanCount]
    cases hn : s.queues.nbr new.addr with
    | some n =>
      have hadd : (tschQueueAddNbr cfg s.queues new.addr room).nbr new.addr = some n := by
        simp [tschQueueAddNbr, hn]
      obtain ⟨h1, h2⟩ := hb _ n hn
      simp only [hadd, Option.some.injEq, forall_eq', Option.isSome_some, true_implies, reduceCtorEq, false_implies,
        and_true]
      rw [toNat_succ h1]
      constructor
      · exact fun hc => hc.1
      · intro hlt
        refine ⟨hlt, ?_⟩
        cases new.isShared with
        | true => simpa using h2
        | false => simpa using (toNat_succ h2).2 (by omega)
    | none =>
      cases room with
      | false => simp [tschQueueAddNbr, hn]
      | true =>
        have hadd : (tschQueueAddNbr cfg s.queues new.addr true).nbr new.addr = some (newNbr cfg new.addr) := by
          simp [tschQueueAddNbr, hn]
        simp only [hadd, Option.some.injEq, forall_eq', Option.isSome_none, Bool.false_eq_true, false_implies,
          true_implies, true_and, newNbr]
        constructor
        · intro hc
          have h1 := hc.1
          simp at h1
          omega
        · intro hz
          refine ⟨by rw [hz]; rfl, ?_⟩
          have hd : dedicatedIn s.sched s.sched.links new.addr = 0 := by omega
          rw [hd]
          cases new.isShared <;> rfl
  · have hq : s'.queues = s.queues := by
      rw [h.queues, if_neg ht]
    constructor
    · exact fun _ h' => absurd h' ht
    · intro _ a n hn
      rw [htx, hded, if_neg fun hc => ht hc.1, if_neg fun hc => ht hc.1]
      rw [hq] at hn
      exact hb a n hn

/-! ## Runs -/

theorem txDone_counts {i : Nat} {p : PacketPtr} {link : LinkPtr} {status : MacTx} {rand : UInt16} {burst : Bool} (a : A) :
    (txDone cfg s i p addr link status rand burst).queues.counts a = s.queues.counts a := by
  unfold txDone
  exact counts_packetSent a

theorem slotFinish_counts {status : MacTx} {rand : UInt16} {burst : Bool} {ending : Ending} (a : A) :
    (slotFinish cfg s status rand burst ending).1.queues.counts a = s.queues.counts a := by
  unfold slotFinish
  split
  · exact ((slotEnd_quiet cfg _ ending).1.queues.counts a).trans (txDone_counts a)
  · exact (slotEnd_quiet cfg _ ending).1.queues.counts a

theorem Shrinks.alloc_iff (hs : Shrinks s ls s') (h : s.sched.Inv)
    (hnum : s'.sched.linkMemb.num = s.sched.linkMemb.num) :
    s'.sched.linkMemb.alloc ≠ none ↔ ls ≠ [] ∨ s.sched.linkMemb.alloc ≠ none := by
  have hsum := hs.perm.length_eq
  rw [List.length_append] at hsum
  rw [ne_eq, (hs.inv h).links.alloc_none_iff, ne_eq, ne_eq, h.links.alloc_none_iff, hnum]
  have hle := h.links.length_le
  rw [← List.length_eq_zero_iff]
  omega

theorem Shrinks.filter_perm (hs : Shrinks s ls s') (h : s.sched.Inv) :
    s'.sched.links.Perm (s.sched.links.filter fun l => l ∉ ls) := by
  have hn := hs.perm.nodup_iff.2 h.links.nodup
  have hp := hs.perm.symm.filter fun l => decide (l ∉ ls)
  rw [List.filter_append] at hp
  have h1 : ls.filter (fun l => decide (l ∉ ls)) = [] := by simp
  have h2 : s'.sched.links.filter (fun l => decide (l ∉ ls)) = s'.sched.links := by
    rw [List.filter_eq_self]
    intro l hl
    have := (List.nodup_append.1 hn).2.2
    simp only [decide_eq_true_eq]
    exact fun hr => this l hr l hl rfl
  rw [h1, h2, List.nil_append] at hp
  exact hp.symm

theorem addLink_balanced {w : World A} (w' : World A) {linkOptions : UInt8} {linkType : LinkType} {address : Option A}
    {timeslot channelOffset : UInt16} {doRemove room : Bool} (h : w.state.sched.Inv) (hb : Balanced w.state)
    (hc : Callable w.state sf) (hw : w'.state =
      (tschScheduleAddLink cfg w.state sf linkOptions linkType address timeslot channelOffset doRemove room).1) :
    Balanced w'.state ↔
      Countable cfg w (.addLink sf linkOptions linkType address timeslot channelOffset doRemove room) := by
  simp only [Countable]
  rw [hw]
  obtain ⟨hbig, he⟩ | ⟨hfits, s₁, hs₁, hsf, hnum, he⟩ :=
    tschScheduleAddLink_cases cfg h hc.2 linkOptions linkType address timeslot channelOffset doRemove room
  · rw [he]
    exact ⟨fun _ _ ha => absurd hbig ha.1, fun _ => hb⟩
  · have hb₁ := hs₁.balanced hb
    have hinv₁ := hs₁.inv h
    have hpool := hs₁.alloc_iff h hnum
    have hlinks := hs₁.filter_perm h
    have hcan : ∀ a, CanCount s₁.queues a room (txLinksIn s₁.sched s₁.sched.links a) ↔
        CanCount w.state.queues a room (txLinksIn w.state.sched
          (w.state.sched.links.filter fun l => l ∉ replaced w.state sf timeslot doRemove) a) := by
      intro a
      rw [txLinksIn_perm _ hlinks, txLinksIn_congr fun l _ => congrFun hs₁.link_eq l]
      have hsome := hs₁.isSome a
      unfold CanCount
      rw [hsome, ← Option.isNone_iff_eq_none, ← Option.isNone_iff_eq_none, ← Option.not_isSome, ← Option.not_isSome, hsome]
    rw [he]
    obtain ⟨hnone, hs⟩ | ⟨hsome, l, hadd⟩ :=
      addLink_spec cfg hinv₁ hsf linkOptions linkType address timeslot channelOffset room
    · rw [hs]
      exact ⟨fun _ _ ha => absurd hnone (hpool.2 ha.2), fun _ => hb₁⟩
    · rw [hadd.balanced hb₁, hcan]
      constructor
      · intro hcc _ _ ht
        exact hcc (by simpa [Link.isTx] using ht)
      · intro hcc ht
        exact hcc hc ⟨hfits, hpool.1 hsome⟩ (by simpa [Link.isTx] using ht)

theorem balanced_of_counts (hb : Balanced s) (hs : s'.sched = s.sched)
    (hc : ∀ a, s'.queues.counts a = s.queues.counts a) : Balanced s' :=
  (balanced_congr hc hs).2 hb

theorem freeUnused_balanced (hb : Balanced s) :
    Balanced { s with queues := tschQueueFreeUnusedNeighbors s.queues } := by
  intro a n hn
  have hn' : (s.queues.nbr a).filter (fun n => !n.unused) = some n := hn
  exact hb a n (Option.filter_eq_some_iff.1 hn').1

/-- A step keeps the counters right exactly when it meets the condition. -/
theorem step_balanced {w : World A} (action : Action A) (h : w.state.sched.Inv) (hb : Balanced w.state) :
    Countable cfg w action ↔ ∀ w', step cfg w action = some w' → Balanced w'.state := by
  have hkeep : (∀ w', step cfg w action = some w' → Balanced w'.state) → Countable cfg w action →
      (Countable cfg w action ↔ ∀ w', step cfg w action = some w' → Balanced w'.state) :=
    fun h1 h2 => ⟨fun _ => h1, fun _ => h2⟩
  cases action with
  | addSlotframe =>
    refine hkeep (fun w' hs => ?_) trivial
    exact (step_shrinks h hs trivial).elim fun _ hls => hls.balanced hb
  | removeSlotframe =>
    refine hkeep (fun w' hs => ?_) trivial
    exact (step_shrinks h hs trivial).elim fun _ hls => hls.balanced hb
  | removeAllSlotframes =>
    refine hkeep (fun w' hs => ?_) trivial
    exact (step_shrinks h hs trivial).elim fun _ hls => hls.balanced hb
  | removeLink =>
    refine hkeep (fun w' hs => ?_) trivial
    exact (step_shrinks h hs trivial).elim fun _ hls => hls.balanced hb
  | removeLinkByOffsets =>
    refine hkeep (fun w' hs => ?_) trivial
    exact (step_shrinks h hs trivial).elim fun _ hls => hls.balanced hb
  | addLink sf linkOptions linkType address timeslot channelOffset doRemove room =>
    by_cases hc : Callable w.state sf
    · rw [← addLink_balanced (w.to (tschScheduleAddLink cfg w.state sf linkOptions linkType address timeslot
        channelOffset doRemove room).1) h hb hc rfl]
      simp only [step, if_pos hc, Option.some.injEq]
      exact ⟨fun hbal w' hw => hw ▸ hbal, fun hall => hall _ rfl⟩
    · refine hkeep (fun w' hs => ?_) fun hc' => absurd hc' hc
      simp [step, hc] at hs
  | addPacket addr maxTransmissions room qb =>
    by_cases hc : (w.state.queues.nbr addr).isSome = true ∨ w.state.slot.phase = .idle
    · simp only [step, if_pos hc, Option.some.injEq, forall_eq', Countable]
      refine Iff.trans ?_ (balanced_addNbr cfg addr room hb _ fun a => counts_addPacket a).symm
      constructor
      · intro hcount hnone
        refine hcount ?_ hnone
        rcases hc with hsome | hidle
        · simp [hnone] at hsome
        · exact hidle
      · exact fun hcount _ => hcount
    · refine hkeep (fun w' hs => ?_) fun hidle => absurd (.inr hidle) hc
      simp [step, hc] at hs
  | timeSource old newAddr room =>
    by_cases hc : w.state.slot.phase = .idle
    · simp only [step, if_pos hc, Option.some.injEq, forall_eq']
      cases newAddr with
      | none =>
        refine ⟨fun _ => ?_, fun _ => trivial⟩
        exact balanced_of_counts hb rfl fun a => counts_updateTimeSource cfg w.state.queues room old none a
      | some addr =>
        simp only [Countable]
        refine Iff.trans ?_ (balanced_addNbr cfg addr room hb _ fun a => counts_updateTimeSource cfg w.state.queues room old (some addr) a).symm
        exact ⟨fun hcount => hcount hc, fun hcount _ => hcount⟩
    · refine hkeep (fun w' hs => ?_) ?_
      · simp [step, hc] at hs
      · cases newAddr with
        | none => trivial
        | some addr => exact fun hidle => absurd hidle hc
  | flush addr =>
    refine hkeep (fun w' hs => ?_) trivial
    have hr := counts_removePacket w.state.queues addr
    simp only [step, flushRound] at hs
    split at hs
    · cases hs
    · rename_i q p hq
      cases hs
      rw [hq] at hr
      exact balanced_of_counts hb rfl hr
  | flushReturn =>
    refine hkeep (fun w' hs => ?_) trivial
    simp only [step] at hs
    split at hs
    · obtain ⟨h1, h2⟩ := callbackReturn_state hs
      exact balanced_of_counts hb h1 fun a => by simp [Queues.counts, h2]
    · cases hs
  | resetBackoff addr =>
    refine hkeep (fun w' hs => ?_) trivial
    cases hs
    exact balanced_of_counts hb rfl (counts_modify (Nbr.backoffReset cfg) fun n => ⟨rfl, rfl⟩)
  | pending =>
    refine hkeep (fun w' hs => ?_) trivial
    rw [pendingRound_state (show pendingRound w = some w' from hs)]
    exact hb
  | pendingReturn =>
    refine hkeep (fun w' hs => ?_) trivial
    simp only [step] at hs
    split at hs
    · obtain ⟨h1, h2⟩ := callbackReturn_state hs
      exact balanced_of_counts hb h1 fun a => by simp [Queues.counts, h2]
    · cases hs
  | freeUnused =>
    refine hkeep (fun w' hs => ?_) trivial
    simp only [step, Option.ite_none_right_eq_some, Option.some.injEq] at hs
    obtain ⟨-, rfl⟩ := hs
    exact freeUnused_balanced hb
  | join asn misses =>
    refine hkeep (fun w' hs => ?_) trivial
    simp only [step, Option.ite_none_right_eq_some, Option.some.injEq] at hs
    obtain ⟨-, rfl⟩ := hs
    have he := slotOperationStart_ended misses w.state asn
    exact balanced_of_counts hb he.sched fun a => he.queues.counts a
  | slotStart lockRequested order ending =>
    refine hkeep (fun w' hs => ?_) trivial
    simp only [step, Option.ite_none_right_eq_some, Option.some.injEq] at hs
    obtain ⟨-, rfl⟩ := hs
    have he := (slotStart_spec cfg w.state lockRequested order ending).1
    exact balanced_of_counts hb he.sched fun a => he.queues.counts a
  | slotFinish status rand burst ending =>
    refine hkeep (fun w' hs => ?_) trivial
    simp only [step, Option.ite_none_right_eq_some, Option.some.injEq] at hs
    obtain ⟨-, rfl⟩ := hs
    exact balanced_of_counts hb slotFinish_sched fun a => slotFinish_counts a

theorem init_balanced (cfg : Config A) (ebRoom broadcastRoom : Bool) :
    Balanced (World.init cfg ebRoom broadcastRoom).state := by
  let s₀ : State A := { (World.init cfg ebRoom broadcastRoom).state with queues :=
    { nbr := fun _ => none, packetMemb := .init cfg.queuebufNum, packet := fun _ => ⟨0, 0, .deferred⟩, accepted := 0 } }
  let s₁ : State A := { s₀ with queues := tschQueueAddNbr cfg s₀.queues cfg.tschEbAddress ebRoom }
  have hs₀ : Balanced s₀ := by
    intro a n hn
    cases hn
  have hs₁ : Balanced s₁ := (balanced_addNbr cfg cfg.tschEbAddress ebRoom hs₀ _ fun _ => rfl).2 fun _ _ => rfl
  exact (balanced_addNbr cfg cfg.tschBroadcastAddress broadcastRoom hs₁ _ fun _ => rfl).2 fun _ _ => rfl

/-- In every run the counters of all neighbors are right in all states exactly when every step meets the condition. -/
theorem txLinksCount_run (cfg : Config A) (ebRoom broadcastRoom : Bool) (actions : List (Action A)) :
    AllStates (step cfg) (fun w => Balanced w.state) (World.init cfg ebRoom broadcastRoom) actions ↔
      AllSteps (step cfg) (Countable cfg) (World.init cfg ebRoom broadcastRoom) actions :=
  allStates_iff_allSteps (fun _ _ _ h hs => step_inv h hs) (fun _ a h hb => step_balanced a h hb) actions _
    (init_inv cfg ebRoom broadcastRoom) (init_balanced cfg ebRoom broadcastRoom)

def uncountedLink : List (Action Nat) :=
  [.addSlotframe 1 10, .addLink 0 LINK_OPTION_TX .normal (some 5) 3 0 true false, .addPacket 5 8 true true]

/-- The link that came while the neighbor table was full is not counted when the neighbor is created. -/
theorem uncounted_link :
    ¬ AllStates (step smallConfig) (fun w => Balanced w.state) (World.init smallConfig true true) uncountedLink := by
  intro h
  have hrun : (exec (step smallConfig) (World.init smallConfig true true) uncountedLink).map (fun w =>
      ((w.state.queues.nbr 5).map fun n => n.txLinksCount.toNat, txLinksIn w.state.sched w.state.sched.links 5)) =
      some (some 0, 1) := by decide
  obtain ⟨w, hw, hcounts⟩ := Option.map_eq_some_iff.1 hrun
  simp only [Prod.mk.injEq, Option.map_eq_some_iff] at hcounts
  obtain ⟨⟨n, hn, hzero⟩, hone⟩ := hcounts
  have := ((h.last hw) 5 n hn).1
  omega

end Contiki.Tsch

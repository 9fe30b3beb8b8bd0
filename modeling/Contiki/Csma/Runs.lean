/-
Runs of the packet queues: packets are given to csma_output_packet for any receivers, the timers of
neighbors expire in any order with any result of the radio, and other modules take queue buffers and
give them back. A packet is named by its place among those given. What is waiting for an address and
what is done with it together are the packets accepted for it, in order.
-/
import Contiki.Lib.Run
import Contiki.Csma.Output

namespace Contiki.Csma

section

open Contiki.Core Contiki.Lib

variable {A : Type} [DecidableEq A]

/-- The state together with what has happened: the receiver and the attribute of each packet given, the
number of times the radio was asked to send it, and the buffers of other modules. -/
structure World (A : Type) where
  state : State A
  given : List (A × UInt16)
  attempts : Nat → Nat
  others : List Nat

inductive Action (A : Type)
  /-- A packet is given to `csma_output_packet`. -/
  | output (addr : A) (attr : UInt16)
  /-- The timer of a neighbor expires, and the radio sends its packet with this result. -/
  | expire (n : Nat) (result : TxResult)
  /-- Another module takes a buffer. -/
  | take
  /-- Another module gives a buffer back. -/
  | giveBack (buf : Nat)

def World.init [Inhabited A] (c : Conf) : World A := ⟨State.init c, [], fun _ => 0, []⟩

def State.first (s : State A) (n : Nat) : Option Nat :=
  (s.neighbors n).packetQueue.head?.map fun p => (s.entry p).sent

/-- One action; a timer that is not set does not expire, and a buffer is given back by its owner. -/
@[grind =]
def step (c : Conf) (w : World A) : Action A → Option (World A)
  | .output addr attr => some { w with
      state := csmaOutputPacket c addr attr w.given.length w.state
      given := w.given ++ [(addr, attr)] }
  | .expire n result =>
    if (w.state.neighbors n).transmitTimer then
      some { w with
        state := transmitFromQueue c n result w.state
        attempts := fun i => if w.state.first n = some i then w.attempts i + 1 else w.attempts i }
    else none
  | .take =>
    match w.state.queuebuf.newFromPacketbuf with
    | (some buf, q) => some { w with state := { w.state with queuebuf := q }, others := buf :: w.others }
    | (none, q) => some { w with state := { w.state with queuebuf := q } }
  | .giveBack buf =>
    if buf ∈ w.others then
      some { w with
        state := { w.state with queuebuf := w.state.queuebuf.free buf }
        others := w.others.erase buf }
    else none

/-! ## What has become of a packet -/

def World.receiver (w : World A) (i : Nat) : Option A := w.given[i]?.map Prod.fst

def World.waiting (w : World A) (a : A) : List Nat := ((w.state.queue a).map Queue.entries).getD [] |>.map Entry.sent

def State.done (s : State A) : List Callback := s.callbacks.filter fun b => b.status ≠ .queueFull

def World.completed (w : World A) (a : A) : List Nat :=
  (w.state.done.filter fun b => w.receiver b.sent = some a).map Callback.sent

def World.calls (w : World A) (i : Nat) : Nat := w.state.callbacks.countP fun b => b.sent = i

/-- The counters of a queue and the attempts made for its packets. -/
structure QueueOk (c : Conf) (given : List (A × UInt16)) (attempts : Nat → Nat) (a : A) (q : Queue) : Prop where
  entries : ∀ e ∈ q.entries, ∃ attr, given[e.sent]? = some (a, attr) ∧ e.max = maxTransmissions c attr
  first : ∀ e ∈ q.entries.head?, attempts e.sent ≤ q.transmissions.toNat * (c.maxBackoff + 1) + q.collisions.toNat ∧
    q.transmissions < e.max ∧ q.collisions.toNat ≤ c.maxBackoff
  later : ∀ e ∈ q.entries.tail, attempts e.sent = 0

structure Inv (c : Conf) (w : World A) : Prop where
  pools : Pools w.state w.others none
  queues : ∀ a q, w.state.queue a = some q → QueueOk c w.given w.attempts a q
  once : ∀ i a, w.receiver i = some a → w.calls i + (w.waiting a).count i = 1
  known : ∀ b ∈ w.state.callbacks, b.sent < w.given.length
  order : ∀ a, (w.completed a ++ w.waiting a).Pairwise (· < ·)
  ntx : ∀ b ∈ w.state.done, ∀ x, w.given[b.sent]? = some x → b.ntx ≤ maxTransmissions c x.2
  tried : ∀ i x, w.given[i]? = some x → w.attempts i ≤ (maxTransmissions c x.2).toNat * (c.maxBackoff + 1)
  fresh : ∀ i, w.given.length ≤ i → w.attempts i = 0

/-! ## The counters -/

theorem maxTransmissions_pos (c : Conf) (attr : UInt16) : 0 < maxTransmissions c attr := by
  have := c.maxFrameRetries_lt
  unfold maxTransmissions
  split
  · rw [UInt8.lt_iff_toNat_lt, UInt8.toNat_ofNat']
    show 0 < _
    rw [Nat.mod_eq_of_lt (by omega)]
    omega
  · rename_i h
    rw [UInt8.lt_iff_toNat_lt]
    show 0 < _
    have : attr.toUInt8.toNat ≠ 0 := fun h' => h (UInt8.toNat_inj.1 h')
    omega

theorem counters_le (c : Conf) (result : TxResult) {max t k : UInt8} (ht : t < max) (hk : k.toNat ≤ c.maxBackoff) :
    (counters c result t k).1 ≤ max ∧ (counters c result t k).2.toNat ≤ c.maxBackoff := by
  have := c.maxBackoff_lt
  have hm := max.toNat_lt
  rw [UInt8.lt_iff_toNat_lt] at ht
  have ht1 : (t + 1).toNat = t.toNat + 1 := by
    rw [UInt8.toNat_add, UInt8.toNat_one]
    omega
  simp only [UInt8.le_iff_toNat_le]
  cases result with
  | ok => exact ⟨by simp only [counters]; omega, Nat.zero_le _⟩
  | noack => exact ⟨by simp only [counters]; omega, Nat.zero_le _⟩
  | collision =>
    unfold counters
    dsimp only
    split
    · exact ⟨by dsimp only; omega, Nat.zero_le _⟩
    · exact ⟨by dsimp only; omega, by dsimp only; omega⟩
  | err => exact ⟨by simp only [counters]; omega, hk⟩
  | errFatal => exact ⟨by simp only [counters]; omega, hk⟩

theorem counters_again (c : Conf) (result : TxResult) {max t k : UInt8} (ht : t < max) (hk : k.toNat ≤ c.maxBackoff)
    (hf : finished result max (counters c result t k).1 = false) : t.toNat * (c.maxBackoff + 1) + k.toNat + 1 ≤
        (counters c result t k).1.toNat * (c.maxBackoff + 1) + (counters c result t k).2.toNat ∧
      (counters c result t k).1 < max := by
  have := c.maxBackoff_lt
  have hm := max.toNat_lt
  rw [UInt8.lt_iff_toNat_lt] at ht ⊢
  have ht1 : (t + 1).toNat = t.toNat + 1 := by
    rw [UInt8.toNat_add, UInt8.toNat_one]
    omega
  have hk1 : (k + 1).toNat = k.toNat + 1 := by
    rw [UInt8.toNat_add, UInt8.toNat_one]
    omega
  have hlt : ∀ {x : UInt8}, ¬ max ≤ x → x.toNat < max.toNat := fun hx => by
    rwa [UInt8.le_iff_toNat_le, not_le] at hx
  cases result with
  | ok => simp [finished] at hf
  | noack =>
    simp only [counters, finished, ge_iff_le, decide_eq_false_iff_not] at hf ⊢
    refine ⟨?_, hlt hf⟩
    rw [ht1, Nat.succ_mul]
    have : (0 : UInt8).toNat = 0 := rfl
    omega
  | collision =>
    unfold counters finished at *
    dsimp only at *
    split
    · rename_i hgt
      rw [if_pos hgt] at hf
      simp only [ge_iff_le, decide_eq_false_iff_not] at hf
      refine ⟨?_, hlt hf⟩
      rw [ht1, Nat.succ_mul]
      have : (0 : UInt8).toNat = 0 := rfl
      omega
    · rename_i hgt
      rw [if_neg hgt] at hf
      simp only [ge_iff_le, decide_eq_false_iff_not] at hf
      exact ⟨by dsimp only; omega, hlt hf⟩
  | err => simp [finished] at hf
  | errFatal => simp [finished] at hf

theorem attempts_le {n m t k b : Nat} (hn : n ≤ t * (b + 1) + k) (ht : t < m) (hk : k ≤ b) : n + 1 ≤ m * (b + 1) :=
  calc n + 1 ≤ t * (b + 1) + (b + 1) := by omega
    _ = (t + 1) * (b + 1) := by ring
    _ ≤ m * (b + 1) := Nat.mul_le_mul_right _ ht

end

/-!
Every run of the packet queues: a packet's callback is made once, when the packet leaves its queue,
packets to one address are done in the order in which they were accepted, the counters bound the
attempts, and the pools are free when nothing is queued.
-/

section

open Contiki.Core Contiki.Lib

variable {A : Type} [DecidableEq A] {c : Conf} {w : World A} {t : State A} {a b : A} {i : Nat}

/-! ## Reading the world -/

theorem waiting_some {q : Queue} (h : w.state.queue a = some q) : w.waiting a = q.entries.map Entry.sent := by
  rw [World.waiting, h]
  rfl

theorem waiting_none (h : w.state.queue a = none) : w.waiting a = [] := by
  rw [World.waiting, h]
  rfl

theorem waiting_congr {w' : World A} (h : w'.state.queue a = w.state.queue a) : w'.waiting a = w.waiting a := by
  rw [World.waiting, h]
  rfl

theorem Inv.receiver_of_waiting (h : Inv c w) (hi : i ∈ w.waiting a) : w.receiver i = some a := by
  cases hq : w.state.queue a with
  | none =>
    rw [waiting_none hq] at hi
    cases hi
  | some q =>
    rw [waiting_some hq] at hi
    obtain ⟨e, he, rfl⟩ := List.mem_map.1 hi
    obtain ⟨attr, hg, -⟩ := (h.queues a q hq).entries e he
    rw [World.receiver, hg]
    rfl

omit [DecidableEq A] in
theorem receiver_lt (h : w.receiver i = some a) : i < w.given.length := by
  rw [World.receiver, Option.map_eq_some_iff] at h
  obtain ⟨x, hx, -⟩ := h
  exact (List.getElem?_eq_some_iff.1 hx).1

theorem Inv.completed_lt (h : Inv c w) (hi : i ∈ w.completed a) : i < w.given.length := by
  obtain ⟨x, hx, rfl⟩ := List.mem_map.1 hi
  exact h.known x (List.mem_filter.1 (List.mem_filter.1 hx).1).1

theorem Inv.waiting_lt (h : Inv c w) (hi : i ∈ w.waiting a) : i < w.given.length :=
  receiver_lt (h.receiver_of_waiting hi)

/-! ## A packet is given -/

section

variable {attr : UInt16} {s : State A}

/-- The world after a packet was given to `csma_output_packet`. -/
def World.gave (w : World A) (s : State A) (a : A) (attr : UInt16) : World A :=
  { w with state := s, given := w.given ++ [(a, attr)] }

omit [DecidableEq A] in
theorem given_old (hi : i < w.given.length) : (w.given ++ [(a, attr)])[i]? = w.given[i]? :=
  List.getElem?_append_left hi

omit [DecidableEq A] in
theorem receiver_old (hi : i < w.given.length) : (w.gave s a attr).receiver i = w.receiver i := by
  rw [World.receiver, World.receiver, World.gave, given_old hi]

omit [DecidableEq A] in
theorem receiver_new : (w.gave s a attr).receiver w.given.length = some a := by
  simp [World.receiver, World.gave]

omit [DecidableEq A] in
theorem given_cases {x : A × UInt16} (h : (w.given ++ [(a, attr)])[i]? = some x) :
    (i < w.given.length ∧ w.given[i]? = some x) ∨ (i = w.given.length ∧ x = (a, attr)) := by
  have hlt := (List.getElem?_eq_some_iff.1 h).1
  rw [List.length_append, List.length_singleton] at hlt
  by_cases hi : i < w.given.length
  · rw [given_old hi] at h
    exact .inl ⟨hi, h⟩
  · obtain rfl : i = w.given.length := by omega
    rw [List.getElem?_concat_length] at h
    exact .inr ⟨rfl, (Option.some.inj h).symm⟩

theorem completed_gave (h : Inv c w) (hs : s.done = w.state.done) : (w.gave s a attr).completed b = w.completed b := by
  rw [World.completed, World.completed, show (w.gave s a attr).state.done = w.state.done from hs]
  refine congrArg _ (List.filter_congr fun x hx => ?_)
  rw [receiver_old (h.known x (List.mem_filter.1 hx).1)]

omit [DecidableEq A] in
theorem QueueOk.gave {q : Queue} (hq : QueueOk c w.given w.attempts b q) :
    QueueOk c (w.given ++ [(a, attr)]) w.attempts b q := by
  refine ⟨fun e he => ?_, hq.first, hq.later⟩
  obtain ⟨r, hr, hm⟩ := hq.entries e he
  exact ⟨r, by rw [given_old (List.getElem?_eq_some_iff.1 hr).1, hr], hm⟩

theorem Inv.tried_gave (h : Inv c w) {x : A × UInt16} (hx : (w.given ++ [(a, attr)])[i]? = some x) :
    w.attempts i ≤ (maxTransmissions c x.2).toNat * (c.maxBackoff + 1) := by
  rcases given_cases hx with ⟨-, hx⟩ | ⟨rfl, -⟩
  · exact h.tried i x hx
  · rw [h.fresh _ le_rfl]
    exact Nat.zero_le _

theorem Inv.ntx_gave (h : Inv c w) {x : A × UInt16} {y : Callback} (hy : y ∈ w.state.done)
    (hx : (w.given ++ [(a, attr)])[y.sent]? = some x) : y.ntx ≤ maxTransmissions c x.2 := by
  rw [given_old (h.known y (List.mem_filter.1 hy).1)] at hx
  exact h.ntx y hy x hx

theorem Inv.calls_new (h : Inv c w) : w.calls w.given.length = 0 := by
  refine List.countP_eq_zero.2 fun x hx => ?_
  have := h.known x hx
  simp only [decide_eq_true_eq]
  omega

theorem Inv.refused (h : Inv c w) (hs : Refused w.state s w.others w.given.length) : Inv c (w.gave s a attr) := by
  have hdone : s.done = w.state.done := by
    rw [State.done, hs.callbacks, List.filter_append]
    simp [State.done]
  have hwait : ∀ b, (w.gave s a attr).waiting b = w.waiting b := fun b => waiting_congr (by rw [World.gave, hs.queue])
  have hcalls : ∀ j, (w.gave s a attr).calls j = w.calls j + if w.given.length = j then 1 else 0 := by
    intro j
    rw [World.calls, show (w.gave s a attr).state.callbacks = _ from hs.callbacks, List.countP_append]
    simp [World.calls, List.countP_cons]
  refine ⟨hs.pools, fun b q hq => ?_, fun j b hj => ?_, fun x hx => ?_, fun b => ?_, fun x hx y hy => ?_,
    fun j y hy => h.tried_gave hy, fun j hj => ?_⟩
  · rw [World.gave, hs.queue] at hq
    exact (h.queues b q hq).gave
  · rw [hwait, hcalls]
    by_cases hlt : j < w.given.length
    · rw [receiver_old hlt] at hj
      rw [if_neg (by omega)]
      exact h.once j b hj
    · have hle := receiver_lt hj
      obtain rfl : j = w.given.length := by
        simp only [World.gave, List.length_append, List.length_singleton] at hle
        omega
      have hnot : w.given.length ∉ w.waiting b := fun hmem => absurd (h.waiting_lt hmem) (lt_irrefl _)
      rw [h.calls_new, List.count_eq_zero.2 hnot, if_pos rfl]
  · simp only [World.gave, List.length_append, List.length_singleton] at hx ⊢
    rw [hs.callbacks, List.mem_append, List.mem_singleton] at hx
    rcases hx with hx | rfl
    · exact Nat.lt_succ_of_lt (h.known x hx)
    · exact Nat.lt_succ_self _
  · rw [hwait, completed_gave h hdone]
    exact h.order b
  · rw [show (w.gave s a attr).state.done = w.state.done from hdone] at hx
    exact h.ntx_gave hx hy
  · simp only [World.gave, List.length_append, List.length_singleton] at hj
    exact h.fresh j (by omega)

theorem Inv.joined (h : Inv c w) : QueueOk c (w.given ++ [(a, attr)]) w.attempts a
    ⟨((w.state.queue a).getD Queue.empty).entries ++ [⟨w.given.length, maxTransmissions c attr⟩],
      ((w.state.queue a).getD Queue.empty).transmissions, ((w.state.queue a).getD Queue.empty).collisions⟩ := by
  have hnew : (w.given ++ [(a, attr)])[w.given.length]? = some (a, attr) := List.getElem?_concat_length
  have hzero : w.attempts w.given.length = 0 := h.fresh _ le_rfl
  have hq : QueueOk c (w.given ++ [(a, attr)]) w.attempts a ((w.state.queue a).getD Queue.empty) := by
    cases hq : w.state.queue a with
    | none => exact ⟨by simp [Queue.empty], by simp [Queue.empty], by simp [Queue.empty]⟩
    | some q => exact (h.queues a q hq).gave
  have hcount : ((w.state.queue a).getD Queue.empty).entries = [] →
      ((w.state.queue a).getD Queue.empty).collisions.toNat ≤ c.maxBackoff ∧
        ((w.state.queue a).getD Queue.empty).transmissions = 0 := by
    intro he
    cases hq : w.state.queue a with
    | none => exact ⟨Nat.zero_le _, rfl⟩
    | some q =>
      rw [hq] at he
      exact absurd he (h.pools.entries_ne_nil hq)
  generalize (w.state.queue a).getD Queue.empty = q at *
  refine ⟨fun e he => ?_, fun e he => ?_, fun e he => ?_⟩
  · rcases List.mem_append.1 he with he | he
    · exact hq.entries e he
    · rw [List.mem_singleton.1 he]
      exact ⟨attr, hnew, rfl⟩
  · cases hes : q.entries with
    | nil =>
      rw [hes] at he
      obtain rfl : _ = e := Option.some.inj he
      obtain ⟨hk, ht⟩ := hcount hes
      refine ⟨by rw [hzero]; exact Nat.zero_le _, ?_, hk⟩
      rw [ht]
      exact maxTransmissions_pos c attr
    | cons f fs =>
      rw [hes] at he
      exact hq.first e (by rw [hes]; exact he)
  · cases hes : q.entries with
    | nil =>
      rw [hes] at he
      cases he
    | cons f fs =>
      rw [hes] at he
      rcases List.mem_append.1 (show e ∈ fs ++ [_] from he) with he | he
      · exact hq.later e (by rw [hes]; exact he)
      · rw [List.mem_singleton.1 he]
        exact hzero

theorem Inv.accepted (h : Inv c w)
    (hs : Accepted w.state s w.others a ⟨w.given.length, maxTransmissions c attr⟩) : Inv c (w.gave s a attr) := by
  have hdone : s.done = w.state.done := by rw [State.done, hs.callbacks, State.done]
  have hcalls : ∀ j, (w.gave s a attr).calls j = w.calls j := by
    intro j
    rw [World.calls, show (w.gave s a attr).state.callbacks = _ from hs.callbacks, World.calls]
  have hself : (w.gave s a attr).waiting a = w.waiting a ++ [w.given.length] := by
    rw [waiting_some (show (w.gave s a attr).state.queue a = _ by rw [World.gave, hs.queue, Function.update_self]),
      List.map_append]
    cases hq : w.state.queue a with
    | none =>
      rw [waiting_none hq]
      rfl
    | some q =>
      rw [waiting_some hq]
      rfl
  have hother : ∀ b, b ≠ a → (w.gave s a attr).waiting b = w.waiting b := fun b hb =>
    waiting_congr (by rw [World.gave, hs.queue, Function.update_of_ne hb])
  refine ⟨hs.pools, fun b q hq => ?_, fun j b hj => ?_, fun x hx => ?_, fun b => ?_, fun x hx y hy => ?_,
    fun j y hy => h.tried_gave hy, fun j hj => ?_⟩
  · by_cases hb : b = a
    · rw [World.gave, hs.queue, hb, Function.update_self] at hq
      obtain rfl := Option.some.inj hq
      rw [hb]
      exact h.joined
    · rw [World.gave, hs.queue, Function.update_of_ne hb] at hq
      exact (h.queues b q hq).gave
  · rw [hcalls]
    by_cases hlt : j < w.given.length
    · rw [receiver_old hlt] at hj
      have := h.once j b hj
      by_cases hb : b = a
      · rw [hb] at this ⊢
        rw [hself, List.count_append, List.count_singleton, if_neg (by simp; omega)]
        exact this
      · rw [hother b hb]
        exact this
    · have hle := receiver_lt hj
      obtain rfl : j = w.given.length := by
        simp only [World.gave, List.length_append, List.length_singleton] at hle
        omega
      rw [receiver_new] at hj
      obtain rfl := Option.some.inj hj
      have hnot : w.given.length ∉ w.waiting a := fun hmem => absurd (h.waiting_lt hmem) (lt_irrefl _)
      rw [h.calls_new, hself, List.count_append, List.count_eq_zero.2 hnot, List.count_singleton, if_pos (by simp)]
  · simp only [World.gave, List.length_append, List.length_singleton] at hx ⊢
    rw [hs.callbacks] at hx
    exact Nat.lt_succ_of_lt (h.known x hx)
  · rw [completed_gave h hdone]
    by_cases hb : b = a
    · rw [hb, hself, ← List.append_assoc, List.pairwise_append]
      refine ⟨h.order a, List.pairwise_singleton _ _, fun j hj k hk => ?_⟩
      rw [List.mem_singleton.1 hk]
      rcases List.mem_append.1 hj with hj | hj
      · exact h.completed_lt hj
      · exact h.waiting_lt hj
    · rw [hother b hb]
      exact h.order b
  · rw [show (w.gave s a attr).state.done = w.state.done from hdone] at hx
    exact h.ntx_gave hx hy
  · simp only [World.gave, List.length_append, List.length_singleton] at hj
    exact h.fresh j (by omega)

end

/-! ## A transmission -/

section

variable {s : State A} {e : Entry} {es : List Entry} {x k : UInt8} {result : TxResult}

/-- The world after the radio was asked to send the packet `i`. -/
def World.sent (w : World A) (s : State A) (i : Nat) : World A :=
  { w with state := s, attempts := fun j => if some i = some j then w.attempts j + 1 else w.attempts j }

omit [DecidableEq A] in
theorem attempts_self : (w.sent s i).attempts i = w.attempts i + 1 := if_pos rfl

omit [DecidableEq A] in
theorem attempts_ne {j : Nat} (h : j ≠ i) : (w.sent s i).attempts j = w.attempts j :=
  if_neg fun he => h (Option.some.inj he).symm

theorem Inv.first_once (h : Inv c w) (hq : w.state.queue a = some ⟨e :: es, x, k⟩) :
    (∀ f ∈ es, f.sent ≠ e.sent) ∧ ∀ b, b ≠ a → e.sent ∉ w.waiting b := by
  have hw := waiting_some hq
  have horder := (List.pairwise_append.1 (h.order a)).2.1
  rw [hw, List.map_cons, List.pairwise_cons] at horder
  refine ⟨fun f hf he => absurd (horder.1 f.sent (List.mem_map.2 ⟨f, hf, rfl⟩)) (by omega), fun b hb hmem => hb ?_⟩
  have ha := h.receiver_of_waiting (show e.sent ∈ w.waiting a by rw [hw]; exact List.mem_cons_self ..)
  rw [h.receiver_of_waiting hmem] at ha
  exact Option.some.inj ha

omit [DecidableEq A] in
theorem QueueOk.sent {q : Queue} (hq : QueueOk c w.given w.attempts b q) (hne : ∀ f ∈ q.entries, f.sent ≠ i) :
    QueueOk c w.given (w.sent s i).attempts b q := by
  refine ⟨hq.entries, fun f hf => ?_, fun f hf => ?_⟩
  · rw [attempts_ne (hne f (List.mem_of_mem_head? hf))]
    exact hq.first f hf
  · rw [attempts_ne (hne f (List.mem_of_mem_tail hf))]
    exact hq.later f hf

theorem Inv.queue_sent (h : Inv c w) (hq : w.state.queue a = some ⟨e :: es, x, k⟩) {q : Queue} (hb : b ≠ a)
    (hqb : w.state.queue b = some q) : QueueOk c w.given (w.sent s e.sent).attempts b q := by
  refine (h.queues b q hqb).sent fun f hf he => (h.first_once hq).2 b hb ?_
  rw [waiting_some hqb, ← he]
  exact List.mem_map.2 ⟨f, hf, rfl⟩

theorem Inv.tried_sent (h : Inv c w) (hq : w.state.queue a = some ⟨e :: es, x, k⟩) {j : Nat} {y : A × UInt16}
    (hy : w.given[j]? = some y) :
    (w.sent s e.sent).attempts j ≤ (maxTransmissions c y.2).toNat * (c.maxBackoff + 1) := by
  by_cases hj : j = e.sent
  · subst hj
    have hok := h.queues a _ hq
    obtain ⟨hn, ht, hk⟩ := hok.first e rfl
    obtain ⟨attr, hg, hm⟩ := hok.entries e (List.mem_cons_self ..)
    rw [hg] at hy
    obtain rfl := Option.some.inj hy
    rw [attempts_self]
    rw [hm, UInt8.lt_iff_toNat_lt] at ht
    exact attempts_le hn ht hk
  · rw [attempts_ne hj]
    exact h.tried j y hy

theorem Inv.fresh_sent (h : Inv c w) (hq : w.state.queue a = some ⟨e :: es, x, k⟩) {j : Nat}
    (hj : w.given.length ≤ j) : (w.sent s e.sent).attempts j = 0 := by
  have hlt := h.waiting_lt (show e.sent ∈ w.waiting a by rw [waiting_some hq]; exact List.mem_cons_self ..)
  rw [attempts_ne (by omega)]
  exact h.fresh j hj

theorem Inv.again (h : Inv c w) (hq : w.state.queue a = some ⟨e :: es, x, k⟩)
    (hf : finished result e.max (counters c result x k).1 = false)
    (hs : Retried w.state s w.others a ⟨e :: es, (counters c result x k).1, (counters c result x k).2⟩) :
    Inv c (w.sent s e.sent) := by
  have hok := h.queues a _ hq
  have hwait : ∀ b, (w.sent s e.sent).waiting b = w.waiting b := by
    intro b
    by_cases hb : b = a
    · have hqa : (w.sent s e.sent).state.queue a =
          some ⟨e :: es, (counters c result x k).1, (counters c result x k).2⟩ := by
        rw [World.sent, hs.queue, Function.update_self]
      rw [hb, waiting_some hq, waiting_some hqa]
    · exact waiting_congr (by rw [World.sent, hs.queue, Function.update_of_ne hb])
  have hdone : s.done = w.state.done := by rw [State.done, hs.callbacks, State.done]
  have hcomp : ∀ b, (w.sent s e.sent).completed b = w.completed b := by
    intro b
    rw [World.completed, show (w.sent s e.sent).state.done = w.state.done from hdone]
    rfl
  refine ⟨hs.pools, fun b q hqb => ?_, fun j b hj => ?_, fun y hy => ?_, fun b => ?_, fun y hy => ?_,
    fun j y hy => h.tried_sent hq hy, fun j hj => h.fresh_sent hq hj⟩
  · by_cases hb : b = a
    · rw [World.sent, hs.queue, hb, Function.update_self] at hqb
      obtain rfl := Option.some.inj hqb
      rw [hb]
      refine ⟨hok.entries, fun f hf' => ?_, fun f hf' => ?_⟩
      · obtain rfl : e = f := Option.some.inj hf'
        obtain ⟨hn, ht, hk⟩ := hok.first e rfl
        obtain ⟨hmore, hlt⟩ := counters_again c result ht hk hf
        refine ⟨?_, hlt, (counters_le c result ht hk).2⟩
        rw [attempts_self]
        exact le_trans (Nat.succ_le_succ hn) hmore
      · rw [attempts_ne ((h.first_once hq).1 f hf')]
        exact hok.later f hf'
    · rw [World.sent, hs.queue, Function.update_of_ne hb] at hqb
      exact h.queue_sent hq hb hqb
  · rw [hwait, World.calls, show (w.sent s e.sent).state.callbacks = _ from hs.callbacks]
    exact h.once j b hj
  · rw [show (w.sent s e.sent).state.callbacks = _ from hs.callbacks] at hy
    exact h.known y hy
  · rw [hwait, hcomp]
    exact h.order b
  · rw [show (w.sent s e.sent).state.done = w.state.done from hdone] at hy
    exact h.ntx y hy

omit [DecidableEq A] in
theorem done_append {y : Callback} (hs : s.callbacks = w.state.callbacks ++ [y]) (hy : y.status ≠ .queueFull) :
    s.done = w.state.done ++ [y] := by
  simp [State.done, hs, hy]

theorem Inv.completes (h : Inv c w) (hq : w.state.queue a = some ⟨e :: es, x, k⟩)
    (hs : Completed w.state s w.others a (Queue.tail ⟨e :: es, x, k⟩)
      ⟨e.sent, .tx result, (counters c result x k).1⟩) : Inv c (w.sent s e.sent) := by
  have hok := h.queues a _ hq
  have hmem : e.sent ∈ w.waiting a := by
    rw [waiting_some hq]
    exact List.mem_cons_self ..
  have hrec := h.receiver_of_waiting hmem
  have hself : w.waiting a = e.sent :: (w.sent s e.sent).waiting a := by
    rw [waiting_some hq, List.map_cons]
    congr 1
    have hqa : (w.sent s e.sent).state.queue a = Queue.tail ⟨e :: es, x, k⟩ := by
      rw [World.sent, hs.queue, Function.update_self]
    cases es with
    | nil => rw [waiting_none (hqa.trans rfl), List.map_nil]
    | cons f fs => rw [waiting_some (hqa.trans rfl)]
  have hother : ∀ b, b ≠ a → (w.sent s e.sent).waiting b = w.waiting b := fun b hb =>
    waiting_congr (by rw [World.sent, hs.queue, Function.update_of_ne hb])
  have hdone : s.done = w.state.done ++ [⟨e.sent, .tx result, (counters c result x k).1⟩] :=
    done_append hs.callbacks (by simp)
  have hcomp : ∀ b, (w.sent s e.sent).completed b = w.completed b ++ if b = a then [e.sent] else [] := by
    intro b
    rw [World.completed, show (w.sent s e.sent).state.done = _ from hdone, List.filter_append, List.map_append]
    congr 1
    show ((List.filter (fun y => w.receiver y.sent = some b) _).map Callback.sent) = _
    rw [List.filter_singleton, hrec]
    by_cases hb : b = a
    · simp [hb]
    · simp [hb, Ne.symm hb]
  have hcalls : ∀ j, (w.sent s e.sent).calls j = w.calls j + if e.sent = j then 1 else 0 := by
    intro j
    rw [World.calls, show (w.sent s e.sent).state.callbacks = _ from hs.callbacks, List.countP_append]
    simp [World.calls, List.countP_cons]
  have hwait : ∀ b, w.waiting b = (if b = a then [e.sent] else []) ++ (w.sent s e.sent).waiting b := by
    intro b
    by_cases hb : b = a
    · rw [hb, if_pos rfl]
      exact hself
    · rw [if_neg hb, hother b hb, List.nil_append]
  refine ⟨hs.pools, fun b q hqb => ?_, fun j b hj => ?_, fun y hy => ?_, fun b => ?_, fun y hy z hz => ?_,
    fun j y hy => h.tried_sent hq hy, fun j hj => h.fresh_sent hq hj⟩
  · by_cases hb : b = a
    · rw [World.sent, hs.queue, hb, Function.update_self] at hqb
      rw [hb]
      cases es with
      | nil => cases hqb
      | cons f fs =>
        obtain rfl := Option.some.inj hqb
        have hne := (h.first_once hq).1
        have hlater : ∀ g ∈ f :: fs, (w.sent s e.sent).attempts g.sent = 0 := by
          intro g hg
          rw [attempts_ne (hne g hg)]
          exact hok.later g hg
        refine ⟨fun g hg => hok.entries g (List.mem_cons_of_mem _ hg), fun g hg => ?_,
          fun g hg => hlater g (List.mem_cons_of_mem _ hg)⟩
        obtain rfl : f = g := Option.some.inj hg
        obtain ⟨attr, -, hm⟩ := hok.entries f (List.mem_cons_of_mem _ (List.mem_cons_self ..))
        refine ⟨?_, ?_, Nat.zero_le _⟩
        · rw [hlater f (List.mem_cons_self ..)]
          exact Nat.zero_le _
        · rw [hm]
          exact maxTransmissions_pos c attr
    · rw [World.sent, hs.queue, Function.update_of_ne hb] at hqb
      exact h.queue_sent hq hb hqb
  · have := h.once j b hj
    rw [hwait, List.count_append] at this
    rw [hcalls]
    by_cases hje : e.sent = j
    · have hb : b = a := by
        subst hje
        exact Option.some.inj (hj.symm.trans hrec)
      rw [if_pos hb, List.count_singleton, if_pos (by simpa using hje)] at this
      rw [if_pos hje]
      omega
    · rw [if_neg hje]
      have hzero : (if b = a then [e.sent] else []).count j = 0 := by
        split
        · rw [List.count_singleton, if_neg (by simpa using hje)]
        · exact List.count_nil
      omega
  · rw [show (w.sent s e.sent).state.callbacks = _ from hs.callbacks, List.mem_append, List.mem_singleton] at hy
    rcases hy with hy | rfl
    · exact h.known y hy
    · exact receiver_lt hrec
  · have := h.order b
    rw [hwait, ← List.append_assoc] at this
    rwa [hcomp]
  · rw [show (w.sent s e.sent).state.done = _ from hdone, List.mem_append, List.mem_singleton] at hy
    rcases hy with hy | rfl
    · exact h.ntx y hy z hz
    · obtain ⟨attr, hg, hm⟩ := hok.entries e (List.mem_cons_self ..)
      obtain ⟨-, ht, hk⟩ := hok.first e rfl
      obtain rfl : (a, attr) = z := Option.some.inj (hg.symm.trans hz)
      have := (counters_le c result ht hk).1
      rwa [hm] at this

end

/-! ## The buffers of other modules -/

omit [DecidableEq A] in
theorem Pools.others {s : State A} {xs ys : List Nat} {q : Queuebuf} (h : Pools s xs none)
    (hq : q.Holds (s.queued.map (fun p => (s.packets p).buf) ++ ys)) : Pools { s with queuebuf := q } ys none :=
  ⟨h.neighbors, h.packets, h.metadata, hq, h.addrs, h.nonempty, h.timer⟩

theorem Inv.others (h : Inv c w) {q : Queuebuf} {ys : List Nat}
    (hq : q.Holds (w.state.queued.map (fun p => (w.state.packets p).buf) ++ ys)) :
    Inv c { w with state := { w.state with queuebuf := q }, others := ys } :=
  ⟨h.pools.others hq, h.queues, h.once, h.known, h.order, h.ntx, h.tried, h.fresh⟩

/-! ## Every run -/

theorem Inv.init [Inhabited A] (c : Conf) : Inv c (World.init c : World A) := by
  refine ⟨⟨Memb.init_holds _, Memb.init_holds _, Memb.init_holds _, ⟨Memb.init_holds _, Memb.init_holds _⟩, ?_, ?_, ?_⟩,
    ?_, ?_, ?_, ?_, ?_, ?_, fun _ _ => rfl⟩
  · intro n hn
    cases hn
  · intro n hn
    cases hn
  · intro n _
    simp [World.init, State.init]
  · intro a q hq
    cases hq
  · intro i a hi
    cases hi
  · intro b hb
    cases hb
  · intro a
    exact List.Pairwise.nil
  · intro b hb
    cases hb
  · intro i x hx
    cases hx

theorem Inv.expire (h : Inv c w) {n : Nat} (ht : (w.state.neighbors n).transmitTimer = true) (result : TxResult) :
    ∃ i, w.state.first n = some i ∧ Inv c (w.sent (transmitFromQueue c n result w.state) i) := by
  obtain ⟨hn, p, rest, hq⟩ := timer_packet h.pools ht
  have hfirst : w.state.first n = some (w.state.entry p).sent := by
    rw [State.first, hq]
    rfl
  have hqueue : w.state.queue (w.state.neighbors n).addr = some ⟨w.state.entry p :: rest.map w.state.entry,
      (w.state.neighbors n).transmissions, (w.state.neighbors n).collisions⟩ := by
    rw [queue_of_mem h.pools hn, State.queueOf, hq, List.map_cons]
  have hqueueOf : w.state.queueOf n = ⟨w.state.entry p :: rest.map w.state.entry,
      (w.state.neighbors n).transmissions, (w.state.neighbors n).collisions⟩ := by
    rw [State.queueOf, hq, List.map_cons]
  refine ⟨_, hfirst, ?_⟩
  cases hf : finished result (w.state.entry p).max
      (counters c result (w.state.neighbors n).transmissions (w.state.neighbors n).collisions).1 with
  | false =>
    have hs := transmit_again (c := c) h.pools hn hq hf
    rw [hqueueOf] at hs
    exact h.again hqueue hf hs
  | true =>
    have hs := transmit_done (c := c) h.pools hn hq hf
    rw [hqueueOf] at hs
    exact h.completes hqueue hs

theorem Inv.step {w' : World A} {x : Action A} (h : Inv c w) (hx : step c w x = some w') : Inv c w' := by
  cases x with
  | output addr attr =>
    cases hx
    rcases csmaOutputPacket_spec c h.pools addr attr w.given.length with hs | hs
    · exact h.accepted hs
    · exact h.refused hs
  | expire n result =>
    simp only [Csma.step] at hx
    split at hx
    · rename_i ht
      cases hx
      obtain ⟨i, hi, hinv⟩ := h.expire ht result
      rw [hi]
      exact hinv
    · cases hx
  | take =>
    simp only [Csma.step] at hx
    split at hx
    · rename_i buf q hnew
      cases hx
      exact h.others ((h.pools.queuebuf.new_some hnew).perm List.perm_middle)
    · rename_i q hnew
      cases hx
      exact h.others (h.pools.queuebuf.new_none hnew)
  | giveBack buf =>
    simp only [Csma.step] at hx
    split at hx
    · rename_i hmem
      cases hx
      refine h.others (h.pools.queuebuf.free ?_)
      exact ((List.perm_cons_erase hmem).append_left _).trans List.perm_middle
    · cases hx

/-- What the claimed queues come to in a state: every packet given is waiting or had its callback, once;
the packets accepted for an address are done in order; the counters of a packet stay within its maximum,
and so do its attempts; a packet that waits has a timer that is set; and when nothing waits, the pools of
csma-output.c are free and the queue buffers that are out are those of other modules. -/
structure Good (c : Conf) (w : World A) : Prop where
  once : ∀ i a, w.receiver i = some a → (i ∈ w.waiting a ∧ w.calls i = 0) ∨ ((∀ b, i ∉ w.waiting b) ∧ w.calls i = 1)
  known : ∀ i, w.given.length ≤ i → w.calls i = 0
  order : ∀ a, (w.completed a ++ w.waiting a).Pairwise (· < ·)
  ntx : ∀ b ∈ w.state.done, ∀ x, w.given[b.sent]? = some x → b.ntx ≤ maxTransmissions c x.2
  retries : ∀ a q, w.state.queue a = some q → ∀ e ∈ q.entries.head?, q.transmissions < e.max
  tried : ∀ i x, w.given[i]? = some x → w.attempts i ≤ (maxTransmissions c x.2).toNat * (c.maxBackoff + 1)
  timer : ∀ a, w.waiting a ≠ [] → ∃ n, (w.state.neighbors n).addr = a ∧ (w.state.neighbors n).transmitTimer = true ∧
    (w.state.queueOf n).entries.map Entry.sent = w.waiting a
  free : (∀ a, w.waiting a = []) → w.state.neighborMemb.Holds [] ∧ w.state.packetMemb.Holds [] ∧
    w.state.metadataMemb.Holds [] ∧ w.state.queuebuf.Holds w.others

theorem Inv.once_or (h : Inv c w) (hi : w.receiver i = some a) :
    (i ∈ w.waiting a ∧ w.calls i = 0) ∨ ((∀ b, i ∉ w.waiting b) ∧ w.calls i = 1) := by
  have hone := h.once i a hi
  by_cases hmem : i ∈ w.waiting a
  · have := List.count_pos_iff.2 hmem
    exact .inl ⟨hmem, by omega⟩
  · rw [List.count_eq_zero.2 hmem] at hone
    refine .inr ⟨fun b hb => hmem ?_, by omega⟩
    obtain rfl := Option.some.inj (hi.symm.trans (h.receiver_of_waiting hb))
    exact hb

theorem Inv.timer_set (h : Inv c w) (ha : w.waiting a ≠ []) :
    ∃ n, (w.state.neighbors n).addr = a ∧ (w.state.neighbors n).transmitTimer = true ∧
      (w.state.queueOf n).entries.map Entry.sent = w.waiting a := by
  cases hq : w.state.queue a with
  | none => exact absurd (waiting_none hq) ha
  | some q =>
    obtain ⟨n, hn, haddr, hqn⟩ := queue_eq_some hq
    exact ⟨n, haddr, (h.pools.timer n (Option.some_ne_none n).symm).2 hn, by rw [hqn, waiting_some hq]⟩

theorem Inv.pools_free (h : Inv c w) (hw : ∀ a, w.waiting a = []) : w.state.neighborMemb.Holds [] ∧
    w.state.packetMemb.Holds [] ∧ w.state.metadataMemb.Holds [] ∧ w.state.queuebuf.Holds w.others := by
  have hlist : w.state.neighborList = [] := by
    rw [List.eq_nil_iff_forall_not_mem]
    intro n hn
    have hq := queue_of_mem h.pools hn
    have := hw (w.state.neighbors n).addr
    rw [waiting_some hq, List.map_eq_nil_iff] at this
    exact h.pools.entries_ne_nil hq this
  have hqueued : w.state.queued = [] := by rw [State.queued, hlist, List.flatMap_nil]
  have hp := h.pools
  refine ⟨?_, ?_, ?_, ?_⟩
  · rw [← hlist]
    exact hp.neighbors
  · rw [← hqueued]
    exact hp.packets
  · have := hp.metadata
    rwa [hqueued] at this
  · have := hp.queuebuf
    rwa [hqueued] at this

theorem Inv.good (h : Inv c w) : Good c w where
  once i a hi := h.once_or hi
  known i hi := by
    refine List.countP_eq_zero.2 fun x hx => ?_
    have := h.known x hx
    simp only [decide_eq_true_eq]
    omega
  order := h.order
  ntx := h.ntx
  retries a q hq e he := ((h.queues a q hq).first e he).2.1
  tried := h.tried
  timer a ha := h.timer_set ha
  free hw := h.pools_free hw

/-- Every state of every run of the queues is good. -/
theorem csma_output_run [Inhabited A] (c : Conf) (xs : List (Action A)) :
    AllStates (step c) (Good c) (World.init c) xs :=
  (allStates_of_invariant (fun _ _ _ h hs => Inv.step h hs) xs (Inv.init c)).mono fun _ h => h.good

end

end Contiki.Csma

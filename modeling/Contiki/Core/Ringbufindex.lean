/-
The ring buffer indices of lib/ringbufindex.c. The size is a power of two, so that a mask is a remainder. `contents` are
the elements of the array that the indices point out, the first to be removed first: each operation is one lemma about
them.
-/
import Mathlib.Tactic
import Contiki.Lib.Run

namespace Contiki.Core

section

/-- `struct ringbufindex`: the size stands for the mask. -/
structure Ringbufindex where
  size : Nat
  putPtr : Nat
  getPtr : Nat

namespace Ringbufindex

/-- `ringbufindex_init`. -/
def init (size : Nat) : Ringbufindex := ⟨size, 0, 0⟩

/-- `ringbufindex_elements`. -/
def elements (r : Ringbufindex) : Nat := (r.putPtr + r.size - r.getPtr) % r.size

/-- `ringbufindex_peek_put`. -/
def peekPut (r : Ringbufindex) : Option Nat := if r.elements = r.size - 1 then none else some r.putPtr

/-- `ringbufindex_put`; a full buffer stays as it is. -/
def put (r : Ringbufindex) : Ringbufindex :=
  if r.elements = r.size - 1 then r else { r with putPtr := (r.putPtr + 1) % r.size }

/-- `ringbufindex_peek_get`. -/
def peekGet (r : Ringbufindex) : Option Nat := if r.elements = 0 then none else some r.getPtr

/-- `ringbufindex_get`, with the index it returns. -/
def get (r : Ringbufindex) : Ringbufindex × Option Nat :=
  if r.elements = 0 then (r, none) else ({ r with getPtr := (r.getPtr + 1) % r.size }, some r.getPtr)

/-- `ringbufindex_empty`. -/
def empty (r : Ringbufindex) : Bool := r.elements = 0

structure WF (r : Ringbufindex) : Prop where
  pos : 0 < r.size
  put : r.putPtr < r.size
  get : r.getPtr < r.size

variable {α : Type} {r : Ringbufindex} {i : Nat}

def contents (r : Ringbufindex) (array : Nat → α) : List α :=
  (List.range r.elements).map fun i => array ((r.getPtr + i) % r.size)

theorem init_wf {size : Nat} (h : 0 < size) : (init size).WF := ⟨h, h, h⟩

theorem WF.elements_lt (h : r.WF) : r.elements < r.size := Nat.mod_lt _ h.pos

theorem WF.put_wf (h : r.WF) : r.put.WF := by
  unfold Ringbufindex.put
  split
  · exact h
  · exact ⟨h.pos, Nat.mod_lt _ h.pos, h.get⟩

theorem WF.get_wf (h : r.WF) : r.get.1.WF := by
  unfold Ringbufindex.get
  split
  · exact h
  · exact ⟨h.pos, h.put, Nat.mod_lt _ h.pos⟩

theorem WF.putPtr_eq (h : r.WF) : r.putPtr = (r.getPtr + r.elements) % r.size := by
  have hp := h.put
  have hg := h.get
  unfold elements
  rw [Nat.add_mod_mod, show r.getPtr + (r.putPtr + r.size - r.getPtr) = r.putPtr + r.size by omega, Nat.add_mod_right,
    Nat.mod_eq_of_lt hp]

@[simp] theorem init_contents (size : Nat) (array : Nat → α) : (init size).contents array = [] := by
  simp [contents, elements, init]

@[simp] theorem length_contents (array : Nat → α) : (r.contents array).length = r.elements := by
  simp [contents]

theorem contents_eq_nil (array : Nat → α) : r.contents array = [] ↔ r.elements = 0 := by
  rw [← List.length_eq_zero_iff, length_contents]

theorem empty_iff (array : Nat → α) : r.empty = true ↔ r.contents array = [] := by
  rw [contents_eq_nil]
  simp [empty]

theorem WF.elements_succ (h : r.WF) (hfull : r.elements ≠ r.size - 1) :
    ({ r with putPtr := (r.putPtr + 1) % r.size } : Ringbufindex).elements = r.elements + 1 := by
  have hlt := h.elements_lt
  have hp := h.put
  have hg := h.get
  show ((r.putPtr + 1) % r.size + r.size - r.getPtr) % r.size = r.elements + 1
  have hmod : ((r.putPtr + 1) % r.size + r.size - r.getPtr) % r.size = (r.elements + 1) % r.size := by
    unfold elements
    rw [Nat.mod_add_mod]
    by_cases hw : r.putPtr + 1 = r.size
    · rw [hw, Nat.mod_self, show r.putPtr + r.size - r.getPtr + 1 = (0 + r.size - r.getPtr) + r.size by omega,
        Nat.add_mod_right]
    · rw [Nat.mod_eq_of_lt (show r.putPtr + 1 < r.size by omega)]
      congr 1
      omega
  rw [hmod, Nat.mod_eq_of_lt (by omega)]

theorem WF.elements_pred (h : r.WF) (hne : r.elements ≠ 0) :
    ({ r with getPtr := (r.getPtr + 1) % r.size } : Ringbufindex).elements + 1 = r.elements := by
  have hlt := h.elements_lt
  have hp := h.put
  have hg := h.get
  have hmod : (({ r with getPtr := (r.getPtr + 1) % r.size } : Ringbufindex).elements + 1) % r.size =
      r.elements % r.size := by
    show ((r.putPtr + r.size - (r.getPtr + 1) % r.size) % r.size + 1) % r.size = _
    unfold elements
    rw [Nat.mod_add_mod, Nat.mod_mod]
    by_cases hw : r.getPtr + 1 = r.size
    · rw [hw, Nat.mod_self, show r.putPtr + r.size - 0 + 1 = (r.putPtr + r.size - r.getPtr) + r.size by omega,
        Nat.add_mod_right]
    · rw [Nat.mod_eq_of_lt (show r.getPtr + 1 < r.size by omega)]
      congr 1
      omega
  have hlt' : ({ r with getPtr := (r.getPtr + 1) % r.size } : Ringbufindex).elements < r.size := Nat.mod_lt _ h.pos
  rw [Nat.mod_eq_of_lt hlt] at hmod
  by_cases he : ({ r with getPtr := (r.getPtr + 1) % r.size } : Ringbufindex).elements + 1 = r.size
  · rw [he, Nat.mod_self] at hmod
    exact absurd hmod.symm hne
  · rwa [Nat.mod_eq_of_lt (by omega)] at hmod

theorem place_inj {j k : Nat} (hj : j < r.size) (hk : k < r.size)
    (he : (r.getPtr + j) % r.size = (r.getPtr + k) % r.size) : j = k := by
  have hmod : j % r.size = k % r.size := Nat.ModEq.add_left_cancel' r.getPtr he
  rwa [Nat.mod_eq_of_lt hj, Nat.mod_eq_of_lt hk] at hmod

theorem WF.contents_nodup (h : r.WF) : (r.contents id).Nodup := by
  have hlt := h.elements_lt
  refine (List.nodup_map_iff_inj_on List.nodup_range).2 ?_
  intro j hj k hk he
  have hj := List.mem_range.1 hj
  have hk := List.mem_range.1 hk
  exact place_inj (by omega) (by omega) he

theorem WF.place_ne_putPtr (h : r.WF) {j : Nat} (hj : j < r.elements) : (r.getPtr + j) % r.size ≠ r.putPtr := by
  have hlt := h.elements_lt
  rw [h.putPtr_eq]
  intro he
  have := place_inj (by omega) hlt he
  omega

theorem WF.putPtr_not_mem (h : r.WF) : r.putPtr ∉ r.contents id := by
  intro hmem
  obtain ⟨j, hj, he⟩ := List.mem_map.1 hmem
  exact h.place_ne_putPtr (List.mem_range.1 hj) he

theorem WF.contents_put (h : r.WF) (hi : r.peekPut = some i) (array : Nat → α) (x : α) :
    r.put.contents (Function.update array i x) = r.contents array ++ [x] := by
  unfold peekPut at hi
  split at hi
  · cases hi
  · rename_i hfull
    cases hi
    have hlt := h.elements_lt
    have hg := h.get
    have hput : r.put = { r with putPtr := (r.putPtr + 1) % r.size } := if_neg hfull
    rw [hput]
    unfold contents
    rw [h.elements_succ hfull, List.range_succ, List.map_append]
    congr 1
    · apply List.map_congr_left
      intro j hj
      have hj := List.mem_range.1 hj
      have hne := h.place_ne_putPtr hj
      simp [hne]
    · simp [← h.putPtr_eq]

theorem WF.contents_get (h : r.WF) (hi : r.peekGet = some i) (array : Nat → α) :
    r.get.2 = some i ∧ r.contents array = array i :: r.get.1.contents array := by
  unfold peekGet at hi
  split at hi
  · cases hi
  · rename_i hne
    cases hi
    have hget : r.get = ({ r with getPtr := (r.getPtr + 1) % r.size }, some r.getPtr) := if_neg hne
    rw [hget]
    refine ⟨rfl, ?_⟩
    unfold contents
    rw [← h.elements_pred hne, List.range_succ_eq_map, List.map_cons, List.map_map]
    congr 1
    · simp [Nat.mod_eq_of_lt h.get]
    · apply List.map_congr_left
      intro j _
      simp only [Function.comp_apply, Nat.mod_add_mod]
      congr 2
      omega

theorem WF.peekPut_get {j : Nat} (h : r.WF) (hj : r.peekPut = some j) : r.get.1.peekPut = some j := by
  unfold Ringbufindex.get
  split
  · exact hj
  · rename_i hne
    have hpred := h.elements_pred hne
    have hlt := h.elements_lt
    unfold peekPut at hj ⊢
    rw [if_neg (show ¬ ({ r with getPtr := (r.getPtr + 1) % r.size } : Ringbufindex).elements = r.size - 1 by omega)]
    split at hj
    · cases hj
    · exact hj

theorem peekGet_none (array : Nat → α) : r.peekGet = none ↔ r.contents array = [] := by
  rw [contents_eq_nil]
  simp [peekGet]

theorem get_none (h : r.peekGet = none) : r.get = (r, none) := by
  unfold peekGet at h
  unfold Ringbufindex.get
  split at h
  · rename_i he
    rw [if_pos he]
  · cases h

theorem WF.peekGet_head (h : r.WF) {array : Nat → α} {x : α} {xs : List α} (hc : r.contents array = x :: xs) :
    ∃ i, r.peekGet = some i ∧ array i = x := by
  cases hi : r.peekGet with
  | none =>
    rw [(peekGet_none array).1 hi] at hc
    cases hc
  | some i =>
    have := (h.contents_get hi array).2
    rw [hc, List.cons.injEq] at this
    exact ⟨i, rfl, this.1.symm⟩

end Ringbufindex

end

/-!
The ring buffer indices of lib/ringbufindex.c as they are in memory, with pointers and mask of 8 bits, as a queue: calls
of a producer and of a consumer, which may interrupt each other between the test of a put or a get and the store of its
pointer. A size of 256 is passed as 0. The indices that are in use are a queue of at most one element less than the size.
-/

section

open Contiki.Lib

/-! ## Bytes -/

/-- `struct ringbufindex`. -/
structure RingbufindexBytes where
  mask : UInt8
  putPtr : UInt8
  getPtr : UInt8
deriving DecidableEq

namespace RingbufindexBytes

/-- `ringbufindex_init`. -/
def init (size : UInt8) : RingbufindexBytes := ⟨size - 1, 0, 0⟩

/-- `ringbufindex_size`. -/
def size (r : RingbufindexBytes) : Nat := r.mask.toNat + 1

/-- `ringbufindex_elements`; an `int` has 32 bits. -/
def elements (r : RingbufindexBytes) : UInt32 := (r.putPtr.toUInt32 - r.getPtr.toUInt32) &&& r.mask.toUInt32

/-- `ringbufindex_full`, the test of `ringbufindex_put` and `ringbufindex_peek_put`. -/
def full (r : RingbufindexBytes) : Bool := r.elements = r.mask.toUInt32

/-- `ringbufindex_empty`, the opposite of the test of `ringbufindex_get` and `ringbufindex_peek_get`. -/
def empty (r : RingbufindexBytes) : Bool := r.elements = 0

/-- The assignment of `ringbufindex_put`. -/
def storePut (r : RingbufindexBytes) : RingbufindexBytes :=
  { r with putPtr := ((r.putPtr.toUInt32 + 1) &&& r.mask.toUInt32).toUInt8 }

/-- The assignment of `ringbufindex_get`. -/
def storeGet (r : RingbufindexBytes) : RingbufindexBytes :=
  { r with getPtr := ((r.getPtr.toUInt32 + 1) &&& r.mask.toUInt32).toUInt8 }

/-- `ringbufindex_put`, with the value it returns. -/
def put (r : RingbufindexBytes) : RingbufindexBytes × Bool := if r.full then (r, false) else (r.storePut, true)

/-- `ringbufindex_peek_put`; -1 is `none`. -/
def peekPut (r : RingbufindexBytes) : Option UInt8 := if r.full then none else some r.putPtr

/-- `ringbufindex_get`, with the index it returns; -1 is `none`. -/
def get (r : RingbufindexBytes) : RingbufindexBytes × Option UInt8 :=
  if r.empty then (r, none) else (r.storeGet, some r.getPtr)

/-- `ringbufindex_peek_get`. -/
def peekGet (r : RingbufindexBytes) : Option UInt8 := if r.empty then none else some r.getPtr

def toRing (r : RingbufindexBytes) : Ringbufindex := ⟨r.size, r.putPtr.toNat, r.getPtr.toNat⟩

/-- The size is a power of two, and the indices are below it. -/
structure WF (r : RingbufindexBytes) : Prop where
  pow : ∃ k, r.size = 2 ^ k
  more : 1 < r.size
  put : r.putPtr.toNat < r.size
  get : r.getPtr.toNat < r.size

variable {r : RingbufindexBytes}

theorem WF.toNat_and (h : r.WF) (x : UInt32) : (x &&& r.mask.toUInt32).toNat = x.toNat % r.size := by
  obtain ⟨k, hk⟩ := h.pow
  have hmask : r.mask.toNat = 2 ^ k - 1 := by rw [← hk]; rfl
  rw [UInt32.toNat_and, UInt8.toNat_toUInt32, hmask, Nat.and_two_pow_sub_one_eq_mod, hk]

theorem WF.size_dvd (h : r.WF) : ∃ m, 2 ^ 32 = r.size * m ∧ 0 < m := by
  obtain ⟨k, hk⟩ := h.pow
  have hle : r.size ≤ 2 ^ 8 := by
    have := r.mask.toNat_lt
    unfold RingbufindexBytes.size
    omega
  have hk8 : k ≤ 8 := (Nat.pow_le_pow_iff_right (by decide)).1 (hk ▸ hle)
  refine ⟨2 ^ (32 - k), ?_, Nat.two_pow_pos _⟩
  rw [hk, ← Nat.pow_add]
  congr 1
  omega

theorem WF.toNat_elements (h : r.WF) : r.elements.toNat = r.toRing.elements := by
  obtain ⟨m, hm, hpos⟩ := h.size_dvd
  have hput := h.put
  have hget := h.get
  obtain ⟨n, rfl⟩ := Nat.exists_eq_succ_of_ne_zero hpos.ne'
  show ((r.putPtr.toUInt32 - r.getPtr.toUInt32) &&& r.mask.toUInt32).toNat = _
  rw [h.toNat_and, UInt32.toNat_sub, UInt8.toNat_toUInt32, UInt8.toNat_toUInt32,
    Nat.mod_mod_of_dvd _ ⟨n.succ, hm⟩]
  show _ = (r.putPtr.toNat + r.size - r.getPtr.toNat) % r.size
  rw [Nat.mul_succ] at hm
  rw [show 2 ^ 32 - r.getPtr.toNat + r.putPtr.toNat = (r.putPtr.toNat + r.size - r.getPtr.toNat) + r.size * n by omega,
    Nat.add_mul_mod_self_left]

theorem WF.toNat_next (h : r.WF) {p : UInt8} (hp : p.toNat < r.size) :
    ((p.toUInt32 + 1) &&& r.mask.toUInt32).toUInt8.toNat = (p.toNat + 1) % r.size := by
  have hle : r.size ≤ 256 := r.mask.toNat_lt
  have hmod : (p.toNat + 1) % r.size < r.size := Nat.mod_lt _ (by omega)
  rw [UInt32.toNat_toUInt8, h.toNat_and, UInt32.toNat_add, UInt8.toNat_toUInt32, UInt32.toNat_one,
    Nat.mod_eq_of_lt (show p.toNat + 1 < 2 ^ 32 by omega), Nat.mod_eq_of_lt (show _ < 2 ^ 8 by omega)]

theorem WF.full_iff (h : r.WF) : r.full = true ↔ r.toRing.elements = r.size - 1 := by
  unfold full
  rw [decide_eq_true_iff, ← UInt32.toNat_inj, h.toNat_elements, UInt8.toNat_toUInt32]
  rfl

theorem WF.empty_iff (h : r.WF) : r.empty = true ↔ r.toRing.elements = 0 := by
  unfold empty
  rw [decide_eq_true_iff, ← UInt32.toNat_inj, h.toNat_elements]
  rfl

theorem WF.toRing_wf (h : r.WF) : r.toRing.WF := ⟨by have := h.more; show 0 < r.size; omega, h.put, h.get⟩

theorem WF.storePut_toRing (h : r.WF) :
    r.storePut.toRing = { r.toRing with putPtr := (r.toRing.putPtr + 1) % r.toRing.size } := by
  unfold toRing storePut RingbufindexBytes.size
  rw [h.toNat_next h.put]
  rfl

theorem WF.storeGet_toRing (h : r.WF) :
    r.storeGet.toRing = { r.toRing with getPtr := (r.toRing.getPtr + 1) % r.toRing.size } := by
  unfold toRing storeGet RingbufindexBytes.size
  rw [h.toNat_next h.get]
  rfl

theorem WF.storePut_wf (h : r.WF) : r.storePut.WF := by
  refine ⟨h.pow, h.more, ?_, h.get⟩
  show ((r.putPtr.toUInt32 + 1) &&& r.mask.toUInt32).toUInt8.toNat < r.size
  rw [h.toNat_next h.put]
  exact Nat.mod_lt _ h.toRing_wf.pos

theorem WF.storeGet_wf (h : r.WF) : r.storeGet.WF := by
  refine ⟨h.pow, h.more, h.put, ?_⟩
  show ((r.getPtr.toUInt32 + 1) &&& r.mask.toUInt32).toUInt8.toNat < r.size
  rw [h.toNat_next h.get]
  exact Nat.mod_lt _ h.toRing_wf.pos

theorem init_wf {k : Nat} (hpos : 1 ≤ k) (hle : k ≤ 8) :
    (init (UInt8.ofNat (2 ^ k))).WF ∧ (init (UInt8.ofNat (2 ^ k))).size = 2 ^ k := by
  have hmask : (UInt8.ofNat (2 ^ k) - 1).toNat = 2 ^ k - 1 := by
    interval_cases k <;> rfl
  have hlow : 2 ^ 1 ≤ 2 ^ k := Nat.pow_le_pow_right (by decide) hpos
  have hsize : (init (UInt8.ofNat (2 ^ k))).size = 2 ^ k := by
    show (UInt8.ofNat (2 ^ k) - 1).toNat + 1 = _
    rw [hmask]
    omega
  refine ⟨⟨⟨k, hsize⟩, ?_, ?_, ?_⟩, hsize⟩
  · rw [hsize]
    omega
  · rw [hsize]
    exact Nat.two_pow_pos k
  · rw [hsize]
    exact Nat.two_pow_pos k

end RingbufindexBytes

/-! ## Calls -/

/-- The calls of the producer and the consumer, each also in two steps: the test, which reads the other's pointer, and
the assignment of its own. -/
inductive RingAction
  | put | putTest | putStore | peekPut
  | get | getTest | getStore | peekGet
  | elements
deriving DecidableEq

/-- What a call returns, or that its test has passed. -/
inductive Reply
  | passed | stored | index (i : Nat) | refused | count (n : Nat)
deriving DecidableEq

/-- A ring buffer, whether its producer and its consumer are between test and assignment, and what was returned so far,
the latest first. -/
structure RingWorld where
  ring : RingbufindexBytes
  putting : Bool
  getting : Bool
  replies : List Reply

namespace RingWorld

def reply (w : RingWorld) (r : Reply) : RingWorld := { w with replies := r :: w.replies }

def ofIndex : Option UInt8 → Reply
  | none => .refused
  | some i => .index i.toNat

/-- One step; the producer and the consumer each make one call at a time. -/
def step (w : RingWorld) : RingAction → Option RingWorld
  | .put => if w.putting then none else
    some ({ w with ring := w.ring.put.1 }.reply (if w.ring.put.2 then .stored else .refused))
  | .putTest => if w.putting then none else
    some (if w.ring.full then w.reply .refused else { w with putting := true }.reply .passed)
  | .putStore => if w.putting then
    some ({ w with ring := w.ring.storePut, putting := false }.reply .stored) else none
  | .peekPut => if w.putting then none else some (w.reply (ofIndex w.ring.peekPut))
  | .get => if w.getting then none else
    some ({ w with ring := w.ring.get.1 }.reply (ofIndex w.ring.get.2))
  | .getTest => if w.getting then none else
    some (if w.ring.empty then w.reply .refused else { w with getting := true }.reply .passed)
  | .getStore => if w.getting then
    some ({ w with ring := w.ring.storeGet, getting := false }.reply (.index w.ring.getPtr.toNat)) else none
  | .peekGet => if w.getting then none else some (w.reply (ofIndex w.ring.peekGet))
  | .elements => some (w.reply (.count w.ring.elements.toNat))

/-- After `ringbufindex_init`. -/
def start (size : UInt8) : RingWorld := ⟨.init size, false, false, []⟩

end RingWorld

/-! ## The queue -/

/-- A bounded queue of indices: those in use, the first to go first, and the index that the next element gets. -/
structure IndexQueue where
  queue : List Nat
  next : Nat
  putting : Bool
  getting : Bool
  replies : List Reply

namespace IndexQueue

def reply (q : IndexQueue) (r : Reply) : IndexQueue := { q with replies := r :: q.replies }

def push (size : Nat) (q : IndexQueue) : IndexQueue :=
  { q with queue := q.queue ++ [q.next], next := (q.next + 1) % size }

def first (q : IndexQueue) : Reply := (q.queue.head?.map Reply.index).getD .refused

/-- One step of a queue that holds at most `size - 1` elements. -/
def step (size : Nat) (q : IndexQueue) : RingAction → Option IndexQueue
  | .put => if q.putting then none else
    some (if q.queue.length = size - 1 then q.reply .refused else (q.push size).reply .stored)
  | .putTest => if q.putting then none else
    some (if q.queue.length = size - 1 then q.reply .refused else { q with putting := true }.reply .passed)
  | .putStore => if q.putting then some ({ q.push size with putting := false }.reply .stored) else none
  | .peekPut => if q.putting then none else
    some (q.reply (if q.queue.length = size - 1 then .refused else .index q.next))
  | .get => if q.getting then none else some ({ q with queue := q.queue.tail }.reply q.first)
  | .getTest => if q.getting then none else
    some (if q.queue.length = 0 then q.reply .refused else { q with getting := true }.reply .passed)
  | .getStore => if q.getting then
    some ({ q with queue := q.queue.tail, getting := false }.reply q.first) else none
  | .peekGet => if q.getting then none else some (q.reply q.first)
  | .elements => some (q.reply (.count q.queue.length))

def start : IndexQueue := ⟨[], 0, false, false, []⟩

end IndexQueue

/-! ## Refinement -/

namespace RingbufindexBytes

variable {r : RingbufindexBytes}

theorem WF.queue_storePut (h : r.WF) (hfull : r.full = false) :
    r.storePut.toRing.contents id = r.toRing.contents id ++ [r.putPtr.toNat] := by
  have hne : ¬ r.toRing.elements = r.toRing.size - 1 := fun he => by
    rw [h.full_iff.2 he] at hfull
    cases hfull
  have hpeek : r.toRing.peekPut = some r.putPtr.toNat := if_neg hne
  have hput := h.toRing_wf.contents_put hpeek id r.putPtr.toNat
  rw [show Function.update id r.putPtr.toNat r.putPtr.toNat = id from Function.update_eq_self _ id] at hput
  rw [← hput, h.storePut_toRing]
  unfold Ringbufindex.put
  rw [if_neg hne]

theorem WF.queue_storeGet (h : r.WF) (hempty : r.empty = false) :
    r.toRing.contents id = r.getPtr.toNat :: r.storeGet.toRing.contents id := by
  have hne : ¬ r.toRing.elements = 0 := fun he => by
    rw [h.empty_iff.2 he] at hempty
    cases hempty
  have hpeek : r.toRing.peekGet = some r.getPtr.toNat := if_neg hne
  obtain ⟨-, hget⟩ := h.toRing_wf.contents_get hpeek id
  rw [h.storeGet_toRing, hget]
  unfold Ringbufindex.get
  rw [if_neg hne]
  rfl

theorem WF.full_queue (h : r.WF) : r.full = true ↔ (r.toRing.contents id).length = r.size - 1 := by
  rw [h.full_iff, Ringbufindex.length_contents]

theorem WF.empty_queue (h : r.WF) : r.empty = true ↔ (r.toRing.contents id).length = 0 := by
  rw [h.empty_iff, Ringbufindex.length_contents]

end RingbufindexBytes

namespace RingWorld

def queue (w : RingWorld) : IndexQueue :=
  ⟨w.ring.toRing.contents id, w.ring.putPtr.toNat, w.putting, w.getting, w.replies⟩

/-- Between a test and its assignment there is still a place, or an element. -/
structure Inv (size : Nat) (w : RingWorld) : Prop where
  wf : w.ring.WF
  size : w.ring.size = size
  putting : w.putting = true → w.ring.full = false
  getting : w.getting = true → w.ring.empty = false

variable {size : Nat} {w w' : RingWorld}

theorem Inv.reply (h : w.Inv size) (r : Reply) : (w.reply r).Inv size := ⟨h.wf, h.size, h.putting, h.getting⟩

theorem Inv.storePut (h : w.Inv size) (hfull : w.ring.full = false) :
    ({ w with ring := w.ring.storePut, putting := false } : RingWorld).Inv size := by
  refine ⟨h.wf.storePut_wf, h.size, by rintro ⟨⟩, fun _ => ?_⟩
  rw [Bool.eq_false_iff, ne_eq, h.wf.storePut_wf.empty_queue, h.wf.queue_storePut hfull]
  simp

theorem Inv.storeGet (h : w.Inv size) (hempty : w.ring.empty = false) :
    ({ w with ring := w.ring.storeGet, getting := false } : RingWorld).Inv size := by
  refine ⟨h.wf.storeGet_wf, h.size, fun _ => ?_, by rintro ⟨⟩⟩
  have hlt := h.wf.toRing_wf.elements_lt
  have hlen := congrArg List.length (h.wf.queue_storeGet hempty)
  rw [List.length_cons, Ringbufindex.length_contents] at hlen
  rw [Bool.eq_false_iff, ne_eq, h.wf.storeGet_wf.full_queue]
  have hsize : w.ring.storeGet.size = w.ring.toRing.size := rfl
  omega

theorem Inv.step {a : RingAction} (h : w.Inv size) (hs : w.step a = some w') : w'.Inv size := by
  cases a with
  | put =>
    simp only [RingWorld.step, Option.ite_none_left_eq_some, Option.some.injEq] at hs
    obtain ⟨hput, rfl⟩ := hs
    cases hfull : w.ring.full with
    | true => simpa [RingbufindexBytes.put, hfull] using h.reply .refused
    | false => simpa [RingbufindexBytes.put, hfull, hput] using (h.storePut hfull).reply .stored
  | putTest =>
    simp only [RingWorld.step, Option.ite_none_left_eq_some, Option.some.injEq] at hs
    obtain ⟨-, rfl⟩ := hs
    split
    · exact h.reply .refused
    · rename_i hfull
      rw [Bool.not_eq_true] at hfull
      exact ⟨h.wf, h.size, fun _ => hfull, h.getting⟩
  | putStore =>
    simp only [RingWorld.step, Option.ite_none_right_eq_some, Option.some.injEq] at hs
    obtain ⟨hput, rfl⟩ := hs
    exact (h.storePut (h.putting hput)).reply .stored
  | peekPut =>
    simp only [RingWorld.step, Option.ite_none_left_eq_some, Option.some.injEq] at hs
    obtain ⟨-, rfl⟩ := hs
    exact h.reply _
  | get =>
    simp only [RingWorld.step, Option.ite_none_left_eq_some, Option.some.injEq] at hs
    obtain ⟨hget, rfl⟩ := hs
    cases hempty : w.ring.empty with
    | true => simpa [RingbufindexBytes.get, hempty] using h.reply (ofIndex none)
    | false => simpa [RingbufindexBytes.get, hempty, hget] using (h.storeGet hempty).reply _
  | getTest =>
    simp only [RingWorld.step, Option.ite_none_left_eq_some, Option.some.injEq] at hs
    obtain ⟨-, rfl⟩ := hs
    split
    · exact h.reply .refused
    · rename_i hempty
      rw [Bool.not_eq_true] at hempty
      exact ⟨h.wf, h.size, h.putting, fun _ => hempty⟩
  | getStore =>
    simp only [RingWorld.step, Option.ite_none_right_eq_some, Option.some.injEq] at hs
    obtain ⟨hget, rfl⟩ := hs
    exact (h.storeGet (h.getting hget)).reply _
  | peekGet =>
    simp only [RingWorld.step, Option.ite_none_left_eq_some, Option.some.injEq] at hs
    obtain ⟨-, rfl⟩ := hs
    exact h.reply _
  | elements =>
    cases hs
    exact h.reply _

theorem Inv.full_iff (h : w.Inv size) : w.ring.full = true ↔ w.queue.queue.length = size - 1 :=
  h.size ▸ h.wf.full_queue

theorem Inv.empty_iff (h : w.Inv size) : w.ring.empty = true ↔ w.queue.queue.length = 0 := h.wf.empty_queue

theorem Inv.queue_storePut (h : w.Inv size) (hfull : w.ring.full = false) :
    ({ w with ring := w.ring.storePut, putting := false } : RingWorld).queue =
      { w.queue.push size with putting := false } := by
  show IndexQueue.mk (w.ring.storePut.toRing.contents id) w.ring.storePut.putPtr.toNat _ _ _ = _
  rw [h.wf.queue_storePut hfull, ← h.size]
  have hnext : w.ring.storePut.putPtr.toNat = (w.ring.putPtr.toNat + 1) % w.ring.size := h.wf.toNat_next h.wf.put
  rw [hnext]
  rfl

theorem Inv.queue_storeGet (h : w.Inv size) (hempty : w.ring.empty = false) :
    w.queue.first = .index w.ring.getPtr.toNat ∧
    ({ w with ring := w.ring.storeGet, getting := false } : RingWorld).queue =
      { w.queue with queue := w.queue.queue.tail, getting := false } := by
  have hqueue : w.queue.queue = w.ring.getPtr.toNat :: w.ring.storeGet.toRing.contents id :=
    h.wf.queue_storeGet hempty
  constructor
  · unfold IndexQueue.first
    rw [hqueue]
    rfl
  · rw [hqueue]
    rfl

theorem Inv.first_empty (h : w.Inv size) (hempty : w.ring.empty = true) :
    w.queue.queue = [] ∧ w.queue.first = .refused := by
  have hnil : w.queue.queue = [] := List.length_eq_zero_iff.1 (h.empty_iff.1 hempty)
  refine ⟨hnil, ?_⟩
  unfold IndexQueue.first
  rw [hnil]
  rfl

theorem Inv.not_full_iff (h : w.Inv size) (hfull : w.ring.full = false) : ¬ w.queue.queue.length = size - 1 := by
  rw [← h.full_iff, hfull]
  decide

theorem Inv.not_empty_iff (h : w.Inv size) (hempty : w.ring.empty = false) : ¬ w.queue.queue.length = 0 := by
  rw [← h.empty_iff, hempty]
  decide

theorem step_queue_put {ring : RingbufindexBytes} {getting : Bool} {replies : List Reply}
    (h : Inv size ⟨ring, false, getting, replies⟩) {a : RingAction} (ha : a = .put ∨ a = .putTest ∨ a = .peekPut) :
    (step ⟨ring, false, getting, replies⟩ a).map queue = (queue ⟨ring, false, getting, replies⟩).step size a := by
  unfold step IndexQueue.step
  cases hfull : ring.full with
  | true =>
    have hlen := h.full_iff.1 hfull
    rcases ha with rfl | rfl | rfl
    · simp only [RingbufindexBytes.put, hfull, hlen, if_true]
      rfl
    · simp only [hlen, if_true]
      rfl
    · simp only [RingbufindexBytes.peekPut, hfull, hlen, if_true]
      rfl
  | false =>
    have hlen := h.not_full_iff hfull
    rcases ha with rfl | rfl | rfl
    · have hstore := h.queue_storePut hfull
      simp only [RingbufindexBytes.put, hfull, hlen, if_false, Bool.false_eq_true, if_true]
      exact congrArg (fun q => some (IndexQueue.reply q .stored)) hstore
    · simp only [hlen, if_false, Bool.false_eq_true]
      rfl
    · simp only [RingbufindexBytes.peekPut, hfull, hlen, if_false, Bool.false_eq_true]
      rfl

theorem step_queue_get {ring : RingbufindexBytes} {putting : Bool} {replies : List Reply}
    (h : Inv size ⟨ring, putting, false, replies⟩) {a : RingAction} (ha : a = .get ∨ a = .getTest ∨ a = .peekGet) :
    (step ⟨ring, putting, false, replies⟩ a).map queue = (queue ⟨ring, putting, false, replies⟩).step size a := by
  unfold step IndexQueue.step
  cases hempty : ring.empty with
  | true =>
    have hlen := h.empty_iff.1 hempty
    obtain ⟨hnil, hfirst⟩ := h.first_empty hempty
    rcases ha with rfl | rfl | rfl
    · simp only [RingbufindexBytes.get, hempty, hfirst, hnil, if_true]
      show some (IndexQueue.mk (ring.toRing.contents id) _ _ _ _) = _
      rw [show ring.toRing.contents id = [] from hnil]
      rfl
    · simp only [hlen, if_true]
      rfl
    · simp only [RingbufindexBytes.peekGet, hempty, hfirst, if_true]
      rfl
  | false =>
    have hlen := h.not_empty_iff hempty
    obtain ⟨hfirst, hstore⟩ := h.queue_storeGet hempty
    rcases ha with rfl | rfl | rfl
    · simp only [RingbufindexBytes.get, hempty, hfirst, if_false, Bool.false_eq_true]
      exact congrArg (fun q => some (IndexQueue.reply q (.index ring.getPtr.toNat))) hstore
    · simp only [hlen, if_false, Bool.false_eq_true]
      rfl
    · simp only [RingbufindexBytes.peekGet, hempty, hfirst, if_false, Bool.false_eq_true]
      rfl

theorem step_queue (h : w.Inv size) (a : RingAction) : (w.step a).map queue = w.queue.step size a := by
  obtain ⟨ring, putting, getting, replies⟩ := w
  cases a with
  | put =>
    cases putting with
    | true => rfl
    | false => exact step_queue_put h (.inl rfl)
  | putTest =>
    cases putting with
    | true => rfl
    | false => exact step_queue_put h (.inr (.inl rfl))
  | putStore =>
    cases putting with
    | false => rfl
    | true => exact congrArg (fun q => some (IndexQueue.reply q .stored)) (h.queue_storePut (h.putting rfl))
  | peekPut =>
    cases putting with
    | true => rfl
    | false => exact step_queue_put h (.inr (.inr rfl))
  | get =>
    cases getting with
    | true => rfl
    | false => exact step_queue_get h (.inl rfl)
  | getTest =>
    cases getting with
    | true => rfl
    | false => exact step_queue_get h (.inr (.inl rfl))
  | getStore =>
    cases getting with
    | false => rfl
    | true =>
      obtain ⟨hfirst, hstore⟩ := h.queue_storeGet (h.getting rfl)
      unfold IndexQueue.step
      rw [hfirst]
      exact congrArg (fun q => some (IndexQueue.reply q (.index ring.getPtr.toNat))) hstore
  | peekGet =>
    cases getting with
    | true => rfl
    | false => exact step_queue_get h (.inr (.inr rfl))
  | elements =>
    have hcount : ring.elements.toNat = (ring.toRing.contents id).length := by
      rw [h.wf.toNat_elements, Ringbufindex.length_contents]
    exact congrArg (fun n => some (IndexQueue.reply (queue ⟨ring, putting, getting, replies⟩) (.count n))) hcount

theorem start_inv {k : Nat} (hpos : 1 ≤ k) (hle : k ≤ 8) : (start (UInt8.ofNat (2 ^ k))).Inv (2 ^ k) := by
  obtain ⟨hwf, hsize⟩ := RingbufindexBytes.init_wf hpos hle
  exact ⟨hwf, hsize, by rintro ⟨⟩, by rintro ⟨⟩⟩

theorem start_queue (size : UInt8) : (start size).queue = .start := by
  show IndexQueue.mk ((RingbufindexBytes.init size).toRing.contents id) _ _ _ _ = _
  rw [show (RingbufindexBytes.init size).toRing = Ringbufindex.init (RingbufindexBytes.init size).size from rfl,
    Ringbufindex.init_contents]
  rfl

end RingWorld

/-- For the sizes from 2 to 256: over every order of the steps, what the calls return is what they return on a queue of
at most one element less than the size, and the index that the next element gets is none of those in use. -/
theorem ringbufindex_refines {k : Nat} (hpos : 1 ≤ k) (hle : k ≤ 8) (actions : List RingAction) :
    (exec RingWorld.step (.start (UInt8.ofNat (2 ^ k))) actions).map RingWorld.queue =
      exec (IndexQueue.step (2 ^ k)) .start actions ∧
    ∀ w, exec RingWorld.step (.start (UInt8.ofNat (2 ^ k))) actions = some w →
      w.queue.queue.length ≤ 2 ^ k - 1 ∧ w.queue.queue.Nodup ∧ w.queue.next ∉ w.queue.queue := by
  have hstart := RingWorld.start_inv hpos hle
  constructor
  · rw [← RingWorld.start_queue (UInt8.ofNat (2 ^ k))]
    exact exec_map (fun _ _ _ h hs => h.step hs) (fun _ a h => RingWorld.step_queue h a) actions hstart
  · intro w hw
    have h := exec_invariant (fun _ _ _ h hs => h.step hs) actions hstart hw
    have hlt := h.wf.toRing_wf.elements_lt
    have hsize : w.ring.toRing.size = 2 ^ k := h.size
    refine ⟨?_, h.wf.toRing_wf.contents_nodup, h.wf.toRing_wf.putPtr_not_mem⟩
    show (w.ring.toRing.contents id).length ≤ _
    rw [Ringbufindex.length_contents]
    omega

/-- A size of 256, a put that a get interrupts, and a get that a put interrupts. -/
theorem ringbufindex_refines_interrupted : 1 ≤ 8 ∧ 8 ≤ 8 ∧ (exec RingWorld.step (.start (UInt8.ofNat (2 ^ 8)))
      [.put, .putTest, .get, .putStore, .getTest, .peekPut, .put, .getStore]).map RingWorld.queue =
      exec (IndexQueue.step (2 ^ 8)) .start [.put, .putTest, .get, .putStore, .getTest, .peekPut, .put, .getStore] ∧
    ∀ w, exec RingWorld.step (.start (UInt8.ofNat (2 ^ 8)))
        [.put, .putTest, .get, .putStore, .getTest, .peekPut, .put, .getStore] = some w →
      w.queue.queue.length ≤ 2 ^ 8 - 1 ∧ w.queue.queue.Nodup ∧ w.queue.next ∉ w.queue.queue :=
  ⟨by decide, by decide, ringbufindex_refines (k := 8) (by decide) (by decide)
    [.put, .putTest, .get, .putStore, .getTest, .peekPut, .put, .getStore]⟩

end

end Contiki.Core

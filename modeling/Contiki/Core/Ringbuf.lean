/-
The ring buffer of lib/ringbuf.c between a producer and a consumer. Each of them may be interrupted between its test, its
access to the data and the store of its own pointer, and the other may go on meanwhile.
-/
import Contiki.Core.Ringbufindex

namespace Contiki.Core

open Contiki.Lib

/-- `struct ringbuf`: the mask and the pointers are those of `struct ringbufindex`, and so are the tests. -/
structure Ringbuf where
  index : RingbufindexBytes
  data : Nat → UInt8

/-- How far `ringbuf_put` has come. -/
inductive Putting
  | idle | tested (c : UInt8) | written (c : UInt8)
deriving DecidableEq

/-- How far `ringbuf_get` has come. -/
inductive Getting
  | idle | tested | read (c : UInt8)
deriving DecidableEq

inductive RingbufAction
  | putTest (c : UInt8) | putData | putPtr
  | getTest | getData | getPtr

/-- A ring buffer, its two users, and the bytes for which `ringbuf_put` and `ringbuf_get` have returned. -/
structure RingbufWorld where
  ring : Ringbuf
  putting : Putting
  getting : Getting
  accepted : List UInt8
  got : List UInt8

namespace RingbufWorld

/-- One access of `ringbuf_put` or `ringbuf_get`; a test that fails ends its call. -/
def step (w : RingbufWorld) (a : RingbufAction) : Option RingbufWorld :=
  match a, w.putting, w.getting with
  | .putTest c, .idle, _ => some { w with putting := if w.ring.index.full then .idle else .tested c }
  | .putData, .tested c, _ => some { w with
      ring := { w.ring with data := Function.update w.ring.data w.ring.index.putPtr.toNat c }, putting := .written c }
  | .putPtr, .written c, _ => some { w with
      ring := { w.ring with index := w.ring.index.storePut }, putting := .idle, accepted := w.accepted ++ [c] }
  | .getTest, _, .idle => some { w with getting := if w.ring.index.empty then .idle else .tested }
  | .getData, _, .tested => some { w with getting := .read (w.ring.data w.ring.index.getPtr.toNat) }
  | .getPtr, _, .read c => some { w with
      ring := { w.ring with index := w.ring.index.storeGet }, getting := .idle, got := w.got ++ [c] }
  | _, _, _ => none

/-- After `ringbuf_init` with an array of any content. -/
def start (size : UInt8) (data : Nat → UInt8) : RingbufWorld := ⟨⟨.init size, data⟩, .idle, .idle, [], []⟩

end RingbufWorld

/-! ## The bytes that are held -/

namespace RingbufindexBytes

variable {r : RingbufindexBytes} (data : Nat → UInt8)

theorem WF.contents_storePut (h : r.WF) (hfull : r.full = false) :
    r.storePut.toRing.contents data = r.toRing.contents data ++ [data r.putPtr.toNat] := by
  have hne : ¬ r.toRing.elements = r.toRing.size - 1 := fun he => by
    rw [h.full_iff.2 he] at hfull
    cases hfull
  have hput := h.toRing_wf.contents_put (show r.toRing.peekPut = some r.putPtr.toNat from if_neg hne) data
    (data r.putPtr.toNat)
  rw [Function.update_eq_self] at hput
  rw [← hput, h.storePut_toRing]
  rw [Ringbufindex.put, if_neg hne]

theorem WF.contents_storeGet (h : r.WF) (hempty : r.empty = false) :
    r.toRing.contents data = data r.getPtr.toNat :: r.storeGet.toRing.contents data := by
  have hne : ¬ r.toRing.elements = 0 := fun he => by
    rw [h.empty_iff.2 he] at hempty
    cases hempty
  obtain ⟨-, hget⟩ := h.toRing_wf.contents_get (show r.toRing.peekGet = some r.getPtr.toNat from if_neg hne) data
  rw [h.storeGet_toRing, hget]
  rw [Ringbufindex.get, if_neg hne]

/-- The place for the next byte holds none of those that are waiting. -/
theorem WF.contents_update (h : r.WF) (c : UInt8) :
    r.toRing.contents (Function.update data r.putPtr.toNat c) = r.toRing.contents data := by
  apply List.map_congr_left
  intro j hj
  exact Function.update_of_ne (h.toRing_wf.place_ne_putPtr (List.mem_range.1 hj)) c data

end RingbufindexBytes

/-! ## Runs -/

namespace RingbufWorld

/-- What was accepted is what was got and what is held. A call behind its test has its place or its byte, and a byte that
was written or read is the one at the pointer. -/
structure Inv (size : Nat) (w : RingbufWorld) : Prop where
  wf : w.ring.index.WF
  size : w.ring.index.size = size
  room : w.putting ≠ .idle → w.ring.index.full = false
  written : ∀ c, w.putting = .written c → w.ring.data w.ring.index.putPtr.toNat = c
  waiting : w.getting ≠ .idle → w.ring.index.empty = false
  read : ∀ c, w.getting = .read c → w.ring.data w.ring.index.getPtr.toNat = c
  held : w.accepted = w.got ++ w.ring.index.toRing.contents w.ring.data

variable {size : Nat} {w w' : RingbufWorld}

theorem getPtr_ne_putPtr {r : RingbufindexBytes} (h : r.WF) (hempty : r.empty = false) : r.getPtr.toNat ≠ r.putPtr.toNat := by
  have hpos : 0 < r.toRing.elements := Nat.pos_of_ne_zero fun he => by
    rw [h.empty_iff.2 he] at hempty
    cases hempty
  have hne := h.toRing_wf.place_ne_putPtr hpos
  rwa [Nat.add_zero, Nat.mod_eq_of_lt h.toRing_wf.get] at hne

theorem not_empty_storePut {r : RingbufindexBytes} (h : r.WF) (hfull : r.full = false) : r.storePut.empty = false := by
  have hlen := congrArg List.length (h.contents_storePut (fun _ => 0) hfull)
  rw [List.length_append, Ringbufindex.length_contents, List.length_singleton] at hlen
  rw [Bool.eq_false_iff, ne_eq, h.storePut_wf.empty_iff]
  omega

theorem not_full_storeGet {r : RingbufindexBytes} (h : r.WF) (hempty : r.empty = false) : r.storeGet.full = false := by
  have hlen := congrArg List.length (h.contents_storeGet (fun _ => 0) hempty)
  have hlt := h.toRing_wf.elements_lt
  rw [List.length_cons, Ringbufindex.length_contents, Ringbufindex.length_contents] at hlen
  rw [Bool.eq_false_iff, ne_eq, h.storeGet_wf.full_iff]
  have hsize : r.storeGet.size = r.toRing.size := rfl
  omega

theorem Inv.step {a : RingbufAction} (h : w.Inv size) (hs : w.step a = some w') : w'.Inv size := by
  unfold RingbufWorld.step at hs
  split at hs
  -- the test, the access and the store of a put
  · cases hs
    refine ⟨h.wf, h.size, fun hp => ?_, fun c' hp => ?_, h.waiting, h.read, h.held⟩
    · by_contra hfull
      exact hp (if_pos (Bool.not_eq_false _ ▸ hfull))
    · dsimp only at hp
      split at hp <;> cases hp
  · cases hs
    rename_i c hp
    refine ⟨h.wf, h.size, fun _ => h.room (by rw [hp]; nofun), fun c' hc => ?_, h.waiting, fun c' hc => ?_, ?_⟩
    · cases hc
      exact Function.update_self ..
    -- a byte that was read stands at another place than the one that is written
    · have hempty := h.waiting (by rw [show w.getting = .read c' from hc]; nofun)
      exact (Function.update_of_ne (getPtr_ne_putPtr h.wf hempty) c _).trans (h.read c' hc)
    · exact h.held.trans (congrArg (w.got ++ ·) (h.wf.contents_update w.ring.data c).symm)
  · cases hs
    rename_i c hp
    have hfull := h.room (by rw [hp]; nofun)
    refine ⟨h.wf.storePut_wf, h.size, fun hne => absurd rfl hne, nofun, fun _ => not_empty_storePut h.wf hfull, h.read, ?_⟩
    show w.accepted ++ [c] = _
    rw [h.wf.contents_storePut w.ring.data hfull, h.written c hp, h.held, List.append_assoc]
  -- and those of a get
  · cases hs
    refine ⟨h.wf, h.size, h.room, h.written, fun hg => ?_, fun c hg => ?_, h.held⟩
    · by_contra hempty
      exact hg (if_pos (Bool.not_eq_false _ ▸ hempty))
    · dsimp only at hg
      split at hg <;> cases hg
  · cases hs
    rename_i hg
    refine ⟨h.wf, h.size, h.room, h.written, fun _ => h.waiting (by rw [hg]; nofun), fun c hc => ?_, h.held⟩
    cases hc
    rfl
  · cases hs
    rename_i c hg
    have hempty := h.waiting (by rw [hg]; nofun)
    refine ⟨h.wf.storeGet_wf, h.size, fun _ => not_full_storeGet h.wf hempty, h.written, fun hne => absurd rfl hne, nofun, ?_⟩
    show w.accepted = (w.got ++ [c]) ++ _
    rw [h.held, h.wf.contents_storeGet w.ring.data hempty, h.read c hg, List.append_assoc]
    rfl
  · cases hs

theorem start_inv {k : Nat} (hpos : 1 ≤ k) (hle : k ≤ 8) (data : Nat → UInt8) :
    (start (UInt8.ofNat (2 ^ k)) data).Inv (2 ^ k) := by
  obtain ⟨hwf, hsize⟩ := RingbufindexBytes.init_wf hpos hle
  exact ⟨hwf, hsize, fun h => absurd rfl h, nofun, fun h => absurd rfl h, nofun,
    (Ringbufindex.init_contents _ data).symm⟩

/-- However the calls interrupt each other, the bytes got are the first of those accepted, in their order. At most
`size - 1` bytes are held, a put is refused exactly when it finds so many, and a get when it finds none. -/
theorem ringbuf_run {k : Nat} (hpos : 1 ≤ k) (hle : k ≤ 8) (data : Nat → UInt8) (as : List RingbufAction) {w : RingbufWorld}
    (hrun : exec RingbufWorld.step (start (UInt8.ofNat (2 ^ k)) data) as = some w) :
    (∃ held : List UInt8, w.accepted = w.got ++ held ∧ held.length < 2 ^ k ∧ w.ring.index.elements.toNat = held.length ∧
      (w.ring.index.full = true ↔ held.length = 2 ^ k - 1) ∧ (w.ring.index.empty = true ↔ held = []) ∧
      ∀ c, w.getting = .read c → held.head? = some c) := by
  have h : w.Inv (2 ^ k) := exec_invariant (fun _ _ _ hs hstep => hs.step hstep) as (start_inv hpos hle data) hrun
  have hlen : (w.ring.index.toRing.contents w.ring.data).length = w.ring.index.toRing.elements :=
    Ringbufindex.length_contents w.ring.data
  have hsize : w.ring.index.toRing.size = 2 ^ k := h.size
  refine ⟨_, h.held, ?_, ?_, ?_, ?_, fun c hc => ?_⟩
  · rw [hlen, ← hsize]
    exact h.wf.toRing_wf.elements_lt
  · rw [hlen, h.wf.toNat_elements]
  · rw [hlen, h.wf.full_iff, h.size]
  · rw [h.wf.empty_iff, ← Ringbufindex.contents_eq_nil w.ring.data]
  · rw [h.wf.contents_storeGet w.ring.data (h.waiting (by rw [hc]; nofun)), h.read c hc]
    rfl

/-- Each side is interrupted behind its test by the other. -/
def interrupted : List RingbufAction := [.putTest 7, .getTest, .putData, .putPtr, .getTest, .putTest 8, .getData, .getPtr]

theorem ringbuf_run_interrupted : ∃ w, exec RingbufWorld.step (start (UInt8.ofNat (2 ^ 1)) fun _ => 0) interrupted = some w ∧
    w.got = [7] ∧ ∃ held : List UInt8, w.accepted = w.got ++ held ∧ held.length < 2 ^ 1 := by
  obtain ⟨w, hw, hgot⟩ := Option.map_eq_some_iff.1 (show
    (exec RingbufWorld.step (start (UInt8.ofNat (2 ^ 1)) fun _ => 0) interrupted).map got = some [7] by decide)
  obtain ⟨held, hheld, hlt, -⟩ := ringbuf_run (show 1 ≤ 1 by decide) (show 1 ≤ 8 by decide) (fun _ => 0) interrupted hw
  exact ⟨w, hw, hgot, held, hheld, hlt⟩

end RingbufWorld

end Contiki.Core

/-
A ring buffer that overwrites its oldest element when it is full: an array with the place of the oldest element, the
place for the next one and the number of elements. After `xs` was pushed into an empty buffer, the occupied places hold
the last elements of `xs`.
-/
import Mathlib.Tactic

namespace Contiki.Lib

structure RingBuffer (α : Type) where
  buffer : Nat → α
  head : Nat
  tail : Nat
  count : Nat

namespace RingBuffer

variable {α : Type} {size : Nat}

def clear (r : RingBuffer α) : RingBuffer α := { r with head := 0, tail := 0, count := 0 }

def push (size : Nat) (r : RingBuffer α) (x : α) : RingBuffer α where
  buffer := Function.update r.buffer r.tail x
  head := if r.count = size then (r.head + 1) % size else r.head
  tail := (r.tail + 1) % size
  count := if r.count = size then r.count else r.count + 1

/-- The buffer into which `xs` was pushed since it was empty. -/
structure Holds (size : Nat) (r : RingBuffer α) (xs : List α) : Prop where
  tail : r.tail = xs.length % size
  count : r.count = min xs.length size
  head : r.head = if xs.length ≤ size then 0 else xs.length % size
  newest : ∀ m (h : m < xs.length), xs.length ≤ m + size → r.buffer (m % size) = xs[m]

theorem clear_holds (r : RingBuffer α) (size : Nat) : r.clear.Holds size [] where
  tail := (Nat.zero_mod size).symm
  count := (Nat.zero_min size).symm
  head := rfl
  newest := fun m h => absurd h (Nat.not_lt_zero m)

theorem Holds.push {r : RingBuffer α} {xs : List α} (h : r.Holds size xs) (x : α) :
    (r.push size x).Holds size (xs ++ [x]) := by
  have hlen : (xs ++ [x]).length = xs.length + 1 := List.length_append
  constructor
  case tail =>
    rw [hlen]
    show (r.tail + 1) % size = _
    rw [h.tail, Nat.mod_add_mod]
  case count =>
    rw [hlen]
    show (if r.count = size then r.count else r.count + 1) = _
    rw [h.count]
    split <;> omega
  case head =>
    rw [hlen]
    show (if r.count = size then (r.head + 1) % size else r.head) = _
    rw [h.count, h.head]
    by_cases hfull : size ≤ xs.length
    · rw [if_pos (by omega), if_neg (show ¬ xs.length + 1 ≤ size by omega)]
      rcases Nat.eq_or_lt_of_le hfull with he | hlt
      · rw [if_pos he.ge, ← he, Nat.zero_add, Nat.add_mod_left]
      · rw [if_neg (by omega), Nat.mod_add_mod]
    · rw [if_neg (by omega), if_pos (by omega), if_pos (by omega)]
  case newest =>
    intro m hm hnew
    rw [hlen] at hm hnew
    show Function.update r.buffer r.tail x (m % size) = _
    rw [h.tail]
    rcases Nat.eq_or_lt_of_le (Nat.le_of_lt_succ hm) with rfl | hlt
    · rw [Function.update_self, List.getElem_concat_length rfl]
    · have hne : m % size ≠ xs.length % size := by
        intro he
        have hdvd : size ∣ xs.length - m := (Nat.modEq_iff_dvd' hlt.le).1 he
        have := Nat.le_of_dvd (by omega) hdvd
        omega
      rw [Function.update_of_ne hne, h.newest m hlt (by omega), List.getElem_append_left]

/-- The occupied places hold the last elements that were pushed. -/
theorem Holds.mem_iff {r : RingBuffer α} {xs : List α} (h : r.Holds size xs) (hsize : 0 < size) (x : α) :
    (∃ k < r.count, r.buffer k = x) ↔ x ∈ xs.drop (xs.length - size) := by
  rw [List.mem_iff_getElem]
  constructor
  · rintro ⟨k, hk, rfl⟩
    rw [h.count] at hk
    -- the last number below the length that is congruent to `k`
    obtain ⟨m, hm, hnew, hmod⟩ : ∃ m, m < xs.length ∧ xs.length ≤ m + size ∧ m % size = k := by
      have hdiv := Nat.div_add_mod (xs.length - 1 - k) size
      have hlt := Nat.mod_lt (xs.length - 1 - k) hsize
      refine ⟨k + size * ((xs.length - 1 - k) / size), by omega, by omega, ?_⟩
      rw [Nat.add_mul_mod_self_left, Nat.mod_eq_of_lt (by omega)]
    refine ⟨m - (xs.length - size), by rw [List.length_drop]; omega, ?_⟩
    rw [List.getElem_drop, ← hmod, h.newest m hm hnew]
    congr 1
    omega
  · rintro ⟨j, hj, rfl⟩
    rw [List.length_drop] at hj
    refine ⟨(xs.length - size + j) % size, ?_, ?_⟩
    · rw [h.count]
      have hlt := Nat.mod_lt (xs.length - size + j) hsize
      have hle := Nat.mod_le (xs.length - size + j) size
      omega
    · rw [List.getElem_drop]
      exact h.newest _ (by omega) (by omega)

end RingBuffer

end Contiki.Lib

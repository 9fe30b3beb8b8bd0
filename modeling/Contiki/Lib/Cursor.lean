/-
A position in a buffer that moves forward, with the positions that were accessed on the way; and a buffer that is
written at such a position.
-/
import Contiki.Lib.Mem

namespace Contiki.Lib

/-- A position, and the positions accessed so far. -/
structure Cursor where
  pos : Nat
  log : List Nat
deriving DecidableEq

namespace Cursor

variable {c : Cursor} {k n : Nat}

def start : Cursor := ⟨0, []⟩

/-- The next `n` positions are accessed and passed. -/
def take (n : Nat) (c : Cursor) : Cursor := ⟨c.pos + n, c.log ++ List.range' c.pos n⟩

/-- The next `n` positions are passed. -/
def skip (n : Nat) (c : Cursor) : Cursor := ⟨c.pos + n, c.log⟩

/-- `n` positions from the `k`-th on are accessed. -/
def peek (k n : Nat) (c : Cursor) : Cursor := ⟨c.pos, c.log ++ List.range' (c.pos + k) n⟩

/-- All accesses were before `n`. -/
def Within (n : Nat) (c : Cursor) : Prop := ∀ x ∈ c.log, x < n

def Full (c : Cursor) : Prop := c.log = List.range c.pos

@[simp] theorem pos_start : start.pos = 0 := rfl

@[simp] theorem pos_take (n : Nat) (c : Cursor) : (c.take n).pos = c.pos + n := rfl

@[simp] theorem pos_skip (n : Nat) (c : Cursor) : (c.skip n).pos = c.pos + n := rfl

@[simp] theorem pos_peek (k n : Nat) (c : Cursor) : (c.peek k n).pos = c.pos := rfl

theorem within_append {l l' : List Nat} : (∀ x ∈ l ++ l', x < n) ↔ (∀ x ∈ l, x < n) ∧ ∀ x ∈ l', x < n :=
  List.forall_mem_append

theorem range'_within {a : Nat} : (∀ x ∈ List.range' a k, x < n) ↔ k = 0 ∨ a + k ≤ n := by
  constructor
  · intro h
    rcases Nat.eq_zero_or_pos k with hk | hk
    · exact .inl hk
    · have := h (a + (k - 1)) (List.mem_range'_1.2 ⟨by omega, by omega⟩)
      exact .inr (by omega)
  · rintro (rfl | h) x hx
    · cases hx
    · have := (List.mem_range'_1.1 hx).2
      omega

theorem within_start : start.Within n := by
  intro x hx
  cases hx

theorem within_take : (c.take k).Within n ↔ c.Within n ∧ (k = 0 ∨ c.pos + k ≤ n) :=
  within_append.trans (and_congr_right fun _ => range'_within)

theorem within_peek {i : Nat} : (c.peek i k).Within n ↔ c.Within n ∧ (k = 0 ∨ c.pos + i + k ≤ n) :=
  within_append.trans (and_congr_right fun _ => range'_within)

theorem full_start : start.Full := rfl

theorem Full.take (h : c.Full) (n : Nat) : (c.take n).Full := by
  have happend : List.range' 0 c.pos ++ List.range' (0 + c.pos) n = List.range' 0 (c.pos + n) := List.range'_append_1
  rw [Nat.zero_add, ← List.range_eq_range', ← List.range_eq_range'] at happend
  unfold Full Cursor.take at *
  rw [h, happend]

/-- All positions accessed lie before `n` when the present one does not lie after it. -/
theorem Full.within_iff (h : c.Full) : c.Within n ↔ c.pos ≤ n := by
  unfold Within
  rw [h, List.range_eq_range', range'_within]
  omega

end Cursor

/-! ## Writing -/

/-- A buffer, and the position at which the next byte is written. -/
structure Out where
  mem : Mem
  cursor : Cursor

namespace Out

variable {o : Out} {l l' : List UInt8} {n : Nat}

def byte (b : UInt8) (o : Out) : Out := ⟨Mem.put o.cursor.pos b o.mem, o.cursor.take 1⟩

def bytes (l : List UInt8) (o : Out) : Out := l.foldl (fun o b => o.byte b) o

/-- Passes `n` bytes without writing them. -/
def skip (n : Nat) (o : Out) : Out := ⟨o.mem, o.cursor.skip n⟩

@[simp] theorem bytes_nil (o : Out) : o.bytes [] = o := rfl

theorem bytes_cons (b : UInt8) (l : List UInt8) (o : Out) : o.bytes (b :: l) = (o.byte b).bytes l := rfl

theorem bytes_append (l l' : List UInt8) (o : Out) : o.bytes (l ++ l') = (o.bytes l).bytes l' := List.foldl_append

theorem bytes_singleton (b : UInt8) (o : Out) : o.bytes [b] = o.byte b := rfl

theorem cursor_bytes : ∀ (l : List UInt8) (o : Out), (o.bytes l).cursor = o.cursor.take l.length
  | [], o => by
    rw [bytes_nil, List.length_nil]
    unfold Cursor.take
    simp
  | b :: l, o => by
    rw [bytes_cons, cursor_bytes l (o.byte b), List.length_cons]
    unfold byte Cursor.take
    rw [List.append_assoc, Nat.add_comm l.length 1, Nat.add_assoc, List.range'_append_1]

@[simp] theorem pos_bytes (l : List UInt8) (o : Out) : (o.bytes l).cursor.pos = o.cursor.pos + l.length := by
  rw [cursor_bytes, Cursor.pos_take]

theorem bytes_of_out : ∀ (l : List UInt8) (o : Out) {x : Nat}, x < o.cursor.pos ∨ o.cursor.pos + l.length ≤ x →
    (o.bytes l).mem x = o.mem x
  | [], _, _, _ => rfl
  | b :: l, o, x, h => by
    rw [List.length_cons] at h
    have hpos : (o.byte b).cursor.pos = o.cursor.pos + 1 := rfl
    rw [bytes_cons, bytes_of_out l (o.byte b) (by omega)]
    exact Mem.put_of_ne (by omega)

theorem bytes_holds : ∀ (l : List UInt8) (o : Out), Mem.Holds o.cursor.pos l (o.bytes l).mem
  | [], _ => trivial
  | b :: l, o => by
    rw [Mem.holds_cons, bytes_cons]
    constructor
    · rw [bytes_of_out l (o.byte b) (.inl (Nat.lt_succ_self _))]
      exact Mem.put_same ..
    · exact bytes_holds l (o.byte b)

theorem bytes_ite {c : Prop} [Decidable c] (l : List UInt8) (o : Out) :
    (if c then o.bytes l else o) = o.bytes (if c then l else []) := by
  split
  · rfl
  · rfl

structure Extends (o o' : Out) : Prop where
  le : o.cursor.pos ≤ o'.cursor.pos
  keeps : ∀ x < o.cursor.pos, o'.mem x = o.mem x

theorem Extends.refl (o : Out) : Extends o o := ⟨le_rfl, fun _ _ => rfl⟩

theorem Extends.trans {o o' o'' : Out} (h : Extends o o') (h' : Extends o' o'') : Extends o o'' where
  le := h.le.trans h'.le
  keeps := fun x hx => (h'.keeps x (hx.trans_le h.le)).trans (h.keeps x hx)

theorem extends_bytes (l : List UInt8) (o : Out) : Extends o (o.bytes l) where
  le := by
    rw [pos_bytes]
    exact Nat.le_add_right ..
  keeps := fun _ hx => bytes_of_out l o (.inl hx)

theorem extends_skip (n : Nat) (o : Out) : Extends o (o.skip n) := ⟨Nat.le_add_right .., fun _ _ => rfl⟩

theorem Extends.holds {a : Nat} {o o' : Out} (h : Extends o o') (hl : Mem.Holds a l o.mem)
    (hle : a + l.length ≤ o.cursor.pos) : Mem.Holds a l o'.mem :=
  hl.congr fun x _ hx => h.keeps x (hx.trans_le hle)

end Out

end Contiki.Lib

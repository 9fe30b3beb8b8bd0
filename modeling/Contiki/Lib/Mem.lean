/-
Byte arithmetic: properties of all 256 bytes, nibbles of a byte, masks of a 16-bit word.
-/
import Mathlib.Tactic

namespace Contiki.Lib

section

/-- What holds of the 256 bytes holds of every byte. -/
theorem forall_byte {p : UInt8 → Prop} (h : ∀ n : Fin 256, p (UInt8.ofFin n)) (x : UInt8) : p x := h x.toFin

/-! ## Nibbles -/

theorem nibbles_shiftRight (v t : UInt8) : ((v <<< 4) ||| (t >>> 4)) >>> 4 = v &&& 0x0f := by
  apply UInt8.toBitVec_inj.mp
  simp
  ext i hi
  interval_cases i <;> simp

theorem nibbles_shiftLeft (v t : UInt8) : ((v <<< 4) ||| (t >>> 4)) <<< 4 = t &&& 0xf0 := by
  apply UInt8.toBitVec_inj.mp
  simp
  ext i hi
  interval_cases i <;> simp

theorem and_or_nibbles (b : UInt8) : (b &&& 0xf0) ||| (b &&& 0x0f) = b := by
  revert b; apply forall_byte; decide +kernel

theorem and_and_of_sub (x : UInt8) {m k : UInt8} (h : m &&& k = k) : x &&& k = (x &&& m) &&& k := by
  rw [UInt8.and_assoc, h]

/-! ## Masks of a 16-bit word -/

theorem word_and (a b c d : Nat) (hb : b < 256) (hd : d < 256) :
    (a * 256 + b) &&& (c * 256 + d) = (a &&& c) * 256 + (b &&& d) := by
  have hbd : b &&& d < 2 ^ 8 := lt_of_le_of_lt Nat.and_le_left hb
  rw [Nat.mul_comm a, Nat.mul_comm c, Nat.mul_comm (a &&& c)]
  refine Nat.eq_of_testBit_eq fun j => ?_
  rw [Nat.testBit_and, show (256 : Nat) = 2 ^ 8 from rfl, Nat.testBit_two_pow_mul_add a (show b < 2 ^ 8 from hb),
    Nat.testBit_two_pow_mul_add c (show d < 2 ^ 8 from hd), Nat.testBit_two_pow_mul_add _ hbd]
  split <;> rw [Nat.testBit_and]

end

/-!
Byte-addressed memory: little-endian words of any width at any address, what a load sees of a store,
which bytes a store leaves alone, block copies and fills, and byte strings laid out in memory.
-/

section

abbrev Mem := Nat → UInt8

namespace Mem

/-- The `n`-byte word at `a`. -/
@[grind =]
def load : Nat → Nat → Mem → Nat
  | 0, _, _ => 0
  | n + 1, a, m => (m a).toNat + 256 * load n (a + 1) m

/-- Writes an `n`-byte word at `a`. -/
@[grind =]
def store : Nat → Nat → Nat → Mem → Mem
  | 0, _, _, m => m
  | n + 1, a, v, m => store n (a + 1) (v / 256) (Function.update m a (UInt8.ofNat v))

/-- Copies `n` bytes from `src` to `dst`; the bytes are read before any is written. -/
def copy (dst src n : Nat) (m : Mem) : Mem := fun x =>
  if dst ≤ x ∧ x < dst + n then m (src + (x - dst)) else m x

/-- Sets `n` bytes at `dst`. -/
def fill (dst n : Nat) (b : UInt8) (m : Mem) : Mem := fun x =>
  if dst ≤ x ∧ x < dst + n then b else m x

def put (a : Nat) (b : UInt8) (m : Mem) : Mem := Function.update m a b

/-- Sets `n` bytes at `dst` to the first `n` bytes of `f`. -/
def paste (dst n : Nat) (f m : Mem) : Mem := fun x =>
  if dst ≤ x ∧ x < dst + n then f (x - dst) else m x

/-- The `n` bytes at `a`. -/
@[grind =]
def read : Nat → Nat → Mem → List UInt8
  | _, 0, _ => []
  | a, n + 1, m => m a :: read (a + 1) n m

/-- The bytes `l` stand at `a`. -/
def Holds : Nat → List UInt8 → Mem → Prop
  | _, [], _ => True
  | a, b :: l, m => m a = b ∧ Holds (a + 1) l m

/-- The memories agree outside `[a, a + n)`. -/
def SameOutside (a n : Nat) (m m' : Mem) : Prop :=
  ∀ x, x < a ∨ a + n ≤ x → m' x = m x

/-! ## Bytes a store leaves alone -/

theorem store_of_out : ∀ (n a v : Nat) (m : Mem) (x : Nat), x < a ∨ a + n ≤ x → store n a v m x = m x
  | 0, _, _, _, _, _ => rfl
  | n + 1, a, v, m, x, hx => by
    have hne : x ≠ a := by omega
    rw [store, store_of_out n (a + 1) _ _ x (by omega), Function.update_of_ne hne]

theorem store_sameOutside (n a v : Nat) (m : Mem) : SameOutside a n m (store n a v m) :=
  fun x hx => store_of_out n a v m x hx

theorem copy_of_out {dst src n : Nat} {m : Mem} {x : Nat} (hx : x < dst ∨ dst + n ≤ x) : copy dst src n m x = m x := by
  unfold copy; rw [if_neg]; omega

theorem copy_in {dst src n : Nat} {m : Mem} {i : Nat} (hi : i < n) : copy dst src n m (dst + i) = m (src + i) := by
  unfold copy
  rw [if_pos ⟨by omega, by omega⟩, show dst + i - dst = i by omega]

theorem fill_of_out {dst n : Nat} {b : UInt8} {m : Mem} {x : Nat} (hx : x < dst ∨ dst + n ≤ x) :
    fill dst n b m x = m x := by
  unfold fill; rw [if_neg]; omega

@[simp] theorem put_same (a : Nat) (b : UInt8) (m : Mem) : put a b m a = b := Function.update_self ..

theorem put_of_ne {a x : Nat} {b : UInt8} {m : Mem} (h : x ≠ a) : put a b m x = m x := Function.update_of_ne h ..

theorem paste_of_out {dst n : Nat} {f m : Mem} {x : Nat} (hx : x < dst ∨ dst + n ≤ x) : paste dst n f m x = m x := by
  unfold paste; rw [if_neg]; omega

theorem paste_in {dst n : Nat} {f m : Mem} {x : Nat} (h₁ : dst ≤ x) (h₂ : x < dst + n) :
    paste dst n f m x = f (x - dst) := by
  unfold paste; rw [if_pos ⟨h₁, h₂⟩]

/-! ## Byte strings in memory -/

@[simp] theorem length_read : ∀ (n a : Nat) (m : Mem), (read a n m).length = n
  | 0, _, _ => rfl
  | n + 1, a, m => by rw [read, List.length_cons, length_read n (a + 1) m]

@[simp] theorem holds_nil (a : Nat) (m : Mem) : Holds a [] m := trivial

@[simp] theorem holds_cons {a : Nat} {b : UInt8} {l : List UInt8} {m : Mem} :
    Holds a (b :: l) m ↔ m a = b ∧ Holds (a + 1) l m :=
  Iff.rfl

@[simp] theorem holds_append : ∀ {l₁ l₂ : List UInt8} {a : Nat} {m : Mem},
    Holds a (l₁ ++ l₂) m ↔ Holds a l₁ m ∧ Holds (a + l₁.length) l₂ m
  | [], l₂, a, m => by simp
  | b :: l₁, l₂, a, m => by
    rw [List.cons_append, holds_cons, holds_append, holds_cons, List.length_cons,
      show a + (l₁.length + 1) = a + 1 + l₁.length by omega, and_assoc]

theorem holds_read : ∀ {n a b : Nat} {m m' : Mem}, Holds a (read b n m') m ↔ ∀ i < n, m (a + i) = m' (b + i)
  | 0, _, _, _, _ => by simp [read]
  | n + 1, a, b, m, m' => by
    rw [read, holds_cons, holds_read]
    constructor
    · rintro ⟨h₀, h⟩ i hi
      cases i with
      | zero => exact h₀
      | succ i => simpa [Nat.add_assoc, Nat.add_comm 1 i] using h i (by omega)
    · intro h
      refine ⟨h 0 (by omega), fun i hi => ?_⟩
      simpa [Nat.add_assoc, Nat.add_comm 1 i] using h (i + 1) (by omega)

theorem holds_iff : ∀ {l : List UInt8} {a : Nat} {m : Mem}, Holds a l m ↔ ∀ i (h : i < l.length), m (a + i) = l[i]
  | [], _, _ => by simp
  | b :: l, a, m => by
    rw [holds_cons, holds_iff]
    constructor
    · rintro ⟨h₀, h⟩ i hi
      cases i with
      | zero => exact h₀
      | succ i => simpa [Nat.add_assoc, Nat.add_comm 1 i] using h i (by simpa using hi)
    · intro h
      refine ⟨h 0 (by simp), fun i hi => ?_⟩
      have := h (i + 1) (by simpa using hi)
      rwa [List.getElem_cons_succ, ← Nat.add_assoc, Nat.add_right_comm] at this

theorem Holds.congr {l : List UInt8} {a : Nat} {m m' : Mem} (h : Holds a l m)
    (hm : ∀ x, a ≤ x → x < a + l.length → m' x = m x) : Holds a l m' :=
  holds_iff.2 fun i hi => (hm (a + i) (by omega) (by omega)).trans (holds_iff.1 h i hi)

theorem read_of_holds : ∀ {l : List UInt8} {a : Nat} {m : Mem}, Holds a l m → read a l.length m = l
  | [], _, _, _ => rfl
  | b :: l, a, m, h => by rw [List.length_cons, read, h.1, read_of_holds h.2]

theorem read_congr : ∀ {n a : Nat} {m m' : Mem}, (∀ x, a ≤ x → x < a + n → m' x = m x) → read a n m' = read a n m
  | 0, _, _, _, _ => rfl
  | n + 1, a, m, m', h => by
    rw [read, read, h a le_rfl (by omega), read_congr fun x h₁ h₂ => h x (by omega) (by omega)]

theorem read_add : ∀ (n k a : Nat) (m : Mem), read a (n + k) m = read a n m ++ read (a + n) k m
  | 0, k, a, m => by simp [read]
  | n + 1, k, a, m => by
    rw [show n + 1 + k = n + k + 1 by omega, read, read, List.cons_append, read_add n k (a + 1) m,
      show a + 1 + n = a + (n + 1) by omega]

theorem read_paste {n a b : Nat} {m m' : Mem} : read a n (paste a n (fun i => m' (b + i)) m) = read b n m' := by
  have h : Holds a (read b n m') (paste a n (fun i => m' (b + i)) m) := holds_read.2 fun i hi => by
    rw [paste_in (by omega) (by omega), Nat.add_sub_cancel_left]
  have hread := read_of_holds h
  rwa [length_read] at hread

theorem read_paste_before {n k a b : Nat} {f m : Mem} (h : a + n ≤ b) : read a n (paste b k f m) = read a n m :=
  read_congr fun _ _ hx => paste_of_out (.inl (by omega))

/-! ## What a load sees -/

theorem load_congr : ∀ (n a : Nat) {m m' : Mem}, (∀ x, a ≤ x → x < a + n → m' x = m x) → load n a m' = load n a m
  | 0, _, _, _, _ => rfl
  | n + 1, a, m, m', h => by
    rw [load, load, h a le_rfl (by omega), load_congr n (a + 1) fun x h₁ h₂ => h x (by omega) (by omega)]

theorem load_lt : ∀ (n a : Nat) (m : Mem), load n a m < 256 ^ n
  | 0, _, _ => by simp [load]
  | n + 1, a, m => by
    have h₁ := load_lt n (a + 1) m
    have h₂ : (m a).toNat < 256 := (m a).toNat_lt
    rw [load, Nat.pow_succ]
    omega

theorem load_store_same : ∀ (n a v : Nat) (m : Mem), v < 256 ^ n → load n a (store n a v m) = v
  | 0, _, v, _, hv => by
    rw [Nat.pow_zero] at hv
    rw [load]; omega
  | n + 1, a, v, m, hv => by
    have hv' : v / 256 < 256 ^ n := by
      rw [Nat.pow_succ] at hv
      exact Nat.div_lt_of_lt_mul (by rwa [Nat.mul_comm] at hv)
    rw [load, store, load_store_same n (a + 1) _ _ hv', store_of_out n (a + 1) _ _ a (by omega),
      Function.update_self]
    have hb : (UInt8.ofNat v).toNat = v % 256 := by simp
    rw [hb]
    exact Nat.mod_add_div v 256

theorem load_of_sameOutside {a n b k : Nat} {m m' : Mem} (h : SameOutside a n m m') (hd : b + k ≤ a ∨ a + n ≤ b) :
    load k b m' = load k b m :=
  load_congr k b fun x _ _ => h x (by omega)

theorem load_store_apart {a n b k v : Nat} {m : Mem} (hd : b + k ≤ a ∨ a + n ≤ b) :
    load k b (store n a v m) = load k b m :=
  load_of_sameOutside (store_sameOutside n a v m) hd

theorem store_comm {a n b k v w : Nat} {m : Mem} (hd : b + k ≤ a ∨ a + n ≤ b) :
    store n a v (store k b w m) = store k b w (store n a v m) := by
  induction n generalizing a v m with
  | zero => rfl
  | succ n ih =>
    have hupd : Function.update (store k b w m) a (UInt8.ofNat v) = store k b w (Function.update m a (UInt8.ofNat v)) := by
      clear ih
      induction k generalizing b w m with
      | zero => rfl
      | succ k ihk =>
        rw [store, store, ihk (by omega), Function.update_comm (by omega)]
    rw [store, store, hupd, ih (by omega)]

end Mem

end

end Contiki.Lib

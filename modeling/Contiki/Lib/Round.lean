/-
Binary floating point with `p` bits of precision, without bounds on the exponent: the nearest multiple of the
unit in the last place, ties to even.
-/
import Mathlib.Tactic
import Mathlib.Data.Int.Log

namespace Contiki.Lib

def nearest (q : ℚ) : ℤ :=
  if q - ⌊q⌋ < 1 / 2 then ⌊q⌋
  else if 1 / 2 < q - ⌊q⌋ then ⌊q⌋ + 1
  else if Even ⌊q⌋ then ⌊q⌋ else ⌊q⌋ + 1

theorem nearest_int (n : ℤ) : nearest n = n := by
  have hlt : (n : ℚ) - ⌊(n : ℚ)⌋ < 1 / 2 := by
    rw [Int.floor_intCast, sub_self]
    norm_num
  rw [nearest, if_pos hlt, Int.floor_intCast]

theorem nearest_near (q : ℚ) : |(nearest q : ℚ) - q| ≤ 1 / 2 := by
  have h₁ := Int.floor_le q
  have h₂ := Int.lt_floor_add_one q
  unfold nearest
  rw [abs_le]
  split
  · constructor <;> linarith
  · split
    · push_cast
      constructor <;> linarith
    · split
      · constructor <;> linarith
      · push_cast
        constructor <;> linarith

theorem le_nearest {n : ℤ} {q : ℚ} (h : n ≤ q) : n ≤ nearest q := by
  have hfloor := Int.le_floor.2 h
  unfold nearest
  split
  · exact hfloor
  · split
    · omega
    · split <;> omega

theorem nearest_le {n : ℤ} {q : ℚ} (h : q ≤ n) : nearest q ≤ n := by
  have hfloor : ⌊q⌋ ≤ n := Int.floor_le_iff.2 (by linarith)
  rcases hfloor.lt_or_eq with hlt | heq
  · unfold nearest
    split
    · exact hfloor
    · split
      · omega
      · split <;> omega
  · have hq : q = n := le_antisymm h (heq ▸ Int.floor_le q)
    rw [hq, nearest_int]

def ulp (p : ℕ) (x : ℚ) : ℚ := 2 ^ (Int.log 2 |x| + 1 - p)

/-- `x` rounded to `p` bits. -/
def roundBits (p : ℕ) (x : ℚ) : ℚ := if x = 0 then 0 else nearest (x / ulp p x) * ulp p x

variable {p : ℕ} {x c : ℚ}

theorem ulp_pos (p : ℕ) (x : ℚ) : 0 < ulp p x := zpow_pos (by norm_num) _

theorem roundBits_near (p : ℕ) (x : ℚ) : |roundBits p x - x| ≤ ulp p x / 2 := by
  have hu := ulp_pos p x
  unfold roundBits
  split
  · rename_i hx
    rw [hx, sub_self, abs_zero]
    have hzero := ulp_pos p 0
    linarith
  · have hsplit : (nearest (x / ulp p x) : ℚ) * ulp p x - x = (nearest (x / ulp p x) - x / ulp p x) * ulp p x := by
      field_simp
    rw [hsplit, abs_mul, abs_of_pos hu]
    have := mul_le_mul_of_nonneg_right (nearest_near (x / ulp p x)) hu.le
    linarith

theorem roundBits_le {n : ℤ} (h : x ≤ c) (hc : c = n * ulp p x) : roundBits p x ≤ c := by
  have hu := ulp_pos p x
  unfold roundBits
  split
  · rename_i hx
    exact hx ▸ h
  · rw [hc]
    refine mul_le_mul_of_nonneg_right ?_ hu.le
    exact_mod_cast nearest_le ((div_le_iff₀ hu).2 (hc ▸ h))

theorem le_roundBits {n : ℤ} (h : c ≤ x) (hc : c = n * ulp p x) : c ≤ roundBits p x := by
  have hu := ulp_pos p x
  unfold roundBits
  split
  · rename_i hx
    exact hx ▸ h
  · rw [hc]
    refine mul_le_mul_of_nonneg_right ?_ hu.le
    exact_mod_cast le_nearest ((le_div_iff₀ hu).2 (hc ▸ h))

theorem roundBits_exact {n : ℤ} (h : x = n * ulp p x) : roundBits p x = x :=
  le_antisymm (roundBits_le le_rfl h) (le_roundBits le_rfl h)

theorem pow_multiple {k : ℤ} (hx : x ≠ 0) (h : |x| < 2 ^ (k + p)) : ∃ n : ℤ, (2 : ℚ) ^ k = n * ulp p x := by
  have hlog : Int.log 2 |x| < k + p := Int.lt_zpow_iff_log_lt (by norm_num) (abs_pos.2 hx) |>.1 h
  obtain ⟨d, hd⟩ := Int.eq_ofNat_of_zero_le (show 0 ≤ k - (Int.log 2 |x| + 1 - p) by omega)
  refine ⟨2 ^ d, ?_⟩
  rw [ulp]
  push_cast
  rw [← zpow_natCast, ← zpow_add₀ (by norm_num)]
  congr 1
  omega

theorem ulp_le {k : ℤ} (hx : x ≠ 0) (h : |x| < 2 ^ k) : ulp p x ≤ 2 ^ (k - p) := by
  have hlog : Int.log 2 |x| < k := Int.lt_zpow_iff_log_lt (by norm_num) (abs_pos.2 hx) |>.1 h
  exact zpow_le_zpow_right₀ (by norm_num) (by omega)

theorem roundBits_natCast {n : ℕ} (h : n < 2 ^ p) : roundBits p n = n := by
  rcases Nat.eq_zero_or_pos n with rfl | hpos
  · simp [roundBits]
  · obtain ⟨m, hm⟩ := pow_multiple (p := p) (k := 0) (x := n) (by exact_mod_cast hpos.ne') (by
      rw [Nat.abs_cast, zero_add, zpow_natCast]
      exact_mod_cast h)
    refine roundBits_exact (n := n * m) ?_
    rw [zpow_zero] at hm
    push_cast
    rw [mul_assoc, ← hm, mul_one]

end Contiki.Lib

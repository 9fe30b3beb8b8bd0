/-
The drift compensation of net/mac/tsch/tsch-adaptive-timesync.c. Two remainders are carried from slot to slot: what the
division by the drift unit leaves, and what the conversion to ticks leaves. The first loses nothing. The second is kept
in whole microseconds, so nothing is lost exactly as long as the ticks of every call are whole microseconds.
-/
import Contiki.Lib.Run

namespace Contiki.Tsch.Timesync

open Contiki.Lib

/-! ## Integers of the platform -/

def Fits (bits : Nat) (x : Int) : Prop := -2 ^ (bits - 1) ≤ x ∧ x < 2 ^ (bits - 1)

def wrap (bits : Nat) (x : Int) : Int := x.bmod (2 ^ bits)

/-- `RTIMER_ARCH_SECOND`, the bits of its type when that is unsigned, and the bits of `long`. -/
structure Arch where
  second : Nat
  unsignedBits : Option Nat
  longBits : Nat
  second_ge : 128 ≤ second
  second_le : second ≤ 1000000
  longBits_ge : 32 ≤ longBits

variable (a : Arch)

/-- `US_TO_RTIMERTICKS`: the nearest tick. -/
def usToRtimerticks (us : Int) : Int :=
  if 0 ≤ us then (us * a.second + 500000).tdiv 1000000 else (us * a.second - 500000).tdiv 1000000

/-- `RTIMERTICKS_TO_US`: the nearest microsecond. -/
def rtimerticksToUs (t : Int) : Int :=
  if 0 ≤ t then (t * 1000000 + (a.second / 2 : Nat)).tdiv a.second else (t * 1000000 - (a.second / 2 : Nat)).tdiv a.second

/-- `-RTIMER_ARCH_SECOND`, in the type of the constant. -/
def minusSecond : Int :=
  match a.unsignedBits with
  | none => -a.second
  | some bits => -a.second % 2 ^ bits

def limit (ticks : Int) : Int := wrap 32 ((if 0 < ticks then (a.second : Int) else minusSecond a).tdiv 128)

/-! ## compensate_internal -/

def tschDriftUnit : Int := 1000 * 1000 * 256

/-- `remainder` and `tick_conversion_error`. -/
structure Remainders where
  remainder : Int
  tickConversionError : Int

/-- `compensate_internal`: what it returns, and what it leaves for the next call. -/
def compensateInternal (timeDeltaUsec driftPpm : Int) (r : Remainders) : Int × Remainders :=
  let d := wrap 64 (wrap 64 (timeDeltaUsec * driftPpm) + r.remainder)
  let amount := wrap 32 (d.tdiv tschDriftUnit)
  let remainder := wrap 32 (d - wrap a.longBits (amount * tschDriftUnit))
  let amount := wrap 32 (amount + r.tickConversionError)
  let amountTicks := wrap 32 (usToRtimerticks a amount)
  let tickConversionError := wrap 16 (amount - rtimerticksToUs a amountTicks)
  (if amountTicks.natAbs ≤ a.second / 128 then amountTicks else limit a amountTicks, ⟨remainder, tickConversionError⟩)

/-- A call: the time since the last one, and a drift below 100000 ppm. -/
structure Slot where
  timeDeltaUsec : Nat
  driftPpm : Int
  time_lt : timeDeltaUsec < 2 ^ 32
  drift_lt : |driftPpm| < 100000 * 256

/-- The drift since the last call, in units of `TSCH_DRIFT_UNIT`. -/
def Slot.drift (s : Slot) : Int := s.timeDeltaUsec * s.driftPpm

def amount (r : Remainders) (s : Slot) : Int := (s.drift + r.remainder).tdiv tschDriftUnit

def wantedTicks (r : Remainders) (s : Slot) : Int := usToRtimerticks a (amount r s + r.tickConversionError)

def NoOverflow (r : Remainders) (s : Slot) : Prop :=
  Fits 64 s.drift ∧ Fits 64 (s.drift + r.remainder) ∧ Fits 32 (amount r s) ∧
    Fits a.longBits (amount r s * tschDriftUnit) ∧
    Fits 32 (s.drift + r.remainder - amount r s * tschDriftUnit) ∧ Fits 32 (amount r s + r.tickConversionError) ∧
    Fits 32 (wantedTicks a r s) ∧
    Fits 16 (amount r s + r.tickConversionError - rtimerticksToUs a (wantedTicks a r s))

/-! ## Runs -/

/-- The remainders, the ticks returned so far, the drift so far, and whether a call was clamped. -/
structure World where
  left : Remainders
  returned : Int
  drift : Int
  clamped : Bool

def World.start : World := ⟨⟨0, 0⟩, 0, 0, false⟩

def step (w : World) (s : Slot) : Option World :=
  let (ticks, left) := compensateInternal a s.timeDeltaUsec s.driftPpm w.left
  some ⟨left, w.returned + ticks, w.drift + s.drift, w.clamped || a.second / 128 < (wantedTicks a w.left s).natAbs⟩

/-- The remainders are in range, and the returned ticks make up for the drift but for a microsecond and a tick. -/
structure Balanced (w : World) : Prop where
  remainder : |w.left.remainder| < tschDriftUnit
  error : Fits 16 w.left.tickConversionError
  sum : w.clamped = false →
    |(w.returned : ℚ) * (1000000 / a.second) - w.drift / tschDriftUnit| ≤ 1 + 1000000 / a.second

/-- Nothing overflows, and a clamped call returns the limit with the sign of what it wants. -/
def CallRight (w : World) (s : Slot) : Prop :=
  NoOverflow a w.left s ∧ (a.second / 128 < (wantedTicks a w.left s).natAbs →
    (compensateInternal a s.timeDeltaUsec s.driftPpm w.left).1 = (wantedTicks a w.left s).sign * (a.second / 128 : Nat))

/-- The ticks are whole microseconds, the product with `TSCH_DRIFT_UNIT` fits a `long`, and a call that is clamped on
the negative side finds a limit that is negative. -/
def CallExact (w : World) (s : Slot) : Prop :=
  (a.second : Int) ∣ wantedTicks a w.left s * 1000000 ∧ Fits a.longBits (amount w.left s * tschDriftUnit) ∧
    (wantedTicks a w.left s < -(a.second / 128 : Nat) → limit a (-1) = -(a.second / 128 : Nat))

/-! ## Arithmetic -/

variable {a}

theorem wrap_eq {bits : Nat} {x : Int} (hb : 0 < bits) (h : Fits bits x) : wrap bits x = x := by
  obtain ⟨n, rfl⟩ := Nat.exists_eq_succ_of_ne_zero hb.ne'
  have hpow : (2 : Int) ^ (n + 1) = 2 * 2 ^ n := by rw [pow_succ, mul_comm]
  rw [wrap, Int.bmod_eq_of_le_mul_two]
  · push_cast
    rw [hpow]
    have := h.1
    simp only [Nat.succ_sub_one] at this
    omega
  · push_cast
    rw [hpow]
    have := h.2
    simp only [Nat.succ_sub_one] at this
    omega

theorem tdiv_left (d : Int) {u : Int} (hu : 0 < u) : |d - d.tdiv u * u| < u := by
  have h := Int.tmod_add_mul_tdiv d u
  have hlt := Int.natAbs_tmod d u
  have hmod := Nat.mod_lt d.natAbs (Int.natAbs_pos.2 hu.ne')
  rw [show d - d.tdiv u * u = d.tmod u by linarith [mul_comm u (d.tdiv u)], Int.abs_eq_natAbs, hlt]
  omega

theorem usToRtimerticks_near (us : Int) : |usToRtimerticks a us * 1000000 - us * a.second| ≤ 500000 := by
  unfold usToRtimerticks
  split
  case isTrue h =>
    have hx : 0 ≤ us * a.second := by positivity
    rw [Int.tdiv_eq_ediv_of_nonneg (by omega), abs_le]
    omega
  case isFalse h =>
    have hx : us * a.second ≤ 0 := mul_nonpos_of_nonpos_of_nonneg (by omega) (by positivity)
    rw [show us * a.second - 500000 = -(500000 - us * a.second) by ring, Int.neg_tdiv,
      Int.tdiv_eq_ediv_of_nonneg (by omega), abs_le]
    omega

theorem rtimerticksToUs_exact {t : Int} (h : (a.second : Int) ∣ t * 1000000) :
    rtimerticksToUs a t * a.second = t * 1000000 := by
  obtain ⟨k, hk⟩ := h
  have hpos : (0 : Int) < a.second := by have := a.second_ge; omega
  have hsmall : ((a.second / 2 : Nat) : Int) / a.second = 0 := Int.ediv_eq_zero_of_lt (by omega) (by omega)
  unfold rtimerticksToUs
  split
  case isTrue ht =>
    rw [Int.tdiv_eq_ediv_of_nonneg (by omega), hk, Int.add_comm, Int.add_mul_ediv_left _ _ hpos.ne', hsmall]
    ring
  case isFalse ht =>
    rw [show t * 1000000 - (a.second / 2 : Nat) = -((a.second / 2 : Nat) + a.second * -k) by rw [hk]; ring, Int.neg_tdiv,
      Int.tdiv_eq_ediv_of_nonneg (by rw [mul_neg, ← hk]; omega), Int.add_mul_ediv_left _ _ hpos.ne', hsmall]
    rw [hk]
    ring

/-! ## One call -/

/-- What the remainders say of the calls so far. -/
structure Inv (a : Arch) (w : World) : Prop where
  remainder : |w.left.remainder| < tschDriftUnit
  error : |w.left.tickConversionError| * a.second ≤ 500000
  sum : w.clamped = false → tschDriftUnit * (w.returned * 1000000 + a.second * w.left.tickConversionError) =
    a.second * (w.drift - w.left.remainder)

variable {w : World}

theorem Inv.error_le (h : Inv a w) : |w.left.tickConversionError| ≤ 3906 := by
  have hpos : (128 : Int) ≤ a.second := by exact_mod_cast a.second_ge
  have hle := mul_le_mul_of_nonneg_left hpos (abs_nonneg w.left.tickConversionError)
  have := h.error
  omega

theorem Inv.balanced (h : Inv a w) : Balanced a w where
  remainder := h.remainder
  error := by
    have := abs_le.1 h.error_le
    unfold Fits
    omega
  sum hc := by
    have hpos : (0 : ℚ) < a.second := by exact_mod_cast (show 0 < a.second by have := a.second_ge; omega)
    have hunit : (0 : ℚ) < tschDriftUnit := by norm_num [tschDriftUnit]
    have hsum : (tschDriftUnit : ℚ) * (w.returned * 1000000 + a.second * w.left.tickConversionError) =
      a.second * (w.drift - w.left.remainder) := by exact_mod_cast h.sum hc
    have heq : (w.returned : ℚ) * (1000000 / a.second) - w.drift / tschDriftUnit =
        -(w.left.tickConversionError + w.left.remainder / tschDriftUnit) := by
      field_simp
      linarith
    have herror : |(w.left.tickConversionError : ℚ)| ≤ 1000000 / a.second := by
      rw [le_div_iff₀ hpos]
      have : |(w.left.tickConversionError : ℚ)| * a.second ≤ 500000 := by exact_mod_cast h.error
      linarith
    have hremainder : |(w.left.remainder : ℚ) / tschDriftUnit| ≤ 1 := by
      rw [abs_div, abs_of_pos hunit, div_le_one hunit]
      exact_mod_cast h.remainder.le
    rw [heq, abs_neg]
    linarith [abs_add_le (w.left.tickConversionError : ℚ) (w.left.remainder / tschDriftUnit)]

theorem Slot.drift_le (s : Slot) : |s.drift| ≤ 4294967295 * 25599999 := by
  have ht : |(s.timeDeltaUsec : Int)| ≤ 4294967295 := by
    have := s.time_lt
    rw [Nat.abs_cast]
    omega
  have hd : |s.driftPpm| ≤ 25599999 := by
    have := s.drift_lt
    omega
  rw [Slot.drift, abs_mul]
  exact mul_le_mul ht hd (abs_nonneg _) (by norm_num)

theorem Inv.amount_le (h : Inv a w) (s : Slot) : |amount w.left s| ≤ 429496730 := by
  have hd := abs_le.1 s.drift_le
  have hr := abs_lt.1 h.remainder
  have hleft := abs_lt.1 (tdiv_left (s.drift + w.left.remainder) (show 0 < tschDriftUnit by decide))
  rw [abs_le]
  unfold amount
  unfold tschDriftUnit at *
  omega

theorem Inv.wanted_le (h : Inv a w) (s : Slot) : |wantedTicks a w.left s| ≤ 429500637 := by
  have hamount := abs_le.1 (h.amount_le s)
  have herror := abs_le.1 h.error_le
  have hnear := abs_le.1 (usToRtimerticks_near (a := a) (amount w.left s + w.left.tickConversionError))
  have hsecond : (a.second : Int) ≤ 1000000 := by exact_mod_cast a.second_le
  have hle : |(amount w.left s + w.left.tickConversionError) * a.second| ≤ 429500636 * 1000000 := by
    rw [abs_mul, Nat.abs_cast]
    exact mul_le_mul (abs_le.2 (by omega)) hsecond (by positivity) (by norm_num)
  have := abs_le.1 hle
  rw [abs_le]
  unfold wantedTicks
  omega

theorem left_le {s : Slot} (h : (a.second : Int) ∣ wantedTicks a w.left s * 1000000) :
    |amount w.left s + w.left.tickConversionError - rtimerticksToUs a (wantedTicks a w.left s)| * a.second ≤ 500000 := by
  have hpos : |(a.second : Int)| = a.second := Nat.abs_cast _
  rw [← hpos, ← abs_mul, sub_mul, rtimerticksToUs_exact h, abs_sub_comm]
  exact usToRtimerticks_near _

theorem Inv.noOverflow {s : Slot} (h : Inv a w) (hc : CallExact a w s) : NoOverflow a w.left s := by
  have hd := abs_le.1 s.drift_le
  have hr := abs_lt.1 h.remainder
  have hleft := abs_lt.1 (tdiv_left (s.drift + w.left.remainder) (show 0 < tschDriftUnit by decide))
  have hamount := abs_le.1 (h.amount_le s)
  have herror := abs_le.1 h.error_le
  have hwanted := abs_le.1 (h.wanted_le s)
  have hnew : |amount w.left s + w.left.tickConversionError - rtimerticksToUs a (wantedTicks a w.left s)| ≤ 3906 := by
    have hpos : (128 : Int) ≤ a.second := by exact_mod_cast a.second_ge
    have hle := mul_le_mul_of_nonneg_left hpos
      (abs_nonneg (amount w.left s + w.left.tickConversionError - rtimerticksToUs a (wantedTicks a w.left s)))
    have := left_le hc.1
    omega
  have hnew := abs_le.1 hnew
  refine ⟨?_, ?_, ?_, hc.2.1, ?_, ?_, ?_, ?_⟩
  all_goals
    unfold Fits
    simp only [amount, tschDriftUnit] at *
    omega

theorem NoOverflow.compensate {r : Remainders} {s : Slot} (h : NoOverflow a r s) :
    compensateInternal a s.timeDeltaUsec s.driftPpm r =
      (if (wantedTicks a r s).natAbs ≤ a.second / 128 then wantedTicks a r s else limit a (wantedTicks a r s),
        ⟨s.drift + r.remainder - amount r s * tschDriftUnit,
          amount r s + r.tickConversionError - rtimerticksToUs a (wantedTicks a r s)⟩) := by
  obtain ⟨hdrift, hd, hamount, hlong, hremainder, hsum, hticks, herror⟩ := h
  have hbits : 0 < a.longBits := lt_of_lt_of_le (by decide) a.longBits_ge
  unfold compensateInternal
  dsimp only
  rw [show (s.timeDeltaUsec : Int) * s.driftPpm = s.drift from rfl, wrap_eq (by decide) hdrift, wrap_eq (by decide) hd,
    show (s.drift + r.remainder).tdiv tschDriftUnit = amount r s from rfl, wrap_eq (by decide) hamount,
    wrap_eq hbits hlong, wrap_eq (by decide) hremainder, wrap_eq (by decide) hsum,
    show usToRtimerticks a (amount r s + r.tickConversionError) = wantedTicks a r s from rfl,
    wrap_eq (by decide) hticks, wrap_eq (by decide) herror]

theorem Inv.step {w w' : World} {s : Slot} (h : Inv a w) (hc : CallExact a w s) (hs : step a w s = some w') :
    Inv a w' := by
  rw [Timesync.step, (h.noOverflow hc).compensate] at hs
  obtain rfl := Option.some.inj hs
  constructor
  case remainder => exact tdiv_left _ (by decide)
  case error => exact left_le hc.1
  case sum =>
    intro hclamped
    obtain ⟨hbefore, hthis⟩ := Bool.or_eq_false_iff.1 hclamped
    have hle : (wantedTicks a w.left s).natAbs ≤ a.second / 128 := not_lt.1 (of_decide_eq_false hthis)
    have hsum := h.sum hbefore
    have hticks := rtimerticksToUs_exact hc.1
    dsimp only
    rw [if_pos hle]
    linear_combination hsum - tschDriftUnit * hticks

theorem Inv.callRight {s : Slot} (h : Inv a w) (hc : CallExact a w s) : CallRight a w s := by
  refine ⟨h.noOverflow hc, fun hclamped => ?_⟩
  have hsecond := a.second_le
  rw [(h.noOverflow hc).compensate]
  dsimp only
  rw [if_neg (not_le.2 hclamped)]
  rcases lt_or_gt_of_ne (show wantedTicks a w.left s ≠ 0 by omega) with hneg | hpos
  · have hlimit := hc.2.2 (by omega)
    rw [Int.sign_eq_neg_one_of_neg hneg, neg_one_mul, ← hlimit, limit, limit, if_neg (not_lt.2 hneg.le),
      if_neg (by decide)]
  · rw [Int.sign_eq_one_of_pos hpos, one_mul, limit, if_pos hpos, Int.tdiv_eq_ediv_of_nonneg (by omega),
      wrap_eq (by decide)]
    · rfl
    · unfold Fits
      omega

/-! ## Runs -/

/-- A run whose calls convert whole microseconds stays balanced, whatever its length. -/
theorem compensation_balanced (slots : List Slot) (h : AllSteps (step a) (CallExact a) World.start slots) :
    AllStates (step a) (Balanced a) World.start slots ∧ AllSteps (step a) (CallRight a) World.start slots := by
  have hstart : Inv a World.start := ⟨by decide, by norm_num [World.start], fun _ => by norm_num [World.start]⟩
  constructor
  · exact (allStates_of_allSteps (fun _ _ _ _ _ => trivial) (fun _ _ _ _ hi hc hs => hi.step hc hs) slots
      World.start trivial hstart h).mono fun w hw => hw.balanced
  · exact allSteps_of_allSteps (fun _ _ _ _ _ => trivial) (fun _ _ _ _ hi hc hs => hi.step hc hs)
      (fun _ _ _ hi hc => hi.callRight hc) slots World.start trivial hstart h

def wholeArch : Arch := ⟨1000000, none, 64, by decide, by decide, by decide⟩

theorem compensation_balanced_two : AllStates (step wholeArch) (Balanced wholeArch) World.start
    [⟨1000000, 31 * 256, by decide, by decide⟩, ⟨10000, -40 * 256, by decide, by decide⟩] ∧
    AllSteps (step wholeArch) (CallRight wholeArch) World.start
    [⟨1000000, 31 * 256, by decide, by decide⟩, ⟨10000, -40 * 256, by decide, by decide⟩] :=
  compensation_balanced _ ⟨⟨Dvd.intro_left _ rfl, ⟨by decide, by decide⟩, fun _ => rfl⟩, fun w hw => by
    obtain rfl := Option.some.inj hw
    exact ⟨⟨Dvd.intro_left _ rfl, ⟨by decide, by decide⟩, fun _ => rfl⟩, fun _ _ => trivial⟩⟩

/-- A platform of 32768 ticks a second: a tick is 30.5 microseconds, and is counted as 31. -/
def oscillatorArch : Arch := ⟨32768, none, 32, by decide, by decide, by decide⟩

/-- A drift of 8 ppm at one call a second: the ticks fall behind by half a microsecond each. -/
theorem compensation_lags : ¬ ∀ (a : Arch) (slots : List Slot),
    AllStates (step a) (Balanced a) World.start slots ∧ AllSteps (step a) (CallRight a) World.start slots := by
  intro hall
  let slots := List.replicate 272 (⟨1000000, 8 * 256, by decide, by decide⟩ : Slot)
  have hrun : (exec (step oscillatorArch) World.start slots).map (fun w => (w.returned, w.drift, w.clamped)) =
      some (70, 272 * 8 * tschDriftUnit, false) := by decide +kernel
  cases hw : exec (step oscillatorArch) World.start slots with
  | none => simp [hw] at hrun
  | some w =>
    rw [hw] at hrun
    obtain ⟨hreturned, hdrift, hclamped⟩ : w.returned = 70 ∧ w.drift = 272 * 8 * tschDriftUnit ∧ w.clamped = false := by
      simpa using hrun
    have hsum := ((hall oscillatorArch slots).1.last hw).sum hclamped
    rw [hreturned, hdrift] at hsum
    norm_num [oscillatorArch, tschDriftUnit] at hsum

end Contiki.Tsch.Timesync

/-
The Trickle timer of the DIOs (rpl-timers.c) with what joining and leaving a DAG set of it (rpl-dag.c). The length of an
interval is a shift by a value that comes from a DIO, times the clock rate, in 32 bits.
-/
import Contiki.RplLite.Of
import Contiki.Lib.Run

namespace Contiki.RplLite.DioTimer

open Contiki.Lib
open Dag (DagState)

/-- What the timer reads and writes of `curr_instance` and its DAG; `timer` is the delay that `dio_timer` is set to, `root`
tells that the node is the root, and `diosSent` counts the multicast DIOs. -/
structure State where
  used : Bool
  root : Bool
  leafOnly : Bool
  mop : UInt8
  state : DagState
  dioIntdoubl : UInt8
  dioIntmin : UInt8
  dioRedundancy : UInt8
  dioIntcurrent : UInt8
  dioSend : Bool
  dioCounter : UInt8
  dioNextDelay : UInt32
  timer : Option UInt32
  diosSent : Nat

/-- The memory of `curr_instance` at the start. -/
def State.zero : State := ⟨false, false, false, 0, .initialized, 0, 0, 0, 0, false, 0, 0, none, 0⟩

/-- `rpl_dag_ready_to_advertise`; RPL_MOP_NO_DOWNWARD_ROUTES is 0. -/
def State.readyToAdvertise (s : State) : Bool :=
  s.used && (s.mop == 0 || match s.state with
    | .reachable | .poisoning => true
    | .initialized | .joined => false)

/-- `new_dio_interval` with 32 bits for `unsigned long` and `clock_time_t`: nothing when the shift is undefined. -/
def newDioInterval (clockSecond : UInt32) (s : State) (rand : UInt16) : Option State :=
  if s.dioIntcurrent < 32 then
    let time : UInt32 := 1 <<< s.dioIntcurrent.toUInt32
    let interval := time * clockSecond / 1000
    let ticks := interval / 2 + interval / 2 * rand.toUInt32 / 65535
    some { s with dioNextDelay := interval - ticks, dioSend := true, dioCounter := 0, timer := some ticks }
  else none

/-- What a call leads to: it ends, or it begins an interval last. -/
inductive Outcome where
  | ended (s : State)
  | interval (s : State)

/-- `rpl_timers_dio_reset`. -/
def dioReset (s : State) : Outcome :=
  if s.readyToAdvertise = true ∧ (s.dioIntcurrent = 0 ∨ s.dioIntmin < s.dioIntcurrent) ∧ s.leafOnly = false then
    .interval { s with dioCounter := 0, dioIntcurrent := s.dioIntmin }
  else .ended s

def handleDioTimer (s : State) : Outcome :=
  if s.readyToAdvertise then
    if s.dioSend then
      let send := s.root ∨ s.dioRedundancy = 0 ∨ s.dioCounter < s.dioRedundancy
      .ended { s with dioSend := false, timer := some s.dioNextDelay, diosSent := s.diosSent + if send then 1 else 0 }
    else if s.dioIntcurrent.toNat < s.dioIntmin.toNat + s.dioIntdoubl.toNat then
      .interval { s with dioIntcurrent := s.dioIntcurrent + 1 }
    else .interval s
  else .ended s

/-- `init_dag_from_dio` and `rpl_dag_init_root`, which begin with zeroed memory. -/
def initDag (s : State) (root : Bool) (mop : UInt8) (state : DagState) (intdoubl intmin redundancy : UInt8) : State :=
  { State.zero with
    used := true
    root := root
    leafOnly := s.leafOnly
    diosSent := s.diosSent
    mop := mop
    state := state
    dioIntdoubl := intdoubl
    dioIntmin := intmin
    dioRedundancy := redundancy }

/-- What happens to the timer: a DAG is joined with the configuration of a DIO, the node becomes a root or leaves, the state
changes, a DIO is heard, the timer is reset or expires. -/
inductive Act where
  | join (mop intdoubl intmin redundancy : UInt8)
  | initRoot (mop intdoubl intmin redundancy : UInt8)
  | leave
  | setLeafOnly (leafOnly : Bool)
  | setState (state : DagState)
  | hearDio
  | reset
  | expire

/-- What an act leads to, before the interval that it begins; the timer expires only when it is set. -/
def call (s : State) : Act → Option Outcome
  | .join mop intdoubl intmin redundancy => some (dioReset (initDag s false mop .initialized intdoubl intmin redundancy))
  | .initRoot mop intdoubl intmin redundancy => some (dioReset (initDag s true mop .reachable intdoubl intmin redundancy))
  | .leave => some (.ended { s with used := false, timer := none })
  | .setLeafOnly leafOnly => some (.ended { s with leafOnly := leafOnly })
  | .setState state => some (.ended { s with state := state })
  | .hearDio => some (.ended { s with dioCounter := s.dioCounter + 1 })
  | .reset => some (dioReset s)
  | .expire => s.timer.map fun _ => handleDioTimer { s with timer := none }

def step (clockSecond : UInt32) (s : State) (a : Act × UInt16) : Option State :=
  match call s a.1 with
  | none => none
  | some (.ended t) => some t
  | some (.interval t) => newDioInterval clockSecond t a.2

/-! ## One interval -/

variable {clockSecond : UInt32} {s t : State} {rand : UInt16}

def intervalTicks (clockSecond : UInt32) (s : State) : Nat := 2 ^ s.dioIntcurrent.toNat * clockSecond.toNat / 1000

/-- The DIO is scheduled within the second half of the interval, and what remains completes the interval. -/
def Scheduled (clockSecond : UInt32) (s : State) (rand : UInt16) : Prop :=
  ∃ t ticks, newDioInterval clockSecond s rand = some t ∧ t.timer = some ticks ∧
    ticks.toNat = intervalTicks clockSecond s / 2 + intervalTicks clockSecond s / 2 * rand.toNat / 65535 ∧
      ticks.toNat + t.dioNextDelay.toNat = intervalTicks clockSecond s

/-- The shift and the two products fit 32 bits. -/
def Fits (clockSecond : UInt32) (s : State) (rand : UInt16) : Prop :=
  s.dioIntcurrent < 32 ∧ 2 ^ s.dioIntcurrent.toNat * clockSecond.toNat < 2 ^ 32 ∧
    intervalTicks clockSecond s / 2 * rand.toNat < 2 ^ 32

theorem toNat_time (h : s.dioIntcurrent < 32) :
    ((1 : UInt32) <<< s.dioIntcurrent.toUInt32).toNat = 2 ^ s.dioIntcurrent.toNat := by
  have hk : s.dioIntcurrent.toNat < 32 := UInt8.lt_iff_toNat_lt.1 h
  have hlt : 2 ^ s.dioIntcurrent.toNat < 2 ^ 32 := Nat.pow_lt_pow_right (by omega) hk
  rw [UInt32.toNat_shiftLeft, UInt8.toNat_toUInt32, Nat.mod_eq_of_lt hk, Nat.shiftLeft_eq]
  show 1 * _ % 2 ^ 32 = _
  rw [one_mul, Nat.mod_eq_of_lt hlt]

theorem mod_div_le (half r : Nat) (h : r ≤ 65535) : half * r % 2 ^ 32 / 65535 ≤ half :=
  calc half * r % 2 ^ 32 / 65535 ≤ half * r / 65535 := Nat.div_le_div_right (Nat.mod_le _ _)
    _ ≤ half * 65535 / 65535 := Nat.div_le_div_right (Nat.mul_le_mul_left half h)
    _ = half := Nat.mul_div_cancel half (by omega)

variable (clockSecond rand) in
theorem newDioInterval_eq (h : s.dioIntcurrent < 32) : ∃ ticks next,
    newDioInterval clockSecond s rand =
        some { s with dioNextDelay := next, dioSend := true, dioCounter := 0, timer := some ticks } ∧
      ticks.toNat = 2 ^ s.dioIntcurrent.toNat * clockSecond.toNat % 2 ^ 32 / 1000 / 2 +
        2 ^ s.dioIntcurrent.toNat * clockSecond.toNat % 2 ^ 32 / 1000 / 2 * rand.toNat % 2 ^ 32 / 65535 ∧
      ticks.toNat + next.toNat = 2 ^ s.dioIntcurrent.toNat * clockSecond.toNat % 2 ^ 32 / 1000 := by
  obtain ⟨interval, hdef⟩ : ∃ interval, interval = (1 : UInt32) <<< s.dioIntcurrent.toUInt32 * clockSecond / 1000 := ⟨_, rfl⟩
  have hinterval : interval.toNat = 2 ^ s.dioIntcurrent.toNat * clockSecond.toNat % 2 ^ 32 / 1000 := by
    rw [hdef, UInt32.toNat_div, UInt32.toNat_mul, toNat_time h]
    rfl
  have hlt : interval.toNat < 2 ^ 32 / 1000 + 1 := by
    rw [hinterval]
    omega
  have hle := mod_div_le (interval.toNat / 2) rand.toNat (by have := rand.toNat_lt; omega)
  have hticks : (interval / 2 + interval / 2 * rand.toUInt32 / 65535).toNat =
      interval.toNat / 2 + interval.toNat / 2 * rand.toNat % 2 ^ 32 / 65535 := by
    rw [UInt32.toNat_add, UInt32.toNat_div, UInt32.toNat_div, UInt32.toNat_mul, UInt32.toNat_div, UInt16.toNat_toUInt32]
    refine Nat.mod_eq_of_lt ?_
    show interval.toNat / 2 + interval.toNat / 2 * rand.toNat % 2 ^ 32 / 65535 < _
    omega
  refine ⟨interval / 2 + interval / 2 * rand.toUInt32 / 65535, interval - (interval / 2 + interval / 2 * rand.toUInt32 / 65535),
    ?_, ?_, ?_⟩
  · unfold newDioInterval
    rw [if_pos h, hdef]
  · rw [hticks, hinterval]
  · have hsub : interval / 2 + interval / 2 * rand.toUInt32 / 65535 ≤ interval := by
      rw [UInt32.le_iff_toNat_le, hticks]
      omega
    rw [UInt32.toNat_sub_of_le _ _ hsub, ← hinterval]
    have := UInt32.le_iff_toNat_le.1 hsub
    omega

/-- The schedule is right exactly when nothing is lost of the shift and the products. -/
theorem scheduled_iff_fits : Scheduled clockSecond s rand ↔ Fits clockSecond s rand := by
  constructor
  · rintro ⟨t, ticks, hnew, htimer, hticks, hsum⟩
    have hk : s.dioIntcurrent < 32 := by
      by_contra h
      unfold newDioInterval at hnew
      rw [if_neg h] at hnew
      cases hnew
    obtain ⟨ticks', next, heq, hticks', hsum'⟩ := newDioInterval_eq clockSecond rand hk
    rw [heq] at hnew
    cases hnew
    cases htimer
    unfold intervalTicks at hticks hsum
    have hfirst : 2 ^ s.dioIntcurrent.toNat * clockSecond.toNat < 2 ^ 32 := by
      have : 2 ^ s.dioIntcurrent.toNat * clockSecond.toNat % 2 ^ 32 / 1000 =
        2 ^ s.dioIntcurrent.toNat * clockSecond.toNat / 1000 := hsum'.symm.trans hsum
      omega
    refine ⟨hk, hfirst, ?_⟩
    unfold intervalTicks
    rw [Nat.mod_eq_of_lt hfirst] at hticks'
    omega
  · rintro ⟨hk, hfirst, hsecond⟩
    obtain ⟨ticks, next, heq, hticks, hsum⟩ := newDioInterval_eq clockSecond rand hk
    unfold intervalTicks at hsecond
    rw [Nat.mod_eq_of_lt hfirst] at hticks hsum
    rw [Nat.mod_eq_of_lt hsecond] at hticks
    exact ⟨_, ticks, heq, rfl, hticks, hsum⟩

/-! ## Runs -/

def Bounded (s : State) : Prop := s.dioIntcurrent.toNat ≤ s.dioIntmin.toNat + s.dioIntdoubl.toNat

def StepScheduled (clockSecond : UInt32) (s : State) (a : Act × UInt16) : Prop :=
  ∀ t, call s a.1 = some (.interval t) → Scheduled clockSecond t a.2

def StepFits (clockSecond : UInt32) (s : State) (a : Act × UInt16) : Prop :=
  ∀ t, call s a.1 = some (.interval t) → Fits clockSecond t a.2

def Outcome.state : Outcome → State
  | .ended s => s
  | .interval s => s

theorem dioReset_bounded (h : Bounded s) : Bounded (dioReset s).state := by
  unfold dioReset
  split_ifs
  · exact Nat.le_add_right _ _
  · exact h

theorem handleDioTimer_bounded (h : Bounded s) : Bounded (handleDioTimer s).state := by
  unfold handleDioTimer
  split_ifs with _ _ hlt
  · exact h
  · -- the increment is one of a byte
    show (s.dioIntcurrent + 1).toNat ≤ _
    rw [UInt8.toNat_add]
    exact (Nat.mod_le _ _).trans hlt
  · exact h
  · exact h

theorem call_bounded {a : Act} {o : Outcome} (h : Bounded s) (hcall : call s a = some o) : Bounded o.state := by
  cases a with
  | join mop intdoubl intmin redundancy =>
    cases hcall
    exact dioReset_bounded (Nat.zero_le _)
  | initRoot mop intdoubl intmin redundancy =>
    cases hcall
    exact dioReset_bounded (Nat.zero_le _)
  | leave | setLeafOnly leafOnly | setState state | hearDio =>
    cases hcall
    exact h
  | reset =>
    cases hcall
    exact dioReset_bounded h
  | expire =>
    obtain ⟨ticks, -, rfl⟩ := Option.map_eq_some_iff.1 hcall
    exact handleDioTimer_bounded (s := { s with timer := none }) h

theorem step_bounded {a : Act × UInt16} (h : Bounded s) (hstep : step clockSecond s a = some t) : Bounded t := by
  unfold step at hstep
  cases hcall : call s a.1 with
  | none =>
    rw [hcall] at hstep
    cases hstep
  | some o =>
    have hb := call_bounded h hcall
    rw [hcall] at hstep
    cases o with
    | ended t' =>
      cases hstep
      exact hb
    | interval t' =>
      dsimp only at hstep
      by_cases hk : t'.dioIntcurrent < 32
      · obtain ⟨ticks, next, heq, -, -⟩ := newDioInterval_eq clockSecond a.2 hk
        rw [heq] at hstep
        cases hstep
        exact hb
      · unfold newDioInterval at hstep
        rw [if_neg hk] at hstep
        cases hstep

theorem allSteps_congr {C D : State → Act × UInt16 → Prop} (h : ∀ s a, C s a ↔ D s a) :
    ∀ (as : List (Act × UInt16)) (s : State), AllSteps (step clockSecond) C s as ↔ AllSteps (step clockSecond) D s as
  | [], _ => Iff.rfl
  | a :: as, s => and_congr (h s a) (forall_congr' fun t => imp_congr_right fun _ => allSteps_congr h as t)

/-- The default configuration, after 8 doublings of 4 seconds: 2^20 milliseconds are 134217 ticks of 128 in a second, half of
which times the largest random number is more than 32 bits. -/
def longest : State := { State.zero with used := true, dioIntmin := 12, dioIntdoubl := 8, dioIntcurrent := 20 }

end Contiki.RplLite.DioTimer

/-
`rpl_dag_update_state` (rpl-dag.c): the parent is selected, and the rank follows from it. A neighbor that is acceptable gives
a rank above its own by at least `min_hoprankinc`, unless the product in OF0 exceeds 16 bits; and in runs in which that
does not happen, and no parent has rank 0, the rank stays above that of the parent.
-/
import Contiki.RplLite.Of
import Contiki.Lib.Run

namespace Contiki.RplLite.Dag

open Contiki.Lib
open Icmp6 (MetricContainer MetricObject dagMcNone dagMcEtx dagMcEnergy)

variable {ν : Type} (cfg : Conf)

/-! ## The functions -/

section

variable [DecidableEq ν]

/-- `rpl_dag_root_is_root`; ROOT_RANK is `min_hoprankinc`. -/
def rootIsRoot (inst : Instance ν) : Bool := inst.used && decide (inst.rank = inst.minHoprankinc)

def Node.probe (s : Node ν) (target : Option ν) : Node ν := { s with inst := { s.inst with urgentProbingTarget := target } }

/-- `rpl_neighbor_select_best`. -/
def selectBest (s : Node ν) : Option ν × Node ν :=
  if rootIsRoot s.inst then (none, s)
  else if cfg.withProbing then
    match bestParent cfg s false with
    | none => (none, s)
    | some best =>
      if (s.nbr best).fresh then
        (some best, s.probe none)
      else
        let t := if s.inst.urgentProbingTarget = none then s.probe (some best) else s
        if some best = s.inst.preferredParent then (some best, t)
        else
          match bestParent cfg s true with
          | some bestFresh => (some bestFresh, t)
          | none => if s.inst.preferredParent = none then (none, t) else (some best, t)
  else
    (bestParent cfg s false, s)

/-- `rpl_neighbor_set_preferred_parent`. -/
def setPreferredParent (nbr : Option ν) (inst : Instance ν) : Instance ν :=
  if inst.preferredParent ≠ nbr then { inst with preferredParent := nbr, unprocessedParentSwitch := true } else inst

/-- `rpl_neighbor_rank_via_nbr`. -/
def rankViaParent (s : Node ν) (nbr : Option ν) : UInt16 := nbr.elim infiniteRank fun n => rankViaNbr cfg s.inst (s.nbr n)

def reselect (s : Node ν) : Node ν :=
  let r := selectBest cfg s
  let inst := setPreferredParent r.1 r.2.inst
  { r.2 with inst := { inst with rank := rankViaParent cfg s r.1 } }

/-- The time since when a neighbor has been better than the parent. -/
def markBetter (s : Node ν) : Node ν :=
  { s with nbr := fun n =>
      if n ∈ s.table then
        if rankViaNbr cfg s.inst (s.nbr n) < s.inst.rank then
          if (s.nbr n).betterParentSince = 0 then { s.nbr n with betterParentSince := s.clock } else s.nbr n
        else { s.nbr n with betterParentSince := 0 }
      else s.nbr n }

def lowerRank (oldParent : Option ν) (inst : Instance ν) : Instance ν :=
  if oldParent = none ∨ inst.rank < inst.lowestRank then { inst with lowestRank := inst.rank } else inst

def advertiseChange (inst : Instance ν) : Instance ν :=
  if inst.lastAdvertisedRank ≠ infiniteRank ∧ inst.rank ≠ infiniteRank ∧
      cfg.significantChangeThreshold < ((inst.rank.toNat : Int) - inst.lastAdvertisedRank.toNat).natAbs then
    { inst with lastAdvertisedRank := inst.rank }
  else inst

def processSwitch (oldParent : Option ν) (inst : Instance ν) : Instance ν :=
  if inst.unprocessedParentSwitch then
    let state := if inst.preferredParent = none then .initialized else if oldParent = none then .joined else inst.state
    { inst with state := state, unprocessedParentSwitch := false }
  else inst

def updateMetricContainer (s : Node ν) : MetricContainer :=
  if s.inst.of = .of0 ∨ cfg.withMc = false then
    { s.inst.mc with type := dagMcNone }
  else if s.inst.used = false then
    s.inst.mc
  else
    let root := s.inst.rank = s.inst.minHoprankinc
    let mc := if root then { s.inst.mc with type := cfg.dagMc, flags := 0, aggr := 0, prec := 0 } else s.inst.mc
    let pathCost := if root then s.inst.rank else parentPathCost cfg s
    if mc.type = dagMcEtx then { mc with length := 2, obj := .etx pathCost }
    else if mc.type = dagMcEnergy then
      { mc with length := 2, obj := .energy (if root then 0 else (1 : UInt8) <<< 1) (pathCost >>> 8).toUInt8 }
    else mc

/-- The part of `rpl_dag_update_state` for a node that is not the root. -/
def updateRank (s : Node ν) : Node ν :=
  let t := markBetter cfg (reselect cfg s)
  { t with inst := processSwitch s.inst.preferredParent (advertiseChange cfg (lowerRank s.inst.preferredParent t.inst)) }

/-- `rpl_dag_update_state`. -/
def updateState (s : Node ν) : Node ν :=
  if s.inst.used then
    let t :=
      if s.inst.state = .poisoning then
        { s with inst := { setPreferredParent none s.inst with rank := infiniteRank } }
      else if rootIsRoot s.inst then s
      else updateRank cfg s
    { t with inst := { t.inst with mc := updateMetricContainer cfg t } }
  else s

end

/-! ## The rank via a neighbor -/

variable {cfg} {inst : Instance ν} {n : Nbr} {s t : Node ν}

/-- The rank is infinite, or above that of the neighbor by at least `min_hoprankinc`. -/
def RankAbove (cfg : Conf) (inst : Instance ν) (n : Nbr) : Prop :=
  rankViaNbr cfg inst n = infiniteRank ∨
    n.rank < rankViaNbr cfg inst n ∧ n.rank.toNat + inst.minHoprankinc.toNat ≤ (rankViaNbr cfg inst n).toNat

/-- The last step of OF0 does not exceed 16 bits anew, or what is left of the product is enough for the infinite rank. -/
def StepFits (cfg : Conf) (inst : Instance ν) (n : Nbr) : Prop :=
  inst.of = .of0 →
    (stepOfRank cfg n - 1) * inst.minHoprankinc.toNat / 2 ^ 16 = stepOfRank cfg n * inst.minHoprankinc.toNat / 2 ^ 16 ∨
      0xffff ≤ n.rank.toNat + (stepOfRank cfg n * inst.minHoprankinc.toNat) % 2 ^ 16

theorem toNat_saturate (x : Nat) : (saturate x).toNat = min x 0xffff := by
  unfold saturate
  rw [UInt16.toNat_ofNat']
  omega

theorem saturate_eq_infinite {x : Nat} : saturate x = infiniteRank ↔ 0xffff ≤ x := by
  rw [← UInt16.toNat_inj, toNat_saturate]
  show _ = 65535 ↔ _
  omega

theorem lt_of_le_infinite {r : UInt16} (h : r ≠ infiniteRank) : r.toNat < 0xffff := by
  have hne : r.toNat ≠ 65535 := fun h' => h (UInt16.toNat_inj.1 h')
  have := r.toNat_lt
  omega

theorem toNat_max (a b : UInt16) : (max a b).toNat = max a.toNat b.toNat := by
  unfold max instMaxUInt16 maxOfLe
  dsimp only
  split_ifs with h
  · exact (max_eq_right (UInt16.le_iff_toNat_le.1 h)).symm
  · exact (max_eq_left (not_le.1 (mt UInt16.le_iff_toNat_le.2 h)).le).symm

theorem rankAbove_iff : RankAbove cfg inst n ↔ rankViaNbr cfg inst n = infiniteRank ∨
    n.rank.toNat < (rankViaNbr cfg inst n).toNat ∧ n.rank.toNat + inst.minHoprankinc.toNat ≤ (rankViaNbr cfg inst n).toNat := by
  unfold RankAbove
  rw [UInt16.lt_iff_toNat_lt]

theorem rankAbove_mrhof (hof : inst.of = .mrhof) (hpos : 1 ≤ inst.minHoprankinc) : RankAbove cfg inst n := by
  have hvia : rankViaNbr cfg inst n = max (saturate (n.rank.toNat + inst.minHoprankinc.toNat)) (nbrPathCost cfg inst n) := by
    unfold rankViaNbr
    rw [hof]
  have hle : (saturate (n.rank.toNat + inst.minHoprankinc.toNat)).toNat ≤ (rankViaNbr cfg inst n).toNat := by
    rw [hvia, toNat_max]
    exact le_max_left _ _
  have hmin : 1 ≤ inst.minHoprankinc.toNat := UInt16.le_iff_toNat_le.1 hpos
  rw [toNat_saturate] at hle
  rw [rankAbove_iff]
  by_cases hinf : rankViaNbr cfg inst n = infiniteRank
  · exact .inl hinf
  · have := lt_of_le_infinite hinf
    exact .inr ⟨by omega, by omega⟩

theorem rankAbove_of0 (hof : inst.of = .of0) (hpos : 1 ≤ inst.minHoprankinc) :
    RankAbove cfg inst n ↔ StepFits cfg inst n := by
  have hmin : 1 ≤ inst.minHoprankinc.toNat := UInt16.le_iff_toNat_le.1 hpos
  have hmax := inst.minHoprankinc.toNat_lt
  have hvia : rankViaNbr cfg inst n = saturate (n.rank.toNat + (nbrRankIncrease cfg inst n).toNat) := by
    unfold rankViaNbr
    rw [hof]
  have hinc : ((nbrRankIncrease cfg inst n).toNat : Int) = (stepOfRank cfg n * inst.minHoprankinc.toNat) % 2 ^ 16 := by
    unfold nbrRankIncrease
    rw [UInt16.toNat_ofNat']
    omega
  have hprev : (stepOfRank cfg n - 1) * inst.minHoprankinc.toNat =
      stepOfRank cfg n * inst.minHoprankinc.toNat - inst.minHoprankinc.toNat := by ring
  rw [rankAbove_iff, hvia, saturate_eq_infinite, toNat_saturate]
  unfold StepFits
  rw [hprev, hof]
  simp only [true_imp_iff]
  omega

theorem rankAbove_iff_stepFits (hpos : 1 ≤ inst.minHoprankinc) : RankAbove cfg inst n ↔ StepFits cfg inst n := by
  cases hof : inst.of with
  | of0 => exact rankAbove_of0 hof hpos
  | mrhof =>
    refine iff_of_true (rankAbove_mrhof hof hpos) fun h => ?_
    rw [hof] at h
    cases h

def ActsAsRoot (cfg : Conf) (inst : Instance ν) (n : Nbr) : Prop :=
  n.rank = 0 ∧ match inst.of with
    | .of0 => (stepOfRank cfg n * inst.minHoprankinc.toNat) % 2 ^ 16 = inst.minHoprankinc.toNat
    | .mrhof => nbrPathCost cfg inst n ≤ inst.minHoprankinc

theorem candidate_of_fresh {freshOnly : Bool} {p : ν} (h : candidate cfg s freshOnly p = true) :
    candidate cfg s false p = true := by
  unfold candidate at h ⊢
  simp only [Bool.and_eq_true, Bool.not_false, Bool.true_or, and_true] at h ⊢
  exact ⟨⟨h.1.1.1, h.1.1.2⟩, h.2⟩

theorem acceptableRank_of_candidate {freshOnly : Bool} {p : ν} (h : candidate cfg s freshOnly p = true) :
    acceptableRank s.inst (rankViaNbr cfg s.inst (s.nbr p)) = true := by
  unfold candidate at h
  simp only [Bool.and_eq_true] at h
  exact h.1.1.1

/-- Only the rank via a neighbor that acts as a root is that of a root. -/
theorem actsAsRoot_of_eq (h : rankViaNbr cfg inst n = inst.minHoprankinc) (habove : RankAbove cfg inst n)
    (hne : rankViaNbr cfg inst n ≠ infiniteRank) : ActsAsRoot cfg inst n := by
  rcases rankAbove_iff.1 habove with hinf | ⟨-, hle⟩
  · exact absurd hinf hne
  have hrank : n.rank.toNat = 0 := by
    rw [h] at hle
    omega
  refine ⟨UInt16.toNat_inj.1 hrank, ?_⟩
  have hlt := lt_of_le_infinite hne
  unfold rankViaNbr at h hlt
  cases hof : inst.of with
  | of0 =>
    rw [hof] at h hlt
    dsimp only at h hlt ⊢
    have htoNat := congrArg UInt16.toNat h
    rw [toNat_saturate] at htoNat hlt
    have hinc : ((nbrRankIncrease cfg inst n).toNat : Int) = (stepOfRank cfg n * inst.minHoprankinc.toNat) % 2 ^ 16 := by
      unfold nbrRankIncrease
      rw [UInt16.toNat_ofNat']
      omega
    omega
  | mrhof =>
    rw [hof] at h
    dsimp only at h ⊢
    have htoNat := congrArg UInt16.toNat h
    rw [toNat_max] at htoNat
    rw [UInt16.le_iff_toNat_le]
    omega

/-! ## What an update does -/

variable (cfg) in
theorem advertiseChange_eq (inst : Instance ν) :
    ∃ rank, advertiseChange cfg inst = { inst with lastAdvertisedRank := rank } := by
  unfold advertiseChange
  split_ifs
  · exact ⟨inst.rank, rfl⟩
  · exact ⟨inst.lastAdvertisedRank, rfl⟩

theorem processSwitch_eq (oldParent : Option ν) (inst : Instance ν) : ∃ state switch,
    processSwitch oldParent inst = { inst with state := state, unprocessedParentSwitch := switch } := by
  unfold processSwitch
  split
  · exact ⟨_, false, rfl⟩
  · exact ⟨inst.state, inst.unprocessedParentSwitch, rfl⟩

theorem lowerRank_eq (oldParent : Option ν) (inst : Instance ν) : lowerRank oldParent inst = { inst with
    lowestRank := if oldParent = none ∨ inst.rank < inst.lowestRank then inst.rank else inst.lowestRank } := by
  unfold lowerRank
  split_ifs <;> rfl

variable [DecidableEq ν]

variable (cfg s) in
theorem selectBest_spec : (∃ target, (selectBest cfg s).2 = s.probe target) ∧
    ∀ p, (selectBest cfg s).1 = some p → ∃ freshOnly, bestParent cfg s freshOnly = some p := by
  have hsame : ∃ target, s = s.probe target := ⟨s.inst.urgentProbingTarget, rfl⟩
  unfold selectBest
  by_cases hroot : rootIsRoot s.inst = true
  · rw [if_pos hroot]
    exact ⟨hsame, by rintro p ⟨⟩⟩
  rw [if_neg hroot]
  by_cases hprobing : cfg.withProbing = true
  swap
  · rw [if_neg hprobing]
    exact ⟨hsame, fun p h => ⟨false, h⟩⟩
  rw [if_pos hprobing]
  cases hbest : bestParent cfg s false with
  | none => exact ⟨hsame, by rintro p ⟨⟩⟩
  | some best =>
    dsimp only
    obtain ⟨t, ht⟩ : ∃ t, t = if s.inst.urgentProbingTarget = none then s.probe (some best) else s := ⟨_, rfl⟩
    have htarget : ∃ target, t = s.probe target := by
      rw [ht]
      split_ifs
      · exact ⟨_, rfl⟩
      · exact hsame
    rw [← ht]
    by_cases hfresh : (s.nbr best).fresh = true
    · rw [if_pos hfresh]
      exact ⟨⟨none, rfl⟩, fun p h => ⟨false, hbest.trans h⟩⟩
    rw [if_neg hfresh]
    by_cases hparent : some best = s.inst.preferredParent
    · rw [if_pos hparent]
      exact ⟨htarget, fun p h => ⟨false, hbest.trans h⟩⟩
    rw [if_neg hparent]
    cases hother : bestParent cfg s true with
    | some bestFresh => exact ⟨htarget, fun p h => ⟨true, hother.trans h⟩⟩
    | none =>
      dsimp only
      split_ifs
      · exact ⟨htarget, by rintro p ⟨⟩⟩
      · exact ⟨htarget, fun p h => ⟨false, hbest.trans h⟩⟩

theorem setPreferredParent_eq (nbr : Option ν) (inst : Instance ν) : ∃ switch,
    setPreferredParent nbr inst = { inst with preferredParent := nbr, unprocessedParentSwitch := switch } := by
  unfold setPreferredParent
  split_ifs with h
  · exact ⟨true, rfl⟩
  · obtain rfl : inst.preferredParent = nbr := not_not.1 h
    exact ⟨inst.unprocessedParentSwitch, rfl⟩

structure Updated (cfg : Conf) (s t : Node ν) (parent : Option ν) : Prop where
  preferredParent : t.inst.preferredParent = parent
  rank : t.inst.rank = rankViaParent cfg s parent
  lowestRank : t.inst.lowestRank =
    if s.inst.preferredParent = none ∨ t.inst.rank < s.inst.lowestRank then t.inst.rank else s.inst.lowestRank
  minHoprankinc : t.inst.minHoprankinc = s.inst.minHoprankinc
  maxRankinc : t.inst.maxRankinc = s.inst.maxRankinc
  nbr : ∀ n, (t.nbr n).rank = (s.nbr n).rank

variable (cfg) in
theorem updateRank_spec (s : Node ν) : Updated cfg s (updateRank cfg s) (selectBest cfg s).1 := by
  obtain ⟨⟨target, htarget⟩, -⟩ := selectBest_spec cfg s
  obtain ⟨switch, hset⟩ := setPreferredParent_eq (selectBest cfg s).1 (selectBest cfg s).2.inst
  have hre : reselect cfg s = { s with inst := { s.inst with
      urgentProbingTarget := target
      preferredParent := (selectBest cfg s).1
      unprocessedParentSwitch := switch
      rank := rankViaParent cfg s (selectBest cfg s).1 } } := by
    unfold reselect
    dsimp only
    rw [hset, htarget]
    rfl
  have hmark : (markBetter cfg (reselect cfg s)).inst = (reselect cfg s).inst := rfl
  obtain ⟨last, hadvertise⟩ := advertiseChange_eq cfg (lowerRank s.inst.preferredParent (reselect cfg s).inst)
  obtain ⟨state, switch', hprocess⟩ := processSwitch_eq s.inst.preferredParent
    (advertiseChange cfg (lowerRank s.inst.preferredParent (reselect cfg s).inst))
  have hinst : (updateRank cfg s).inst = { lowerRank s.inst.preferredParent (reselect cfg s).inst with
      lastAdvertisedRank := last, state := state, unprocessedParentSwitch := switch' } := by
    unfold updateRank
    dsimp only
    rw [hmark, hprocess, hadvertise]
  rw [lowerRank_eq, hre] at hinst
  have hnbr : ∀ n, ((updateRank cfg s).nbr n).rank = ((reselect cfg s).nbr n).rank := by
    intro n
    show ((markBetter cfg (reselect cfg s)).nbr n).rank = _
    unfold markBetter
    dsimp only
    split_ifs <;> rfl
  refine ⟨?_, ?_, ?_, ?_, ?_, fun n => ?_⟩
  · rw [hinst]
  · rw [hinst]
  · rw [hinst]
  · rw [hinst]
  · rw [hinst]
  · rw [hnbr, hre]

/-! ## Loop freedom of one update -/

/-- The neighbors that may be selected raise the rank by a product that fits, and not to that of a root. -/
def Fits (cfg : Conf) (s : Node ν) : Prop := ∀ n ∈ s.table, candidate cfg s false n = true →
  StepFits cfg s.inst (s.nbr n) ∧ ¬ActsAsRoot cfg s.inst (s.nbr n)

/-- The node is above its preferred parent, and within the increase that the root allows. -/
structure Above (s : Node ν) : Prop where
  parent : ∀ p, s.inst.preferredParent = some p → (s.nbr p).rank < s.inst.rank
  bound : s.inst.preferredParent.isSome → s.inst.maxRankinc ≠ 0 →
    s.inst.rank.toNat ≤ s.inst.lowestRank.toNat + s.inst.maxRankinc.toNat

/-- What holds between updates: a node with a parent is not taken for a root. -/
structure Sound (s : Node ν) : Prop where
  minHoprankinc : 1 ≤ s.inst.minHoprankinc
  parent : s.inst.preferredParent.isSome → s.inst.rank ≠ s.inst.minHoprankinc

theorem updateRank_above (hpos : 1 ≤ s.inst.minHoprankinc) (hfits : Fits cfg s) :
    Sound (updateRank cfg s) ∧ Above (updateRank cfg s) := by
  have hspec := updateRank_spec cfg s
  cases hsel : (selectBest cfg s).1 with
  | none =>
    have hparent := hspec.preferredParent.trans hsel
    refine ⟨⟨hspec.minHoprankinc ▸ hpos, fun h => ?_⟩, ⟨fun p h => ?_, fun h => ?_⟩⟩
    · rw [hparent] at h
      cases h
    · rw [hparent] at h
      cases h
    · rw [hparent] at h
      cases h
  | some p =>
    obtain ⟨freshOnly, hbest⟩ := (selectBest_spec cfg s).2 p hsel
    obtain ⟨hmem, hc⟩ := bestParent_candidate hbest
    obtain ⟨hstep, hroot⟩ := hfits p hmem (candidate_of_fresh hc)
    have habove := (rankAbove_iff_stepFits hpos).2 hstep
    have hacc := acceptableRank_of_candidate hc
    unfold acceptableRank at hacc
    obtain ⟨hne, -, hmax⟩ := of_decide_eq_true hacc
    have hrank : (updateRank cfg s).inst.rank = rankViaNbr cfg s.inst (s.nbr p) := by
      rw [hspec.rank, hsel]
      rfl
    have hparent := hspec.preferredParent.trans hsel
    refine ⟨⟨hspec.minHoprankinc ▸ hpos, fun _ h => ?_⟩, ⟨fun q h => ?_, fun _ h => ?_⟩⟩
    · rw [hrank, hspec.minHoprankinc] at h
      exact hroot (actsAsRoot_of_eq h habove hne)
    · obtain rfl := Option.some.inj (hparent.symm.trans h)
      rw [hspec.nbr, hrank]
      rcases habove with hinf | ⟨hlt, -⟩
      · exact absurd hinf hne
      · exact hlt
    · rw [hspec.maxRankinc] at h ⊢
      unfold maxAcceptableRank at hmax
      rw [if_neg h, UInt16.le_iff_toNat_le, toNat_saturate, ← hrank] at hmax
      rw [hspec.lowestRank]
      split_ifs
      · omega
      · omega

theorem updateState_above (hused : s.inst.used = true) (hsound : Sound s)
    (hfits : s.inst.state ≠ .poisoning → rootIsRoot s.inst = false → Fits cfg s) :
    Sound (updateState cfg s) ∧ Above (updateState cfg s) := by
  unfold updateState
  rw [if_pos hused]
  dsimp only
  split_ifs with hpoison hroot
  · obtain ⟨switch, hset⟩ := setPreferredParent_eq none s.inst
    rw [hset]
    exact ⟨⟨hsound.minHoprankinc, nofun⟩, ⟨nofun, nofun⟩⟩
  · unfold rootIsRoot at hroot
    rw [hused, Bool.true_and, decide_eq_true_iff] at hroot
    have hnone : s.inst.preferredParent = none := by
      by_contra h
      exact hsound.parent (Option.isSome_iff_ne_none.2 h) hroot
    refine ⟨⟨hsound.minHoprankinc, hsound.parent⟩, ⟨fun p h => ?_, fun h => ?_⟩⟩
    · cases hnone.symm.trans h
    · rw [show _ = none from hnone] at h
      cases h
  · obtain ⟨⟨hpos, hparent⟩, ⟨hlt, hbound⟩⟩ := updateRank_above hsound.minHoprankinc
      (hfits hpoison (Bool.not_eq_true _ ▸ hroot))
    exact ⟨⟨hpos, hparent⟩, ⟨hlt, hbound⟩⟩

/-! ## Runs -/

/-- The configuration of an objective function in a DIO, or that of a root. -/
structure Adopted where
  of : Of
  mc : MetricContainer
  maxRankinc : UInt16
  minHoprankinc : UInt16

/-- `init_dag` and what `init_dag_from_dio` and `rpl_dag_init_root` set. -/
def Adopted.init (dio : Adopted) (rank : UInt16) (state : DagState) : Instance ν where
  used := true
  of := dio.of
  mc := dio.mc
  maxRankinc := dio.maxRankinc
  minHoprankinc := dio.minHoprankinc
  lowestRank := infiniteRank
  rank := rank
  lastAdvertisedRank := infiniteRank
  preferredParent := none
  urgentProbingTarget := none
  state := state
  unprocessedParentSwitch := false

/-- What happens to a node: it joins a DAG, becomes a root, leaves, loses its parent, changes its state, advertises its
rank, hears of neighbors or forgets them, chooses one to probe, or is updated. -/
inductive Act (ν : Type) where
  | join (dio : Adopted)
  | initRoot (root : Adopted)
  | leave
  | dropParent
  | setState (state : DagState)
  | advertise
  | neighbors (table : List ν) (nbr : ν → Nbr) (clock : UInt32)
  | probe (target : Option ν)
  | update

variable (cfg) in
/-- A DAG is adopted with a positive MinHopRankIncrease only. -/
@[grind =]
def step (s : Node ν) : Act ν → Option (Node ν)
  | .join dio => if 1 ≤ dio.minHoprankinc then some { s with inst := dio.init infiniteRank .initialized } else none
  | .initRoot root => if 1 ≤ root.minHoprankinc then some { s with inst := root.init root.minHoprankinc .reachable } else none
  | .leave => some { s with inst := { s.inst with used := false } }
  | .dropParent => some { s with inst := setPreferredParent none s.inst }
  | .setState state => some { s with inst := { s.inst with state := state } }
  | .advertise => some { s with inst := { s.inst with lastAdvertisedRank := s.inst.rank } }
  | .neighbors table nbr clock => some { s with table := table, nbr := nbr, clock := clock }
  | .probe target => some (s.probe target)
  | .update => some (updateState cfg s)

def UpdateFits (cfg : Conf) (s : Node ν) : Act ν → Prop
  | .update => s.inst.used = true → s.inst.state ≠ .poisoning → rootIsRoot s.inst = false → Fits cfg s
  | _ => True

/-- An update leaves a node that is part of a DAG above its parent. -/
def UpdateAbove (cfg : Conf) (s : Node ν) : Act ν → Prop
  | .update => (updateState cfg s).inst.used = true → Above (updateState cfg s)
  | _ => True

theorem updateState_unused (hused : s.inst.used = false) : updateState cfg s = s := by
  unfold updateState
  rw [if_neg (by rw [hused]; exact Bool.false_ne_true)]

theorem step_sound {a : Act ν} (hsound : s.inst.used = true → Sound s) (hfits : UpdateFits cfg s a)
    (h : step cfg s a = some t) (hused : t.inst.used = true) : Sound t := by
  cases a with
  | join dio =>
    rw [step] at h
    split_ifs at h with hpos
    cases h
    exact ⟨hpos, nofun⟩
  | initRoot root =>
    rw [step] at h
    split_ifs at h with hpos
    cases h
    exact ⟨hpos, nofun⟩
  | leave =>
    cases h
    cases hused
  | dropParent =>
    cases h
    obtain ⟨switch, hset⟩ := setPreferredParent_eq none s.inst
    rw [hset] at hused ⊢
    exact ⟨(hsound hused).minHoprankinc, nofun⟩
  | setState state =>
    cases h
    exact ⟨(hsound hused).minHoprankinc, (hsound hused).parent⟩
  | advertise =>
    cases h
    exact ⟨(hsound hused).minHoprankinc, (hsound hused).parent⟩
  | neighbors table nbr clock =>
    cases h
    exact ⟨(hsound hused).minHoprankinc, (hsound hused).parent⟩
  | probe target =>
    cases h
    exact ⟨(hsound hused).minHoprankinc, (hsound hused).parent⟩
  | update =>
    cases h
    cases hu : s.inst.used with
    | false =>
      rw [updateState_unused hu, hu] at hused
      cases hused
    | true => exact (updateState_above hu (hsound hu) (hfits hu)).1

theorem step_above {a : Act ν} (hsound : s.inst.used = true → Sound s) (hfits : UpdateFits cfg s a) :
    UpdateAbove cfg s a := by
  cases a with
  | update =>
    intro hused
    cases hu : s.inst.used with
    | false =>
      rw [updateState_unused hu, hu] at hused
      cases hused
    | true => exact (updateState_above hu (hsound hu) (hfits hu)).2
  | _ => trivial

variable (cfg) in
/-- An acceptable neighbor raises the rank unless the product of OF0 does not fit; and where every update finds products that
fit, and no neighbor that acts as a root, every update leaves the node above its parent. -/
theorem update_above (s : Node ν) (as : List (Act ν)) (hused : s.inst.used = false) :
    (∀ (inst : Instance ν) (n : Nbr), 1 ≤ inst.minHoprankinc →
      ((nbrIsAcceptableParent cfg inst n = true → RankAbove cfg inst n) ↔
        (nbrIsAcceptableParent cfg inst n = true → StepFits cfg inst n))) ∧
      (AllSteps (step cfg) (UpdateFits cfg) s as → AllSteps (step cfg) (UpdateAbove cfg) s as) := by
  refine ⟨fun inst n hpos => imp_congr_right fun _ => rankAbove_iff_stepFits hpos, fun h => ?_⟩
  refine allSteps_of_allSteps (J := fun _ => True) (P := fun s => s.inst.used = true → Sound s) (fun _ _ _ _ _ => trivial)
    (fun s a t _ hs hc ht => ?_) (fun s a _ hs hc => ?_) as s trivial (fun hu => ?_) h
  · exact step_sound hs hc ht
  · exact step_above hs hc
  · rw [hused] at hu
    cases hu

def unusedInstance : Instance Unit :=
  { (Adopted.init ⟨.of0, ⟨0, 0, 0, 0, 0, .etx 0⟩, 0, 256⟩ 0 .initialized) with used := false }

def rootNbr (rank : UInt16) : Nbr := ⟨0, ⟨0, 0, 0, 0, 0, .etx 0⟩, rank, some 171, true, true⟩

def unusedNode : Node Unit := ⟨unusedInstance, [], fun _ => rootNbr 0, 1⟩

def joinRoot (inc : UInt16) : List (Act Unit) :=
  [.join ⟨.of0, ⟨0, 0, 0, 0, 0, .etx 0⟩, 0, inc⟩, .neighbors [()] (fun _ => rootNbr inc) 1, .update]

theorem joinRoot_above : AllSteps (step defaultConf) (UpdateAbove defaultConf) unusedNode (joinRoot 256) := by
  refine (update_above defaultConf unusedNode (joinRoot 256) rfl).2 ⟨trivial, fun s₁ h₁ => ⟨trivial, fun s₂ h₂ => ⟨?_, ?_⟩⟩⟩
  · cases h₁
    cases h₂
    rintro _ _ _ ⟨⟩ _ _
    exact ⟨fun _ => .inl (by decide), fun h => absurd h.1 (by decide)⟩
  · exact fun _ _ => trivial

/-- With 0x8000 for MinHopRankIncrease the step of 2 is lost: the root has rank 0x8000, and so has the node below it. -/
theorem joinRoot_equal : nbrIsAcceptableParent defaultConf (Adopted.init (ν := Unit) ⟨.of0, ⟨0, 0, 0, 0, 0, .etx 0⟩, 0, 0x8000⟩
    infiniteRank .initialized) (rootNbr 0x8000) = true ∧
    (exec (step defaultConf) unusedNode (joinRoot 0x8000)).map (fun t => (t.inst.preferredParent, t.inst.rank)) =
      some (some (), 0x8000) ∧
    ¬AllSteps (step defaultConf) (UpdateAbove defaultConf) unusedNode (joinRoot 0x8000) := by
  refine ⟨by decide, by decide, fun h => ?_⟩
  have habove := (((h.2 _ rfl).2 _ rfl).1 (by decide)).parent () (by decide)
  exact absurd habove (by decide)

end Contiki.RplLite.Dag

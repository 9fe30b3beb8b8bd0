/-
The objective functions OF0 and MRHOF (rpl-of0.c, rpl-mrhof.c) and the selection of a parent from the neighbor table
(rpl-neighbor.c). A neighbor stands for its entry in the table; what the link statistics and the IPv6 neighbor cache say of
it is part of its data.
-/
import Contiki.RplLite.Icmp6

namespace Contiki.RplLite.Dag

open Icmp6 (MetricContainer MetricObject dagMcNone dagMcEtx dagMcEnergy)

/-! ## State -/

/-- The configuration: metric containers, the squared ETX of MRHOF, the fixed step of OF0, probing, UIP_ND6_SEND_NS, and
the constants. -/
structure Conf where
  withMc : Bool
  squaredEtx : Bool
  fixedSr : Bool
  withProbing : Bool
  sendNs : Bool
  /-- RPL_DAG_MC. -/
  dagMc : UInt8
  /-- MAX_LINK_METRIC. -/
  maxLinkMetric : Nat
  /-- MAX_PATH_COST. -/
  maxPathCost : Nat
  /-- TIME_THRESHOLD. -/
  timeThreshold : Nat
  /-- RPL_SIGNIFICANT_CHANGE_THRESHOLD. -/
  significantChangeThreshold : Nat

def defaultConf : Conf where
  withMc := false
  squaredEtx := false
  fixedSr := false
  withProbing := true
  sendNs := false
  dagMc := dagMcNone
  maxLinkMetric := 512
  maxPathCost := 32768
  timeThreshold := 76800
  significantChangeThreshold := 512

inductive Of where
  | of0
  | mrhof
  deriving DecidableEq, Repr

inductive DagState where
  | initialized
  | joined
  | reachable
  | poisoning
  deriving DecidableEq, Repr

/-- `rpl_nbr_t` with `etx` of the link statistics, if there are any, `link_stats_is_fresh`, and whether the IPv6 neighbor
cache has it. -/
structure Nbr where
  betterParentSince : UInt32
  mc : MetricContainer
  rank : UInt16
  etx : Option UInt16
  fresh : Bool
  inCache : Bool

/-- `curr_instance` with its DAG. -/
structure Instance (ν : Type) where
  used : Bool
  of : Of
  mc : MetricContainer
  maxRankinc : UInt16
  minHoprankinc : UInt16
  lowestRank : UInt16
  rank : UInt16
  lastAdvertisedRank : UInt16
  preferredParent : Option ν
  urgentProbingTarget : Option ν
  state : DagState
  unprocessedParentSwitch : Bool

/-- A node: its instance, the neighbor table in its order, and the clock. -/
structure Node (ν : Type) where
  inst : Instance ν
  table : List ν
  nbr : ν → Nbr
  clock : UInt32

def infiniteRank : UInt16 := 0xffff

def energyEst : MetricObject → UInt8
  | .etx etx => (etx >>> 8).toUInt8
  | .energy _ energyEst => energyEst

/-- The ETX of a metric object; the lower byte comes first. -/
def objEtx : MetricObject → UInt16
  | .etx etx => etx
  | .energy flags energyEst => energyEst.toUInt16 <<< 8 ||| flags.toUInt16

def saturate (x : Nat) : UInt16 := UInt16.ofNat (min x 0xffff)

variable {ν : Type} [DecidableEq ν] (cfg : Conf)

/-! ## Objective functions -/

/-- `nbr_link_metric` of both functions. -/
def nbrLinkMetric (n : Nbr) : UInt16 := n.etx.getD 0xffff

/-- STEP_OF_RANK, an `int`; LINK_STATS_ETX_DIVISOR is 128. -/
def stepOfRank (n : Nbr) : Int := if cfg.fixedSr then 3 else (3 * (nbrLinkMetric n).toNat / 128 : Nat) - 2

/-- `nbr_rank_increase` of OF0 returns 16 bits of the product. -/
def nbrRankIncrease (inst : Instance ν) (n : Nbr) : UInt16 :=
  UInt16.ofNat ((stepOfRank cfg n * inst.minHoprankinc.toNat) % 2 ^ 16).toNat

/-- `link_metric_to_rank` of MRHOF. -/
def linkMetricToRank (etx : UInt16) : UInt16 :=
  if cfg.squaredEtx then saturate (etx.toNat * etx.toNat / 128) else etx

/-- What `nbr_path_cost` of MRHOF adds the link metric to. -/
def pathBase (inst : Instance ν) (n : Nbr) : UInt16 :=
  if cfg.withMc then
    if inst.mc.type = dagMcEtx then objEtx n.mc.obj
    else if inst.mc.type = dagMcEnergy then (energyEst n.mc.obj).toUInt16 <<< 8
    else n.rank
  else n.rank

/-- `nbr_path_cost` of a neighbor. -/
def nbrPathCost (inst : Instance ν) (n : Nbr) : UInt16 :=
  match inst.of with
  | .of0 => saturate (n.rank.toNat + (nbrLinkMetric n).toNat)
  | .mrhof => saturate ((pathBase cfg inst n).toNat + (linkMetricToRank cfg (nbrLinkMetric n)).toNat)

/-- `rank_via_nbr` of a neighbor. -/
def rankViaNbr (inst : Instance ν) (n : Nbr) : UInt16 :=
  match inst.of with
  | .of0 => saturate (n.rank.toNat + (nbrRankIncrease cfg inst n).toNat)
  | .mrhof => max (saturate (n.rank.toNat + inst.minHoprankinc.toNat)) (nbrPathCost cfg inst n)

/-- `nbr_has_usable_link` of MRHOF. -/
def nbrHasUsableLink (n : Nbr) : Bool := (nbrLinkMetric n).toNat ≤ cfg.maxLinkMetric

def nbrIsAcceptableParent (inst : Instance ν) (n : Nbr) : Bool :=
  match inst.of with
  | .of0 => 1 ≤ stepOfRank cfg n ∧ stepOfRank cfg n ≤ 9
  | .mrhof => nbrHasUsableLink cfg n && decide ((nbrPathCost cfg inst n).toNat ≤ cfg.maxPathCost)

def rankThreshold : Nat := if cfg.squaredEtx then 384 else 192

def parentPathCost (s : Node ν) : UInt16 :=
  s.inst.preferredParent.elim 0xffff fun p => nbrPathCost cfg s.inst (s.nbr p)

/-- `within_hysteresis` of MRHOF. -/
def withinHysteresis (s : Node ν) (n : ν) : Bool :=
  decide ((parentPathCost cfg s).toNat < (nbrPathCost cfg s.inst (s.nbr n)).toNat + rankThreshold cfg) &&
    (decide ((s.nbr n).betterParentSince = 0) ||
      decide ((s.clock - (s.nbr n).betterParentSince).toNat ≤ cfg.timeThreshold))

/-- `best_parent` of the objective function for two acceptable neighbors. -/
def betterParent (s : Node ν) (nbr1 nbr2 : ν) : Option ν :=
  let cost := fun n => nbrPathCost cfg s.inst (s.nbr n)
  match s.inst.of with
  | .of0 =>
    if cost nbr1 ≠ cost nbr2 then
      some (if cost nbr1 < cost nbr2 then nbr1 else nbr2)
    else if some nbr1 = s.inst.preferredParent ∨ some nbr2 = s.inst.preferredParent then
      s.inst.preferredParent
    else
      some (if nbrLinkMetric (s.nbr nbr1) < nbrLinkMetric (s.nbr nbr2) then nbr1 else nbr2)
  | .mrhof =>
    if some nbr1 = s.inst.preferredParent ∧ withinHysteresis cfg s nbr2 = true then some nbr1
    else if some nbr2 = s.inst.preferredParent ∧ withinHysteresis cfg s nbr1 = true then some nbr2
    else some (if cost nbr1 < cost nbr2 then nbr1 else nbr2)

/-- `best_parent` of the objective function. -/
def ofBestParent (s : Node ν) (nbr1 nbr2 : Option ν) : Option ν :=
  let acceptable := fun n => nbrIsAcceptableParent cfg s.inst (s.nbr n)
  match nbr1.filter acceptable, nbr2.filter acceptable with
  | none, n => n
  | n, none => n
  | some n1, some n2 => betterParent cfg s n1 n2

/-! ## Selecting a parent -/

def maxAcceptableRank (inst : Instance ν) : UInt16 :=
  if inst.maxRankinc = 0 then infiniteRank else saturate (inst.lowestRank.toNat + inst.maxRankinc.toNat)

/-- `acceptable_rank`; ROOT_RANK is `min_hoprankinc`. -/
def acceptableRank (inst : Instance ν) (rank : UInt16) : Bool :=
  rank ≠ infiniteRank ∧ inst.minHoprankinc ≤ rank ∧ rank ≤ maxAcceptableRank inst

/-- The neighbors that `best_parent` does not skip. -/
def candidate (s : Node ν) (freshOnly : Bool) (n : ν) : Bool :=
  acceptableRank s.inst (rankViaNbr cfg s.inst (s.nbr n)) && nbrIsAcceptableParent cfg s.inst (s.nbr n) &&
    (!freshOnly || (s.nbr n).fresh) && (!cfg.sendNs || (s.nbr n).inCache)

def bestParent (s : Node ν) (freshOnly : Bool) : Option ν :=
  if s.inst.used then
    s.table.foldl (fun best n => if candidate cfg s freshOnly n then ofBestParent cfg s best (some n) else best) none
  else
    none

/-! ## What is selected -/

variable {cfg} {s : Node ν} {freshOnly : Bool} {n n1 n2 : ν}

theorem betterParent_mem (h : betterParent cfg s n1 n2 = some n) : n = n1 ∨ n = n2 := by
  unfold betterParent at h
  dsimp only at h
  split at h
  · split_ifs at h with h₁ h₂ h₃ h₄
    · exact .inl (Option.some.inj h).symm
    · exact .inr (Option.some.inj h).symm
    · rcases h₃ with h₃ | h₃
      · exact .inl (Option.some.inj (h₃.trans h)).symm
      · exact .inr (Option.some.inj (h₃.trans h)).symm
    · exact .inl (Option.some.inj h).symm
    · exact .inr (Option.some.inj h).symm
  · split_ifs at h
    · exact .inl (Option.some.inj h).symm
    · exact .inr (Option.some.inj h).symm
    · exact .inl (Option.some.inj h).symm
    · exact .inr (Option.some.inj h).symm

theorem ofBestParent_mem {best : Option ν} (h : ofBestParent cfg s best (some n2) = some n) : best = some n ∨ n = n2 := by
  unfold ofBestParent at h
  dsimp only at h
  cases hbest : best.filter fun n => nbrIsAcceptableParent cfg s.inst (s.nbr n) with
  | none =>
    rw [hbest] at h
    exact .inr (Option.some.inj (Option.eq_some_of_filter_eq_some h)).symm
  | some n1 =>
    have hmem := Option.eq_some_of_filter_eq_some hbest
    cases hother : (some n2).filter fun n => nbrIsAcceptableParent cfg s.inst (s.nbr n) with
    | none =>
      rw [hbest, hother] at h
      rw [hmem]
      exact .inl h
    | some n3 =>
      rw [hbest, hother] at h
      obtain rfl := Option.some.inj (Option.eq_some_of_filter_eq_some hother)
      rw [hmem]
      rcases betterParent_mem h with rfl | rfl
      · exact .inl rfl
      · exact .inr rfl

theorem bestParent_candidate (h : bestParent cfg s freshOnly = some n) :
    n ∈ s.table ∧ candidate cfg s freshOnly n = true := by
  have hfold : ∀ (l : List ν) (best : Option ν), l.foldl (fun best n =>
      if candidate cfg s freshOnly n then ofBestParent cfg s best (some n) else best) best = some n →
        best = some n ∨ n ∈ l ∧ candidate cfg s freshOnly n = true := by
    intro l
    induction l with
    | nil => exact fun best h => .inl h
    | cons x l ih =>
      intro best h
      rw [List.foldl_cons] at h
      rcases ih _ h with hx | ⟨hmem, hc⟩
      · split_ifs at hx with hc
        · rcases ofBestParent_mem hx with hbest | rfl
          · exact .inl hbest
          · exact .inr ⟨List.mem_cons_self, hc⟩
        · exact .inl hx
      · exact .inr ⟨List.mem_cons_of_mem x hmem, hc⟩
  unfold bestParent at h
  split_ifs at h
  rcases hfold s.table none h with hnone | h
  · cases hnone
  · exact h

end Contiki.RplLite.Dag

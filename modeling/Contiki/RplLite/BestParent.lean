/-
The order of the neighbor table and the selection with MRHOF (rpl-neighbor.c, rpl-mrhof.c). The comparison of two neighbors
keeps the preferred parent against one that is within the hysteresis, and goes by the path cost otherwise; folded over the
table it is not associative. A neighbor that wins against every other is selected in every order; there is one exactly when
no neighbor within the hysteresis can come after one outside it.
-/
import Contiki.RplLite.Of
import Contiki.Lib.Select

namespace Contiki.RplLite.Dag

open Contiki.Lib

variable {ν : Type} (cfg : Conf) (s : Node ν) (freshOnly : Bool)

def pathCost (n : ν) : Nat := (nbrPathCost cfg s.inst (s.nbr n)).toNat

/-- The neighbors that `best_parent` compares. -/
def candidates : List ν := s.table.filter (candidate cfg s freshOnly)

/-- When the preferred parent is compared and a neighbor outside the hysteresis is cheaper, the cheapest of the others is
outside it too; and when the preferred parent is not compared, the cheapest of all is. -/
def CheapestOutside : Prop :=
  (∀ p ∈ candidates cfg s freshOnly, s.inst.preferredParent = some p →
    ∀ n ∈ candidates cfg s freshOnly, withinHysteresis cfg s n = false → pathCost cfg s n < pathCost cfg s p →
      ∀ m ∈ candidates cfg s freshOnly, m ≠ p → (∀ k ∈ candidates cfg s freshOnly, k ≠ p → pathCost cfg s m ≤ pathCost cfg s k) →
        withinHysteresis cfg s m = false) ∧
    ((∀ p ∈ candidates cfg s freshOnly, s.inst.preferredParent ≠ some p) →
      ∀ m ∈ candidates cfg s freshOnly, (∀ k ∈ candidates cfg s freshOnly, pathCost cfg s m ≤ pathCost cfg s k) →
        withinHysteresis cfg s m = false)

variable {cfg s freshOnly} {a b m n p : ν} {table' : List ν}

theorem acceptable_of_candidate (h : candidate cfg s freshOnly n = true) : nbrIsAcceptableParent cfg s.inst (s.nbr n) = true := by
  unfold candidate at h
  simp only [Bool.and_eq_true] at h
  exact h.1.1.2

theorem mem_candidates_perm (hperm : table'.Perm s.table) :
    n ∈ candidates cfg { s with table := table' } freshOnly ↔ n ∈ candidates cfg s freshOnly := by
  unfold candidates
  rw [List.mem_filter, List.mem_filter]
  exact and_congr_left fun _ => hperm.mem_iff

theorem lt_of_le_of_ne_mem (hcost : (s.table.map (pathCost cfg s)).Nodup) (ha : a ∈ candidates cfg s freshOnly)
    (hb : b ∈ candidates cfg s freshOnly) (hle : pathCost cfg s a ≤ pathCost cfg s b) : b = a ∨ pathCost cfg s a < pathCost cfg s b := by
  rcases hle.lt_or_eq with hlt | heq
  · exact .inr hlt
  · exact .inl (List.inj_on_of_nodup_map hcost (List.mem_of_mem_filter hb) (List.mem_of_mem_filter ha) heq.symm)

variable [DecidableEq ν]

variable (cfg s freshOnly) in
/-- The order of the neighbors has no effect, and a neighbor other than the preferred parent is selected outside the
hysteresis only. -/
def Stable : Prop :=
  (∀ table', table'.Perm s.table → bestParent cfg { s with table := table' } freshOnly = bestParent cfg s freshOnly) ∧
    ∀ n, bestParent cfg s freshOnly = some n → some n = s.inst.preferredParent ∨
      nbrIsAcceptableParent cfg s.inst (s.nbr n) = true ∧ withinHysteresis cfg s n = false

/-! ## The comparison -/

theorem ofBestParent_none (h : candidate cfg s freshOnly n = true) : ofBestParent cfg s none (some n) = some n := by
  unfold ofBestParent
  dsimp only
  rw [Option.filter_none, Option.filter_some, if_pos (acceptable_of_candidate h)]

theorem ofBestParent_some (ha : candidate cfg s freshOnly a = true) (hb : candidate cfg s freshOnly b = true) :
    ofBestParent cfg s (some a) (some b) = betterParent cfg s a b := by
  unfold ofBestParent
  dsimp only
  rw [Option.filter_some, Option.filter_some, if_pos (acceptable_of_candidate ha), if_pos (acceptable_of_candidate hb)]

theorem betterParent_mrhof (hof : s.inst.of = .mrhof) : betterParent cfg s a b =
    if some a = s.inst.preferredParent ∧ withinHysteresis cfg s b = true then some a
    else if some b = s.inst.preferredParent ∧ withinHysteresis cfg s a = true then some b
    else some (if pathCost cfg s a < pathCost cfg s b then a else b) := by
  unfold betterParent pathCost
  rw [hof]
  rfl

theorem betterParent_or (hof : s.inst.of = .mrhof) :
    betterParent cfg s a b = some a ∨ betterParent cfg s a b = some b := by
  rw [betterParent_mrhof hof]
  split_ifs
  · exact .inl rfl
  · exact .inr rfl
  · exact .inl rfl
  · exact .inr rfl

variable (cfg s freshOnly) in
/-- A candidate that the comparison keeps against every other, on either side. -/
structure Keeps (n : ν) : Prop where
  mem : n ∈ candidates cfg s freshOnly
  left : ∀ m ∈ candidates cfg s freshOnly, betterParent cfg s n m = some n
  right : ∀ m ∈ candidates cfg s freshOnly, betterParent cfg s m n = some n

theorem Keeps.perm (h : Keeps cfg s freshOnly n) (hperm : table'.Perm s.table) :
    Keeps cfg { s with table := table' } freshOnly n where
  mem := (mem_candidates_perm hperm).2 h.mem
  left m hm := h.left m ((mem_candidates_perm hperm).1 hm)
  right m hm := h.right m ((mem_candidates_perm hperm).1 hm)

theorem bestParent_eq (hused : s.inst.used = true) :
    bestParent cfg s freshOnly = (candidates cfg s freshOnly).foldl (fun best n => ofBestParent cfg s best (some n)) none := by
  unfold bestParent candidates
  rw [if_pos hused, List.foldl_filter]

theorem Keeps.selected (hof : s.inst.of = .mrhof) (hused : s.inst.used = true) (h : Keeps cfg s freshOnly n) :
    bestParent cfg s freshOnly = some n := by
  have hc : ∀ m ∈ candidates cfg s freshOnly, candidate cfg s freshOnly m = true := fun m hm => (List.mem_filter.1 hm).2
  rw [bestParent_eq hused]
  refine foldl_eq_of_keeps h.mem (fun y hy => ofBestParent_none (hc y hy)) (fun y hy z hz => ?_) (fun y hy => ?_) fun y hy => ?_
  · rw [ofBestParent_some (hc y hy) (hc z hz)]
    exact betterParent_or hof
  · rw [ofBestParent_some (hc n h.mem) (hc y hy)]
    exact h.left y hy
  · rw [ofBestParent_some (hc y hy) (hc n h.mem)]
    exact h.right y hy

theorem keeps_parent (hof : s.inst.of = .mrhof) (hmem : p ∈ candidates cfg s freshOnly) (hp : s.inst.preferredParent = some p)
    (hwithin : ∀ n ∈ candidates cfg s freshOnly, withinHysteresis cfg s n = false → n = p ∨ pathCost cfg s p < pathCost cfg s n) :
    Keeps cfg s freshOnly p := by
  refine ⟨hmem, fun m hm => ?_, fun m hm => ?_⟩
  · rw [betterParent_mrhof hof]
    cases hw : withinHysteresis cfg s m with
    | true => rw [if_pos ⟨hp.symm, rfl⟩]
    | false =>
      rcases hwithin m hm hw with rfl | hlt
      · split_ifs <;> rfl
      · rw [if_neg (by simp), if_pos hlt]
        split_ifs with h
        · rw [h.1, hp]
        · rfl
  · rw [betterParent_mrhof hof]
    cases hw : withinHysteresis cfg s m with
    | true =>
      split_ifs with h h'
      · rw [h.1, hp]
      · rfl
      · exact absurd ⟨hp.symm, rfl⟩ h'
      · rfl
    | false =>
      rcases hwithin m hm hw with rfl | hlt
      · split_ifs <;> rfl
      · split_ifs with h h' h''
        · rw [h.1, hp]
        · rfl
        · omega
        · rfl

theorem keeps_cheapest (hof : s.inst.of = .mrhof) (hmem : m ∈ candidates cfg s freshOnly)
    (hcheapest : ∀ k ∈ candidates cfg s freshOnly, k = m ∨ pathCost cfg s m < pathCost cfg s k)
    (hparent : ∀ p ∈ candidates cfg s freshOnly, s.inst.preferredParent = some p → withinHysteresis cfg s m = false ∧ m ≠ p) :
    Keeps cfg s freshOnly m := by
  have hm : some m ≠ s.inst.preferredParent := fun h => (hparent m hmem h.symm).2 rfl
  refine ⟨hmem, fun k hk => ?_, fun k hk => ?_⟩
  · have hkm : ¬(some k = s.inst.preferredParent ∧ withinHysteresis cfg s m = true) := by
      rintro ⟨hk', hw⟩
      rw [(hparent k hk hk'.symm).1] at hw
      cases hw
    rw [betterParent_mrhof hof, if_neg fun h => hm h.1, if_neg hkm]
    rcases hcheapest k hk with rfl | hlt
    · rw [ite_self]
    · rw [if_pos hlt]
  · have hkm : ¬(some k = s.inst.preferredParent ∧ withinHysteresis cfg s m = true) := by
      rintro ⟨hk', hw⟩
      rw [(hparent k hk hk'.symm).1] at hw
      cases hw
    rw [betterParent_mrhof hof, if_neg hkm, if_neg fun h => hm h.1]
    rcases hcheapest k hk with rfl | hlt
    · rw [ite_self]
    · rw [if_neg hlt.not_gt]

/-! ## The order of the table -/

theorem exists_cheapest {l : List ν} (cost : ν → Nat) (h : l ≠ []) : ∃ m ∈ l, ∀ k ∈ l, cost m ≤ cost k := by
  obtain ⟨a, ha⟩ := List.exists_mem_of_ne_nil l h
  obtain ⟨m, hm, hle⟩ := l.toFinset.exists_min_image cost ⟨a, List.mem_toFinset.2 ha⟩
  exact ⟨m, List.mem_toFinset.1 hm, fun k hk => hle k (List.mem_toFinset.2 hk)⟩

theorem Keeps.stable (hof : s.inst.of = .mrhof) (hused : s.inst.used = true) (h : Keeps cfg s freshOnly n)
    (hsel : some n = s.inst.preferredParent ∨ withinHysteresis cfg s n = false) : Stable cfg s freshOnly := by
  refine ⟨fun table' hperm => ?_, fun k hk => ?_⟩
  · exact (Keeps.selected (s := { s with table := table' }) hof hused (h.perm hperm)).trans (h.selected hof hused).symm
  · obtain rfl := Option.some.inj ((h.selected hof hused).symm.trans hk)
    exact hsel.imp_right fun hw => ⟨acceptable_of_candidate (List.mem_filter.1 h.mem).2, hw⟩

theorem stable_of_cheapestOutside (hof : s.inst.of = .mrhof) (hused : s.inst.used = true)
    (hcost : (s.table.map (pathCost cfg s)).Nodup) (h : CheapestOutside cfg s freshOnly) : Stable cfg s freshOnly := by
  by_cases hempty : candidates cfg s freshOnly = []
  · have hnone : ∀ table', table'.Perm s.table → bestParent cfg { s with table := table' } freshOnly = none := by
      intro table' hperm
      have hempty' : candidates cfg { s with table := table' } freshOnly = [] :=
        List.eq_nil_iff_forall_not_mem.2 fun n hn => List.ne_nil_of_mem ((mem_candidates_perm hperm).1 hn) hempty
      rw [bestParent_eq (s := { s with table := table' }) hused, hempty']
      rfl
    refine ⟨fun table' hperm => (hnone table' hperm).trans (hnone s.table (List.Perm.refl _)).symm, fun n hn => ?_⟩
    rw [show bestParent cfg s freshOnly = none from hnone s.table (List.Perm.refl _)] at hn
    cases hn
  by_cases hp : ∃ p ∈ candidates cfg s freshOnly, s.inst.preferredParent = some p
  · obtain ⟨p, hmem, hp⟩ := hp
    by_cases hout : ∃ n ∈ candidates cfg s freshOnly, withinHysteresis cfg s n = false ∧ pathCost cfg s n < pathCost cfg s p
    · obtain ⟨n, hn, hwn, hlt⟩ := hout
      -- the cheapest of the others wins against the preferred parent as well
      have hne : n ≠ p := fun h => lt_irrefl _ (h ▸ hlt)
      obtain ⟨m, hm, hle⟩ := exists_cheapest (l := (candidates cfg s freshOnly).filter (· ≠ p)) (pathCost cfg s)
        (List.ne_nil_of_mem (List.mem_filter.2 ⟨hn, decide_eq_true hne⟩))
      obtain ⟨hm, hmp⟩ := List.mem_filter.1 hm
      have hmp : m ≠ p := of_decide_eq_true hmp
      have hleast : ∀ k ∈ candidates cfg s freshOnly, k ≠ p → pathCost cfg s m ≤ pathCost cfg s k :=
        fun k hk hkp => hle k (List.mem_filter.2 ⟨hk, decide_eq_true hkp⟩)
      have hw := h.1 p hmem hp n hn hwn hlt m hm hmp hleast
      refine (keeps_cheapest hof hm (fun k hk => ?_) fun q hq hq' => ?_).stable hof hused (.inr hw)
      · rcases eq_or_ne k p with rfl | hkp
        · exact .inr ((hleast n hn hne).trans_lt hlt)
        · exact lt_of_le_of_ne_mem hcost hm hk (hleast k hk hkp)
      · rw [hp] at hq'
        cases hq'
        exact ⟨hw, hmp⟩
    · refine (keeps_parent hof hmem hp fun n hn hw => ?_).stable hof hused (.inl hp.symm)
      refine lt_of_le_of_ne_mem hcost hmem hn (not_lt.1 fun hlt => hout ⟨n, hn, hw, hlt⟩)
  · obtain ⟨m, hm, hle⟩ := exists_cheapest (pathCost cfg s) hempty
    have hno : ∀ p ∈ candidates cfg s freshOnly, s.inst.preferredParent ≠ some p := fun p hmem hp' => hp ⟨p, hmem, hp'⟩
    refine (keeps_cheapest hof hm (fun k hk => lt_of_le_of_ne_mem hcost hm hk (hle k hk)) fun q hq hq' => ?_).stable hof hused
      (.inr (h.2 hno m hm hle))
    exact absurd hq' (hno q hq)

theorem selected_after (hof : s.inst.of = .mrhof) (hused : s.inst.used = true) (hcost : (s.table.map (pathCost cfg s)).Nodup)
    (hmem : p ∈ candidates cfg s freshOnly) (hp : s.inst.preferredParent = some p) (hn : n ∈ candidates cfg s freshOnly)
    (hw : withinHysteresis cfg s n = false) (hlt : pathCost cfg s n < pathCost cfg s p) (hm : m ∈ candidates cfg s freshOnly)
    (hmp : m ≠ p) (hmn : m ≠ n) (hleast : ∀ k ∈ candidates cfg s freshOnly, k ≠ p → pathCost cfg s m ≤ pathCost cfg s k) :
    ∃ table', table'.Perm s.table ∧ bestParent cfg { s with table := table' } freshOnly = some m := by
  have hmem' : ∀ {k : ν}, k ∈ candidates cfg s freshOnly → k ∈ s.table ∧ candidate cfg s freshOnly k = true := List.mem_filter.1
  have hnodup : s.table.Nodup := hcost.of_map
  have hne : n ≠ p := fun h => lt_irrefl _ (h ▸ hlt)
  let rest := ((s.table.erase p).erase n).erase m
  have hperm : (p :: n :: m :: rest).Perm s.table := by
    refine List.Perm.symm ((List.perm_cons_erase (hmem' hmem).1).trans (List.Perm.cons p ?_))
    refine (List.perm_cons_erase ((List.mem_erase_of_ne hne).2 (hmem' hn).1)).trans (List.Perm.cons n ?_)
    exact List.perm_cons_erase ((List.mem_erase_of_ne hmn).2 ((List.mem_erase_of_ne hmp).2 (hmem' hm).1))
  refine ⟨p :: n :: m :: rest, hperm, ?_⟩
  have hn' : some n ≠ s.inst.preferredParent := fun h => hne (Option.some.inj (h.trans hp))
  have hm' : some m ≠ s.inst.preferredParent := fun h => hmp (Option.some.inj (h.trans hp))
  have hpn : betterParent cfg s p n = some n := by
    rw [betterParent_mrhof hof, if_neg (by rw [hw]; simp), if_neg fun h => hn' h.1, if_neg hlt.not_gt]
  have hnm : betterParent cfg s n m = some m := by
    have hlt' : pathCost cfg s m < pathCost cfg s n := (lt_of_le_of_ne_mem hcost hm hn (hleast n hn hne)).resolve_left hmn.symm
    rw [betterParent_mrhof hof, if_neg fun h => hn' h.1, if_neg fun h => hm' h.1, if_neg hlt'.not_gt]
  have hcand : candidates cfg { s with table := p :: n :: m :: rest } freshOnly =
      p :: n :: m :: rest.filter (candidate cfg s freshOnly) := by
    unfold candidates
    exact (List.filter_cons_of_pos (hmem' hmem).2).trans (congrArg _ ((List.filter_cons_of_pos (hmem' hn).2).trans
      (congrArg _ (List.filter_cons_of_pos (hmem' hm).2))))
  rw [bestParent_eq (s := { s with table := p :: n :: m :: rest }) hused, hcand]
  show (rest.filter (candidate cfg s freshOnly)).foldl (fun best n => ofBestParent cfg s best (some n))
    (ofBestParent cfg s (ofBestParent cfg s (ofBestParent cfg s none (some p)) (some n)) (some m)) = some m
  rw [ofBestParent_none (hmem' hmem).2, ofBestParent_some (hmem' hmem).2 (hmem' hn).2, hpn,
    ofBestParent_some (hmem' hn).2 (hmem' hm).2, hnm]
  refine foldl_keeps fun k hk => ?_
  -- what is left has neither the preferred parent nor a cheaper neighbor
  obtain ⟨hk, hkc⟩ := List.mem_filter.1 hk
  have hrest := hnodup.perm hperm.symm
  have hkp : k ≠ p := by
    rintro rfl
    exact (List.nodup_cons.1 hrest).1 (List.mem_cons_of_mem n (List.mem_cons_of_mem m hk))
  have hk' : k ∈ candidates cfg s freshOnly := List.mem_filter.2
    ⟨List.mem_of_mem_erase (List.mem_of_mem_erase (List.mem_of_mem_erase hk)), hkc⟩
  rw [ofBestParent_some (hmem' hm).2 hkc, betterParent_mrhof hof, if_neg fun h => hm' h.1,
    if_neg fun h => hkp (Option.some.inj (h.1.trans hp))]
  rcases lt_of_le_of_ne_mem hcost hm hk' (hleast k hk' hkp) with rfl | hlt'
  · rw [ite_self]
  · rw [if_pos hlt']

theorem cheapestOutside_of_stable (hof : s.inst.of = .mrhof) (hused : s.inst.used = true)
    (hcost : (s.table.map (pathCost cfg s)).Nodup) (h : Stable cfg s freshOnly) : CheapestOutside cfg s freshOnly := by
  refine ⟨fun p hmem hp n hn hw hlt m hm hmp hleast => ?_, fun hno m hm hle => ?_⟩
  · by_cases hmn : m = n
    · rw [hmn]
      exact hw
    obtain ⟨table', hperm, hsel⟩ := selected_after hof hused hcost hmem hp hn hw hlt hm hmp hmn hleast
    rcases h.2 m ((h.1 table' hperm).symm.trans hsel) with hparent | ⟨-, hw'⟩
    · exact absurd (Option.some.inj (hparent.trans hp)) hmp
    · exact hw'
  · have hkeeps := keeps_cheapest hof hm (fun k hk => lt_of_le_of_ne_mem hcost hm hk (hle k hk)) fun q hq hq' =>
      absurd hq' (hno q hq)
    rcases h.2 m (hkeeps.selected hof hused) with hparent | ⟨-, hw'⟩
    · exact absurd hparent.symm (hno m hm)
    · exact hw'

theorem stable_of_unused (hused : s.inst.used = false) : Stable cfg s freshOnly := by
  have hnone : ∀ table', bestParent cfg { s with table := table' } freshOnly = none := by
    intro table'
    unfold bestParent
    exact if_neg (by rw [hused]; exact Bool.false_ne_true)
  refine ⟨fun table' _ => (hnone table').trans (hnone s.table).symm, fun n hn => ?_⟩
  rw [show bestParent cfg s freshOnly = none from hnone s.table] at hn
  cases hn

/-! ## Stability -/

variable (cfg s freshOnly) in
/-- With MRHOF and different path costs, the selection is independent of the order of the table and stays within the
hysteresis exactly when no neighbor within the hysteresis is cheaper than all that are outside it. -/
theorem bestParent_stable_iff (hof : s.inst.of = .mrhof) (hcost : (s.table.map (pathCost cfg s)).Nodup) :
    Stable cfg s freshOnly ↔ (s.inst.used = true → CheapestOutside cfg s freshOnly) := by
  cases hused : s.inst.used with
  | false => exact iff_of_true (stable_of_unused hused) (by rintro ⟨⟩)
  | true =>
    exact ⟨fun h _ => cheapestOutside_of_stable hof hused hcost h, fun h => stable_of_cheapestOutside hof hused hcost (h rfl)⟩

/-- The preferred parent 0 with path cost 500, and two neighbors with 400 and 350, the first of which has been better for long
and the second has not. -/
def threeNbrs (table : List Nat) : Node Nat where
  inst :=
    { used := true
      of := .mrhof
      mc := ⟨0, 0, 0, 0, 0, .etx 0⟩
      maxRankinc := 0
      minHoprankinc := 128
      lowestRank := 500
      rank := 500
      lastAdvertisedRank := 500
      preferredParent := some 0
      urgentProbingTarget := none
      state := .reachable
      unprocessedParentSwitch := false }
  table := table
  nbr n :=
    { betterParentSince := if n = 0 then 0 else if n = 1 then 1 else 99000
      mc := ⟨0, 0, 0, 0, 0, .etx 0⟩
      rank := 256
      etx := some (if n = 0 then 244 else if n = 1 then 144 else 94)
      fresh := true
      inCache := true }
  clock := 100000

theorem threeNbrs_two : Stable defaultConf (threeNbrs [0, 1]) false :=
  (bestParent_stable_iff defaultConf (threeNbrs [0, 1]) false rfl (by decide)).2 fun _ => by unfold CheapestOutside; decide

/-- The second of the neighbors, within the hysteresis, is selected when it comes after the first only. -/
theorem threeNbrs_order : ((threeNbrs [0, 1, 2]).table.map (pathCost defaultConf (threeNbrs [0, 1, 2]))).Nodup ∧
    bestParent defaultConf (threeNbrs [0, 1, 2]) false = some 2 ∧ withinHysteresis defaultConf (threeNbrs [0, 1, 2]) 2 = true ∧
    bestParent defaultConf (threeNbrs [0, 2, 1]) false = some 1 ∧ ¬Stable defaultConf (threeNbrs [0, 1, 2]) false := by
  refine ⟨by decide, by decide, by decide, by decide, fun h => ?_⟩
  have hother : bestParent defaultConf (threeNbrs [0, 2, 1]) false = bestParent defaultConf (threeNbrs [0, 1, 2]) false :=
    h.1 [0, 2, 1] (by decide)
  exact absurd hother (by decide)

end Contiki.RplLite.Dag

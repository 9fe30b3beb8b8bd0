/-
The evaluation flags exactly the cells that lose more than half of their packets, as long as they fit the index of
flagged cells.
-/
import Contiki.Pdr.Model
import Contiki.Lib.SwapDelete

namespace Contiki.Pdr

section

open Contiki.Lib

/-! ## The comparison of floats -/

theorem roundBits_low {s t : Nat} (ht : 0 < t) (h : 2 * s < t) (hle : t < 2 ^ 16) :
    1 / 2 < roundBits 24 (1 - roundBits 24 ((s : ℚ) / t)) := by
  have htq : (0 : ℚ) < t := by exact_mod_cast ht
  have hs : (0 : ℚ) ≤ s := by exact_mod_cast Nat.zero_le s
  have hx : (0 : ℚ) ≤ (s : ℚ) / t := div_nonneg hs htq.le
  -- the quotient is below a half by half of a unit of 16 bits
  have hgap : (s : ℚ) / t ≤ 1 / 2 - 1 / 2 ^ 17 := by
    have hst : (2 * s + 1 : ℚ) ≤ t := by exact_mod_cast h
    have htle : (t : ℚ) ≤ 2 ^ 16 := by exact_mod_cast hle.le
    rw [div_le_iff₀ htq]
    linarith
  have hq : |roundBits 24 ((s : ℚ) / t) - (s : ℚ) / t| ≤ 1 / 2 ^ 26 := by
    by_cases hzero : (s : ℚ) / t = 0
    · rw [hzero]
      norm_num [roundBits]
    · have hulp : ulp 24 ((s : ℚ) / t) ≤ 2 ^ ((-1 : ℤ) - (24 : ℕ)) := ulp_le hzero (by
        rw [abs_of_nonneg hx]
        norm_num
        linarith)
      have hnear := roundBits_near 24 ((s : ℚ) / t)
      norm_num at hulp ⊢
      linarith
  obtain ⟨hq₁, hq₂⟩ := abs_le.1 hq
  generalize roundBits 24 ((s : ℚ) / t) = q at hq₁ hq₂
  have hy : (0 : ℚ) < 1 - q := by linarith
  have hulp : ulp 24 (1 - q) ≤ 2 ^ ((1 : ℤ) - (24 : ℕ)) := ulp_le hy.ne' (by
    rw [abs_of_pos hy]
    norm_num
    linarith)
  obtain ⟨hr, -⟩ := abs_le.1 (roundBits_near 24 (1 - q))
  norm_num at hulp hgap hq₁ hq₂
  linarith

theorem roundBits_high {s t : Nat} (ht : 0 < t) (h : t ≤ 2 * s) (hle : s < 2 ^ 16) :
    roundBits 24 (1 - roundBits 24 ((s : ℚ) / t)) ≤ 1 / 2 := by
  have htq : (1 : ℚ) ≤ t := by exact_mod_cast ht
  have hsq : (s : ℚ) < 2 ^ 16 := by exact_mod_cast hle
  have hx : 1 / 2 ≤ (s : ℚ) / t := by
    have hst : (t : ℚ) ≤ 2 * s := by exact_mod_cast h
    rw [le_div_iff₀ (by linarith)]
    linarith
  have hq : 1 / 2 ≤ roundBits 24 ((s : ℚ) / t) := by
    obtain ⟨n, hn⟩ := pow_multiple (p := 24) (k := -1) (x := (s : ℚ) / t) (by linarith) (by
      rw [abs_of_nonneg (by linarith)]
      have : (s : ℚ) / t ≤ s := div_le_self (by linarith) htq
      norm_num
      linarith)
    refine le_roundBits (n := n) hx ?_
    rw [← hn]
    norm_num
  generalize roundBits 24 ((s : ℚ) / t) = q at hq
  by_cases hy : 1 - q = 0
  · rw [hy]
    norm_num [roundBits]
  · by_cases hneg : |1 - q| < 2 ^ 22
    · obtain ⟨n, hn⟩ := pow_multiple (p := 24) (k := -1) (x := 1 - q) hy (by
        norm_num at hneg ⊢
        linarith)
      refine roundBits_le (n := n) (by linarith) ?_
      rw [← hn]
      norm_num
    · have hlt : 1 - q ≤ ((0 : ℤ) : ℚ) * ulp 24 (1 - q) := by
        rcases abs_cases (1 - q) with ⟨ha, hp⟩ | ⟨ha, hn⟩
        · exact absurd (by rw [ha]; norm_num; linarith) hneg
        · simpa using hn.le
      have hzero : roundBits 24 (1 - q) ≤ ((0 : ℤ) : ℚ) * ulp 24 (1 - q) := roundBits_le hlt rfl
      simp only [Int.cast_zero, zero_mul] at hzero
      linarith

theorem lowPdr_iff {cell : CellStats} (h : cell.txTotal > 0) :
    lowPdr cell = true ↔ 2 * cell.txSuccess.toNat < cell.txTotal.toNat := by
  have hs := cell.txSuccess.toNat_lt
  have ht := cell.txTotal.toNat_lt
  have hpos : 0 < cell.txTotal.toNat := UInt16.lt_iff_toNat_lt.1 h
  have hexact : ∀ n : UInt16, roundBits 24 n.toNat = n.toNat := fun n =>
    roundBits_natCast (lt_trans n.toNat_lt (by norm_num))
  rw [lowPdr, decide_eq_true_eq, hexact, hexact, RELOCATE_PDRTHRES]
  refine ⟨fun hgt => ?_, fun hlt => roundBits_low hpos hlt ht⟩
  by_contra hn
  exact absurd hgt (not_lt.2 (roundBits_high hpos (by omega) hs))

/-! ## The loop -/

/-- The cells that the evaluation counts. -/
def relevant (cell : CellStats) : Bool := decide (cell.isStatisticallyRelevant ≠ 0 ∧ cell.txTotal > 0)

def bad (cell : CellStats) : Bool := relevant cell && decide (2 * cell.txSuccess.toNat < cell.txTotal.toNat)

def Stats.bad (s : Stats) : List Nat := (List.range s.cellAmount).filter fun i => Pdr.bad (s.cellList i)

/-- What the loop has collected: the cells at `is`, of `n` that count. -/
structure Collected (s : Stats) (e : Evaluation) (is : List Nat) (n : Nat) : Prop where
  cellList : e.stats.cellList = s.cellList
  cellAmount : e.stats.cellAmount = s.cellAmount
  returned : (List.range e.returnListLen).map e.relReturnList = is.map s.cellList
  indexed : (List.range e.stats.relCellsLen).map e.stats.relCells = is.map fun i => ⟨i, (s.cellList i).slotOffset⟩
  evaluated : e.evaluatedCells = n

/-- The bad cells fit the index, and the places where they are marked exist. -/
def Fits (s : Stats) (is : List Nat) : Prop :=
  is.length ≤ REL_CELLS ∧ ∀ i ∈ is, (s.cellList i).numberCellAllocated.toNat < MAX_ALLOCATE_CELLS

variable {s : Stats} {e e' : Evaluation} {is : List Nat} {n i : Nat}

theorem map_range_update {α : Type} {f : Nat → α} {l : List α} {n : Nat} (h : (List.range n).map f = l) (a : α) :
    (List.range (n + 1)).map (Function.update f n a) = l ++ [a] := by
  rw [List.range_succ, List.map_append, ← h, List.map_singleton, Function.update_self]
  congr 1
  refine List.map_congr_left fun i hi => ?_
  rw [Function.update_of_ne (Nat.ne_of_lt (List.mem_range.1 hi))]

theorem fits_snoc (h : Fits s is) :
    Fits s (is ++ [i]) ↔ is.length < REL_CELLS ∧ (s.cellList i).numberCellAllocated.toNat < MAX_ALLOCATE_CELLS := by
  rw [Fits, List.length_append, List.length_singleton, Nat.succ_le_iff]
  refine and_congr_right fun _ => ⟨fun hall => hall i (List.mem_append_right _ List.mem_cons_self), fun hi j hj => ?_⟩
  rcases List.mem_append.1 hj with hj | hj
  · exact h.2 j hj
  · exact List.mem_singleton.1 hj ▸ hi

theorem relocate_spec (h : Collected s e is n) (hf : Fits s is) :
    ¬ Fits s (is ++ [i]) ∧ relocate i (s.cellList i) e = none ∨
      Fits s (is ++ [i]) ∧ ∃ e', relocate i (s.cellList i) e = some e' ∧ Collected s e' (is ++ [i]) n := by
  have hlen : e.returnListLen = is.length := by simpa using congrArg List.length h.returned
  have hrel : e.stats.relCellsLen = is.length := by simpa using congrArg List.length h.indexed
  rw [fits_snoc hf]
  unfold relocate
  dsimp only
  rw [hlen, hrel]
  by_cases hfit : is.length < REL_CELLS ∧ (s.cellList i).numberCellAllocated.toNat < MAX_ALLOCATE_CELLS
  · rw [if_pos ⟨lt_trans hfit.1 (by decide), hfit⟩]
    refine .inr ⟨hfit, _, rfl, h.cellList, h.cellAmount, ?_, ?_, h.evaluated⟩
    · rw [List.map_append, ← hlen]
      exact map_range_update h.returned _
    · rw [List.map_append, ← hrel]
      exact map_range_update h.indexed _
  · rw [if_neg fun hall => hfit hall.2]
    exact .inl ⟨hfit, rfl⟩

theorem evaluateCell_spec (h : Collected s e is n) (hf : Fits s is) :
    bad (s.cellList i) = true ∧ ¬ Fits s (is ++ [i]) ∧ evaluateCell i e = none ∨
      Fits s (if bad (s.cellList i) then is ++ [i] else is) ∧ ∃ e', evaluateCell i e = some e' ∧
        Collected s e' (if bad (s.cellList i) then is ++ [i] else is) (if relevant (s.cellList i) then n + 1 else n) := by
  unfold evaluateCell
  dsimp only
  rw [h.cellList]
  by_cases hrel : relevant (s.cellList i) = true
  · have hr := of_decide_eq_true hrel
    have hcount : ∀ {js : List Nat} {e₁ : Evaluation}, Collected s e₁ js n →
        Collected s { e₁ with evaluatedCells := e₁.evaluatedCells + 1 } js (n + 1) := fun hc =>
      ⟨hc.cellList, hc.cellAmount, hc.returned, hc.indexed, congrArg (· + 1) hc.evaluated⟩
    have hlow : bad (s.cellList i) = lowPdr (s.cellList i) := by
      rw [Bool.eq_iff_iff, bad, hrel, Bool.true_and, decide_eq_true_eq, lowPdr_iff hr.2]
    rw [if_pos hr, if_pos hrel, hlow]
    by_cases hbad : lowPdr (s.cellList i) = true
    · rw [if_pos hbad, if_pos hbad]
      rcases relocate_spec (i := i) h hf with ⟨hnot, hnone⟩ | ⟨hfit, e₁, he₁, hc⟩
      · rw [hnone]
        exact .inl ⟨hbad, hnot, rfl⟩
      · rw [he₁]
        exact .inr ⟨hfit, _, rfl, hcount hc⟩
    · rw [if_neg hbad, if_neg hbad]
      exact .inr ⟨hf, _, rfl, hcount h⟩
  · have hbad : ¬ bad (s.cellList i) = true := fun hb => hrel (Bool.and_eq_true_iff.1 hb).1
    rw [if_neg fun hr => hrel (decide_eq_true hr), if_neg hbad, if_neg hrel]
    exact .inr ⟨hf, e, rfl, h⟩

theorem Fits.left {js : List Nat} (h : Fits s (is ++ js)) : Fits s is :=
  ⟨(List.length_append ▸ Nat.le_add_right ..).trans h.1, fun i hi => h.2 i (List.mem_append_left _ hi)⟩

theorem evaluate_loop : ∀ {l is : List Nat} {e : Evaluation} {n : Nat}, Collected s e is n → Fits s is →
    ¬ Fits s (is ++ l.filter fun i => bad (s.cellList i)) ∧ l.foldlM (fun e i => evaluateCell i e) e = none ∨
      Fits s (is ++ l.filter fun i => bad (s.cellList i)) ∧ ∃ e', l.foldlM (fun e i => evaluateCell i e) e = some e' ∧
        Collected s e' (is ++ l.filter fun i => bad (s.cellList i)) (n + l.countP fun i => relevant (s.cellList i))
  | [], is, e, n, h, hf => by
    rw [List.filter_nil, List.append_nil]
    exact .inr ⟨hf, e, rfl, h⟩
  | i :: l, is, e, n, h, hf => by
    have happend : is ++ (i :: l).filter (fun i => bad (s.cellList i)) =
        (if bad (s.cellList i) then is ++ [i] else is) ++ l.filter fun i => bad (s.cellList i) := by
      rw [List.filter_cons]
      split
      · rw [List.append_cons]
      · rfl
    have hcount : n + (i :: l).countP (fun i => relevant (s.cellList i)) =
        (if relevant (s.cellList i) then n + 1 else n) + l.countP fun i => relevant (s.cellList i) := by
      rw [List.countP_cons]
      split
      · omega
      · rfl
    rw [List.foldlM_cons, happend, hcount]
    rcases evaluateCell_spec (i := i) h hf with ⟨hbad, hnot, hnone⟩ | ⟨hfit, e₁, he₁, hc⟩
    · rw [hnone, if_pos hbad]
      exact .inl ⟨fun hall => hnot hall.left, rfl⟩
    · rw [he₁]
      exact evaluate_loop hc hfit

/-- What is claimed of an evaluation: the bad cells are returned in order and indexed, and the relevant ones
counted. -/
structure Evaluated (s : Stats) (e : Evaluation) : Prop where
  returned : (List.range e.returnListLen).map e.relReturnList = s.cells.filter bad
  indexed : (List.range e.stats.relCellsLen).map e.stats.relCells = s.bad.map fun i => ⟨i, (s.cellList i).slotOffset⟩
  evaluated : e.evaluatedCells = s.cells.countP relevant

theorem evaluateCells_spec (relReturnList : Nat → CellStats) (s : Stats) :
    ¬ Fits s s.bad ∧ evaluateCells relReturnList s = none ∨
      Fits s s.bad ∧ ∃ e, evaluateCells relReturnList s = some e ∧ Collected s e s.bad (s.cells.countP relevant) := by
  have hempty : Collected s ⟨{ s with relCellsLen := 0 }, relReturnList, 0, 0⟩ [] 0 := ⟨rfl, rfl, rfl, rfl, rfl⟩
  have hcount : s.cells.countP relevant = 0 + (List.range s.cellAmount).countP fun i => relevant (s.cellList i) := by
    rw [Stats.cells, List.countP_map, Nat.zero_add]
    rfl
  rw [hcount]
  exact evaluate_loop hempty ⟨Nat.zero_le _, fun i hi => absurd hi List.not_mem_nil⟩

/-- The evaluation writes inside its arrays, and flags and counts the cells it should, exactly when the bad cells
fit the index. -/
theorem evaluateCells_iff (relReturnList : Nat → CellStats) (s : Stats) :
    (∃ e, evaluateCells relReturnList s = some e ∧ Evaluated s e) ↔
      s.bad.length ≤ REL_CELLS ∧ ∀ i ∈ s.bad, (s.cellList i).numberCellAllocated.toNat < MAX_ALLOCATE_CELLS := by
  rcases evaluateCells_spec relReturnList s with ⟨hnot, hnone⟩ | ⟨hfit, e, he, hc⟩
  · rw [hnone]
    refine ⟨?_, fun h => absurd h hnot⟩
    rintro ⟨e, he, -⟩
    cases he
  · refine ⟨fun _ => hfit, fun _ => ⟨e, he, ?_, hc.indexed, hc.evaluated⟩⟩
    rw [hc.returned, Stats.bad, Stats.cells, List.filter_map]
    rfl

def lostCell (i : Nat) : CellStats := ⟨UInt8.ofNat (i + 1), 0, 16, 0, 1, UInt8.ofNat i⟩

/-- A list of `n` bad cells, each with its own number. -/
def lostCells (n : Nat) (h : n ≤ MAX_ALLOCATE_CELLS) : Stats := ⟨lostCell, n, fun _ => ⟨0, 0⟩, 0, fun _ => 0, h⟩

/-- The index holds twenty cells. -/
theorem index_too_short : ¬ ∃ e, evaluateCells lostCell (lostCells 21 (by decide)) = some e ∧
    Evaluated (lostCells 21 (by decide)) e := by
  rintro ⟨e, he, -⟩
  rcases evaluateCells_spec lostCell (lostCells 21 (by decide)) with ⟨-, hnone⟩ | ⟨hfit, -⟩
  · rw [hnone] at he
    cases he
  · exact absurd hfit.1 (by decide)

end

/-!
The deletion of the flagged cells: it leaves the others exactly when no flagged cell is the last one while an
earlier one is deleted.
-/

section

open Contiki.Lib

variable {s : Stats} {e : Evaluation} {n : Nat}

theorem deleteCell_eq {i : Nat} (hd : (s.relCells i).index < MAX_ALLOCATE_CELLS) (hpos : 0 < s.cellAmount) :
    deleteCell i s = some { s with
      cellList := Function.update s.cellList (s.relCells i).index (s.cellList (s.cellAmount - 1))
      cellAmount := s.cellAmount - 1
      fits := (Nat.sub_le ..).trans s.fits } := if_pos ⟨hd, hpos⟩

theorem delete_loop : ∀ {l : List Nat} {s : Stats}, (∀ i ∈ l, (s.relCells i).index < MAX_ALLOCATE_CELLS) →
    l.length ≤ s.cellAmount → ∃ s', l.foldlM (fun s i => deleteCell i s) s = some s' ∧
      s'.cellList = swapDeletes (l.map fun i => (s.relCells i).index) s.cellAmount s.cellList ∧
      s'.cellAmount = s.cellAmount - l.length ∧ s'.relCells = s.relCells ∧ s'.relCellsLen = s.relCellsLen
  | [], s, _, _ => ⟨s, rfl, rfl, rfl, rfl, rfl⟩
  | i :: l, s, hd, hlen => by
    rw [List.length_cons] at hlen
    obtain ⟨s', hs', hcells, hamount, hrel⟩ := delete_loop (l := l) (s := { s with
      cellList := Function.update s.cellList (s.relCells i).index (s.cellList (s.cellAmount - 1))
      cellAmount := s.cellAmount - 1
      fits := (Nat.sub_le ..).trans s.fits }) (fun j hj => hd j (List.mem_cons_of_mem i hj)) (by dsimp only; omega)
    rw [List.foldlM_cons, deleteCell_eq (hd i List.mem_cons_self) (by omega)]
    refine ⟨s', hs', hcells, ?_, hrel⟩
    rw [hamount, List.length_cons]
    show s.cellAmount - 1 - l.length = _
    omega

theorem mem_bad {p : Nat} : p ∈ s.bad ↔ p < s.cellAmount ∧ bad (s.cellList p) = true := by
  rw [Stats.bad, List.mem_filter, List.mem_range]

theorem bad_sorted (s : Stats) : s.bad.Pairwise (· < ·) := List.pairwise_lt_range.filter _

theorem bad_length (s : Stats) : s.bad.length ≤ s.cellAmount := by
  have := List.length_filter_le (fun i => Pdr.bad (s.cellList i)) (List.range s.cellAmount)
  rwa [List.length_range] at this

theorem kept_eq (s : Stats) :
    s.cells.filter (fun cell => ¬ bad cell) = ((List.range s.cellAmount).filter fun p => p ∉ s.bad).map s.cellList := by
  rw [Stats.cells, List.filter_map]
  congr 1
  refine List.filter_congr fun p hp => ?_
  rw [Function.comp_apply, decide_eq_decide, mem_bad]
  simp [List.mem_range.1 hp]

theorem deleteCells_spec (h : Collected s e s.bad n) : ∃ s', deleteCells e.stats = some s' ∧
    s'.cellList = swapDeletes s.bad s.cellAmount s.cellList ∧ s'.cellAmount = s.cellAmount - s.bad.length := by
  have hlen : e.stats.relCellsLen = s.bad.length := by simpa using congrArg List.length h.indexed
  have hindex : (List.range e.stats.relCellsLen).map (fun i => (e.stats.relCells i).index) = s.bad := by
    have hmap := congrArg (List.map RelCell.index) h.indexed
    rw [List.map_map, List.map_map] at hmap
    exact hmap.trans (List.map_id _)
  obtain ⟨s', hs', hcells, hamount, -⟩ := delete_loop (l := List.range e.stats.relCellsLen) (s := e.stats)
    (fun i hi => by
      have hmem : (e.stats.relCells i).index ∈ s.bad := by
        rw [← hindex]
        exact List.mem_map_of_mem hi
      exact lt_of_lt_of_le (mem_bad.1 hmem).1 s.fits)
    (by rw [List.length_range, hlen, h.cellAmount]; exact bad_length s)
  rw [hindex, h.cellAmount, h.cellList] at hcells
  rw [List.length_range, hlen, h.cellAmount] at hamount
  exact ⟨s', hs', hcells, hamount⟩

/-- What is claimed of the deletion after an evaluation. -/
def LeavesOthers (relReturnList : Nat → CellStats) (s : Stats) : Prop :=
  ∃ e s', evaluateCells relReturnList s = some e ∧ deleteCells e.stats = some s' ∧
    s'.cells.Perm (s.cells.filter fun cell => ¬ bad cell) ∧ s'.cellAmount = (s.cells.filter fun cell => ¬ bad cell).length

/-- The cells that were not flagged are left exactly when the flagged ones fit the index and none of them is moved
into the hole of another. -/
theorem deleteCells_iff (relReturnList : Nat → CellStats) (s : Stats) : LeavesOthers relReturnList s ↔
      (s.bad.length ≤ REL_CELLS ∧ ∀ i ∈ s.bad, (s.cellList i).numberCellAllocated.toNat < MAX_ALLOCATE_CELLS) ∧
        KeepsLast s.bad s.cellAmount := by
  rcases evaluateCells_spec relReturnList s with ⟨hnot, hnone⟩ | ⟨hfit, e, he, hc⟩
  · refine ⟨?_, fun h => absurd h.1 hnot⟩
    rintro ⟨e, s', he, -⟩
    rw [hnone] at he
    cases he
  · obtain ⟨s', hs', hcells, hamount⟩ := deleteCells_spec hc
    have hperm := swapDeletes_perm_iff (f := s.cellList) (P := fun cell => bad cell = true) (bad_sorted s)
      (fun d hd => (mem_bad.1 hd).1) fun p hp => by simp [mem_bad, hp]
    rw [← kept_eq, ← hcells, ← hamount] at hperm
    constructor
    · rintro ⟨e', s'', he', hs'', hp, -⟩
      obtain rfl := Option.some.inj (he.symm.trans he')
      obtain rfl := Option.some.inj (hs'.symm.trans hs'')
      exact ⟨hfit, hperm.1 hp⟩
    · rintro ⟨-, hk⟩
      have hlen := (hperm.2 hk).length_eq
      rw [List.length_map, List.length_range] at hlen
      exact ⟨e, s', he, hs', hperm.2 hk, hlen⟩

def goodCell (i : Nat) : CellStats := ⟨UInt8.ofNat (i + 1), 0, 16, 16, 1, UInt8.ofNat i⟩

def holed : Stats := ⟨fun i => if i = 1 then goodCell i else lostCell i, 3, fun _ => ⟨0, 0⟩, 0, fun _ => 0, by decide⟩

/-- The last cell is flagged and moved into the first hole, and the cell that was not flagged is deleted. -/
theorem flagged_cell_stays : ¬ LeavesOthers lostCell holed := by
  have hbad : holed.bad = [0, 2] := by decide
  rintro ⟨e, s', he, hs', hperm, -⟩
  rcases evaluateCells_spec lostCell holed with ⟨-, hnone⟩ | ⟨-, e', he', hc⟩
  · rw [hnone] at he
    cases he
  · obtain rfl := Option.some.inj (he.symm.trans he')
    obtain ⟨s'', hs'', hcells, hamount⟩ := deleteCells_spec hc
    obtain rfl := Option.some.inj (hs'.symm.trans hs'')
    rw [hbad] at hcells hamount
    have hleft : s'.cells = [lostCell 2] := by
      rw [Stats.cells, hamount, hcells]
      decide
    have hkept : holed.cells.filter (fun cell => ¬ bad cell) = [goodCell 1] := by decide
    rw [hleft, hkept, List.perm_singleton] at hperm
    exact absurd hperm (by decide)

end

end Contiki.Pdr

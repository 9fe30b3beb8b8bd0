/-
Runs of transmissions, evaluations and deletions: the counters of each cell stay below their limit, each timeslot has
one entry, and a cell counts as relevant when its counters have been halved.
-/
import Contiki.Lib.Run
import Contiki.Pdr.Evaluate

namespace Contiki.Pdr

open Contiki.Lib

/-- A packet to the time source was sent in a timeslot, the cells are evaluated, or the flagged ones deleted. -/
inductive Action
  | tx (timeslot channelOffset : UInt16) (ok : Bool)
  | evaluate (relReturnList : Nat → CellStats)
  | delete

/-- The statistics, and which entries have been halved since they were added. -/
structure World where
  stats : Stats
  halved : Nat → Bool

def Stats.indices (s : Stats) : List Nat := (List.range s.relCellsLen).map fun i => (s.relCells i).index

/-- The cells that `tsch_tx_slot` does not count. -/
def Stats.skips (s : Stats) (i : Nat) : Bool :=
  (List.range s.relCellsLen).any fun ind => (s.relCells ind).timeslot = (s.cellList i).slotOffset

def World.txHalved (w : World) (timeslot : UInt16) : Nat → Bool :=
  if timeslot = 0 then w.halved
  else match getCellPdr timeslot w.stats with
    | some i =>
      if w.stats.skips i ∨ (w.stats.cellList i).txTotal + 1 < MAX_NUM_TX then w.halved else Function.update w.halved i true
    | none => Function.update w.halved w.stats.cellAmount false

def step (w : World) : Action → Option World
  | .tx timeslot channelOffset ok => (txSlotStats timeslot channelOffset ok w.stats).map (World.mk · (w.txHalved timeslot))
  | .evaluate relReturnList => (evaluateCells relReturnList w.stats).map fun e => ⟨e.stats, w.halved⟩
  | .delete => (deleteCells w.stats).map (World.mk · (swapDeletes w.stats.indices w.stats.cellAmount w.halved))

structure EntryOk (cell : CellStats) (halved : Bool) : Prop where
  success : cell.txSuccess ≤ cell.txTotal
  total : cell.txTotal < MAX_NUM_TX
  relevant : cell.isStatisticallyRelevant ≠ 0 ↔ halved = true

structure Good (w : World) : Prop where
  entries : ∀ i < w.stats.cellAmount, EntryOk (w.stats.cellList i) (w.halved i)
  once : ∀ i < w.stats.cellAmount, ∀ j < w.stats.cellAmount,
    (w.stats.cellList i).slotOffset = (w.stats.cellList j).slotOffset → i = j

/-- The condition on a step: a cell that is not found finds the skip list empty, and no entry of its 8-bit slot offset
if it is added; the flagged cells fit their index; and not more are deleted than there are. -/
def Clean (w : World) : Action → Prop
  | .tx timeslot _ _ => timeslot ≠ 0 → getCellPdr timeslot w.stats = none → w.stats.relCellsLen = 0 ∧
      (w.stats.cellAmount < MAX_ALLOCATE_CELLS → ∀ i < w.stats.cellAmount, (w.stats.cellList i).slotOffset ≠ timeslot.toUInt8)
  | .evaluate _ => w.stats.bad.length ≤ REL_CELLS
  | .delete => w.stats.relCellsLen ≤ w.stats.cellAmount

variable {w : World} {s : Stats} {timeslot channelOffset : UInt16} {ok : Bool} {cell : CellStats} {b : Bool}

/-! ## Transmissions -/

theorem getCellPdr_some {i : Nat} (h : getCellPdr timeslot s = some i) :
    i < s.cellAmount ∧ (s.cellList i).slotOffset.toUInt16 = timeslot := by
  refine ⟨List.mem_range.1 (List.mem_of_find?_eq_some h), ?_⟩
  have hfound := List.find?_some h
  exact of_decide_eq_true hfound

theorem EntryOk.count (h : EntryOk cell b) (ok : Bool) :
    EntryOk (countTx ok cell) (if cell.txTotal + 1 < MAX_NUM_TX then b else true) := by
  obtain ⟨hs, ht, hr⟩ := h
  rw [UInt16.le_iff_toNat_le] at hs
  rw [UInt16.lt_iff_toNat_lt] at ht
  have hmax : MAX_NUM_TX.toNat = 32 := rfl
  have htotal : (cell.txTotal + 1).toNat = cell.txTotal.toNat + 1 := by
    rw [UInt16.toNat_add, UInt16.toNat_one, Nat.mod_eq_of_lt (by omega)]
  have hsuccess : (if ok then cell.txSuccess + 1 else cell.txSuccess).toNat ≤ cell.txTotal.toNat + 1 := by
    split
    · rw [UInt16.toNat_add, UInt16.toNat_one, Nat.mod_eq_of_lt (by omega)]
      omega
    · omega
  unfold countTx
  dsimp only
  by_cases hlt : cell.txTotal + 1 < MAX_NUM_TX
  · rw [if_neg (UInt16.not_le.2 hlt), if_pos hlt]
    refine ⟨?_, hlt, hr⟩
    rw [UInt16.le_iff_toNat_le, htotal]
    exact hsuccess
  · rw [if_pos (UInt16.not_lt.1 hlt), if_neg hlt]
    refine ⟨?_, ?_, fun _ => rfl, fun _ => (by decide : (1 : UInt8) ≠ 0)⟩
    · rw [UInt16.le_iff_toNat_le, UInt16.toNat_div, UInt16.toNat_div, htotal]
      exact Nat.div_le_div_right hsuccess
    · rw [UInt16.lt_iff_toNat_lt, UInt16.toNat_div, htotal, hmax]
      show (cell.txTotal.toNat + 1) / 2 < 32
      omega

theorem countTx_slotOffset (ok : Bool) (cell : CellStats) : (countTx ok cell).slotOffset = cell.slotOffset ∧
    (countTx ok cell).numberCellAllocated = cell.numberCellAllocated := by
  unfold countTx
  dsimp only
  split
  · exact ⟨rfl, rfl⟩
  · exact ⟨rfl, rfl⟩

structure Inv (w : World) : Prop where
  good : Good w
  numbers : ∀ i < w.stats.cellAmount, (w.stats.cellList i).numberCellAllocated.toNat < MAX_ALLOCATE_CELLS
  indices : ∀ i < w.stats.relCellsLen, (w.stats.relCells i).index < MAX_ALLOCATE_CELLS

theorem Inv.update {i : Nat} (h : Inv w) (hentry : EntryOk cell b) (hslot : cell.slotOffset = (w.stats.cellList i).slotOffset)
    (hnumber : cell.numberCellAllocated = (w.stats.cellList i).numberCellAllocated) :
    Inv ⟨{ w.stats with cellList := Function.update w.stats.cellList i cell }, Function.update w.halved i b⟩ := by
  have hsame : ∀ j, (Function.update w.stats.cellList i cell j).slotOffset = (w.stats.cellList j).slotOffset ∧
      (Function.update w.stats.cellList i cell j).numberCellAllocated = (w.stats.cellList j).numberCellAllocated := by
    intro j
    by_cases hj : j = i
    · rw [hj, Function.update_self]
      exact ⟨hslot, hnumber⟩
    · rw [Function.update_of_ne hj]
      exact ⟨rfl, rfl⟩
  refine ⟨⟨fun j hj => ?_, fun j hj k hk heq => ?_⟩, fun j hj => ?_, h.indices⟩
  · dsimp only
    by_cases hji : j = i
    · rw [hji, Function.update_self, Function.update_self]
      exact hentry
    · rw [Function.update_of_ne hji, Function.update_of_ne hji]
      exact h.good.entries j hj
  · refine h.good.once j hj k hk ?_
    rw [← (hsame j).1, ← (hsame k).1]
    exact heq
  · dsimp only
    rw [(hsame j).2]
    exact h.numbers j hj

theorem Inv.add (h : Inv w) (hfull : w.stats.cellAmount < MAX_ALLOCATE_CELLS)
    (hnew : ∀ i < w.stats.cellAmount, (w.stats.cellList i).slotOffset ≠ timeslot.toUInt8) :
    Inv ⟨{ w.stats with
      cellList := Function.update w.stats.cellList w.stats.cellAmount (newCell timeslot channelOffset ok w.stats.cellAmount)
      cellAmount := w.stats.cellAmount + 1
      fits := hfull }, Function.update w.halved w.stats.cellAmount false⟩ := by
  have hentry : EntryOk (newCell timeslot channelOffset ok w.stats.cellAmount) false := by
    refine ⟨?_, (by decide : (1 : UInt16) < 32), fun hne => absurd rfl hne, fun hf => absurd hf Bool.false_ne_true⟩
    cases ok with
    | true => exact (by decide : (1 : UInt16) ≤ 1)
    | false => exact (by decide : (0 : UInt16) ≤ 1)
  have hnumber : (newCell timeslot channelOffset ok w.stats.cellAmount).numberCellAllocated.toNat < MAX_ALLOCATE_CELLS := by
    show (UInt8.ofNat w.stats.cellAmount).toNat < _
    rw [UInt8.toNat_ofNat', Nat.mod_eq_of_lt (lt_trans hfull (by decide))]
    exact hfull
  refine ⟨⟨fun j hj => ?_, fun j hj k hk heq => ?_⟩, fun j hj => ?_, h.indices⟩
  · dsimp only
    rcases Nat.lt_succ_iff_lt_or_eq.1 hj with hlt | rfl
    · rw [Function.update_of_ne hlt.ne, Function.update_of_ne hlt.ne]
      exact h.good.entries j hlt
    · rw [Function.update_self, Function.update_self]
      exact hentry
  · dsimp only at heq
    rcases Nat.lt_succ_iff_lt_or_eq.1 hj with hj | rfl <;> rcases Nat.lt_succ_iff_lt_or_eq.1 hk with hk | rfl
    · rw [Function.update_of_ne hj.ne, Function.update_of_ne hk.ne] at heq
      exact h.good.once j hj k hk heq
    · rw [Function.update_of_ne hj.ne, Function.update_self] at heq
      exact absurd heq (hnew j hj)
    · rw [Function.update_self, Function.update_of_ne hk.ne] at heq
      exact absurd heq.symm (hnew k hk)
    · rfl
  · dsimp only
    rcases Nat.lt_succ_iff_lt_or_eq.1 hj with hlt | rfl
    · rw [Function.update_of_ne hlt.ne]
      exact h.numbers j hlt
    · rw [Function.update_self]
      exact hnumber

theorem Inv.tx (h : Inv w) (hc : Clean w (.tx timeslot channelOffset ok)) :
    ∃ w', step w (.tx timeslot channelOffset ok) = some w' ∧ Inv w' := by
  unfold step World.txHalved txSlotStats
  dsimp only
  by_cases hzero : timeslot = 0
  · rw [if_neg (not_not.2 hzero), if_pos hzero]
    exact ⟨w, rfl, h⟩
  · rw [if_pos hzero, if_neg hzero]
    cases hget : getCellPdr timeslot w.stats with
    | some i =>
      obtain ⟨hi, -⟩ := getCellPdr_some hget
      refine ⟨_, rfl, ?_⟩
      dsimp only
      change Inv ⟨if w.stats.skips i then _ else _, if w.stats.skips i = true ∨ _ then _ else _⟩
      by_cases hskip : w.stats.skips i = true
      · rw [if_pos hskip, if_pos (.inl hskip)]
        exact h
      · rw [if_neg hskip]
        obtain ⟨hslot, hnumber⟩ := countTx_slotOffset ok (w.stats.cellList i)
        have hentry := (h.good.entries i hi).count ok
        by_cases hlt : (w.stats.cellList i).txTotal + 1 < MAX_NUM_TX
        · rw [if_pos (.inr hlt)]
          rw [if_pos hlt] at hentry
          have hupdate := h.update hentry hslot hnumber
          rwa [Function.update_eq_self] at hupdate
        · rw [if_neg (not_or.2 ⟨hskip, hlt⟩)]
          rw [if_neg hlt] at hentry
          exact h.update hentry hslot hnumber
    | none =>
      obtain ⟨hskip, hnew⟩ := hc hzero hget
      dsimp only
      rw [if_neg (by omega)]
      by_cases hfull : w.stats.cellAmount < MAX_ALLOCATE_CELLS
      · rw [dif_pos hfull]
        exact ⟨_, rfl, h.add hfull (hnew hfull)⟩
      · rw [dif_neg hfull]
        refine ⟨_, rfl, ⟨⟨fun j hj => ?_, h.good.once⟩, h.numbers, h.indices⟩⟩
        have hne : j ≠ w.stats.cellAmount := Nat.ne_of_lt hj
        dsimp only
        rw [Function.update_of_ne hne]
        exact h.good.entries j hj

/-! ## Evaluations and deletions -/

theorem Inv.evaluate {relReturnList : Nat → CellStats} (h : Inv w) (hc : Clean w (.evaluate relReturnList)) :
    ∃ w', step w (.evaluate relReturnList) = some w' ∧ Inv w' := by
  rcases evaluateCells_spec relReturnList w.stats with ⟨hnot, -⟩ | ⟨-, e, he, hcol⟩
  · exact absurd ⟨hc, fun i hi => h.numbers i (mem_bad.1 hi).1⟩ hnot
  · refine ⟨⟨e.stats, w.halved⟩, congrArg (Option.map _) he, ⟨⟨fun i hi => ?_, fun i hi j hj heq => ?_⟩, fun i hi => ?_,
      fun i hi => ?_⟩⟩
    · rw [hcol.cellAmount] at hi
      rw [hcol.cellList]
      exact h.good.entries i hi
    · rw [hcol.cellAmount] at hi hj
      rw [hcol.cellList] at heq
      exact h.good.once i hi j hj heq
    · rw [hcol.cellAmount] at hi
      rw [hcol.cellList]
      exact h.numbers i hi
    · have hmem : e.stats.relCells i ∈ (List.range e.stats.relCellsLen).map e.stats.relCells :=
        List.mem_map_of_mem (List.mem_range.2 hi)
      rw [hcol.indexed] at hmem
      obtain ⟨j, hj, heq⟩ := List.mem_map.1 hmem
      rw [← heq]
      exact lt_of_lt_of_le (mem_bad.1 hj).1 w.stats.fits

theorem Inv.delete (h : Inv w) (hc : Clean w .delete) : ∃ w', step w .delete = some w' ∧ Inv w' := by
  have hlen : w.stats.indices.length = w.stats.relCellsLen := by rw [Stats.indices, List.length_map, List.length_range]
  obtain ⟨s', hs', hcells, hamount, hrel, hrelLen⟩ := delete_loop (l := List.range w.stats.relCellsLen) (s := w.stats)
    (fun i hi => h.indices i (List.mem_range.1 hi)) (by rw [List.length_range]; exact hc)
  rw [List.length_range, ← hlen] at hamount
  -- the entries and what is known of them move together
  have hmove : ∀ p, (s'.cellList p, swapDeletes w.stats.indices w.stats.cellAmount w.halved p) =
      swapDeletes w.stats.indices w.stats.cellAmount (fun i => (w.stats.cellList i, w.halved i)) p := by
    intro p
    rw [hcells]
    exact Prod.ext (swapDeletes_map Prod.fst _ _ (fun i => (w.stats.cellList i, w.halved i)) p)
      (swapDeletes_map Prod.snd _ _ (fun i => (w.stats.cellList i, w.halved i)) p)
  have hall : ∀ p < s'.cellAmount,
      EntryOk (s'.cellList p) (swapDeletes w.stats.indices w.stats.cellAmount w.halved p) ∧
        (s'.cellList p).numberCellAllocated.toNat < MAX_ALLOCATE_CELLS := by
    intro p hp
    have hentry := swapDeletes_all (P := fun e : CellStats × Bool =>
      EntryOk e.1 e.2 ∧ e.1.numberCellAllocated.toNat < MAX_ALLOCATE_CELLS)
      (f := fun i => (w.stats.cellList i, w.halved i)) (fun i hi => ⟨h.good.entries i hi, h.numbers i hi⟩) p (hamount ▸ hp)
    rwa [← hmove] at hentry
  have hslots : ∀ p < w.stats.cellAmount - w.stats.indices.length, ∀ q < w.stats.cellAmount - w.stats.indices.length,
      swapDeletes w.stats.indices w.stats.cellAmount (fun i => (w.stats.cellList i).slotOffset) p =
        swapDeletes w.stats.indices w.stats.cellAmount (fun i => (w.stats.cellList i).slotOffset) q → p = q :=
    swapDeletes_inj h.good.once
  refine ⟨_, congrArg (Option.map _) hs', ⟨⟨fun p hp => (hall p hp).1, fun p hp q hq heq => ?_⟩, fun p hp => (hall p hp).2,
    fun i hi => ?_⟩⟩
  · refine hslots p (hamount ▸ hp) q (hamount ▸ hq) ?_
    rw [swapDeletes_map CellStats.slotOffset, swapDeletes_map CellStats.slotOffset, Stats.indices, ← hcells]
    exact heq
  · change i < s'.relCellsLen at hi
    show (s'.relCells i).index < _
    rw [hrelLen] at hi
    rw [hrel]
    exact h.indices i hi

theorem Inv.step {a : Action} (h : Inv w) (hc : Clean w a) : ∃ w', step w a = some w' ∧ Inv w' := by
  cases a with
  | tx timeslot channelOffset ok => exact h.tx hc
  | evaluate relReturnList => exact h.evaluate hc
  | delete => exact h.delete hc

def World.init (cellList : Nat → CellStats) (relCells : Nat → RelCell) (cellNumberRelocated : Nat → UInt8)
    (halved : Nat → Bool) : World := ⟨⟨cellList, 0, relCells, 0, cellNumberRelocated, Nat.zero_le _⟩, halved⟩

/-- Every run whose steps are clean can be taken to its end, and there the statistics are as claimed. -/
theorem pdr_run (cellList : Nat → CellStats) (relCells : Nat → RelCell) (cellNumberRelocated : Nat → UInt8)
    (halved : Nat → Bool) (xs : List Action)
    (h : AllSteps step Clean (World.init cellList relCells cellNumberRelocated halved) xs) :
    ∃ w, exec step (World.init cellList relCells cellNumberRelocated halved) xs = some w ∧ Good w := by
  have hinit : Inv (World.init cellList relCells cellNumberRelocated halved) :=
    ⟨⟨fun i hi => absurd hi (Nat.not_lt_zero i), fun i hi => absurd hi (Nat.not_lt_zero i)⟩,
      fun i hi => absurd hi (Nat.not_lt_zero i), fun i hi => absurd hi (Nat.not_lt_zero i)⟩
  obtain ⟨w, hw, hinv⟩ := exec_total (fun _ _ hi hc => Inv.step hi hc) xs hinit h
  exact ⟨w, hw, hinv.good⟩

theorem pdr_run_once : ∃ w, exec step (World.init goodCell (fun _ => ⟨0, 0⟩) (fun _ => 0) fun _ => false)
    [.tx 5 1 true] = some w ∧ Good w :=
  pdr_run goodCell (fun _ => ⟨0, 0⟩) (fun _ => 0) (fun _ => false) [.tx 5 1 true]
    ⟨fun _ _ => ⟨rfl, fun _ i hi => absurd hi (Nat.not_lt_zero i)⟩, fun _ _ => trivial⟩

/-- The timeslot 300 is stored as 44 and not found again: it gets a second entry. -/
theorem timeslot_twice : ¬ ∃ w, exec step (World.init goodCell (fun _ => ⟨0, 0⟩) (fun _ => 0) fun _ => false)
    [.tx 300 1 true, .tx 300 1 true] = some w ∧ Good w := by
  rintro ⟨w, hw, hgood⟩
  have hrun : (exec step (World.init goodCell (fun _ => ⟨0, 0⟩) (fun _ => 0) fun _ => false)
      [.tx 300 1 true, .tx 300 1 true]).map (fun w => (w.stats.cellAmount, (w.stats.cellList 0).slotOffset,
        (w.stats.cellList 1).slotOffset)) = some (2, 44, 44) := by decide
  rw [hw] at hrun
  obtain ⟨hamount, hslots⟩ := Prod.mk.inj (Option.some.inj hrun)
  obtain ⟨h₀, h₁⟩ := Prod.mk.inj hslots
  exact absurd (hgood.once 0 (by omega) 1 (by omega) (h₀.trans h₁.symm)) (by decide)

end Contiki.Pdr

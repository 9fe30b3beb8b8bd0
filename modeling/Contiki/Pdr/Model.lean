/-
The packet delivery statistics of the cells to the time source in tsch-slot-operation.c: the list of cells, the
evaluation that flags bad cells, their deletion, and the step of `tsch_tx_slot`. What C leaves undefined, an access
outside of an array or through NULL, has no result.
-/
import Contiki.Lib.Round

namespace Contiki.Pdr

def MAX_ALLOCATE_CELLS : Nat := 60
def MAX_NUM_TX : UInt16 := 32
def RELOCATE_PDRTHRES : ℚ := 1 / 2

/-- The length of `tsch_pdr_rel_cells_index`. -/
def REL_CELLS : Nat := 20

/-- `tsch_schedule_cell_stats`. -/
structure CellStats where
  slotOffset : UInt8
  channelOffset : UInt8
  txTotal : UInt16
  txSuccess : UInt16
  isStatisticallyRelevant : UInt8
  numberCellAllocated : UInt8
  deriving DecidableEq

structure RelCell where
  index : Nat
  timeslot : UInt8
  deriving DecidableEq

/-- `pdrCellList`, `tsch_pdr_rel_cells_index` and `cell_number_relocated`. -/
structure Stats where
  cellList : Nat → CellStats
  cellAmount : Nat
  relCells : Nat → RelCell
  relCellsLen : Nat
  cellNumberRelocated : Nat → UInt8
  fits : cellAmount ≤ MAX_ALLOCATE_CELLS

def Stats.cells (s : Stats) : List CellStats := (List.range s.cellAmount).map s.cellList

/-! ## Evaluation -/

/-- The comparison with `RELOCATE_PDRTHRES`, in floats of 24 bits. -/
def lowPdr (cell : CellStats) : Bool :=
  let pdr := Lib.roundBits 24 (Lib.roundBits 24 cell.txSuccess.toNat / Lib.roundBits 24 cell.txTotal.toNat)
  decide (Lib.roundBits 24 (1 - pdr) > RELOCATE_PDRTHRES)

/-- What `tsch_stats_evaluate_cells_for_relocation` works on: the statistics and the array it returns. -/
structure Evaluation where
  stats : Stats
  relReturnList : Nat → CellStats
  returnListLen : Nat
  evaluatedCells : Nat

def relocate (i : Nat) (currentCell : CellStats) (e : Evaluation) : Option Evaluation :=
  let s := e.stats
  if e.returnListLen < MAX_ALLOCATE_CELLS ∧ s.relCellsLen < REL_CELLS ∧
      currentCell.numberCellAllocated.toNat < MAX_ALLOCATE_CELLS then
    some { e with
      relReturnList := Function.update e.relReturnList e.returnListLen currentCell
      returnListLen := e.returnListLen + 1
      stats := { s with
        relCells := Function.update s.relCells s.relCellsLen ⟨i, currentCell.slotOffset⟩
        relCellsLen := s.relCellsLen + 1
        cellNumberRelocated := Function.update s.cellNumberRelocated currentCell.numberCellAllocated.toNat 1 } }
  else none

/-- The body of the loop for the cell at `i`. -/
def evaluateCell (i : Nat) (e : Evaluation) : Option Evaluation :=
  let currentCell := e.stats.cellList i
  if currentCell.isStatisticallyRelevant ≠ 0 ∧ currentCell.txTotal > 0 then
    let e' := if lowPdr currentCell then relocate i currentCell e else some e
    e'.map fun e => { e with evaluatedCells := e.evaluatedCells + 1 }
  else some e

/-- `tsch_stats_evaluate_cells_for_relocation` with an array of length 0. -/
def evaluateCells (relReturnList : Nat → CellStats) (s : Stats) : Option Evaluation :=
  (List.range s.cellAmount).foldlM (fun e i => evaluateCell i e) ⟨{ s with relCellsLen := 0 }, relReturnList, 0, 0⟩

/-! ## Deletion -/

def deleteCell (i : Nat) (s : Stats) : Option Stats :=
  let deleteIndex := (s.relCells i).index
  if deleteIndex < MAX_ALLOCATE_CELLS ∧ 0 < s.cellAmount then
    some { s with
      cellList := Function.update s.cellList deleteIndex (s.cellList (s.cellAmount - 1))
      cellAmount := s.cellAmount - 1
      fits := (Nat.sub_le ..).trans s.fits }
  else none

/-- `tsch_stats_delete_cells_pdr_list`. -/
def deleteCells (s : Stats) : Option Stats := (List.range s.relCellsLen).foldlM (fun s i => deleteCell i s) s

/-! ## Transmissions -/

/-- `tsch_stats_get_cell_pdr`, with the index of the cell. -/
def getCellPdr (slotOffset : UInt16) (s : Stats) : Option Nat :=
  (List.range s.cellAmount).find? fun i => (s.cellList i).slotOffset.toUInt16 = slotOffset

def countTx (ok : Bool) (cell : CellStats) : CellStats :=
  let cell := { cell with
    txTotal := cell.txTotal + 1
    txSuccess := if ok then cell.txSuccess + 1 else cell.txSuccess }
  if cell.txTotal ≥ MAX_NUM_TX then
    { cell with txTotal := cell.txTotal / 2, txSuccess := cell.txSuccess / 2, isStatisticallyRelevant := 1 }
  else cell

def newCell (timeslot channelOffset : UInt16) (ok : Bool) (cellAmount : Nat) : CellStats :=
  ⟨timeslot.toUInt8, channelOffset.toUInt8, 1, if ok then 1 else 0, 0, UInt8.ofNat cellAmount⟩

/-- The statistics step of `tsch_tx_slot` after a packet to the time source. -/
def txSlotStats (timeslot channelOffset : UInt16) (ok : Bool) (s : Stats) : Option Stats :=
  if timeslot ≠ 0 then
    match getCellPdr timeslot s with
    | some i =>
      let skipCellStats := (List.range s.relCellsLen).any fun ind => (s.relCells ind).timeslot = (s.cellList i).slotOffset
      some (if skipCellStats then s else { s with cellList := Function.update s.cellList i (countTx ok (s.cellList i)) })
    | none =>
      -- the skip list is compared with the slot offset of the cell that was not found
      if s.relCellsLen > 0 then none
      else if h : s.cellAmount < MAX_ALLOCATE_CELLS then
        some { s with
          cellList := Function.update s.cellList s.cellAmount (newCell timeslot channelOffset ok s.cellAmount)
          cellAmount := s.cellAmount + 1
          fits := h }
      else some s
  else some s

end Contiki.Pdr

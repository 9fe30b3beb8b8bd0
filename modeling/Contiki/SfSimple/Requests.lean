/-
The candidate list that add_req_input and relocate_req_input answer with. The loop takes the free cells in the order of
the list, from the start again after the 64th, and writes the cell number `j` at the byte `j` of the storage, so a
response to more than one cell is right only where the overlapping bytes agree.
-/
import Contiki.SfSimple.Model

namespace Contiki.SfSimple

open Contiki.Lib Contiki.Sixtop Contiki.Tsch

/-! ## Cells written over each other -/

/-- What stands at the byte `r` after cells were written at the bytes 0, 1, 2 and so on of a cleared storage. -/
def overlapByte (cs : List Cell) (r : Nat) : UInt8 :=
  match cs[r]? with
  | some c => c.bytes.getD 0 0
  | none => match cs.getLast? with
    | some c => c.bytes.getD (r + 1 - cs.length) 0
    | none => 0

/-- The storage after the cells were written from the byte `j` on. -/
@[grind =]
def overlay (m : Mem) : Nat → List Cell → Mem
  | _, [] => m
  | j, c :: cs => overlay (putCell c j m) (j + 1) cs

theorem putCell_eq (c : Cell) (j : Nat) (m : Mem) :
    putCell c j m = if j + 4 ≤ storageSize then Mem.paste j 4 (memOf c.bytes) m else m := by
  unfold putCell Body.sixpPktSetCellList
  simp only [getCellListOffset, Body.setList, Body.copyList]
  by_cases h : j + 4 ≤ storageSize
  · rw [if_pos h]
    simp [show ¬ storageSize < j + 4 by omega]
  · rw [if_neg h]
    simp [show storageSize < j + 4 by omega, Res.fail]

theorem overlay_snoc (c : Cell) : ∀ (cs : List Cell) (m : Mem) (j : Nat),
    overlay m j (cs ++ [c]) = putCell c (j + cs.length) (overlay m j cs)
  | [], m, j => rfl
  | b :: cs, m, j => by
    rw [List.cons_append, overlay, overlay_snoc c cs, overlay, List.length_cons]
    congr 1
    omega

theorem memOf_bytes (c : Cell) (i : Nat) : memOf c.bytes i = c.bytes.getD i 0 := rfl

/-- As many cells as the storage has room for, one behind the other, are written over each other as `overlapByte`
says. -/
theorem overlay_byte {m : Mem} (hm : ∀ x < storageSize, m x = 0) (cs : List Cell) (hlen : cs.length * 4 ≤ storageSize) :
    ∀ r < storageSize, overlay m 0 cs r = overlapByte cs r := by
  induction cs using List.reverseRecOn with
  | nil => exact fun r hr => hm r hr
  | append_singleton cs c ih =>
    intro r hr
    have hsize : storageSize = 20 := rfl
    rw [List.length_append, List.length_singleton] at hlen
    have ih := ih (by omega) r hr
    rw [overlay_snoc, putCell_eq, if_pos (by omega), Nat.zero_add]
    unfold overlapByte
    rcases lt_trichotomy r cs.length with hlt | rfl | hgt
    · rw [Mem.paste_of_out (Or.inl hlt), ih, overlapByte, List.getElem?_append_left hlt, List.getElem?_eq_getElem hlt]
    · rw [Mem.paste_in le_rfl (by omega), Nat.sub_self, memOf_bytes, List.getElem?_concat_length]
    · rw [List.getElem?_eq_none (by simp; omega), List.getLast?_concat, List.length_append, List.length_singleton]
      by_cases hin : r < cs.length + 4
      · rw [Mem.paste_in (by omega) hin, memOf_bytes]
        dsimp only
        congr 1
        omega
      · rw [Mem.paste_of_out (by omega), ih, overlapByte, List.getElem?_eq_none (by omega)]
        have hzero : ∀ (d : Cell) (i : Nat), 4 ≤ i → d.bytes.getD i 0 = 0 := by
          intro d i hi
          rw [List.getD_eq_getElem?_getD, List.getElem?_eq_none (show d.bytes.length ≤ i from hi)]
          rfl
        dsimp only
        rw [hzero c _ (by omega)]
        cases cs.getLast? with
        | none => rfl
        | some d => exact hzero d _ (by omega)

/-! ## The loop -/

section

variable (free : UInt16 → Bool) (list : Mem)

/-- The cell that is read in round `t`: `i` is 8 bits wide. -/
def cellAt (t : Nat) : Cell := readCell list (4 * t % 256)

/-- The free cells among those read in the first `t` rounds. -/
def freeUpTo (t : Nat) : List Cell := ((List.range t).map (cellAt list)).filter fun c => free c.timeslotOffset

/-- The variables after `t` rounds. -/
def gatherState (m : Mem) (t : Nat) : Gather :=
  ⟨UInt8.ofNat (4 * t), (freeUpTo free list t).length, overlay m 0 (freeUpTo free list t),
    4 * (freeUpTo free list t).length⟩

theorem freeUpTo_succ (t : Nat) : freeUpTo free list (t + 1) =
    freeUpTo free list t ++ if free (cellAt list t).timeslotOffset then [cellAt list t] else [] := by
  rw [freeUpTo, List.range_succ, List.map_append, List.filter_append, freeUpTo]
  congr 1
  simp only [List.map_cons, List.map_nil, List.filter_cons, List.filter_nil]

theorem freeUpTo_add (t u : Nat) : freeUpTo free list (t + u) = freeUpTo free list t ++
    ((List.range u).map fun k => cellAt list (t + k)).filter fun c => free c.timeslotOffset := by
  rw [freeUpTo, List.range_add, List.map_append, List.filter_append, List.map_map]
  rfl

theorem gatherState_i (m : Mem) (t : Nat) : (gatherState free list m t).i.toNat = 4 * t % 256 := by
  simp [gatherState]

theorem gatherStep_state (m : Mem) (t : Nat) :
    gatherStep free list (gatherState free list m t) = gatherState free list m (t + 1) := by
  have hi : UInt8.ofNat (4 * t) + 4 = UInt8.ofNat (4 * (t + 1)) := by
    apply UInt8.toNat.inj
    simp
    omega
  unfold gatherStep
  rw [gatherState_i, show readCell list (4 * t % 256) = cellAt list t from rfl]
  simp only [gatherState]
  rw [freeUpTo_succ, hi]
  split
  · rw [overlay_snoc, List.length_append, List.length_singleton, Nat.zero_add]
    rfl
  · rw [List.append_nil]

/-- The loop goes on in round `t`. -/
def GoesOn (listLen numCells t : Nat) : Prop := 4 * t % 256 < listLen ∧ (freeUpTo free list t).length < numCells

theorem gather_spec (listLen numCells : Nat) (m : Mem) : ∀ (fuel t : Nat) (g : Gather),
    gather free list listLen numCells fuel (gatherState free list m t) = some g →
    ∃ u, t ≤ u ∧ g = gatherState free list m u ∧ ¬ GoesOn free list listLen numCells u ∧
      ∀ v, t ≤ v → v < u → GoesOn free list listLen numCells v
  | 0, _, _, h => by cases h
  | fuel + 1, t, g, h => by
    rw [gather, gatherState_i] at h
    split at h
    · next hon =>
      rw [gatherStep_state] at h
      obtain ⟨u, htu, hg, hstop, hgo⟩ := gather_spec listLen numCells m fuel (t + 1) g h
      refine ⟨u, by omega, hg, hstop, fun v htv hvu => ?_⟩
      rcases Nat.eq_or_lt_of_le htv with rfl | hlt
      · exact hon
      · exact hgo v hlt hvu
    · next hoff =>
      cases h
      exact ⟨t, le_rfl, rfl, hoff, fun v h₁ h₂ => absurd h₂ (by omega)⟩

theorem gather_ends (listLen numCells : Nat) (m : Mem) (u : Nat) (hstop : ¬ GoesOn free list listLen numCells u) :
    ∀ t, t ≤ u → (∀ v, t ≤ v → v < u → GoesOn free list listLen numCells v) →
      gather free list listLen numCells (u - t + 1) (gatherState free list m t) = some (gatherState free list m u) := by
  intro t htu
  induction h : u - t generalizing t with
  | zero =>
    intro _
    obtain rfl : t = u := by omega
    rw [gather, gatherState_i]
    exact if_neg hstop
  | succ n ih =>
    intro hgo
    rw [gather, gatherState_i]
    refine (if_pos (hgo t le_rfl (by omega))).trans ?_
    rw [gatherStep_state]
    exact ih (t + 1) (by omega) (by omega) fun v h₁ h₂ => hgo v (by omega) h₂

/-! ### Which cells are picked -/

/-- The rounds in which the loop may find cells: once through a list of less than 256 bytes, otherwise again and again
through the first 64 cells. -/
def rounds (listLen numCells : Nat) : Nat := if listLen < 256 then listLen / 4 else 64 * numCells

/-- The first `numCells` free cells in the order in which the loop reads them. -/
def picked (listLen numCells : Nat) : List Cell := (freeUpTo free list (rounds listLen numCells)).take numCells

variable {free list}

theorem freeUpTo_le {t u : Nat} (h : t ≤ u) : ∃ cs, freeUpTo free list u = freeUpTo free list t ++ cs := by
  obtain ⟨k, rfl⟩ := Nat.exists_eq_add_of_le h
  exact ⟨_, freeUpTo_add free list t k⟩

theorem freeUpTo_64 (n : Nat) : (freeUpTo free list (64 * n)).length = n * (freeUpTo free list 64).length := by
  induction n with
  | zero => simp [freeUpTo]
  | succ n ih =>
    have hcell : (fun k => cellAt list (64 * n + k)) = cellAt list := by
      funext k
      rw [cellAt, cellAt, show 4 * (64 * n + k) % 256 = 4 * k % 256 by omega]
    rw [Nat.mul_succ, freeUpTo_add, hcell, List.length_append, ih]
    exact (Nat.succ_mul _ _).symm

variable {listLen numCells : Nat}

theorem picked_of_stop {u : Nat} (hmod : listLen % 4 = 0) (hpos : 0 < numCells)
    (hlen : (freeUpTo free list u).length = numCells) (hgo : ∀ v < u, GoesOn free list listLen numCells v) :
    picked free list listLen numCells = freeUpTo free list u := by
  have hle : u ≤ rounds listLen numCells := by
    by_contra hlt
    have hon := hgo (rounds listLen numCells) (by omega)
    unfold rounds at hlt hon
    by_cases hshort : listLen < 256
    · rw [if_pos hshort] at hon
      have := hon.1
      omega
    · rw [if_neg hshort] at hon hlt
      have hless := hon.2
      rw [freeUpTo_64] at hless
      have hnone : (freeUpTo free list 64).length = 0 := by
        by_contra hne
        have := Nat.le_mul_of_pos_right numCells (Nat.pos_of_ne_zero hne)
        omega
      obtain ⟨cs, hcs⟩ := @freeUpTo_le free list u (64 * u) (by omega)
      have hall := @freeUpTo_64 free list u
      rw [hcs, List.length_append, hnone] at hall
      omega
  obtain ⟨cs, hcs⟩ := @freeUpTo_le free list _ _ hle
  rw [picked, hcs, ← hlen, List.take_left']
  rfl

theorem exists_stop (hpos : 0 < numCells) (h : (picked free list listLen numCells).length = numCells) :
    ∃ u, (freeUpTo free list u).length = numCells ∧ ∀ v < u, GoesOn free list listLen numCells v := by
  have hex : ∃ u, numCells ≤ (freeUpTo free list u).length := by
    refine ⟨rounds listLen numCells, ?_⟩
    rw [picked, List.length_take] at h
    omega
  obtain ⟨u, hu, hmin⟩ : ∃ u, numCells ≤ (freeUpTo free list u).length ∧
      ∀ v < u, (freeUpTo free list v).length < numCells := by
    classical
    exact ⟨Nat.find hex, Nat.find_spec hex, fun v hv => not_le.1 (Nat.find_min hex hv)⟩
  have hle : u ≤ rounds listLen numCells := by
    by_contra hlt
    have hlt := hmin (rounds listLen numCells) (by omega)
    rw [picked, List.length_take] at h
    omega
  refine ⟨u, ?_, fun v hv => ⟨?_, hmin v hv⟩⟩
  · cases u with
    | zero => simp [freeUpTo] at hu; omega
    | succ v =>
      have hv := hmin v (by omega)
      rw [freeUpTo_succ, List.length_append] at hu ⊢
      split at hu
      · next hf =>
        rw [if_pos hf]
        rw [List.length_singleton] at hu ⊢
        omega
      · rw [List.length_nil] at hu
        omega
  · unfold rounds at hle
    split at hle <;> omega

theorem gatherReply_some {fuel : Nat} {storage : Mem} {r : Message} (hmod : listLen % 4 = 0) (hpos : 0 < numCells)
    (h : gatherReply free list listLen numCells fuel storage = some (some r)) :
    (picked free list listLen numCells).length = numCells ∧
      r = ⟨overlay (Mem.fill 0 storageSize 0 storage) 0 (picked free list listLen numCells), 4 * numCells⟩ := by
  obtain ⟨g, hg, hr⟩ := Option.map_eq_some_iff.1 h
  obtain ⟨u, -, rfl, -, hgo⟩ := gather_spec free list listLen numCells (Mem.fill 0 storageSize 0 storage) fuel 0 g hg
  split at hr
  · next hlen =>
    have hpick := picked_of_stop hmod hpos hlen fun v hv => hgo v (Nat.zero_le v) hv
    cases hr
    rw [hpick]
    have hlen' : (freeUpTo free list u).length = numCells := hlen
    exact ⟨hlen, by rw [gatherState, hlen']⟩
  · cases hr

theorem gatherReply_sent (storage : Mem) (hpos : 0 < numCells)
    (h : (picked free list listLen numCells).length = numCells) :
    ∃ fuel r, gatherReply free list listLen numCells fuel storage = some (some r) := by
  obtain ⟨u, hlen, hgo⟩ := exists_stop hpos h
  have hstop : ¬ GoesOn free list listLen numCells u := fun hon => by
    have := hon.2
    omega
  have hend := gather_ends free list listLen numCells (Mem.fill 0 storageSize 0 storage) u hstop 0 (Nat.zero_le u)
    fun v _ hv => hgo v hv
  refine ⟨u - 0 + 1, ⟨(gatherState free list (Mem.fill 0 storageSize 0 storage) u).storage,
    4 * (freeUpTo free list u).length⟩, ?_⟩
  unfold gatherReply
  rw [show (⟨0, 0, Mem.fill 0 storageSize 0 storage, 0⟩ : Gather) =
    gatherState free list (Mem.fill 0 storageSize 0 storage) 0 from rfl, hend]
  exact congrArg some (if_pos hlen)

/-! ### The right response -/

def freeCells (free : UInt16 → Bool) (list : Mem) (listLen : Nat) : List Cell :=
  (cellsIn list listLen).filter fun c => free c.timeslotOffset

theorem freeUpTo_eq {t : Nat} (ht : t ≤ 64) (hle : t ≤ listLen / 4) : ∃ cs,
    freeCells free list listLen = freeUpTo free list t ++ cs ∧ (t = listLen / 4 → cs = []) := by
  obtain ⟨k, hk⟩ := Nat.exists_eq_add_of_le hle
  have hcells : (List.range t).map (fun k => readCell list (4 * k)) = (List.range t).map (cellAt list) := by
    refine List.map_congr_left fun k hk => ?_
    rw [cellAt, Nat.mod_eq_of_lt]
    have := List.mem_range.1 hk
    omega
  refine ⟨((List.range k).map fun j => readCell list (4 * (t + j))).filter fun c => free c.timeslotOffset, ?_, ?_⟩
  · rw [freeCells, cellsIn, hk, List.range_add, List.map_append, List.filter_append, hcells, List.map_map]
    rfl
  · intro he
    obtain rfl : k = 0 := by omega
    rfl

theorem picked_short (hshort : listLen < 256) :
    picked free list listLen numCells = (freeCells free list listLen).take numCells := by
  obtain ⟨cs, hcs, hnil⟩ := @freeUpTo_eq free list listLen (listLen / 4) (by omega) le_rfl
  rw [picked, rounds, if_pos hshort, hcs, hnil rfl, List.append_nil]

theorem picked_one (hmod : listLen % 4 = 0) (h : (picked free list listLen 1).length = 1) :
    picked free list listLen 1 = (freeCells free list listLen).take 1 := by
  by_cases hshort : listLen < 256
  · exact picked_short hshort
  · obtain ⟨cs, hcs, -⟩ := @freeUpTo_eq free list _ 64 le_rfl
      (show 64 ≤ listLen / 4 by omega)
    rw [picked, rounds, if_neg hshort, Nat.mul_one] at h ⊢
    rw [List.length_take] at h
    rw [hcs, List.take_append_of_le_length (by omega)]

/-- The response is sent for as many free cells as were asked for, and consists of the first of them, all of it in
`res_storage`. -/
def RightReply (wanted : List Cell) (numCells : Nat) (r : Message) : Prop :=
  numCells ≤ wanted.length ∧ r.len = 4 * numCells ∧ r.len ≤ storageSize ∧
    r.bytes = (wanted.take numCells).flatMap Cell.bytes

/-- The bytes of the cells `f`, one behind the other, are those of the cells `c`, each one byte behind the one before
it. -/
def Agree (c f : List Cell) : Prop := ∀ r < 4 * f.length, (f.flatMap Cell.bytes)[r]? = some (overlapByte c r)

/-- Cells whose bytes agree when they overlap: the first has a timeslot below 256 and channel 0, the others are (0, 0). -/
def Plain (f : List Cell) : Prop :=
  ∃ t cs, f = ⟨t, 0⟩ :: cs ∧ t < 256 ∧ ∀ c ∈ cs, c = ⟨0, 0⟩

/-- The request is one that the response is right for: for no cell, or for more than are free, so that no response is
sent; for one cell; or for up to five that agree when they overlap. -/
def Gathers (free : UInt16 → Bool) (list : Mem) (listLen numCells : Nat) : Prop :=
  0 < numCells → (picked free list listLen numCells).length = numCells → numCells = 1 ∨ numCells ≤ 5 ∧
    if listLen < 256 then Plain ((freeCells free list listLen).take numCells)
    else numCells ≤ (freeCells free list listLen).length ∧
      Agree (picked free list listLen numCells) ((freeCells free list listLen).take numCells)

end

theorem read_eq_iff {n : Nat} {m : Mem} {l : List UInt8} (hl : l.length = n) :
    Mem.read 0 n m = l ↔ ∀ r < n, l[r]? = some (m r) := by
  subst hl
  constructor
  · intro h r hr
    have hm := (@Mem.holds_read l.length 0 0 m m).2 fun i _ => rfl
    rw [h] at hm
    rw [List.getElem?_eq_getElem hr, ← Mem.holds_iff.1 hm r hr, Nat.zero_add]
  · intro h
    refine Mem.read_of_holds (Mem.holds_iff.2 fun r hr => ?_)
    have he := h r hr
    rw [List.getElem?_eq_getElem hr] at he
    rw [Nat.zero_add]
    exact (Option.some.inj he).symm

theorem overlay_bytes_iff {c f : List Cell} (hlen : c.length = f.length) (hfits : 4 * f.length ≤ storageSize)
    (storage : Mem) : Mem.read 0 (4 * f.length) (overlay (Mem.fill 0 storageSize 0 storage) 0 c) = f.flatMap Cell.bytes ↔
      Agree c f := by
  have hzero : ∀ x < storageSize, Mem.fill 0 storageSize 0 storage x = 0 := by
    intro x hx
    rw [Mem.fill, if_pos ⟨Nat.zero_le x, by omega⟩]
  rw [read_eq_iff (length_flatMap_bytes f)]
  refine forall₂_congr fun r hr => ?_
  rw [overlay_byte hzero c (by omega) r (by omega)]

theorem agree_one (c : Cell) : Agree [c] [c] := by
  intro r hr
  obtain rfl | rfl | rfl | rfl : r = 0 ∨ r = 1 ∨ r = 2 ∨ r = 3 := by
    simp at hr
    omega
  all_goals rfl

theorem agree_iff_eq {c f : List Cell} :
    Agree c f ↔ f.flatMap Cell.bytes = (List.range (4 * f.length)).map (overlapByte c) := by
  constructor
  · intro h
    apply List.ext_getElem?
    intro r
    by_cases hr : r < 4 * f.length
    · rw [h r hr]
      simp [hr]
    · rw [List.getElem?_eq_none (by rw [length_flatMap_bytes]; omega), List.getElem?_eq_none (by simp; omega)]
  · intro h r hr
    rw [h]
    simp [hr]

/-! ### Cells that agree with themselves -/

theorem ofNat_zero_iff (n : Nat) : UInt8.ofNat n = 0 ↔ n % 256 = 0 := by
  rw [← UInt8.toNat_inj]
  simp

theorem Cell.exists_bytes (c : Cell) : ∃ a b d e, c.bytes = [a, b, d, e] := ⟨_, _, _, _, rfl⟩

theorem Cell.zero_iff (c : Cell) {a b d e : UInt8} (h : c.bytes = [a, b, d, e]) :
    c = ⟨0, 0⟩ ↔ a = 0 ∧ b = 0 ∧ d = 0 ∧ e = 0 := by
  obtain ⟨t, ch⟩ := c
  simp only [Cell.bytes, List.cons.injEq, and_true] at h
  obtain ⟨rfl, rfl, rfl, rfl⟩ := h
  have ht := t.toNat_lt
  have hch := ch.toNat_lt
  have h0 : (0 : UInt16).toNat = 0 := rfl
  rw [Cell.mk.injEq, ← UInt16.toNat_inj, ← UInt16.toNat_inj]
  simp only [ofNat_zero_iff]
  omega

theorem Cell.plain_iff (c : Cell) {a b d e : UInt8} (h : c.bytes = [a, b, d, e]) :
    (∃ t : UInt16, c = ⟨t, 0⟩ ∧ t < 256) ↔ b = 0 ∧ d = 0 ∧ e = 0 := by
  obtain ⟨t, ch⟩ := c
  simp only [Cell.bytes, List.cons.injEq, and_true] at h
  obtain ⟨rfl, rfl, rfl, rfl⟩ := h
  have ht := t.toNat_lt
  have hch := ch.toNat_lt
  have h0 : (0 : UInt16).toNat = 0 := rfl
  have h256 : (256 : UInt16).toNat = 256 := rfl
  simp only [ofNat_zero_iff]
  constructor
  · rintro ⟨t', he, hlt⟩
    cases he
    rw [UInt16.lt_iff_toNat_lt] at hlt
    omega
  · rintro ⟨h₁, h₂, h₃⟩
    refine ⟨t, ?_, ?_⟩
    · rw [Cell.mk.injEq, ← UInt16.toNat_inj, ← UInt16.toNat_inj]
      omega
    · rw [UInt16.lt_iff_toNat_lt]
      omega

theorem plain_cons_iff {c : Cell} {cs : List Cell} :
    Plain (c :: cs) ↔ (∃ t : UInt16, c = ⟨t, 0⟩ ∧ t < 256) ∧ ∀ d ∈ cs, d = ⟨0, 0⟩ := by
  constructor
  · rintro ⟨t, cs', h, ht, hz⟩
    obtain ⟨rfl, rfl⟩ := List.cons.inj h
    exact ⟨⟨t, rfl, ht⟩, hz⟩
  · rintro ⟨⟨t, rfl, ht⟩, hz⟩
    exact ⟨t, cs, rfl, ht, hz⟩

/-- Two to five cells agree with themselves only where they are plain: the bytes behind the last of them are cleared,
so the cells from the last to the second are (0, 0), one after the other. -/
theorem agree_self_iff {f : List Cell} (h₂ : 2 ≤ f.length) (h₅ : f.length ≤ 5) : Agree f f ↔ Plain f := by
  rw [agree_iff_eq]
  rcases f with _ | ⟨c₀, _ | ⟨c₁, cs⟩⟩
  · simp at h₂
  · simp at h₂
  obtain ⟨a₀, b₀, d₀, e₀, h₀⟩ := c₀.exists_bytes
  obtain ⟨a₁, b₁, d₁, e₁, h₁⟩ := c₁.exists_bytes
  rw [plain_cons_iff, Cell.plain_iff c₀ h₀]
  rcases cs with _ | ⟨c₂, _ | ⟨c₃, _ | ⟨c₄, _ | ⟨c₅, cs⟩⟩⟩⟩
  · simp [List.range_succ, overlapByte, h₀, h₁, Cell.zero_iff c₁ h₁]
    grind
  · obtain ⟨a₂, b₂, d₂, e₂, h₂⟩ := c₂.exists_bytes
    simp [List.range_succ, overlapByte, h₀, h₁, h₂, Cell.zero_iff c₁ h₁, Cell.zero_iff c₂ h₂]
    grind
  · obtain ⟨a₂, b₂, d₂, e₂, h₂⟩ := c₂.exists_bytes
    obtain ⟨a₃, b₃, d₃, e₃, h₃⟩ := c₃.exists_bytes
    simp [List.range_succ, overlapByte, h₀, h₁, h₂, h₃, Cell.zero_iff c₁ h₁, Cell.zero_iff c₂ h₂, Cell.zero_iff c₃ h₃]
    grind
  · obtain ⟨a₂, b₂, d₂, e₂, h₂⟩ := c₂.exists_bytes
    obtain ⟨a₃, b₃, d₃, e₃, h₃⟩ := c₃.exists_bytes
    obtain ⟨a₄, b₄, d₄, e₄, h₄⟩ := c₄.exists_bytes
    simp [List.range_succ, overlapByte, h₀, h₁, h₂, h₃, h₄, Cell.zero_iff c₁ h₁, Cell.zero_iff c₂ h₂, Cell.zero_iff c₃ h₃,
      Cell.zero_iff c₄ h₄]
    grind
  · simp at h₅
    omega

/-! ## The response -/

section

variable {free : UInt16 → Bool} {list : Mem} {listLen numCells : Nat}

theorem gathers_agree (hmod : listLen % 4 = 0) (hpos : 0 < numCells) (h : Gathers free list listLen numCells)
    (hpick : (picked free list listLen numCells).length = numCells) :
    numCells ≤ (freeCells free list listLen).length ∧ numCells ≤ 5 ∧
      Agree (picked free list listLen numCells) ((freeCells free list listLen).take numCells) := by
  rcases h hpos hpick with rfl | ⟨hfive, h⟩
  · have hone := picked_one hmod hpick
    rw [hone] at hpick ⊢
    refine ⟨by rw [List.length_take] at hpick; omega, by omega, ?_⟩
    obtain ⟨c, hc⟩ := List.length_eq_one_iff.1 hpick
    rw [hc]
    exact agree_one c
  · split at h
    · next hshort =>
      rw [picked_short hshort] at hpick ⊢
      refine ⟨by rw [List.length_take] at hpick; omega, hfive, ?_⟩
      by_cases hone : numCells = 1
      · rw [hone] at hpick ⊢
        obtain ⟨c, hc⟩ := List.length_eq_one_iff.1 hpick
        rw [hc]
        exact agree_one c
      · exact (agree_self_iff (by omega) (by omega)).2 h
    · exact ⟨h.1, hfive, h.2⟩

/-- The response to a request for at least one cell is right exactly when the request is one of those described. -/
theorem gatherReply_right_iff (storage : Mem) (hmod : listLen % 4 = 0) (hpos : 0 < numCells) :
    (∀ fuel r, gatherReply free list listLen numCells fuel storage = some (some r) →
      RightReply (freeCells free list listLen) numCells r) ↔ Gathers free list listLen numCells := by
  have hsize : storageSize = 20 := rfl
  by_cases hpick : (picked free list listLen numCells).length = numCells
  · have hlen : numCells ≤ (freeCells free list listLen).length →
        ((freeCells free list listLen).take numCells).length = numCells := by
      intro hle
      rw [List.length_take]
      omega
    constructor
    · intro h _ _
      obtain ⟨fuel, r, hr⟩ := gatherReply_sent storage hpos hpick
      obtain ⟨-, rfl⟩ := gatherReply_some hmod hpos hr
      obtain ⟨hle, -, hfits, hbytes⟩ := h fuel _ hr
      have hfits : 4 * numCells ≤ storageSize := hfits
      have hagree : Agree (picked free list listLen numCells) ((freeCells free list listLen).take numCells) := by
        rw [← overlay_bytes_iff (by rw [hpick, hlen hle]) (by rw [hlen hle]; exact hfits) storage, hlen hle]
        exact hbytes
      by_cases hone : numCells = 1
      · exact Or.inl hone
      · refine Or.inr ⟨by omega, ?_⟩
        split
        · next hshort =>
          rw [picked_short hshort] at hagree hpick
          exact (agree_self_iff (by omega) (by omega)).1 hagree
        · exact ⟨hle, hagree⟩
    · intro h fuel r hr
      obtain ⟨-, rfl⟩ := gatherReply_some hmod hpos hr
      obtain ⟨hle, hfive, hagree⟩ := gathers_agree hmod hpos h hpick
      refine ⟨hle, rfl, by dsimp only; omega, ?_⟩
      have hbytes := (overlay_bytes_iff (by rw [hpick, hlen hle]) (by rw [hlen hle]; omega) storage).2 hagree
      rw [hlen hle] at hbytes
      exact hbytes
  · refine iff_of_true (fun fuel r hr => absurd (gatherReply_some hmod hpos hr).1 hpick) ?_
    exact fun _ h => absurd h hpick

end

/-! ## The handlers -/

/-- The handlers that answer with free cells of a list. -/
inductive Handler
  | add | relocate

def numCellsOf (body : List UInt8) : Nat := (body.getD 3 0).toNat

namespace Handler

@[grind =]
def cmd : Handler → PktCode
  | add => Cmd.add
  | relocate => Cmd.relocate

/-- Where the list begins: in a RELOCATE request it stands behind the cells to relocate. -/
def listStart (body : List UInt8) : Handler → Nat
  | add => 4
  | relocate => 4 + 4 * numCellsOf body

def list (h : Handler) (body : List UInt8) : Mem := fun i => memOf body (h.listStart body + i)

def listLen (h : Handler) (body : List UInt8) : Nat := body.length - h.listStart body

variable {A : Type}

/-- The response that is handed to `sixp_output`, if there is one. -/
def response (s : Schedule A) (storage : Mem) (body : List UInt8) (fuel : Nat) : Handler → Option (Option Message)
  | add => addReqInput s storage body fuel
  | relocate => (relocateReqInput s storage body fuel).map fun r => r.map Prod.fst

/-- Whenever a response is sent, it is the right one. -/
def Right (h : Handler) (s : Schedule A) (storage : Mem) (body : List UInt8) : Prop :=
  ∀ fuel r, h.response s storage body fuel = some (some r) →
    ∃ sf, tschScheduleGetSlotframeByHandle s slotframeHandle = some sf ∧
      RightReply (freeCells (freeSlot s sf) (h.list body) (h.listLen body)) (numCellsOf body) r

/-- The request is one that the handler answers rightly, if there is a slotframe. -/
def Gathers (h : Handler) (s : Schedule A) (body : List UInt8) : Prop :=
  ∀ sf, tschScheduleGetSlotframeByHandle s slotframeHandle = some sf →
    SfSimple.Gathers (freeSlot s sf) (h.list body) (h.listLen body) (numCellsOf body)

end Handler

section

variable {A : Type} {s : Schedule A} {storage : Mem} {body : List UInt8}

theorem getNumCells_request {cmd : PktCode} (hcmd : cmd = Cmd.add ∨ cmd = Cmd.delete ∨ cmd = Cmd.relocate)
    (hlen : 4 ≤ body.length) :
    (Body.sixpPktGetNumCells .request cmd (some 0) (some (memOf body)) body.length).ok = true ∧
      (Body.sixpPktGetNumCells .request cmd (some 0) (some (memOf body)) body.length).out = some (body.getD 3 0) := by
  have hoff : getNumCellsOffset .request cmd = some 3 := by
    rcases hcmd with rfl | rfl | rfl <;> rfl
  simp only [Body.sixpPktGetNumCells, Body.getField, hoff]
  rw [if_neg (by omega)]
  refine ⟨rfl, ?_⟩
  simp [Body.takeField, Mem.load, memOf]

theorem getCellList_request {cmd : PktCode} (hcmd : cmd = Cmd.add ∨ cmd = Cmd.delete) (hlen : 4 ≤ body.length)
    (hmod : body.length % 4 = 0) :
    (Body.sixpPktGetCellList .request cmd listVars (some (memOf body)) body.length).ok = true ∧
      (Body.sixpPktGetCellList .request cmd listVars (some (memOf body)) body.length).out =
        ⟨some 4, some (body.length - 4)⟩ := by
  have hoff : getCellListOffset .request cmd = some 4 := by
    rcases hcmd with rfl | rfl <;> rfl
  simp only [Body.sixpPktGetCellList, listVars, hoff]
  rw [if_neg (by omega), if_neg (by omega)]
  exact ⟨rfl, rfl⟩

theorem getLists_request (hlen : 4 ≤ body.length) (hmod : body.length % 4 = 0)
    (hfits : 4 + 4 * numCellsOf body ≤ body.length) :
    ((Body.sixpPktGetRelCellList .request Cmd.relocate listVars (some (memOf body)) body.length).ok = true ∧
      (Body.sixpPktGetRelCellList .request Cmd.relocate listVars (some (memOf body)) body.length).out =
        ⟨some 4, some (4 * numCellsOf body)⟩) ∧
    (Body.sixpPktGetCandCellList .request Cmd.relocate listVars (some (memOf body)) body.length).ok = true ∧
      (Body.sixpPktGetCandCellList .request Cmd.relocate listVars (some (memOf body)) body.length).out =
        ⟨some (4 + 4 * numCellsOf body), some (body.length - (4 + 4 * numCellsOf body))⟩ := by
  obtain ⟨hok, hout⟩ := @getNumCells_request body _ (Or.inr (Or.inr rfl)) hlen
  have hoff : getRelCellListOffset .request Cmd.relocate = some 4 := rfl
  have hnum : (body.getD 3 0).toNat * 4 = 4 * numCellsOf body := Nat.mul_comm _ _
  simp only [Body.sixpPktGetRelCellList, Body.sixpPktGetCandCellList, Body.withNumCells, listVars, hok, hout, hoff, hnum]
  rw [if_neg (by omega), if_neg (by omega), if_neg (by omega), if_neg (by omega)]
  exact ⟨⟨rfl, rfl⟩, rfl, rfl⟩

theorem getRelCellList_request_fail (hlen : 4 ≤ body.length) (hfits : body.length < 4 + 4 * numCellsOf body) :
    (Body.sixpPktGetRelCellList .request Cmd.relocate listVars (some (memOf body)) body.length).ok = false := by
  obtain ⟨hok, hout⟩ := @getNumCells_request body _ (Or.inr (Or.inr rfl)) hlen
  have hoff : getRelCellListOffset .request Cmd.relocate = some 4 := rfl
  have hnum : (body.getD 3 0).toNat * 4 = 4 * numCellsOf body := Nat.mul_comm _ _
  simp only [Body.sixpPktGetRelCellList, Body.withNumCells, listVars, hok, hout, hoff, hnum]
  rw [if_pos hfits]
  rfl

theorem Handler.response_eq (h : Handler) (hlen : 4 ≤ body.length) (hmod : body.length % 4 = 0) {sf : Nat}
    (hsf : tschScheduleGetSlotframeByHandle s slotframeHandle = some sf) (fuel : Nat) :
    h.response s storage body fuel = if 0 < numCellsOf body ∧ 0 < h.listLen body then
      gatherReply (freeSlot s sf) (h.list body) (h.listLen body) (numCellsOf body) fuel storage else some none := by
  have hpos : 0 < body.getD 3 0 ↔ 0 < numCellsOf body := UInt8.lt_iff_toNat_lt
  cases h with
  | add =>
    obtain ⟨hnum, hnumOut⟩ := @getNumCells_request body _ (Or.inl rfl) hlen
    obtain ⟨hlist, hlistOut⟩ := @getCellList_request body _ (Or.inl rfl) hlen hmod
    simp only [response, addReqInput, hnum, hnumOut, hlist, hlistOut, hsf, hpos]
    rfl
  | relocate =>
    obtain ⟨hnum, hnumOut⟩ := @getNumCells_request body _ (Or.inr (Or.inr rfl)) hlen
    by_cases hfits : 4 + 4 * numCellsOf body ≤ body.length
    · obtain ⟨⟨hrel, hrelOut⟩, hcand, hcandOut⟩ := getLists_request hlen hmod hfits
      simp only [response, relocateReqInput, hnum, hnumOut, hrel, hrelOut, hcand, hcandOut, hsf, hpos]
      by_cases hask : 0 < numCellsOf body ∧ 0 < listLen .relocate body
      · rw [if_pos ⟨hask.1, by omega, hask.2⟩, if_pos hask]
        have hfst : ∀ (o : Option (Option Message)) (c : Cell),
            (o.map fun r => r.map fun r => (r, c)).map (fun r => r.map Prod.fst) = o := by
          rintro (_ | _ | r) c <;> rfl
        exact hfst _ _
      · rw [if_neg (fun hon => hask ⟨hon.1, hon.2.2⟩), if_neg hask]
        rfl
    · have hrel := @getRelCellList_request_fail body hlen (by omega)
      have hnone : ¬ (0 < numCellsOf body ∧ 0 < listLen .relocate body) := by
        simp only [listLen, listStart]
        omega
      simp only [response, relocateReqInput, hnum, hnumOut, hrel]
      rw [if_neg hnone]
      rfl

theorem Handler.response_without_slotframe (h : Handler)
    (hsf : tschScheduleGetSlotframeByHandle s slotframeHandle = none) (fuel : Nat) (r : Message) :
    h.response s storage body fuel ≠ some (some r) := by
  intro hr
  cases h with
  | add =>
    simp only [response, addReqInput, hsf] at hr
    split at hr <;> cases hr
  | relocate =>
    simp only [response, relocateReqInput, hsf] at hr
    split at hr <;> cases hr

theorem bodyLen_request {bytes : List UInt8} {cmd : PktCode} {v sfid seqno : UInt8}
    (hcmd : cmd = Cmd.add ∨ cmd = Cmd.delete ∨ cmd = Cmd.relocate)
    (hparse : sixpPktParse bytes = (true, ⟨v, .request, cmd, sfid, seqno, some body⟩)) :
    4 ≤ body.length ∧ body.length % 4 = 0 := by
  unfold sixpPktParse at hparse
  split at hparse
  · next b0 b1 b2 b3 rest =>
    dsimp only at hparse
    split at hparse
    · cases hparse
    · split at hparse
      · next hlen =>
        simp only [Prod.mk.injEq, true_and, Pkt.mk.injEq, Option.some.injEq] at hparse
        obtain ⟨-, htype, rfl, -, -, rfl⟩ := hparse
        rw [htype] at hlen
        rcases hcmd with rfl | rfl | rfl <;>
          simpa [bodyLenOk, requestLenOk, Cmd.add, Cmd.delete, Cmd.relocate] using hlen
      · cases hparse
  · cases hparse

theorem Handler.cmd_request (h : Handler) : h.cmd = Cmd.add ∨ h.cmd = Cmd.delete ∨ h.cmd = Cmd.relocate := by
  cases h with
  | add => exact Or.inl rfl
  | relocate => exact Or.inr (Or.inr rfl)

/-! ## Right responses -/

/-- For every ADD or RELOCATE request that the parser accepts, every schedule and whatever `res_storage` held: the
response is sent only for as many free cells of the list as were asked for, and consists of the first of them within
`res_storage`, exactly when the request is one of those described. -/
theorem handler_right_iff (h : Handler) (s : Schedule A) (storage : Mem) {bytes body : List UInt8} {v sfid seqno : UInt8}
    (hparse : sixpPktParse bytes = (true, ⟨v, .request, h.cmd, sfid, seqno, some body⟩)) :
    h.Right s storage body ↔ h.Gathers s body := by
  obtain ⟨hlen, hmod⟩ := bodyLen_request h.cmd_request hparse
  have hlist : h.listLen body % 4 = 0 := by
    cases h <;> simp only [Handler.listLen, Handler.listStart] <;> omega
  cases hsf : tschScheduleGetSlotframeByHandle s slotframeHandle with
  | none =>
    refine iff_of_true (fun fuel r hr => absurd hr (h.response_without_slotframe hsf fuel r)) ?_
    intro sf hsome
    rw [hsf] at hsome
    cases hsome
  | some sf =>
    have hone : h.Gathers s body ↔
        Gathers (freeSlot s sf) (h.list body) (h.listLen body) (numCellsOf body) := by
      constructor
      · exact fun hg => hg sf hsf
      · intro hg sf' hsf'
        obtain rfl := Option.some.inj (hsf.symm.trans hsf')
        exact hg
    rw [hone]
    by_cases hpos : 0 < numCellsOf body
    · rw [← gatherReply_right_iff storage hlist hpos]
      by_cases hask : 0 < h.listLen body
      · have hresp : ∀ fuel, h.response s storage body fuel = gatherReply (freeSlot s sf) (h.list body) (h.listLen body)
            (numCellsOf body) fuel storage := fun fuel => (h.response_eq hlen hmod hsf fuel).trans (if_pos ⟨hpos, hask⟩)
        constructor
        · intro hr fuel r hsent
          obtain ⟨sf', hsf', hright⟩ := hr fuel r ((hresp fuel).trans hsent)
          obtain rfl := Option.some.inj (hsf.symm.trans hsf')
          exact hright
        · intro hr fuel r hsent
          exact ⟨sf, hsf, hr fuel r ((hresp fuel).symm.trans hsent)⟩
      · -- an empty list: no handler sends, and the loop would find nothing
        refine iff_of_true (fun fuel r hr => ?_) fun fuel r hr => ?_
        · rw [h.response_eq hlen hmod hsf, if_neg fun hon => hask hon.2] at hr
          cases hr
        · have hpick := (gatherReply_some hlist hpos hr).1
          have hnil : picked (freeSlot s sf) (h.list body) (h.listLen body) (numCellsOf body) = [] := by
            rw [picked_short (by omega), freeCells, cellsIn, show h.listLen body / 4 = 0 by omega]
            exact List.take_nil
          rw [hnil, List.length_nil] at hpick
          omega
    · refine iff_of_true (fun fuel r hr => ?_) fun h => absurd h hpos
      rw [h.response_eq hlen hmod hsf, if_neg fun hon => hpos hon.1] at hr
      cases hr

def emptySchedule : Schedule Unit where
  linkMemb := .init 4
  link := fun _ => ⟨0, (), 0, 0, 0, 0, .normal⟩
  slotframeMemb := ⟨1, fun _ => true⟩
  slotframe := fun _ => ⟨0, 101, []⟩
  slotframeList := [0]
  currentLinkHandle := 0

/-- A request for one cell is answered rightly. -/
theorem handler_right_one : Handler.add.Right emptySchedule (fun _ => 0xff) [0, 0, 1, 1, 20, 0, 1, 0] := by
  have hparse : sixpPktParse [0x00, 0x01, 0xf0, 0x00, 0, 0, 1, 1, 20, 0, 1, 0] =
      (true, ⟨0, .request, Handler.add.cmd, 0xf0, 0, some [0, 0, 1, 1, 20, 0, 1, 0]⟩) := rfl
  exact (handler_right_iff Handler.add emptySchedule (fun _ => 0xff) hparse).2 fun sf _ _ _ => Or.inl rfl

/-- A request for two cells, (20, 1) and (21, 1), is answered with (0x1514, 0x0100) and (0, 0). -/
theorem two_cells_overlap : ¬ Handler.add.Right emptySchedule (fun _ => 0) [0, 0, 1, 2, 20, 0, 1, 0, 21, 0, 1, 0] := by
  intro h
  obtain ⟨sf, hsf, hright⟩ := h 3 _ rfl
  have hzero : tschScheduleGetSlotframeByHandle emptySchedule slotframeHandle = some 0 := rfl
  obtain rfl := Option.some.inj (hzero.symm.trans hsf)
  exact absurd hright.2.2.2 (by decide)

end

end Contiki.SfSimple

/-
The requests that sf_simple_add_links and sf_simple_relocate_links build: what the receiver decodes from them.
-/
import Contiki.SfSimple.Model

namespace Contiki.SfSimple

open Contiki.Lib Contiki.Sixtop

/-! ## Builders and decoders -/

inductive Build
  | add (numLinks : UInt8)
  | relocate (numLinks : UInt8) (cell : Cell)

def Build.numLinks : Build → UInt8
  | add n | relocate n _ => n

/-- What the builder hands to `sixp_output`. -/
def Build.request (candidates : Nat → Cell) (storage : Mem) : Build → Option Message
  | add n => sfSimpleAddLinks candidates n storage
  | relocate n cell => sfSimpleRelocateLinks candidates n cell storage

/-- The first `k` candidates. -/
def chosen (candidates : Nat → Cell) (k : Nat) : List UInt8 := ((List.range k).map candidates).flatMap Cell.bytes

/-- The RelCellList that the receiver decodes begins with the cell. -/
def RelocatesFirst (r : Message) (cell : Cell) : Prop :=
  ∃ start len, (Body.sixpPktGetRelCellList .request Cmd.relocate listVars (some r.mem) r.len).ok = true ∧
    (Body.sixpPktGetRelCellList .request Cmd.relocate listVars (some r.mem) r.len).out = ⟨some start, some len⟩ ∧
    4 ≤ len ∧ readCell r.mem start = cell

/-- The receiver decodes from the request what the builder was asked for. -/
def Build.Decodes (candidates : Nat → Cell) (r : Message) : Build → Prop
  | add n =>
    (FieldValue.numCells n).Delivered .request Cmd.add r.mem r.len ∧
      (FieldValue.cellList (chosen candidates 4)).Delivered .request Cmd.add r.mem r.len
  | relocate n cell =>
    (FieldValue.numCells n).Delivered .request Cmd.relocate r.mem r.len ∧ RelocatesFirst r cell ∧
      (FieldValue.candCellList (chosen candidates 3)).Delivered .request Cmd.relocate r.mem r.len

/-- Whatever is sent is decoded as what the builder was asked for. -/
def Build.Right (candidates : Nat → Cell) (storage : Mem) (b : Build) : Prop :=
  ∀ r, b.request candidates storage = some r → b.Decodes candidates r

/-- The builder relocates one cell, or adds any number. -/
def Build.OneRelocated : Build → Prop
  | add _ => True
  | relocate n _ => n = 1

/-! ## Adding -/

theorem length_chosen (candidates : Nat → Cell) (k : Nat) : (chosen candidates k).length = 4 * k := by
  rw [chosen, length_flatMap_bytes, List.length_map, List.length_range]

theorem writeFields_cons_some {type : PktType} {code : PktCode} {len : Nat} {v : FieldValue} {vs : List FieldValue}
    {m m' : Mem} (h : writeFields type code len (v :: vs) m = some m') :
    (v.set type code (some m) len).ok = true ∧ ∃ m₁, (v.set type code (some m) len).body = some m₁ ∧
      writeFields type code len vs m₁ = some m' := by
  rw [writeFields] at h
  split at h
  · next hok => exact ⟨hok, Option.bind_eq_some_iff.1 h⟩
  · cases h

def addFields (candidates : Nat → Cell) (n : UInt8) : List FieldValue :=
  [.cellOptions 1, .numCells n, .cellList (chosen candidates 4)]

def relocateFields (candidates : Nat → Cell) (cell : Cell) : List FieldValue :=
  [.cellOptions 1, .numCells 1, .relCellList cell.bytes, .candCellList (chosen candidates 3)]

attribute [local simp] Placed Sixtop.Apart FieldValue.place FieldValue.Formed FieldValue.Ends FieldValue.size
  getCellOptionsOffset getNumCellsOffset getCellListOffset getRelCellListOffset length_chosen Cell.length_bytes

theorem addFields_written (candidates : Nat → Cell) (n : UInt8) (m : Mem) :
    ∃ m', writeFields .request Cmd.add storageSize (addFields candidates n) m = some m' ∧
      ∀ w ∈ addFields candidates n, w.Delivered .request Cmd.add m' storageSize := by
  have hplaced : ∀ v ∈ addFields candidates n, Placed .request Cmd.add n storageSize v := by
    simp [addFields, storageSize, sfSimpleMaxLinks]
  have hapart : (addFields candidates n).Pairwise (Apart .request Cmd.add n) := by
    simp [addFields]
  have hfirst : NumCellsFirst n (addFields candidates n) := by
    intro pre post l h
    have hmem : .relCellList l ∈ addFields candidates n ∨ .candCellList l ∈ addFields candidates n := by
      rcases h with h | h
      · exact Or.inl (by rw [h]; simp)
      · exact Or.inr (by rw [h]; simp)
    simp [addFields] at hmem
  obtain ⟨m', hw, hst⟩ := writeFields_stored hplaced hapart hfirst le_rfl m _ [] (List.append_nil _).symm
  exact ⟨m', hw, hst.delivered (List.append_nil _).symm hplaced hfirst⟩

theorem relocateFields_written (candidates : Nat → Cell) (cell : Cell) (m : Mem) :
    ∃ m', writeFields .request Cmd.relocate storageSize (relocateFields candidates cell) m = some m' ∧
      ∀ w ∈ relocateFields candidates cell, w.Delivered .request Cmd.relocate m' storageSize := by
  have hplaced : ∀ v ∈ relocateFields candidates cell, Placed .request Cmd.relocate 1 storageSize v := by
    simp [relocateFields, storageSize, sfSimpleMaxLinks]
  have hapart : (relocateFields candidates cell).Pairwise (Apart .request Cmd.relocate 1) := by
    simp [relocateFields]
  have hfirst : NumCellsFirst 1 (relocateFields candidates cell) := by
    intro pre post l h
    rcases pre with _ | ⟨u, _ | ⟨v, pre⟩⟩
    · simp [relocateFields] at h
    · simp [relocateFields] at h
    · have hv : .numCells 1 = v := by
        rcases h with h | h
        · exact (List.cons.inj (List.cons.inj h).2).1
        · exact (List.cons.inj (List.cons.inj h).2).1
      simp [hv]
  obtain ⟨m', hw, hst⟩ := writeFields_stored hplaced hapart hfirst le_rfl m _ [] (List.append_nil _).symm
  exact ⟨m', hw, hst.delivered (List.append_nil _).symm hplaced hfirst⟩

theorem sfSimpleAddLinks_spec (candidates : Nat → Cell) (n : UInt8) (storage : Mem) :
    ∃ m', sfSimpleAddLinks candidates n storage = some ⟨m', storageSize⟩ ∧
      ∀ w ∈ addFields candidates n, w.Delivered .request Cmd.add m' storageSize := by
  obtain ⟨m', hw, hdel⟩ := addFields_written candidates n (Mem.fill 0 storageSize 0 storage)
  refine ⟨m', ?_, hdel⟩
  obtain ⟨hok₁, m₁, hb₁, hw⟩ := writeFields_cons_some hw
  obtain ⟨hok₂, m₂, hb₂, hw⟩ := writeFields_cons_some hw
  obtain ⟨hok₃, m₃, hb₃, hw⟩ := writeFields_cons_some hw
  cases hw
  simp only [FieldValue.set, length_chosen] at hok₁ hb₁ hok₂ hb₂ hok₃ hb₃
  unfold sfSimpleAddLinks
  simp only [hb₁, hb₂]
  rw [if_pos ⟨hok₁, hok₂, hok₃⟩]
  exact congrArg (Option.map _) hb₃

theorem setCandCellList_congr {type : PktType} {code : PktCode} {len k : Nat} {list list' : Mem} {body : Option Mem}
    (h : ∀ i < k, list i = list' i) : Body.sixpPktSetCandCellList type code (some list) k 0 body len =
      Body.sixpPktSetCandCellList type code (some list') k 0 body len := by
  have hpaste : ∀ (o : Nat) (m : Mem), Mem.paste o k list m = Mem.paste o k list' m := by
    intro o m
    funext x
    by_cases hx : o ≤ x ∧ x < o + k
    · rw [Mem.paste_in hx.1 hx.2, Mem.paste_in hx.1 hx.2]
      exact h _ (by omega)
    · rw [Mem.paste_of_out (by omega), Mem.paste_of_out (by omega)]
  unfold Body.sixpPktSetCandCellList
  cases body with
  | none => rfl
  | some m => simp only [Body.setList, Body.copyList, hpaste]

theorem memOf_chosen (candidates : Nat → Cell) {i : Nat} (hi : i < 12) :
    memOf (chosen candidates 4) i = memOf (chosen candidates 3) i := by
  have h : chosen candidates 4 = chosen candidates 3 ++ (candidates 3).bytes := by
    simp [chosen, List.range_succ]
  have hlt : i < (chosen candidates 3).length := by
    rw [length_chosen]
    exact hi
  rw [h, memOf, memOf, List.getD_eq_getElem?_getD, List.getD_eq_getElem?_getD, List.getElem?_append_left hlt]

theorem sfSimpleRelocateLinks_spec (candidates : Nat → Cell) (cell : Cell) (storage : Mem) :
    ∃ m', sfSimpleRelocateLinks candidates 1 cell storage = some ⟨m', storageSize⟩ ∧
      ∀ w ∈ relocateFields candidates cell, w.Delivered .request Cmd.relocate m' storageSize := by
  obtain ⟨m', hw, hdel⟩ := relocateFields_written candidates cell (Mem.fill 0 storageSize 0 storage)
  refine ⟨m', ?_, hdel⟩
  obtain ⟨-, m₁, hb₁, hw⟩ := writeFields_cons_some hw
  obtain ⟨-, m₂, hb₂, hw⟩ := writeFields_cons_some hw
  obtain ⟨-, m₃, hb₃, hw⟩ := writeFields_cons_some hw
  obtain ⟨-, m₄, hb₄, hw⟩ := writeFields_cons_some hw
  cases hw
  simp only [FieldValue.set, length_chosen, Cell.length_bytes] at hb₁ hb₂ hb₃ hb₄
  unfold sfSimpleRelocateLinks
  simp only [hb₁, hb₂, hb₃]
  have hpre := @setCandCellList_congr .request Cmd.relocate storageSize 12 _ _ (some m₃)
    fun i hi => memOf_chosen candidates hi
  exact congrArg (Option.map _) ((congrArg Res.body hpre).trans hb₄)

/-! ## More than one cell to relocate -/

/-- A RELOCATE request of the builder's size has room for three candidates only behind one cell to relocate. -/
theorem one_of_candidates {n : UInt8} {m : Mem} {l : List UInt8} (hl : l.length = 12)
    (hnum : (FieldValue.numCells n).Delivered .request Cmd.relocate m storageSize)
    (hcand : (FieldValue.candCellList l).Delivered .request Cmd.relocate m storageSize) : n = 1 := by
  have hn : m 3 = n := by
    obtain ⟨-, hout⟩ := hnum 0
    have hbyte : some (UInt8.ofNat (Mem.load 1 3 m)) = some n := hout
    rw [Mem.byte_load_one] at hbyte
    exact Option.some.inj hbyte
  obtain ⟨hok, p, hout, -⟩ := hcand 0 0
  simp only [Body.sixpPktGetCandCellList,
    (FieldValue.withNumCells_eq (show getRelCellListOffset .request Cmd.relocate = some 4 from rfl) hn
      (show 4 ≤ storageSize by decide)).2] at hok hout
  split at hok
  · cases hok
  · next hlt =>
    split at hok
    · cases hok
    · next hmod =>
      rw [if_neg hlt, if_neg hmod, hl] at hout
      have hlen : storageSize - (4 + n.toNat * 4) = 12 := Option.some.inj (Body.ListOut.mk.inj hout).2
      have hsize : storageSize = 20 := rfl
      exact UInt8.toNat.inj (show n.toNat = (1 : UInt8).toNat by rw [show (1 : UInt8).toNat = 1 from rfl]; omega)

theorem setField_body (offset : Option Nat) (size v : Nat) (m : Mem) (len : Nat) :
    (Body.setField offset size v (some m) len).body.isSome := by
  unfold Body.setField
  cases offset with
  | none => rfl
  | some o =>
    dsimp only
    split <;> rfl

theorem copyList_body (o : Nat) (list : Mem) (k : Nat) (m : Mem) : (Body.copyList o list k m).body.isSome := by
  unfold Body.copyList
  split <;> rfl

theorem withNumCells_body {α : Type} {type : PktType} {code : PktCode} {out : α} {m : Mem} {len : Nat}
    {k : Nat → Nat → Res α} (hk : ∀ n o, (k n o).body.isSome) :
    (Body.withNumCells type code out (some m) len k).body.isSome := by
  rcases Body.withNumCells_cases type code m len out k with ⟨_, _, he, _⟩ | ⟨_, _, he⟩
  · rw [he]
    rfl
  · rw [he]
    exact hk _ _

theorem sfSimpleRelocateLinks_sent (candidates : Nat → Cell) (n : UInt8) (cell : Cell) (storage : Mem) :
    ∃ m', sfSimpleRelocateLinks candidates n cell storage = some ⟨m', storageSize⟩ := by
  unfold sfSimpleRelocateLinks
  obtain ⟨m₁, h₁⟩ := Option.isSome_iff_exists.1
    (setField_body (getCellOptionsOffset .request Cmd.relocate) 1 1 (Mem.fill 0 storageSize 0 storage) storageSize)
  obtain ⟨m₂, h₂⟩ : ∃ m₂, (Body.sixpPktSetNumCells .request Cmd.relocate n (some m₁) storageSize).body = some m₂ :=
    ⟨_, rfl⟩
  have hrel : (Body.sixpPktSetRelCellList .request Cmd.relocate (some (memOf cell.bytes)) 4 0 (some m₂)
      storageSize).body.isSome := by
    apply withNumCells_body
    intro k o
    dsimp only
    split
    · rfl
    · split
      · rfl
      · exact copyList_body _ _ _ _
  obtain ⟨m₃, h₃⟩ := Option.isSome_iff_exists.1 hrel
  have hcand : (Body.sixpPktSetCandCellList .request Cmd.relocate
      (some (memOf ((getCandidateAdd candidates).flatMap Cell.bytes))) (3 * 4) 0 (some m₃) storageSize).body.isSome := by
    apply withNumCells_body
    intro k o
    dsimp only [Body.setList]
    split
    · rfl
    · exact copyList_body _ _ _ _
  obtain ⟨m₄, h₄⟩ := Option.isSome_iff_exists.1 hcand
  refine ⟨m₄, ?_⟩
  simp only [Body.sixpPktSetCellOptions, show (1 : UInt8).toNat = 1 from rfl, h₁, h₂, h₃, h₄]
  rfl

/-! ## The requests -/

theorem relocate_right_one {candidates : Nat → Cell} {storage : Mem} {n : UInt8} {cell : Cell}
    (h : (Build.relocate n cell).Right candidates storage) : n = 1 := by
  obtain ⟨m', hreq⟩ := sfSimpleRelocateLinks_sent candidates n cell storage
  obtain ⟨hnum, -, hcand⟩ := h _ hreq
  exact one_of_candidates (length_chosen candidates 3) hnum hcand

/-- For every candidate list, every cell to relocate and every number of links from 1 on: what the receiver decodes
from the request is what the builder was asked for exactly when the request adds links or relocates one. -/
theorem builder_right_iff (candidates : Nat → Cell) (storage : Mem) (b : Build) (_hn : 1 ≤ b.numLinks) :
    b.Right candidates storage ↔ b.OneRelocated := by
  cases b with
  | add n =>
    refine iff_of_true (fun r hr => ?_) trivial
    obtain ⟨m', hreq, hdel⟩ := sfSimpleAddLinks_spec candidates n storage
    rw [show (Build.add n).request candidates storage = _ from hreq] at hr
    cases hr
    exact ⟨hdel _ (by simp [addFields]), hdel _ (by simp [addFields])⟩
  | relocate n cell =>
    constructor
    · exact relocate_right_one
    · rintro rfl r hr
      obtain ⟨m', hreq, hdel⟩ := sfSimpleRelocateLinks_spec candidates cell storage
      rw [show (Build.relocate 1 cell).request candidates storage = _ from hreq] at hr
      cases hr
      refine ⟨hdel _ (by simp [relocateFields]), ?_, hdel _ (by simp [relocateFields])⟩
      obtain ⟨hok, p, hout, hread⟩ := hdel (.relCellList cell.bytes) (by simp [relocateFields]) 0 0
      exact ⟨p, 4, hok, hout, le_rfl, readCell_of_read hread⟩

/-- A RELOCATE request for one cell is decoded as it was built. -/
theorem builder_right_one : (Build.relocate 1 ⟨7, 2⟩).Right (fun k => ⟨k.toUInt16 + 20, 1⟩) (fun _ => 0) :=
  (builder_right_iff _ _ _ (by decide)).2 rfl

/-- A RELOCATE request for two cells is sent without its candidates. -/
theorem two_relocated_without_candidates :
    ¬ (Build.relocate 2 ⟨7, 2⟩).Right (fun k => ⟨k.toUInt16 + 20, 1⟩) (fun _ => 0) := by
  intro h
  cases relocate_right_one h

end Contiki.SfSimple

/-
What holds of the neighbor tables between calls: the key list is made of the allocated blocks, with different addresses;
each registered table has the index of its place; and no bit of a block off the list, or of an index not yet given, is
set. A table uses or locks an address when its bit at the key of that address is set.
-/
import Contiki.NbrTable.Model

namespace Contiki.NbrTable

open Contiki.Core

set_option linter.unusedSectionVars false

variable {T A D C : Type} [DecidableEq T] [DecidableEq A]

/-! ## Bits -/

section Bits

variable {bitmap : Nat → BitVec 8} {index index' item item' : Nat} {value : Bool}

theorem nbrGetBit_iff (h : index < MAX_NUM_TABLES) : nbrGetBit bitmap index item = (bitmap item).getLsbD index := by
  show (bitmap item &&& BitVec.twoPow 8 index != 0) = _
  have hne : BitVec.twoPow 8 index ≠ 0 := by
    intro hz
    have hbit := congrArg (BitVec.getLsbD · index) hz
    simp [show index < 8 from h] at hbit
  rw [BitVec.and_twoPow]
  cases (bitmap item).getLsbD index
  · rfl
  · simpa using hne

theorem nbrGetBit_zero (h : bitmap item = 0) : nbrGetBit bitmap index item = false := by
  simp [nbrGetBit, h]

theorem nbrSetBit_item (h : item' ≠ item) : nbrSetBit bitmap index item value item' = bitmap item' := by
  simp [nbrSetBit, h]

theorem nbrGetBit_item {bitmap' : Nat → BitVec 8} (h : bitmap' item = bitmap item) :
    nbrGetBit bitmap' index item = nbrGetBit bitmap index item := by
  unfold nbrGetBit
  rw [h]

theorem nbrGetBit_self (h : index < MAX_NUM_TABLES) :
    nbrGetBit (nbrSetBit bitmap index item value) index item = value := by
  have hk : index < 8 := h
  rw [nbrGetBit_iff h]
  cases value <;> simp [nbrSetBit, hk]

theorem nbrGetBit_index (hne : index' ≠ index) :
    nbrGetBit (nbrSetBit bitmap index item value) index' item' = nbrGetBit bitmap index' item' := by
  by_cases hi : item' = item
  · subst hi
    by_cases h' : index' < MAX_NUM_TABLES
    · rw [nbrGetBit_iff h', nbrGetBit_iff h']
      have h8 : index' < 8 := h'
      cases value
      all_goals
        simp [nbrSetBit, h8]
        omega
    · have h8 : (1#8 <<< index') = 0 := by
        have : 8 ≤ index' := Nat.le_of_not_lt h'
        simp [BitVec.shiftLeft_eq_zero this]
      simp [nbrGetBit, h8]
  · exact nbrGetBit_item (nbrSetBit_item hi)

end Bits

/-! ## The invariant -/

/-- The bits and the key list agree, where the blocks `blocks` are allocated. -/
structure Consistent (cfg : Config A D C) (blocks : List Nat) (s : State T A D C) : Prop where
  mem : s.neighborAddrMem.Holds blocks
  num : s.neighborAddrMem.num = cfg.maxNeighbors
  nodup : s.nbrTableKeys.Nodup
  distinct : (s.nbrTableKeys.map s.lladdr).Nodup
  place : ∀ i u, s.allTables i = some u → (s.table u).index = i ∧ i < s.numTables
  tables : s.numTables ≤ MAX_NUM_TABLES
  unused : ∀ i, i ∉ s.nbrTableKeys → s.usedMap i = 0
  ungiven : ∀ i k, s.numTables ≤ k → nbrGetBit s.usedMap k i = false

/-- The state between two calls: exactly the blocks of the keys are allocated. -/
def Inv (cfg : Config A D C) (s : State T A D C) : Prop := Consistent cfg s.nbrTableKeys s

variable {cfg : Config A D C} {blocks : List Nat} {s : State T A D C} {t u : T} {a b : A} {i j : Nat}

theorem init_inv (cfg : Config A D C) : Inv cfg (init cfg : State T A D C) := by
  constructor
  case mem => exact Memb.init_holds _
  case num => rfl
  all_goals simp [init, nbrGetBit]

theorem registered_iff : nbrTableIsRegistered s t = true ↔
    (s.table t).index < MAX_NUM_TABLES ∧ s.allTables (s.table t).index = some t := by
  simp [nbrTableIsRegistered]

namespace Consistent

theorem indexLt (h : Consistent cfg blocks s) (hi : s.allTables i = some u) : i < MAX_NUM_TABLES :=
  Nat.lt_of_lt_of_le (h.place i u hi).2 h.tables

theorem registered (h : Consistent cfg blocks s) : nbrTableIsRegistered s u = true ↔ ∃ i, s.allTables i = some u := by
  rw [registered_iff]
  constructor
  · rintro ⟨-, hu⟩
    exact ⟨_, hu⟩
  · rintro ⟨i, hi⟩
    obtain ⟨rfl, -⟩ := h.place i u hi
    exact ⟨h.indexLt hi, hi⟩

theorem index_ne (ht : nbrTableIsRegistered s t = true) (hu : nbrTableIsRegistered s u = true) (hne : u ≠ t) :
    (s.table u).index ≠ (s.table t).index := by
  intro he
  have h1 := (registered_iff.1 ht).2
  have h2 := (registered_iff.1 hu).2
  rw [he, h1] at h2
  cases h2
  exact hne rfl

theorem inj (h : Consistent cfg blocks s) (hi : i ∈ s.nbrTableKeys) (hj : j ∈ s.nbrTableKeys)
    (he : s.lladdr i = s.lladdr j) : i = j :=
  List.inj_on_of_nodup_map h.distinct hi hj he

end Consistent

/-! ## Looking up -/

theorem indexFromLladdr_some (h : indexFromLladdr s a = some i) : i ∈ s.nbrTableKeys ∧ s.lladdr i = a :=
  ⟨List.mem_of_find?_eq_some h, by simpa using List.find?_some h⟩

theorem indexFromLladdr_none : indexFromLladdr s a = none ↔ ∀ i ∈ s.nbrTableKeys, s.lladdr i ≠ a := by
  unfold indexFromLladdr
  rw [List.find?_eq_none]
  simp

theorem Consistent.index_iff (h : Consistent cfg blocks s) :
    indexFromLladdr s a = some i ↔ i ∈ s.nbrTableKeys ∧ s.lladdr i = a := by
  constructor
  · exact indexFromLladdr_some
  · rintro ⟨hi, rfl⟩
    cases hx : indexFromLladdr s (s.lladdr i) with
    | none => exact absurd rfl (indexFromLladdr_none.1 hx i hi)
    | some j =>
      obtain ⟨hj, he⟩ := indexFromLladdr_some hx
      rw [h.inj hj hi he]

theorem nbrTableGet_some_iff : nbrTableGetFromLladdr s t a = some i ↔
      indexFromLladdr s a = some i ∧ nbrGetBit s.usedMap (s.table t).index i = true := by
  unfold nbrTableGetFromLladdr
  cases hx : indexFromLladdr s a with
  | none => simp
  | some j =>
    simp only [Option.some.injEq]
    constructor
    · intro h
      split at h
      · cases h
        exact ⟨rfl, ‹_›⟩
      · cases h
    · rintro ⟨rfl, hb⟩
      rw [if_pos hb]

/-! ## The addresses that a table uses or locks -/

def Marked (s : State T A D C) (bitmap : Nat → BitVec 8) (t : T) (a : A) : Prop :=
  nbrTableIsRegistered s t = true ∧
    ∃ i ∈ s.nbrTableKeys, s.lladdr i = a ∧ nbrGetBit bitmap (s.table t).index i = true

def Uses (s : State T A D C) (t : T) (a : A) : Prop := Marked s s.usedMap t a

/-- The table keeps the address from being evicted. -/
def Locks (s : State T A D C) (t : T) (a : A) : Prop := Marked s s.lockedMap t a

theorem Consistent.uses_iff (h : Consistent cfg blocks s) (ht : nbrTableIsRegistered s t = true) :
    (nbrTableGetFromLladdr s t a).isSome ↔ Uses s t a := by
  rw [Option.isSome_iff_exists]
  constructor
  · rintro ⟨i, hi⟩
    rw [nbrTableGet_some_iff, h.index_iff] at hi
    exact ⟨ht, i, hi.1.1, hi.1.2, hi.2⟩
  · rintro ⟨-, i, hi, ha, hb⟩
    exact ⟨i, nbrTableGet_some_iff.2 ⟨h.index_iff.2 ⟨hi, ha⟩, hb⟩⟩

theorem marked_set (ht : nbrTableIsRegistered s t = true) (hi : i ∈ s.nbrTableKeys) (bitmap : Nat → BitVec 8) :
    Marked s (nbrSetBit bitmap (s.table t).index i true) u b ↔ (u = t ∧ b = s.lladdr i) ∨ Marked s bitmap u b := by
  have hlt := (registered_iff.1 ht).1
  constructor
  · rintro ⟨hu, j, hj, rfl, hb⟩
    by_cases hut : u = t
    · subst hut
      by_cases hji : j = i
      · subst hji
        exact .inl ⟨rfl, rfl⟩
      · rw [nbrGetBit_item (nbrSetBit_item hji)] at hb
        exact .inr ⟨hu, j, hj, rfl, hb⟩
    · rw [nbrGetBit_index (Consistent.index_ne ht hu hut)] at hb
      exact .inr ⟨hu, j, hj, rfl, hb⟩
  · rintro (⟨rfl, rfl⟩ | ⟨hu, j, hj, rfl, hb⟩)
    · exact ⟨ht, i, hi, rfl, nbrGetBit_self hlt⟩
    · refine ⟨hu, j, hj, rfl, ?_⟩
      by_cases hut : u = t
      · subst hut
        by_cases hji : j = i
        · subst hji
          exact nbrGetBit_self hlt
        · rw [nbrGetBit_item (nbrSetBit_item hji)]
          exact hb
      · rw [nbrGetBit_index (Consistent.index_ne ht hu hut)]
        exact hb

theorem Consistent.marked_clear (h : Consistent cfg blocks s) (ht : nbrTableIsRegistered s t = true)
    (i : Nat) (bitmap : Nat → BitVec 8) : Marked s (nbrSetBit bitmap (s.table t).index i false) u b ↔
      Marked s bitmap u b ∧ ¬ (i ∈ s.nbrTableKeys ∧ u = t ∧ b = s.lladdr i) := by
  have hlt := (registered_iff.1 ht).1
  constructor
  · rintro ⟨hu, j, hj, rfl, hb⟩
    by_cases hut : u = t
    · subst hut
      have hji : j ≠ i := by
        rintro rfl
        rw [nbrGetBit_self hlt] at hb
        cases hb
      rw [nbrGetBit_item (nbrSetBit_item hji)] at hb
      exact ⟨⟨hu, j, hj, rfl, hb⟩, fun hc => hji (h.inj hj hc.1 hc.2.2)⟩
    · rw [nbrGetBit_index (Consistent.index_ne ht hu hut)] at hb
      exact ⟨⟨hu, j, hj, rfl, hb⟩, fun hc => hut hc.2.1⟩
  · rintro ⟨⟨hu, j, hj, rfl, hb⟩, hc⟩
    refine ⟨hu, j, hj, rfl, ?_⟩
    by_cases hut : u = t
    · subst hut
      have hji : j ≠ i := by
        rintro rfl
        exact hc ⟨hj, rfl, rfl⟩
      rw [nbrGetBit_item (nbrSetBit_item hji)]
      exact hb
    · rw [nbrGetBit_index (Consistent.index_ne ht hu hut)]
      exact hb

end Contiki.NbrTable

/-
The block allocator of lib/memb.c and the lists of lib/list.c, on which the protocol modules keep
their objects. A block is named by its index in the pool and a list is the list of its items, so a
pointer is an index. `Memb.Holds` says which blocks of a pool are out: each operation is one lemma
about it.
-/
import Mathlib.Tactic

namespace Contiki.Core

/-! ## lib/memb.c -/

/-- `struct memb`: the number of blocks and the flags of those in use. -/
structure Memb where
  num : Nat
  used : Nat → Bool

def Memb.init (num : Nat) : Memb := ⟨num, fun _ => false⟩

/-- `memb_alloc`: the first block whose flag is off. -/
def Memb.alloc (m : Memb) : Option (Nat × Memb) :=
  match (List.range m.num).find? (fun i => !m.used i) with
  | none => none
  | some i => some (i, { m with used := Function.update m.used i true })

/-- `memb_free`; a pointer outside the pool changes nothing. -/
def Memb.free (m : Memb) (i : Nat) : Memb :=
  if i < m.num then { m with used := Function.update m.used i false } else m

def Memb.numfree (m : Memb) : Nat := (List.range m.num).countP (fun i => !m.used i)

/-! ## lib/list.c -/

variable {α : Type} [DecidableEq α]

def listRemove (l : List α) (item : α) : List α := l.erase item

/-- `list_add`: the item goes to the end, and is on the list once. -/
def listAdd (l : List α) (item : α) : List α := listRemove l item ++ [item]

/-- `list_push`: the item goes to the front, and is on the list once. -/
def listPush (l : List α) (item : α) : List α := item :: listRemove l item

theorem mem_listAdd {l : List α} {a b : α} : b ∈ listAdd l a ↔ b = a ∨ b ∈ l := by
  unfold listAdd listRemove
  by_cases h : b = a
  · simp [h]
  · simp [List.mem_erase_of_ne h, h]

theorem mem_listPush {l : List α} {a b : α} : b ∈ listPush l a ↔ b = a ∨ b ∈ l := by
  unfold listPush listRemove
  by_cases h : b = a
  · simp [h]
  · simp [List.mem_erase_of_ne h, h]

theorem nodup_listAdd {l : List α} (h : l.Nodup) (a : α) : (listAdd l a).Nodup := by
  unfold listAdd listRemove
  rw [List.nodup_append]
  refine ⟨h.erase a, by simp, ?_⟩
  intro b hb c hc
  rw [List.mem_singleton.1 hc]
  rintro rfl
  exact absurd hb h.not_mem_erase

theorem listAdd_new {l : List α} {a : α} (h : a ∉ l) : listAdd l a = l ++ [a] := by
  unfold listAdd listRemove
  rw [List.erase_of_not_mem h]

theorem listPush_new {l : List α} {a : α} (h : a ∉ l) : listPush l a = a :: l := by
  unfold listPush listRemove
  rw [List.erase_of_not_mem h]

theorem listPush_perm {l : List α} {a : α} (h : a ∈ l) : (listPush l a).Perm l :=
  (List.perm_cons_erase h).symm

/-! ## The blocks that are out -/

/-- Exactly the blocks `bs` of the pool are in use. -/
structure Memb.Holds (m : Memb) (bs : List Nat) : Prop where
  nodup : bs.Nodup
  mem : ∀ i, i ∈ bs ↔ i < m.num ∧ m.used i = true

theorem Memb.init_holds (num : Nat) : (Memb.init num).Holds [] :=
  ⟨List.nodup_nil, fun i => by simp [Memb.init]⟩

theorem Memb.Holds.perm {m : Memb} {bs cs : List Nat} (h : m.Holds bs) (hp : cs.Perm bs) : m.Holds cs :=
  ⟨hp.nodup_iff.2 h.nodup, fun i => by rw [hp.mem_iff, h.mem]⟩

theorem Memb.alloc_eq_some {m m' : Memb} {i : Nat} (h : m.alloc = some (i, m')) :
    i < m.num ∧ m.used i = false ∧ m' = { m with used := Function.update m.used i true } := by
  unfold Memb.alloc at h
  cases hf : (List.range m.num).find? (fun i => !m.used i) with
  | none => rw [hf] at h; cases h
  | some j =>
    rw [hf] at h
    cases h
    have hj := List.find?_some hf
    have hr := List.mem_of_find?_eq_some hf
    exact ⟨List.mem_range.1 hr, by simpa using hj, rfl⟩

theorem Memb.alloc_eq_none {m : Memb} : m.alloc = none ↔ ∀ i < m.num, m.used i = true := by
  unfold Memb.alloc
  cases hf : (List.range m.num).find? (fun i => !m.used i) with
  | none =>
    rw [List.find?_eq_none] at hf
    refine ⟨fun _ i hi => ?_, fun _ => rfl⟩
    simpa using hf i (List.mem_range.2 hi)
  | some j =>
    have hj := List.find?_some hf
    have hr := List.mem_range.1 (List.mem_of_find?_eq_some hf)
    constructor
    · intro h
      cases h
    · intro h
      rw [h j hr] at hj
      cases hj

theorem Memb.numfree_pos {m : Memb} : 0 < m.numfree ↔ m.alloc ≠ none := by
  unfold Memb.numfree
  rw [List.countP_pos_iff, ne_eq, Memb.alloc_eq_none]
  simp

theorem Memb.numfree_alloc {m m' : Memb} {i : Nat} (h : m.alloc = some (i, m')) : m'.numfree + 1 = m.numfree := by
  obtain ⟨hi, hu, rfl⟩ := Memb.alloc_eq_some h
  have hperm := List.perm_cons_erase (List.mem_range.2 hi)
  unfold Memb.numfree
  dsimp only
  rw [hperm.countP_eq, hperm.countP_eq, List.countP_cons_of_neg (by simp), List.countP_cons_of_pos (by simp [hu])]
  congr 1
  apply List.countP_congr
  rintro j hj
  have hne : j ≠ i := by
    rintro rfl
    exact List.nodup_range.not_mem_erase hj
  rw [Function.update_of_ne hne]

theorem Memb.free_alloc {m m' : Memb} {i : Nat} (h : m.alloc = some (i, m')) : m'.free i = m := by
  obtain ⟨hi, hu, rfl⟩ := Memb.alloc_eq_some h
  unfold Memb.free
  rw [if_pos hi]
  dsimp only
  rw [Function.update_idem, ← hu, Function.update_eq_self]

namespace Memb.Holds

variable {m m' : Memb} {bs : List Nat} {i : Nat}

theorem alloc (h : m.Holds bs) (ha : m.alloc = some (i, m')) : i ∉ bs ∧ m'.num = m.num ∧ m'.Holds (i :: bs) := by
  obtain ⟨hi, hu, rfl⟩ := Memb.alloc_eq_some ha
  have hn : i ∉ bs := by
    intro hm
    rw [((h.mem i).1 hm).2] at hu
    cases hu
  refine ⟨hn, rfl, List.nodup_cons.2 ⟨hn, h.nodup⟩, fun j => ?_⟩
  by_cases hj : j = i
  · subst hj; simp [hi]
  · simp [hj, h.mem]

theorem free (h : m.Holds bs) (hi : i ∈ bs) : (m.free i).num = m.num ∧ (m.free i).Holds (bs.erase i) := by
  have hlt := ((h.mem i).1 hi).1
  unfold Memb.free
  rw [if_pos hlt]
  refine ⟨rfl, h.nodup.erase i, fun j => ?_⟩
  by_cases hj : j = i
  · subst hj
    simp [h.nodup.not_mem_erase]
  · simp [List.mem_erase_of_ne hj, h.mem, hj]

theorem length_le (h : m.Holds bs) : bs.length ≤ m.num := by
  have hs : bs ⊆ List.range m.num := fun i hi => List.mem_range.2 ((h.mem i).1 hi).1
  simpa using (h.nodup.subperm hs).length_le

theorem alloc_none_iff (h : m.Holds bs) : m.alloc = none ↔ bs.length = m.num := by
  rw [Memb.alloc_eq_none]
  constructor
  · intro hall
    have hs : List.range m.num ⊆ bs := fun i hi =>
      (h.mem i).2 ⟨List.mem_range.1 hi, hall i (List.mem_range.1 hi)⟩
    have hge := (List.nodup_range.subperm hs).length_le
    have hle := h.length_le
    simp only [List.length_range] at hge
    omega
  · intro hlen i hi
    have hs : bs ⊆ List.range m.num := fun i hi => List.mem_range.2 ((h.mem i).1 hi).1
    have hp : bs.Perm (List.range m.num) :=
      (h.nodup.subperm hs).perm_of_length_le (by simp [hlen])
    exact ((h.mem i).1 (hp.mem_iff.2 (List.mem_range.2 hi))).2

theorem alloc_of_lt (h : m.Holds bs) (hlt : bs.length < m.num) : ∃ i m', m.alloc = some (i, m') := by
  cases ha : m.alloc with
  | none =>
    have := h.alloc_none_iff.1 ha
    omega
  | some p => exact ⟨p.1, p.2, rfl⟩

end Memb.Holds

end Contiki.Core

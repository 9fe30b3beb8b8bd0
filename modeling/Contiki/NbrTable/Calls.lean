/-
Removing a key: the callbacks of the tables that use it are called, each once, and then the key, its bits and, for
`nbr_table_clear`, its block are gone. A callback may take the item out of its own table; the loop over the tables does
not see it, since each table has a bit of its own.
-/
import Contiki.NbrTable.Invariant

namespace Contiki.NbrTable

section

open Contiki.Core

set_option linter.unusedSectionVars false

variable {T A D C : Type} [DecidableEq T] [DecidableEq A]
variable {cfg : Config A D C} {blocks : List Nat} {s : State T A D C} {t u : T} {a b : A} {i j key : Nat}

/-! ## The callbacks -/

/-- What the round `i` of the loop of `remove_key` calls. -/
def callEntry (s : State T A D C) (key i : Nat) : Option (Called T) :=
  match s.allTables i with
  | none => none
  | some table =>
    if (s.table table).callback.isSome ∧ nbrGetBit s.usedMap (s.table table).index key = true then
      some ⟨table, key, s.nbrTableKeys⟩
    else none

/-- What the loop of `remove_key` calls. -/
def callsFor (s : State T A D C) (key : Nat) : List (Called T) :=
  (List.range MAX_NUM_TABLES).filterMap (callEntry s key)

theorem callEntry_some {c : Called T} : callEntry s key i = some c ↔
    ∃ u, s.allTables i = some u ∧ (s.table u).callback.isSome ∧ nbrGetBit s.usedMap (s.table u).index key = true ∧
      c = ⟨u, key, s.nbrTableKeys⟩ := by
  unfold callEntry
  cases s.allTables i with
  | none => simp
  | some u =>
    simp only [Option.some.injEq, exists_eq_left']
    constructor
    · intro h
      split at h
      · rename_i hc
        cases h
        exact ⟨hc.1, hc.2, rfl⟩
      · cases h
    · rintro ⟨h1, h2, rfl⟩
      rw [if_pos ⟨h1, h2⟩]

theorem Consistent.mem_callsFor (h : Consistent cfg blocks s) {c : Called T} : c ∈ callsFor s key ↔
    ∃ u, nbrTableIsRegistered s u = true ∧ (s.table u).callback.isSome ∧
      nbrGetBit s.usedMap (s.table u).index key = true ∧ c = ⟨u, key, s.nbrTableKeys⟩ := by
  unfold callsFor
  rw [List.mem_filterMap]
  constructor
  · rintro ⟨i, -, hc⟩
    obtain ⟨u, hu, hcb, hbit, rfl⟩ := callEntry_some.1 hc
    exact ⟨u, h.registered.2 ⟨i, hu⟩, hcb, hbit, rfl⟩
  · rintro ⟨u, hu, hcb, hbit, rfl⟩
    obtain ⟨i, hi⟩ := h.registered.1 hu
    exact ⟨i, List.mem_range.2 (h.indexLt hi), callEntry_some.2 ⟨u, hi, hcb, hbit, rfl⟩⟩

theorem Consistent.nodup_callsFor (h : Consistent cfg blocks s) (key : Nat) : (callsFor s key).Nodup := by
  apply List.nodup_range.filterMap
  intro i j c hi hj
  obtain ⟨u, hu, -, -, rfl⟩ := callEntry_some.1 hi
  obtain ⟨v, hv, -, -, he⟩ := callEntry_some.1 hj
  cases he
  rw [← (h.place i u hu).1, (h.place j u hv).1]

theorem callTable_eq (cfg : Config A D C) (hplace : ∀ u, s.allTables i = some u → (s.table u).index = i) (key : Nat) :
    ∃ used locked, (callTable cfg key s i = { s with
        usedMap := Function.update s.usedMap key used
        lockedMap := Function.update s.lockedMap key locked
        called := s.called ++ (callEntry s key i).toList }) ∧
      ∀ j, j ≠ i → nbrGetBit (Function.update s.usedMap key used) j key = nbrGetBit s.usedMap j key := by
  unfold callTable callEntry
  cases hu : s.allTables i with
  | none => exact ⟨s.usedMap key, s.lockedMap key, by simp, fun j _ => by simp⟩
  | some u =>
    have hi := hplace u hu
    simp only
    cases hc : (s.table u).callback with
    | none => exact ⟨s.usedMap key, s.lockedMap key, by simp, fun j _ => by simp⟩
    | some c =>
      by_cases hbit : nbrGetBit s.usedMap (s.table u).index key = true
      · simp only [hbit, if_true, runCallback]
        by_cases hr : cfg.removes c = true
        · simp only [hr, if_true, nbrTableRemove, Option.isSome_some, and_self, Option.toList_some]
          exact ⟨_, _, rfl, fun j hj => by
            apply nbrGetBit_index
            rwa [hi]⟩
        · exact ⟨s.usedMap key, s.lockedMap key, by simp [hr], fun j _ => by simp⟩
      · exact ⟨s.usedMap key, s.lockedMap key, by simp [hbit], fun j _ => by simp⟩

theorem callEntry_congr {s' : State T A D C} (h1 : s'.allTables = s.allTables) (h2 : s'.table = s.table)
    (h3 : s'.nbrTableKeys = s.nbrTableKeys) (h4 : ∀ u, s.allTables i = some u →
      nbrGetBit s'.usedMap (s.table u).index key = nbrGetBit s.usedMap (s.table u).index key) :
    callEntry s' key i = callEntry s key i := by
  unfold callEntry
  rw [h1, h2, h3]
  cases hu : s.allTables i with
  | none => rfl
  | some u => simp only [h4 u hu]

theorem callLoop_eq (cfg : Config A D C) (key : Nat) : ∀ (is : List Nat) (s : State T A D C), is.Nodup →
    (∀ i u, s.allTables i = some u → (s.table u).index = i) →
    ∃ used locked, is.foldl (callTable cfg key) s = { s with
      usedMap := Function.update s.usedMap key used
      lockedMap := Function.update s.lockedMap key locked
      called := s.called ++ is.filterMap (callEntry s key) }
  | [], s, _, _ => ⟨s.usedMap key, s.lockedMap key, by simp⟩
  | i :: is, s, hn, hplace => by
    obtain ⟨hi, hn⟩ := List.nodup_cons.1 hn
    obtain ⟨used, locked, he, hbits⟩ := callTable_eq cfg (hplace i) key
    obtain ⟨used', locked', he'⟩ := callLoop_eq cfg key is (callTable cfg key s i) hn (by rw [he]; exact hplace)
    -- the rounds still to come find the bits of their tables as they were
    have hrest : is.filterMap (callEntry (callTable cfg key s i) key) = is.filterMap (callEntry s key) := by
      apply List.filterMap_congr
      intro j hj
      have hji : j ≠ i := by
        rintro rfl
        exact hi hj
      apply callEntry_congr
      · rw [he]
      · rw [he]
      · rw [he]
      · intro u hu
        rw [he, hplace j u hu]
        exact hbits j hji
    refine ⟨used', locked', ?_⟩
    rw [List.foldl_cons, he', hrest, he]
    simp only [Function.update_idem, List.filterMap_cons, List.append_assoc]
    cases callEntry s key i <;> rfl

/-! ## The key -/

theorem Consistent.removeKey_eq (h : Consistent cfg blocks s) (key : Nat) (doFree : Bool) :
    removeKey cfg s key doFree = { s with
      usedMap := Function.update s.usedMap key 0
      lockedMap := Function.update s.lockedMap key 0
      nbrTableKeys := s.nbrTableKeys.erase key
      neighborAddrMem := if doFree then s.neighborAddrMem.free key else s.neighborAddrMem
      called := s.called ++ callsFor s key } := by
  obtain ⟨used, locked, he⟩ := callLoop_eq cfg key (List.range MAX_NUM_TABLES) s List.nodup_range
    fun i u hu => (h.place i u hu).1
  unfold removeKey
  simp only [he, Function.update_idem, listRemove, callsFor]

theorem Consistent.remove (h : Consistent cfg blocks s) (hk : key ∈ blocks) (hkeys : key ∈ s.nbrTableKeys)
    (doFree : Bool) : Consistent cfg (if doFree then blocks.erase key else blocks) (removeKey cfg s key doFree) := by
  rw [h.removeKey_eq]
  constructor
  case mem =>
    cases doFree with
    | true => exact (h.mem.free hk).2
    | false => exact h.mem
  case num =>
    cases doFree with
    | true => exact (h.mem.free hk).1.trans h.num
    | false => exact h.num
  case nodup => exact h.nodup.erase key
  case distinct => exact h.distinct.sublist ((List.erase_sublist).map _)
  case place => exact h.place
  case tables => exact h.tables
  case unused =>
    intro i hi
    by_cases hik : i = key
    · subst hik
      simp
    · simp only [Function.update_of_ne hik]
      exact h.unused i fun hm => hi ((List.mem_erase_of_ne hik).2 hm)
  case ungiven =>
    intro i k hk
    by_cases hik : i = key
    · subst hik
      exact nbrGetBit_zero (by simp)
    · rw [nbrGetBit_item (Function.update_of_ne hik _ _)]
      exact h.ungiven i k hk

theorem Consistent.marked_removeKey (h : Consistent cfg blocks s) (hk : key ∈ s.nbrTableKeys)
    (doFree : Bool) (bitmap : Nat → BitVec 8) :
    Marked (removeKey cfg s key doFree) (Function.update bitmap key 0) u b ↔ Marked s bitmap u b ∧ b ≠ s.lladdr key := by
  rw [h.removeKey_eq]
  constructor
  · rintro ⟨hu, i, hi, rfl, hbit⟩
    obtain ⟨hne, hi⟩ := (h.nodup.mem_erase_iff).1 hi
    rw [nbrGetBit_item (Function.update_of_ne hne _ _)] at hbit
    exact ⟨⟨hu, i, hi, rfl, hbit⟩, fun he => hne (h.inj hi hk he)⟩
  · rintro ⟨⟨hu, i, hi, rfl, hbit⟩, hb⟩
    have hne : i ≠ key := by
      rintro rfl
      exact hb rfl
    refine ⟨hu, i, (h.nodup.mem_erase_iff).2 ⟨hne, hi⟩, rfl, ?_⟩
    rw [nbrGetBit_item (Function.update_of_ne hne _ _)]
    exact hbit

/-! ## nbr_table_clear -/

theorem clearLoop_spec : ∀ (fuel : Nat) (s : State T A D C), Inv cfg s → s.nbrTableKeys.length ≤ fuel →
    Inv cfg (clearLoop cfg fuel s) ∧ (clearLoop cfg fuel s).nbrTableKeys = []
  | 0, s, h, hf => ⟨h, List.length_eq_zero_iff.1 (Nat.le_zero.1 hf)⟩
  | fuel + 1, s, h, hf => by
    unfold clearLoop
    cases hk : s.nbrTableKeys with
    | nil => exact ⟨h, hk⟩
    | cons k ks =>
      have hmem : k ∈ s.nbrTableKeys := by simp [hk]
      have h' : Inv cfg (removeKey cfg s k true) := by
        have hc := Consistent.remove h hmem hmem true
        have hkeys : (removeKey cfg s k true).nbrTableKeys = s.nbrTableKeys.erase k := by
          rw [Consistent.removeKey_eq h]
        unfold Inv
        rw [hkeys]
        exact hc
      refine clearLoop_spec fuel _ h' ?_
      rw [Consistent.removeKey_eq h]
      simp only [hk, List.erase_cons_head]
      simpa [hk] using hf

theorem nbrTableClear_spec (h : Inv cfg s) : Inv cfg (nbrTableClear cfg s) ∧ (nbrTableClear cfg s).nbrTableKeys = [] :=
  clearLoop_spec _ s h le_rfl

/-! ## One bit -/

theorem Consistent.clearBit (h : Consistent cfg blocks s) (index item : Nat) (locked : Nat → BitVec 8) :
    Consistent cfg blocks { s with usedMap := nbrSetBit s.usedMap index item false, lockedMap := locked } := by
  refine { h with unused := fun i hi => ?_, ungiven := fun i k hk => ?_ }
  · by_cases hii : i = item
    · subst hii
      simp [nbrSetBit, h.unused i hi]
    · exact (nbrSetBit_item hii).trans (h.unused i hi)
  · by_cases hki : k = index
    · subst hki
      by_cases hii : i = item
      · subst hii
        simp only [nbrGetBit, nbrSetBit, Function.update_self, Bool.false_eq_true, if_false, bne_eq_false_iff_eq]
        rw [BitVec.and_assoc]
        simp
      · exact (nbrGetBit_item (nbrSetBit_item hii)).trans (h.ungiven i k hk)
    · exact (nbrGetBit_index hki).trans (h.ungiven i k hk)

end

/-!
Adding an address to a table: the address is known, or it gets a free block, or, when no block is free, the block of an
address that no table locks.
-/

section

open Contiki.Core

set_option linter.unusedSectionVars false

variable {T A D C : Type} [DecidableEq T] [DecidableEq A]
variable {cfg : Config A D C} {blocks : List Nat} {s s' : State T A D C} {t u : T} {a b : A} {i j key : Nat}

/-! ## The cases -/

def addKey (s : State T A D C) (key : Nat) (lladdr : A) : State T A D C :=
  { s with nbrTableKeys := listAdd s.nbrTableKeys key, lladdr := Function.update s.lladdr key lladdr }

def addItem (cfg : Config A D C) (s : State T A D C) (table : T) (index : Nat) : State T A D C :=
  { setItem s table index cfg.zero with usedMap := nbrSetBit s.usedMap (s.table table).index index true }

/-- What `nbr_table_add_lladdr` may come to, for an address that is not `NULL`. -/
inductive AddCase (cfg : Config A D C) (s : State T A D C) (t : T) (a : A) : State T A D C × Option Nat → Prop
  | refused : AddCase cfg s t a (s, none)
  | known (i : Nat) (h : indexFromLladdr s a = some i) : AddCase cfg s t a (addItem cfg s t i, some i)
  | fresh (i : Nat) (mem : Memb) (h : indexFromLladdr s a = none) (ha : s.neighborAddrMem.alloc = some (i, mem)) :
      AddCase cfg s t a (addItem cfg (addKey { s with neighborAddrMem := mem } i a) t i, some i)
  | replaced (k : Nat) (h : indexFromLladdr s a = none) (ha : s.neighborAddrMem.alloc = none)
      (hk : k ∈ s.nbrTableKeys) (hl : s.lockedMap k = 0) :
      AddCase cfg s t a (addItem cfg (addKey (removeKey cfg s k false) k a) t k, some k)

theorem setItem_index (d : D) : ((setItem s t i d).table u).index = (s.table u).index := by
  unfold setItem
  by_cases hu : u = t
  · subst hu
    simp
  · simp [hu]

theorem addItem_index : ((addItem cfg s t i).table u).index = (s.table u).index := setItem_index cfg.zero

theorem worstUnlocked_some : ∀ (ks : List Nat) (worst : Option A) (w : A),
    (∀ w', worst = some w' → ∃ k ∈ s.nbrTableKeys, s.lladdr k = w' ∧ s.lockedMap k = 0) →
    (∀ k ∈ ks, k ∈ s.nbrTableKeys) → worstUnlocked s ks worst = some w →
    ∃ k ∈ s.nbrTableKeys, s.lladdr k = w ∧ s.lockedMap k = 0
  | [], worst, w, hw, _, h => hw w h
  | k :: ks, worst, w, hw, hks, h => by
    have hk := hks k (by simp)
    have hks' : ∀ k ∈ ks, k ∈ s.nbrTableKeys := fun k' hk' => hks k' (by simp [hk'])
    unfold worstUnlocked at h
    split at h
    · rename_i hl
      cases worst with
      | none =>
        refine worstUnlocked_some ks _ w ?_ hks' h
        intro w' he
        cases he
        exact ⟨k, hk, rfl, hl⟩
      | some w₀ =>
        refine worstUnlocked_some ks _ w ?_ hks' h
        intro w' he
        cases he
        unfold nbrTableGcGetWorst
        split
        · exact ⟨k, hk, rfl, hl⟩
        · exact hw w₀ rfl
    · exact worstUnlocked_some ks worst w hw hks' h

theorem selectForRemoval_some (h : selectForRemoval s a = some b) :
    ∃ k ∈ s.nbrTableKeys, s.lladdr k = b ∧ s.lockedMap k = 0 := by
  unfold selectForRemoval at h
  cases hw : worstUnlocked s s.nbrTableKeys none with
  | none => simp [hw] at h
  | some w =>
    simp only [hw, nbrTableCanAcceptNew, if_true, Option.some.injEq] at h
    subst h
    exact worstUnlocked_some s.nbrTableKeys none w (by simp) (fun k hk => hk) hw

theorem nbrTableAddLladdr_cases (h : Consistent cfg blocks s) (t : T) (a : Option A) :
    AddCase cfg s t (a.getD cfg.linkaddrNull) (nbrTableAddLladdr cfg s t a) := by
  unfold nbrTableAddLladdr
  generalize a.getD cfg.linkaddrNull = lladdr
  simp only [setItem_index]
  cases hi : indexFromLladdr s lladdr with
  | some i =>
    have hallowed : (entryIsAllowed s t lladdr).1 = true := by
      unfold entryIsAllowed
      simp only [hi, Option.isSome_some, true_or, if_true, nbrTableCanAcceptNew]
      split <;> rfl
    cases he : entryIsAllowed s t lladdr with
    | mk ok toBeRemoved =>
      rw [he] at hallowed
      simp only at hallowed
      subst hallowed
      simp only [findOrAllocate, hi]
      exact .known i hi
  | none =>
    have hget : (nbrTableGetFromLladdr s t lladdr).isSome = false := by
      simp [nbrTableGetFromLladdr, hi]
    cases ha : s.neighborAddrMem.alloc with
    | some p =>
      obtain ⟨i, mem⟩ := p
      have hfree : 0 < s.neighborAddrMem.numfree := Memb.numfree_pos.2 (by rw [ha]; simp)
      simp only [entryIsAllowed, hget, hi, hfree, Bool.false_eq_true, if_false, or_true, if_true,
        nbrTableCanAcceptNew, findOrAllocate, nbrTableAllocate, ha]
      exact .fresh i mem hi ha
    | none =>
      have hfull : ¬ 0 < s.neighborAddrMem.numfree := fun hpos => Memb.numfree_pos.1 hpos ha
      simp only [entryIsAllowed, hget, hi, hfull, Bool.false_eq_true, if_false, Option.isSome_none, or_self]
      cases hw : selectForRemoval s lladdr with
      | none => exact .refused
      | some w =>
        obtain ⟨k, hk, rfl, hl⟩ := selectForRemoval_some hw
        have hik : indexFromLladdr s (s.lladdr k) = some k := h.index_iff.2 ⟨hk, rfl⟩
        simp only [Option.isSome_some, findOrAllocate, hi, nbrTableAllocate, ha, Option.bind_some, hik]
        exact .replaced k hi ha hk hl

/-! ## A key joins -/

theorem mem_addKey : i ∈ (addKey s key a).nbrTableKeys ↔ i = key ∨ i ∈ s.nbrTableKeys :=
  mem_listAdd

theorem addKey_lladdr (hi : i ∈ s.nbrTableKeys) (hk : key ∉ s.nbrTableKeys) :
    (addKey s key a).lladdr i = s.lladdr i := by
  have hne : i ≠ key := by
    rintro rfl
    exact hk hi
  simp [addKey, hne]

theorem index_addKey (hk : key ∉ s.nbrTableKeys) (ha : indexFromLladdr s a = none) (b : A) :
    indexFromLladdr (addKey s key a) b = if b = a then some key else indexFromLladdr s b := by
  have hold : s.nbrTableKeys.find? (fun i => decide ((addKey s key a).lladdr i = b)) = indexFromLladdr s b := by
    apply List.find?_congr
    intro i hi
    rw [addKey_lladdr hi hk]
  have hlist : (addKey s key a).nbrTableKeys = s.nbrTableKeys ++ [key] := listAdd_new hk
  unfold indexFromLladdr
  rw [hlist, List.find?_append, hold]
  by_cases hb : b = a
  · subst hb
    simp [ha, addKey]
  · simp [addKey, hb, Ne.symm hb, indexFromLladdr]

theorem Consistent.addKey (h : Consistent cfg blocks s) (hp : blocks.Perm (key :: s.nbrTableKeys))
    (hk : key ∉ s.nbrTableKeys) (ha : indexFromLladdr s a = none) : Inv cfg (addKey s key a) := by
  have hlist : (NbrTable.addKey s key a).nbrTableKeys = s.nbrTableKeys ++ [key] := listAdd_new hk
  constructor
  case mem =>
    rw [hlist]
    exact h.mem.perm (List.perm_append_singleton _ _ |>.trans hp.symm)
  case num => exact h.num
  case nodup => exact nodup_listAdd h.nodup key
  case distinct =>
    have hmap : s.nbrTableKeys.map (NbrTable.addKey s key a).lladdr = s.nbrTableKeys.map s.lladdr :=
      List.map_congr_left fun i hi => addKey_lladdr hi hk
    rw [hlist, List.map_append, hmap, List.nodup_append]
    refine ⟨h.distinct, by simp, ?_⟩
    intro b hb c hc
    obtain ⟨i, hi, rfl⟩ := List.mem_map.1 hb
    simp only [NbrTable.addKey, List.map_cons, Function.update_self, List.map_nil, List.mem_singleton] at hc
    rw [hc]
    exact indexFromLladdr_none.1 ha i hi
  case place => exact h.place
  case tables => exact h.tables
  case unused =>
    intro i hi
    rw [mem_addKey] at hi
    exact h.unused i fun hm => hi (.inr hm)
  case ungiven => exact h.ungiven

theorem Marked.addKey {bitmap : Nat → BitVec 8} (hk : key ∉ s.nbrTableKeys) (h : Marked s bitmap u b) :
    Marked (addKey s key a) bitmap u b := by
  obtain ⟨hu, i, hi, hb, hbit⟩ := h
  exact ⟨hu, i, mem_addKey.2 (.inr hi), (addKey_lladdr hi hk).trans hb, hbit⟩

theorem Consistent.uses_addKey (h : Consistent cfg blocks s) (hk : key ∉ s.nbrTableKeys) :
    Uses (NbrTable.addKey s key a) u b ↔ Uses s u b := by
  constructor
  · rintro ⟨hu, i, hi, hb, hbit⟩
    rcases mem_addKey.1 hi with rfl | hi
    · have hz : nbrGetBit s.usedMap (s.table u).index i = false := nbrGetBit_zero (h.unused i hk)
      cases hz.symm.trans hbit
    · exact ⟨hu, i, hi, (addKey_lladdr hi hk).symm.trans hb, hbit⟩
  · exact Marked.addKey hk

/-! ## An item joins -/

theorem addItem_registered : nbrTableIsRegistered (addItem cfg s t i) u = nbrTableIsRegistered s u := by
  unfold nbrTableIsRegistered
  rw [addItem_index]
  rfl

theorem marked_addItem (bitmap : Nat → BitVec 8) : Marked (addItem cfg s t i) bitmap u b ↔ Marked s bitmap u b := by
  unfold Marked
  rw [addItem_registered, addItem_index]
  rfl

theorem uses_addItem (ht : nbrTableIsRegistered s t = true) (hi : i ∈ s.nbrTableKeys) :
    Uses (addItem cfg s t i) u b ↔ (u = t ∧ b = s.lladdr i) ∨ Uses s u b :=
  (marked_addItem _).trans (marked_set ht hi s.usedMap)

theorem Consistent.addItem (h : Consistent cfg blocks s) (ht : nbrTableIsRegistered s t = true)
    (hi : i ∈ s.nbrTableKeys) : Consistent cfg blocks (addItem cfg s t i) := by
  obtain ⟨hlt, hat⟩ := registered_iff.1 ht
  refine { h with place := fun j u hu => ?_, unused := fun j hj => ?_, ungiven := fun j k hk => ?_ }
  · rw [addItem_index]
    exact h.place j u hu
  · have hji : j ≠ i := by
      rintro rfl
      exact hj hi
    exact (nbrSetBit_item hji).trans (h.unused j hj)
  · have hkt : k ≠ (s.table t).index := by
      rintro rfl
      exact absurd (h.place _ t hat).2 (Nat.not_lt.2 hk)
    exact (nbrGetBit_index hkt).trans (h.ungiven j k hk)

/-! ## What is lost and what is kept -/

def lost (s s' : State T A D C) : List A :=
  (s.nbrTableKeys.map s.lladdr).filter fun b => (indexFromLladdr s' b).isNone

theorem mem_lost : b ∈ lost s s' ↔ (∃ i ∈ s.nbrTableKeys, s.lladdr i = b) ∧ indexFromLladdr s' b = none := by
  simp [lost]

/-- All that is stored about an address is as it was. -/
structure Kept (s s' : State T A D C) (b : A) : Prop where
  index : indexFromLladdr s' b = indexFromLladdr s b
  item : ∀ u, nbrTableGetFromLladdr s' u b = nbrTableGetFromLladdr s u b
  data : ∀ i, indexFromLladdr s b = some i → ∀ u, (s'.table u).data i = (s.table u).data i
  locked : ∀ i, indexFromLladdr s b = some i → s'.lockedMap i = s.lockedMap i

theorem Kept.of_index (hindex : indexFromLladdr s' b = indexFromLladdr s b)
    (htable : ∀ u, (s'.table u).index = (s.table u).index)
    (hold : ∀ i, indexFromLladdr s b = some i → s'.usedMap i = s.usedMap i ∧ s'.lockedMap i = s.lockedMap i ∧
      ∀ u, (s'.table u).data i = (s.table u).data i) : Kept s s' b := by
  refine ⟨hindex, fun u => ?_, fun i hi => (hold i hi).2.2, fun i hi => (hold i hi).2.1⟩
  unfold nbrTableGetFromLladdr
  rw [hindex]
  cases hi : indexFromLladdr s b with
  | none => rfl
  | some i =>
    simp only
    rw [htable, nbrGetBit_item (hold i hi).1]

theorem addItem_data (hj : j ≠ i) : ((addItem cfg s t i).table u).data j = (s.table u).data j := by
  simp only [addItem, setItem]
  by_cases hu : u = t
  · subst hu
    simp [hj]
  · simp [hu]

/-- What an add that evicts nothing, or evicts the key `k`, leaves behind. -/
inductive Eviction (cfg : Config A D C) (s s' : State T A D C) : Prop
  | none (h : lost s s' = []) (hc : s'.called = s.called)
  | one (k : Nat) (hk : k ∈ s.nbrTableKeys) (h : lost s s' = [s.lladdr k]) (ha : s.neighborAddrMem.alloc = none)
      (hl : s.lockedMap k = 0) (hc : s'.called = s.called ++ callsFor s k)

/-- What an add of the address `a` does. -/
structure AddSpec (cfg : Config A D C) (s : State T A D C) (t : T) (a : A) (r : State T A D C × Option Nat) :
    Prop where
  inv : Inv cfg r.1
  uses : ∀ u b, Uses r.1 u b ↔ (r.2.isSome ∧ u = t ∧ b = a) ∨ (b ∉ lost s r.1 ∧ Uses s u b)
  locks : ∀ u b, Locks s u b → b ∉ lost s r.1 → Locks r.1 u b
  kept : ∀ b, b ≠ a → b ∉ lost s r.1 → Kept s r.1 b
  eviction : Eviction cfg s r.1

theorem lost_eq_nil (h : ∀ i ∈ s.nbrTableKeys, indexFromLladdr s' (s.lladdr i) ≠ none) : lost s s' = [] := by
  rw [List.eq_nil_iff_forall_not_mem]
  intro b hb
  obtain ⟨⟨i, hi, rfl⟩, hn⟩ := mem_lost.1 hb
  exact h i hi hn

theorem Consistent.index_ne_none (h : Consistent cfg blocks s) (hi : i ∈ s.nbrTableKeys) :
    indexFromLladdr s (s.lladdr i) ≠ none := by
  rw [h.index_iff.2 ⟨hi, rfl⟩]
  simp

theorem addSpec_refused (h : Inv cfg s) : AddSpec cfg s t a (s, none) := by
  have hl : lost s s = [] := lost_eq_nil fun i hi => Consistent.index_ne_none h hi
  constructor
  case inv => exact h
  case uses => simp [hl]
  case locks => exact fun u b hb _ => hb
  case kept => exact fun b _ _ => .of_index rfl (fun _ => rfl) fun i _ => ⟨rfl, rfl, fun _ => rfl⟩
  case eviction => exact .none hl rfl

theorem addSpec_known (h : Inv cfg s) (ht : nbrTableIsRegistered s t = true) (hi : indexFromLladdr s a = some i) :
    AddSpec cfg s t a (addItem cfg s t i, some i) := by
  obtain ⟨hik, ha⟩ := indexFromLladdr_some hi
  have hindex : ∀ b, indexFromLladdr (addItem cfg s t i) b = indexFromLladdr s b := fun _ => rfl
  have hl : lost s (addItem cfg s t i) = [] := lost_eq_nil fun j hj => by
    rw [hindex]
    exact Consistent.index_ne_none h hj
  constructor
  case inv => exact Consistent.addItem h ht hik
  case uses =>
    intro u b
    rw [uses_addItem ht hik, hl, ha]
    simp
  case locks => exact fun u b hb _ => (marked_addItem _).2 hb
  case kept =>
    intro b hb _
    refine .of_index rfl (fun u => addItem_index) fun j hj => ?_
    have hji : j ≠ i := by
      rintro rfl
      exact hb ((indexFromLladdr_some hj).2.symm.trans ha)
    exact ⟨nbrSetBit_item hji, rfl, fun u => addItem_data hji⟩
  case eviction => exact .none hl rfl

theorem addSpec_join (h : Consistent cfg blocks s) (hp : blocks.Perm (key :: s.nbrTableKeys))
    (hk : key ∉ s.nbrTableKeys) (ha : indexFromLladdr s a = none) (ht : nbrTableIsRegistered s t = true) :
    Inv cfg (addItem cfg (addKey s key a) t key) ∧
    (∀ b, indexFromLladdr (addItem cfg (addKey s key a) t key) b = if b = a then some key else indexFromLladdr s b) ∧
    (∀ u b, Uses (addItem cfg (addKey s key a) t key) u b ↔ (u = t ∧ b = a) ∨ Uses s u b) ∧
    (∀ u b, Locks s u b → Locks (addItem cfg (addKey s key a) t key) u b) := by
  have hmem : key ∈ (addKey s key a).nbrTableKeys := mem_addKey.2 (.inl rfl)
  have ht' : nbrTableIsRegistered (addKey s key a) t = true := ht
  refine ⟨Consistent.addItem (h.addKey hp hk ha) ht' hmem, index_addKey hk ha, fun u b => ?_, fun u b hb => ?_⟩
  · rw [uses_addItem ht' hmem, h.uses_addKey hk]
    simp [addKey]
  · exact (marked_addItem _).2 (Marked.addKey hk hb)

theorem addSpec_fresh {mem : Memb} (h : Inv cfg s) (ht : nbrTableIsRegistered s t = true)
    (hi : indexFromLladdr s a = none) (ha : s.neighborAddrMem.alloc = some (i, mem)) :
    AddSpec cfg s t a (addItem cfg (addKey { s with neighborAddrMem := mem } i a) t i, some i) := by
  obtain ⟨hik, hnum, hholds⟩ := h.mem.alloc ha
  have hm : Consistent cfg (i :: s.nbrTableKeys) { s with neighborAddrMem := mem } :=
    { h with mem := hholds, num := hnum.trans h.num }
  obtain ⟨hinv, hindex, huses, hlocks⟩ := addSpec_join hm (List.Perm.refl _) hik hi ht
  have hl : lost s (addItem cfg (addKey { s with neighborAddrMem := mem } i a) t i) = [] := lost_eq_nil fun j hj => by
    rw [hindex, if_neg (indexFromLladdr_none.1 hi j hj)]
    exact hm.index_ne_none hj
  constructor
  case inv => exact hinv
  case uses =>
    intro u b
    rw [huses, hl]
    simp only [Option.isSome_some, true_and, List.not_mem_nil, not_false_eq_true]
    rfl
  case locks => exact fun u b hb _ => hlocks u b hb
  case kept =>
    intro b hb _
    refine .of_index ?_ (fun u => addItem_index) fun j hj => ?_
    · rw [hindex, if_neg hb]
      rfl
    · have hji : j ≠ i := by
        rintro rfl
        exact hik (indexFromLladdr_some hj).1
      exact ⟨nbrSetBit_item hji, rfl, fun u => addItem_data hji⟩
  case eviction => exact .none hl rfl

theorem Consistent.index_removeKey (h : Inv cfg s) (hk : key ∈ s.nbrTableKeys) (b : A) :
    indexFromLladdr (removeKey cfg s key false) b = if b = s.lladdr key then none else indexFromLladdr s b := by
  have hr : Consistent cfg s.nbrTableKeys (removeKey cfg s key false) := Consistent.remove h hk hk false
  have hold : ∀ i, indexFromLladdr (removeKey cfg s key false) b = some i ↔ i ≠ key ∧ indexFromLladdr s b = some i := by
    intro i
    rw [hr.index_iff, Consistent.index_iff h, Consistent.removeKey_eq h, h.nodup.mem_erase_iff, and_assoc]
  apply Option.ext
  intro i
  rw [hold]
  split
  · rename_i hb
    subst hb
    rw [Consistent.index_iff h]
    simp only [reduceCtorEq, iff_false, not_and]
    intro hne hi he
    exact hne (h.inj hi hk he)
  · rename_i hb
    simp only [and_iff_right_iff_imp]
    rintro hi rfl
    exact hb (indexFromLladdr_some hi).2.symm

theorem addSpec_replaced (h : Inv cfg s) (ht : nbrTableIsRegistered s t = true) (hi : indexFromLladdr s a = none)
    (ha : s.neighborAddrMem.alloc = none) (hk : key ∈ s.nbrTableKeys) (hl : s.lockedMap key = 0) :
    AddSpec cfg s t a (addItem cfg (addKey (removeKey cfg s key false) key a) t key, some key) := by
  have heq := Consistent.removeKey_eq h key false
  have hm : Consistent cfg s.nbrTableKeys (removeKey cfg s key false) := Consistent.remove h hk hk false
  have hkeys : (removeKey cfg s key false).nbrTableKeys = s.nbrTableKeys.erase key := by rw [heq]
  have hne : a ≠ s.lladdr key := fun he => indexFromLladdr_none.1 hi key hk he.symm
  have hgone : indexFromLladdr (removeKey cfg s key false) a = none := by
    rw [Consistent.index_removeKey h hk, if_neg hne, hi]
  have hoff : key ∉ (removeKey cfg s key false).nbrTableKeys := by
    rw [hkeys]
    exact h.nodup.not_mem_erase
  have hperm : s.nbrTableKeys.Perm (key :: (removeKey cfg s key false).nbrTableKeys) := by
    rw [hkeys]
    exact List.perm_cons_erase hk
  have hreg : ∀ u, nbrTableIsRegistered (removeKey cfg s key false) u = nbrTableIsRegistered s u := by
    intro u
    rw [heq]
    rfl
  obtain ⟨hinv, hindex, huses, hlocks⟩ := addSpec_join hm hperm hoff hgone (by rw [hreg]; exact ht)
  have hmem : ∀ b, b ∈ lost s (addItem cfg (addKey (removeKey cfg s key false) key a) t key) ↔ b = s.lladdr key := by
    intro b
    rw [mem_lost, hindex]
    constructor
    · rintro ⟨⟨i, hik, rfl⟩, hn⟩
      rw [if_neg (indexFromLladdr_none.1 hi i hik), Consistent.index_removeKey h hk] at hn
      by_contra hb
      rw [if_neg hb] at hn
      exact Consistent.index_ne_none h hik hn
    · rintro rfl
      exact ⟨⟨key, hk, rfl⟩, by rw [if_neg hne.symm, Consistent.index_removeKey h hk, if_pos rfl]⟩
  have hmarked : ∀ u b, Uses (removeKey cfg s key false) u b ↔ Uses s u b ∧ b ≠ s.lladdr key := by
    intro u b
    refine Iff.trans ?_ (Consistent.marked_removeKey h hk false s.usedMap)
    unfold Uses
    rw [heq]
  constructor
  case inv => exact hinv
  case uses =>
    intro u b
    rw [huses, hmarked, hmem]
    simp [and_comm]
  case locks =>
    intro u b hb hlost
    rw [hmem] at hlost
    apply hlocks
    have hm' := (Consistent.marked_removeKey h hk false s.lockedMap).2 ⟨hb, hlost⟩
    unfold Locks
    rw [heq] at hm' ⊢
    exact hm'
  case kept =>
    intro b hb hlost
    rw [hmem] at hlost
    refine .of_index ?_ (fun u => ?_) fun j hj => ?_
    · rw [hindex, if_neg hb, Consistent.index_removeKey h hk, if_neg hlost]
    · rw [addItem_index, heq]
      rfl
    · have hji : j ≠ key := by
        rintro rfl
        exact hlost (indexFromLladdr_some hj).2.symm
      refine ⟨?_, ?_, fun u => ?_⟩
      · refine (nbrSetBit_item hji).trans ?_
        rw [heq]
        exact Function.update_of_ne hji _ _
      · rw [heq]
        exact Function.update_of_ne hji _ _
      · rw [addItem_data hji, heq]
        rfl
  case eviction =>
    refine .one key hk ?_ ha hl ?_
    · apply List.perm_singleton.1
      exact (List.perm_ext_iff_of_nodup (h.distinct.filter _) (List.nodup_singleton _)).2 fun b => by simp [← hmem, lost]
    · rw [heq]
      rfl

theorem nbrTableAddLladdr_spec (h : Inv cfg s) (ht : nbrTableIsRegistered s t = true) (a : Option A) :
    AddSpec cfg s t (a.getD cfg.linkaddrNull) (nbrTableAddLladdr cfg s t a) := by
  have hc := nbrTableAddLladdr_cases h t a
  revert hc
  generalize nbrTableAddLladdr cfg s t a = r
  generalize a.getD cfg.linkaddrNull = lladdr
  intro hc
  cases hc with
  | refused => exact addSpec_refused h
  | known i hi => exact addSpec_known h ht hi
  | fresh i mem hi ha => exact addSpec_fresh h ht hi ha
  | replaced k hi ha hk hl => exact addSpec_replaced h ht hi ha hk hl

end

end Contiki.NbrTable

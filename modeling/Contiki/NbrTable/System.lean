/-
Runs of calls on the neighbor tables, with the history of what they did to addresses: a table has an item for exactly
the addresses that were added to it and neither removed, evicted nor cleared since, and an add evicts at most one
address, never one that a table locked and did not release.
-/
import Contiki.Lib.Run
import Contiki.NbrTable.Calls

namespace Contiki.NbrTable

open Contiki.Core Contiki.Lib

set_option linter.unusedSectionVars false

inductive Event (T A : Type)
  | added (table : T) (lladdr : A)
  | removed (table : T) (lladdr : A)
  | locked (table : T) (lladdr : A)
  | unlocked (table : T) (lladdr : A)
  | evicted (lladdr : A)
  | cleared

/-- The calls, and the application writing to an item. -/
inductive Action (T A D C : Type)
  | register (table : T) (callback : Option C)
  | add (table : T) (lladdr : Option A)
  | remove (table : T) (item : Option Nat)
  | lock (table : T) (item : Option Nat)
  | unlock (table : T) (item : Option Nat)
  | write (table : T) (item : Nat) (d : D)
  | clear

/-- The tables and the events so far, the latest first. -/
structure World (T A D C : Type) where
  state : State T A D C
  history : List (Event T A)

variable {T A D C : Type} [DecidableEq T] [DecidableEq A]

@[grind =]
def itemEvent (s : State T A D C) (e : A → Event T A) : Option Nat → List (Event T A)
  | none => []
  | some item => if item ∈ s.nbrTableKeys then [e (s.lladdr item)] else []

def addEvents (s : State T A D C) (table : T) (lladdr : A) (r : State T A D C × Option Nat) : List (Event T A) :=
  (if r.2.isSome then [.added table lladdr] else []) ++ (lost s r.1).map .evicted

def Callable (cfg : Config A D C) (s : State T A D C) (table : T) (item : Option Nat) : Prop :=
  nbrTableIsRegistered s table = true ∧ ∀ i, item = some i → i < cfg.maxNeighbors

instance (cfg : Config A D C) (s : State T A D C) (table : T) (item : Option Nat) :
    Decidable (Callable cfg s table item) :=
  match item with
  | none => decidable_of_iff (nbrTableIsRegistered s table = true) (by simp [Callable])
  | some i => decidable_of_iff (nbrTableIsRegistered s table = true ∧ i < cfg.maxNeighbors) (by simp [Callable])

@[grind =]
def step (cfg : Config A D C) (w : World T A D C) : Action T A D C → Option (World T A D C)
  | .register table callback => some ⟨(nbrTableRegister w.state table callback).1, w.history⟩
  | .add table lladdr =>
    if Callable cfg w.state table none then
      let r := nbrTableAddLladdr cfg w.state table lladdr
      some ⟨r.1, addEvents w.state table (lladdr.getD cfg.linkaddrNull) r ++ w.history⟩
    else none
  | .remove table item =>
    if Callable cfg w.state table item then
      some ⟨(nbrTableRemove w.state table item).1, itemEvent w.state (.removed table) item ++ w.history⟩
    else none
  | .lock table item =>
    if Callable cfg w.state table item then
      some ⟨(nbrTableLock w.state table item).1, itemEvent w.state (.locked table) item ++ w.history⟩
    else none
  | .unlock table item =>
    if Callable cfg w.state table item then
      some ⟨(nbrTableUnlock w.state table item).1, itemEvent w.state (.unlocked table) item ++ w.history⟩
    else none
  | .write table item d =>
    if Callable cfg w.state table (some item) then some ⟨setItem w.state table item d, w.history⟩ else none
  | .clear => some ⟨nbrTableClear cfg w.state, .cleared :: w.history⟩

def World.init (cfg : Config A D C) : World T A D C := ⟨NbrTable.init cfg, []⟩

/-! ## What is claimed -/

/-- The address leaves the table. -/
def Event.Ends (t : T) (a : A) (e : Event T A) : Prop := e = .removed t a ∨ e = .evicted a ∨ e = .cleared

/-- The address was added to the table and since then neither removed from it nor evicted nor cleared. -/
def Present (history : List (Event T A)) (t : T) (a : A) : Prop :=
  Since (· = .added t a) (Event.Ends t a) history

/-- The table locked the address and since then neither unlocked it nor let it go. -/
def Held (history : List (Event T A)) (t : T) (a : A) : Prop :=
  Since (· = .locked t a) (fun e => e = .unlocked t a ∨ e.Ends t a) history

/-- What is claimed of the tables between two calls. -/
structure Good (w : World T A D C) : Prop where
  distinct : (w.state.nbrTableKeys.map w.state.lladdr).Nodup
  allocated : w.state.neighborAddrMem.Holds w.state.nbrTableKeys
  items : ∀ t, nbrTableIsRegistered w.state t = true →
    ∀ a, (nbrTableGetFromLladdr w.state t a).isSome ↔ Present w.history t a

/-- What is claimed of an address that is evicted: all blocks are taken, no table locks it, and each callback of a table
that uses it is called once while it is still on the list. -/
structure Evicts (cfg : Config A D C) (w : World T A D C) (s' : State T A D C) (e : A) : Prop where
  full : ∀ i < cfg.maxNeighbors, w.state.neighborAddrMem.used i = true
  unlocked : ∀ u, ¬ Held w.history u e
  calls : ∃ cs, s'.called = w.state.called ++ cs ∧ cs.Nodup ∧
    ∀ c, c ∈ cs ↔ ∃ u i, nbrTableIsRegistered w.state u = true ∧ (w.state.table u).callback.isSome ∧
      nbrTableGetFromLladdr w.state u e = some i ∧ c = ⟨u, i, w.state.nbrTableKeys⟩

/-- What is claimed of an add that leads to the state `s'`. -/
structure AddRight (cfg : Config A D C) (w : World T A D C) (a : A) (s' : State T A D C) : Prop where
  one : (lost w.state s').length ≤ 1
  quiet : lost w.state s' = [] → s'.called = w.state.called
  evicts : ∀ e ∈ lost w.state s', Evicts cfg w s' e
  kept : ∀ b, b ≠ a → b ∉ lost w.state s' → Kept w.state s' b

/-- What is claimed of a call. -/
def StepRight (cfg : Config A D C) (w : World T A D C) : Action T A D C → Prop
  | .add table lladdr =>
    AddRight cfg w (lladdr.getD cfg.linkaddrNull) (nbrTableAddLladdr cfg w.state table lladdr).1
  | _ => True

/-! ## The invariant of runs -/

variable {cfg : Config A D C} {w w' : World T A D C} {s : State T A D C} {t u : T} {a b : A} {i : Nat}

/-- The bits and the history agree. -/
structure World.Inv (cfg : Config A D C) (w : World T A D C) : Prop where
  state : NbrTable.Inv cfg w.state
  uses : ∀ t a, Uses w.state t a ↔ Present w.history t a
  locks : ∀ t a, Held w.history t a → Locks w.state t a

theorem World.init_inv (cfg : Config A D C) : World.Inv cfg (World.init cfg : World T A D C) := by
  constructor
  case state => exact NbrTable.init_inv cfg
  case uses =>
    intro t a
    constructor
    · rintro ⟨-, i, hi, -⟩
      cases hi
    · exact fun h => absurd h since_nil
  case locks => exact fun t a h => absurd h since_nil

theorem World.Inv.good (h : World.Inv cfg w) : Good w :=
  ⟨h.state.distinct, h.state.mem, fun t ht a => (Consistent.uses_iff h.state ht).trans (h.uses t a)⟩

theorem present_append {es hs : List (Event T A)} (h : ∀ e ∈ es, e ≠ .added t a) :
    Present (es ++ hs) t a ↔ (∀ e ∈ es, ¬ e.Ends t a) ∧ Present hs t a :=
  since_append h

theorem held_append {es hs : List (Event T A)} (h : ∀ e ∈ es, e ≠ .locked t a) :
    Held (es ++ hs) t a ↔ (∀ e ∈ es, ¬ (e = .unlocked t a ∨ e.Ends t a)) ∧ Held hs t a :=
  since_append h

theorem World.Inv.addRight (h : World.Inv cfg w) (ht : nbrTableIsRegistered w.state t = true) (a : Option A) :
    AddRight cfg w (a.getD cfg.linkaddrNull) (nbrTableAddLladdr cfg w.state t a).1 := by
  have hs := nbrTableAddLladdr_spec h.state ht a
  constructor
  case one =>
    cases hs.eviction with
    | none hl _ => simp [hl]
    | one k _ hl _ _ _ => simp [hl]
  case quiet =>
    intro hnil
    cases hs.eviction with
    | none _ hc => exact hc
    | one k _ hl _ _ _ => simp [hl] at hnil
  case evicts =>
    intro e he
    cases hs.eviction with
    | none hl _ => simp [hl] at he
    | one k hk hl ha hlock hc =>
      rw [hl, List.mem_singleton] at he
      subst he
      constructor
      case full =>
        rw [← h.state.num]
        exact Memb.alloc_eq_none.1 ha
      case unlocked =>
        intro u hheld
        obtain ⟨-, j, hj, hjk, hbit⟩ := h.locks u _ hheld
        rw [Consistent.inj h.state hj hk hjk, nbrGetBit_zero hlock] at hbit
        cases hbit
      case calls =>
        refine ⟨_, hc, Consistent.nodup_callsFor h.state k, fun c => ?_⟩
        rw [Consistent.mem_callsFor h.state]
        constructor
        · rintro ⟨u, hu, hcb, hbit, rfl⟩
          exact ⟨u, k, hu, hcb, nbrTableGet_some_iff.2 ⟨(Consistent.index_iff h.state).2 ⟨hk, rfl⟩, hbit⟩, rfl⟩
        · rintro ⟨u, j, hu, hcb, hget, rfl⟩
          obtain ⟨hj, hbit⟩ := nbrTableGet_some_iff.1 hget
          rw [(Consistent.index_iff h.state).2 ⟨hk, rfl⟩] at hj
          cases hj
          exact ⟨u, hu, hcb, hbit, rfl⟩
  case kept => exact hs.kept

/-! ## Each call -/

theorem World.Inv.add (h : World.Inv cfg w) (ht : nbrTableIsRegistered w.state t = true) (a : Option A) :
    World.Inv cfg ⟨(nbrTableAddLladdr cfg w.state t a).1,
      addEvents w.state t (a.getD cfg.linkaddrNull) (nbrTableAddLladdr cfg w.state t a) ++ w.history⟩ := by
  have hs := nbrTableAddLladdr_spec h.state ht a
  revert hs
  generalize nbrTableAddLladdr cfg w.state t a = r
  generalize a.getD cfg.linkaddrNull = lladdr
  intro hs
  have hends : ∀ (u : T) (b : A), (∀ e ∈ (lost w.state r.1).map Event.evicted, ¬ e.Ends u b) ↔ b ∉ lost w.state r.1 := by
    intro u b
    simp only [List.mem_map, Event.Ends]
    constructor
    · intro hall hb
      exact hall _ ⟨b, hb, rfl⟩ (.inr (.inl rfl))
    · rintro hb e ⟨c, hc, rfl⟩ (he | he | he)
      · cases he
      · cases he
        exact hb hc
      · cases he
  have hold : ∀ (u : T) (b : A), Present ((lost w.state r.1).map Event.evicted ++ w.history) u b ↔
      b ∉ lost w.state r.1 ∧ Present w.history u b := by
    intro u b
    rw [present_append (by simp), hends]
  constructor
  case state => exact hs.inv
  case uses =>
    intro u b
    rw [hs.uses, addEvents, List.append_assoc]
    by_cases hr : r.2.isSome = true
    · rw [if_pos hr, List.singleton_append, Present, since_cons]
      have hne : ¬ (Event.added t lladdr).Ends u b := by simp [Event.Ends]
      rw [← Present, hold, h.uses]
      simp [hr, hne, eq_comm]
    · rw [if_neg hr, List.nil_append, hold, h.uses]
      simp [hr]
  case locks =>
    intro u b hheld
    rw [held_append] at hheld
    · refine hs.locks u b (h.locks u b hheld.2) ((hends u b).1 fun e he hend => ?_)
      exact hheld.1 e (List.mem_append_right _ he) (.inr hend)
    · intro e he
      rcases List.mem_append.1 he with he | he
      · split at he
        · rw [List.mem_singleton.1 he]
          simp
        · cases he
      · obtain ⟨c, -, rfl⟩ := List.mem_map.1 he
        simp

theorem mem_itemEvent {f : A → Event T A} {e : Event T A} {item : Option Nat} :
    e ∈ itemEvent s f item ↔ ∃ i, item = some i ∧ i ∈ s.nbrTableKeys ∧ e = f (s.lladdr i) := by
  cases item with
  | none => simp [itemEvent]
  | some i =>
    by_cases hi : i ∈ s.nbrTableKeys
    · simp [itemEvent, hi]
    · simp [itemEvent, hi]

theorem World.Inv.remove (h : World.Inv cfg w) (ht : nbrTableIsRegistered w.state t = true) (item : Option Nat) :
    World.Inv cfg ⟨(nbrTableRemove w.state t item).1, itemEvent w.state (.removed t) item ++ w.history⟩ := by
  cases item with
  | none => exact h
  | some i =>
    have hends : ∀ (u : T) (b : A), (∀ e ∈ itemEvent w.state (Event.removed t) (some i), ¬ e.Ends u b) ↔
        ¬ (i ∈ w.state.nbrTableKeys ∧ u = t ∧ b = w.state.lladdr i) := by
      intro u b
      simp [mem_itemEvent, Event.Ends, eq_comm]
    constructor
    case state => exact Consistent.clearBit h.state _ i _
    case uses =>
      intro u b
      rw [present_append (by simp [mem_itemEvent]), hends, ← h.uses, and_comm]
      exact Consistent.marked_clear h.state ht i _
    case locks =>
      intro u b hheld
      rw [held_append (by simp [mem_itemEvent])] at hheld
      refine (Consistent.marked_clear h.state ht i _).2 ⟨h.locks u b hheld.2, (hends u b).1 fun e he hend => ?_⟩
      exact hheld.1 e he (.inr hend)

theorem World.Inv.lock (h : World.Inv cfg w) (ht : nbrTableIsRegistered w.state t = true) (item : Option Nat) :
    World.Inv cfg ⟨(nbrTableLock w.state t item).1, itemEvent w.state (.locked t) item ++ w.history⟩ := by
  cases item with
  | none => exact h
  | some i =>
    constructor
    case state => exact { h.state with }
    case uses =>
      intro u b
      rw [present_append (by simp [mem_itemEvent]), ← h.uses]
      simp only [mem_itemEvent, Event.Ends]
      constructor
      · refine fun hu => ⟨?_, hu⟩
        rintro e ⟨j, -, -, rfl⟩
        simp
      · exact fun hu => hu.2
    case locks =>
      intro u b hheld
      by_cases hi : i ∈ w.state.nbrTableKeys
      · rw [itemEvent, if_pos hi, List.singleton_append, Held, since_cons] at hheld
        refine (marked_set ht hi _).2 ?_
        rcases hheld with he | ⟨-, hheld⟩
        · cases he
          exact .inl ⟨rfl, rfl⟩
        · exact .inr (h.locks u b hheld)
      · -- the bit of a block without an address says nothing of those on the list
        rw [itemEvent, if_neg hi] at hheld
        obtain ⟨hu, j, hj, hb, hbit⟩ := h.locks u b hheld
        have hji : j ≠ i := by
          rintro rfl
          exact hi hj
        exact ⟨hu, j, hj, hb, (nbrGetBit_item (nbrSetBit_item hji)).trans hbit⟩

theorem World.Inv.unlock (h : World.Inv cfg w) (ht : nbrTableIsRegistered w.state t = true) (item : Option Nat) :
    World.Inv cfg ⟨(nbrTableUnlock w.state t item).1, itemEvent w.state (.unlocked t) item ++ w.history⟩ := by
  cases item with
  | none => exact h
  | some i =>
    constructor
    case state => exact { h.state with }
    case uses =>
      intro u b
      rw [present_append (by simp [mem_itemEvent]), ← h.uses]
      simp only [mem_itemEvent, Event.Ends]
      constructor
      · refine fun hu => ⟨?_, hu⟩
        rintro e ⟨j, -, -, rfl⟩
        simp
      · exact fun hu => hu.2
    case locks =>
      intro u b hheld
      rw [held_append (by simp [mem_itemEvent])] at hheld
      refine (Consistent.marked_clear h.state ht i _).2 ⟨h.locks u b hheld.2, ?_⟩
      rintro ⟨hi, rfl, rfl⟩
      exact hheld.1 _ (mem_itemEvent.2 ⟨i, rfl, hi, rfl⟩) (.inl rfl)

theorem World.Inv.write (h : World.Inv cfg w) (t : T) (i : Nat) (d : D) :
    World.Inv cfg ⟨setItem w.state t i d, w.history⟩ := by
  have hmarked : ∀ (bitmap : Nat → BitVec 8) (u : T) (b : A),
      Marked (setItem w.state t i d) bitmap u b ↔ Marked w.state bitmap u b := by
    intro bitmap u b
    unfold Marked nbrTableIsRegistered
    rw [setItem_index]
    rfl
  constructor
  case state =>
    refine { h.state with place := fun j u hu => ?_ }
    rw [setItem_index]
    exact h.state.place j u hu
  case uses => exact fun u b => (hmarked _ u b).trans (h.uses u b)
  case locks => exact fun u b hheld => (hmarked _ u b).2 (h.locks u b hheld)

theorem World.Inv.clear (h : World.Inv cfg w) : World.Inv cfg ⟨nbrTableClear cfg w.state, .cleared :: w.history⟩ := by
  obtain ⟨hinv, hkeys⟩ := nbrTableClear_spec h.state
  have hempty : ∀ (bitmap : Nat → BitVec 8) (u : T) (b : A), ¬ Marked (nbrTableClear cfg w.state) bitmap u b := by
    rintro bitmap u b ⟨-, i, hi, -⟩
    rw [hkeys] at hi
    cases hi
  constructor
  case state => exact hinv
  case uses =>
    intro u b
    rw [Present, since_cons]
    simp only [Event.Ends]
    constructor
    · exact fun hu => absurd hu (hempty _ u b)
    · rintro (he | ⟨hne, -⟩)
      · cases he
      · simp at hne
  case locks =>
    intro u b hheld
    rw [Held, since_cons] at hheld
    rcases hheld with he | ⟨hne, -⟩
    · cases he
    · simp [Event.Ends] at hne

theorem World.Inv.again (h : World.Inv cfg w) (t : T) (callback : Option C) :
    World.Inv cfg ⟨{ w.state with
      table := Function.update w.state.table t { w.state.table t with callback := callback } }, w.history⟩ := by
  have hindex : ∀ u, (Function.update w.state.table t { w.state.table t with callback := callback } u).index =
      (w.state.table u).index := by
    intro u
    by_cases hu : u = t
    · subst hu
      simp
    · simp [hu]
  have hmarked : ∀ (bitmap : Nat → BitVec 8) (u : T) (b : A), Marked { w.state with
      table := Function.update w.state.table t { w.state.table t with callback := callback } } bitmap u b ↔
      Marked w.state bitmap u b := by
    intro bitmap u b
    unfold Marked nbrTableIsRegistered
    rw [hindex]
  constructor
  case state =>
    refine { h.state with place := fun j u hu => ?_ }
    rw [hindex]
    exact h.state.place j u hu
  case uses => exact fun u b => (hmarked _ u b).trans (h.uses u b)
  case locks => exact fun u b hheld => (hmarked _ u b).2 (h.locks u b hheld)

def enterTable (s : State T A D C) (t : T) (callback : Option C) : State T A D C :=
  { s with
    numTables := s.numTables + 1
    table := Function.update s.table t { s.table t with index := s.numTables, callback := callback }
    allTables := Function.update s.allTables s.numTables (some t) }

theorem World.Inv.enter (h : World.Inv cfg w) (ht : ¬ nbrTableIsRegistered w.state t = true)
    (hlt : w.state.numTables < MAX_NUM_TABLES) (callback : Option C) :
    World.Inv cfg ⟨enterTable w.state t callback, w.history⟩ := by
  have hother : ∀ (i : Nat) (u : T), w.state.allTables i = some u → i ≠ w.state.numTables ∧ u ≠ t := by
    intro i u hu
    refine ⟨Nat.ne_of_lt (h.state.place i u hu).2, ?_⟩
    rintro rfl
    exact ht ((Consistent.registered h.state).2 ⟨i, hu⟩)
  have htable : ∀ u, u ≠ t → (enterTable w.state t callback).table u = w.state.table u :=
    fun u hu => Function.update_of_ne hu _ _
  have hindex : ((enterTable w.state t callback).table t).index = w.state.numTables := by
    simp [enterTable]
  have hall : ∀ i u, (enterTable w.state t callback).allTables i = some u ↔
      (i = w.state.numTables ∧ u = t) ∨ w.state.allTables i = some u := by
    intro i u
    by_cases hi : i = w.state.numTables
    · subst hi
      have hfree : w.state.allTables w.state.numTables ≠ some u := fun hu => (hother _ u hu).1 rfl
      simp [enterTable, hfree, eq_comm]
    · simp [enterTable, hi]
  have hstate : NbrTable.Inv cfg (enterTable w.state t callback) := by
    refine { h.state with place := fun i u hu => ?_, tables := hlt, ungiven := fun i k hk => ?_ }
    · rcases (hall i u).1 hu with ⟨rfl, rfl⟩ | hu
      · exact ⟨hindex, Nat.lt_succ_self _⟩
      · rw [htable u (hother i u hu).2]
        exact ⟨(h.state.place i u hu).1, Nat.lt_succ_of_lt (h.state.place i u hu).2⟩
    · exact h.state.ungiven i k (Nat.le_of_succ_le hk)
  -- what was registered stays so, with its index
  have hmarked : ∀ (bitmap : Nat → BitVec 8) (u : T) (b : A), u ≠ t →
      (Marked (enterTable w.state t callback) bitmap u b ↔ Marked w.state bitmap u b) := by
    intro bitmap u b hu
    unfold Marked
    rw [Consistent.registered hstate, Consistent.registered h.state, htable u hu]
    simp only [hall, hu, and_false, false_or]
    rfl
  constructor
  case state => exact hstate
  case uses =>
    intro u b
    by_cases hu : u = t
    · subst hu
      rw [← h.uses]
      constructor
      · rintro ⟨-, i, -, -, hbit⟩
        simp only [hindex] at hbit
        exact absurd ((h.state.ungiven i _ le_rfl).symm.trans hbit) (by simp)
      · exact fun hm => absurd hm.1 ht
    · exact (hmarked _ u b hu).trans (h.uses u b)
  case locks =>
    intro u b hheld
    have hl := h.locks u b hheld
    have hu : u ≠ t := by
      rintro rfl
      exact ht hl.1
    exact (hmarked _ u b hu).2 hl

theorem World.Inv.register (h : World.Inv cfg w) (t : T) (callback : Option C) :
    World.Inv cfg ⟨(nbrTableRegister w.state t callback).1, w.history⟩ := by
  unfold nbrTableRegister
  split
  · exact h.again t callback
  · rename_i ht
    split
    · exact h.enter ht ‹_› callback
    · exact h

/-! ## Runs -/

theorem step_inv (action : Action T A D C) (h : World.Inv cfg w) (hs : step cfg w action = some w') :
    World.Inv cfg w' := by
  cases action with
  | register t callback =>
    cases hs
    exact h.register t callback
  | clear =>
    cases hs
    exact h.clear
  | write t i d =>
    simp only [step, Option.ite_none_right_eq_some, Option.some.injEq] at hs
    obtain ⟨-, rfl⟩ := hs
    exact h.write t i d
  | add t a =>
    simp only [step, Option.ite_none_right_eq_some, Option.some.injEq] at hs
    obtain ⟨ht, rfl⟩ := hs
    exact h.add ht.1 a
  | remove t item =>
    simp only [step, Option.ite_none_right_eq_some, Option.some.injEq] at hs
    obtain ⟨ht, rfl⟩ := hs
    exact h.remove ht.1 item
  | lock t item =>
    simp only [step, Option.ite_none_right_eq_some, Option.some.injEq] at hs
    obtain ⟨ht, rfl⟩ := hs
    exact h.lock ht.1 item
  | unlock t item =>
    simp only [step, Option.ite_none_right_eq_some, Option.some.injEq] at hs
    obtain ⟨ht, rfl⟩ := hs
    exact h.unlock ht.1 item

def Right (cfg : Config A D C) (w : World T A D C) (action : Action T A D C) : Prop :=
  (step cfg w action).isSome → StepRight cfg w action

theorem World.Inv.right (h : World.Inv cfg w) (action : Action T A D C) : Right cfg w action := by
  intro hs
  cases action with
  | add t a =>
    by_cases ht : Callable cfg w.state t none
    · exact h.addRight ht.1 a
    · simp [step, ht] at hs
  | register => trivial
  | remove => trivial
  | lock => trivial
  | unlock => trivial
  | write => trivial
  | clear => trivial

/-- All along every run, the key list and the items agree with the history, and every add evicts as it should. -/
theorem nbrTable_run (cfg : Config A D C) (actions : List (Action T A D C)) :
    AllStates (step cfg) Good (World.init cfg) actions ∧ AllSteps (step cfg) (Right cfg) (World.init cfg) actions := by
  have hstep : ∀ (w : World T A D C) action w', World.Inv cfg w → step cfg w action = some w' → World.Inv cfg w' :=
    fun w action w' h hs => step_inv action h hs
  exact ⟨(allStates_of_invariant hstep actions (World.init_inv cfg)).mono fun w h => h.good,
    allSteps_of_invariant hstep (fun w action h => h.right action) actions (World.init_inv cfg)⟩

end Contiki.NbrTable

/-
When the search of replace_candidate_cell can end. The loop over the blacklist counts only when it reaches an element, so
nothing is accepted while the blacklist is empty. Otherwise every timeslot has a channel that the loop lets through: the
cells that were pushed are cells of the network's table, which has one channel for a timeslot.
-/
import Contiki.CellAlloc.Search
import Contiki.Lib.Run

namespace Contiki.CellAlloc

section

open Contiki.Lib Contiki.SfSimple Contiki.Tsch

/-! ## Reachable states -/

/-- The states that the module can be in: after its initialization, after candidates were replaced, and after candidates
that are interfered with were pushed. -/
inductive Reachable (A : Type) : Alloc → Prop
  | init {draws rest : List Draw} {a : Alloc} (h : initAdvancedCellAlloc draws .zero = some (a, rest)) : Reachable A a
  | look {a : Alloc} (accesses : List Access) (h : Reachable A a) : Reachable A (a.access accesses)
  | replace {s : Schedule A} {behind : Nat → Cell} {timeslot : UInt16} {draws rest : List Draw} {a a' : Alloc}
      (h : Reachable A a) (hr : replaceCandidateCell s behind timeslot draws a = some (a', rest)) : Reachable A a'
  | push {i : Nat} {a : Alloc} (h : Reachable A a) (hi : i < candCellListLen) (hc : a.cand i ∈ networkInterfereCells) :
      Reachable A (push (a.cand i) a)

section

variable {A : Type} {s : Schedule A} {behind : Nat → Cell} {i : Nat} {a a' : Alloc} {draws rest : List Draw}

/-! ## The blacklist -/

def Listed (b : RingBuffer Cell) : Prop := ∃ xs, b.Holds blacklistMaxSize xs ∧ ∀ c ∈ xs, c ∈ networkInterfereCells

theorem replaceCandidateCell_blacklist {timeslot : UInt16}
    (h : replaceCandidateCell s behind timeslot draws a = some (a', rest)) : a'.blacklist = a.blacklist := by
  cases hat : candidateAt timeslot a with
  | none =>
    simp only [replaceCandidateCell, hat] at h
    cases h
    rfl
  | some i => exact (replaceCandidateCell_cell h hat).1.blacklist

theorem Reachable.listed (h : Reachable A a) : Listed a.blacklist := by
  induction h with
  | init h =>
    obtain ⟨r, -, hr⟩ := Option.map_eq_some_iff.1 h
    cases hr
    exact ⟨[], r.1.blacklist.clear_holds _, fun c hc => by cases hc⟩
  | look _ _ ih => exact ih
  | replace _ hr ih => rwa [replaceCandidateCell_blacklist hr]
  | push _ _ hc ih =>
    obtain ⟨xs, hholds, hxs⟩ := ih
    refine ⟨_, hholds.push _, fun c hmem => ?_⟩
    rcases List.mem_append.1 hmem with hmem | hmem
    · exact hxs c hmem
    · rwa [List.mem_singleton.1 hmem]

theorem networkInterfereCells_timeslots : (networkInterfereCells.map Cell.timeslotOffset).Nodup := by decide

def channelAt (timeslot : UInt16) : UInt16 :=
  ((networkInterfereCells.find? fun c => c.timeslotOffset = timeslot).map Cell.channelOffset).getD 0

theorem channelAt_eq {c : Cell} (hc : c ∈ networkInterfereCells) : c.channelOffset = channelAt c.timeslotOffset := by
  have hfound : networkInterfereCells.find? (fun d => decide (d.timeslotOffset = c.timeslotOffset)) = some c := by
    cases hf : networkInterfereCells.find? (fun d => decide (d.timeslotOffset = c.timeslotOffset)) with
    | none =>
      have hnone := List.find?_eq_none.1 hf c hc
      simp at hnone
    | some d =>
      have hd : d.timeslotOffset = c.timeslotOffset := by simpa using List.find?_some hf
      rw [List.inj_on_of_nodup_map networkInterfereCells_timeslots (List.mem_of_find?_eq_some hf) hc hd]
  rw [channelAt, hfound]
  rfl

theorem exists_channel (c c' : UInt16) : ∃ ch : UInt16, ch.toNat < 4 ∧ ch ≠ 0 ∧ ch ≠ c ∧ ch ≠ c' := by
  by_contra hnone
  have hblocked : ∀ ch : UInt16, ch.toNat < 4 → ch ≠ 0 → ch = c ∨ ch = c' := by
    intro ch hlt hne
    by_contra hboth
    exact hnone ⟨ch, hlt, hne, fun he => hboth (Or.inl he), fun he => hboth (Or.inr he)⟩
  have h₁ := hblocked 1 (by decide) (by decide)
  have h₂ := hblocked 2 (by decide) (by decide)
  have h₃ := hblocked 3 (by decide) (by decide)
  have h₁₂ : (1 : UInt16) ≠ 2 := by decide
  have h₁₃ : (1 : UInt16) ≠ 3 := by decide
  have h₂₃ : (2 : UInt16) ≠ 3 := by decide
  grind

theorem exists_clear_channel {b : RingBuffer Cell} (h : Listed b) (behind : Nat → Cell) (timeslot : UInt16) :
    ∃ ch : UInt16, ch.toNat < 4 ∧ ∀ k ∈ blacklisted b, bufferAt b behind k ≠ ⟨timeslot, ch⟩ := by
  obtain ⟨xs, hholds, hxs⟩ := h
  obtain ⟨ch, hlt, hzero, htable, hbehind⟩ := exists_channel (channelAt timeslot) (behind 0).channelOffset
  refine ⟨ch, hlt, fun k hk he => ?_⟩
  have hsize : blacklistMaxSize = 5 := rfl
  have hhead := hholds.head
  have hcount := hholds.count
  have htail := hholds.tail
  have hmod := Nat.mod_lt xs.length (show 0 < 5 by decide)
  rw [hsize] at hhead hcount htail
  obtain ⟨j, hj, rfl⟩ := List.mem_map.1 hk
  rw [List.mem_range] at hj
  have hint : ∀ n < 65536, (intCell n).channelOffset = 0 := by
    intro n hn
    rw [intCell, Nat.div_eq_of_lt hn]
    rfl
  unfold bufferAt at he
  split at he
  · next hin =>
    -- a cell that was pushed
    rw [hsize] at hin
    have hused : b.head + j < b.count := by
      split at hhead <;> omega
    have hmem := List.mem_of_mem_drop ((hholds.mem_iff (by decide) _).1 ⟨b.head + j, hused, rfl⟩)
    have hchannel := channelAt_eq (hxs _ hmem)
    rw [he] at hchannel
    exact htable hchannel
  · split at he
    · exact hzero ((congrArg Cell.channelOffset he).symm.trans (hint _ (by split at hhead <;> omega)))
    · split at he
      · exact hzero ((congrArg Cell.channelOffset he).symm.trans (hint _ (by omega)))
      · split at he
        · exact hzero ((congrArg Cell.channelOffset he).symm.trans (hint _ (by omega)))
        · -- the cell behind `count`
          have hfirst : b.head + j - (blacklistMaxSize + 3) = 0 := by
            split at hhead <;> omega
          rw [hfirst] at he
          exact hbehind (congrArg Cell.channelOffset he).symm

/-! ## When the search can end -/

def FreeSlot (s : Schedule A) (a : Alloc) : Prop := ∃ slot, ValidSlot slot ∧ occupied s slot = false ∧
  ∀ j < candCellListLen, (a.cand j).timeslotOffset ≠ slot

/-- A timeslot without a link that no other candidate has; if it is the one of candidate `i`, there is another one to
which that can be moved meanwhile. -/
def FreeFor (s : Schedule A) (i : Nat) (a : Alloc) : Prop := ∃ slot, ValidSlot slot ∧ occupied s slot = false ∧
  (∀ j < candCellListLen, j ≠ i → (a.cand j).timeslotOffset ≠ slot) ∧
  ((a.cand i).timeslotOffset ≠ slot ∨ ∃ slot', ValidSlot slot' ∧ occupied s slot' = false ∧ slot' ≠ slot)

theorem search_one {d : Draw} (h : Accepts s behind d a) : search s behind i [d] a =
    some ((searchRound s behind i d a).1, []) := if_pos (searchRound_last.2 h)

theorem search_two {d d' : Draw} (h : Accepts s behind d (searchRound s behind i d' a).1) :
    ∃ r, search s behind i [d', d] a = some r := by
  rw [search]
  split
  · exact ⟨_, rfl⟩
  · exact ⟨_, search_one h⟩

theorem exists_draw (hlist : Listed a.blacklist) (behind : Nat → Cell) {slot : UInt16} (hslot : ValidSlot slot) :
    ∃ d : Draw, d.timeslot = slot ∧ ∀ k ∈ blacklisted a.blacklist, bufferAt a.blacklist behind k ≠ d.cell := by
  obtain ⟨ch, hlt, hclear⟩ := exists_clear_channel hlist behind slot
  have hcell := Draw.exists_cell hslot hlt
  refine ⟨(slot, ch), congrArg Cell.timeslotOffset hcell, fun k hk => ?_⟩
  rw [hcell]
  exact hclear k hk

theorem searchRound_stores {d : Draw} (hocc : occupied s d.timeslot = false) (hpos : 0 < a.blacklist.count)
    (hclear : ∀ k ∈ blacklisted a.blacklist, bufferAt a.blacklist behind k ≠ d.cell) :
    (searchRound s behind i d a).1.cand i = d.cell := by
  have hpass : passes (fun k => bufferAt a.blacklist behind k == d.cell) (blacklisted a.blacklist) = true :=
    passes_iff.2 ⟨blacklisted_ne_nil.2 hpos, fun k hk => by simpa using hclear k hk⟩
  unfold searchRound
  rw [if_neg (by rw [hocc]; exact Bool.false_ne_true)]
  dsimp only
  rw [if_pos hpass, Alloc.put_same]

theorem ends_next (hlist : Listed a.blacklist) (hpos : 0 < a.blacklist.count) (behind : Nat → Cell)
    (hfree : FreeSlot s a) : ∃ d, Accepts s behind d a := by
  obtain ⟨slot, hslot, hocc, hnew⟩ := hfree
  obtain ⟨d, rfl, hclear⟩ := exists_draw hlist behind hslot
  exact ⟨d, hocc, hnew, hpos, hclear⟩

theorem ends_eventually (hlist : Listed a.blacklist) (hpos : 0 < a.blacklist.count) (behind : Nat → Cell)
    (hi : i < candCellListLen) (hfree : FreeFor s i a) : ∃ draws r, search s behind i draws a = some r := by
  obtain ⟨slot, hslot, hocc, hothers, hcase⟩ := hfree
  by_cases hown : (a.cand i).timeslotOffset = slot
  · obtain ⟨slot', hslot', hocc', hne⟩ := hcase.resolve_left fun h => h hown
    obtain ⟨d', rfl, hclear'⟩ := exists_draw hlist behind hslot'
    have hround := searchRound_rounded s behind hi d' a
    have hstored := searchRound_stores (i := i) hocc' hpos hclear'
    obtain ⟨d, rfl, hclear⟩ := exists_draw (a := (searchRound s behind i d' a).1) (hround.blacklist ▸ hlist) behind hslot
    have haccepts : Accepts s behind d (searchRound s behind i d' a).1 := by
      refine ⟨hocc, fun j hj => ?_, hround.blacklist ▸ hpos, hclear⟩
      by_cases hji : j = i
      · rw [hji, hstored]
        exact hne
      · rw [hround.others j hji]
        exact hothers j hj hji
    exact ⟨_, search_two haccepts⟩
  · have hall : FreeSlot s a := by
      refine ⟨slot, hslot, hocc, fun j hj => ?_⟩
      by_cases hji : j = i
      · rw [hji]
        exact hown
      · exact hothers j hj hji
    obtain ⟨d, hd⟩ := ends_next hlist hpos behind hall
    exact ⟨_, _, search_one hd⟩

theorem replaceCandidateCell_eq {timeslot : UInt16} (hat : candidateAt timeslot a = some i) (draws : List Draw) :
    replaceCandidateCell s behind timeslot draws a = search s behind i draws (a.access
      ((looked (fun i => (a.cand i).timeslotOffset == timeslot) (List.range candCellListLen)).map .cand)) := by
  simp only [replaceCandidateCell, hat]

/-- For every reachable state, every schedule and every timeslot of a candidate: with a free timeslot the next draw can
end the search of `replace_candidate_cell`, and some draws can in any case, exactly when the blacklist is not empty and
there is a timeslot for the candidate. -/
theorem search_ends_iff (hr : Reachable A a) (s : Schedule A) (behind : Nat → Cell) {timeslot : UInt16}
    (hat : candidateAt timeslot a = some i) :
    ((FreeSlot s a → ∃ d a', replaceCandidateCell s behind timeslot [d] a = some (a', [])) ∧
      ∃ draws r, replaceCandidateCell s behind timeslot draws a = some r) ↔ 0 < a.blacklist.count ∧ FreeFor s i a := by
  obtain ⟨hi, -⟩ := candidateAt_some hat
  constructor
  · rintro ⟨-, draws, ⟨a', rest⟩, h⟩
    obtain ⟨a₁, d, hrounds, haccepts, -⟩ := replaceCandidateCell_ends h hat
    have hpos := haccepts.nonempty
    rw [hrounds.blacklist] at hpos
    refine ⟨hpos, d.timeslot, d.timeslot_valid, haccepts.unoccupied, fun j hj hne => ?_, ?_⟩
    · rw [← hrounds.others j hne]
      exact haccepts.new j hj
    · rcases hrounds.cand with he | ⟨hvalid, hocc⟩
      · rw [← he]
        exact Or.inl (haccepts.new i hi)
      · exact Or.inr ⟨_, hvalid, hocc, haccepts.new i hi⟩
  · rintro ⟨hpos, hfree⟩
    simp only [replaceCandidateCell_eq hat]
    have hlist := hr.listed
    constructor
    · intro hslot
      obtain ⟨d, hd⟩ := ends_next (a := a.access _) hlist hpos behind hslot
      exact ⟨d, _, search_one hd⟩
    · exact ends_eventually (a := a.access _) hlist hpos behind hi hfree

end

/-- Draws with which the candidates are (2, 3) and then (21, 0) to (28, 0). -/
def nineDraws : List Draw := (2, 3) :: (List.range 8).map fun k => (UInt16.ofNat (21 + k), 0)

theorem init_nineDraws : ∃ a, initAdvancedCellAlloc nineDraws .zero = some (a, []) ∧ candidateAt 2 a = some 0 ∧
    a.cand 0 = ⟨2, 3⟩ ∧ a.blacklist.count = 0 ∧ FreeSlot unscheduled a :=
  ⟨_, rfl, by decide, by decide, by decide, 50, ⟨by decide, by decide⟩, by decide, by decide⟩

/-- After its candidate (2, 3) was pushed, the search for its replacement can end. -/
theorem search_ends_pushed : ∃ a, Reachable Unit a ∧ candidateAt 2 a = some 0 ∧
    ((FreeSlot unscheduled a → ∃ d a', replaceCandidateCell unscheduled (fun _ => ⟨0, 0⟩) 2 [d] a = some (a', [])) ∧
      ∃ draws r, replaceCandidateCell unscheduled (fun _ => ⟨0, 0⟩) 2 draws a = some r) := by
  obtain ⟨a, hinit, hat, hcell, hcount, slot, hslot, hocc, hnew⟩ := init_nineDraws
  have hreach : Reachable Unit (push (a.cand 0) a) := (Reachable.init hinit).push (by decide) (by rw [hcell]; decide)
  refine ⟨_, hreach, hat, (search_ends_iff hreach unscheduled _ hat).2 ⟨?_, slot, hslot, hocc, fun j hj _ => hnew j hj,
    Or.inl (hnew 0 (by decide))⟩⟩
  have hpushed : (push (a.cand 0) a).blacklist.count =
      if a.blacklist.count = blacklistMaxSize then a.blacklist.count else a.blacklist.count + 1 := rfl
  rw [hpushed, hcount]
  decide

/-- After the initialization the blacklist is empty, and no draws end the search for a replacement of (2, 3). -/
theorem empty_blacklist_endless : ∃ a, Reachable Unit a ∧ candidateAt 2 a = some 0 ∧ FreeSlot unscheduled a ∧
    ¬ ∃ draws r, replaceCandidateCell unscheduled (fun _ => ⟨0, 0⟩) 2 draws a = some r := by
  obtain ⟨a, hinit, hat, -, hcount, hfree⟩ := init_nineDraws
  refine ⟨a, .init hinit, hat, hfree, ?_⟩
  rintro ⟨draws, ⟨a', rest⟩, h⟩
  obtain ⟨a₁, d, hrounds, haccepts, -⟩ := replaceCandidateCell_ends h hat
  have hpos := haccepts.nonempty
  rw [hrounds.blacklist, hcount] at hpos
  exact absurd hpos (by decide)

end

/-!
Runs of the module after its initialization: calls of replace_candidate_cell, and calls of update_cand_cell_list, which
make one comparison after the other. A candidate that is replaced gets a timeslot of no other candidate, so the nine of
them stay different; only the update reads the list at another place than it should, behind its last element.
-/

section

open Contiki.Lib Contiki.SfSimple Contiki.Tsch

/-! ## Runs -/

/-- Where the module is: between calls, with what `update_cand_cell_list` returned if it was the last call, or in an
update, with the comparisons that are left and the value to return. -/
inductive Phase
  | idle (returned : Option Bool)
  | updating (left : List (Nat × Cell)) (ret : Bool)

structure World where
  alloc : Alloc
  phase : Phase

/-- A call of `replace_candidate_cell` or `update_cand_cell_list`, or the next comparison of an update, with the schedule
as it is then, the memory behind the blacklist and the numbers that are drawn. -/
inductive Action (A : Type)
  | replace (s : Schedule A) (behind : Nat → Cell) (timeslot : UInt16) (draws : List Draw)
  | update
  | comparison (s : Schedule A) (behind : Nat → Cell) (draws : List Draw)

def Phase.next (left : List (Nat × Cell)) (ret : Bool) : Phase :=
  if left = [] then .idle (some ret) else .updating left ret

variable {A : Type}

@[grind =]
def step (w : World) : Action A → Option World
  | .replace s behind timeslot draws => match w.phase with
    | .idle _ => (replaceCandidateCell s behind timeslot draws w.alloc).map fun r => ⟨r.1, .idle none⟩
    | .updating _ _ => none
  | .update => match w.phase with
    | .idle _ => some ⟨w.alloc, .updating comparisons false⟩
    | .updating _ _ => none
  | .comparison s behind draws => match w.phase with
    | .updating (p :: left) ret =>
      (compare s behind p.1 p.2 draws w.alloc).map fun r => ⟨r.1, .next left (ret || r.2.2)⟩
    | _ => none

/-- A call of `update_cand_cell_list` is such a run. -/
theorem updateLoop_run {s : Schedule A} {behind : Nat → Cell} : ∀ {left : List (Nat × Cell)} {ret found : Bool}
    {draws rest : List Draw} {a a' : Alloc}, left ≠ [] → updateLoop s behind left ret draws a = some (a', rest, found) →
    ∃ actions : List (Action A), exec step ⟨a, .updating left ret⟩ actions = some ⟨a', .idle (some found)⟩
  | [], _, _, _, _, _, _, hne, _ => absurd rfl hne
  | p :: left, ret, found, draws, rest, a, a', _, h => by
    obtain ⟨r, hcmp, h⟩ := Option.bind_eq_some_iff.1 h
    have hstep : step ⟨a, .updating (p :: left) ret⟩ (.comparison s behind draws) =
        some ⟨r.1, .next left (ret || r.2.2)⟩ := by
      simp only [step, hcmp, Option.map_some]
    cases left with
    | nil =>
      cases h
      exact ⟨[.comparison s behind draws], (exec_cons hstep []).trans rfl⟩
    | cons q left =>
      obtain ⟨actions, hrun⟩ := updateLoop_run (List.cons_ne_nil q left) h
      exact ⟨.comparison s behind draws :: actions, (exec_cons hstep actions).trans hrun⟩

theorem updateCandCellList_run {s : Schedule A} {behind : Nat → Cell} {draws rest : List Draw} {a a' : Alloc}
    {ret : Bool} {last : Option Bool} (h : updateCandCellList s behind draws a = some (a', rest, ret)) :
    ∃ actions : List (Action A), exec step ⟨a, .idle last⟩ (.update :: actions) = some ⟨a', .idle (some ret)⟩ := by
  obtain ⟨actions, hrun⟩ := updateLoop_run (by decide) h
  exact ⟨actions, (exec_cons rfl actions).trans hrun⟩

/-! ## What is to hold -/

/-- The candidates have different timeslots, all of them valid, and no element behind the list was accessed. -/
structure Candidates (a : Alloc) : Prop where
  distinct : ∀ j < candCellListLen, ∀ k < candCellListLen, (a.cand j).timeslotOffset = (a.cand k).timeslotOffset → j = k
  valid : ∀ j < candCellListLen, ValidSlot (a.cand j).timeslotOffset
  inside : ∀ i, .cand i ∈ a.log → i < candCellListLen

/-- The candidates are right, and after an update that returned 0 none of them is a cell of the table. -/
structure World.Right (w : World) : Prop where
  candidates : Candidates w.alloc
  clear : w.phase = .idle (some false) → ∀ j < candCellListLen, w.alloc.cand j ∉ networkInterfereCells

/-- The condition on a step: an update does not find the last candidate to be interfered with. -/
def LastClear (w : World) : Action A → Prop
  | .comparison _ _ _ => ∀ p left ret, w.phase = .updating (p :: left) ret →
    p.1 + 1 < candCellListLen ∨ w.alloc.cand p.1 ≠ p.2
  | _ => True

/-- What holds in an update: the comparisons that were made found nothing if 0 is to be returned. -/
def Phase.Ok (a : Alloc) : Phase → Prop
  | idle returned => returned = some false → ∀ p ∈ comparisons, a.cand p.1 ≠ p.2
  | updating left ret => ∃ made, comparisons = made ++ left ∧ (ret = false → ∀ p ∈ made, a.cand p.1 ≠ p.2)

structure World.Inv (w : World) : Prop where
  candidates : Candidates w.alloc
  phase : w.phase.Ok w.alloc

theorem Phase.ok_next {a : Alloc} {made left : List (Nat × Cell)} {p : Nat × Cell} {ret : Bool}
    (hmade : comparisons = made ++ [p] ++ left) (hclear : ret = false → ∀ q ∈ made, a.cand q.1 ≠ q.2)
    (hne : a.cand p.1 ≠ p.2) : (Phase.next left (ret || false)).Ok (a.access [.cand p.1]) := by
  have hall : ret = false → ∀ q ∈ made ++ [p], a.cand q.1 ≠ q.2 := by
    intro hret q hq
    rcases List.mem_append.1 hq with hq | hq
    · exact hclear hret q hq
    · rw [List.mem_singleton.1 hq]
      exact hne
  rw [Bool.or_false]
  cases left with
  | nil =>
    rw [List.append_nil] at hmade
    rintro hret
    cases hret
    rw [hmade]
    exact hall rfl
  | cons q left => exact ⟨made ++ [p], hmade, hall⟩

theorem Phase.ok_next_true {made left : List (Nat × Cell)} {ret : Bool} (hmade : comparisons = made ++ left) (a : Alloc) :
    (Phase.next left (ret || true)).Ok a := by
  rw [Bool.or_true]
  cases left with
  | nil => rintro ⟨⟩
  | cons q left => exact ⟨made, hmade, by rintro ⟨⟩⟩

theorem mem_comparisons {p : Nat × Cell} : p ∈ comparisons ↔ p.1 < candCellListLen ∧ p.2 ∈ networkInterfereCells := by
  rw [comparisons, List.mem_flatMap]
  constructor
  · rintro ⟨i, hi, hp⟩
    obtain ⟨c, hc, rfl⟩ := List.mem_map.1 hp
    exact ⟨List.mem_range.1 hi, hc⟩
  · rintro ⟨hi, hc⟩
    exact ⟨p.1, List.mem_range.2 hi, List.mem_map.2 ⟨p.2, hc, rfl⟩⟩

theorem World.Inv.right {w : World} (h : w.Inv) : w.Right := by
  refine ⟨h.candidates, fun hphase j hj hmem => ?_⟩
  have hok := h.phase
  rw [hphase] at hok
  exact hok rfl (j, w.alloc.cand j) (mem_comparisons.2 ⟨hj, hmem⟩) rfl

/-! ## Steps -/

section

variable {s : Schedule A} {behind : Nat → Cell} {timeslot : UInt16} {draws rest : List Draw} {a a' : Alloc}

theorem Candidates.access (h : Candidates a) {i : Nat} (hi : i < candCellListLen) : Candidates (a.access [.cand i]) := by
  refine ⟨h.distinct, h.valid, fun j hj => ?_⟩
  rcases List.mem_append.1 hj with hj | hj
  · exact h.inside j hj
  · cases List.mem_singleton.1 hj
    exact hi

theorem Candidates.push (h : Candidates a) (c : Cell) : Candidates (push c a) := by
  refine ⟨h.distinct, h.valid, fun j hj => ?_⟩
  rcases List.mem_append.1 hj with hj | hj
  · exact h.inside j hj
  · cases List.mem_singleton.1 hj

theorem Candidates.replace (h : Candidates a)
    (hr : replaceCandidateCell s behind timeslot draws a = some (a', rest)) : Candidates a' := by
  cases hat : candidateAt timeslot a with
  | none =>
    simp only [replaceCandidateCell, hat] at hr
    cases hr
    refine ⟨h.distinct, h.valid, fun i hi => ?_⟩
    rcases List.mem_append.1 hi with hi | hi
    · exact h.inside i hi
    · obtain ⟨j, hj, he⟩ := List.mem_map.1 hi
      cases he
      exact List.mem_range.1 (mem_of_looked hj)
  | some i =>
    obtain ⟨hrounded, hvalid, -, hdistinct⟩ := replaceCandidateCell_cell hr hat
    refine ⟨fun j hj k hk he => ?_, fun j hj => ?_, fun j hj => ?_⟩
    · by_cases hji : j = i
      · by_cases hki : k = i
        · rw [hji, hki]
        · rw [hji] at he
          exact absurd he (hdistinct k hk hki)
      · by_cases hki : k = i
        · rw [hki] at he
          exact absurd he.symm (hdistinct j hj hji)
        · rw [hrounded.others j hji, hrounded.others k hki] at he
          exact h.distinct j hj k hk he
    · by_cases hji : j = i
      · rw [hji]
        exact hvalid
      · rw [hrounded.others j hji]
        exact h.valid j hj
    · rcases hrounded.log _ hj with hj | ⟨k, hk, he⟩ | ⟨k, -, he⟩
      · exact h.inside j hj
      · cases he
        exact hk
      · cases he

theorem compare_cases {i : Nat} {c : Cell} {found : Bool} (h : compare s behind i c draws a = some (a', rest, found)) :
    (a.cand i ≠ c ∧ found = false ∧ a' = a.access [.cand i]) ∨ (a.cand i = c ∧ found = true ∧ ∃ a₁ rest₁,
      replaceCandidateCell s behind (a.cand i).timeslotOffset draws (push (a.cand i) (a.access [.cand i])) =
        some (a₁, rest₁) ∧
      replaceCandidateCell s behind (a₁.cand (i + 1)).timeslotOffset rest₁ (a₁.access [.cand (i + 1)]) =
        some (a', rest)) := by
  simp only [compare] at h
  split at h
  · next he =>
    obtain ⟨r₁, hr₁, h⟩ := Option.bind_eq_some_iff.1 h
    obtain ⟨r₂, hr₂, h⟩ := Option.map_eq_some_iff.1 h
    cases h
    exact Or.inr ⟨he, rfl, r₁.1, r₁.2, hr₁, hr₂⟩
  · next hne =>
    cases h
    exact Or.inl ⟨hne, rfl, rfl⟩

/-- A step keeps the invariant unless an update finds the last candidate to be interfered with. -/
theorem step_inv {w w' : World} {action : Action A} (h : w.Inv) (hc : LastClear w action)
    (hs : step w action = some w') : w'.Inv := by
  obtain ⟨a, phase⟩ := w
  cases action with
  | replace s behind timeslot draws =>
    cases phase with
    | updating => cases hs
    | idle returned =>
      obtain ⟨r, hr, he⟩ := Option.map_eq_some_iff.1 hs
      cases he
      exact ⟨h.candidates.replace hr, by rintro ⟨⟩⟩
  | update =>
    cases phase with
    | updating => cases hs
    | idle returned =>
      cases hs
      exact ⟨h.candidates, [], rfl, fun _ p hp => by cases hp⟩
  | comparison s behind draws =>
    cases phase with
    | idle => cases hs
    | updating left ret =>
      cases left with
      | nil => cases hs
      | cons p left =>
        obtain ⟨⟨a', rest, found⟩, hcmp, he⟩ := Option.map_eq_some_iff.1 hs
        cases he
        obtain ⟨made, hmade, hclear⟩ := h.phase
        have hp : p ∈ comparisons := by
          rw [hmade]
          simp
        have hi := (mem_comparisons.1 hp).1
        rcases compare_cases hcmp with ⟨hne, rfl, rfl⟩ | ⟨he, rfl, a₁, rest₁, hr₁, hr₂⟩
        · exact ⟨h.candidates.access hi, Phase.ok_next (by rw [hmade]; simp) hclear hne⟩
        · have hi' : p.1 + 1 < candCellListLen := (hc p left ret rfl).resolve_right fun hne => hne he
          have hcands := ((h.candidates.access hi).push (a.cand p.1)).replace hr₁
          have hmade' : comparisons = (made ++ [p]) ++ left := by
            rw [hmade]
            simp
          exact ⟨(hcands.access hi').replace hr₂, Phase.ok_next_true hmade' _⟩

end

/-! ## Runs from the initialization -/

theorem not_givesUp_of_short {slots : List UInt16} (h : slots.length ≤ 100) : ¬ GivesUp slots := by
  rintro ⟨before, window, after, rfl, hne, hlen, -⟩
  rw [List.length_append, List.length_append] at h
  have := List.length_pos_iff.2 hne
  omega

end

end Contiki.CellAlloc

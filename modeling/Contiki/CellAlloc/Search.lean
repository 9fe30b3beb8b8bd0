/-
The search of replace_candidate_cell: what one round does, what a search that ends has found, and which elements it
looks at. The loop over the blacklist does not wrap its index, so what it compares with are the last cells that were
pushed only while the oldest one is the first of the buffer.
-/
import Contiki.CellAlloc.Model

namespace Contiki.CellAlloc

section

open Contiki.Lib Contiki.SfSimple Contiki.Tsch

/-! ## Loops -/

variable {hit : Nat → Bool}

theorem passes_iff : ∀ {ks : List Nat}, passes hit ks = true ↔ ks ≠ [] ∧ ∀ k ∈ ks, hit k = false
  | [] => by simp [passes]
  | k :: ks => by
    rw [passes]
    cases hk : hit k with
    | true => simp [hk]
    | false =>
      cases ks with
      | nil => simp [hk]
      | cons k' ks =>
        have ih := @passes_iff (k' :: ks)
        simp only [List.isEmpty_cons, Bool.false_or, Bool.false_eq_true, if_false, ih, List.forall_mem_cons, hk,
          ne_eq, reduceCtorEq, not_false_eq_true, true_and]

theorem mem_of_looked : ∀ {ks : List Nat} {k : Nat}, k ∈ looked hit ks → k ∈ ks
  | k' :: ks, k, h => by
    rw [looked, List.mem_cons] at h
    rcases h with rfl | h
    · exact List.mem_cons_self
    · split at h
      · cases h
      · exact List.mem_cons_of_mem _ (mem_of_looked h)

theorem looked_of_clear : ∀ {ks : List Nat}, (∀ k ∈ ks, hit k = false) → looked hit ks = ks
  | [], _ => rfl
  | k :: ks, h => by
    rw [looked, h k List.mem_cons_self, looked_of_clear fun k' hk' => h k' (List.mem_cons_of_mem k hk')]
    rfl

/-! ## Draws -/

def ValidSlot (timeslot : UInt16) : Prop := 1 ≤ timeslot.toNat ∧ timeslot.toNat < tschScheduleDefaultLength

theorem Draw.timeslot_valid (d : Draw) : ValidSlot d.timeslot := by
  have hsize : tschScheduleDefaultLength = 101 := rfl
  have hlt : ((d.1 &&& 0xFF) % 101).toNat < 101 := by
    rw [UInt16.toNat_mod]
    exact Nat.mod_lt _ (by decide)
  unfold ValidSlot Draw.timeslot
  dsimp only
  split
  · next h =>
    rw [h]
    decide
  · next h =>
    have hne : ((d.1 &&& 0xFF) % 101).toNat ≠ 0 := fun he => h (UInt16.toNat.inj he)
    omega

theorem Draw.exists_cell {timeslot channel : UInt16} (hts : ValidSlot timeslot) (hch : channel.toNat < 4) :
    Draw.cell (timeslot, channel) = ⟨timeslot, channel⟩ := by
  have hsize : tschScheduleDefaultLength = 101 := rfl
  obtain ⟨h₁, h₂⟩ := hts
  have hmask : ∀ x : UInt16, x.toNat < 256 → (x &&& 0xFF).toNat = x.toNat := by
    intro x hx
    rw [UInt16.toNat_and]
    show x.toNat &&& 255 = _
    rw [show (255 : Nat) = 2 ^ 8 - 1 from rfl, Nat.and_two_pow_sub_one_eq_mod, Nat.mod_eq_of_lt hx]
  have hslot : (timeslot &&& 0xFF) % 101 = timeslot := by
    apply UInt16.toNat.inj
    rw [UInt16.toNat_mod, hmask _ (by omega)]
    exact Nat.mod_eq_of_lt (show timeslot.toNat < 101 by omega)
  have hchannel : (channel &&& 0xFF) % 4 = channel := by
    apply UInt16.toNat.inj
    rw [UInt16.toNat_mod, hmask _ (by omega)]
    exact Nat.mod_eq_of_lt hch
  have hne : timeslot ≠ 0 := by
    rintro rfl
    exact absurd h₁ (by decide)
  simp only [Draw.cell, Draw.timeslot, Draw.channel, hslot, hchannel, if_neg hne]

/-! ## A round -/

section

variable {A : Type} {s : Schedule A} {behind : Nat → Cell} {i : Nat} {d : Draw} {a a' : Alloc}

/-- The drawn cell can take the place of candidate `i`: its timeslot has no link and no candidate, and the loop over the
blacklist reaches its end. -/
structure Accepts (s : Schedule A) (behind : Nat → Cell) (d : Draw) (a : Alloc) : Prop where
  unoccupied : occupied s d.timeslot = false
  new : ∀ j < candCellListLen, (a.cand j).timeslotOffset ≠ d.timeslot
  nonempty : 0 < a.blacklist.count
  clear : ∀ k ∈ blacklisted a.blacklist, bufferAt a.blacklist behind k ≠ d.cell

theorem blacklisted_ne_nil {b : RingBuffer Cell} : blacklisted b ≠ [] ↔ 0 < b.count := by
  rw [← List.length_pos_iff, blacklisted, List.length_map, List.length_range]

theorem searchRound_last : (searchRound s behind i d a).2 = true ↔ Accepts s behind d a := by
  unfold searchRound
  by_cases hocc : occupied s d.timeslot = true
  · rw [if_pos hocc]
    refine iff_of_false Bool.false_ne_true fun h => ?_
    rw [h.unoccupied] at hocc
    cases hocc
  · rw [if_neg hocc]
    dsimp only
    rw [Bool.and_eq_true, passes_iff, passes_iff, blacklisted_ne_nil]
    constructor
    · rintro ⟨⟨-, hnew⟩, hpos, hclear⟩
      refine ⟨by simpa using hocc, fun j hj => ?_, hpos, fun k hk => ?_⟩
      · simpa using hnew j (List.mem_range.2 hj)
      · simpa using hclear k hk
    · intro h
      refine ⟨⟨by decide, fun j hj => ?_⟩, h.nonempty, fun k hk => ?_⟩
      · simpa using h.new j (List.mem_range.1 hj)
      · simpa using h.clear k hk

/-- What a round may have changed: candidate `i` is as it was, or the drawn cell, which has no link; and it looked at
candidates and at what the loop over the blacklist reads. -/
structure Rounded (s : Schedule A) (i : Nat) (a a' : Alloc) : Prop where
  blacklist : a'.blacklist = a.blacklist
  others : ∀ j, j ≠ i → a'.cand j = a.cand j
  cand : a'.cand i = a.cand i ∨
    ValidSlot (a'.cand i).timeslotOffset ∧ occupied s (a'.cand i).timeslotOffset = false
  log : ∀ x ∈ a'.log, x ∈ a.log ∨ (∃ j < candCellListLen, x = .cand j) ∨
    ∃ k ∈ blacklisted a.blacklist, x = .buffer k

theorem Rounded.refl (s : Schedule A) (i : Nat) (a : Alloc) : Rounded s i a a :=
  ⟨rfl, fun _ _ => rfl, Or.inl rfl, fun _ h => Or.inl h⟩

theorem Rounded.trans {a'' : Alloc} (h : Rounded s i a a') (h' : Rounded s i a' a'') : Rounded s i a a'' where
  blacklist := h'.blacklist.trans h.blacklist
  others := fun j hj => (h'.others j hj).trans (h.others j hj)
  cand := by
    rcases h'.cand with he | hnew
    · rw [he]
      exact h.cand
    · exact Or.inr hnew
  log := fun x hx => by
    rcases h'.log x hx with hx | hx | ⟨k, hk, rfl⟩
    · exact h.log x hx
    · exact Or.inr (Or.inl hx)
    · rw [h.blacklist] at hk
      exact Or.inr (Or.inr ⟨k, hk, rfl⟩)

theorem searchRound_rounded (s : Schedule A) (behind : Nat → Cell) (hi : i < candCellListLen) (d : Draw) (a : Alloc) :
    Rounded s i a (searchRound s behind i d a).1 := by
  unfold searchRound
  by_cases hocc : occupied s d.timeslot = true
  · rw [if_pos hocc]
    exact .refl s i a
  · rw [if_neg hocc]
    dsimp only
    have hlooked : ∀ x ∈ (looked (fun j => (a.cand j).timeslotOffset == d.timeslot) (List.range candCellListLen)).map
        Access.cand ++ (looked (fun k => bufferAt a.blacklist behind k == d.cell) (blacklisted a.blacklist)).map
        Access.buffer, (∃ j < candCellListLen, x = .cand j) ∨ ∃ k ∈ blacklisted a.blacklist, x = .buffer k := by
      intro x hx
      rcases List.mem_append.1 hx with hx | hx
      · obtain ⟨j, hj, rfl⟩ := List.mem_map.1 hx
        exact Or.inl ⟨j, List.mem_range.1 (mem_of_looked hj), rfl⟩
      · obtain ⟨k, hk, rfl⟩ := List.mem_map.1 hx
        exact Or.inr ⟨k, mem_of_looked hk, rfl⟩
    split
    · refine ⟨rfl, fun j hj => Alloc.put_of_ne _ _ hj, Or.inr ?_, fun x hx => ?_⟩
      · rw [Alloc.put_same]
        exact ⟨d.timeslot_valid, show occupied s d.timeslot = false by simpa using hocc⟩
      · rcases List.mem_append.1 hx with hx | hx
        · exact (List.mem_append.1 hx).imp_right (hlooked x)
        · rw [List.mem_singleton.1 hx]
          exact Or.inr (Or.inl ⟨i, hi, rfl⟩)
    · exact ⟨rfl, fun _ _ => rfl, Or.inl rfl, fun x hx => (List.mem_append.1 hx).imp_right (hlooked x)⟩

theorem searchRound_accepted (h : Accepts s behind d a) : (searchRound s behind i d a).1.cand i = d.cell ∧
      ∀ k ∈ blacklisted a.blacklist, .buffer k ∈ (searchRound s behind i d a).1.log := by
  have hclear : ∀ k ∈ blacklisted a.blacklist, (bufferAt a.blacklist behind k == d.cell) = false := by
    intro k hk
    simpa using h.clear k hk
  have hpass := passes_iff.2 ⟨blacklisted_ne_nil.2 h.nonempty, hclear⟩
  unfold searchRound
  rw [if_neg (by rw [h.unoccupied]; exact Bool.false_ne_true)]
  dsimp only
  rw [if_pos hpass, looked_of_clear hclear]
  refine ⟨Alloc.put_same .., fun k hk => ?_⟩
  refine List.mem_append_left _ (List.mem_append_right _ (List.mem_append_right _ ?_))
  exact List.mem_map_of_mem hk

/-! ## The search -/

theorem search_ends (hi : i < candCellListLen) : ∀ {draws rest : List Draw} {a a' : Alloc},
    search s behind i draws a = some (a', rest) → ∃ a₁ d, Rounded s i a a₁ ∧ Accepts s behind d a₁ ∧
      a' = (searchRound s behind i d a₁).1
  | [], rest, a, a', h => by cases h
  | d :: draws, rest, a, a', h => by
    simp only [search] at h
    by_cases hlast : (searchRound s behind i d a).2 = true
    · rw [if_pos hlast] at h
      cases h
      exact ⟨a, d, .refl s i a, searchRound_last.1 hlast, rfl⟩
    · rw [if_neg hlast] at h
      obtain ⟨a₁, d', hrounds, haccepts, ha'⟩ := search_ends hi h
      exact ⟨a₁, d', (searchRound_rounded s behind hi d a).trans hrounds, haccepts, ha'⟩

theorem candidateAt_some {timeslot : UInt16} (h : candidateAt timeslot a = some i) :
    i < candCellListLen ∧ (a.cand i).timeslotOffset = timeslot :=
  ⟨List.mem_range.1 (List.mem_of_find?_eq_some h), by simpa using List.find?_some h⟩

theorem replaceCandidateCell_ends {timeslot : UInt16} {draws rest : List Draw}
    (h : replaceCandidateCell s behind timeslot draws a = some (a', rest)) (hat : candidateAt timeslot a = some i) :
    ∃ a₁ d, Rounded s i a a₁ ∧ Accepts s behind d a₁ ∧ a' = (searchRound s behind i d a₁).1 := by
  obtain ⟨hi, -⟩ := candidateAt_some hat
  simp only [replaceCandidateCell, hat] at h
  obtain ⟨a₁, d, hrounds, haccepts, ha'⟩ := search_ends hi h
  have hlooks : Rounded s i a (a.access ((looked (fun i => (a.cand i).timeslotOffset == timeslot)
      (List.range candCellListLen)).map .cand)) := by
    refine ⟨rfl, fun _ _ => rfl, Or.inl rfl, fun x hx => ?_⟩
    refine (List.mem_append.1 hx).imp_right fun hx => Or.inl ?_
    obtain ⟨j, hj, rfl⟩ := List.mem_map.1 hx
    exact ⟨j, List.mem_range.1 (mem_of_looked hj), rfl⟩
  exact ⟨a₁, d, hlooks.trans hrounds, haccepts, ha'⟩

theorem replaceCandidateCell_cell {timeslot : UInt16} {draws rest : List Draw}
    (h : replaceCandidateCell s behind timeslot draws a = some (a', rest)) (hat : candidateAt timeslot a = some i) :
    Rounded s i a a' ∧ ValidSlot (a'.cand i).timeslotOffset ∧ occupied s (a'.cand i).timeslotOffset = false ∧
      ∀ j < candCellListLen, j ≠ i → (a'.cand i).timeslotOffset ≠ (a'.cand j).timeslotOffset := by
  obtain ⟨hi, -⟩ := candidateAt_some hat
  obtain ⟨a₁, d, hrounds, haccepts, rfl⟩ := replaceCandidateCell_ends h hat
  have hround := searchRound_rounded s behind hi d a₁
  obtain ⟨hcell, -⟩ := searchRound_accepted (i := i) haccepts
  refine ⟨hrounds.trans hround, ?_, ?_, fun j hj hne => ?_⟩
  · rw [hcell]
    exact d.timeslot_valid
  · rw [hcell]
    exact haccepts.unoccupied
  · rw [hcell, hround.others j hne]
    exact (haccepts.new j hj).symm

end

/-! ## After pushes -/

def fresh (cand : Nat → Cell) (r : RingBuffer Cell) : Alloc := ⟨cand, r.clear, []⟩

def pushAll (cells : List Cell) (a : Alloc) : Alloc := cells.foldl (fun a c => push c a) a

theorem pushAll_fresh (cand : Nat → Cell) (r : RingBuffer Cell) (cells : List Cell) :
    (pushAll cells (fresh cand r)).cand = cand ∧ (pushAll cells (fresh cand r)).blacklist.Holds blacklistMaxSize cells ∧
      ∀ x ∈ (pushAll cells (fresh cand r)).log, x.InBounds := by
  induction cells using List.reverseRecOn with
  | nil => exact ⟨rfl, r.clear_holds _, fun x hx => by cases hx⟩
  | append_singleton cells c ih =>
    obtain ⟨hcand, hholds, hlog⟩ := ih
    have hpush : pushAll (cells ++ [c]) (fresh cand r) = push c (pushAll cells (fresh cand r)) := by
      rw [pushAll, List.foldl_append]
      rfl
    rw [hpush]
    refine ⟨hcand, hholds.push c, fun x hx => ?_⟩
    rcases List.mem_append.1 hx with hx | hx
    · exact hlog x hx
    · rw [List.mem_singleton.1 hx]
      show (pushAll cells (fresh cand r)).blacklist.tail < blacklistMaxSize
      rw [hholds.tail]
      exact Nat.mod_lt _ (by decide)

/-- The new cell at `i` has a timeslot that is not 0, has no link and is that of no other candidate; it is none of the
last cells that were pushed; and all accesses were to elements of the arrays. -/
structure Replaced {A : Type} (s : Schedule A) (pushed : List Cell) (i : Nat) (a' : Alloc) : Prop where
  nonzero : (a'.cand i).timeslotOffset ≠ 0
  unoccupied : occupied s (a'.cand i).timeslotOffset = false
  distinct : ∀ j < candCellListLen, j ≠ i → (a'.cand i).timeslotOffset ≠ (a'.cand j).timeslotOffset
  notPushed : a'.cand i ∉ pushed.drop (pushed.length - blacklistMaxSize)
  inBounds : ∀ x ∈ a'.log, x.InBounds

/-- For every number of pushes into an empty blacklist, every candidate list, every schedule and all draws with which
`replace_candidate_cell` returns after it replaced a candidate: the new cell is right and all accesses are in bounds
exactly when there were at most five pushes or a multiple of five. -/
theorem replaced_iff {A : Type} (s : Schedule A) (behind : Nat → Cell) (cand : Nat → Cell) (r : RingBuffer Cell)
    (pushed : List Cell) (timeslot : UInt16) {draws rest : List Draw} {a' : Alloc} {i : Nat}
    (h : replaceCandidateCell s behind timeslot draws (pushAll pushed (fresh cand r)) = some (a', rest))
    (hat : candidateAt timeslot (pushAll pushed (fresh cand r)) = some i) :
    Replaced s pushed i a' ↔ pushed.length ≤ blacklistMaxSize ∨ pushed.length % blacklistMaxSize = 0 := by
  obtain ⟨hcand, hholds, hlog⟩ := pushAll_fresh cand r pushed
  obtain ⟨hi, -⟩ := candidateAt_some hat
  have hsize : blacklistMaxSize = 5 := rfl
  obtain ⟨hrounded, hvalid, hfree, hdistinct⟩ := replaceCandidateCell_cell h hat
  obtain ⟨a₁, d, hrounds, haccepts, rfl⟩ := replaceCandidateCell_ends h hat
  obtain ⟨hcell, hread⟩ := searchRound_accepted (i := i) haccepts
  have hblack := hrounds.blacklist
  constructor
  · intro hright
    by_contra hnot
    have hfull : (pushAll pushed (fresh cand r)).blacklist.count = 5 := by
      rw [hholds.count]
      omega
    have hhead : (pushAll pushed (fresh cand r)).blacklist.head = pushed.length % 5 := by
      rw [hholds.head, if_neg (by omega), hsize]
    have hmem : pushed.length % 5 + 4 ∈ blacklisted a₁.blacklist := by
      rw [hblack, blacklisted, hfull, hhead]
      exact List.mem_map_of_mem (List.mem_range.2 (by decide))
    have hbound : pushed.length % 5 + 4 < blacklistMaxSize := hright.inBounds _ (hread _ hmem)
    rw [hsize] at hbound hnot
    omega
  · intro hcases
    have hhead : (pushAll pushed (fresh cand r)).blacklist.head = 0 := by
      rw [hholds.head]
      split <;> omega
    have hcount : (pushAll pushed (fresh cand r)).blacklist.count ≤ 5 := by
      rw [hholds.count]
      omega
    have hindices : blacklisted (pushAll pushed (fresh cand r)).blacklist =
        List.range (pushAll pushed (fresh cand r)).blacklist.count := by
      rw [blacklisted, hhead]
      simp
    refine ⟨?_, hfree, hdistinct, ?_, fun x hx => ?_⟩
    · intro hzero
      rw [hzero] at hvalid
      exact absurd hvalid.1 (by decide)
    · rw [hcell, ← hholds.mem_iff (by decide)]
      rintro ⟨k, hk, he⟩
      have hmem : k ∈ blacklisted a₁.blacklist := by
        rw [hblack, hindices]
        exact List.mem_range.2 hk
      refine haccepts.clear k hmem ?_
      rw [bufferAt, if_pos (by omega), hblack, he]
    · rcases hrounded.log x hx with hx | ⟨j, hj, rfl⟩ | ⟨k, hk, rfl⟩
      · exact hlog x hx
      · exact hj
      · rw [hindices] at hk
        show k < blacklistMaxSize
        have := List.mem_range.1 hk
        omega

def unscheduled : Schedule Unit where
  linkMemb := .init 90
  link := fun _ => ⟨0, (), 0, 0, 0, 0, .normal⟩
  slotframeMemb := .init 4
  slotframe := fun _ => ⟨0, 101, []⟩
  slotframeList := []
  currentLinkHandle := 0

def nine : Nat → Cell := fun i => ⟨UInt16.ofNat (20 + i), 0⟩

/-- After one push the new cell is right. -/
theorem replaced_one : ∃ a' rest, replaceCandidateCell unscheduled (fun _ => ⟨0, 0⟩) 20 [(2, 3), (40, 1)]
    (pushAll [⟨2, 3⟩] (fresh nine Alloc.zero.blacklist)) = some (a', rest) ∧ Replaced unscheduled [⟨2, 3⟩] 0 a' := by
  have hreturns : replaceCandidateCell unscheduled (fun _ => ⟨0, 0⟩) 20 [(2, 3), (40, 1)]
      (pushAll [⟨2, 3⟩] (fresh nine Alloc.zero.blacklist)) = some (_, []) := rfl
  exact ⟨_, _, hreturns, (replaced_iff unscheduled (fun _ => ⟨0, 0⟩) nine Alloc.zero.blacklist [⟨2, 3⟩] 20 hreturns
    rfl).2 (Or.inl (by decide))⟩

/-- After six pushes the cell that was pushed last takes a candidate's place, and the loop over the blacklist reads the
element behind the buffer. -/
theorem last_pushed_again : ∃ a' rest, replaceCandidateCell unscheduled (fun _ => ⟨0, 0⟩) 20 [(12, 1)]
    (pushAll [⟨2, 3⟩, ⟨4, 1⟩, ⟨7, 3⟩, ⟨8, 1⟩, ⟨9, 1⟩, ⟨12, 1⟩] (fresh nine Alloc.zero.blacklist)) = some (a', rest) ∧
      ¬ Replaced unscheduled [⟨2, 3⟩, ⟨4, 1⟩, ⟨7, 3⟩, ⟨8, 1⟩, ⟨9, 1⟩, ⟨12, 1⟩] 0 a' :=
  ⟨_, _, rfl, fun h => h.notPushed (by decide)⟩

end

/-!
The first candidates. init_cand_cell_list draws until it has nine different timeslots, and gives up after 100 draws in a
row that brought no new one; the candidates that it has not filled stay (0, 0).
-/

section

open Contiki.Lib Contiki.SfSimple

/-! ## Repeated timeslots -/

/-- Before nine different timeslots were drawn, 100 draws in a row repeat those that were. -/
def GivesUp (slots : List UInt16) : Prop := ∃ before window after, slots = before ++ window ++ after ∧ before ≠ [] ∧
  window.length = 100 ∧ (∀ t ∈ window, t ∈ before) ∧ before.toFinset.card < candCellListLen

/-- The last `m` of the timeslots repeat those before, and no more of the last ones do; and there were never 100 that
did. -/
structure Trailing (slots : List UInt16) (m : Nat) : Prop where
  split : ∃ before last, slots = before ++ last ∧ before ≠ [] ∧ last.length = m ∧ ∀ t ∈ last, t ∈ before
  most : ∀ before last, slots = before ++ last → before ≠ [] → (∀ t ∈ last, t ∈ before) → last.length ≤ m
  never : ∀ before window after, slots = before ++ window ++ after → before ≠ [] → window.length = 100 →
    ∃ t ∈ window, t ∉ before

variable {slots : List UInt16} {t : UInt16} {m : Nat}

theorem snoc_split {before last : List UInt16} (h : slots ++ [t] = before ++ last) :
    last = [] ∨ ∃ last', last = last' ++ [t] ∧ slots = before ++ last' := by
  rcases List.eq_nil_or_concat last with rfl | ⟨last', x, rfl⟩
  · exact Or.inl rfl
  · have h : slots ++ [t] = before ++ last' ++ [x] := by simpa using h
    obtain ⟨hslots, hx⟩ := List.append_inj' h rfl
    refine Or.inr ⟨last', ?_, hslots⟩
    rw [List.concat_eq_append, hx]

theorem trailing_first (t : UInt16) : Trailing [t] 0 where
  split := ⟨[t], [], rfl, List.cons_ne_nil _ _, rfl, fun _ h => by cases h⟩
  most := fun before last h hne _ => by
    have hlen := congrArg List.length h
    rw [List.length_append, List.length_singleton] at hlen
    have := List.length_pos_iff.2 hne
    omega
  never := fun before window after h _ hlen => by
    have hall := congrArg List.length h
    rw [List.length_append, List.length_append, List.length_singleton] at hall
    omega

theorem Trailing.repeated (h : Trailing slots m) (ht : t ∈ slots) (hm : m < 99) : Trailing (slots ++ [t]) (m + 1) := by
  have hmost : ∀ before last, slots ++ [t] = before ++ last → before ≠ [] → (∀ x ∈ last, x ∈ before) →
      last.length ≤ m + 1 := by
    intro before last he hne hin
    rcases snoc_split he with rfl | ⟨last', rfl, hslots⟩
    · exact Nat.zero_le _
    · have := h.most before last' hslots hne fun x hx => hin x (List.mem_append_left _ hx)
      rw [List.length_append, List.length_singleton]
      omega
  constructor
  case split =>
    obtain ⟨before, last, rfl, hne, hlen, hin⟩ := h.split
    refine ⟨before, last ++ [t], List.append_assoc _ _ _, hne, by rw [List.length_append, hlen]; rfl, fun x hx => ?_⟩
    rcases List.mem_append.1 hx with hx | hx
    · exact hin x hx
    · rw [List.mem_singleton.1 hx]
      exact (List.mem_append.1 ht).elim id (hin t)
  case most => exact hmost
  case never =>
    intro before window after he hne hlen
    rcases snoc_split he with rfl | ⟨after', rfl, hslots⟩
    · by_contra hall
      have hin : ∀ x ∈ window, x ∈ before := by
        intro x hx
        by_contra hnot
        exact hall ⟨x, hx, hnot⟩
      rw [List.append_nil] at he
      have := hmost before window he hne hin
      omega
    · exact h.never before window after' hslots hne hlen

theorem Trailing.new (h : Trailing slots m) (ht : t ∉ slots) : Trailing (slots ++ [t]) 0 := by
  constructor
  case split => exact ⟨slots ++ [t], [], (List.append_nil _).symm, by simp, rfl, fun _ hx => by cases hx⟩
  case most =>
    intro before last he hne hin
    rcases snoc_split he with rfl | ⟨last', rfl, rfl⟩
    · exact le_rfl
    · exact absurd (List.mem_append_left _ (hin t (by simp))) ht
  case never =>
    intro before window after he hne hlen
    rcases snoc_split he with rfl | ⟨after', rfl, hslots⟩
    · rw [List.append_nil] at he
      rcases snoc_split he with rfl | ⟨window', rfl, rfl⟩
      · cases hlen
      · exact ⟨t, by simp, fun hin => ht (List.mem_append_left _ hin)⟩
    · exact h.never before window after' hslots hne hlen

/-- Once there are nine timeslots, what follows does not matter. -/
theorem Trailing.not_givesUp (h : Trailing slots 0) (hcard : slots.toFinset.card = candCellListLen) (rest : List UInt16) :
    ¬ GivesUp (slots ++ rest) := by
  rintro ⟨before, window, after, he, hne, hlen, hin, hfew⟩
  rw [List.append_assoc] at he
  rcases List.append_eq_append_iff.1 he with ⟨more, rfl, -⟩ | ⟨last, rfl, he'⟩
  · have hsub := Finset.card_le_card (show slots.toFinset ⊆ (slots ++ more).toFinset by
      rw [List.toFinset_append]
      exact Finset.subset_union_left)
    omega
  · rcases List.append_eq_append_iff.1 he' with ⟨after', rfl, -⟩ | ⟨window', rfl, -⟩
    · obtain ⟨t, ht, hnot⟩ := h.never before window after' (List.append_assoc ..).symm hne hlen
      exact hnot (hin t ht)
    · have hzero := h.most before last rfl hne fun t ht => hin t (List.mem_append_left _ ht)
      obtain rfl := List.length_eq_zero_iff.1 (Nat.le_zero.1 hzero)
      rw [List.append_nil] at hcard
      omega

/-! ## The loop -/

/-- The timeslots drawn so far are those of the first `index` candidates, which are different and valid; the others are
as they were; and only candidates were looked at. -/
structure Filling (slots : List UInt16) (index : Nat) (a : Alloc) : Prop where
  mem : ∀ t, t ∈ slots ↔ ∃ j < index, (a.cand j).timeslotOffset = t
  distinct : ∀ j < index, ∀ k < index, (a.cand j).timeslotOffset = (a.cand k).timeslotOffset → j = k
  valid : ∀ j < index, ValidSlot (a.cand j).timeslotOffset
  unfilled : ∀ j, index ≤ j → a.cand j = ⟨0, 0⟩
  log : ∀ i, .cand i ∈ a.log → i < candCellListLen

variable {index : Nat} {a a' : Alloc} {d : Draw} {draws rest : List Draw}

theorem Filling.card (h : Filling slots index a) : slots.toFinset.card = index := by
  have himage : slots.toFinset = (Finset.range index).image fun j => (a.cand j).timeslotOffset := by
    ext t
    rw [List.mem_toFinset, h.mem, Finset.mem_image]
    simp only [Finset.mem_range]
  rw [himage, Finset.card_image_of_injOn, Finset.card_range]
  intro j hj k hk he
  exact h.distinct j (by simpa using hj) k (by simpa using hk) he

theorem Filling.access (h : Filling slots index a) (hindex : index ≤ candCellListLen) (hit : Nat → Bool) :
    Filling slots index (a.access ((looked hit (List.range index)).map .cand)) := by
  refine ⟨h.mem, h.distinct, h.valid, h.unfilled, fun i hi => ?_⟩
  rcases List.mem_append.1 hi with hi | hi
  · exact h.log i hi
  · obtain ⟨j, hj, he⟩ := List.mem_map.1 hi
    cases he
    have := List.mem_range.1 (mem_of_looked hj)
    omega

theorem Filling.repeated (h : Filling slots index a) (ht : t ∈ slots) : Filling (slots ++ [t]) index a := by
  refine ⟨fun x => ?_, h.distinct, h.valid, h.unfilled, h.log⟩
  rw [List.mem_append, List.mem_singleton, ← h.mem]
  constructor
  · rintro (hx | rfl)
    · exact hx
    · exact ht
  · exact Or.inl

theorem Filling.put (h : Filling slots index a) (hindex : index < candCellListLen) (ht : d.timeslot ∉ slots) :
    Filling (slots ++ [d.timeslot]) (index + 1) (a.put index d.cell) := by
  have hold : ∀ j < index, (a.put index d.cell).cand j = a.cand j := fun j hj => Alloc.put_of_ne _ _ hj.ne
  have hslot : ((a.put index d.cell).cand index).timeslotOffset = d.timeslot := by
    rw [Alloc.put_same]
    rfl
  have hother : ∀ j < index, (a.cand j).timeslotOffset ≠ d.timeslot := fun j hj he => ht ((h.mem _).2 ⟨j, hj, he⟩)
  constructor
  case mem =>
    intro x
    rw [List.mem_append, List.mem_singleton, h.mem]
    constructor
    · rintro (⟨j, hj, rfl⟩ | rfl)
      · exact ⟨j, by omega, by rw [hold j hj]⟩
      · exact ⟨index, by omega, hslot⟩
    · rintro ⟨j, hj, rfl⟩
      rcases Nat.lt_or_eq_of_le (Nat.le_of_lt_succ hj) with hlt | rfl
      · exact Or.inl ⟨j, hlt, by rw [hold j hlt]⟩
      · exact Or.inr hslot
  case distinct =>
    intro j hj k hk he
    rcases Nat.lt_or_eq_of_le (Nat.le_of_lt_succ hj) with hj | rfl
    · rcases Nat.lt_or_eq_of_le (Nat.le_of_lt_succ hk) with hk | rfl
      · rw [hold j hj, hold k hk] at he
        exact h.distinct j hj k hk he
      · rw [hold j hj, hslot] at he
        exact absurd he (hother j hj)
    · rcases Nat.lt_or_eq_of_le (Nat.le_of_lt_succ hk) with hk | rfl
      · rw [hold k hk, hslot] at he
        exact absurd he.symm (hother k hk)
      · rfl
  case valid =>
    intro j hj
    rcases Nat.lt_or_eq_of_le (Nat.le_of_lt_succ hj) with hlt | rfl
    · rw [hold j hlt]
      exact h.valid j hlt
    · rw [hslot]
      exact d.timeslot_valid
  case unfilled =>
    intro j hj
    rw [Alloc.put_of_ne _ _ (by omega)]
    exact h.unfilled j (by omega)
  case log =>
    intro i hi
    rcases List.mem_append.1 hi with hi | hi
    · exact h.log i hi
    · cases List.mem_singleton.1 hi
      exact hindex

theorem Filling.passes_iff (h : Filling slots index a) (hpos : 0 < index) :
    passes (fun i => (a.cand i).timeslotOffset == d.timeslot) (List.range index) = true ↔ d.timeslot ∉ slots := by
  rw [CellAlloc.passes_iff, h.mem]
  constructor
  · rintro ⟨-, hnone⟩ ⟨j, hj, he⟩
    have := hnone j (List.mem_range.2 hj)
    simp [he] at this
  · intro hnot
    refine ⟨by simpa using hpos.ne', fun j hj => ?_⟩
    rw [beq_eq_false_iff_ne]
    exact fun he => hnot ⟨j, List.mem_range.1 hj, he⟩

/-- What the loop leaves: nine candidates, unless it gave up. -/
structure FillEnds (slots : List UInt16) (a' : Alloc) : Prop where
  filled : ¬ GivesUp slots → ∃ all, Filling all candCellListLen a'
  gaveUp : GivesUp slots → a'.cand 8 = ⟨0, 0⟩

theorem fillLoop_spec : ∀ {draws rest : List Draw} {slots : List UInt16} {m index : Nat} {a a' : Alloc},
    Filling slots index a → Trailing slots m → m ≤ 99 → 0 < index → index < candCellListLen →
    fillLoop draws (m + 2) index a = some (a', rest) → FillEnds (slots ++ draws.map Draw.timeslot) a'
  | [], _, _, _, _, _, _, _, _, _, _, _, h => by cases h
  | d :: draws, rest, slots, m, index, a, a', hfill, htrail, hm, hpos, hindex, h => by
    have hsize : candCellListLen = 9 := rfl
    have hlength : tschScheduleDefaultLength = 101 := rfl
    have hlook := hfill.access hindex.le fun i => (a.cand i).timeslotOffset == d.timeslot
    have happ : slots ++ (d :: draws).map Draw.timeslot = slots ++ [d.timeslot] ++ draws.map Draw.timeslot := by simp
    rw [happ]
    simp only [fillLoop] at h
    rw [if_neg hpos.ne'] at h
    by_cases hnew : d.timeslot ∉ slots
    · have hput := hlook.put hindex hnew
      rw [if_pos ((hfill.passes_iff hpos).2 hnew), if_pos rfl] at h
      split at h
      · next hlt => exact fillLoop_spec hput (htrail.new hnew) (by omega) (by omega) hlt h
      · next hend =>
        cases h
        have hnine : index + 1 = candCellListLen := by omega
        rw [hnine] at hput
        have hnot := (htrail.new hnew).not_givesUp hput.card (draws.map Draw.timeslot)
        exact ⟨fun _ => ⟨_, hput⟩, fun hgives => absurd hgives hnot⟩
    · have hin : d.timeslot ∈ slots := not_not.1 hnew
      rw [if_neg (fun hpass => hnew ((hfill.passes_iff hpos).1 hpass)), if_neg (by omega)] at h
      split at h
      · next hgives =>
        cases h
        obtain ⟨before, last, hsplit, hne, hlen, hlast⟩ := htrail.split
        have hgave : GivesUp (slots ++ [d.timeslot] ++ draws.map Draw.timeslot) := by
          refine ⟨before, last ++ [d.timeslot], draws.map Draw.timeslot, by simp [hsplit], hne, ?_, fun x hx => ?_, ?_⟩
          · rw [List.length_append, List.length_singleton]
            omega
          · rcases List.mem_append.1 hx with hx | hx
            · exact hlast x hx
            · rw [List.mem_singleton.1 hx]
              rw [hsplit] at hin
              exact (List.mem_append.1 hin).elim id (hlast _)
          · have hsub := Finset.card_le_card (show before.toFinset ⊆ slots.toFinset by
              rw [hsplit, List.toFinset_append]
              exact Finset.subset_union_left)
            rw [hfill.card] at hsub
            omega
        exact ⟨fun hnot => absurd hgave hnot, fun _ => hfill.unfilled 8 (by omega)⟩
      · next hgoes =>
        have hm : m < 99 := by omega
        exact fillLoop_spec (hlook.repeated hin) (htrail.repeated hin hm) hm hpos hindex h

theorem initAdvancedCellAlloc_ends (h : initAdvancedCellAlloc draws .zero = some (a, rest)) :
    FillEnds (draws.map Draw.timeslot) a := by
  obtain ⟨⟨a₁, rest₁⟩, hfill, hr⟩ := Option.map_eq_some_iff.1 h
  cases hr
  have hends : FillEnds (draws.map Draw.timeslot) a₁ := by
    cases draws with
    | nil => cases hfill
    | cons d draws =>
      have hzero : Filling [] 0 (Alloc.zero.access []) := by
        refine ⟨fun t => ?_, fun j hj => absurd hj (Nat.not_lt_zero j), fun j hj => absurd hj (Nat.not_lt_zero j),
          fun _ _ => rfl, fun i hi => by cases hi⟩
        exact iff_of_false (List.not_mem_nil) fun ⟨j, hj, _⟩ => Nat.not_lt_zero j hj
      exact fillLoop_spec (hzero.put (d := d) (by decide) List.not_mem_nil) (trailing_first _) (Nat.zero_le _)
        Nat.one_pos (by decide) hfill
  constructor
  · intro hnot
    obtain ⟨all, hall⟩ := hends.filled hnot
    exact ⟨all, hall.mem, hall.distinct, hall.valid, hall.unfilled, hall.log⟩
  · exact hends.gaveUp

end

end Contiki.CellAlloc

/-
What response_input reads of a response, and what a RELOCATE does to the schedule: the cells of the response are handed
to tsch_schedule_add_link, which may refuse the one that is tried and may take another link off for it, and the relocated
cell is removed in any case.
-/
import Contiki.SfSimple.Deletes
import Contiki.Sixtop.Bounds
import Contiki.Tsch.Counters

namespace Contiki.SfSimple

open Contiki.Core Contiki.Lib Contiki.Sixtop Contiki.Tsch

variable {A : Type} [DecidableEq A] {cfg : Config A} {s s' : State A} {sf : Nat} {peer : A} {relocated : Cell}
  {cells : List Cell} {room : Bool}

/-! ## What is to hold -/

def AtRelocated (s : Schedule A) (relocated : Cell) (l : Nat) : Prop :=
  (s.link l).slotframeHandle = slotframeHandle ∧ cellOf (s.link l) = relocated

/-- A response is handled rightly: nothing is read beyond the body, and a RELOCATE removes the relocated cell only if a
cell of the response was added, and leaves as many TX links to the peer as there were. -/
structure HandledRight (s : State A) (cmd : Option PktCode) (relocated : Cell) (peer : A) (bodyLen : Nat)
    (h : Handled A) : Prop where
  inside : ∀ span ∈ h.reads, span.Inside bodyLen
  replaced : cmd = some Cmd.relocate → ∀ l ∈ s.sched.links, AtRelocated s.sched relocated l → l ∉ h.state.sched.links →
    h.added.isSome
  kept : cmd = some Cmd.relocate →
    txLinksIn s.sched s.sched.links peer ≤ txLinksIn h.state.sched h.state.sched.links peer

/-- The links that go when the cell `c` replaces the relocated one: the one at its timeslot, and those at the relocated
cell. -/
def goes (s : State A) (sf : Nat) (c relocated : Cell) : List Nat :=
  s.sched.links.filter fun l => l ∈ replaced s sf c.timeslotOffset true ∨
    (s.sched.link l).slotframeHandle = slotframeHandle ∧ cellOf (s.sched.link l) = relocated ∧
      relocated.timeslotOffset ≠ 0xffff

/-- A relocation that is right: where a cell is added, at most one TX link to the peer goes, and none if that cell is
the relocated one; where none is added, there is no link at the relocated cell. -/
def Relocates (s : State A) (peer : A) (relocated : Cell) (cells : List Cell) : Prop :=
  ∀ sf, tschScheduleGetSlotframeByHandle s.sched slotframeHandle = some sf →
    (∀ c, firstValid cells = some c → Adds s sf c.timeslotOffset true →
      txLinksIn s.sched (goes s sf c relocated) peer ≤ if c = relocated then 0 else 1) ∧
    ((∀ c, firstValid cells = some c → ¬ Adds s sf c.timeslotOffset true) →
      relocated.timeslotOffset = 0xffff ∨ ∀ l ∈ s.sched.links, ¬ AtRelocated s.sched relocated l)

def Handleable (s : State A) (cmd : Option PktCode) (relocated : Cell) (rc : PktCode) (body : List UInt8) (peer : A) :
    Prop :=
  rc = Rc.success → body.length % 4 = 0 →
    ((cmd = some Cmd.add ∨ cmd = some Cmd.relocate) → body ≠ []) ∧
    (cmd = some Cmd.relocate → Relocates s peer relocated (cellsIn (memOf body) body.length))

/-! ## Adding the first cell -/

omit [DecidableEq A] in
theorem firstValid_timeslot {c : Cell} (h : firstValid cells = some c) : c.timeslotOffset ≠ 0xffff := by
  simpa using List.find?_some h

def linkFor (s : State A) (peer : A) (c : Cell) : Link A :=
  ⟨s.sched.currentLinkHandle, peer, slotframeHandle, c.timeslotOffset, c.channelOffset, LINK_OPTION_TX, .normal⟩

theorem addLink_added (cfg : Config A) (peer : A) (c : Cell) (room : Bool) (h : s.sched.Inv)
    (hsf : sf ∈ s.sched.slotframeList) (hhandle : (s.sched.slotframe sf).handle = slotframeHandle)
    (halloc : s.sched.linkMemb.alloc ≠ none) :
    (addLink cfg s sf LINK_OPTION_TX .normal (some peer) c.timeslotOffset c.channelOffset room).2.isSome ∧
      ∃ l, Added cfg s (addLink cfg s sf LINK_OPTION_TX .normal (some peer) c.timeslotOffset c.channelOffset room).1 l
        (linkFor s peer c) room := by
  constructor
  · unfold addLink
    cases ha : s.sched.linkMemb.alloc with
    | none => exact absurd ha halloc
    | some p => rfl
  · rcases addLink_spec cfg h hsf LINK_OPTION_TX .normal (some peer) c.timeslotOffset c.channelOffset room with
      ⟨hnone, -⟩ | ⟨-, l, hadd⟩
    · exact absurd hnone halloc
    · rw [hhandle] at hadd
      exact ⟨l, hadd⟩

theorem addLinksToSchedule_cases (cfg : Config A) (peer : A) (cells : List Cell) (room : Bool) (h : s.sched.Inv)
    (hsf : tschScheduleGetSlotframeByHandle s.sched slotframeHandle = some sf) :
    ((∀ c, firstValid cells = some c → ¬ Adds s sf c.timeslotOffset true) ∧
      addLinksToSchedule cfg peer LINK_OPTION_TX cells room s = (s, none)) ∨
    ∃ c s₀ l, firstValid cells = some c ∧ Adds s sf c.timeslotOffset true ∧
      (addLinksToSchedule cfg peer LINK_OPTION_TX cells room s).2.isSome ∧
      Shrinks s (replaced s sf c.timeslotOffset true) s₀ ∧
      Added cfg s₀ (addLinksToSchedule cfg peer LINK_OPTION_TX cells room s).1 l (linkFor s₀ peer c) room := by
  have hmem : sf ∈ s.sched.slotframeList := List.mem_of_find?_eq_some hsf
  have hhandle : (s.sched.slotframe sf).handle = slotframeHandle := by simpa using List.find?_some hsf
  cases hc : firstValid cells with
  | none =>
    refine Or.inl ⟨fun c he => (by cases he), ?_⟩
    simp only [addLinksToSchedule, hsf, hc]
  | some c =>
    have hadd : addLinksToSchedule cfg peer LINK_OPTION_TX cells room s = tschScheduleAddLink cfg s sf LINK_OPTION_TX
        .normal (some peer) c.timeslotOffset c.channelOffset true room := by
      simp only [addLinksToSchedule, hsf, hc]
    rw [hadd, tschScheduleAddLink]
    by_cases hbig : (c.timeslotOffset.toNat : Int) > (s.sched.slotframe sf).size.toNat - 1
    · refine Or.inl ⟨?_, if_pos hbig⟩
      rintro c' he ⟨hfits, -⟩
      obtain rfl := Option.some.inj he
      exact hfits hbig
    · rw [if_neg hbig, if_pos rfl]
      cases hl : tschScheduleGetLinkByTimeslot s.sched sf c.timeslotOffset with
      | none =>
        have hrep : replaced s sf c.timeslotOffset true = [] := by rw [replaced, if_pos rfl, hl, Option.toList_none]
        dsimp only
        by_cases halloc : s.sched.linkMemb.alloc = none
        · refine Or.inl ⟨?_, ?_⟩
          · rintro c' he ⟨-, hroom⟩
            obtain rfl := Option.some.inj he
            exact hroom.elim (fun h => h hrep) fun h => h halloc
          · unfold addLink
            rw [halloc]
        · obtain ⟨hsome, l, hnew⟩ := addLink_added cfg peer c room h hmem hhandle halloc
          exact Or.inr ⟨c, s, l, rfl, ⟨hbig, Or.inr halloc⟩, hsome, hrep ▸ .refl s, hnew⟩
      | some old =>
        have hrep : replaced s sf c.timeslotOffset true = [old] := by rw [replaced, if_pos rfl, hl, Option.toList_some]
        obtain ⟨hr, hlist⟩ := removeLink_removed h hmem (List.mem_of_find?_eq_some hl)
        have hshrinks : Shrinks s (replaced s sf c.timeslotOffset true) (tschScheduleRemoveLink s sf old).1 :=
          hrep ▸ .link hr (.refl _)
        have hadds : Adds s sf c.timeslotOffset true := ⟨hbig, Or.inl (by simp [hrep])⟩
        obtain ⟨hsome, l, hnew⟩ := addLink_added cfg peer c room hr.inv (hr.list ▸ hmem)
          ((congrArg Slotframe.handle hlist).trans hhandle) ((hshrinks.alloc_iff h hr.num).2 hadds.2)
        exact Or.inr ⟨c, _, l, rfl, hadds, hsome, hshrinks, hnew⟩

/-! ## Counting the links to the peer -/

omit [DecidableEq A] in
omit [DecidableEq A] in
theorem mem_goes {c : Cell} {l : Nat} : l ∈ goes s sf c relocated ↔ l ∈ s.sched.links ∧
    (l ∈ replaced s sf c.timeslotOffset true ∨ (s.sched.link l).slotframeHandle = slotframeHandle ∧
      cellOf (s.sched.link l) = relocated ∧ relocated.timeslotOffset ≠ 0xffff) := by
  rw [goes, List.mem_filter, decide_eq_true_eq]

theorem fresh_goes {c : Cell} {l : Nat} {s₀ s₁ : State A} {new : Link A} (h : s.sched.Inv)
    (hs : Shrinks s (replaced s sf c.timeslotOffset true) s₀) (ha : Added cfg s₀ s₁ l new room) :
    l ∉ s.sched.links.filter fun l => l ∉ goes s sf c relocated := by
  rw [List.mem_filter, decide_eq_true_eq, mem_goes]
  rintro ⟨hl, hstay⟩
  refine hstay ⟨hl, Or.inl ?_⟩
  by_contra hrep
  refine ha.fresh ?_
  rw [(hs.filter_perm h).mem_iff, List.mem_filter, decide_eq_true_eq]
  exact ⟨hl, hrep⟩

theorem relocated_perm {c : Cell} {l : Nat} {s₀ s₁ s₂ : State A} (h : s.sched.Inv)
    (hs : Shrinks s (replaced s sf c.timeslotOffset true) s₀) (ha : Added cfg s₀ s₁ l (linkFor s₀ peer c) room)
    (hts : c.timeslotOffset ≠ 0xffff) (h₂ : s₂.sched.Inv)
    (hr : RemovesExactly ([relocated].filter fun c => c.timeslotOffset ≠ 0xffff) s₁ s₂) :
    s₂.sched.links.Perm ((if c = relocated then [] else [l]) ++
      s.sched.links.filter fun l => l ∉ goes s sf c relocated) := by
  have hleft : ∀ x, x ∈ s₀.sched.links ↔ x ∈ s.sched.links ∧ x ∉ replaced s sf c.timeslotOffset true := by
    intro x
    rw [(hs.filter_perm h).mem_iff, List.mem_filter, decide_eq_true_eq]
  have hmem₁ : ∀ x, x ∈ s₁.sched.links ↔ x = l ∨ x ∈ s₀.sched.links := by
    intro x
    rw [ha.perm.mem_iff, List.mem_cons]
  have hcell : ∀ d : Cell, d ∈ ([relocated].filter fun c => decide (c.timeslotOffset ≠ 0xffff)) ↔
      d = relocated ∧ relocated.timeslotOffset ≠ 0xffff := by
    intro d
    rw [List.mem_filter, List.mem_singleton, decide_eq_true_eq]
    constructor
    · rintro ⟨rfl, hd⟩
      exact ⟨rfl, hd⟩
    · rintro ⟨rfl, hd⟩
      exact ⟨rfl, hd⟩
  have hgone := @fresh_goes A _ cfg s sf relocated _ c l s₀ s₁ _ h hs ha
  refine (List.perm_ext_iff_of_nodup h₂.links.nodup ?_).2 fun x => ?_
  · refine List.nodup_append.2 ⟨by split <;> simp, h.links.nodup.filter _, ?_⟩
    intro x hx y hy
    split at hx
    · cases hx
    · rw [List.mem_singleton.1 hx]
      rintro rfl
      exact hgone hy
  · rw [hr.2, hmem₁, List.mem_append, hcell]
    by_cases hx : x = l
    · subst hx
      rw [ha.link, Function.update_self]
      have hnew : cellOf (linkFor s₀ peer c) = c := rfl
      have hhome : (linkFor s₀ peer c).slotframeHandle = slotframeHandle := rfl
      rw [hnew, hhome]
      by_cases hc : c = relocated
      · subst hc
        simpa [hts] using hgone
      · simp [hc]
    · rw [ha.link, Function.update_of_ne hx, hs.link_eq, hleft, List.mem_filter, decide_eq_true_eq, mem_goes]
      have hone : x ∉ (if c = relocated then [] else [l]) := by
        split <;> simp [hx]
      tauto

theorem txLinksIn_relocated {c : Cell} {l : Nat} {s₀ s₁ s₂ : State A} (h : s.sched.Inv)
    (hs : Shrinks s (replaced s sf c.timeslotOffset true) s₀) (ha : Added cfg s₀ s₁ l (linkFor s₀ peer c) room)
    (hts : c.timeslotOffset ≠ 0xffff) (h₂ : s₂.sched.Inv)
    (hr : RemovesExactly ([relocated].filter fun c => c.timeslotOffset ≠ 0xffff) s₁ s₂) :
    txLinksIn s₂.sched s₂.sched.links peer + txLinksIn s.sched (goes s sf c relocated) peer =
      txLinksIn s.sched s.sched.links peer + if c = relocated then 0 else 1 := by
  have hlink : s₂.sched.link = Function.update s.sched.link l (linkFor s₀ peer c) := by
    rw [hr.1, ha.link, hs.link_eq]
  have hstay : txLinksIn s₂.sched (s.sched.links.filter fun l => l ∉ goes s sf c relocated) peer =
      txLinksIn s.sched (s.sched.links.filter fun l => l ∉ goes s sf c relocated) peer := by
    refine txLinksIn_congr (fun x hx => ?_) peer
    rw [hlink, Function.update_of_ne]
    rintro rfl
    exact fresh_goes h hs ha hx
  have hnew : txLinksIn s₂.sched (if c = relocated then [] else [l]) peer = if c = relocated then 0 else 1 := by
    split
    · rfl
    · have htx : (linkFor s₀ peer c).isTx = true ∧ (linkFor s₀ peer c).addr = peer :=
        ⟨show (LINK_OPTION_TX &&& LINK_OPTION_TX != 0) = true by decide, rfl⟩
      rw [txLinksIn_cons, hlink, Function.update_self, if_pos htx]
      rfl
  have hsplit : txLinksIn s.sched s.sched.links peer = txLinksIn s.sched (goes s sf c relocated) peer +
      txLinksIn s.sched (s.sched.links.filter fun l => l ∉ goes s sf c relocated) peer := by
    have hgoes : s.sched.links.filter (fun l => decide (l ∈ goes s sf c relocated)) = goes s sf c relocated :=
      List.filter_congr fun x hx => decide_eq_decide.2 (mem_goes.trans (and_iff_right hx))
    have hcount := List.countP_eq_countP_filter_add s.sched.links
      (fun l => decide ((s.sched.link l).isTx ∧ (s.sched.link l).addr = peer))
      fun l => decide (l ∈ goes s sf c relocated)
    rw [hgoes] at hcount
    simpa only [txLinksIn, decide_not] using hcount
  have hperm := relocated_perm h hs ha hts h₂ hr
  rw [txLinksIn_perm _ hperm, txLinksIn_append, hnew, hstay, hsplit]
  omega

/-! ## Relocating -/

/-- What `response_input` does to the schedule for a RELOCATE response. -/
def relocate (cfg : Config A) (peer : A) (cells : List Cell) (room : Bool) (relocated : Cell) (s : State A) : State A :=
  removeLinksToSchedule [relocated] (addLinksToSchedule cfg peer LINK_OPTION_TX cells room s).1

/-- The relocation is right. -/
def RelocatedRight (cfg : Config A) (peer : A) (cells : List Cell) (room : Bool) (relocated : Cell) (s : State A) : Prop :=
  (∀ l ∈ s.sched.links, AtRelocated s.sched relocated l → l ∉ (relocate cfg peer cells room relocated s).sched.links →
    (addLinksToSchedule cfg peer LINK_OPTION_TX cells room s).2.isSome) ∧
  txLinksIn s.sched s.sched.links peer ≤ txLinksIn (relocate cfg peer cells room relocated s).sched
    (relocate cfg peer cells room relocated s).sched.links peer

theorem relocate_without_slotframe (hsf : tschScheduleGetSlotframeByHandle s.sched slotframeHandle = none) :
    RelocatedRight cfg peer cells room relocated s := by
  have hsame : relocate cfg peer cells room relocated s = s := by
    have hadd : addLinksToSchedule cfg peer LINK_OPTION_TX cells room s = (s, none) := by
      simp only [addLinksToSchedule, hsf]
    simp only [relocate, hadd, removeLinksToSchedule, hsf]
  rw [RelocatedRight, hsame]
  exact ⟨fun l hl _ hgone => absurd hl hgone, le_rfl⟩

theorem relocatedRight_iff (cfg : Config A) (peer : A) (cells : List Cell) (room : Bool) (relocated : Cell)
    (h : s.sched.Inv) : RelocatedRight cfg peer cells room relocated s ↔ Relocates s peer relocated cells := by
  cases hsf : tschScheduleGetSlotframeByHandle s.sched slotframeHandle with
  | none =>
    refine iff_of_true (relocate_without_slotframe hsf) fun sf hsome => ?_
    rw [hsf] at hsome
    cases hsome
  | some sf =>
    have hone : Relocates s peer relocated cells ↔
        (∀ c, firstValid cells = some c → Adds s sf c.timeslotOffset true →
          txLinksIn s.sched (goes s sf c relocated) peer ≤ if c = relocated then 0 else 1) ∧
        ((∀ c, firstValid cells = some c → ¬ Adds s sf c.timeslotOffset true) →
          relocated.timeslotOffset = 0xffff ∨ ∀ l ∈ s.sched.links, ¬ AtRelocated s.sched relocated l) := by
      constructor
      · exact fun hr => hr sf hsf
      · intro hr sf' hsf'
        obtain rfl := Option.some.inj (hsf.symm.trans hsf')
        exact hr
    rw [hone]
    rcases addLinksToSchedule_cases cfg peer cells room h hsf with
      ⟨hnone, hadd⟩ | ⟨c, s₀, l, hc, hadds, hsome, hshrinks, hadded⟩
    · obtain ⟨hinv, hr⟩ := removeLinksToSchedule_removes h [relocated]
      have hrel : relocate cfg peer cells room relocated s = removeLinksToSchedule [relocated] s := by
        rw [relocate, hadd]
      rw [RelocatedRight, hrel, hadd]
      constructor
      · rintro ⟨hkeep, -⟩
        refine ⟨fun c hc hadds => absurd hadds (hnone c hc), fun _ => ?_⟩
        by_cases hts : relocated.timeslotOffset = 0xffff
        · exact Or.inl hts
        · refine Or.inr fun l hl hat => ?_
          have hgone : l ∉ (removeLinksToSchedule [relocated] s).sched.links := by
            rw [hr.2, List.filter_cons_of_pos (by simpa using hts), hat.2]
            exact fun hstay => hstay.2 ⟨hat.1, List.mem_cons_self⟩
          cases hkeep l hl hat hgone
      · rintro ⟨-, habsent⟩
        have hstay : ∀ l, l ∈ (removeLinksToSchedule [relocated] s).sched.links ↔ l ∈ s.sched.links := by
          intro l
          rw [hr.2, List.mem_filter, List.mem_singleton, decide_eq_true_eq]
          refine and_iff_left_of_imp fun hl => ?_
          rintro ⟨hhome, hcell, hts⟩
          rcases habsent hnone with hrel | habsent
          · exact hts (hcell ▸ hrel)
          · exact habsent l hl ⟨hhome, hcell⟩
        have hperm := (List.perm_ext_iff_of_nodup hinv.links.nodup h.links.nodup).2 hstay
        refine ⟨fun l hl _ hgone => absurd ((hstay l).2 hl) hgone, le_of_eq ?_⟩
        rw [txLinksIn_perm _ hperm]
        exact (txLinksIn_congr (fun l _ => congrFun hr.1 l) peer).symm
    · obtain ⟨hinv, hr⟩ := removeLinksToSchedule_removes hadded.inv [relocated]
      have hcount := txLinksIn_relocated h hshrinks hadded (firstValid_timeslot hc) hinv hr
      have hif : (∀ l ∈ s.sched.links, AtRelocated s.sched relocated l →
          l ∉ (relocate cfg peer cells room relocated s).sched.links →
          (addLinksToSchedule cfg peer LINK_OPTION_TX cells room s).2.isSome) := fun _ _ _ _ => hsome
      rw [RelocatedRight, and_iff_right hif]
      constructor
      · intro hle
        refine ⟨fun c' hc' _ => ?_, fun hnone => absurd hadds (hnone c hc)⟩
        obtain rfl := Option.some.inj (hc.symm.trans hc')
        have hle : txLinksIn s.sched s.sched.links peer ≤ _ := hle
        unfold relocate at hle
        omega
      · rintro ⟨hgoes, -⟩
        have hgoes := hgoes c hc hadds
        unfold relocate
        omega

/-! ## Reading the body -/

theorem cellSpans_inside {n : Nat} {span : Span} (h : span ∈ cellSpans 0 n) : span.Inside n := by
  obtain ⟨k, hk, rfl⟩ := List.mem_map.1 h
  rw [List.mem_range] at hk
  exact Span.inside_of_le (by omega)

theorem addSpans_inside {n : Nat} {present : Bool} {span : Span}
    (h : span ∈ if present then addSpans 0 n cells else []) : span.Inside n := by
  split at h
  · exact cellSpans_inside (List.mem_of_mem_take h)
  · cases h

theorem first_inside {body : List UInt8} (hmod : body.length % 4 = 0) {k : Nat} (hk : 0 < k) (hfour : k ≤ 4) :
    Span.Inside ⟨0, k⟩ body.length ↔ body ≠ [] := by
  constructor
  · rintro h rfl
    exact absurd (h 0 le_rfl (by simpa using hk)) (by simp)
  · intro hne
    have hpos := List.length_pos_iff.2 hne
    exact Span.inside_of_le (by omega)

theorem responseInput_eq (cfg : Config A) (cmd : Option PktCode) (relocated : Cell) {rc : PktCode} {body : List UInt8}
    (peer : A) (room : Bool) (s : State A) : responseInput cfg cmd relocated rc body peer room s =
      if rc = Rc.success ∧ body.length % 4 = 0 then
        cmd.elim (.unchanged s) (handleCells cfg relocated (memOf body) 0 body.length peer room s)
      else .unchanged s := by
  cases cmd with
  | none => simp [responseInput]
  | some cmd =>
    have hoff : getCellListOffset .response Rc.success = some 0 := rfl
    simp only [responseInput, Body.sixpPktGetCellList, listVars, hoff]
    by_cases hrc : rc = Rc.success
    · rw [if_pos hrc, if_neg (by omega)]
      by_cases hmod : body.length % 4 = 0
      · rw [if_neg (by omega), if_pos ⟨hrc, hmod⟩]
        rfl
      · rw [if_pos (by omega), if_neg (fun h => hmod h.2)]
        rfl
    · rw [if_neg hrc, if_neg (fun h => hrc h.1)]

/-! ## Right responses -/

theorem unchanged_right (s : State A) (cmd : Option PktCode) (relocated : Cell) (peer : A) (n : Nat) :
    HandledRight s cmd relocated peer n (.unchanged s) :=
  ⟨fun span h => (by cases h), fun _ l hl _ hgone => absurd hl hgone, fun _ => le_rfl⟩

section

variable {body : List UInt8}

theorem memOf_zero (body : List UInt8) : (fun i => memOf body (0 + i)) = memOf body := by
  funext i
  rw [Nat.zero_add]

theorem handleAdd_iff (hmod : body.length % 4 = 0) : HandledRight s (some Cmd.add) relocated peer body.length
      (handleCells cfg relocated (memOf body) 0 body.length peer room s Cmd.add) ↔ body ≠ [] := by
  simp only [handleCells, memOf_zero, if_true]
  constructor
  · intro hr
    exact (first_inside hmod (by decide) le_rfl).1 (hr.inside _ (by simp))
  · intro hne
    refine ⟨fun span hspan => ?_, by rintro ⟨⟩, by rintro ⟨⟩⟩
    rcases List.mem_append.1 hspan with hspan | hspan
    · rcases List.mem_append.1 hspan with hspan | hspan
      · exact cellSpans_inside hspan
      · exact addSpans_inside hspan
    · rw [List.mem_singleton.1 hspan]
      exact (first_inside hmod (by decide) le_rfl).2 hne

theorem handleDelete_right : HandledRight s (some Cmd.delete) relocated peer body.length
    (handleCells cfg relocated (memOf body) 0 body.length peer room s Cmd.delete) := by
  simp only [handleCells, if_true]
  rw [if_neg (by decide)]
  refine ⟨fun span hspan => ?_, by rintro ⟨⟩, by rintro ⟨⟩⟩
  rcases List.mem_append.1 hspan with hspan | hspan
  · exact cellSpans_inside hspan
  · split at hspan
    · exact cellSpans_inside hspan
    · cases hspan

theorem handleRelocate_iff (h : s.sched.Inv) (hmod : body.length % 4 = 0) :
    HandledRight s (some Cmd.relocate) relocated peer body.length
      (handleCells cfg relocated (memOf body) 0 body.length peer room s Cmd.relocate) ↔
    body ≠ [] ∧ Relocates s peer relocated (cellsIn (memOf body) body.length) := by
  rw [← relocatedRight_iff cfg peer _ room relocated h]
  simp only [handleCells, memOf_zero, if_true]
  rw [if_neg (by decide), if_neg (by decide)]
  constructor
  · intro hr
    exact ⟨(first_inside hmod (by decide) (by decide)).1 (hr.inside ⟨0, 2⟩ (by simp)), hr.replaced rfl, hr.kept rfl⟩
  · rintro ⟨hne, hr⟩
    refine ⟨fun span hspan => ?_, fun _ => hr.1, fun _ => hr.2⟩
    rcases List.mem_append.1 hspan with hspan | hspan
    · rcases List.mem_append.1 hspan with hspan | hspan
      · exact cellSpans_inside hspan
      · rw [List.mem_singleton.1 hspan]
        exact (first_inside hmod (by decide) (by decide)).2 hne
    · exact addSpans_inside hspan

end

/-- For every body and return code of a response, every command it may answer, every relocated cell and every schedule:
nothing is read beyond the body, and a RELOCATE removes the relocated cell only for one that was added and leaves as
many TX links to the peer as there were, exactly when the response is one of those described. -/
theorem response_right_iff (cfg : Config A) (s : State A) (h : s.sched.Inv) (cmd : Option PktCode) (relocated : Cell)
    (rc : PktCode) (body : List UInt8) (peer : A) (room : Bool) :
    HandledRight s cmd relocated peer body.length (responseInput cfg cmd relocated rc body peer room s) ↔
      Handleable s cmd relocated rc body peer := by
  rw [responseInput_eq]
  by_cases hgets : rc = Rc.success ∧ body.length % 4 = 0
  · obtain ⟨hrc, hmod⟩ := hgets
    rw [if_pos ⟨hrc, hmod⟩]
    cases cmd with
    | none => exact iff_of_true (unchanged_right s none relocated peer _) fun _ _ => ⟨by simp, by simp⟩
    | some cmd =>
      have hhandle : Handleable s (some cmd) relocated rc body peer ↔
          ((cmd = Cmd.add ∨ cmd = Cmd.relocate) → body ≠ []) ∧
            (cmd = Cmd.relocate → Relocates s peer relocated (cellsIn (memOf body) body.length)) := by
        unfold Handleable
        rw [Option.some_inj, Option.some_inj]
        exact ⟨fun hh => hh hrc hmod, fun hh _ _ => hh⟩
      rw [hhandle, Option.elim_some]
      by_cases hadd : cmd = Cmd.add
      · subst hadd
        rw [handleAdd_iff hmod]
        exact ⟨fun hne => ⟨fun _ => hne, by rintro ⟨⟩⟩, fun hh => hh.1 (Or.inl rfl)⟩
      by_cases hdel : cmd = Cmd.delete
      · subst hdel
        refine iff_of_true handleDelete_right ⟨?_, by rintro ⟨⟩⟩
        rintro (hcmd | hcmd) <;> cases hcmd
      by_cases hrel : cmd = Cmd.relocate
      · subst hrel
        rw [handleRelocate_iff h hmod]
        exact ⟨fun hh => ⟨fun _ => hh.1, fun _ => hh.2⟩, fun hh => ⟨hh.1 (Or.inr rfl), hh.2 rfl⟩⟩
      have hsame : handleCells cfg relocated (memOf body) 0 body.length peer room s cmd = .unchanged s := by
        simp only [handleCells]
        rw [if_neg hadd, if_neg hdel, if_neg hrel]
      rw [hsame]
      exact iff_of_true (unchanged_right s _ relocated peer _)
        ⟨fun hcmd => hcmd.elim (absurd · hadd) (absurd · hrel), fun hcmd => absurd hcmd hrel⟩
  · rw [if_neg hgets]
    exact iff_of_true (unchanged_right s cmd relocated peer _) fun hrc hmod => absurd ⟨hrc, hmod⟩ hgets

def smallNetwork : Config Unit := ⟨(), (), (), 4, 4, 4, 4, 1, 1, 5, four_eq_pow, four_eq_pow⟩

/-- The response with a free cell replaces the relocated one. -/
theorem response_right_free : HandledRight twoLinks (some Cmd.relocate) ⟨20, 1⟩ () 4
    (responseInput smallNetwork (some Cmd.relocate) ⟨20, 1⟩ Rc.success [30, 0, 1, 0] () true twoLinks) := by
  refine (response_right_iff smallNetwork twoLinks twoLinks_inv (some Cmd.relocate) ⟨20, 1⟩ Rc.success [30, 0, 1, 0] ()
    true).2 fun _ _ => ⟨fun _ => by decide, fun _ sf hsf => ?_⟩
  have hzero : tschScheduleGetSlotframeByHandle twoLinks.sched slotframeHandle = some 0 := rfl
  obtain rfl := Option.some.inj (hzero.symm.trans hsf)
  have hfirst : firstValid (cellsIn (memOf [30, 0, 1, 0]) 4) = some ⟨30, 1⟩ := by decide
  refine ⟨fun c hc _ => ?_, fun hnone => absurd ?_ (hnone _ hfirst)⟩
  · obtain rfl := Option.some.inj (hfirst.symm.trans hc)
    decide
  · exact ⟨by decide, Or.inr (by decide)⟩

/-- An empty response to a RELOCATE removes the relocated cell. -/
theorem empty_response_removes : ¬ HandledRight twoLinks (some Cmd.relocate) ⟨20, 1⟩ () 0
    (responseInput smallNetwork (some Cmd.relocate) ⟨20, 1⟩ Rc.success [] () true twoLinks) := by
  intro h
  have hgone := h.replaced rfl 0 (by decide) ⟨by decide, by decide⟩ (by decide)
  cases hgone

end Contiki.SfSimple

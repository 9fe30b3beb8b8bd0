/-
The timeslots and the handles of links over whole runs. A call that removes leaves fewer links in the same slotframes,
and a call that adds checks the timeslot, so that every link is below the size of its slotframe; where every call removes
the link that it finds at the timeslot, no slotframe has two links at one. The handle of a link has 16 bits of a counter
that only grows: two links have the same one exactly when their numbers differ by a multiple of 65536.
-/
import Contiki.Tsch.Links

namespace Contiki.Tsch

open Contiki.Core Contiki.Lib

variable {A : Type} [DecidableEq A] {cfg : Config A} {s s' s'' : State A} {sf l : Nat}

/-! ## Fewer links -/

/-- The slotframes and links of `s'` are some of those of `s`, in the same order. -/
structure Fewer (s s' : State A) : Prop where
  slotframes : s'.sched.slotframeList.Sublist s.sched.slotframeList
  size : ∀ sf, (s'.sched.slotframe sf).size = (s.sched.slotframe sf).size
  list : ∀ sf, (s'.sched.slotframe sf).linksList.Sublist (s.sched.slotframe sf).linksList
  link : s'.sched.link = s.sched.link

omit [DecidableEq A] in
theorem Fewer.refl (s : State A) : Fewer s s := ⟨.refl _, fun _ => rfl, fun _ => .refl _, rfl⟩

omit [DecidableEq A] in
theorem Fewer.trans (h : Fewer s s') (h' : Fewer s' s'') : Fewer s s'' where
  slotframes := h'.slotframes.trans h.slotframes
  size := fun sf => (h'.size sf).trans (h.size sf)
  list := fun sf => (h'.list sf).trans (h.list sf)
  link := h'.link.trans h.link

omit [DecidableEq A] in
theorem setLinks_same (s : Schedule A) (sf : Nat) (ls : List Nat) :
    (s.setLinks sf ls).slotframe sf = { s.slotframe sf with linksList := ls } := Function.update_self ..

omit [DecidableEq A] in
theorem setLinks_other (s : Schedule A) {sf sf' : Nat} (h : sf' ≠ sf) (ls : List Nat) :
    (s.setLinks sf ls).slotframe sf' = s.slotframe sf' := Function.update_of_ne h ..

theorem removeLink_fewer (s : State A) (sf l : Nat) : Fewer s (tschScheduleRemoveLink s sf l).1 := by
  unfold tschScheduleRemoveLink
  split
  · refine ⟨.refl _, fun sf' => ?_, fun sf' => ?_, rfl⟩
    · show ((s.sched.setLinks sf _).slotframe sf').size = _
      by_cases h : sf' = sf
      · subst h
        rw [setLinks_same]
      · rw [setLinks_other _ h]
    · show ((s.sched.setLinks sf _).slotframe sf').linksList.Sublist _
      by_cases h : sf' = sf
      · subst h
        rw [setLinks_same]
        exact List.erase_sublist
      · rw [setLinks_other _ h]
  · exact .refl s

theorem removeByOffsets_fewer (timeslot channelOffset : UInt16) (sf : Nat) : ∀ (ls : List Nat) (s : State A),
    Fewer s (removeByOffsets timeslot channelOffset sf ls s).1
  | [], s => .refl s
  | l :: ls, s => by
    unfold removeByOffsets
    split
    · exact (removeLink_fewer s sf l).trans (removeByOffsets_fewer timeslot channelOffset sf ls _)
    · exact removeByOffsets_fewer timeslot channelOffset sf ls s

theorem removeLinks_fewer (sf : Nat) : ∀ (fuel : Nat) (s : State A), Fewer s (removeLinks sf fuel s)
  | 0, s => .refl s
  | fuel + 1, s => by
    unfold removeLinks
    split
    · exact .refl s
    · exact (removeLink_fewer s sf _).trans (removeLinks_fewer sf fuel _)

theorem removeSlotframe_fewer (s : State A) (sf : Nat) : Fewer s (tschScheduleRemoveSlotframe s sf) := by
  have h := removeLinks_fewer sf (s.sched.slotframe sf).linksList.length s
  exact h.trans ⟨List.erase_sublist, fun _ => rfl, fun _ => .refl _, rfl⟩

theorem removeSlotframes_fewer : ∀ (fuel : Nat) (s : State A), Fewer s (removeSlotframes fuel s)
  | 0, s => .refl s
  | fuel + 1, s => by
    unfold removeSlotframes
    split
    · exact .refl s
    · exact (removeSlotframe_fewer s _).trans (removeSlotframes_fewer fuel _)

/-! ## Timeslots -/

def Schedule.BelowSize (s : Schedule A) : Prop :=
  ∀ sf ∈ s.slotframeList, ∀ l ∈ (s.slotframe sf).linksList, (s.link l).timeslot < (s.slotframe sf).size

def Schedule.OnePerTimeslot (s : Schedule A) : Prop :=
  ∀ sf ∈ s.slotframeList, ((s.slotframe sf).linksList.map fun l => (s.link l).timeslot).Nodup

/-- A schedule as the calls leave it. -/
structure Schedule.Valid (s : Schedule A) : Prop where
  inv : s.Inv
  timeslots : s.BelowSize

omit [DecidableEq A] in
theorem Fewer.belowSize (h : Fewer s s') (hs : s.sched.BelowSize) : s'.sched.BelowSize := by
  intro sf hsf l hl
  rw [h.link, h.size]
  exact hs sf (h.slotframes.subset hsf) l ((h.list sf).subset hl)

omit [DecidableEq A] in
theorem Fewer.onePerTimeslot (h : Fewer s s') (hs : s.sched.OnePerTimeslot) : s'.sched.OnePerTimeslot := by
  intro sf hsf
  rw [h.link]
  exact (hs sf (h.slotframes.subset hsf)).sublist ((h.list sf).map _)

omit [DecidableEq A] in
theorem addSlotframe_lists (h : s.sched.Inv) (handle size : UInt16) : (tschScheduleAddSlotframe s handle size).1 = s ∨
    ∃ sf, sf ∉ s.sched.slotframeList ∧
      (tschScheduleAddSlotframe s handle size).1.sched.slotframeList = s.sched.slotframeList ++ [sf] ∧
      (tschScheduleAddSlotframe s handle size).1.sched.slotframe =
        Function.update s.sched.slotframe sf ⟨handle, size, []⟩ ∧
      (tschScheduleAddSlotframe s handle size).1.sched.link = s.sched.link := by
  unfold tschScheduleAddSlotframe
  split
  · exact .inl rfl
  · split
    · exact .inl rfl
    · split
      · exact .inl rfl
      · rename_i sf mem ha
        obtain ⟨hnew, -, -⟩ := h.slotframes.alloc ha
        exact .inr ⟨sf, hnew, listAdd_new hnew, rfl, rfl⟩

omit [DecidableEq A] in
theorem addSlotframe_timeslots (h : s.sched.Inv) (handle size : UInt16) :
    (s.sched.BelowSize → (tschScheduleAddSlotframe s handle size).1.sched.BelowSize) ∧
    (s.sched.OnePerTimeslot → (tschScheduleAddSlotframe s handle size).1.sched.OnePerTimeslot) := by
  obtain he | ⟨new, hnew, hlist, hframe, hlink⟩ := addSlotframe_lists h handle size
  · rw [he]
    exact ⟨id, id⟩
  · unfold Schedule.BelowSize Schedule.OnePerTimeslot
    rw [hlist, hframe, hlink]
    constructor
    · intro hb sf hsf l hl
      rcases List.mem_append.1 hsf with hsf | hsf
      · have hne : sf ≠ new := fun he => hnew (he ▸ hsf)
        rw [Function.update_of_ne hne] at hl ⊢
        exact hb sf hsf l hl
      · rw [List.mem_singleton.1 hsf, Function.update_self] at hl
        cases hl
    · intro ho sf hsf
      rcases List.mem_append.1 hsf with hsf | hsf
      · have hne : sf ≠ new := fun he => hnew (he ▸ hsf)
        rw [Function.update_of_ne hne]
        exact ho sf hsf
      · rw [List.mem_singleton.1 hsf, Function.update_self]
        exact List.nodup_nil

theorem addLink_lists (cfg : Config A) (h : s.sched.Inv) (hsf : sf ∈ s.sched.slotframeList) (linkOptions : UInt8)
    (linkType : LinkType) (address : Option A) (timeslot channelOffset : UInt16) (room : Bool) :
    (addLink cfg s sf linkOptions linkType address timeslot channelOffset room).1 = s ∨
    ∃ l link, l ∉ s.sched.links ∧ link.timeslot = timeslot ∧
      (addLink cfg s sf linkOptions linkType address timeslot channelOffset room).1.sched =
        { s.sched.setLinks sf ((s.sched.slotframe sf).linksList ++ [l]) with
          linkMemb := (addLink cfg s sf linkOptions linkType address timeslot channelOffset room).1.sched.linkMemb
          link := Function.update s.sched.link l link
          currentLinkHandle := s.sched.currentLinkHandle + 1 } := by
  unfold addLink
  cases ha : s.sched.linkMemb.alloc with
  | none => exact .inl rfl
  | some p =>
    obtain ⟨l, mem⟩ := p
    obtain ⟨hnew, -, -⟩ := h.links.alloc ha
    have hoff : l ∉ (s.sched.slotframe sf).linksList := fun hl => hnew (mem_links.2 ⟨sf, hsf, hl⟩)
    refine .inr ⟨l, ⟨s.sched.currentLinkHandle, address.getD cfg.linkaddrNull, (s.sched.slotframe sf).handle,
      timeslot, channelOffset, linkOptions, linkType⟩, hnew, rfl, ?_⟩
    rw [← listAdd_new hoff]

section

variable {linkOptions : UInt8} {linkType : LinkType} {address : Option A} {timeslot channelOffset : UInt16} {room : Bool}

theorem addLink_belowSize (h : s.sched.Inv) (hsf : sf ∈ s.sched.slotframeList) (hb : s.sched.BelowSize)
    (ht : timeslot < (s.sched.slotframe sf).size) :
    (addLink cfg s sf linkOptions linkType address timeslot channelOffset room).1.sched.BelowSize := by
  obtain he | ⟨new, link, hnew, hts, he⟩ :=
    addLink_lists cfg h hsf linkOptions linkType address timeslot channelOffset room
  · rwa [he]
  · rw [he]
    intro sf' hsf' l hl
    have hold : ∀ l ∈ (s.sched.slotframe sf').linksList,
        (Function.update s.sched.link new link l).timeslot < (s.sched.slotframe sf').size := by
      intro l hl
      have hne : l ≠ new := fun he => hnew (mem_links.2 ⟨sf', hsf', he ▸ hl⟩)
      rw [Function.update_of_ne hne]
      exact hb sf' hsf' l hl
    change l ∈ ((s.sched.setLinks sf _).slotframe sf').linksList at hl
    show (Function.update s.sched.link new link l).timeslot < ((s.sched.setLinks sf _).slotframe sf').size
    by_cases hne : sf' = sf
    · subst hne
      rw [setLinks_same] at hl ⊢
      rcases List.mem_append.1 hl with hl | hl
      · exact hold l hl
      · rw [List.mem_singleton.1 hl, Function.update_self, hts]
        exact ht
    · rw [setLinks_other _ hne] at hl ⊢
      exact hold l hl

theorem addLink_onePerTimeslot (h : s.sched.Inv) (hsf : sf ∈ s.sched.slotframeList) (ho : s.sched.OnePerTimeslot)
    (hfree : ∀ l ∈ (s.sched.slotframe sf).linksList, (s.sched.link l).timeslot ≠ timeslot) :
    (addLink cfg s sf linkOptions linkType address timeslot channelOffset room).1.sched.OnePerTimeslot := by
  obtain he | ⟨new, link, hnew, hts, he⟩ :=
    addLink_lists cfg h hsf linkOptions linkType address timeslot channelOffset room
  · rwa [he]
  · rw [he]
    intro sf' hsf'
    have hold : (s.sched.slotframe sf').linksList.map (fun l => (Function.update s.sched.link new link l).timeslot) =
        (s.sched.slotframe sf').linksList.map fun l => (s.sched.link l).timeslot := by
      apply List.map_congr_left
      intro l hl
      have hne : l ≠ new := fun he => hnew (mem_links.2 ⟨sf', hsf', he ▸ hl⟩)
      rw [Function.update_of_ne hne]
    show (((s.sched.setLinks sf _).slotframe sf').linksList.map fun l =>
      (Function.update s.sched.link new link l).timeslot).Nodup
    by_cases hne : sf' = sf
    · subst hne
      rw [setLinks_same]
      dsimp only
      rw [List.map_append, hold, List.map_singleton, Function.update_self, hts, List.nodup_append]
      refine ⟨ho sf' hsf', List.nodup_singleton _, ?_⟩
      intro t ht t' ht'
      obtain ⟨l, hl, rfl⟩ := List.mem_map.1 ht
      rw [List.mem_singleton.1 ht']
      exact hfree l hl
    · rw [setLinks_other _ hne, hold]
      exact ho sf' hsf'

/-- A timeslot that the slotframe does not have is refused; otherwise the link at the timeslot is gone before another one
is added there. -/
theorem tschScheduleAddLink_steps (cfg : Config A) (h : s.sched.Inv) (hsf : sf ∈ s.sched.slotframeList)
    (linkOptions : UInt8) (linkType : LinkType) (address : Option A) (timeslot channelOffset : UInt16)
    (doRemove room : Bool) :
    tschScheduleAddLink cfg s sf linkOptions linkType address timeslot channelOffset doRemove room = (s, none) ∨
    timeslot < (s.sched.slotframe sf).size ∧
    ∃ s₁, Fewer s s₁ ∧ Shrinks s (replaced s sf timeslot doRemove) s₁ ∧ sf ∈ s₁.sched.slotframeList ∧
      (doRemove = true → s.sched.OnePerTimeslot →
        ∀ l ∈ (s₁.sched.slotframe sf).linksList, (s₁.sched.link l).timeslot ≠ timeslot) ∧
      tschScheduleAddLink cfg s sf linkOptions linkType address timeslot channelOffset doRemove room =
        addLink cfg s₁ sf linkOptions linkType address timeslot channelOffset room := by
  unfold tschScheduleAddLink replaced
  by_cases hbig : (timeslot.toNat : Int) > (s.sched.slotframe sf).size.toNat - 1
  · exact .inl (if_pos hbig)
  · refine .inr ⟨UInt16.lt_iff_toNat_lt.2 (by omega), ?_⟩
    rw [if_neg hbig]
    cases doRemove with
    | false => exact ⟨s, .refl s, .refl s, hsf, by rintro ⟨⟩, rfl⟩
    | true =>
      cases hl : tschScheduleGetLinkByTimeslot s.sched sf timeslot with
      | none =>
        refine ⟨s, .refl s, .refl s, hsf, fun _ _ l hmem he => ?_, rfl⟩
        have := List.find?_eq_none.1 hl l hmem
        simp [he] at this
      | some l =>
        have hmem : l ∈ (s.sched.slotframe sf).linksList := List.mem_of_find?_eq_some hl
        have hat : (s.sched.link l).timeslot = timeslot := by simpa using List.find?_some hl
        obtain ⟨hr, hlist⟩ := removeLink_removed h hsf hmem
        refine ⟨_, removeLink_fewer s sf l, .link hr (.refl _), hr.list ▸ hsf, ?_, rfl⟩
        intro _ ho l' hl' he
        rw [hlist] at hl'
        rw [hr.link] at he
        -- only the link that is gone was at the timeslot
        have heq : l' = l := List.inj_on_of_nodup_map (ho sf hsf) (List.mem_of_mem_erase hl') hmem (he.trans hat.symm)
        rw [heq] at hl'
        exact (h.list_nodup hsf).not_mem_erase hl'

end

/-! ## Steps -/

variable {action : Action A}

/-- What a step does to the schedule: nothing, or some links go, or a slotframe or a link comes. -/
theorem step_sched {w w' : World A} (hs : step cfg w action = some w') :
    w'.state.sched = w.state.sched ∨ Fewer w.state w'.state ∨ (∃ handle size, action = .addSlotframe handle size ∧
      w'.state = (tschScheduleAddSlotframe w.state handle size).1) ∨
    ∃ sf linkOptions linkType address timeslot channelOffset doRemove room,
      action = .addLink sf linkOptions linkType address timeslot channelOffset doRemove room ∧
      sf ∈ w.state.sched.slotframeList ∧ w'.state =
        (tschScheduleAddLink cfg w.state sf linkOptions linkType address timeslot channelOffset doRemove room).1 := by
  cases action with
  | addSlotframe handle size =>
    simp only [step, Option.ite_none_right_eq_some, Option.some.injEq] at hs
    obtain ⟨-, rfl⟩ := hs
    exact .inr (.inr (.inl ⟨handle, size, rfl, rfl⟩))
  | removeSlotframe sf =>
    simp only [step, Option.ite_none_right_eq_some, Option.some.injEq] at hs
    obtain ⟨-, rfl⟩ := hs
    exact .inr (.inl (removeSlotframe_fewer w.state sf))
  | removeAllSlotframes =>
    simp only [step, Option.ite_none_right_eq_some, Option.some.injEq] at hs
    obtain ⟨-, rfl⟩ := hs
    exact .inr (.inl (removeSlotframes_fewer _ w.state))
  | addLink sf linkOptions linkType address timeslot channelOffset doRemove room =>
    simp only [step, Option.ite_none_right_eq_some, Option.some.injEq] at hs
    obtain ⟨hc, rfl⟩ := hs
    exact .inr (.inr (.inr ⟨sf, linkOptions, linkType, address, timeslot, channelOffset, doRemove, room, rfl, hc.2,
      rfl⟩))
  | removeLink sf l =>
    simp only [step, Option.ite_none_right_eq_some, Option.some.injEq] at hs
    obtain ⟨-, rfl⟩ := hs
    exact .inr (.inl (removeLink_fewer w.state sf l))
  | removeLinkByOffsets sf timeslot channelOffset =>
    simp only [step, Option.ite_none_right_eq_some, Option.some.injEq] at hs
    obtain ⟨-, rfl⟩ := hs
    exact .inr (.inl (removeByOffsets_fewer timeslot channelOffset sf _ w.state))
  | addPacket =>
    simp only [step, Option.ite_none_right_eq_some, Option.some.injEq] at hs
    obtain ⟨-, rfl⟩ := hs
    exact .inl rfl
  | flush addr =>
    obtain ⟨q, he⟩ := flushRound_state (show flushRound w addr = some w' from hs)
    exact .inl (by rw [he])
  | flushReturn =>
    simp only [step] at hs
    split at hs
    · exact .inl (callbackReturn_state hs).1
    · cases hs
  | resetBackoff =>
    cases hs
    exact .inl rfl
  | pending => exact .inl (by rw [pendingRound_state (show pendingRound w = some w' from hs)])
  | pendingReturn =>
    simp only [step] at hs
    split at hs
    · exact .inl (callbackReturn_state hs).1
    · cases hs
  | freeUnused =>
    simp only [step, Option.ite_none_right_eq_some, Option.some.injEq] at hs
    obtain ⟨-, rfl⟩ := hs
    exact .inl rfl
  | timeSource =>
    simp only [step, Option.ite_none_right_eq_some, Option.some.injEq] at hs
    obtain ⟨-, rfl⟩ := hs
    exact .inl rfl
  | join asn misses =>
    simp only [step, Option.ite_none_right_eq_some, Option.some.injEq] at hs
    obtain ⟨-, rfl⟩ := hs
    exact .inl (slotOperationStart_ended misses w.state asn).sched
  | slotStart lockRequested order ending =>
    simp only [step, Option.ite_none_right_eq_some, Option.some.injEq] at hs
    obtain ⟨-, rfl⟩ := hs
    exact .inl (slotStart_spec cfg w.state lockRequested order ending).1.sched
  | slotFinish status rand burst ending =>
    simp only [step, Option.ite_none_right_eq_some, Option.some.injEq] at hs
    obtain ⟨-, rfl⟩ := hs
    exact .inl slotFinish_sched

theorem addLink_timeslots (h : s.sched.Inv) (hsf : sf ∈ s.sched.slotframeList) (linkOptions : UInt8)
    (linkType : LinkType) (address : Option A) (timeslot channelOffset : UInt16) (doRemove room : Bool) :
    (s.sched.BelowSize → (tschScheduleAddLink cfg s sf linkOptions linkType address timeslot channelOffset doRemove
      room).1.sched.BelowSize) ∧
    (doRemove = true → s.sched.OnePerTimeslot → (tschScheduleAddLink cfg s sf linkOptions linkType address timeslot
      channelOffset doRemove room).1.sched.OnePerTimeslot) := by
  obtain he | ⟨ht, s₁, hfewer, hshrinks, hsf₁, hfree, he⟩ :=
    tschScheduleAddLink_steps cfg h hsf linkOptions linkType address timeslot channelOffset doRemove room
  · rw [he]
    exact ⟨id, fun _ => id⟩
  · rw [he]
    have hinv := hshrinks.inv h
    constructor
    · intro hb
      exact addLink_belowSize hinv hsf₁ (hfewer.belowSize hb) (hfewer.size sf ▸ ht)
    · intro hremove ho
      exact addLink_onePerTimeslot hinv hsf₁ (hfewer.onePerTimeslot ho) (hfree hremove ho)

theorem step_belowSize {w w' : World A} (h : w.state.sched.Inv) (hb : w.state.sched.BelowSize)
    (hs : step cfg w action = some w') : w'.state.sched.BelowSize := by
  obtain he | hf | ⟨handle, size, -, he⟩ | ⟨sf, linkOptions, linkType, address, timeslot, channelOffset, doRemove, room,
    -, hsf, he⟩ := step_sched hs
  · rwa [he]
  · exact hf.belowSize hb
  · rw [he]
    exact (addSlotframe_timeslots h handle size).1 hb
  · rw [he]
    exact (addLink_timeslots h hsf linkOptions linkType address timeslot channelOffset doRemove room).1 hb

/-- A link is added in place of the one at its timeslot. -/
def Action.Removes : Action A → Prop
  | .addLink _ _ _ _ _ _ doRemove _ => doRemove = true
  | _ => True

instance instDecidableRemoves : ∀ action : Action A, Decidable action.Removes
  | .addLink _ _ _ _ _ _ doRemove _ => inferInstanceAs (Decidable (doRemove = true))
  | .addSlotframe .. | .removeSlotframe .. | .removeAllSlotframes | .removeLink .. | .removeLinkByOffsets ..
  | .addPacket .. | .flush .. | .flushReturn | .resetBackoff .. | .pending | .pendingReturn | .freeUnused
  | .timeSource .. | .join .. | .slotStart .. | .slotFinish .. => isTrue trivial

theorem step_onePerTimeslot {w w' : World A} (h : w.state.sched.Inv)
    (ho : w.state.sched.OnePerTimeslot) (hremove : action.Removes) (hs : step cfg w action = some w') :
    w'.state.sched.OnePerTimeslot := by
  obtain he | hf | ⟨handle, size, -, he⟩ | ⟨sf, linkOptions, linkType, address, timeslot, channelOffset, doRemove, room,
    rfl, hsf, he⟩ := step_sched hs
  · rwa [he]
  · exact hf.onePerTimeslot ho
  · rw [he]
    exact (addSlotframe_timeslots h handle size).2 ho
  · rw [he]
    exact (addLink_timeslots h hsf linkOptions linkType address timeslot channelOffset doRemove room).2 hremove ho

/-! ## Handles -/

/-- The handle that a link has, of 16 bits. -/
def Link.handle16 (l : Link A) : UInt16 := UInt16.ofNat l.handle

/-- No two links have the same handle. -/
def Schedule.UniqueHandles (s : Schedule A) : Prop :=
  ∀ l ∈ s.links, ∀ l' ∈ s.links, (s.link l).handle16 = (s.link l').handle16 → l = l'

/-- Where a link is added, no link that stays was added a multiple of 65536 calls ago. -/
def HandleFree (w : World A) : Action A → Prop
  | .addLink sf _ _ _ timeslot _ doRemove _ =>
    ∀ l ∈ w.state.sched.links, l ∉ replaced w.state sf timeslot doRemove →
      ¬ 2 ^ 16 ∣ w.state.sched.currentLinkHandle - (w.state.sched.link l).handle
  | _ => True

instance instDecidableHandleFree (w : World A) : ∀ action : Action A, Decidable (HandleFree w action)
  | .addLink sf _ _ _ timeslot _ doRemove _ => inferInstanceAs (Decidable
    (∀ l ∈ w.state.sched.links, l ∉ replaced w.state sf timeslot doRemove →
      ¬ 2 ^ 16 ∣ w.state.sched.currentLinkHandle - (w.state.sched.link l).handle))
  | .addSlotframe .. | .removeSlotframe .. | .removeAllSlotframes | .removeLink .. | .removeLinkByOffsets ..
  | .addPacket .. | .flush .. | .flushReturn | .resetBackoff .. | .pending | .pendingReturn | .freeUnused
  | .timeSource .. | .join .. | .slotStart .. | .slotFinish .. => isTrue trivial

omit [DecidableEq A] in
theorem Fewer.links (h : Fewer s s') (hl : l ∈ s'.sched.links) : l ∈ s.sched.links := by
  obtain ⟨sf, hsf, hl⟩ := mem_links.1 hl
  exact mem_links.2 ⟨sf, h.slotframes.subset hsf, (h.list sf).subset hl⟩

omit [DecidableEq A] in
theorem Fewer.uniqueHandles (h : Fewer s s') (hu : s.sched.UniqueHandles) : s'.sched.UniqueHandles := by
  intro l hl l' hl' he
  rw [h.link] at he
  exact hu l (h.links hl) l' (h.links hl') he

theorem Shrinks.counter_eq {ls : List Nat} (h : Shrinks s ls s') :
    s'.sched.currentLinkHandle = s.sched.currentLinkHandle := by
  induction h with
  | refl => rfl
  | link hr _ ih => exact ih.trans hr.counter
  | slotframe _ _ _ h4 _ _ _ ih => exact ih.trans h4

theorem handle16_eq_iff {m n : Nat} (h : m ≤ n) : UInt16.ofNat m = UInt16.ofNat n ↔ 2 ^ 16 ∣ n - m := by
  rw [← UInt16.toNat_inj, UInt16.toNat_ofNat', UInt16.toNat_ofNat']
  exact Nat.modEq_iff_dvd' h

theorem addSlotframe_uniqueHandles (h : s.sched.Inv) (hu : s.sched.UniqueHandles) (handle size : UInt16) :
    (tschScheduleAddSlotframe s handle size).1.sched.UniqueHandles := by
  have hs := addSlotframe_shrinks h handle size
  intro l hl l' hl' he
  rw [hs.link_eq] at he
  exact hu l (hs.perm.mem_iff.1 hl) l' (hs.perm.mem_iff.1 hl') he

theorem addLink_uniqueHandles (h : s.sched.Inv) (hsf : sf ∈ s.sched.slotframeList) (hu : s.sched.UniqueHandles)
    (linkOptions : UInt8) (linkType : LinkType) (address : Option A) (timeslot channelOffset : UInt16)
    (doRemove room : Bool) (hfree : ∀ l ∈ s.sched.links, l ∉ replaced s sf timeslot doRemove →
      ¬ 2 ^ 16 ∣ s.sched.currentLinkHandle - (s.sched.link l).handle) :
    (tschScheduleAddLink cfg s sf linkOptions linkType address timeslot channelOffset doRemove
      room).1.sched.UniqueHandles := by
  obtain he | ⟨-, s₁, hfewer, hshrinks, hsf₁, -, he⟩ :=
    tschScheduleAddLink_steps cfg h hsf linkOptions linkType address timeslot channelOffset doRemove room
  · rw [he]
    exact hu
  · rw [he]
    have hinv := hshrinks.inv h
    have hu₁ := hfewer.uniqueHandles hu
    obtain ⟨-, he⟩ | ⟨-, new, hadd⟩ :=
      addLink_spec cfg hinv hsf₁ linkOptions linkType address timeslot channelOffset room
    · rw [he]
      exact hu₁
    · -- the new handle is that of none of the links that stay
      have hnew : ∀ l ∈ s₁.sched.links, l ≠ new ∧
          (s₁.sched.link l).handle16 ≠ UInt16.ofNat s₁.sched.currentLinkHandle := by
        intro l hl
        refine ⟨fun he => hadd.fresh (he ▸ hl), ?_⟩
        have hstays : l ∉ replaced s sf timeslot doRemove := fun hmem =>
          (List.nodup_append.1 (hshrinks.perm.nodup_iff.2 h.links.nodup)).2.2 l hmem l hl rfl
        unfold Link.handle16
        rw [ne_eq, handle16_eq_iff (hinv.older l hl).le, hshrinks.counter_eq, hfewer.link]
        exact hfree l (hfewer.links hl) hstays
      intro l hl l' hl' heq
      rw [hadd.link] at heq
      rcases List.mem_cons.1 (hadd.perm.mem_iff.1 hl) with rfl | hl
      · rcases List.mem_cons.1 (hadd.perm.mem_iff.1 hl') with rfl | hl'
        · rfl
        · obtain ⟨hne, hhandle⟩ := hnew l' hl'
          rw [Function.update_self, Function.update_of_ne hne] at heq
          exact absurd heq.symm hhandle
      · obtain ⟨hne, hhandle⟩ := hnew l hl
        rw [Function.update_of_ne hne] at heq
        rcases List.mem_cons.1 (hadd.perm.mem_iff.1 hl') with rfl | hl'
        · rw [Function.update_self] at heq
          exact absurd heq hhandle
        · rw [Function.update_of_ne (hnew l' hl').1] at heq
          exact hu₁ l hl l' hl' heq

theorem step_uniqueHandles {w w' : World A} (h : w.state.sched.Inv)
    (hu : w.state.sched.UniqueHandles) (hfree : HandleFree w action) (hs : step cfg w action = some w') :
    w'.state.sched.UniqueHandles := by
  obtain he | hf | ⟨handle, size, -, he⟩ | ⟨sf, linkOptions, linkType, address, timeslot, channelOffset, doRemove, room,
    rfl, hsf, he⟩ := step_sched hs
  · rwa [he]
  · exact hf.uniqueHandles hu
  · rw [he]
    exact addSlotframe_uniqueHandles h hu handle size
  · rw [he]
    exact addLink_uniqueHandles h hsf hu linkOptions linkType address timeslot channelOffset doRemove room hfree

/-! ## Runs -/

theorem run_valid (cfg : Config A) (ebRoom broadcastRoom : Bool) (actions : List (Action A)) {w : World A}
    (hw : exec (step cfg) (World.init cfg ebRoom broadcastRoom) actions = some w) : w.state.sched.Valid := by
  have hinit : (World.init cfg ebRoom broadcastRoom).state.sched.Valid :=
    ⟨init_inv cfg ebRoom broadcastRoom, fun sf hsf => absurd hsf List.not_mem_nil⟩
  exact exec_invariant (J := fun w : World A => w.state.sched.Valid)
    (fun _ _ _ h hs => ⟨step_inv h.inv hs, step_belowSize h.inv h.timeslots hs⟩) actions hinit hw

/-- What is claimed of a schedule: one link at a timeslot, below the size; the links are the blocks in use; the handles
are different. -/
def Schedule.Sound (s : Schedule A) : Prop :=
  s.OnePerTimeslot ∧ s.BelowSize ∧ s.linkMemb.Holds s.links ∧ s.UniqueHandles

/-- Along a run whose calls remove the link at the timeslot they add one at, and that adds no link while one stays that
was added a multiple of 65536 calls before, every schedule is sound. -/
theorem schedule_sound (cfg : Config A) (ebRoom broadcastRoom : Bool) (actions : List (Action A))
    (hremove : ∀ action ∈ actions, action.Removes)
    (hfree : AllSteps (step cfg) HandleFree (World.init cfg ebRoom broadcastRoom) actions) :
    AllStates (step cfg) (fun w => w.state.sched.Sound) (World.init cfg ebRoom broadcastRoom) actions := by
  have hvalid : (World.init cfg ebRoom broadcastRoom).state.sched.Inv := init_inv cfg ebRoom broadcastRoom
  have hinit : (World.init cfg ebRoom broadcastRoom).state.sched.Sound :=
    ⟨fun sf hsf => absurd hsf List.not_mem_nil, fun sf hsf => absurd hsf List.not_mem_nil, hvalid.links,
      fun l hl => absurd hl List.not_mem_nil⟩
  have hboth := (allSteps_of_forall (World.init cfg ebRoom broadcastRoom) hremove).and hfree
  refine allStates_of_allSteps (J := fun w : World A => w.state.sched.Inv) (fun _ _ _ h hs => step_inv h hs) ?_ actions
    _ hvalid hinit hboth
  intro w action w' h hsound hc hs
  obtain ⟨ho, hb, -, hu⟩ := hsound
  exact ⟨step_onePerTimeslot h ho hc.1 hs, step_belowSize h hb hs, (step_inv h hs).links,
    step_uniqueHandles h hu hc.2 hs⟩

/-! ## A handle that comes again -/

/-- A slotframe of two timeslots with a link at the first, and `n` links at the second, one after the other. -/
def manyLinks (n : Nat) : List (Action Nat) :=
  .addSlotframe 0 2 :: .addLink 0 LINK_OPTION_RX .normal none 0 0 true true ::
    List.replicate n (.addLink 0 LINK_OPTION_RX .normal none 1 0 true true)

theorem schedule_sound_manyLinks : (∀ action ∈ manyLinks 2, action.Removes) ∧
    AllSteps (step smallConfig) HandleFree (World.init smallConfig true true) (manyLinks 2) ∧
    AllStates (step smallConfig) (fun w => w.state.sched.Sound) (World.init smallConfig true true) (manyLinks 2) :=
  ⟨by decide, by decide, schedule_sound smallConfig true true (manyLinks 2) (by decide) (by decide)⟩

/-- What `manyLinks` leaves after the second timeslot was used. -/
structure ManyLinks (n : Nat) (w : World Nat) : Prop where
  idle : w.state.slot.phase = .idle
  current : w.state.slot.currentLink = none
  list : w.state.sched.slotframeList = [0]
  slotframe : w.state.sched.slotframe 0 = ⟨0, 2, [0, 1]⟩
  first : w.state.sched.link 0 = ⟨0, 0, 0, 0, 0, LINK_OPTION_RX, .normal⟩
  second : w.state.sched.link 1 = ⟨n, 0, 0, 1, 0, LINK_OPTION_RX, .normal⟩
  counter : w.state.sched.currentLinkHandle = n + 1
  num : w.state.sched.linkMemb.num = 4
  used : w.state.sched.linkMemb.used 0 = true

theorem alloc_second {m : Memb} (hnum : m.num = 4) (hused : m.used 0 = true) :
    (m.free 1).alloc = some (1, { m with used := Function.update (Function.update m.used 1 false) 1 true }) := by
  unfold Memb.free Memb.alloc
  rw [if_pos (by omega), hnum]
  simp [List.range_succ, hused]

theorem ManyLinks.add {n : Nat} {w : World Nat} (h : ManyLinks n w) :
    ∃ w', step smallConfig w (.addLink 0 LINK_OPTION_RX .normal none 1 0 true true) = some w' ∧ ManyLinks (n + 1) w' := by
  have hcall : Callable w.state 0 := ⟨h.idle, by rw [h.list]; simp⟩
  refine ⟨_, if_pos hcall, ?_⟩
  obtain ⟨⟨⟨memb, link, slotframeMemb, slotframe, slotframeList, counter⟩, queues, slot⟩, frames, events, reads⟩ := w
  obtain ⟨hidle, hcurrent, hlist, hslotframe, hfirst, hsecond, hcounter, hnum, hused⟩ := h
  dsimp only at hidle hcurrent hlist hslotframe hfirst hsecond hcounter hnum hused
  subst hlist hcounter
  have hfind : tschScheduleGetLinkByTimeslot
      (⟨memb, link, slotframeMemb, slotframe, [0], n + 1⟩ : Schedule Nat) 0 1 = some 1 := by
    simp [tschScheduleGetLinkByTimeslot, hslotframe, hfirst, hsecond]
  have hagain : listAdd (listRemove [0, 1] 1) 1 = [0, 1] := rfl
  have hnull : smallConfig.linkaddrNull = 0 := rfl
  have htx : LINK_OPTION_RX &&& LINK_OPTION_TX = 0 := by decide
  constructor <;> simp [World.to, tschScheduleAddLink, hfind, tschScheduleRemoveLink, addLink, Schedule.setLinks,
    Link.isTx, hslotframe, hfirst, hsecond, alloc_second hnum hused, hagain, hnull, htx, hidle, hcurrent, hnum, hused]

theorem manyLinks_many : ∀ (n : Nat) {k : Nat} {w : World Nat}, ManyLinks k w →
    ∃ w', exec (step smallConfig) w
      (List.replicate n (.addLink 0 LINK_OPTION_RX .normal none 1 0 true true)) = some w' ∧ ManyLinks (k + n) w'
  | 0, _, w, h => ⟨w, rfl, h⟩
  | n + 1, k, w, h => by
    obtain ⟨w₁, hs, h₁⟩ := h.add
    obtain ⟨w', hw', h'⟩ := manyLinks_many n h₁
    refine ⟨w', ?_, ?_⟩
    · rw [List.replicate_succ, exec_cons hs, hw']
    · rwa [Nat.add_right_comm, Nat.add_assoc] at h'

theorem manyLinks_first : ∃ w, exec (step smallConfig) (World.init smallConfig true true) (manyLinks 1) = some w ∧
    ManyLinks 1 w := by
  refine ⟨_, rfl, ?_⟩
  constructor <;> rfl

/-- The link that comes 65536 calls after the first one has its handle. -/
theorem handle_comes_again : ∃ actions w, (∀ action ∈ actions, Action.Removes action) ∧
    exec (step smallConfig) (World.init smallConfig true true) actions = some w ∧ ¬ w.state.sched.Sound := by
  obtain ⟨w₁, hw₁, h₁⟩ := manyLinks_first
  obtain ⟨w, hw, h⟩ := manyLinks_many 65535 h₁
  refine ⟨manyLinks 1 ++ List.replicate 65535 (.addLink 0 LINK_OPTION_RX .normal none 1 0 true true), w, ?_, ?_, ?_⟩
  · intro action haction
    rcases List.mem_append.1 haction with haction | haction
    · fin_cases haction <;> trivial
    · rw [List.eq_of_mem_replicate haction]
      rfl
  · rw [exec_append, hw₁]
    exact hw
  · rintro ⟨-, -, -, hunique⟩
    have h0 : (0 : Nat) ∈ w.state.sched.links := mem_links.2 ⟨0, by rw [h.list]; simp, by rw [h.slotframe]; simp⟩
    have h1 : (1 : Nat) ∈ w.state.sched.links := mem_links.2 ⟨0, by rw [h.list]; simp, by rw [h.slotframe]; simp⟩
    have hsame : (w.state.sched.link 0).handle16 = (w.state.sched.link 1).handle16 := by
      rw [h.first, h.second]
      rfl
    exact absurd (hunique 0 h0 1 h1 hsame) (by decide)

end Contiki.Tsch

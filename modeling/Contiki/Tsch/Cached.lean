/-
The links that the slot operation keeps from one slot to the next: as long as no call takes off the link that
`backup_link` points to, all that a slot operation reads from is in the schedule and the link that was selected.
-/
import Contiki.Tsch.Links

namespace Contiki.Tsch

open Contiki.Core Contiki.Lib

variable {A : Type} [DecidableEq A] {cfg : Config A} {s s' : State A} {w w' : World A} {l : Nat} {ls : List Nat}
  {p : LinkPtr}

/-! ## What is claimed -/

/-- The pointer denotes a link of the schedule, the one that was selected. -/
def LinkOk (s : Schedule A) (p : LinkPtr) : Prop := p.block ∈ s.links ∧ (s.link p.block).handle = p.handle

/-- The last part of a slot operation has read from links of the schedule only, those that were selected. -/
def ReadsOk (w : World A) : Prop := ∀ p ∈ w.reads, LinkOk w.state.sched p

@[grind =]
def takenOff (s : State A) : Action A → List Nat
  | .removeSlotframe sf => (s.sched.slotframe sf).linksList
  | .removeAllSlotframes => s.sched.links
  | .removeLink sf l => if (s.sched.link l).slotframeHandle = (s.sched.slotframe sf).handle then [l] else []
  | .removeLinkByOffsets sf timeslot channelOffset =>
    (s.sched.slotframe sf).linksList.filter fun l =>
      (s.sched.link l).timeslot = timeslot ∧ (s.sched.link l).channelOffset = channelOffset
  | .addLink sf _ _ _ timeslot _ doRemove _ =>
    if (timeslot.toNat : Int) > (s.sched.slotframe sf).size.toNat - 1 then [] else replaced s sf timeslot doRemove
  | _ => []

/-- The condition on a step: the call does not take off the link that `backup_link` points to. -/
def BackupStays (w : World A) (action : Action A) : Prop :=
  ∀ p, w.state.slot.backupLink = some p → p.block ∉ takenOff w.state action

instance (w : World A) (action : Action A) : Decidable (BackupStays w action) :=
  inferInstanceAs (Decidable (∀ p ∈ w.state.slot.backupLink, p.block ∉ takenOff w.state action))

/-! ## The links that are selected -/

/-- `current_link` and `backup_link` denote the links that were selected. -/
structure CachedOk (s : State A) : Prop where
  current : ∀ p, s.slot.currentLink = some p → LinkOk s.sched p
  backup : ∀ p, s.slot.backupLink = some p → LinkOk s.sched p

omit [DecidableEq A] in
theorem CachedOk.congr (h : CachedOk s) (hs : s'.sched = s.sched) (hc : s'.slot.currentLink = s.slot.currentLink)
    (hb : s'.slot.backupLink = s.slot.backupLink) : CachedOk s' := by
  constructor
  · rw [hs, hc]
    exact h.current
  · rw [hs, hb]
    exact h.backup

omit [DecidableEq A] in
theorem linkPtr_ok {s : Schedule A} (h : l ∈ s.links) : LinkOk s (linkPtr s l) := ⟨h, rfl⟩

/-- Every link that the search keeps is in the schedule. -/
structure BestOk (s : Schedule A) (b : Best) : Prop where
  best : b.best ∈ s.links
  backup : ∀ l, b.backup = some l → l ∈ s.links

omit [DecidableEq A] in
theorem backupWith_mem {backup : Option Nat} {l' : Nat} (hl : l ∈ s.sched.links)
    (hb : ∀ l, backup = some l → l ∈ s.sched.links) (h : backupWith s backup l = some l') : l' ∈ s.sched.links := by
  unfold backupWith at h
  split at h
  · split at h
    · cases h
      exact hl
    · rename_i b
      split at h
      · cases h
        exact hl
      · cases h
        exact hb _ rfl
  · exact hb _ h

theorem newBest_mem {best l' : Nat} (hb : best ∈ s.sched.links) (hl : l ∈ s.sched.links)
    (h : newBest s best l = some l') : l' ∈ s.sched.links := by
  unfold newBest at h
  dsimp only at h
  split at h
  · split at h
    · split at h
      · cases h
        exact hl
      · cases h
    · cases h
      unfold tschLinkComparator
      split
      · exact hb
      · split
        · dsimp only
          split
          · exact hb
          · exact hl
        · exact hb
  · split at h
    · cases h
      exact hl
    · cases h

theorem nextActiveRound_ok {timeslot size : Nat} {acc : Option Best} (hl : l ∈ s.sched.links)
    (h : ∀ b, acc = some b → BestOk s.sched b) :
    ∀ b, nextActiveRound s timeslot size acc l = some b → BestOk s.sched b := by
  intro b hb
  unfold nextActiveRound at hb
  dsimp only at hb
  generalize (if (s.sched.link l).timeslot.toNat > timeslot then (s.sched.link l).timeslot.toNat - timeslot
    else size + (s.sched.link l).timeslot.toNat - timeslot) = timeTo at hb
  cases acc with
  | none =>
    cases hb
    exact ⟨hl, by simp⟩
  | some b₀ =>
    have h₀ := h b₀ rfl
    dsimp only at hb
    split at hb
    · cases hb
      exact ⟨hl, by simp⟩
    · split at hb
      · cases hb
        have hbackup : ∀ l', (if newBest s b₀.best l ≠ some l then backupWith s b₀.backup l else b₀.backup) = some l' →
            l' ∈ s.sched.links := by
          intro l' hl'
          split at hl'
          · exact backupWith_mem hl h₀.backup hl'
          · exact h₀.backup l' hl'
        constructor
        · cases hn : newBest s b₀.best l with
          | none => exact h₀.best
          | some l' => exact newBest_mem h₀.best hl hn
        · intro l' hl'
          dsimp only at hl'
          split at hl'
          · exact backupWith_mem h₀.best hbackup hl'
          · exact hbackup l' hl'
      · cases hb
        exact h₀

theorem nextActive_ok {asn : Asn} : ∀ b, nextActive s asn = some b → BestOk s.sched b := by
  unfold nextActive
  refine List.foldlRecOn (motive := fun acc => ∀ b, acc = some b → BestOk s.sched b) _ _ (by simp) ?_
  intro acc hacc sf hsf
  refine List.foldlRecOn (motive := fun acc => ∀ b, acc = some b → BestOk s.sched b) _ _ hacc ?_
  intro acc hacc l hl
  exact nextActiveRound_ok (mem_links.2 ⟨sf, hsf, hl⟩) hacc

/-! ## The parts of the slot operation -/

/-- A part of the slot operation reads from links that were selected, and leaves such links. -/
structure ReadsRight (s : State A) (r : State A × List LinkPtr) : Prop where
  cached : CachedOk r.1
  sched : r.1.sched = s.sched
  reads : ∀ p ∈ r.2, LinkOk s.sched p

theorem getNextActiveLink_cached (s : State A) :
    CachedOk (getNextActiveLink s).1 ∧ (getNextActiveLink s).1.sched = s.sched := by
  unfold getNextActiveLink
  cases hb : nextActive s s.slot.currentAsn with
  | none => exact ⟨⟨by simp, by simp⟩, rfl⟩
  | some b =>
    have hok := nextActive_ok b hb
    refine ⟨⟨?_, ?_⟩, rfl⟩
    · intro p hp
      cases hp
      exact linkPtr_ok hok.best
    · intro p hp
      obtain ⟨l, hl, rfl⟩ := Option.map_eq_some_iff.1 hp
      exact linkPtr_ok (hok.backup l hl)

theorem scheduleNext_reads (cfg : Config A) (h : CachedOk s) : ReadsRight s (scheduleNext cfg s) := by
  obtain ⟨hu, hslot⟩ := updateLinkBackoff_ended cfg s s.slot.currentLink
  have hu' : CachedOk (updateLinkBackoff cfg s s.slot.currentLink) := h.congr hu.sched (by rw [hslot]) (by rw [hslot])
  have hreads : ∀ p ∈ s.slot.currentLink.toList, LinkOk s.sched p := by
    intro p hp
    exact h.current p (Option.mem_toList.1 hp)
  unfold scheduleNext
  dsimp only
  split
  · exact ⟨⟨hu'.current, by simp⟩, hu.sched, hreads⟩
  · obtain ⟨hn, hsame⟩ := getNextActiveLink_cached (updateLinkBackoff cfg s s.slot.currentLink)
    exact ⟨hn.congr rfl rfl rfl, hsame.trans hu.sched, hreads⟩

theorem scheduleLoop_reads (cfg : Config A) : ∀ (misses : Nat) (s : State A), CachedOk s → ReadsRight s (scheduleLoop cfg misses s)
  | 0, _, h => scheduleNext_reads cfg h
  | misses + 1, s, h => by
    have hr := scheduleNext_reads cfg h
    have hrest := scheduleLoop_reads cfg misses (scheduleNext cfg s).1 hr.cached
    unfold scheduleLoop
    refine ⟨hrest.cached, hrest.sched.trans hr.sched, fun p hp => ?_⟩
    rcases List.mem_append.1 hp with hp | hp
    · exact hr.reads p hp
    · exact hr.sched ▸ hrest.reads p hp

theorem slotEnd_reads (cfg : Config A) (h : CachedOk s) (ending : Ending) : ReadsRight s (slotEnd cfg s ending) := by
  cases ending with
  | leave => exact ⟨h.congr rfl rfl rfl, rfl, by simp [slotEnd]⟩
  | next misses =>
    have hr := scheduleLoop_reads cfg misses { s with slot := { s.slot with phase := .idle } }
      (h.congr rfl rfl rfl)
    exact ⟨hr.cached, hr.sched, hr.reads⟩

omit [DecidableEq A] in
theorem ReadsRight.after {r : State A × List LinkPtr} (h : ReadsRight s' r) (hs : s'.sched = s.sched)
    {ps : List LinkPtr} (hps : ∀ p ∈ ps, LinkOk s.sched p) : ReadsRight s (r.1, ps ++ r.2) := by
  refine ⟨h.cached, h.sched.trans hs, fun p hp => ?_⟩
  rcases List.mem_append.1 hp with hp | hp
  · exact hps p hp
  · exact hs ▸ h.reads p hp

theorem slotActivity_reads (h : CachedOk s) (l : LinkPtr) (ending : Ending) :
    ReadsRight s (slotActivity cfg s l ending) := by
  have hoff : CachedOk { s with slot := { s.slot with burstLinkScheduled := false } } := h.congr rfl rfl rfl
  have hend := slotEnd_reads cfg hoff ending
  unfold slotActivity
  dsimp only
  split
  · split
    · exact ⟨hend.cached, hend.sched, hend.reads⟩
    · exact ⟨h.congr rfl rfl rfl, rfl, by simp⟩
  · split
    · exact ⟨h.congr rfl rfl rfl, rfl, by simp⟩
    · exact ⟨hend.cached, hend.sched, hend.reads⟩

theorem slotStart_reads (h : CachedOk s) (lockRequested : Bool) (order : List A) (ending : Ending) :
    ReadsRight s (slotStart cfg s lockRequested order ending) := by
  unfold slotStart
  split
  · exact slotEnd_reads cfg h ending
  · rename_i l hl
    have hlok := h.current l hl
    have hseek : CachedOk (seekPacket cfg s l order) := h.congr rfl rfl rfl
    have hsame : (seekPacket cfg s l order).sched = s.sched := rfl
    split
    · exact slotEnd_reads cfg h ending
    · dsimp only
      split
      · rename_i b _ hb
        have hbok : LinkOk s.sched b := h.backup b hb
        have hlb : ∀ p ∈ [l, b], LinkOk s.sched p := by
          simp [hlok, hbok]
        have hlbb : ∀ p ∈ [l, b, b], LinkOk s.sched p := by
          simp [hlok, hbok]
        split
        · obtain ⟨hu, hslot⟩ := updateLinkBackoff_ended cfg (seekPacket cfg s l order) (some l)
          let s₁ : State A := { updateLinkBackoff cfg (seekPacket cfg s l order) (some l) with
            slot := { (updateLinkBackoff cfg (seekPacket cfg s l order) (some l)).slot with currentLink := some b } }
          have hsched : s₁.sched = s.sched := hu.sched
          have hs₁ : CachedOk s₁ := by
            constructor
            · intro p hp
              cases hp
              exact hsched ▸ hbok
            · intro p hp
              have hp' : (updateLinkBackoff cfg (seekPacket cfg s l order) (some l)).slot.backupLink = some p := hp
              rw [hslot] at hp'
              exact hsched ▸ h.backup p hp'
          have hseek₁ : CachedOk (seekPacket cfg s₁ b order) := hs₁.congr rfl rfl rfl
          exact ReadsRight.after (slotActivity_reads hseek₁ b ending) hsched hlbb
        · exact ReadsRight.after (slotActivity_reads hseek l ending) hsame hlb
      · have hlone : ∀ p ∈ [l], LinkOk s.sched p := by
          simp [hlok]
        exact ReadsRight.after (slotActivity_reads hseek l ending) hsame hlone

theorem slotFinish_reads (h : CachedOk s) (status : MacTx) (rand : UInt16) (burst : Bool) (ending : Ending) :
    ReadsRight s (slotFinish cfg s status rand burst ending) := by
  unfold slotFinish
  split
  · rename_i i p addr l _ _ _ hl
    have hdone : CachedOk (txDone cfg s i p addr l status rand burst) := by
      refine h.congr rfl ?_ ?_
      all_goals
        unfold txDone
        dsimp only
        split <;> rfl
    have hlone : ∀ p ∈ [l], LinkOk s.sched p := by
      simp [h.current l hl]
    have hsame : (txDone cfg s i p addr l status rand burst).sched = s.sched := rfl
    exact ReadsRight.after (slotEnd_reads cfg hdone ending) hsame hlone
  · exact slotEnd_reads cfg h ending

theorem slotOperationStart_cached : ∀ (misses : Nat) (s : State A) (asn : Asn), CachedOk (slotOperationStart s asn misses)
  | 0, _, _ => (getNextActiveLink_cached _).1.congr rfl rfl rfl
  | misses + 1, _, _ => slotOperationStart_cached misses _ _

/-! ## The calls -/

theorem Shrinks.cached (h : Shrinks s ls s') (hc : CachedOk s)
    (hb : ∀ p, s.slot.backupLink = some p → p.block ∉ ls) : CachedOk s' := by
  induction h with
  | refl => exact hc
  | @link t t' _ l ls hr _ ih =>
    have hkept : ∀ p, LinkOk t.sched p → p.block ≠ l → LinkOk t'.sched p := by
      intro p hp hne
      refine ⟨?_, by rw [hr.link]; exact hp.2⟩
      exact (List.mem_cons.1 (hr.perm.mem_iff.2 hp.1)).resolve_left hne
    have hbackup : t'.slot.backupLink = t.slot.backupLink := by
      rw [hr.slot]
      split <;> rfl
    apply ih
    · constructor
      · intro p hp
        rw [hr.slot] at hp
        split at hp
        · cases hp
        · rename_i hne
          refine hkept p (hc.current p hp) ?_
          rintro rfl
          exact hne (by rw [hp]; rfl)
      · intro p hp
        rw [hbackup] at hp
        exact hkept p (hc.backup p hp) fun he => hb p hp (by simp [he])
    · intro p hp
      rw [hbackup] at hp
      exact fun hm => hb p hp (List.mem_cons_of_mem _ hm)
  | @slotframe t t' _ ls _ hperm hlink _ _ hslot _ ih =>
    have hkept : ∀ p, LinkOk t.sched p → LinkOk t'.sched p := fun p hp =>
      ⟨hperm.mem_iff.2 hp.1, by rw [hlink]; exact hp.2⟩
    apply ih
    · constructor
      · intro p hp
        rw [hslot] at hp
        exact hkept p (hc.current p hp)
      · intro p hp
        rw [hslot] at hp
        exact hkept p (hc.backup p hp)
    · rw [hslot]
      exact hb

theorem Added.cached {new : Link A} {room : Bool} (h : Added cfg s s' l new room) (hc : CachedOk s) : CachedOk s' := by
  have hkept : ∀ p, LinkOk s.sched p → LinkOk s'.sched p := by
    intro p hp
    refine ⟨h.perm.mem_iff.2 (List.mem_cons_of_mem _ hp.1), ?_⟩
    rw [h.link, Function.update_of_ne]
    · exact hp.2
    · intro he
      exact h.fresh (he ▸ hp.1)
  constructor
  · rw [h.slot]
    exact fun p hp => hkept p (hc.current p hp)
  · rw [h.slot]
    exact fun p hp => hkept p (hc.backup p hp)

/-! ## Runs -/

omit [DecidableEq A] in
theorem ReadsOk.of_nil (h : w.reads = []) : ReadsOk w := by
  unfold ReadsOk
  simp [h]

omit [DecidableEq A] in
theorem cached_of_same (h : CachedOk w.state) (hs : w'.state.sched = w.state.sched)
    (hslot : w'.state.slot.currentLink = w.state.slot.currentLink ∧ w'.state.slot.backupLink = w.state.slot.backupLink)
    (hr : w'.reads = []) : CachedOk w'.state ∧ ReadsOk w' :=
  ⟨h.congr hs hslot.1 hslot.2, .of_nil hr⟩

omit [DecidableEq A] in
theorem ReadsRight.world {r : State A × List LinkPtr} (h : ReadsRight w.state r) (hw : w'.state = r.1) (hr : w'.reads = r.2) :
    CachedOk w'.state ∧ ReadsOk w' := by
  refine ⟨hw ▸ h.cached, fun p hp => ?_⟩
  rw [hw, h.sched]
  exact h.reads p (hr ▸ hp)

omit [DecidableEq A] in
theorem callbackReturn_slot (h : callbackReturn w = some w') :
    (w'.state.slot.currentLink = w.state.slot.currentLink ∧ w'.state.slot.backupLink = w.state.slot.backupLink) ∧
    w'.reads = [] := by
  unfold callbackReturn at h
  split at h
  · cases h
  · cases h
    exact ⟨⟨rfl, rfl⟩, rfl⟩
  · cases h
    exact ⟨⟨rfl, rfl⟩, rfl⟩

theorem flushRound_reads (h : flushRound w addr = some w') : w'.reads = [] := by
  unfold flushRound at h
  split at h
  · cases h
  · cases h
    rfl

omit [DecidableEq A] in
theorem pendingRound_reads (h : pendingRound w = some w') : w'.reads = [] := by
  unfold pendingRound at h
  split at h
  · cases h
    rfl
  · cases h

/-- A step that does not take off the link that `backup_link` points to keeps both pointers right. -/
theorem step_cached {action : Action A} (h : w.state.sched.Inv) (hc : CachedOk w.state) (hb : BackupStays w action)
    (hs : step cfg w action = some w') : CachedOk w'.state ∧ ReadsOk w' := by
  unfold BackupStays at hb
  cases action with
  | addSlotframe handle size =>
    simp only [step, Option.ite_none_right_eq_some, Option.some.injEq] at hs
    obtain ⟨-, rfl⟩ := hs
    exact ⟨(addSlotframe_shrinks h handle size).cached hc (by simp), .of_nil rfl⟩
  | removeSlotframe sf =>
    simp only [step, Option.ite_none_right_eq_some, Option.some.injEq] at hs
    obtain ⟨hcall, rfl⟩ := hs
    exact ⟨(removeSlotframe_shrinks h hcall.2).1.cached hc hb, .of_nil rfl⟩
  | removeAllSlotframes =>
    simp only [step, Option.ite_none_right_eq_some, Option.some.injEq] at hs
    obtain ⟨-, rfl⟩ := hs
    obtain ⟨ls, hls⟩ := removeSlotframes_shrinks w.state.sched.slotframeList.length w.state h
    refine ⟨hls.cached hc fun p hp hm => hb p hp ?_, .of_nil rfl⟩
    exact hls.perm.mem_iff.1 (List.mem_append_left _ hm)
  | addLink sf linkOptions linkType address timeslot channelOffset doRemove room =>
    simp only [step, Option.ite_none_right_eq_some, Option.some.injEq] at hs
    obtain ⟨hcall, rfl⟩ := hs
    refine ⟨?_, .of_nil rfl⟩
    show CachedOk (tschScheduleAddLink cfg w.state sf linkOptions linkType address timeslot channelOffset doRemove room).1
    obtain ⟨-, he⟩ | ⟨hfits, s₁, hs₁, hsf, -, he⟩ :=
      tschScheduleAddLink_cases cfg h hcall.2 linkOptions linkType address timeslot channelOffset doRemove room
    · rw [he]
      exact hc
    · rw [he]
      have hc₁ : CachedOk s₁ := by
        refine hs₁.cached hc fun p hp hm => hb p hp ?_
        simpa only [takenOff, if_neg hfits] using hm
      obtain ⟨-, hsame⟩ | ⟨-, l, hadd⟩ :=
        addLink_spec cfg (hs₁.inv h) hsf linkOptions linkType address timeslot channelOffset room
      · rw [hsame]
        exact hc₁
      · exact hadd.cached hc₁
  | removeLink sf l =>
    simp only [step, Option.ite_none_right_eq_some, Option.some.injEq] at hs
    obtain ⟨⟨hcall, hl⟩, rfl⟩ := hs
    refine ⟨?_, .of_nil rfl⟩
    show CachedOk (tschScheduleRemoveLink w.state sf l).1
    by_cases he : (w.state.sched.link l).slotframeHandle = (w.state.sched.slotframe sf).handle
    · obtain ⟨hr, -⟩ := removeLink_removed h hcall.2 (h.at_home hcall.2 hl he)
      refine Shrinks.cached (.link hr (.refl _)) hc fun p hp hm => hb p hp ?_
      simpa only [takenOff, if_pos he] using hm
    · rw [removeLink_other he]
      exact hc
  | removeLinkByOffsets sf timeslot channelOffset =>
    simp only [step, Option.ite_none_right_eq_some, Option.some.injEq] at hs
    obtain ⟨hcall, rfl⟩ := hs
    refine ⟨?_, .of_nil rfl⟩
    exact (removeByOffsets_shrinks timeslot channelOffset sf _ w.state h hcall.2 (h.list_nodup hcall.2)
      fun _ hl => hl).cached hc hb
  | addPacket =>
    simp only [step, Option.ite_none_right_eq_some, Option.some.injEq] at hs
    obtain ⟨-, rfl⟩ := hs
    exact cached_of_same hc rfl ⟨rfl, rfl⟩ rfl
  | flush addr =>
    have hs : flushRound w addr = some w' := hs
    obtain ⟨q, he⟩ := flushRound_state hs
    refine cached_of_same hc ?_ ?_ (flushRound_reads hs)
    · rw [he]
    · rw [he]
      exact ⟨rfl, rfl⟩
  | flushReturn =>
    simp only [step] at hs
    split at hs
    · obtain ⟨hslot, hr⟩ := callbackReturn_slot hs
      exact cached_of_same hc (callbackReturn_state hs).1 hslot hr
    · cases hs
  | resetBackoff =>
    cases hs
    exact cached_of_same hc rfl ⟨rfl, rfl⟩ rfl
  | pending =>
    have hs : pendingRound w = some w' := hs
    have he := pendingRound_state hs
    refine cached_of_same hc ?_ ?_ (pendingRound_reads hs)
    · rw [he]
    · rw [he]
      exact ⟨rfl, rfl⟩
  | pendingReturn =>
    simp only [step] at hs
    split at hs
    · obtain ⟨hslot, hr⟩ := callbackReturn_slot hs
      exact cached_of_same hc (callbackReturn_state hs).1 hslot hr
    · cases hs
  | freeUnused =>
    simp only [step, Option.ite_none_right_eq_some, Option.some.injEq] at hs
    obtain ⟨-, rfl⟩ := hs
    exact cached_of_same hc rfl ⟨rfl, rfl⟩ rfl
  | timeSource =>
    simp only [step, Option.ite_none_right_eq_some, Option.some.injEq] at hs
    obtain ⟨-, rfl⟩ := hs
    exact cached_of_same hc rfl ⟨rfl, rfl⟩ rfl
  | join asn misses =>
    simp only [step, Option.ite_none_right_eq_some, Option.some.injEq] at hs
    obtain ⟨-, rfl⟩ := hs
    exact ⟨slotOperationStart_cached misses w.state asn, .of_nil rfl⟩
  | slotStart lockRequested order ending =>
    simp only [step, Option.ite_none_right_eq_some, Option.some.injEq] at hs
    obtain ⟨-, rfl⟩ := hs
    exact (slotStart_reads hc lockRequested order ending).world rfl rfl
  | slotFinish status rand burst ending =>
    simp only [step, Option.ite_none_right_eq_some, Option.some.injEq] at hs
    obtain ⟨-, rfl⟩ := hs
    exact (slotFinish_reads hc status rand burst ending).world rfl rfl

/-- The links of two slotframes are due at the same time, one to send and one to listen. -/
def backupSelected : List (Action Nat) :=
  [.addSlotframe 1 10, .addSlotframe 2 10, .addLink 0 LINK_OPTION_TX .normal (some 5) 3 0 true true,
    .addLink 1 LINK_OPTION_RX .normal (some 5) 3 1 true true, .join ⟨0, 0⟩ 0]

end Contiki.Tsch

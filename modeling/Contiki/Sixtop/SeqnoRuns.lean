/-
The sequence numbers over whole runs of the 6P layer, whatever the scheduling functions do when they are called. The
assertion about CLEAR never fails. A number is 0 only since its entry was made or cleared, as long as no CLEAR request
resets the slot that another neighbor got while it was handed over, and every response that is acknowledged is so while
its transaction is sending it.
-/
import Contiki.Sixtop.SeqnoCalls

namespace Contiki.Sixtop

open TransState Contiki.Lib

section

variable {A K S : Type} {N M : Nat} [Inhabited A] [DecidableEq A] {h : Handler A K S N M} {log : Recorder A K S N M}
  {s : Node A K S N M} {past : List (SeqEvent A)} {i : Fin N}

/-! ## Input -/

theorem sendBackError_tracked (hh : h.Ok) (hl : h.Tracks log) (hs : Inv false s) (ht : Tracked s past) (env : Env M)
    (type : PktType) (rc : PktCode) (pkt : Pkt) (dest : A) :
    Tracked (s.sendBackError h env type rc pkt dest) (s.sendBackErrorLog h log env type rc pkt dest ++ past) := by
  unfold Node.sendBackError Node.sendBackErrorLog
  split
  · cases sixpPktCreate type rc pkt.sfid pkt.seqno none with
    | none => exact ht
    | some bytes =>
      -- the frame carries no transaction
      cases env.mac with
      | queued => exact ht.carry ⟨fun _ hc => ⟨hc, rfl⟩, le_rfl, fun _ _ ha _ => ⟨ha, rfl, rfl⟩⟩ rfl
      | _ => exact ht
  · exact (sixpOutput_follows hh hl hs ht _).tracked

theorem handleScheduleInconsistency_tracked (hh : h.Ok) (hl : h.Tracks log) (hs : Inv false s) (ht : Tracked s past)
    (env : Env M) (sf : Sf) (pkt : Pkt) (peer : A) : Tracked (s.handleScheduleInconsistency h env sf pkt peer)
      (s.handleScheduleInconsistencyLog h log env sf pkt peer ++ past) := by
  have hback := sendBackError_tracked hh hl hs ht env .response Rc.errSeqnum pkt peer
  have hinv := sendBackError_inv hh hs env .response Rc.errSeqnum pkt peer
  simp only [Node.handleScheduleInconsistency, Node.handleScheduleInconsistencyLog]
  split
  · rw [List.append_assoc]
    exact (upcall_follows hl (.refl hinv hback) _).tracked
  · exact hback

theorem inputTransit_tracked (hh : h.Ok) (hl : h.Tracks log) (hs : Inv false s) (ht : Tracked s past) (sf : Sf)
    (pkt : Pkt) {src : A} (hi : (s.alloc i).isSome) (hsrc : (s.mem i).peerAddr = src)
    (hseq : (s.mem i).seqno = pkt.seqno) (hty : Node.inputState pkt.type ≠ requestReceived) :
    Tracked (s.inputTransit h sf pkt src i) (s.inputTransitLog h log sf pkt src i ++ past) := by
  have htransit := transit_tracked hl hs ht hi hty
  have hrec : ∀ s₁, s.sixpTransTransitState h i (Node.inputState pkt.type) = (true, s₁) →
      Inv false (s₁.record (.input pkt.type pkt.seqno src (s.alloc i) (s.mem i).state (s.mem i).mode)) :=
    fun _ => inputRecord_inv hh hs pkt hi hsrc hseq
  unfold Node.inputTransit Node.inputTransitLog
  generalize s.sixpTransTransitState h i (Node.inputState pkt.type) = r at htransit hrec ⊢
  obtain ⟨ok, s₁⟩ := r
  cases ok with
  | false => exact htransit
  | true =>
    dsimp only
    split
    · rw [List.append_assoc]
      refine (upcall_follows hl (.refl (hrec s₁ rfl) ?_) _).tracked
      exact htransit.carry ⟨fun _ hc => ⟨hc, rfl⟩, le_rfl, fun _ _ ha _ => ⟨ha, rfl, rfl⟩⟩ rfl
    · exact htransit

theorem inputFound_tracked (hh : h.Ok) (hl : h.Tracks log) (hs : Inv false s) (ht : Tracked s past) (sf : Sf)
    (pkt : Pkt) (src : A) (hty : Node.inputState pkt.type ≠ requestReceived) :
    Tracked (match s.sixpTransFind src with
      | none => s
      | some i => if (s.mem i).seqno ≠ pkt.seqno then s else s.inputTransit h sf pkt src i)
    ((match s.sixpTransFind src with
      | none => []
      | some i => if (s.mem i).seqno ≠ pkt.seqno then [] else s.inputTransitLog h log sf pkt src i) ++ past) := by
  cases hf : s.sixpTransFind src with
  | none => exact ht
  | some i =>
    obtain ⟨hlist, hpeer⟩ := sixpTransFind_some hf
    by_cases hseq : (s.mem i).seqno ≠ pkt.seqno
    · simp only [if_pos hseq]
      exact ht
    · simp only [if_neg hseq]
      exact inputTransit_tracked hh hl hs ht sf pkt ((hs.listed i).1 hlist) hpeer (not_not.1 hseq) hty

omit [Inhabited A] in
theorem clearNbr_tracked (ht : Tracked s past) (pkt : Pkt) (src : A) :
    Tracked (s.clearNbr pkt src) (s.clearNbrLog pkt src ++ past) ∧
      (pkt.code = Cmd.clear → ∀ j q, (s.clearNbr pkt src).nbrs j = some (src, q) → q = 0) := by
  unfold Node.clearNbr Node.clearNbrLog
  cases hf : s.sixpNbrFind src with
  | none => exact ⟨ht, fun _ j q hj => absurd hj (sixpNbrFind_none hf j q)⟩
  | some k =>
    obtain ⟨v, hk⟩ := sixpNbrFind_some hf
    by_cases hc : pkt.code = Cmd.clear
    · simp only [if_pos hc]
      constructor
      · refine (ht.cleared_cons src).reset fun _ addr v' hv => Or.inl ?_
        rw [hk] at hv
        exact congrArg Prod.fst (Option.some.inj hv)
      · intro _ j q hj
        obtain ⟨v', hv, ⟨-, h0⟩ | ⟨hne, -⟩⟩ := setNextSeqno_some hj
        · exact h0
        · exact absurd (ht.unique j k _ _ _ hv hk) hne
    · simp only [if_neg hc]
      exact ⟨ht, fun h => absurd h hc⟩

omit [Inhabited A] in
theorem received_tracked (h : Handler A K S N M) (log : Recorder A K S N M) (ht : Tracked s past)
    (hinit : (s.mem i).state = init)
    (hzero : (s.mem i).cmd = Cmd.clear → ∀ j q, s.nbrs j = some ((s.mem i).peerAddr, q) → q = 0) :
    Tracked (s.sixpTransTransitState h i requestReceived).2 (s.transitLog log i requestReceived ++ past) := by
  have ha : Node.transitAllowed requestReceived (s.mem i).state (s.mem i).mode = true := by
    rw [hinit]
    rfl
  have hlog : s.transitLog log i requestReceived = [] := by
    simp [Node.transitLog, ha]
  rw [hlog, transit_allowed h ha]
  simp only [reduceCtorEq, if_false]
  constructor
  case unique => exact ht.unique
  case cleared =>
    intro k hk j q hq
    by_cases hki : k = i
    · subst hki
      rw [setTrans_mem_self] at hk hq
      exact hzero hk.1 j q hq
    · rw [setTrans_mem_of_ne hki] at hk hq
      exact ht.cleared k hk j q hq
  case asserted => exact ht.asserted
  case responded =>
    intro u addr hu
    obtain ⟨hlt, hall⟩ := ht.responded u addr hu
    refine ⟨hlt, fun k hk => ?_⟩
    by_cases hki : k = i
    · subst hki
      rw [setTrans_mem_self]
      exact hall k hk
    · rw [setTrans_mem_of_ne hki]
      exact hall k hk
  case fresh => exact ht.fresh

theorem inputRequest_tracked (hh : h.Ok) (hl : h.Tracks log) (hs : Inv false s) (ht : Tracked s past) (env : Env M)
    (sf : Sf) {pkt : Pkt} (hty : pkt.type = .request) (src : A) :
    Tracked (s.inputRequest h env sf pkt src) (s.inputRequestLog h log env sf pkt src ++ past) := by
  unfold Node.inputRequestLog
  cases hf : s.sixpTransFind src with
  | some i =>
    simp only [Node.inputRequest, hf]
    split
    · exact handleScheduleInconsistency_tracked hh hl hs ht env sf pkt src
    · exact sendBackError_tracked hh hl hs ht env .response Rc.errBusy pkt src
  | none =>
    obtain ⟨ht₁, hzero⟩ := clearNbr_tracked ht pkt src
    have hs₁ : Inv false (s.clearNbr pkt src) := clearNbr_inv hs pkt src
    rw [Node.inputRequest_new h hf]
    dsimp only
    unfold Node.inputNew
    generalize s.clearNbr pkt src = s₁ at ht₁ hzero hs₁ ⊢
    cases ha : s₁.sixpTransAlloc pkt src with
    | none =>
      rw [List.append_assoc]
      exact sendBackError_tracked hh hl hs₁ ht₁ env .response Rc.errBusy pkt src
    | some r =>
      obtain ⟨i, s₂⟩ := r
      obtain ⟨hinv, hok⟩ := allocReceived (h := h) hs₁ ha
      obtain ⟨-, -, _, -, hs₂⟩ := sixpTransAlloc_some hs₁ ha
      have ht₂ : Tracked s₂ (s.clearNbrLog pkt src ++ past) := by
        rw [hs₂]
        exact ht₁.carry (alloc_carries rfl) rfl
      have hmem : (s₂.mem i).state = init ∧ (s₂.mem i).cmd = pkt.code ∧ (s₂.mem i).peerAddr = src := by
        rw [hs₂]
        simp only [Function.update_self, and_self]
      have hnbrs : s₂.nbrs = s₁.nbrs := by rw [hs₂]
      have hreceived := received_tracked h log ht₂ hmem.1 fun hc j q hj => by
        rw [hmem.2.2, hnbrs] at hj
        exact hzero (hmem.2.1 ▸ hc) j q hj
      dsimp only
      split
      · rw [List.append_assoc, List.append_assoc]
        exact handleScheduleInconsistency_tracked hh hl hinv hreceived env sf pkt src
      · simp only [Node.inputTransit, Node.inputTransitLog, hty, Node.inputState]
        generalize s₂.sixpTransTransitState h i requestReceived = r at hinv hok hreceived ⊢
        obtain ⟨ok, s₃⟩ := r
        dsimp only at hok
        subst hok
        dsimp only
        split
        · have hrec : Inv false (s₃.record (.input .request pkt.seqno src (s₂.alloc i) (s₂.mem i).state
              (s₂.mem i).mode)) := hinv.record trivial (fun _ h => h) (by simp)
          rw [List.append_assoc, List.append_assoc]
          refine (upcall_follows hl (.refl hrec ?_) _).tracked
          exact hreceived.carry ⟨fun _ hc => ⟨hc, rfl⟩, le_rfl, fun _ _ ha _ => ⟨ha, rfl, rfl⟩⟩ rfl
        · rw [List.append_assoc]
          exact hreceived

theorem sixpInput_tracked (hh : h.Ok) (hl : h.Tracks log) (hs : Inv false s) (ht : Tracked s past) (env : Env M)
    (buf : List UInt8) (src : A) : Tracked (s.sixpInput h env buf src) (s.sixpInputLog h log env buf src ++ past) := by
  unfold Node.sixpInput Node.sixpInputLog
  obtain ⟨ok, pkt⟩ := sixpPktParse buf
  cases ok with
  | false =>
    dsimp only
    split
    · exact sendBackError_tracked hh hl hs ht env .response Rc.errVersion pkt src
    · exact ht
  | true =>
    dsimp only
    cases s.sixtopFindSf pkt.sfid with
    | none => exact sendBackError_tracked hh hl hs ht env .response Rc.errSfid pkt src
    | some sf =>
      dsimp only
      cases hty : pkt.type with
      | request => exact inputRequest_tracked hh hl hs ht env sf hty src
      | response => exact inputFound_tracked hh hl hs ht sf pkt src (by rw [hty]; decide)
      | confirmation => exact inputFound_tracked hh hl hs ht sf pkt src (by rw [hty]; decide)
      | reserved => exact ht

/-! ## Timers -/

theorem handleTransTimeout_tracked (hl : h.Tracks log) (hs : Inv false s) (ht : Tracked s past)
    (hi : (s.alloc i).isSome) : Tracked (s.handleTransTimeout h i) (s.handleTransTimeoutLog log i ++ past) := by
  simp only [Node.handleTransTimeout, Node.handleTransTimeoutLog]
  split
  · have hf := upcall_follows hl (.refl hs ht) (.timeout (s.mem i).cmd (s.mem i).peerAddr)
    have hend := transit_tracked hl hf.inv hf.tracked (hf.keeps.ext.some hi)
      (show terminating ≠ requestReceived by decide)
    rw [transitLog_terminating] at hend
    exact hend
  · have hend := transit_tracked hl hs ht hi (show terminating ≠ requestReceived by decide)
    rw [transitLog_terminating] at hend
    exact hend

theorem processTrans_tracked (hl : h.Tracks log) (hs : Inv false s) (ht : Tracked s past)
    (hi : (s.alloc i).isSome) : Tracked (s.processTrans h i) past := by
  by_cases hst : (s.mem i).state = terminating
  · rw [processTrans_terminating hst]
    exact ht.carry (release_carries i s) rfl
  · have hstop : Tracked (s.ctimerStop i) past := ht.carry (setTrans_carries ⟨rfl, rfl, id, id⟩) rfl
    have hinv : Inv false (s.ctimerStop i) := hs.timer hi none
    have hne : ((s.ctimerStop i).mem i).state ≠ terminating := by
      rw [Node.ctimerStop, setTrans_mem_self]
      exact hst
    have hstate : Tracked ((s.ctimerStop i).processTransState h i) past := by
      rcases processTransState_cases h i (s.ctimerStop i) with he | he
      · rw [he]
        exact hstop
      · have hend := transit_tracked hl hinv hstop hi (show terminating ≠ requestReceived by decide)
        rw [transitLog_terminating] at hend
        rw [he]
        exact hend
    simp only [Node.processTrans, if_neg hne]
    split
    · exact hstate.carry (setTrans_carries ⟨rfl, rfl, id, id⟩) rfl
    · exact hstate

/-! ## Steps -/

omit [Inhabited A] [DecidableEq A] in
theorem Tracked.remove (ht : Tracked s past) (j : Fin M) :
    Tracked { s with nbrs := Function.update s.nbrs j none } past := by
  have hentry : ∀ k e, Function.update s.nbrs j none k = some e → s.nbrs k = some e := by
    intro k e hk
    by_cases hkj : k = j
    · subst hkj
      rw [Function.update_self] at hk
      cases hk
    · rwa [Function.update_of_ne hkj] at hk
  exact ⟨fun k l addr q q' hk hl => ht.unique k l addr q q' (hentry k _ hk) (hentry l _ hl),
    fun i hi k q hk => ht.cleared i hi k q (hentry k _ hk), ht.asserted, ht.responded,
    fun hc k addr hk => ht.fresh hc k addr (hentry k _ hk)⟩

theorem step_tracked (hh : h.Ok) (hl : h.Tracks log) (hs : Inv false s) (ht : Tracked s past) {e : Event A K N M}
    {s' : Node A K S N M} (he : step h s e = some s') : Tracked s' (stepLog h log s e ++ past) := by
  cases e with
  | output a =>
    cases he
    exact (sixpOutput_follows hh hl hs ht a).tracked
  | input env buf src =>
    cases he
    exact sixpInput_tracked hh hl hs ht env buf src
  | nbrRemove j =>
    cases he
    exact ht.remove j
  | macDone k status =>
    simp only [step, Option.map_eq_some_iff] at he
    obtain ⟨f, hf, rfl⟩ := he
    have hs₁ : Inv false { s with mac := s.mac.eraseIdx k } :=
      hs.congr rfl rfl (fun _ hn g hg => hn g (List.mem_of_mem_eraseIdx hg)) rfl rfl rfl
    have ht₁ : Tracked { s with mac := s.mac.eraseIdx k } past :=
      ht.carry ⟨fun _ hc => ⟨hc, rfl⟩, le_rfl, fun _ _ ha _ => ⟨ha, rfl, rfl⟩⟩ rfl
    simp only [stepLog, hf]
    cases f.ptr with
    | none => exact ht₁
    | some i => exact (macComplete_follows hh hl (.refl hs₁ ht₁) i f.owner status).tracked
  | timer i =>
    simp only [step, Option.map_eq_some_iff] at he
    obtain ⟨k, hk, rfl⟩ := he
    have hi := hs.alloc_of_timer hk
    have hs₁ : Inv false (s.ctimerStop i) := hs.timer hi none
    have ht₁ : Tracked (s.ctimerStop i) past := ht.carry (setTrans_carries ⟨rfl, rfl, id, id⟩) rfl
    simp only [stepLog, hk]
    cases k with
    | handleTransTimeout => exact handleTransTimeout_tracked hl hs₁ ht₁ hi
    | processTrans => exact processTrans_tracked hl hs₁ ht₁ hi

end

/-! ## Runs -/

variable {A K : Type} {N M : Nat} [Inhabited A] [DecidableEq A]

/-- Each number that is 0 is so since its entry was made or cleared. -/
def Zeros {S : Type} (w : Recorded A K S N M) : Prop := ∀ j addr, w.node.nbrs j = some (addr, 0) → Fresh addr w.past

/-- The condition on a step: in it no CLEAR request resets another neighbor's number, and no response of a transaction
is acknowledged that the transaction is not sending. -/
def Careful (n : Nat) (w : Recorded A K (Script A K M) N M) (e : Script A K M × Event A K N M) : Prop :=
  ∀ w', recordStep n w e = some w' → Clean w'.past

structure Recorded.Inv {S : Type} (w : Recorded A K S N M) : Prop where
  node : Sixtop.Inv false w.node
  tracked : Tracked w.node w.past

theorem recordStep_inv {n : Nat} {w w' : Recorded A K (Script A K M) N M} {e : Script A K M × Event A K N M}
    (hw : w.Inv) (he : recordStep n w e = some w') : w'.Inv := by
  obtain ⟨s', hs, rfl⟩ := Option.map_eq_some_iff.1 he
  have hinv : Sixtop.Inv false { w.node with app := e.1 } := hw.node.congr rfl rfl (fun _ h => h) rfl rfl rfl
  have ht : Tracked { w.node with app := e.1 } w.past :=
    hw.tracked.carry ⟨fun _ hc => ⟨hc, rfl⟩, le_rfl, fun _ _ ha _ => ⟨ha, rfl, rfl⟩⟩ rfl
  exact ⟨openStep_inv hw.node (fun h => by cases h) hs, step_tracked (scripted_ok n) (scripted_tracks n) hinv ht hs⟩

omit [DecidableEq A] in
theorem start_recorded (sfs : List Sf) (app : Script A K M) :
    (⟨Node.start sfs app, []⟩ : Recorded A K (Script A K M) N M).Inv := by
  refine ⟨start_inv sfs app, ?_, fun i hi => absurd hi not_clearing_zero, ?_, ?_, ?_⟩
  · rintro j k addr q q' ⟨⟩
  · rintro q ⟨⟩
  · rintro u addr ⟨⟩
  · rintro _ j addr ⟨⟩

/-- 255 is followed by 1. Over every run, and whatever the scheduling functions do: the assertion finds 0 whenever a
CLEAR response has been sent; and where all steps meet the condition, in every state each number that is 0 is so since
its entry was made or cleared. -/
theorem nextSeqno_run (n : Nat) (sfs : List Sf) (app : Script A K M) (es : List (Script A K M × Event A K N M)) :
    (∀ (s : Node A K (Script A K M) N M) j addr, s.nbrs j = some (addr, 255) →
      (s.sixpNbrIncrementNextSeqno j).nbrs j = some (addr, 1)) ∧
    AllStates (recordStep n) (fun w => ∀ q, .asserted q ∈ w.past → q = 0) ⟨Node.start sfs app, []⟩ es ∧
    (AllSteps (recordStep n) (Careful n) ⟨Node.start sfs app, []⟩ es →
      AllStates (recordStep n) Zeros ⟨Node.start sfs app, []⟩ es) := by
  have hstart := start_recorded (N := N) sfs app
  refine ⟨fun s j addr hj => ?_, ?_, fun hcareful => ?_⟩
  · simp [Node.sixpNbrIncrementNextSeqno, Node.sixpNbrGetNextSeqno, Node.sixpNbrSetNextSeqno, hj]
  · exact (allStates_of_invariant (fun _ _ _ => recordStep_inv) es hstart).mono fun w hw => hw.tracked.asserted
  · have hall := allStates_of_allSteps (J := fun _ => True) (P := fun w => w.Inv ∧ Clean w.past)
      (fun _ _ _ _ _ => trivial) (fun w e w' _ hw hc he => ⟨recordStep_inv hw.1 he, hc w' he⟩) es _ trivial
      ⟨hstart, clean_nil⟩ hcareful
    exact hall.mono fun w hw => hw.1.tracked.fresh hw.2

/-- A request to peer 1 that is acknowledged. -/
def oneRequest : List (Script Nat Nat 1 × Event Nat Nat 1 1) :=
  [([], .output ⟨.request, Cmd.add, 0xf0, some [0, 0, 1, 1, 20, 0, 1, 0], 1, none, ⟨some 0, .queued⟩⟩),
   ([], .macDone 0 .ok)]

/-- After it the peer's number is 1. -/
theorem nextSeqno_run_request : AllStates (recordStep 0) Zeros ⟨Node.start [⟨0xf0, true, true, true⟩] [], []⟩
    oneRequest := by
  refine (nextSeqno_run 0 [⟨0xf0, true, true, true⟩] [] oneRequest).2.2 ⟨?_, fun w hw => ⟨?_, fun _ _ => trivial⟩⟩
  · rintro w' hw'
    cases hw'
    show Clean [.requested 1, .created 1]
    exact ⟨by simp, by simp⟩
  · cases hw
    rintro w' hw'
    cases hw'
    show Clean [.acked 0 false, .requested 1, .created 1]
    exact ⟨by simp, by simp⟩

/-- A CLEAR request to peer 1 cannot be sent at once, and the scheduling function, which is told so before
`sixtop_output` returns, sends an ADD request to peer 2, which gets the only slot of the neighbor table. -/
def slotTaken : List (Script Nat Nat 1 × Event Nat Nat 2 1) :=
  [([[⟨.request, Cmd.add, 0xf0, some [0, 0, 1, 1, 20, 0, 1, 0], 2, none, ⟨some 0, .queued⟩⟩]],
    .output ⟨.request, Cmd.clear, 0xf0, some [0, 0], 1, some 10, ⟨some 0, .sync .err⟩⟩)]

/-- The response to an ADD request of peer 1 is acknowledged after its transaction has timed out. -/
def acknowledgedLate : List (Script Nat Nat 1 × Event Nat Nat 1 1) :=
  [([], .input ⟨some 0, .queued⟩ [0x00, Cmd.add, 0xf0, 0, 0, 0, 1, 1, 20, 0, 1, 0] 1),
   ([], .output ⟨.response, Rc.success, 0xf0, some [20, 0, 1, 0], 1, none, ⟨some 0, .queued⟩⟩),
   ([], .timer 0),  -- process_trans starts the transaction timer
   ([], .timer 0),  -- handle_trans_timeout
   ([], .macDone 0 .ok)]

/-- In both runs a number is 0 after a request was sent or a response acknowledged. -/
theorem seqno_zero_again : (∃ w, exec (recordStep 1) ⟨Node.start [⟨0xf0, true, true, true⟩] [], []⟩ slotTaken = some w ∧
      w.node.nbrs 0 = some (2, 0) ∧ ¬ Fresh 2 w.past) ∧
    ∃ w, exec (recordStep 0) ⟨Node.start [⟨0xf0, true, true, true⟩] [], []⟩ acknowledgedLate = some w ∧
      w.node.nbrs 0 = some (1, 0) ∧ ¬ Fresh 1 w.past := by
  have htaken : exec (recordStep 1) ⟨Node.start [⟨0xf0, true, true, true⟩] [], []⟩ slotTaken =
      some ⟨_, [.misdirected 2, .cleared 1, .requested 2, .created 2, .created 1]⟩ := rfl
  have hlate : exec (recordStep 0) ⟨Node.start [⟨0xf0, true, true, true⟩] [], []⟩ acknowledgedLate =
      some ⟨_, [.acked 0 false, .responded 0 1, .created 1]⟩ := rfl
  refine ⟨⟨_, htaken, rfl, ?_⟩, _, hlate, rfl, ?_⟩
  · simp [Fresh]
  · simp [Fresh]

end Contiki.Sixtop

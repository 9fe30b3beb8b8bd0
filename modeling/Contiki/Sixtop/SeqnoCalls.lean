/-
MAC completions and sixp_output keep what SeqnoInvariant states. The MAC may report before sixtop_output returns, and
the scheduling function that is told may call sixp_output again; the slot of the outer call's neighbor may be another
one's then.
-/
import Contiki.Sixtop.SeqnoInvariant

namespace Contiki.Sixtop

open TransState

variable {A K S : Type} {N M : Nat} [Inhabited A] [DecidableEq A] {h : Handler A K S N M} {log : Recorder A K S N M}
  {s t : Node A K S N M} {past : List (SeqEvent A)} {i : Fin N}

/-! ## MAC completions -/

omit [Inhabited A] [DecidableEq A] in
theorem Tracked.acked (ht : Tracked t past) {u : Nat} {b : Bool}
    (hb : b = true → ∀ addr, .responded u addr ∈ past → ∀ j, t.nbrs j ≠ some (addr, 0)) :
    Tracked t (.acked u b :: past) := by
  refine ht.cons ?_ ?_ fun hc j addr hj => ⟨fun hr => ?_, ht.fresh hc.tail j addr hj⟩
  · rintro q ⟨⟩
  · rintro v addr ⟨⟩
  · cases b with
    | false => exact hc.awaited u addr List.mem_cons_self (List.mem_cons_of_mem _ hr)
    | true => exact hb rfl addr hr j hj

omit [DecidableEq A] in
theorem ack_follows (hf : Follows s t past) (t₀ : Node A K S N M) (given : Option Nat) (i : Fin N) (status : MacStatus)
    (hset : status = .ok → ∀ u, t₀.alloc i = some u → (t₀.mem i).state = responseSending →
      ∀ addr, .responded u addr ∈ past → ∀ j, t.nbrs j ≠ some (addr, 0)) :
    Follows s t (t₀.ackLog given i status ++ past) := by
  unfold Node.ackLog
  split
  · next hok =>
    cases given with
    | none => exact hf
    | some u =>
      refine ⟨hf.inv, hf.tracked.acked fun hb => ?_, hf.keeps⟩
      obtain ⟨ha, hst⟩ := of_decide_eq_true hb
      exact hset hok u ha hst
  · exact hf

omit [Inhabited A] [DecidableEq A] in
theorem macCallbackState_ne {status : MacStatus} {state : TransState} (h : Node.macCallbackState status state ≠ state) :
    Node.macCallbackState status state ≠ requestReceived := by
  revert h
  cases state <;> by_cases hst : status = .ok <;> simp [Node.macCallbackState, hst]

omit [Inhabited A] in
theorem overrideNextSeqno_nonzero {x : Trans A K} (ht : Tracked t past) (hx : x.cmd ≠ Cmd.clear) (j : Fin M) :
    (t.overrideNextSeqno x).nbrs j ≠ some (x.peerAddr, 0) := by
  unfold Node.overrideNextSeqno
  cases hfind : t.sixpNbrFind x.peerAddr with
  | none => exact sixpNbrFind_none hfind j 0
  | some k =>
    obtain ⟨q, hq⟩ := sixpNbrFind_some hfind
    obtain ⟨v, hv, he⟩ := incrementNextSeqno_eq k (t.sixpNbrSetNextSeqno k x.seqno)
    simp only [hx, if_false]
    rw [he, setNextSeqno_setNextSeqno]
    intro hj
    obtain ⟨v', hj, ⟨-, h0⟩ | ⟨hne, -⟩⟩ := setNextSeqno_some hj
    · exact hv h0.symm
    · exact hne (ht.unique j k _ _ _ hj hq)

omit [Inhabited A] in
theorem transitLog_terminating (i : Fin N) (t : Node A K S N M) : t.transitLog log i terminating = [] := by
  simp [Node.transitLog, Node.transitAllowed]

theorem terminating_follows (hh : h.Ok) (hl : h.Tracks log) (hf : Follows s t past) (hi : (t.alloc i).isSome)
    (hq : (s.alloc i).isSome → ¬ Quiet (s.mem i).state) : Follows s (t.sixpTransTransitState h i terminating).2 past := by
  have hend := transit_follows hh hl hf hi hq (show terminating ≠ requestReceived by decide)
  rw [transitLog_terminating] at hend
  exact hend

theorem macTransit_follows (hh : h.Ok) (hl : h.Tracks log) (hf : Follows s t past) (hi : (t.alloc i).isSome)
    (hq : (s.alloc i).isSome → ¬ Quiet (s.mem i).state) (given : Option Nat) (status : MacStatus)
    (hne : Node.macCallbackState status (t.mem i).state ≠ (t.mem i).state) :
    Follows s (t.sixpTransTransitState h i (Node.macCallbackState status (t.mem i).state)).2
      (t.ackLog given i status ++ (t.transitLog log i (Node.macCallbackState status (t.mem i).state) ++ past)) := by
  refine ack_follows (transit_follows hh hl hf hi hq (macCallbackState_ne hne)) t given i status ?_
  intro hok u hu hst addr hr j
  have hnew : Node.macCallbackState status (t.mem i).state = responseSent := by
    rw [hok, hst]
    rfl
  have ha : Node.transitAllowed responseSent (t.mem i).state (t.mem i).mode = true := by
    rw [hst]
    rfl
  rw [hnew] at hr ⊢
  -- the assertion is all that the transition adds, so the response was given to the MAC before
  have hpast : .responded u addr ∈ past := by
    rcases List.mem_append.1 hr with hr | hr
    · simp only [Node.transitLog, ha, if_true, Node.overrideLog] at hr
      split at hr
      · cases hr
      · split at hr
        · cases List.mem_singleton.1 hr
        · cases hr
    · exact hr
  obtain ⟨-, hall⟩ := hf.tracked.responded u addr hpast
  obtain ⟨hpeer, hcmd⟩ := hall i hu
  rw [transit_allowed h ha, ← hpeer]
  exact overrideNextSeqno_nonzero hf.tracked hcmd j

theorem macCallback_follows (hh : h.Ok) (hl : h.Tracks log) (hf : Follows s t past) (given : Option Nat) (i : Fin N)
    (status : MacStatus) : Follows s (t.macCallback h i status) (t.macCallbackLog h log given i status ++ past) := by
  cases hi : t.alloc i with
  | none =>
    have hz := hf.inv.free i hi
    have hst : Node.macCallbackState status unavailable = unavailable := by
      by_cases hok : status = .ok <;> simp [Node.macCallbackState, hok]
    have hlog : t.macCallbackLog h log given i status = t.ackLog given i status := by
      simp [Node.macCallbackLog, hz, Trans.zero, hst, Node.invokeCallbackLog]
    rw [macCallback_free hf.inv hi, hlog]
    refine ack_follows hf t given i status fun _ u hu => ?_
    rw [hi] at hu
    cases hu
  | some u =>
    have hi : (t.alloc i).isSome := by rw [hi]; rfl
    have hlive := hf.inv.live i hi
    have hdone : ∀ {t' : Node A K S N M} {past' : List (SeqEvent A)} (o : OutputStatus), Follows s t' past' →
        (t'.alloc i).isSome → Follows s ((t'.sixpTransInvokeCallback h i o).sixpTransSetCallback i none)
          (t'.invokeCallbackLog log i o ++ past') := fun o hf' hi' =>
      (invokeCallback_follows hl hf' i o).setCallback ((invokeCallback_ext hh hf'.inv (Ext.refl _) i o).some hi') none
    simp only [Node.macCallback, Node.macCallbackLog, if_neg hlive]
    by_cases hne : Node.macCallbackState status (t.mem i).state ≠ (t.mem i).state
    · have hq : (s.alloc i).isSome → ¬ Quiet (s.mem i).state := by
        intro hsi hsq
        rw [← (hf.keeps.ext.quiet i hsi hsq).1] at hsq
        exact (macCallbackState_spec hne).1 hsq
      have hmac := macTransit_follows hh hl hf hi hq given status hne
      have hkept : ((t.sixpTransTransitState h i (Node.macCallbackState status (t.mem i).state)).2.alloc i).isSome := by
        rcases transit_cases h i (Node.macCallbackState status (t.mem i).state) t with ⟨_, nb, he⟩ | ⟨_, he⟩
        · rw [he]
          exact hi
        · rw [he]
          exact (notifyError_ext hh hf.inv (Ext.refl t) _ i).some hi
      simp only [if_pos hne]
      generalize t.sixpTransTransitState h i (Node.macCallbackState status (t.mem i).state) = r at hmac hkept ⊢
      obtain ⟨ok, t'⟩ := r
      cases ok with
      | true =>
        simp only [if_true, List.append_assoc]
        exact hdone _ hmac hkept
      | false =>
        simp only [Bool.false_eq_true, if_false, List.append_assoc]
        exact terminating_follows hh hl hmac hkept hq
    · simp only [if_neg hne, if_true, List.append_nil, List.append_assoc]
      refine hdone _ (ack_follows hf t given i status fun hok u _ hst => ?_) hi
      refine absurd ?_ hne
      rw [hok, hst]
      decide

theorem macComplete_follows (hh : h.Ok) (hl : h.Tracks log) (hf : Follows s t past) (i : Fin N) (given : Option Nat)
    (status : MacStatus) :
    Follows s (t.macComplete h i given status) (t.macCompleteLog h log i given status ++ past) := by
  have hinv : Inv false (t.record (.completion given (t.alloc i))) := record_completion_inv hf.inv fun h => by cases h
  exact macCallback_follows hh hl (hf.record hinv) given i status

/-! ## The slot of a request's neighbor -/

/-- What a request's transaction `i` is sure of when `sixtop_output` returns: it is still about to be sent, no CLEAR is
being answered for whoever is in slot `j`, and its peer is in no other slot. -/
structure Sending (i : Fin N) (j : Fin M) (dest : A) (t : Node A K S N M) : Prop where
  state : (t.mem i).state = init
  cleared : ∀ k v, Clearing (t.mem k) → t.nbrs j ≠ some ((t.mem k).peerAddr, v)
  only : ∀ k v, t.nbrs k = some (dest, v) → k = j

omit [DecidableEq A] in
theorem Keeps.sending (hk : Keeps s t) (hs : Inv false s) (ht : Tracked s past) {j : Fin M} {dest : A} {q : UInt8}
    (hi : (s.alloc i).isSome) (hpeer : (s.mem i).peerAddr = dest) (hinit : (s.mem i).state = init)
    (hj : s.nbrs j = some (dest, q)) : Sending i j dest t where
  state := (hk.ext.quiet i hi (Or.inl hinit)).1.trans hinit
  cleared := fun k v hc hv => by
    have hks : (s.alloc k).isSome := by
      cases ha : s.alloc k with
      | none => exact absurd hc (hk.new k ha)
      | some u => rfl
    have hm := hk.moves k hks
    rcases hk.slots j _ v hv with ⟨q', hq'⟩ | hno
    · rw [hj] at hq'
      have hdest : dest = (t.mem k).peerAddr := congrArg Prod.fst (Option.some.inj hq')
      have hki : k = i := hs.peers k i hks hi (by rw [hpeer, ← hm.peer, hdest])
      subst hki
      obtain ⟨-, h | h⟩ := hm.clearing hc
      · rw [hinit] at h
        cases h
      · rw [hinit] at h
        cases h
    · exact (hno k hks hm.peer.symm).1 (hm.clearing hc).1
  only := fun k v hv => by
    rcases hk.slots k dest v hv with ⟨q', hq'⟩ | hno
    · exact ht.unique k j dest q' q hq' hj
    · exact absurd hinit (hno i hi hpeer).2

theorem sixtopOutput_sending (hh : h.Ok) (hl : h.Tracks log) (hs : Inv false s) (ht : Tracked s past) {j : Fin M}
    {dest : A} {q : UInt8} (hi : (s.alloc i).isSome) (hpeer : (s.mem i).peerAddr = dest)
    (hinit : (s.mem i).state = init) (hj : s.nbrs j = some (dest, q)) (mac : MacOutcome) (bytes : List UInt8) :
    Sending i j dest (s.sixtopOutput h mac dest bytes (some i)).2 := by
  have hself := (Keeps.refl hs).sending hs ht hi hpeer hinit hj
  cases mac with
  | noRoom => exact hself
  | fatal => exact (macComplete_follows hh hl (.refl hs ht) i (s.alloc i) .errFatal).keeps.sending hs ht hi hpeer hinit hj
  | sync status => exact (macComplete_follows hh hl (.refl hs ht) i (s.alloc i) status).keeps.sending hs ht hi hpeer hinit hj
  | queued => exact ⟨hself.state, hself.cleared, hself.only⟩

variable {a : OutputArgs A K M}

omit [Inhabited A] in
theorem Tracked.requested {j : Fin M} (ht : Tracked t past) (hs : Sending i j a.dest t)
    (ha : a.type = .request) : Tracked (t.outputNextSeqno a.code (some j)) (t.requestedLog a (some j) ++ past) := by
  unfold Node.outputNextSeqno Node.requestedLog
  simp only [ha, if_true]
  by_cases hc : a.code = Cmd.clear
  · simp only [hc, if_true, Option.bind_some]
    have hcleared := ht.cleared_cons a.dest
    cases hj : t.nbrs j with
    | none =>
      refine hcleared.reset fun _ addr v hv => ?_
      rw [hj] at hv
      cases hv
    | some e =>
      by_cases he : e.1 = a.dest
      · simp only [he, if_true]
        refine hcleared.reset fun _ addr v hv => Or.inl ?_
        rw [hj] at hv
        rw [← he]
        exact congrArg Prod.fst (Option.some.inj hv)
      · simp only [he, if_false]
        have hmis : Tracked t (.misdirected e.1 :: .cleared a.dest :: past) := by
          refine hcleared.cons ?_ ?_ fun hclean => absurd List.mem_cons_self (hclean.directed e.1)
          · rintro q ⟨⟩
          · rintro u addr ⟨⟩
        exact hmis.reset fun hclean => absurd List.mem_cons_self (hclean.directed e.1)
  · simp only [hc, if_false]
    obtain ⟨q, hq, he⟩ := incrementNextSeqno_eq j t
    rw [he]
    have hset := ht.setNonzero hq hs.cleared
    refine hset.cons ?_ ?_ fun hclean k addr hk => ⟨?_, hset.fresh hclean.tail k addr hk⟩
    · rintro v ⟨⟩
    · rintro u addr ⟨⟩
    · rintro rfl
      obtain ⟨v', hk, ⟨-, h0⟩ | ⟨hne, -⟩⟩ := setNextSeqno_some hk
      · exact hq h0.symm
      · exact hne (hs.only k v' hk)

omit [Inhabited A] [DecidableEq A] in
theorem outputNextSeqno_slots {code : PktCode} {j k : Fin M} {addr : A} {q : UInt8}
    (h : (t.outputNextSeqno code (some j)).nbrs k = some (addr, q)) : ∃ q', t.nbrs k = some (addr, q') := by
  unfold Node.outputNextSeqno at h
  dsimp only at h
  split at h
  · obtain ⟨v, hv, -⟩ := setNextSeqno_some h
    exact ⟨v, hv⟩
  · obtain ⟨q', -, he⟩ := incrementNextSeqno_eq j t
    rw [he] at h
    obtain ⟨v, hv, -⟩ := setNextSeqno_some h
    exact ⟨v, hv⟩

theorem requested_follows (hf : Follows s t past) {j : Fin M} (hs : Sending i j a.dest t)
    (ha : a.type = .request) : Follows s (t.outputNextSeqno a.code (some j)) (t.requestedLog a (some j) ++ past) := by
  have htracked := hf.tracked.requested hs ha
  have hslots : ∀ k addr q, (t.outputNextSeqno a.code (some j)).nbrs k = some (addr, q) →
      ∃ q', t.nbrs k = some (addr, q') := fun _ _ _ => outputNextSeqno_slots
  obtain ⟨nb, hnb⟩ := outputNextSeqno_eq a.code (some j) t
  rw [hnb] at htracked hslots ⊢
  refine ⟨hf.inv.nbrs nb, htracked, hf.keeps.ext.step rfl rfl fun _ _ _ => rfl, hf.keeps.uid, hf.keeps.old,
    hf.keeps.moves, hf.keeps.new, fun k addr q hk => ?_⟩
  obtain ⟨q', hq'⟩ := hslots k addr q hk
  exact hf.keeps.slots k addr q' hq'

/-! ## Output -/

theorem sixtopOutput_follows (hh : h.Ok) (hl : h.Tracks log) (hf : Follows s t past) (hi : (t.alloc i).isSome)
    (hq : (s.alloc i).isSome → ¬ Quiet (s.mem i).state) (mac : MacOutcome) (dest : A) (bytes : List UInt8) :
    Follows s (t.sixtopOutput h mac dest bytes (some i)).2 (t.sixtopOutputLog h log mac (some i) ++ past) := by
  cases mac with
  | noRoom => exact hf
  | fatal => exact macComplete_follows hh hl hf i (t.alloc i) .errFatal
  | sync status => exact macComplete_follows hh hl hf i (t.alloc i) status
  | queued =>
    have hinv := sixtopOutput_inv hh hf.inv .queued dest bytes (some i) fun j hj => by cases hj; exact hi
    have hext := sixtopOutput_ext hh hf.inv hf.keeps.ext .queued dest bytes hi hq
    refine ⟨hinv, hf.tracked.carry ⟨fun _ hc => ⟨hc, rfl⟩, le_rfl, fun _ _ ha _ => ⟨ha, rfl, rfl⟩⟩ rfl, hext,
      hf.keeps.uid, hf.keeps.old, hf.keeps.moves, hf.keeps.new, hf.keeps.slots⟩

omit [DecidableEq A] in
theorem responded_follows (hf : Follows s t past) (hpeer : (t.mem i).peerAddr = a.dest) :
    Follows s t (t.respondedLog a i ++ past) := by
  unfold Node.respondedLog
  split
  · next hresp =>
    cases hu : t.alloc i with
    | none => exact hf
    | some u =>
      have ht := hf.tracked
      refine ⟨hf.inv, ⟨ht.unique, ht.cleared, fun q hq => ?_, fun v addr hv => ?_, fun hc j addr hj => ?_⟩, hf.keeps⟩
      · rcases List.mem_cons.1 hq with hq | hq
        · cases hq
        · exact ht.asserted q hq
      · rcases List.mem_cons.1 hv with hv | hv
        · cases hv
          refine ⟨hf.inv.uid i u hu, fun k hk => ?_⟩
          rw [hf.inv.uidInj k i u hk hu]
          exact ⟨hpeer, hresp.2⟩
        · exact ht.responded v addr hv
      · exact ht.fresh hc.tail j addr hj
  · exact hf

theorem outputSent_follows (hh : h.Ok) (hl : h.Tracks log) (hf : Follows s t past) (hi : (t.alloc i).isSome)
    (hq : (s.alloc i).isSome → ¬ Quiet (s.mem i).state) (hinit : (t.mem i).state ≠ init) (code : PktCode)
    (nbr : Option (Fin M)) : Follows s (t.outputSent h code nbr i) (t.outputSentLog log code nbr i ++ past) := by
  unfold Node.outputSent Node.outputSentLog
  cases hst : (t.mem i).state with
  | init => exact absurd hst hinit
  | requestReceived => exact transit_follows hh hl hf hi hq (by decide)
  | responseReceived => exact transit_follows hh hl hf hi hq (by decide)
  | _ => exact hf

theorem requestSent_follows (hh : h.Ok) (hl : h.Tracks log) (hf : Follows s t past) (hi : (t.alloc i).isSome)
    (hnew : s.alloc i = none) {j : Fin M} (hs : Sending i j a.dest t) (ha : a.type = .request) :
    Follows s (t.outputSent h a.code (some j) i)
      (t.outputSentLog log a.code (some j) i ++ (t.requestedLog a (some j) ++ past)) := by
  have hnext := requested_follows hf hs ha
  have hi' : ((t.outputNextSeqno a.code (some j)).alloc i).isSome := by
    obtain ⟨nb, hnb⟩ := outputNextSeqno_eq a.code (some j) t
    rw [hnb]
    exact hi
  have hq : (s.alloc i).isSome → ¬ Quiet (s.mem i).state := by
    rw [hnew]
    rintro ⟨⟩
  simp only [Node.outputSent, Node.outputSentLog, hs.state]
  exact transit_follows hh hl hnext hi' hq (by decide)

theorem abort_follows (hh : h.Ok) (hl : h.Tracks log) (hf : Follows s t past) (hi : (t.alloc i).isSome)
    (hnew : s.alloc i = none) : Follows s (t.sixpTransAbort h i) (t.abortLog h log i ++ past) := by
  have hq : (s.alloc i).isSome → ¬ Quiet (s.mem i).state := by
    rw [hnew]
    rintro ⟨⟩
  have hend := terminating_follows hh hl hf hi hq
  unfold Node.sixpTransAbort Node.abortLog
  rw [transit_terminating] at hend ⊢
  dsimp only at hend ⊢
  have hstate : ((t.setTrans i { t.mem i with state := terminating, timer := some .processTrans }).mem i).state =
      terminating := by
    rw [setTrans_mem_self]
  have hi₁ : ((t.setTrans i { t.mem i with state := terminating, timer := some .processTrans }).alloc i).isSome := hi
  generalize t.setTrans i { t.mem i with state := terminating, timer := some .processTrans } = t₁
    at hend hstate hi₁ ⊢
  have hcall := invokeCallback_follows hl hend i .aborted
  have hkept := invokeCallback_ext hh hend.inv (Ext.refl t₁) i .aborted
  generalize t₁.sixpTransInvokeCallback h i .aborted = t₂ at hcall hkept ⊢
  have hstate₂ : (t₂.mem i).state = terminating := (hkept.quiet i hi₁ (Or.inr hstate)).1.trans hstate
  have hstop : Follows s (t₂.ctimerStop i) (t₁.invokeCallbackLog log i .aborted ++ past) :=
    hcall.setTrans (hcall.inv.timer (hkept.some hi₁) none) ⟨rfl, rfl, id, id⟩ (hcall.keeps.ext.setSame rfl)
  rw [processTrans_terminating (by rw [Node.ctimerStop, setTrans_mem_self]; exact hstate₂)]
  exact hstop.release hnew

/-! ## sixp_output -/

/-- Where an entry is made for the destination, no transaction with it is a CLEAR or about to be sent. -/
theorem alloc_unblocked (hs : Inv false s)
    (hready : s.outputReady a.type (s.sixpTransFind a.dest) = true) (hask : a.type = .request ∨ (a.type = .response ∧
      ¬ ((s.sixpTransFind a.dest).any fun i => (s.mem i).cmd = Cmd.clear) = true)) :
    ∀ k, (s.alloc k).isSome → (s.mem k).peerAddr = a.dest → (s.mem k).cmd ≠ Cmd.clear ∧ (s.mem k).state ≠ init := by
  intro k hk hpeer
  cases hfind : s.sixpTransFind a.dest with
  | none => exact absurd hpeer (sixpTransFind_none hs hfind hk)
  | some i =>
    obtain ⟨hlist, hpeer'⟩ := sixpTransFind_some hfind
    have hki : k = i := hs.peers k i hk ((hs.listed i).1 hlist) (hpeer.trans hpeer'.symm)
    subst hki
    rw [hfind] at hready hask
    rcases hask with hreq | ⟨hresp, hclear⟩
    · simp [hreq, Node.outputReady] at hready
    · simp only [hresp, Node.outputReady, Option.any_some, decide_eq_true_eq] at hready hclear
      refine ⟨hclear, fun hinit => ?_⟩
      rw [hready] at hinit
      cases hinit

omit [DecidableEq A] in
theorem Follows.put (hs : Inv false s) (ht : Tracked s past) {addr : A} (hnew : ∀ k q, s.nbrs k ≠ some (addr, q))
    (hno : ∀ k, (s.alloc k).isSome → (s.mem k).peerAddr = addr → (s.mem k).cmd ≠ Cmd.clear ∧ (s.mem k).state ≠ init)
    (j : Fin M) :
    Follows s { s with nbrs := Function.update s.nbrs j (some (addr, 0)) } (.created addr :: past) where
  inv := hs.nbrs _
  tracked := by
    have hcons : Tracked s (.created addr :: past) := by
      refine ht.cons ?_ ?_ fun hc k addr' hk => Or.inr (ht.fresh hc.tail k addr' hk)
      · rintro q ⟨⟩
      · rintro u addr' ⟨⟩
    exact hcons.put (Or.inl rfl) hnew
  keeps := by
    have hself := Keeps.refl hs
    refine ⟨(Ext.refl s).step rfl rfl fun _ _ _ => rfl, le_rfl, hself.old, hself.moves, hself.new, fun k addr' q hk => ?_⟩
    by_cases hkj : k = j
    · subst hkj
      simp only [Function.update_self] at hk
      cases hk
      exact Or.inr hno
    · simp only [Function.update_of_ne hkj] at hk
      exact Or.inl ⟨q, hk⟩

theorem outputNbr_follows (hs : Inv false s) (ht : Tracked s past)
    (hready : s.outputReady a.type (s.sixpTransFind a.dest) = true) {nbr : Option (Fin M)} {s' : Node A K S N M}
    (ho : s.outputNbr a (s.sixpTransFind a.dest) = some (nbr, s')) : Follows s s' (s.createdLog a nbr ++ past) ∧
      (a.type = .request → ∃ j q, nbr = some j ∧ s'.nbrs j = some (a.dest, q)) := by
  unfold Node.outputNbr at ho
  unfold Node.createdLog
  cases hfind : s.sixpNbrFind a.dest with
  | some j =>
    rw [hfind] at ho
    cases ho
    obtain ⟨q, hq⟩ := sixpNbrFind_some hfind
    refine ⟨?_, fun _ => ⟨j, q, rfl, hq⟩⟩
    simpa using Follows.refl hs ht
  | none =>
    rw [hfind] at ho
    dsimp only at ho
    split at ho
    · next hask =>
      simp only [Node.sixpNbrAlloc, hfind, Option.isSome_none, Bool.false_eq_true, if_false, Option.map_eq_some_iff,
        Prod.mk.injEq] at ho
      obtain ⟨_, ⟨j, -, rfl⟩, rfl, rfl⟩ := ho
      have hno := alloc_unblocked hs hready (hask.imp_right fun hr => ⟨hr.1, by simpa using hr.2.1⟩)
      refine ⟨?_, fun _ => ⟨j, 0, rfl, Function.update_self ..⟩⟩
      simpa using Follows.put hs ht (sixpNbrFind_none hfind) hno j
    · next hask =>
      cases ho
      refine ⟨?_, fun hreq => absurd (Or.inl hreq) hask⟩
      simpa using Follows.refl hs ht

theorem outputTrans_follows (hs : Inv false s) (ht : Tracked s past) {seqno : UInt8}
    {tr : Option (Fin N)} {s' : Node A K S N M} (ho : s.outputTrans a seqno tr = some (i, s')) :
    Follows s s' past ∧ s'.nbrs = s.nbrs ∧ (a.type = .request → (s'.mem i).peerAddr = a.dest) := by
  have hspec := outputTrans_spec hs ho
  unfold Node.outputTrans at ho
  split at ho
  · next hreq =>
    split at ho
    · cases ho
    · next k s₁ ha =>
      simp only [Option.some.injEq, Prod.mk.injEq] at ho
      obtain ⟨rfl, rfl⟩ := ho
      obtain ⟨hfree, -, sf, -, rfl⟩ := sixpTransAlloc_some hs ha
      rcases hspec with ⟨-, -, hinv, -⟩ | ⟨hne, -⟩
      · refine ⟨(Follows.refl hs ht).alloc hfree rfl hinv, rfl, fun _ => ?_⟩
        show (Function.update s.mem k _ k).peerAddr = a.dest
        rw [Function.update_self]
      · exact absurd hreq hne
  · next hreq =>
    rcases hspec with ⟨h, -⟩ | ⟨-, -, rfl⟩
    · exact absurd h hreq
    · exact ⟨.refl hs ht, rfl, fun h => absurd h hreq⟩

theorem outputSend_follows (hh : h.Ok) (hl : h.Tracks log) (hf : Follows s t past)
    (bytes : List UInt8) {nbr : Option (Fin M)} (hi : (t.alloc i).isSome) (hpeer : (t.mem i).peerAddr = a.dest)
    (hcase : (a.type = .request ∧ s.alloc i = none ∧ (t.mem i).state = init ∧
        ∃ j q, nbr = some j ∧ t.nbrs j = some (a.dest, q)) ∨
      (a.type ≠ .request ∧ (s.alloc i).isSome ∧ ¬ Quiet (s.mem i).state)) :
    Follows s (t.outputSend h a bytes nbr i) (t.outputSendLog h log a bytes nbr i ++ past) := by
  have hq : (s.alloc i).isSome → ¬ Quiet (s.mem i).state := by
    rcases hcase with ⟨-, hnew, -⟩ | ⟨-, -, hquiet⟩
    · rw [hnew]
      rintro ⟨⟩
    · exact fun _ => hquiet
  have hset : Follows s (t.sixpTransSetCallback i a.callback) past := hf.setCallback hi _
  have hi₀ : ((t.sixpTransSetCallback i a.callback).alloc i).isSome := hi
  have hpeer₀ : ((t.sixpTransSetCallback i a.callback).mem i).peerAddr = a.dest := by
    rw [Node.sixpTransSetCallback, setTrans_mem_self]
    exact hpeer
  have hstate₀ : ((t.sixpTransSetCallback i a.callback).mem i).state = (t.mem i).state := by
    rw [Node.sixpTransSetCallback, setTrans_mem_self]
  have hnbrs₀ : (t.sixpTransSetCallback i a.callback).nbrs = t.nbrs := rfl
  unfold Node.outputSend Node.outputSendLog
  generalize t.sixpTransSetCallback i a.callback = t₀ at hset hi₀ hpeer₀ hstate₀ hnbrs₀ ⊢
  have hout := sixtopOutput_follows hh hl (responded_follows hset hpeer₀) hi₀ hq a.env.mac a.dest bytes
  have hi₁ := sixtopOutput_alloc hh hset.inv a.env.mac a.dest bytes hi₀
  have hsending : ∀ j q, (t.mem i).state = init → t.nbrs j = some (a.dest, q) →
      Sending i j a.dest (t₀.sixtopOutput h a.env.mac a.dest bytes (some i)).2 := fun j q hinit hj =>
    sixtopOutput_sending hh hl hset.inv hset.tracked hi₀ hpeer₀ (hstate₀.trans hinit) (by rw [hnbrs₀, hj]) _ _
  dsimp only
  generalize t₀.sixtopOutput h a.env.mac a.dest bytes (some i) = r at hout hi₁ hsending ⊢
  obtain ⟨ok, t₁⟩ := r
  rcases hcase with ⟨hreq, hnew, hinit, j, q, rfl, hj⟩ | ⟨hreq, hold, hquiet⟩
  · cases ok with
    | true =>
      dsimp only
      simp only [List.append_assoc]
      exact requestSent_follows hh hl hout hi₁ hnew (hsending j q hinit hj) hreq
    | false =>
      simp only [hreq, if_true, List.append_assoc]
      exact abort_follows hh hl hout hi₁ hnew
  · cases ok with
    | true =>
      have hnone : t₁.requestedLog a nbr = [] := by
        rw [Node.requestedLog, if_neg hreq]
      have hninit : (t₁.mem i).state ≠ init := fun hinit => hquiet (Or.inl ((hout.keeps.moves i hold).begins hinit))
      dsimp only
      simp only [hnone, List.nil_append, List.append_assoc]
      exact outputSent_follows hh hl hout hi₁ hq hninit a.code nbr
    | false =>
      simp only [hreq, if_false, List.nil_append, List.append_assoc]
      exact hout

theorem sixpOutput_follows (hh : h.Ok) (hl : h.Tracks log) (hs : Inv false s) (ht : Tracked s past)
    (a : OutputArgs A K M) : Follows s (s.sixpOutput h a).2 (s.sixpOutputLog h log a ++ past) := by
  simp only [Node.sixpOutput, Node.sixpOutputLog]
  by_cases hready : s.outputReady a.type (s.sixpTransFind a.dest) = true
  swap
  · simp only [hready]
    exact .refl hs ht
  simp only [hready, if_true]
  cases hnbr : s.outputNbr a (s.sixpTransFind a.dest) with
  | none => exact .refl hs ht
  | some r =>
    obtain ⟨nbr, s₁⟩ := r
    obtain ⟨hf, hslot⟩ := outputNbr_follows hs ht hready hnbr
    dsimp only
    cases sixpPktCreate a.type a.code a.sfid (s₁.outputSeqno a.type nbr (s.sixpTransFind a.dest)) a.body with
    | none => exact hf
    | some bytes =>
      dsimp only
      cases htrans : s₁.outputTrans a (s₁.outputSeqno a.type nbr (s.sixpTransFind a.dest))
          (s.sixpTransFind a.dest) with
      | none => exact hf
      | some r =>
        obtain ⟨i, s₂⟩ := r
        obtain ⟨hf₂, hnbrs, hpeer⟩ := outputTrans_follows hf.inv hf.tracked htrans
        have hall := hf.trans hf₂
        dsimp only
        rw [List.append_assoc]
        rcases outputTrans_spec hf.inv htrans with ⟨hreq, hfree, -, hi, -, -, hinit⟩ | ⟨hreq, hfind, rfl⟩
        · obtain ⟨j, q, rfl, hj⟩ := hslot hreq
          refine outputSend_follows hh hl hall bytes hi (hpeer hreq) (Or.inl ⟨hreq, ?_, hinit, j, q, rfl, ?_⟩)
          · cases hsi : s.alloc i with
            | none => rfl
            | some u =>
              have hkept := hf.keeps.ext.keeps i (by rw [hsi]; rfl)
              rw [hfree, hsi] at hkept
              cases hkept
          · rw [hnbrs]
            exact hj
        · obtain ⟨hlist, hdest⟩ := sixpTransFind_some hfind
          have hi : (s.alloc i).isSome := (hs.listed i).1 hlist
          have hm := hf.keeps.moves i hi
          refine outputSend_follows hh hl hall bytes (hf.keeps.ext.some hi) (hm.peer.trans hdest)
            (Or.inr ⟨hreq, hi, ?_⟩)
          rw [hfind] at hready
          cases hty : a.type <;> rw [hty] at hready hreq <;> simp [Node.outputReady] at hready hreq <;>
            simp [Quiet, hready]

/-! ## Scheduling functions -/

theorem calls_follow (hh : h.Ok) (hl : h.Tracks log) : ∀ (calls : List (OutputArgs A K M)) {s : Node A K S N M}
    {past : List (SeqEvent A)}, Inv false s → Tracked s past →
    Follows s (calls.foldl (fun s a => (s.sixpOutput h a).2) s) (callsLog h log calls s ++ past)
  | [], _, _, hs, ht => .refl hs ht
  | a :: calls, s, past, hs, ht => by
    have hf := sixpOutput_follows hh hl hs ht a
    rw [callsLog, List.append_assoc]
    exact hf.trans (calls_follow hh hl calls hf.inv hf.tracked)

theorem scripted_tracks : ∀ n, Handler.Tracks (scripted n : Handler A K (Script A K M) N M) (scriptedLog n)
  | 0 => fun _ _ _ hs ht => .refl hs ht
  | n + 1 => by
    intro call s past hs ht
    simp only [scripted, scriptedLog]
    cases s.app with
    | nil => exact .refl hs ht
    | cons calls rest =>
      have hs' : Inv false { s with app := rest } := hs.congr rfl rfl (fun _ h => h) rfl rfl rfl
      have ht' : Tracked { s with app := rest } past :=
        ht.carry ⟨fun _ hc => ⟨hc, rfl⟩, le_rfl, fun _ _ ha _ => ⟨ha, rfl, rfl⟩⟩ rfl
      have hf := calls_follow (scripted_ok n) (scripted_tracks n) calls hs' ht'
      refine ⟨hf.inv, hf.tracked, ?_⟩
      have hk := hf.keeps
      exact ⟨((Ext.refl s).step rfl rfl fun _ _ _ => rfl : Ext s { s with app := rest }).trans hk.ext, hk.uid, hk.old,
        hk.moves, hk.new, hk.slots⟩

end Contiki.Sixtop

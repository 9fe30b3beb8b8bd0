/-
What the scheduling function's input handler is given: over every run of the 6P layer, and whatever
the scheduling functions do when they are called, a RESPONSE reaches it at most once for each
request transaction, and a CONFIRMATION only within a 3-step transaction; no peer ever has two
transactions.
-/
import Contiki.Sixtop.Preserve

namespace Contiki.Sixtop

section

open TransState Contiki.Lib

variable {A K : Type} {N M : Nat} [DecidableEq A] [Inhabited A]

theorem run_inv (n : Nat) (sfs : List Sf) (app : Script A K M) (es : List (Script A K M × Event A K N M))
    {s : Node A K (Script A K M) N M} (he : exec (openStep n) (Node.start sfs app) es = some s) : Inv false s :=
  exec_invariant (fun _ _ _ hs hstep => openStep_inv hs (fun h => by cases h) hstep) es (start_inv sfs app) he

/-- Over every run: each RESPONSE given to the input handler is for a transaction opened earlier
with its sender, under the SeqNum of the request, in REQUEST_SENDING or REQUEST_SENT, that was given
none before; each CONFIRMATION is for a 3-step transaction in RESPONSE_SENDING or RESPONSE_SENT; and
the transactions on `trans_list` have different peers, now and at every call of a scheduling
function. -/
theorem delivery_sound (n : Nat) (sfs : List Sf) (app : Script A K M)
    (es : List (Script A K M × Event A K N M)) (s : Node A K (Script A K M) N M)
    (he : exec (openStep n) (Node.start sfs app) es = some s) :
    (∀ pre post seqno src tr state mode, s.trace = pre ++ .input .response seqno src tr state mode :: post →
      (state = requestSending ∨ state = requestSent) ∧
        ∃ u, tr = some u ∧ .opened u src seqno ∈ pre ∧ ∀ o ∈ pre, ¬ o.Answers u) ∧
    (∀ seqno src tr state mode, .input .confirmation seqno src tr state mode ∈ s.trace →
      mode = .threeStep ∧ (state = responseSending ∨ state = responseSent)) ∧
    (∀ peers, .upcall peers ∈ s.trace → peers.Nodup) ∧ s.peers.Nodup := by
  have hinv := run_inv n sfs app es he
  refine ⟨fun pre post seqno src tr state mode h => hinv.trace pre _ post h, ?_, ?_, hinv.peers_nodup⟩
  · intro seqno src tr state mode h
    obtain ⟨pre, post, hsplit⟩ := List.append_of_mem h
    exact hinv.trace pre _ post hsplit
  · intro peers h
    obtain ⟨pre, post, hsplit⟩ := List.append_of_mem h
    exact hinv.trace pre _ post hsplit

def answeredTwice : List (Script Nat Nat 1 × Event Nat Nat 1 1) :=
  let ok : Env 1 := ⟨some 0, .queued⟩
  [([], .output ⟨.request, Cmd.clear, 0xf0, some [0, 0], 1, some 10, ok⟩),
   ([], .input ok [0x10, Rc.success, 0xf0, 0] 1),
   ([], .input ok [0x10, Rc.success, 0xf0, 0] 1)]

theorem delivery_sound_answeredTwice :
    ∃ s, exec (openStep 0) (Node.start [⟨0xf0, true, true, true⟩] []) answeredTwice = some s ∧
      s.trace.head? = some (.opened 0 1 0) ∧
      s.trace[1]? = some (.input .response 0 1 (some 0) requestSending .twoStep) ∧
      (∀ pre post seqno src tr state mode, s.trace = pre ++ .input .response seqno src tr state mode :: post →
        (state = requestSending ∨ state = requestSent) ∧
          ∃ u, tr = some u ∧ .opened u src seqno ∈ pre ∧ ∀ o ∈ pre, ¬ o.Answers u) ∧
      (∀ seqno src tr state mode, .input .confirmation seqno src tr state mode ∈ s.trace →
        mode = .threeStep ∧ (state = responseSending ∨ state = responseSent)) ∧
      (∀ peers, .upcall peers ∈ s.trace → peers.Nodup) ∧ s.peers.Nodup :=
  ⟨_, rfl, rfl, rfl, delivery_sound 0 [⟨0xf0, true, true, true⟩] [] answeredTwice _ rfl⟩

end

/-!
The transaction pointer the MAC holds: it always denotes the transaction it was given for exactly in
the runs in which `process_trans` releases no transaction whose frame is still with the MAC.
-/

section

open TransState Contiki.Lib

variable {A K S : Type} {N M : Nat} [DecidableEq A] [Inhabited A]

/-- Every pointer with the MAC denotes its transaction, and every completion so far found it. -/
structure PointersSound (s : Node A K S N M) : Prop where
  denotes : NoDangling s
  sound : CompletionsSound s.trace

omit [DecidableEq A] in
theorem Inv.strengthen {s : Node A K S N M} (hs : Inv false s) (hp : PointersSound s) : Inv true s :=
  { hs with denotes := fun _ => hp.denotes, sound := fun _ => hp.sound }

theorem releasesBusy_dangling {h : Handler A K S N M} {s : Node A K S N M} {e : Event A K N M}
    (hb : ReleasesBusy s e) : ∃ s', step h s e = some s' ∧ ¬ NoDangling s' := by
  cases e with
  | timer i =>
    obtain ⟨htimer, hstate, f, hf, hp⟩ := hb
    refine ⟨_, by simp only [step, htimer, Option.map_some]; rfl, fun hn => ?_⟩
    have hst : ((s.ctimerStop i).mem i).state = terminating := by simp [Node.ctimerStop, Node.setTrans, hstate]
    rw [processTrans_terminating hst] at hn
    obtain ⟨u, _, hu⟩ := hn f hf i hp
    simp at hu
  | output a => exact hb.elim
  | input env buf src => exact hb.elim
  | macDone k st => exact hb.elim
  | nbrRemove j => exact hb.elim

/-- Over every run, and whatever the scheduling functions do: in every state reached the pointers
are sound if and only if no step releases a terminating transaction while the MAC holds a frame with
a pointer to it. -/
theorem pointers_sound_iff (n : Nat) (sfs : List Sf) (app : Script A K M) (es : List (Script A K M × Event A K N M)) :
    AllStates (openStep n) PointersSound (Node.start sfs app) es ↔
      AllSteps (openStep n) (fun s e => ¬ ReleasesBusy s e.2) (Node.start sfs app) es := by
  refine allStates_iff_allSteps (J := Inv false) (fun _ _ _ hs hstep => openStep_inv hs (fun h => by cases h) hstep)
    (fun s e hs hp => ?_) es _ (start_inv sfs app) ?_
  · constructor
    · intro h s' hstep
      have hinv : Inv true s' := openStep_inv (hs.strengthen hp) (fun _ => h) hstep
      exact ⟨hinv.denotes rfl, hinv.sound rfl⟩
    · intro h hb
      have hb' : ReleasesBusy { s with app := e.1 } e.2 := by
        obtain ⟨script, e⟩ := e
        cases e <;> exact hb
      obtain ⟨s', hstep, hdangling⟩ := releasesBusy_dangling (h := scripted n) hb'
      exact hdangling (h s' hstep).denotes
  · exact ⟨(start_inv (d := true) sfs app).denotes rfl, (start_inv (d := true) sfs app).sound rfl⟩

/-- A request to peer 1 times out and is released while the MAC still sends it; a request to peer 2
gets its block; then the MAC reports the first frame. -/
def staleCompletion : List (Script Nat Nat 1 × Event Nat Nat 1 1) :=
  let ok : Env 1 := ⟨some 0, .queued⟩
  [([], .output ⟨.request, Cmd.clear, 0xf0, some [0, 0], 1, some 10, ok⟩),
   ([], .timer 0),  -- process_trans starts the transaction timer
   ([], .timer 0),  -- handle_trans_timeout
   ([], .timer 0),  -- process_trans releases the block
   ([], .output ⟨.request, Cmd.clear, 0xf0, some [0, 0], 2, some 20, ok⟩),
   ([], .macDone 0 .ok)]

/-- The completion of the first request moves the transaction of the second to REQUEST_SENT and uses
up its callback, while its own frame is still with the MAC. -/
theorem staleCompletion_hits_other :
    ∃ s, exec (openStep 0) (Node.start [⟨0xf0, true, true, true⟩] []) staleCompletion = some s ∧
      .completion (some 0) (some 1) ∈ s.trace ∧ ¬ CompletionsSound s.trace ∧
      (s.mem 0).peerAddr = 2 ∧ (s.mem 0).state = requestSent ∧ (s.mem 0).callback = none ∧
      s.mac.map (fun f => (f.dest, f.owner)) = [(2, some 1)] := by
  refine ⟨_, rfl, ?_, ?_, rfl, rfl, rfl, rfl⟩
  · exact List.mem_append_left _ (List.mem_append_right _ (List.mem_singleton.2 rfl))
  · intro hsound
    obtain ⟨u, hg, hf⟩ := hsound (some 0) (some 1)
      (List.mem_append_left _ (List.mem_append_right _ (List.mem_singleton.2 rfl)))
    cases hg; cases hf

end

end Contiki.Sixtop

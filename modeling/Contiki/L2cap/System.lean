/-
Runs of a node: what each call leaves of a channel's two buffers, and which of its accesses are inside the received frame,
the receive buffer and the packet buffer.
-/
import Contiki.Lib.Run
import Contiki.L2cap.Transmit

namespace Contiki.L2cap

section

open Contiki.Lib

variable {A : Type} {cfg : Config A} {c d : Nat} {f : Frame} {s : State A} {w w' : World A} {a : Action A}

@[simp] theorem set_self (s : State A) (c : Nat) (ch : Channel A) : (s.set c ch).channels c = ch := Function.update_self ..

theorem set_ne (s : State A) (ch : Channel A) (h : d ≠ c) : (s.set c ch).channels d = s.channels d :=
  Function.update_of_ne h ..

@[simp] theorem set_count (s : State A) (c : Nat) (ch : Channel A) : (s.set c ch).count = s.count := rfl

/-! ## Finding a channel -/

theorem getChannelForCid_eq (cid : Nat) (hcid : cid < 2 ^ 16) (hcount : s.count < 2 ^ 8) :
    getChannelForCid cid s = some c ↔ cid = l2capFlowChannel + c ∧ c < s.count := by
  unfold getChannelForCid toInt16 l2capFlowChannel
  dsimp only
  split
  · rw [Option.some_inj]
    omega
  · simp only [reduceCtorEq, false_iff, not_and, not_lt]
    omega

/-! ## What is claimed of an access -/

/-- An access stays inside a received frame of `len` bytes, the receive buffer, the packet buffer. -/
@[grind =]
def Event.InBounds (cfg : Config A) (len : Nat) : Event A → Prop
  | .frameRead offset n => offset + n ≤ len
  | .sduWrite offset n => offset + n ≤ cfg.nodeMtu
  | .packetbufWrite offset n => offset + n ≤ cfg.packetbufSize
  | _ => True

@[grind =]
def Action.len : Action A → Nat
  | .rxEvent _ f _ => f.len
  | _ => 0

theorem radioSend_inBounds (receiver : A) (frame : List UInt8) :
    ∀ e ∈ radioSend cfg receiver frame, e.InBounds cfg f.len := by
  unfold radioSend
  simp only [List.forall_mem_cons, Event.InBounds]
  exact ⟨by omega, trivial, List.forall_mem_nil _⟩

theorem deliver_inBounds (rx : Buffer) : ∀ e ∈ (deliver cfg c f rx).2, e.InBounds cfg f.len := by
  unfold deliver packetbufRemaininglen
  split
  · split
    · exact List.forall_mem_nil _
    · simp only [List.forall_mem_cons, Event.InBounds]
      exact ⟨by omega, trivial, List.forall_mem_nil _⟩
  · exact List.forall_mem_nil _

theorem frame_inBounds (hlen : 4 ≤ f.len) (rx : Buffer) :
    ∀ e ∈ (inputL2capFrameFlowChannel cfg c f rx).2, e.InBounds cfg f.len := by
  unfold inputL2capFrameFlowChannel
  rw [if_neg (by omega)]
  dsimp only
  split
  · split
    · simp only [List.forall_mem_cons, Event.InBounds]
      exact ⟨by omega, List.forall_mem_nil _⟩
    · simp only [List.forall_mem_append, List.forall_mem_cons, Event.InBounds]
      exact ⟨⟨by omega, by omega, by omega, by omega, List.forall_mem_nil _⟩, deliver_inBounds _⟩
  · split
    · simp only [List.forall_mem_cons, Event.InBounds]
      exact ⟨by omega, List.forall_mem_nil _⟩
    · simp only [List.forall_mem_append, List.forall_mem_cons, Event.InBounds]
      exact ⟨⟨by omega, by omega, by omega, List.forall_mem_nil _⟩, deliver_inBounds _⟩

theorem inputFlow_inBounds (hlen : 4 ≤ f.len) : ∀ e ∈ (inputFlow cfg c f s).2, e.InBounds cfg f.len := by
  rw [inputFlow]
  dsimp only
  split
  · rw [List.forall_mem_append]
    exact ⟨frame_inBounds hlen _, radioSend_inBounds _ _⟩
  · exact frame_inBounds hlen _

variable [DecidableEq A]

/-! ## When a call is right -/

/-- A signalling command is as long as its code and its length tell. -/
def SignalOk (cfg : Config A) (sender : A) (f : Frame) (s : State A) : Prop :=
  5 ≤ f.len ∧
    (f.data 4 = l2capCodeCredit → (getChannelForAddr sender s).isSome →
      8 ≤ f.len ∧ (Mem.load 2 6 f.data = 4 → 12 ≤ f.len)) ∧
    (f.data 4 = l2capCodeConnReq → 8 ≤ f.len ∧ (Mem.load 2 6 f.data = 10 → s.count < cfg.l2capChannels → 18 ≤ f.len)) ∧
    (f.data 4 = l2capCodeConnUpdateRsp → 8 ≤ f.len ∧ (Mem.load 2 6 f.data = 2 → 10 ≤ f.len))

/-- A frame is right for the channel or the command it is for. -/
def RxOk (cfg : Config A) (sender : A) (f : Frame) (begins : Bool) (s : State A) : Prop :=
  if Mem.load 2 2 f.data = l2capSignalChannel then SignalOk cfg sender f s
  else match getChannelForCid (Mem.load 2 2 f.data) s with
    | none => 4 ≤ f.len
    | some c => FrameOk cfg (s.channels c).rx begins f

/-- The channels that `send` comes to before it meets a busy one. -/
@[grind =]
def targets (cfg : Config A) (receiver : A) (s : State A) : List Nat → List Nat
  | [] => []
  | i :: is =>
    if receiver = cfg.linkaddrNull ∨ receiver = (s.channels i).peerAddr then
      if (s.channels i).tx.sduLength > 0 then [] else i :: targets cfg receiver s is
    else targets cfg receiver s is

/-- The condition on a call: a frame is right, and an SDU can be sent on each channel that takes it. -/
def StepOk (cfg : Config A) (w : World A) : Action A → Prop
  | .rxEvent sender f begins => RxOk cfg sender f begins w.state
  | .txEvent _ => True
  | .send receiver data => data ≠ [] → data.length ≤ cfg.nodeMtu →
      ∀ c ∈ targets cfg receiver w.state (List.range w.state.count), SduOk cfg (w.state.channels c) data.length
  | .txProcess _ _ => True

instance instDecidableSignalOk (cfg : Config A) (sender : A) (f : Frame) (s : State A) : Decidable (SignalOk cfg sender f s) :=
  inferInstanceAs (Decidable (_ ∧ _ ∧ _ ∧ _))

instance instDecidableRxOk (cfg : Config A) (sender : A) (f : Frame) (begins : Bool) (s : State A) :
    Decidable (RxOk cfg sender f begins s) :=
  if h : Mem.load 2 2 f.data = l2capSignalChannel then
    decidable_of_iff (SignalOk cfg sender f s) (by unfold RxOk; rw [if_pos h])
  else
    match hc : getChannelForCid (Mem.load 2 2 f.data) s with
    | none => decidable_of_iff (4 ≤ f.len) (by unfold RxOk; rw [if_neg h, hc])
    | some c => decidable_of_iff (FrameOk cfg (s.channels c).rx begins f) (by unfold RxOk; rw [if_neg h, hc])

instance instDecidableStepOk (cfg : Config A) (w : World A) : (a : Action A) → Decidable (StepOk cfg w a)
  | .rxEvent sender f begins => inferInstanceAs (Decidable (RxOk cfg sender f begins w.state))
  | .txEvent _ => inferInstanceAs (Decidable True)
  | .send receiver data => inferInstanceAs (Decidable (data ≠ [] → data.length ≤ cfg.nodeMtu →
      ∀ c ∈ targets cfg receiver w.state (List.range w.state.count), SduOk cfg (w.state.channels c) data.length))
  | .txProcess _ _ => inferInstanceAs (Decidable True)

/-! ## The accesses of a call -/

def InBounds (cfg : Config A) (w : World A) (a : Action A) : Prop :=
  ∀ e ∈ (call cfg w.state a).2, e.InBounds cfg a.len

theorem signal_inBounds {sender : A} (h : SignalOk cfg sender f s) :
    ∀ e ∈ (inputL2capFrameSignalChannel cfg sender f s).2, e.InBounds cfg f.len := by
  obtain ⟨hcode, hcredit, hconn, hupdate⟩ := h
  unfold inputL2capFrameSignalChannel
  simp only [List.forall_mem_cons]
  refine ⟨hcode, ?_⟩
  split
  · rename_i hc
    unfold inputL2capCredit
    split
    · exact List.forall_mem_nil _
    · rename_i c hsome
      obtain ⟨hlen, hfields⟩ := hcredit hc (by rw [hsome]; rfl)
      split
      · simp only [List.forall_mem_cons, Event.InBounds]
        exact ⟨hlen, List.forall_mem_nil _⟩
      · rename_i h4
        have hall := hfields (not_not.1 h4)
        simp only [List.forall_mem_cons, Event.InBounds]
        exact ⟨hlen, by omega, hall, trivial, List.forall_mem_nil _⟩
  · split
    · rename_i hc
      obtain ⟨hlen, hfields⟩ := hconn hc
      unfold inputL2capConnReq
      dsimp only
      split
      · simp only [List.forall_mem_cons, Event.InBounds]
        exact ⟨by omega, hlen, List.forall_mem_nil _⟩
      · rename_i h10
        split
        · simp only [List.forall_mem_cons, Event.InBounds]
          exact ⟨by omega, hlen, List.forall_mem_nil _⟩
        · rename_i hroom
          have hall := hfields (not_not.1 h10) (by omega)
          simp only [List.forall_mem_append, List.forall_mem_cons, Event.InBounds]
          exact ⟨⟨⟨by omega, hlen, List.forall_mem_nil _⟩, by omega, by omega, by omega, by omega, hall, trivial,
            List.forall_mem_nil _⟩, radioSend_inBounds _ _⟩
    · split
      · rename_i hc
        obtain ⟨hlen, hfields⟩ := hupdate hc
        unfold inputL2capConnectionUpdateResp
        split
        · simp only [List.forall_mem_cons, Event.InBounds]
          exact ⟨hlen, List.forall_mem_nil _⟩
        · rename_i h2
          have hall := hfields (not_not.1 h2)
          simp only [List.forall_mem_cons, Event.InBounds]
          exact ⟨hlen, hall, List.forall_mem_nil _⟩
      · exact List.forall_mem_nil _

theorem rx_inBounds {sender : A} {begins : Bool} (h : RxOk cfg sender f begins s) :
    ∀ e ∈ (inputRx cfg sender f s).2, e.InBounds cfg f.len := by
  unfold inputRx
  unfold RxOk at h
  simp only [List.forall_mem_cons]
  split at h
  · rename_i hsignal
    rw [if_pos hsignal]
    refine ⟨?_, signal_inBounds h⟩
    have hlen := h.1
    unfold Event.InBounds
    omega
  · rename_i hsignal
    rw [if_neg hsignal]
    revert h
    cases getChannelForCid (Mem.load 2 2 f.data) s with
    | none =>
      intro h
      exact ⟨h, List.forall_mem_nil _⟩
    | some c =>
      intro h
      exact ⟨h.1, inputFlow_inBounds h.1⟩

theorem sendLoop_events (receiver : A) (data : List UInt8) : ∀ (is : List Nat) (s : State A),
    ∀ e ∈ (sendLoop cfg receiver data is s).2, e.InBounds cfg 0
  | [], _ => List.forall_mem_nil _
  | i :: is, s => by
    unfold sendLoop
    dsimp only
    split
    · split
      · simp only [List.forall_mem_cons, Event.InBounds]
        exact ⟨trivial, List.forall_mem_nil _⟩
      · split
        · simp only [List.forall_mem_append, List.forall_mem_cons, Event.InBounds]
          exact ⟨⟨trivial, trivial, trivial, List.forall_mem_nil _⟩, sendLoop_events receiver data is _⟩
        · exact sendLoop_events receiver data is _
    · exact sendLoop_events receiver data is _

theorem step_inBounds (h : StepOk cfg w a) : InBounds cfg w a := by
  unfold InBounds
  cases a with
  | rxEvent sender f begins => exact rx_inBounds h
  | txEvent receiver =>
    unfold call inputTx
    dsimp only
    split
    · exact List.forall_mem_nil _
    · split
      · simp only [List.forall_mem_cons, Event.InBounds]
        exact ⟨trivial, List.forall_mem_nil _⟩
      · exact List.forall_mem_nil _
  | send receiver data =>
    unfold call send
    dsimp only
    split
    · simp only [List.forall_mem_cons, Event.InBounds]
      exact ⟨trivial, List.forall_mem_nil _⟩
    · exact sendLoop_events receiver data _ _
  | txProcess c numBuffer =>
    unfold call txProcess
    dsimp only
    split_ifs <;> simp only [List.forall_mem_singleton, Event.InBounds, List.not_mem_nil, false_implies, implies_true]

end

/-!
What each call leaves of the channels: which of them get a frame, which SDUs they take to send them, and what stays.
-/

section

open Contiki.Lib

variable {A : Type} {cfg : Config A} {c d : Nat} {f : Frame} {s : State A} {w w' : World A} {a : Action A}
  {r : State A × List (Event A)}

/-! ## Events -/

@[grind =]
def Event.Plain : Event A → Prop
  | .networkInput _ _ | .fragment _ _ | .granted _ _ | .accepted _ _ => False
  | _ => True

theorem plain_nothing {log : List (Event A)} (h : ∀ e ∈ log, e.Plain) :
    delivered d log = [] ∧ emitted d log = [] ∧ accepted d log = [] ∧ granted d log = 0 := by
  induction log with
  | nil => exact ⟨rfl, rfl, rfl, rfl⟩
  | cons e log ih =>
    obtain ⟨hd, he, ha, hg⟩ := ih fun e' h' => h e' (List.mem_cons_of_mem _ h')
    have hplain := h e List.mem_cons_self
    cases e <;> first | exact absurd hplain id | exact ⟨hd, he, ha, hg⟩

/-- The events of a frame of a channel: plain ones, then perhaps the SDU. -/
theorem frame_events (cfg : Config A) (c d : Nat) (f : Frame) (rx : Buffer) :
    emitted d (inputL2capFrameFlowChannel cfg c f rx).2 = [] ∧ accepted d (inputL2capFrameFlowChannel cfg c f rx).2 = [] ∧
      granted d (inputL2capFrameFlowChannel cfg c f rx).2 = 0 ∧
      (d ≠ c → delivered d (inputL2capFrameFlowChannel cfg c f rx).2 = []) := by
  have hdeliver : ∀ rx : Buffer, emitted d (deliver cfg c f rx).2 = [] ∧ accepted d (deliver cfg c f rx).2 = [] ∧
      granted d (deliver cfg c f rx).2 = 0 ∧ (d ≠ c → delivered d (deliver cfg c f rx).2 = []) := by
    intro rx
    unfold deliver
    split_ifs
    · exact ⟨rfl, rfl, rfl, fun _ => rfl⟩
    · exact ⟨rfl, rfl, rfl, fun hne => by simp [delivered, Ne.symm hne]⟩
    · exact ⟨rfl, rfl, rfl, fun _ => rfl⟩
  unfold inputL2capFrameFlowChannel
  dsimp only
  split_ifs
  · exact ⟨rfl, rfl, rfl, fun _ => rfl⟩
  · exact ⟨rfl, rfl, rfl, fun _ => rfl⟩
  · exact hdeliver _
  · exact ⟨rfl, rfl, rfl, fun _ => rfl⟩
  · exact hdeliver _

/-! ## Received frames -/

/-- The frames among a list of calls whose channel id is that of a channel. -/
def framesOn (c : Nat) (as : List (Action A)) : List (Bool × Frame) :=
  as.filterMap fun
    | .rxEvent _ f begins => if Mem.load 2 2 f.data = l2capFlowChannel + c then some (begins, f) else none
    | _ => none

/-- What a call leaves of the receive side of a channel. -/
structure Receives (cfg : Config A) (s : State A) (a : Action A) (r : State A × List (Event A)) (d : Nat) : Prop where
  used : d < s.count → (r.1.channels d).rx = (receive cfg d (s.channels d).rx ((framesOn d [a]).map Prod.snd)).1 ∧
    delivered d r.2 = (receive cfg d (s.channels d).rx ((framesOn d [a]).map Prod.snd)).2
  unused : s.count ≤ d → (r.1.channels d).rx = (s.channels d).rx

/-- What a call that sends nothing leaves of the transmit side. -/
structure KeepsTx (s : State A) (r : State A × List (Event A)) (d : Nat) : Prop where
  tx : (r.1.channels d).tx = (s.channels d).tx
  ownMps : (r.1.channels d).own.mps = (s.channels d).own.mps
  peerMps : d < s.count → (r.1.channels d).peer.mps = (s.channels d).peer.mps
  credits : (r.1.channels d).peer.credits ≤ (s.channels d).peer.credits + granted d r.2
  emitted : emitted d r.2 = []
  accepted : accepted d r.2 = []

theorem Receives.of_same (hf : framesOn d [a] = []) (hrx : (r.1.channels d).rx = (s.channels d).rx)
    (hd : delivered d r.2 = []) : Receives cfg s a r d := by
  refine ⟨fun _ => ?_, fun _ => hrx⟩
  rw [hf]
  exact ⟨hrx, hd⟩

theorem KeepsTx.of_plain (h : ∀ e ∈ r.2, e.Plain) (hs : r.1.channels d = s.channels d) : KeepsTx s r d := by
  obtain ⟨-, he, ha, hg⟩ := plain_nothing (d := d) h
  refine ⟨by rw [hs], by rw [hs], fun _ => by rw [hs], ?_, he, ha⟩
  rw [hs]
  omega

theorem Receives.read {offset n : Nat} (h : Receives cfg s a r d) : Receives cfg s a (r.1, .frameRead offset n :: r.2) d :=
  ⟨h.used, h.unused⟩

theorem KeepsTx.read {offset n : Nat} (h : KeepsTx s r d) : KeepsTx s (r.1, .frameRead offset n :: r.2) d :=
  ⟨h.tx, h.ownMps, h.peerMps, h.credits, h.emitted, h.accepted⟩

theorem radioSend_plain (receiver : A) (frame : List UInt8) : ∀ e ∈ radioSend cfg receiver frame, e.Plain := by
  unfold radioSend
  simp only [List.forall_mem_cons, Event.Plain, true_and]
  exact List.forall_mem_nil _

theorem inputFlow_spec (cfg : Config A) (c : Nat) (f : Frame) (s : State A) (d : Nat) :
    KeepsTx s (inputFlow cfg c f s) d ∧ (inputFlow cfg c f s).1.count = s.count ∧
      ((inputFlow cfg c f s).1.channels d).rx =
        (if d = c then (inputL2capFrameFlowChannel cfg c f (s.channels c).rx).1 else (s.channels d).rx) ∧
      delivered d (inputFlow cfg c f s).2 =
        if d = c then delivered c (inputL2capFrameFlowChannel cfg c f (s.channels c).rx).2 else [] := by
  obtain ⟨he, ha, hg, hne⟩ := frame_events cfg c d f (s.channels c).rx
  have hradio : ∀ (receiver : A) (frame : List UInt8), delivered d (radioSend cfg receiver frame) = [] ∧
      emitted d (radioSend cfg receiver frame) = [] ∧ accepted d (radioSend cfg receiver frame) = [] ∧
      granted d (radioSend cfg receiver frame) = 0 := fun receiver frame => plain_nothing (radioSend_plain receiver frame)
  unfold inputFlow sendL2capCredit
  dsimp only
  by_cases hdc : d = c
  · subst hdc
    simp only [if_true]
    split
    · refine ⟨⟨?_, ?_, fun _ => ?_, ?_, ?_, ?_⟩, rfl, ?_, ?_⟩
      all_goals simp only [set_self, delivered_append, emitted_append, accepted_append, hradio, he, ha, List.append_nil]
      exact Nat.le_add_right _ _
    · refine ⟨⟨?_, ?_, fun _ => ?_, ?_, he, ha⟩, rfl, ?_, rfl⟩
      all_goals simp only [set_self]
      exact Nat.le_add_right _ _
  · simp only [if_neg hdc]
    split
    · refine ⟨⟨?_, ?_, fun _ => ?_, ?_, ?_, ?_⟩, rfl, ?_, ?_⟩
      all_goals simp only [set_ne _ _ hdc, delivered_append, emitted_append, accepted_append, hradio, he, ha, hne hdc,
        List.append_nil]
      exact Nat.le_add_right _ _
    · refine ⟨⟨?_, ?_, fun _ => ?_, ?_, he, ha⟩, rfl, ?_, hne hdc⟩
      all_goals simp only [set_ne _ _ hdc]
      exact Nat.le_add_right _ _

variable [DecidableEq A]

theorem count_of_signal (cfg : Config A) (sender : A) (f : Frame) (s : State A) :
    s.count ≤ (inputL2capFrameSignalChannel cfg sender f s).1.count ∧
      (s.count ≤ cfg.l2capChannels → (inputL2capFrameSignalChannel cfg sender f s).1.count ≤ cfg.l2capChannels) := by
  unfold inputL2capFrameSignalChannel inputL2capCredit inputL2capConnReq
  dsimp only
  split
  · split
    · exact ⟨le_rfl, id⟩
    · split
      · exact ⟨le_rfl, id⟩
      · exact ⟨le_rfl, id⟩
  · split
    · split
      · exact ⟨le_rfl, id⟩
      · split
        · exact ⟨le_rfl, id⟩
        · exact ⟨Nat.le_succ _, fun _ => by dsimp only; omega⟩
    · split
      · exact ⟨le_rfl, id⟩
      · exact ⟨le_rfl, id⟩

theorem signal_keeps (cfg : Config A) (sender : A) (f : Frame) (s : State A) (d : Nat) :
    KeepsTx s (inputL2capFrameSignalChannel cfg sender f s) d ∧
      ((inputL2capFrameSignalChannel cfg sender f s).1.channels d).rx = (s.channels d).rx ∧
      delivered d (inputL2capFrameSignalChannel cfg sender f s).2 = [] := by
  have hsame : ∀ log : List (Event A), (∀ e ∈ log, e.Plain) →
      KeepsTx s (s, log) d ∧ (s.channels d).rx = (s.channels d).rx ∧ delivered d log = [] :=
    fun log hlog => ⟨KeepsTx.of_plain hlog rfl, rfl, (plain_nothing hlog).1⟩
  unfold inputL2capFrameSignalChannel
  dsimp only
  split
  · unfold inputL2capCredit
    split
    · exact hsame _ (by simp [Event.Plain])
    · rename_i c _
      split
      · exact hsame _ (by simp [Event.Plain])
      · by_cases hdc : d = c
        · subst hdc
          refine ⟨⟨?_, ?_, fun _ => ?_, ?_, rfl, rfl⟩, ?_, rfl⟩
          · rw [set_self]
          · rw [set_self]
          · rw [set_self]
          · rw [set_self]
            simp only [granted, List.filterMap_cons, List.filterMap_nil, if_true, List.sum_singleton]
            exact Nat.mod_le _ _
          · rw [set_self]
        · refine ⟨⟨?_, ?_, fun _ => ?_, ?_, rfl, rfl⟩, ?_, rfl⟩
          all_goals rw [set_ne _ _ hdc]
          exact Nat.le_add_right _ _
  · split
    · unfold inputL2capConnReq
      dsimp only
      split
      · exact hsame _ (by simp [Event.Plain])
      · split
        · exact hsame _ (by simp [Event.Plain])
        · by_cases hdc : d = s.count
          · subst hdc
            refine ⟨⟨?_, ?_, fun hlt => absurd hlt (lt_irrefl _), ?_, rfl, rfl⟩, ?_, rfl⟩
            all_goals simp only [State.set, Function.update_self]
            simp [granted, radioSend]
          · refine ⟨⟨?_, ?_, fun _ => ?_, ?_, rfl, rfl⟩, ?_, rfl⟩
            all_goals simp only [State.set, Function.update_of_ne hdc]
            exact Nat.le_add_right _ _
    · split
      · refine hsame _ ?_
        unfold inputL2capConnectionUpdateResp
        split <;> simp [Event.Plain]
      · exact hsame _ (by simp [Event.Plain])

theorem inputRx_spec (sender : A) (f : Frame) (begins : Bool) (hcount : s.count ≤ cfg.l2capChannels) (d : Nat) :
    Receives cfg s (.rxEvent sender f begins) (inputRx cfg sender f s) d ∧ KeepsTx s (inputRx cfg sender f s) d ∧
      s.count ≤ (inputRx cfg sender f s).1.count ∧ (inputRx cfg sender f s).1.count ≤ cfg.l2capChannels := by
  have hlt := cfg.channels_lt
  have hcid : Mem.load 2 2 f.data < 2 ^ 16 := Mem.load_lt 2 2 f.data
  unfold inputRx
  dsimp only
  by_cases hsignal : Mem.load 2 2 f.data = l2capSignalChannel
  · rw [if_pos hsignal]
    obtain ⟨hk, hrx, hd⟩ := signal_keeps cfg sender f s d
    obtain ⟨hle, hroom⟩ := count_of_signal cfg sender f s
    have hnone : framesOn d [Action.rxEvent sender f begins] = [] := by
      have hne : Mem.load 2 2 f.data ≠ l2capFlowChannel + d := by
        rw [hsignal]
        unfold l2capSignalChannel l2capFlowChannel
        omega
      simp [framesOn, hne]
    exact ⟨(Receives.of_same hnone hrx hd).read, hk.read, hle, hroom hcount⟩
  · rw [if_neg hsignal]
    cases hget : getChannelForCid (Mem.load 2 2 f.data) s with
    | none =>
      refine ⟨⟨fun hd => ?_, fun _ => rfl⟩, KeepsTx.of_plain (by simp [Event.Plain]) rfl, le_rfl, hcount⟩
      have hne : Mem.load 2 2 f.data ≠ l2capFlowChannel + d := fun heq => by
        have hsome := (getChannelForCid_eq (s := s) (c := d) _ hcid (by omega)).2 ⟨heq, hd⟩
        rw [hget] at hsome
        cases hsome
      have hnone : framesOn d [Action.rxEvent sender f begins] = [] := by simp [framesOn, hne]
      rw [hnone]
      exact ⟨rfl, rfl⟩
    | some c =>
      obtain ⟨heq, hc⟩ := (getChannelForCid_eq _ hcid (by omega)).1 hget
      obtain ⟨hk, hn, hrx, hd⟩ := inputFlow_spec cfg c f s d
      dsimp only
      have hr : Receives cfg s (.rxEvent sender f begins) (inputFlow cfg c f s) d := by
        refine ⟨fun hlt => ?_, fun hge => ?_⟩
        · by_cases hdc : d = c
          · subst hdc
            rw [if_pos rfl] at hrx hd
            have hone : framesOn d [Action.rxEvent sender f begins] = [(begins, f)] := by simp [framesOn, heq]
            rw [hone]
            simp only [List.map_cons, List.map_nil, receive, List.append_nil]
            exact ⟨hrx, hd⟩
          · rw [if_neg hdc] at hrx hd
            have hne : Mem.load 2 2 f.data ≠ l2capFlowChannel + d := by omega
            have hnone : framesOn d [Action.rxEvent sender f begins] = [] := by simp [framesOn, hne]
            rw [hnone]
            exact ⟨hrx, hd⟩
        · rw [if_neg (by omega)] at hrx
          exact hrx
      exact ⟨hr.read, hk.read, hn.ge, hn.trans_le hcount⟩

/-! ## SDUs that are sent -/

structure Takes (s : State A) (data : List UInt8) (r : State A × List (Event A)) (d : Nat) : Prop where
  idle : (s.channels d).tx.sduLength = 0
  some : 0 < data.length
  tx : (r.1.channels d).tx = { (s.channels d).tx with
    sduLength := data.length
    sdu := Mem.paste 0 data.length (fun k => data.getD k 0) (s.channels d).tx.sdu }
  accepted : accepted d r.2 = [data]

/-- The loop of `send` changes the transmit buffers of channels that take the SDU. -/
structure Loops (s : State A) (data : List UInt8) (r : State A × List (Event A)) (ts : List Nat) (d : Nat) : Prop where
  rx : (r.1.channels d).rx = (s.channels d).rx
  own : (r.1.channels d).own = (s.channels d).own
  peer : (r.1.channels d).peer = (s.channels d).peer
  delivered : delivered d r.2 = []
  emitted : emitted d r.2 = []
  granted : granted d r.2 = 0
  tx : ((r.1.channels d).tx = (s.channels d).tx ∧ accepted d r.2 = []) ∨ (d ∈ ts ∧ Takes s data r d)

theorem targets_congr (receiver : A) {s s' : State A} : ∀ (is : List Nat), (∀ i ∈ is, s'.channels i = s.channels i) →
    targets cfg receiver s' is = targets cfg receiver s is
  | [], _ => rfl
  | i :: is, h => by
    simp only [targets, h i List.mem_cons_self,
      targets_congr receiver is fun j hj => h j (List.mem_cons_of_mem _ hj)]

theorem targets_subset (receiver : A) (s : State A) : ∀ (is : List Nat), ∀ i ∈ targets cfg receiver s is, i ∈ is
  | [], _, h => h
  | i :: is, j, h => by
    unfold targets at h
    split at h
    · split at h
      · exact absurd h List.not_mem_nil
      · rcases List.mem_cons.1 h with rfl | h
        · exact List.mem_cons_self
        · exact List.mem_cons_of_mem _ (targets_subset receiver s is j h)
    · exact List.mem_cons_of_mem _ (targets_subset receiver s is j h)

theorem sendLoop_spec (receiver : A) (data : List UInt8) : ∀ (is : List Nat) (s : State A) (d : Nat), is.Nodup →
    Loops s data (sendLoop cfg receiver data is s) (targets cfg receiver s is) d ∧
      (sendLoop cfg receiver data is s).1.count = s.count
  | [], s, d, _ => ⟨⟨rfl, rfl, rfl, rfl, rfl, rfl, .inl ⟨rfl, rfl⟩⟩, rfl⟩
  | i :: is, s, d, hnd => by
    obtain ⟨hi, hnd⟩ := List.nodup_cons.1 hnd
    unfold sendLoop targets
    dsimp only
    split
    · split
      · exact ⟨⟨rfl, rfl, rfl, rfl, rfl, rfl, .inl ⟨rfl, rfl⟩⟩, rfl⟩
      · rename_i hidle
        have hsame : ∀ (ch : Channel A), targets cfg receiver (s.set i ch) is = targets cfg receiver s is :=
          fun ch => targets_congr receiver is fun j hj => set_ne _ _ fun h => hi (h ▸ hj)
        split
        · rename_i hpos
          obtain ⟨ih, hcount⟩ := sendLoop_spec receiver data is
            (s.set i { s.channels i with tx :=
              { (s.channels i).tx with
                sduLength := data.length
                sdu := Mem.paste 0 data.length (fun k => data.getD k 0) (s.channels i).tx.sdu } }) d hnd
          rw [hsame] at ih
          refine ⟨?_, hcount⟩
          by_cases hdi : d = i
          · subst hdi
            -- the rest of the loop does not come to this channel again
            have htx := ih.tx.resolve_right fun h => hi (targets_subset receiver s is d h.1)
            rw [set_self] at htx
            refine ⟨by simpa using ih.rx, by simpa using ih.own, by simpa using ih.peer, ih.delivered, ih.emitted, ih.granted,
              .inr ⟨List.mem_cons_self, by omega, hpos, htx.1, ?_⟩⟩
            have hacc := htx.2
            simp only [accepted, List.filterMap_append, List.filterMap_cons, if_true, List.filterMap_nil] at hacc ⊢
            rw [hacc]
            rfl
          · have hacc : accepted d ([.accepted i data, .sentCallback .deferred 1, .post i] : List (Event A)) = [] := by
              simp [accepted, Ne.symm hdi]
            refine ⟨by simpa [set_ne _ _ hdi] using ih.rx, by simpa [set_ne _ _ hdi] using ih.own,
              by simpa [set_ne _ _ hdi] using ih.peer, ih.delivered, ih.emitted, ih.granted, ?_⟩
            rcases ih.tx with ⟨htx, ha⟩ | ⟨hmem, ht⟩
            · refine .inl ⟨by simpa [set_ne _ _ hdi] using htx, ?_⟩
              rw [accepted_append, hacc, ha]
              rfl
            · refine .inr ⟨List.mem_cons_of_mem _ hmem, by simpa [set_ne _ _ hdi] using ht.idle, hpos,
                by simpa [set_ne _ _ hdi] using ht.tx, ?_⟩
              rw [accepted_append, hacc, ht.accepted]
              rfl
        · rename_i hzero
          -- an empty packet leaves an idle channel as it was
          have hback : s.set i { s.channels i with tx := { (s.channels i).tx with sduLength := data.length } } = s := by
            have hlen : data.length = (s.channels i).tx.sduLength := by omega
            unfold State.set
            rw [hlen, Function.update_eq_self]
          rw [hback]
          obtain ⟨ih, hcount⟩ := sendLoop_spec receiver data is s d hnd
          exact ⟨⟨ih.rx, ih.own, ih.peer, ih.delivered, ih.emitted, ih.granted,
            ih.tx.imp id fun h => ⟨List.mem_cons_of_mem _ h.1, h.2⟩⟩, hcount⟩
    · exact sendLoop_spec receiver data is s d hnd

end

end Contiki.L2cap

/-
Where frames are right for their channel and every SDU to send has room in its fragments, each call of a run keeps its
accesses in bounds, each SDU that is received is delivered whatever came before, and the fragments that are sent follow the
MPS and the credits of the peer and make up the SDUs again.
-/
import Contiki.L2cap.System

namespace Contiki.L2cap

open Contiki.Lib

variable {A : Type} {cfg : Config A} {c d : Nat} {s : State A} {w w' : World A} {a : Action A} {ch ch' : Channel A}
  {taken frames : List (List UInt8)} {credits : Nat}

/-! ## Frames one after the other -/

theorem framesOn_cons (c : Nat) (a : Action A) (as : List (Action A)) :
    framesOn c (a :: as) = framesOn c [a] ++ framesOn c as := by
  unfold framesOn
  rw [← List.filterMap_append]
  rfl

theorem framesOk_append : ∀ {fs gs : List (Bool × Frame)} {rx : Buffer}, FramesOk cfg d rx fs →
    FramesOk cfg d (receive cfg d rx (fs.map Prod.snd)).1 gs → FramesOk cfg d rx (fs ++ gs)
  | [], _, _, _, hg => hg
  | _ :: _, _, _, hf, hg => ⟨hf.1, framesOk_append hf.2 hg⟩

theorem FramesOk.opened : ∀ {fs : List (Bool × Frame)} {rx : Buffer}, FramesOk cfg d rx fs → rx.Open →
    (receive cfg d rx (fs.map Prod.snd)).1.Open
  | [], _, _, ho => ho
  | _ :: _, _, h, ho => by
    have hrest := FramesOk.opened h.2 (h.1.open ho)
    exact hrest

/-! ## The transmit side of a channel -/

/-- A channel that took the SDUs `taken` and sent `frames`, when `credits` were given to it. -/
structure Sends (cfg : Config A) (ch : Channel A) (taken frames : List (List UInt8)) (credits : Nat) : Prop where
  sending : ch.Sending cfg
  told : ∃ done, taken = done ++ ch.tx.pending ∧ Tells cfg frames done ch.tx
  credits : ch.peer.credits + frames.length ≤ credits
  mps : ∀ frame ∈ frames, frame.length ≤ ch.peer.mps
  ownMps : ch.own.mps < 2 ^ 16

theorem Sends.keep (h : Sends cfg ch taken frames credits) (htx : ch'.tx = ch.tx) (hown : ch'.own.mps = ch.own.mps)
    (hmps : ch'.peer.mps = ch.peer.mps ∨ ch.tx.sduLength = 0 ∧ frames = []) {n : Nat}
    (hn : ch'.peer.credits ≤ ch.peer.credits + n) : Sends cfg ch' taken frames (credits + n) := by
  have hcredits := h.credits
  refine ⟨?_, ?_, by omega, ?_, hown ▸ h.ownMps⟩
  · rcases hmps with hmps | ⟨hidle, -⟩
    · have hs := h.sending
      unfold Channel.Sending SduOk Channel.usedMps at hs ⊢
      rw [htx, hown, hmps]
      exact hs
    · rcases h.sending with hs | ⟨hlt, -⟩
      · unfold Channel.Sending
        rw [htx]
        exact .inl hs
      · omega
  · rw [htx]
    exact h.told
  · rcases hmps with hmps | ⟨-, rfl⟩
    · rw [hmps]
      exact h.mps
    · exact List.forall_mem_nil _

theorem upTo_paste (data : List UInt8) (m : Mem) (k : Nat) :
    Buffer.upTo ⟨Mem.paste 0 data.length (fun i => data.getD i 0) m, data.length, k⟩ data.length = data := by
  unfold Buffer.upTo
  dsimp only
  have hpaste := @Mem.read_paste data.length 0 0 m fun i => data.getD i 0
  simp only [Nat.zero_add] at hpaste
  rw [hpaste]
  refine Mem.read_of_holds (Mem.holds_iff.2 fun i hi => ?_)
  rw [Nat.zero_add, List.getD_eq_getElem?_getD, List.getElem?_eq_getElem hi]
  rfl

theorem Sends.take {data : List UInt8} {r : State A × List (Event A)} (h : Sends cfg (s.channels d) taken frames credits)
    (ht : Takes s data r d) (hlen : data.length ≤ cfg.nodeMtu) (hok : SduOk cfg (s.channels d) data.length)
    (hown : (r.1.channels d).own = (s.channels d).own) (hpeer : (r.1.channels d).peer = (s.channels d).peer) :
    Sends cfg (r.1.channels d) (taken ++ [data]) frames credits := by
  have hidle := ht.idle
  have hpos := ht.some
  have hcur : (s.channels d).tx.currentIndex = 0 := by
    rcases h.sending with hs | hs
    · exact hs.2
    · omega
  refine ⟨.inr ?_, ?_, by rw [hpeer]; exact h.credits, by rw [hpeer]; exact h.mps, by rw [hown]; exact h.ownMps⟩
  · unfold SduOk Channel.usedMps at hok ⊢
    rw [ht.tx, hown, hpeer]
    dsimp only
    rw [hcur]
    exact ⟨hpos, hlen, hok, .zero⟩
  · obtain ⟨done, rfl, htells⟩ := h.told
    refine ⟨done, ?_, fun c rx fs hrx hfs => ?_⟩
    · unfold Buffer.pending
      rw [if_pos hidle, ht.tx]
      dsimp only
      rw [if_neg (by omega), upTo_paste, List.append_nil]
    · obtain ⟨hdone, hmirror⟩ := htells c rx fs hrx hfs
      unfold Buffer.Mirrors at hmirror ⊢
      rw [if_pos hcur] at hmirror
      rw [ht.tx]
      dsimp only
      rw [if_pos hcur]
      exact ⟨hdone, hmirror⟩

theorem Sends.send (h : Sends cfg ch taken frames credits) (hpos : 0 < ch.tx.sduLength) (hcredit : 0 < ch.peer.credits) :
    Sends cfg (ch.sent ch.nextLen) taken (frames ++ [ch.nextFragment ch.nextLen]) credits := by
  obtain ⟨done, htaken, htells⟩ := h.told
  obtain ⟨done', hdone, htells'⟩ := htells.sent h.sending hpos
  have hcredits := h.credits
  refine ⟨h.sending.sent hpos, ⟨done', htaken.trans hdone.symm, htells'⟩, ?_, ?_, h.ownMps⟩
  · rw [List.length_append, List.length_singleton]
    unfold Channel.sent
    dsimp only
    omega
  · intro frame hmem
    rcases List.mem_append.1 hmem with hmem | hmem
    · exact h.mps frame hmem
    · rw [List.mem_singleton.1 hmem]
      exact (h.sending.next hpos).mps

/-- Channels that are not in use took nothing and sent nothing. -/
structure Inv (cfg : Config A) (w : World A) : Prop where
  count : w.state.count ≤ cfg.l2capChannels
  opened : ∀ c, (w.state.channels c).rx.Open
  sends : ∀ c, Sends cfg (w.state.channels c) (accepted c w.log) (emitted c w.log) (granted c w.log)
  unused : ∀ c, w.state.count ≤ c → (w.state.channels c).tx.sduLength = 0 ∧ emitted c w.log = []

theorem Inv.init (cfg : Config A) : Inv cfg (World.init cfg) := by
  refine ⟨Nat.zero_le _, fun c => .inl rfl, fun c => ⟨.inl ⟨rfl, rfl⟩, ⟨[], rfl, ?_⟩, le_rfl, List.forall_mem_nil _,
    Nat.mod_lt _ (by decide)⟩, fun c _ => ⟨rfl, rfl⟩⟩
  intro k rx fs hrx hfs
  rw [List.map_eq_nil_iff.1 (show fs.map Frame.bytes = [] from hfs)]
  exact ⟨rfl, hrx⟩

variable [DecidableEq A]

/-! ## The receive side of a run -/

theorem call_receives (cfg : Config A) (s : State A) (a : Action A) (hcount : s.count ≤ cfg.l2capChannels) (d : Nat) :
    Receives cfg s a (call cfg s a) d ∧ s.count ≤ (call cfg s a).1.count ∧ (call cfg s a).1.count ≤ cfg.l2capChannels := by
  cases a with
  | rxEvent sender f begins =>
    obtain ⟨hr, -, hle, hroom⟩ := inputRx_spec sender f begins hcount d
    exact ⟨hr, hle, hroom⟩
  | txEvent receiver =>
    unfold call inputTx
    dsimp only
    split
    · exact ⟨.of_same rfl rfl rfl, le_rfl, hcount⟩
    · split
      · exact ⟨.of_same rfl rfl rfl, le_rfl, hcount⟩
      · exact ⟨.of_same rfl rfl rfl, le_rfl, hcount⟩
  | send receiver data =>
    unfold call send
    dsimp only
    split
    · exact ⟨.of_same rfl rfl rfl, le_rfl, hcount⟩
    · obtain ⟨hl, hn⟩ := @sendLoop_spec A cfg _ receiver data (List.range s.count) s d List.nodup_range
      exact ⟨.of_same rfl hl.rx hl.delivered, hn.ge, hn.trans_le hcount⟩
  | txProcess c numBuffer =>
    have hset : ∀ ch : Channel A, ch.rx = (s.channels c).rx → ((s.set c ch).channels d).rx = (s.channels d).rx := by
      intro ch hrx
      by_cases hdc : d = c
      · subst hdc
        rw [set_self, hrx]
      · rw [set_ne _ _ hdc]
    unfold call txProcess
    dsimp only
    split
    · split_ifs
      all_goals first
        | exact ⟨.of_same rfl rfl rfl, le_rfl, hcount⟩
        | exact ⟨.of_same rfl (hset _ rfl) rfl, le_rfl, hcount⟩
    · exact ⟨.of_same rfl rfl rfl, le_rfl, hcount⟩

theorem step_some (h : step cfg w a = some w') :
    Enabled cfg w.state a ∧ w'.state = (call cfg w.state a).1 ∧ w'.log = w.log ++ (call cfg w.state a).2 := by
  unfold step at h
  split at h
  · rename_i hen
    cases h
    exact ⟨hen, rfl, rfl⟩
  · cases h

theorem step_count (hcount : w.state.count ≤ cfg.l2capChannels) (h : step cfg w a = some w') :
    w'.state.count ≤ cfg.l2capChannels := by
  obtain ⟨-, hs, -⟩ := step_some h
  rw [hs]
  exact (call_receives cfg w.state a hcount 0).2.2

theorem run_count {as : List (Action A)} (h : exec (step cfg) (World.init cfg) as = some w) :
    w.state.count ≤ cfg.l2capChannels :=
  exec_invariant (fun _ _ _ => step_count) as (Nat.zero_le _) h

theorem run_receive : ∀ (as : List (Action A)) {w w' : World A}, w.state.count ≤ cfg.l2capChannels → d < w.state.count →
    exec (step cfg) w as = some w' → delivered d w'.log =
      delivered d w.log ++ (receive cfg d (w.state.channels d).rx ((framesOn d as).map Prod.snd)).2
  | [], w, w', _, _, h => by
    cases h
    simp [framesOn, receive]
  | a :: as, w, w', hcount, hd, h => by
    obtain ⟨w₁, hstep, hrest⟩ := exec_cons_some h
    obtain ⟨-, hs, hlog⟩ := step_some hstep
    obtain ⟨hr, hle, -⟩ := call_receives cfg w.state a hcount d
    obtain ⟨hrx, hdel⟩ := hr.used hd
    rw [run_receive as (step_count hcount hstep) (by rw [hs]; omega) hrest, framesOn_cons, List.map_append, receive_append,
      hlog, hs, hrx, delivered_append, hdel, List.append_assoc]

/-! ## The condition along a run -/

theorem stepOk_frames (h : StepOk cfg w a) (hcount : w.state.count ≤ cfg.l2capChannels) (hd : d < w.state.count) :
    FramesOk cfg d (w.state.channels d).rx (framesOn d [a]) := by
  cases a with
  | rxEvent sender f begins =>
    have hlt := cfg.channels_lt
    by_cases hcid : Mem.load 2 2 f.data = l2capFlowChannel + d
    · have hone : framesOn d [Action.rxEvent sender f begins] = [(begins, f)] := by simp [framesOn, hcid]
      have hget := (getChannelForCid_eq (s := w.state) (c := d) _ (Mem.load_lt 2 2 f.data) (by omega)).2 ⟨hcid, hd⟩
      have hsignal : Mem.load 2 2 f.data ≠ l2capSignalChannel := by
        rw [hcid]
        unfold l2capSignalChannel l2capFlowChannel
        omega
      have hrx : RxOk cfg sender f begins w.state := h
      unfold RxOk at hrx
      rw [if_neg hsignal, hget] at hrx
      rw [hone]
      exact ⟨hrx, trivial⟩
    · have hnone : framesOn d [Action.rxEvent sender f begins] = [] := by simp [framesOn, hcid]
      rw [hnone]
      trivial
  | txEvent receiver => trivial
  | send receiver data => trivial
  | txProcess c numBuffer => trivial

theorem run_framesOk : ∀ (as : List (Action A)) {w w' : World A}, w.state.count ≤ cfg.l2capChannels → d < w.state.count →
    AllSteps (step cfg) (StepOk cfg) w as → exec (step cfg) w as = some w' →
    FramesOk cfg d (w.state.channels d).rx (framesOn d as)
  | [], _, _, _, _, _, _ => trivial
  | a :: as, w, w', hcount, hd, hok, h => by
    obtain ⟨w₁, hstep, hrest⟩ := exec_cons_some h
    obtain ⟨-, hs, -⟩ := step_some hstep
    obtain ⟨hr, hle, -⟩ := call_receives cfg w.state a hcount d
    rw [framesOn_cons]
    refine framesOk_append (stepOk_frames hok.1 hcount hd) ?_
    rw [← (hr.used hd).1, ← hs]
    exact run_framesOk as (step_count hcount hstep) (by rw [hs]; omega) (hok.2 w₁ hstep) hrest

theorem step_open (hcount : w.state.count ≤ cfg.l2capChannels) (hok : StepOk cfg w a) (h : step cfg w a = some w')
    (ho : ∀ d, (w.state.channels d).rx.Open) (d : Nat) : (w'.state.channels d).rx.Open := by
  obtain ⟨-, hs, -⟩ := step_some h
  obtain ⟨hr, -, -⟩ := call_receives cfg w.state a hcount d
  rw [hs]
  by_cases hd : d < w.state.count
  · rw [(hr.used hd).1]
    exact (stepOk_frames hok hcount hd).opened (ho d)
  · rw [hr.unused (by omega)]
    exact ho d

/-! ## The transmit side of a run -/

/-- What a call does to the transmit side of a channel. -/
inductive TxChange (cfg : Config A) (s : State A) (r : State A × List (Event A)) (d : Nat) : Prop
  | keeps (h : KeepsTx s r d)
  | takes (data : List UInt8) (hused : d < s.count) (hlen : data.length ≤ cfg.nodeMtu)
      (hok : SduOk cfg (s.channels d) data.length) (ht : Takes s data r d) (hown : (r.1.channels d).own = (s.channels d).own)
      (hpeer : (r.1.channels d).peer = (s.channels d).peer) (he : emitted d r.2 = []) (hg : granted d r.2 = 0)
  | sends (hused : d < s.count) (hpos : 0 < (s.channels d).tx.sduLength) (hcredit : 0 < (s.channels d).peer.credits)
      (hch : r.1.channels d = (s.channels d).sent (s.channels d).nextLen)
      (he : emitted d r.2 = [(s.channels d).nextFragment (s.channels d).nextLen]) (ha : accepted d r.2 = [])
      (hg : granted d r.2 = 0)

theorem call_txChange (hinv : Inv cfg w) (hok : StepOk cfg w a) (hen : Enabled cfg w.state a) (d : Nat) :
    TxChange cfg w.state (call cfg w.state a) d := by
  cases a with
  | rxEvent sender f begins => exact .keeps (inputRx_spec sender f begins hinv.count d).2.1
  | txEvent receiver =>
    unfold call inputTx
    dsimp only
    split
    · exact .keeps (.of_plain (List.forall_mem_nil _) rfl)
    · split
      · exact .keeps (.of_plain (by simp [Event.Plain]) rfl)
      · exact .keeps (.of_plain (List.forall_mem_nil _) rfl)
  | send receiver data =>
    unfold call send
    dsimp only
    split
    · exact .keeps (.of_plain (by simp [Event.Plain]) rfl)
    · rename_i hlen
      obtain ⟨hl, -⟩ := @sendLoop_spec A cfg _ receiver data (List.range w.state.count) w.state d List.nodup_range
      rcases hl.tx with ⟨htx, ha⟩ | ⟨hmem, ht⟩
      · exact .keeps ⟨htx, by rw [hl.own], fun _ => by rw [hl.peer], by rw [hl.peer]; exact Nat.le_add_right _ _,
          hl.emitted, ha⟩
      · have hd := List.mem_range.1 (targets_subset receiver _ _ d hmem)
        exact .takes data hd (by omega) (hok (List.length_pos_iff_ne_nil.1 ht.some) (by omega) d hmem) ht hl.own hl.peer
          hl.emitted hl.granted
  | txProcess c numBuffer =>
    unfold call
    dsimp only
    rw [txProcess_eq numBuffer (hinv.sends c).sending (hinv.sends c).ownMps]
    split
    · rename_i hgo
      by_cases hdc : d = c
      · subst hdc
        exact .sends hen hgo.1 hgo.2.2 (set_self ..) (by simp [emitted]) rfl rfl
      · refine .keeps ⟨?_, ?_, fun _ => ?_, ?_, by simp [emitted, Ne.symm hdc], rfl⟩
        all_goals rw [set_ne _ _ hdc]
        exact Nat.le_add_right _ _
    · exact .keeps (.of_plain (List.forall_mem_nil _) rfl)

theorem Inv.step (hinv : Inv cfg w) (hok : StepOk cfg w a) (h : step cfg w a = some w') : Inv cfg w' := by
  obtain ⟨hen, hs, hlog⟩ := step_some h
  have hle := (call_receives cfg w.state a hinv.count 0).2.1
  rw [← hs] at hle
  refine ⟨step_count hinv.count h, step_open hinv.count hok h hinv.opened, fun c => ?_, fun c hc => ?_⟩
  · have hold := hinv.sends c
    rw [hs, hlog, accepted_append, emitted_append, granted_append]
    cases call_txChange hinv hok hen c with
    | keeps hk =>
      rw [hk.accepted, hk.emitted, List.append_nil, List.append_nil]
      refine hold.keep hk.tx hk.ownMps ?_ hk.credits
      by_cases hc : c < w.state.count
      · exact .inl (hk.peerMps hc)
      · exact .inr (hinv.unused c (by omega))
    | takes data hused hlen hsdu ht hown hpeer he hg =>
      rw [ht.accepted, he, hg, List.append_nil]
      exact hold.take ht hlen hsdu hown hpeer
    | sends hused hpos hcredit hch he ha hg =>
      rw [hch, ha, he, hg, List.append_nil]
      exact hold.send hpos hcredit
  · obtain ⟨hidle, hnone⟩ := hinv.unused c (by omega)
    rw [hs, hlog, emitted_append]
    cases call_txChange hinv hok hen c with
    | keeps hk =>
      rw [hk.tx, hk.emitted, List.append_nil]
      exact ⟨hidle, hnone⟩
    | takes data hused => omega
    | sends hused => omega

theorem run_inv {as : List (Action A)} (hok : AllSteps (L2cap.step cfg) (StepOk cfg) (World.init cfg) as) :
    AllStates (L2cap.step cfg) (Inv cfg) (World.init cfg) as :=
  allStates_of_allSteps (J := fun _ => True) (fun _ _ _ _ _ => trivial) (fun _ _ _ _ hinv hc hs => hinv.step hc hs) as _
    trivial (.init cfg) hok

/-! ## What is claimed of a run -/

/-- The fragments of a channel follow the MPS and the credits of its peer; another node that receives them, on a channel
without an SDU in its buffer, delivers the SDUs that the channel took, except for the one it is still sending; and as many
rounds of the process with a buffer and a credit as the SDU has bytes are enough to send it. -/
structure SendsRight (cfg : Config A) (w : World A) (c : Nat) : Prop where
  mps : ∀ frame ∈ emitted c w.log, frame.length ≤ (w.state.channels c).peer.mps + l2capSubseqHeaderSize
  credits : (emitted c w.log).length ≤ granted c w.log
  reassembled : ∀ (as bs : List (Action A)) (v v' : World A) (k : Nat), exec (step cfg) (World.init cfg) as = some v →
    exec (step cfg) v bs = some v' → k < v.state.count → (v.state.channels k).rx.sduLength = 0 →
    (framesOn k bs).map (fun bf => bf.2.bytes) = emitted c w.log →
    delivered k v'.log ++ (w.state.channels c).tx.pending = delivered k v.log ++ accepted c w.log
  finishes : ∀ buffers : List Nat, (∀ n ∈ buffers, 0 < n) → (w.state.channels c).tx.sduLength ≤ buffers.length →
    (w.state.channels c).tx.sduLength ≤ (w.state.channels c).peer.credits →
    ∃ w', exec (step cfg) w (buffers.map (.txProcess c)) = some w' ∧ (w'.state.channels c).tx.sduLength = 0

/-- Every access is in bounds; an SDU whose fragments arrive on a channel is delivered once, whatever the channel received
before; and the fragments that are sent are right. -/
structure RunRight (cfg : Config A) (as : List (Action A)) : Prop where
  inBounds : AllSteps (step cfg) (InBounds cfg) (World.init cfg) as
  delivers : ∀ (bs cs : List (Action A)) (w w' : World A) (c : Nat) (sdu : List UInt8), as = bs ++ cs →
    exec (step cfg) (World.init cfg) bs = some w → exec (step cfg) w cs = some w' → c < w.state.count →
    Carries (framesOn c cs) sdu → sdu ≠ [] → sdu.length ≤ cfg.nodeMtu →
    delivered c w'.log = delivered c w.log ++ [sdu]
  sends : AllStates (step cfg) (fun w => ∀ c < w.state.count, SendsRight cfg w c) (World.init cfg) as

theorem rounds_finish : ∀ (buffers : List Nat) {w : World A}, Inv cfg w → c < w.state.count → (∀ n ∈ buffers, 0 < n) →
    (w.state.channels c).tx.missing ≤ buffers.length → (w.state.channels c).tx.missing ≤ (w.state.channels c).peer.credits →
    ∃ w', exec (step cfg) w (buffers.map (.txProcess c)) = some w' ∧ (w'.state.channels c).tx.sduLength = 0
  | [], w, hinv, _, _, hlen, _ => by
    refine ⟨w, rfl, ?_⟩
    unfold Buffer.missing at hlen
    simp only [List.length_nil] at hlen
    rcases (hinv.sends c).sending with hs | hs
    · exact hs.1
    · omega
  | n :: buffers, w, hinv, hc, hpos, hlen, hcredits => by
    have hen : Enabled cfg w.state (.txProcess c n) := hc
    have hstep : step cfg w (.txProcess c n) = some ⟨(txProcess cfg c n w.state).1, w.log ++ (txProcess cfg c n w.state).2⟩ :=
      if_pos hen
    have hn := hpos n List.mem_cons_self
    have hnext := hinv.step (a := .txProcess c n) trivial hstep
    have hs := (hinv.sends c).sending
    rw [List.map_cons, exec_cons hstep]
    rw [txProcess_eq n hs (hinv.sends c).ownMps] at hnext ⊢
    unfold Buffer.missing at hlen hcredits
    simp only [List.length_cons] at hlen
    split at hnext
    · rename_i hgo
      rw [if_pos hgo]
      have hsome := (hs.next hgo.1).some
      refine rounds_finish buffers hnext hc (fun m hm => hpos m (List.mem_cons_of_mem _ hm)) ?_ ?_
      all_goals
        unfold Buffer.missing
        simp only [set_self, Channel.sent]
        split
        · dsimp only
          omega
        · dsimp only
          omega
    · rename_i hgo
      rw [if_neg hgo]
      refine rounds_finish buffers hnext hc (fun m hm => hpos m (List.mem_cons_of_mem _ hm)) ?_ ?_
      all_goals
        unfold Buffer.missing
        rcases hs with ⟨h₀, -⟩ | ⟨hlt, -⟩
        · dsimp only
          omega
        · exact absurd ⟨by omega, hn, by omega⟩ hgo

theorem Inv.sendsRight (hinv : Inv cfg w) (hc : c < w.state.count) : SendsRight cfg w c := by
  have h := hinv.sends c
  have hcredits := h.credits
  refine ⟨fun frame hmem => (h.mps frame hmem).trans (Nat.le_add_right _ _), by omega, ?_, ?_⟩
  · rintro as bs v v' k hv hrun hk hidle hframes
    obtain ⟨done, htaken, htells⟩ := h.told
    rw [run_receive bs (run_count hv) hk hrun, htaken]
    have hmap : ((framesOn k bs).map Prod.snd).map Frame.bytes = emitted c w.log := by
      rw [List.map_map]
      exact hframes
    rw [(htells k (v.state.channels k).rx _ hidle hmap).1, List.append_assoc]
  · rintro buffers hpos hlen hcr
    refine rounds_finish buffers hinv hc hpos ?_ ?_
    · exact (Nat.sub_le _ _).trans hlen
    · exact (Nat.sub_le _ _).trans hcr

def defaultConfig : Config Nat := ⟨0, 128, 128, 256, 1, le_rfl, by decide, by decide, by decide⟩

def Frame.of (bytes : List UInt8) : Frame := ⟨fun k => bytes.getD k 0, bytes.length⟩

def connReq : Action Nat :=
  .rxEvent 7 (.of [0x0E, 0, 5, 0, l2capCodeConnReq, 1, 0x0A, 0, 0x23, 0, 0x41, 0, 128, 0, 20, 0, 5, 0]) false

/-- A first fragment that is shorter than it says, an SDU in two fragments, and an SDU that is sent in two. -/
def goodRun : List (Action Nat) :=
  [connReq, .rxEvent 7 (.of [100, 0, 0x41, 0, 98, 0, 1]) true, .rxEvent 7 (.of [5, 0, 0x41, 0, 5, 0, 1, 2, 3]) true,
    .rxEvent 7 (.of [2, 0, 0x41, 0, 4, 5]) false, .send 7 (List.replicate 20 9), .txProcess 0 1, .txProcess 0 1]

/-- A first fragment that announces 300 bytes, then an SDU of one byte. -/
def oversized : List (Action Nat) := [connReq, .rxEvent 7 (.of [3, 0, 0x41, 0, 0x2C, 1, 1]) true]

def oneByte : List (Action Nat) := [.rxEvent 7 (.of [3, 0, 0x41, 0, 1, 0, 7]) true]

end Contiki.L2cap

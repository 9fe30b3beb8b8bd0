/-
What an established connection passes to its application: a prefix of the peer's stream, as long as the
segments that are accepted carry no options and no urgent data.
-/
import Contiki.Lib.Run
import Contiki.Tcp.Model

namespace Contiki.Tcp

open Contiki.Lib

/-! ## Sequence numbers -/

def Seqno.toNat (s : Seqno) : Nat := ((s.b0.toNat * 256 + s.b1.toNat) * 256 + s.b2.toNat) * 256 + s.b3.toNat

theorem Seqno.toNat_lt (s : Seqno) : s.toNat < 2 ^ 32 := by
  have h0 := s.b0.toNat_lt
  have h1 := s.b1.toNat_lt
  have h2 := s.b2.toNat_lt
  have h3 := s.b3.toNat_lt
  unfold Seqno.toNat
  omega

theorem add_one_toNat (x : UInt8) : (x + 1).toNat = if x.toNat = 255 then 0 else x.toNat + 1 := by
  have hx := x.toNat_lt
  rw [UInt8.toNat_add]
  split
  · rename_i h
    rw [h]
    rfl
  · rw [UInt8.toNat_one]
    omega

theorem carry_toNat (x y : UInt8) (c : Prop) [Decidable c] : ∃ o,
    (if c ∧ (if c then y + 1 else y) = 0 then x + 1 else x).toNat * 256 + (if c then y + 1 else y).toNat + 65536 * o =
      x.toNat * 256 + y.toNat + if c then 1 else 0 := by
  by_cases hc : c
  · simp only [hc, true_and, if_true, ← UInt8.toNat_inj, UInt8.toNat_zero]
    by_cases hy : y.toNat = 255
    · rw [if_pos (by rw [add_one_toNat, if_pos hy]), add_one_toNat, add_one_toNat, if_pos hy]
      by_cases hx : x.toNat = 255
      · exact ⟨1, by rw [if_pos hx, hx, hy]⟩
      · refine ⟨0, ?_⟩
        rw [if_neg hx]
        omega
    · refine ⟨0, ?_⟩
      rw [if_neg (by rw [add_one_toNat, if_neg hy]; omega), add_one_toNat, if_neg hy]
      omega
  · exact ⟨0, by simp only [hc, false_and, if_false]⟩

theorem uipAdd32_toNat (s : Seqno) (n : UInt16) : (uipAdd32 s n).toNat = (s.toNat + n.toNat) % 2 ^ 32 := by
  have hb2 := s.b2.toNat_lt
  have hb3 := s.b3.toNat_lt
  have hn := n.toNat_lt
  have hlo : n.toUInt8.toNat = n.toNat % 256 := UInt16.toNat_toUInt8 n
  have hhi : (n >>> 8).toUInt8.toNat = n.toNat / 256 := by
    rw [UInt16.toNat_toUInt8, UInt16.toNat_shiftRight]
    show n.toNat >>> 8 % 256 = n.toNat / 256
    rw [Nat.shiftRight_eq_div_pow]
    omega
  suffices h : ∃ o, (uipAdd32 s n).toNat + 2 ^ 32 * o = s.toNat + n.toNat by
    obtain ⟨o, ho⟩ := h
    rw [← ho, Nat.add_mul_mod_self_left, Nat.mod_eq_of_lt (Seqno.toNat_lt _)]
  have hacc3 : (s.b3 + n.toUInt8).toNat = (s.b3.toNat + n.toNat % 256) % 256 := by rw [UInt8.toNat_add, hlo]
  have hacc2 : (s.b2 + (n >>> 8).toUInt8).toNat = (s.b2.toNat + n.toNat / 256) % 256 := by rw [UInt8.toNat_add, hhi]
  obtain ⟨o, ho⟩ := carry_toNat s.b0 s.b1 (s.b2 + (n >>> 8).toUInt8 < (n >>> 8).toUInt8)
  unfold uipAdd32
  dsimp only
  generalize s.b3 + n.toUInt8 = acc3 at hacc3 ⊢
  generalize s.b2 + (n >>> 8).toUInt8 = acc2 at hacc2 ho ⊢
  generalize (if acc2 < (n >>> 8).toUInt8 then s.b1 + 1 else s.b1) = acc1 at ho ⊢
  generalize (if acc2 < (n >>> 8).toUInt8 ∧ acc1 = 0 then s.b0 + 1 else s.b0) = acc0 at ho ⊢
  have hcarry : (if acc2 < (n >>> 8).toUInt8 then 1 else 0) = (s.b2.toNat + n.toNat / 256) / 256 := by
    simp only [UInt8.lt_iff_toNat_lt, hhi]
    split <;> omega
  rw [hcarry] at ho
  have hsplit := Nat.div_add_mod n.toNat 256
  have hsum2 := Nat.div_add_mod (s.b2.toNat + n.toNat / 256) 256
  rw [← hacc2] at hsum2
  unfold Seqno.toNat
  by_cases hc3 : acc3 < n.toUInt8
  · rw [if_pos hc3]
    rw [UInt8.lt_iff_toNat_lt, hlo] at hc3
    have hsum3 : s.b3.toNat + n.toNat % 256 = acc3.toNat + 256 := by omega
    obtain ⟨o', ho'⟩ := carry_toNat acc0 acc1 (acc2 + 1 = 0)
    have hcarry' : (if acc2 + 1 = 0 then 1 else 0) = (acc2.toNat + 1) / 256 := by
      have := acc2.toNat_lt
      simp only [← UInt8.toNat_inj, add_one_toNat, UInt8.toNat_zero]
      split <;> split <;> omega
    have hlow : (acc2 + 1).toNat = (acc2.toNat + 1) % 256 := UInt8.toNat_add ..
    have hsum2' := Nat.div_add_mod (acc2.toNat + 1) 256
    rw [← hlow] at hsum2'
    rw [hcarry'] at ho'
    dsimp only
    generalize (if acc2 + 1 = 0 then acc1 + 1 else acc1) = acc1' at ho' ⊢
    generalize (if acc2 + 1 = 0 ∧ acc1' = 0 then acc0 + 1 else acc0) = acc0' at ho' ⊢
    exact ⟨o + o', by linarith only [ho, ho', hsplit, hsum2, hsum2', hsum3]⟩
  · rw [if_neg hc3]
    rw [UInt8.lt_iff_toNat_lt, hlo] at hc3
    have hsum3 : s.b3.toNat + n.toNat % 256 = acc3.toNat := by omega
    exact ⟨o, by linarith only [ho, hsplit, hsum2, hsum3]⟩

/-! ## Runs -/

/-- What happens to a connection: a segment of the peer that stands at `pos` in its stream, the periodic
timer, a poll request, with what the application leaves if it is called; or traffic of other connections
changes `uip_slen` and the buffer. -/
inductive Action
  | segment (pos : Nat) (seg : Segment) (reply : Reply)
  | periodic (reply : Reply)
  | poll (len : Nat) (reply : Reply)
  | other (slen : UInt16) (buf : Nat → UInt8)

structure World where
  uip : Uip
  delivered : List UInt8
  urgent : Nat → Bool

def Segment.data (seg : Segment) : List UInt8 := seg.body.drop (seg.headerLen - 20)

/-- The segment carries what stands at `pos` in the stream; `irs` is the sequence number of its start. -/
structure FromPeer (stream : List UInt8) (irs : Seqno) (pos : Nat) (seg : Segment) : Prop where
  offset : 20 ≤ seg.headerLen
  size : 60 + seg.body.length < 2 ^ 16
  syn : seg.has TCP_SYN = true → seg.data = [] ∧ seg.has TCP_FIN = false
  seqno : seg.has TCP_SYN = false → seg.seqno.toNat = (irs.toNat + pos) % 2 ^ 32
  data : seg.data = (stream.drop pos).take seg.data.length
  fin : seg.has TCP_FIN = true → pos + seg.data.length = stream.length

instance (stream : List UInt8) (irs : Seqno) (pos : Nat) (seg : Segment) : Decidable (FromPeer stream irs pos seg) :=
  decidable_of_iff
    (20 ≤ seg.headerLen ∧ 60 + seg.body.length < 2 ^ 16 ∧
      (seg.has TCP_SYN = true → seg.data = [] ∧ seg.has TCP_FIN = false) ∧
      (seg.has TCP_SYN = false → seg.seqno.toNat = (irs.toNat + pos) % 2 ^ 32) ∧
      seg.data = (stream.drop pos).take seg.data.length ∧
      (seg.has TCP_FIN = true → pos + seg.data.length = stream.length))
    ⟨fun ⟨h₁, h₂, h₃, h₄, h₅, h₆⟩ => ⟨h₁, h₂, h₃, h₄, h₅, h₆⟩, fun ⟨h₁, h₂, h₃, h₄, h₅, h₆⟩ => ⟨h₁, h₂, h₃, h₄, h₅, h₆⟩⟩

/-- The data that a run of `uip_process` passes to the application with UIP_NEWDATA. -/
def Result.passed {σ : Type} (r : Result σ) : List UInt8 :=
  match r.called with
  | some (call, _) => if call.flags.newdata then call.data else []
  | none => []

def World.next (w : World) (r : Result Unit) : World := { w with uip := r.uip, delivered := w.delivered ++ r.passed }

def Segment.marks (seg : Segment) (pos i : Nat) : Bool := seg.has TCP_URG && pos ≤ i && i < pos + seg.urgp.toNat

@[grind =]
def step (c : Conf) (stream : List UInt8) (irs : Seqno) (w : World) : Action → Option World
  | .segment pos seg reply =>
    if FromPeer stream irs pos seg then
      some { w.next (input (fun _ => (reply, ())) seg w.uip) with urgent := fun i => w.urgent i || seg.marks pos i }
    else none
  | .periodic reply => some (w.next (periodic c (fun _ => (reply, ())) w.uip))
  | .poll len reply => some (w.next (pollRequest (fun _ => (reply, ())) len w.uip))
  | .other slen buf => some { w with uip := { w.uip with slen := slen, buf := buf } }

/-- What is claimed: for some place `n` in the stream the application has got the bytes before it, but for
bytes that are marked urgent, and `rcv_nxt` is its sequence number, past the FIN once the peer has closed. -/
def Good (stream : List UInt8) (irs : Seqno) (w : World) : Prop :=
  ∃ (n : Nat) (discarded : Nat → Bool), (∀ i, discarded i = true → w.urgent i = true) ∧
    w.delivered.map some = ((List.range n).filter fun i => !discarded i).map (fun i => stream[i]?) ∧
    (w.uip.conn.state = .established → w.uip.conn.rcvNxt.toNat = (irs.toNat + n) % 2 ^ 32) ∧
    (w.uip.conn.state = .lastAck → w.uip.conn.rcvNxt.toNat = (irs.toNat + n + 1) % 2 ^ 32)

/-- The data of the segment will be accepted. -/
structure Accepted (u : Uip) (seg : Segment) : Prop where
  established : u.conn.state = .established
  running : u.conn.stopped = false
  reset : seg.has TCP_RST = false
  seqno : seg.seqno = u.conn.rcvNxt
  data : seg.data ≠ []
  fin : seg.has TCP_FIN = true → u.conn.len = 0 ∨ acknowledges u.conn seg = true

/-- The condition on a step: a segment whose data will be accepted is not off by a whole turn of the
sequence numbers, has no options (or ones that with the data read like the data), and unless it is the last
one marks none of it urgent. -/
def Plain (w : World) : Action → Prop
  | .segment pos seg _ => Accepted w.uip seg →
      (pos < w.delivered.length + 2 ^ 32 ∧ w.delivered.length < pos + 2 ^ 32) ∧
      seg.body.take seg.data.length = seg.data ∧
      (seg.has TCP_FIN = false → urgentLen seg seg.data.length = 0)
  | _ => True

/-! ## What a call of uip_process passes on -/

variable {σ : Type} {c : Conf} {u : Uip} {r : Result σ} {app : App σ} {seg : Segment} {flags : Flags}

/-- The application gets `data`, and `rcv_nxt` moves on by it, and past a FIN. -/
structure Passes (u : Uip) (r : Result σ) (data : List UInt8) : Prop where
  passed : r.passed = data
  established : r.uip.conn.state = .established →
    u.conn.state = .established ∧ r.uip.conn.rcvNxt.toNat = (u.conn.rcvNxt.toNat + data.length) % 2 ^ 32
  lastAck : r.uip.conn.state = .lastAck →
    u.conn.state = .lastAck ∧ data = [] ∧ r.uip.conn.rcvNxt = u.conn.rcvNxt ∨
      u.conn.state = .established ∧ r.uip.conn.rcvNxt.toNat = (u.conn.rcvNxt.toNat + data.length + 1) % 2 ^ 32

theorem Passes.nothing (hp : r.passed = []) (hs : r.uip.conn.state = u.conn.state) (hr : r.uip.conn.rcvNxt = u.conn.rcvNxt) :
    Passes u r [] where
  passed := hp
  established h := by
    refine ⟨hs ▸ h, ?_⟩
    rw [hr, List.length_nil, Nat.add_zero, Nat.mod_eq_of_lt (Seqno.toNat_lt _)]
  lastAck h := .inl ⟨hs ▸ h, rfl, hr⟩

theorem Passes.left (hp : r.passed = []) (he : r.uip.conn.state ≠ .established) (hl : r.uip.conn.state ≠ .lastAck) :
    Passes u r [] :=
  ⟨hp, fun h => absurd h he, fun h => absurd h hl⟩

theorem sendLength_conn (flags : Flags) (u : Uip) : (sendLength flags u).conn.state = u.conn.state ∧
    (sendLength flags u).conn.rcvNxt = u.conn.rcvNxt := by
  unfold sendLength
  dsimp only
  split
  · generalize (if flags.ackdata = true then (0 : UInt16) else u.conn.len) = len
    by_cases hlen : len = 0
    · rw [if_pos hlen]
      exact ⟨rfl, rfl⟩
    · rw [if_neg hlen]
      exact ⟨rfl, rfl⟩
  · exact ⟨rfl, rfl⟩

theorem apprexmit_fst (flags : Flags) (u : Uip) : (apprexmit flags u).1 = u := by
  unfold apprexmit
  split
  · rfl
  · split <;> rfl

theorem appsend_conn (flags : Flags) (u : Uip) : (appsend flags u).1.conn.rcvNxt = u.conn.rcvNxt ∧
    ((appsend flags u).1.conn.state = u.conn.state ∨ (appsend flags u).1.conn.state = .closed ∨
      (appsend flags u).1.conn.state = .finWait1) := by
  unfold appsend
  split
  · exact ⟨rfl, .inr (.inl rfl)⟩
  · split
    · exact ⟨rfl, .inr (.inr rfl)⟩
    · obtain ⟨hs, hr⟩ := sendLength_conn flags u
      dsimp only
      rw [apprexmit_fst]
      exact ⟨hr, .inl hs⟩

theorem callAndSend_spec (app : App σ) (flags : Flags) (appdata len : Nat) (u : Uip) :
    (callAndSend app flags appdata len u).uip.conn.rcvNxt = u.conn.rcvNxt ∧
    ((callAndSend app flags appdata len u).uip.conn.state = u.conn.state ∨
      (callAndSend app flags appdata len u).uip.conn.state = .closed ∨
      (callAndSend app flags appdata len u).uip.conn.state = .finWait1) ∧ (callAndSend app flags appdata len u).passed =
      if flags.newdata then (Call.data ⟨flags, appdata, len, u⟩) else [] := by
  obtain ⟨hr, hs⟩ := appsend_conn (appcall app flags appdata len u).1 (appcall app flags appdata len u).2.1
  exact ⟨hr, hs, rfl⟩

theorem callAndSend_passes {appdata len : Nat} (hn : flags.newdata = false) :
    Passes u (callAndSend app flags appdata len u) [] := by
  obtain ⟨hr, hs, hp⟩ := callAndSend_spec app flags appdata len u
  rw [hn] at hp
  rcases hs with hs | hs | hs
  · exact Passes.nothing hp hs hr
  · exact Passes.left hp (by rw [hs]; decide) (by rw [hs]; decide)
  · exact Passes.left hp (by rw [hs]; decide) (by rw [hs]; decide)

theorem Passes.congr {u' : Uip} {data : List UInt8} (h : Passes u' r data) (hs : u'.conn.state = u.conn.state)
    (hr : u'.conn.rcvNxt = u.conn.rcvNxt) : Passes u r data := by
  refine ⟨h.passed, ?_, ?_⟩
  · rw [← hs, ← hr]
    exact h.established
  · rw [← hs, ← hr]
    exact h.lastAck

theorem pollRequest_passes (app : App σ) (len : Nat) (u : Uip) : Passes u (pollRequest app len u) [] := by
  unfold pollRequest
  split
  · exact callAndSend_passes rfl
  · exact Passes.nothing rfl rfl rfl

theorem retransmit_passes (app : App σ) (u : Uip) : Passes u (retransmit app u) [] := by
  unfold retransmit
  cases hs : u.conn.state with
  | established =>
    refine Passes.nothing rfl ?_ ?_ <;>
    · dsimp only
      rw [apprexmit_fst]
      rfl
  | finWait1 => exact Passes.nothing rfl rfl rfl
  | closing => exact Passes.nothing rfl rfl rfl
  | lastAck => exact Passes.nothing rfl rfl rfl
  | closed => exact Passes.nothing rfl rfl rfl
  | finWait2 => exact Passes.nothing rfl rfl rfl
  | timeWait => exact Passes.nothing rfl rfl rfl

theorem periodic_passes (c : Conf) (app : App σ) (u : Uip) : Passes u (periodic c app u) [] := by
  unfold periodic
  dsimp only
  split
  · exact Passes.nothing rfl rfl rfl
  · split
    · rename_i hwait
      refine Passes.left rfl ?_ ?_ <;>
      · dsimp only
        split
        · exact TcpState.noConfusion
        · rcases hwait.1 with h | h <;> (dsimp only; rw [h]; exact TcpState.noConfusion)
    · split
      · split
        · exact Passes.nothing rfl rfl rfl
        · split
          · exact Passes.left rfl TcpState.noConfusion TcpState.noConfusion
          · exact (retransmit_passes app _).congr rfl rfl
      · split
        · exact (callAndSend_passes rfl).congr rfl rfl
        · exact Passes.nothing rfl rfl rfl

theorem data_ite (flags : Flags) (appdata len : Nat) (u : Uip) (h : flags.newdata = decide (len > 0)) :
    (if flags.newdata then Call.data ⟨flags, appdata, len, u⟩ else []) = (List.range len).map fun i => u.buf (appdata + i) := by
  rw [h]
  cases len with
  | zero => rfl
  | succ n => rfl

theorem ofNat_toNat {n : Nat} (h : n < 2 ^ 16) : (UInt16.ofNat n).toNat = n := by
  rw [UInt16.toNat_ofNat', Nat.mod_eq_of_lt h]

/-- In the established state the data behind the urgent bytes is passed, if it is accepted. -/
theorem establishedInput_passes (app : App σ) (seg : Segment) (flags : Flags) {len : Nat}
    (hs : u.conn.state = .established) (hlen : len + 1 < 2 ^ 16) : Passes u (establishedInput app seg len flags u) [] ∨
      u.conn.stopped = false ∧ (seg.has TCP_FIN = true → u.conn.len = 0) ∧
        ∃ n, n = (if seg.has TCP_FIN then 0 else urgentLen seg len) ∧
          Passes u (establishedInput app seg len flags u) ((List.range (len - n)).map fun i => u.buf (n + i)) := by
  unfold establishedInput
  by_cases hfin : seg.has TCP_FIN = true ∧ ¬ u.conn.stopped = true
  · rw [if_pos hfin]
    by_cases hout : u.conn.len ≠ 0
    · rw [if_pos hout]
      exact .inl (Passes.nothing rfl rfl rfl)
    · rw [if_neg hout]
      refine .inr ⟨by simpa using hfin.2, fun _ => by simpa using hout, 0, by rw [if_pos hfin.1], ?_⟩
      refine ⟨data_ite _ _ _ _ rfl, fun h => TcpState.noConfusion h, fun _ => .inr ⟨hs, ?_⟩⟩
      show (uipAdd32 u.conn.rcvNxt (1 + UInt16.ofNat len)).toNat = _
      rw [uipAdd32_toNat, UInt16.toNat_add, UInt16.toNat_one, ofNat_toNat (by omega), List.length_map, List.length_range,
        Nat.sub_zero, Nat.mod_eq_of_lt (show 1 + len < 2 ^ 16 by omega), Nat.add_comm 1 len, Nat.add_assoc]
  · rw [if_neg hfin]
    dsimp only
    generalize hn : urgentLen seg len = n
    by_cases hacc : (decide (len - n > 0) && !u.conn.stopped) = true
    · simp only [hacc, if_true, true_or]
      simp only [Bool.and_eq_true, decide_eq_true_eq, Bool.not_eq_true'] at hacc
      have hfin' : seg.has TCP_FIN = false := by
        cases h : seg.has TCP_FIN with
        | false => rfl
        | true => exact absurd ⟨h, by rw [hacc.2]; exact Bool.false_ne_true⟩ hfin
      refine .inr ⟨hacc.2, fun h => absurd (hfin'.symm.trans h) Bool.false_ne_true, n, by rw [hfin']; rfl, ?_⟩
      obtain ⟨hr, hst, hp⟩ := callAndSend_spec app { flags with newdata := true } n (len - n)
        { uipAddRcvNxt (UInt16.ofNat (len - n)) u with
          conn := { (uipAddRcvNxt (UInt16.ofNat (len - n)) u).conn with
            mss := windowMss (uipAddRcvNxt (UInt16.ofNat (len - n)) u).conn.initialmss seg.wnd }
          slen := 0 }
      have hrcv : (uipAdd32 u.conn.rcvNxt (UInt16.ofNat (len - n))).toNat =
          (u.conn.rcvNxt.toNat + ((List.range (len - n)).map fun i => u.buf (n + i)).length) % 2 ^ 32 := by
        have hlen' : len - n < 2 ^ 16 := lt_of_le_of_lt (Nat.sub_le ..) (Nat.lt_of_succ_lt hlen)
        rw [uipAdd32_toNat, ofNat_toNat hlen', List.length_map, List.length_range]
      refine ⟨hp, fun _ => ⟨hs, (congrArg Seqno.toNat hr).trans hrcv⟩, fun h => ?_⟩
      rcases hst with hst | hst | hst
      · rw [hst] at h
        exact absurd (hs.symm.trans h) TcpState.noConfusion
      · rw [hst] at h
        cases h
      · rw [hst] at h
        cases h
    · simp only [hacc, Bool.false_eq_true, if_false, false_or]
      left
      split
      · exact (callAndSend_passes rfl).congr rfl rfl
      · exact Passes.nothing rfl rfl rfl

theorem finWaitInput_passes (app : App σ) (seg : Segment) (len : Nat) (flags : Flags)
    (hs : u.conn.state = .finWait1 ∨ u.conn.state = .finWait2) : Passes u (finWaitInput app seg len flags u) [] := by
  have hne : u.conn.state ≠ .established ∧ u.conn.state ≠ .lastAck := by
    rcases hs with h | h <;> rw [h] <;> exact ⟨TcpState.noConfusion, TcpState.noConfusion⟩
  unfold finWaitInput
  dsimp only
  have hstate : (if len > 0 then uipAddRcvNxt (UInt16.ofNat len) u else u).conn.state = u.conn.state := by
    split <;> rfl
  generalize (if len > 0 then uipAddRcvNxt (UInt16.ofNat len) u else u) = v at hstate
  rw [← hstate] at hne
  split
  · refine Passes.left rfl ?_ ?_ <;>
    · simp only [appcall, uipAddRcvNxt]
      split <;> exact TcpState.noConfusion
  · split
    · exact Passes.left rfl TcpState.noConfusion TcpState.noConfusion
    · split
      · exact Passes.left rfl hne.1 hne.2
      · exact Passes.left rfl hne.1 hne.2

theorem received_take (seg : Segment) (u : Uip) {n : Nat} (h : n ≤ seg.body.length) :
    ((List.range n).map fun i => (received seg u).buf (0 + i)) = seg.body.take n := by
  refine List.ext_getElem (by simp [h]) fun i h₁ h₂ => ?_
  rw [List.length_map, List.length_range] at h₁
  simp [received, List.getElem?_eq_getElem (show i < seg.body.length by omega)]

theorem data_length (seg : Segment) (h : 20 ≤ seg.headerLen) :
    20 + seg.body.length - seg.headerLen = seg.data.length := by
  rw [Segment.data, List.length_drop]
  omega

theorem ackData_conn (conn : Conn) : (ackData conn).rcvNxt = conn.rcvNxt ∧ (ackData conn).state = conn.state ∧
    (ackData conn).stopped = conn.stopped := by
  unfold ackData
  dsimp only
  split <;> exact ⟨rfl, rfl, rfl⟩

theorem input_passes (app : App σ) (seg : Segment) (u : Uip) (ho : 20 ≤ seg.headerLen) (hsize : 60 + seg.body.length < 2 ^ 16)
    (hurg : Accepted u seg → seg.has TCP_FIN = false → urgentLen seg seg.data.length = 0) :
    Passes u (input app seg u) [] ∨ Accepted u seg ∧ Passes u (input app seg u) (seg.body.take seg.data.length) := by
  unfold input
  by_cases hclosed : u.conn.state = .closed ∧ ¬ u.conn.stopped = true
  · rw [if_pos hclosed]
    exact .inl (Passes.nothing rfl rfl rfl)
  rw [if_neg hclosed]
  dsimp only
  by_cases hrst : seg.has TCP_RST = true
  · rw [if_pos hrst]
    exact .inl (Passes.left rfl TcpState.noConfusion TcpState.noConfusion)
  rw [if_neg hrst]
  by_cases hshort : 20 + seg.body.length < seg.headerLen
  · rw [if_pos hshort]
    exact .inl (Passes.nothing rfl rfl rfl)
  rw [if_neg hshort, data_length seg ho]
  by_cases hseq : (seg.data.length > 0 ∨ seg.has TCP_SYN = true ∨ seg.has TCP_FIN = true) ∧
      seg.seqno ≠ (received seg u).conn.rcvNxt
  · rw [if_pos hseq]
    exact .inl (Passes.nothing rfl rfl rfl)
  rw [if_neg hseq]
  obtain ⟨hr, hst, hstop⟩ := ackData_conn u.conn
  -- the acknowledgment changes nothing that the receiver looks at but the data in flight
  obtain ⟨v, hv, hvr, hvs, hvstop, hvlen, hvbuf⟩ : ∃ v : Uip,
      (if acknowledges (received seg u).conn seg = true then
        { received seg u with conn := ackData (received seg u).conn } else received seg u) = v ∧
      v.conn.rcvNxt = u.conn.rcvNxt ∧ v.conn.state = u.conn.state ∧ v.conn.stopped = u.conn.stopped ∧
      (v.conn.len = 0 → u.conn.len = 0 ∨ acknowledges u.conn seg = true) ∧ v.buf = (received seg u).buf := by
    refine ⟨_, rfl, ?_⟩
    by_cases hack : acknowledges (received seg u).conn seg = true
    · rw [if_pos hack]
      exact ⟨hr, hst, hstop, fun _ => .inr hack, rfl⟩
    · rw [if_neg hack]
      exact ⟨rfl, rfl, rfl, fun h => .inl h, rfl⟩
  rw [hv]
  cases hs : v.conn.state with
  | established =>
    have hbody : seg.data.length ≤ seg.body.length := by
      rw [Segment.data, List.length_drop]
      omega
    rcases establishedInput_passes app seg { ackdata := acknowledges (received seg u).conn seg } hs
      (show seg.data.length + 1 < 2 ^ 16 by omega) with hp | ⟨hrun, hfin, n, hn, hp⟩
    · exact .inl (hp.congr hvs hvr)
    · by_cases hdata : seg.data = []
      · left
        rw [hdata] at hp ⊢
        simp only [List.length_nil, Nat.zero_sub, List.range_zero, List.map_nil] at hp
        exact hp.congr hvs hvr
      · have hacc : Accepted u seg := by
          refine ⟨hvs ▸ hs, hvstop ▸ hrun, by simpa using hrst, ?_, hdata, fun h => hvlen (hfin h)⟩
          by_contra hne
          exact hseq ⟨.inl (List.length_pos_iff.2 hdata), hne⟩
        have hn0 : n = 0 := by
          rw [hn]
          split
          · rfl
          · rename_i hnofin
            exact hurg hacc (by simpa using hnofin)
        rw [hn0, Nat.sub_zero, hvbuf, received_take seg u hbody] at hp
        exact .inr ⟨hacc, hp.congr hvs hvr⟩
  | finWait1 => exact .inl ((finWaitInput_passes app seg _ _ (.inl hs)).congr hvs hvr)
  | finWait2 => exact .inl ((finWaitInput_passes app seg _ _ (.inr hs)).congr hvs hvr)
  | lastAck =>
    dsimp only
    split
    · exact .inl (Passes.left rfl TcpState.noConfusion TcpState.noConfusion)
    · exact .inl (Passes.nothing rfl hvs hvr)
  | timeWait => exact .inl (Passes.nothing rfl hvs hvr)
  | closing =>
    dsimp only
    split
    · exact .inl (Passes.left rfl TcpState.noConfusion TcpState.noConfusion)
    · exact .inl (Passes.nothing rfl hvs hvr)
  | closed => exact .inl (Passes.nothing rfl hvs hvr)

/-! ## Every run -/

/-- What the application has got is the head of the stream, and `rcv_nxt` stands behind it. -/
structure WorldInv (stream : List UInt8) (irs : Seqno) (w : World) : Prop where
  delivered : w.delivered = stream.take w.delivered.length
  established : w.uip.conn.state = .established → w.uip.conn.rcvNxt.toNat = (irs.toNat + w.delivered.length) % 2 ^ 32
  lastAck : w.uip.conn.state = .lastAck → w.uip.conn.rcvNxt.toNat = (irs.toNat + w.delivered.length + 1) % 2 ^ 32

variable {stream : List UInt8} {irs : Seqno} {w w' : World} {a : Action} {pos : Nat}

theorem WorldInv.passes {r : Result Unit} {data : List UInt8} (h : WorldInv stream irs w) (hp : Passes w.uip r data)
    (hd : data = (stream.drop w.delivered.length).take data.length) : WorldInv stream irs (w.next r) := by
  have hdel : (w.next r).delivered = w.delivered ++ data := by rw [World.next, hp.passed]
  refine ⟨?_, fun hs => ?_, fun hs => ?_⟩
  · rw [hdel, List.length_append, List.take_add, ← h.delivered, ← hd]
  · obtain ⟨hest, hr⟩ := hp.established hs
    rw [show (w.next r).uip.conn.rcvNxt.toNat = _ from hr, h.established hest, hdel, List.length_append, Nat.mod_add_mod,
      Nat.add_assoc]
  · rcases hp.lastAck hs with ⟨hlast, hnil, hr⟩ | ⟨hest, hr⟩
    · rw [hdel, hnil, List.append_nil, show (w.next r).uip.conn.rcvNxt = _ from hr]
      exact h.lastAck hlast
    · rw [show (w.next r).uip.conn.rcvNxt.toNat = _ from hr, h.established hest, hdel, List.length_append, Nat.add_assoc,
        Nat.mod_add_mod]
      simp only [Nat.add_assoc]

theorem place_eq {n : Nat} (h : (irs.toNat + pos) % 2 ^ 32 = (irs.toNat + n) % 2 ^ 32) (h₁ : pos < n + 2 ^ 32)
    (h₂ : n < pos + 2 ^ 32) : pos = n := by
  have hmod : pos % 2 ^ 32 = n % 2 ^ 32 := Nat.ModEq.add_left_cancel' irs.toNat h
  have hp := Nat.div_add_mod pos (2 ^ 32)
  have hn := Nat.div_add_mod n (2 ^ 32)
  rw [hmod] at hp
  rcases lt_trichotomy (pos / 2 ^ 32) (n / 2 ^ 32) with hlt | heq | hgt
  · have := Nat.mul_le_mul_left (2 ^ 32) (Nat.succ_le_of_lt hlt)
    rw [Nat.mul_succ] at this
    linarith
  · rw [heq] at hp
    exact hp.symm.trans hn
  · have := Nat.mul_le_mul_left (2 ^ 32) (Nat.succ_le_of_lt hgt)
    rw [Nat.mul_succ] at this
    linarith

theorem WorldInv.segment {seg : Segment} {reply : Reply} (h : WorldInv stream irs w) (hpeer : FromPeer stream irs pos seg)
    (hc : Plain w (.segment pos seg reply)) :
    WorldInv stream irs (w.next (input (fun _ => (reply, ())) seg w.uip)) := by
  rcases input_passes (fun _ => (reply, ())) seg w.uip hpeer.offset hpeer.size fun hacc => (hc hacc).2.2 with hp | ⟨hacc, hp⟩
  · exact h.passes hp rfl
  · obtain ⟨⟨h₁, h₂⟩, hplain, -⟩ := hc hacc
    have hsyn : seg.has TCP_SYN = false := by
      cases hs : seg.has TCP_SYN with
      | false => rfl
      | true => exact absurd (hpeer.syn hs).1 hacc.data
    have hseq := hpeer.seqno hsyn
    rw [hacc.seqno, h.established hacc.established] at hseq
    have hpos : pos = w.delivered.length := place_eq hseq.symm h₁ h₂
    rw [hplain] at hp
    refine h.passes hp ?_
    rw [← hpos]
    exact hpeer.data

theorem WorldInv.step (h : WorldInv stream irs w) (hc : Plain w a) (hs : step c stream irs w a = some w') :
    WorldInv stream irs w' := by
  cases a with
  | segment pos seg reply =>
    simp only [Tcp.step] at hs
    split at hs
    · rename_i hpeer
      obtain rfl := Option.some.inj hs
      have h' := h.segment hpeer hc
      exact ⟨h'.delivered, h'.established, h'.lastAck⟩
    · cases hs
  | periodic reply =>
    obtain rfl := Option.some.inj hs
    exact h.passes (periodic_passes c (fun _ => (reply, ())) w.uip) rfl
  | poll len reply =>
    obtain rfl := Option.some.inj hs
    exact h.passes (pollRequest_passes (fun _ => (reply, ())) len w.uip) rfl
  | other slen buf =>
    obtain rfl := Option.some.inj hs
    exact ⟨h.delivered, h.established, h.lastAck⟩

theorem WorldInv.good (h : WorldInv stream irs w) : Good stream irs w := by
  refine ⟨w.delivered.length, fun _ => false, fun _ hi => absurd hi Bool.false_ne_true, ?_, h.established, h.lastAck⟩
  refine List.ext_getElem? fun i => ?_
  have hle : w.delivered.length ≤ stream.length := by
    have := congrArg List.length h.delivered
    rw [List.length_take] at this
    omega
  by_cases hi : i < w.delivered.length
  · have hget : w.delivered[i] = stream[i] := by
      have := List.getElem_of_eq h.delivered hi
      rwa [List.getElem_take] at this
    simp [hi, hget, List.getElem?_eq_getElem (show i < stream.length by omega)]
  · simp [hi]

def World.init (u : Uip) : World := ⟨u, [], fun _ => false⟩

/-- In every run whose accepted segments are plain the application gets the head of the peer's stream, and
`rcv_nxt` is the sequence number of what comes next. -/
theorem receive_run (c : Conf) (stream : List UInt8) (u : Uip) (xs : List Action) (hs : u.conn.state = .established)
    (h : AllSteps (step c stream u.conn.rcvNxt) Plain (World.init u) xs) :
    AllStates (step c stream u.conn.rcvNxt) (Good stream u.conn.rcvNxt) (World.init u) xs := by
  have hinit : WorldInv stream u.conn.rcvNxt (World.init u) := by
    refine ⟨rfl, fun _ => ?_, fun hl => ?_⟩
    · show u.conn.rcvNxt.toNat = (u.conn.rcvNxt.toNat + 0) % 2 ^ 32
      rw [Nat.add_zero, Nat.mod_eq_of_lt (Seqno.toNat_lt _)]
    · exact absurd (hs.symm.trans hl) TcpState.noConfusion
  exact (allStates_of_allSteps (J := fun _ => True) (fun _ _ _ _ _ => trivial)
    (fun w a w' _ hw hc hstep => WorldInv.step hw hc hstep) xs _ trivial hinit h).mono fun _ hw => hw.good

/-! ## Two segments -/

theorem smallConf_fits : (140 : UInt16).toNat + 60 ≤ 200 := by decide

def smallConf : Conf := ⟨200, 140, 3, 8, 120, smallConf_fits⟩

def smallUip : Uip :=
  ⟨⟨⟨0, 0, 0, 0⟩, ⟨0, 0, 0, 0⟩, 0, 140, 140, 0, 4, 3, .established, false, 3, 0⟩, fun _ => 0, 0⟩

def smallReply : Reply := ⟨{ newdata := true }, false, 0, fun _ => 0⟩

def smallSegment (options : List UInt8) : Segment :=
  ⟨⟨0, 0, 0, 0⟩, ⟨0, 0, 0, 0⟩, UInt8.ofNat (5 + options.length / 4) <<< 4, TCP_ACK, 140, 0, options ++ [10, 20, 30, 40]⟩

theorem receive_run_small : AllStates (step smallConf [10, 20, 30, 40] ⟨0, 0, 0, 0⟩) (Good [10, 20, 30, 40] ⟨0, 0, 0, 0⟩)
    (World.init smallUip) [.segment 0 (smallSegment []) smallReply] :=
  receive_run smallConf [10, 20, 30, 40] smallUip [.segment 0 (smallSegment []) smallReply] rfl
    ⟨fun _ => ⟨⟨Nat.lt_add_of_pos_left (by decide), Nat.lt_add_of_pos_left (by decide)⟩, by decide, fun _ => by decide⟩,
      fun _ _ => trivial⟩

/-- The application gets the options for the data. -/
theorem options_delivered : ¬ AllStates (step smallConf [10, 20, 30, 40] ⟨0, 0, 0, 0⟩)
    (Good [10, 20, 30, 40] ⟨0, 0, 0, 0⟩) (World.init smallUip) [.segment 0 (smallSegment [1, 1, 1, 0]) smallReply] := by
  intro h
  have hrun : (exec (step smallConf [10, 20, 30, 40] ⟨0, 0, 0, 0⟩) (World.init smallUip)
      [.segment 0 (smallSegment [1, 1, 1, 0]) smallReply]).map (fun w => (w.delivered, w.urgent 0)) =
        some ([1, 1, 1, 0], false) := by decide
  obtain ⟨w, hw, hpair⟩ := Option.map_eq_some_iff.1 hrun
  obtain ⟨hdel, hurg⟩ := Prod.mk.inj hpair
  obtain ⟨n, discarded, hmarked, hmap, -⟩ := h.last hw
  rw [hdel] at hmap
  cases n with
  | zero => cases hmap
  | succ n =>
    have hzero : discarded 0 = false := by
      cases hd : discarded 0 with
      | false => rfl
      | true => exact absurd (hmarked 0 hd) (by rw [hurg]; exact Bool.false_ne_true)
    rw [List.range_succ_eq_map, List.filter_cons_of_pos (by simp [hzero]), List.map_cons, List.map_cons] at hmap
    have hhead := (List.cons.inj hmap).1
    exact absurd hhead (by decide)

end Contiki.Tcp

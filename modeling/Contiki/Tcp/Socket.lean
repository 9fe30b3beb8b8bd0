/-
tcp-socket.c: the output buffer of a connected socket, and what the socket does when uIP calls it. What the
user's callbacks do to the socket is given by the event; its input buffer and its listening flag, which the
sender does not look at, are left out.
-/
import Contiki.Tcp.Model

namespace Contiki.Tcp

/-- The part of `struct tcp_socket` for sending; `attached` tells that the connection's state points to it. -/
structure Socket where
  outputData : Nat → UInt8
  outputDataMaxlen : Nat
  outputDataLen : Nat
  outputDataSendNxt : Nat
  outputSenddataLen : Nat
  outputDataMaxSeg : Nat
  closing : Bool
  attached : Bool

inductive Op
  | send (data : List UInt8)
  | close

/-- When the user is called: `call_event` and the input callback. -/
inductive Event
  | connected
  | dataSent
  | input
  | timedout
  | aborted
  | closed

/-- A socket, with the bytes that `tcp_socket_send` has accepted. -/
structure Client where
  sock : Socket
  accepted : List UInt8

abbrev User := Event → List Op

/-- `tcp_socket_send`, with the number of bytes it accepts. -/
def tcpSocketSend (data : List UInt8) (s : Socket) : Nat × Socket :=
  let len := min data.length (s.outputDataMaxlen - s.outputDataLen)
  let s := { s with
    outputData := fun i => if s.outputDataLen ≤ i ∧ i < s.outputDataLen + len then data.getD (i - s.outputDataLen) 0 else s.outputData i
    outputDataLen := s.outputDataLen + len }
  (len, if s.outputSenddataLen = 0 then { s with outputSenddataLen := s.outputDataLen } else s)

def tcpSocketClose (s : Socket) : Socket := { s with closing := true }

@[grind =]
def Client.op (cl : Client) : Op → Client
  | .send data => ⟨(tcpSocketSend data cl.sock).2, cl.accepted ++ data.take (tcpSocketSend data cl.sock).1⟩
  | .close => { cl with sock := tcpSocketClose cl.sock }

/-- `call_event` and the input callback. -/
def Client.event (user : User) (e : Event) (cl : Client) : Client := (user e).foldl Client.op cl

structure Run where
  client : Client
  flags : Flags
  slen : UInt16
  buf : Nat → UInt8

/-- `tcp_markconn(uip_conn, NULL)`. -/
def Client.detach (cl : Client) : Client := { cl with sock := { cl.sock with attached := false } }

/-- `uip_send` of the first bytes of the buffer. -/
def uipSend (c : Conf) (len : Nat) (r : Run) : Run :=
  let copylen := min len (c.bufSize - 60)
  if copylen > 0 then
    { r with slen := UInt16.ofNat copylen, buf := fun i => if i < copylen then r.client.sock.outputData i else r.buf i }
  else r

/-- How much `senddata` sends. -/
def Socket.segLen (s : Socket) (mss : UInt16) : Nat := min s.outputSenddataLen (min s.outputDataMaxSeg mss.toNat)

def senddata (c : Conf) (mss : UInt16) (r : Run) : Run :=
  let s := r.client.sock
  if s.outputSenddataLen > 0 then
    let len := s.segLen mss
    uipSend c len { r with client := { r.client with sock := { s with outputDataSendNxt := len } } }
  else r

def acked (user : User) (r : Run) : Run :=
  let s := r.client.sock
  if s.outputSenddataLen > 0 then
    let s := { s with outputData := fun i =>
      if i < s.outputDataMaxlen - s.outputDataSendNxt then s.outputData (i + s.outputDataSendNxt) else s.outputData i }
    if s.outputDataLen < s.outputDataSendNxt then
      { r with flags := { abort := true }, client := ({ r.client with sock := s } : Client).detach.event user .aborted }
    else
      let s := { s with
        outputDataLen := s.outputDataLen - s.outputDataSendNxt
        outputSenddataLen := s.outputDataLen - s.outputDataSendNxt
        outputDataSendNxt := 0 }
      { r with client := ({ r.client with sock := s } : Client).event user .dataSent }
  else r

/-- The part of `appcall` that sends: what was acknowledged goes, and more is put into the buffer. -/
def appcallSend (c : Conf) (user : User) (mss : UInt16) (r : Run) : Run :=
  let r := if r.flags.ackdata then acked user r else r
  let r := if r.flags.newdata then { r with client := r.client.event user .input } else r
  if r.flags.rexmit ∨ r.flags.newdata ∨ r.flags.ackdata ∨ r.flags.poll then senddata c mss r else r

/-- The end of `appcall`: the socket closes when it has sent all, or the connection is closed. -/
def appcallClose (user : User) (r : Run) : Run :=
  let s := r.client.sock
  let r :=
    if s.outputDataLen = 0 ∧ s.closing then
      { r with flags := { close := true }, client := ({ r.client with sock := { s with closing := false } } : Client).detach }
    else r
  if r.flags.close then { r with client := r.client.detach.event user .closed } else r

/-- `appcall` once the connection is there. -/
def tcpSocketAppcall (c : Conf) (user : User) (cl : Client) : App Client := fun call =>
  if cl.sock.attached then
    let r : Run := ⟨cl, call.flags, call.uip.slen, call.uip.buf⟩
    let r := if r.flags.timedout then { r with client := r.client.event user .timedout } else r
    let r := if r.flags.abort then { r with client := r.client.detach.event user .aborted } else r
    let r := appcallClose user (appcallSend c user call.uip.conn.mss r)
    (⟨r.flags, call.uip.conn.stopped, r.slen, r.buf⟩, r.client)
  else (⟨{ abort := true }, call.uip.conn.stopped, call.uip.slen, call.uip.buf⟩, cl)

/-- `appcall` at UIP_CONNECTED, for the socket that the connection is for. -/
def tcpSocketConnected (c : Conf) (user : User) (cl : Client) : App Client := fun call =>
  let cl : Client := { cl with sock := { cl.sock with outputDataMaxSeg := call.uip.conn.mss.toNat, attached := true } }
  let r : Run := ⟨cl.event user .connected, call.flags, call.uip.slen, call.uip.buf⟩
  let r := if r.flags.newdata then { r with client := r.client.event user .input } else r
  let r := senddata c call.uip.conn.mss r
  (⟨r.flags, call.uip.conn.stopped, r.slen, r.buf⟩, r.client)

/-! ## The buffer -/

variable {c : Conf} {user : User} {cl cl' : Client} {n : Nat}

/-- The buffer holds what was accepted behind the first `n` bytes. -/
structure ClientOk (n : Nat) (cl : Client) : Prop where
  len : cl.sock.outputDataLen ≤ cl.sock.outputDataMaxlen
  senddata : cl.sock.outputSenddataLen ≤ cl.sock.outputDataLen
  length : cl.accepted.length = n + cl.sock.outputDataLen
  held : ∀ i < cl.sock.outputDataLen, cl.accepted[n + i]? = some (cl.sock.outputData i)

/-- What the user may do to a socket between two sends. -/
structure Grows (cl cl' : Client) : Prop where
  accepted : cl.accepted <+: cl'.accepted
  sendNxt : cl'.sock.outputDataSendNxt = cl.sock.outputDataSendNxt
  maxSeg : cl'.sock.outputDataMaxSeg = cl.sock.outputDataMaxSeg
  attached : cl'.sock.attached = cl.sock.attached
  senddata : cl.sock.outputSenddataLen ≠ 0 → cl'.sock.outputSenddataLen = cl.sock.outputSenddataLen

theorem Grows.refl (cl : Client) : Grows cl cl := ⟨List.prefix_refl _, rfl, rfl, rfl, fun _ => rfl⟩

theorem Grows.trans {cl'' : Client} (h : Grows cl cl') (h' : Grows cl' cl'') : Grows cl cl'' where
  accepted := h.accepted.trans h'.accepted
  sendNxt := h'.sendNxt.trans h.sendNxt
  maxSeg := h'.maxSeg.trans h.maxSeg
  attached := h'.attached.trans h.attached
  senddata hne := by
    have heq := h.senddata hne
    rw [h'.senddata (by rwa [heq]), heq]

theorem ClientOk.op (h : ClientOk n cl) (o : Op) : ClientOk n (cl.op o) ∧ Grows cl (cl.op o) := by
  cases o with
  | close => exact ⟨⟨h.len, h.senddata, h.length, h.held⟩, ⟨List.prefix_refl _, rfl, rfl, rfl, fun _ => rfl⟩⟩
  | send data =>
    obtain ⟨hlen, hsend, hlength, hheld⟩ := h
    generalize hk : min data.length (cl.sock.outputDataMaxlen - cl.sock.outputDataLen) = k
    have hk₁ : k ≤ data.length := hk ▸ Nat.min_le_left ..
    have hk₂ : cl.sock.outputDataLen + k ≤ cl.sock.outputDataMaxlen := by
      have : k ≤ cl.sock.outputDataMaxlen - cl.sock.outputDataLen := hk ▸ Nat.min_le_right ..
      omega
    have hacc : (cl.op (.send data)).accepted = cl.accepted ++ data.take k := by rw [← hk]; rfl
    have hnew : (cl.op (.send data)).sock.outputDataLen = cl.sock.outputDataLen + k := by
      rw [← hk]
      simp only [Client.op, tcpSocketSend]
      split <;> rfl
    have hbuf : ∀ i, (cl.op (.send data)).sock.outputData i =
        if cl.sock.outputDataLen ≤ i ∧ i < cl.sock.outputDataLen + k then data.getD (i - cl.sock.outputDataLen) 0
        else cl.sock.outputData i := by
      intro i
      rw [← hk]
      simp only [Client.op, tcpSocketSend]
      split <;> rfl
    have hmax : (cl.op (.send data)).sock.outputDataMaxlen = cl.sock.outputDataMaxlen := by
      simp only [Client.op, tcpSocketSend]
      split <;> rfl
    have hsenddata : (cl.op (.send data)).sock.outputSenddataLen =
        if cl.sock.outputSenddataLen = 0 then cl.sock.outputDataLen + k else cl.sock.outputSenddataLen := by
      rw [← hk]
      simp only [Client.op, tcpSocketSend]
      split <;> rfl
    refine ⟨⟨?_, ?_, ?_, fun i hi => ?_⟩, ⟨hacc ▸ List.prefix_append .., ?_, ?_, ?_, fun hne => ?_⟩⟩
    · rw [hnew, hmax]
      exact hk₂
    · rw [hsenddata, hnew]
      split <;> omega
    · rw [hacc, hnew, List.length_append, List.length_take, hlength, Nat.min_eq_left hk₁, Nat.add_assoc]
    · rw [hnew] at hi
      rw [hacc, hbuf]
      by_cases hlt : i < cl.sock.outputDataLen
      · rw [if_neg (by omega), List.getElem?_append_left (by omega)]
        exact hheld i hlt
      · rw [if_pos (by omega), List.getElem?_append_right (by omega), hlength,
          show n + i - (n + cl.sock.outputDataLen) = i - cl.sock.outputDataLen by omega,
          List.getElem?_take_of_lt (by omega), List.getD_eq_getElem?_getD,
          List.getElem?_eq_getElem (show i - cl.sock.outputDataLen < data.length by omega)]
        rfl
    · simp only [Client.op, tcpSocketSend]
      split <;> rfl
    · simp only [Client.op, tcpSocketSend]
      split <;> rfl
    · simp only [Client.op, tcpSocketSend]
      split <;> rfl
    · rw [hsenddata, if_neg hne]

theorem ClientOk.event (h : ClientOk n cl) (user : User) (e : Event) :
    ClientOk n (cl.event user e) ∧ Grows cl (cl.event user e) := by
  unfold Client.event
  generalize user e = ops
  induction ops generalizing cl with
  | nil => exact ⟨h, Grows.refl cl⟩
  | cons o ops ih =>
    obtain ⟨ho, hg⟩ := h.op o
    obtain ⟨hok, hg'⟩ := ih ho
    exact ⟨hok, hg.trans hg'⟩

theorem ClientOk.detach (h : ClientOk n cl) : ClientOk n cl.detach := ⟨h.len, h.senddata, h.length, h.held⟩

/-! ## What a call does to the socket -/

variable {r r' : Run} {mss : UInt16} {call : Call}

theorem acked_spec (user : User) (h : ClientOk n r.client) (hpos : r.client.sock.outputSenddataLen ≠ 0)
    (hnxt : r.client.sock.outputDataSendNxt ≤ r.client.sock.outputSenddataLen) :
    ClientOk (n + r.client.sock.outputDataSendNxt) (acked user r).client ∧
      r.client.accepted <+: (acked user r).client.accepted ∧
      (acked user r).client.sock.attached = r.client.sock.attached ∧ (acked user r).flags = r.flags ∧
      (acked user r).slen = r.slen := by
  have hle : r.client.sock.outputDataSendNxt ≤ r.client.sock.outputDataLen := hnxt.trans h.senddata
  unfold acked
  dsimp only
  rw [if_pos (Nat.pos_of_ne_zero hpos), if_neg (Nat.not_lt.2 hle)]
  generalize hs : ({ r.client.sock with
    outputData := fun i =>
      if i < r.client.sock.outputDataMaxlen - r.client.sock.outputDataSendNxt then
        r.client.sock.outputData (i + r.client.sock.outputDataSendNxt)
      else r.client.sock.outputData i
    outputDataLen := r.client.sock.outputDataLen - r.client.sock.outputDataSendNxt
    outputSenddataLen := r.client.sock.outputDataLen - r.client.sock.outputDataSendNxt
    outputDataSendNxt := 0 } : Socket) = s
  have hok : ClientOk (n + r.client.sock.outputDataSendNxt) { r.client with sock := s } := by
    have hlen := h.len
    have hlength := h.length
    rw [← hs]
    refine ⟨?_, le_refl _, ?_, fun i hi => ?_⟩
    · show r.client.sock.outputDataLen - r.client.sock.outputDataSendNxt ≤ r.client.sock.outputDataMaxlen
      omega
    · show r.client.accepted.length = n + r.client.sock.outputDataSendNxt +
        (r.client.sock.outputDataLen - r.client.sock.outputDataSendNxt)
      omega
    · have hi' : i < r.client.sock.outputDataLen - r.client.sock.outputDataSendNxt := hi
      show r.client.accepted[n + r.client.sock.outputDataSendNxt + i]? = some (if _ then _ else _)
      rw [if_pos (by omega), Nat.add_assoc, Nat.add_comm r.client.sock.outputDataSendNxt i]
      exact h.held _ (by omega)
  obtain ⟨hev, hg⟩ := hok.event user .dataSent
  refine ⟨hev, hg.accepted, ?_, rfl, rfl⟩
  rw [hg.attached, ← hs]

/-- What the end of a call leaves when the socket does not close. -/
structure Sends (n : Nat) (mss : UInt16) (slen : UInt16) (r : Run) : Prop where
  ok : ClientOk n r.client
  sendNxt : r.client.sock.outputSenddataLen ≠ 0 → r.client.sock.outputDataSendNxt = r.client.sock.segLen mss
  some : 0 < r.client.sock.segLen mss → r.slen.toNat = r.client.sock.segLen mss ∧
    ∀ i < r.client.sock.segLen mss, r.buf i = r.client.sock.outputData i
  none : r.client.sock.segLen mss = 0 → r.slen = slen

theorem segLen_le (s : Socket) (mss : UInt16) : s.segLen mss ≤ s.outputSenddataLen ∧ s.segLen mss ≤ mss.toNat :=
  ⟨Nat.min_le_left .., (Nat.min_le_right ..).trans (Nat.min_le_right ..)⟩

theorem senddata_spec (h : ClientOk n r.client) (hmss : mss ≤ c.tcpMss) :
    Sends n mss r.slen (senddata c mss r) ∧ (senddata c mss r).client.accepted = r.client.accepted ∧
      (senddata c mss r).client.sock.attached = r.client.sock.attached ∧ (senddata c mss r).flags = r.flags ∧
      (senddata c mss r).client.sock.outputSenddataLen = r.client.sock.outputSenddataLen ∧
      (senddata c mss r).client.sock.outputDataMaxSeg = r.client.sock.outputDataMaxSeg := by
  unfold senddata
  dsimp only
  by_cases hpos : r.client.sock.outputSenddataLen > 0
  · rw [if_pos hpos]
    unfold uipSend
    dsimp only
    have hfit : min (r.client.sock.segLen mss) (c.bufSize - 60) = r.client.sock.segLen mss := by
      have h₁ := (segLen_le r.client.sock mss).2
      have h₂ := c.fits
      rw [UInt16.le_iff_toNat_le] at hmss
      exact Nat.min_eq_left (by omega)
    rw [hfit]
    have hlt : r.client.sock.segLen mss < 2 ^ 16 := lt_of_le_of_lt (segLen_le _ mss).2 mss.toNat_lt
    by_cases hlen : r.client.sock.segLen mss > 0
    · rw [if_pos hlen]
      refine ⟨⟨⟨h.len, h.senddata, h.length, h.held⟩, fun _ => rfl, fun _ => ⟨?_, fun i hi => if_pos hi⟩, fun he => ?_⟩,
        rfl, rfl, rfl, rfl, rfl⟩
      · show (UInt16.ofNat (r.client.sock.segLen mss)).toNat = r.client.sock.segLen mss
        rw [UInt16.toNat_ofNat', Nat.mod_eq_of_lt hlt]
      · exact absurd he (Nat.ne_of_gt hlen)
    · rw [if_neg hlen]
      exact ⟨⟨⟨h.len, h.senddata, h.length, h.held⟩, fun _ => rfl, fun hp => absurd hp hlen, fun _ => rfl⟩, rfl, rfl, rfl,
        rfl, rfl⟩
  · rw [if_neg hpos]
    have hzero : r.client.sock.segLen mss = 0 := by
      have := (segLen_le r.client.sock mss).1
      omega
    exact ⟨⟨h, fun hne => absurd hne (by simpa using hpos), fun hp => absurd hzero (Nat.ne_of_gt hp), fun _ => rfl⟩, rfl, rfl,
      rfl, rfl, rfl⟩

def Run.removes (r : Run) : Nat := if r.flags.ackdata then r.client.sock.outputDataSendNxt else 0

/-- The data that is acknowledged was sent from the buffer. -/
def Run.AckOk (r : Run) : Prop := r.flags.ackdata = true → r.client.sock.outputSenddataLen ≠ 0 ∧
  r.client.sock.outputDataSendNxt ≤ r.client.sock.outputSenddataLen

theorem appcallSend_spec (user : User) (h : ClientOk n r.client) (hack : r.AckOk)
    (hmss : r.flags.rexmit ∨ r.flags.newdata ∨ r.flags.ackdata ∨ r.flags.poll → mss ≤ c.tcpMss) :
    ClientOk (n + r.removes) (appcallSend c user mss r).client ∧
      r.client.accepted <+: (appcallSend c user mss r).client.accepted ∧
      (appcallSend c user mss r).client.sock.attached = r.client.sock.attached ∧
      (appcallSend c user mss r).flags = r.flags ∧ (r.flags.rexmit ∨ r.flags.newdata ∨ r.flags.ackdata ∨ r.flags.poll →
        Sends (n + r.removes) mss r.slen (appcallSend c user mss r)) ∧
      (r.flags.ackdata = false → r.client.sock.outputSenddataLen ≠ 0 →
        (appcallSend c user mss r).client.sock.segLen mss = r.client.sock.segLen mss) := by
  unfold appcallSend
  dsimp only
  obtain ⟨r₁, hr₁, hok₁, hpre₁, hatt₁, hfl₁, hslen₁, hseg₁⟩ : ∃ r₁, (if r.flags.ackdata then acked user r else r) = r₁ ∧
      ClientOk (n + r.removes) r₁.client ∧ r.client.accepted <+: r₁.client.accepted ∧
      r₁.client.sock.attached = r.client.sock.attached ∧ r₁.flags = r.flags ∧ r₁.slen = r.slen ∧
      (r.flags.ackdata = false → r₁ = r) := by
    refine ⟨_, rfl, ?_⟩
    unfold Run.removes
    by_cases ha : r.flags.ackdata = true
    · rw [if_pos ha, if_pos ha]
      obtain ⟨hok, hpre, hatt, hfl, hslen⟩ := acked_spec user h (hack ha).1 (hack ha).2
      exact ⟨hok, hpre, hatt, hfl, hslen, fun hn => absurd (hn.symm.trans ha) Bool.false_ne_true⟩
    · rw [if_neg ha, if_neg ha]
      exact ⟨h, List.prefix_refl _, rfl, rfl, rfl, fun _ => rfl⟩
  rw [hr₁]
  obtain ⟨r₂, hr₂, hok₂, hg₂, hfl₂, hslen₂⟩ : ∃ r₂,
      (if r₁.flags.newdata then { r₁ with client := r₁.client.event user .input } else r₁) = r₂ ∧
      ClientOk (n + r.removes) r₂.client ∧ Grows r₁.client r₂.client ∧ r₂.flags = r₁.flags ∧ r₂.slen = r₁.slen := by
    refine ⟨_, rfl, ?_⟩
    by_cases hn : r₁.flags.newdata = true
    · rw [if_pos hn]
      obtain ⟨hok, hg⟩ := hok₁.event user .input
      exact ⟨hok, hg, rfl, rfl⟩
    · rw [if_neg hn]
      exact ⟨hok₁, Grows.refl _, rfl, rfl⟩
  rw [hr₂]
  have hkeep : r.flags.ackdata = false → r.client.sock.outputSenddataLen ≠ 0 →
      r₂.client.sock.outputSenddataLen = r.client.sock.outputSenddataLen ∧
        r₂.client.sock.outputDataMaxSeg = r.client.sock.outputDataMaxSeg := by
    intro ha hne
    obtain rfl := hseg₁ ha
    exact ⟨hg₂.senddata hne, hg₂.maxSeg⟩
  have hfl : r₂.flags = r.flags := hfl₂.trans hfl₁
  have hsegLen : ∀ {s : Socket}, r.flags.ackdata = false → r.client.sock.outputSenddataLen ≠ 0 →
      s.outputSenddataLen = r₂.client.sock.outputSenddataLen → s.outputDataMaxSeg = r₂.client.sock.outputDataMaxSeg →
      s.segLen mss = r.client.sock.segLen mss := by
    intro s ha hne h₁ h₂
    obtain ⟨hk₁, hk₂⟩ := hkeep ha hne
    rw [Socket.segLen, Socket.segLen, h₁, h₂, hk₁, hk₂]
  rw [hfl]
  by_cases hsends : r.flags.rexmit = true ∨ r.flags.newdata = true ∨ r.flags.ackdata = true ∨ r.flags.poll = true
  · rw [if_pos hsends]
    obtain ⟨hs, hacc, hatt, hfls, hsl, hms⟩ := senddata_spec hok₂ (hmss hsends)
    refine ⟨hs.ok, ?_, hatt.trans (hg₂.attached.trans hatt₁), hfls.trans hfl, fun _ => ?_, fun ha hne => hsegLen ha hne hsl hms⟩
    · rw [hacc]
      exact hpre₁.trans hg₂.accepted
    · rw [hslen₂, hslen₁] at hs
      exact hs
  · rw [if_neg hsends]
    exact ⟨hok₂, hpre₁.trans hg₂.accepted, hg₂.attached.trans hatt₁, hfl, fun hs => absurd hs hsends,
      fun ha hne => hsegLen ha hne rfl rfl⟩

theorem appcallClose_spec (h : ClientOk n r.client) (user : User) : ClientOk n (appcallClose user r).client ∧
    r.client.accepted <+: (appcallClose user r).client.accepted ∧
    (appcallClose user r = r ∧ r.flags.close = false ∨ (appcallClose user r).flags.close = true ∧
      (r.flags.close = true ∨ r.client.sock.outputDataLen = 0)) ∧
    (r.flags.abort = false → (appcallClose user r).flags.abort = false) := by
  unfold appcallClose
  dsimp only
  by_cases hc : r.client.sock.outputDataLen = 0 ∧ r.client.sock.closing = true
  · rw [if_pos hc]
    have hok : ClientOk n (({ r.client with sock := { r.client.sock with closing := false } } : Client).detach.detach) :=
      ⟨h.len, h.senddata, h.length, h.held⟩
    obtain ⟨hev, hg⟩ := hok.event user .closed
    exact ⟨hev, hg.accepted, .inr ⟨rfl, .inr hc.1⟩, fun _ => rfl⟩
  · rw [if_neg hc]
    by_cases hcl : r.flags.close = true
    · rw [if_pos hcl]
      obtain ⟨hev, hg⟩ := h.detach.event user .closed
      exact ⟨hev, hg.accepted, .inr ⟨hcl, .inl hcl⟩, id⟩
    · rw [if_neg hcl]
      exact ⟨h, List.prefix_refl _, .inl ⟨rfl, by simpa using hcl⟩, id⟩

theorem appcall_ok (user : User) (call : Call) (h : ClientOk n cl)
    (hmss : call.flags.rexmit ∨ call.flags.newdata ∨ call.flags.ackdata ∨ call.flags.poll → call.uip.conn.mss ≤ c.tcpMss)
    (hack : call.flags.ackdata = true → cl.sock.attached = true ∧ call.flags.timedout = false ∧ call.flags.abort = false ∧
      cl.sock.outputSenddataLen ≠ 0 ∧ cl.sock.outputDataSendNxt ≤ cl.sock.outputSenddataLen) :
    ClientOk (n + if call.flags.ackdata then cl.sock.outputDataSendNxt else 0) (tcpSocketAppcall c user cl call).2 ∧
      cl.accepted <+: (tcpSocketAppcall c user cl call).2.accepted := by
  unfold tcpSocketAppcall
  by_cases hatt : cl.sock.attached = true
  · rw [if_pos hatt]
    dsimp only
    obtain ⟨r₁, hr₁, hok₁, hpre₁, hfl₁, hsame₁⟩ : ∃ r₁ : Run,
        (if call.flags.timedout then
          ({ client := cl.event user .timedout, flags := call.flags, slen := call.uip.slen, buf := call.uip.buf } : Run)
          else ⟨cl, call.flags, call.uip.slen, call.uip.buf⟩) = r₁ ∧
        ClientOk n r₁.client ∧ cl.accepted <+: r₁.client.accepted ∧ r₁.flags = call.flags ∧
        (call.flags.ackdata = true → r₁.client = cl) := by
      refine ⟨_, rfl, ?_⟩
      by_cases ht : call.flags.timedout = true
      · rw [if_pos ht]
        obtain ⟨hok, hg⟩ := h.event user .timedout
        exact ⟨hok, hg.accepted, rfl, fun ha => absurd ((hack ha).2.1.symm.trans ht) Bool.false_ne_true⟩
      · rw [if_neg ht]
        exact ⟨h, List.prefix_refl _, rfl, fun _ => rfl⟩
    rw [hr₁]
    obtain ⟨r₂, hr₂, hok₂, hpre₂, hfl₂, hsame₂⟩ : ∃ r₂ : Run,
        (if r₁.flags.abort then { r₁ with client := r₁.client.detach.event user .aborted } else r₁) = r₂ ∧
        ClientOk n r₂.client ∧ cl.accepted <+: r₂.client.accepted ∧ r₂.flags = call.flags ∧
        (call.flags.ackdata = true → r₂.client = cl) := by
      refine ⟨_, rfl, ?_⟩
      rw [hfl₁]
      by_cases ha : call.flags.abort = true
      · rw [if_pos ha]
        obtain ⟨hok, hg⟩ := hok₁.detach.event user .aborted
        exact ⟨hok, hpre₁.trans hg.accepted, rfl, fun hk => absurd ((hack hk).2.2.1.symm.trans ha) Bool.false_ne_true⟩
      · rw [if_neg ha]
        exact ⟨hok₁, hpre₁, hfl₁, hsame₁⟩
    rw [hr₂]
    have hackOk : r₂.AckOk := by
      intro ha
      rw [hfl₂] at ha
      rw [hsame₂ ha]
      exact (hack ha).2.2.2
    have hremoves : r₂.removes = if call.flags.ackdata then cl.sock.outputDataSendNxt else 0 := by
      rw [Run.removes, hfl₂]
      split
      · rename_i ha
        rw [hsame₂ ha]
      · rfl
    obtain ⟨hok₃, hpre₃, -, -, -, -⟩ := appcallSend_spec user hok₂ hackOk (hfl₂ ▸ hmss)
    rw [hremoves] at hok₃
    obtain ⟨hok₄, hpre₄, -, -⟩ := appcallClose_spec hok₃ user
    exact ⟨hok₄, (hpre₂.trans hpre₃).trans hpre₄⟩
  · rw [if_neg hatt, if_neg fun ha => hatt (hack ha).1, Nat.add_zero]
    exact ⟨h, List.prefix_refl _⟩

theorem appcall_sends (user : User) (call : Call) (h : ClientOk n cl) (hatt : cl.sock.attached = true) (hmss : call.uip.conn.mss ≤ c.tcpMss)
    (hfl : call.flags.timedout = false ∧ call.flags.abort = false ∧ call.flags.close = false)
    (hsends : call.flags.rexmit ∨ call.flags.newdata ∨ call.flags.ackdata ∨ call.flags.poll)
    (hack : call.flags.ackdata = true → cl.sock.outputSenddataLen ≠ 0 ∧
      cl.sock.outputDataSendNxt ≤ cl.sock.outputSenddataLen) : (tcpSocketAppcall c user cl call).1.flags.abort = false ∧
    ((tcpSocketAppcall c user cl call).1.flags.close = true ∧
        (call.flags.ackdata = false → cl.sock.segLen call.uip.conn.mss = 0) ∨
      ∃ r : Run, tcpSocketAppcall c user cl call = (⟨r.flags, call.uip.conn.stopped, r.slen, r.buf⟩, r.client) ∧
        r.flags = call.flags ∧ r.client.sock.attached = true ∧
        Sends (n + if call.flags.ackdata then cl.sock.outputDataSendNxt else 0) call.uip.conn.mss call.uip.slen r ∧
        (call.flags.ackdata = false → cl.sock.outputSenddataLen ≠ 0 →
          r.client.sock.segLen call.uip.conn.mss = cl.sock.segLen call.uip.conn.mss)) := by
  unfold tcpSocketAppcall
  rw [if_pos hatt]
  simp only [hfl.1, hfl.2.1, Bool.false_eq_true, if_false]
  obtain ⟨hok, -, hatt₁, hfl₁, hs, hseg⟩ := appcallSend_spec (c := c) user
    (r := ⟨cl, call.flags, call.uip.slen, call.uip.buf⟩) h hack fun _ => hmss
  generalize appcallSend c user call.uip.conn.mss ⟨cl, call.flags, call.uip.slen, call.uip.buf⟩ = r₁ at hok hatt₁ hfl₁ hs hseg
  obtain ⟨-, -, hcases, habort⟩ := appcallClose_spec hok user
  refine ⟨habort (by rw [hfl₁]; exact hfl.2.1), ?_⟩
  rcases hcases with ⟨hsame, -⟩ | ⟨hclose, hwhy⟩
  · rw [hsame]
    exact .inr ⟨r₁, rfl, hfl₁, hatt₁.trans hatt, hs hsends, hseg⟩
  · refine .inl ⟨hclose, fun ha => ?_⟩
    rcases hwhy with hwhy | hwhy
    · rw [hfl₁] at hwhy
      exact absurd (hfl.2.2.symm.trans hwhy) Bool.false_ne_true
    · by_cases hne : cl.sock.outputSenddataLen = 0
      · exact Nat.le_zero.1 (hne ▸ (segLen_le cl.sock _).1)
      · rw [← hseg ha hne]
        have h₁ := (segLen_le r₁.client.sock call.uip.conn.mss).1
        have h₂ := hok.senddata
        omega

theorem connected_sends (user : User) (call : Call) (h : ClientOk n cl) (hmss : call.uip.conn.mss ≤ c.tcpMss) :
    ∃ r : Run, tcpSocketConnected c user cl call = (⟨r.flags, call.uip.conn.stopped, r.slen, r.buf⟩, r.client) ∧
      r.flags = call.flags ∧ r.client.sock.attached = true ∧ Sends n call.uip.conn.mss call.uip.slen r ∧
      cl.accepted <+: r.client.accepted := by
  unfold tcpSocketConnected
  dsimp only
  have hok : ClientOk n
      { cl with sock := { cl.sock with outputDataMaxSeg := call.uip.conn.mss.toNat, attached := true } } :=
    ⟨h.len, h.senddata, h.length, h.held⟩
  obtain ⟨hok₁, hg₁⟩ := hok.event user .connected
  obtain ⟨r, hr, hok₂, hg₂, hfl, hslen⟩ : ∃ r : Run,
      (if call.flags.newdata then (⟨(Client.event user .input (Client.event user .connected
          { cl with sock := { cl.sock with outputDataMaxSeg := call.uip.conn.mss.toNat, attached := true } })),
          call.flags, call.uip.slen, call.uip.buf⟩ : Run)
        else ⟨Client.event user .connected
          { cl with sock := { cl.sock with outputDataMaxSeg := call.uip.conn.mss.toNat, attached := true } },
          call.flags, call.uip.slen, call.uip.buf⟩) = r ∧ ClientOk n r.client ∧
      Grows { cl with sock := { cl.sock with outputDataMaxSeg := call.uip.conn.mss.toNat, attached := true } } r.client ∧
      r.flags = call.flags ∧ r.slen = call.uip.slen := by
    refine ⟨_, rfl, ?_⟩
    by_cases hn : call.flags.newdata = true
    · rw [if_pos hn]
      obtain ⟨hok₂, hg₂⟩ := hok₁.event user .input
      exact ⟨hok₂, hg₁.trans hg₂, rfl, rfl⟩
    · rw [if_neg hn]
      exact ⟨hok₁, hg₁, rfl, rfl⟩
  rw [hr]
  obtain ⟨hs, hacc, hatt, hfls, -, -⟩ := senddata_spec hok₂ hmss
  rw [hslen] at hs
  refine ⟨_, rfl, hfls.trans hfl, hatt.trans hg₂.attached, hs, ?_⟩
  rw [hacc]
  exact hg₂.accepted

end Contiki.Tcp

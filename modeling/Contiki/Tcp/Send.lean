/-
What a connected tcp_socket sends: every segment carries the accepted bytes of its place in the stream, and
the bytes that are acknowledged are those that leave the output buffer, as long as the maximum segment size
gives the socket the same length at each call while data is in flight.
-/
import Contiki.Tcp.Receive
import Contiki.Tcp.Socket

namespace Contiki.Tcp

open Contiki.Lib

/-! ## Runs -/

/-- What happens to a connected socket: any segment for it, the periodic timer and poll requests, with what
the user does if it is called, traffic of other connections, and the user's own calls. -/
inductive SockAction
  | segment (seg : Segment) (user : User)
  | periodic (user : User)
  | poll (len : Nat) (user : User)
  | other (slen : UInt16) (buf : Nat → UInt8)
  | op (o : Op)

/-- A segment that was sent, when `pos` bytes were acknowledged. -/
structure Logged where
  pos : Nat
  seg : Sent

/-- A connection and its socket, the number of bytes that the peer has acknowledged, and what was sent. -/
structure SockWorld where
  uip : Uip
  client : Client
  acked : Nat
  sent : List Logged

/-- How far `snd_nxt` has moved on. -/
def advance (s t : Seqno) : Nat := (t.toNat + 2 ^ 32 - s.toNat) % 2 ^ 32

def SockWorld.next (w : SockWorld) (r : Result Client) : SockWorld :=
  let acked := if w.uip.conn.state = .established then w.acked + advance w.uip.conn.sndNxt r.uip.conn.sndNxt else w.acked
  { uip := r.uip
    client := (r.called.map Prod.snd).getD w.client
    acked := acked
    sent := w.sent ++ (r.sent.map (Logged.mk acked)).toList }

@[grind =]
def sockStep (c : Conf) (w : SockWorld) : SockAction → Option SockWorld
  | .segment seg user =>
    if 60 + seg.body.length < 2 ^ 16 then some (w.next (input (tcpSocketAppcall c user w.client) seg w.uip)) else none
  | .periodic user => some (w.next (periodic c (tcpSocketAppcall c user w.client) w.uip))
  | .poll len user => some (w.next (pollRequest (tcpSocketAppcall c user w.client) len w.uip))
  | .other slen buf => some { w with uip := { w.uip with slen := slen, buf := buf } }
  | .op o => some { w with client := w.client.op o }

/-- What is claimed: the bytes acknowledged are the head of what was accepted, the buffer holds the rest, and
every segment carries the bytes of its place; if it is sent again it carries the same ones. -/
structure SockGood (iss : Seqno) (w : SockWorld) : Prop where
  acked : w.client.accepted.length = w.acked + w.client.sock.outputDataLen
  buffer : ∀ i < w.client.sock.outputDataLen, w.client.accepted[w.acked + i]? = some (w.client.sock.outputData i)
  next : w.uip.conn.state = .established → w.uip.conn.sndNxt.toNat = (iss.toNat + w.acked) % 2 ^ 32
  sent : ∀ e ∈ w.sent, e.seg.payload ≠ [] → e.seg.seqno.toNat = (iss.toNat + e.pos) % 2 ^ 32 ∧
    e.seg.payload = (w.client.accepted.drop e.pos).take e.seg.payload.length
  again : ∀ e ∈ w.sent, ∀ e' ∈ w.sent, e.pos = e'.pos → e.seg.payload ≠ [] → e'.seg.payload ≠ [] →
    e.seg.payload = e'.seg.payload

/-- A segment that comes while data is in flight calls the application with new data. -/
structure Interrupts (u : Uip) (seg : Segment) : Prop where
  established : u.conn.state = .established
  inFlight : u.conn.len ≠ 0
  running : u.conn.stopped = false
  reset : seg.has TCP_RST = false
  header : seg.headerLen ≤ 20 + seg.body.length
  fin : seg.has TCP_FIN = false
  acks : acknowledges u.conn seg = false
  seqno : seg.seqno = u.conn.rcvNxt
  data : urgentLen seg (20 + seg.body.length - seg.headerLen) < 20 + seg.body.length - seg.headerLen

/-- The condition on a step: where the application is called with data in flight, it finds the length that
is in flight; and a poll that finds nothing to send finds no `uip_slen` of another connection. -/
def Steady (c : Conf) (w : SockWorld) : SockAction → Prop
  | .segment seg _ => Interrupts w.uip seg →
      w.client.sock.segLen (windowMss w.uip.conn.initialmss seg.wnd) = w.uip.conn.len.toNat
  | .periodic _ => w.uip.conn.state = .established → w.uip.conn.len ≠ 0 → w.uip.conn.timer = 0 →
      w.uip.conn.nrtx ≠ c.maxRtx → w.client.sock.segLen w.uip.conn.mss = w.uip.conn.len.toNat
  | .poll _ _ => w.uip.conn.state = .established → w.uip.conn.len = 0 → w.client.sock.segLen w.uip.conn.mss = 0 →
      w.uip.slen = 0
  | _ => True

/-! ## Calls for data -/

variable {c : Conf} {iss : Seqno} {user : User} {cl : Client} {n : Nat} {u : Uip} {w w' : SockWorld} {flags : Flags}
  {appdata len : Nat}

theorem Sends.payload {mss slen : UInt16} {r : Run} (h : Sends n mss slen r) {k : Nat} (hk : k = r.client.sock.segLen mss)
    (hpos : 0 < k) : (List.range k).map r.buf = (r.client.accepted.drop n).take k := by
  rw [hk] at hpos
  obtain ⟨-, hbuf⟩ := h.some hpos
  have hle := (segLen_le r.client.sock mss).1.trans h.ok.senddata
  have hlength := h.ok.length
  refine List.ext_getElem ?_ fun i h₁ h₂ => ?_
  · rw [List.length_map, List.length_range, List.length_take, List.length_drop]
    omega
  · rw [List.length_map, List.length_range] at h₁
    have hheld := h.ok.held i (by omega)
    rw [List.getElem?_eq_getElem (by omega)] at hheld
    rw [List.getElem_map, List.getElem_range, hbuf i (by omega), List.getElem_take, List.getElem_drop]
    exact (Option.some.inj hheld).symm

/-- What a call for data leaves, if the connection stays established: what is in flight is what the socket
takes to be in flight, and a segment with data carries it. -/
structure Emits (c : Conf) (n : Nat) (u : Uip) (r : Result Client) (cl : Client) : Prop where
  called : ∃ call, r.called = some (call, cl)
  sndNxt : r.uip.conn.sndNxt = u.conn.sndNxt
  established : r.uip.conn.state = .established → cl.sock.attached = true ∧ r.uip.conn.mss = u.conn.mss ∧
    r.uip.conn.initialmss = u.conn.initialmss ∧
    (r.uip.conn.len ≠ 0 → cl.sock.outputDataSendNxt = r.uip.conn.len.toNat ∧
      r.uip.conn.len.toNat ≤ cl.sock.outputSenddataLen)
  inFlight : r.uip.conn.state = .established → u.conn.len ≠ 0 → r.uip.conn.len = u.conn.len
  sent : ∀ e, r.sent = some e → e.payload ≠ [] → r.uip.conn.state = .established ∧ e.seqno = u.conn.sndNxt ∧
    e.payload = (cl.accepted.drop n).take r.uip.conn.len.toNat ∧ e.payload.length = r.uip.conn.len.toNat

theorem apprexmit_sent {e : Sent} (h : (apprexmit flags u).2 = some e) (hne : e.payload ≠ []) :
    0 < u.conn.len.toNat ∧ e.seqno = u.conn.sndNxt ∧ e.payload = (List.range u.conn.len.toNat).map u.buf := by
  unfold apprexmit at h
  split at h
  · rename_i hpos
    obtain rfl := Option.some.inj h
    exact ⟨UInt16.lt_iff_toNat_lt.1 hpos.2, rfl, rfl⟩
  · split at h
    · obtain rfl := Option.some.inj h
      exact absurd rfl hne
    · cases h

/-- The end of `appsend`, with the length to send settled: it is what the socket has put into the buffer. -/
theorem emits_of_sends {mss slen : UInt16} {r : Run} {call : Call} (hs : Sends n mss slen r) (hatt : r.client.sock.attached = true)
    {v : Uip} (hst : v.conn.state = .established) (hbuf : v.buf = r.buf) (hsnd : v.conn.sndNxt = u.conn.sndNxt) (hmss : v.conn.mss = u.conn.mss)
    (hinit : v.conn.initialmss = u.conn.initialmss)
    (hlen : v.conn.len ≠ 0 → v.conn.len.toNat = r.client.sock.segLen mss) (hfly : u.conn.len ≠ 0 → v.conn.len = u.conn.len)
    (flags : Flags) : Emits c n u ⟨(apprexmit flags v).1, (apprexmit flags v).2, some (call, r.client)⟩ r.client := by
  have hv : (apprexmit flags v).1 = v := apprexmit_fst flags v
  rw [hv]
  refine ⟨⟨call, rfl⟩, hsnd, fun _ => ⟨hatt, hmss, hinit, fun hne => ?_⟩, fun _ => hfly, fun e he hne => ?_⟩
  · have hseg := hlen hne
    have hpos : v.conn.len.toNat ≠ 0 := fun h => hne (UInt16.toNat_inj.1 h)
    have hle := (segLen_le r.client.sock mss).1
    refine ⟨(hs.sendNxt fun hz => ?_).trans hseg.symm, hseg ▸ hle⟩
    rw [hz] at hle
    omega
  · obtain ⟨hpos, hseq, hpay⟩ := apprexmit_sent he hne
    have hseg := hlen fun h => by
      rw [h] at hpos
      exact absurd hpos (lt_irrefl _)
    refine ⟨hst, hseq.trans hsnd, ?_, ?_⟩
    · rw [hpay, hbuf]
      exact hs.payload hseg hpos
    · rw [hpay, List.length_map, List.length_range]

/-- The socket is called for data, nothing else being the matter. -/
structure DataCall (c : Conf) (n : Nat) (cl : Client) (flags : Flags) (u : Uip) : Prop where
  ok : ClientOk n cl
  attached : cl.sock.attached = true
  state : u.conn.state = .established
  mss : u.conn.mss ≤ c.tcpMss
  plain : flags.timedout = false ∧ flags.abort = false ∧ flags.close = false
  sends : flags.rexmit ∨ flags.newdata ∨ flags.ackdata ∨ flags.poll
  acks : flags.ackdata = true → u.conn.len = 0 ∧ cl.sock.outputSenddataLen ≠ 0 ∧
    cl.sock.outputDataSendNxt ≤ cl.sock.outputSenddataLen
  steady : u.conn.len ≠ 0 → cl.sock.segLen u.conn.mss = u.conn.len.toNat
  idle : u.conn.len = 0 → (flags.ackdata = false → cl.sock.segLen u.conn.mss = 0) → u.slen = 0

def removed (flags : Flags) (cl : Client) : Nat := if flags.ackdata then cl.sock.outputDataSendNxt else 0

theorem sendLength_inFlight (h : u.conn.len ≠ 0) (ha : flags.ackdata = false) (hs : u.slen > 0) :
    sendLength flags u = { u with slen := u.conn.len } := by
  unfold sendLength
  rw [if_pos hs, ha]
  dsimp only
  rw [if_neg Bool.false_ne_true, if_neg h]

theorem sendLength_idle (h : u.conn.len = 0) (hs : u.slen > 0) (hm : u.slen ≤ u.conn.mss) :
    sendLength flags u = { u with conn := { u.conn with len := u.slen } } := by
  unfold sendLength
  rw [if_pos hs]
  have hlen : (if flags.ackdata = true then (0 : UInt16) else u.conn.len) = 0 := by
    split
    · rfl
    · exact h
  dsimp only
  rw [hlen, if_pos rfl, if_neg (UInt16.not_lt.2 hm)]

theorem callAndSend_sends {app : App Client} {r : Run} (hr : app ⟨flags, appdata, len, u⟩ =
      (⟨r.flags, u.conn.stopped, r.slen, r.buf⟩, r.client)) (hfl : r.flags = flags)
    (hplain : flags.abort = false ∧ flags.close = false) (hatt : r.client.sock.attached = true)
    (hst : u.conn.state = .established) (hs : Sends n u.conn.mss u.slen r)
    (hidle : u.conn.len = 0 → r.client.sock.segLen u.conn.mss = 0 → u.slen = 0)
    (hfly : u.conn.len ≠ 0 → flags.ackdata = false ∧ r.client.sock.segLen u.conn.mss = u.conn.len.toNat) :
    Emits c n u (callAndSend app flags appdata len u) r.client := by
  have hsend : ∀ v, appsend r.flags v =
      apprexmit r.flags { sendLength r.flags v with conn := { (sendLength r.flags v).conn with nrtx := 0 } } := by
    intro v
    rw [appsend, hfl, hplain.1, hplain.2]
    rfl
  unfold callAndSend appcall
  dsimp only
  rw [hr]
  dsimp only
  rw [hsend]
  obtain ⟨v, hv, hvbuf, hvslen, hvlen, hvmss, hvinit, hvsnd, hvst⟩ : ∃ v : Uip,
      (⟨{ u.conn with stopped := u.conn.stopped }, r.buf, r.slen⟩ : Uip) = v ∧ v.buf = r.buf ∧ v.slen = r.slen ∧
      v.conn.len = u.conn.len ∧ v.conn.mss = u.conn.mss ∧ v.conn.initialmss = u.conn.initialmss ∧
      v.conn.sndNxt = u.conn.sndNxt ∧ v.conn.state = .established :=
    ⟨_, rfl, rfl, rfl, rfl, rfl, rfl, rfl, hst⟩
  rw [hv]
  by_cases hlen : u.conn.len = 0
  · by_cases hseg : r.client.sock.segLen u.conn.mss = 0
    · -- nothing to send
      have hslen : v.slen = 0 := hvslen.trans ((hs.none hseg).trans (hidle hlen hseg))
      have hsl : sendLength r.flags v = v := by
        rw [sendLength, hslen]
        rfl
      rw [hsl]
      refine emits_of_sends hs hatt ?_ ?_ ?_ ?_ ?_ ?_ (fun hne => absurd hlen hne) r.flags
      · exact hvst
      · exact hvbuf
      · exact hvsnd
      · exact hvmss
      · exact hvinit
      · exact fun hne => absurd (hvlen.trans hlen) hne
    · obtain ⟨hslen, -⟩ := hs.some (Nat.pos_of_ne_zero hseg)
      have hpos : v.slen > 0 := by
        rw [hvslen, gt_iff_lt, UInt16.lt_iff_toNat_lt, hslen]
        exact Nat.pos_of_ne_zero hseg
      have hm : v.slen ≤ v.conn.mss := by
        rw [hvslen, hvmss, UInt16.le_iff_toNat_le, hslen]
        exact (segLen_le _ _).2
      rw [sendLength_idle (hvlen.trans hlen) hpos hm]
      refine emits_of_sends hs hatt ?_ ?_ ?_ ?_ ?_ ?_ (fun hne => absurd hlen hne) r.flags
      · exact hvst
      · exact hvbuf
      · exact hvsnd
      · exact hvmss
      · exact hvinit
      · exact fun _ => (congrArg UInt16.toNat hvslen).trans hslen
  · obtain ⟨hack, hseg⟩ := hfly hlen
    have hlenpos : u.conn.len.toNat ≠ 0 := fun hz => hlen (UInt16.toNat_inj.1 hz)
    obtain ⟨hslen, -⟩ := hs.some (by rw [hseg]; omega)
    have hpos : v.slen > 0 := by
      rw [hvslen, gt_iff_lt, UInt16.lt_iff_toNat_lt, hslen]
      exact Nat.pos_of_ne_zero (hseg ▸ hlenpos)
    have hvne : v.conn.len ≠ 0 := by rwa [hvlen]
    rw [sendLength_inFlight hvne (by rw [hfl]; exact hack) hpos]
    refine emits_of_sends hs hatt ?_ ?_ ?_ ?_ ?_ ?_ ?_ r.flags
    · exact hvst
    · exact hvbuf
    · exact hvsnd
    · exact hvmss
    · exact hvinit
    · exact fun _ => (congrArg UInt16.toNat hvlen).trans hseg.symm
    · exact fun _ => hvlen

theorem callAndSend_emits (user : User) (appdata len : Nat) (flags : Flags) (h : DataCall c n cl flags u) : ∃ cl',
    ClientOk (n + removed flags cl) cl' ∧ cl.accepted <+: cl'.accepted ∧
      Emits c (n + removed flags cl) u (callAndSend (tcpSocketAppcall c user cl) flags appdata len u) cl' := by
  obtain ⟨hok, hpre⟩ := appcall_ok user ⟨flags, appdata, len, u⟩ h.ok (fun _ => h.mss)
    fun ha => ⟨h.attached, h.plain.1, h.plain.2.1, (h.acks ha).2⟩
  obtain ⟨habort, hcases⟩ := appcall_sends user ⟨flags, appdata, len, u⟩ h.ok h.attached h.mss h.plain
    h.sends fun ha => (h.acks ha).2
  refine ⟨_, hok, hpre, ?_⟩
  rcases hcases with ⟨hclose, -⟩ | ⟨r, hr, hfl, hatt, hs, hkeep⟩
  · -- the socket closes: a FIN goes out
    have hsend : ∀ v, appsend (tcpSocketAppcall c user cl ⟨flags, appdata, len, u⟩).1.flags v =
        ({ v with slen := 0, conn := { v.conn with len := 1, state := .finWait1, stopped := false, nrtx := 0 } },
          some (tcpSend (TCP_FIN ||| TCP_ACK) 0
            { v with slen := 0, conn := { v.conn with len := 1, state := .finWait1, stopped := false, nrtx := 0 } })) := by
      intro v
      rw [appsend, habort, hclose]
      rfl
    unfold callAndSend appcall
    dsimp only
    rw [hsend]
    exact ⟨⟨_, rfl⟩, rfl, fun h => TcpState.noConfusion h, fun h => TcpState.noConfusion h,
      fun e he hne => absurd (by obtain rfl := Option.some.inj he; rfl) hne⟩
  · have hcl : (tcpSocketAppcall c user cl ⟨flags, appdata, len, u⟩).2 = r.client := by rw [hr]
    rw [hcl]
    refine callAndSend_sends hr hfl h.plain.2 hatt h.state hs (fun hlen hseg => ?_) fun hlen => ?_
    · refine h.idle hlen fun ha => ?_
      by_cases hne : cl.sock.outputSenddataLen = 0
      · exact Nat.le_zero.1 (hne ▸ (segLen_le cl.sock _).1)
      · exact (hkeep ha hne).symm.trans hseg
    · have ha : flags.ackdata = false := by
        cases ha : flags.ackdata with
        | false => rfl
        | true => exact absurd (h.acks ha).1 hlen
      have hsteady := h.steady hlen
      have hlenpos : u.conn.len.toNat ≠ 0 := fun hz => hlen (UInt16.toNat_inj.1 hz)
      have hne : cl.sock.outputSenddataLen ≠ 0 := by
        have := (segLen_le cl.sock u.conn.mss).1
        omega
      exact ⟨ha, (hkeep ha hne).trans hsteady⟩

theorem retransmit_emits (user : User) (h : ClientOk n cl) (hatt : cl.sock.attached = true) (hst : u.conn.state = .established)
    (hmss : u.conn.mss ≤ c.tcpMss) (hlen : u.conn.len ≠ 0) (hsteady : cl.sock.segLen u.conn.mss = u.conn.len.toNat) :
    ∃ cl', ClientOk n cl' ∧ cl.accepted <+: cl'.accepted ∧
      Emits c n u (retransmit (tcpSocketAppcall c user cl) u) cl' := by
  obtain ⟨hok, hpre⟩ := appcall_ok user ⟨{ rexmit := true }, 0, 0, u⟩ h (fun _ => hmss) fun ha => by cases ha
  obtain ⟨-, hcases⟩ := appcall_sends user ⟨{ rexmit := true }, 0, 0, u⟩ h hatt hmss ⟨rfl, rfl, rfl⟩
    (.inl rfl) fun ha => by cases ha
  have hlenpos : u.conn.len.toNat ≠ 0 := fun hz => hlen (UInt16.toNat_inj.1 hz)
  refine ⟨_, hok, hpre, ?_⟩
  rcases hcases with ⟨-, hzero⟩ | ⟨r, hr, -, hatt', hs, hkeep⟩
  · exact absurd (hsteady.symm.trans (hzero rfl)) hlenpos
  · have hne : cl.sock.outputSenddataLen ≠ 0 := by
      have := (segLen_le cl.sock u.conn.mss).1
      omega
    have hseg : r.client.sock.segLen u.conn.mss = u.conn.len.toNat := (hkeep rfl hne).trans hsteady
    have hcl : (tcpSocketAppcall c user cl ⟨{ rexmit := true }, 0, 0, u⟩).2 = r.client := by rw [hr]
    rw [hcl]
    unfold retransmit
    rw [hst]
    unfold appcall
    dsimp only
    rw [hr]
    refine emits_of_sends hs hatt' ?_ ?_ ?_ ?_ ?_ ?_ ?_ r.flags
    · exact hst
    · rfl
    · rfl
    · rfl
    · rfl
    · exact fun _ => hseg.symm
    · exact fun _ => rfl

/-! ## Steps -/

/-- The connection is established: the socket is the application of it, and its notion of what is in flight
is that of uIP. -/
structure Flight (c : Conf) (iss : Seqno) (acked : Nat) (conn : Conn) (cl : Client) : Prop where
  attached : cl.sock.attached = true
  sndNxt : conn.sndNxt.toNat = (iss.toNat + acked) % 2 ^ 32
  mss : conn.mss ≤ c.tcpMss
  initialmss : conn.initialmss ≤ c.tcpMss
  sendNxt : conn.len ≠ 0 → cl.sock.outputDataSendNxt = conn.len.toNat ∧ conn.len.toNat ≤ cl.sock.outputSenddataLen

/-- A logged segment carries the bytes of its place. -/
structure LoggedOk (iss : Seqno) (accepted : List UInt8) (acked : Nat) (e : Logged) : Prop where
  pos : e.pos ≤ acked
  seqno : e.seg.payload ≠ [] → e.seg.seqno.toNat = (iss.toNat + e.pos) % 2 ^ 32
  payload : e.seg.payload = (accepted.drop e.pos).take e.seg.payload.length

structure SockInv (c : Conf) (iss : Seqno) (w : SockWorld) : Prop where
  ok : ClientOk w.acked w.client
  log : ∀ e ∈ w.sent, LoggedOk iss w.client.accepted w.acked e
  again : ∀ e ∈ w.sent, ∀ e' ∈ w.sent, e.pos = e'.pos → e.seg.payload ≠ [] → e'.seg.payload ≠ [] →
    e.seg.payload.length = e'.seg.payload.length
  flight : w.uip.conn.state = .established → Flight c iss w.acked w.uip.conn w.client
  current : w.uip.conn.state = .established → ∀ e ∈ w.sent, e.pos = w.acked → e.seg.payload ≠ [] →
    e.seg.payload.length = w.uip.conn.len.toNat

theorem LoggedOk.mono {iss : Seqno} {acc acc' : List UInt8} {k k' : Nat} {e : Logged} (h : LoggedOk iss acc k e)
    (hk : k ≤ k') (hacc : acc <+: acc') : LoggedOk iss acc' k' e := by
  refine ⟨h.pos.trans hk, h.seqno, ?_⟩
  obtain ⟨more, rfl⟩ := hacc
  by_cases hpos : e.pos ≤ acc.length
  · have hlen : e.seg.payload.length ≤ (acc.drop e.pos).length := by
      have := congrArg List.length h.payload
      rw [List.length_take] at this
      omega
    rw [List.drop_append_of_le_length hpos, List.take_append_of_le_length hlen]
    exact h.payload
  · have hnil : e.seg.payload = [] := by
      rw [h.payload, List.drop_eq_nil_of_le (by omega), List.take_nil]
    rw [hnil]
    rfl

/-- A run of `uip_process` that acknowledges `k` bytes. -/
structure Processed (c : Conf) (iss : Seqno) (w : SockWorld) (r : Result Client) (k : Nat) : Prop where
  advance : w.uip.conn.state = .established → advance w.uip.conn.sndNxt r.uip.conn.sndNxt = k
  left : w.uip.conn.state ≠ .established → r.uip.conn.state ≠ .established ∧ k = 0
  ok : ClientOk (w.acked + k) (w.next r).client
  accepted : w.client.accepted <+: (w.next r).client.accepted
  flight : r.uip.conn.state = .established → Flight c iss (w.acked + k) r.uip.conn (w.next r).client
  inFlight : r.uip.conn.state = .established → k = 0 → w.uip.conn.len ≠ 0 → r.uip.conn.len = w.uip.conn.len
  sent : ∀ e, r.sent = some e → e.payload ≠ [] → r.uip.conn.state = .established ∧
    e.seqno.toNat = (iss.toNat + (w.acked + k)) % 2 ^ 32 ∧
    e.payload = ((w.next r).client.accepted.drop (w.acked + k)).take e.payload.length ∧
    e.payload.length = r.uip.conn.len.toNat

theorem SockInv.next {r : Result Client} {k : Nat} (h : SockInv c iss w) (hp : Processed c iss w r k) :
    SockInv c iss (w.next r) := by
  have hacked : (w.next r).acked = w.acked + k := by
    unfold SockWorld.next
    dsimp only
    by_cases hest : w.uip.conn.state = .established
    · rw [if_pos hest, hp.advance hest]
    · rw [if_neg hest, (hp.left hest).2, Nat.add_zero]
  have hmem : ∀ e ∈ (w.next r).sent, e ∈ w.sent ∨ ∃ seg, r.sent = some seg ∧ e = ⟨w.acked + k, seg⟩ := by
    intro e he
    rw [← hacked]
    rcases List.mem_append.1 he with he | he
    · exact .inl he
    · rw [Option.mem_toList, Option.map_eq_some_iff] at he
      obtain ⟨seg, hseg, rfl⟩ := he
      exact .inr ⟨seg, hseg, rfl⟩
  -- a segment of the current place that is in the log has the length in flight
  have hcurrent : ∀ e ∈ w.sent, e.pos = w.acked + k → e.seg.payload ≠ [] → r.uip.conn.state = .established →
      e.seg.payload.length = r.uip.conn.len.toNat := by
    intro e he hpos hne hest
    have hle := (h.log e he).pos
    have hk : k = 0 := by omega
    have hest' : w.uip.conn.state = .established := by
      by_contra hn
      exact (hp.left hn).1 hest
    have hlen := h.current hest' e he (by rw [hpos, hk, Nat.add_zero]) hne
    have hne' : w.uip.conn.len ≠ 0 := fun hz => hne (List.length_eq_zero_iff.1 (by rw [hlen, hz]; rfl))
    rw [hp.inFlight hest hk hne', hlen]
  have hlog : ∀ e ∈ (w.next r).sent, LoggedOk iss (w.next r).client.accepted (w.acked + k) e := by
    intro e he
    rcases hmem e he with he | ⟨seg, hseg, rfl⟩
    · exact (h.log e he).mono (Nat.le_add_right ..) hp.accepted
    · refine ⟨le_refl _, fun hne => (hp.sent seg hseg hne).2.1, ?_⟩
      by_cases hne : seg.payload = []
      · rw [hne]
        rfl
      · exact (hp.sent seg hseg hne).2.2.1
  refine ⟨hacked ▸ hp.ok, fun e he => hacked ▸ hlog e he, fun e he e' he' hpos hne hne' => ?_, fun hest => hacked ▸ hp.flight hest,
    fun hest e he hpos hne => ?_⟩
  · rcases hmem e he with he | ⟨seg, hseg, rfl⟩
    · rcases hmem e' he' with he' | ⟨seg', hseg', rfl⟩
      · exact h.again e he e' he' hpos hne hne'
      · obtain ⟨hest, -, -, hlen⟩ := hp.sent seg' hseg' hne'
        exact (hcurrent e he hpos hne hest).trans hlen.symm
    · obtain ⟨hest, -, -, hlen⟩ := hp.sent seg hseg hne
      rcases hmem e' he' with he' | ⟨seg', hseg', rfl⟩
      · exact hlen.trans (hcurrent e' he' hpos.symm hne' hest).symm
      · rw [hseg] at hseg'
        obtain rfl := Option.some.inj hseg'
        rfl
  · rw [hacked] at hpos
    rcases hmem e he with he | ⟨seg, hseg, rfl⟩
    · exact hcurrent e he hpos hne hest
    · exact (hp.sent seg hseg hne).2.2.2

theorem advance_self (s : Seqno) : advance s s = 0 := by
  unfold advance
  rw [Nat.add_sub_cancel_left, Nat.mod_self]

theorem advance_add (s : Seqno) (n : UInt16) : advance s (uipAdd32 s n) = n.toNat := by
  have hs := s.toNat_lt
  have hn := n.toNat_lt
  have ht := (uipAdd32 s n).toNat_lt
  have hadd := uipAdd32_toNat s n
  unfold advance
  by_cases hlt : s.toNat + n.toNat < 2 ^ 32
  · rw [Nat.mod_eq_of_lt hlt] at hadd
    rw [hadd, show s.toNat + n.toNat + 2 ^ 32 - s.toNat = n.toNat + 2 ^ 32 by omega, Nat.add_mod_right, Nat.mod_eq_of_lt]
    exact lt_trans hn (by decide)
  · rw [Nat.mod_eq_sub_mod (Nat.not_lt.1 hlt), Nat.mod_eq_of_lt (by omega)] at hadd
    rw [hadd, show s.toNat + n.toNat - 2 ^ 32 + 2 ^ 32 - s.toNat = n.toNat by omega, Nat.mod_eq_of_lt]
    exact lt_trans hn (by decide)

section

variable {r : Result Client} {k : Nat} {cl' : Client}

theorem Processed.quiet (h : SockInv c iss w) (hcalled : r.called = none) (hst : r.uip.conn.state = w.uip.conn.state)
    (hsnd : r.uip.conn.sndNxt = w.uip.conn.sndNxt) (hlen : r.uip.conn.len = w.uip.conn.len)
    (hmss : w.uip.conn.mss ≤ c.tcpMss → w.uip.conn.initialmss ≤ c.tcpMss → r.uip.conn.mss ≤ c.tcpMss)
    (hinit : r.uip.conn.initialmss = w.uip.conn.initialmss) (hsent : ∀ e, r.sent = some e → e.payload = []) :
    Processed c iss w r 0 := by
  have hcl : (w.next r).client = w.client := by
    unfold SockWorld.next
    rw [hcalled]
    rfl
  refine ⟨fun _ => by rw [hsnd, advance_self], fun hn => ⟨hst ▸ hn, rfl⟩, hcl ▸ h.ok, hcl ▸ List.prefix_refl _, fun hest => ?_,
    fun _ _ _ => hlen, fun e he hne => absurd (hsent e he) hne⟩
  obtain ⟨h₁, h₂, h₃, h₄, h₅⟩ := h.flight (hst ▸ hest)
  rw [hcl]
  exact ⟨h₁, hsnd ▸ h₂, hmss h₃ h₄, hinit ▸ h₄, hlen ▸ h₅⟩

theorem Processed.leaves (hcl : (w.next r).client = cl') (hst : r.uip.conn.state ≠ .established)
    (hadv : w.uip.conn.state = .established → Tcp.advance w.uip.conn.sndNxt r.uip.conn.sndNxt = k)
    (hk : w.uip.conn.state ≠ .established → k = 0) (hok : ClientOk (w.acked + k) cl')
    (hpre : w.client.accepted <+: cl'.accepted) (hsent : ∀ e, r.sent = some e → e.payload = []) : Processed c iss w r k :=
  ⟨hadv, fun hn => ⟨hst, hk hn⟩, hcl ▸ hok, hcl ▸ hpre, fun he => absurd he hst, fun he => absurd he hst,
    fun e he hne => absurd (hsent e he) hne⟩

theorem Processed.of_emits (h : SockInv c iss w) (hest : w.uip.conn.state = .established)
    (he : Emits c (w.acked + k) u r cl') (hok : ClientOk (w.acked + k) cl') (hpre : w.client.accepted <+: cl'.accepted)
    (hadv : Tcp.advance w.uip.conn.sndNxt u.conn.sndNxt = k)
    (hsnd : u.conn.sndNxt.toNat = (iss.toNat + (w.acked + k)) % 2 ^ 32) (hmss : u.conn.mss ≤ c.tcpMss)
    (hinit : u.conn.initialmss = w.uip.conn.initialmss) (hlen : k = 0 → u.conn.len = w.uip.conn.len) :
    Processed c iss w r k := by
  obtain ⟨call, hcall⟩ := he.called
  have hcl : (w.next r).client = cl' := by
    unfold SockWorld.next
    rw [hcall]
    rfl
  refine ⟨fun _ => he.sndNxt ▸ hadv, fun hn => absurd hest hn, hcl ▸ hok, hcl ▸ hpre, fun hr => ?_, fun hr hk hne => ?_,
    fun e hsent hne => ?_⟩
  · obtain ⟨hatt, hm, hi, hnxt⟩ := he.established hr
    rw [hcl]
    refine ⟨hatt, he.sndNxt ▸ hsnd, hm ▸ hmss, ?_, hnxt⟩
    rw [hi, hinit]
    exact (h.flight hest).initialmss
  · rw [← hlen hk] at hne ⊢
    exact he.inFlight hr hne
  · obtain ⟨hr, hseq, hpay, hlength⟩ := he.sent e hsent hne
    refine ⟨hr, hseq ▸ hsnd, ?_, hlength⟩
    rw [hcl, hlength]
    exact hpay

end

theorem pollRequest_processed {appdataLen : Nat} (h : SockInv c iss w) (hc : Steady c w (.poll appdataLen user)) :
    ∃ k, Processed c iss w (pollRequest (tcpSocketAppcall c user w.client) appdataLen w.uip) k := by
  unfold pollRequest
  by_cases hest : w.uip.conn.state = .established ∧ w.uip.conn.len = 0
  · rw [if_pos hest]
    have hf := h.flight hest.1
    obtain ⟨cl', hok, hpre, hemits⟩ := callAndSend_emits user 0 appdataLen { poll := true } (u := w.uip)
      ⟨h.ok, hf.attached, hest.1, hf.mss, ⟨rfl, rfl, rfl⟩, .inr (.inr (.inr rfl)), fun ha => by (cases ha),
        fun hne => absurd hest.2 hne, fun _ hz => hc hest.1 hest.2 (hz rfl)⟩
    refine ⟨0, Processed.of_emits h hest.1 hemits hok hpre (advance_self _) hf.sndNxt hf.mss rfl fun _ => rfl⟩
  · rw [if_neg hest]
    exact ⟨0, Processed.quiet h rfl rfl rfl rfl (fun hm _ => hm) rfl fun e he => by cases he⟩

/-- The flags of a call that asks for no data. -/
def Flags.Silent (flags : Flags) : Prop :=
  flags.rexmit = false ∧ flags.newdata = false ∧ flags.ackdata = false ∧ flags.poll = false

/-- A run of `uip_process` that ends outside of the established state, the socket being told of it at most. -/
structure Outside (app : App Client) (r : Result Client) : Prop where
  state : r.uip.conn.state ≠ .established
  called : r.called = none ∨ ∃ call, r.called = some (call, (app call).2) ∧ call.flags.Silent
  sent : ∀ e, r.sent = some e → e.payload = []

theorem Processed.of_outside (user : User) {r : Result Client} (h : SockInv c iss w)
    (ho : Outside (tcpSocketAppcall c user w.client) r)
    (hsnd : w.uip.conn.state = .established → r.uip.conn.sndNxt = w.uip.conn.sndNxt) : Processed c iss w r 0 := by
  have hadv : w.uip.conn.state = .established → Tcp.advance w.uip.conn.sndNxt r.uip.conn.sndNxt = 0 := by
    intro hest
    rw [hsnd hest, advance_self]
  rcases ho.called with hcall | ⟨call, hcall, hr, hn, ha, hp⟩
  · refine Processed.leaves ?_ ho.state hadv (fun _ => rfl) h.ok (List.prefix_refl _) ho.sent
    rw [SockWorld.next, hcall]
    rfl
  · obtain ⟨hok, hpre⟩ := appcall_ok user call h.ok (fun hs => by simp [hr, hn, ha, hp] at hs)
      fun hk => absurd (ha.symm.trans hk) Bool.false_ne_true
    rw [ha] at hok
    refine Processed.leaves ?_ ho.state hadv (fun _ => rfl) hok hpre ho.sent
    rw [SockWorld.next, hcall]
    rfl

theorem periodic_processed (h : SockInv c iss w) (hc : Steady c w (.periodic user)) :
    ∃ k, Processed c iss w (periodic c (tcpSocketAppcall c user w.client) w.uip) k := by
  refine ⟨0, ?_⟩
  unfold periodic
  dsimp only
  split
  · exact Processed.quiet h rfl rfl rfl rfl (fun hm _ => hm) rfl fun e he => by cases he
  · split
    · -- TIME_WAIT and FIN_WAIT_2
      rename_i hwait
      have hne : w.uip.conn.state ≠ .established := by
        intro hest
        rw [hest] at hwait
        exact absurd hwait.1 (by decide)
      refine Processed.of_outside user h ⟨?_, .inl rfl, fun e he => by cases he⟩ fun hest => absurd hest hne
      show (if _ then _ else _ : Conn).state ≠ .established
      split
      · exact fun hs => TcpState.noConfusion hs
      · exact hne
    · split
      · rename_i hlen
        split
        · exact Processed.quiet h rfl rfl rfl rfl (fun hm _ => hm) rfl fun e he => by cases he
        · rename_i hdue
          have hdue := not_not.1 hdue
          split
          · -- the connection is given up
            refine Processed.of_outside user h ⟨fun hs => TcpState.noConfusion hs,
              .inr ⟨_, rfl, rfl, rfl, rfl, rfl⟩, fun e he => by obtain rfl := Option.some.inj he; rfl⟩ fun _ => rfl
          · rename_i hrtx
            by_cases hest : w.uip.conn.state = .established
            · have hf := h.flight hest
              have hsteady := hc hest hlen (by simpa using hdue) hrtx
              obtain ⟨cl', hok, hpre, hemits⟩ := retransmit_emits (c := c) user (n := w.acked) (u :=
                { w.uip with slen := 0, conn := { w.uip.conn with
                    timer := c.rto <<< (if w.uip.conn.nrtx > 4 then 4 else w.uip.conn.nrtx), nrtx := w.uip.conn.nrtx + 1 } })
                h.ok hf.attached hest hf.mss hlen hsteady
              exact Processed.of_emits h hest hemits hok hpre (advance_self _) hf.sndNxt hf.mss rfl fun _ => rfl
            · refine Processed.of_outside user h ?_ fun he => absurd he hest
              unfold retransmit
              split
              · rename_i hs
                exact absurd hs hest
              · exact ⟨hest, .inl rfl, fun e he => by obtain rfl := Option.some.inj he; rfl⟩
              · exact ⟨hest, .inl rfl, fun e he => by obtain rfl := Option.some.inj he; rfl⟩
              · exact ⟨hest, .inl rfl, fun e he => by obtain rfl := Option.some.inj he; rfl⟩
              · exact ⟨hest, .inl rfl, fun e he => by cases he⟩
      · rename_i hlen
        have hlen := not_not.1 hlen
        split
        · rename_i hest
          have hf := h.flight hest
          obtain ⟨cl', hok, hpre, hemits⟩ := callAndSend_emits user 0 0 { poll := true }
            (u := { w.uip with slen := 0 })
            ⟨h.ok, hf.attached, hest, hf.mss, ⟨rfl, rfl, rfl⟩, .inr (.inr (.inr rfl)), fun ha => by (cases ha),
              fun hne => absurd hlen hne, fun _ _ => rfl⟩
          exact Processed.of_emits h hest hemits hok hpre (advance_self _) hf.sndNxt hf.mss rfl fun _ => rfl
        · exact Processed.quiet h rfl rfl rfl rfl (fun hm _ => hm) rfl fun e he => by cases he

theorem windowMss_le (initialmss wnd : UInt16) : windowMss initialmss wnd ≤ initialmss := by
  unfold windowMss
  split
  · exact UInt16.le_refl _
  · rename_i h
    exact UInt16.not_lt.1 fun hlt => h (.inl hlt)

/-- The end of the connection after its last data: nothing is sent but headers. -/
theorem finWaitInput_outside {app : App Client} {seg : Segment} (hst : u.conn.state ≠ .established) :
    Outside app (finWaitInput app seg len flags u) := by
  unfold finWaitInput
  dsimp only
  generalize hv : (if len > 0 then uipAddRcvNxt (UInt16.ofNat len) u else u) = v
  have hst' : v.conn.state ≠ .established := by
    rw [← hv]
    split
    · exact hst
    · exact hst
  split
  · refine ⟨?_, .inr ⟨_, rfl, rfl, rfl, rfl, rfl⟩, fun e he => by obtain rfl := Option.some.inj he; rfl⟩
    show (if _ then _ else _ : Conn).state ≠ .established
    split
    · exact fun hs => TcpState.noConfusion hs
    · exact fun hs => TcpState.noConfusion hs
  · split
    · exact ⟨fun hs => TcpState.noConfusion hs, .inl rfl, fun e he => by cases he⟩
    · split
      · exact ⟨hst', .inl rfl, fun e he => by obtain rfl := Option.some.inj he; rfl⟩
      · exact ⟨hst', .inl rfl, fun e he => by cases he⟩

/-- The connection after the acknowledgment of a segment was looked at, `k` bytes having been acknowledged. -/
structure Arrived (c : Conf) (iss : Seqno) (w : SockWorld) (k : Nat) (flags : Flags) (v : Uip) : Prop where
  state : v.conn.state = .established
  sndNxt : v.conn.sndNxt.toNat = (iss.toNat + (w.acked + k)) % 2 ^ 32
  advance : advance w.uip.conn.sndNxt v.conn.sndNxt = k
  mss : v.conn.initialmss ≤ c.tcpMss
  oldMss : v.conn.mss ≤ c.tcpMss
  initialmss : v.conn.initialmss = w.uip.conn.initialmss
  len : k = 0 → v.conn.len = w.uip.conn.len
  plain : flags.timedout = false ∧ flags.abort = false ∧ flags.close = false
  acked : flags.ackdata = true → v.conn.len = 0 ∧ w.client.sock.outputSenddataLen ≠ 0 ∧
    w.client.sock.outputDataSendNxt ≤ w.client.sock.outputSenddataLen
  removed : removed flags w.client = k

theorem establishedInput_processed {seg : Segment} {k : Nat} {v : Uip} (h : SockInv c iss w)
    (hest : w.uip.conn.state = .established) (ha : Arrived c iss w k flags v)
    (hsteady : v.conn.len ≠ 0 → v.conn.stopped = false → seg.has TCP_FIN = false → urgentLen seg len < len →
      w.client.sock.segLen (windowMss v.conn.initialmss seg.wnd) = v.conn.len.toNat) :
    Processed c iss w (establishedInput (tcpSocketAppcall c user w.client) seg len flags v) k := by
  have hf := h.flight hest
  have hquiet : ∀ r : Result Client, r.called = none → r.sent = none → r.uip.conn.state = .established →
      r.uip.conn.sndNxt = v.conn.sndNxt → r.uip.conn.len = v.conn.len → r.uip.conn.mss ≤ c.tcpMss →
      r.uip.conn.initialmss = v.conn.initialmss → flags.ackdata = false → Processed c iss w r k := by
    intro r hcall hsent hst hsnd hlen hmss hinit hack
    obtain rfl : k = 0 := by
      rw [← ha.removed, removed, hack]
      rfl
    have hn : v.conn.sndNxt.toNat = w.uip.conn.sndNxt.toNat := by rw [ha.sndNxt, Nat.add_zero, hf.sndNxt]
    have hcl : (w.next r).client = w.client := by
      rw [SockWorld.next, hcall]
      rfl
    refine ⟨fun _ => hsnd ▸ ha.advance, fun hne => absurd hest hne, hcl ▸ h.ok, hcl ▸ List.prefix_refl _, fun _ => ?_,
      fun _ _ _ => hlen.trans (ha.len rfl), fun e he => by rw [hsent] at he; cases he⟩
    rw [hcl]
    exact ⟨hf.attached, hsnd ▸ ha.sndNxt, hmss, hinit.trans ha.initialmss ▸ hf.initialmss,
      (hlen.trans (ha.len rfl)) ▸ hf.sendNxt⟩
  unfold establishedInput
  split
  · split
    · -- a FIN before the data in flight was acknowledged
      rename_i hlen
      refine hquiet _ rfl rfl ha.state rfl rfl ha.oldMss rfl ?_
      cases hack : flags.ackdata with
      | false => rfl
      | true => exact absurd (ha.acked hack).1 hlen
    · dsimp only
      obtain ⟨hok, hpre⟩ := appcall_ok user ⟨{ flags with close := true, newdata := decide (len > 0) }, 0, len,
        uipAddRcvNxt (1 + UInt16.ofNat len) v⟩ h.ok (fun _ => ha.oldMss)
        fun hack => ⟨hf.attached, ha.plain.1, ha.plain.2.1, (ha.acked hack).2⟩
      have hk : (if flags.ackdata then w.client.sock.outputDataSendNxt else 0) = k := ha.removed
      exact Processed.leaves rfl (fun hs => TcpState.noConfusion hs) (fun _ => ha.advance) (fun hne => absurd hest hne)
        (hk ▸ hok) hpre fun e he => by obtain rfl := Option.some.inj he; rfl
  · rename_i hfin
    dsimp only
    generalize hacc : (decide (len - urgentLen seg len > 0) && !v.conn.stopped) = accept
    generalize hv' : (if accept = true then uipAddRcvNxt (UInt16.ofNat (len - urgentLen seg len)) v else v) = v'
    obtain ⟨hst', hsnd', hlen', hinit'⟩ : v'.conn.state = .established ∧ v'.conn.sndNxt = v.conn.sndNxt ∧
        v'.conn.len = v.conn.len ∧ v'.conn.initialmss = v.conn.initialmss := by
      rw [← hv']
      split
      · exact ⟨ha.state, rfl, rfl, rfl⟩
      · exact ⟨ha.state, rfl, rfl, rfl⟩
    have hmss : windowMss v'.conn.initialmss seg.wnd ≤ c.tcpMss := UInt16.le_trans (windowMss_le _ _) (hinit' ▸ ha.mss)
    by_cases hcall : accept = true ∨ flags.ackdata = true
    · rw [if_pos hcall]
      -- data that comes in while data is in flight finds the length that is in flight
      have hfound : v'.conn.len ≠ 0 →
          w.client.sock.segLen (windowMss v'.conn.initialmss seg.wnd) = v'.conn.len.toNat := by
        intro hne
        rw [hlen'] at hne
        have hack : ¬ flags.ackdata = true := fun hack => hne (ha.acked hack).1
        have haccept := hcall.resolve_right hack
        rw [← hacc, Bool.and_eq_true, decide_eq_true_eq, Bool.not_eq_true'] at haccept
        rw [hinit', hlen']
        refine hsteady hne haccept.2 ?_ (by omega)
        rw [haccept.2] at hfin
        simpa using hfin
      obtain ⟨cl', hok, hpre, hemits⟩ := callAndSend_emits user (urgentLen seg len) (len - urgentLen seg len)
        { flags with newdata := accept } (u := { v' with
          slen := 0, conn := { v'.conn with mss := windowMss v'.conn.initialmss seg.wnd } }) (n := w.acked)
        ⟨h.ok, hf.attached, hst', hmss, ha.plain, .inr (hcall.imp_right .inl), fun hack => hlen' ▸ ha.acked hack, hfound,
          fun _ _ => rfl⟩
      have hk : removed { flags with newdata := accept } w.client = k := ha.removed
      rw [hk] at hok hemits
      exact Processed.of_emits h hest hemits hok hpre (hsnd' ▸ ha.advance) (hsnd' ▸ ha.sndNxt) hmss
        (hinit'.trans ha.initialmss) fun hz => hlen'.trans (ha.len hz)
    · rw [if_neg hcall]
      exact hquiet _ rfl rfl hst' hsnd' hlen' hmss hinit' (by simpa using fun hack => hcall (.inr hack))

theorem ackData_keeps (conn : Conn) : (ackData conn).state = conn.state ∧ (ackData conn).initialmss = conn.initialmss ∧
    (ackData conn).mss = conn.mss := by
  unfold ackData
  dsimp only
  split
  · exact ⟨rfl, rfl, rfl⟩
  · exact ⟨rfl, rfl, rfl⟩

theorem ackData_acks (conn : Conn) : (ackData conn).sndNxt = uipAdd32 conn.sndNxt conn.len ∧ (ackData conn).len = 0 := by
  unfold ackData
  dsimp only
  split
  · exact ⟨rfl, rfl⟩
  · exact ⟨rfl, rfl⟩

theorem arrived {seg : Segment} {v : Uip} (h : SockInv c iss w) (hest : w.uip.conn.state = .established)
    (hv : (if acknowledges (received seg w.uip).conn seg then
      { received seg w.uip with conn := ackData (received seg w.uip).conn } else received seg w.uip) = v) :
    ∃ k, Arrived c iss w k { ackdata := acknowledges (received seg w.uip).conn seg } v ∧
      (v.conn.len ≠ 0 → v.conn.len = w.uip.conn.len ∧ v.conn.stopped = w.uip.conn.stopped ∧
        acknowledges w.uip.conn seg = false) := by
  have hf := h.flight hest
  have hconn : (received seg w.uip).conn = w.uip.conn := rfl
  rw [hconn] at hv ⊢
  cases hack : acknowledges w.uip.conn seg with
  | false =>
    rw [hack, if_neg Bool.false_ne_true] at hv
    refine ⟨0, ?_, fun _ => ?_⟩
    · rw [← hv]
      exact ⟨hest, hf.sndNxt, advance_self _, hf.initialmss, hf.mss, rfl, fun _ => rfl, ⟨rfl, rfl, rfl⟩, fun hk => by (cases hk), rfl⟩
    · rw [← hv]
      exact ⟨rfl, rfl, rfl⟩
  | true =>
    rw [hack, if_pos rfl] at hv
    obtain ⟨hst, hinit, hmss⟩ := ackData_keeps w.uip.conn
    obtain ⟨hsnd, hlen⟩ := ackData_acks w.uip.conn
    have hne : w.uip.conn.len ≠ 0 := by
      intro hz
      rw [acknowledges, hz] at hack
      simp at hack
    have hpos : w.uip.conn.len.toNat ≠ 0 := fun hz => hne (UInt16.toNat_inj.1 hz)
    obtain ⟨hnxt, hle⟩ := hf.sendNxt hne
    refine ⟨w.uip.conn.len.toNat, ?_, fun hn => ?_⟩
    · rw [← hv]
      refine ⟨hst.trans hest, ?_, ?_, ?_, ?_, hinit, fun hz => absurd hz hpos, ⟨rfl, rfl, rfl⟩, fun _ => ⟨hlen, ?_, ?_⟩, hnxt⟩
      · show (ackData w.uip.conn).sndNxt.toNat = _
        rw [hsnd, uipAdd32_toNat, hf.sndNxt, Nat.mod_add_mod, Nat.add_assoc]
      · show advance _ (ackData w.uip.conn).sndNxt = _
        rw [hsnd, advance_add]
      · show (ackData w.uip.conn).initialmss ≤ _
        rw [hinit]
        exact hf.initialmss
      · show (ackData w.uip.conn).mss ≤ _
        rw [hmss]
        exact hf.mss
      · omega
      · omega
    · rw [← hv] at hn
      exact absurd hlen hn

theorem input_processed {seg : Segment} (h : SockInv c iss w) (hc : Steady c w (.segment seg user)) :
    ∃ k, Processed c iss w (input (tcpSocketAppcall c user w.client) seg w.uip) k := by
  unfold input
  split
  · exact ⟨0, Processed.quiet h rfl rfl rfl rfl (fun hm _ => hm) rfl fun e he => by cases he⟩
  · dsimp only
    split
    · -- RST
      exact ⟨0, Processed.of_outside user h ⟨fun hs => TcpState.noConfusion hs, .inr ⟨_, rfl, rfl, rfl, rfl, rfl⟩,
        fun e he => by cases he⟩ fun _ => rfl⟩
    · rename_i hrst
      split
      · exact ⟨0, Processed.quiet h rfl rfl rfl rfl (fun hm _ => hm) rfl fun e he => by cases he⟩
      · rename_i hheader
        split
        · exact ⟨0, Processed.quiet h rfl rfl rfl rfl (fun hm _ => hm) rfl fun e he => by obtain rfl := Option.some.inj he; rfl⟩
        · rename_i hseq
          generalize hv : (if acknowledges (received seg w.uip).conn seg then
            { received seg w.uip with conn := ackData (received seg w.uip).conn } else received seg w.uip) = v
          obtain ⟨hstate, hinit, hmss⟩ : v.conn.state = w.uip.conn.state ∧ v.conn.initialmss = w.uip.conn.initialmss ∧
              v.conn.mss = w.uip.conn.mss := by
            rw [← hv]
            split
            · exact ackData_keeps w.uip.conn
            · exact ⟨rfl, rfl, rfl⟩
          by_cases hest : w.uip.conn.state = .established
          · have hf := h.flight hest
            rw [hstate, hest]
            obtain ⟨k, harrived, hkeeps⟩ := arrived h hest hv
            refine ⟨k, establishedInput_processed h hest harrived fun hne hstop hfin hurg => ?_⟩
            obtain ⟨hlen, hstopped, hack⟩ := hkeeps hne
            rw [hinit, hlen]
            refine hc ⟨hest, hlen ▸ hne, hstopped ▸ hstop, by simpa using hrst, Nat.not_lt.1 hheader, hfin, hack, ?_, hurg⟩
            by_contra hne
            exact hseq ⟨.inl (by omega), hne⟩
          · refine ⟨0, Processed.of_outside user h ?_ fun he => absurd he hest⟩
            have hst' : v.conn.state ≠ .established := hstate ▸ hest
            cases hs : v.conn.state with
            | established => exact absurd hs hst'
            | finWait1 => exact finWaitInput_outside hst'
            | finWait2 => exact finWaitInput_outside hst'
            | closed => exact ⟨hst', .inl rfl, fun e he => by cases he⟩
            | timeWait => exact ⟨hst', .inl rfl, fun e he => by obtain rfl := Option.some.inj he; rfl⟩
            | closing =>
              dsimp only
              split
              · exact ⟨fun hs => TcpState.noConfusion hs, .inl rfl, fun e he => by cases he⟩
              · exact ⟨hst', .inl rfl, fun e he => by cases he⟩
            | lastAck =>
              dsimp only
              split
              · exact ⟨fun hs => TcpState.noConfusion hs, .inr ⟨_, rfl, rfl, rfl, rfl, rfl⟩, fun e he => by cases he⟩
              · exact ⟨hst', .inl rfl, fun e he => by cases he⟩

theorem SockInv.op (h : SockInv c iss w) (o : Op) : SockInv c iss { w with client := w.client.op o } := by
  obtain ⟨hok, hg⟩ := h.ok.op o
  refine ⟨hok, fun e he => (h.log e he).mono (le_refl _) hg.accepted, h.again, fun hest => ?_, h.current⟩
  obtain ⟨hatt, hsnd, hmss, hinit, hnxt⟩ := h.flight hest
  refine ⟨hg.attached.trans hatt, hsnd, hmss, hinit, fun hne => ?_⟩
  obtain ⟨hn, hle⟩ := hnxt hne
  have hpos : w.uip.conn.len.toNat ≠ 0 := fun hz => hne (UInt16.toNat_inj.1 hz)
  exact ⟨hg.sendNxt.trans hn, hle.trans_eq (hg.senddata (by omega)).symm⟩

theorem SockInv.step {a : SockAction} (h : SockInv c iss w) (hc : Steady c w a) (hs : sockStep c w a = some w') :
    SockInv c iss w' := by
  cases a with
  | segment seg user =>
    simp only [sockStep] at hs
    split at hs
    · obtain rfl := Option.some.inj hs
      obtain ⟨k, hp⟩ := input_processed h hc
      exact h.next hp
    · cases hs
  | periodic user =>
    obtain rfl := Option.some.inj hs
    obtain ⟨k, hp⟩ := periodic_processed h hc
    exact h.next hp
  | poll len user =>
    obtain rfl := Option.some.inj hs
    obtain ⟨k, hp⟩ := pollRequest_processed h hc
    exact h.next hp
  | other slen buf =>
    obtain rfl := Option.some.inj hs
    exact ⟨h.ok, h.log, h.again, h.flight, h.current⟩
  | op o =>
    obtain rfl := Option.some.inj hs
    exact h.op o

theorem SockInv.good (h : SockInv c iss w) : SockGood iss w := by
  refine ⟨h.ok.length, h.ok.held, fun hest => (h.flight hest).sndNxt, fun e he hne => ⟨(h.log e he).seqno hne, (h.log e he).payload⟩,
    fun e he e' he' hpos hne hne' => ?_⟩
  rw [(h.log e he).payload, (h.log e' he').payload, h.again e he e' he' hpos hne hne', hpos]

def SockWorld.init (c : Conf) (user : User) (cl : Client) (newdata : Bool) (appdata len : Nat) (u : Uip) : SockWorld :=
  (SockWorld.mk u cl 0 []).next
    (callAndSend (tcpSocketConnected c user cl) { connected := true, newdata := newdata } appdata len u)

/-- uIP is about to call a socket of which nothing was sent: the bytes in its buffer are those accepted. -/
structure Connects (c : Conf) (cl : Client) (u : Uip) : Prop where
  client : ClientOk 0 cl
  state : u.conn.state = .established
  len : u.conn.len = 0
  slen : u.slen = 0
  mss : u.conn.mss ≤ c.tcpMss
  initialmss : u.conn.initialmss ≤ c.tcpMss

theorem SockInv.init {newdata : Bool} (h : Connects c cl u) :
    SockInv c u.conn.sndNxt (SockWorld.init c user cl newdata appdata len u) := by
  obtain ⟨r, hr, hfl, hatt, hs, hpre⟩ := connected_sends user
    ⟨{ connected := true, newdata := newdata }, appdata, len, u⟩ h.client h.mss
  have hemits : Emits c 0 u (callAndSend (tcpSocketConnected c user cl) { connected := true, newdata := newdata } appdata len u)
      r.client :=
    callAndSend_sends hr hfl ⟨rfl, rfl⟩ hatt h.state hs (fun _ _ => h.slen) fun hne => absurd h.len hne
  have hsnd : u.conn.sndNxt.toNat = (u.conn.sndNxt.toNat + 0) % 2 ^ 32 := by
    rw [Nat.add_zero, Nat.mod_eq_of_lt (Seqno.toNat_lt _)]
  have hattached : ClientOk 0 { cl with sock := { cl.sock with attached := true } } :=
    ⟨h.client.len, h.client.senddata, h.client.length, h.client.held⟩
  have hinv : SockInv c u.conn.sndNxt ⟨u, { cl with sock := { cl.sock with attached := true } }, 0, []⟩ :=
    ⟨hattached, fun e he => absurd he List.not_mem_nil, fun e he => absurd he List.not_mem_nil,
      fun _ => ⟨rfl, hsnd, h.mss, h.initialmss, fun hne => absurd h.len hne⟩, fun _ e he => absurd he List.not_mem_nil⟩
  have hp := Processed.of_emits hinv h.state hemits hs.ok hpre (advance_self _) hsnd h.mss rfl fun _ => rfl
  exact hinv.next hp

/-- In every run in which the socket finds what is in flight, what it sends and what it removes from its buffer are
the bytes of their places. -/
theorem send_run (c : Conf) (user : User) (cl : Client) (newdata : Bool) (appdata len : Nat) (u : Uip)
    (xs : List SockAction) (h : Connects c cl u)
    (hsteady : AllSteps (sockStep c) (Steady c) (SockWorld.init c user cl newdata appdata len u) xs) :
    AllStates (sockStep c) (SockGood u.conn.sndNxt) (SockWorld.init c user cl newdata appdata len u) xs :=
  (allStates_of_allSteps (J := fun _ => True) (fun _ _ _ _ _ => trivial)
    (fun _ _ _ _ hw hc hstep => SockInv.step hw hc hstep) xs _ trivial (SockInv.init h) hsteady).mono fun _ hw => hw.good

/-! ## A window that closes -/

def sendConf : Conf := ⟨200, 140, 3, 8, 120, smallConf_fits⟩

def sendUip : Uip :=
  ⟨⟨⟨0, 0, 0, 0⟩, ⟨0, 0, 0, 0⟩, 0, 4, 4, 0, 4, 3, .established, false, 3, 0⟩, fun _ => 0, 0⟩

def sendClient : Client := ⟨⟨fun _ => 0, 16, 0, 0, 0, 0, false, false⟩, []⟩

def windowSegment (wnd : UInt16) : Segment := ⟨⟨0, 0, 0, 0⟩, ⟨0, 0, 0, 0⟩, 0x50, TCP_ACK, wnd, 0, [9, 9, 9, 9]⟩

def sendActions (wnd : UInt16) : List SockAction :=
  [.op (.send [1, 2, 3, 4]), .poll 0 fun _ => [], .segment (windowSegment wnd) fun _ => []]

theorem connects_small : Connects sendConf sendClient sendUip :=
  ⟨⟨by decide, by decide, by decide, fun i hi => absurd hi (Nat.not_lt_zero i)⟩, rfl, rfl, rfl, by decide, by decide⟩

theorem send_run_small : AllStates (sockStep sendConf) (SockGood ⟨0, 0, 0, 0⟩)
    (SockWorld.init sendConf (fun _ => []) sendClient false 0 0 sendUip) (sendActions 4) :=
  send_run sendConf (fun _ => []) sendClient false 0 0 sendUip (sendActions 4) connects_small <| by
    refine ⟨trivial, fun w₁ h₁ => ?_⟩
    obtain rfl := Option.some.inj h₁
    refine ⟨fun _ _ hseg => absurd hseg (by decide), fun w₂ h₂ => ?_⟩
    obtain rfl := Option.some.inj h₂
    exact ⟨fun _ => by decide, fun _ _ => trivial⟩

/-- When the window closes to two bytes, the socket puts two bytes where four are sent again. -/
theorem window_changes_bytes : ¬ AllStates (sockStep sendConf) (SockGood ⟨0, 0, 0, 0⟩)
    (SockWorld.init sendConf (fun _ => []) sendClient false 0 0 sendUip) (sendActions 2) := by
  intro h
  have hrun : (exec (sockStep sendConf) (SockWorld.init sendConf (fun _ => []) sendClient false 0 0 sendUip)
      (sendActions 2)).map (fun w => (w.client.accepted, w.sent.map fun e => (e.pos, e.seg.payload))) =
        some ([1, 2, 3, 4], [(0, [1, 2, 3, 4]), (0, [1, 2, 9, 9])]) := by decide
  obtain ⟨w, hw, hpair⟩ := Option.map_eq_some_iff.1 hrun
  obtain ⟨hacc, hsent⟩ := Prod.mk.inj hpair
  have hmem : (0, [1, 2, 9, 9]) ∈ w.sent.map fun e => (e.pos, e.seg.payload) := by
    rw [hsent]
    exact List.mem_cons_of_mem _ List.mem_cons_self
  obtain ⟨e, he, heq⟩ := List.mem_map.1 hmem
  obtain ⟨hpos, hpay⟩ := Prod.mk.inj heq
  have hbytes := ((h.last hw).sent e he (by rw [hpay]; exact List.cons_ne_nil _ _)).2
  rw [hpay, hpos, hacc] at hbytes
  exact absurd hbytes (by decide)

end Contiki.Tcp

/-
The TCP part of `uip_process` for one connection whose handshake is over: segments that come in, the
periodic timer and poll requests. The application is a function from what it sees at a call to what it
leaves behind. `uip_buf` is seen from `&uip_buf[UIP_IPTCPH_LEN]` on, where `uip_sappdata` points to.
-/
import Mathlib.Tactic

namespace Contiki.Tcp

/-- UIP_BUFSIZE, UIP_TCP_MSS, UIP_RTO, UIP_MAXRTX and UIP_TIME_WAIT_TIMEOUT. -/
structure Conf where
  bufSize : Nat
  tcpMss : UInt16
  rto : UInt8
  maxRtx : UInt8
  timeWaitTimeout : UInt8
  fits : tcpMss.toNat + 60 ≤ bufSize

/-! ## Sequence numbers -/

structure Seqno where
  b0 : UInt8
  b1 : UInt8
  b2 : UInt8
  b3 : UInt8
  deriving DecidableEq

def uipAdd32 (op32 : Seqno) (op16 : UInt16) : Seqno :=
  let acc3 := op32.b3 + op16.toUInt8
  let acc2 := op32.b2 + (op16 >>> 8).toUInt8
  let acc1 := if acc2 < (op16 >>> 8).toUInt8 then op32.b1 + 1 else op32.b1
  let acc0 := if acc2 < (op16 >>> 8).toUInt8 ∧ acc1 = 0 then op32.b0 + 1 else op32.b0
  if acc3 < op16.toUInt8 then
    let acc2 := acc2 + 1
    let acc1' := if acc2 = 0 then acc1 + 1 else acc1
    let acc0 := if acc2 = 0 ∧ acc1' = 0 then acc0 + 1 else acc0
    ⟨acc0, acc1', acc2, acc3⟩
  else ⟨acc0, acc1, acc2, acc3⟩

/-! ## Connections -/

/-- `tcpstateflags & UIP_TS_MASK`. -/
inductive TcpState
  | closed
  | established
  | finWait1
  | finWait2
  | closing
  | timeWait
  | lastAck
  deriving DecidableEq

/-- `struct uip_conn`; `stopped` is UIP_STOPPED. -/
structure Conn where
  rcvNxt : Seqno
  sndNxt : Seqno
  len : UInt16
  mss : UInt16
  initialmss : UInt16
  sa : UInt8
  sv : UInt8
  rto : UInt8
  state : TcpState
  stopped : Bool
  timer : UInt8
  nrtx : UInt8

/-- The bits of `uip_flags`. -/
structure Flags where
  ackdata : Bool := false
  newdata : Bool := false
  rexmit : Bool := false
  poll : Bool := false
  close : Bool := false
  abort : Bool := false
  connected : Bool := false
  timedout : Bool := false
  deriving DecidableEq

/-- The connection, `uip_buf` and `uip_slen`. -/
structure Uip where
  conn : Conn
  buf : Nat → UInt8
  slen : UInt16

/-- A segment that comes in; `body` is what stands behind the fixed header: options and data. -/
structure Segment where
  seqno : Seqno
  ackno : Seqno
  tcpoffset : UInt8
  flags : UInt8
  wnd : UInt16
  urgp : UInt16
  body : List UInt8

/-- A segment that goes out; `zeroWnd` tells that it advertises a zero window. -/
structure Sent where
  flags : UInt8
  seqno : Seqno
  ackno : Seqno
  zeroWnd : Bool
  payload : List UInt8

def TCP_FIN : UInt8 := 0x01
def TCP_SYN : UInt8 := 0x02
def TCP_RST : UInt8 := 0x04
def TCP_PSH : UInt8 := 0x08
def TCP_ACK : UInt8 := 0x10
def TCP_URG : UInt8 := 0x20

def Segment.has (seg : Segment) (flag : UInt8) : Bool := seg.flags &&& flag ≠ 0

/-! ## The application -/

/-- What the application sees: `uip_flags`, `uip_appdata`, `uip_len` and the rest. -/
structure Call where
  flags : Flags
  appdata : Nat
  len : Nat
  uip : Uip

def Call.data (call : Call) : List UInt8 := (List.range call.len).map fun i => call.uip.buf (call.appdata + i)

/-- What the application leaves. -/
structure Reply where
  flags : Flags
  stopped : Bool
  slen : UInt16
  buf : Nat → UInt8

/-- An application, with the state it goes on from. -/
abbrev App (σ : Type) := Call → Reply × σ

/-- What a run of `uip_process` comes to: the packet to send, and the call that was made. -/
structure Result (σ : Type) where
  uip : Uip
  sent : Option Sent
  called : Option (Call × σ)

variable {σ : Type}

/-- `UIP_APPCALL`. -/
def appcall (app : App σ) (flags : Flags) (appdata len : Nat) (u : Uip) : Flags × Uip × Call × σ :=
  let call : Call := ⟨flags, appdata, len, u⟩
  let r := app call
  (r.1.flags, ⟨{ u.conn with stopped := r.1.stopped }, r.1.buf, r.1.slen⟩, call, r.2)

/-! ## Sending -/

/-- From `tcp_send` on. -/
def tcpSend (flags : UInt8) (len : Nat) (u : Uip) : Sent :=
  ⟨flags, u.conn.sndNxt, u.conn.rcvNxt, u.conn.stopped, (List.range len).map u.buf⟩

/-- From `apprexmit` on. -/
def apprexmit (flags : Flags) (u : Uip) : Uip × Option Sent :=
  if u.slen > 0 ∧ u.conn.len > 0 then (u, some (tcpSend (TCP_ACK ||| TCP_PSH) u.conn.len.toNat u))
  else if flags.newdata then (u, some (tcpSend TCP_ACK 0 u))
  else (u, none)

/-- How much of what the application has put into the buffer is sent: new data up to the mss, or as much as
is in flight. -/
def sendLength (flags : Flags) (u : Uip) : Uip :=
  if u.slen > 0 then
    let len := if flags.ackdata then 0 else u.conn.len
    if len = 0 then
      let slen := if u.slen > u.conn.mss then u.conn.mss else u.slen
      { u with slen := slen, conn := { u.conn with len := slen } }
    else { u with slen := len }
  else u

/-- From `appsend` on. -/
def appsend (flags : Flags) (u : Uip) : Uip × Option Sent :=
  if flags.abort then
    let u := { u with slen := 0, conn := { u.conn with state := .closed, stopped := false } }
    (u, some (tcpSend (TCP_RST ||| TCP_ACK) 0 u))
  else if flags.close then
    let u := { u with slen := 0, conn := { u.conn with len := 1, state := .finWait1, stopped := false, nrtx := 0 } }
    (u, some (tcpSend (TCP_FIN ||| TCP_ACK) 0 u))
  else
    let u := sendLength flags u
    apprexmit flags { u with conn := { u.conn with nrtx := 0 } }

/-- The application is called and may have data to send. -/
def callAndSend (app : App σ) (flags : Flags) (appdata len : Nat) (u : Uip) : Result σ :=
  let (flags, u, called) := appcall app flags appdata len u
  let (u, sent) := appsend flags u
  ⟨u, sent, some called⟩

/-! ## Segments -/

def acknowledges (conn : Conn) (seg : Segment) : Bool :=
  seg.has TCP_ACK && conn.len ≠ 0 && seg.ackno = uipAdd32 conn.sndNxt conn.len

/-- The estimation of the round-trip time; `m` is a `signed char`. -/
def rttEstimate (conn : Conn) : Conn :=
  let m := conn.rto - conn.timer
  let m := m - (conn.sa >>> 3)
  let sa := conn.sa + m
  let m := if m ≥ 128 then 0 - m else m
  let m := m - (conn.sv >>> 2)
  let sv := conn.sv + m
  { conn with sa := sa, sv := sv, rto := (sa >>> 3) + sv }

def ackData (conn : Conn) : Conn :=
  let conn := { conn with sndNxt := uipAdd32 conn.sndNxt conn.len }
  let conn := if conn.nrtx = 0 then rttEstimate conn else conn
  { conn with timer := conn.rto, len := 0 }

def uipAddRcvNxt (n : UInt16) (u : Uip) : Uip := { u with conn := { u.conn with rcvNxt := uipAdd32 u.conn.rcvNxt n } }

def windowMss (initialmss wnd : UInt16) : UInt16 := if wnd > initialmss ∨ wnd = 0 then initialmss else wnd

/-- The urgent data at the head of a segment with data of length `len`. -/
def urgentLen (seg : Segment) (len : Nat) : Nat := if seg.has TCP_URG then min seg.urgp.toNat len else 0

def Segment.headerLen (seg : Segment) : Nat := (seg.tcpoffset >>> 4).toNat <<< 2

/-- `case UIP_ESTABLISHED`. -/
def establishedInput (app : App σ) (seg : Segment) (len : Nat) (flags : Flags) (u : Uip) : Result σ :=
  if seg.has TCP_FIN ∧ ¬ u.conn.stopped then
    if u.conn.len ≠ 0 then ⟨u, none, none⟩
    else
      let u := uipAddRcvNxt (1 + UInt16.ofNat len) u
      let (_, u, called) := appcall app { flags with close := true, newdata := decide (len > 0) } 0 len u
      let u := { u with conn := { u.conn with len := 1, state := .lastAck, stopped := false, nrtx := 0 } }
      ⟨u, some (tcpSend (TCP_FIN ||| TCP_ACK) 0 u), some called⟩
  else
    let appdata := urgentLen seg len
    let len := len - urgentLen seg len
    let accept := decide (len > 0) && !u.conn.stopped
    let flags := { flags with newdata := accept }
    let u := if accept then uipAddRcvNxt (UInt16.ofNat len) u else u
    let u := { u with conn := { u.conn with mss := windowMss u.conn.initialmss seg.wnd } }
    if flags.newdata ∨ flags.ackdata then callAndSend app flags appdata len { u with slen := 0 }
    else ⟨u, none, none⟩

/-- `case UIP_FIN_WAIT_1` and `case UIP_FIN_WAIT_2`; `acked` tells that the FIN sent has arrived. -/
def finWaitInput (app : App σ) (seg : Segment) (len : Nat) (flags : Flags) (u : Uip) : Result σ :=
  let u := if len > 0 then uipAddRcvNxt (UInt16.ofNat len) u else u
  if seg.has TCP_FIN then
    let conn :=
      if u.conn.state = .finWait2 ∨ flags.ackdata then
        { u.conn with state := .timeWait, stopped := false, timer := 0, len := if u.conn.state = .finWait1 then 0 else u.conn.len }
      else { u.conn with state := .closing, stopped := false }
    let u := uipAddRcvNxt 1 { u with conn := conn }
    let (_, u, called) := appcall app { close := true } 0 len u
    ⟨u, some (tcpSend TCP_ACK 0 u), some called⟩
  else if u.conn.state = .finWait1 ∧ flags.ackdata then
    ⟨{ u with conn := { u.conn with state := .finWait2, stopped := false, len := 0 } }, none, none⟩
  else if len > 0 then ⟨u, some (tcpSend TCP_ACK 0 u), none⟩
  else ⟨u, none, none⟩

/-- The part of the packet from `uip_sappdata` on lies in the buffer. -/
def received (seg : Segment) (u : Uip) : Uip := { u with buf := fun i => (seg.body[i]?).getD (u.buf i) }

/-- `uip_process(UIP_DATA)` from `found` on; no segment belongs to a closed connection. -/
def input (app : App σ) (seg : Segment) (u : Uip) : Result σ :=
  if u.conn.state = .closed ∧ ¬ u.conn.stopped then ⟨u, none, none⟩
  else
    let u := received seg u
    if seg.has TCP_RST then
      let u := { u with conn := { u.conn with state := .closed, stopped := false } }
      let (_, u, called) := appcall app { abort := true } 0 (60 + seg.body.length) u
      ⟨u, none, some called⟩
    else if 20 + seg.body.length < seg.headerLen then ⟨u, none, none⟩
    else
      let len := 20 + seg.body.length - seg.headerLen
      if (len > 0 ∨ seg.has TCP_SYN ∨ seg.has TCP_FIN) ∧ seg.seqno ≠ u.conn.rcvNxt then
        ⟨u, some (tcpSend TCP_ACK 0 u), none⟩
      else
        let acked := acknowledges u.conn seg
        let flags : Flags := { ackdata := acked }
        let u := if acked then { u with conn := ackData u.conn } else u
        match u.conn.state with
        | .established => establishedInput app seg len flags u
        | .finWait1 | .finWait2 => finWaitInput app seg len flags u
        | .lastAck =>
          if acked then
            let u := { u with conn := { u.conn with state := .closed, stopped := false } }
            let (_, u, called) := appcall app { close := true } 0 len u
            ⟨u, none, some called⟩
          else ⟨u, none, none⟩
        | .timeWait => ⟨u, some (tcpSend TCP_ACK 0 u), none⟩
        | .closing =>
          if acked then ⟨{ u with conn := { u.conn with state := .timeWait, stopped := false, timer := 0 } }, none, none⟩
          else ⟨u, none, none⟩
        | .closed => ⟨u, none, none⟩

/-! ## The timer and polls -/

@[grind =]
def retransmit (app : App σ) (u : Uip) : Result σ :=
  match u.conn.state with
  | .established =>
    let (flags, u, called) := appcall app { rexmit := true } 0 0 u
    let (u, sent) := apprexmit flags u
    ⟨u, sent, some called⟩
  | .finWait1 | .closing | .lastAck => ⟨u, some (tcpSend (TCP_FIN ||| TCP_ACK) 0 u), none⟩
  | _ => ⟨u, none, none⟩

/-- `uip_process(UIP_TIMER)` of an active connection. -/
def periodic (c : Conf) (app : App σ) (u : Uip) : Result σ :=
  let u := { u with slen := 0 }
  if u.conn.state = .closed ∧ ¬ u.conn.stopped then ⟨u, none, none⟩
  else if (u.conn.state = .timeWait ∨ u.conn.state = .finWait2) ∧ ¬ u.conn.stopped then
    let timer := u.conn.timer + 1
    let conn := { u.conn with timer := timer }
    ⟨{ u with conn := if timer = c.timeWaitTimeout then { conn with state := .closed } else conn }, none, none⟩
  else if u.conn.len ≠ 0 then
    let due := u.conn.timer = 0
    let u := { u with conn := { u.conn with timer := u.conn.timer - 1 } }
    if ¬ due then ⟨u, none, none⟩
    else if u.conn.nrtx = c.maxRtx then
      let u := { u with conn := { u.conn with state := .closed, stopped := false } }
      let (_, u, called) := appcall app { timedout := true } 0 0 u
      ⟨u, some (tcpSend (TCP_RST ||| TCP_ACK) 0 u), some called⟩
    else
      let shift := if u.conn.nrtx > 4 then 4 else u.conn.nrtx
      retransmit app { u with conn := { u.conn with timer := c.rto <<< shift, nrtx := u.conn.nrtx + 1 } }
  else if u.conn.state = .established then callAndSend app { poll := true } 0 0 u
  else ⟨u, none, none⟩

/-- `uip_process(UIP_POLL_REQUEST)`: `uip_slen` and `uip_len` stay what they were. -/
def pollRequest (app : App σ) (len : Nat) (u : Uip) : Result σ :=
  if u.conn.state = .established ∧ u.conn.len = 0 then callAndSend app { poll := true } 0 len u
  else ⟨u, none, none⟩

end Contiki.Tcp

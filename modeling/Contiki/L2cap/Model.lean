/-
ble-l2cap.c: the transmit process cuts an SDU into fragments, one for each credit of the peer, and `input` puts the
fragments of a channel together in its receive buffer. A received frame is the first `len` bytes from the data pointer of
the packet buffer; what stands behind them is left there from before. Each call also returns its accesses to the frame, to
the receive buffers and to the packet buffer, and what it hands to the radio and to the upper layer.
-/
import Contiki.Lib.Mem

namespace Contiki.L2cap

open Contiki.Lib

/-! ## Data -/

/-- The constants of packetbuf.h and ble-l2cap.h, and `linkaddr_null`. -/
structure Config (A : Type) where
  linkaddrNull : A
  packetbufSize : Nat
  nodeMtu : Nat
  nodeFragLen : Nat
  l2capChannels : Nat
  mtu_le : nodeMtu ≤ packetbufSize
  header_le : 6 ≤ packetbufSize
  size_lt : packetbufSize < 2 ^ 16
  channels_lt : l2capChannels < 2 ^ 8

def l2capSignalChannel : Nat := 0x0005
def l2capFlowChannel : Nat := 0x0041
def l2capCodeConnUpdateRsp : UInt8 := 0x13
def l2capCodeConnReq : UInt8 := 0x14
def l2capCodeConnRsp : UInt8 := 0x15
def l2capCodeCredit : UInt8 := 0x16
def l2capCreditThreshold : Nat := 2
def l2capFirstHeaderSize : Nat := 6
def l2capSubseqHeaderSize : Nat := 4

/-- `L2CAP_CREDIT_NEW`. -/
def Config.creditNew {A : Type} (cfg : Config A) : Nat := cfg.nodeMtu / cfg.nodeFragLen

/-- The difference of two `uint16_t`, stored in a `uint16_t`. -/
def sub16 (a b : Nat) : Nat := (a + 2 ^ 16 - b) % 2 ^ 16

/-- The conversion of an `int` to `int16_t`. -/
def toInt16 (i : Int) : Int := (i + 2 ^ 15) % 2 ^ 16 - 2 ^ 15

/-- A `uint16_t` as it stands in a frame. -/
def le16 (n : Nat) : List UInt8 := [UInt8.ofNat n, UInt8.ofNat (n / 256)]

/-- `l2cap_buffer_t`. -/
structure Buffer where
  sdu : Mem
  sduLength : Nat
  currentIndex : Nat

/-- `ble_mac_l2cap_channel_t`. -/
structure ChannelInfo where
  cid : Nat
  mtu : Nat
  mps : Nat
  credits : Nat

/-- `l2cap_channel_t`. -/
structure Channel (A : Type) where
  own : ChannelInfo
  peer : ChannelInfo
  tx : Buffer
  rx : Buffer
  peerAddr : A

/-- `l2cap_channel_count` and `l2cap_channels`. -/
structure State (A : Type) where
  count : Nat
  channels : Nat → Channel A

/-- A received frame: the packet buffer from its data pointer on, and `packetbuf_datalen`. -/
structure Frame where
  data : Mem
  len : Nat

def Frame.bytes (f : Frame) : List UInt8 := Mem.read 0 f.len f.data

inductive TxStatus where
  | err | collision | deferred
deriving DecidableEq

/-- What a call does outside the channels: the bytes it reads of the frame and writes to `rx_buffer.sdu` and to the packet
buffer, the SDUs and fragments it hands over, the credits the peer gives. -/
inductive Event (A : Type) where
  | frameRead (offset n : Nat)
  | sduWrite (offset n : Nat)
  | packetbufWrite (offset n : Nat)
  | networkInput (c : Nat) (sdu : List UInt8)
  | radioSend (receiver : A) (frame : List UInt8)
  | fragment (c : Nat) (frame : List UInt8)
  | granted (c credits : Nat)
  | accepted (c : Nat) (sdu : List UInt8)
  | sentCallback (status : TxStatus) (numTx : Nat)
  | post (c : Nat)

variable {A : Type}

def State.set (s : State A) (c : Nat) (ch : Channel A) : State A := { s with channels := Function.update s.channels c ch }

def getChannelForAddr [DecidableEq A] (peerAddr : A) (s : State A) : Option Nat :=
  (List.range s.count).find? fun i => (s.channels i).peerAddr = peerAddr

def getChannelForCid (ownCid : Nat) (s : State A) : Option Nat :=
  let i := toInt16 ((ownCid : Int) - l2capFlowChannel)
  if i ≥ 0 ∧ i < s.count then some i.toNat else none

/-- The channels after `init`: in static storage, with what the node announces. -/
def init (cfg : Config A) : State A where
  count := 0
  channels := fun i =>
    { own :=
        { cid := (l2capFlowChannel + i) % 2 ^ 16
          mtu := cfg.nodeMtu
          mps := sub16 (cfg.nodeFragLen % 2 ^ 16) l2capSubseqHeaderSize
          credits := cfg.creditNew }
      peer := ⟨0, 0, 0, 0⟩
      tx := ⟨fun _ => 0, 0, 0⟩
      rx := ⟨fun _ => 0, 0, 0⟩
      peerAddr := cfg.linkaddrNull }

/-! ## Signalling commands -/

/-- `packetbuf_copyfrom` and the radio's `send`. -/
@[grind =]
def radioSend (cfg : Config A) (receiver : A) (frame : List UInt8) : List (Event A) :=
  [.packetbufWrite 0 (min cfg.packetbufSize frame.length), .radioSend receiver (frame.take cfg.packetbufSize)]

/-- `input_l2cap_conn_req`; its `data` is `&data[5]` of the frame. -/
def inputL2capConnReq (cfg : Config A) (sender : A) (f : Frame) (s : State A) : State A × List (Event A) :=
  let identifier := f.data 5
  let reads := [.frameRead 5 1, .frameRead 6 2]
  if Mem.load 2 6 f.data ≠ 10 then (s, reads)
  else if s.count ≥ cfg.l2capChannels then (s, reads)
  else
    let channel := s.channels s.count
    let peer : ChannelInfo :=
      ⟨Mem.load 2 10 f.data, Mem.load 2 12 f.data, Mem.load 2 14 f.data, Mem.load 2 16 f.data⟩
    let respData := [0x0E, 0x00, 0x05, 0x00, l2capCodeConnRsp, identifier, 0x0A, 0x00] ++ le16 channel.own.cid ++
      le16 channel.own.mtu ++ le16 channel.own.mps ++ le16 channel.own.credits ++ [0x00, 0x00]
    ({ s.set s.count { channel with peer := peer, peerAddr := sender } with count := s.count + 1 },
      reads ++ [.frameRead 8 2, .frameRead 10 2, .frameRead 12 2, .frameRead 14 2, .frameRead 16 2,
        .granted s.count peer.credits] ++ radioSend cfg sender respData)

/-- `input_l2cap_connection_udate_resp`. -/
def inputL2capConnectionUpdateResp (f : Frame) : List (Event A) :=
  if Mem.load 2 6 f.data ≠ 2 then [.frameRead 6 2] else [.frameRead 6 2, .frameRead 8 2]

@[grind =]
def inputL2capCredit [DecidableEq A] (sender : A) (f : Frame) (s : State A) : State A × List (Event A) :=
  match getChannelForAddr sender s with
  | none => (s, [])
  | some c =>
    if Mem.load 2 6 f.data ≠ 4 then (s, [.frameRead 6 2])
    else
      let channel := s.channels c
      let credits := Mem.load 2 10 f.data
      (s.set c { channel with peer := { channel.peer with credits := (channel.peer.credits + credits) % 2 ^ 16 } },
        [.frameRead 6 2, .frameRead 8 2, .frameRead 10 2, .granted c credits])

def inputL2capFrameSignalChannel [DecidableEq A] (cfg : Config A) (sender : A) (f : Frame) (s : State A) :
    State A × List (Event A) :=
  let r :=
    if f.data 4 = l2capCodeCredit then inputL2capCredit sender f s
    else if f.data 4 = l2capCodeConnReq then inputL2capConnReq cfg sender f s
    else if f.data 4 = l2capCodeConnUpdateRsp then (s, inputL2capConnectionUpdateResp f)
    else (s, [])
  (r.1, .frameRead 4 1 :: r.2)

/-! ## Fragments that are received -/

/-- `packetbuf_remaininglen`; the packet buffer holds the frame and no header. -/
def packetbufRemaininglen (cfg : Config A) (f : Frame) : Nat := cfg.packetbufSize - f.len

/-- The end of `input_l2cap_frame_flow_channel`. What the upper layer sends from its `input` is a call of its own. -/
def deliver (cfg : Config A) (c : Nat) (f : Frame) (rx : Buffer) : Buffer × List (Event A) :=
  if rx.sduLength > 0 ∧ rx.sduLength = rx.currentIndex then
    if rx.sduLength > packetbufRemaininglen cfg f then (rx, [])
    else
      ({ rx with sduLength := 0, currentIndex := 0 },
        [.packetbufWrite 0 rx.sduLength, .networkInput c (Mem.read 0 rx.sduLength rx.sdu)])
  else (rx, [])

/-- `input_l2cap_frame_flow_channel`; the lengths are compared as `int`. -/
def inputL2capFrameFlowChannel (cfg : Config A) (c : Nat) (f : Frame) (rx : Buffer) : Buffer × List (Event A) :=
  if f.len < 4 then (rx, [])
  else
    let frameLen := Mem.load 2 0 f.data
    if rx.sduLength = 0 then
      -- first fragment
      let payloadLen := sub16 frameLen 2
      if payloadLen > cfg.nodeMtu ∨ payloadLen + 6 > f.len then (rx, [.frameRead 0 2])
      else
        let r := deliver cfg c f
          { sdu := Mem.paste 0 payloadLen (fun i => f.data (6 + i)) rx.sdu
            sduLength := Mem.load 2 4 f.data
            currentIndex := payloadLen }
        (r.1, [.frameRead 0 2, .frameRead 4 2, .frameRead 6 payloadLen, .sduWrite 0 payloadLen] ++ r.2)
    else
      -- subsequent fragment
      let payloadLen := frameLen
      if payloadLen + rx.currentIndex > cfg.nodeMtu ∨ payloadLen + 4 > f.len then (rx, [.frameRead 0 2])
      else
        let r := deliver cfg c f
          { rx with
            sdu := Mem.paste rx.currentIndex payloadLen (fun i => f.data (4 + i)) rx.sdu
            currentIndex := rx.currentIndex + payloadLen }
        (r.1, [.frameRead 0 2, .frameRead 4 payloadLen, .sduWrite rx.currentIndex payloadLen] ++ r.2)

def checkOwnL2capCredits (cfg : Config A) (channel : Channel A) : Nat :=
  if channel.own.credits < l2capCreditThreshold then cfg.creditNew else 0

def sendL2capCredit (cfg : Config A) (c credits : Nat) (s : State A) : State A × List (Event A) :=
  let channel := s.channels c
  let data := [8, 0x00, 0x05, 0x00, l2capCodeCredit, 0xFF, 4, 0x00] ++ le16 channel.own.cid ++ le16 credits
  (s.set c { channel with own := { channel.own with credits := (channel.own.credits + credits) % 2 ^ 16 } },
    radioSend cfg channel.peerAddr data)

/-- The part of `input` for a frame of a channel. -/
def inputFlow (cfg : Config A) (c : Nat) (f : Frame) (s : State A) : State A × List (Event A) :=
  let channel := s.channels c
  let r := inputL2capFrameFlowChannel cfg c f channel.rx
  let channel := { channel with rx := r.1, own := { channel.own with credits := sub16 channel.own.credits 1 } }
  let s := s.set c channel
  let credits := checkOwnL2capCredits cfg channel
  if credits > 0 then
    let r' := sendL2capCredit cfg c credits s
    (r'.1, r.2 ++ r'.2)
  else (s, r.2)

/-- `input`, for `FRAME_BLE_RX_EVENT`. -/
def inputRx [DecidableEq A] (cfg : Config A) (sender : A) (f : Frame) (s : State A) : State A × List (Event A) :=
  let channelId := Mem.load 2 2 f.data
  let r :=
    if channelId = l2capSignalChannel then inputL2capFrameSignalChannel cfg sender f s
    else
      match getChannelForCid channelId s with
      | none => (s, [])
      | some c => inputFlow cfg c f s
  (r.1, .frameRead 2 2 :: r.2)

/-- `input`, for `FRAME_BLE_TX_EVENT`. -/
def inputTx [DecidableEq A] (receiver : A) (s : State A) : State A × List (Event A) :=
  match getChannelForAddr receiver s with
  | none => (s, [])
  | some c => if (s.channels c).tx.sduLength > 0 then (s, [.post c]) else (s, [])

/-! ## SDUs that are sent -/

/-- The loop of `send` over the channels. -/
@[grind =]
def sendLoop [DecidableEq A] (cfg : Config A) (receiver : A) (data : List UInt8) :
    List Nat → State A → State A × List (Event A)
  | [], s => (s, [])
  | i :: is, s =>
    let channel := s.channels i
    if receiver = cfg.linkaddrNull ∨ receiver = channel.peerAddr then
      if channel.tx.sduLength > 0 then (s, [.sentCallback .collision 0])
      else if data.length > 0 then
        let tx := { channel.tx with
          sduLength := data.length
          sdu := Mem.paste 0 data.length (fun k => data.getD k 0) channel.tx.sdu }
        let r := sendLoop cfg receiver data is (s.set i { channel with tx := tx })
        (r.1, [.accepted i data, .sentCallback .deferred 1, .post i] ++ r.2)
      else sendLoop cfg receiver data is (s.set i { channel with tx := { channel.tx with sduLength := data.length } })
    else sendLoop cfg receiver data is s

def send [DecidableEq A] (cfg : Config A) (receiver : A) (data : List UInt8) (s : State A) : State A × List (Event A) :=
  if data.length > cfg.nodeMtu then (s, [.sentCallback .err 0]) else sendLoop cfg receiver data (List.range s.count) s

/-- One round of `ble_l2cap_tx_process`, for the channel of the event and the radio's free buffers. An SDU is never
shorter than what was sent of it. -/
def txProcess (cfg : Config A) (c numBuffer : Nat) (s : State A) : State A × List (Event A) :=
  let channel := s.channels c
  let tx := channel.tx
  let firstFragment := tx.currentIndex = 0
  let usedMps := min channel.own.mps channel.peer.mps
  if tx.sduLength > 0 ∧ numBuffer > 0 ∧ channel.peer.credits > 0 then
    let hdrlen := if firstFragment then l2capFirstHeaderSize else l2capSubseqHeaderSize
    let usedMps := sub16 usedMps hdrlen
    let dataLen := if firstFragment then min tx.sduLength usedMps else min (tx.sduLength - tx.currentIndex) usedMps
    let frameLen := if firstFragment then (dataLen + 2) % 2 ^ 16 else dataLen
    if dataLen > cfg.packetbufSize - hdrlen then (s, [])
    else
      let frame := le16 frameLen ++ le16 channel.peer.cid ++ (if firstFragment then le16 tx.sduLength else []) ++
        Mem.read tx.currentIndex dataLen tx.sdu
      let currentIndex := tx.currentIndex + dataLen
      let tx := if currentIndex = tx.sduLength then { tx with sduLength := 0, currentIndex := 0 }
        else { tx with currentIndex := currentIndex }
      (s.set c { channel with tx := tx, peer := { channel.peer with credits := channel.peer.credits - 1 } },
        [.fragment c frame])
  else (s, [])

/-! ## Runs -/

/-- A call. A frame carries whether its sender begins an SDU with it, which the code does not see. -/
inductive Action (A : Type) where
  | rxEvent (sender : A) (f : Frame) (begins : Bool)
  | txEvent (receiver : A)
  | send (receiver : A) (data : List UInt8)
  | txProcess (c numBuffer : Nat)

def call [DecidableEq A] (cfg : Config A) (s : State A) : Action A → State A × List (Event A)
  | .rxEvent sender f _ => inputRx cfg sender f s
  | .txEvent receiver => inputTx receiver s
  | .send receiver data => send cfg receiver data s
  | .txProcess c numBuffer => txProcess cfg c numBuffer s

/-- A frame and a packet to send are in the packet buffer; the process is posted events of channels only. -/
def Enabled (cfg : Config A) (s : State A) : Action A → Prop
  | .rxEvent _ f _ => f.len ≤ cfg.packetbufSize
  | .txEvent _ => True
  | .send _ data => data.length ≤ cfg.packetbufSize
  | .txProcess c _ => c < s.count

instance instDecidableEnabled (cfg : Config A) (s : State A) : (a : Action A) → Decidable (Enabled cfg s a)
  | .rxEvent _ f _ => inferInstanceAs (Decidable (f.len ≤ cfg.packetbufSize))
  | .txEvent _ => inferInstanceAs (Decidable True)
  | .send _ data => inferInstanceAs (Decidable (data.length ≤ cfg.packetbufSize))
  | .txProcess c _ => inferInstanceAs (Decidable (c < s.count))

structure World (A : Type) where
  state : State A
  log : List (Event A)

def World.init (cfg : Config A) : World A := ⟨L2cap.init cfg, []⟩

def step [DecidableEq A] (cfg : Config A) (w : World A) (a : Action A) : Option (World A) :=
  if Enabled cfg w.state a then some ⟨(call cfg w.state a).1, w.log ++ (call cfg w.state a).2⟩ else none

end Contiki.L2cap

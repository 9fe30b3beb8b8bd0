/-
A Block2 transfer: `coap_send_request` of coap-callback-api.c, the server's branch of `coap_receive`,
and the network between them, which may lose, repeat and reorder messages.
-/
import Contiki.Coap.Parse
import Contiki.Lib.Run

namespace Contiki.Coap

open Contiki.Lib

/-! ## Messages -/

/-- The parts of a `coap_message_t` that the transfer reads. -/
structure Msg where
  mid : UInt16
  code : UInt8
  block2 : Option Block
  payload : List UInt8

def content205 : UInt8 := 69
def badOption402 : UInt8 := 130
def serviceUnavailable503 : UInt8 := 163

/-- `coap_set_header_block2`. -/
def Msg.setHeaderBlock2 (m : Msg) (num : UInt32) (more : UInt8) (size : UInt16) : Msg :=
  if blockAccepted num size then { m with block2 := some ⟨num, if more ≠ 0 then 1 else 0, size, 0⟩ } else m

/-- `coap_set_payload`. -/
def Msg.setPayload (m : Msg) (maxChunkSize : Nat) (payload : List UInt8) : Msg :=
  { m with payload := payload.take maxChunkSize }

def Msg.transmit (m : Msg) : Msg := { m with block2 := m.block2.map fun b => Block.unpack b.pack }

def text (s : String) : List UInt8 := s.toList.map fun c => UInt8.ofNat c.toNat

/-! ## The server -/

def coapMaxBlockSize (maxChunkSize : Nat) : Nat :=
  if maxChunkSize < 32 then 16
  else if maxChunkSize < 64 then 32
  else if maxChunkSize < 128 then 64
  else if maxChunkSize < 256 then 128
  else if maxChunkSize < 512 then 256
  else if maxChunkSize < 1024 then 512
  else if maxChunkSize < 2048 then 1024
  else 2048

/-- `COAP_MAX_CHUNK_SIZE`, `COAP_MESSAGE_ON_ERROR`, and a resource with its representation; `aware` if it
answers chunk-wise at the offset it is given. -/
structure Server where
  maxChunkSize : Nat
  messageOnError : Bool
  aware : Bool
  representation : List UInt8

def Server.maxBlockSize (srv : Server) : Nat := coapMaxBlockSize srv.maxChunkSize

/-- What a handler leaves: the response and `*offset`. -/
structure Answer where
  code : UInt8
  payload : List UInt8
  offset : Int

def Server.handler (srv : Server) (preferredSize : Nat) (offset : Nat) : Answer :=
  if srv.aware then
    if srv.representation.length ≤ offset ∧ 0 < offset then
      ⟨badOption402, (text "BlockOutOfScope").take srv.maxChunkSize, offset⟩
    else
      let strpos := min preferredSize (srv.representation.length - offset)
      ⟨content205, ((srv.representation.drop offset).take strpos).take srv.maxChunkSize,
        if srv.representation.length ≤ offset + strpos then -1 else offset + strpos⟩
  else ⟨content205, srv.representation.take srv.maxChunkSize, offset⟩

/-- A response; `offset` is where in the representation its payload was taken from. -/
structure Reply extends Msg where
  offset : Nat

/-- An error of `coap_receive` itself. -/
def Server.error (srv : Server) (mid : UInt16) (code : UInt8) (message : String) : Reply where
  mid := mid
  code := code
  block2 := none
  payload := if srv.messageOnError then (text message).take srv.maxChunkSize else []
  offset := 0

/-- The Block2 part of `coap_receive`, on what the handler has left. -/
def Server.blockwise (srv : Server) (block2 : Option Block) (blockNum : UInt32) (blockSize blockOffset : Nat)
    (response : Msg) (newOffset : Int) : Msg :=
  if block2.isSome then
    if newOffset % 4294967296 = blockOffset then
      if response.payload.length ≤ blockOffset then
        { response with code := badOption402 }.setPayload srv.maxChunkSize (text "BlockOutOfScope")
      else
        (response.setHeaderBlock2 blockNum (if response.payload.length - blockOffset > blockSize then 1 else 0)
          (UInt16.ofNat blockSize)).setPayload srv.maxChunkSize ((response.payload.drop blockOffset).take blockSize)
    else
      let r := response.setHeaderBlock2 blockNum
        (if newOffset ≠ -1 ∨ response.payload.length > blockSize then 1 else 0) (UInt16.ofNat blockSize)
      if response.payload.length > blockSize then r.setPayload srv.maxChunkSize (response.payload.take blockSize) else r
  else if newOffset ≠ 0 then
    (response.setHeaderBlock2 0 (if newOffset ≠ -1 then 1 else 0) (UInt16.ofNat srv.maxBlockSize)).setPayload
      srv.maxChunkSize (response.payload.take srv.maxBlockSize)
  else response

/-- `coap_receive` on a request for the resource; `free` if there is a transaction for the response. -/
def Server.receive (srv : Server) (message : Msg) (free : Bool) : Reply :=
  if free then
    let blockNum := match message.block2 with
      | some b => b.num
      | none => 0
    let blockSize := match message.block2 with
      | some b => min b.size.toNat srv.maxBlockSize
      | none => srv.maxBlockSize
    let blockOffset := match message.block2 with
      | some b => b.offset.toNat
      | none => 0
    -- the offset is an `int32_t` for the handler
    if 2147483648 ≤ blockOffset then srv.error message.mid badOption402 "BlockOutOfScope"
    else
      let a := srv.handler blockSize blockOffset
      let response : Msg := ⟨message.mid, a.code, none, a.payload⟩
      ⟨(srv.blockwise message.block2 blockNum blockSize blockOffset response a.offset).transmit, blockOffset⟩
  else srv.error message.mid serviceUnavailable503 "NoFreeTraBuffer"

/-! ## The client -/

/-- `coap_request_status_t`. -/
inductive RequestStatus
  | response
  | more
  | finished
  | timeout
  | blockError
  deriving DecidableEq

/-- `coap_request_state_t`: the message id of the open transaction, the Block2 option of the request. -/
structure RequestState where
  transaction : Option UInt16
  request : Option Block
  blockNum : UInt32
  resBlock : UInt32
  more : UInt8
  blockError : UInt8
  status : Option RequestStatus

def coapMaxAttempts : UInt8 := 4

structure Fresh where
  mid : UInt16
  free : Bool

/-- `progress_request`, with the requests it sends; `chunkSize` is the client's `COAP_MAX_CHUNK_SIZE`. -/
def RequestState.progressRequest (chunkSize : UInt16) (s : RequestState) (f : Fresh) : RequestState × List Msg :=
  if f.free then
    let request : Msg := ⟨f.mid, 1, s.request, []⟩
    let request := if s.blockNum > 0 then request.setHeaderBlock2 s.blockNum 0 chunkSize else request
    ({ s with transaction := some f.mid, request := request.block2 }, [request.transmit])
  else ({ s with transaction := none }, [])

abbrev StatusEvent := RequestStatus × List UInt8

/-- The end of `coap_request_callback`: the next request, or the last call. -/
def continueRequest (chunkSize : UInt16) (s : RequestState) (f : Fresh) : RequestState × List Msg × List StatusEvent :=
  if s.more ≠ 0 then
    if s.blockError < coapMaxAttempts then
      let r := RequestState.progressRequest chunkSize s f
      (r.1, r.2, [])
    else ({ s with status := some .blockError }, [], [(.blockError, [])])
  else ({ s with status := some .finished }, [], [(.finished, [])])

/-- `coap_request_callback` on a response. -/
def coapRequestCallback (chunkSize : UInt16) (s : RequestState) (response : Msg) (f : Fresh) :
    RequestState × List Msg × List StatusEvent :=
  let s := match response.block2 with
    | some b => { s with resBlock := b.num, more := b.more }
    | none => s
  if s.resBlock = s.blockNum then
    let status := if s.more ≠ 0 then RequestStatus.more else RequestStatus.response
    let r := continueRequest chunkSize { s with status := some status, blockNum := s.blockNum + 1 } f
    (r.1, r.2.1, (status, response.payload) :: r.2.2)
  else continueRequest chunkSize { s with blockError := s.blockError + 1 } f

/-! ## Both with the network -/

/-- The client, all messages ever sent either way, and the calls of the callback. -/
structure Transfer where
  client : RequestState
  requests : List Msg
  replies : List Reply
  events : List StatusEvent

/-- A request or a response arrives, for the first time or again, or the client has waited too long. -/
inductive Arrives
  | request (i : Nat) (free : Bool)
  | reply (i : Nat) (f : Fresh)
  | timeout

@[grind =]
def firstRequest (size : Option UInt16) (mid : UInt16) : Msg :=
  match size with
  | some v => Msg.setHeaderBlock2 ⟨mid, 1, none, []⟩ 0 0 v
  | none => ⟨mid, 1, none, []⟩

/-- `coap_send_request`. -/
def Transfer.start (chunkSize : UInt16) (size : Option UInt16) (f : Fresh) : Transfer :=
  let r := RequestState.progressRequest chunkSize ⟨none, (firstRequest size f.mid).block2, 0, 0, 0, 0, none⟩ f
  ⟨r.1, r.2, [], []⟩

@[grind =]
def Transfer.step (srv : Server) (chunkSize : UInt16) (x : Transfer) : Arrives → Option Transfer
  | .request i free => x.requests[i]?.map fun m => { x with replies := x.replies ++ [srv.receive m free] }
  | .reply i f => x.replies[i]?.map fun m =>
    -- the transaction is found by its message id and closed
    if x.client.transaction = some m.mid then
      let r := coapRequestCallback chunkSize { x.client with transaction := none } m.toMsg f
      ⟨r.1, x.requests ++ r.2.1, x.replies, x.events ++ r.2.2⟩
    else x
  | .timeout =>
    if x.client.transaction = none then none
    else some { x with
      client := { x.client with transaction := none, status := some .timeout }
      events := x.events ++ [(.timeout, [])] }

/-- The payloads passed to the callback with status MORE or RESPONSE. -/
def Transfer.delivered (x : Transfer) : List UInt8 :=
  (x.events.filter fun e => e.1 = .more ∨ e.1 = .response).flatMap Prod.snd

/-- A finished transfer has delivered the representation, and the number and size of each Block2 response
give the offset of its payload. -/
def TransferOk (srv : Server) (x : Transfer) : Prop :=
  (x.client.status = some .finished → x.delivered = srv.representation) ∧
    ∀ r ∈ x.replies, ∀ b, r.block2 = some b →
      b.num.toNat * b.size.toNat = r.offset ∧ r.payload <+: srv.representation.drop r.offset

/-! ## When it goes right -/

def wireSize (size : UInt16) : Nat := 16 * 2 ^ (Block.szx ⟨0, 0, size, 0⟩)

def Server.firstSize (srv : Server) (size : Option UInt16) : Option Nat :=
  match size with
  | some v => if blockAccepted 0 v then some (min (wireSize v) srv.maxBlockSize)
    else if srv.aware then some srv.maxBlockSize else none
  | none => if srv.aware then some srv.maxBlockSize else none

/-- Block 0 is the whole representation, or the client goes on in the unit of block 0. A transfer in
another unit is right only because it never finishes: the next block is out of scope, or the client's
size is no block size. -/
structure UnitsAgree (srv : Server) (chunkSize : UInt16) (size : Option UInt16) : Prop where
  chunk : 16 ≤ srv.maxChunkSize
  whole : srv.aware = false → srv.representation.length ≤ srv.maxChunkSize
  nonempty : ∀ b, srv.firstSize size = some b → srv.aware = false → srv.representation ≠ []
  size : ∀ b, srv.firstSize size = some b → srv.representation.length ≤ b ∨ ¬ blockAccepted 1 chunkSize ∨
    wireSize chunkSize = b ∨ srv.representation.length ≤ wireSize chunkSize

/-- As long as block 0 is missing, the server has a transaction for each response. -/
def ServerFree (x : Transfer) : Arrives → Prop
  | .request _ free => x.client.blockNum = 0 → free = true
  | _ => True

end Contiki.Coap

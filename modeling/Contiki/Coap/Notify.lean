/-
`coap_notify_observers_sub`: one message is filled, serialized and sent for each observer of the URL in turn. The handlers
are whatever calls the same setters every time.
-/
import Contiki.Coap.Blockwise
import Contiki.Coap.Registrations
import Contiki.Coap.Message
import Contiki.Coap.Transactions

namespace Contiki.Coap.Observing

open Core Lib

/-! ## The call -/

/-- The setters that a handler calls on the response, and `*offset` behind it. -/
structure Handling where
  sets : List Setter
  offset : Int32

/-- `coap_resource_t`; the GET handler is given `*offset`. -/
structure Resource where
  url : CString
  hasSubResources : Bool
  getHandler : Int32 → Handling

/-- A call, with what `coap_call_handlers` does and whether it returns a positive value, and with
`COAP_OBSERVE_REFRESH_INTERVAL` and `COAP_OBSERVER_URL_LEN`. -/
structure NotifyCall where
  z : Sizes
  refreshInterval : Nat
  urlLen : Nat
  handlers : Handling
  handled : Bool
  resource : Option Resource
  subpath : Option CString

namespace NotifyCall

def url (c : NotifyCall) : Option (List UInt8) :=
  match c.resource, c.subpath with
  | some r, some sub => some ((r.url.bytes ++ sub.bytes).take (c.urlLen - 1))
  | some r, none => some (r.url.bytes.take (c.urlLen - 1))
  | none, some sub => some (sub.bytes.take (c.urlLen - 1))
  | none, none => none

def subOk (c : NotifyCall) : Bool :=
  match c.resource with
  | some r => r.hasSubResources
  | none => true

def handling (c : NotifyCall) : Handling :=
  if c.handled then c.handlers
  else match c.resource with
    | some r => ⟨c.handlers.sets ++ (r.getHandler c.handlers.offset).sets, (r.getHandler c.handlers.offset).offset⟩
    | none => ⟨c.handlers.sets ++ [.statusCode 128], c.handlers.offset⟩

variable {E : Type}

def observes (c : NotifyCall) (url : List UInt8) (obs : Observer E) : Bool :=
  let obsUrl := cString obs.url
  (obsUrl.length = url.length ∨ obsUrl.length > url.length ∧ c.subOk = true ∧ obsUrl[url.length]? = some slash) ∧
    obsUrl.take url.length = url

def forced (c : NotifyCall) (obs : Observer E) : Bool :=
  c.refreshInterval ≠ 0 ∧ obs.obsCounter.toInt % c.refreshInterval = 0

def fill (c : NotifyCall) (obs : Observer E) (mid : UInt16) (notification : Message (List UInt8)) : Message (List UInt8) :=
  let n := if c.forced obs then { notification with type := .con } else notification
  let n := c.handling.sets.foldl (Setter.apply c.z) { n with mid := mid }
  let n := if n.code < 128 then Setter.apply c.z n (.observe obs.obsCounter.toUInt32) else n
  let n := coapSetToken n obs.token
  let n :=
    if c.handling.offset ≠ 0 then
      let maxBlockSize := coapMaxBlockSize c.z.maxChunkSize
      let n := coapSetHeaderBlock2 n 0 (if c.handling.offset ≠ -1 then 1 else 0) (UInt16.ofNat maxBlockSize)
      Setter.apply c.z n (.payload (n.payload.take maxBlockSize))
    else n
  { n with version := 1 }

end NotifyCall

/-- A notification that was sent to the observer in a block: the message, and its bytes if they fit. -/
structure Sent where
  observer : Nat
  message : Message (List UInt8)
  bytes : Option (List UInt8)

/-- The transactions, the observers, the message and what was sent. -/
structure Notifying (E K : Type) where
  trans : State E K
  observers : Observers E
  notification : Message (List UInt8)
  sent : List Sent

variable {E K : Type}

/-- The loop body, for the observer in block `o`. -/
def notifyOne (c : NotifyCall) (url : List UInt8) (x : Notifying E K) (o : Nat) : Notifying E K :=
  let obs := x.observers.obs o
  if c.observes url obs then
    let r := coapGetMid x.trans
    match coapNewTransaction r.2 r.1 obs.endpoint with
    | none => { x with trans := r.2 }
    | some (t, s) =>
      let mid := (s.trans t).mid
      let n := c.fill obs mid x.notification
      let counted := if n.code < 128 then obs.count else obs
      let s := setTrans s t { s.trans t with con := n.type = .con }
      { trans := (coapSendTransaction s t).1
        observers := { x.observers with obs := Function.update x.observers.obs o { counted with lastMid := mid } }
        notification := n
        sent := x.sent ++ [⟨o, n, coapSerializeMessage c.z n⟩] }
  else x

/-- Before the loop: `notification` is initialized with `CONTENT_2_05`. -/
def startNotifying (trans : State E K) (observers : Observers E) : Notifying E K :=
  ⟨trans, observers, coapInitMessage .non 69 0, []⟩

def coapNotifyObserversSub (c : NotifyCall) (trans : State E K) (observers : Observers E) : Notifying E K :=
  match c.url with
  | some url => observers.observersList.foldl (notifyOne c url) (startNotifying trans observers)
  | none => startNotifying trans observers

/-! ## What setters write -/

/-- The fields that are written, each with its value, and the options that are set. -/
structure Writes where
  code : Option UInt8
  token : Option (List UInt8)
  contentFormat : Option UInt16
  maxAge : Option UInt32
  etag : Option (List UInt8)
  uriHost : Option (List UInt8)
  locationPath : Option (List UInt8)
  locationQuery : Option (List UInt8)
  uriPath : Option (List UInt8)
  observe : Option Int32
  accept : Option UInt16
  ifMatch : Option (List UInt8)
  block2 : Option (UInt32 × UInt8 × UInt16)
  block1 : Option (UInt32 × UInt8 × UInt16)
  size2 : Option UInt32
  size1 : Option UInt32
  uriQuery : Option (List UInt8)
  payload : Option (List UInt8)
  options : Nat → Bool

namespace Writes

def nothing : Writes where
  code := none
  token := none
  contentFormat := none
  maxAge := none
  etag := none
  uriHost := none
  locationPath := none
  locationQuery := none
  uriPath := none
  observe := none
  accept := none
  ifMatch := none
  block2 := none
  block1 := none
  size2 := none
  size1 := none
  uriQuery := none
  payload := none
  options := fun _ => false

/-- A block option is written but for the offset. -/
def block (w : Option (UInt32 × UInt8 × UInt16)) (b : Block) : Block :=
  match w with
  | some (num, more, size) => ⟨num, more, size, b.offset⟩
  | none => b

def apply (w : Writes) (m : Message (List UInt8)) : Message (List UInt8) :=
  { m with
    code := w.code.getD m.code
    token := w.token.getD m.token
    contentFormat := w.contentFormat.getD m.contentFormat
    maxAge := w.maxAge.getD m.maxAge
    etag := w.etag.getD m.etag
    uriHost := w.uriHost.getD m.uriHost
    locationPath := w.locationPath.getD m.locationPath
    locationQuery := w.locationQuery.getD m.locationQuery
    uriPath := w.uriPath.getD m.uriPath
    observe := w.observe.getD m.observe
    accept := w.accept.getD m.accept
    ifMatch := w.ifMatch.getD m.ifMatch
    block2 := block w.block2 m.block2
    block1 := block w.block1 m.block1
    size2 := w.size2.getD m.size2
    size1 := w.size1.getD m.size1
    uriQuery := w.uriQuery.getD m.uriQuery
    payload := w.payload.getD m.payload
    options := fun n => w.options n || m.options n }

/-- The writes `w` and then those of `v`. -/
def andThen (w v : Writes) : Writes where
  code := v.code <|> w.code
  token := v.token <|> w.token
  contentFormat := v.contentFormat <|> w.contentFormat
  maxAge := v.maxAge <|> w.maxAge
  etag := v.etag <|> w.etag
  uriHost := v.uriHost <|> w.uriHost
  locationPath := v.locationPath <|> w.locationPath
  locationQuery := v.locationQuery <|> w.locationQuery
  uriPath := v.uriPath <|> w.uriPath
  observe := v.observe <|> w.observe
  accept := v.accept <|> w.accept
  ifMatch := v.ifMatch <|> w.ifMatch
  block2 := v.block2 <|> w.block2
  block1 := v.block1 <|> w.block1
  size2 := v.size2 <|> w.size2
  size1 := v.size1 <|> w.size1
  uriQuery := v.uriQuery <|> w.uriQuery
  payload := v.payload <|> w.payload
  options := fun n => v.options n || w.options n

theorem getD_orElse {α : Type} (v w : Option α) (a : α) : (v <|> w).getD a = v.getD (w.getD a) := by
  cases v <;> rfl

theorem block_orElse (v w : Option (UInt32 × UInt8 × UInt16)) (b : Block) : block (v <|> w) b = block v (block w b) := by
  rcases v with _ | ⟨num, more, size⟩
  · rfl
  · rcases w with _ | ⟨num', more', size'⟩ <;> rfl

theorem getD_getD {α : Type} (w : Option α) (a : α) : w.getD (w.getD a) = w.getD a := by
  cases w <;> rfl

theorem block_some (w : UInt32 × UInt8 × UInt16) (b : Block) : block (some w) b = ⟨w.1, w.2.1, w.2.2, b.offset⟩ := rfl

theorem block_none (b : Block) : block none b = b := rfl

theorem block_offset (w : Option (UInt32 × UInt8 × UInt16)) (b : Block) : (block w b).offset = b.offset := by
  rcases w with _ | ⟨num, more, size⟩ <;> rfl

theorem block_block (w : Option (UInt32 × UInt8 × UInt16)) (b : Block) : block w (block w b) = block w b := by
  rcases w with _ | ⟨num, more, size⟩ <;> rfl

theorem or_again (v w o : Bool) : (v || (w || (v || (w || o)))) = (v || (w || o)) := by
  cases v <;> cases w <;> rfl

theorem apply_andThen (w v : Writes) (m : Message (List UInt8)) : (w.andThen v).apply m = v.apply (w.apply m) := by
  unfold apply andThen
  simp only [getD_orElse, block_orElse, Bool.or_assoc]

theorem apply_nothing (m : Message (List UInt8)) : nothing.apply m = m := rfl

end Writes

end Contiki.Coap.Observing

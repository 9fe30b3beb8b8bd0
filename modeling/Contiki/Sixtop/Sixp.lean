/-
6P transactions (sixp-trans.c): allocation and release of the blocks, the transition rules of the
state machine, and the two timer callbacks. Calls into a scheduling function go through a handler
`h`, which may call the 6P layer again before it returns.
-/
import Contiki.Sixtop.Node
import Contiki.Lib.Run

namespace Contiki.Sixtop

section

open TransState

namespace Node

variable {A K S : Type} {N M : Nat}

/-! ## Timers -/

def ctimerStop (i : Fin N) (s : Node A K S N M) : Node A K S N M :=
  s.setTrans i { s.mem i with timer := none }

/-- `start_trans_timer`: the timeout interval is the scheduling function's. -/
def startTransTimer (i : Fin N) (s : Node A K S N M) : Node A K S N M :=
  s.setTrans i { s.mem i with timer := some .handleTransTimeout }

/-- `schedule_trans_process`: the timer expires at the next opportunity. -/
def scheduleTransProcess (i : Fin N) (s : Node A K S N M) : Node A K S N M :=
  s.setTrans i { s.mem i with timer := some .processTrans }

/-! ## Release -/

def sixpTransFree [Inhabited A] (i : Fin N) (s : Node A K S N M) : Node A K S N M :=
  let s := if (s.mem i).state = waitFree then s.setTrans i { s.mem i with state := unavailable }
    else { s.ctimerStop i with transList := s.transList.erase i }
  let state := (s.mem i).state
  if state = requestSending ∨ state = responseSending ∨ state = confirmationSending then
    -- the block is freed when mac_callback runs
    s.setTrans i { s.mem i with state := waitFree }
  else
    { s with mem := Function.update s.mem i Trans.zero, alloc := Function.update s.alloc i none }

/-! ## Transitions -/

/-- The state transition rules `sixp_trans_transit_state` enforces. -/
@[grind =]
def transitAllowed (new state : TransState) (mode : TransMode) : Bool :=
  match new, state with
  | terminating, _ => true
  | requestSending, init => true
  | requestSent, requestSending => true
  | requestReceived, init => true
  | responseSending, requestReceived => true
  | responseSent, responseSending => true
  | responseReceived, requestSending | responseReceived, requestSent => true
  | confirmationReceived, responseSent | confirmationReceived, responseSending => mode = .threeStep
  | confirmationSending, responseReceived => mode = .threeStep
  | confirmationSent, confirmationSending => mode = .threeStep
  | _, _ => false

variable [DecidableEq A] (h : Handler A K S N M)

/-- The update of `next_seqno` on the way to RESPONSE_SENT: the one in the request overrides it. -/
@[grind =]
def overrideNextSeqno (t : Trans A K) (s : Node A K S N M) : Node A K S N M :=
  match s.sixpNbrFind t.peerAddr with
  | none => s
  | some j =>
    if t.cmd = Cmd.clear then s
    else (s.sixpNbrSetNextSeqno j t.seqno).sixpNbrIncrementNextSeqno j

def notifyError (err : SixpError) (i : Fin N) (s : Node A K S N M) : Node A K S N M :=
  let t := s.mem i
  if t.sf.any Sf.error then s.upcall h (.error err t.cmd t.seqno t.peerAddr) else s

/-- `sixp_trans_transit_state`: whether it returns 0. -/
def sixpTransTransitState (i : Fin N) (new : TransState) (s : Node A K S N M) : Bool × Node A K S N M :=
  let t := s.mem i
  if transitAllowed new t.state t.mode then
    let s := if new = responseSent then s.overrideNextSeqno t else s
    (true, (s.setTrans i { s.mem i with state := new }).scheduleTransProcess i)
  else
    (false, s.notifyError h .invalidTransStateTransition i)

/-! ## Timer callbacks -/

def handleTransTimeout (i : Fin N) (s : Node A K S N M) : Node A K S N M :=
  let t := s.mem i
  let s := if t.sf.any Sf.timeout then s.upcall h (.timeout t.cmd t.peerAddr) else s
  (s.sixpTransTransitState h i terminating).2

/-- The state-specific operation of `process_trans`. -/
@[grind =]
def processTransState (i : Fin N) (s : Node A K S N M) : Node A K S N M :=
  match (s.mem i).state with
  | responseSent | responseReceived =>
    if (s.mem i).mode = .twoStep then (s.sixpTransTransitState h i terminating).2 else s
  | confirmationSent | confirmationReceived => (s.sixpTransTransitState h i terminating).2
  | _ => s

def processTrans [Inhabited A] (i : Fin N) (s : Node A K S N M) : Node A K S N M :=
  let s := s.ctimerStop i
  if (s.mem i).state = terminating then s.sixpTransFree i
  else
    let s := s.processTransState h i
    if (s.mem i).state ≠ terminating then s.startTransTimer i else s

/-! ## Allocation and lookup -/

/-- `determine_trans_mode`: 3-step exactly for an ADD or DELETE request with an empty CellList. -/
def determineTransMode (req : Pkt) : TransMode :=
  if req.type = .request ∧ (req.code = Cmd.add ∨ req.code = Cmd.delete) ∧
      sixpPktGetCellList req.type req.code req.body = some [] then .threeStep
  else .twoStep

def sixpTransFind (peer : A) (s : Node A K S N M) : Option (Fin N) :=
  s.transList.find? fun i => (s.mem i).peerAddr = peer

/-- `memb_alloc`: the first unused block. -/
def membAlloc (s : Node A K S N M) : Option (Fin N) :=
  (List.finRange N).find? fun i => (s.alloc i).isNone

@[grind =]
def sixpTransAlloc (pkt : Pkt) (peer : A) (s : Node A K S N M) : Option (Fin N × Node A K S N M) :=
  match s.sixtopFindSf pkt.sfid with
  | none => none
  | some sf =>
    if (s.sixpTransFind peer).isSome then none
    else match s.membAlloc with
      | none => none
      | some i =>
        let t : Trans A K := ⟨some sf, peer, pkt.seqno, pkt.code, init, determineTransMode pkt, none, none⟩
        let s := { s.setTrans i t with
          alloc := Function.update s.alloc i (some s.nextUid), nextUid := s.nextUid + 1
          transList := s.transList.erase i ++ [i] }
        some (i, s.startTransTimer i)

@[grind =]
def sixpTransInvokeCallback (i : Fin N) (status : OutputStatus) (s : Node A K S N M) : Node A K S N M :=
  match (s.mem i).callback with
  | none => s
  | some k => s.upcall h (.sent k (s.mem i).peerAddr status)

def sixpTransSetCallback (i : Fin N) (func : Option K) (s : Node A K S N M) : Node A K S N M :=
  s.setTrans i { s.mem i with callback := func }

def sixpTransAbort [Inhabited A] (i : Fin N) (s : Node A K S N M) : Node A K S N M :=
  let s := (s.sixpTransTransitState h i terminating).2
  let s := s.sixpTransInvokeCallback h i .aborted
  (s.ctimerStop i).processTrans h i

end Node

end

/-!
The 6P layer (sixp.c) over the transactions: `mac_callback`, `sixp_output`, `sixp_input`, and the
step function of a node whose events are calls of `sixp_output`, received packets, expiring
transaction timers, MAC completions and neighbors that leave the neighbor table.
What other layers decide (whether the neighbor table has room, what the MAC does with a frame) is
given with each call.
-/

section

open TransState

/-! ## What a call is given -/

/-- What `sixtop_output` comes to: no room for the Sub-IE, an IE that cannot be written (the
callback runs with MAC_TX_ERR_FATAL), a MAC that reports the completion before `send` returns, or
one that keeps the frame and reports later. -/
inductive MacOutcome where
  | noRoom
  | fatal
  | sync (status : MacStatus)
  | queued
  deriving DecidableEq, Repr

structure Env (M : Nat) where
  /-- The slot the neighbor table gives to a new neighbor, if any. -/
  nbrSlot : Option (Fin M)
  mac : MacOutcome

/-- The arguments of `sixp_output`; a `body` of `none` is NULL with `body_len` 0. -/
structure OutputArgs (A K : Type) (M : Nat) where
  type : PktType
  code : PktCode
  sfid : UInt8
  body : Option (List UInt8)
  dest : A
  callback : Option K
  env : Env M

namespace Node

variable {A K S : Type} {N M : Nat} [DecidableEq A] [Inhabited A] (h : Handler A K S N M)

/-! ## MAC completions -/

/-- The state `mac_callback` moves a transaction to; its own where nothing is to change. -/
@[grind =]
def macCallbackState (status : MacStatus) (state : TransState) : TransState :=
  if status = .ok then
    match state with
    | requestSending => requestSent
    | responseSending => responseSent
    | confirmationSending => confirmationSent
    | other => other
  else if state = requestSending then terminating
  else state

def macCallback (i : Fin N) (status : MacStatus) (s : Node A K S N M) : Node A K S N M :=
  let state := (s.mem i).state
  if state = waitFree then (s.notifyError h .txAfterTransactionTermination i).sixpTransFree i
  else
    let new := macCallbackState status state
    let (ok, s) := if new ≠ state then s.sixpTransTransitState h i new else (true, s)
    if ok then
      let s := s.sixpTransInvokeCallback h i (if status = .ok then .success else .failure)
      s.sixpTransSetCallback i none
    else (s.sixpTransTransitState h i terminating).2

def macComplete (i : Fin N) (given : Option Nat) (status : MacStatus) (s : Node A K S N M) : Node A K S N M :=
  (s.record (.completion given (s.alloc i))).macCallback h i status

/-- `sixtop_output`: whether it returns 0. The callback is `mac_callback` when there is a
transaction pointer, and NULL otherwise. -/
def sixtopOutput (mac : MacOutcome) (dest : A) (bytes : List UInt8) (ptr : Option (Fin N))
    (s : Node A K S N M) : Bool × Node A K S N M :=
  match mac with
  | .noRoom => (false, s)
  | .fatal => (false, match ptr with
    | none => s
    | some i => s.macComplete h i (s.alloc i) .errFatal)
  | .sync status => (true, match ptr with
    | none => s
    | some i => s.macComplete h i (s.alloc i) status)
  | .queued => (true, { s with mac := s.mac ++ [⟨dest, bytes, ptr, ptr.bind s.alloc⟩] })

/-! ## Output -/

@[grind =]
def outputReady (type : PktType) (trans : Option (Fin N)) (s : Node A K S N M) : Bool :=
  match type with
  | .request => trans.isNone
  | .response => trans.any fun i => (s.mem i).state = requestReceived
  | .confirmation => trans.any fun i => (s.mem i).state = responseReceived
  | .reserved => false

/-- The neighbor the sequence number is managed with, allocated for a request and for a response
unless the transaction is a CLEAR or the code is RC_ERR_VERSION or RC_ERR_SFID. -/
@[grind =]
def outputNbr (a : OutputArgs A K M) (trans : Option (Fin N)) (s : Node A K S N M) :
    Option (Option (Fin M) × Node A K S N M) :=
  match s.sixpNbrFind a.dest with
  | some j => some (some j, s)
  | none =>
    let clearing := trans.any fun i => (s.mem i).cmd = Cmd.clear
    if a.type = .request ∨
        (a.type = .response ∧ !clearing ∧ a.code ≠ Rc.errVersion ∧ a.code ≠ Rc.errSfid) then
      (s.sixpNbrAlloc a.env.nbrSlot a.dest).map fun r => (some r.1, r.2)
    else some (none, s)

/-- The SeqNum of the packet: the neighbor's next one for a request, the transaction's otherwise. -/
def outputSeqno (type : PktType) (nbr : Option (Fin M)) (trans : Option (Fin N)) (s : Node A K S N M) : UInt8 :=
  match type, nbr, trans with
  | .request, some j, _ => s.sixpNbrGetNextSeqno j
  | .request, none, _ => 0
  | _, _, some i => (s.mem i).seqno
  | _, _, none => 0

/-- The transaction of the packet, a new one for a request. -/
@[grind =]
def outputTrans (a : OutputArgs A K M) (seqno : UInt8) (trans : Option (Fin N)) (s : Node A K S N M) :
    Option (Fin N × Node A K S N M) :=
  if a.type = .request then
    match s.sixpTransAlloc ⟨sixpPktVersion, a.type, a.code, a.sfid, seqno, a.body⟩ a.dest with
    | none => none
    | some (i, s') => some (i, s'.record (.opened s.nextUid a.dest seqno))
  else trans.map fun i => (i, s)

/-- The update of `next_seqno` once a request is with the MAC. -/
def outputNextSeqno (code : PktCode) (nbr : Option (Fin M)) (s : Node A K S N M) : Node A K S N M :=
  match nbr with
  | none => s
  | some j => if code = Cmd.clear then s.sixpNbrResetNextSeqno j else s.sixpNbrIncrementNextSeqno j

/-- After `sixtop_output` returned 0: the transaction moves to the SENDING state of the packet. -/
@[grind =]
def outputSent (code : PktCode) (nbr : Option (Fin M)) (i : Fin N) (s : Node A K S N M) : Node A K S N M :=
  match (s.mem i).state with
  | init => ((s.outputNextSeqno code nbr).sixpTransTransitState h i requestSending).2
  | requestReceived => (s.sixpTransTransitState h i responseSending).2
  | responseReceived => (s.sixpTransTransitState h i confirmationSending).2
  | _ => s

/-- Hands the packet to the MAC, and aborts a request that cannot be handed over. -/
def outputSend (a : OutputArgs A K M) (bytes : List UInt8) (nbr : Option (Fin M)) (i : Fin N)
    (s : Node A K S N M) : Node A K S N M :=
  match (s.sixpTransSetCallback i a.callback).sixtopOutput h a.env.mac a.dest bytes (some i) with
  | (true, s) => s.outputSent h a.code nbr i
  | (false, s) => if a.type = .request then s.sixpTransAbort h i else s

/-- `sixp_output`: whether it returns 0. -/
@[grind =]
def sixpOutput (a : OutputArgs A K M) (s : Node A K S N M) : Bool × Node A K S N M :=
  let trans := s.sixpTransFind a.dest
  if s.outputReady a.type trans then
    match s.outputNbr a trans with
    | none => (false, s)
    | some (nbr, s) =>
      let seqno := s.outputSeqno a.type nbr trans
      match sixpPktCreate a.type a.code a.sfid seqno a.body with
      | none => (false, s)
      | some bytes =>
        match s.outputTrans a seqno trans with
        | none => (false, s)
        | some (i, s) => (true, s.outputSend h a bytes nbr i)
  else (false, s)

/-! ## Input -/

/-- `send_back_error`, with a packet of its own where no transaction is to carry the error. -/
def sendBackError (env : Env M) (type : PktType) (rc : PktCode) (pkt : Pkt) (dest : A)
    (s : Node A K S N M) : Node A K S N M :=
  if rc = Rc.errVersion ∨ rc = Rc.errSfid ∨ rc = Rc.errBusy ∨
      (rc = Rc.errSeqnum ∧ (s.sixpTransFind dest).any fun i => (s.mem i).state ≠ requestReceived) then
    match sixpPktCreate type rc pkt.sfid pkt.seqno none with
    | none => s
    | some bytes => (s.sixtopOutput h env.mac dest bytes none).2
  else (s.sixpOutput h ⟨type, rc, pkt.sfid, none, dest, none, env⟩).2

def handleScheduleInconsistency (env : Env M) (sf : Sf) (pkt : Pkt) (peer : A) (s : Node A K S N M) :
    Node A K S N M :=
  let s := s.sendBackError h env .response Rc.errSeqnum pkt peer
  if sf.error then s.upcall h (.error .scheduleInconsistency pkt.code pkt.seqno peer) else s

def inputState : PktType → TransState
  | .request => requestReceived
  | .response => responseReceived
  | .confirmation => confirmationReceived
  | .reserved => unavailable

/-- The end of `sixp_input`: the state transition and the call of the input handler. -/
@[grind =]
def inputTransit (sf : Sf) (pkt : Pkt) (src : A) (i : Fin N) (s : Node A K S N M) : Node A K S N M :=
  let t := s.mem i
  match s.sixpTransTransitState h i (inputState pkt.type) with
  | (false, s) => s
  | (true, s') =>
    if sf.input then
      (s'.record (.input pkt.type pkt.seqno src (s.alloc i) t.state t.mode)).upcall h
        (.input pkt.type pkt.code pkt.body src)
    else s'

/-- Whether the peer seems to have lost or kept a sequence number that this node has not. -/
def seqnoInconsistent (pkt : Pkt) (src : A) (s : Node A K S N M) : Bool :=
  pkt.code ≠ Cmd.clear &&
    match s.sixpNbrFind src with
    | none => pkt.seqno ≠ 0
    | some j => s.sixpNbrGetNextSeqno j ≠ 0 && pkt.seqno = 0

/-- `sixp_input` for a request. -/
def inputRequest (env : Env M) (sf : Sf) (pkt : Pkt) (src : A) (s : Node A K S N M) : Node A K S N M :=
  match s.sixpTransFind src with
  | some i =>
    let seqno := (s.mem i).seqno
    if pkt.code ≠ Cmd.clear ∧ ((pkt.seqno = 0 ∧ seqno ≠ 0) ∨ (pkt.seqno ≠ 0 ∧ seqno = 0)) then
      s.handleScheduleInconsistency h env sf pkt src
    else s.sendBackError h env .response Rc.errBusy pkt src
  | none =>
    let s := match s.sixpNbrFind src with
      | some j => if pkt.code = Cmd.clear then s.sixpNbrResetNextSeqno j else s
      | none => s
    match s.sixpTransAlloc pkt src with
    | none => s.sendBackError h env .response Rc.errBusy pkt src
    | some (i, s) =>
      if s.seqnoInconsistent pkt src then
        (s.sixpTransTransitState h i requestReceived).2.handleScheduleInconsistency h env sf pkt src
      else s.inputTransit h sf pkt src i

@[grind =]
def sixpInput (env : Env M) (buf : List UInt8) (src : A) (s : Node A K S N M) : Node A K S N M :=
  match sixpPktParse buf with
  | (false, pkt) =>
    if pkt.version ≠ sixpPktVersion then s.sendBackError h env .response Rc.errVersion pkt src else s
  | (true, pkt) =>
    match s.sixtopFindSf pkt.sfid with
    | none => s.sendBackError h env .response Rc.errSfid pkt src
    | some sf =>
      match pkt.type with
      | .request => s.inputRequest h env sf pkt src
      | .response | .confirmation =>
        match s.sixpTransFind src with
        | none => s
        | some i => if (s.mem i).seqno ≠ pkt.seqno then s else s.inputTransit h sf pkt src i
      | .reserved => s

end Node

/-! ## Steps -/

inductive Event (A K : Type) (N M : Nat) where
  | output (a : OutputArgs A K M)
  | input (env : Env M) (buf : List UInt8) (src : A)
  | timer (i : Fin N)
  | macDone (k : Nat) (status : MacStatus)
  | nbrRemove (j : Fin M)

section

variable {A K S : Type} {N M : Nat} [DecidableEq A] [Inhabited A]

@[grind =]
def step (h : Handler A K S N M) (s : Node A K S N M) : Event A K N M → Option (Node A K S N M)
  | .output a => some (s.sixpOutput h a).2
  | .input env buf src => some (s.sixpInput h env buf src)
  | .timer i => (s.mem i).timer.map fun
    | .handleTransTimeout => (s.ctimerStop i).handleTransTimeout h i
    | .processTrans => (s.ctimerStop i).processTrans h i
  | .macDone k status => (s.mac[k]?).map fun f =>
    let s := { s with mac := s.mac.eraseIdx k }
    match f.ptr with
    | none => s
    | some i => s.macComplete h i f.owner status
  | .nbrRemove j => some { s with nbrs := Function.update s.nbrs j none }

/-! ## Scheduling functions that may do anything -/

/-- What a scheduling function will do: for each coming call into it, the `sixp_output` calls it
makes before it returns. -/
abbrev Script (A K : Type) (M : Nat) := List (List (OutputArgs A K M))

/-- A scheduling function that follows its script, with calls nested to depth `n`. -/
@[grind =]
def scripted : Nat → Handler A K (Script A K M) N M
  | 0, _, s => s
  | n + 1, _, s =>
    match s.app with
    | [] => s
    | calls :: rest => calls.foldl (fun s a => (s.sixpOutput (scripted n) a).2) { s with app := rest }

/-- An event together with what the scheduling functions do in it. -/
def openStep (n : Nat) (s : Node A K (Script A K M) N M) (e : Script A K M × Event A K N M) :
    Option (Node A K (Script A K M) N M) :=
  step (scripted n) { s with app := e.1 } e.2

end

end

end Contiki.Sixtop

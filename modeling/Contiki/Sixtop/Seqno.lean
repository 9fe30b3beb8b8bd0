/-
What happens to the sequence numbers of the neighbors in the course of a call. The record is made beside the functions
of sixp-trans.c and sixp.c: for each of them, what it adds to the record from the state it is called in, with the newest
event first. The functions themselves stay as they are.
-/
import Contiki.Sixtop.Sixp

namespace Contiki.Sixtop

open TransState

/-! ## Events -/

inductive SeqEvent (A : Type) where
  /-- `sixp_nbr_alloc` made the entry of the address. -/
  | created (addr : A)
  /-- A CLEAR request was sent to the address, or one from it reset its entry. -/
  | cleared (addr : A)
  /-- A request other than CLEAR was sent to the address. -/
  | requested (addr : A)
  /-- The address has the slot that a CLEAR request to another one resets. -/
  | misdirected (addr : A)
  /-- A response is given to the MAC, for a transaction other than CLEAR with the address. -/
  | responded (trans : Nat) (addr : A)
  /-- The MAC reports MAC_TX_OK for a frame of the transaction, which `mac_callback` finds sending its response or not. -/
  | acked (trans : Nat) (awaited : Bool)
  /-- The `next_seqno` that the assertion in `sixp_trans_transit_state` looks at. -/
  | asserted (seqno : UInt8)
  deriving DecidableEq

/-- The last that happened to the sequence number of the address is that its entry was created or that a CLEAR reset it:
no other request was sent to it since then, and no response acknowledged. -/
@[grind =]
def Fresh {A : Type} (addr : A) : List (SeqEvent A) → Prop
  | [] => False
  | .created a :: past => a = addr ∨ Fresh addr past
  | .cleared a :: past => a = addr ∨ Fresh addr past
  | .requested a :: past => a ≠ addr ∧ Fresh addr past
  | .acked u _ :: past => .responded u addr ∉ past ∧ Fresh addr past
  | .misdirected _ :: past => Fresh addr past
  | .responded _ _ :: past => Fresh addr past
  | .asserted _ :: past => Fresh addr past

abbrev Recorder (A K S : Type) (N M : Nat) := Upcall A K → Node A K S N M → List (SeqEvent A)

namespace Node

variable {A K S : Type} {N M : Nat} [DecidableEq A] (h : Handler A K S N M) (log : Recorder A K S N M)

/-! ## Transactions -/

def upcallLog (u : Upcall A K) (s : Node A K S N M) : List (SeqEvent A) :=
  log u (s.record (.upcall s.peers))

def notifyErrorLog (err : SixpError) (i : Fin N) (s : Node A K S N M) : List (SeqEvent A) :=
  let t := s.mem i
  if t.sf.any Sf.error then s.upcallLog log (.error err t.cmd t.seqno t.peerAddr) else []

/-- The assertion on the way to RESPONSE_SENT. -/
@[grind =]
def overrideLog (t : Trans A K) (s : Node A K S N M) : List (SeqEvent A) :=
  match s.sixpNbrFind t.peerAddr with
  | none => []
  | some j => if t.cmd = Cmd.clear then [.asserted (s.sixpNbrGetNextSeqno j)] else []

def transitLog (i : Fin N) (new : TransState) (s : Node A K S N M) : List (SeqEvent A) :=
  let t := s.mem i
  if transitAllowed new t.state t.mode then
    if new = responseSent then s.overrideLog t else []
  else s.notifyErrorLog log .invalidTransStateTransition i

def invokeCallbackLog (i : Fin N) (status : OutputStatus) (s : Node A K S N M) : List (SeqEvent A) :=
  match (s.mem i).callback with
  | none => []
  | some k => s.upcallLog log (.sent k (s.mem i).peerAddr status)

/-- The transition to TERMINATING at the end is always allowed. -/
def handleTransTimeoutLog (i : Fin N) (s : Node A K S N M) : List (SeqEvent A) :=
  let t := s.mem i
  if t.sf.any Sf.timeout then s.upcallLog log (.timeout t.cmd t.peerAddr) else []

/-- So it is in `sixp_trans_abort`, and `process_trans` makes no other one. -/
def abortLog (i : Fin N) (s : Node A K S N M) : List (SeqEvent A) :=
  (s.sixpTransTransitState h i terminating).2.invokeCallbackLog log i .aborted

/-! ## MAC completions -/

/-- What the MAC reports about a frame of the transaction `given`, whose pointer is now block `i`. -/
def ackLog (given : Option Nat) (i : Fin N) (status : MacStatus) (s : Node A K S N M) : List (SeqEvent A) :=
  if status = .ok then
    given.toList.map fun u => .acked u (decide (s.alloc i = some u ∧ (s.mem i).state = responseSending))
  else []

variable [Inhabited A]

def macCallbackLog (given : Option Nat) (i : Fin N) (status : MacStatus) (s : Node A K S N M) :
    List (SeqEvent A) :=
  let acks := s.ackLog given i status
  let state := (s.mem i).state
  if state = waitFree then s.notifyErrorLog log .txAfterTransactionTermination i ++ acks
  else
    let new := macCallbackState status state
    let r := if new ≠ state then s.sixpTransTransitState h i new else (true, s)
    let first := if new ≠ state then s.transitLog log i new else []
    if r.1 then r.2.invokeCallbackLog log i (if status = .ok then .success else .failure) ++ (acks ++ first)
    else acks ++ first

def macCompleteLog (i : Fin N) (given : Option Nat) (status : MacStatus) (s : Node A K S N M) :
    List (SeqEvent A) :=
  (s.record (.completion given (s.alloc i))).macCallbackLog h log given i status

def sixtopOutputLog (mac : MacOutcome) (ptr : Option (Fin N)) (s : Node A K S N M) : List (SeqEvent A) :=
  match mac, ptr with
  | .fatal, some i => s.macCompleteLog h log i (s.alloc i) .errFatal
  | .sync status, some i => s.macCompleteLog h log i (s.alloc i) status
  | _, _ => []

/-! ## Output -/

def respondedLog (a : OutputArgs A K M) (i : Fin N) (s : Node A K S N M) : List (SeqEvent A) :=
  if a.type = .response ∧ (s.mem i).cmd ≠ Cmd.clear then
    (s.alloc i).toList.map fun u => .responded u a.dest
  else []

/-- A request that was sent; `nbr` is the slot whose sequence number it changes. -/
@[grind =]
def requestedLog (a : OutputArgs A K M) (nbr : Option (Fin M)) (s : Node A K S N M) : List (SeqEvent A) :=
  if a.type = .request then
    if a.code = Cmd.clear then
      match nbr.bind s.nbrs with
      | none => [.cleared a.dest]
      | some e => if e.1 = a.dest then [.cleared a.dest] else [.misdirected e.1, .cleared a.dest]
    else [.requested a.dest]
  else []

def outputSentLog (code : PktCode) (nbr : Option (Fin M)) (i : Fin N) (s : Node A K S N M) : List (SeqEvent A) :=
  match (s.mem i).state with
  | init => (s.outputNextSeqno code nbr).transitLog log i requestSending
  | requestReceived => s.transitLog log i responseSending
  | responseReceived => s.transitLog log i confirmationSending
  | _ => []

def outputSendLog (a : OutputArgs A K M) (bytes : List UInt8) (nbr : Option (Fin M)) (i : Fin N)
    (s : Node A K S N M) : List (SeqEvent A) :=
  let s := s.sixpTransSetCallback i a.callback
  let first := s.sixtopOutputLog h log a.env.mac (some i) ++ s.respondedLog a i
  match s.sixtopOutput h a.env.mac a.dest bytes (some i) with
  | (true, s) => s.outputSentLog log a.code nbr i ++ (s.requestedLog a nbr ++ first)
  | (false, s) => (if a.type = .request then s.abortLog h log i else []) ++ first

/-- The neighbor that `sixp_output` makes an entry for. -/
def createdLog (a : OutputArgs A K M) (nbr : Option (Fin M)) (s : Node A K S N M) : List (SeqEvent A) :=
  if (s.sixpNbrFind a.dest).isNone ∧ nbr.isSome then [.created a.dest] else []

@[grind =]
def sixpOutputLog (a : OutputArgs A K M) (s : Node A K S N M) : List (SeqEvent A) :=
  let trans := s.sixpTransFind a.dest
  if s.outputReady a.type trans then
    match s.outputNbr a trans with
    | none => []
    | some (nbr, s') =>
      let first := s.createdLog a nbr
      let seqno := s'.outputSeqno a.type nbr trans
      match sixpPktCreate a.type a.code a.sfid seqno a.body with
      | none => first
      | some bytes =>
        match s'.outputTrans a seqno trans with
        | none => first
        | some (i, s'') => s''.outputSendLog h log a bytes nbr i ++ first
  else []

/-! ## Input -/

def sendBackErrorLog (env : Env M) (type : PktType) (rc : PktCode) (pkt : Pkt) (dest : A)
    (s : Node A K S N M) : List (SeqEvent A) :=
  if rc = Rc.errVersion ∨ rc = Rc.errSfid ∨ rc = Rc.errBusy ∨
      (rc = Rc.errSeqnum ∧ (s.sixpTransFind dest).any fun i => (s.mem i).state ≠ requestReceived) then []
  else s.sixpOutputLog h log ⟨type, rc, pkt.sfid, none, dest, none, env⟩

def handleScheduleInconsistencyLog (env : Env M) (sf : Sf) (pkt : Pkt) (peer : A) (s : Node A K S N M) :
    List (SeqEvent A) :=
  let first := s.sendBackErrorLog h log env .response Rc.errSeqnum pkt peer
  let s := s.sendBackError h env .response Rc.errSeqnum pkt peer
  if sf.error then s.upcallLog log (.error .scheduleInconsistency pkt.code pkt.seqno peer) ++ first else first

@[grind =]
def inputTransitLog (sf : Sf) (pkt : Pkt) (src : A) (i : Fin N) (s : Node A K S N M) : List (SeqEvent A) :=
  let t := s.mem i
  let first := s.transitLog log i (inputState pkt.type)
  match s.sixpTransTransitState h i (inputState pkt.type) with
  | (false, _) => first
  | (true, s') =>
    if sf.input then
      (s'.record (.input pkt.type pkt.seqno src (s.alloc i) t.state t.mode)).upcallLog log
        (.input pkt.type pkt.code pkt.body src) ++ first
    else first

/-- `sixp_input` for a request of a peer without a transaction: the reset of its sequence number by a CLEAR, and what
follows. -/
def clearNbr (pkt : Pkt) (src : A) (s : Node A K S N M) : Node A K S N M :=
  match s.sixpNbrFind src with
  | some j => if pkt.code = Cmd.clear then s.sixpNbrResetNextSeqno j else s
  | none => s

def inputNew (env : Env M) (sf : Sf) (pkt : Pkt) (src : A) (s : Node A K S N M) : Node A K S N M :=
  match s.sixpTransAlloc pkt src with
  | none => s.sendBackError h env .response Rc.errBusy pkt src
  | some (i, s) =>
    if s.seqnoInconsistent pkt src then
      (s.sixpTransTransitState h i requestReceived).2.handleScheduleInconsistency h env sf pkt src
    else s.inputTransit h sf pkt src i

theorem inputRequest_new {env : Env M} {sf : Sf} {pkt : Pkt} {src : A} {s : Node A K S N M}
    (hf : s.sixpTransFind src = none) :
    s.inputRequest h env sf pkt src = (s.clearNbr pkt src).inputNew h env sf pkt src := by
  simp only [inputRequest, hf]
  rfl

def clearNbrLog (pkt : Pkt) (src : A) (s : Node A K S N M) : List (SeqEvent A) :=
  match s.sixpNbrFind src with
  | some _ => if pkt.code = Cmd.clear then [.cleared src] else []
  | none => []

def inputRequestLog (env : Env M) (sf : Sf) (pkt : Pkt) (src : A) (s : Node A K S N M) : List (SeqEvent A) :=
  match s.sixpTransFind src with
  | some i =>
    let seqno := (s.mem i).seqno
    if pkt.code ≠ Cmd.clear ∧ ((pkt.seqno = 0 ∧ seqno ≠ 0) ∨ (pkt.seqno ≠ 0 ∧ seqno = 0)) then
      s.handleScheduleInconsistencyLog h log env sf pkt src
    else s.sendBackErrorLog h log env .response Rc.errBusy pkt src
  | none =>
    let first := s.clearNbrLog pkt src
    let s := s.clearNbr pkt src
    match s.sixpTransAlloc pkt src with
    | none => s.sendBackErrorLog h log env .response Rc.errBusy pkt src ++ first
    | some (i, s) =>
      if s.seqnoInconsistent pkt src then
        (s.sixpTransTransitState h i requestReceived).2.handleScheduleInconsistencyLog h log env sf pkt src ++
          (s.transitLog log i requestReceived ++ first)
      else s.inputTransitLog h log sf pkt src i ++ first

def sixpInputLog (env : Env M) (buf : List UInt8) (src : A) (s : Node A K S N M) : List (SeqEvent A) :=
  match sixpPktParse buf with
  | (false, pkt) =>
    if pkt.version ≠ sixpPktVersion then s.sendBackErrorLog h log env .response Rc.errVersion pkt src else []
  | (true, pkt) =>
    match s.sixtopFindSf pkt.sfid with
    | none => s.sendBackErrorLog h log env .response Rc.errSfid pkt src
    | some sf =>
      match pkt.type with
      | .request => s.inputRequestLog h log env sf pkt src
      | .response | .confirmation =>
        match s.sixpTransFind src with
        | none => []
        | some i => if (s.mem i).seqno ≠ pkt.seqno then [] else s.inputTransitLog h log sf pkt src i
      | .reserved => []

end Node

/-! ## Steps -/

section

variable {A K S : Type} {N M : Nat} [DecidableEq A] [Inhabited A]

@[grind =]
def stepLog (h : Handler A K S N M) (log : Recorder A K S N M) (s : Node A K S N M) :
    Event A K N M → List (SeqEvent A)
  | .output a => s.sixpOutputLog h log a
  | .input env buf src => s.sixpInputLog h log env buf src
  | .timer i => match (s.mem i).timer with
    | some .handleTransTimeout => (s.ctimerStop i).handleTransTimeoutLog log i
    | _ => []
  | .macDone k status => match s.mac[k]? with
    | none => []
    | some f => match f.ptr with
      | none => []
      | some i => ({ s with mac := s.mac.eraseIdx k } : Node A K S N M).macCompleteLog h log i f.owner status
  | .nbrRemove _ => []

/-- What calls of `sixp_output` add to the record, one after the other. -/
@[grind =]
def callsLog (h : Handler A K S N M) (log : Recorder A K S N M) : List (OutputArgs A K M) → Node A K S N M →
    List (SeqEvent A)
  | [], _ => []
  | a :: calls, s => callsLog h log calls (s.sixpOutput h a).2 ++ s.sixpOutputLog h log a

@[grind =]
def scriptedLog : Nat → Recorder A K (Script A K M) N M
  | 0, _, _ => []
  | n + 1, _, s =>
    match s.app with
    | [] => []
    | calls :: rest => callsLog (scripted n) (scriptedLog n) calls { s with app := rest }

/-- A node with the record of its run. -/
structure Recorded (A K S : Type) (N M : Nat) where
  node : Node A K S N M
  past : List (SeqEvent A)

def recordStep (n : Nat) (w : Recorded A K (Script A K M) N M) (e : Script A K M × Event A K N M) :
    Option (Recorded A K (Script A K M) N M) :=
  (openStep n w.node e).map fun s =>
    ⟨s, stepLog (scripted n) (scriptedLog n) { w.node with app := e.1 } e.2 ++ w.past⟩

end

end Contiki.Sixtop

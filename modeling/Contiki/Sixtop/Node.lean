/-
The state of the 6P layer on one node: the transaction blocks of `trans_memb`, `trans_list`, the
neighbor table with the sequence numbers, the registered scheduling functions, and the frames the
MAC still holds. The address type, the type of sent-callbacks and the state of the scheduling
functions are parameters.
-/
import Contiki.Sixtop.Fields

namespace Contiki.Sixtop

scoped instance neZeroOne : NeZero 1 := ⟨Nat.one_ne_zero⟩

/-! ## Transactions -/

/-- `sixp_trans_state_t`. -/
inductive TransState where
  | unavailable | init
  | requestSending | requestSent | requestReceived
  | responseSending | responseSent | responseReceived
  | confirmationSending | confirmationSent | confirmationReceived
  | terminating | waitFree
  deriving DecidableEq, Repr

/-- `sixp_trans_mode_t`. -/
inductive TransMode where
  | unavailable | twoStep | threeStep
  deriving DecidableEq, Repr

/-- What the `ctimer` of a transaction calls when it expires. -/
inductive TransTimer where
  | handleTransTimeout | processTrans
  deriving DecidableEq, Repr

/-- `sixtop_sf_t`, with the handlers that are not NULL. -/
structure Sf where
  sfid : UInt8
  input : Bool
  timeout : Bool
  error : Bool
  deriving DecidableEq, Repr

/-- `struct sixp_trans`; a `timer` of `none` is a stopped one. -/
structure Trans (A K : Type) where
  sf : Option Sf
  peerAddr : A
  seqno : UInt8
  cmd : PktCode
  state : TransState
  mode : TransMode
  callback : Option K
  timer : Option TransTimer

/-- A block after `memset`. -/
def Trans.zero {A K : Type} [Inhabited A] : Trans A K :=
  ⟨none, default, 0, 0, .unavailable, .unavailable, none, none⟩

/-! ## What the layer calls, and what is recorded about a run -/

/-- `sixp_output_status_t`. -/
inductive OutputStatus where
  | success | failure | aborted
  deriving DecidableEq, Repr

inductive SixpError where
  | scheduleInconsistency | txAfterTransactionTermination | invalidTransStateTransition
  deriving DecidableEq, Repr

/-- A call of the 6P layer into a scheduling function, with the arguments it passes. -/
inductive Upcall (A K : Type) where
  | input (type : PktType) (code : PktCode) (body : Option (List UInt8)) (src : A)
  | timeout (cmd : PktCode) (peer : A)
  | error (err : SixpError) (cmd : PktCode) (seqno : UInt8) (peer : A)
  | sent (callback : K) (peer : A) (status : OutputStatus)

/-- What a run is observed to do. A transaction is named by the number its block was given when it
was allocated. -/
inductive Obs (A : Type) where
  /-- `sixp_output` opened a request transaction. -/
  | opened (trans : Nat) (peer : A) (seqno : UInt8)
  /-- A scheduling function's input handler is invoked: the packet, and the transaction found for it
  with the state it was in when the packet arrived. -/
  | input (type : PktType) (seqno : UInt8) (src : A) (trans : Option Nat) (state : TransState) (mode : TransMode)
  /-- `mac_callback` runs: the transaction its pointer denoted when it was given to the MAC, and the
  one it denotes now. -/
  | completion (given found : Option Nat)
  /-- A scheduling function is called while `trans_list` holds transactions with these peers. -/
  | upcall (peers : List A)

/-- The completion status codes of mac.h. -/
inductive MacStatus where
  | ok | collision | noack | deferred | err | errFatal | queueFull
  deriving DecidableEq, Repr

/-- A frame handed to the MAC: its destination, the 6P packet in it, the transaction pointer given
with `mac_callback` (or NULL), and the transaction that pointer denoted then. -/
structure Frame (A : Type) (N : Nat) where
  dest : A
  bytes : List UInt8
  ptr : Option (Fin N)
  owner : Option Nat

/-! ## The node -/

/-- The 6P layer of a node with `N` transaction blocks and `M` neighbor table slots. The last three
fields are not in the code: they name transactions and record what happened. -/
structure Node (A K S : Type) (N M : Nat) where
  /-- `trans_memb`'s blocks. -/
  mem : Fin N → Trans A K
  /-- `trans_list`. -/
  transList : List (Fin N)
  /-- `sixp_nbrs`: the address and the `next_seqno` in each slot in use. -/
  nbrs : Fin M → Option (A × UInt8)
  /-- `scheduling_functions`. -/
  schedulingFunctions : List Sf
  /-- The frames whose completion the MAC has not reported yet. -/
  mac : List (Frame A N)
  /-- The state of the scheduling functions. -/
  app : S
  /-- `trans_memb`'s used flags; the number tells the allocations of one block apart. -/
  alloc : Fin N → Option Nat
  nextUid : Nat
  trace : List (Obs A)

abbrev Handler (A K S : Type) (N M : Nat) := Upcall A K → Node A K S N M → Node A K S N M

namespace Node

variable {A K S : Type} {N M : Nat}

def setTrans (i : Fin N) (t : Trans A K) (s : Node A K S N M) : Node A K S N M :=
  { s with mem := Function.update s.mem i t }

def record (o : Obs A) (s : Node A K S N M) : Node A K S N M :=
  { s with trace := s.trace ++ [o] }

/-- The peers of the transactions on `trans_list`. -/
def peers (s : Node A K S N M) : List A :=
  s.transList.map fun i => (s.mem i).peerAddr

def upcall (h : Handler A K S N M) (u : Upcall A K) (s : Node A K S N M) : Node A K S N M :=
  h u (s.record (.upcall s.peers))

def sixtopFindSf (sfid : UInt8) (s : Node A K S N M) : Option Sf :=
  s.schedulingFunctions.find? fun sf => sf.sfid == sfid

def start [Inhabited A] (sfs : List Sf) (app : S) : Node A K S N M :=
  { mem := fun _ => Trans.zero, transList := [], nbrs := fun _ => none, schedulingFunctions := sfs,
    mac := [], app := app, alloc := fun _ => none, nextUid := 0, trace := [] }

/-! ### The neighbor table (sixp-nbr.c) -/

variable [DecidableEq A]

/-- `sixp_nbr_find`: the slot of the address. -/
def sixpNbrFind (addr : A) (s : Node A K S N M) : Option (Fin M) :=
  (List.finRange M).find? fun j => (s.nbrs j).map Prod.fst == some addr

/-- `sixp_nbr_alloc`, which fails for a known address. The neighbor table chooses the slot, evicting
the neighbor in it, or refuses. -/
def sixpNbrAlloc (slot : Option (Fin M)) (addr : A) (s : Node A K S N M) : Option (Fin M × Node A K S N M) :=
  if (s.sixpNbrFind addr).isSome then none
  else slot.map fun j => (j, { s with nbrs := Function.update s.nbrs j (some (addr, 0)) })

/-- `sixp_nbr_get_next_seqno`; an evicted neighbor's slot reads as 0. -/
def sixpNbrGetNextSeqno (j : Fin M) (s : Node A K S N M) : UInt8 :=
  ((s.nbrs j).map Prod.snd).getD 0

def sixpNbrSetNextSeqno (j : Fin M) (seqno : UInt8) (s : Node A K S N M) : Node A K S N M :=
  { s with nbrs := Function.update s.nbrs j ((s.nbrs j).map fun e => (e.1, seqno)) }

def sixpNbrResetNextSeqno (j : Fin M) (s : Node A K S N M) : Node A K S N M :=
  s.sixpNbrSetNextSeqno j 0

/-- `sixp_nbr_increment_next_seqno`: 255 is followed by 1. -/
def sixpNbrIncrementNextSeqno (j : Fin M) (s : Node A K S N M) : Node A K S N M :=
  let next := s.sixpNbrGetNextSeqno j + 1
  s.sixpNbrSetNextSeqno j (if next = 0 then 1 else next)

end Node

end Contiki.Sixtop

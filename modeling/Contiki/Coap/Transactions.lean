/-
The transactions of coap-transactions.c and the calls that open, send and close them: requests of the
callback API, responses and notifications of the server, messages looked up by their id in
`coap_receive`, and the retransmission timer. The type of endpoints and the type of callbacks with
their data are parameters.
-/
import Contiki.Core.Memb

namespace Contiki.Coap

open Contiki.Core

def coapMaxRetransmit : Nat := 4

/-- `coap_transaction_t`: `con` is whether the message in its buffer is confirmable, `timer` whether
its retransmission timer runs. -/
structure Transaction (E K : Type) where
  mid : UInt16
  retransCounter : Nat
  endpoint : E
  callback : Option K
  con : Bool
  timer : Bool

structure State (E K : Type) where
  transactionsMemb : Memb
  transactionsList : List Nat
  trans : Nat → Transaction E K
  currentMid : UInt16

variable {E K : Type}

def setTrans (s : State E K) (t : Nat) (v : Transaction E K) : State E K :=
  { s with trans := Function.update s.trans t v }

def coapGetMid (s : State E K) : UInt16 × State E K :=
  (s.currentMid + 1, { s with currentMid := s.currentMid + 1 })

/-- `coap_new_transaction`: the callback of the block's last user stays where it is. -/
def coapNewTransaction (s : State E K) (mid : UInt16) (endpoint : E) : Option (Nat × State E K) :=
  match s.transactionsMemb.alloc with
  | none => none
  | some (t, mem) =>
    let s := setTrans s t { s.trans t with mid := mid, retransCounter := 0, endpoint := endpoint }
    some (t, { s with transactionsMemb := mem, transactionsList := listAdd s.transactionsList t })

def coapClearTransaction (s : State E K) (t : Nat) : State E K :=
  let s := setTrans s t { s.trans t with timer := false }
  { s with
    transactionsList := listRemove s.transactionsList t
    transactionsMemb := s.transactionsMemb.free t }

/-- `coap_send_transaction`: the state and the callback that is run with NULL, as the last thing the
function does. -/
def coapSendTransaction (s : State E K) (t : Nat) : State E K × Option K :=
  if (s.trans t).con then
    if (s.trans t).retransCounter ≤ coapMaxRetransmit then
      (setTrans s t { s.trans t with timer := true }, none)
    else
      -- timed out: the transaction is freed before its callback is called
      (coapClearTransaction s t, (s.trans t).callback)
  else
    (coapClearTransaction s t, none)

/-- `coap_timer_run` for the timer of a transaction, with `coap_retransmit_transaction`. -/
def coapRetransmitTransaction (s : State E K) (t : Nat) : State E K × Option K :=
  coapSendTransaction
    (setTrans s t { s.trans t with timer := false, retransCounter := (s.trans t).retransCounter + 1 }) t

def coapGetTransactionByMid (s : State E K) (mid : UInt16) : Option Nat :=
  s.transactionsList.find? (fun t => (s.trans t).mid = mid)

/-- The part of `coap_receive` that handles a message which is no request: the transaction of its
id is freed, whoever sent the message, and its callback is called. -/
@[grind =]
def coapReceiveResponse (s : State E K) (mid : UInt16) : State E K × Option (Nat × Option K) :=
  match coapGetTransactionByMid s mid with
  | none => (s, none)
  | some t => (coapClearTransaction s t, some (t, (s.trans t).callback))

/-- `progress_request` and its siblings: a new transaction with the callback of the request, sent. -/
def progressRequest (s : State E K) (endpoint : E) (con : Bool) (callback : K) : State E K × Option Nat :=
  let (mid, s) := coapGetMid s
  match coapNewTransaction s mid endpoint with
  | none => (s, none)
  | some (t, s) =>
    let s := setTrans s t { s.trans t with callback := some callback, con := con }
    ((coapSendTransaction s t).1, some t)

/-! ## What the operations do to the list -/

variable {s s' : State E K} {t u : Nat} {mid : UInt16} {endpoint : E}

@[simp] theorem setTrans_self (s : State E K) (t : Nat) (v : Transaction E K) : (setTrans s t v).trans t = v := by
  simp [setTrans]

theorem setTrans_of_ne (h : u ≠ t) (s : State E K) (v : Transaction E K) : (setTrans s t v).trans u = s.trans u := by
  simp [setTrans, h]

@[simp] theorem setTrans_list (s : State E K) (t : Nat) (v : Transaction E K) :
    (setTrans s t v).transactionsList = s.transactionsList := rfl

@[simp] theorem setTrans_memb (s : State E K) (t : Nat) (v : Transaction E K) :
    (setTrans s t v).transactionsMemb = s.transactionsMemb := rfl

@[simp] theorem coapGetMid_list (s : State E K) : (coapGetMid s).2.transactionsList = s.transactionsList := rfl

/-- The blocks that are out are those on the list. -/
def Pooled (s : State E K) : Prop := s.transactionsMemb.Holds s.transactionsList

theorem coapNew_spec (h : Pooled s) (hn : coapNewTransaction s mid endpoint = some (t, s')) :
    t ∉ s.transactionsList ∧ Pooled s' ∧ s'.transactionsList = s.transactionsList ++ [t] ∧
      s'.trans t = { s.trans t with mid := mid, retransCounter := 0, endpoint := endpoint } ∧
      ∀ u, u ≠ t → s'.trans u = s.trans u := by
  unfold coapNewTransaction at hn
  cases ha : s.transactionsMemb.alloc with
  | none => rw [ha] at hn; cases hn
  | some a =>
    obtain ⟨t', mem⟩ := a
    rw [ha] at hn
    cases hn
    obtain ⟨hnew, -, hmem⟩ := Memb.Holds.alloc h ha
    refine ⟨hnew, ?_, listAdd_new hnew, by simp [setTrans], fun u hu => by simp [setTrans, hu]⟩
    unfold Pooled
    simp only [setTrans_list, listAdd_new hnew]
    exact hmem.perm (List.perm_append_singleton _ _)

theorem coapClear_spec (h : Pooled s) (ht : t ∈ s.transactionsList) : Pooled (coapClearTransaction s t) ∧
      (∀ u, u ∈ (coapClearTransaction s t).transactionsList ↔ u ∈ s.transactionsList ∧ u ≠ t) ∧
      ((coapClearTransaction s t).trans t).timer = false ∧
      ∀ u, u ≠ t → (coapClearTransaction s t).trans u = s.trans u := by
  have hnd : s.transactionsList.Nodup := h.nodup
  refine ⟨(Memb.Holds.free h ht).2, fun u => ?_, by simp [coapClearTransaction, setTrans], fun u hu => ?_⟩
  · show u ∈ s.transactionsList.erase t ↔ _
    rw [hnd.mem_erase_iff]
    exact and_comm
  · simp [coapClearTransaction, setTrans, hu]

theorem coapGetByMid_mem (h : coapGetTransactionByMid s mid = some t) : t ∈ s.transactionsList :=
  List.mem_of_find?_eq_some h

end Contiki.Coap

/-
The requests of coap-callback-api.c: each response closes the transaction of a request and tries to open the next. A
request that is running has exactly one open transaction as long as there is a block for the next one, requests are
confirmable, and no transaction of the server inherits the callback of a running request.
-/
import Contiki.Coap.Transactions
import Contiki.Lib.Run

namespace Contiki.Coap.Requesting

open Core Lib

/-! ## The system -/

def coapMaxAttempts : UInt8 := 4

/-- The callback data of a transaction: a `coap_callback_request_state_t`, or that of another client. -/
inductive Data
  | request (r : Nat)
  | other
  deriving DecidableEq

/-- `coap_request_state_t`, and whether its request message is confirmable. -/
structure Request (E : Type) where
  endpoint : E
  con : Bool
  blockNum : UInt32
  resBlock : UInt32
  more : UInt8
  blockError : UInt8

/-- The transactions, those that handlers have open, the request states, and which of these are running:
`coap_send_request` returned 1 and the callback was not called with a terminal status since. -/
structure Sys (E : Type) where
  s : State E Data
  opened : List Nat
  req : Nat → Request E
  running : Nat → Bool

/-- A call of `coap_send_request`. -/
structure Send (E : Type) where
  r : Nat
  endpoint : E
  con : Bool

/-- The block option of a response: its number and `more`. -/
abbrev Response := Option (UInt32 × UInt8)

variable {E : Type}

def Sys.setReq (x : Sys E) (r : Nat) (q : Request E) : Sys E := { x with req := Function.update x.req r q }

def Sys.setRunning (x : Sys E) (r : Nat) (b : Bool) : Sys E := { x with running := Function.update x.running r b }

/-- `progress_request`. -/
def progress (x : Sys E) (r : Nat) : Sys E × Bool :=
  let p := progressRequest x.s (x.req r).endpoint (x.req r).con (.request r)
  ({ x with s := p.1 }, p.2.isSome)

def coapSendRequest (x : Sys E) (q : Send E) : Sys E :=
  let p := progress (x.setReq q.r ⟨q.endpoint, q.con, 0, 0, 0, 0⟩) q.r
  if p.2 then p.1.setRunning q.r true else p.1

def callUser (x : Sys E) (script : List (Send E)) : Sys E := script.foldl coapSendRequest x

/-- The block option of a response is recorded; without it `res_block` and `more` are those of the response before. -/
def Sys.record (x : Sys E) (r : Nat) : Response → Sys E
  | some (num, more) => x.setReq r { x.req r with resBlock := num, more := more }
  | none => x

/-- A block in its place is passed on with COAP_REQUEST_STATUS_MORE or COAP_REQUEST_STATUS_RESPONSE; others count. -/
def Sys.deliver (x : Sys E) (r : Nat) (script : List (Send E)) : Sys E :=
  if (x.req r).resBlock = (x.req r).blockNum then
    let y := callUser x script
    y.setReq r { y.req r with blockNum := (y.req r).blockNum + 1 }
  else
    x.setReq r { x.req r with blockError := (x.req r).blockError + 1 }

/-- There are more blocks to come, and not too many were wrong. -/
def Sys.goesOn (x : Sys E) (r : Nat) : Prop := (x.req r).more ≠ 0 ∧ (x.req r).blockError < coapMaxAttempts

instance (x : Sys E) (r : Nat) : Decidable (x.goesOn r) := inferInstanceAs (Decidable (_ ∧ _))

/-- `coap_request_callback`: the callback of the user is called once or twice. -/
def coapRequestCallback (x : Sys E) (r : Nat) (response : Option Response) (first second : List (Send E)) : Sys E :=
  match response with
  | none =>
    -- COAP_REQUEST_STATUS_TIMEOUT
    callUser (x.setRunning r false) first
  | some block2 =>
    let x := (x.record r block2).deliver r first
    if x.goesOn r then
      -- what it returns is not looked at
      (progress x r).1
    else
      -- COAP_REQUEST_STATUS_BLOCK_ERROR or COAP_REQUEST_STATUS_FINISHED
      callUser (x.setRunning r false) second

@[grind =]
def Sys.ran (x : Sys E) (response : Option Response) (first second : List (Send E)) : Option Data → Sys E
  | none => x
  | some .other => callUser x first
  | some (.request r) => coapRequestCallback x r response first second

/-- What happens in a node: handlers run between `openResponse` and `finish`; messages and timers wait. -/
inductive Op (E : Type)
  | send (q : Send E)
  /-- A transaction of another client. -/
  | other (endpoint : E) (con : Bool)
  /-- The transaction for an incoming request with this id, or for a notification or separate response. -/
  | openResponse (mid : Option UInt16) (endpoint : E)
  /-- It is sent, as a confirmable message or not, or dropped. -/
  | finish (con : Option Bool)
  /-- A response, acknowledgement or reset, and what the callback of the user sends. -/
  | receive (mid : UInt16) (block2 : Response) (first second : List (Send E))
  /-- A retransmission timer expires. -/
  | expire (t : Nat) (script : List (Send E))

@[grind =]
def step (x : Sys E) : Op E → Option (Sys E)
  | .send q => some (coapSendRequest x q)
  | .other endpoint con => some { x with s := (progressRequest x.s endpoint con .other).1 }
  | .openResponse mid endpoint =>
    let p := mid.elim (coapGetMid x.s) fun mid => (mid, x.s)
    match coapNewTransaction p.2 p.1 endpoint with
    | none => some { x with s := p.2 }
    | some (t, s) => some { x with s := s, opened := t :: x.opened }
  | .finish con =>
    match x.opened with
    | [] => none
    | t :: rest =>
      match con with
      | none => some { x with s := coapClearTransaction x.s t, opened := rest }
      | some con =>
        let p := coapSendTransaction (setTrans x.s t { x.s.trans t with con := con }) t
        some (Sys.ran { x with s := p.1, opened := rest } none [] [] p.2)
  | .receive mid block2 first second =>
    if x.opened = [] then
      match coapReceiveResponse x.s mid with
      | (s, none) => some { x with s := s }
      | (s, some (_, callback)) => some (Sys.ran { x with s := s } (some block2) first second callback)
    else none
  | .expire t script =>
    if x.opened = [] ∧ (x.s.trans t).timer = true then
      let p := coapRetransmitTransaction x.s t
      some (Sys.ran { x with s := p.1 } none script [] p.2)
    else none

def start [Inhabited E] (maxOpenTransactions : Nat) : Sys E where
  s := ⟨.init maxOpenTransactions, [], fun _ => ⟨0, 0, default, none, false, false⟩, 0⟩
  opened := []
  req := fun _ => ⟨default, false, 0, 0, 0, 0⟩
  running := fun _ => false

/-! ## The property and the condition -/

/-- The open transaction `t` has this request state as its callback data. -/
def Holds (x : Sys E) (r t : Nat) : Prop := t ∈ x.s.transactionsList ∧ (x.s.trans t).callback = some (.request r)

/-- Every request that is running has exactly one open transaction. -/
def Kept (x : Sys E) : Prop := ∀ r, x.running r = true → ∃ t, ∀ u, Holds x r u ↔ u = t

/-- A request may be sent when it is confirmable, or when there is no block for it, and its state is not in use. The
callback of the user may send its own request again: it is called a last time all the same. -/
def SendFits (own : Option Nat) (x : Sys E) (q : Send E) : Prop :=
  own = some q.r ∨ x.running q.r = false ∧ (∀ t, ¬Holds x q.r t) ∧ (q.con = true ∨ x.s.transactionsMemb.alloc = none)

def ScriptFits (own : Option Nat) (x : Sys E) : List (Send E) → Prop
  | [] => True
  | q :: qs => SendFits own x q ∧ ScriptFits own (coapSendRequest x q) qs

/-- There is a block for the next transaction of a transfer. -/
def CallbackFits (x : Sys E) (r : Nat) (response : Option Response) (first second : List (Send E)) : Prop :=
  match response with
  | none => ScriptFits none (x.setRunning r false) first
  | some block2 =>
    let y := x.record r block2
    let z := y.deliver r first
    ((y.req r).resBlock = (y.req r).blockNum → ScriptFits (some r) y first) ∧
      (z.goesOn r → z.running r = true → z.s.transactionsMemb.alloc ≠ none) ∧
      (¬z.goesOn r → ScriptFits none (z.setRunning r false) second)

def RanFits (x : Sys E) (response : Option Response) (first second : List (Send E)) : Option Data → Prop
  | none => True
  | some .other => ScriptFits none x first
  | some (.request r) => CallbackFits x r response first second

def Fits (x : Sys E) : Op E → Prop
  | .send q => SendFits none x q
  | .other _ _ => True
  | .openResponse _ _ => ∀ t ∈ x.s.transactionsMemb.alloc, ∀ r, (x.s.trans t.1).callback = some (.request r) →
      x.running r = false
  | .finish _ => True
  | .receive mid block2 first second => ∀ t, coapGetTransactionByMid x.s mid = some t →
      RanFits { x with s := coapClearTransaction x.s t } (some block2) first second (x.s.trans t).callback
  | .expire t script => coapMaxRetransmit ≤ (x.s.trans t).retransCounter →
      RanFits { x with s := (coapRetransmitTransaction x.s t).1 } none script [] (x.s.trans t).callback

/-! ## The invariant -/

def Active (own : Option Nat) (x : Sys E) (r : Nat) : Prop := x.running r = true ∧ own ≠ some r

/-- What holds between the events, and for all other requests while the callback of the request `own` is run. -/
structure Sound (own : Option Nat) (x : Sys E) : Prop where
  pooled : Pooled x.s
  opened : ∀ t ∈ x.opened, t ∈ x.s.transactionsList ∧ (x.s.trans t).retransCounter = 0 ∧ (x.s.trans t).timer = false ∧
    ∀ r, Active own x r → ¬Holds x r t
  nodup : x.opened.Nodup
  armed : ∀ t, (x.s.trans t).timer = true → t ∈ x.s.transactionsList ∧ (x.s.trans t).con = true
  con : ∀ r, Active own x r → (x.req r).con = true
  kept : ∀ r, Active own x r → ∃ t, ∀ u, Holds x r u ↔ u = t

theorem start_sound [Inhabited E] (n : Nat) : Sound none (start n : Sys E) where
  pooled := Memb.init_holds n
  opened := by
    rintro t ⟨⟩
  nodup := List.nodup_nil
  armed := by
    rintro t ⟨⟩
  con := by
    rintro r ⟨⟨⟩, -⟩
  kept := by
    rintro r ⟨⟨⟩, -⟩

variable {x : Sys E} {own : Option Nat} {r t : Nat}

/-! ## Sending -/

/-- A new transaction with the callback data `k`, in a block that was free; it stays open when it is confirmable. -/
structure Opens (s s' : State E Data) (t : Nat) (con : Bool) (k : Data) : Prop where
  new : t ∉ s.transactionsList
  pooled : Pooled s'
  others : ∀ u, u ≠ t → s'.trans u = s.trans u
  callback : (s'.trans t).callback = some k
  list : ∀ u, u ∈ s'.transactionsList ↔ u ∈ s.transactionsList ∨ con = true ∧ u = t
  armed : (s'.trans t).timer = true → con = true ∧ (s'.trans t).con = true

theorem progressRequest_cases {s : State E Data} (h : Pooled s) (endpoint : E) (con : Bool) (k : Data) :
    (s.transactionsMemb.alloc = none ∧ progressRequest s endpoint con k = ((coapGetMid s).2, none)) ∨
      ∃ s' t, progressRequest s endpoint con k = (s', some t) ∧ Opens s s' t con k := by
  have hget : (coapGetMid s).2.transactionsMemb = s.transactionsMemb := rfl
  cases hn : coapNewTransaction (coapGetMid s).2 (coapGetMid s).1 endpoint with
  | none =>
    left
    refine ⟨?_, ?_⟩
    · unfold coapNewTransaction at hn
      rw [hget] at hn
      cases ha : s.transactionsMemb.alloc with
      | none => rfl
      | some a =>
        rw [ha] at hn
        cases hn
    · unfold progressRequest
      dsimp only
      rw [hn]
  | some a =>
    right
    obtain ⟨t, s₁⟩ := a
    obtain ⟨hnew, hp, hl, hv, hother⟩ := coapNew_spec (s := (coapGetMid s).2) h hn
    have hmem : t ∈ s₁.transactionsList := by
      rw [hl]
      exact List.mem_append_right _ (List.mem_singleton.2 rfl)
    have hprog : progressRequest s endpoint con k =
        ((coapSendTransaction (setTrans s₁ t { s₁.trans t with callback := some k, con := con }) t).1, some t) := by
      unfold progressRequest
      dsimp only
      rw [hn]
    refine ⟨_, t, hprog, ?_⟩
    unfold coapSendTransaction
    rw [setTrans_self]
    cases con with
    | true =>
      rw [if_pos rfl, if_pos (by simp [hv])]
      refine ⟨hnew, hp, fun u hu => ?_, by simp, fun u => ?_, fun _ => ⟨rfl, by simp⟩⟩
      · rw [setTrans_of_ne hu, setTrans_of_ne hu, hother u hu]
        rfl
      · rw [setTrans_list, setTrans_list, hl, List.mem_append, List.mem_singleton]
        exact or_congr_right (and_iff_right rfl).symm
    | false =>
      rw [if_neg Bool.false_ne_true]
      obtain ⟨hcp, hcl, hct, hco⟩ :=
        coapClear_spec (s := setTrans s₁ t { s₁.trans t with callback := some k, con := false }) (t := t) hp hmem
      refine ⟨hnew, hcp, fun u hu => ?_, by simp [coapClearTransaction], fun u => ?_, fun hc => ?_⟩
      · rw [hco u hu, setTrans_of_ne hu, hother u hu]
        rfl
      · rw [hcl, setTrans_list, hl, List.mem_append, List.mem_singleton]
        constructor
        · rintro ⟨hu | hu, hne⟩
          · exact .inl hu
          · exact absurd hu hne
        · rintro (hu | ⟨⟨⟩, -⟩)
          exact ⟨.inl hu, fun he => hnew (he ▸ hu)⟩
      · rw [hct] at hc
        cases hc

theorem Opens.holds {s' : State E Data} {con : Bool} {k : Data} (h : Opens x.s s' t con k) (u : Nat) :
    Holds { x with s := s' } r u ↔ Holds x r u ∨ con = true ∧ k = .request r ∧ u = t := by
  unfold Holds
  dsimp only
  rw [h.list]
  by_cases hu : u = t
  · subst hu
    rw [h.callback, Option.some.injEq]
    constructor
    · rintro ⟨hl | ⟨hc, -⟩, hk⟩
      · exact absurd hl h.new
      · exact .inr ⟨hc, hk, rfl⟩
    · rintro (⟨hl, -⟩ | ⟨hc, hk, -⟩)
      · exact absurd hl h.new
      · exact ⟨.inr ⟨hc, rfl⟩, hk⟩
  · rw [h.others u hu]
    constructor
    · rintro ⟨hl | ⟨-, he⟩, hk⟩
      · exact .inl ⟨hl, hk⟩
      · exact absurd he hu
    · rintro (⟨hl, hk⟩ | ⟨-, -, he⟩)
      · exact ⟨.inl hl, hk⟩
      · exact absurd he hu

theorem Sound.opens (h : Sound own x) {s' : State E Data} {con : Bool} {k : Data} (ho : Opens x.s s' t con k)
    (hk : ∀ r, Active own x r → k ≠ .request r) : Sound own { x with s := s' } := by
  have hholds : ∀ r, Active own x r → ∀ u, Holds { x with s := s' } r u ↔ Holds x r u := by
    rintro r hr u
    rw [ho.holds, or_iff_left]
    rintro ⟨-, hc, -⟩
    exact hk r hr hc
  constructor
  case pooled => exact ho.pooled
  case opened =>
    rintro u hu
    obtain ⟨h1, h2, h3, h4⟩ := h.opened u hu
    have hne : u ≠ t := by
      rintro rfl
      exact ho.new h1
    rw [show ({ x with s := s' } : Sys E).s = s' from rfl, ho.others u hne]
    exact ⟨(ho.list u).2 (.inl h1), h2, h3, fun r hr hh => h4 r hr ((hholds r hr u).1 hh)⟩
  case nodup => exact h.nodup
  case armed =>
    rintro u hu
    by_cases hut : u = t
    · subst hut
      obtain ⟨hc, hcon⟩ := ho.armed hu
      exact ⟨(ho.list u).2 (.inr ⟨hc, rfl⟩), hcon⟩
    · dsimp only at hu ⊢
      rw [ho.others u hut] at hu ⊢
      exact ⟨(ho.list u).2 (.inl (h.armed u hu).1), (h.armed u hu).2⟩
  case con => exact h.con
  case kept =>
    rintro r hr
    obtain ⟨v, hv⟩ := h.kept r hr
    exact ⟨v, fun u => (hholds r hr u).trans (hv u)⟩

theorem Sound.getMid (h : Sound own x) : Sound own { x with s := (coapGetMid x.s).2 } :=
  ⟨h.pooled, h.opened, h.nodup, h.armed, h.con, h.kept⟩

theorem Sound.setReq (h : Sound own x) (hr : ¬Active own x r) (q : Request E) : Sound own (x.setReq r q) := by
  refine ⟨h.pooled, h.opened, h.nodup, h.armed, fun r' hr' => ?_, h.kept⟩
  have hne : r' ≠ r := by
    rintro rfl
    exact hr hr'
  show (Function.update x.req r q r').con = true
  rw [Function.update_of_ne hne]
  exact h.con r' hr'

theorem setRunning_of_ne {r' : Nat} (h : r' ≠ r) (x : Sys E) (b : Bool) :
    (x.setRunning r b).running r' = x.running r' := Function.update_of_ne h _ _

theorem Sound.runs (h : Sound own x) (hopened : ∀ t ∈ x.opened, ¬Holds x r t) (hcon : (x.req r).con = true)
    (ht : ∀ u, Holds x r u ↔ u = t) : Sound own (x.setRunning r true) := by
  have hactive : ∀ r', r' ≠ r → Active own (x.setRunning r true) r' → Active own x r' := by
    rintro r' hne ⟨hrun, hown⟩
    refine ⟨?_, hown⟩
    rwa [setRunning_of_ne hne] at hrun
  refine ⟨h.pooled, fun u hu => ?_, h.nodup, h.armed, fun r' hr' => ?_, fun r' hr' => ?_⟩
  · obtain ⟨h1, h2, h3, h4⟩ := h.opened u hu
    refine ⟨h1, h2, h3, fun r' hr' => ?_⟩
    by_cases hne : r' = r
    · subst hne
      exact hopened u hu
    · exact h4 r' (hactive r' hne hr')
  · by_cases hne : r' = r
    · subst hne
      exact hcon
    · exact h.con r' (hactive r' hne hr')
  · by_cases hne : r' = r
    · subst hne
      exact ⟨t, ht⟩
    · exact h.kept r' (hactive r' hne hr')

theorem Sound.setOwn (h : Sound (some r) x) (b : Bool) : Sound (some r) (x.setRunning r b) := by
  have hactive : ∀ r', Active (some r) (x.setRunning r b) r' → Active (some r) x r' := by
    rintro r' ⟨hrun, hown⟩
    refine ⟨?_, hown⟩
    have hne : r' ≠ r := by
      rintro rfl
      exact hown rfl
    rwa [setRunning_of_ne hne] at hrun
  refine ⟨h.pooled, fun u hu => ?_, h.nodup, h.armed, fun r' hr' => h.con r' (hactive r' hr'),
    fun r' hr' => h.kept r' (hactive r' hr')⟩
  obtain ⟨h1, h2, h3, h4⟩ := h.opened u hu
  exact ⟨h1, h2, h3, fun r' hr' => h4 r' (hactive r' hr')⟩

theorem Sound.over (h : Sound (some r) x) (hr : x.running r = false) : Sound none x := by
  have hactive : ∀ r', Active none x r' → Active (some r) x r' := by
    rintro r' ⟨hrun, -⟩
    refine ⟨hrun, ?_⟩
    rintro ⟨⟩
    rw [hr] at hrun
    cases hrun
  refine ⟨h.pooled, fun u hu => ?_, h.nodup, h.armed, fun r' hr' => h.con r' (hactive r' hr'),
    fun r' hr' => h.kept r' (hactive r' hr')⟩
  obtain ⟨h1, h2, h3, h4⟩ := h.opened u hu
  exact ⟨h1, h2, h3, fun r' hr' => h4 r' (hactive r' hr')⟩

theorem coapSendRequest_sound (h : Sound own x) {q : Send E} (hq : SendFits own x q) :
    Sound own (coapSendRequest x q) ∧ ((coapSendRequest x q).req q.r).more = 0 ∧
      ∀ r, r ≠ q.r → (coapSendRequest x q).req r = x.req r ∧ (coapSendRequest x q).running r = x.running r ∧
        ∀ u, Holds (coapSendRequest x q) r u ↔ Holds x r u := by
  have hactive : ¬Active own x q.r := by
    rintro ⟨hrun, hown⟩
    rcases hq with hq | ⟨hq, -⟩
    · exact hown hq
    · rw [hq] at hrun
      cases hrun
  have hset := h.setReq hactive ⟨q.endpoint, q.con, 0, 0, 0, 0⟩
  have hreq : ∀ r, r ≠ q.r → (x.setReq q.r ⟨q.endpoint, q.con, 0, 0, 0, 0⟩).req r = x.req r :=
    fun r hr => Function.update_of_ne hr _ _
  have hself : (x.setReq q.r ⟨q.endpoint, q.con, 0, 0, 0, 0⟩).req q.r = ⟨q.endpoint, q.con, 0, 0, 0, 0⟩ :=
    Function.update_self _ _ _
  unfold coapSendRequest progress
  rw [hself]
  rcases progressRequest_cases hset.pooled q.endpoint q.con (.request q.r) with ⟨-, hp⟩ | ⟨s', t, hp, ho⟩
  · rw [hp]
    exact ⟨hset.getMid, congrArg Request.more hself, fun r hr => ⟨hreq r hr, rfl, fun u => Iff.rfl⟩⟩
  · rw [hp]
    have hopens := hset.opens ho fun r hr => by
      rintro ⟨⟩
      exact hactive hr
    refine ⟨?_, congrArg Request.more hself, fun r hr => ⟨hreq r hr, Function.update_of_ne hr _ _, fun u => ?_⟩⟩
    · rcases hq with rfl | ⟨-, hfree, hcon⟩
      · exact hopens.setOwn true
      · rcases hcon with hcon | hfull
        · have hholds : ∀ u, Holds { x.setReq q.r ⟨q.endpoint, q.con, 0, 0, 0, 0⟩ with s := s' } q.r u ↔ u = t := by
            rintro u
            have hnone : ¬Holds (x.setReq q.r ⟨q.endpoint, q.con, 0, 0, 0, 0⟩) q.r u := hfree u
            rw [ho.holds, or_iff_right hnone]
            exact ⟨fun hu => hu.2.2, fun hu => ⟨hcon, rfl, hu⟩⟩
          refine hopens.runs (fun u hu hh => ?_) ?_ hholds
          · rw [hholds] at hh
            exact ho.new (hh ▸ (h.opened u hu).1)
          · exact (congrArg Request.con hself).trans hcon
        · -- without a free block nothing was opened
          exfalso
          have hnone : coapNewTransaction (coapGetMid x.s).2 (coapGetMid x.s).1 q.endpoint = none := by
            unfold coapNewTransaction
            have hget : (coapGetMid x.s).2.transactionsMemb = x.s.transactionsMemb := rfl
            rw [hget, hfull]
          unfold progressRequest at hp
          dsimp only at hp
          rw [show (x.setReq q.r ⟨q.endpoint, q.con, 0, 0, 0, 0⟩).s = x.s from rfl, hnone] at hp
          cases hp
    · have hholds : Holds { x.setReq q.r ⟨q.endpoint, q.con, 0, 0, 0, 0⟩ with s := s' } r u ↔ Holds x r u := by
        rw [ho.holds, or_iff_left]
        · rfl
        · rintro ⟨-, hk, -⟩
          cases hk
          exact hr rfl
      exact hholds

theorem callUser_sound : ∀ {script : List (Send E)} {x : Sys E}, Sound own x → ScriptFits own x script →
    Sound own (callUser x script) ∧ (∀ r, (∃ q ∈ script, q.r = r) → ((callUser x script).req r).more = 0) ∧
      ∀ r, (∀ q ∈ script, q.r ≠ r) → (callUser x script).req r = x.req r ∧ (callUser x script).running r = x.running r ∧
        ∀ u, Holds (callUser x script) r u ↔ Holds x r u
  | [], x, h, _ => by
    refine ⟨h, ?_, fun r _ => ⟨rfl, rfl, fun u => Iff.rfl⟩⟩
    rintro r ⟨q, ⟨⟩, -⟩
  | q :: script, x, h, hs => by
    obtain ⟨hone, hmore, hothers⟩ := coapSendRequest_sound h hs.1
    obtain ⟨hall, hsent, hkeep⟩ := callUser_sound hone hs.2
    refine ⟨hall, fun r hr => ?_, fun r hr => ?_⟩
    · by_cases hlater : ∃ q' ∈ script, q'.r = r
      · exact hsent r hlater
      · obtain ⟨q', hq', rfl⟩ := hr
        rcases List.mem_cons.1 hq' with rfl | hq'
        · have hk := (hkeep q'.r fun q hq he => hlater ⟨q, hq, he⟩).1
          exact (congrArg Request.more hk).trans hmore
        · exact absurd ⟨q', hq', rfl⟩ hlater
    · obtain ⟨h1, h2, h3⟩ := hkeep r fun q' hq' => hr q' (List.mem_cons_of_mem _ hq')
      obtain ⟨g1, g2, g3⟩ := hothers r (Ne.symm (hr q List.mem_cons_self))
      exact ⟨h1.trans g1, h2.trans g2, fun u => (h3 u).trans (g3 u)⟩

/-! ## A callback -/

@[simp] theorem setReq_self (x : Sys E) (r : Nat) (q : Request E) : (x.setReq r q).req r = q := by
  simp [Sys.setReq]

@[simp] theorem setRunning_self (x : Sys E) (r : Nat) (b : Bool) : (x.setRunning r b).running r = b := by
  simp [Sys.setRunning]

theorem not_active_own (x : Sys E) (r : Nat) : ¬Active (some r) x r := fun h => h.2 rfl

theorem record_sound (h : Sound (some r) x) (block2 : Response) :
    Sound (some r) (x.record r block2) ∧ ((x.record r block2).req r).con = (x.req r).con := by
  rcases block2 with _ | ⟨num, more⟩
  · exact ⟨h, rfl⟩
  · refine ⟨h.setReq (not_active_own x r) _, ?_⟩
    unfold Sys.record
    rw [setReq_self]

theorem deliver_sound {script : List (Send E)} (h : Sound (some r) x)
    (hs : (x.req r).resBlock = (x.req r).blockNum → ScriptFits (some r) x script) :
    Sound (some r) (x.deliver r script) ∧ ((x.deliver r script).goesOn r →
      (x.deliver r script).running r = x.running r ∧ ((x.deliver r script).req r).con = (x.req r).con ∧
        ∀ u, Holds (x.deliver r script) r u ↔ Holds x r u) := by
  unfold Sys.deliver
  by_cases hplace : (x.req r).resBlock = (x.req r).blockNum
  · rw [if_pos hplace]
    dsimp only
    obtain ⟨hsound, hsent, hkeep⟩ := callUser_sound h (hs hplace)
    refine ⟨hsound.setReq (not_active_own _ r) _, ?_⟩
    rintro ⟨hmore, -⟩
    rw [setReq_self] at hmore ⊢
    have hnot : ∀ q ∈ script, q.r ≠ r := fun q hq he => hmore (hsent r ⟨q, hq, he⟩)
    obtain ⟨hreq, hrun, hholds⟩ := hkeep r hnot
    refine ⟨hrun, ?_, hholds⟩
    show ((callUser x script).req r).con = _
    rw [hreq]
  · rw [if_neg hplace]
    refine ⟨h.setReq (not_active_own x r) _, fun _ => ⟨rfl, ?_, fun u => Iff.rfl⟩⟩
    rw [setReq_self]

theorem coapRequestCallback_sound (h : Sound (some r) x)
    (hlost : x.running r = true → (∀ u, ¬Holds x r u) ∧ (x.req r).con = true) (response : Option Response)
    (first second : List (Send E)) (hf : CallbackFits x r response first second) :
    Sound none (coapRequestCallback x r response first second) := by
  cases response with
  | none =>
    exact (callUser_sound ((h.setOwn false).over (setRunning_self x r false)) hf).1
  | some block2 =>
    obtain ⟨hscript, hroom, hend⟩ := hf
    obtain ⟨hrecord, hcon⟩ := record_sound h block2
    have hrun : (x.record r block2).running = x.running := by
      rcases block2 with _ | ⟨num, more⟩ <;> rfl
    have hs : (x.record r block2).s = x.s := by
      rcases block2 with _ | ⟨num, more⟩ <;> rfl
    obtain ⟨hdeliver, hsame⟩ := deliver_sound hrecord hscript
    unfold coapRequestCallback
    dsimp only
    generalize hz : (x.record r block2).deliver r first = z at hroom hend hdeliver hsame ⊢
    by_cases hgoes : z.goesOn r
    · rw [if_pos hgoes]
      obtain ⟨hzrun, hzcon, hzholds⟩ := hsame hgoes
      rw [hrun] at hzrun
      rw [hcon] at hzcon
      unfold progress
      rcases progressRequest_cases hdeliver.pooled (z.req r).endpoint (z.req r).con (.request r) with
        ⟨hfull, hp⟩ | ⟨s', t, hp, ho⟩
      · rw [hp]
        have hidle : z.running r = false := by
          by_contra hne
          exact hroom hgoes (by simpa using hne) hfull
        exact (hdeliver.over hidle).getMid
      · rw [hp]
        have hopens := hdeliver.opens ho fun r' hr' => by
          rintro ⟨⟩
          exact not_active_own z r hr'
        cases hactive : z.running r with
        | false => exact hopens.over hactive
        | true =>
          obtain ⟨hnone, hconr⟩ := hlost (hzrun ▸ hactive)
          have hnone' : ∀ u, ¬Holds z r u := by
            rintro u hu
            rw [hzholds] at hu
            unfold Holds at hu
            rw [hs] at hu
            exact hnone u hu
          have hzc : (z.req r).con = true := hzcon.trans hconr
          have hholds : ∀ u, Holds { z with s := s' } r u ↔ u = t := by
            rintro u
            rw [ho.holds, or_iff_right (hnone' u)]
            exact ⟨fun hu => hu.2.2, fun hu => ⟨hzc, rfl, hu⟩⟩
          have hback : ({ z with s := s' } : Sys E).setRunning r true = { z with s := s' } := by
            unfold Sys.setRunning
            rw [← hactive, Function.update_eq_self]
          have hover := ((hopens.setOwn false).over (setRunning_self _ r false)).runs
            (fun u hu hh => ho.new ((hholds u).1 hh ▸ (hdeliver.opened u hu).1)) hzc hholds
          have hset : (({ z with s := s' } : Sys E).setRunning r false).setRunning r true = { z with s := s' } := by
            rw [← hback]
            unfold Sys.setRunning
            dsimp only
            rw [Function.update_idem, Function.update_idem]
          rwa [hset] at hover
    · rw [if_neg hgoes]
      exact (callUser_sound ((hdeliver.setOwn false).over (setRunning_self z r false)) (hend hgoes)).1

/-! ## Closing -/

theorem Sound.clear (h : Sound none x) (ht : t ∈ x.s.transactionsList) {v : Transaction E Data}
    (hv : v.callback = (x.s.trans t).callback) {opened : List Nat} (hop : ∀ u ∈ opened, u ∈ x.opened ∧ u ≠ t)
    (hnd : opened.Nodup)
    (hown : ∀ r, x.running r = true → (x.s.trans t).callback = some (.request r) → own = some r) :
    Sound own { x with s := coapClearTransaction (setTrans x.s t v) t, opened := opened } := by
  obtain ⟨hp, hl, htimer, hother⟩ := coapClear_spec (s := setTrans x.s t v) h.pooled ht
  have htrans : ∀ u, u ≠ t → (coapClearTransaction (setTrans x.s t v) t).trans u = x.s.trans u := fun u hu => by
    rw [hother u hu, setTrans_of_ne hu]
  have hholds : ∀ r, Active own { x with s := coapClearTransaction (setTrans x.s t v) t, opened := opened } r →
      Active none x r ∧ ∀ u, Holds { x with s := coapClearTransaction (setTrans x.s t v) t, opened := opened } r u ↔
        Holds x r u := by
    rintro r ⟨hrun, hne⟩
    refine ⟨⟨hrun, by rintro ⟨⟩⟩, fun u => ?_⟩
    unfold Holds
    dsimp only
    rw [hl, setTrans_list]
    by_cases hut : u = t
    · subst hut
      exact iff_of_false (fun hc => hc.1.2 rfl) fun hc => hne (hown r hrun hc.2)
    · rw [htrans u hut]
      exact and_congr_left fun _ => and_iff_left hut
  constructor
  case pooled => exact hp
  case opened =>
    rintro u hu
    obtain ⟨hu, hut⟩ := hop u hu
    obtain ⟨h1, h2, h3, h4⟩ := h.opened u hu
    dsimp only
    rw [htrans u hut]
    refine ⟨(hl u).2 ⟨h1, hut⟩, h2, h3, fun r hr hh => ?_⟩
    obtain ⟨hact, hsame⟩ := hholds r hr
    exact h4 r hact ((hsame u).1 hh)
  case nodup => exact hnd
  case armed =>
    rintro u hu
    by_cases hut : u = t
    · subst hut
      rw [htimer] at hu
      cases hu
    · dsimp only at hu ⊢
      rw [htrans u hut] at hu ⊢
      exact ⟨(hl u).2 ⟨(h.armed u hu).1, hut⟩, (h.armed u hu).2⟩
  case con => exact fun r hr => h.con r (hholds r hr).1
  case kept =>
    rintro r hr
    obtain ⟨hact, hsame⟩ := hholds r hr
    obtain ⟨v, hv⟩ := h.kept r hact
    exact ⟨v, fun u => (hsame u).trans (hv u)⟩

theorem Sound.rearm (h : Sound none x) (ht : t ∈ x.s.transactionsList) {v : Transaction E Data}
    (hv : v.callback = (x.s.trans t).callback) (hcon : v.con = true) {opened : List Nat}
    (hop : ∀ u ∈ opened, u ∈ x.opened ∧ u ≠ t) (hnd : opened.Nodup) :
    Sound none { x with s := setTrans x.s t v, opened := opened } := by
  have hholds : ∀ r u, Holds { x with s := setTrans x.s t v, opened := opened } r u ↔ Holds x r u := by
    rintro r u
    unfold Holds
    dsimp only
    rw [setTrans_list]
    by_cases hut : u = t
    · subst hut
      rw [setTrans_self, hv]
    · rw [setTrans_of_ne hut]
  constructor
  case pooled => exact h.pooled
  case opened =>
    rintro u hu
    obtain ⟨hu, hut⟩ := hop u hu
    obtain ⟨h1, h2, h3, h4⟩ := h.opened u hu
    dsimp only
    rw [setTrans_of_ne hut]
    exact ⟨h1, h2, h3, fun r hr hh => h4 r hr ((hholds r u).1 hh)⟩
  case nodup => exact hnd
  case armed =>
    rintro u hu
    by_cases hut : u = t
    · subst hut
      dsimp only
      rw [setTrans_self]
      exact ⟨ht, hcon⟩
    · dsimp only at hu ⊢
      rw [setTrans_of_ne hut] at hu ⊢
      exact h.armed u hu
  case con => exact h.con
  case kept =>
    rintro r hr
    obtain ⟨w, hw⟩ := h.kept r hr
    exact ⟨w, fun u => (hholds r u).trans (hw u)⟩

theorem Sound.ran (h : Sound none x) (ht : t ∈ x.s.transactionsList) {v : Transaction E Data}
    (hv : v.callback = (x.s.trans t).callback) (hopen : x.opened = []) (response : Option Response)
    (first second : List (Send E))
    (hf : RanFits { x with s := coapClearTransaction (setTrans x.s t v) t } response first second
      (x.s.trans t).callback) :
    Sound none (Sys.ran { x with s := coapClearTransaction (setTrans x.s t v) t } response first second
      (x.s.trans t).callback) := by
  have hop : ∀ u ∈ x.opened, u ∈ x.opened ∧ u ≠ t := by
    rw [hopen]
    rintro u ⟨⟩
  cases hc : (x.s.trans t).callback with
  | none => exact h.clear ht hv hop h.nodup fun r _ hr => by rw [hc] at hr; cases hr
  | some k =>
    rw [hc] at hf
    cases k with
    | other =>
      have hclear : Sound none _ := h.clear ht hv hop h.nodup fun r _ hr => by rw [hc] at hr; cases hr
      exact (callUser_sound hclear hf).1
    | request r =>
      have hclear : Sound (some r) _ := h.clear ht hv hop h.nodup fun r' _ hr => by
        rw [hc] at hr
        cases hr
        rfl
      refine coapRequestCallback_sound hclear (fun hrun => ⟨fun u hu => ?_, ?_⟩) response first second hf
      · -- the one transaction of the request was this one
        obtain ⟨w, hw⟩ := h.kept r ⟨hrun, by rintro ⟨⟩⟩
        obtain ⟨-, hl, -, hother⟩ := coapClear_spec (s := setTrans x.s t v) h.pooled ht
        obtain ⟨hlist, hut⟩ := (hl u).1 hu.1
        have hcb := hu.2
        dsimp only at hcb
        rw [hother u hut, setTrans_of_ne hut] at hcb
        exact hut (((hw u).1 ⟨hlist, hcb⟩).trans ((hw t).1 ⟨ht, hc⟩).symm)
      · exact h.con r ⟨hrun, by rintro ⟨⟩⟩

/-! ## Every step -/

theorem openResponse_sound (h : Sound none x) (mid : UInt16) (endpoint : E) {s' : State E Data}
    (hfits : ∀ a ∈ x.s.transactionsMemb.alloc, ∀ r, (x.s.trans a.1).callback = some (.request r) → x.running r = false)
    (hn : coapNewTransaction x.s mid endpoint = some (t, s')) :
    Sound none { x with s := s', opened := t :: x.opened } := by
  obtain ⟨hnew, hp, hl, hv, hother⟩ := coapNew_spec h.pooled hn
  have halloc : ∃ mem, x.s.transactionsMemb.alloc = some (t, mem) := by
    unfold coapNewTransaction at hn
    cases ha : x.s.transactionsMemb.alloc with
    | none =>
      rw [ha] at hn
      cases hn
    | some a =>
      rw [ha] at hn
      cases hn
      exact ⟨_, rfl⟩
  obtain ⟨mem, halloc⟩ := halloc
  have hidle : ∀ r, x.running r = true → (x.s.trans t).callback ≠ some (.request r) := by
    rintro r hrun hc
    rw [hfits (t, mem) halloc r hc] at hrun
    cases hrun
  have hoff : (x.s.trans t).timer = false := by
    by_contra hne
    exact hnew (h.armed t (by simpa using hne)).1
  have hmem : ∀ u, u ∈ s'.transactionsList ↔ u ∈ x.s.transactionsList ∨ u = t := fun u => by
    rw [hl, List.mem_append, List.mem_singleton]
  have hholds : ∀ r, x.running r = true → ∀ u, Holds { x with s := s', opened := t :: x.opened } r u ↔ Holds x r u := by
    rintro r hrun u
    unfold Holds
    dsimp only
    rw [hmem]
    by_cases hut : u = t
    · subst hut
      rw [hv]
      exact iff_of_false (fun hc => hidle r hrun hc.2) fun hc => hidle r hrun hc.2
    · rw [hother u hut]
      exact and_congr_left fun _ => or_iff_left hut
  constructor
  case pooled => exact hp
  case opened =>
    rintro u hu
    rcases List.mem_cons.1 hu with rfl | hu
    · dsimp only
      rw [hv]
      refine ⟨(hmem u).2 (.inr rfl), rfl, hoff, fun r hr hh => ?_⟩
      exact hnew ((hholds r hr.1 u).1 hh).1
    · obtain ⟨h1, h2, h3, h4⟩ := h.opened u hu
      have hut : u ≠ t := fun he => hnew (he ▸ h1)
      dsimp only
      rw [hother u hut]
      exact ⟨(hmem u).2 (.inl h1), h2, h3, fun r hr hh => h4 r hr ((hholds r hr.1 u).1 hh)⟩
  case nodup => exact List.nodup_cons.2 ⟨fun hm => hnew (h.opened t hm).1, h.nodup⟩
  case armed =>
    rintro u hu
    dsimp only at hu ⊢
    by_cases hut : u = t
    · subst hut
      rw [hv] at hu
      exact absurd hu (by simp [hoff])
    · rw [hother u hut] at hu ⊢
      exact ⟨(hmem u).2 (.inl (h.armed u hu).1), (h.armed u hu).2⟩
  case con => exact h.con
  case kept =>
    rintro r hr
    obtain ⟨w, hw⟩ := h.kept r hr
    exact ⟨w, fun u => (hholds r hr.1 u).trans (hw u)⟩

theorem finish_sound (h : Sound none x) {con : Option Bool} {x' : Sys E} (hs : step x (.finish con) = some x') :
    Sound none x' := by
  rw [step] at hs
  cases ho : x.opened with
  | nil =>
    rw [ho] at hs
    cases hs
  | cons t rest =>
    rw [ho] at hs
    obtain ⟨ht, hcount, -, hfree⟩ := h.opened t (by rw [ho]; exact List.mem_cons_self)
    have hnd := h.nodup
    rw [ho, List.nodup_cons] at hnd
    have hop : ∀ u ∈ rest, u ∈ x.opened ∧ u ≠ t := by
      rintro u hu
      rw [ho]
      exact ⟨List.mem_cons_of_mem _ hu, fun he => hnd.1 (he ▸ hu)⟩
    have hown : ∀ r, x.running r = true → (x.s.trans t).callback = some (.request r) → (none : Option Nat) = some r :=
      fun r hrun hc => absurd ⟨ht, hc⟩ (hfree r ⟨hrun, by rintro ⟨⟩⟩)
    cases con with
    | none =>
      have hclear := h.clear (v := x.s.trans t) ht rfl hop hnd.2 hown
      have hsame : setTrans x.s t (x.s.trans t) = x.s := by simp [setTrans]
      rw [hsame] at hclear
      cases hs
      exact hclear
    | some con =>
      dsimp only at hs
      unfold coapSendTransaction at hs
      rw [setTrans_self] at hs
      cases con with
      | true =>
        rw [if_pos rfl, if_pos (by simp [hcount])] at hs
        cases hs
        have hrearm := h.rearm (v := { x.s.trans t with con := true, timer := true }) ht rfl rfl hop hnd.2
        simpa [Sys.ran, setTrans] using hrearm
      | false =>
        rw [if_neg Bool.false_ne_true] at hs
        cases hs
        have hclear := h.clear (v := { x.s.trans t with con := false }) ht rfl hop hnd.2 hown
        exact hclear

theorem receive_sound (h : Sound none x) {mid : UInt16} {block2 : Response} {first second : List (Send E)} {x' : Sys E}
    (hf : Fits x (.receive mid block2 first second)) (hs : step x (.receive mid block2 first second) = some x') :
    Sound none x' := by
  rw [step] at hs
  by_cases ho : x.opened = []
  · rw [if_pos ho] at hs
    unfold coapReceiveResponse at hs
    cases hg : coapGetTransactionByMid x.s mid with
    | none =>
      rw [hg] at hs
      cases hs
      exact h
    | some t =>
      rw [hg] at hs
      cases hs
      have hsame : setTrans x.s t (x.s.trans t) = x.s := by simp [setTrans]
      have hran := h.ran (v := x.s.trans t) (coapGetByMid_mem hg) rfl ho (some block2) first second
      rw [hsame] at hran
      exact hran (hf t hg)
  · rw [if_neg ho] at hs
    cases hs

theorem expire_sound (h : Sound none x) {t : Nat} {script : List (Send E)} {x' : Sys E}
    (hf : Fits x (.expire t script)) (hs : step x (.expire t script) = some x') : Sound none x' := by
  rw [step] at hs
  by_cases hen : x.opened = [] ∧ (x.s.trans t).timer = true
  · rw [if_pos hen] at hs
    obtain ⟨ho, htimer⟩ := hen
    obtain ⟨ht, hcon⟩ := h.armed t htimer
    have hop : ∀ u ∈ x.opened, u ∈ x.opened ∧ u ≠ t := by
      rw [ho]
      rintro u ⟨⟩
    have hsent : coapRetransmitTransaction x.s t =
        if (x.s.trans t).retransCounter + 1 ≤ coapMaxRetransmit then
          (setTrans x.s t { x.s.trans t with retransCounter := (x.s.trans t).retransCounter + 1, timer := true }, none)
        else
          (coapClearTransaction (setTrans x.s t { x.s.trans t with
            timer := false, retransCounter := (x.s.trans t).retransCounter + 1 }) t, (x.s.trans t).callback) := by
      unfold coapRetransmitTransaction coapSendTransaction
      rw [setTrans_self, if_pos hcon]
      congr 1
      simp [setTrans]
    rw [Fits] at hf
    rw [hsent] at hs hf
    by_cases hle : (x.s.trans t).retransCounter + 1 ≤ coapMaxRetransmit
    · rw [if_pos hle] at hs
      cases hs
      have hrearm := h.rearm
        (v := { x.s.trans t with retransCounter := (x.s.trans t).retransCounter + 1, timer := true }) ht rfl hcon hop h.nodup
      exact hrearm
    · rw [if_neg hle] at hs hf
      cases hs
      have hlast : coapMaxRetransmit ≤ (x.s.trans t).retransCounter := by omega
      have hran := h.ran (v := { x.s.trans t with
        timer := false, retransCounter := (x.s.trans t).retransCounter + 1 }) ht rfl ho none script []
      exact hran (hf hlast)
  · rw [if_neg hen] at hs
    cases hs

theorem step_sound (h : Sound none x) (op : Op E) {x' : Sys E} (hf : Fits x op) (hs : step x op = some x') :
    Sound none x' := by
  cases op with
  | send q =>
    cases hs
    exact (coapSendRequest_sound h hf).1
  | other endpoint con =>
    cases hs
    rcases progressRequest_cases h.pooled endpoint con .other with ⟨-, hp⟩ | ⟨s', t, hp, ho⟩
    · rw [hp]
      exact h.getMid
    · rw [hp]
      exact h.opens ho fun r _ => by rintro ⟨⟩
  | openResponse mid endpoint =>
    rw [step] at hs
    cases mid with
    | none =>
      dsimp only [Option.elim] at hs
      cases hn : coapNewTransaction (coapGetMid x.s).2 (coapGetMid x.s).1 endpoint with
      | none =>
        rw [hn] at hs
        cases hs
        exact h.getMid
      | some a =>
        rw [hn] at hs
        cases hs
        exact openResponse_sound h.getMid _ endpoint hf hn
    | some mid =>
      dsimp only [Option.elim] at hs
      cases hn : coapNewTransaction x.s mid endpoint with
      | none =>
        rw [hn] at hs
        cases hs
        exact h
      | some a =>
        rw [hn] at hs
        cases hs
        exact openResponse_sound h mid endpoint hf hn
  | finish con => exact finish_sound h hs
  | receive mid block2 first second => exact receive_sound h hf hs
  | expire t script => exact expire_sound h hf hs

/-! ## Whole runs -/

/-- In every run that fits, each request that is running has exactly one open transaction. -/
theorem requests_kept [Inhabited E] (n : Nat) (ops : List (Op E)) (hfits : AllSteps step Fits (start n) ops) :
    AllStates step Kept (start n) ops := by
  have hrun := allStates_of_allSteps (J := fun _ => True) (P := Sound none) (C := Fits)
    (fun _ _ _ _ _ => trivial) (fun x op x' _ hx hf hs => step_sound hx op hf hs) ops _ trivial
    (start_sound n) hfits
  exact hrun.mono fun x hx r hr => hx.kept r ⟨hr, by rintro ⟨⟩⟩

/-- One request, answered in one message. -/
theorem requests_kept_answered :
    AllStates step Kept (start 1 : Sys Nat) [.send ⟨0, 7, true⟩, .receive 1 none [] []] := by
  refine requests_kept 1 _ ⟨.inr ⟨rfl, ?_, .inl rfl⟩, fun x hx => ⟨?_, fun y hy => trivial⟩⟩
  · rintro t ⟨⟨⟩, -⟩
  · cases hx
    rintro t ht
    cases ht
    refine ⟨fun _ => trivial, fun hgoes => ?_, fun _ => trivial⟩
    exact absurd hgoes.1 (by decide)

/-- The callback of the user sends another request when the first block comes, and takes the last block of the pool:
there is no transaction for the next one, and nobody is told. -/
theorem transfer_dropped : ¬∀ ops : List (Op Nat), AllStates step Kept (start 1) ops := by
  intro hall
  have hrun : ((exec step (start 1 : Sys Nat)
      [.send ⟨0, 7, true⟩, .receive 1 (some (0, 1)) [⟨1, 7, true⟩] []]).map fun x =>
        (x.running 0, x.s.transactionsList.map fun t => (x.s.trans t).callback)) =
      some (true, [some (.request 1)]) := rfl
  obtain ⟨x, hx, hend⟩ := Option.map_eq_some_iff.1 hrun
  rw [Prod.mk.injEq] at hend
  obtain ⟨t, ht⟩ := (hall _).last hx 0 hend.1
  obtain ⟨hmem, hcallback⟩ := (ht t).2 rfl
  have hin : some (Data.request 0) ∈ [some (Data.request 1)] := by
    rw [← hend.2, ← hcallback]
    exact List.mem_map_of_mem hmem
  revert hin
  decide

end Contiki.Coap.Requesting

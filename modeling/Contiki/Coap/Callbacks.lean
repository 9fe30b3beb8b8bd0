/-
Which callbacks run over whole runs of requests, responses, notifications, incoming messages and
timer expiries. A request stands for its callback and data, and the run records each callback with
the request whose transaction ran it and the sender of the message. `callbacks_right` holds of runs
in which no confirmable response or notification is sent from a block with a leftover callback and no
message closes a request sent to another endpoint.
-/
import Contiki.Coap.Transactions
import Contiki.Lib.Run

namespace Contiki.Coap

open Contiki.Core Contiki.Lib

/-! ## The system -/

/-- A callback has been run: by the transaction of the request `owner`, or by one of the server; with
the message of `src` or with NULL; after `retrans` retransmissions. -/
structure Event (E : Type) where
  owner : Option Nat
  callback : Nat
  src : Option E
  retrans : Nat

/-- The transactions with what a run records: the transactions that handlers have open, the request
each block was last taken for, the endpoint of each request, and the callbacks run. -/
structure Sys (E : Type) where
  s : State E Nat
  opened : List Nat
  owner : Nat → Option Nat
  sentTo : List E
  log : List (Event E)

variable {E : Type}

def start [Inhabited E] (maxOpenTransactions : Nat) : Sys E where
  s := ⟨.init maxOpenTransactions, [], fun _ => ⟨0, 0, default, none, false, false⟩, 0⟩
  opened := []
  owner := fun _ => none
  sentTo := []
  log := []

/-- A handler of the server runs between `openResponse` and `finish`, and may send requests and open
other transactions meanwhile; messages and timers wait until it is done. -/
inductive Op (E : Type) where
  /-- A request of the client. -/
  | request (endpoint : E) (con : Bool)
  /-- The transaction for an incoming request with this id, or for a notification or separate
  response with an id of its own. -/
  | openResponse (mid : Option UInt16) (endpoint : E)
  /-- It is sent, as a confirmable message or not, or dropped. -/
  | finish (con : Option Bool)
  /-- A message that is no request: a response, acknowledgement or reset. -/
  | receive (mid : UInt16) (src : E)
  /-- The retransmission timer of a transaction expires. -/
  | expire (t : Nat)

/-- The run after the transaction `t` has called `callback`. -/
@[grind =]
def Sys.ran (x : Sys E) (s : State E Nat) (t : Nat) (src : Option E) : Option Nat → Sys E
  | none => { x with s := s }
  | some r => { x with s := s, log := x.log ++ [⟨x.owner t, r, src, (x.s.trans t).retransCounter⟩] }

def step (x : Sys E) : Op E → Option (Sys E)
  | .request endpoint con =>
    match progressRequest x.s endpoint con x.sentTo.length with
    | (s, none) => some { x with s := s }
    | (s, some t) => some { x with
        s := s
        owner := Function.update x.owner t (some x.sentTo.length)
        sentTo := x.sentTo ++ [endpoint] }
  | .openResponse mid endpoint =>
    let (mid, s) := match mid with
      | some mid => (mid, x.s)
      | none => coapGetMid x.s
    match coapNewTransaction s mid endpoint with
    | none => some { x with s := s }
    | some (t, s) => some { x with s := s, opened := t :: x.opened, owner := Function.update x.owner t none }
  | .finish con =>
    match x.opened with
    | [] => none
    | t :: rest =>
      match con with
      | none => some { x with s := coapClearTransaction x.s t, opened := rest }
      | some con =>
        let (s, callback) := coapSendTransaction (setTrans x.s t { x.s.trans t with con := con }) t
        some ({ x with opened := rest }.ran s t none callback)
  | .receive mid src =>
    if x.opened = [] then
      match coapReceiveResponse x.s mid with
      | (s, none) => some { x with s := s }
      | (s, some (t, callback)) => some (x.ran s t (some src) callback)
    else none
  | .expire t =>
    if x.opened = [] ∧ (x.s.trans t).timer = true then
      let (s, callback) := coapRetransmitTransaction x.s t
      some (x.ran s t none callback)
    else none

/-! ## The property and the condition -/

/-- Every callback was run by the transaction of its own request, with NULL only when its
retransmissions were used up, with a message only of the endpoint the request went to, and once. -/
structure LogRight (x : Sys E) : Prop where
  own : ∀ e ∈ x.log, e.owner = some e.callback
  timeout : ∀ e ∈ x.log, e.src = none → coapMaxRetransmit ≤ e.retrans
  sender : ∀ e ∈ x.log, ∀ src, e.src = some src → x.sentTo[e.callback]? = some src
  once : (x.log.map Event.callback).Nodup

/-- A confirmable response or notification is sent from a block without a callback, and a message
whose id is that of a transaction with a callback comes from its endpoint. -/
def Fits (x : Sys E) : Op E → Prop
  | .finish (some true) => ∀ t ∈ x.opened.head?, (x.s.trans t).callback = none
  | .receive mid src => ∀ t, coapGetTransactionByMid x.s mid = some t →
      (x.s.trans t).callback = none ∨ (x.s.trans t).endpoint = src
  | _ => True

/-! ## The invariant -/

/-- An open transaction of a request holds its callback and endpoint, and the callback has not been
run; one of the server holds none, unless its handler is still running. -/
structure Sound (x : Sys E) : Prop where
  pooled : Pooled x.s
  opened : ∀ t ∈ x.opened, t ∈ x.s.transactionsList ∧ x.owner t = none ∧ (x.s.trans t).timer = false ∧
    (x.s.trans t).retransCounter = 0
  nodup : x.opened.Nodup
  armed : ∀ t, (x.s.trans t).timer = true → t ∈ x.s.transactionsList
  client : ∀ t ∈ x.s.transactionsList, ∀ r, x.owner t = some r →
    (x.s.trans t).callback = some r ∧ x.sentTo[r]? = some (x.s.trans t).endpoint ∧ ∀ e ∈ x.log, e.callback ≠ r
  server : ∀ t ∈ x.s.transactionsList, x.owner t = none → t ∉ x.opened → (x.s.trans t).callback = none
  distinct : ∀ t ∈ x.s.transactionsList, ∀ u ∈ x.s.transactionsList, ∀ r,
    x.owner t = some r → x.owner u = some r → t = u
  known : ∀ e ∈ x.log, e.callback < x.sentTo.length
  log : LogRight x

theorem start_sound [Inhabited E] (n : Nat) : Sound (start n : Sys E) := by
  constructor
  case pooled => exact Memb.init_holds n
  case log => constructor <;> simp [start]
  all_goals simp [start]

variable {x x' : Sys E} {t : Nat}

/-! ## What keeps it -/

theorem Sound.request (h : Sound x) (ht : t ∉ x.s.transactionsList) {s : State E Nat} {endpoint : E}
    (hp : Pooled s) (hl : ∀ u, u ∈ s.transactionsList → u ∈ x.s.transactionsList ∨ u = t)
    (hl' : ∀ u ∈ x.s.transactionsList, u ∈ s.transactionsList)
    (hself : t ∈ s.transactionsList → (s.trans t).callback = some x.sentTo.length ∧ (s.trans t).endpoint = endpoint)
    (htimer : (s.trans t).timer = true → t ∈ s.transactionsList)
    (hother : ∀ u, u ≠ t → s.trans u = x.s.trans u) :
    Sound { x with
      s := s
      owner := Function.update x.owner t (some x.sentTo.length)
      sentTo := x.sentTo ++ [endpoint] } := by
  have hne : ∀ u ∈ x.s.transactionsList, u ≠ t := fun u hu he => ht (he ▸ hu)
  have hold : ∀ (r : Nat) (a : E), x.sentTo[r]? = some a → (x.sentTo ++ [endpoint])[r]? = some a := by
    intro r a hr
    rw [List.getElem?_append_left (List.getElem?_eq_some_iff.1 hr).1]
    exact hr
  constructor
  case pooled => exact hp
  case opened =>
    intro u hu
    obtain ⟨h1, h2, h3, h4⟩ := h.opened u hu
    have hut := hne u h1
    simp only [hother u hut, Function.update_of_ne hut]
    exact ⟨hl' u h1, h2, h3, h4⟩
  case nodup => exact h.nodup
  case armed =>
    intro u hu
    by_cases hut : u = t
    · rw [hut] at hu ⊢
      exact htimer hu
    · simp only [hother u hut] at hu
      exact hl' u (h.armed u hu)
  case client =>
    intro u hu r hr
    by_cases hut : u = t
    · subst hut
      simp only [Function.update_self, Option.some.injEq] at hr
      subst hr
      obtain ⟨hc, he⟩ := hself hu
      refine ⟨hc, by simp [he], fun e hel => ?_⟩
      have := h.known e hel
      omega
    · simp only [Function.update_of_ne hut] at hr
      have hu' := (hl u hu).resolve_right hut
      obtain ⟨h1, h2, h3⟩ := h.client u hu' r hr
      simp only [hother u hut]
      exact ⟨h1, hold r _ h2, h3⟩
  case server =>
    intro u hu ho hno
    by_cases hut : u = t
    · subst hut
      simp at ho
    · simp only [Function.update_of_ne hut] at ho
      simp only [hother u hut]
      exact h.server u ((hl u hu).resolve_right hut) ho hno
  case distinct =>
    intro u hu v hv r hur hvr
    have hlt : ∀ w ∈ x.s.transactionsList, x.owner w = some r → r < x.sentTo.length := by
      intro w hw hwr
      exact (List.getElem?_eq_some_iff.1 (h.client w hw r hwr).2.1).1
    by_cases hut : u = t <;> by_cases hvt : v = t
    · rw [hut, hvt]
    · subst hut
      simp only [Function.update_self, Option.some.injEq, Function.update_of_ne hvt] at hur hvr
      have := hlt v ((hl v hv).resolve_right hvt) hvr
      omega
    · subst hvt
      simp only [Function.update_self, Option.some.injEq, Function.update_of_ne hut] at hur hvr
      have := hlt u ((hl u hu).resolve_right hut) hur
      omega
    · simp only [Function.update_of_ne hut, Function.update_of_ne hvt] at hur hvr
      exact h.distinct u ((hl u hu).resolve_right hut) v ((hl v hv).resolve_right hvt) r hur hvr
  case known =>
    intro e he
    have := h.known e he
    simp only [List.length_append, List.length_singleton]
    omega
  case log =>
    exact ⟨h.log.own, h.log.timeout, fun e he src hs => hold _ _ (h.log.sender e he src hs), h.log.once⟩

theorem Sound.open (h : Sound x) (ht : t ∉ x.s.transactionsList) {s : State E Nat} (hp : Pooled s)
    (hl : s.transactionsList = x.s.transactionsList ++ [t]) (hcount : (s.trans t).retransCounter = 0)
    (htimer : (s.trans t).timer = (x.s.trans t).timer) (hother : ∀ u, u ≠ t → s.trans u = x.s.trans u) :
    Sound { x with s := s, opened := t :: x.opened, owner := Function.update x.owner t none } := by
  have hne : ∀ u ∈ x.s.transactionsList, u ≠ t := fun u hu he => ht (he ▸ hu)
  have hold : ∀ u, u ∈ s.transactionsList → u ≠ t → u ∈ x.s.transactionsList := by
    intro u hu hut
    rw [hl] at hu
    exact (List.mem_append.1 hu).resolve_right fun hm => hut (List.mem_singleton.1 hm)
  have hstay : ∀ u ∈ x.s.transactionsList, u ∈ s.transactionsList := fun u hu => by
    rw [hl]
    exact List.mem_append_left _ hu
  have hoff : (x.s.trans t).timer = false := by
    by_contra hc
    exact ht (h.armed t (by simpa using hc))
  constructor
  case pooled => exact hp
  case opened =>
    intro u hu
    by_cases hut : u = t
    · subst hut
      exact ⟨by simp [hl], by simp, htimer.trans hoff, hcount⟩
    · obtain ⟨h1, h2, h3, h4⟩ := h.opened u ((List.mem_cons.1 hu).resolve_left hut)
      simp only [hother u hut, Function.update_of_ne hut]
      exact ⟨hstay u h1, h2, h3, h4⟩
  case nodup => exact List.nodup_cons.2 ⟨fun hm => ht (h.opened t hm).1, h.nodup⟩
  case armed =>
    intro u hu
    by_cases hut : u = t
    · subst hut
      rw [htimer, hoff] at hu
      cases hu
    · simp only [hother u hut] at hu
      exact hstay u (h.armed u hu)
  case client =>
    intro u hu r hr
    by_cases hut : u = t
    · subst hut
      simp at hr
    · simp only [Function.update_of_ne hut] at hr
      simp only [hother u hut]
      exact h.client u (hold u hu hut) r hr
  case server =>
    intro u hu ho hno
    have hut : u ≠ t := fun he => hno (by simp [he])
    simp only [Function.update_of_ne hut] at ho
    simp only [hother u hut]
    exact h.server u (hold u hu hut) ho fun hm => hno (by simp [hm])
  case distinct =>
    intro u hu v hv r hur hvr
    have hut : u ≠ t := by
      rintro rfl
      simp at hur
    have hvt : v ≠ t := by
      rintro rfl
      simp at hvr
    simp only [Function.update_of_ne hut, Function.update_of_ne hvt] at hur hvr
    exact h.distinct u (hold u hu hut) v (hold v hv hvt) r hur hvr
  case known => exact h.known
  case log => exact ⟨h.log.own, h.log.timeout, h.log.sender, h.log.once⟩

theorem Sound.await (h : Sound x) (ht : t ∈ x.s.transactionsList) (hcb : (x.s.trans t).callback = none)
    {rest : List Nat} (hrest : x.opened = t :: rest) {v : Transaction E Nat} (hv : v.callback = none)
    (howner : x.owner t = none) : Sound { x with s := setTrans x.s t v, opened := rest } := by
  have hnd := h.nodup
  rw [hrest, List.nodup_cons] at hnd
  constructor
  case pooled => exact h.pooled
  case opened =>
    intro u hu
    have hut : u ≠ t := fun he => hnd.1 (he ▸ hu)
    simp only [setTrans_of_ne hut]
    exact h.opened u (by rw [hrest]; simp [hu])
  case nodup => exact hnd.2
  case armed =>
    intro u hu
    by_cases hut : u = t
    · rw [hut]
      exact ht
    · simp only [setTrans_of_ne hut] at hu
      exact h.armed u hu
  case client =>
    intro u hu r hr
    have hut : u ≠ t := by
      rintro rfl
      rw [howner] at hr
      cases hr
    simp only [setTrans_of_ne hut]
    exact h.client u hu r hr
  case server =>
    intro u hu ho hno
    by_cases hut : u = t
    · subst hut
      simpa using hv
    · simp only [setTrans_of_ne hut]
      refine h.server u hu ho ?_
      rw [hrest]
      simp [hut, hno]
  case distinct => exact h.distinct
  case known => exact h.known
  case log => exact ⟨h.log.own, h.log.timeout, h.log.sender, h.log.once⟩

theorem Sound.close (h : Sound x) (ht : t ∈ x.s.transactionsList) {s : State E Nat} {opened : List Nat}
    (hp : Pooled s) (hl : ∀ u, u ∈ s.transactionsList ↔ u ∈ x.s.transactionsList ∧ u ≠ t)
    (hself : (s.trans t).timer = false) (hother : ∀ u, u ≠ t → s.trans u = x.s.trans u)
    (hop : ∀ u, u ∈ opened ↔ u ∈ x.opened ∧ u ≠ t) (hnd : opened.Nodup)
    {src : Option E} {callback : Option Nat}
    (hcb : ∀ r, callback = some r → (x.s.trans t).callback = some r ∧ t ∉ x.opened ∧
      (∀ a, src = some a → (x.s.trans t).endpoint = a) ∧
      (src = none → coapMaxRetransmit ≤ (x.s.trans t).retransCounter)) :
    Sound ({ x with opened := opened }.ran s t src callback) := by
  -- first without the log
  have hbase : Sound { x with s := s, opened := opened } := by
    constructor
    case pooled => exact hp
    case opened =>
      intro u hu
      obtain ⟨hu, hut⟩ := (hop u).1 hu
      obtain ⟨h1, h2, h3, h4⟩ := h.opened u hu
      simp only [hother u hut]
      exact ⟨(hl u).2 ⟨h1, hut⟩, h2, h3, h4⟩
    case nodup => exact hnd
    case armed =>
      intro u hu
      by_cases hut : u = t
      · rw [hut, hself] at hu
        cases hu
      · simp only [hother u hut] at hu
        exact (hl u).2 ⟨h.armed u hu, hut⟩
    case client =>
      intro u hu r hr
      obtain ⟨hu, hut⟩ := (hl u).1 hu
      simp only [hother u hut]
      exact h.client u hu r hr
    case server =>
      intro u hu ho hno
      obtain ⟨hu, hut⟩ := (hl u).1 hu
      simp only [hother u hut]
      exact h.server u hu ho fun hm => hno ((hop u).2 ⟨hm, hut⟩)
    case distinct =>
      intro u hu v hv r hur hvr
      exact h.distinct u ((hl u).1 hu).1 v ((hl v).1 hv).1 r hur hvr
    case known => exact h.known
    case log => exact ⟨h.log.own, h.log.timeout, h.log.sender, h.log.once⟩
  cases callback with
  | none => exact hbase
  | some r =>
    obtain ⟨hc, hno, hsrc, hnull⟩ := hcb r rfl
    -- the transaction is of the request whose callback it holds
    have howner : x.owner t = some r := by
      cases ho : x.owner t with
      | none =>
        rw [h.server t ht ho hno] at hc
        cases hc
      | some r' => rw [← (h.client t ht r' ho).1, hc]
    obtain ⟨-, hsent, hfresh⟩ := h.client t ht r howner
    constructor
    case pooled => exact hbase.pooled
    case opened => exact hbase.opened
    case nodup => exact hbase.nodup
    case armed => exact hbase.armed
    case client =>
      intro u hu q hq
      obtain ⟨h1, h2, h3⟩ := hbase.client u hu q hq
      refine ⟨h1, h2, fun e he => ?_⟩
      rcases List.mem_append.1 he with he | he
      · exact h3 e he
      · rw [List.mem_singleton.1 he]
        rintro rfl
        obtain ⟨hu, hut⟩ := (hl u).1 hu
        exact hut (h.distinct u hu t ht _ hq howner)
    case server => exact hbase.server
    case distinct => exact hbase.distinct
    case known =>
      intro e he
      rcases List.mem_append.1 he with he | he
      · exact h.known e he
      · rw [List.mem_singleton.1 he]
        exact (List.getElem?_eq_some_iff.1 hsent).1
    case log =>
      constructor
      case own =>
        intro e he
        rcases List.mem_append.1 he with he | he
        · exact h.log.own e he
        · rw [List.mem_singleton.1 he]
          exact howner
      case timeout =>
        intro e he
        rcases List.mem_append.1 he with he | he
        · exact h.log.timeout e he
        · rw [List.mem_singleton.1 he]
          exact hnull
      case sender =>
        intro e he a ha
        rcases List.mem_append.1 he with he | he
        · exact h.log.sender e he a ha
        · rw [List.mem_singleton.1 he] at ha ⊢
          rw [← hsrc a ha]
          exact hsent
      case once =>
        show ((x.log ++ [_]).map Event.callback).Nodup
        rw [List.map_append, List.nodup_append]
        refine ⟨h.log.once, by simp, ?_⟩
        intro a ha b hb
        obtain ⟨e, he, rfl⟩ := List.mem_map.1 ha
        rw [List.map_singleton, List.mem_singleton] at hb
        rw [hb]
        exact hfresh e he

theorem Sound.rearm (h : Sound x) (ht : t ∈ x.s.transactionsList) (hopen : x.opened = [])
    {v : Transaction E Nat} (hcb : v.callback = (x.s.trans t).callback)
    (hep : v.endpoint = (x.s.trans t).endpoint) : Sound { x with s := setTrans x.s t v } := by
  have hkeep : ∀ u, ((setTrans x.s t v).trans u).callback = (x.s.trans u).callback ∧
      ((setTrans x.s t v).trans u).endpoint = (x.s.trans u).endpoint := by
    intro u
    by_cases hut : u = t
    · subst hut
      simp [hcb, hep]
    · simp [setTrans_of_ne hut]
  constructor
  case pooled => exact h.pooled
  case opened =>
    intro u hu
    rw [show x.opened = [] from hopen] at hu
    cases hu
  case nodup => exact h.nodup
  case armed =>
    intro u hu
    by_cases hut : u = t
    · rw [hut]
      exact ht
    · simp only [setTrans_of_ne hut] at hu
      exact h.armed u hu
  case client =>
    intro u hu r hr
    rw [(hkeep u).1, (hkeep u).2]
    exact h.client u hu r hr
  case server =>
    intro u hu ho hno
    rw [(hkeep u).1]
    exact h.server u hu ho hno
  case distinct => exact h.distinct
  case known => exact h.known
  case log => exact ⟨h.log.own, h.log.timeout, h.log.sender, h.log.once⟩

/-! ## Every step keeps it -/

theorem coapGetMid_sound (h : Sound x) : Sound { x with s := (coapGetMid x.s).2 } :=
  ⟨h.pooled, h.opened, h.nodup, h.armed, h.client, h.server, h.distinct, h.known,
    ⟨h.log.own, h.log.timeout, h.log.sender, h.log.once⟩⟩

theorem request_sound (h : Sound x) (endpoint : E) (con : Bool)
    (hs : step x (.request endpoint con) = some x') : Sound x' := by
  have hmid := coapGetMid_sound h
  unfold step progressRequest at hs
  cases hn : coapNewTransaction (coapGetMid x.s).2 (coapGetMid x.s).1 endpoint with
  | none =>
    simp only [hn, Option.some.injEq] at hs
    subst hs
    exact hmid
  | some a =>
    obtain ⟨t, s⟩ := a
    obtain ⟨hnew, hp, hl, hv, hother⟩ := coapNew_spec hmid.pooled hn
    simp only [hn, Option.some.injEq] at hs
    subst hs
    have hoff : (x.s.trans t).timer = false := by
      by_contra hc
      exact hnew (h.armed t (by simpa using hc))
    have hmem : t ∈ s.transactionsList := by
      rw [hl]
      simp
    cases con with
    | true =>
      -- it waits for the acknowledgement
      simp only [coapSendTransaction, setTrans_self, hv, Nat.zero_le, if_true]
      refine h.request hnew hp (fun u hu => ?_) (fun u hu => ?_) (fun _ => ⟨?_, ?_⟩) (fun _ => hmem) fun u hu => ?_
      · rw [setTrans_list, setTrans_list, hl, coapGetMid_list] at hu
        simpa using hu
      · rw [setTrans_list, setTrans_list, hl]
        exact List.mem_append_left _ hu
      · simp
      · simp
      · rw [setTrans_of_ne hu, setTrans_of_ne hu, hother u hu]
        rfl
    | false =>
      simp only [coapSendTransaction, setTrans_self, Bool.false_eq_true, if_false]
      obtain ⟨hcp, hcl, hct, hco⟩ := coapClear_spec
        (s := setTrans s t { s.trans t with callback := some x.sentTo.length, con := false }) hp
        (t := t) hmem
      refine h.request hnew hcp (fun u hu => ?_) (fun u hu => ?_) (fun hu => ?_) (fun hu => ?_) fun u hu => ?_
      · have := ((hcl u).1 hu).1
        rw [setTrans_list, hl, coapGetMid_list] at this
        simpa using this
      · refine (hcl u).2 ⟨?_, fun he => hnew (he ▸ hu)⟩
        rw [setTrans_list, hl]
        exact List.mem_append_left _ hu
      · exact absurd rfl ((hcl t).1 hu).2
      · rw [hct] at hu
        cases hu
      · rw [hco u hu, setTrans_of_ne hu, hother u hu]
        rfl

theorem openResponse_sound (h : Sound x) (mid : Option UInt16) (endpoint : E)
    (hs : step x (.openResponse mid endpoint) = some x') : Sound x' := by
  -- the id is that of the request or a new one
  have key : ∀ y : Sys E, Sound y → ∀ m : UInt16,
      (match coapNewTransaction y.s m endpoint with
        | none => some y
        | some (t, s) => some { y with
            s := s, opened := t :: y.opened, owner := Function.update y.owner t none }) = some x' →
      Sound x' := by
    intro y hy m hm
    cases hn : coapNewTransaction y.s m endpoint with
    | none =>
      simp only [hn, Option.some.injEq] at hm
      exact hm ▸ hy
    | some a =>
      obtain ⟨t, s⟩ := a
      obtain ⟨hnew, hp, hl, hv, hother⟩ := coapNew_spec hy.pooled hn
      simp only [hn, Option.some.injEq] at hm
      subst hm
      exact hy.open hnew hp hl (by rw [hv]) (by rw [hv]) hother
  cases mid with
  | some m => exact key x h m hs
  | none => exact key _ (coapGetMid_sound h) (coapGetMid x.s).1 hs

theorem Sound.clear (h : Sound x) (ht : t ∈ x.s.transactionsList) {v : Transaction E Nat}
    {opened : List Nat} (hop : ∀ u, u ∈ opened ↔ u ∈ x.opened ∧ u ≠ t) (hnd : opened.Nodup)
    {src : Option E} {callback : Option Nat}
    (hcb : ∀ r, callback = some r → (x.s.trans t).callback = some r ∧ t ∉ x.opened ∧
      (∀ a, src = some a → (x.s.trans t).endpoint = a) ∧
      (src = none → coapMaxRetransmit ≤ (x.s.trans t).retransCounter)) :
    Sound ({ x with opened := opened }.ran (coapClearTransaction (setTrans x.s t v) t) t src callback) := by
  obtain ⟨hp, hl, htimer, hother⟩ := coapClear_spec (s := setTrans x.s t v) h.pooled ht
  refine h.close ht hp hl htimer (fun u hu => ?_) hop hnd hcb
  rw [hother u hu, setTrans_of_ne hu]

@[simp] theorem setTrans_same (s : State E Nat) (t : Nat) : setTrans s t (s.trans t) = s := by
  simp [setTrans]

theorem finish_sound (h : Sound x) (con : Option Bool) (hc : Fits x (.finish con))
    (hs : step x (.finish con) = some x') : Sound x' := by
  unfold step at hs
  cases ho : x.opened with
  | nil =>
    simp only [ho] at hs
    cases hs
  | cons t rest =>
    obtain ⟨ht, howner, -, hcount⟩ := h.opened t (by rw [ho]; simp)
    have hnd := h.nodup
    rw [ho, List.nodup_cons] at hnd
    have hop : ∀ u, u ∈ rest ↔ u ∈ x.opened ∧ u ≠ t := by
      intro u
      rw [ho, List.mem_cons]
      constructor
      · exact fun hu => ⟨.inr hu, fun he => hnd.1 (he ▸ hu)⟩
      · exact fun hu => hu.1.resolve_left hu.2
    cases con with
    | none =>
      simp only [ho, Option.some.injEq] at hs
      subst hs
      have := @Sound.clear _ _ _ h ht (x.s.trans t) _ hop hnd.2 none none (by simp)
      rw [setTrans_same] at this
      exact this
    | some con =>
      cases con with
      | true =>
        have hcb : (x.s.trans t).callback = none := hc t (by rw [ho]; simp)
        simp only [ho, coapSendTransaction, setTrans_self, hcount, Nat.zero_le, if_true,
          Option.some.injEq] at hs
        subst hs
        have := h.await ht hcb ho
          (v := { x.s.trans t with con := true, retransCounter := 0, timer := true }) hcb howner
        simpa [Sys.ran, setTrans] using this
      | false =>
        simp only [ho, coapSendTransaction, setTrans_self, Bool.false_eq_true, if_false,
          Option.some.injEq] at hs
        subst hs
        exact h.clear ht hop hnd.2 (by simp)

theorem receive_sound (h : Sound x) (mid : UInt16) (src : E) (hc : Fits x (.receive mid src))
    (hs : step x (.receive mid src) = some x') : Sound x' := by
  simp only [step, coapReceiveResponse] at hs
  by_cases ho : x.opened = []
  case neg =>
    rw [if_neg ho] at hs
    cases hs
  case pos =>
    rw [if_pos ho] at hs
    cases hg : coapGetTransactionByMid x.s mid with
    | none =>
      simp only [hg, Option.some.injEq] at hs
      exact hs ▸ h
    | some t =>
      simp only [hg, Option.some.injEq] at hs
      subst hs
      have hclear := @Sound.clear _ _ _ h (coapGetByMid_mem hg) (x.s.trans t) x.opened (by simp [ho]) h.nodup
          (some src) ((x.s.trans t).callback) ?_
      · rw [setTrans_same] at hclear
        exact hclear
      intro r hr
      refine ⟨hr, by simp [ho], ?_, by simp⟩
      rintro a ⟨⟩
      exact (hc t hg).resolve_left (by simp [hr])

theorem expire_sound (h : Sound x) (t : Nat) (hs : step x (.expire t) = some x') : Sound x' := by
  simp only [step, coapRetransmitTransaction, coapSendTransaction] at hs
  by_cases hen : x.opened = [] ∧ (x.s.trans t).timer = true
  case neg =>
    rw [if_neg hen] at hs
    cases hs
  case pos =>
    rw [if_pos hen] at hs
    obtain ⟨ho, htimer⟩ := hen
    have ht := h.armed t htimer
    simp only [setTrans_self] at hs
    have hop : ∀ u, u ∈ x.opened ↔ u ∈ x.opened ∧ u ≠ t := by simp [ho]
    split at hs
    case isFalse hcon =>
      simp only [Option.some.injEq] at hs
      subst hs
      exact h.clear ht hop h.nodup (by simp)
    case isTrue hcon =>
      split at hs
      case isTrue hle =>
        simp only [Option.some.injEq] at hs
        subst hs
        have := h.rearm ht ho (v := { x.s.trans t with
          timer := true, retransCounter := (x.s.trans t).retransCounter + 1 }) rfl rfl
        simpa [Sys.ran, setTrans] using this
      case isFalse hle =>
        simp only [Option.some.injEq] at hs
        subst hs
        refine h.clear ht hop h.nodup fun r hr => ⟨hr, by simp [ho], by simp, fun _ => ?_⟩
        omega

theorem step_sound (h : Sound x) (op : Op E) (hc : Fits x op) (hs : step x op = some x') : Sound x' := by
  cases op with
  | request endpoint con => exact request_sound h endpoint con hs
  | openResponse mid endpoint => exact openResponse_sound h mid endpoint hs
  | finish con => exact finish_sound h con hc hs
  | receive mid src => exact receive_sound h mid src hc hs
  | expire t => exact expire_sound h t hs

/-! ## Whole runs -/

/-- In every run that fits, every callback is run once, by its own request, with NULL after the
retransmissions, and with messages of the endpoint the request went to only. -/
theorem callbacks_right [Inhabited E] (n : Nat) (ops : List (Op E))
    (hfits : AllSteps step Fits (start n) ops) : AllStates step LogRight (start n) ops := by
  have hrun := allStates_of_allSteps (J := fun _ => True) (P := Sound) (C := Fits)
    (fun _ _ _ _ _ => trivial) (fun x op x' _ hx hc hs => step_sound hx op hc hs) ops _ trivial
    (start_sound n) hfits
  exact hrun.mono fun x hx => hx.log

/-- A request is answered, and its block then serves an incoming request with a response that is not
confirmable. -/
theorem callbacks_right_reused : AllStates step LogRight (start 2 : Sys Nat)
      [.request 1 true, .receive 1 1, .openResponse (some 9) 3, .finish (some false)] := by
  refine callbacks_right 2 _ ⟨trivial, fun x hx => ⟨?_, fun y hy => ⟨trivial, fun z hz => ⟨trivial, fun w hw => trivial⟩⟩⟩⟩
  cases hx
  intro t ht
  cases ht
  exact .inr rfl

/-- The block of an answered request serves a confirmable notification: its acknowledgement runs the
callback of the request a second time. -/
theorem callbacks_leftover : ¬ ∀ (ops : List (Op Nat)), AllStates step LogRight (start 2) ops := by
  intro hall
  have hrun : ((exec step (start 2 : Sys Nat)
      [.request 1 true, .receive 1 1, .openResponse none 2, .finish (some true), .receive 2 2]).map
      fun x => x.log.map Event.callback) = some [0, 0] := rfl
  obtain ⟨x, hx, hlog⟩ := Option.map_eq_some_iff.1 hrun
  have hnd := ((hall _).last hx).once
  rw [hlog] at hnd
  exact absurd hnd (by decide)

end Contiki.Coap

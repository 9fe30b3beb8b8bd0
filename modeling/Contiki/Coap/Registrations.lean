/-
The observers of coap-observe.c: the blocks of `observers_memb` on `observers_list`, how they are added by the observe
handler and removed by client, token, URI and message id. A removal loop goes on from an entry that `list_remove` has
already taken off the list.
-/
import Contiki.Coap.Message
import Contiki.Core.Memb
import Contiki.Lib.Mem
import Contiki.Lib.Select
import Contiki.Lib.Keyed
import Contiki.Lib.Run

namespace Contiki.Coap.Observing

section

open Core Lib

/-! ## Data -/

/-- `coap_observer_t`; `url` is what stands before the terminator that `add_observer` writes. -/
structure Observer (E : Type) where
  url : List UInt8
  endpoint : E
  token : List UInt8
  lastMid : UInt16
  obsCounter : Int32

/-- `observers_memb`, `observers_list` and the blocks. -/
structure Observers (E : Type) where
  observersMemb : Memb
  observersList : List Nat
  obs : Nat → Observer E

def cString (l : List UInt8) : List UInt8 := l.takeWhile (· ≠ 0)

variable {E : Type}

/-! ## Removal -/

/-- `obs->next`; `list_remove` leaves `NULL` there. -/
def listNext : List Nat → Nat → Option Nat
  | a :: b :: l, o => if a = o then some b else listNext (b :: l) o
  | _, _ => none

def coapRemoveObserver (s : Observers E) (o : Nat) : Observers E :=
  { s with observersMemb := s.observersMemb.free o, observersList := listRemove s.observersList o }

/-- The loop of the removal functions, from `cur` on: entries that match are removed, and counted. -/
@[grind =]
def removeLoop (test : Observer E → Bool) : Nat → Observers E → Option Nat → Observers E × Nat
  | 0, s, _ => (s, 0)
  | _, s, none => (s, 0)
  | fuel + 1, s, some o =>
    if test (s.obs o) then
      let s := coapRemoveObserver s o
      let r := removeLoop test fuel s (listNext s.observersList o)
      (r.1, r.2 + 1)
    else removeLoop test fuel s (listNext s.observersList o)

def removeAll (s : Observers E) (test : Observer E → Bool) : Observers E × Nat :=
  removeLoop test s.observersList.length s s.observersList.head?

section

variable [DecidableEq E]

def coapRemoveObserverByClient (s : Observers E) (endpoint : E) : Observers E × Nat :=
  removeAll s fun obs => obs.endpoint = endpoint

def coapRemoveObserverByToken (s : Observers E) (endpoint : E) (token : List UInt8) : Observers E × Nat :=
  removeAll s fun obs => obs.endpoint = endpoint ∧ obs.token.length = token.length ∧ obs.token = token

/-- `memcmp(obs->url, uri, strlen(obs->url)) == 0`. -/
def urlMatches (url : List UInt8) (uri : Mem) : Bool := Mem.read 0 (cString url).length uri = cString url

/-- `coap_remove_observer_by_uri`: the bytes at `uri`; no endpoint stands for any. -/
def coapRemoveObserverByUri (s : Observers E) (endpoint : Option E) (uri : Mem) : Observers E × Nat :=
  removeAll s fun obs => (endpoint = none ∨ endpoint = some obs.endpoint) ∧ urlMatches obs.url uri

def coapRemoveObserverByMid (s : Observers E) (endpoint : E) (mid : UInt16) : Observers E × Nat :=
  removeAll s fun obs => obs.endpoint = endpoint ∧ obs.lastMid = mid

/-! ## Registration -/

/-- `add_observer`, for `COAP_OBSERVER_URL_LEN`; the counter of the block is not set. -/
def addObserver (urlLen : Nat) (s : Observers E) (endpoint : E) (token : List UInt8) (uri : Mem) (uriLen : Nat) :
    Observers E × Option Nat :=
  let s := (coapRemoveObserverByUri s (some endpoint) uri).1
  match s.observersMemb.alloc with
  | none => (s, none)
  | some (o, memb) =>
    let obs : Observer E := ⟨Mem.read 0 (min (urlLen - 1) uriLen) uri, endpoint, token, 0, (s.obs o).obsCounter⟩
    (⟨memb, listAdd s.observersList o, Function.update s.obs o obs⟩, some o)

/-- What `coap_observe_handler` reads of the request. -/
structure ObserveRequest (E : Type) where
  code : UInt8
  observe : Option Int32
  src : Option E
  token : List UInt8
  uriPath : Mem
  uriPathLen : Nat

def coapGet : UInt8 := 1
def serviceUnavailable : UInt8 := 163

/-- `(obs->obs_counter)++` and the mask. -/
def Observer.count (obs : Observer E) : Observer E := { obs with obsCounter := (obs.obsCounter + 1) &&& 0xffffff }

@[grind =]
def coapObserveHandler (z : Sizes) (urlLen : Nat) (s : Observers E) (req : ObserveRequest E)
    (res : Message (List UInt8)) : Observers E × Message (List UInt8) :=
  if req.code = coapGet ∧ res.code < 128 then
    match req.observe, req.src with
    | some observe, some src =>
      if observe = 0 then
        match addObserver urlLen s src req.token req.uriPath req.uriPathLen with
        | (s, some o) =>
          ({ s with obs := Function.update s.obs o (s.obs o).count },
            Setter.apply z res (.observe (s.obs o).obsCounter.toUInt32))
        | (s, none) =>
          (s, Setter.apply z { res with code := serviceUnavailable }
            (.payload ("TooManyObservers".toList.map fun c => UInt8.ofNat c.toNat)))
      else if observe = 1 then ((coapRemoveObserverByToken s src req.token).1, res)
      else (s, res)
    | _, _ => (s, res)
  else (s, res)

end

/-! ## What a removal loop removes -/

variable {s : Observers E} {m : Observer E → Bool}

theorem listNext_append : ∀ {pre : List Nat} {o : Nat} {rest : List Nat}, o ∉ pre →
    listNext (pre ++ o :: rest) o = rest.head?
  | [], o, [], _ => rfl
  | [], o, b :: rest, _ => if_pos rfl
  | [a], o, rest, h => by
    have hne : a ≠ o := fun he => h (he ▸ List.mem_singleton_self a)
    show (if a = o then some o else listNext (o :: rest) o) = _
    rw [if_neg hne]
    exact @listNext_append [] o rest List.not_mem_nil
  | a :: b :: pre, o, rest, h => by
    have hne : a ≠ o := fun he => h (he ▸ List.mem_cons_self)
    show (if a = o then some b else listNext (b :: pre ++ o :: rest) o) = _
    rw [if_neg hne]
    exact listNext_append fun hm => h (List.mem_cons_of_mem a hm)

theorem listNext_of_not_mem : ∀ {l : List Nat} {o : Nat}, o ∉ l → listNext l o = none
  | [], _, _ => rfl
  | [_], _, _ => rfl
  | a :: b :: l, o, h => by
    have hne : a ≠ o := fun he => h (he ▸ List.mem_cons_self)
    show (if a = o then some b else listNext (b :: l) o) = _
    rw [if_neg hne]
    exact listNext_of_not_mem fun hm => h (List.mem_cons_of_mem a hm)

theorem removeLoop_first (hnodup : s.observersList.Nodup) : ∀ {fuel : Nat} {pre rest : List Nat},
    s.observersList = pre ++ rest → rest.length ≤ fuel →
    removeLoop m fuel s rest.head? =
      (rest.find? fun o => m (s.obs o)).elim (s, 0) fun o => (coapRemoveObserver s o, 1)
  | 0, pre, rest, _, hle => by
    obtain rfl := List.length_eq_zero_iff.1 (Nat.le_zero.1 hle)
    rfl
  | _ + 1, pre, [], _, _ => rfl
  | fuel + 1, pre, o :: rest, hlist, hle => by
    have hpre : o ∉ pre := by
      rw [hlist, List.nodup_append] at hnodup
      exact fun hm => hnodup.2.2 o hm o List.mem_cons_self rfl
    rw [List.head?_cons, removeLoop]
    by_cases hm : m (s.obs o) = true
    · have hgone : o ∉ (coapRemoveObserver s o).observersList := hnodup.not_mem_erase
      rw [if_pos hm, List.find?_cons_of_pos (p := fun o => m (s.obs o)) hm]
      dsimp only
      rw [listNext_of_not_mem hgone]
      cases fuel <;> rfl
    · rw [if_neg hm, List.find?_cons_of_neg (p := fun o => m (s.obs o)) hm, hlist, listNext_append hpre]
      have hlist' : s.observersList = (pre ++ [o]) ++ rest := by
        rw [hlist, List.append_assoc]
        rfl
      exact removeLoop_first hnodup hlist' (Nat.le_of_succ_le_succ hle)

theorem removeAll_first (hnodup : s.observersList.Nodup) : removeAll s m =
    (s.observersList.find? fun o => m (s.obs o)).elim (s, 0) fun o => (coapRemoveObserver s o, 1) :=
  removeLoop_first hnodup (List.nil_append s.observersList).symm le_rfl

end

/-!
What the observer list is for: the registrations that have not been cancelled, no two of one client and one URL. The list
follows them as long as the first entry that a removal finds is the only one that it is meant for.
-/

section

open Core Lib

/-! ## Registrations -/

/-- A registration, with the message id of the last notification for it. -/
structure Registration (E : Type) where
  endpoint : E
  url : List UInt8
  token : List UInt8
  mid : UInt16

variable {E : Type}

def Registration.key (r : Registration E) : E × List UInt8 := (r.endpoint, r.url)

def Observer.registration (obs : Observer E) : Registration E := ⟨obs.endpoint, obs.url, obs.token, obs.lastMid⟩

def Observers.registrations (s : Observers E) : List (Registration E) :=
  s.observersList.map fun o => (s.obs o).registration

section

variable [DecidableEq E]

/-- What a removal is meant for. -/
inductive Removal (E : Type)
  | client (endpoint : E)
  | clientToken (endpoint : E) (token : List UInt8)
  | uri (endpoint : Option E) (url : List UInt8)
  | messageId (endpoint : E) (mid : UInt16)

def Removal.of (r : Removal E) (reg : Registration E) : Bool :=
  match r with
  | .client endpoint => reg.endpoint = endpoint
  | .clientToken endpoint token => reg.endpoint = endpoint ∧ reg.token = token
  | .uri endpoint url => (endpoint = none ∨ endpoint = some reg.endpoint) ∧ reg.url = url
  | .messageId endpoint mid => reg.endpoint = endpoint ∧ reg.mid = mid

def withdraw (r : Removal E) (regs : List (Registration E)) : List (Registration E) := regs.filter fun reg => !r.of reg

def register (maxObservers : Nat) (new : Registration E) (regs : List (Registration E)) : List (Registration E) :=
  let rest := withdraw (.uri (some new.endpoint) new.url) regs
  if rest.length < maxObservers then rest ++ [new] else rest

/-! ## The system -/

/-- A call that changes the list; URLs are shorter than `COAP_OBSERVER_URL_LEN`, which is `urlLen`. -/
inductive ObserveOp (E : Type) (urlLen : Nat)
  /-- A request for a resource, with the response of its handler. -/
  | request (req : ObserveRequest E) (res : Message (List UInt8)) (h : req.uriPathLen < urlLen)
  /-- An RST, on which `coap_receive` removes by message id. -/
  | reset (src : E) (mid : UInt16)
  /-- A transaction that was given up, on which the client is removed. -/
  | giveUp (endpoint : E)
  /-- `coap_remove_observer_by_uri` for a string in memory. -/
  | removeUri (endpoint : Option E) (uri : CString) (mem : Mem) (h : Mem.Holds 0 (uri.bytes ++ [0]) mem)
  /-- A notification to an entry of the list. -/
  | notified (k : Nat) (mid : UInt16)

/-- The observers, and beside them the registrations. -/
structure ObserveSys (E : Type) where
  observers : Observers E
  registered : List (Registration E)

/-- `coap_notify_observers_sub` on an entry: the message id and the counter. -/
@[grind =]
def Observers.notified (s : Observers E) (k : Nat) (mid : UInt16) : Observers E :=
  match s.observersList[k]? with
  | some o => { s with obs := Function.update s.obs o { (s.obs o).count with lastMid := mid } }
  | none => s

inductive Asks (E : Type)
  | registration (new : Registration E)
  | cancellation (endpoint : E) (token : List UInt8)
  | nothing

def ObserveRequest.asks (req : ObserveRequest E) (res : Message (List UInt8)) : Asks E :=
  if req.code = coapGet ∧ res.code < 128 then
    match req.observe, req.src with
    | some observe, some src =>
      if observe = 0 then .registration ⟨src, Mem.read 0 req.uriPathLen req.uriPath, req.token, 0⟩
      else if observe = 1 then .cancellation src req.token
      else .nothing
    | _, _ => .nothing
  else .nothing

variable {urlLen : Nat}

def registeredAfter (maxObservers : Nat) (regs : List (Registration E)) : ObserveOp E urlLen → List (Registration E)
  | .request req res _ => match req.asks res with
    | .registration new => register maxObservers new regs
    | .cancellation endpoint token => withdraw (.clientToken endpoint token) regs
    | .nothing => regs
  | .reset src mid => withdraw (.messageId src mid) regs
  | .giveUp endpoint => withdraw (.client endpoint) regs
  | .removeUri endpoint uri _ _ => withdraw (.uri endpoint uri.bytes) regs
  | .notified k mid => regs.modify k fun reg => { reg with mid := mid }

def observersAfter (z : Sizes) (s : Observers E) : ObserveOp E urlLen → Observers E
  | .request req res _ => (coapObserveHandler z urlLen s req res).1
  | .reset src mid => (coapRemoveObserverByMid s src mid).1
  | .giveUp endpoint => (coapRemoveObserverByClient s endpoint).1
  | .removeUri endpoint _ mem _ => (coapRemoveObserverByUri s endpoint mem).1
  | .notified k mid => s.notified k mid

def ObserveSys.step (z : Sizes) (maxObservers : Nat) (x : ObserveSys E) (op : ObserveOp E urlLen) : Option (ObserveSys E) :=
  some ⟨observersAfter z x.observers op, registeredAfter maxObservers x.registered op⟩

/-- No observers yet, in a pool of `COAP_MAX_OBSERVERS` blocks. -/
def ObserveSys.start (maxObservers : Nat) (obs : Nat → Observer E) : ObserveSys E := ⟨⟨.init maxObservers, [], obs⟩, []⟩

/-- The list is what is registered, and no two entries have one client and one URL. -/
structure Follows (x : ObserveSys E) : Prop where
  same : x.observers.registrations = x.registered
  distinct : Distinct Registration.key x.observers.registrations

/-- The entries whose URL is the beginning of what stands at `uri`. -/
def atUri (endpoint : Option E) (uri : Mem) (reg : Registration E) : Bool :=
  (endpoint = none ∨ endpoint = some reg.endpoint) ∧ urlMatches reg.url uri

/-- The first entry that the removal of a call finds is the only one that it is meant for. -/
def Fits (x : ObserveSys E) : ObserveOp E urlLen → Prop
  | .request req res _ => match req.asks res with
    | .registration new => FirstOnly (atUri (some new.endpoint) req.uriPath) (Removal.uri (some new.endpoint) new.url).of
        x.observers.registrations
    | .cancellation endpoint token =>
      FirstOnly (Removal.clientToken endpoint token).of (Removal.clientToken endpoint token).of x.observers.registrations
    | .nothing => True
  | .reset src mid => FirstOnly (Removal.messageId src mid).of (Removal.messageId src mid).of x.observers.registrations
  | .giveUp endpoint => FirstOnly (Removal.client endpoint).of (Removal.client endpoint).of x.observers.registrations
  | .removeUri endpoint uri mem _ => FirstOnly (atUri endpoint mem) (Removal.uri endpoint uri.bytes).of x.observers.registrations
  | .notified _ _ => True

end

/-! ## Removals -/

def Observers.Pooled (maxObservers : Nat) (s : Observers E) : Prop :=
  s.observersMemb.Holds s.observersList ∧ s.observersMemb.num = maxObservers

variable {s : Observers E} {maxObservers : Nat}

theorem erase_find {l : List Nat} {q : Nat → Bool} {o : Nat} (hl : l.Nodup) (h : l.find? q = some o) :
    l.erase o = l.eraseP q := by
  obtain ⟨hq, as, bs, rfl, has⟩ := List.find?_eq_some_iff_append.1 h
  have ho : o ∉ as := fun hm => (List.nodup_append.1 hl).2.2 o hm o List.mem_cons_self rfl
  rw [List.erase_append_right _ ho, List.erase_cons_head, List.eraseP_append_right, List.eraseP_cons_of_pos hq]
  intro a ha
  simpa using has a ha

theorem removeAll_registrations (h : s.Pooled maxObservers) (p : Registration E → Bool) :
    (removeAll s fun obs => p obs.registration).1.registrations = s.registrations.eraseP p ∧
      (removeAll s fun obs => p obs.registration).1.Pooled maxObservers := by
  obtain ⟨hholds, hnum⟩ := h
  rw [removeAll_first hholds.nodup]
  unfold Observers.registrations
  rw [List.eraseP_map]
  cases hf : s.observersList.find? fun o => p (s.obs o).registration with
  | none =>
    refine ⟨?_, hholds, hnum⟩
    rw [List.eraseP_of_forall_not]
    · rfl
    · intro o ho
      simpa using List.find?_eq_none.1 hf o ho
  | some o =>
    have hmem := List.mem_of_find?_eq_some hf
    obtain ⟨hnum', hholds'⟩ := hholds.free hmem
    refine ⟨?_, hholds', hnum'.trans hnum⟩
    show (s.observersList.erase o).map _ = _
    rw [erase_find hholds.nodup hf]
    rfl

variable [DecidableEq E]

theorem removeAll_withdraw (h : s.Pooled maxObservers) (r : Removal E) :
    (removeAll s fun obs => r.of obs.registration).1.registrations = withdraw r s.registrations ↔
      FirstOnly r.of r.of s.registrations := by
  rw [(removeAll_registrations h r.of).1]
  exact eraseP_eq_filter_iff fun _ _ he => he

theorem urlMatches_self {url : List UInt8} {uri : Mem} (h : Mem.Holds 0 url uri) : urlMatches url uri = true := by
  unfold urlMatches cString
  obtain ⟨l, hl⟩ := List.takeWhile_prefix (l := url) (fun b : UInt8 => decide (b ≠ 0))
  rw [← hl] at h
  rw [decide_eq_true_eq, Mem.read_of_holds (Mem.holds_append.1 h).1]

theorem atUri_of_uri {endpoint : Option E} {url : List UInt8} {uri : Mem} (h : Mem.Holds 0 url uri) {reg : Registration E}
    (hr : (Removal.uri endpoint url).of reg = true) : atUri endpoint uri reg = true := by
  unfold Removal.of at hr
  unfold atUri
  rw [decide_eq_true_eq] at hr
  rw [decide_eq_true_eq]
  refine ⟨hr.1, urlMatches_self ?_⟩
  rw [hr.2]
  exact h

theorem removeUri_withdraw (h : s.Pooled maxObservers) (endpoint : Option E) {url : List UInt8} {uri : Mem}
    (hurl : Mem.Holds 0 url uri) :
    (coapRemoveObserverByUri s endpoint uri).1.registrations = withdraw (.uri endpoint url) s.registrations ↔
      FirstOnly (atUri endpoint uri) (Removal.uri endpoint url).of s.registrations := by
  have heq := (removeAll_registrations h (atUri endpoint uri)).1
  unfold coapRemoveObserverByUri
  unfold atUri at heq
  unfold Observer.registration at heq
  rw [heq]
  exact eraseP_eq_filter_iff fun _ _ he => atUri_of_uri hurl he

/-! ## Registration -/

theorem coapRemoveObserverByUri_registrations (h : s.Pooled maxObservers) (endpoint : Option E) (uri : Mem) :
    (coapRemoveObserverByUri s endpoint uri).1.registrations = s.registrations.eraseP (atUri endpoint uri) ∧
      (coapRemoveObserverByUri s endpoint uri).1.Pooled maxObservers :=
  removeAll_registrations h (atUri endpoint uri)

theorem addObserver_registrations (h : s.Pooled maxObservers) {urlLen uriLen : Nat} (hlen : uriLen < urlLen) (endpoint : E)
    (token : List UInt8) (uri : Mem) :
    let rest := s.registrations.eraseP (atUri (some endpoint) uri)
    (addObserver urlLen s endpoint token uri uriLen).1.registrations =
        (if rest.length < maxObservers then rest ++ [⟨endpoint, Mem.read 0 uriLen uri, token, 0⟩] else rest) ∧
      (addObserver urlLen s endpoint token uri uriLen).1.Pooled maxObservers := by
  obtain ⟨hrest, hholds, hnum⟩ := coapRemoveObserverByUri_registrations h (some endpoint) uri
  have hmin : min (urlLen - 1) uriLen = uriLen := by omega
  unfold addObserver
  dsimp only
  rw [← hrest]
  generalize (coapRemoveObserverByUri s (some endpoint) uri).1 = s' at hholds hnum
  have hlength : s'.registrations.length = s'.observersList.length := List.length_map ..
  cases ha : s'.observersMemb.alloc with
  | none =>
    have hfull := hholds.alloc_none_iff.1 ha
    rw [if_neg (by omega)]
    exact ⟨rfl, hholds, hnum⟩
  | some p =>
    obtain ⟨o, memb⟩ := p
    obtain ⟨hnew, hnum', hholds'⟩ := hholds.alloc ha
    have hle := hholds'.length_le
    rw [List.length_cons] at hle
    rw [if_pos (by omega)]
    dsimp only
    rw [listAdd_new hnew]
    refine ⟨?_, hholds'.perm (List.perm_append_singleton o _), hnum'.trans hnum⟩
    unfold Observers.registrations
    rw [List.map_append, List.map_singleton]
    congr 1
    · refine List.map_congr_left fun u hu => ?_
      have hne : u ≠ o := fun he => hnew (he ▸ hu)
      dsimp only
      rw [Function.update_of_ne hne]
    · dsimp only
      rw [Function.update_self, hmin]
      rfl

theorem removeByToken_eq (s : Observers E) (endpoint : E) (token : List UInt8) : coapRemoveObserverByToken s endpoint token =
    removeAll s fun obs => (Removal.clientToken endpoint token).of obs.registration := by
  unfold coapRemoveObserverByToken
  congr 1
  funext obs
  refine decide_eq_decide.2 (and_congr_right fun _ => ⟨fun h => h.2, fun h => ⟨congrArg List.length h, h⟩⟩)

omit [DecidableEq E] in
theorem update_registrations {o : Nat} {obs : Observer E} (h : obs.registration = (s.obs o).registration) :
    (⟨s.observersMemb, s.observersList, Function.update s.obs o obs⟩ : Observers E).registrations = s.registrations := by
  unfold Observers.registrations
  refine List.map_congr_left fun u _ => ?_
  by_cases hu : u = o
  · subst hu
    dsimp only
    rw [Function.update_self, h]
  · dsimp only
    rw [Function.update_of_ne hu]

theorem register_iff {loose : Registration E → Bool} {new : Registration E} {regs : List (Registration E)}
    (hloose : ∀ reg ∈ regs, (Removal.uri (some new.endpoint) new.url).of reg = true → loose reg = true)
    (hle : regs.length ≤ maxObservers) :
    (if (regs.eraseP loose).length < maxObservers then regs.eraseP loose ++ [new] else regs.eraseP loose) =
        register maxObservers new regs ↔ FirstOnly loose (Removal.uri (some new.endpoint) new.url).of regs := by
  have hnew : (Removal.uri (some new.endpoint) new.url).of new = true := by
    unfold Removal.of
    rw [decide_eq_true_eq]
    exact ⟨.inr rfl, rfl⟩
  have hnot : new ∉ withdraw (.uri (some new.endpoint) new.url) regs := by
    intro hm
    have := (List.mem_filter.1 hm).2
    rw [hnew] at this
    cases this
  rw [← eraseP_eq_filter_iff hloose]
  unfold register
  dsimp only
  constructor
  · intro h
    split_ifs at h with hroom hroom' hroom'
    · exact List.append_cancel_right h
    · exact absurd (h ▸ List.mem_append_right _ (List.mem_singleton_self new)) hnot
    · -- the new entry would have been there before, and would have been found
      have hmem : new ∈ regs.eraseP loose := h ▸ List.mem_append_right _ (List.mem_singleton_self new)
      have hin := List.mem_of_mem_eraseP hmem
      have hlen := List.length_eraseP_of_mem hin (hloose new hin hnew)
      have hpos := List.length_pos_of_mem hin
      omega
    · exact h
  · intro h
    show _ = if (withdraw _ regs).length < maxObservers then _ else _
    have h' : regs.eraseP loose = withdraw (.uri (some new.endpoint) new.url) regs := h
    rw [h']

/-! ## Runs -/

variable {z : Sizes} {urlLen : Nat} {regs : List (Registration E)}

theorem withdraw_distinct (h : Distinct Registration.key regs) (r : Removal E) :
    Distinct Registration.key (withdraw r regs) :=
  List.Nodup.sublist (List.filter_sublist.map _) h

theorem registeredAfter_distinct (h : Distinct Registration.key regs) (op : ObserveOp E urlLen) :
    Distinct Registration.key (registeredAfter maxObservers regs op) := by
  cases op with
  | request req res hlen =>
    show Distinct _ (match req.asks res with
      | .registration new => register maxObservers new regs
      | .cancellation endpoint token => withdraw (.clientToken endpoint token) regs
      | .nothing => regs)
    cases req.asks res with
    | registration new =>
      unfold register
      dsimp only
      split_ifs
      · unfold Distinct
        rw [List.map_append, List.map_singleton, List.nodup_append]
        refine ⟨withdraw_distinct h _, List.nodup_singleton _, ?_⟩
        rintro k hk k' hk' rfl
        obtain ⟨reg, hreg, rfl⟩ := List.mem_map.1 hk
        have hkey := List.mem_singleton.1 hk'
        have hne := (List.mem_filter.1 hreg).2
        unfold Removal.of at hne
        rw [Bool.not_eq_true', decide_eq_false_iff_not] at hne
        exact hne ⟨.inr (congrArg (fun k => some k.1) hkey.symm), congrArg Prod.snd hkey⟩
      · exact withdraw_distinct h _
    | cancellation endpoint token => exact withdraw_distinct h _
    | nothing => exact h
  | reset src mid => exact withdraw_distinct h _
  | giveUp endpoint => exact withdraw_distinct h _
  | removeUri endpoint uri mem hmem => exact withdraw_distinct h _
  | notified k mid =>
    show (List.map _ (regs.modify k _)).Nodup
    have hsame : (regs.modify k fun reg => { reg with mid := mid }).map Registration.key = regs.map Registration.key := by
      apply List.ext_getElem?
      intro i
      rw [List.getElem?_map, List.getElem?_map, List.getElem?_modify]
      cases regs[i]? with
      | none => rfl
      | some reg =>
        dsimp only [Option.map]
        split_ifs <;> rfl
    rw [hsame]
    exact h

theorem request_registrations (h : s.Pooled maxObservers) (req : ObserveRequest E) (res : Message (List UInt8))
    (hlen : req.uriPathLen < urlLen) :
    (coapObserveHandler z urlLen s req res).1.Pooled maxObservers ∧
      ((coapObserveHandler z urlLen s req res).1.registrations = match req.asks res with
        | .registration new =>
          let rest := s.registrations.eraseP (atUri (some new.endpoint) req.uriPath)
          if rest.length < maxObservers then rest ++ [new] else rest
        | .cancellation endpoint token => s.registrations.eraseP (Removal.clientToken endpoint token).of
        | .nothing => s.registrations) := by
  unfold coapObserveHandler ObserveRequest.asks
  by_cases hget : req.code = coapGet ∧ res.code < 128
  · rw [if_pos hget, if_pos hget]
    cases req.observe with
    | none => exact ⟨h, rfl⟩
    | some observe =>
      cases req.src with
      | none => exact ⟨h, rfl⟩
      | some src =>
        dsimp only
        by_cases h0 : observe = 0
        · rw [if_pos h0, if_pos h0]
          obtain ⟨hregs, hpooled⟩ := addObserver_registrations h hlen src req.token req.uriPath
          rcases hadd : addObserver urlLen s src req.token req.uriPath req.uriPathLen with ⟨s', _ | o⟩
          · rw [hadd] at hregs hpooled
            exact ⟨hpooled, hregs⟩
          · rw [hadd] at hregs hpooled
            exact ⟨hpooled, (update_registrations (show (s'.obs o).count.registration = (s'.obs o).registration from rfl)).trans hregs⟩
        · rw [if_neg h0, if_neg h0]
          by_cases h1 : observe = 1
          · rw [if_pos h1, if_pos h1]
            dsimp only
            rw [removeByToken_eq]
            exact (removeAll_registrations h _).symm
          · rw [if_neg h1, if_neg h1]
            exact ⟨h, rfl⟩
  · rw [if_neg hget, if_neg hget]
    exact ⟨h, rfl⟩

omit [DecidableEq E] in
theorem asks_url {req : ObserveRequest E} {res : Message (List UInt8)} {new : Registration E}
    (h : req.asks res = .registration new) : Mem.Holds 0 new.url req.uriPath := by
  unfold ObserveRequest.asks at h
  split_ifs at h
  split at h
  · split_ifs at h
    cases h
    exact Mem.holds_read.2 fun _ _ => rfl
  · cases h

omit [DecidableEq E] in
theorem notified_pooled (h : s.Pooled maxObservers) {k : Nat} {mid : UInt16} : (s.notified k mid).Pooled maxObservers := by
  unfold Observers.notified
  split
  · exact h
  · exact h

omit [DecidableEq E] in
theorem notified_registrations (h : s.observersList.Nodup) {k : Nat} {mid : UInt16} :
    (s.notified k mid).registrations = s.registrations.modify k fun reg => { reg with mid := mid } := by
  apply List.ext_getElem?
  intro i
  unfold Observers.notified Observers.registrations
  rw [List.getElem?_modify, List.getElem?_map]
  cases hk : s.observersList[k]? with
  | none =>
    rw [List.getElem?_map]
    by_cases hi : k = i
    · subst hi
      rw [hk]
      rfl
    · cases s.observersList[i]? with
      | none => rfl
      | some o => simp [hi]
  | some o =>
    rw [List.getElem?_map]
    cases hi : s.observersList[i]? with
    | none => rfl
    | some u =>
      by_cases heq : k = i
      · subst heq
        rw [hk] at hi
        cases hi
        simp [Observer.registration, Observer.count]
      · have hne : u ≠ o := by
          rintro rfl
          obtain ⟨hi', hui⟩ := List.getElem?_eq_some_iff.1 hi
          obtain ⟨hk', huk⟩ := List.getElem?_eq_some_iff.1 hk
          exact heq ((h.getElem_inj_iff).1 (huk.trans hui.symm))
        simp [heq, Function.update_of_ne hne]

theorem observersAfter_spec (h : s.Pooled maxObservers) (op : ObserveOp E urlLen) (registered : List (Registration E)) :
    (observersAfter z s op).Pooled maxObservers ∧
      ((observersAfter z s op).registrations = registeredAfter maxObservers s.registrations op ↔ Fits ⟨s, registered⟩ op) := by
  have hle : s.registrations.length ≤ maxObservers := by
    unfold Observers.registrations
    rw [List.length_map, ← h.2]
    exact h.1.length_le
  cases op with
  | request req res hlen =>
    obtain ⟨hpooled, hregs⟩ := request_registrations (z := z) h req res hlen
    refine ⟨hpooled, ?_⟩
    unfold observersAfter registeredAfter Fits
    dsimp only
    rw [hregs]
    rcases hasks : req.asks res with new | ⟨endpoint, token⟩ | _
    · refine register_iff (fun reg _ hr => ?_) hle
      exact atUri_of_uri (asks_url hasks) hr
    · exact eraseP_eq_filter_iff fun _ _ he => he
    · exact iff_of_true rfl trivial
  | reset src mid =>
    exact ⟨(removeAll_registrations h (Removal.messageId src mid).of).2, removeAll_withdraw h (.messageId src mid)⟩
  | giveUp endpoint =>
    exact ⟨(removeAll_registrations h (Removal.client endpoint).of).2, removeAll_withdraw h (.client endpoint)⟩
  | removeUri endpoint uri mem hmem =>
    exact ⟨(coapRemoveObserverByUri_registrations h endpoint mem).2,
      removeUri_withdraw h endpoint (Mem.holds_append.1 hmem).1⟩
  | notified k mid =>
    refine ⟨notified_pooled h, iff_of_true ?_ trivial⟩
    exact notified_registrations h.1.nodup

/-- In every run the list follows the registrations exactly when every removal finds first the only entry that it is meant
for. -/
theorem observers_follow (z : Sizes) (maxObservers : Nat) (obs : Nat → Observer E) (ops : List (ObserveOp E urlLen)) :
    AllStates (ObserveSys.step z maxObservers) Follows (.start maxObservers obs) ops ↔
      AllSteps (ObserveSys.step z maxObservers) Fits (.start maxObservers obs) ops := by
  refine allStates_iff_allSteps
    (J := fun x => x.observers.Pooled maxObservers ∧ Distinct Registration.key x.registered) ?_ ?_ ops _ ?_ ?_
  · rintro x op x' ⟨hpooled, hdistinct⟩ ⟨⟩
    exact ⟨(observersAfter_spec hpooled op x.registered).1, registeredAfter_distinct hdistinct op⟩
  · rintro x op ⟨hpooled, hdistinct⟩ hx
    obtain ⟨-, hiff⟩ := observersAfter_spec (z := z) hpooled op x.registered
    rw [hx.same] at hiff
    constructor
    · rintro hfits _ ⟨⟩
      have hsame := hiff.2 hfits
      refine ⟨hsame, ?_⟩
      show Distinct _ (observersAfter z x.observers op).registrations
      rw [hsame]
      exact registeredAfter_distinct hdistinct op
    · intro hall
      exact hiff.1 (hall _ rfl).same
  · exact ⟨⟨Memb.init_holds _, rfl⟩, List.nodup_nil⟩
  · exact ⟨rfl, List.nodup_nil⟩

def observeUrl (url : List UInt8) (h : url.length < 20) : ObserveOp Nat 20 :=
  .request ⟨coapGet, some 0, some 0, [1], fun i => url.getD i 0, url.length⟩ (coapInitMessage .ack 69 0) h

/-- The registration for `ab` removes that for `a`. -/
theorem shorterUrl_removed : ¬ AllStates (ObserveSys.step ⟨48, 64, by decide⟩ 3) Follows
    (.start 3 fun _ => ⟨[], 0, [], 0, 0⟩) [observeUrl [97] (by decide), observeUrl [97, 98] (by decide)] := by
  intro h
  have hlengths : (exec (ObserveSys.step ⟨48, 64, by decide⟩ 3) (.start 3 fun _ => ⟨[], 0, [], 0, 0⟩)
      [observeUrl [97] (by decide), observeUrl [97, 98] (by decide)]).map
        (fun x => (x.observers.registrations.length, x.registered.length)) = some (1, 2) := by decide
  obtain ⟨x, hx, hl⟩ := Option.map_eq_some_iff.1 hlengths
  have hsame := (h.last hx).same
  rw [hsame] at hl
  have := congrArg Prod.fst hl
  have := congrArg Prod.snd hl
  dsimp only at *
  omega

end

end Contiki.Coap.Observing

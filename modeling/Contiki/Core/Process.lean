/-
The process kernel of sys/process.c. The threads of the processes are arbitrary: while one of them runs it may call the
kernel, which calls other threads. What is to be done behind each of these calls is a stack of frames.
-/
import Contiki.Lib.Linked
import Contiki.Lib.Run

namespace Contiki.Core

open Contiki.Lib

def processEventInit : UInt8 := 0x81
def processEventPoll : UInt8 := 0x82
def processEventExit : UInt8 := 0x83
def processEventExited : UInt8 := 0x87

/-- `PROCESS_STATE_NONE`, `PROCESS_STATE_RUNNING` and `PROCESS_STATE_CALLED`. -/
inductive ProcessState
  | none | running | called
deriving DecidableEq

/-! ## The event queue -/

/-- `struct event_data`; no receiver is `PROCESS_BROADCAST`. -/
structure EventData (P D : Type) where
  data : D
  p : Option P
  ev : UInt8

structure EventQueue (P D : Type) where
  fevent : UInt8
  nevents : UInt8
  events : Nat → EventData P D

/-- `PROCESS_CONF_NUMEVENTS` as the assertions have it, the processes with a thread, and the data of the kernel's events. -/
structure ProcessConf (P D : Type) where
  numEvents : UInt8
  pos : 0 < numEvents.toNat
  le : numEvents.toNat ≤ 128
  thread : P → Bool
  null : D
  pointer : P → D

variable {P D : Type} (c : ProcessConf P D)

namespace EventQueue

variable {q q' : EventQueue P D} {e : EventData P D}

/-- `process_post`, or nothing for `PROCESS_ERR_FULL`. -/
def post (q : EventQueue P D) (e : EventData P D) : Option (EventQueue P D) :=
  if q.nevents = c.numEvents then none
  else some { q with
    events := Function.update q.events ((q.fevent + q.nevents) % c.numEvents).toNat e, nevents := q.nevents + 1 }

/-- How `do_event` takes the first event. -/
def take (q : EventQueue P D) : Option (EventData P D × EventQueue P D) :=
  if q.nevents > 0 then
    some (q.events q.fevent.toNat, { q with fevent := (q.fevent + 1) % c.numEvents, nevents := q.nevents - 1 })
  else none

/-- The events that wait, the first one in front. -/
def waiting (q : EventQueue P D) : List (EventData P D) :=
  (List.range q.nevents.toNat).map fun j => q.events ((q.fevent.toNat + j) % c.numEvents.toNat)

structure WF (q : EventQueue P D) : Prop where
  fevent : q.fevent.toNat < c.numEvents.toNat
  nevents : q.nevents.toNat ≤ c.numEvents.toNat

@[simp] theorem length_waiting (q : EventQueue P D) : (q.waiting c).length = q.nevents.toNat := by
  simp [waiting]

variable {c}

theorem WF.post (h : q.WF c) : q.post c e = none ∧ (q.waiting c).length = c.numEvents.toNat ∨
    ∃ q', q.post c e = some q' ∧ q'.WF c ∧ q'.waiting c = q.waiting c ++ [e] := by
  have hf := h.fevent
  have hn := h.nevents
  have hle := c.le
  unfold EventQueue.post
  split
  case isTrue hfull => exact .inl ⟨rfl, by rw [length_waiting, hfull]⟩
  case isFalse hroom =>
    have hlt : q.nevents.toNat < c.numEvents.toNat := lt_of_le_of_ne hn fun heq => hroom (UInt8.toNat_inj.1 heq)
    have hnext : (q.nevents + 1).toNat = q.nevents.toNat + 1 := by
      rw [UInt8.toNat_add, UInt8.toNat_one]
      omega
    have hslot : ((q.fevent + q.nevents) % c.numEvents).toNat =
        (q.fevent.toNat + q.nevents.toNat) % c.numEvents.toNat := by
      rw [UInt8.toNat_mod, UInt8.toNat_add, Nat.mod_eq_of_lt (show _ < 2 ^ 8 by omega)]
    refine .inr ⟨_, rfl, ⟨hf, by dsimp only; omega⟩, ?_⟩
    unfold waiting
    dsimp only
    rw [hnext, List.range_succ, List.map_append, hslot]
    refine congrArg₂ _ (List.map_congr_left fun j hj => ?_) ?_
    · -- the new event takes a place behind those that wait
      have hj := List.mem_range.1 hj
      refine Function.update_of_ne (fun heq => ?_) ..
      have := Nat.ModEq.eq_of_lt_of_lt (Nat.ModEq.add_left_cancel' _ heq) (by omega) hlt
      omega
    · simp

theorem WF.take (h : q.WF c) : q.take c = none ∧ q.waiting c = [] ∨
    ∃ e q', q.take c = some (e, q') ∧ q'.WF c ∧ q.waiting c = e :: q'.waiting c := by
  have hf := h.fevent
  have hn := h.nevents
  have hle := c.le
  unfold EventQueue.take
  split
  case isFalse hempty =>
    left
    have hzero : q.nevents.toNat = 0 := by
      have := mt UInt8.lt_iff_toNat_lt.2 hempty
      rw [UInt8.toNat_zero] at this
      omega
    exact ⟨rfl, by rw [waiting, hzero]; rfl⟩
  case isTrue hsome =>
    have hpos : 0 < q.nevents.toNat := UInt8.lt_iff_toNat_lt.1 hsome
    obtain ⟨n, hn'⟩ := Nat.exists_eq_succ_of_ne_zero hpos.ne'
    have hrest : (q.nevents - 1).toNat = n := by
      rw [UInt8.toNat_sub_of_le _ _ (UInt8.le_iff_toNat_le.2 (by rw [UInt8.toNat_one]; omega)), UInt8.toNat_one]
      omega
    have hnext : ((q.fevent + 1) % c.numEvents).toNat = (q.fevent.toNat + 1) % c.numEvents.toNat := by
      rw [UInt8.toNat_mod, UInt8.toNat_add, UInt8.toNat_one, Nat.mod_eq_of_lt (show _ < 2 ^ 8 by omega)]
    refine .inr ⟨_, _, rfl, ⟨?_, by dsimp only; omega⟩, ?_⟩
    · dsimp only
      rw [hnext]
      exact Nat.mod_lt _ c.pos
    · unfold waiting
      dsimp only
      rw [hrest, hnext, hn', List.range_succ_eq_map, List.map_cons, List.map_map, Nat.add_zero, Nat.mod_eq_of_lt hf]
      refine congrArg _ (List.map_congr_left fun j _ => ?_)
      rw [Function.comp_apply, Nat.mod_add_mod, Nat.succ_eq_add_one, Nat.add_assoc, Nat.add_comm 1 j]

end EventQueue

/-! ## The processes -/

/-- What is left of a call: a thread that runs, or the loop of a function of the kernel at a process. -/
inductive Frame (P D : Type)
  /-- `call_process`, in the thread. -/
  | called (p : P) (ev : UInt8) (data : D)
  /-- `exit_process`, in the thread. -/
  | exiting (p : P) (oldCurrent : Option P)
  /-- `exit_process`, telling the other processes. -/
  | exited (q p : P) (oldCurrent : Option P)
  | synch (caller : Option P)
  | poll (p : P)
  | event
  /-- `do_event` with a broadcast, before the call for `p` or behind it. -/
  | broadcast (p : P) (done : Bool) (ev : UInt8) (data : D)

/-- The kernel, and the events that were accepted and taken. -/
structure ProcessWorld (P D : Type) where
  list : Option P
  next : P → Option P
  state : P → ProcessState
  needspoll : P → Bool
  current : Option P
  pollRequested : Bool
  stack : List (Frame P D)
  queue : EventQueue P D
  accepted : List (EventData P D)
  taken : List (EventData P D)

/-- What a thread, or the main program while no thread runs, does next; `kernel` is for the kernel to go on. -/
inductive ProcessAction (P D : Type)
  | post (e : EventData P D)
  | poll (p : P)
  | start (p : P) (data : D)
  | postSynch (p : P) (ev : UInt8) (data : D)
  | exit (p : P)
  | context (p : Option P)
  | ret (ended : Bool)
  | run
  | kernel

section

variable [DecidableEq P]

/-- The search for `p` from `q` on. -/
@[grind =]
def findProcess (next : P → Option P) (p : P) : Nat → Option P → Option Bool
  | _, none => some false
  | 0, some _ => none
  | k + 1, some q => if q = p then some true else findProcess next p k (next q)

/-- The loop that takes `p` out, from `q` on. -/
@[grind =]
def unlinkProcess (next : P → Option P) (p : P) : Nat → Option P → Option (P → Option P)
  | _, none => some next
  | 0, some _ => none
  | k + 1, some q =>
    if next q = some p then some (Function.update next q (next p)) else unlinkProcess next p k (next q)

namespace ProcessWorld

variable (w : ProcessWorld P D)

def push (f : Frame P D) : ProcessWorld P D := { w with stack := f :: w.stack }

def callProcess (p : P) (ev : UInt8) (data : D) : ProcessWorld P D :=
  if w.state p = .running ∧ c.thread p = true then
    { w with current := some p, state := Function.update w.state p .called, stack := .called p ev data :: w.stack }
  else w

def exitedFrom (p : P) (old : Option P) : Option P → ProcessWorld P D
  | none => { w with current := old }
  | some q => (w.push (.exited q p old)).callProcess c q processEventExited (c.pointer p)

def pollFrom : Option P → ProcessWorld P D
  | none => w
  | some p =>
    let w' := w.push (.poll p)
    if w.needspoll p then
      { w' with
        state := Function.update w.state p .running
        needspoll := Function.update w.needspoll p false }.callProcess c p processEventPoll c.null
    else w'

def doPoll : ProcessWorld P D := { w with pollRequested := false }.pollFrom c w.list

def broadcastFrom (ev : UInt8) (data : D) : Option P → ProcessWorld P D
  | none => w
  | some p => if w.pollRequested then (w.push (.broadcast p false ev data)).doPoll c
    else (w.push (.broadcast p true ev data)).callProcess c p ev data

def doEvent : ProcessWorld P D := match w.queue.take c with
  | none => w
  | some (e, queue) =>
    let w' := { w with queue, taken := w.taken ++ [e] }
    match e.p with
    | none => w'.broadcastFrom c e.ev e.data w.list
    | some receiver =>
      { w' with state := if e.ev = processEventInit then Function.update w.state receiver .running else w.state }
        |>.callProcess c receiver e.ev e.data

def processPost (e : EventData P D) : ProcessWorld P D := match w.queue.post c e with
  | none => w
  | some queue => { w with queue, accepted := w.accepted ++ [e] }

def processPoll (p : P) : ProcessWorld P D :=
  if w.state p = .none then w else { w with needspoll := Function.update w.needspoll p true, pollRequested := true }

def processPostSynch (p : P) (ev : UInt8) (data : D) : ProcessWorld P D :=
  (w.push (.synch w.current)).callProcess c p ev data

def threadRuns : Bool := match w.stack with
  | [] | .called .. :: _ | .exiting .. :: _ => true
  | _ => false

variable [Fintype P]

def processStart (p : P) (data : D) : Option (ProcessWorld P D) :=
  (findProcess w.next p (Fintype.card P) w.list).map fun found =>
    if found then w
    else { w with
      next := Function.update w.next p w.list
      list := some p
      state := Function.update w.state p .running }.processPostSynch c p processEventInit data

/-- The list without `p`, and the links. -/
def without (p : P) : Option (Option P × (P → Option P)) :=
  if w.list = some p then some (w.next p, w.next)
  else (unlinkProcess w.next p (Fintype.card P) w.list).map (w.list, ·)

/-- `exit_process` behind the call of the thread. -/
def unlink (p : P) (old : Option P) : Option (ProcessWorld P D) := (w.without p).map fun (list, next) =>
  if w.state p = .none then { w with list, next, current := old }
  else { w with list, next, state := Function.update w.state p .none }.exitedFrom c p old list

def exitProcess (p : P) (fromprocess : Option P) : Option (ProcessWorld P D) :=
  (findProcess w.next p (Fintype.card P) w.list).bind fun found =>
    if found then
      if w.state p ≠ .none ∧ c.thread p = true ∧ fromprocess ≠ some p then
        some ({ w with current := some p }.push (.exiting p w.current))
      else w.unlink c p w.current
    else some w

/-- How the kernel goes on behind a thread that has returned. -/
def returned (ended : Bool) : Option (ProcessWorld P D) := match w.stack with
  | .called p ev _ :: s =>
    let w' := { w with stack := s }
    if ended = true ∨ ev = processEventExit then w'.exitProcess c p (some p)
    else some { w' with state := Function.update w.state p .running }
  | .exiting p old :: s => { w with stack := s }.unlink c p old
  | _ => none

/-- How the kernel goes on behind a call of its own. -/
def goOn : Option (ProcessWorld P D) := match w.stack with
  | .exited q p old :: s => some ({ w with stack := s }.exitedFrom c p old (w.next q))
  | .synch caller :: s => some { w with stack := s, current := caller }
  | .poll p :: s => some ({ w with stack := s }.pollFrom c (w.next p))
  | .event :: s => some ({ w with stack := s }.doEvent c)
  | .broadcast p false ev data :: s => some ({ w with stack := .broadcast p true ev data :: s }.callProcess c p ev data)
  | .broadcast p true ev data :: s => some ({ w with stack := s }.broadcastFrom c ev data (w.next p))
  | _ => none

/-- `process_run` up to `do_event`. -/
def processRun : ProcessWorld P D :=
  let w' := w.push .event
  if w.pollRequested then w'.doPoll c else w'

/-- One call of the kernel, one return of a thread, or one turn of a loop of the kernel. Polls come from interrupts too. -/
def step (a : ProcessAction P D) : Option (ProcessWorld P D) := match a with
  | .post e => if w.threadRuns then some (w.processPost c e) else none
  | .poll p => some (w.processPoll p)
  | .start p data => if w.threadRuns then w.processStart c p data else none
  | .postSynch p ev data => if w.threadRuns then some (w.processPostSynch c p ev data) else none
  | .exit p => if w.threadRuns then w.exitProcess c p w.current else none
  | .context p => if w.threadRuns then some { w with current := p } else none
  | .ret ended => w.returned c ended
  | .run => if w.stack.isEmpty then some (w.processRun c) else none
  | .kernel => w.goOn c

/-- After booting, with any content of the array. -/
def boot (events : Nat → EventData P D) : ProcessWorld P D where
  list := none
  next := fun _ => none
  state := fun _ => .none
  needspoll := fun _ => false
  current := none
  pollRequested := false
  stack := []
  queue := ⟨0, 0, events⟩
  accepted := []
  taken := []

end ProcessWorld

/-! ## The loops over the list -/

variable {next : P → Option P} {p : P}

theorem findProcess_chain : ∀ {h : Option P} {l : List P} {k : Nat}, Chain next h l → l.length ≤ k →
    findProcess next p k h = some (decide (p ∈ l))
  | _, [], k, hc, _ => by
    rw [chain_nil.1 hc]
    cases k <;> rfl
  | _, a :: l, k + 1, ⟨rfl, hc⟩, hk => by
    rw [findProcess, findProcess_chain hc (by simpa using hk)]
    by_cases ha : a = p
    · simp [ha]
    · simp [ha, Ne.symm ha]

/-- The loop redirects the link that leads to `p`, or finds none. -/
theorem unlinkProcess_chain : ∀ {h : Option P} {l : List P} {k : Nat}, Chain next h l → l.length ≤ k →
    (p ∉ l.tail ∧ unlinkProcess next p k h = some next) ∨
    ∃ l₁ u l₂, l = l₁ ++ u :: p :: l₂ ∧ unlinkProcess next p k h = some (Function.update next u (next p))
  | _, [], k, hc, _ => by
    rw [chain_nil.1 hc]
    cases k <;> exact .inl ⟨List.not_mem_nil, rfl⟩
  | _, a :: l, k + 1, ⟨rfl, hc⟩, hk => by
    rw [unlinkProcess]
    by_cases ha : next a = some p
    · rw [if_pos ha]
      cases l with
      | nil =>
        rw [chain_nil.1 hc] at ha
        cases ha
      | cons b l =>
        obtain rfl := Option.some.inj (hc.1.symm.trans ha)
        exact .inr ⟨[], a, l, rfl, rfl⟩
    · rw [if_neg ha]
      rcases unlinkProcess_chain hc (by simpa using hk) with ⟨hp, he⟩ | ⟨l₁, u, l₂, rfl, he⟩
      · refine .inl ⟨fun hmem => ?_, he⟩
        cases l with
        | nil => cases hmem
        | cons b l =>
          rcases List.mem_cons.1 hmem with rfl | hmem
          · exact ha hc.1
          · exact hp hmem
      · exact .inr ⟨a :: l₁, u, l₂, rfl, he⟩

/-! ## What holds between the calls -/

def Frame.thread : Frame P D → Option P
  | called p _ _ => some p
  | _ => none

/-- The processes whose threads were called, the last one in front. -/
def calledOf (stack : List (Frame P D)) : List P := stack.filterMap Frame.thread

/-- The loops of `process_run` stand below all threads, and a process that is told to exit was not called before. -/
def Based : List (Frame P D) → Prop
  | [] => True
  | .called .. :: s | .exited .. :: s | .synch _ :: s => Based s
  | .exiting p _ :: s => p ∉ calledOf s ∧ Based s
  | .poll _ :: s | .event :: s | .broadcast .. :: s => calledOf s = [] ∧ Based s

/-- The list has the processes that are not stopped; those that are called, but for `p`, are on the stack, each once. -/
structure TidyBut (p : P) (w : ProcessWorld P D) : Prop where
  chain : ∃ l, Chain w.next w.list l ∧ ∀ q, q ∈ l ↔ w.state q ≠ .none
  nodup : (calledOf w.stack).Nodup
  absent : p ∉ calledOf w.stack
  called : ∀ q, q ≠ p → (q ∈ calledOf w.stack ↔ w.state q = .called)
  based : Based w.stack

structure Tidy (w : ProcessWorld P D) : Prop where
  chain : ∃ l, Chain w.next w.list l ∧ ∀ q, q ∈ l ↔ w.state q ≠ .none
  nodup : (calledOf w.stack).Nodup
  called : ∀ q, q ∈ calledOf w.stack ↔ w.state q = .called
  based : Based w.stack

namespace ProcessWorld

variable {c} {w w' : ProcessWorld P D} {old : Option P} {ev : UInt8} {data : D} {s : List (Frame P D)}

theorem callProcess_tidy (h : Tidy w) : Tidy (w.callProcess c p ev data) := by
  unfold callProcess
  split
  case isFalse => exact h
  case isTrue hrun =>
    have hfree : p ∉ calledOf w.stack := fun hp => by
      rw [h.called, hrun.1] at hp
      cases hp
    obtain ⟨l, hl, hmem⟩ := h.chain
    refine ⟨⟨l, hl, fun q => ?_⟩, List.nodup_cons.2 ⟨hfree, h.nodup⟩, fun q => ?_, h.based⟩
    · by_cases hq : q = p
      · simp [hq, hmem, hrun.1]
      · simp [hq, hmem]
    · show q ∈ p :: calledOf w.stack ↔ _
      by_cases hq : q = p
      · simp [hq]
      · simp [hq, h.called]

theorem exitedFrom_tidy (h : Tidy w) : ∀ q, Tidy (w.exitedFrom c p old q)
  | none => ⟨h.chain, h.nodup, h.called, h.based⟩
  | some _ => callProcess_tidy ⟨h.chain, h.nodup, h.called, h.based⟩

theorem pollFrom_tidy (h : Tidy w) (hs : calledOf w.stack = []) :
    ∀ {q : Option P}, (∀ p ∈ q, w.needspoll p = true → w.state p ≠ .none) → Tidy (w.pollFrom c q)
  | none, _ => h
  | some p, hlive => by
    unfold pollFrom
    dsimp only
    split
    case isFalse => exact ⟨h.chain, h.nodup, h.called, hs, h.based⟩
    case isTrue hneeds =>
      -- no thread is called, so that the state that `do_poll` sets is the one the process has
      have hrun : w.state p = .running := by
        have hcalled := h.called p
        rw [hs] at hcalled
        have := hlive p rfl hneeds
        cases hp : w.state p with
        | none => exact absurd hp this
        | running => rfl
        | called => exact absurd (hcalled.2 hp) List.not_mem_nil
      rw [← hrun, Function.update_eq_self]
      exact callProcess_tidy ⟨h.chain, h.nodup, h.called, hs, h.based⟩

theorem doPoll_tidy (h : Tidy w) (hs : calledOf w.stack = []) : Tidy (w.doPoll c) := by
  obtain ⟨l, hl, hmem⟩ := h.chain
  refine pollFrom_tidy (w := { w with pollRequested := false }) ⟨⟨l, hl, hmem⟩, h.nodup, h.called, h.based⟩ hs
    fun p hp _ => ?_
  cases l with
  | nil =>
    rw [chain_nil.1 hl] at hp
    cases hp
  | cons a l =>
    rw [hl.1] at hp
    cases hp
    exact (hmem p).1 List.mem_cons_self

theorem broadcastFrom_tidy (h : Tidy w) (hs : calledOf w.stack = []) : ∀ q, Tidy (w.broadcastFrom c ev data q)
  | none => h
  | some p => by
    have hpush : ∀ done, Tidy (w.push (.broadcast p done ev data)) := fun _ =>
      ⟨h.chain, h.nodup, h.called, hs, h.based⟩
    show Tidy (if w.pollRequested = true then _ else _)
    split
    · exact doPoll_tidy (hpush false) hs
    · exact callProcess_tidy (hpush true)

theorem doEvent_tidy (h : Tidy w) (hs : calledOf w.stack = [])
    (hev : ∀ e q, w.queue.take c = some (e, q) → e.ev ≠ processEventInit) : Tidy (w.doEvent c) := by
  unfold doEvent
  split
  · exact h
  · next e queue htake =>
    dsimp only
    split
    · exact broadcastFrom_tidy (w := { w with queue, taken := w.taken ++ [e] }) ⟨h.chain, h.nodup, h.called, h.based⟩ hs _
    · rw [if_neg (hev e queue htake)]
      exact callProcess_tidy ⟨h.chain, h.nodup, h.called, h.based⟩

/-! ## What the queue is for -/

def log (w : ProcessWorld P D) : EventQueue P D × List (EventData P D) × List (EventData P D) :=
  (w.queue, w.accepted, w.taken)

@[simp] theorem callProcess_log : (w.callProcess c p ev data).log = w.log := by
  unfold callProcess
  split <;> rfl

@[simp] theorem exitedFrom_log : ∀ q, (w.exitedFrom c p old q).log = w.log
  | none => rfl
  | some _ => callProcess_log

@[simp] theorem pollFrom_log : ∀ q, (w.pollFrom c q).log = w.log
  | none => rfl
  | some p => by
    unfold pollFrom
    dsimp only
    split
    · exact callProcess_log
    · rfl

@[simp] theorem doPoll_log : (w.doPoll c).log = w.log := pollFrom_log (w := { w with pollRequested := false }) _

@[simp] theorem broadcastFrom_log : ∀ q, (w.broadcastFrom c ev data q).log = w.log
  | none => rfl
  | some p => by
    show (if w.pollRequested = true then _ else _ : ProcessWorld P D).log = _
    split
    · exact doPoll_log
    · exact callProcess_log

/-- The events come out in the order in which they were accepted; no thread has posted the initial one. -/
structure QueueOk (c : ProcessConf P D) (w : ProcessWorld P D) : Prop where
  wf : w.queue.WF c
  order : w.accepted = w.taken ++ w.queue.waiting c
  init : ∀ e ∈ w.accepted, e.ev ≠ processEventInit

omit [DecidableEq P] in
theorem QueueOk.congr (h : QueueOk c w) (he : w'.log = w.log) : QueueOk c w' := by
  have hq : w'.queue = w.queue := congrArg Prod.fst he
  have ha : w'.accepted = w.accepted := congrArg (·.2.1) he
  have ht : w'.taken = w.taken := congrArg (·.2.2) he
  exact ⟨hq ▸ h.wf, by rw [ha, ht, hq, h.order], ha ▸ h.init⟩

omit [DecidableEq P] in
theorem QueueOk.post (h : QueueOk c w) {e : EventData P D} (he : e.ev ≠ processEventInit) :
    QueueOk c (w.processPost c e) := by
  unfold processPost
  rcases h.wf.post (e := e) with ⟨hfull, -⟩ | ⟨q, hq, hwf, hwait⟩
  · rw [hfull]
    exact h
  · rw [hq]
    refine ⟨hwf, ?_, fun e' he' => ?_⟩
    · show w.accepted ++ [e] = w.taken ++ q.waiting c
      rw [h.order, hwait, List.append_assoc]
    · rcases List.mem_append.1 he' with he' | he'
      · exact h.init e' he'
      · rwa [List.mem_singleton.1 he']

theorem QueueOk.doEvent (h : QueueOk c w) : QueueOk c (w.doEvent c) := by
  unfold ProcessWorld.doEvent
  rcases h.wf.take with ⟨hempty, -⟩ | ⟨e, q, hq, hwf, hwait⟩
  · rw [hempty]
    exact h
  · rw [hq]
    have h' : QueueOk c { w with queue := q, taken := w.taken ++ [e] } :=
      ⟨hwf, by rw [h.order, hwait, List.append_assoc]; rfl, h.init⟩
    dsimp only
    split
    · exact h'.congr (broadcastFrom_log _)
    · exact h'.congr callProcess_log

omit [DecidableEq P] in
theorem QueueOk.taken_ne (h : QueueOk c w) {e : EventData P D} {q : EventQueue P D} (hq : w.queue.take c = some (e, q)) :
    e.ev ≠ processEventInit := by
  rcases h.wf.take with ⟨hempty, -⟩ | ⟨e', q', hq', -, hwait⟩
  · rw [hempty] at hq
    cases hq
  · rw [hq'] at hq
    cases hq
    exact h.init e (by rw [h.order, hwait]; simp)

omit [DecidableEq P] in
theorem pop_tidy {f : Frame P D} (h : Tidy w) (hs : w.stack = f :: s) (hf : f.thread = none) :
    Tidy { w with stack := s } := by
  have hcalled : calledOf w.stack = calledOf s := by
    rw [hs]
    exact List.filterMap_cons_none hf
  refine ⟨h.chain, hcalled ▸ h.nodup, fun q => hcalled ▸ h.called q, ?_⟩
  have hbased := h.based
  rw [hs] at hbased
  cases f <;> first | exact hbased.2 | exact hbased

theorem processPoll_tidy (h : Tidy w) : Tidy (w.processPoll p) ∧ (w.processPoll p).log = w.log := by
  unfold processPoll
  split
  · exact ⟨h, rfl⟩
  · exact ⟨⟨h.chain, h.nodup, h.called, h.based⟩, rfl⟩

theorem processRun_tidy (h : Tidy w) (hs : w.stack = []) : Tidy (w.processRun c) ∧ (w.processRun c).log = w.log := by
  have hnone : calledOf w.stack = [] := by rw [hs]; rfl
  have hpush : Tidy (w.push .event) := ⟨h.chain, h.nodup, h.called, hnone, h.based⟩
  unfold processRun
  dsimp only
  split
  · exact ⟨doPoll_tidy hpush hnone, doPoll_log⟩
  · exact ⟨hpush, rfl⟩

/-! ## Processes that start and exit -/

variable [Fintype P]

/-- The list without `p`, which is stopped if it was not. -/
theorem unlink_tidy (h : TidyBut p w) : ∃ w', w.unlink c p old = some w' ∧ Tidy w' ∧ w'.log = w.log := by
  obtain ⟨l, hl, hmem⟩ := h.chain
  have hnodup := hl.nodup
  obtain ⟨list, next, hcut, hl'⟩ : ∃ list next, w.without p = some (list, next) ∧ Chain next list (l.erase p) := by
    unfold without
    by_cases hfirst : w.list = some p
    · cases l with
      | nil =>
        rw [chain_nil.1 hl] at hfirst
        cases hfirst
      | cons a l =>
        obtain rfl := Option.some.inj (hl.1.symm.trans hfirst)
        refine ⟨_, _, if_pos hfirst, ?_⟩
        rw [List.erase_cons_head]
        exact hl.2
    -- the loop begins behind the first process, and may find that `p` is not there
    · rw [if_neg hfirst]
      rcases unlinkProcess_chain (p := p) hl hnodup.length_le_card with ⟨hp, he⟩ | ⟨l₁, u, l₂, rfl, he⟩
      · refine ⟨w.list, w.next, by rw [he]; rfl, ?_⟩
        have hout : p ∉ l := by
          cases l with
          | nil => exact List.not_mem_nil
          | cons a l =>
            rintro hin
            rcases List.mem_cons.1 hin with rfl | hin
            · exact hfirst hl.1
            · exact hp hin
        rwa [List.erase_of_not_mem hout]
      · refine ⟨w.list, _, by rw [he]; rfl, ?_⟩
        obtain ⟨-, hright, hdisj⟩ := List.nodup_append.1 hnodup
        obtain ⟨hu, hright⟩ := List.nodup_cons.1 hright
        have hp₁ : p ∉ l₁ := fun hin => hdisj p hin p (by simp) rfl
        have hup : u ≠ p := fun he => hu (he ▸ List.mem_cons_self)
        rw [List.erase_append_right _ hp₁, List.erase_cons_tail (by simpa using hup), List.erase_cons_head]
        refine hl.unlink (Function.update_self ..) (fun x hx => Function.update_of_ne ?_ ..) fun x hx =>
          Function.update_of_ne ?_ ..
        · exact fun he => hdisj x hx u (by simp) he
        · rintro rfl
          exact hu (List.mem_cons_of_mem _ hx)
  have htidy : Tidy { w with list, next, state := Function.update w.state p .none } := by
    refine ⟨⟨_, hl', fun q => ?_⟩, h.nodup, fun q => ?_, h.based⟩
    · rw [hnodup.mem_erase_iff]
      by_cases hq : q = p
      · simp [hq]
      · simp [hq, hmem]
    · by_cases hq : q = p
      · simp [hq, h.absent]
      · simp [hq, h.called]
  unfold unlink
  rw [hcut]
  by_cases hstate : w.state p = .none
  · rw [← hstate, Function.update_eq_self] at htidy
    exact ⟨_, congrArg some (if_pos hstate), ⟨htidy.chain, htidy.nodup, htidy.called, htidy.based⟩, rfl⟩
  · exact ⟨_, congrArg some (if_neg hstate), exitedFrom_tidy htidy _, exitedFrom_log _⟩

theorem exitProcess_tidy (h : TidyBut p w) {fromprocess : Option P}
    (hfrom : fromprocess = some p ∨ w.state p ≠ .called) :
    ∃ w', w.exitProcess c p fromprocess = some w' ∧ Tidy w' ∧ w'.log = w.log := by
  obtain ⟨l, hl, hmem⟩ := h.chain
  have hcalled : w.state p ≠ .called → ∀ q, q ∈ calledOf w.stack ↔ w.state q = .called := fun hne q => by
    by_cases hq : q = p
    · simp [hq, h.absent, hne]
    · exact h.called q hq
  unfold exitProcess
  rw [findProcess_chain hl hl.nodup.length_le_card]
  by_cases hp : p ∈ l
  · rw [decide_eq_true hp, Option.bind_some, if_pos rfl]
    split
    case isTrue hthread =>
      exact ⟨_, rfl, ⟨h.chain, h.nodup, hcalled (hfrom.resolve_left hthread.2.2), h.absent, h.based⟩, rfl⟩
    case isFalse => exact unlink_tidy h
  · have hnone : w.state p = .none := by
      by_contra hne
      exact hp ((hmem p).2 hne)
    rw [decide_eq_false hp]
    refine ⟨w, rfl, ⟨h.chain, h.nodup, hcalled ?_, h.based⟩, rfl⟩
    rw [hnone]
    decide

theorem processStart_tidy (h : Tidy w) : ∃ w', w.processStart c p data = some w' ∧ Tidy w' ∧ w'.log = w.log := by
  obtain ⟨l, hl, hmem⟩ := h.chain
  unfold processStart
  rw [findProcess_chain hl hl.nodup.length_le_card]
  by_cases hp : p ∈ l
  · exact ⟨w, by simp [hp], h, rfl⟩
  · rw [decide_eq_false hp]
    refine ⟨_, rfl, callProcess_tidy ?_, callProcess_log⟩
    have hne : ∀ x ∈ l, Function.update w.next p w.list x = w.next x := fun x hx =>
      Function.update_of_ne (fun he : x = p => hp (he ▸ hx)) ..
    refine ⟨⟨_, hl.push (Function.update_self ..) hne, fun q => ?_⟩, h.nodup, fun q => ?_, h.based⟩
    · show _ ↔ Function.update w.state p .running q ≠ .none
      by_cases hq : q = p
      · simp [hq]
      · simp [hq, hmem]
    · show q ∈ calledOf w.stack ↔ Function.update w.state p .running q = .called
      have hfree : p ∉ calledOf w.stack := fun hin => hp ((hmem p).2 (by rw [(h.called p).1 hin]; decide))
      by_cases hq : q = p
      · simp [hq, hfree]
      · simp [hq, h.called]

/-! ## Runs -/

/-- The process at which `do_poll` goes on. -/
def nextPoll (w : ProcessWorld P D) : Option P := match w.stack with
  | .poll p :: _ => w.next p
  | _ => none

/-- What may come next: no thread posts the initial event, a process is not made to exit by a call while its thread runs,
and `do_poll` does not come to one that has exited and wanted to be polled. -/
def Allowed (w : ProcessWorld P D) : ProcessAction P D → Prop
  | .post e => w.threadRuns = true ∧ e.ev ≠ processEventInit
  | .poll _ => True
  | .start _ _ | .postSynch _ _ _ | .context _ => w.threadRuns = true
  | .exit p => w.threadRuns = true ∧ p ∉ calledOf w.stack
  | .ret _ => w.threadRuns = true ∧ w.stack.isEmpty = false
  | .run => w.stack.isEmpty = true
  | .kernel => w.threadRuns = false ∧ ∀ p, w.nextPoll = some p → w.needspoll p = true → w.state p ≠ .none

theorem returned_tidy (h : Tidy w) (hrun : w.threadRuns = true) (hs : w.stack.isEmpty = false) (ended : Bool) :
    ∃ w', w.returned c ended = some w' ∧ Tidy w' ∧ w'.log = w.log := by
  have hbased := h.based
  unfold threadRuns at hrun
  unfold returned
  split at hrun
  case h_1 hnil =>
    rw [hnil] at hs
    cases hs
  case h_2 p ev data s heq =>
    rw [heq] at hbased ⊢
    have hnodup := h.nodup
    have hcalled := h.called
    rw [heq] at hnodup hcalled
    obtain ⟨hp, hnodup⟩ := List.nodup_cons.1 (show (p :: calledOf s).Nodup from hnodup)
    have hstate : w.state p = .called := (hcalled p).1 (List.mem_cons_self (l := calledOf s))
    have hother : ∀ q, q ≠ p → (q ∈ calledOf s ↔ w.state q = .called) := fun q hq => by
      rw [← hcalled q]
      show _ ↔ q ∈ p :: calledOf s
      simp [hq]
    -- `p` is still in the state of a process that is called, while its frame is gone
    have hbut : TidyBut p { w with stack := s } := ⟨h.chain, hnodup, hp, hother, hbased⟩
    dsimp only
    split
    · exact exitProcess_tidy hbut (.inl rfl)
    · obtain ⟨l, hl, hmem⟩ := h.chain
      refine ⟨_, rfl, ⟨⟨l, hl, fun q => ?_⟩, hnodup, fun q => ?_, hbased⟩, rfl⟩
      · by_cases hq : q = p
        · simp [hq, hmem, hstate]
        · simp [hq, hmem]
      · by_cases hq : q = p
        · simp [hq, hp]
        · simp [hq, hother]
  case h_3 p old s heq =>
    have hpop := pop_tidy h heq rfl
    rw [heq] at hbased ⊢
    -- a process that is told to exit was not called when it was told
    exact unlink_tidy ⟨hpop.chain, hpop.nodup, hbased.1, fun q _ => hpop.called q, hpop.based⟩
  case h_4 => cases hrun

omit [Fintype P] in
theorem goOn_tidy (h : Tidy w) (hq : QueueOk c w) (hrun : w.threadRuns = false)
    (hpoll : ∀ p, w.nextPoll = some p → w.needspoll p = true → w.state p ≠ .none) :
    ∃ w', w.goOn c = some w' ∧ Tidy w' ∧ QueueOk c w' := by
  have hbased := h.based
  have hpop := fun f s => pop_tidy (f := f) (s := s) h
  unfold threadRuns at hrun
  unfold nextPoll at hpoll
  unfold goOn
  cases hs : w.stack with
  | nil =>
    rw [hs] at hrun
    cases hrun
  | cons f s =>
    rw [hs] at hrun hpoll hbased
    cases f with
    | called p ev data => cases hrun
    | exiting p old => cases hrun
    | exited q p old => exact ⟨_, rfl, exitedFrom_tidy (hpop _ _ hs rfl) _, hq.congr (exitedFrom_log _)⟩
    | synch caller =>
      have hrest := hpop _ _ hs rfl
      exact ⟨_, rfl, ⟨hrest.chain, hrest.nodup, hrest.called, hrest.based⟩, hq.congr rfl⟩
    | poll p => exact ⟨_, rfl, pollFrom_tidy (hpop _ _ hs rfl) hbased.1 hpoll, hq.congr (pollFrom_log _)⟩
    -- the event that is taken was accepted, so that it is not the initial one
    | event =>
      have hq' : QueueOk c { w with stack := s } := hq.congr rfl
      exact ⟨_, rfl, doEvent_tidy (hpop _ _ hs rfl) hbased.1 fun e q => hq'.taken_ne, hq'.doEvent⟩
    | broadcast p done ev data =>
      have hrest := hpop _ _ hs rfl
      cases done with
      | true => exact ⟨_, rfl, broadcastFrom_tidy hrest hbased.1 _, hq.congr (broadcastFrom_log _)⟩
      | false =>
        exact ⟨_, rfl, callProcess_tidy ⟨hrest.chain, hrest.nodup, hrest.called, hbased.1, hrest.based⟩,
          hq.congr callProcess_log⟩

instance (w : ProcessWorld P D) : ∀ a, Decidable (w.Allowed a)
  | .post _ | .exit _ | .ret _ | .kernel => inferInstanceAs (Decidable (_ ∧ _))
  | .poll _ => inferInstanceAs (Decidable True)
  | .start _ _ | .postSynch _ _ _ | .context _ | .run => inferInstanceAs (Decidable (_ = _))

theorem step_tidy (h : Tidy w) (hq : QueueOk c w) {a : ProcessAction P D} (ha : w.Allowed a) :
    ∃ w', w.step c a = some w' ∧ Tidy w' ∧ QueueOk c w' := by
  have hkeep : ∀ {r : Option (ProcessWorld P D)}, (∃ w', r = some w' ∧ Tidy w' ∧ w'.log = w.log) →
      ∃ w', r = some w' ∧ Tidy w' ∧ QueueOk c w' := by
    rintro r ⟨w', rfl, ht, hl⟩
    exact ⟨w', rfl, ht, hq.congr hl⟩
  cases a with
  -- a post changes the queue alone; most other calls leave it
  | post e =>
    refine ⟨_, if_pos ha.1, ?_, hq.post ha.2⟩
    unfold processPost
    split
    · exact h
    · exact ⟨h.chain, h.nodup, h.called, h.based⟩
  | poll p => exact hkeep ⟨_, rfl, processPoll_tidy h⟩
  | start p data =>
    have hs : w.step c (.start p data) = w.processStart c p data := if_pos ha
    rw [hs]
    exact hkeep (processStart_tidy h)
  | postSynch p ev data =>
    have hpush : Tidy (w.push (.synch w.current)) := ⟨h.chain, h.nodup, h.called, h.based⟩
    exact hkeep ⟨_, if_pos ha, callProcess_tidy hpush, callProcess_log⟩
  | exit p =>
    have hs : w.step c (.exit p) = w.exitProcess c p w.current := if_pos ha.1
    rw [hs]
    refine hkeep (exitProcess_tidy ⟨h.chain, h.nodup, ha.2, fun q _ => h.called q, h.based⟩ (.inr fun hp => ?_))
    exact ha.2 ((h.called p).2 hp)
  | context p => exact hkeep ⟨_, if_pos ha, ⟨h.chain, h.nodup, h.called, h.based⟩, rfl⟩
  | ret ended => exact hkeep (returned_tidy h ha.1 ha.2 ended)
  | run => exact hkeep ⟨_, if_pos ha, processRun_tidy h (List.isEmpty_iff.1 ha)⟩
  | kernel => exact goOn_tidy h hq ha.1 ha.2

theorem numEvents_bounds : 0 < (32 : UInt8).toNat ∧ (32 : UInt8).toNat ≤ 128 := by decide

def twoProcesses : ProcessConf (Fin 2) Unit :=
  ⟨32, numEvents_bounds.1, numEvents_bounds.2, fun _ => true, (), fun _ => ()⟩

end ProcessWorld

end

end Contiki.Core

/-
Event timers as etimer.c keeps them: the list of the timers through their next pointers, the cached
next expiration, the handler of etimer_process. A program has `n` timers and a clock of `w` bits; a
loop over the list that meets more than `n` timers never ends and has no result.
-/
import Contiki.Lib.Linked

namespace Contiki.Etimer

open Contiki.Lib

scoped instance finLawful (n : Nat) : LawfulBEq (Fin n) := inferInstance

/-- Processes by their address. -/
abbrev Process := Nat

/-- `struct etimer` with its `struct timer`; `p` is none for `PROCESS_NONE`. -/
structure Timer (n w : Nat) where
  start : BitVec w
  interval : BitVec w
  next : Option (Fin n)
  p : Option Process

/-- The timers, `timerlist`, `next_expiration` and the clock. -/
structure State (n w : Nat) where
  timers : Fin n → Timer n w
  timerlist : Option (Fin n)
  nextExpiration : BitVec w
  clock : BitVec w

variable {n w : Nat}

def State.next (s : State n w) (t : Fin n) : Option (Fin n) := (s.timers t).next

def State.set (s : State n w) (t : Fin n) (v : Timer n w) : State n w :=
  { s with timers := Function.update s.timers t v }

def State.list (s : State n w) : Option (List (Fin n)) := follow s.next n s.timerlist

/-- The link to `t`, in the timer before it or in `timerlist`, set to what follows `t`. -/
@[grind =]
def State.unlink (s : State n w) (before : Option (Fin n)) (t : Fin n) : State n w :=
  match before with
  | none => { s with timerlist := s.next t }
  | some u => s.set u { s.timers u with next := s.next t }

/-! ## timer.c -/

def timerSet (clock : BitVec w) (t : Timer n w) (interval : BitVec w) : Timer n w :=
  { t with interval := interval, start := clock }

def timerExpired (clock : BitVec w) (t : Timer n w) : Bool :=
  let diff := (clock - t.start) + 1
  t.interval < diff

def timerReset (clock : BitVec w) (t : Timer n w) : Timer n w :=
  if timerExpired clock t then { t with start := t.start + t.interval } else t

def timerRestart (clock : BitVec w) (t : Timer n w) : Timer n w := { t with start := clock }

def etimerExpirationTime (t : Timer n w) : BitVec w := t.start + t.interval

/-! ## The list -/

/-- The expression `t->timer.start + t->timer.interval - now`. -/
def State.dist (s : State n w) (t : Fin n) : BitVec w := etimerExpirationTime (s.timers t) - s.clock

def updateTime (s : State n w) : Option (State n w) := do
  match ← s.list with
  | [] => return { s with nextExpiration := 0 }
  | t :: rest =>
    let tdist := rest.foldl (fun tdist t => if s.dist t < tdist then s.dist t else tdist) (s.dist t)
    return { s with nextExpiration := s.clock + tdist }

/-- The search of `add_timer`, which is made only for a timer with an owner. -/
def State.find (s : State n w) (timer : Fin n) : Option Bool :=
  if (s.timers timer).p ≠ none then s.list.map fun l => decide (timer ∈ l) else some false

/-- `add_timer`, called with the given `PROCESS_CURRENT()`. -/
def addTimer (current : Option Process) (timer : Fin n) (s : State n w) : Option (State n w) := do
  let found ← s.find timer
  let s := s.set timer { s.timers timer with p := current }
  if found then updateTime s
  else
    let s := s.set timer { s.timers timer with next := s.timerlist }
    updateTime { s with timerlist := some timer }

def etimerSet (current : Option Process) (et : Fin n) (interval : BitVec w) (s : State n w) : Option (State n w) :=
  addTimer current et (s.set et (timerSet s.clock (s.timers et) interval))

def etimerResetWithNewInterval (current : Option Process) (et : Fin n) (interval : BitVec w) (s : State n w) :
    Option (State n w) :=
  addTimer current et (s.set et { timerReset s.clock (s.timers et) with interval := interval })

def etimerReset (current : Option Process) (et : Fin n) (s : State n w) : Option (State n w) :=
  addTimer current et (s.set et (timerReset s.clock (s.timers et)))

def etimerRestart (current : Option Process) (et : Fin n) (s : State n w) : Option (State n w) :=
  addTimer current et (s.set et (timerRestart s.clock (s.timers et)))

def etimerAdjust (et : Fin n) (timediff : Int) (s : State n w) : Option (State n w) :=
  updateTime (s.set et { s.timers et with start := (s.timers et).start + BitVec.ofInt w timediff })

def etimerNextExpirationTime (s : State n w) : BitVec w := if s.timerlist ≠ none then s.nextExpiration else 0

/-- The first part of `etimer_stop`. -/
def takeOut (et : Fin n) (s : State n w) : Option (State n w) :=
  if s.timerlist = some et then updateTime (s.unlink none et)
  else do
    let l ← s.list
    match l.find? fun t => s.next t = some et with
    | none => return s
    | some t => updateTime (s.unlink (some t) et)

def etimerStop (et : Fin n) (s : State n w) : Option (State n w) := do
  let s ← takeOut et s
  return s.set et { s.timers et with next := none, p := none }

/-! ## The handler of etimer_process -/

/-- `while(timerlist != NULL && timerlist->p == p)`. -/
@[grind =]
def dropOwned (p : Process) : (fuel : Nat) → State n w → Option (State n w)
  | 0, s => if s.timerlist = none then some s else none
  | k + 1, s =>
    match s.timerlist with
    | none => some s
    | some t => if (s.timers t).p = some p then dropOwned p k (s.unlink none t) else some s

/-- `while(t->next != NULL)`. -/
@[grind =]
def unlinkOwned (p : Process) : (fuel : Nat) → (t : Fin n) → State n w → Option (State n w)
  | 0, _, _ => none
  | k + 1, t, s =>
    match s.next t with
    | none => some s
    | some v =>
      if (s.timers v).p = some p then unlinkOwned p k t (s.unlink (some t) v)
      else unlinkOwned p k v s

/-- The handler for `PROCESS_EVENT_EXITED` of the process `p`. -/
def etimerExited (p : Process) (s : State n w) : Option (State n w) := do
  let s ← dropOwned p n s
  match s.timerlist with
  | none => return s
  | some t => unlinkOwned p n t s

/-- The loop over the list up to the first timer that has expired and whose event the queue takes, with
the timer before it; `u` is the timer before the first one. -/
@[grind =]
def firstPosted (s : State n w) (free : Nat) : (u : Option (Fin n)) → List (Fin n) → Option (Option (Fin n) × Fin n)
  | _, [] => none
  | u, t :: l => if timerExpired s.clock (s.timers t) ∧ 0 < free then some (u, t) else firstPosted s free (some t) l

/-- The loop from `again` on, when the event queue has `free` places: the state and the events posted,
each with its receiver and its timer. -/
@[grind =]
def pollLoop : (fuel free : Nat) → State n w → Option (State n w × List (Option Process × Fin n))
  | 0, _, _ => none
  | k + 1, free, s => do
    let l ← s.list
    match firstPosted s free none l with
    | none => return (s, [])
    | some (u, t) =>
      let posted := ((s.timers t).p, t)
      let s := s.set t { s.timers t with p := none }
      let s := s.unlink u t
      let s ← updateTime (s.set t { s.timers t with next := none })
      let (s, events) ← pollLoop k (free - 1) s
      return (s, posted :: events)

/-- The handler for `PROCESS_EVENT_POLL`. -/
def etimerPoll (free : Nat) (s : State n w) : Option (State n w × List (Option Process × Fin n)) :=
  pollLoop (n + 1) free s

end Contiki.Etimer

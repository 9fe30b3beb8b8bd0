/-
The queue buffers of queuebuf.c with swapping. A queuebuf is the index of its block. `swap_id` and `ram_ptr` share their
memory, so that either can be read where the other was written. The swap files are arrays of records, as every offset is a
multiple of the size of a record; what each call of the file system does is an input. A function that reads through
`tmpdata_qbuf` when it is NULL or denotes a block that is not allocated has no result.
-/
import Contiki.Core.Memb

namespace Contiki.Queuebuf

open Contiki.Core

/-! ## Data -/

def NQBUF_FILES : Nat := 4

def NQBUF_PER_FILE : Nat := 256

def NQBUF_ID : Nat := NQBUF_PER_FILE * NQBUF_FILES

/-- The sizes of a configuration, and the number that a pointer to a RAM block gives when it is read as a swap id. -/
structure Config where
  queuebufNum : Nat
  queuebufRamNum : Nat
  packetbufSize : Nat
  ramAddr : Nat → Int

/-- `struct queuebuf_data`. -/
structure QueuebufData (A : Type) where
  data : Nat → UInt8
  len : Nat
  attrs : Nat → UInt16
  addrs : Nat → A

structure Packetbuf (A : Type) where
  bytes : List UInt8
  attrs : Nat → UInt16
  addrs : Nat → A

inductive Location
  | inRam | inCfs
deriving DecidableEq

/-- The memory that `ram_ptr` and `swap_id` share. -/
inductive Pointer
  | ramPtr (block : Nat)
  | swapId (id : Int)
deriving DecidableEq

/-- `struct queuebuf`. -/
structure Qbuf where
  location : Location
  pointer : Pointer

/-- `struct qbuf_file`, with whether `fd` is open and the records of the file. -/
structure QbufFile (A : Type) where
  opened : Bool
  usage : Int
  renewable : Bool
  record : Nat → Option (QueuebufData A)

structure State (A : Type) where
  bufmem : Memb
  buf : Nat → Qbuf
  buframmem : Memb
  ram : Nat → QueuebufData A
  tmpdata : QueuebufData A
  tmpdataQbuf : Option Nat
  nextSwapId : Nat
  qbufFile : Nat → QbufFile A
  renewTimer : Bool

/-- What the file system does in a call: which files can be opened, whether seeking, reading and writing succeed, and what
a read or a write that does not leaves. A write that fails may return less than was asked for, which is no error. -/
structure Cfs (A : Type) where
  opens : Nat → Bool
  loadSeek : Bool
  read : Bool
  readLeft : QueuebufData A
  seek : Bool
  write : Bool
  writeError : Bool
  writeLeft : Option (QueuebufData A)

variable {A : Type}

/-- What is read as `swap_id`. -/
def Qbuf.swapId (cfg : Config) (b : Qbuf) : Int :=
  match b.pointer with
  | .ramPtr block => cfg.ramAddr block
  | .swapId id => id

def State.Live (s : State A) (b : Nat) : Prop := b < s.bufmem.num ∧ s.bufmem.used b = true

instance (s : State A) (b : Nat) : Decidable (s.Live b) := inferInstanceAs (Decidable (_ ∧ _))

def State.setSwapId (s : State A) (b : Nat) (id : Int) : State A :=
  { s with buf := Function.update s.buf b { s.buf b with pointer := .swapId id } }

def State.setFile (s : State A) (file : Nat) (f : QbufFile A) : State A :=
  { s with qbufFile := Function.update s.qbufFile file f }

/-! ## Swap files -/

/-- `qbuf_renew_file`; the old descriptor is not closed. -/
def qbufRenewFile (cfs : Cfs A) (s : State A) (file : Nat) : State A :=
  let f := s.qbufFile file
  s.setFile file
    { opened := cfs.opens file
      usage := 0
      renewable := false
      record := if f.renewable then fun _ => none else f.record }

def queuebufInit (cfg : Config) (cfs : Cfs A) (s : State A) : State A :=
  let s := (List.range NQBUF_FILES).foldl
    (fun s file => qbufRenewFile cfs (s.setFile file { s.qbufFile file with renewable := true }) file) s
  { s with bufmem := .init cfg.queuebufNum, buframmem := .init cfg.queuebufRamNum }

/-- `qbuf_renew_all`, when the timer expires. -/
def qbufRenewAll (cfs : Cfs A) (s : State A) : State A :=
  (List.range NQBUF_FILES).foldl (fun s file => if (s.qbufFile file).renewable then qbufRenewFile cfs s file else s)
    { s with renewTimer := false }

/-- `tmpdata_qbuf->swap_id`. -/
@[grind =]
def tmpdataSwapId (cfg : Config) (s : State A) : Option Int :=
  match s.tmpdataQbuf with
  | none => none
  | some t => if s.Live t then some ((s.buf t).swapId cfg) else none

/-- The end of `queuebuf_remove_from_file`: the cached queuebuf loses the id if it is its own. -/
def forgetSwapId (cfg : Config) (s : State A) (swapId : Int) : Option (State A) :=
  match s.tmpdataQbuf, tmpdataSwapId cfg s with
  | some t, some id => if id = swapId then some (s.setSwapId t (-1)) else some s
  | _, _ => none

/-- `queuebuf_remove_from_file`; what is no swap id is in no file. -/
def queuebufRemoveFromFile (cfg : Config) (s : State A) (swapId : Int) : Option (State A) :=
  if swapId = -1 then
    some s
  else if swapId < 0 ∨ swapId ≥ NQBUF_ID then
    none
  else
    let file := swapId.toNat / NQBUF_PER_FILE
    let f : QbufFile A := { s.qbufFile file with usage := (s.qbufFile file).usage - 1 }
    let s : State A := if f.usage = 0 ∧ file ≠ s.nextSwapId / NQBUF_PER_FILE then
        { s.setFile file { f with renewable := true } with renewTimer := true }
      else s.setFile file f
    forgetSwapId cfg s swapId

/-- `get_new_swap_id`; no id stands for -1. -/
def getNewSwapId (cfs : Cfs A) (s : State A) : State A × Option Nat :=
  let file := s.nextSwapId / NQBUF_PER_FILE
  let first := s.nextSwapId % NQBUF_PER_FILE = 0
  let s := if first ∧ (s.qbufFile file).renewable then qbufRenewFile cfs s file else s
  if first ∧ (s.qbufFile file).usage > 0 then
    (s, none)
  else
    ({ s.setFile file { s.qbufFile file with usage := (s.qbufFile file).usage + 1 } with
        nextSwapId := (s.nextSwapId + 1) % NQBUF_ID }, some s.nextSwapId)

/-- The write of `tmpdata` to its file, with whether 0 is returned. -/
def writeTmpdata (cfs : Cfs A) (s : State A) (swapId : Nat) : State A × Bool :=
  let file := swapId / NQBUF_PER_FILE
  let f := s.qbufFile file
  if ¬ (f.opened ∧ cfs.seek) then
    (s, false)
  else
    (s.setFile file { f with
        record := Function.update f.record (swapId % NQBUF_PER_FILE) (if cfs.write then some s.tmpdata else cfs.writeLeft) },
      cfs.write || !cfs.writeError)

/-- `queuebuf_flush_tmpdata`, with whether it returns 0. -/
@[grind =]
def queuebufFlushTmpdata (cfg : Config) (cfs : Cfs A) (s : State A) : Option (State A × Bool) :=
  match s.tmpdataQbuf, tmpdataSwapId cfg s with
  | none, _ => some (s, true)
  | some _, none => none
  | some t, some id =>
    match queuebufRemoveFromFile cfg s id with
    | none => none
    | some s =>
      let r := getNewSwapId cfs s
      match r.2 with
      | none => some (r.1.setSwapId t (-1), false)
      | some id => some (writeTmpdata cfs (r.1.setSwapId t id) id)

/-! ## Records -/

inductive DataPtr
  | ram (block : Nat)
  | tmpdata

@[grind =]
def State.get (s : State A) : DataPtr → QueuebufData A
  | .ram block => s.ram block
  | .tmpdata => s.tmpdata

def State.set (s : State A) (d : QueuebufData A) : DataPtr → State A
  | .ram block => { s with ram := Function.update s.ram block d }
  | .tmpdata => { s with tmpdata := d }

/-- The record with a swap id is read into `tmpdata`. -/
def readTmpdata (cfs : Cfs A) (s : State A) (swapId : Int) : State A :=
  let f := s.qbufFile (swapId.toNat / NQBUF_PER_FILE)
  let record := f.record (swapId.toNat % NQBUF_PER_FILE)
  { s with tmpdata := if 0 ≤ swapId ∧ f.opened ∧ cfs.loadSeek ∧ cfs.read then record.getD cfs.readLeft else cfs.readLeft }

def queuebufLoadToRam (cfg : Config) (cfs : Cfs A) (s : State A) (b : Nat) : Option (State A × DataPtr) :=
  match (s.buf b).location with
  | .inRam => match (s.buf b).pointer with
    | .ramPtr block => some (s, .ram block)
    | .swapId _ => none
  | .inCfs =>
    match s.tmpdataQbuf, tmpdataSwapId cfg s with
    | some _, none => none
    | none, _ => some (readTmpdata cfs { s with tmpdataQbuf := some b } ((s.buf b).swapId cfg), .tmpdata)
    | some _, some id =>
      if id = (s.buf b).swapId cfg then some (s, .tmpdata)
      else some (readTmpdata cfs { s with tmpdataQbuf := some b } ((s.buf b).swapId cfg), .tmpdata)

/-- `packetbuf_copyto`, with the length it returns stored. -/
def packetbufCopyto (cfg : Config) (pb : Packetbuf A) (d : QueuebufData A) : QueuebufData A :=
  if pb.bytes.length > cfg.packetbufSize then { d with len := 0 }
  else { d with data := fun i => pb.bytes.getD i (d.data i), len := pb.bytes.length }

def packetbufAttrCopyto (pb : Packetbuf A) (d : QueuebufData A) : QueuebufData A :=
  { d with attrs := pb.attrs, addrs := pb.addrs }

/-! ## The module -/

def newSwapped (s : State A) (b : Nat) (bufmem : Memb) (d : QueuebufData A) : State A :=
  { s with
    bufmem := bufmem
    buf := Function.update s.buf b ⟨.inCfs, .swapId (-1)⟩
    tmpdataQbuf := some b
    tmpdata := d }

/-- `queuebuf_new_from_packetbuf`, with the queuebuf it returns. -/
def queuebufNewFromPacketbuf (cfg : Config) (cfs : Cfs A) (pb : Packetbuf A) (s : State A) :
    Option (State A × Option Nat) :=
  match s.bufmem.alloc with
  | none => some (s, none)
  | some (b, bufmem) =>
    match s.buframmem.alloc with
    | some (block, buframmem) =>
      some ({ s with
        bufmem := bufmem
        buframmem := buframmem
        buf := Function.update s.buf b ⟨.inRam, .ramPtr block⟩
        ram := Function.update s.ram block (packetbufAttrCopyto pb (packetbufCopyto cfg pb (s.ram block))) }, some b)
    | none =>
      match queuebufFlushTmpdata cfg cfs
          (newSwapped s b bufmem (packetbufAttrCopyto pb (packetbufCopyto cfg pb s.tmpdata))) with
      | none => none
      | some (s, true) => some (s, some b)
      | some (s, false) => some ({ s with bufmem := s.bufmem.free b }, none)

def flushIfSwapped (cfg : Config) (cfs : Cfs A) (b : Nat) (s : State A) : Option (State A) :=
  if (s.buf b).location = .inCfs then (queuebufFlushTmpdata cfg cfs s).map Prod.fst else some s

def queuebufUpdateAttrFromPacketbuf (cfg : Config) (cfs : Cfs A) (pb : Packetbuf A) (s : State A) (b : Nat) :
    Option (State A) :=
  match queuebufLoadToRam cfg cfs s b with
  | none => none
  | some (s, ptr) => flushIfSwapped cfg cfs b (s.set (packetbufAttrCopyto pb (s.get ptr)) ptr)

def queuebufUpdateFromPacketbuf (cfg : Config) (cfs : Cfs A) (pb : Packetbuf A) (s : State A) (b : Nat) :
    Option (State A) :=
  match queuebufLoadToRam cfg cfs s b with
  | none => none
  | some (s, ptr) => flushIfSwapped cfg cfs b (s.set (packetbufCopyto cfg pb (packetbufAttrCopyto pb (s.get ptr))) ptr)

/-- `queuebuf_free`; the check that the pointer is in the pool is the bound on the index. -/
def queuebufFree (cfg : Config) (s : State A) (b : Nat) : Option (State A) :=
  if b < s.bufmem.num then
    match (s.buf b).location, (s.buf b).pointer with
    | .inRam, .ramPtr block => some { s with buframmem := s.buframmem.free block, bufmem := s.bufmem.free b }
    -- what is no pointer to a RAM block is ignored by `memb_free`
    | .inRam, .swapId _ => some { s with bufmem := s.bufmem.free b }
    | .inCfs, _ => (queuebufRemoveFromFile cfg s ((s.buf b).swapId cfg)).map fun s => { s with bufmem := s.bufmem.free b }
  else some s

end Contiki.Queuebuf

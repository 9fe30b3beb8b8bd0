/-
The RPL messages that a node receives (rpl-icmp6.c): DIS, DIO, DAO and DAO-ACK, with the positions of the message that
the handlers read and the blocks that they copy into the fields of the local structures. The IPv6 header is not part of
the message here; single values are assigned to fields of their own type and are not recorded.
-/
import Contiki.Lib.Loop
import Contiki.Lib.Cursor
import Contiki.Core.Uip

namespace Contiki.RplLite.Icmp6

open Contiki.Lib Contiki.Core

/-! ## Messages -/

/-- What follows the ICMPv6 header, and how much of it belongs to the message. -/
structure Message where
  buf : Mem
  length : UInt16

def Message.size (m : Message) : Nat := m.length.toNat

/-- A block copied into a field; all such fields are IPv6 addresses. -/
inductive Block where
  | dagId
  | destinationPrefix
  | prefixInfo
  | daoPrefix
  | parentAddr
  deriving DecidableEq, Repr

/-- `sizeof` of the field. -/
def Block.size (_ : Block) : Nat := 16

structure Trace where
  reads : List Nat
  blocks : List (Block × Nat)

namespace Trace

def empty : Trace := ⟨[], []⟩

def read (a n : Nat) (t : Trace) : Trace := { t with reads := t.reads ++ List.range' a n }

/-- `memcpy` of `n` bytes at `a` into a field. -/
def copy (f : Block) (a n : Nat) (t : Trace) : Trace := { t.read a n with blocks := t.blocks ++ [(f, n)] }

end Trace

def get16 (buf : Mem) (pos : Nat) : UInt16 := (buf pos).toUInt16 <<< 8 ||| (buf (pos + 1)).toUInt16

def get32 (buf : Mem) (pos : Nat) : UInt32 :=
  (buf pos).toUInt32 <<< 24 ||| (buf (pos + 1)).toUInt32 <<< 16 ||| (buf (pos + 2)).toUInt32 <<< 8 ||| (buf (pos + 3)).toUInt32

/-- The first `n` bytes of an address are set. -/
def copyAddr (buf : Mem) (a n : Nat) (addr : Ipaddr) : Ipaddr := fun k => if k.val < n then buf (a + k.val) else addr k

def prefixBytes (length : UInt8) : Nat := (length.toNat + 7) / 8

def optionPad1 : UInt8 := 0
def optionDagMetricContainer : UInt8 := 2
def optionRouteInfo : UInt8 := 3
def optionDagConf : UInt8 := 4
def optionTarget : UInt8 := 5
def optionTransit : UInt8 := 6
def optionPrefixInfo : UInt8 := 8

def dagMcNone : UInt8 := 0
def dagMcEnergy : UInt8 := 2
def dagMcEtx : UInt8 := 7

/-! ## Options -/

def optionLen (buf : Mem) (i : Nat) : Nat := if buf i = optionPad1 then 1 else 2 + (buf (i + 1)).toNat

section

variable {δ : Type}

/-- The loop over the options: the position, what was accessed, and the local structure. -/
structure Walk (δ : Type) where
  pos : Nat
  trace : Trace
  data : δ

/-- What a handler does: what it accesses, and the structure that it calls `rpl_process_…` with. That call is all that
changes the state of RPL; without a structure the message is discarded. -/
structure Handled (δ : Type) where
  trace : Trace
  passed : Option δ

/-- A round of the loop over the options that `dio_input` and `dao_input` share; their `switch` gets the position and the
length of the option, and gives no structure when it discards the message. -/
def optionStep (m : Message) (switch : Nat → Nat → Trace → δ → Trace × Option δ) (w : Walk δ) : Walk δ ⊕ Handled δ :=
  if w.pos < m.size then
    let t := w.trace.read w.pos 1
    if m.buf w.pos ≠ optionPad1 ∧ m.size ≤ w.pos + 1 then
      .inr ⟨t, none⟩
    else
      let t := if m.buf w.pos = optionPad1 then t else t.read (w.pos + 1) 1
      let len := optionLen m.buf w.pos
      if m.size < len + w.pos then
        .inr ⟨t, none⟩
      else
        let r := switch w.pos len t w.data
        r.2.elim (.inr ⟨r.1, none⟩) fun d => .inl ⟨w.pos + len, r.1, d⟩
  else
    .inr ⟨w.trace, some w.data⟩

end

/-! ## DIO -/

inductive MetricObject where
  | etx (etx : UInt16)
  | energy (flags energyEst : UInt8)
  deriving DecidableEq, Repr

/-- `rpl_metric_container_t`. -/
structure MetricContainer where
  type : UInt8
  flags : UInt8
  aggr : UInt8
  prec : UInt8
  length : UInt8
  obj : MetricObject

/-- `rpl_prefix_t`. -/
structure Prefix where
  addr : Ipaddr
  lifetime : UInt32
  length : UInt8
  flags : UInt8

def zeroAddr : Ipaddr := fun _ => 0

def Prefix.zero : Prefix := ⟨zeroAddr, 0, 0, 0⟩

/-- What the options of a DIO say of the configuration of the DAG. -/
structure DagConf where
  intdoubl : UInt8
  intmin : UInt8
  redund : UInt8
  maxRankinc : UInt16
  minHoprankinc : UInt16
  ocp : UInt16
  defaultLifetime : UInt8
  lifetimeUnit : UInt16

/-- `rpl_dio_t`. -/
structure Dio where
  dagId : Ipaddr
  rank : UInt16
  grounded : UInt8
  mop : UInt8
  preference : UInt8
  version : UInt8
  instanceId : UInt8
  dtsn : UInt8
  conf : DagConf
  destinationPrefix : Prefix
  prefixInfo : Prefix
  mc : MetricContainer

def dioMetricContainer (buf : Mem) (i len : Nat) (t : Trace) (dio : Dio) : Trace × Option Dio :=
  if len < 6 then
    (t, none)
  else
    let t := t.read (i + 2) 4
    let mc : MetricContainer :=
      { type := buf (i + 2)
        flags := buf (i + 3) <<< 1 ||| buf (i + 4) >>> 7
        aggr := (buf (i + 4) >>> 4) &&& 0x3
        prec := buf (i + 4) &&& 0xf
        length := buf (i + 5)
        obj := dio.mc.obj }
    if mc.type = dagMcNone then
      (t, some { dio with mc := mc })
    else if mc.type = dagMcEtx then
      if len < 8 then (t, none)
      else (t.read (i + 6) 2, some { dio with mc := { mc with obj := .etx (get16 buf (i + 6)) } })
    else if mc.type = dagMcEnergy then
      if len < 8 then (t, none)
      else (t.read (i + 6) 2, some { dio with mc := { mc with obj := .energy (buf (i + 6)) (buf (i + 7)) } })
    else
      (t, none)

def dioRouteInfo (buf : Mem) (i len : Nat) (t : Trace) (dio : Dio) : Trace × Option Dio :=
  if len < 8 then
    (t, none)
  else
    let t := t.read (i + 2) 6
    let length := buf (i + 2)
    if prefixBytes length + 8 ≤ len ∧ length ≤ 128 then
      (t.copy .destinationPrefix (i + 8) (prefixBytes length),
        some { dio with destinationPrefix :=
          { addr := copyAddr buf (i + 8) (prefixBytes length) dio.destinationPrefix.addr
            lifetime := get32 buf (i + 4)
            length := length
            flags := buf (i + 3) } })
    else
      (t, none)

def dioDagConf (buf : Mem) (i len : Nat) (t : Trace) (dio : Dio) : Trace × Option Dio :=
  if len ≠ 16 then
    (t, none)
  else
    ((t.read (i + 3) 9).read (i + 13) 3, some { dio with conf :=
      { intdoubl := buf (i + 3)
        intmin := buf (i + 4)
        redund := buf (i + 5)
        maxRankinc := get16 buf (i + 6)
        minHoprankinc := get16 buf (i + 8)
        ocp := get16 buf (i + 10)
        defaultLifetime := buf (i + 13)
        lifetimeUnit := get16 buf (i + 14) } })

def dioPrefixInfo (buf : Mem) (i len : Nat) (t : Trace) (dio : Dio) : Trace × Option Dio :=
  if len ≠ 32 then
    (t, none)
  else
    let t := t.read (i + 2) 1
    if 128 < buf (i + 2) then
      (t, none)
    else
      (((t.read (i + 3) 1).read (i + 8) 4).copy .prefixInfo (i + 16) 16, some { dio with prefixInfo :=
        { addr := copyAddr buf (i + 16) 16 dio.prefixInfo.addr
          lifetime := get32 buf (i + 8)
          length := buf (i + 2)
          flags := buf (i + 3) } })

/-- The `switch` of `dio_input`. -/
def dioOption (buf : Mem) (i len : Nat) (t : Trace) (dio : Dio) : Trace × Option Dio :=
  if buf i = optionDagMetricContainer then dioMetricContainer buf i len t dio
  else if buf i = optionRouteInfo then dioRouteInfo buf i len t dio
  else if buf i = optionDagConf then dioDagConf buf i len t dio
  else if buf i = optionPrefixInfo then dioPrefixInfo buf i len t dio
  else (t, none)

def dioBase (defaults : DagConf) (buf : Mem) : Dio where
  instanceId := buf 0
  version := buf 1
  rank := get16 buf 2
  grounded := buf 4 &&& 0x80
  mop := (buf 4 &&& 0x38) >>> 3
  preference := buf 4 &&& 0x07
  dtsn := buf 5
  dagId := copyAddr buf 8 16 zeroAddr
  conf := defaults
  destinationPrefix := .zero
  prefixInfo := .zero
  mc := ⟨0, 0, 0, 0, 0, .etx 0⟩

/-- `dio_input`, with so many rounds for its loop. -/
def dioInput (defaults : DagConf) (fuel : Nat) (m : Message) : Option (Handled Dio) :=
  if m.size < 8 + 16 then
    some ⟨.empty, none⟩
  else
    loop (optionStep m (dioOption m.buf)) fuel
      ⟨24, (Trace.empty.read 0 6).copy .dagId 8 16, dioBase defaults m.buf⟩

/-! ## DAO -/

/-- What the handlers read of `curr_instance`. -/
structure Instance where
  used : Bool
  instanceId : UInt8
  defaultLifetime : UInt8
  dagId : Ipaddr

/-- `rpl_dao_t`. -/
structure Dao where
  parentAddr : Ipaddr
  prefixAddr : Ipaddr
  sequence : UInt16
  instanceId : UInt8
  lifetime : UInt8
  prefixlen : UInt8
  flags : UInt8

/-- RPL_OPTION_TARGET. Of a copy that is longer than `dao.prefix`, what lies past the field is recorded only. -/
def daoTarget (buf : Mem) (i len : Nat) (t : Trace) (dao : Dao) : Trace × Option Dao :=
  if len < 4 then
    (t, none)
  else
    let t := t.read (i + 3) 1
    let prefixlen := buf (i + 3)
    if 4 + prefixBytes prefixlen ≠ len then
      (t, none)
    else
      (t.copy .daoPrefix (i + 4) (prefixBytes prefixlen),
        some { dao with prefixlen := prefixlen, prefixAddr := copyAddr buf (i + 4) (prefixBytes prefixlen) zeroAddr })

def daoTransit (buf : Mem) (i len : Nat) (t : Trace) (dao : Dao) : Trace × Option Dao :=
  if len < 6 then
    (t, none)
  else
    let t := t.read (i + 5) 1
    let dao := { dao with lifetime := buf (i + 5) }
    if 20 ≤ len then
      (t.copy .parentAddr (i + 6) 16, some { dao with parentAddr := copyAddr buf (i + 6) 16 dao.parentAddr })
    else
      (t, some dao)

/-- The `switch` of `dao_input`. -/
def daoOption (buf : Mem) (i len : Nat) (t : Trace) (dao : Dao) : Trace × Option Dao :=
  if buf i = optionTarget then daoTarget buf i len t dao
  else if buf i = optionTransit then daoTransit buf i len t dao
  else (t, some dao)

def daoBase (inst : Instance) (buf : Mem) : Dao where
  parentAddr := zeroAddr
  prefixAddr := zeroAddr
  sequence := (buf 3).toUInt16
  instanceId := buf 0
  lifetime := inst.defaultLifetime
  prefixlen := 0
  flags := buf 1

def hasDagId (buf : Mem) : Bool := buf 1 &&& 0x40 ≠ 0

def daoOptions (buf : Mem) : Nat := if hasDagId buf then 20 else 4

/-- `dao_input`, with so many rounds for its loop. -/
def daoInput (inst : Instance) (fuel : Nat) (m : Message) : Option (Handled Dao) :=
  let t := Trace.empty.read 0 1
  if inst.used = false ∨ inst.instanceId ≠ m.buf 0 then
    some ⟨t, none⟩
  else if m.size < 4 then
    some ⟨t, none⟩
  else
    let t := (t.read 1 1).read 3 1
    if hasDagId m.buf then
      if m.size < 4 + 16 then
        some ⟨t, none⟩
      else
        let t := t.read 4 16
        if inst.dagId ≠ copyAddr m.buf 4 16 zeroAddr then some ⟨t, none⟩
        else loop (optionStep m (daoOption m.buf)) fuel ⟨20, t, daoBase inst m.buf⟩
    else
      loop (optionStep m (daoOption m.buf)) fuel ⟨4, t, daoBase inst m.buf⟩

/-! ## DAO-ACK and DIS -/

/-- `dao_ack_input`: the sequence number and the status. -/
def daoAckInput (inst : Instance) (m : Message) : Handled (UInt8 × UInt8) :=
  let t := ((Trace.empty.read 0 1).read 2 1).read 3 1
  if inst.used = false ∨ inst.instanceId ≠ m.buf 0 then ⟨t, none⟩ else ⟨t, some (m.buf 2, m.buf 3)⟩

/-- `dis_input` reads nothing of the message. -/
def disInput (inst : Instance) (_ : Message) : Handled Unit :=
  if inst.used then ⟨.empty, some ()⟩ else ⟨.empty, none⟩

end Contiki.RplLite.Icmp6

/-
The 6P packet codec (sixp-pkt.c): message types, command and return codes, the parser with its
length checks, the writer, and the accessor for the CellList field.
-/
import Mathlib.Tactic
import Contiki.Lib.Mem

namespace Contiki.Sixtop

section

/-! ## Types and codes -/

/-- `sixp_pkt_type_t`. -/
inductive PktType where
  | request | response | confirmation | reserved
  deriving DecidableEq, Repr

namespace PktType

def ofBits (n : Nat) : PktType :=
  match n with
  | 0 => .request
  | 1 => .response
  | 2 => .confirmation
  | _ => .reserved

def toByte : PktType → UInt8
  | .request => 0
  | .response => 1
  | .confirmation => 2
  | .reserved => 3

end PktType

/-- `sixp_pkt_code_t`: the union of a command and a return code, read through its `value`. -/
abbrev PktCode := UInt8

namespace Cmd

def add : PktCode := 0x01
def delete : PktCode := 0x02
def relocate : PktCode := 0x03
def count : PktCode := 0x04
def list : PktCode := 0x05
def signal : PktCode := 0x06
def clear : PktCode := 0x07

end Cmd

namespace Rc

def success : PktCode := 0x00
def eol : PktCode := 0x01
def err : PktCode := 0x02
def reset : PktCode := 0x03
def errVersion : PktCode := 0x04
def errSfid : PktCode := 0x05
def errSeqnum : PktCode := 0x06
def errCelllist : PktCode := 0x07
def errBusy : PktCode := 0x08
def errLocked : PktCode := 0x09

end Rc

def sixpPktVersion : UInt8 := 0x00

def packetbufSize : Nat := 128

/-- `sixp_pkt_t`; a `body` of `none` is the NULL pointer with `body_len` 0. -/
structure Pkt where
  version : UInt8
  type : PktType
  code : PktCode
  sfid : UInt8
  seqno : UInt8
  body : Option (List UInt8)
  deriving DecidableEq, Repr

/-- The packet `memset` to zero. -/
def Pkt.zero : Pkt := ⟨0, .request, 0, 0, 0, none⟩

/-! ## Parsing and writing -/

-- sizeof metadata 2, cell_options 1, num_cells 1, reserved 1, offset 2, max_num_cells 2
/-- The length checks `sixp_pkt_parse` makes on a request's "Other Fields". -/
def requestLenOk (cmd : PktCode) (len : Nat) : Bool :=
  if cmd = Cmd.add ∨ cmd = Cmd.delete then decide (2 + 1 + 1 ≤ len ∧ len % 4 = 0)
  else if cmd = Cmd.relocate then decide (2 + 1 + 1 ≤ len ∧ len % 4 = 0)
  else if cmd = Cmd.count then decide (len = 2 + 1)
  else if cmd = Cmd.list then decide (len = 2 + 1 + 1 + 2 + 2)
  else if cmd = Cmd.signal then decide (2 ≤ len)
  else if cmd = Cmd.clear then decide (len = 2)
  else false

def responseLenOk (rc : PktCode) (len : Nat) : Bool :=
  if rc = Rc.success then true
  else if rc = Rc.eol then decide (len % 4 = 0)
  else if rc = Rc.err ∨ rc = Rc.reset ∨ rc = Rc.errVersion ∨ rc = Rc.errSfid ∨ rc = Rc.errSeqnum ∨
      rc = Rc.errCelllist ∨ rc = Rc.errBusy ∨ rc = Rc.errLocked then decide (len = 0)
  else false

def bodyLenOk (type : PktType) (code : PktCode) (len : Nat) : Bool :=
  match type with
  | .request => requestLenOk code len
  | .response | .confirmation => responseLenOk code len
  | .reserved => false

/-- `sixp_pkt_parse`: whether it returns 0, and what it leaves in `*pkt`, which the caller looks
at after a failure too. -/
@[grind =]
def sixpPktParse : List UInt8 → Bool × Pkt
  | b0 :: b1 :: b2 :: b3 :: body =>
    let hdr : Pkt := ⟨b0 &&& 0x0f, PktType.ofBits ((b0 &&& 0x30) >>> 4).toNat, b1, b2, b3, none⟩
    if hdr.version ≠ sixpPktVersion then (false, hdr)
    else if bodyLenOk hdr.type hdr.code body.length then (true, { hdr with body := some body })
    else (false, hdr)
  | _ => (false, Pkt.zero)

/-- `sixp_pkt_create`: the bytes left in packetbuf, or nothing when it returns -1. -/
@[grind =]
def sixpPktCreate (type : PktType) (code : PktCode) (sfid seqno : UInt8) (body : Option (List UInt8)) :
    Option (List UInt8) :=
  match body with
  | some [] => none
  | body =>
    let bytes := body.getD []
    if packetbufSize < bytes.length then none
    else some ((type.toByte <<< 4 ||| sixpPktVersion) :: code :: sfid :: seqno :: bytes)

/-! ## The CellList field -/

def getCellListOffset (type : PktType) (code : PktCode) : Option Nat :=
  if type = .request ∧ (code = Cmd.add ∨ code = Cmd.delete) then some (2 + 1 + 1)
  else if (type = .response ∨ type = .confirmation) ∧ (code = Rc.success ∨ code = Rc.eol) then some 0
  else none

/-- `sixp_pkt_get_cell_list`: the bytes `*cell_list` points to. -/
def sixpPktGetCellList (type : PktType) (code : PktCode) (body : Option (List UInt8)) : Option (List UInt8) := do
  let body ← body
  let offset ← getCellListOffset type code
  if body.length < offset then none
  else if (body.length - offset) % 4 ≠ 0 then none
  else some (body.drop offset)

end

/-!
The fields of a 6P message body (sixp-pkt.c): where each field stands for a message type and code, and the setters and
getters. A body is the memory behind the `body` pointer, so a call can be seen to read or write past `body_len`; each
call records the ranges of the body that it reads and writes. Lengths and offsets are at most 16 bits wide and are
added as 32-bit values, so they stand as numbers. The host is little-endian.
-/

section

open Contiki.Lib

/-! ## Where the fields stand -/

-- sizeof metadata 2, cell_options 1, num_cells 1, reserved 1, offset 2, max_num_cells 2, cell 4

def getMetadataOffset (type : PktType) (_code : PktCode) : Option Nat :=
  if type = .request then some 0 else none

def getCellOptionsOffset (type : PktType) (code : PktCode) : Option Nat :=
  if type = .request ∧ (code = Cmd.add ∨ code = Cmd.delete ∨ code = Cmd.relocate ∨ code = Cmd.count ∨ code = Cmd.list)
  then some 2 else none

def getNumCellsOffset (type : PktType) (code : PktCode) : Option Nat :=
  if type = .request ∧ (code = Cmd.add ∨ code = Cmd.delete ∨ code = Cmd.relocate) then some (2 + 1) else none

def getReservedOffset (type : PktType) (code : PktCode) : Option Nat :=
  if type = .request ∧ code = Cmd.list then some (2 + 1) else none

def getOffsetOffset (type : PktType) (code : PktCode) : Option Nat :=
  if type = .request ∧ code = Cmd.list then some (2 + 1 + 1) else none

def getMaxNumCellsOffset (type : PktType) (code : PktCode) : Option Nat :=
  if type = .request ∧ code = Cmd.list then some (2 + 1 + 1 + 2) else none

def getRelCellListOffset (type : PktType) (code : PktCode) : Option Nat :=
  if type = .request ∧ code = Cmd.relocate then some (2 + 1 + 1) else none

def getTotalNumCellsOffset (type : PktType) (code : PktCode) : Option Nat :=
  if type = .response ∧ code = Rc.success then some 0 else none

def getPayloadOffset (type : PktType) (code : PktCode) : Option Nat :=
  if type = .request ∧ code = Cmd.signal then some 2
  else if (type = .response ∨ type = .confirmation) ∧ code = Rc.success then some 0
  else none

/-! ## Calls -/

structure Span where
  start : Nat
  len : Nat
  deriving DecidableEq, Repr

/-- What a call leaves: whether it returned 0, the body, the variables of the caller that it was given, and the ranges
of the body it read and wrote. A pointer that is NULL is `none`. -/
structure Res (α : Type) where
  ok : Bool
  body : Option Mem
  out : α
  reads : List Span
  writes : List Span

namespace Res

variable {α β : Type}

def fail (body : Option Mem) (out : α) : Res α := ⟨false, body, out, [], []⟩

def map (f : α → β) (r : Res α) : Res β := ⟨r.ok, r.body, f r.out, r.reads, r.writes⟩

end Res

namespace Body

/-- The end of a setter: the field of `size` bytes at `offset` is written. -/
def putField (offset size v : Nat) (m : Mem) : Res Unit :=
  ⟨true, some (Mem.store size offset v m), (), [], [⟨offset, size⟩]⟩

/-- A setter of a field of `size` bytes. -/
@[grind =]
def setField (offset : Option Nat) (size v : Nat) (body : Option Mem) (bodyLen : Nat) : Res Unit :=
  match body, offset with
  | some m, some offset => if bodyLen < offset + size then Res.fail body () else putField offset size v m
  | _, _ => Res.fail body ()

/-- The end of a getter: the field of `size` bytes at `offset` is read. -/
def takeField {α : Type} (dec : Nat → α) (offset size : Nat) (m : Mem) : Res (Option α) :=
  ⟨true, some m, some (dec (Mem.load size offset m)), [⟨offset, size⟩], []⟩

/-- A getter of a field of `size` bytes; `out` is what the variable for it held. -/
@[grind =]
def getField {α : Type} (dec : Nat → α) (offset : Option Nat) (size : Nat) (out : Option α) (body : Option Mem)
    (bodyLen : Nat) : Res (Option α) :=
  match out, body, offset with
  | some _, some m, some offset => if bodyLen < offset + size then Res.fail body out else takeField dec offset size m
  | _, _, _ => Res.fail body out

section

variable (type : PktType) (code : PktCode)

/-! ### Numbers -/

def sixpPktSetMetadata (metadata : UInt16) : Option Mem → Nat → Res Unit :=
  setField (getMetadataOffset type code) 2 metadata.toNat

def sixpPktGetMetadata (metadata : Option UInt16) : Option Mem → Nat → Res (Option UInt16) :=
  getField UInt16.ofNat (getMetadataOffset type code) 2 metadata

def sixpPktSetCellOptions (cellOptions : UInt8) : Option Mem → Nat → Res Unit :=
  setField (getCellOptionsOffset type code) 1 cellOptions.toNat

def sixpPktGetCellOptions (cellOptions : Option UInt8) : Option Mem → Nat → Res (Option UInt8) :=
  getField UInt8.ofNat (getCellOptionsOffset type code) 1 cellOptions

/-- `sixp_pkt_set_num_cells`, which does not look at `body_len`. -/
def sixpPktSetNumCells (numCells : UInt8) (body : Option Mem) (_bodyLen : Nat) : Res Unit :=
  match body, getNumCellsOffset type code with
  | some m, some offset => putField offset 1 numCells.toNat m
  | _, _ => Res.fail body ()

def sixpPktGetNumCells (numCells : Option UInt8) : Option Mem → Nat → Res (Option UInt8) :=
  getField UInt8.ofNat (getNumCellsOffset type code) 1 numCells

def sixpPktSetReserved (reserved : UInt8) : Option Mem → Nat → Res Unit :=
  setField (getReservedOffset type code) 1 reserved.toNat

/-- `sixp_pkt_get_reserved`, which does not look at `body_len`. -/
def sixpPktGetReserved (reserved : Option UInt8) (body : Option Mem) (_bodyLen : Nat) : Res (Option UInt8) :=
  match reserved, body, getReservedOffset type code with
  | some _, some m, some offset => takeField UInt8.ofNat offset 1 m
  | _, _, _ => Res.fail body reserved

def sixpPktSetOffset (cellOffset : UInt16) : Option Mem → Nat → Res Unit :=
  setField (getOffsetOffset type code) 2 cellOffset.toNat

def sixpPktGetOffset (cellOffset : Option UInt16) : Option Mem → Nat → Res (Option UInt16) :=
  getField UInt16.ofNat (getOffsetOffset type code) 2 cellOffset

def sixpPktSetMaxNumCells (maxNumCells : UInt16) : Option Mem → Nat → Res Unit :=
  setField (getMaxNumCellsOffset type code) 2 maxNumCells.toNat

def sixpPktGetMaxNumCells (maxNumCells : Option UInt16) : Option Mem → Nat → Res (Option UInt16) :=
  getField UInt16.ofNat (getMaxNumCellsOffset type code) 2 maxNumCells

/-- `sixp_pkt_set_total_num_cells`, which does not look at `body_len`. -/
def sixpPktSetTotalNumCells (totalNumCells : UInt16) (body : Option Mem) (_bodyLen : Nat) : Res Unit :=
  match body, getTotalNumCellsOffset type code with
  | some m, some offset => putField offset 2 totalNumCells.toNat m
  | _, _ => Res.fail body ()

/-- `sixp_pkt_get_total_num_cells`; it reads at the start of the body, which is where the field stands. -/
def sixpPktGetTotalNumCells (totalNumCells : Option UInt16) : Option Mem → Nat → Res (Option UInt16) :=
  getField UInt16.ofNat (getTotalNumCellsOffset type code) 2 totalNumCells

/-! ### Lists of cells -/

def copyList (offset : Nat) (list : Mem) (listLen : Nat) (m : Mem) : Res Unit :=
  if listLen % 4 ≠ 0 then Res.fail (some m) ()
  else ⟨true, some (Mem.paste offset listLen list m), (), [], [⟨offset, listLen⟩]⟩

def setList (offset : Nat) (list : Mem) (listLen : Nat) (m : Mem) (bodyLen : Nat) : Res Unit :=
  if bodyLen < offset + listLen then Res.fail (some m) () else copyList offset list listLen m

/-- The variables a list getter is given: for the start of the list, which is a place in the body, and for its
length. -/
structure ListOut where
  list : Option Nat
  len : Option Nat
  deriving DecidableEq, Repr

def ListOut.set (out : ListOut) (offset len : Nat) : ListOut := ⟨out.list.map fun _ => offset, some len⟩

def sixpPktSetCellList (cellList : Option Mem) (cellListLen cellOffset : Nat) (body : Option Mem) (bodyLen : Nat) :
    Res Unit :=
  match cellList, body, Sixtop.getCellListOffset type code with
  | some list, some m, some offset => setList (offset + cellOffset) list cellListLen m bodyLen
  | _, _, _ => Res.fail body ()

def sixpPktGetCellList (out : ListOut) (body : Option Mem) (bodyLen : Nat) : Res ListOut :=
  match out.len, body, Sixtop.getCellListOffset type code with
  | some _, some _, some offset =>
    if bodyLen < offset then Res.fail body out
    else if (bodyLen - offset) % 4 ≠ 0 then Res.fail body out
    else ⟨true, body, out.set offset (bodyLen - offset), [], []⟩
  | _, _, _ => Res.fail body out

/-- What the functions for the two lists of a RELOCATE request begin with: the NumCells of the body and the place where
the lists start, for which `k` is called; the read of NumCells is added to what it read. -/
@[grind =]
def withNumCells {α : Type} (out : α) (body : Option Mem) (bodyLen : Nat) (k : Nat → Nat → Res α) : Res α :=
  let r := sixpPktGetNumCells type code (some 0) body bodyLen
  match r.ok, r.out, getRelCellListOffset type code with
  | true, some numCells, some offset =>
    let r' := k numCells.toNat offset
    { r' with reads := r.reads ++ r'.reads }
  | _, _, _ => { Res.fail body out with reads := r.reads }

@[grind =]
def sixpPktSetRelCellList (relCellList : Option Mem) (relCellListLen cellOffset : Nat) (body : Option Mem)
    (bodyLen : Nat) : Res Unit :=
  match relCellList, body with
  | some list, some m => withNumCells type code () body bodyLen fun numCells offset =>
    let offset := offset + cellOffset
    if bodyLen < offset + relCellListLen then Res.fail body ()
    else if offset + relCellListLen > offset + numCells * 4 then Res.fail body ()
    else copyList offset list relCellListLen m
  | _, _ => Res.fail body ()

def sixpPktGetRelCellList (out : ListOut) (body : Option Mem) (bodyLen : Nat) : Res ListOut :=
  match out.len, body with
  | some _, some _ => withNumCells type code out body bodyLen fun numCells offset =>
    if bodyLen < offset + numCells * 4 then Res.fail body out
    else if (bodyLen - offset) % 4 ≠ 0 then Res.fail body out
    else ⟨true, body, out.set offset (numCells * 4), [], []⟩
  | _, _ => Res.fail body out

def sixpPktSetCandCellList (candCellList : Option Mem) (candCellListLen cellOffset : Nat) (body : Option Mem)
    (bodyLen : Nat) : Res Unit :=
  match candCellList, body with
  | some list, some m => withNumCells type code () body bodyLen fun numCells offset =>
    setList (offset + (cellOffset + numCells * 4)) list candCellListLen m bodyLen
  | _, _ => Res.fail body ()

def sixpPktGetCandCellList (out : ListOut) (body : Option Mem) (bodyLen : Nat) : Res ListOut :=
  match out.len, body with
  | some _, some _ => withNumCells type code out body bodyLen fun numCells offset =>
    let offset := offset + numCells * 4
    if bodyLen < offset then Res.fail body out
    else if (bodyLen - offset) % 4 ≠ 0 then Res.fail body out
    else ⟨true, body, out.set offset (bodyLen - offset), [], []⟩
  | _, _ => Res.fail body out

/-! ### The payload -/

/-- `sixp_pkt_set_payload`, for a payload that is there. -/
def sixpPktSetPayload (payload : Mem) (payloadLen : Nat) (body : Option Mem) (bodyLen : Nat) : Res Unit :=
  match body, getPayloadOffset type code with
  | some m, some offset =>
    if bodyLen < offset + payloadLen then Res.fail body ()
    else ⟨true, some (Mem.paste offset payloadLen payload m), (), [], [⟨offset, payloadLen⟩]⟩
  | _, _ => Res.fail body ()

/-- `sixp_pkt_get_payload`: `buf` is the caller's buffer of `buf_len` bytes, all of which are copied. -/
def sixpPktGetPayload (buf : Option (List UInt8)) (body : Option Mem) (bodyLen : Nat) : Res (Option (List UInt8)) :=
  match buf, body, getPayloadOffset type code with
  | some b, some m, some offset =>
    if (bodyLen : Int) - offset > b.length then Res.fail body buf
    else ⟨true, body, some (Mem.read offset b.length m), [⟨offset, b.length⟩], []⟩
  | _, _, _ => Res.fail body buf

end

end Body

end

end Contiki.Sixtop

/-
The frames of frame802154.c: the fields of a frame, the lengths of its header, and how a header is created and parsed. A
buffer is a memory with the position in it, and the positions read or written are kept, so that a call can be seen to
leave the buffer. Integers of the C code that hold lengths stand as numbers.
-/
import Contiki.Lib.Cursor

namespace Contiki.Frame802154

open Contiki.Lib

scoped instance neZeroEight : NeZero 8 := ⟨by decide⟩

/-! ## Data -/

/-- `LLSEC802154_USES_AUX_HEADER`, `LLSEC802154_USES_EXPLICIT_KEYS` and `LINKADDR_SIZE`. -/
structure Config where
  usesAuxHeader : Bool
  usesExplicitKeys : Bool
  linkaddrSize : Nat

def FRAME802154_ACKFRAME : UInt8 := 2

def FRAME802154_NOADDR : UInt8 := 0

def FRAME802154_SHORTADDRMODE : UInt8 := 2

def FRAME802154_LONGADDRMODE : UInt8 := 3

def FRAME802154_IEEE802154_2015 : UInt8 := 2

def FRAME802154_1_BYTE_KEY_ID_MODE : UInt8 := 1

def FRAME802154_5_BYTE_KEY_ID_MODE : UInt8 := 2

def FRAME802154_9_BYTE_KEY_ID_MODE : UInt8 := 3

/-- `frame802154_fcf_t`. -/
structure Fcf where
  frameType : UInt8
  securityEnabled : UInt8
  framePending : UInt8
  ackRequired : UInt8
  panidCompression : UInt8
  sequenceNumberSuppression : UInt8
  ieListPresent : UInt8
  destAddrMode : UInt8
  frameVersion : UInt8
  srcAddrMode : UInt8
deriving DecidableEq

/-- `frame802154_scf_t`, without the reserved bits. -/
structure Scf where
  securityLevel : UInt8
  keyIdMode : UInt8
  frameCounterSuppression : UInt8
  frameCounterSize : UInt8
deriving DecidableEq

/-- `frame802154_aux_hdr_t`. -/
structure AuxHdr where
  securityControl : Scf
  frameCounter : Fin 4 → UInt8
  keySource : Fin 8 → UInt8
  keyIndex : UInt8
deriving DecidableEq

/-- `frame802154_t`; the payload is where it begins in the buffer. -/
structure Frame where
  destAddr : Fin 8 → UInt8
  srcAddr : Fin 8 → UInt8
  fcf : Fcf
  seq : UInt8
  destPid : UInt16
  srcPid : UInt16
  auxHdr : AuxHdr
  payload : Nat
  payloadLen : Int
deriving DecidableEq

/-- `field_length_t`. -/
structure FieldLength where
  seqnoLen : Nat
  destPidLen : Nat
  destAddrLen : Nat
  srcPidLen : Nat
  srcAddrLen : Nat
  auxSecLen : Nat
deriving DecidableEq

/-! ## Lengths -/

def addrLen (mode : UInt8) : Nat :=
  if mode = FRAME802154_SHORTADDRMODE then 2
  else if mode = FRAME802154_LONGADDRMODE then 8
  else 0

def getKeyIdLen (keyIdMode : UInt8) : Nat :=
  if keyIdMode = FRAME802154_1_BYTE_KEY_ID_MODE then 1
  else if keyIdMode = FRAME802154_5_BYTE_KEY_ID_MODE then 5
  else if keyIdMode = FRAME802154_9_BYTE_KEY_ID_MODE then 9
  else 0

/-- `frame802154_has_panid`: whether there is a source PAN ID, and whether there is a destination PAN ID. -/
def frame802154HasPanid (fcf : Fcf) : Bool × Bool :=
  if fcf.frameVersion = FRAME802154_IEEE802154_2015 then
    let dest :=
      (fcf.destAddrMode = FRAME802154_NOADDR ∧ fcf.srcAddrMode = FRAME802154_NOADDR ∧ fcf.panidCompression = 1) ∨
      (fcf.destAddrMode ≠ FRAME802154_NOADDR ∧ fcf.srcAddrMode = FRAME802154_NOADDR ∧ fcf.panidCompression = 0) ∨
      (fcf.destAddrMode = FRAME802154_LONGADDRMODE ∧ fcf.srcAddrMode = FRAME802154_LONGADDRMODE ∧
        fcf.panidCompression = 0) ∨
      ((fcf.destAddrMode = FRAME802154_SHORTADDRMODE ∧ fcf.srcAddrMode ≠ FRAME802154_NOADDR) ∨
        (fcf.destAddrMode ≠ FRAME802154_NOADDR ∧ fcf.srcAddrMode = FRAME802154_SHORTADDRMODE))
    let src :=
      fcf.panidCompression = 0 ∧
      ((fcf.destAddrMode = FRAME802154_NOADDR ∧ fcf.srcAddrMode = FRAME802154_LONGADDRMODE) ∨
        (fcf.destAddrMode = FRAME802154_NOADDR ∧ fcf.srcAddrMode = FRAME802154_SHORTADDRMODE) ∨
        (fcf.destAddrMode = FRAME802154_SHORTADDRMODE ∧ fcf.srcAddrMode = FRAME802154_SHORTADDRMODE) ∨
        (fcf.destAddrMode = FRAME802154_SHORTADDRMODE ∧ fcf.srcAddrMode = FRAME802154_LONGADDRMODE) ∨
        (fcf.destAddrMode = FRAME802154_LONGADDRMODE ∧ fcf.srcAddrMode = FRAME802154_SHORTADDRMODE))
    (decide src, decide dest)
  else if fcf.frameType ≠ FRAME802154_ACKFRAME then
    (decide (fcf.panidCompression = 0 ∧ fcf.srcAddrMode &&& 3 ≠ 0), decide (fcf.destAddrMode &&& 3 ≠ 0))
  else (false, false)

def auxSecLen (cfg : Config) (scf : Scf) : Nat :=
  1 + (if scf.frameCounterSuppression = 0 then if scf.frameCounterSize = 1 then 5 else 4 else 0) +
    if cfg.usesExplicitKeys then getKeyIdLen scf.keyIdMode else 0

/-- `field_len`, which also sets the PAN ID compression of frames of the versions before 2015. -/
def fieldLen (cfg : Config) (p : Frame) : Frame × FieldLength :=
  let p :=
    if p.fcf.frameVersion < FRAME802154_IEEE802154_2015 then
      { p with fcf := { p.fcf with panidCompression :=
          if p.fcf.destAddrMode &&& 3 ≠ 0 ∧ p.fcf.srcAddrMode &&& 3 ≠ 0 ∧ p.srcPid = p.destPid then 1 else 0 } }
    else p
  let pan := frame802154HasPanid p.fcf
  (p,
    { seqnoLen := if p.fcf.sequenceNumberSuppression &&& 1 = 0 then 1 else 0
      destPidLen := if pan.2 then 2 else 0
      destAddrLen := addrLen (p.fcf.destAddrMode &&& 3)
      srcPidLen := if pan.1 then 2 else 0
      srcAddrLen := addrLen (p.fcf.srcAddrMode &&& 3)
      auxSecLen :=
        if cfg.usesAuxHeader ∧ p.fcf.securityEnabled &&& 1 ≠ 0 then auxSecLen cfg p.auxHdr.securityControl else 0 })

def frame802154Hdrlen (cfg : Config) (p : Frame) : Nat :=
  let flen := (fieldLen cfg p).2
  2 + flen.seqnoLen + flen.destPidLen + flen.destAddrLen + flen.srcPidLen + flen.srcAddrLen + flen.auxSecLen

/-! ## Creating -/

/-- `(x & mask) << shift`. -/
def maskedBits (x mask shift : UInt8) : UInt8 := (x &&& mask) <<< shift

def frame802154CreateFcf (fcf : Fcf) : UInt8 × UInt8 :=
  (maskedBits fcf.frameType 7 0 ||| maskedBits fcf.securityEnabled 1 3 ||| maskedBits fcf.framePending 1 4 |||
      maskedBits fcf.ackRequired 1 5 ||| maskedBits fcf.panidCompression 1 6,
    maskedBits fcf.sequenceNumberSuppression 1 0 ||| maskedBits fcf.ieListPresent 1 1 |||
      maskedBits fcf.destAddrMode 3 2 ||| maskedBits fcf.frameVersion 3 4 ||| maskedBits fcf.srcAddrMode 3 6)

def createScf (cfg : Config) (scf : Scf) : UInt8 :=
  scf.securityLevel ||| (if cfg.usesExplicitKeys then scf.keyIdMode <<< 3 else 0) |||
    scf.frameCounterSuppression <<< 5 ||| scf.frameCounterSize <<< 6

def pidBytes (pid : UInt16) : List UInt8 := [(pid &&& 0xff).toUInt8, (pid >>> 8 &&& 0xff).toUInt8]

/-- The first `len` bytes of an address, the last one first. -/
def addrBytes (addr : Fin 8 → UInt8) (len : Nat) : List UInt8 := ((List.ofFn addr).take len).reverse

/-- The frame counter is written; a counter of five bytes leaves the last one as it is. -/
def createCounter (auxHdr : AuxHdr) (o : Out) : Out :=
  if auxHdr.securityControl.frameCounterSuppression = 0 then
    let o := o.bytes (List.ofFn auxHdr.frameCounter)
    if auxHdr.securityControl.frameCounterSize = 1 then o.skip 1 else o
  else o

def createKey (cfg : Config) (auxHdr : AuxHdr) (o : Out) : Out :=
  if cfg.usesExplicitKeys ∧ auxHdr.securityControl.keyIdMode ≠ 0 then
    let c := (auxHdr.securityControl.keyIdMode.toNat - 1) * 4
    (o.bytes ((List.ofFn auxHdr.keySource).take c)).byte auxHdr.keyIndex
  else o

def createAux (cfg : Config) (auxHdr : AuxHdr) (o : Out) : Out :=
  createKey cfg auxHdr (createCounter auxHdr (o.byte (createScf cfg auxHdr.securityControl)))

/-- `frame802154_create`: the frame as it leaves it, and the buffer with the position it returns. -/
def frame802154Create (cfg : Config) (p : Frame) (buf : Mem) : Frame × Out :=
  let (p, flen) := fieldLen cfg p
  let fcf := frame802154CreateFcf p.fcf
  let o : Out := ⟨buf, .start⟩
  let o := o.bytes [fcf.1, fcf.2]
  let o := if flen.seqnoLen = 1 then o.byte p.seq else o
  let o := if flen.destPidLen = 2 then o.bytes (pidBytes p.destPid) else o
  let o := o.bytes (addrBytes p.destAddr flen.destAddrLen)
  let o := if flen.srcPidLen = 2 then o.bytes (pidBytes p.srcPid) else o
  let o := o.bytes (addrBytes p.srcAddr flen.srcAddrLen)
  let o := if cfg.usesAuxHeader ∧ flen.auxSecLen ≠ 0 then createAux cfg p.auxHdr o else o
  (p, o)

/-! ## Parsing -/

def frame802154ParseFcf (b₀ b₁ : UInt8) : Fcf where
  frameType := b₀ &&& 7
  securityEnabled := b₀ >>> 3 &&& 1
  framePending := b₀ >>> 4 &&& 1
  ackRequired := b₀ >>> 5 &&& 1
  panidCompression := b₀ >>> 6 &&& 1
  sequenceNumberSuppression := b₁ &&& 1
  ieListPresent := b₁ >>> 1 &&& 1
  destAddrMode := b₁ >>> 2 &&& 3
  frameVersion := b₁ >>> 4 &&& 3
  srcAddrMode := b₁ >>> 6 &&& 3

structure Scan where
  cursor : Cursor
  pf : Frame

/-- `p[0] + (p[1] << 8)`. -/
def pidAt (m : Mem) (p : Nat) : UInt16 := UInt16.ofNat ((m p).toNat + ((m (p + 1)).toNat <<< 8))

/-- An address after `linkaddr_null` was copied to it. -/
def nullAddr (cfg : Config) (addr : Fin 8 → UInt8) : Fin 8 → UInt8 :=
  fun i => if i.val < cfg.linkaddrSize then 0 else addr i

/-- The address of the mode at `p`; `addr` is what the variable for it held. -/
def addrAt (cfg : Config) (m : Mem) (p : Nat) (mode : UInt8) (addr : Fin 8 → UInt8) : Fin 8 → UInt8 :=
  if mode = FRAME802154_SHORTADDRMODE then
    Function.update (Function.update (nullAddr cfg addr) 0 (m (p + 1))) 1 (m p)
  else if mode = FRAME802154_LONGADDRMODE then fun c => m (p + (7 - c.val))
  else addr

def parseSeqno (m : Mem) (fcf : Fcf) (s : Scan) : Scan :=
  if fcf.sequenceNumberSuppression = 0 then
    ⟨s.cursor.take 1, { s.pf with seq := m s.cursor.pos }⟩
  else s

def parseDest (cfg : Config) (m : Mem) (fcf : Fcf) (hasDestPanid : Bool) (s : Scan) : Scan :=
  if fcf.destAddrMode ≠ 0 then
    let s : Scan :=
      if hasDestPanid then ⟨s.cursor.take 2, { s.pf with destPid := pidAt m s.cursor.pos }⟩
      else ⟨s.cursor, { s.pf with destPid := 0 }⟩
    ⟨s.cursor.take (addrLen fcf.destAddrMode),
      { s.pf with destAddr := addrAt cfg m s.cursor.pos fcf.destAddrMode s.pf.destAddr }⟩
  else ⟨s.cursor, { s.pf with destAddr := nullAddr cfg s.pf.destAddr, destPid := 0 }⟩

def parseSrc (cfg : Config) (m : Mem) (fcf : Fcf) (hasSrcPanid hasDestPanid : Bool) (s : Scan) : Scan :=
  if fcf.srcAddrMode ≠ 0 then
    let s : Scan :=
      if hasSrcPanid then
        let srcPid := pidAt m s.cursor.pos
        ⟨s.cursor.take 2, { s.pf with srcPid := srcPid, destPid := if hasDestPanid then s.pf.destPid else srcPid }⟩
      else ⟨s.cursor, { s.pf with srcPid := s.pf.destPid }⟩
    ⟨s.cursor.take (addrLen fcf.srcAddrMode),
      { s.pf with srcAddr := addrAt cfg m s.cursor.pos fcf.srcAddrMode s.pf.srcAddr }⟩
  else ⟨s.cursor, { s.pf with srcAddr := nullAddr cfg s.pf.srcAddr, srcPid := 0 }⟩

def parseScf (cfg : Config) (b : UInt8) (scf : Scf) : Scf where
  securityLevel := b &&& 7
  keyIdMode := if cfg.usesExplicitKeys then b >>> 3 &&& 3 else scf.keyIdMode
  frameCounterSuppression := b >>> 5
  frameCounterSize := b >>> 6

/-- The frame counter; of a counter of five bytes the last one is passed. -/
def parseCounter (m : Mem) (scf : Scf) (s : Scan) : Scan :=
  if scf.frameCounterSuppression = 0 then
    let cursor := s.cursor.take 4
    ⟨if scf.frameCounterSize = 1 then cursor.skip 1 else cursor,
      { s.pf with auxHdr := { s.pf.auxHdr with frameCounter := fun i => m (s.cursor.pos + i.val) } }⟩
  else s

def parseKey (cfg : Config) (m : Mem) (scf : Scf) (s : Scan) : Scan :=
  if cfg.usesExplicitKeys ∧ scf.keyIdMode ≠ 0 then
    let c := (scf.keyIdMode.toNat - 1) * 4
    ⟨(s.cursor.take c).take 1, { s.pf with auxHdr := { s.pf.auxHdr with
        keySource := fun i => if i.val < c then m (s.cursor.pos + i.val) else s.pf.auxHdr.keySource i
        keyIndex := m (s.cursor.pos + c) } }⟩
  else s

def parseAux (cfg : Config) (m : Mem) (s : Scan) : Scan :=
  let scf := parseScf cfg (m s.cursor.pos) s.pf.auxHdr.securityControl
  let s : Scan := ⟨s.cursor.take 1, { s.pf with auxHdr := { s.pf.auxHdr with securityControl := scf } }⟩
  parseKey cfg m scf (parseCounter m scf s)

/-- What `frame802154_parse` returns and stores, and the positions it reads. -/
structure Parsed where
  hdrlen : Int
  pf : Frame
  reads : List Nat

def parseAddressing (cfg : Config) (m : Mem) (fcf : Fcf) (s : Scan) : Scan :=
  let s := parseSeqno m fcf s
  let pan := frame802154HasPanid fcf
  let s := parseDest cfg m fcf pan.2 s
  parseSrc cfg m fcf pan.1 pan.2 s

def parseHeader (cfg : Config) (m : Mem) (pf : Frame) : Scan :=
  let fcf := frame802154ParseFcf (m 0) (m 1)
  let s := parseAddressing cfg m fcf ⟨Cursor.start.take 2, { pf with fcf := fcf }⟩
  if cfg.usesAuxHeader ∧ fcf.securityEnabled ≠ 0 then parseAux cfg m s else s

def frame802154Parse (cfg : Config) (m : Mem) (len : Int) (pf : Frame) : Parsed :=
  if len < 2 then ⟨0, pf, []⟩
  else
    let s := parseHeader cfg m pf
    let c := s.cursor.pos
    ⟨if c > len then 0 else c, { s.pf with payloadLen := len - c, payload := c }, s.cursor.log⟩

end Contiki.Frame802154

/-
The information elements of frame802154e-ie.c: their descriptors, the functions that create them, and the parser. A
buffer is a memory with the position in it; the positions that are read or written are kept, and for the parser also the
blocks that it stores a pointer or the fields of, and whether the number of bytes left went below zero. The parser is
given a place for what it finds; without one it returns -1 at once. The host is little-endian.
-/
import Contiki.Lib.Cursor
import Contiki.Lib.Loop
import Contiki.Tsch.Schedule

namespace Contiki.Frame802154e

open Contiki.Lib

/-! ## Data -/

/-- `TSCH_WITH_SIXTOP` and `TSCH_HOPPING_SEQUENCE_MAX_LEN`. -/
structure Config where
  withSixtop : Bool
  hoppingSequenceMaxLen : Nat

def HEADER_IE_ACK_NACK_TIME_CORRECTION : Nat := 0x1e

def HEADER_IE_LIST_TERMINATION_1 : Nat := 0x7e

def HEADER_IE_LIST_TERMINATION_2 : Nat := 0x7f

def PAYLOAD_IE_MLME : Nat := 1

def PAYLOAD_IE_IETF : Nat := 0x5

def PAYLOAD_IE_LIST_TERMINATION : Nat := 0xf

def MLME_SHORT_IE_TSCH_SYNCHRONIZATION : Nat := 0x1a

def MLME_SHORT_IE_TSCH_SLOFTRAME_AND_LINK : Nat := 0x1b

def MLME_SHORT_IE_TSCH_TIMESLOT : Nat := 0x1c

def MLME_LONG_IE_TSCH_CHANNEL_HOPPING_SEQUENCE : Nat := 0x9

/-- `SIXTOP_SUBIE_ID`. -/
def IETF_IE_6TOP : UInt8 := 0xc9

def FRAME802154E_IE_MAX_LINKS : Nat := 4

def tschTsElementsCount : Nat := 12

/-- `struct tsch_slotframe_and_links_link`. -/
structure Link where
  timeslot : UInt16
  channelOffset : UInt16
  linkOptions : UInt8

/-- `struct tsch_slotframe_and_links`. -/
structure SlotframeAndLinks where
  numSlotframes : UInt8
  slotframeHandle : UInt8
  slotframeSize : UInt16
  numLinks : UInt8
  links : Fin FRAME802154E_IE_MAX_LINKS → Link

/-- `struct ieee802154_ies`, without the offset of the synchronization IE; the pointer to the 6top content is a position
in the buffer. -/
structure Ies where
  ieTimeCorrection : Int16
  ieIsNack : UInt8
  iePayloadIeOffset : UInt8
  ieMlmeLen : UInt16
  ieAsn : Tsch.Asn
  ieJoinPriority : UInt8
  ieTschTimeslotId : UInt8
  ieTschTimeslot : Fin tschTsElementsCount → UInt16
  ieTschSlotframeAndLink : SlotframeAndLinks
  ieChannelHoppingSequenceId : UInt8
  ieHoppingSequenceLen : UInt16
  ieHoppingSequenceList : Nat → UInt8
  sixtopIeContentPtr : Option Nat
  sixtopIeContentLen : UInt16

def read16 (m : Mem) (a : Nat) : UInt16 := UInt16.ofNat (Mem.load 2 a m)

/-! ## Descriptors -/

def ieType (ieDesc : Nat) : Nat := ieDesc / 0x8000 % 2

def headerLen (ieDesc : Nat) : Nat := ieDesc % 0x80

def headerId (ieDesc : Nat) : Nat := ieDesc / 0x80 % 0x100

def longLen (ieDesc : Nat) : Nat := ieDesc % 0x800

def longId (ieDesc : Nat) : Nat := ieDesc / 0x800 % 0x10

def shortLen (ieDesc : Nat) : Nat := ieDesc % 0x100

def shortId (ieDesc : Nat) : Nat := ieDesc / 0x100 % 0x80

/-! ## The parser -/

inductive ParsingState
  | headerIe | payloadIe | mlmeSubie
deriving DecidableEq

/-- The variables of the parser, the blocks that it has stored, and whether `buf_size` went below zero. -/
structure Parser where
  cursor : Cursor
  bufSize : UInt8
  parsingState : ParsingState
  nestedMlmeLen : Int
  ies : Ies
  stored : List (Nat × Nat)
  wrapped : Bool

namespace Parser

/-- Reads `n` bytes from the `k`-th on. -/
def peek (k n : Nat) (s : Parser) : Parser := { s with cursor := s.cursor.peek k n }

/-- Stores fields of the block of `n` bytes from the `k`-th on. -/
def store (k n : Nat) (ies : Ies) (s : Parser) : Parser :=
  { s with ies := ies, stored := s.stored ++ [(s.cursor.pos + k, n)] }

def setIes (ies : Ies) (s : Parser) : Parser := { s with ies := ies }

def descriptor (s : Parser) : Parser := { s with cursor := s.cursor.take 2, bufSize := s.bufSize - 2 }

/-- `buf += len; buf_size -= len`. -/
def advance (len : Nat) (s : Parser) : Parser :=
  { s with
    cursor := s.cursor.skip len
    bufSize := s.bufSize - UInt8.ofNat len
    wrapped := s.wrapped || decide (s.bufSize.toNat < len) }

end Parser

def driftOf (timeSyncField : UInt16) : Int16 :=
  if timeSyncField &&& 0x0800 ≠ 0 then (timeSyncField ||| 0xf000).toInt16 else (timeSyncField &&& 0x0fff).toInt16

/-- `frame802154e_parse_header_ie`, and whether it does not return -1. -/
def frame802154eParseHeaderIe (m : Mem) (len elementId : Nat) (s : Parser) : Parser × Bool :=
  if elementId = HEADER_IE_ACK_NACK_TIME_CORRECTION ∧ len = 2 then
    let timeSyncField := read16 m s.cursor.pos
    ((s.peek 0 2).setIes { s.ies with
      ieIsNack := if timeSyncField &&& 0x8000 ≠ 0 then 1 else 0
      ieTimeCorrection := driftOf timeSyncField }, true)
  else (s, false)

/-- The slotframe and its links at `p`. -/
def slotframeAt (m : Mem) (p : Nat) (old : SlotframeAndLinks) : SlotframeAndLinks where
  numSlotframes := m p
  slotframeHandle := m (p + 1)
  slotframeSize := read16 m (p + 2)
  numLinks := m (p + 4)
  links := fun i =>
    if i.val < (m (p + 4)).toNat then
      ⟨read16 m (p + 5 + i.val * 5), read16 m (p + 5 + i.val * 5 + 2), m (p + 5 + i.val * 5 + 4)⟩
    else old.links i

/-- `frame802154e_parse_mlme_short_ie`, and whether it does not return -1. -/
def frame802154eParseMlmeShortIe (m : Mem) (len subId : Nat) (s : Parser) : Parser × Bool :=
  let p := s.cursor.pos
  if subId = MLME_SHORT_IE_TSCH_SLOFTRAME_AND_LINK then
    if 1 ≤ len then
      let numSlotframes := (m p).toNat
      let numLinks := (m (p + 4)).toNat
      let s := (s.peek 0 1).peek 4 1
      if numSlotframes = 0 then
        (s, true)
      else if numSlotframes ≤ 1 ∧ numLinks ≤ FRAME802154E_IE_MAX_LINKS ∧
          len = 1 + numSlotframes * (4 + 5 * numLinks) then
        ((s.peek 0 len).store 0 len { s.ies with
          ieTschSlotframeAndLink := slotframeAt m p s.ies.ieTschSlotframeAndLink }, true)
      else (s, false)
    else (s, false)
  else if subId = MLME_SHORT_IE_TSCH_SYNCHRONIZATION ∧ len = 6 then
    ((s.peek 0 6).setIes { s.ies with
      ieAsn := ⟨UInt32.ofNat (Mem.load 4 p m), m (p + 4)⟩
      ieJoinPriority := m (p + 5) }, true)
  else if subId = MLME_SHORT_IE_TSCH_TIMESLOT ∧ (len = 1 ∨ len = 25) then
    ((s.peek 0 len).store 0 len { s.ies with
      ieTschTimeslotId := m p
      ieTschTimeslot := if len = 25 then fun i => read16 m (p + 1 + 2 * i.val) else s.ies.ieTschTimeslot }, true)
  else (s, false)

/-- `frame802154e_parse_mlme_long_ie`, and whether it does not return -1. -/
def frame802154eParseMlmeLongIe (cfg : Config) (m : Mem) (len subId : Nat) (s : Parser) : Parser × Bool :=
  let p := s.cursor.pos
  if subId = MLME_LONG_IE_TSCH_CHANNEL_HOPPING_SEQUENCE ∧ 0 < len then
    let s := (s.peek 0 1).setIes { s.ies with ieChannelHoppingSequenceId := m p }
    if 1 < len then
      let hoppingLen := read16 m (p + 8)
      let s := (s.peek 8 2).store 10 hoppingLen.toNat { s.ies with ieHoppingSequenceLen := hoppingLen }
      if hoppingLen.toNat ≤ cfg.hoppingSequenceMaxLen ∧ len = 12 + hoppingLen.toNat then
        ((s.peek 10 hoppingLen.toNat).setIes { s.ies with
          ieHoppingSequenceList := fun i =>
            if i < hoppingLen.toNat then m (p + 10 + i) else s.ies.ieHoppingSequenceList i }, true)
      else (s, true)
    else (s, true)
  else (s, false)

/-- What `frame802154e_parse_information_elements` returns, and what the parser leaves. -/
structure Parsed where
  ret : Int
  parser : Parser

/-- `ies->ie_payload_ie_offset = buf - start`. -/
def Parser.setOffset (s : Parser) : Parser :=
  s.setIes { s.ies with iePayloadIeOffset := UInt8.ofNat s.cursor.pos }

/-- A descriptor in the state `PARSING_HEADER_IE`. -/
def headerRound (m : Mem) (ieDesc : Nat) (s : Parser) : Parser ⊕ Parsed :=
  let len := headerLen ieDesc
  let id := headerId ieDesc
  if ieType ieDesc ≠ 0 then .inr ⟨-1, s⟩
  else if id = HEADER_IE_LIST_TERMINATION_1 then
    if len = 0 then .inl ({ s.setOffset with parsingState := .payloadIe }.advance 0) else .inr ⟨-1, s⟩
  else if id = HEADER_IE_LIST_TERMINATION_2 then
    if len = 0 then .inr ⟨s.cursor.pos, s.setOffset⟩ else .inr ⟨-1, s⟩
  else if len > s.bufSize.toNat then .inr ⟨-1, s⟩
  else
    let (s, ok) := frame802154eParseHeaderIe m len id s
    if ok then .inl (s.advance len) else .inr ⟨-1, s⟩

/-- A descriptor in the state `PARSING_PAYLOAD_IE`. -/
def payloadRound (cfg : Config) (m : Mem) (ieDesc : Nat) (s : Parser) : Parser ⊕ Parsed :=
  let len := longLen ieDesc
  let id := longId ieDesc
  if ieType ieDesc ≠ 1 then .inr ⟨-1, s⟩
  else if id = PAYLOAD_IE_MLME then
    .inl ({ s with parsingState := .mlmeSubie, nestedMlmeLen := len }.advance 0)
  else if cfg.withSixtop ∧ id = PAYLOAD_IE_IETF then
    let subId := m s.cursor.pos
    let s := s.peek 0 1
    if subId = IETF_IE_6TOP then
      -- the length without the sub-ID is an unsigned one of 16 bits
      let contentLen := UInt16.ofNat len - 1
      .inl ((s.store 1 contentLen.toNat { s.ies with
        sixtopIeContentPtr := some (s.cursor.pos + 1)
        sixtopIeContentLen := contentLen }).advance len)
    else .inl (s.advance len)
  else if id = PAYLOAD_IE_LIST_TERMINATION then
    .inr ⟨if len = 0 then s.cursor.pos + len else -1, s⟩
  else .inr ⟨-1, s⟩

/-- The part of a round in the state `PARSING_MLME_SUBIE` after the sub-IE was parsed. -/
def mlmeNext (len : Nat) (s : Parser) : Parser ⊕ Parsed :=
  let nested := s.nestedMlmeLen - (2 + len)
  let s := { s with nestedMlmeLen := nested }
  if nested < 0 then .inr ⟨-1, s⟩
  else if nested = 0 then .inl ({ s with parsingState := .payloadIe }.advance len)
  else .inl (s.advance len)

/-- A descriptor in the state `PARSING_MLME_SUBIE`. -/
def mlmeRound (cfg : Config) (m : Mem) (ieDesc : Nat) (s : Parser) : Parser ⊕ Parsed :=
  let short := ieType ieDesc = 0
  let len := if short then shortLen ieDesc else longLen ieDesc
  if len > s.bufSize.toNat then .inr ⟨-1, s⟩
  else
    let (s, ok) :=
      if short then frame802154eParseMlmeShortIe m len (shortId ieDesc) s
      else frame802154eParseMlmeLongIe cfg m len (longId ieDesc) s
    if ok then mlmeNext len s else .inr ⟨-1, s⟩

def ieRound (cfg : Config) (m : Mem) (ieDesc : Nat) (s : Parser) : Parser ⊕ Parsed :=
  match s.parsingState with
  | .headerIe => headerRound m ieDesc s
  | .payloadIe => payloadRound cfg m ieDesc s
  | .mlmeSubie => mlmeRound cfg m ieDesc s

/-- One round of the loop of `frame802154e_parse_information_elements`, or what follows the loop. -/
def parseRound (cfg : Config) (m : Mem) (s : Parser) : Parser ⊕ Parsed :=
  if s.bufSize = 0 then
    .inr ⟨s.cursor.pos, if s.parsingState = .headerIe then s.setOffset else s⟩
  else if s.bufSize.toNat < 2 then .inr ⟨-1, s⟩
  else ieRound cfg m (Mem.load 2 s.cursor.pos m) s.descriptor

def startParser (bufSize : UInt8) (ies : Ies) : Parser :=
  ⟨.start, bufSize, .headerIe, 0, { ies with iePayloadIeOffset := 0 }, [], false⟩

/-- `frame802154e_parse_information_elements`, if it ends within `fuel` rounds. -/
def frame802154eParseInformationElements (cfg : Config) (m : Mem) (bufSize : UInt8) (ies : Ies) (fuel : Nat) :
    Option Parsed :=
  loop (parseRound cfg m) fuel (startParser bufSize ies)

/-! ## Creating -/

structure Buf where
  mem : Mem
  writes : List Nat

namespace Buf

/-- Writes bytes from `a` on. -/
def write (a : Nat) (l : List UInt8) (b : Buf) : Buf :=
  ⟨Mem.paste a l.length (fun i => l.getD i 0) b.mem, b.writes ++ List.range' a l.length⟩

end Buf

/-- The bytes of `WRITE16`. -/
def bytes16 (val : Nat) : List UInt8 := [UInt8.ofNat val, UInt8.ofNat (val / 256)]

def createHeaderIeDescriptor (elementId ieLen : Nat) : Buf → Buf :=
  Buf.write 0 (bytes16 (ieLen % 0x80 + elementId % 0x100 * 0x80))

def createPayloadIeDescriptor (groupId ieLen : Nat) : Buf → Buf :=
  Buf.write 0 (bytes16 (ieLen % 0x800 + groupId % 0x10 * 0x800 + 0x8000))

def createMlmeShortIeDescriptor (subId ieLen : Nat) : Buf → Buf :=
  Buf.write 0 (bytes16 (ieLen % 0x100 + subId % 0x80 * 0x100))

def createMlmeLongIeDescriptor (subId ieLen : Nat) : Buf → Buf :=
  Buf.write 0 (bytes16 (ieLen % 0x800 + subId % 0x10 * 0x800 + 0x8000))

structure Created where
  ret : Int
  buf : Buf

def timeSyncField (ies : Ies) : UInt16 :=
  let field := ies.ieTimeCorrection.toUInt16 &&& 0x0fff
  if ies.ieIsNack ≠ 0 then field ||| 0x8000 else field

def frame80215eCreateIeHeaderAckNackTimeCorrection (buf : Buf) (len : Int) (ies : Ies) : Created :=
  let ieLen := 2
  if len ≥ 2 + ieLen then
    ⟨2 + ieLen, createHeaderIeDescriptor HEADER_IE_ACK_NACK_TIME_CORRECTION 2
      (buf.write 2 (bytes16 (timeSyncField ies).toNat))⟩
  else ⟨-1, buf⟩

def frame80215eCreateIeHeaderListTermination1 (buf : Buf) (len : Int) : Created :=
  if len ≥ 2 then ⟨2, createHeaderIeDescriptor HEADER_IE_LIST_TERMINATION_1 0 buf⟩ else ⟨-1, buf⟩

def frame80215eCreateIeHeaderListTermination2 (buf : Buf) (len : Int) : Created :=
  if len ≥ 2 then ⟨2, createHeaderIeDescriptor HEADER_IE_LIST_TERMINATION_2 0 buf⟩ else ⟨-1, buf⟩

def frame80215eCreateIePayloadListTermination (buf : Buf) (len : Int) : Created :=
  if len ≥ 2 then ⟨2, createPayloadIeDescriptor PAYLOAD_IE_LIST_TERMINATION 0 buf⟩ else ⟨-1, buf⟩

def frame80215eCreateIeIetf (buf : Buf) (len : Int) (ies : Ies) : Created :=
  if len ≥ 2 then
    ⟨2 + ies.sixtopIeContentLen.toNat, createPayloadIeDescriptor PAYLOAD_IE_IETF ies.sixtopIeContentLen.toNat buf⟩
  else ⟨-1, buf⟩

def frame80215eCreateIeMlme (buf : Buf) (len : Int) (ies : Ies) : Created :=
  if len ≥ 2 then ⟨2, createPayloadIeDescriptor PAYLOAD_IE_MLME ies.ieMlmeLen.toNat buf⟩ else ⟨-1, buf⟩

def syncBytes (ies : Ies) : List UInt8 :=
  [ies.ieAsn.ls4b.toUInt8, (ies.ieAsn.ls4b >>> 8).toUInt8, (ies.ieAsn.ls4b >>> 16).toUInt8,
    (ies.ieAsn.ls4b >>> 24).toUInt8, ies.ieAsn.ms1b, ies.ieJoinPriority]

def frame80215eCreateIeTschSynchronization (buf : Buf) (len : Int) (ies : Ies) : Created :=
  let ieLen := 6
  if len ≥ 2 + ieLen then
    ⟨2 + ieLen, createMlmeShortIeDescriptor MLME_SHORT_IE_TSCH_SYNCHRONIZATION 6 (buf.write 2 (syncBytes ies))⟩
  else ⟨-1, buf⟩

def linkBytes (l : Link) : List UInt8 :=
  bytes16 l.timeslot.toNat ++ bytes16 l.channelOffset.toNat ++ [l.linkOptions]

/-- Pieces of `size` bytes are written, each at its place from `start` on. -/
@[grind =]
def writeEach {k : Nat} (start size : Nat) (bytes : Fin k → List UInt8) : List (Fin k) → Buf → Buf
  | [], buf => buf
  | i :: is, buf => writeEach start size bytes is (buf.write (start + i.val * size) (bytes i))

def frame80215eCreateIeTschSlotframeAndLink (buf : Buf) (len : Int) (ies : Ies) : Created :=
  let sl := ies.ieTschSlotframeAndLink
  let numSlotframes := sl.numSlotframes.toNat
  let numLinks := sl.numLinks.toNat
  let ieLen : Nat := 1 + numSlotframes * (4 + 5 * numLinks)
  if numSlotframes > 1 ∨ numLinks > FRAME802154E_IE_MAX_LINKS ∨ len < 2 + (ieLen : Int) then
    ⟨-1, buf⟩
  else
    let buf := buf.write 2 [sl.numSlotframes]
    let buf :=
      if numSlotframes = 1 then
        let buf := buf.write (2 + 1) [sl.slotframeHandle]
        let buf := buf.write (2 + 2) (bytes16 sl.slotframeSize.toNat)
        let buf := buf.write (2 + 4) [sl.numLinks]
        writeEach (2 + 5) 5 (fun i => linkBytes (sl.links i)) ((List.finRange FRAME802154E_IE_MAX_LINKS).take numLinks) buf
      else buf
    ⟨2 + ieLen, createMlmeShortIeDescriptor MLME_SHORT_IE_TSCH_SLOFTRAME_AND_LINK ieLen buf⟩

def frame80215eCreateIeTschTimeslot (buf : Buf) (len : Int) (ies : Ies) : Created :=
  let ieLen : Nat := if ies.ieTschTimeslotId = 0 then 1 else 25
  if len ≥ 2 + (ieLen : Int) then
    let buf := buf.write 2 [ies.ieTschTimeslotId]
    let buf :=
      if ies.ieTschTimeslotId ≠ 0 then
        writeEach 3 2 (fun i => bytes16 (ies.ieTschTimeslot i).toNat) (List.finRange tschTsElementsCount) buf
      else buf
    ⟨2 + ieLen, createMlmeShortIeDescriptor MLME_SHORT_IE_TSCH_TIMESLOT ieLen buf⟩
  else ⟨-1, buf⟩

def frame80215eCreateIeTschChannelHoppingSequence (cfg : Config) (buf : Buf) (len : Int) (ies : Ies) : Created :=
  let n := ies.ieHoppingSequenceLen.toNat
  if n > cfg.hoppingSequenceMaxLen then ⟨-1, buf⟩
  else
    let ieLen : Nat := if ies.ieChannelHoppingSequenceId = 0 then 1 else 12 + n
    if len ≥ 2 + (ieLen : Int) then
      let buf := buf.write 2 [ies.ieChannelHoppingSequenceId]
      let buf := buf.write 3 [0]
      let buf := buf.write 4 (bytes16 0)
      let buf := buf.write 6 (bytes16 0)
      let buf := buf.write 8 (bytes16 0)
      let buf := buf.write 10 (bytes16 n)
      let buf := buf.write 12 ((List.range n).map ies.ieHoppingSequenceList)
      let buf := buf.write (12 + n) (bytes16 0)
      ⟨2 + ieLen, createMlmeLongIeDescriptor MLME_LONG_IE_TSCH_CHANNEL_HOPPING_SEQUENCE ieLen buf⟩
    else ⟨-1, buf⟩

end Contiki.Frame802154e

/-
The BER coder of snmp-ber.c and the messages of snmp-message.c. The encoder writes backwards from the
end of its buffer, so what it has written is a list that grows at the front; the decoder consumes the
bytes of a packet from the front. A coder that returns 0 is `none` here.
-/
import Mathlib.Tactic

namespace Contiki.Snmp

/-! ## Data -/

/-- `SNMP_MSG_OID_MAX_LEN` and `SNMP_MAX_NR_VALUES` with the bounds of snmp-conf.h. -/
structure Conf where
  oidMaxLen : Nat
  maxNrValues : Nat
  oidMaxLen_le : oidMaxLen ≤ 128
  maxNrValues_le : maxNrValues ≤ 255

/-- `snmp_oid_t`: the used part of `data`. -/
structure Oid (c : Conf) where
  data : List UInt32
  fits : data.length ≤ c.oidMaxLen
  deriving DecidableEq

/-- `value_type` and `value` of a varbind; `other` is a type that no case of the coder names. -/
inductive Value (c : Conf)
  | eoc
  | integer (integer : UInt32)
  | timeticks (integer : UInt32)
  | octetString (string : List UInt8)
  | objectIdentifier (oid : Oid c)
  | null
  | noSuchInstance
  | endOfMibView
  | other
  deriving DecidableEq

/-- `snmp_varbind_t`. -/
structure Varbind (c : Conf) where
  oid : Oid c
  value : Value c
  deriving DecidableEq

/-- `snmp_header_t`. -/
structure Header where
  version : UInt32
  community : List UInt8
  pduType : UInt8
  requestId : UInt32
  errorStatus : UInt32
  nonRepeaters : UInt32
  errorIndex : UInt32
  maxRepetitions : UInt32
  deriving DecidableEq

/-- The array `snmp_varbind_t varbinds[SNMP_MAX_NR_VALUES]`. -/
structure Varbinds (c : Conf) where
  slots : List (Varbind c)
  size : slots.length = c.maxNrValues

def berDataTypeInteger : UInt8 := 0x02
def berDataTypeOctetString : UInt8 := 0x04
def berDataTypeNull : UInt8 := 0x05
def berDataTypeObjectIdentifier : UInt8 := 0x06
def berDataTypeSequence : UInt8 := 0x30
def berDataTypeTimeticks : UInt8 := 0x43
def berDataTypeNoSuchInstance : UInt8 := 0x81
def berDataTypeEndOfMibView : UInt8 := 0x82
def berDataTypePduGetRequest : UInt8 := 0xA0
def berDataTypePduGetNextRequest : UInt8 := 0xA1
def berDataTypePduGetResponse : UInt8 := 0xA2
def berDataTypePduSetRequest : UInt8 := 0xA3
def berDataTypePduGetBulk : UInt8 := 0xA5

def snmpVersion1 : UInt32 := 0
def snmpVersion2c : UInt32 := 1

/-! ## The encoder -/

/-- `snmp_packet_t` while it is written: `used` is the length of `out`. -/
structure Packet where
  out : List UInt8
  max : UInt16

/-- The bounds check and the store that every writer makes. -/
def Packet.put (b : UInt8) (p : Packet) : Option Packet :=
  if p.out.length = p.max.toNat then none else some { p with out := b :: p.out }

/-- A loop `while(number)` that stores `byte number` and shifts; `uint32_t` is zero after `n` shifts. -/
@[grind =]
def whilePut (shift : Nat) (byte : Nat → UInt8) : (n : Nat) → (number : Nat) → Packet → Option Packet
  | 0, _, p => some p
  | n + 1, number, p =>
    if number = 0 then some p
    else do
      let p ← p.put (byte number)
      whilePut shift byte n (number >>> shift) p

/-- `snmp_ber_encode_type`. -/
def berEncodeType (type : UInt8) (p : Packet) : Option Packet := p.put type

/-- `snmp_ber_encode_length`. -/
def berEncodeLength (length : UInt16) (p : Packet) : Option Packet :=
  if length > 0xFF then do
    let p ← p.put length.toUInt8
    let p ← p.put (length >>> 8).toUInt8
    p.put 0x82
  else if length > 0x7F then do
    let p ← p.put length.toUInt8
    p.put 0x81
  else p.put (length.toUInt8 &&& 0x7F)

/-- `snmp_ber_encode_unsigned_integer`. -/
def berEncodeUnsignedInteger (type : UInt8) (number : UInt32) (p : Packet) : Option Packet := do
  let originalOutLen := p.out.length
  let octet := fun number => UInt8.ofNat (number &&& 0xFF)
  let p ← p.put (octet number.toNat)
  let p ← whilePut 8 octet 4 (number.toNat >>> 8) p
  let p ← berEncodeLength (UInt16.ofNat (p.out.length - originalOutLen)) p
  berEncodeType type p

/-- `snmp_ber_encode_timeticks`. -/
def berEncodeTimeticks (timeticks : UInt32) (p : Packet) : Option Packet :=
  berEncodeUnsignedInteger berDataTypeTimeticks timeticks p

/-- `snmp_ber_encode_integer`. -/
def berEncodeInteger (number : UInt32) (p : Packet) : Option Packet :=
  berEncodeUnsignedInteger berDataTypeInteger number p

/-- The loop of `snmp_ber_encode_string_len`, from the last character to the first. -/
def putString : List UInt8 → Packet → Option Packet
  | [], p => some p
  | b :: bs, p => do
    let p ← putString bs p
    p.put b

/-- `snmp_ber_encode_string_len`. -/
def berEncodeStringLen (str : List UInt8) (p : Packet) : Option Packet := do
  let p ← putString str p
  let p ← berEncodeLength (UInt16.ofNat str.length) p
  berEncodeType berDataTypeOctetString p

/-- The last seven bits of `val`, then the rest of it with the continuation bit. -/
def putArc (val : Nat) (p : Packet) : Option Packet := do
  let p ← p.put (UInt8.ofNat (val &&& 0x7F))
  whilePut 7 (fun val => UInt8.ofNat ((val &&& 0x7F) ||| 0x80)) 5 (val >>> 7) p

/-- The loop over `pos` from the last arc down to the second. -/
def putArcs : List UInt32 → Packet → Option Packet
  | [], p => some p
  | val :: arcs, p => do
    let p ← putArcs arcs p
    putArc val.toNat p

/-- `snmp_ber_encode_oid`. With an empty `oid` it starts behind the array, with an empty packet and one
arc it reads a byte behind the buffer: neither has a result. -/
@[grind =]
def berEncodeOid (oid : List UInt32) (p : Packet) : Option Packet :=
  match oid with
  | [] => none
  | first :: arcs => do
    let originalOutLen := p.out.length
    let p ← putArcs arcs p
    if p.out.length = p.max.toNat then none
    else
      match p.out with
      | [] => none
      | b :: out => do
        let p ← putArc ((b.toNat + 40 * first.toNat) % 2 ^ 32) { p with out := out }
        let p ← berEncodeLength (UInt16.ofNat (p.out.length - originalOutLen)) p
        berEncodeType berDataTypeObjectIdentifier p

/-- `snmp_ber_encode_null`. -/
def berEncodeNull (type : UInt8) (p : Packet) : Option Packet := do
  let p ← p.put 0x00
  berEncodeType type p

/-- The `switch` over `value_type`; a slot of type `eoc` never comes to it. -/
def encodeValue {c : Conf} (value : Value c) (p : Packet) : Option Packet :=
  match value with
  | .integer n => berEncodeInteger n p
  | .timeticks n => berEncodeTimeticks n p
  | .octetString s => berEncodeStringLen s p
  | .objectIdentifier oid => berEncodeOid oid.data p
  | .null => berEncodeNull berDataTypeNull p
  | .noSuchInstance => berEncodeNull berDataTypeNoSuchInstance p
  | .endOfMibView => berEncodeNull berDataTypeEndOfMibView p
  | .eoc => none
  | .other => none

def encodeVarbind {c : Conf} (v : Varbind c) (p : Packet) : Option Packet :=
  if v.value = .eoc then some p
  else do
    let lastOutLen := p.out.length
    let p ← encodeValue v.value p
    let p ← berEncodeOid v.oid.data p
    let p ← berEncodeLength (UInt16.ofNat (p.out.length - lastOutLen)) p
    berEncodeType berDataTypeSequence p

def encodeVarbinds {c : Conf} : List (Varbind c) → Packet → Option Packet
  | [], p => some p
  | v :: vs, p => do
    let p ← encodeVarbinds vs p
    encodeVarbind v p

/-- What `int8_t i` starts with: the loop runs over the slots from 0 to `i`. -/
def firstIndex (c : Conf) : Int := Int.bmod ((c.maxNrValues : Int) - 1) 256

/-- The two fields of a PDU that depend on its type. -/
def encodePduFields (header : Header) (p : Packet) : Option Packet :=
  if header.pduType = berDataTypePduGetBulk then do
    let p ← berEncodeInteger header.maxRepetitions p
    berEncodeInteger header.nonRepeaters p
  else do
    let p ← berEncodeInteger header.errorIndex p
    berEncodeInteger header.errorStatus p

/-- `snmp_message_encode` into a buffer of `max` bytes: what is written from `out` on. -/
def messageEncode {c : Conf} (max : UInt16) (header : Header) (varbinds : Varbinds c) : Option (List UInt8) := do
  let p ← encodeVarbinds (varbinds.slots.take (firstIndex c + 1).toNat) ⟨[], max⟩
  let p ← berEncodeLength (UInt16.ofNat p.out.length) p
  let p ← berEncodeType berDataTypeSequence p
  let p ← encodePduFields header p
  let p ← berEncodeInteger header.requestId p
  let p ← berEncodeLength (UInt16.ofNat p.out.length) p
  let p ← berEncodeType header.pduType p
  let p ← berEncodeStringLen header.community p
  let p ← berEncodeInteger header.version p
  let p ← berEncodeLength (UInt16.ofNat p.out.length) p
  let p ← berEncodeType berDataTypeSequence p
  return p.out

/-! ## The decoder -/

/-- `snmp_ber_decode_type`. -/
def berDecodeType : List UInt8 → Option (UInt8 × List UInt8)
  | [] => none
  | b :: inp => some (b, inp)

/-- `snmp_ber_decode_length`. -/
def berDecodeLength : List UInt8 → Option (UInt8 × List UInt8)
  | [] => none
  | b :: inp => some (b, inp)

/-- `n` more bytes of a number. -/
@[grind =]
def readOctets : (n : Nat) → (num : UInt32) → List UInt8 → Option (UInt32 × List UInt8)
  | 0, num, inp => some (num, inp)
  | _ + 1, _, [] => none
  | n + 1, num, b :: inp => readOctets n ((num <<< 8) ||| b.toUInt32) inp

/-- `snmp_ber_decode_unsigned_integer`. -/
def berDecodeUnsignedInteger (expectedType : UInt8) (inp : List UInt8) : Option (UInt32 × List UInt8) := do
  let (type, inp) ← berDecodeType inp
  if type ≠ expectedType then none
  else
    let (len, inp) ← berDecodeLength inp
    if len > 4 then none
    else
      match inp with
      | [] => none
      | b :: inp => readOctets (len.toNat - 1) b.toUInt32 inp

/-- `snmp_ber_decode_timeticks`. -/
def berDecodeTimeticks (inp : List UInt8) : Option (UInt32 × List UInt8) :=
  berDecodeUnsignedInteger berDataTypeTimeticks inp

/-- `snmp_ber_decode_integer`. -/
def berDecodeInteger (inp : List UInt8) : Option (UInt32 × List UInt8) :=
  berDecodeUnsignedInteger berDataTypeInteger inp

/-- The length of a string, in one byte or in the number of bytes the first one names. -/
def readStringLength : List UInt8 → Option (UInt32 × List UInt8)
  | [] => none
  | b :: inp =>
    if b &&& 0x80 = 0 then some (b.toUInt32, inp)
    else
      let lengthBytes := b &&& 0x7F
      if lengthBytes > 4 then none
      else
        match inp with
        | [] => none
        | b :: inp => readOctets (lengthBytes.toNat - 1) b.toUInt32 inp

/-- `snmp_ber_decode_string_len_buffer`. -/
def berDecodeStringLenBuffer (inp : List UInt8) : Option (List UInt8 × List UInt8) := do
  let (type, inp) ← berDecodeType inp
  if type ≠ berDataTypeOctetString then none
  else
    let (length, inp) ← readStringLength inp
    if inp.length = 0 ∨ inp.length < length.toNat then none
    else some (inp.take length.toNat, inp.drop length.toNat)

/-- The loop over `j`: the arc, the number of bytes it moved on, the bytes left. After four bytes it
ends on the fifth, which is in the arc but still to be read. -/
@[grind =]
def readArc : (j : Nat) → (arc : UInt32) → List UInt8 → Option (UInt32 × Nat × List UInt8)
  | 0, arc, inp => some (arc, 0, inp)
  | _ + 1, _, [] => none
  | j + 1, arc, b :: inp =>
    if b &&& 0x80 = 0 then some (arc, 1, inp)
    else
      match inp with
      | [] => none
      | b' :: _ => do
        let (arc, n, inp) ← readArc j ((arc <<< 7) ||| (b' &&& 0x7F).toUInt32) inp
        return (arc, n + 1, inp)

/-- The loop `while(in != buf_end)` with `room` free places in `data`: `pos` bytes of the content have
been read, and `buf_end` is at `len`. -/
@[grind =]
def readArcs : (room pos len : Nat) → List UInt8 → Option (List UInt32 × List UInt8)
  | room, pos, len, inp =>
    if pos = len then some ([], inp)
    else
      match room, inp with
      | 0, _ => none
      | _ + 1, [] => none
      | room + 1, b :: inp => do
        let (arc, n, inp) ← readArc 4 (b &&& 0x7F).toUInt32 (b :: inp)
        let (arcs, inp) ← readArcs room (pos + n) len inp
        return (arc :: arcs, inp)

/-- `snmp_ber_decode_oid`. It stores two arcs without a check, so a smaller array has no result. -/
def berDecodeOid (c : Conf) (inp : List UInt8) : Option (Oid c × List UInt8) := do
  let (type, inp) ← berDecodeType inp
  if type ≠ berDataTypeObjectIdentifier then none
  else
    let (len, inp) ← berDecodeLength inp
    match inp with
    | [] => none
    | b :: inp =>
      let (arcs, inp) ← readArcs (c.oidMaxLen - 2) 1 len.toNat inp
      let data := (b / 40).toUInt32 :: (b % 40).toUInt32 :: arcs
      if h : data.length ≤ c.oidMaxLen then some (⟨data, h⟩, inp) else none

/-- `snmp_ber_decode_null`. -/
@[grind =]
def berDecodeNull : List UInt8 → Option (List UInt8)
  | _ :: _ :: inp => some inp
  | _ => none

/-- The `switch` over the value type, which is read without consuming it. -/
def decodeValue (c : Conf) : List UInt8 → Option (Value c × List UInt8)
  | [] => none
  | valueType :: inp =>
    if valueType = berDataTypeInteger then do
      let (n, inp) ← berDecodeInteger (valueType :: inp)
      return (.integer n, inp)
    else if valueType = berDataTypeTimeticks then do
      let (n, inp) ← berDecodeTimeticks (valueType :: inp)
      return (.timeticks n, inp)
    else if valueType = berDataTypeOctetString then do
      let (s, inp) ← berDecodeStringLenBuffer (valueType :: inp)
      return (.octetString s, inp)
    else if valueType = berDataTypeNull then do
      let inp ← berDecodeNull (valueType :: inp)
      return (.null, inp)
    else none

def decodeVarbind (c : Conf) (inp : List UInt8) : Option (Varbind c × List UInt8) := do
  let (type, inp) ← berDecodeType inp
  if type ≠ berDataTypeSequence then none
  else
    let (_, inp) ← berDecodeLength inp
    let (oid, inp) ← berDecodeOid c inp
    let (value, inp) ← decodeValue c inp
    return (⟨oid, value⟩, inp)

def decodeVarbinds {c : Conf} : (slots : List (Varbind c)) → List UInt8 → Option (List (Varbind c))
  | slots, [] => some slots
  | [], _ :: _ => none
  | _ :: slots, b :: inp => do
    let (v, inp) ← decodeVarbind c (b :: inp)
    let vs ← decodeVarbinds slots inp
    return v :: vs

/-- The fields that `encodePduFields` writes. -/
def decodePduFields (header : Header) (inp : List UInt8) : Option (Header × List UInt8) :=
  if header.pduType = berDataTypePduGetBulk then do
    let (nonRepeaters, inp) ← berDecodeInteger inp
    let (maxRepetitions, inp) ← berDecodeInteger inp
    return ({ header with nonRepeaters := nonRepeaters, maxRepetitions := maxRepetitions }, inp)
  else do
    let (errorStatus, inp) ← berDecodeInteger inp
    let (errorIndex, inp) ← berDecodeInteger inp
    return ({ header with errorStatus := errorStatus, errorIndex := errorIndex }, inp)

/-- The PDU types that `snmp_message_decode` accepts. -/
def pduTypes : List UInt8 :=
  [berDataTypePduGetRequest, berDataTypePduGetNextRequest, berDataTypePduGetResponse, berDataTypePduSetRequest,
    berDataTypePduGetBulk]

/-- `snmp_message_decode` of the bytes of a packet, into a header and varbinds with the given contents. -/
def messageDecode {c : Conf} (header : Header) (varbinds : Varbinds c) (inp : List UInt8) :
    Option (Header × List (Varbind c)) := do
  let (type, inp) ← berDecodeType inp
  if type ≠ berDataTypeSequence then none
  else
    let (_, inp) ← berDecodeLength inp
    let (version, inp) ← berDecodeInteger inp
    if version ≠ snmpVersion1 ∧ version ≠ snmpVersion2c then none
    else
      let (community, inp) ← berDecodeStringLenBuffer inp
      let (pduType, inp) ← berDecodeType inp
      if pduType ∉ pduTypes then none
      else
        let (_, inp) ← berDecodeLength inp
        let (requestId, inp) ← berDecodeInteger inp
        let header :=
          { header with version := version, community := community, pduType := pduType, requestId := requestId }
        let (header, inp) ← decodePduFields header inp
        let (type, inp) ← berDecodeType inp
        if type ≠ berDataTypeSequence then none
        else
          let (_, inp) ← berDecodeLength inp
          let slots ← decodeVarbinds varbinds.slots inp
          return (header, slots)

/-! ## What a caller prepares and reads -/

/-- A header after `memset`. -/
def Header.cleared : Header := ⟨0, [], 0, 0, 0, 0, 0, 0⟩

/-- Varbinds after `memset`. -/
def Varbinds.cleared (c : Conf) : Varbinds c where
  slots := List.replicate c.maxNrValues ⟨⟨[], Nat.zero_le _⟩, .eoc⟩
  size := List.length_replicate

def used {c : Conf} (slots : List (Varbind c)) : List (Varbind c) := slots.filter (·.value ≠ .eoc)

end Contiki.Snmp

/-
An SNMP message that was encoded, decoded again. The decoder knows one-byte lengths only outside of
strings, refuses an empty string at the end and some identifiers, and the encoder forgets the varbinds
when there are more than 128 slots for them: a message comes back exactly when it avoids all of these.
-/
import Contiki.Snmp.Decode

namespace Contiki.Snmp

open Contiki.Lib Contiki.Lib.Ber

/-! ## Varbinds -/

variable {c : Conf}

theorem decode_value {v : Value c} (hp : v.Plain) (hlen : v.bytes.length < 128) (rest : List UInt8) :
    decodeValue c (v.bytes ++ rest) = if v = .octetString [] ∧ rest = [] then none else some (v, rest) := by
  cases v with
  | integer n =>
    have hdec : berDecodeInteger (tlv berDataTypeInteger (octets n.toNat) ++ rest) = some (n, rest) := decode_integer n rest
    change (berDecodeInteger (tlv berDataTypeInteger (octets n.toNat) ++ rest) >>= fun r => some (Value.integer r.1, r.2)) = _
    rw [hdec]
    simp
  | timeticks n =>
    change (berDecodeUnsignedInteger berDataTypeTimeticks (tlv berDataTypeTimeticks (octets n.toNat) ++ rest) >>=
      fun r => some (Value.timeticks r.1, r.2)) = _
    rw [decode_unsignedInteger]
    simp
  | octetString s =>
    have hs : s.length < 128 := by
      have hge := length_tlv_ge berDataTypeOctetString s
      simp only [Value.bytes] at hlen
      omega
    change (berDecodeStringLenBuffer (tlv berDataTypeOctetString s ++ rest) >>= fun r => some (Value.octetString r.1, r.2)) = _
    rw [decode_string hs]
    by_cases h : s = [] ∧ rest = [] <;> simp [h]
  | null => simp [Value.bytes, tlv_of_lt, decodeValue, berDecodeNull, berDataTypeNull, berDataTypeInteger,
      berDataTypeTimeticks, berDataTypeOctetString]
  | eoc | objectIdentifier _ | noSuchInstance | endOfMibView | other => exact absurd hp id

def Varbind.ber {c : Conf} (v : Varbind c) : List UInt8 :=
  tlv berDataTypeSequence (tlv berDataTypeObjectIdentifier (oidContent v.oid.data) ++ v.value.bytes)

variable {v : Varbind c}

theorem bytes_eq_ber (h : ReadableArcs v.oid.data) : v.bytes = v.ber := by
  rw [Varbind.bytes, Varbind.ber, oidBytes_readable h]

theorem decodeVarbind_bytes (hlen : v.bytes.length < 128) (rest : List UInt8) :
    decodeVarbind c (v.bytes ++ rest) = (berDecodeOid c (oidBytes v.oid.data v.value.bytes ++ rest)).bind fun r =>
        (decodeValue c r.2).bind fun s => some (⟨r.1, s.1⟩, s.2) := by
  have hge := length_tlv_ge berDataTypeSequence (oidBytes v.oid.data v.value.bytes)
  rw [Varbind.bytes] at hlen
  rw [Varbind.bytes, tlv_of_lt (by omega)]
  rfl

theorem decode_varbind (hp : v.value.Plain) (hlen : v.bytes.length < 128)
    (ho : ReadableArcs v.oid.data) (rest : List UInt8) :
    decodeVarbind c (v.bytes ++ rest) = if v.value = .octetString [] ∧ rest = [] then none else some (v, rest) := by
  have hlens : (oidContent v.oid.data).length + v.value.bytes.length < 128 := by
    have h₁ := length_tlv_ge berDataTypeSequence (tlv berDataTypeObjectIdentifier (oidContent v.oid.data) ++ v.value.bytes)
    have h₂ := length_tlv_ge berDataTypeObjectIdentifier (oidContent v.oid.data)
    rw [bytes_eq_ber ho, Varbind.ber] at hlen
    rw [List.length_append] at h₁
    omega
  rw [decodeVarbind_bytes hlen, oidBytes_readable ho, List.append_assoc, decode_oid ho (by omega)]
  simp only [Option.bind_some, decode_value hp (show v.value.bytes.length < 128 by omega) rest]
  split <;> rfl

theorem readable_of_decodeVarbind {rest rest' : List UInt8} (hlen : v.bytes.length < 128)
    (h : decodeVarbind c (v.bytes ++ rest) = some (v, rest')) : ReadableArcs v.oid.data := by
  have hge := length_tlv_ge berDataTypeSequence (oidBytes v.oid.data v.value.bytes)
  rw [decodeVarbind_bytes hlen] at h
  obtain ⟨⟨oid, inp⟩, hoid, h⟩ := Option.bind_eq_some_iff.1 h
  obtain ⟨⟨value, inp'⟩, -, h⟩ := Option.bind_eq_some_iff.1 h
  have heq : oid = v.oid := congrArg (fun r => r.1.oid) (Option.some.inj h)
  rw [heq] at hoid
  rw [Varbind.bytes] at hlen
  exact readable_of_decode (by omega) hoid

theorem bytes_cons (v : Varbind c) : ∃ b bs, v.bytes = b :: bs := ⟨_, _, rfl⟩

theorem decodeVarbinds_cons (s : Varbind c) (slots : List (Varbind c)) (v : Varbind c) (rest : List UInt8) :
    decodeVarbinds (s :: slots) (v.bytes ++ rest) =
      (decodeVarbind c (v.bytes ++ rest)).bind fun r => (decodeVarbinds slots r.2).bind fun vs => some (r.1 :: vs) :=
  rfl

theorem decodeVarbind_used {inp rest : List UInt8} (h : decodeVarbind c inp = some (v, rest)) :
    v.value ≠ .eoc := by
  unfold decodeVarbind at h
  obtain ⟨⟨type, inp⟩, -, h⟩ := Option.bind_eq_some_iff.1 h
  dsimp only at h
  split at h
  · cases h
  obtain ⟨⟨len, inp⟩, -, h⟩ := Option.bind_eq_some_iff.1 h
  obtain ⟨⟨oid, inp⟩, -, h⟩ := Option.bind_eq_some_iff.1 h
  obtain ⟨⟨value, inp'⟩, hvalue, h⟩ := Option.bind_eq_some_iff.1 h
  cases h
  dsimp only at hvalue ⊢
  rintro rfl
  unfold decodeValue at hvalue
  split at hvalue
  · cases hvalue
  split at hvalue
  · obtain ⟨r, -, hr⟩ := Option.bind_eq_some_iff.1 hvalue
    cases hr
  split at hvalue
  · obtain ⟨r, -, hr⟩ := Option.bind_eq_some_iff.1 hvalue
    cases hr
  split at hvalue
  · obtain ⟨r, -, hr⟩ := Option.bind_eq_some_iff.1 hvalue
    cases hr
  split at hvalue
  · obtain ⟨r, -, hr⟩ := Option.bind_eq_some_iff.1 hvalue
    cases hr
  · cases hvalue

/-- The last varbind is not an empty string. -/
def EndsReadable {c : Conf} (vs : List (Varbind c)) : Prop := ∀ v, vs.getLast? = some v → v.value ≠ .octetString []

theorem endsReadable_cons (v : Varbind c) {vs : List (Varbind c)} (h : vs ≠ []) :
    EndsReadable (v :: vs) ↔ EndsReadable vs := by
  obtain ⟨w, ws, rfl⟩ := List.exists_cons_of_ne_nil h
  unfold EndsReadable
  rw [List.getLast?_cons_cons]

/-- The bytes of some varbinds are read as these varbinds exactly when their identifiers are readable
and the last one is not an empty string. -/
theorem decode_varbinds : ∀ {us slots : List (Varbind c)}, (∀ v ∈ us, v.value.Plain) →
    (us.flatMap Varbind.bytes).length < 128 → us.length ≤ slots.length → used slots = [] →
    ((∃ vs, decodeVarbinds slots (us.flatMap Varbind.bytes) = some vs ∧ used vs = us) ↔
      (∀ v ∈ us, ReadableArcs v.oid.data) ∧ EndsReadable us)
  | [], slots, _, _, _, hslots => by
    have hdec : decodeVarbinds slots [] = some slots := by cases slots <;> rfl
    simp [hdec, hslots, EndsReadable]
  | u :: us, s :: slots, hp, hlen, hroom, hslots => by
    have hs : s.value = .eoc ∧ used slots = [] := by
      rw [used_cons] at hslots
      split at hslots
      · exact ⟨‹_›, hslots⟩
      · cases hslots
    rw [List.flatMap_cons, List.length_append] at hlen
    have ih := decode_varbinds (fun v (hv : v ∈ us) => hp v (List.mem_cons_of_mem _ hv)) (by omega)
      (by simpa using hroom) hs.2
    have hnil : us.flatMap Varbind.bytes = [] ↔ us = [] := by
      cases us with
      | nil => simp
      | cons w ws =>
        obtain ⟨b, bs, hb⟩ := bytes_cons w
        simp [hb]
    rw [List.flatMap_cons, decodeVarbinds_cons]
    constructor
    · rintro ⟨vs, hvs, hused⟩
      obtain ⟨⟨v, inp⟩, hv, hvs⟩ := Option.bind_eq_some_iff.1 hvs
      obtain ⟨ws, hws, hvs⟩ := Option.bind_eq_some_iff.1 hvs
      cases hvs
      rw [used_cons, if_neg (decodeVarbind_used hv)] at hused
      obtain ⟨rfl, rfl⟩ := List.cons.inj hused
      have ho := readable_of_decodeVarbind (by omega) hv
      rw [decode_varbind (hp _ (List.mem_cons_self ..)) (by omega) ho] at hv
      split at hv
      · cases hv
      · rename_i hlast
        cases hv
        obtain ⟨hall, hends⟩ := ih.1 ⟨ws, hws, rfl⟩
        refine ⟨List.forall_mem_cons.2 ⟨ho, hall⟩, ?_⟩
        by_cases hne : used ws = []
        · rw [hne, List.flatMap_nil] at hlast
          rw [hne]
          intro w hw
          cases hw
          simpa using hlast
        · rwa [endsReadable_cons _ hne]
    · rintro ⟨hall, hends⟩
      obtain ⟨ho, hall⟩ := List.forall_mem_cons.1 hall
      have hlast : ¬ (u.value = .octetString [] ∧ us.flatMap Varbind.bytes = []) := by
        rintro ⟨hempty, hn⟩
        rw [hnil.1 hn] at hends
        exact hends u rfl hempty
      have hends' : EndsReadable us := by
        by_cases hne : us = []
        · subst hne
          exact fun v hv => absurd hv (by simp)
        · rwa [← endsReadable_cons u hne]
      obtain ⟨vs, hvs, hused⟩ := ih.2 ⟨hall, hends'⟩
      refine ⟨u :: vs, ?_, ?_⟩
      · rw [decode_varbind (hp _ (List.mem_cons_self ..)) (by omega) ho, if_neg hlast]
        simp [hvs]
      · rw [used_cons, if_neg (hp u (List.mem_cons_self ..)).ne_eoc, hused]

/-! ## Messages -/

theorem readOctets_ge : ∀ {n : Nat} {num v : UInt32} {inp rest : List UInt8},
    (num.toNat + 1) * 256 ^ n ≤ 2 ^ 32 → readOctets n num inp = some (v, rest) → num.toNat * 256 ^ n ≤ v.toNat
  | 0, num, v, inp, rest, _, h => by
    cases h
    simp
  | n + 1, num, v, [], rest, _, h => by cases h
  | n + 1, num, v, b :: inp, rest, hle, h => by
    have hb := b.toNat_lt
    have hpush : (pushOctet num b).toNat = num.toNat * 256 + b.toNat := by
      have hnum : num.toNat * 256 + b.toNat < 2 ^ 32 := by
        calc num.toNat * 256 + b.toNat < (num.toNat + 1) * 256 ^ 1 := by omega
          _ ≤ (num.toNat + 1) * 256 ^ (n + 1) := Nat.mul_le_mul_left _ (Nat.pow_le_pow_right (by omega) (by omega))
          _ ≤ 2 ^ 32 := hle
      rw [pushOctet, show (8 : UInt32) = UInt32.ofNat 8 from rfl,
        toNat_shiftLeft_or (by omega) _ _ (by rw [UInt8.toNat_toUInt32]; omega), UInt8.toNat_toUInt32]
      exact Nat.mod_eq_of_lt hnum
    have hle' : ((pushOctet num b).toNat + 1) * 256 ^ n ≤ 2 ^ 32 := by
      calc ((pushOctet num b).toNat + 1) * 256 ^ n ≤ ((num.toNat + 1) * 256) * 256 ^ n :=
            Nat.mul_le_mul_right _ (by omega)
        _ = (num.toNat + 1) * 256 ^ (n + 1) := by rw [Nat.mul_assoc, Nat.pow_succ, Nat.mul_comm 256]
        _ ≤ 2 ^ 32 := hle
    have ih := readOctets_ge hle' (show readOctets n (pushOctet num b) inp = some (v, rest) from h)
    calc num.toNat * 256 ^ (n + 1) = num.toNat * 256 * 256 ^ n := by rw [Nat.mul_assoc, Nat.pow_succ, Nat.mul_comm 256]
      _ ≤ (pushOctet num b).toNat * 256 ^ n := Nat.mul_le_mul_right _ (by omega)
      _ ≤ v.toNat := ih

/-- Behind a length of more than one byte the decoder finds no version: the first octet of the length
would have to be the type of an integer, and then the type of the version is its first octet. -/
theorem decode_long_length {n : Nat} (hge : 128 ≤ n) (hlt : n < 2 ^ 16) {rest rest' : List UInt8} {v : UInt32}
    (h : berDecodeInteger (octets n ++ berDataTypeInteger :: rest) = some (v, rest')) :
    v ≠ snmpVersion1 ∧ v ≠ snmpVersion2c := by
  by_cases hsmall : n < 256
  · rw [octets_of_lt hsmall] at h
    simp only [berDecodeInteger, berDecodeUnsignedInteger, List.singleton_append, berDecodeType, Option.bind_eq_bind,
      Option.bind_some] at h
    split at h
    · cases h
    · rename_i htype
      have : UInt8.ofNat n = berDataTypeInteger := by simpa using htype
      have := congrArg UInt8.toNat this
      rw [UInt8.toNat_ofNat', show berDataTypeInteger.toNat = 2 from rfl] at this
      omega
  · have hoct : octets n = [UInt8.ofNat (n / 256), UInt8.ofNat (n % 256)] := by
      rw [octets, digits_pos _ (by omega) (by omega), Nat.div_eq_of_lt (by omega), digits_zero,
        Nat.mod_eq_of_lt (by omega)]
      rfl
    rw [hoct] at h
    simp only [berDecodeInteger, berDecodeUnsignedInteger, List.cons_append, List.nil_append, berDecodeType,
      berDecodeLength, Option.bind_eq_bind, Option.bind_some] at h
    split at h
    · cases h
    split at h
    · cases h
    · rename_i hlen
      have hlen' : (UInt8.ofNat (n % 256)).toNat ≤ 4 := by
        rw [gt_iff_lt, UInt8.lt_iff_toNat_lt, Nat.not_lt] at hlen
        exact hlen
      have htwo : berDataTypeInteger.toUInt32.toNat = 2 := rfl
      have hk : (UInt8.ofNat (n % 256)).toNat - 1 ≤ 3 := by omega
      generalize (UInt8.ofNat (n % 256)).toNat - 1 = k at h hk
      have hpow : 256 ^ k ≤ 256 ^ 3 := Nat.pow_le_pow_right (by omega) hk
      have hone : 1 ≤ 256 ^ k := Nat.one_le_pow _ _ (by omega)
      have hv := readOctets_ge (by rw [htwo]; omega) h
      rw [htwo] at hv
      constructor
      · rintro rfl
        rw [show snmpVersion1.toNat = 0 from rfl] at hv
        omega
      · rintro rfl
        rw [show snmpVersion2c.toNat = 1 from rfl] at hv
        omega

def Header.read (h₀ h : Header) : Header :=
  if h.pduType = berDataTypePduGetBulk then
    { h with errorStatus := h₀.errorStatus, errorIndex := h₀.errorIndex }
  else { h with nonRepeaters := h₀.nonRepeaters, maxRepetitions := h₀.maxRepetitions }

theorem decode_pduFields (h₀ h : Header) (rest : List UInt8) :
    decodePduFields { h₀ with version := h.version, community := h.community, pduType := h.pduType, requestId := h.requestId }
      (h.pduFields.tail.flatMap integerBytes ++ rest) = some (h₀.read h, rest) := by
  unfold decodePduFields Header.pduFields Header.read
  by_cases hb : h.pduType = berDataTypePduGetBulk
  · simp [hb, decode_integer]
  · simp [hb, decode_integer]

theorem length_messageContent (h : Header) (blocks : List UInt8) :
    h.community.length ≤ (messageContent h blocks).length ∧ (pduContent h blocks).length ≤ (messageContent h blocks).length ∧
      blocks.length ≤ (messageContent h blocks).length := by
  have h₁ := length_tlv_ge h.pduType (pduContent h blocks)
  have h₂ := length_tlv_ge berDataTypeOctetString h.community
  have h₃ := length_tlv_ge berDataTypeSequence blocks
  have h₄ : (tlv berDataTypeSequence blocks).length ≤ (pduContent h blocks).length := by
    rw [pduContent, List.length_append]
    omega
  rw [messageContent, List.length_append, List.length_append]
  omega

theorem messageDecode_short (h₀ h : Header) (slots : Varbinds c) {blocks : List UInt8}
    (hlen : (messageContent h blocks).length < 128) :
    messageDecode h₀ slots (tlv berDataTypeSequence (messageContent h blocks)) =
      if (h.version = snmpVersion1 ∨ h.version = snmpVersion2c) ∧ h.pduType ∈ pduTypes then
        (decodeVarbinds slots.slots blocks).map fun vs => (h₀.read h, vs) else none := by
  obtain ⟨hcommunity, hpdu, hblocks⟩ : h.community.length < 128 ∧ (pduContent h blocks).length < 128 ∧ blocks.length < 128 := by
    have := length_messageContent h blocks
    omega
  have hfields : pduContent h blocks =
      integerBytes h.requestId ++ (h.pduFields.tail.flatMap integerBytes ++ tlv berDataTypeSequence blocks) := by
    unfold pduContent Header.pduFields
    split <;> simp
  have hrest : ¬ (h.community = [] ∧ tlv h.pduType (pduContent h blocks) = []) := fun hn => by cases hn.2
  rw [tlv_of_lt hlen, messageContent]
  simp only [messageDecode, berDecodeType, berDecodeLength, Option.bind_eq_bind, Option.bind_some, ne_eq,
    not_true_eq_false, if_false, decode_integer, decode_string hcommunity, hrest]
  by_cases hversion : h.version = snmpVersion1 ∨ h.version = snmpVersion2c
  · have hn : ¬ (¬ h.version = snmpVersion1 ∧ ¬ h.version = snmpVersion2c) := fun hn => hversion.elim hn.1 hn.2
    rw [if_neg hn, tlv_of_lt hpdu]
    simp only [Option.bind_some]
    by_cases hp : h.pduType ∈ pduTypes
    · rw [if_neg (not_not_intro hp), if_pos ⟨hversion, hp⟩, hfields]
      simp only [decode_integer, Option.bind_some, decode_pduFields, tlv_of_lt hblocks, not_true_eq_false, if_false]
      cases decodeVarbinds slots.slots blocks <;> rfl
    · rw [if_pos hp, if_neg (fun hn => hp hn.2)]
  · have hn : ¬ h.version = snmpVersion1 ∧ ¬ h.version = snmpVersion2c := not_or.1 hversion
    rw [if_pos hn, if_neg (fun hn => hversion hn.1)]

theorem messageDecode_long (h₀ h : Header) (slots : Varbinds c) {blocks : List UInt8}
    (hge : 128 ≤ (messageContent h blocks).length) (hlt : (messageContent h blocks).length < 2 ^ 16) :
    messageDecode h₀ slots (tlv berDataTypeSequence (messageContent h blocks)) = none := by
  have hcons : ∃ rest, messageContent h blocks = berDataTypeInteger :: rest := by
    rw [messageContent, integerBytes, tlv, List.cons_append]
    exact ⟨_, rfl⟩
  obtain ⟨rest, hrest⟩ := hcons
  rw [tlv, lengthOctets, if_neg (by omega), List.cons_append]
  simp only [messageDecode, berDecodeType, berDecodeLength, Option.bind_eq_bind, Option.bind_some, ne_eq,
    not_true_eq_false, if_false]
  cases hi : berDecodeInteger (octets (messageContent h blocks).length ++ messageContent h blocks) with
  | none => rfl
  | some r =>
    obtain ⟨v, inp⟩ := r
    rw [hrest] at hi hge hlt
    have hv := decode_long_length hge hlt hi
    simp only [Option.bind_some]
    exact if_pos hv

/-! ## The round trip -/

def SameHeader (h h' : Header) : Prop :=
  h'.version = h.version ∧ h'.community = h.community ∧ h'.pduType = h.pduType ∧ h'.requestId = h.requestId ∧
    if h.pduType = berDataTypePduGetBulk then h'.nonRepeaters = h.nonRepeaters ∧ h'.maxRepetitions = h.maxRepetitions
    else h'.errorStatus = h.errorStatus ∧ h'.errorIndex = h.errorIndex

theorem sameHeader_read (h₀ h : Header) : SameHeader h (h₀.read h) := by
  unfold SameHeader Header.read
  by_cases hb : h.pduType = berDataTypePduGetBulk <;> simp [hb]

/-- The bytes decode, into a header and varbinds that were cleared, to the same header and varbinds. -/
def ReadsBack {c : Conf} (h : Header) (vs : Varbinds c) (bytes : List UInt8) : Prop :=
  ∃ h' vs', messageDecode Header.cleared (Varbinds.cleared c) bytes = some (h', vs') ∧ SameHeader h h' ∧
    used vs' = used vs.slots

/-- The messages that the decoder gives back. -/
structure Readable {c : Conf} (h : Header) (vs : Varbinds c) : Prop where
  version : h.version = snmpVersion1 ∨ h.version = snmpVersion2c
  pduType : h.pduType ∈ pduTypes
  slots : c.maxNrValues ≤ 128 ∨ used vs.slots = []
  oids : ∀ v ∈ used vs.slots, ReadableArcs v.oid.data
  ends : EndsReadable (used vs.slots)
  short : (messageContent h ((used vs.slots).flatMap Varbind.ber)).length ≤ 127

theorem flatMap_ber : ∀ {us : List (Varbind c)}, (∀ v ∈ us, ReadableArcs v.oid.data) →
    us.flatMap Varbind.bytes = us.flatMap Varbind.ber
  | [], _ => rfl
  | u :: us, h => by
    rw [List.flatMap_cons, List.flatMap_cons, bytes_eq_ber (h u (List.mem_cons_self ..)),
      flatMap_ber fun v hv => h v (List.mem_cons_of_mem _ hv)]

theorem length_tlv_lt {type : UInt8} {content : List UInt8} {max : UInt16}
    (h : (tlv type content).length ≤ max.toNat) : content.length < 2 ^ 16 := by
  have := length_tlv_ge type content
  have := max.toNat_lt
  omega

theorem used_cleared (c : Conf) : used (Varbinds.cleared c).slots = [] := by
  unfold used Varbinds.cleared
  rw [List.filter_replicate]
  simp

theorem length_used_le (vs : Varbinds c) : (used vs.slots).length ≤ (Varbinds.cleared c).slots.length := by
  rw [(Varbinds.cleared c).size, ← vs.size]
  exact List.length_filter_le _ _

/-- What the encoder wrote for a message of any header, community and varbinds of plain values reads
back exactly when the message is readable. -/
theorem messageDecode_messageEncode {c : Conf} {max : UInt16} {h : Header} {vs : Varbinds c} {bytes : List UInt8}
    (hv : ∀ v ∈ used vs.slots, v.value.Plain) (he : messageEncode max h vs = some bytes) :
    ReadsBack h vs bytes ↔ Readable h vs := by
  obtain ⟨rfl, hmax⟩ := messageEncode_bytes hv he
  have hwritten : (c.maxNrValues ≤ 128 ∨ used vs.slots = []) → written vs = used vs.slots := by
    intro hslots
    unfold written
    split
    · rfl
    · exact (hslots.resolve_left ‹_›).symm
  by_cases hlen : (messageContent h ((written vs).flatMap Varbind.bytes)).length < 128
  · have hblocks := (length_messageContent h ((written vs).flatMap Varbind.bytes)).2.2
    rw [ReadsBack, messageDecode_short _ _ _ hlen]
    constructor
    · rintro ⟨h', vs', hdec, -, hused⟩
      split at hdec
      · rename_i hhead
        obtain ⟨ws, hws, hdec⟩ := Option.map_eq_some_iff.1 hdec
        obtain ⟨-, rfl⟩ := Prod.mk.inj hdec
        have hslots : c.maxNrValues ≤ 128 ∨ used vs.slots = [] := by
          by_cases hle : c.maxNrValues ≤ 128
          · exact Or.inl hle
          · have hnone : written vs = [] := if_neg hle
            have hdec : decodeVarbinds (Varbinds.cleared c).slots [] = some (Varbinds.cleared c).slots := by
              cases (Varbinds.cleared c).slots <;> rfl
            rw [hnone, List.flatMap_nil, hdec] at hws
            cases hws
            exact Or.inr (hused.symm.trans (used_cleared c))
        rw [hwritten hslots] at hlen hblocks hws
        obtain ⟨hoids, hends⟩ := (decode_varbinds hv (by omega) (length_used_le vs) (used_cleared c)).1 ⟨ws, hws, hused⟩
        rw [flatMap_ber hoids] at hlen
        exact ⟨hhead.1, hhead.2, hslots, hoids, hends, by omega⟩
      · cases hdec
    · intro hr
      rw [hwritten hr.slots] at hlen hblocks ⊢
      obtain ⟨ws, hws, hused⟩ :=
        (decode_varbinds hv (by omega) (length_used_le vs) (used_cleared c)).2 ⟨hr.oids, hr.ends⟩
      rw [if_pos ⟨hr.version, hr.pduType⟩, hws]
      exact ⟨_, ws, rfl, sameHeader_read _ _, hused⟩
  · constructor
    · rintro ⟨h', vs', hdec, -, -⟩
      rw [messageDecode_long _ _ _ (Nat.not_lt.1 hlen) (length_tlv_lt hmax)] at hdec
      cases hdec
    · intro hr
      rw [hwritten hr.slots, flatMap_ber hr.oids] at hlen
      exact absurd hr.short (by omega)

def smallConf : Conf := ⟨16, 2, by decide, by decide⟩

def smallHeader : Header := ⟨snmpVersion2c, [112, 117, 98, 108, 105, 99], berDataTypePduGetResponse, 7, 0, 0, 0, 0⟩

def oneVarbind (value : Value smallConf) : Varbinds smallConf :=
  ⟨[⟨⟨[1, 3, 6, 1, 2, 1, 1, 1, 0], by decide⟩, value⟩, ⟨⟨[], by decide⟩, .eoc⟩], rfl⟩

theorem messageDecode_messageEncode_small : ReadsBack smallHeader (oneVarbind (.integer 300))
      [48, 40, 2, 1, 1, 4, 6, 112, 117, 98, 108, 105, 99, 162, 27, 2, 1, 7, 2, 1, 0, 2, 1, 0, 48, 16, 48, 14, 6, 8, 43, 6,
        1, 2, 1, 1, 1, 0, 2, 2, 1, 44] ↔ Readable smallHeader (oneVarbind (.integer 300)) :=
  messageDecode_messageEncode (by decide) (show messageEncode 64 smallHeader _ = some _ by decide)

/-- A message of more than 127 bytes is written, and the decoder refuses it. -/
theorem long_message_not_read : (∀ v ∈ used (oneVarbind (.octetString (List.replicate 100 97))).slots, v.value.Plain) ∧
    ∃ bytes, messageEncode 1280 smallHeader (oneVarbind (.octetString (List.replicate 100 97))) = some bytes ∧
      ¬ ReadsBack smallHeader (oneVarbind (.octetString (List.replicate 100 97))) bytes := by
  obtain ⟨hsome, hnone⟩ : (messageEncode 1280 smallHeader (oneVarbind (.octetString (List.replicate 100 97)))).isSome ∧
      (messageEncode 1280 smallHeader (oneVarbind (.octetString (List.replicate 100 97)))).bind
        (messageDecode Header.cleared (Varbinds.cleared smallConf)) = none := by
    decide +kernel
  obtain ⟨bytes, he⟩ := Option.isSome_iff_exists.1 hsome
  rw [he, Option.bind_some] at hnone
  refine ⟨by decide, bytes, he, ?_⟩
  rintro ⟨h', vs', hdec, -⟩
  rw [hnone] at hdec
  cases hdec

end Contiki.Snmp

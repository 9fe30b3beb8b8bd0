/-
What the encoder of SNMP messages has written when it succeeds, one lemma for each writer: numbers,
strings and sequences are the BER triples of their contents. An identifier takes the byte in front of
which it is written into account, which is its own second arc only when it has one.
-/
import Contiki.Snmp.Model
import Contiki.Lib.Ber

namespace Contiki.Snmp

open Contiki.Lib Contiki.Lib.Ber

/-- On a buffer that is not overfull, a successful `f` leaves `g out` behind where `out` was. -/
def Emits (f : Packet → Option Packet) (g : List UInt8 → List UInt8) : Prop :=
  ∀ ⦃out : List UInt8⦄ ⦃max : UInt16⦄ ⦃p : Packet⦄, out.length ≤ max.toNat → f ⟨out, max⟩ = some p →
    p = ⟨g out, max⟩ ∧ (g out).length ≤ max.toNat

theorem emits_put (b : UInt8) : Emits (Packet.put b) (fun out => b :: out) := by
  intro out max p hle h
  unfold Packet.put at h
  split at h
  · cases h
  · rename_i hne
    cases h
    exact ⟨rfl, by simp only [List.length_cons] at hne ⊢; omega⟩

theorem Emits.bind {f f' : Packet → Option Packet} {g g' : List UInt8 → List UInt8} (hf : Emits f g)
    (hf' : Emits f' g') : Emits (fun p => f p >>= f') (fun out => g' (g out)) := by
  intro out max p hle h
  obtain ⟨q, hq, hp⟩ := Option.bind_eq_some_iff.1 h
  obtain ⟨rfl, hle'⟩ := hf hle hq
  exact hf' hle' hp

theorem emits_some : Emits some (fun out => out) := by
  intro out max p hle h
  cases h
  exact ⟨rfl, hle⟩

theorem Emits.congr {f : Packet → Option Packet} {g g' : List UInt8 → List UInt8} (hf : Emits f g)
    (hg : ∀ out, g out = g' out) : Emits f g' := by
  rwa [← funext hg]

/-! ## Numbers and lengths -/

theorem emits_whilePut {shift : Nat} {byte f : Nat → UInt8} (hs : 0 < shift)
    (hbyte : ∀ v, byte v = f (v % 2 ^ shift)) :
    ∀ {n number : Nat}, number < (2 ^ shift) ^ n →
      Emits (whilePut shift byte n number) (fun out => digits (2 ^ shift) f number ++ out)
  | 0, number, hlt => by
    obtain rfl : number = 0 := by simpa using hlt
    simpa [whilePut] using emits_some
  | n + 1, number, hlt => by
    have hb : 1 < 2 ^ shift := Nat.one_lt_two_pow (by omega)
    rcases Nat.eq_zero_or_pos number with rfl | hpos
    · simpa [whilePut] using emits_some
    · have hdiv : number >>> shift < (2 ^ shift) ^ n := by
        rw [Nat.shiftRight_eq_div_pow, Nat.div_lt_iff_lt_mul (by omega), ← Nat.pow_succ]
        exact hlt
      have hboth := (emits_put (byte number)).bind (emits_whilePut hs hbyte hdiv)
      have hfun : whilePut shift byte (n + 1) number = fun p => p.put (byte number) >>= whilePut shift byte n (number >>> shift) := by
        funext p
        rw [whilePut, if_neg (by omega)]
      rw [hfun]
      refine hboth.congr fun out => ?_
      rw [digits_pos f hb hpos, hbyte, Nat.shiftRight_eq_div_pow, List.append_assoc, List.singleton_append]

theorem emits_length {n : Nat} (hn : n < 2 ^ 16) :
    Emits (berEncodeLength (UInt16.ofNat n)) (fun out => lengthOctets n ++ out) := by
  have hnat : (UInt16.ofNat n).toNat = n := by rw [UInt16.toNat_ofNat', Nat.mod_eq_of_lt hn]
  have hlow : (UInt16.ofNat n).toUInt8 = UInt8.ofNat (n % 256) := by
    apply UInt8.toNat_inj.1
    rw [UInt16.toNat_toUInt8, hnat, UInt8.toNat_ofNat']
    omega
  have hhigh : (UInt16.ofNat n >>> 8).toUInt8 = UInt8.ofNat (n / 256) := by
    apply UInt8.toNat_inj.1
    rw [UInt16.toNat_toUInt8, UInt16.toNat_shiftRight, hnat, UInt8.toNat_ofNat']
    simp [Nat.shiftRight_eq_div_pow]
  have hff : UInt16.ofNat n > 0xFF ↔ 255 < n := by
    rw [gt_iff_lt, UInt16.lt_iff_toNat_lt, hnat]; rfl
  have h7f : UInt16.ofNat n > 0x7F ↔ 127 < n := by
    rw [gt_iff_lt, UInt16.lt_iff_toNat_lt, hnat]; rfl
  by_cases h1 : 255 < n
  · have hoct : octets n = [UInt8.ofNat (n / 256), UInt8.ofNat (n % 256)] := by
      rw [octets, digits_pos _ (by omega) (by omega), Nat.div_eq_of_lt (by omega), digits_zero,
        Nat.mod_eq_of_lt (by omega)]
      rfl
    have hfun : berEncodeLength (UInt16.ofNat n) = fun p => p.put (UInt8.ofNat (n % 256)) >>= fun p =>
        p.put (UInt8.ofNat (n / 256)) >>= fun p => p.put 0x82 := by
      funext p
      rw [berEncodeLength, if_pos (hff.2 h1), hlow, hhigh]
    rw [hfun]
    refine ((emits_put _).bind ((emits_put _).bind (emits_put _))).congr fun out => ?_
    rw [lengthOctets, if_neg (by omega), hoct]
    rfl
  · by_cases h2 : 127 < n
    · have hfun : berEncodeLength (UInt16.ofNat n) = fun p => p.put (UInt8.ofNat (n % 256)) >>= fun p => p.put 0x81 := by
        funext p
        rw [berEncodeLength, if_neg (by rwa [hff]), if_pos (h7f.2 h2), hlow]
      rw [hfun]
      refine ((emits_put _).bind (emits_put _)).congr fun out => ?_
      rw [lengthOctets, if_neg (by omega), octets_of_lt (by omega), Nat.mod_eq_of_lt (by omega)]
      rfl
    · have hmask : (UInt16.ofNat n).toUInt8 &&& 0x7F = UInt8.ofNat n := by
        apply UInt8.toNat_inj.1
        rw [toNat_and_mask, hlow, UInt8.toNat_ofNat', UInt8.toNat_ofNat']
        omega
      have hfun : berEncodeLength (UInt16.ofNat n) = fun p => p.put (UInt8.ofNat n) := by
        funext p
        rw [berEncodeLength, if_neg (by rwa [hff]), if_neg (by rwa [h7f]), hmask]
      rw [hfun]
      refine (emits_put _).congr fun out => ?_
      rw [lengthOctets_of_lt (by omega)]
      rfl

theorem emits_header {out content : List UInt8} {max : UInt16} {type : UInt8} {p : Packet}
    (hle : (content ++ out).length ≤ max.toNat)
    (h : (berEncodeLength (UInt16.ofNat ((content ++ out).length - out.length)) ⟨content ++ out, max⟩ >>= fun p =>
      berEncodeType type p) = some p) :
    p = ⟨tlv type content ++ out, max⟩ ∧ (tlv type content ++ out).length ≤ max.toNat := by
  have hlen : (content ++ out).length - out.length = content.length := by simp
  have hmax := max.toNat_lt
  have hlt : content.length < 2 ^ 16 := by
    simp only [List.length_append] at hle
    omega
  rw [hlen] at h
  have := (emits_length hlt).bind (emits_put type) hle h
  simpa [tlv] using this

theorem emits_unsignedInteger (type : UInt8) (number : UInt32) :
    Emits (berEncodeUnsignedInteger type number) (fun out => tlv type (octets number.toNat) ++ out) := by
  intro out max p hle h
  have hlt := number.toNat_lt
  have hbyte : ∀ v : Nat, UInt8.ofNat (v &&& 0xFF) = UInt8.ofNat (v % 2 ^ 8) := by
    intro v
    rw [show 0xFF = 2 ^ 8 - 1 from rfl, Nat.and_two_pow_sub_one_eq_mod]
  simp only [berEncodeUnsignedInteger] at h
  obtain ⟨q, hq, h⟩ := Option.bind_eq_some_iff.1 h
  obtain ⟨rfl, hle'⟩ := emits_put _ hle hq
  obtain ⟨q, hq, h⟩ := Option.bind_eq_some_iff.1 h
  have hdiv : number.toNat >>> 8 < (2 ^ 8) ^ 4 := by
    rw [Nat.shiftRight_eq_div_pow]
    omega
  obtain ⟨rfl, hle'⟩ := emits_whilePut (by omega) hbyte hdiv hle' hq
  dsimp only at h hle'
  have hcontent : digits (2 ^ 8) UInt8.ofNat (number.toNat >>> 8) ++ UInt8.ofNat (number.toNat &&& 0xFF) :: out =
      octets number.toNat ++ out := by
    rw [octets, hbyte, Nat.shiftRight_eq_div_pow, List.append_assoc, List.singleton_append]
    rfl
  rw [hcontent] at h hle'
  exact emits_header hle' h

/-! ## Strings and identifiers -/

theorem emits_string : ∀ str : List UInt8, Emits (putString str) (fun out => str ++ out)
  | [] => emits_some
  | b :: bs => (emits_string bs).bind (emits_put b)

theorem emits_stringLen (str : List UInt8) :
    Emits (berEncodeStringLen str) (fun out => tlv berDataTypeOctetString str ++ out) := by
  intro out max p hle h
  obtain ⟨q, hq, h⟩ := Option.bind_eq_some_iff.1 h
  obtain ⟨rfl, hle'⟩ := emits_string str hle hq
  refine emits_header hle' ?_
  rw [List.length_append, Nat.add_sub_cancel]
  exact h

theorem emits_arc {val : Nat} (hval : val < 2 ^ 32) : Emits (putArc val) (fun out => septets val ++ out) := by
  have hmask : ∀ v : Nat, v &&& 0x7F = v % 2 ^ 7 := by
    intro v
    rw [show 0x7F = 2 ^ 7 - 1 from rfl, Nat.and_two_pow_sub_one_eq_mod]
  have hbyte : ∀ v : Nat, UInt8.ofNat ((v &&& 0x7F) ||| 0x80) = (fun d => UInt8.ofNat (d + 128)) (v % 2 ^ 7) := by
    intro v
    have hor : v % 2 ^ 7 ||| 0x80 = v % 2 ^ 7 + 128 := by
      rw [Nat.or_comm, show 0x80 = 2 ^ 7 * 1 from rfl, ← Nat.two_pow_add_eq_or_of_lt (Nat.mod_lt _ (by omega)), Nat.add_comm]
    rw [hmask, hor]
  have hdiv : val >>> 7 < (2 ^ 7) ^ 5 := by
    rw [Nat.shiftRight_eq_div_pow]
    omega
  refine ((emits_put _).bind (emits_whilePut (f := fun d => UInt8.ofNat (d + 128)) (by omega) hbyte hdiv)).congr fun out => ?_
  rw [septets, hmask, Nat.shiftRight_eq_div_pow, List.append_assoc, List.singleton_append]
  rfl

theorem emits_arcs : ∀ arcs : List UInt32,
    Emits (putArcs arcs) (fun out => arcs.flatMap (fun x => septets x.toNat) ++ out)
  | [] => emits_some
  | val :: arcs => by
    refine ((emits_arcs arcs).bind (emits_arc val.toNat_lt)).congr fun out => ?_
    rw [List.flatMap_cons, List.append_assoc]

/-- What `snmp_ber_encode_oid` makes of the bytes behind it. -/
@[grind =]
def oidBytes (oid : List UInt32) (out : List UInt8) : List UInt8 :=
  match oid with
  | [] => out
  | first :: arcs =>
    match arcs.flatMap (fun x => septets x.toNat) ++ out with
    | [] => []
    | b :: rest =>
      let content := septets ((b.toNat + 40 * first.toNat) % 2 ^ 32) ++ rest
      berDataTypeObjectIdentifier :: (lengthOctets (content.length - out.length) ++ content)

theorem emits_oid (oid : List UInt32) : Emits (berEncodeOid oid) (oidBytes oid) := by
  intro out max p hle h
  cases oid with
  | nil => cases h
  | cons first arcs =>
    simp only [berEncodeOid] at h
    obtain ⟨q, hq, h⟩ := Option.bind_eq_some_iff.1 h
    obtain ⟨rfl, hle'⟩ := emits_arcs arcs hle hq
    split at h
    · cases h
    · simp only [oidBytes]
      cases hb : arcs.flatMap (fun x => septets x.toNat) ++ out with
      | nil =>
        simp only [hb] at h
        cases h
      | cons b rest =>
        simp only [hb] at h hle' ⊢
        obtain ⟨q, hq, h⟩ := Option.bind_eq_some_iff.1 h
        have hrest : rest.length ≤ max.toNat := by
          simp only [List.length_cons] at hle'
          omega
        obtain ⟨rfl, hle'⟩ := emits_arc (Nat.mod_lt _ (by omega)) hrest hq
        have hmax := max.toNat_lt
        exact (emits_length (by simp only at hle' ⊢; omega)).bind (emits_put _) hle' h

theorem oidBytes_two (first second : UInt32) (arcs : List UInt32) (out : List UInt8) :
    ∃ b t, septets second.toNat = b :: t ∧ oidBytes (first :: second :: arcs) out =
      tlv berDataTypeObjectIdentifier (septets ((b.toNat + 40 * first.toNat) % 2 ^ 32) ++
        (t ++ arcs.flatMap (fun x => septets x.toNat))) ++ out := by
  obtain ⟨b, t, hbt⟩ := List.exists_cons_of_length_pos (length_septets_pos second.toNat)
  refine ⟨b, t, hbt, ?_⟩
  simp only [oidBytes, List.flatMap_cons, hbt, List.cons_append, tlv, List.append_assoc, List.cons.injEq, true_and]
  congr 2
  simp only [List.length_append]
  omega

theorem oidBytes_one (first : UInt32) (b : UInt8) (out : List UInt8) : oidBytes [first] (b :: out) =
      berDataTypeObjectIdentifier :: (lengthOctets ((septets ((b.toNat + 40 * first.toNat) % 2 ^ 32)).length - 1) ++
          (septets ((b.toNat + 40 * first.toNat) % 2 ^ 32) ++ out)) := by
  simp only [oidBytes, List.flatMap_nil, List.nil_append, List.cons.injEq, true_and]
  congr 2
  simp only [List.length_append, List.length_cons]
  omega

theorem oidBytes_append (oid : List UInt32) (b : UInt8) (bs out : List UInt8) :
    oidBytes oid (b :: bs ++ out) = oidBytes oid (b :: bs) ++ out := by
  match oid with
  | [] => rfl
  | [first] =>
    rw [List.cons_append, oidBytes_one, oidBytes_one]
    simp [List.append_assoc]
  | first :: second :: arcs =>
    obtain ⟨b₁, t₁, h₁, e₁⟩ := oidBytes_two first second arcs (b :: bs ++ out)
    obtain ⟨b₂, t₂, h₂, e₂⟩ := oidBytes_two first second arcs (b :: bs)
    obtain ⟨rfl, rfl⟩ : b₁ = b₂ ∧ t₁ = t₂ := by simpa [h₁] using h₂
    rw [e₁, e₂, List.append_assoc]

/-! ## Varbinds and messages -/

/-- A value of one of the four types that `snmp_message_decode` reads. -/
def Value.Plain {c : Conf} : Value c → Prop
  | .integer _ | .timeticks _ | .octetString _ | .null => True
  | _ => False

instance {c : Conf} : DecidablePred (Value.Plain (c := c)) := fun v =>
  match v with
  | .integer _ | .timeticks _ | .octetString _ | .null => isTrue trivial
  | .eoc | .objectIdentifier _ | .noSuchInstance | .endOfMibView | .other => isFalse id

@[grind =]
def Value.bytes {c : Conf} : Value c → List UInt8
  | .integer n => tlv berDataTypeInteger (octets n.toNat)
  | .timeticks n => tlv berDataTypeTimeticks (octets n.toNat)
  | .octetString s => tlv berDataTypeOctetString s
  | _ => tlv berDataTypeNull []

theorem Value.Plain.ne_eoc {c : Conf} {v : Value c} (h : v.Plain) : v ≠ .eoc := by
  rintro rfl
  exact h

theorem Value.bytes_cons {c : Conf} (v : Value c) : ∃ b bs, v.bytes = b :: bs := by
  cases v <;> exact ⟨_, _, rfl⟩

theorem emits_value {c : Conf} {v : Value c} (h : v.Plain) : Emits (encodeValue v) (fun out => v.bytes ++ out) := by
  cases v with
  | integer n => exact emits_unsignedInteger _ _
  | timeticks n => exact emits_unsignedInteger _ _
  | octetString s => exact emits_stringLen s
  | null => exact (emits_put 0x00).bind (emits_put berDataTypeNull)
  | eoc | objectIdentifier _ | noSuchInstance | endOfMibView | other => exact absurd h id

@[grind =]
def Varbind.bytes {c : Conf} (v : Varbind c) : List UInt8 :=
  tlv berDataTypeSequence (oidBytes v.oid.data v.value.bytes)

theorem emits_varbind {c : Conf} {v : Varbind c} (h : v.value.Plain) :
    Emits (encodeVarbind v) (fun out => v.bytes ++ out) := by
  intro out max p hle he
  rw [encodeVarbind, if_neg h.ne_eoc] at he
  obtain ⟨q, hq, he⟩ := Option.bind_eq_some_iff.1 he
  obtain ⟨rfl, hle'⟩ := emits_value h hle hq
  obtain ⟨q, hq, he⟩ := Option.bind_eq_some_iff.1 he
  obtain ⟨rfl, hle'⟩ := emits_oid _ hle' hq
  obtain ⟨b, bs, hb⟩ := v.value.bytes_cons
  have happ : oidBytes v.oid.data (v.value.bytes ++ out) = oidBytes v.oid.data v.value.bytes ++ out := by
    rw [hb, oidBytes_append]
  rw [happ] at he hle'
  exact emits_header hle' he

theorem used_cons {c : Conf} (v : Varbind c) (vs : List (Varbind c)) :
    used (v :: vs) = if v.value = .eoc then used vs else v :: used vs := by
  unfold used
  rw [List.filter_cons]
  by_cases h : v.value = .eoc <;> simp [h]

theorem emits_varbinds {c : Conf} : ∀ {vs : List (Varbind c)}, (∀ v ∈ used vs, v.value.Plain) →
    Emits (encodeVarbinds vs) (fun out => (used vs).flatMap Varbind.bytes ++ out)
  | [], _ => emits_some
  | v :: vs, h => by
    by_cases hv : v.value = .eoc
    · rw [used_cons, if_pos hv] at h ⊢
      have hskip : Emits (encodeVarbind v) fun out => out := by
        intro out max p hle he
        rw [encodeVarbind, if_pos hv] at he
        exact emits_some hle he
      exact ((emits_varbinds h).bind hskip).congr fun out => rfl
    · rw [used_cons, if_neg hv] at h ⊢
      have hrest := emits_varbinds fun w (hw : w ∈ used vs) => h w (List.mem_cons_of_mem _ hw)
      refine (hrest.bind (emits_varbind (h v (List.mem_cons_self ..)))).congr fun out => ?_
      rw [List.flatMap_cons, List.append_assoc]

def Header.pduFields (h : Header) : List UInt32 :=
  if h.pduType = berDataTypePduGetBulk then [h.requestId, h.nonRepeaters, h.maxRepetitions]
  else [h.requestId, h.errorStatus, h.errorIndex]

def integerBytes (n : UInt32) : List UInt8 := tlv berDataTypeInteger (octets n.toNat)

def pduContent (h : Header) (varbinds : List UInt8) : List UInt8 :=
  h.pduFields.flatMap integerBytes ++ tlv berDataTypeSequence varbinds

def messageContent (h : Header) (varbinds : List UInt8) : List UInt8 :=
  integerBytes h.version ++ (tlv berDataTypeOctetString h.community ++ tlv h.pduType (pduContent h varbinds))

theorem take_firstIndex {c : Conf} (vs : Varbinds c) :
    vs.slots.take (firstIndex c + 1).toNat = if c.maxNrValues ≤ 128 then vs.slots else [] := by
  have hle := c.maxNrValues_le
  unfold firstIndex
  split
  · rename_i h
    have : Int.bmod ((c.maxNrValues : Int) - 1) 256 = (c.maxNrValues : Int) - 1 := by
      rw [Int.bmod_eq_of_le (by omega) (by omega)]
    rw [this, List.take_of_length_le (by rw [vs.size]; omega)]
  · have : Int.bmod ((c.maxNrValues : Int) - 1) 256 = (c.maxNrValues : Int) - 1 - 256 := by
      rw [Int.bmod_def]
      omega
    rw [this, show ((c.maxNrValues : Int) - 1 - 256 + 1).toNat = 0 by omega, List.take_zero]

def written {c : Conf} (vs : Varbinds c) : List (Varbind c) := if c.maxNrValues ≤ 128 then used vs.slots else []

theorem emits_pduFields (h : Header) :
    Emits (encodePduFields h) (fun out => h.pduFields.tail.flatMap integerBytes ++ out) := by
  unfold encodePduFields Header.pduFields
  split
  · refine ((emits_unsignedInteger _ _).bind (emits_unsignedInteger _ _)).congr fun out => ?_
    simp [integerBytes]
  · refine ((emits_unsignedInteger _ _).bind (emits_unsignedInteger _ _)).congr fun out => ?_
    simp [integerBytes]

theorem emits_outer {content : List UInt8} {max : UInt16} {type : UInt8} {β : Type} {x : β}
    {rest : Packet → Option β} (hle : content.length ≤ max.toNat)
    (h : (berEncodeLength (UInt16.ofNat content.length) ⟨content, max⟩ >>= fun p => berEncodeType type p >>= rest) =
      some x) : (tlv type content).length ≤ max.toNat ∧ rest ⟨tlv type content, max⟩ = some x := by
  have hmax := max.toNat_lt
  obtain ⟨q, hq, h⟩ := Option.bind_eq_some_iff.1 h
  obtain ⟨rfl, hle'⟩ := emits_length (by omega) hle hq
  obtain ⟨q, hq, h⟩ := Option.bind_eq_some_iff.1 h
  obtain ⟨rfl, hle'⟩ := emits_put type hle' hq
  exact ⟨hle', h⟩

theorem messageEncode_bytes {c : Conf} {max : UInt16} {h : Header} {vs : Varbinds c} {bytes : List UInt8}
    (hv : ∀ v ∈ used vs.slots, v.value.Plain) (he : messageEncode max h vs = some bytes) :
    bytes = tlv berDataTypeSequence (messageContent h ((written vs).flatMap Varbind.bytes)) ∧
      bytes.length ≤ max.toNat := by
  have hslots : used (vs.slots.take (firstIndex c + 1).toNat) = written vs := by
    rw [take_firstIndex, written]
    split <;> rfl
  have hplain : ∀ v ∈ used (vs.slots.take (firstIndex c + 1).toNat), v.value.Plain := by
    rw [hslots]
    intro v hmem
    unfold written at hmem
    split at hmem
    · exact hv v hmem
    · cases hmem
  rw [messageEncode] at he
  obtain ⟨q, hq, he⟩ := Option.bind_eq_some_iff.1 he
  obtain ⟨rfl, hle⟩ := emits_varbinds hplain (Nat.zero_le _) hq
  dsimp only at hle he
  rw [hslots, List.append_nil] at hle he
  generalize (written vs).flatMap Varbind.bytes = blocks at hle he ⊢
  obtain ⟨hle, he⟩ := emits_outer hle he
  obtain ⟨q, hq, he⟩ := Option.bind_eq_some_iff.1 he
  obtain ⟨rfl, hle⟩ := emits_pduFields h hle hq
  obtain ⟨q, hq, he⟩ := Option.bind_eq_some_iff.1 he
  obtain ⟨rfl, hle⟩ := emits_unsignedInteger _ _ hle hq
  have hpdu : integerBytes h.requestId ++ (h.pduFields.tail.flatMap integerBytes ++ tlv berDataTypeSequence blocks) =
      pduContent h blocks := by
    unfold pduContent Header.pduFields
    split <;> simp
  change (integerBytes h.requestId ++ _).length ≤ _ at hle
  change (berEncodeLength (UInt16.ofNat (integerBytes h.requestId ++ _).length) ⟨integerBytes h.requestId ++ _, max⟩ >>= _) = _ at he
  rw [hpdu] at hle he
  obtain ⟨hle, he⟩ := emits_outer hle he
  obtain ⟨q, hq, he⟩ := Option.bind_eq_some_iff.1 he
  obtain ⟨rfl, hle⟩ := emits_stringLen _ hle hq
  obtain ⟨q, hq, he⟩ := Option.bind_eq_some_iff.1 he
  obtain ⟨rfl, hle⟩ := emits_unsignedInteger _ _ hle hq
  obtain ⟨hle, he⟩ := emits_outer hle he
  obtain rfl := Option.some.inj he
  exact ⟨rfl, hle⟩

end Contiki.Snmp

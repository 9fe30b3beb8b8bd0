/-
The TLV format of LWM2M (lwm2m-tlv.c): the writer, its size function and the reader, with the positions of the buffer that
each of them accesses. The reader takes the number of bytes it is given but never looks at it, and the writer's check for room
counts the bytes of the identifier in a way of its own.
-/
import Contiki.Lib.Mem
import Contiki.Lib.Cursor

namespace Contiki.Lwm2m

open Contiki.Lib

/-- `lwm2m_tlv_t`, with the bytes that `value` points to; without them only a header is written. -/
structure Tlv where
  type : UInt8
  id : UInt16
  length : UInt32
  value : Option (List UInt8)
  length_eq : ∀ v ∈ value, v.length = length.toNat

/-- What the reader leaves in its `lwm2m_tlv_t`, with the position that `value` points to, what it returns and the positions
it reads. `size_t` has 32 bits or more, which no sum here fills. -/
structure Found where
  type : UInt8
  id : UInt16
  length : UInt32
  value : Nat
  ret : Nat
  reads : Cursor

def getLenType (tlv : Tlv) : UInt8 :=
  if tlv.length < 8 then 0
  else if tlv.length < 256 then 1
  else if tlv.length < 0x10000 then 2
  else 3

def tlvGetSize (tlv : Tlv) : Nat :=
  1 + (getLenType tlv).toNat + (if 255 < tlv.id then 2 else 1) + tlv.length.toNat

def next (buffer : Mem) (c : Cursor) : UInt8 := buffer c.pos

@[grind =]
def readLength (buffer : Mem) : Nat → Cursor → Nat → Nat × Cursor
  | 0, c, tlvLen => (tlvLen, c)
  | lenType + 1, c, tlvLen => readLength buffer lenType (c.take 1) (tlvLen <<< 8 ||| (next buffer c).toNat)

/-- `lwm2m_tlv_read`; the second argument is not used there either. -/
def tlvRead (buffer : Mem) (_ : Nat) : Found :=
  let first := buffer 0
  let lenType := (first >>> 3) &&& 3
  let wide := first &&& (1 : UInt8) <<< 5 != 0
  let c := (Cursor.start.take 1).take 1
  let id := (buffer 1).toUInt16
  -- there is more of the identifier to read
  let (id, c) := if wide then (id <<< 8 + (next buffer c).toUInt16, c.take 1) else (id, c)
  let (tlvLen, c) := if lenType = 0 then ((first &&& 7).toNat, c) else readLength buffer lenType.toNat c 0
  { type := (first >>> 6) &&& 3, id, length := UInt32.ofNat tlvLen, value := c.pos, ret := c.pos + tlvLen, reads := c }

def firstByte (tlv : Tlv) : UInt8 :=
  tlv.type <<< 6 ||| (if 255 < tlv.id then (1 : UInt8) <<< 5 else 0) ||| getLenType tlv <<< 3 |||
    (if getLenType tlv = 0 then tlv.length.toUInt8 else 0)

def writeHeader (tlv : Tlv) (o : Out) : Out :=
  let lenType := getLenType tlv
  let o := o.byte (firstByte tlv)
  let o := if 255 < tlv.id then o.byte (tlv.id >>> 8).toUInt8 else o
  let o := o.byte tlv.id.toUInt8
  let o := if 2 < lenType then o.byte (tlv.length >>> 16).toUInt8 else o
  let o := if 1 < lenType then o.byte (tlv.length >>> 8).toUInt8 else o
  if 0 < lenType then o.byte tlv.length.toUInt8 else o

/-- `lwm2m_tlv_write`: what it returns, and the buffer with the positions written. -/
def tlvWrite (tlv : Tlv) (buffersize : Nat) (buffer : Mem) : Nat × Out :=
  let o : Out := ⟨buffer, Cursor.start⟩
  let pos := 1 + (getLenType tlv).toNat
  if tlv.value.isSome ∧ buffersize < tlv.length.toNat + pos then (0, o)
  else if buffersize < pos + 2 then (0, o)
  else
    let o := writeHeader tlv o
    match tlv.value with
    | some v => (o.cursor.pos + tlv.length.toNat, if 0 < tlv.length then o.bytes v else o)
    | none => (o.cursor.pos, o)

/-! ## What a header announces -/

def idBytes (first : UInt8) : Nat := 1 + first.toNat / 32 % 2

def lenBytes (first : UInt8) : Nat := first.toNat / 8 % 4

/-- The number that the bytes make, the highest first. -/
def bigEndian (l : List UInt8) : Nat := l.foldl (fun n b => n * 256 + b.toNat) 0

def contentLength (buffer : Mem) : Nat :=
  if lenBytes (buffer 0) = 0 then (buffer 0).toNat % 8
  else bigEndian (Mem.read (1 + idBytes (buffer 0)) (lenBytes (buffer 0)) buffer)

def announced (buffer : Mem) : Nat :=
  1 + idBytes (buffer 0) + lenBytes (buffer 0) + contentLength buffer

variable {tlv : Tlv} {buffer : Mem}

/-! ## Reading -/

theorem firstBits (first : UInt8) : ((first &&& (1 : UInt8) <<< 5 != 0) = true ↔ idBytes first = 2) ∧
    ((first >>> 3) &&& 3).toNat = lenBytes first ∧ (first &&& 7).toNat = first.toNat % 8 := by
  revert first
  apply forall_byte
  decide +kernel

theorem wide_iff (first : UInt8) : (first &&& (1 : UInt8) <<< 5 != 0) = true ↔ idBytes first = 2 := (firstBits first).1

theorem lenType_toNat (first : UInt8) : ((first >>> 3) &&& 3).toNat = lenBytes first := (firstBits first).2.1

theorem low_toNat (first : UInt8) : (first &&& 7).toNat = first.toNat % 8 := (firstBits first).2.2

theorem idBytes_eq (first : UInt8) : idBytes first = 1 ∨ idBytes first = 2 := by
  unfold idBytes
  omega

theorem first_fields (wide : Bool) {t lt low : UInt8} (ht : t < 4) (hlt : lt < 4) (hlow : low < 8) (b : UInt8)
    (hb : b = t <<< 6 ||| (if wide then (1 : UInt8) <<< 5 else 0) ||| lt <<< 3 ||| low) :
    (b >>> 6) &&& 3 = t ∧ idBytes b = (if wide then 2 else 1) ∧ lenBytes b = lt.toNat ∧ b.toNat % 8 = low.toNat := by
  have hall : ∀ (w : Bool) (i j : Fin 4) (k : Fin 8),
      let b := UInt8.ofNat i <<< 6 ||| (if w then (1 : UInt8) <<< 5 else 0) ||| UInt8.ofNat j <<< 3 ||| UInt8.ofNat k
      (b >>> 6) &&& 3 = UInt8.ofNat i ∧ idBytes b = (if w then 2 else 1) ∧ lenBytes b = (UInt8.ofNat j).toNat ∧
        b.toNat % 8 = (UInt8.ofNat k).toNat := by decide +kernel
  have := hall wide ⟨t.toNat, UInt8.lt_iff_toNat_lt.1 ht⟩ ⟨lt.toNat, UInt8.lt_iff_toNat_lt.1 hlt⟩
    ⟨low.toNat, UInt8.lt_iff_toNat_lt.1 hlow⟩
  simp only [UInt8.ofNat_toNat] at this
  rw [hb]
  exact this

theorem bigEndian_concat (l : List UInt8) (b : UInt8) : bigEndian (l ++ [b]) = bigEndian l * 256 + b.toNat := by
  unfold bigEndian
  rw [List.foldl_append]
  rfl

theorem bigEndian_lt (l : List UInt8) : bigEndian l < 256 ^ l.length := by
  induction l using List.reverseRecOn with
  | nil => exact Nat.one_pos
  | append_singleton l b ih =>
    have hb := b.toNat_lt
    rw [bigEndian_concat, List.length_append, List.length_singleton, Nat.pow_succ]
    omega

theorem shift_byte (n : Nat) (b : UInt8) : n <<< 8 ||| b.toNat = n * 256 + b.toNat := by
  rw [← Nat.shiftLeft_add_eq_or_of_lt b.toNat_lt, Nat.shiftLeft_eq]

variable (buffer) in
theorem readLength_eq : ∀ (n : Nat) (c : Cursor) (l : List UInt8), c.Full → ∃ c', c'.Full ∧ c'.pos = c.pos + n ∧
    readLength buffer n c (bigEndian l) = (bigEndian (l ++ Mem.read c.pos n buffer), c')
  | 0, c, l, hc => ⟨c, hc, rfl, by rw [readLength, Mem.read, List.append_nil]⟩
  | n + 1, c, l, hc => by
    obtain ⟨c', hc', hpos, heq⟩ := readLength_eq n (c.take 1) (l ++ [next buffer c]) (hc.take 1)
    rw [Cursor.pos_take] at hpos heq
    refine ⟨c', hc', by omega, ?_⟩
    rw [readLength, shift_byte, ← bigEndian_concat, heq, List.append_assoc]
    rfl

/-- What the reader finds is what the header announces, whatever the number of bytes it is given. -/
structure Found.Announced (f : Found) (buffer : Mem) : Prop where
  type : f.type = (buffer 0 >>> 6) &&& 3
  id : f.id = if idBytes (buffer 0) = 2 then (buffer 1).toUInt16 <<< 8 + (buffer 2).toUInt16 else (buffer 1).toUInt16
  length : f.length.toNat = contentLength buffer
  value : f.value = 1 + idBytes (buffer 0) + lenBytes (buffer 0)
  ret : f.ret = f.value + f.length.toNat
  full : f.reads.Full
  reads : f.reads.pos = f.value

theorem contentLength_lt : contentLength buffer < 2 ^ 32 := by
  unfold contentLength
  split_ifs with h
  · omega
  · refine (bigEndian_lt _).trans_le ?_
    rw [Mem.length_read, show 2 ^ 32 = 256 ^ 4 from rfl]
    exact Nat.pow_le_pow_right (by decide) (by unfold lenBytes; omega)

theorem tlvRead_announced (buffer : Mem) (len : Nat) : (tlvRead buffer len).Announced buffer := by
  obtain ⟨c₁, hc₁, hpos₁, hid⟩ : ∃ c₁, c₁.Full ∧ c₁.pos = 1 + idBytes (buffer 0) ∧
      (if (buffer 0 &&& (1 : UInt8) <<< 5 != 0) = true then
        ((buffer 1).toUInt16 <<< 8 + (next buffer ((Cursor.start.take 1).take 1)).toUInt16, ((Cursor.start.take 1).take 1).take 1)
      else ((buffer 1).toUInt16, (Cursor.start.take 1).take 1)) =
        (if idBytes (buffer 0) = 2 then (buffer 1).toUInt16 <<< 8 + (buffer 2).toUInt16 else (buffer 1).toUInt16, c₁) := by
    rcases idBytes_eq (buffer 0) with hid | hid
    · refine ⟨_, (Cursor.full_start.take 1).take 1, by rw [hid]; rfl, ?_⟩
      rw [if_neg (fun h => by have := (wide_iff _).1 h; omega), if_neg (by omega)]
    · refine ⟨_, ((Cursor.full_start.take 1).take 1).take 1, by rw [hid]; rfl, ?_⟩
      rw [if_pos ((wide_iff _).2 hid), if_pos hid]
      rfl
  obtain ⟨c₂, hc₂, hpos₂, hlen⟩ : ∃ c₂, c₂.Full ∧ c₂.pos = c₁.pos + lenBytes (buffer 0) ∧
      (if (buffer 0 >>> 3) &&& 3 = 0 then ((buffer 0 &&& 7).toNat, c₁)
      else readLength buffer ((buffer 0 >>> 3) &&& 3).toNat c₁ 0) = (contentLength buffer, c₂) := by
    have hzero : (buffer 0 >>> 3) &&& 3 = 0 ↔ lenBytes (buffer 0) = 0 := by
      rw [← lenType_toNat, ← UInt8.toNat_inj]
      rfl
    unfold contentLength
    by_cases h : lenBytes (buffer 0) = 0
    · refine ⟨c₁, hc₁, by omega, ?_⟩
      rw [if_pos (hzero.2 h), if_pos h, low_toNat]
    · obtain ⟨c₂, hc₂, hpos₂, hread⟩ := readLength_eq buffer (lenBytes (buffer 0)) c₁ [] hc₁
      refine ⟨c₂, hc₂, hpos₂, ?_⟩
      rw [if_neg (mt hzero.1 h), if_neg h, lenType_toNat, ← hpos₁]
      exact hread
  unfold tlvRead
  dsimp only
  rw [hid]
  dsimp only
  rw [hlen]
  have hlt : (UInt32.ofNat (contentLength buffer)).toNat = contentLength buffer := by
    rw [UInt32.toNat_ofNat', Nat.mod_eq_of_lt contentLength_lt]
  exact ⟨rfl, rfl, hlt, by rw [hpos₂, hpos₁], by rw [hlt], hc₂, rfl⟩

theorem tlvRead_within (buffer : Mem) (len : Nat) : (tlvRead buffer len).reads.Within len ∧
    (tlvRead buffer len).value + (tlvRead buffer len).length.toNat ≤ len ↔ announced buffer ≤ len := by
  have h := tlvRead_announced buffer len
  rw [h.full.within_iff, h.reads, h.length, h.value]
  unfold announced
  omega

/-! ## Writing -/

def idField (tlv : Tlv) : List UInt8 :=
  (if 255 < tlv.id then [(tlv.id >>> 8).toUInt8] else []) ++ [tlv.id.toUInt8]

def lenField (tlv : Tlv) : List UInt8 :=
  (if 2 < getLenType tlv then [(tlv.length >>> 16).toUInt8] else []) ++
    (if 1 < getLenType tlv then [(tlv.length >>> 8).toUInt8] else []) ++
    (if 0 < getLenType tlv then [tlv.length.toUInt8] else [])

def header (tlv : Tlv) : List UInt8 := firstByte tlv :: (idField tlv ++ lenField tlv)

theorem getLenType_cases (tlv : Tlv) :
    (getLenType tlv = 0 ∧ tlv.length.toNat < 8) ∨ (getLenType tlv = 1 ∧ tlv.length.toNat < 256) ∨
      (getLenType tlv = 2 ∧ tlv.length.toNat < 65536) ∨ getLenType tlv = 3 := by
  unfold getLenType
  split_ifs with h₁ h₂ h₃
  · exact .inl ⟨rfl, UInt32.lt_iff_toNat_lt.1 h₁⟩
  · exact .inr (.inl ⟨rfl, UInt32.lt_iff_toNat_lt.1 h₂⟩)
  · exact .inr (.inr (.inl ⟨rfl, UInt32.lt_iff_toNat_lt.1 h₃⟩))
  · exact .inr (.inr (.inr rfl))

theorem length_lenField (tlv : Tlv) : (lenField tlv).length = (getLenType tlv).toNat := by
  unfold lenField
  rcases getLenType_cases tlv with ⟨h, -⟩ | ⟨h, -⟩ | ⟨h, -⟩ | h <;> rw [h] <;> rfl

theorem length_idField (tlv : Tlv) : (idField tlv).length = if 255 < tlv.id then 2 else 1 := by
  unfold idField
  split_ifs <;> rfl

theorem length_header (tlv : Tlv) : (header tlv).length + tlv.length.toNat = tlvGetSize tlv := by
  unfold header tlvGetSize
  rw [List.length_cons, List.length_append, length_idField, length_lenField]
  omega

theorem writeHeader_eq (tlv : Tlv) (o : Out) : writeHeader tlv o = o.bytes (header tlv) := by
  have hall : [firstByte tlv] ++ (if 255 < tlv.id then [(tlv.id >>> 8).toUInt8] else []) ++ [tlv.id.toUInt8] ++
      (if 2 < getLenType tlv then [(tlv.length >>> 16).toUInt8] else []) ++
      (if 1 < getLenType tlv then [(tlv.length >>> 8).toUInt8] else []) ++
      (if 0 < getLenType tlv then [tlv.length.toUInt8] else []) = header tlv := by
    unfold header idField lenField
    simp only [List.append_assoc, List.cons_append, List.nil_append]
  unfold writeHeader
  dsimp only
  -- every branch becomes bytes that are there or not
  simp only [← Out.bytes_singleton]
  simp only [Out.bytes_ite]
  simp only [← Out.bytes_append]
  rw [hall]

/-- Where the check of the writer refuses. -/
def refusedBelow (tlv : Tlv) : Nat := 1 + (getLenType tlv).toNat + max tlv.length.toNat 2

theorem tlvWrite_some {v : List UInt8} (hv : tlv.value = some v) (buffersize : Nat) (buffer : Mem) :
    tlvWrite tlv buffersize buffer = if buffersize < refusedBelow tlv then (0, ⟨buffer, Cursor.start⟩)
      else (tlvGetSize tlv, Out.bytes (header tlv ++ v) ⟨buffer, Cursor.start⟩) := by
  have hlen : v.length = tlv.length.toNat := tlv.length_eq v hv
  have hbelow : buffersize < refusedBelow tlv ↔
      buffersize < tlv.length.toNat + (1 + (getLenType tlv).toNat) ∨ buffersize < 1 + (getLenType tlv).toNat + 2 := by
    unfold refusedBelow
    omega
  have hvalue : ∀ o : Out, (if 0 < tlv.length then o.bytes v else o) = o.bytes v := by
    intro o
    split_ifs with hpos
    · rfl
    · have hzero : tlv.length.toNat = 0 := Nat.eq_zero_of_not_pos fun h => hpos (UInt32.lt_iff_toNat_lt.2 h)
      rw [List.eq_nil_of_length_eq_zero (hlen.trans hzero)]
      rfl
  unfold tlvWrite
  dsimp only
  by_cases h₁ : buffersize < tlv.length.toNat + (1 + (getLenType tlv).toNat)
  · rw [if_pos ⟨by rw [hv]; rfl, h₁⟩, if_pos (hbelow.2 (.inl h₁))]
  · rw [if_neg fun h => h₁ h.2]
    by_cases h₂ : buffersize < 1 + (getLenType tlv).toNat + 2
    · rw [if_pos h₂, if_pos (hbelow.2 (.inr h₂))]
    · rw [if_neg h₂, if_neg fun h => (hbelow.1 h).elim h₁ h₂, hv, writeHeader_eq]
      dsimp only
      rw [hvalue, ← Out.bytes_append, Out.pos_bytes, Cursor.pos_start, Nat.zero_add, length_header]

theorem firstByte_fields (htype : tlv.type < 4) : (firstByte tlv >>> 6) &&& 3 = tlv.type ∧
    idBytes (firstByte tlv) = (idField tlv).length ∧ lenBytes (firstByte tlv) = (getLenType tlv).toNat ∧
      (getLenType tlv = 0 → (firstByte tlv).toNat % 8 = tlv.length.toNat) := by
  have hlow : (if getLenType tlv = 0 then tlv.length.toUInt8 else 0) < 8 ∧
      (getLenType tlv = 0 → tlv.length.toUInt8.toNat = tlv.length.toNat) := by
    rcases getLenType_cases tlv with ⟨h, hlt⟩ | ⟨h, -⟩ | ⟨h, -⟩ | h
    · have hsame : tlv.length.toUInt8.toNat = tlv.length.toNat := by
        rw [UInt32.toNat_toUInt8]
        exact Nat.mod_eq_of_lt (by omega)
      refine ⟨?_, fun _ => hsame⟩
      rw [if_pos h, UInt8.lt_iff_toNat_lt, hsame]
      exact hlt
    all_goals
      have hne : getLenType tlv ≠ 0 := by
        rw [h]
        decide
      rw [if_neg hne]
      exact ⟨by decide, fun h' => absurd h' hne⟩
  have hlt : getLenType tlv < 4 := by
    rcases getLenType_cases tlv with ⟨h, -⟩ | ⟨h, -⟩ | ⟨h, -⟩ | h <;> rw [h] <;> decide
  obtain ⟨h₁, h₂, h₃, h₄⟩ := first_fields (decide (255 < tlv.id)) htype hlt hlow.1 (firstByte tlv) (by
    unfold firstByte
    simp only [decide_eq_true_eq])
  refine ⟨h₁, ?_, h₃, fun h => ?_⟩
  · rw [h₂, length_idField]
    simp only [decide_eq_true_eq]
  · rw [h₄, if_pos h, hlow.2 h]

theorem bigEndian_lenField (h : getLenType tlv ≠ 0) (hlt : tlv.length.toNat < 2 ^ 24) :
    bigEndian (lenField tlv) = tlv.length.toNat := by
  have h₀ : tlv.length.toUInt8.toNat = tlv.length.toNat % 256 := UInt32.toNat_toUInt8 _
  have h₁ : (tlv.length >>> 8).toUInt8.toNat = tlv.length.toNat / 256 % 256 := by
    rw [UInt32.toNat_toUInt8, UInt32.toNat_shiftRight]
    simp [Nat.shiftRight_eq_div_pow]
  have h₂ : (tlv.length >>> 16).toUInt8.toNat = tlv.length.toNat / 65536 % 256 := by
    rw [UInt32.toNat_toUInt8, UInt32.toNat_shiftRight]
    simp [Nat.shiftRight_eq_div_pow]
  unfold lenField bigEndian
  rcases getLenType_cases tlv with ⟨h', -⟩ | ⟨h', hlen⟩ | ⟨h', hlen⟩ | h'
  · exact absurd h' h
  · rw [h']
    show 0 * 256 + tlv.length.toUInt8.toNat = _
    omega
  · rw [h']
    show (0 * 256 + (tlv.length >>> 8).toUInt8.toNat) * 256 + tlv.length.toUInt8.toNat = _
    omega
  · rw [h']
    show ((0 * 256 + (tlv.length >>> 16).toUInt8.toNat) * 256 + (tlv.length >>> 8).toUInt8.toNat) * 256 +
      tlv.length.toUInt8.toNat = _
    omega

theorem idField_word (hw : Mem.Holds 1 (idField tlv) buffer) :
    (if (idField tlv).length = 2 then (buffer 1).toUInt16 <<< 8 + (buffer 2).toUInt16 else (buffer 1).toUInt16) = tlv.id := by
  have hid := tlv.id.toNat_lt
  unfold idField at hw
  rw [length_idField]
  split_ifs at hw with h
  · obtain ⟨h₁, h₂, -⟩ := hw
    rw [if_pos h, if_pos rfl, h₁, h₂, ← UInt16.toNat_inj, UInt16.toNat_add, UInt16.toNat_shiftLeft]
    simp [Nat.shiftLeft_eq, Nat.shiftRight_eq_div_pow]
    omega
  · have hle : tlv.id.toNat ≤ 255 := by
      rw [UInt16.lt_iff_toNat_lt] at h
      exact Nat.le_of_not_lt h
    rw [if_neg h, if_neg (by decide), hw.1, ← UInt16.toNat_inj]
    simp
    omega

theorem tlvRead_header {v : List UInt8} (hv : tlv.value = some v) (htype : tlv.type < 4) (hlt : tlv.length.toNat < 2 ^ 24)
    (hmem : Mem.Holds 0 (header tlv ++ v) buffer) (len : Nat) :
    (tlvRead buffer len).type = tlv.type ∧ (tlvRead buffer len).id = tlv.id ∧ (tlvRead buffer len).length = tlv.length ∧
      Mem.read (tlvRead buffer len).value tlv.length.toNat buffer = v ∧ (tlvRead buffer len).ret = tlvGetSize tlv := by
  have h := tlvRead_announced buffer len
  obtain ⟨hheader, hvalue⟩ := Mem.holds_append.1 hmem
  obtain ⟨hfirst, hrest⟩ := hheader
  obtain ⟨hid, hlen⟩ := Mem.holds_append.1 hrest
  obtain ⟨htype', hidBytes, hlenBytes, hlow⟩ := firstByte_fields htype
  have hcontent : contentLength buffer = tlv.length.toNat := by
    unfold contentLength
    rw [hfirst, hlenBytes]
    by_cases hzero : getLenType tlv = 0
    · rw [if_pos (by rw [hzero]; rfl), hlow hzero]
    · rw [if_neg fun he : (getLenType tlv).toNat = 0 => hzero (UInt8.toNat_inj.1 he), hidBytes, ← length_lenField]
      rw [Mem.read_of_holds hlen, bigEndian_lenField hzero hlt]
  have hlength : (tlvRead buffer len).length = tlv.length := UInt32.toNat_inj.1 (h.length.trans hcontent)
  have hpos : (tlvRead buffer len).value = (header tlv).length := by
    rw [h.value, hfirst, hidBytes, hlenBytes, ← length_lenField, header, List.length_cons, List.length_append]
    omega
  refine ⟨?_, ?_, hlength, ?_, ?_⟩
  · rw [h.type, hfirst, htype']
  · rw [h.id, hfirst, hidBytes]
    exact idField_word hid
  · rw [hpos, ← tlv.length_eq v hv]
    rw [Nat.zero_add] at hvalue
    exact Mem.read_of_holds hvalue
  · rw [h.ret, hpos, hlength, length_header]

/-- A TLV with its value survives the buffer: nothing outside it is written, the writer returns 0 or the size, and what it has
written reads as the TLV. -/
def Survives (tlv : Tlv) (v : List UInt8) (buffersize : Nat) (buffer : Mem) : Prop :=
  let w := tlvWrite tlv buffersize buffer
  w.2.cursor.Within buffersize ∧ (w.1 = 0 ∨ w.1 = tlvGetSize tlv) ∧ (w.1 ≠ 0 → ∀ len,
    (tlvRead w.2.mem len).type = tlv.type ∧ (tlvRead w.2.mem len).id = tlv.id ∧ (tlvRead w.2.mem len).length = tlv.length ∧
      Mem.read (tlvRead w.2.mem len).value tlv.length.toNat w.2.mem = v)

/-- The writer keeps to the buffer unless it is large enough for its check and too small for the TLV, and the reader unless it
is given fewer bytes than the header announces. -/
theorem tlv_codec (tlv : Tlv) (v : List UInt8) (hv : tlv.value = some v) (htype : tlv.type < 4)
    (hlt : tlv.length.toNat < 2 ^ 24) (buffersize : Nat) (buffer : Mem) (bytes : Mem) (len : Nat) :
    (Survives tlv v buffersize buffer ↔ buffersize < refusedBelow tlv ∨ tlvGetSize tlv ≤ buffersize) ∧
    ((tlvRead bytes len).reads.Within len ∧ (tlvRead bytes len).value + (tlvRead bytes len).length.toNat ≤ len ↔
      announced bytes ≤ len) := by
  refine ⟨?_, tlvRead_within bytes len⟩
  unfold Survives
  dsimp only
  rw [tlvWrite_some hv]
  by_cases hsize : buffersize < refusedBelow tlv
  · rw [if_pos hsize]
    exact iff_of_true ⟨Cursor.within_start, .inl rfl, fun h => absurd rfl h⟩ (.inl hsize)
  · rw [if_neg hsize]
    have hwithin : (Out.bytes (header tlv ++ v) ⟨buffer, Cursor.start⟩).cursor.Within buffersize ↔ tlvGetSize tlv ≤ buffersize := by
      have hpos : 0 < (header tlv ++ v).length := by simp [header]
      rw [Out.cursor_bytes, Cursor.within_take, Cursor.pos_start, ← length_header, ← tlv.length_eq v hv, ← List.length_append]
      exact ⟨fun h => by have := h.2; omega, fun h => ⟨Cursor.within_start, by omega⟩⟩
    constructor
    · exact fun h => .inr (hwithin.1 h.1)
    · rintro (h | h)
      · exact absurd h hsize
      · refine ⟨hwithin.2 h, .inr rfl, fun _ len => ?_⟩
        obtain ⟨h₁, h₂, h₃, h₄, -⟩ := tlvRead_header hv htype hlt (Out.bytes_holds (header tlv ++ v) ⟨buffer, Cursor.start⟩) len
        exact ⟨h₁, h₂, h₃, h₄⟩

theorem length_ofNat {v : List UInt8} (h : v.length < 2 ^ 32) : ∀ w ∈ some v, w.length = (UInt32.ofNat v.length).toNat := by
  rintro w ⟨⟩
  rw [UInt32.toNat_ofNat', Nat.mod_eq_of_lt h]

def wideResource : Tlv := ⟨3, 256, UInt32.ofNat [7].length, some [7], length_ofNat (by decide)⟩

theorem wideResource_codec : (Survives wideResource [7] 4 (fun _ => 0) ↔
      4 < refusedBelow wideResource ∨ tlvGetSize wideResource ≤ 4) ∧ ((tlvRead (fun _ => 0) 2).reads.Within 2 ∧
      (tlvRead (fun _ => 0) 2).value + (tlvRead (fun _ => 0) 2).length.toNat ≤ 2 ↔ announced (fun _ => 0) ≤ 2) :=
  tlv_codec wideResource [7] rfl (by decide) (by decide) 4 (fun _ => 0) (fun _ => 0) 2

/-- In a buffer of three bytes the fourth is written, and given no byte at all two are read. -/
theorem wideResource_outside : ¬ Survives wideResource [7] 3 (fun _ => 0) ∧ ¬ (tlvRead (fun _ => 0) 0).reads.Within 0 :=
  ⟨fun h => absurd (h.1 3 (by decide)) (by decide), fun h => absurd (h 0 (by decide)) (by decide)⟩

end Contiki.Lwm2m

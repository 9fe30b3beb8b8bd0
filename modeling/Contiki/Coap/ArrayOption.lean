/-
`coap_serialize_array_option` with the positions of the array that it reads. With a split character it always reads
behind the array; the segments come out when none but the first is empty and a header can hold their lengths.
-/
import Contiki.Coap.Parse

namespace Contiki.Coap.ArrayOption

open Lib

/-! ## The encoder -/

/-- The bytes written to the buffer and the positions of the array that were read. -/
structure Written where
  bytes : List UInt8
  reads : List Nat

/-- An option with `len` bytes of the array from `start` on. -/
def writePart (delta : UInt32) (array : Mem) (start len : Nat) : Written where
  bytes := coapSetOptionHeader delta.toNat len ++ Mem.read start len array
  reads := List.range' start len

/-- The loop for a split character; after a part `j` moves on over the splitter and once more. -/
@[grind =]
def splitLoop (number : UInt32) (array : Mem) (length : Nat) (splitChar : UInt8) (j partStart : Nat)
    (currentNumber : UInt32) : Written :=
  if j ≤ length + 1 then
    if array j = splitChar ∨ j = length then
      let part := writePart (number - currentNumber) array partStart (j - partStart)
      let rest := splitLoop number array length splitChar (j + 2) (j + 1) number
      ⟨part.bytes ++ rest.bytes, j :: (part.reads ++ rest.reads)⟩
    else
      let rest := splitLoop number array length splitChar (j + 1) partStart currentNumber
      ⟨rest.bytes, j :: rest.reads⟩
  else ⟨[], []⟩
termination_by length + 2 - j

def coapSerializeArrayOption (number currentNumber : UInt32) (array : Mem) (length : Nat) (splitChar : UInt8) : Written :=
  if splitChar ≠ 0 then splitLoop number array length splitChar 0 0 currentNumber
  else writePart (number - currentNumber) array 0 length

/-! ## Options on the wire -/

/-- What a nibble and the bytes behind the first one of an option stand for. -/
def readNibble (nibble : Nat) (l : List UInt8) : Option (Nat × List UInt8) :=
  if nibble = 13 then
    match l with
    | b :: l => some (13 + b.toNat, l)
    | [] => none
  else if nibble = 14 then
    match l with
    | a :: b :: l => some (269 + (a.toNat * 256 + b.toNat), l)
    | _ => none
  else if nibble = 15 then none
  else some (nibble, l)

/-- The delta and the value of the first option, and what follows it. -/
def readOption (l : List UInt8) : Option ((Nat × List UInt8) × List UInt8) :=
  match l with
  | [] => none
  | b :: l => (readNibble (b >>> 4).toNat l).bind fun d =>
    (readNibble (b &&& 0x0F).toNat d.2).bind fun n =>
      if n.1 ≤ n.2.length then some ((d.1, n.2.take n.1), n.2.drop n.1) else none

/-- The bytes are these options, one after the other. -/
inductive Options : List UInt8 → List (Nat × List UInt8) → Prop
  | nil : Options [] []
  | cons {bytes rest : List UInt8} {o : Nat × List UInt8} {os : List (Nat × List UInt8)}
      (h : readOption bytes = some (o, rest)) (hrest : Options rest os) : Options bytes (o :: os)

/-- The largest delta or length that a header can hold. -/
def maxHeld : Nat := 268 + 65536

theorem readNibble_le {nibble n : Nat} {l l' : List UInt8} (hnibble : nibble < 16) (h : readNibble nibble l = some (n, l')) :
    n ≤ maxHeld := by
  unfold readNibble at h
  unfold maxHeld
  split_ifs at h with h13 h14 h15
  · cases l with
    | nil => cases h
    | cons b l =>
      cases h
      have := b.toNat_lt
      omega
  · match l with
    | [] => cases h
    | [_] => cases h
    | a :: b :: l =>
      cases h
      have ha := a.toNat_lt
      have hb := b.toNat_lt
      omega
  · cases h
    omega

theorem readNibble_written {value : Nat} (hv : value ≤ maxHeld) (l : List UInt8) :
    readNibble (coapOptionNibble value).toNat (optionExtension value ++ l) = some (value, l) := by
  unfold maxHeld at hv
  unfold coapOptionNibble optionExtension
  by_cases h13 : value < 13
  · rw [if_pos h13, if_neg (by omega), if_neg (by omega)]
    have hn : (UInt8.ofNat value).toNat = value := by simp; omega
    unfold readNibble
    rw [hn, if_neg (by omega), if_neg (by omega), if_neg (by omega), List.nil_append]
  · by_cases h268 : value > 268
    · rw [if_neg h13, if_neg (by omega), if_pos h268]
      have hbytes : 269 + ((UInt8.ofNat ((value - 269) >>> 8)).toNat * 256 + (UInt8.ofNat (value - 269)).toNat) = value := by
        simp [Nat.shiftRight_eq_div_pow]
        omega
      unfold readNibble
      rw [if_neg (by decide), if_pos (by decide)]
      dsimp only [List.cons_append, List.nil_append]
      rw [hbytes]
    · rw [if_neg h13, if_pos (by omega), if_neg h268, if_pos (by omega)]
      have hbyte : 13 + (UInt8.ofNat (value - 13)).toNat = value := by
        simp
        omega
      unfold readNibble
      rw [if_pos (by decide)]
      dsimp only [List.cons_append, List.nil_append]
      rw [hbyte]

theorem readNibble_pos {value n : Nat} {l l' : List UInt8} (hv : 0 < value)
    (h : readNibble (coapOptionNibble value).toNat (optionExtension value ++ l) = some (n, l')) : 0 < n := by
  by_cases hle : value ≤ maxHeld
  · rw [readNibble_written hle] at h
    cases h
    exact hv
  · have h268 : value > 268 := by
      unfold maxHeld at hle
      omega
    unfold coapOptionNibble optionExtension at h
    rw [if_neg (by omega), if_neg (by omega), if_pos h268] at h
    unfold readNibble at h
    rw [if_neg (by decide), if_pos (by decide)] at h
    dsimp only [List.cons_append, List.nil_append] at h
    have hn := congrArg Prod.fst (Option.some.inj h)
    dsimp only at hn
    omega

theorem nibble_lt_16 (b : UInt8) : (b >>> 4).toNat < 16 ∧ (b &&& 0x0F).toNat < 16 := by
  constructor
  · rw [UInt8.toNat_shiftRight]
    have := b.toNat_lt
    have h4 : (4 : UInt8).toNat % 8 = 4 := by decide
    rw [h4, Nat.shiftRight_eq_div_pow]
    omega
  · rw [UInt8.toNat_and]
    exact Nat.lt_of_le_of_lt Nat.and_le_right (by decide)

theorem readOption_le {bytes rest : List UInt8} {o : Nat × List UInt8} (h : readOption bytes = some (o, rest)) :
    o.1 ≤ maxHeld ∧ o.2.length ≤ maxHeld := by
  cases bytes with
  | nil => cases h
  | cons b l =>
    obtain ⟨⟨d, l₁⟩, hd, h⟩ := Option.bind_eq_some_iff.1 h
    obtain ⟨⟨n, l₂⟩, hn, h⟩ := Option.bind_eq_some_iff.1 h
    dsimp only at hn h
    split_ifs at h
    cases h
    obtain ⟨hhigh, hlow⟩ := nibble_lt_16 b
    refine ⟨readNibble_le hhigh hd, (List.length_take_le ..).trans (readNibble_le hlow hn)⟩

theorem headerNibbles (delta length : Nat) :
    (coapOptionNibble delta <<< 4 ||| coapOptionNibble length) >>> 4 = coapOptionNibble delta ∧
      (coapOptionNibble delta <<< 4 ||| coapOptionNibble length) &&& 0x0F = coapOptionNibble length :=
  ⟨nibbles_high (nibble_le delta) (nibble_le length), nibbles_low (nibble_le delta) (nibble_le length)⟩

theorem readOption_tlv {delta : Nat} {value rest : List UInt8} (hd : delta ≤ maxHeld) (hv : value.length ≤ maxHeld) :
    readOption (tlv delta value ++ rest) = some ((delta, value), rest) := by
  obtain ⟨hhigh, hlow⟩ := headerNibbles delta value.length
  unfold tlv coapSetOptionHeader
  simp only [List.cons_append, List.append_assoc]
  unfold readOption
  dsimp only
  rw [hhigh, readNibble_written hd]
  dsimp only [Option.bind]
  rw [hlow, readNibble_written hv]
  dsimp only
  rw [if_pos (by simp), List.take_left, List.drop_left]

theorem readOption_ne_nil {delta : Nat} {value rest rest' : List UInt8} {o : Nat × List UInt8} (hd : delta ≤ maxHeld)
    (hv : value ≠ []) (h : readOption (tlv delta value ++ rest) = some (o, rest')) : o.2 ≠ [] := by
  obtain ⟨hhigh, hlow⟩ := headerNibbles delta value.length
  unfold tlv coapSetOptionHeader at h
  simp only [List.cons_append, List.append_assoc] at h
  unfold readOption at h
  dsimp only at h
  rw [hhigh, readNibble_written hd, Option.bind_some] at h
  dsimp only at h
  rw [hlow] at h
  obtain ⟨⟨n, l⟩, hn, h⟩ := Option.bind_eq_some_iff.1 h
  have hpos := readNibble_pos (List.length_pos_iff.2 hv) hn
  dsimp only at h
  split_ifs at h with hle
  cases h
  refine List.length_pos_iff.1 ?_
  show 0 < (l.take n).length
  rw [List.length_take_of_le hle]
  exact hpos

theorem options_tlv {delta : Nat} {value rest : List UInt8} {os : List (Nat × List UInt8)} :
    Options (tlv delta value ++ rest) ((delta, value) :: os) ↔
      (delta ≤ maxHeld ∧ value.length ≤ maxHeld) ∧ Options rest os := by
  constructor
  · intro h
    obtain - | ⟨hread, hrest⟩ := h
    have hle := readOption_le hread
    rw [readOption_tlv hle.1 hle.2] at hread
    cases hread
    exact ⟨hle, hrest⟩
  · rintro ⟨⟨hd, hv⟩, hrest⟩
    exact .cons (readOption_tlv hd hv) hrest

/-! ## The segments -/

variable {number currentNumber : UInt32} {array : Mem} {length j partStart : Nat} {c : UInt8}

theorem splitLoop_part (h : j ≤ length + 1) (hj : array j = c ∨ j = length) :
    splitLoop number array length c j partStart currentNumber =
      ⟨(writePart (number - currentNumber) array partStart (j - partStart)).bytes ++
          (splitLoop number array length c (j + 2) (j + 1) number).bytes,
        j :: ((writePart (number - currentNumber) array partStart (j - partStart)).reads ++
          (splitLoop number array length c (j + 2) (j + 1) number).reads)⟩ := by
  rw [splitLoop, if_pos h, if_pos hj]

theorem splitLoop_next (h : j ≤ length + 1) (hj : ¬ (array j = c ∨ j = length)) :
    splitLoop number array length c j partStart currentNumber =
      ⟨(splitLoop number array length c (j + 1) partStart currentNumber).bytes,
        j :: (splitLoop number array length c (j + 1) partStart currentNumber).reads⟩ := by
  rw [splitLoop, if_pos h, if_neg hj]

theorem splitLoop_end (h : length + 1 < j) : splitLoop number array length c j partStart currentNumber = ⟨[], []⟩ := by
  rw [splitLoop, if_neg (by omega)]

theorem writePart_bytes (delta : UInt32) (array : Mem) (start len : Nat) :
    (writePart delta array start len).bytes = tlv delta.toNat (Mem.read start len array) := by
  unfold writePart tlv
  rw [Mem.length_read]

theorem splitLoop_reads (number currentNumber : UInt32) (array : Mem) (partStart : Nat) (c : UInt8) (h : j ≤ length + 1) :
    ∃ x ∈ (splitLoop number array length c j partStart currentNumber).reads, length ≤ x := by
  induction hn : length + 1 - j using Nat.strong_induction_on generalizing j partStart currentNumber with
  | _ n ih =>
  by_cases hj : array j = c ∨ j = length
  · rw [splitLoop_part h hj]
    by_cases hlt : length ≤ j
    · exact ⟨j, List.mem_cons_self, hlt⟩
    · obtain ⟨x, hx, hle⟩ := @ih (length + 1 - (j + 2)) (by omega) (j + 2) number (j + 1)
        (by omega) rfl
      exact ⟨x, List.mem_cons_of_mem _ (List.mem_append_right _ hx), hle⟩
  · rw [splitLoop_next h hj]
    by_cases hlt : length ≤ j
    · exact ⟨j, List.mem_cons_self, hlt⟩
    · obtain ⟨x, hx, hle⟩ := @ih (length + 1 - (j + 1)) (by omega) (j + 1) currentNumber partStart
        (by omega) rfl
      exact ⟨x, List.mem_cons_of_mem _ hx, hle⟩

theorem splitLoop_first (number currentNumber : UInt32) (array : Mem) (length : Nat) (c : UInt8) (h : partStart ≤ j) :
    (splitLoop number array length c j partStart currentNumber).bytes = [] ∨
      ∃ value rest, j - partStart ≤ value.length ∧ (splitLoop number array length c j partStart currentNumber).bytes =
          tlv (number - currentNumber).toNat value ++ rest := by
  induction hn : length + 2 - j generalizing j with
  | zero =>
    rw [splitLoop_end (by omega)]
    exact .inl rfl
  | succ n ih =>
    by_cases hj : array j = c ∨ j = length
    · rw [splitLoop_part (by omega) hj, writePart_bytes]
      exact .inr ⟨_, _, (Mem.length_read ..).ge, rfl⟩
    · rw [splitLoop_next (by omega) hj]
      rcases ih (j := j + 1) (by omega) (by omega) with hnil | ⟨value, rest, hle, hbytes⟩
      · exact .inl hnil
      · exact .inr ⟨value, rest, by omega, hbytes⟩

theorem splitLoop_to {s : List UInt8} (hs : Mem.Holds partStart s array) (hc : c ∉ s) (hle : partStart + s.length ≤ length)
    (hj : partStart ≤ j) (hjle : j ≤ partStart + s.length) :
    (splitLoop number array length c j partStart currentNumber).bytes =
      (splitLoop number array length c (partStart + s.length) partStart currentNumber).bytes := by
  induction hn : partStart + s.length - j generalizing j with
  | zero =>
    obtain rfl : j = partStart + s.length := by omega
    rfl
  | succ n ih =>
    have hin : j - partStart < s.length := by omega
    have hbyte := Mem.holds_iff.1 hs (j - partStart) hin
    rw [Nat.add_sub_cancel' hj] at hbyte
    have hne : ¬ (array j = c ∨ j = length) := by
      rintro (heq | rfl)
      · exact hc (heq ▸ hbyte ▸ List.getElem_mem hin)
      · omega
    rw [splitLoop_next (by omega) hne]
    exact ih (by omega) (by omega) (by omega)

theorem splitLoop_segment {s : List UInt8} (hs : Mem.Holds partStart s array) (hc : c ∉ s)
    (hle : partStart + s.length ≤ length) (hend : array (partStart + s.length) = c ∨ partStart + s.length = length)
    (hj : partStart ≤ j) (hjle : j ≤ partStart + s.length) :
    (splitLoop number array length c j partStart currentNumber).bytes = tlv (number - currentNumber).toNat s ++
        (splitLoop number array length c (partStart + s.length + 2) (partStart + s.length + 1) number).bytes := by
  rw [splitLoop_to hs hc hle hj hjle, splitLoop_part (by omega) hend]
  dsimp only
  rw [writePart_bytes, Nat.add_sub_cancel_left, Mem.read_of_holds hs]

/-- The options for the segments: the first with the delta, the others with delta 0. -/
def segmentOptions (delta : Nat) : List (List UInt8) → List (Nat × List UInt8)
  | [] => []
  | s :: ss => (delta, s) :: ss.map fun t => (0, t)

/-- Headers can hold the delta and the lengths, and no segment but the first is empty. -/
structure Held (delta : Nat) (segments : List (List UInt8)) : Prop where
  delta : delta ≤ maxHeld
  lengths : ∀ s ∈ segments, s.length ≤ maxHeld
  nonempty : ∀ s ∈ segments.tail, s ≠ []

theorem held_singleton {delta : Nat} {s : List UInt8} : Held delta [s] ↔ delta ≤ maxHeld ∧ s.length ≤ maxHeld := by
  constructor
  · rintro ⟨hd, hl, -⟩
    exact ⟨hd, hl s (List.mem_singleton_self s)⟩
  · rintro ⟨hd, hl⟩
    refine ⟨hd, fun t ht => ?_, by rintro t ⟨⟩⟩
    rw [List.mem_singleton.1 ht]
    exact hl

theorem held_cons {delta : Nat} {s t : List UInt8} {ts : List (List UInt8)} (ht : t ≠ []) :
    Held delta (s :: t :: ts) ↔ (delta ≤ maxHeld ∧ s.length ≤ maxHeld) ∧ Held 0 (t :: ts) := by
  constructor
  · rintro ⟨hd, hl, hn⟩
    exact ⟨⟨hd, hl s List.mem_cons_self⟩, Nat.zero_le _, fun u hu => hl u (List.mem_cons_of_mem _ hu),
      fun u hu => hn u (List.mem_cons_of_mem _ hu)⟩
  · rintro ⟨⟨hd, hl⟩, -, hls, hns⟩
    refine ⟨hd, List.forall_mem_cons.2 ⟨hl, hls⟩, List.forall_mem_cons.2 ⟨ht, hns⟩⟩

/-- From a byte on that is no splitter, or from the beginning: the segments come out exactly when they are held. -/
theorem splitLoop_options : ∀ (n : Nat) {l : List UInt8} {j partStart : Nat} {currentNumber : UInt32},
    l.length = n → Mem.Holds partStart l array → partStart + l.length = length → partStart ≤ j →
    (∀ s ss, l.splitOn c = s :: ss → j ≤ partStart + s.length) →
    (Options (splitLoop number array length c j partStart currentNumber).bytes
        (segmentOptions (number - currentNumber).toNat (l.splitOn c)) ↔
      Held (number - currentNumber).toNat (l.splitOn c)) := by
  intro n
  induction n using Nat.strong_induction_on with
  | _ n ih =>
  intro l j partStart currentNumber hn hl hlen hj hjle
  by_cases hc : c ∈ l
  · obtain ⟨s, rest, rfl, hs⟩ := List.eq_append_cons_of_mem hc
    rw [List.splitOn_append_cons_self_of_not_mem hs] at hjle ⊢
    obtain ⟨hls, hlc, hlrest⟩ := Mem.holds_append.1 hl
    rw [List.length_append, List.length_cons] at hn hlen
    rw [splitLoop_segment hls hs (by omega) (.inl hlc) hj (hjle s _ rfl)]
    have hns : Mem.Holds (partStart + s.length + 1) rest array := hlrest
    cases ht : rest.splitOn c with
    | nil => exact absurd ht (List.splitOn_ne_nil c rest)
    | cons t ts =>
      by_cases hempty : t = []
      · -- the splitter is passed, or the end of the array
        subst hempty
        refine iff_of_false (fun h => ?_) fun h => h.nonempty [] List.mem_cons_self rfl
        obtain ⟨-, hrest⟩ := options_tlv.1 h
        rcases splitLoop_first number number array length c (Nat.le_succ (partStart + s.length + 1)) with hnil | ⟨value, rest', hle, hbytes⟩
        · rw [hnil] at hrest
          obtain - | ⟨hread, -⟩ := hrest
          cases hread
        · rw [hbytes] at hrest
          obtain - | ⟨hread, -⟩ := hrest
          refine readOption_ne_nil (by rw [UInt32.sub_self]; exact Nat.zero_le _) ?_ hread rfl
          exact List.length_pos_iff.1 (by omega)
      · have hlen' : 1 ≤ t.length := List.length_pos_iff.2 hempty
        have htail := @ih rest.length (by omega) rest (partStart + s.length + 2) _ number rfl hns
          (by omega) (by omega) (by
            rintro s' ss' heq
            rw [ht] at heq
            cases heq
            omega)
        rw [ht, UInt32.sub_self, UInt32.toNat_zero] at htail
        rw [held_cons hempty, ← htail]
        exact options_tlv
  · rw [List.splitOn_eq_singleton hc] at hjle ⊢
    rw [splitLoop_segment hl hc hlen.le (.inr hlen) hj (hjle l [] rfl), splitLoop_end (by omega), held_singleton]
    exact options_tlv.trans (and_iff_left .nil)

/-! ## The whole option -/

def segments (array : Mem) (length : Nat) (splitChar : UInt8) : List (List UInt8) :=
  if splitChar ≠ 0 then (Mem.read 0 length array).splitOn splitChar else [Mem.read 0 length array]

structure Right (number currentNumber : UInt32) (array : Mem) (length : Nat) (splitChar : UInt8) : Prop where
  reads : ∀ x ∈ (coapSerializeArrayOption number currentNumber array length splitChar).reads, x < length
  options : Options (coapSerializeArrayOption number currentNumber array length splitChar).bytes
    (segmentOptions (number - currentNumber).toNat (segments array length splitChar))

theorem reads_iff : (∀ x ∈ (coapSerializeArrayOption number currentNumber array length c).reads, x < length) ↔ c = 0 := by
  unfold coapSerializeArrayOption
  split_ifs with hc
  · refine iff_of_false (fun h => ?_) hc
    obtain ⟨x, hx, hle⟩ := splitLoop_reads number currentNumber array 0 c (Nat.zero_le (length + 1))
    exact absurd (h x hx) (by omega)
  · refine iff_of_true (fun x hx => ?_) (not_not.1 hc)
    have := (List.mem_range'_1.1 hx).2
    omega

theorem options_iff : Options (coapSerializeArrayOption number currentNumber array length c).bytes
      (segmentOptions (number - currentNumber).toNat (segments array length c)) ↔
    Held (number - currentNumber).toNat (segments array length c) := by
  unfold coapSerializeArrayOption segments
  split_ifs with hc
  · refine splitLoop_options length (Mem.length_read ..) (Mem.holds_read.2 fun _ _ => rfl) ?_ le_rfl fun s _ _ => ?_
    · rw [Mem.length_read, Nat.zero_add]
    · exact Nat.zero_le _
  · rw [writePart_bytes, held_singleton]
    have := @options_tlv (number - currentNumber).toNat (Mem.read 0 length array) [] []
    rw [List.append_nil] at this
    exact this.trans (and_iff_left .nil)

/-- With no split character the whole array comes out as one option, if a header can hold its length. With one the array
is left, and the segments come out exactly when they are held. -/
theorem coap_serialize_array_option_right (number currentNumber : UInt32) (array : Mem) (length : Nat) (c : UInt8) :
    (Right number currentNumber array length c ↔ c = 0 ∧ Held (number - currentNumber).toNat (segments array length c)) ∧
      (Options (coapSerializeArrayOption number currentNumber array length c).bytes
          (segmentOptions (number - currentNumber).toNat (segments array length c)) ↔
        Held (number - currentNumber).toNat (segments array length c)) := by
  refine ⟨⟨?_, ?_⟩, options_iff⟩
  · rintro ⟨hreads, hoptions⟩
    exact ⟨reads_iff.1 hreads, options_iff.1 hoptions⟩
  · rintro ⟨hc, hheld⟩
    exact ⟨reads_iff.2 hc, options_iff.2 hheld⟩

/-- The path `a//b`. -/
def doubled : Mem := fun i => [97, 47, 47, 98].getD i 0

/-- The empty segment is lost, and a byte behind the path is read. -/
theorem doubled_wrong : ¬ (∀ x ∈ (coapSerializeArrayOption 11 0 doubled 4 47).reads, x < 4) ∧
    ¬ Options (coapSerializeArrayOption 11 0 doubled 4 47).bytes
      (segmentOptions (11 - 0 : UInt32).toNat (segments doubled 4 47)) := by
  constructor
  · exact fun h => absurd (reads_iff.1 h) (by decide)
  · exact fun h => (options_iff.1 h).nonempty [] (by decide) rfl

end Contiki.Coap.ArrayOption

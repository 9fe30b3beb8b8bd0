/-
Serializing and parsing a message built with the setters: it comes back, with every option that is
set, exactly when its block sizes are powers of two and its Block1 flag is one bit. The options are
read in the order they were written, each of them leaving the values read before as they are.
-/
import Contiki.Coap.Parse
import Contiki.Lib.Mem

namespace Contiki.Coap

open Contiki.Lib

/-! ## Values of options -/

/-- What an option of a message says. -/
inductive OptionValue (S : Type)
  | flag
  | int (v : UInt32)
  | bytes (v : List UInt8)
  | block (num : UInt32) (more : UInt8) (size : UInt16)
  | str (v : S)

def OptionValue.map {S T : Type} (f : S → T) : OptionValue S → OptionValue T
  | .flag => .flag
  | .int v => .int v
  | .bytes v => .bytes v
  | .block num more size => .block num more size
  | .str v => .str (f v)

def Block.value {S : Type} (b : Block) : OptionValue S := .block b.num b.more b.size

@[grind =]
def Message.value {S : Type} (m : Message S) : CoapOption → OptionValue S
  | .ifMatch => .bytes m.ifMatch
  | .uriHost => .str m.uriHost
  | .etag => .bytes m.etag
  | .ifNoneMatch => .flag
  | .observe => .int m.observe.toUInt32
  | .uriPort => .int m.uriPort.toUInt32
  | .locationPath => .str m.locationPath
  | .uriPath => .str m.uriPath
  | .contentFormat => .int m.contentFormat.toUInt32
  | .maxAge => .int m.maxAge
  | .uriQuery => .str m.uriQuery
  | .accept => .int m.accept.toUInt32
  | .locationQuery => .str m.locationQuery
  | .block2 => m.block2.value
  | .block1 => m.block1.value
  | .size2 => .int m.size2
  | .proxyUri => .str m.proxyUri
  | .proxyScheme => .str m.proxyScheme
  | .size1 => .int m.size1

@[grind =]
def Message.received (m : Message (List UInt8)) : CoapOption → OptionValue (List UInt8)
  | .block2 => m.block2.received.value
  | .block1 => m.block1.received.value
  | o => m.value o

/-- The messages have the same header, token, options with their values, and payload. -/
structure SameMessage (m m' : Message (List UInt8)) : Prop where
  version : m'.version = 1
  type : m'.type = m.type
  code : m'.code = m.code
  mid : m'.mid = m.mid
  token : m'.token = m.token
  options : ∀ n, m'.options n = m.options n
  values : ∀ o : CoapOption, m.options o.number = true → m'.value o = m.value o
  payload : m'.payload = m.payload

/-- No path or query has an empty segment. -/
structure NoEmptySegments (m : Message (List UInt8)) : Prop where
  uriPath : m.uriPath = [] ∨ ∀ s ∈ m.uriPath.splitOn slash, s ≠ []
  locationPath : m.locationPath = [] ∨ ∀ s ∈ m.locationPath.splitOn slash, s ≠ []
  uriQuery : m.uriQuery = [] ∨ ∀ s ∈ m.uriQuery.splitOn ampersand, s ≠ []
  locationQuery : m.locationQuery = [] ∨ ∀ s ∈ m.locationQuery.splitOn ampersand, s ≠ []

/-- The block options say what fits on the wire. -/
structure BlocksFit (m : Message (List UInt8)) : Prop where
  block2 : m.options CoapOption.block2.number = true → ∃ k < 8, m.block2.size.toNat = 16 * 2 ^ k
  block1 : m.options CoapOption.block1.number = true → ∃ k < 8, m.block1.size.toNat = 16 * 2 ^ k
  more : m.options CoapOption.block1.number = true → m.block1.more ≤ 1

/-! ## What is written, option by option -/

def CoapOption.splitter? : CoapOption → Option UInt8
  | .locationPath => some slash
  | .uriPath => some slash
  | .uriQuery => some ampersand
  | .locationQuery => some ampersand
  | _ => none

def Message.parts (m : Message (List UInt8)) (o : CoapOption) : List (List UInt8) :=
  match m.value o with
  | .flag => [intBytes 0]
  | .int v => [intBytes v]
  | .bytes v => [v]
  | .block num more size => [intBytes (Block.pack ⟨num, more, size, 0⟩)]
  | .str v => match o.splitter? with
    | some c => v.splitOn c
    | none => [v]

def Out.option (m : Message (List UInt8)) (out : Out) (o : CoapOption) : Out :=
  if m.options o.number = true then
    ⟨out.bytes ++ tlvs o.number out.currentNumber (m.parts o), o.number⟩
  else out

theorem coapIsOption_number {S : Type} (m : Message S) (o : CoapOption) : coapIsOption m o.number = m.options o.number := by
  have hle : o.number ≤ CoapOption.size1.number := o.number_le
  simp [coapIsOption, hle]

theorem intOption_out (m : Message (List UInt8)) (o : CoapOption) {field : UInt32} (out : Out)
    (h : m.parts o = [intBytes field]) : out.intOption m o field = out.option m o := by
  unfold Out.intOption Out.option
  rw [coapIsOption_number, intOption_eq, h]
  simp [tlvs]

theorem blockOption_out (m : Message (List UInt8)) (o : CoapOption) (field : Block) (out : Out)
    (h : m.parts o = [intBytes field.pack]) : out.blockOption m o field = out.option m o :=
  intOption_out m o out h

theorem arrayOption_out (m : Message (List UInt8)) (o : CoapOption) {field : List UInt8} (out : Out)
    (h : m.parts o = [field]) : out.arrayOption m o field none = out.option m o := by
  unfold Out.arrayOption Out.option coapSerializeArrayOption
  rw [coapIsOption_number, h]
  simp [tlvs, tlv]

theorem splitOption_out (m : Message (List UInt8)) (o : CoapOption) {field : List UInt8} {c : UInt8} (out : Out)
    (h : m.parts o = field.splitOn c) (hne : field = [] ∨ ∀ s ∈ field.splitOn c, s ≠ []) :
    out.arrayOption m o field (some c) = out.option m o := by
  unfold Out.arrayOption Out.option
  rw [coapIsOption_number, splitOption_eq _ _ _ _ hne, h]

theorem serializeOptions_eq {m : Message (List UInt8)} (h : NoEmptySegments m) :
    serializeOptions m = CoapOption.all.foldl (Out.option m) ⟨[], 0⟩ := by
  unfold serializeOptions CoapOption.all
  simp only [List.foldl_cons, List.foldl_nil]
  rw [arrayOption_out m .ifMatch _ rfl, arrayOption_out m .uriHost _ rfl, arrayOption_out m .etag _ rfl,
    intOption_out m .ifNoneMatch _ (by simp [Message.parts, Message.value]), intOption_out m .observe _ rfl,
    intOption_out m .uriPort _ rfl, splitOption_out m .locationPath _ rfl h.locationPath,
    splitOption_out m .uriPath _ rfl h.uriPath, intOption_out m .contentFormat _ rfl,
    intOption_out m .maxAge _ rfl, splitOption_out m .uriQuery _ rfl h.uriQuery, intOption_out m .accept _ rfl,
    splitOption_out m .locationQuery _ rfl h.locationQuery, blockOption_out m .block2 m.block2 _ rfl,
    blockOption_out m .block1 m.block1 _ rfl, intOption_out m .size2 _ rfl, arrayOption_out m .proxyUri _ rfl,
    arrayOption_out m .proxyScheme _ rfl, intOption_out m .size1 _ rfl]

/-! ## What one option changes -/

/-- Everything but the value of one option is as before. -/
structure Frame (o : CoapOption) (m m' : Message Span) : Prop where
  version : m'.version = m.version
  type : m'.type = m.type
  code : m'.code = m.code
  mid : m'.mid = m.mid
  token : m'.token = m.token
  payload : m'.payload = m.payload
  value : ∀ o', o' ≠ o → m'.value o' = m.value o'

theorem Frame.trans {o : CoapOption} {m m' m'' : Message Span} (h : Frame o m m') (h' : Frame o m' m'') :
    Frame o m m'' :=
  ⟨h'.version.trans h.version, h'.type.trans h.type, h'.code.trans h.code, h'.mid.trans h.mid,
    h'.token.trans h.token, h'.payload.trans h.payload, fun o' ho => (h'.value o' ho).trans (h.value o' ho)⟩

theorem value_coapSetOption {S : Type} (m : Message S) (n : Nat) (o : CoapOption) :
    (coapSetOption m n).value o = m.value o := by
  unfold coapSetOption
  split
  · rfl
  · cases o <;> rfl

theorem coapSetOption_frame (o : CoapOption) (m : Message Span) (n : Nat) : Frame o m (coapSetOption m n) := by
  constructor
  case value => exact fun o' _ => value_coapSetOption m n o'
  all_goals
    unfold coapSetOption
    split <;> rfl

theorem coapSetOption_options (m : Message Span) (o : CoapOption) :
    (coapSetOption m o.number).options = Function.update m.options o.number true := by
  have hle : ¬ o.number > CoapOption.size1.number := Nat.not_lt.2 o.number_le
  unfold coapSetOption
  rw [if_neg hle]

section

variable {msg msg' : Message Span} {mem mem' : Mem} {o : CoapOption} {pos len : Nat}

theorem storeOption_frame (h : storeOption msg mem o.number pos len = .ok (msg', mem')) :
    Frame o msg msg' ∧ msg'.options = msg.options := by
  unfold storeOption at h
  rw [CoapOption.ofNumber_number] at h
  cases o <;> cases h
  all_goals
    refine ⟨⟨rfl, rfl, rfl, rfl, rfl, rfl, fun o' ho => ?_⟩, rfl⟩
    cases o' <;> first | rfl | exact absurd rfl ho

/-- The value of an option that is not merged, from its bytes. -/
@[grind =]
def decodeOption (o : CoapOption) (v : List UInt8) : OptionValue (List UInt8) :=
  match o with
  | .contentFormat => .int (coapParseIntOption v).toUInt16.toUInt32
  | .accept => .int (coapParseIntOption v).toUInt16.toUInt32
  | .uriPort => .int (coapParseIntOption v).toUInt16.toUInt32
  | .maxAge => .int (coapParseIntOption v)
  | .size2 => .int (coapParseIntOption v)
  | .size1 => .int (coapParseIntOption v)
  | .observe => .int (coapParseIntOption v).toInt32.toUInt32
  | .etag => .bytes (v.take coapEtagLen)
  | .ifMatch => .bytes (v.take coapEtagLen)
  | .ifNoneMatch => .flag
  | .block2 => (Block.unpack (coapParseIntOption v)).value
  | .block1 => (Block.unpack (coapParseIntOption v)).value
  | _ => .str v

abbrev OptionValue.contents (v : OptionValue Span) (mem : Mem) : OptionValue (List UInt8) :=
  v.map fun s => Mem.read s.start s.len mem

theorem storeOption_single (hu : o ≠ .proxyUri) (hs : o ≠ .proxyScheme) (hsp : o.splitter? = none) :
    ∃ msg', storeOption msg mem o.number pos len = .ok (msg', mem) ∧
      (msg'.value o).contents mem = decodeOption o (Mem.read pos len mem) ∧
      ∀ s, msg'.value o = .str s → s.start = pos ∧ s.len = len := by
  unfold storeOption
  rw [CoapOption.ofNumber_number]
  cases o <;> try first | exact absurd rfl hu | exact absurd rfl hs | cases hsp
  all_goals
    refine ⟨_, rfl, rfl, fun s hs => ?_⟩
    cases hs
  exact ⟨rfl, rfl⟩

theorem storeOption_merge {c : UInt8} (hsp : o.splitter? = some c) {s : Span} (hv : msg.value o = .str s) :
    ∃ msg', storeOption msg mem o.number pos len = .ok (msg', (coapMergeMultiOption s mem pos len c).2) ∧
      msg'.value o = .str (coapMergeMultiOption s mem pos len c).1 := by
  unfold storeOption
  rw [CoapOption.ofNumber_number]
  cases o <;> cases hsp <;> cases hv <;> exact ⟨_, rfl, rfl⟩

end

/-! ## Reading one option -/

section

variable {z : Sizes} {dataLen : Nat} {o : CoapOption}

theorem parseOptions_merge {sep : UInt8} (hsp : o.splitter? = some sep) :
    ∀ (ps : List (List UInt8)) {c : Cursor} {s : Span} {acc : List UInt8}, c.optionNumber = o.number →
      c.msg.options o.number = true → c.msg.value o = .str s → s.len = acc.length → acc ≠ [] →
      (∀ p ∈ ps, p.length < 65536) → s.start + s.len ≤ c.pos → Mem.Holds s.start acc c.mem →
      Mem.Holds c.pos (tlvs o.number o.number ps) c.mem → c.pos + (tlvs o.number o.number ps).length ≤ dataLen →
      ∃ c' : Cursor, parseOptions z dataLen c = parseOptions z dataLen c' ∧
        c'.pos = c.pos + (tlvs o.number o.number ps).length ∧ c'.optionNumber = o.number ∧
        Frame o c.msg c'.msg ∧ c'.msg.options = c.msg.options ∧
        (∃ s' : Span, c'.msg.value o = .str s' ∧ s'.start = s.start ∧
          s'.len = (acc ++ ps.flatMap (sep :: ·)).length ∧ s'.start + s'.len ≤ c'.pos ∧
          Mem.Holds s.start (acc ++ ps.flatMap (sep :: ·)) c'.mem) ∧
        ∀ x, x < s.start ∨ c'.pos ≤ x → c'.mem x = c.mem x
  | [], c, s, acc, hc, hset, hv, hlen, hacc, hps, hlow, hm, hw, hle => by
    refine ⟨c, rfl, by simp [tlvs], hc, ⟨rfl, rfl, rfl, rfl, rfl, rfl, fun _ _ => rfl⟩, rfl,
      ⟨s, hv, rfl, by simpa using hlen, hlow, by simpa using hm⟩, fun _ _ => rfl⟩
  | p :: ps, c, s, acc, hc, hset, hv, hlen, hacc, hps, hlow, hm, hw, hle => by
    have hpos : s.len > 0 := by
      rw [hlen]
      exact List.length_pos_of_ne_nil hacc
    rw [tlvs, Nat.sub_self] at hw hle ⊢
    rw [Mem.holds_append] at hw
    rw [List.length_append] at hle ⊢
    have hopt : (coapSetOption c.msg o.number).options = c.msg.options := by
      rw [coapSetOption_options]
      exact Function.update_eq_self_iff.2 hset.symm
    have hhead : (tlv 0 p).length = (coapSetOptionHeader 0 p.length).length + p.length := by
      simp [tlv]
    have hhead1 : 1 ≤ (coapSetOptionHeader 0 p.length).length := by simp [coapSetOptionHeader]
    -- the value stands behind its header
    obtain ⟨msg, hstore, hval⟩ := @storeOption_merge (coapSetOption c.msg o.number) c.mem _
        (c.pos + (coapSetOptionHeader 0 p.length).length) p.length _ hsp _ (by rw [value_coapSetOption]; exact hv)
    obtain ⟨hframe, hopts⟩ := storeOption_frame hstore
    have hstep := @parseOptions_tlv z dataLen 0 p c _ _ (by omega) (by have := hps p (by simp); omega)
        (by rw [hc]; exact o.number_le) (by omega) hw.1 (by rw [hc]; exact hstore)
    simp only [coapMergeMultiOption, if_pos hpos] at hstep hval
    generalize hmem' : Mem.copy (s.start + s.len + 1) (c.pos + (coapSetOptionHeader 0 p.length).length) p.length
      (c.mem.put (s.start + s.len) sep) = mem' at hstep
    have hout : ∀ x, x < s.start + s.len ∨ c.pos + (tlv 0 p).length ≤ x → mem' x = c.mem x := by
      intro x hx
      rw [← hmem', Mem.copy_of_out (by omega), Mem.put_of_ne (by omega)]
    have hacc' : Mem.Holds s.start (acc ++ sep :: p) mem' := by
      rw [Mem.holds_append, Mem.holds_cons]
      refine ⟨?_, ?_, ?_⟩
      · exact hm.congr fun x h1 h2 => hout x (by omega)
      · rw [← hmem', ← hlen, Mem.copy_of_out (by omega), Mem.put_same]
      · -- the bytes are read before any of them is written
        have hp := hw.1
        rw [tlv, Mem.holds_append] at hp
        rw [← hmem', ← hlen]
        replace hp := hp.2
        rw [Mem.holds_iff] at hp ⊢
        intro i hi
        rw [Mem.copy_in hi, Mem.put_of_ne (by omega)]
        exact hp i hi
    obtain ⟨c', hp, h1, h2, h3, h4, h5, h6⟩ := parseOptions_merge hsp ps
      (c := ⟨msg, mem', c.pos + (tlv 0 p).length, c.optionNumber + 0⟩)
      hc (by rw [hopts, hopt]; exact hset) hval (by simp [hlen]; omega) (by simp)
      (fun q hq => hps q (by simp [hq])) (by simp only; omega) hacc' (hw.2.congr fun x hx _ => hout x (.inr hx))
      (by simp only; omega)
    refine ⟨c', hstep.trans hp, by simp only at h1; omega, h2,
      ((coapSetOption_frame o c.msg o.number).trans hframe).trans h3, (h4.trans hopts).trans hopt, ?_, ?_⟩
    · simpa using h5
    · intro x hx
      rw [h6 x (by simp only at hx ⊢; omega)]
      exact hout x (by simp only at h1; omega)

end

/-! ## Reading all options -/

/-- The cursor behind the options `done` of a message. -/
structure Read (m : Message (List UInt8)) (done : List CoapOption) (c : Cursor) : Prop where
  version : c.msg.version = 1
  type : c.msg.type = m.type
  code : c.msg.code = m.code
  mid : c.msg.mid = m.mid
  token : c.msg.token = m.token
  payload : c.msg.payload = ⟨0, 0⟩
  options : ∀ n, c.msg.options n = true ↔ ∃ o ∈ done, m.options o.number = true ∧ o.number = n
  values : ∀ o ∈ done, m.options o.number = true → (c.msg.value o).contents c.mem = m.received o
  low : ∀ o s, c.msg.value o = .str s → s.start + s.len ≤ c.pos
  fresh : ∀ o s, o ∉ done → c.msg.value o = .str s → s.len = 0

section

variable {z : Sizes} {dataLen : Nat} {m : Message (List UInt8)} {done : List CoapOption} {c c' : Cursor}
  {o : CoapOption}

theorem contents_congr {v : OptionValue Span} {mem mem' : Mem}
    (h : ∀ s, v = .str s → ∀ x, s.start ≤ x → x < s.start + s.len → mem' x = mem x) :
    v.contents mem' = v.contents mem := by
  cases v with
  | str s => exact congrArg OptionValue.str (Mem.read_congr (h s rfl))
  | _ => rfl

theorem Read.unset (h : Read m done c) (ho : m.options o.number = false) : Read m (o :: done) c := by
  refine ⟨h.version, h.type, h.code, h.mid, h.token, h.payload, fun n => ?_, ?_, h.low, ?_⟩
  · rw [h.options n]
    constructor
    · rintro ⟨q, hq, hqs⟩
      exact ⟨q, List.mem_cons_of_mem _ hq, hqs⟩
    · rintro ⟨q, hq, hqs, hn⟩
      rcases List.mem_cons.1 hq with rfl | hq
      · rw [ho] at hqs
        cases hqs
      · exact ⟨q, hq, hqs, hn⟩
  · intro q hq hqs
    rcases List.mem_cons.1 hq with rfl | hq
    · rw [ho] at hqs
      cases hqs
    · exact h.values q hq hqs
  · exact fun q s hq => h.fresh q s fun hm => hq (List.mem_cons_of_mem _ hm)

theorem Read.set (h : Read m done c) (ho : m.options o.number = true) (hdone : o ∉ done)
    (hframe : Frame o c.msg c'.msg) (hopts : c'.msg.options = Function.update c.msg.options o.number true)
    (hval : (c'.msg.value o).contents c'.mem = m.received o)
    (hlow : ∀ s, c'.msg.value o = .str s → s.start + s.len ≤ c'.pos) (hpos : c.pos ≤ c'.pos)
    (hmem : ∀ x, x < c.pos → c'.mem x = c.mem x) : Read m (o :: done) c' := by
  refine ⟨hframe.version.trans h.version, hframe.type.trans h.type, hframe.code.trans h.code,
    hframe.mid.trans h.mid, hframe.token.trans h.token, hframe.payload.trans h.payload, fun n => ?_, ?_, ?_, ?_⟩
  · rw [hopts]
    by_cases hn : n = o.number
    · subst hn
      simp only [Function.update_self, true_iff]
      exact ⟨o, by simp, ho, rfl⟩
    · rw [Function.update_of_ne hn, h.options n]
      constructor
      · rintro ⟨q, hq, hqs⟩
        exact ⟨q, List.mem_cons_of_mem _ hq, hqs⟩
      · rintro ⟨q, hq, hqs, rfl⟩
        rcases List.mem_cons.1 hq with rfl | hq
        · exact absurd rfl hn
        · exact ⟨q, hq, hqs, rfl⟩
  · intro q hq hqs
    by_cases hqo : q = o
    · rw [hqo]
      exact hval
    · have hq' := (List.mem_cons.1 hq).resolve_left hqo
      rw [hframe.value q hqo, ← h.values q hq' hqs]
      exact contents_congr fun s hs x _ hx => hmem x (by have := h.low q s hs; omega)
  · intro q s hs
    by_cases hqo : q = o
    · subst hqo
      exact hlow s hs
    · rw [hframe.value q hqo] at hs
      exact (h.low q s hs).trans hpos
  · intro q s hq hs
    rw [List.mem_cons, not_or] at hq
    rw [hframe.value q hq.1] at hs
    exact h.fresh q s hq.2 hs

theorem decode_parts (hb : Built z m) (ho : m.options o.number = true) (hsp : o.splitter? = none) :
    o ≠ .proxyUri ∧ o ≠ .proxyScheme ∧ ∃ v, m.parts o = [v] ∧ decodeOption o v = m.received o := by
  have hu : o ≠ .proxyUri := by
    rintro rfl
    rw [hb.proxyUri] at ho
    cases ho
  have hs : o ≠ .proxyScheme := by
    rintro rfl
    rw [hb.proxyScheme] at ho
    cases ho
  refine ⟨hu, hs, ?_⟩
  cases o <;> try first | exact absurd rfl hu | exact absurd rfl hs | cases hsp
  case ifMatch => exact ⟨_, rfl, by simp [decodeOption, Message.received, Message.value, hb.ifMatch]⟩
  case etag => exact ⟨_, rfl, by simp [decodeOption, Message.received, Message.value, hb.etag]⟩
  case block2 =>
    obtain ⟨h1, h2, h3⟩ := Block.unpack_pack (hb.block2 ho).1
    exact ⟨_, rfl, by simp only [decodeOption, parseInt_intBytes]; exact congr (congr (congrArg _ h1) h2) h3⟩
  case block1 =>
    obtain ⟨h1, h2, h3⟩ := Block.unpack_pack (hb.block1 ho)
    exact ⟨_, rfl, by simp only [decodeOption, parseInt_intBytes]; exact congr (congr (congrArg _ h1) h2) h3⟩
  all_goals
    exact ⟨_, rfl, by simp [decodeOption, Message.received, Message.value]⟩

theorem length_le_tlvs (number : Nat) {ps : List (List UInt8)} {p : List UInt8} (hp : p ∈ ps) :
    ∀ current, p.length ≤ (tlvs number current ps).length := by
  induction ps with
  | nil => cases hp
  | cons q ps ih =>
    intro current
    rw [tlvs, List.length_append]
    rcases List.mem_cons.1 hp with rfl | hp
    · simp only [tlv, List.length_append]
      omega
    · have := ih hp number
      omega

theorem intercalate_cons (sep : UInt8) (p : List UInt8) (ps : List (List UInt8)) :
    [sep].intercalate (p :: ps) = p ++ ps.flatMap (sep :: ·) := by
  induction ps generalizing p with
  | nil => simp
  | cons q ps ih => rw [List.intercalate_cons_cons, ih, List.flatMap_cons]; simp

theorem value_splitter {S : Type} {sep : UInt8} (m : Message S) (hsp : o.splitter? = some sep) :
    ∃ v, m.value o = .str v := by
  cases o <;> cases hsp <;> exact ⟨_, rfl⟩

theorem parts_splitter {sep : UInt8} {v : List UInt8} (hsp : o.splitter? = some sep) (hv : m.value o = .str v) :
    m.parts o = v.splitOn sep ∧ m.received o = .str v := by
  unfold Message.parts
  rw [hv]
  simp only [hsp]
  cases o <;> cases hsp <;> exact ⟨trivial, hv⟩

theorem noEmptySegments_splitter (h : NoEmptySegments m) {sep : UInt8} {v : List UInt8}
    (hsp : o.splitter? = some sep) (hv : m.value o = .str v) : v = [] ∨ ∀ s ∈ v.splitOn sep, s ≠ [] := by
  cases o <;> cases hsp <;> cases hv
  · exact h.locationPath
  · exact h.uriPath
  · exact h.uriQuery
  · exact h.locationQuery

theorem Read.option (hb : Built z m) (hne : NoEmptySegments m) (h : Read m done c)
    (ho : m.options o.number = true) (hdone : o ∉ done) (hnum : c.optionNumber ≤ o.number) (hdata : dataLen < 65536)
    (hw : Mem.Holds c.pos (tlvs o.number c.optionNumber (m.parts o)) c.mem)
    (hle : c.pos + (tlvs o.number c.optionNumber (m.parts o)).length ≤ dataLen) :
    ∃ c', parseOptions z dataLen c = parseOptions z dataLen c' ∧ Read m (o :: done) c' ∧
      c'.pos = c.pos + (tlvs o.number c.optionNumber (m.parts o)).length ∧ c'.optionNumber = o.number ∧
      ∀ x, c'.pos ≤ x → c'.mem x = c.mem x := by
  have hdelta : c.optionNumber + (o.number - c.optionNumber) = o.number := by omega
  have ho60 := o.number_le
  have hopts := coapSetOption_options c.msg o
  cases hsp : o.splitter? with
  | none =>
    obtain ⟨hu, hs, v, hparts, hdec⟩ := decode_parts hb ho hsp
    rw [hparts] at hw hle ⊢
    simp only [tlvs, List.append_nil] at hw hle ⊢
    obtain ⟨msg, hstore, hval, hspan⟩ := @storeOption_single (coapSetOption c.msg o.number) c.mem _
        (c.pos + (coapSetOptionHeader (o.number - c.optionNumber) v.length).length) v.length hu hs hsp
    obtain ⟨hframe, hopts'⟩ := storeOption_frame hstore
    have hlen : (tlv (o.number - c.optionNumber) v).length =
        (coapSetOptionHeader (o.number - c.optionNumber) v.length).length + v.length := by simp [tlv]
    have hstep := @parseOptions_tlv z dataLen _ _ c _ _ (by omega) (by omega) (by rw [hdelta]; exact ho60) hle hw
        (by rw [hdelta]; exact hstore)
    have hread := hw
    rw [tlv, Mem.holds_append] at hread
    rw [Mem.read_of_holds hread.2, hdec] at hval
    refine ⟨_, hstep, h.set ho hdone ((coapSetOption_frame o c.msg o.number).trans hframe) (hopts'.trans hopts)
      hval ?_ (by simp) (fun _ _ => rfl), rfl, hdelta, fun _ _ => rfl⟩
    intro s hs'
    obtain ⟨h1, h2⟩ := hspan s hs'
    simp only
    omega
  | some sep =>
    obtain ⟨v, hv⟩ := value_splitter m hsp
    obtain ⟨hparts, hrec⟩ := parts_splitter hsp hv
    have hseg := noEmptySegments_splitter hne hsp hv
    obtain ⟨s, hold⟩ := value_splitter c.msg hsp
    have hs0 := h.fresh o s hdone hold
    have hjoin : [sep].intercalate (v.splitOn sep) = v := List.intercalate_splitOn sep
    rw [hparts] at hw hle ⊢
    cases hps : v.splitOn sep with
    | nil => exact absurd hps (List.splitOn_ne_nil sep v)
    | cons p ps =>
      rw [hps] at hw hle hjoin hseg
      rw [intercalate_cons] at hjoin
      simp only [tlvs, Mem.holds_append, List.length_append] at hw hle ⊢
      -- the first part is left where it stands
      have hlen : (tlv (o.number - c.optionNumber) p).length =
          (coapSetOptionHeader (o.number - c.optionNumber) p.length).length + p.length := by simp [tlv]
      obtain ⟨msg, hstore, hval⟩ := @storeOption_merge (coapSetOption c.msg o.number) c.mem _
          (c.pos + (coapSetOptionHeader (o.number - c.optionNumber) p.length).length) p.length _ hsp _
          (by rw [value_coapSetOption]; exact hold)
      obtain ⟨hframe, hopts'⟩ := storeOption_frame hstore
      simp only [coapMergeMultiOption, hs0, gt_iff_lt, lt_irrefl, if_false] at hstore hval
      have hstep := @parseOptions_tlv z dataLen _ _ c _ _ (by omega) (by omega) (by rw [hdelta]; exact ho60)
          (by omega) hw.1 (by rw [hdelta]; exact hstore)
      have hframe' := (coapSetOption_frame o c.msg o.number).trans hframe
      have hread := hw.1
      rw [tlv, Mem.holds_append] at hread
      by_cases hp : p = []
      · -- the empty string is one empty part
        have hv0 : v = [] := by
          rcases hseg with hv0 | hseg
          · exact hv0
          · exact absurd hp (hseg p (by simp))
        subst hv0
        rw [List.splitOn_nil] at hps
        cases hps
        refine ⟨_, hstep, h.set ho hdone hframe' (hopts'.trans hopts) ?_ ?_ (by simp) (fun _ _ => rfl),
          by simp [tlvs], hdelta, fun _ _ => rfl⟩
        · show (msg.value o).contents c.mem = _
          simp only [hval, hrec]
          rfl
        · intro s' hs'
          simp only [hval, OptionValue.str.injEq] at hs'
          subst hs'
          simp only
          omega
      · obtain ⟨c', hm, h1, h2, h3, h4, ⟨s', hs', hstart, hlen', hlow, hholds⟩, h6⟩ := @parseOptions_merge
          z dataLen o sep hsp ps
          (⟨msg, c.mem, c.pos + (tlv (o.number - c.optionNumber) p).length,
            c.optionNumber + (o.number - c.optionNumber)⟩) _ _
          hdelta (by simp only; rw [hopts', hopts]; simp) hval rfl hp
          (fun q hq => by
            have := length_le_tlvs o.number hq o.number
            omega)
          (by simp only; omega) hread.2 hw.2 (by simp only; omega)
        simp only at h1 h6
        rw [hjoin] at hlen' hholds
        refine ⟨c', hstep.trans hm, h.set ho hdone (hframe'.trans h3) ((h4.trans hopts').trans hopts) ?_ ?_
          (by omega) ?_, by omega, h2, fun x hx => h6 x (.inr hx)⟩
        · rw [hs', hrec]
          show OptionValue.str (Mem.read s'.start s'.len c'.mem) = _
          rw [hstart, hlen', Mem.read_of_holds hholds]
        · intro s'' hs''
          rw [hs'] at hs''
          cases hs''
          exact hlow
        · intro x hx
          exact h6 x (.inl (by omega))

theorem foldl_option_bytes (m : Message (List UInt8)) : ∀ (os : List CoapOption) (out : Out),
    (os.foldl (Out.option m) out).bytes = out.bytes ++ (os.foldl (Out.option m) ⟨[], out.currentNumber⟩).bytes
  | [], out => by simp
  | o :: os, out => by
    simp only [List.foldl_cons]
    rw [foldl_option_bytes m os (out.option m o), foldl_option_bytes m os (Out.option m ⟨[], _⟩ o)]
    unfold Out.option
    split <;> simp

theorem Read.options_all (hb : Built z m) (hne : NoEmptySegments m) (hdata : dataLen < 65536) :
    ∀ (os : List CoapOption) {done : List CoapOption} {c : Cursor}, Read m done c →
      os.Pairwise (fun o o' => o.number < o'.number) → (∀ o ∈ os, o ∉ done) → (∀ o ∈ os, c.optionNumber ≤ o.number) →
      Mem.Holds c.pos (os.foldl (Out.option m) ⟨[], c.optionNumber⟩).bytes c.mem →
      c.pos + (os.foldl (Out.option m) ⟨[], c.optionNumber⟩).bytes.length ≤ dataLen →
      ∃ c', parseOptions z dataLen c = parseOptions z dataLen c' ∧ Read m (os.reverse ++ done) c' ∧
        c'.pos = c.pos + (os.foldl (Out.option m) ⟨[], c.optionNumber⟩).bytes.length ∧
        ∀ x, c'.pos ≤ x → c'.mem x = c.mem x
  | [], done, c, h, _, _, _, _, _ => ⟨c, rfl, h, by simp, fun _ _ => rfl⟩
  | o :: os, done, c, h, hsort, hdone, hnum, hw, hle => by
    rw [List.pairwise_cons] at hsort
    have hrest : ∀ q ∈ os, q ∉ o :: done := by
      intro q hq hm
      rcases List.mem_cons.1 hm with rfl | hm
      · exact lt_irrefl _ (hsort.1 q hq)
      · exact hdone q (by simp [hq]) hm
    rw [List.foldl_cons, foldl_option_bytes] at hw hle ⊢
    cases ho : m.options o.number with
    | false =>
      have hout : Out.option m ⟨[], c.optionNumber⟩ o = ⟨[], c.optionNumber⟩ := by simp [Out.option, ho]
      rw [hout] at hw hle ⊢
      obtain ⟨c', h1, h2, h3, h4⟩ := Read.options_all hb hne hdata os (h.unset ho) hsort.2 hrest
        (fun q hq => hnum q (by simp [hq])) hw hle
      exact ⟨c', h1, by simpa using h2, h3, h4⟩
    | true =>
      have hout : Out.option m ⟨[], c.optionNumber⟩ o = ⟨tlvs o.number c.optionNumber (m.parts o), o.number⟩ := by
        simp [Out.option, ho]
      rw [hout] at hw hle ⊢
      simp only [Mem.holds_append, List.length_append] at hw hle ⊢
      obtain ⟨c₁, h1, h2, h3, h4, h5⟩ := h.option (z := z) hb hne ho (hdone o (by simp)) (hnum o (by simp)) hdata hw.1
        (by omega)
      obtain ⟨c', h1', h2', h3', h4'⟩ := Read.options_all hb hne hdata os h2 hsort.2 hrest
        (fun q hq => by rw [h4]; exact (hsort.1 q hq).le)
        (by rw [h4, h3]; exact hw.2.congr fun x hx _ => h5 x (by omega)) (by rw [h4, h3]; omega)
      rw [h4] at h3'
      refine ⟨c', h1.trans h1', by simpa using h2', by omega, fun x hx => ?_⟩
      rw [h4' x hx, h5 x (by omega)]

end

/-! ## Messages -/

section

variable {z : Sizes} {m : Message (List UInt8)}

theorem header_read (type : MessageType) (n : Nat) (hn : n ≤ coapTokenLen) :
    let b := ((0xC0 : UInt8) &&& ((1 : UInt8) <<< 6)) ||| ((0x30 : UInt8) &&& (UInt8.ofNat type.bits <<< 4)) |||
      ((0x0F : UInt8) &&& UInt8.ofNat n)
    (0xC0 &&& b) >>> 6 = 1 ∧ (0x0F &&& b).toNat = n ∧ MessageType.ofBits ((0x30 &&& b) >>> 4).toNat = type := by
  have key : ∀ n : Fin 9,
      let b := ((0xC0 : UInt8) &&& ((1 : UInt8) <<< 6)) ||| ((0x30 : UInt8) &&& (UInt8.ofNat type.bits <<< 4)) |||
        ((0x0F : UInt8) &&& UInt8.ofNat n.val)
      (0xC0 &&& b) >>> 6 = 1 ∧ (0x0F &&& b).toNat = n.val ∧
        MessageType.ofBits ((0x30 &&& b) >>> 4).toNat = type := by
    cases type <;> decide
  exact key ⟨n, Nat.lt_succ_of_le hn⟩

theorem mid_read (mid : UInt16) : ((mid >>> 8).toUInt8.toUInt16 <<< 8) ||| mid.toUInt8.toUInt16 = mid := by
  apply UInt16.toNat_inj.1
  have hlt := mid.toNat_lt
  have hb : mid.toUInt8.toNat < 2 ^ 8 := mid.toUInt8.toNat_lt
  have hs : ((mid >>> 8).toUInt8.toUInt16 <<< 8).toNat = (mid.toNat / 256) <<< 8 := by
    simp [Nat.shiftRight_eq_div_pow, Nat.shiftLeft_eq]
    omega
  rw [UInt16.toNat_or, hs, UInt8.toNat_toUInt16, ← Nat.shiftLeft_add_eq_or_of_lt hb, Nat.shiftLeft_eq,
    UInt16.toNat_toUInt8]
  omega

theorem parse_serialize (hb : Built z m) (hcode : m.code ≠ 0) (hne : NoEmptySegments m) {bytes : List UInt8}
    (hs : coapSerializeMessage z m = some bytes) {data : Mem} (hdata : Mem.Holds 0 bytes data) :
    ∃ msg mem, coapParseMessage z data bytes.length = .ok (msg, mem) ∧ msg.version = 1 ∧ msg.type = m.type ∧
      msg.code = m.code ∧ msg.mid = m.mid ∧ msg.token = m.token ∧ (∀ n, msg.options n = m.options n) ∧
      (∀ o, m.options o.number = true → (msg.value o).contents mem = m.received o) ∧
      Mem.read msg.payload.start msg.payload.len mem = m.payload := by
  simp only [coapSerializeMessage, if_neg hcode, serializeOptions_eq hne] at hs
  split at hs
  case isFalse => cases hs
  case isTrue hsize =>
  simp only [Option.some.injEq] at hs
  generalize hopt : (CoapOption.all.foldl (Out.option m) ⟨[], 0⟩).bytes = opts at hs hsize
  have hpay := hb.payload
  have hpacket := z.packet_lt
  have hlen : bytes.length = 4 + m.token.length + opts.length + (if m.payload.length ≠ 0 then 1 else 0) +
      m.payload.length := by
    rw [← hs]
    simp only [headerBytes, List.length_append, List.length_cons, List.length_nil]
    split <;> simp
  have hhead : 4 + m.token.length + opts.length ≤ z.maxHeaderSize := by
    simpa [headerBytes, Nat.add_assoc, Nat.add_comm, Nat.add_left_comm] using hsize
  have hshort : bytes.length < 65536 := by
    rw [hlen]
    split <;> omega
  -- the pieces of the packet
  rw [← hs, Mem.holds_append, Mem.holds_append, Mem.holds_append, Mem.holds_append] at hdata
  obtain ⟨⟨⟨⟨hhdr, htok⟩, hopts⟩, hmark⟩, hload⟩ := hdata
  simp only [headerBytes, Mem.holds_cons, Mem.holds_nil, Nat.zero_add, and_true] at hhdr
  obtain ⟨h0, h1, h2, h3⟩ := hhdr
  simp only [headerBytes, List.length_append, List.length_cons, List.length_nil, Nat.zero_add] at htok hopts hmark hload
  obtain ⟨hv, hn, ht⟩ := header_read m.type m.token.length hb.token
  have htoken := hb.token
  unfold coapParseMessage
  rw [if_neg (by omega)]
  simp only [h0, hv, hn, ht, h1, h2, h3, mid_read]
  rw [if_neg (by simp), if_neg (by omega), if_neg (by omega), Mem.read_of_holds htok]
  have hstart : Read m [] ⟨{ Message.zero (⟨0, 0⟩ : Span) with
      version := 1, type := m.type, code := m.code, mid := m.mid, token := m.token }, data,
      4 + m.token.length, 0⟩ := by
    constructor
    case options => intro n; simp [Message.zero]
    case values => intro o ho; cases ho
    case low => intro o s hos; cases o <;> cases hos <;> exact Nat.zero_le _
    case fresh => intro o s _ hos; cases o <;> cases hos <;> rfl
    all_goals rfl
  obtain ⟨c, hp, hread, hpos, hmem⟩ := @Read.options_all z bytes.length _ hb hne hshort CoapOption.all _ _ hstart
      CoapOption.sorted_all (by simp) (by simp) (by rw [hopt]; exact hopts) (by simp only [hopt, hlen]; omega)
  rw [hp]
  simp only [hopt] at hpos
  have hall : ∀ o : CoapOption, o ∈ CoapOption.all.reverse ++ [] := fun o => by
    simpa using CoapOption.mem_all o
  have hopt_eq : ∀ n, c.msg.options n = m.options n := by
    intro n
    rw [Bool.eq_iff_iff, hread.options n]
    constructor
    · rintro ⟨o, -, ho, rfl⟩
      exact ho
    · intro hn
      obtain ⟨o, rfl⟩ := hb.known n hn
      exact ⟨o, hall o, hn, rfl⟩
  by_cases hz : m.payload.length = 0
  · -- no payload: the options end the packet
    rw [parseOptions, if_neg (by simp only [hlen, hz]; simp; omega)]
    refine ⟨_, _, rfl, hread.version, hread.type, hread.code, hread.mid, hread.token, hopt_eq,
      fun o ho => hread.values o (hall o) ho, ?_⟩
    rw [hread.payload, List.length_eq_zero_iff.1 hz]
    rfl
  · have hmark' : c.mem c.pos = 0xFF := by
      rw [hmem c.pos le_rfl, hpos]
      simpa [hz] using hmark
    rw [parseOptions, if_pos (by rw [hlen]; split <;> omega), if_pos (by rw [hmark']; decide)]
    have hplen : min (bytes.length - (c.pos + 1)) z.maxChunkSize = m.payload.length := by
      rw [hlen, if_pos hz]
      omega
    simp only [hplen]
    -- the byte behind the payload belongs to no value
    refine ⟨_, _, rfl, hread.version, hread.type, hread.code, hread.mid, hread.token, hopt_eq,
      fun o ho => ?_, ?_⟩
    · rw [← hread.values o (hall o) ho]
      have hval : Message.value { c.msg with payload := ⟨c.pos + 1, m.payload.length⟩ } o = c.msg.value o := by
        cases o <;> rfl
      rw [hval]
      refine contents_congr fun s hs x _ hx => Mem.put_of_ne ?_
      have := hread.low o s hs
      omega
    · show Mem.read (c.pos + 1) m.payload.length _ = _
      refine Eq.trans (Mem.read_congr fun x hx hx' => ?_) (Mem.read_of_holds (a := c.pos + 1) (m := data) ?_)
      · rw [Mem.put_of_ne (by omega), hmem x (by omega)]
      · rw [hpos]
        simpa [hz, Nat.add_assoc] using hload

theorem value_contents (msg : Message Span) (mem : Mem) (o : CoapOption) :
    (msg.contents mem).value o = (msg.value o).contents mem := by
  cases o <;> rfl

theorem received_eq (o : CoapOption) (h2 : o ≠ .block2) (h1 : o ≠ .block1) : m.received o = m.value o := by
  cases o <;> first | rfl | exact absurd rfl h2 | exact absurd rfl h1

theorem more_received (more : UInt8) : (if more ≠ 0 then 1 else 0) = more ↔ more ≤ 1 := by
  revert more
  apply forall_byte
  decide +kernel

theorem received_block2 (hb : Built z m) (ho : m.options CoapOption.block2.number = true) :
    m.received .block2 = m.value .block2 ↔ ∃ k < 8, m.block2.size.toNat = 16 * 2 ^ k := by
  obtain ⟨ha, hm⟩ := hb.block2 ho
  show OptionValue.block _ _ _ = OptionValue.block _ _ _ ↔ _
  rw [OptionValue.block.injEq, Block.size_received ha]
  exact ⟨fun h => h.2.2, fun h => ⟨rfl, (more_received _).2 hm, h⟩⟩

theorem received_block1 (hb : Built z m) (ho : m.options CoapOption.block1.number = true) :
    m.received .block1 = m.value .block1 ↔ (∃ k < 8, m.block1.size.toNat = 16 * 2 ^ k) ∧ m.block1.more ≤ 1 := by
  have ha := hb.block1 ho
  show OptionValue.block _ _ _ = OptionValue.block _ _ _ ↔ _
  rw [OptionValue.block.injEq, Block.size_received ha]
  exact ⟨fun h => ⟨h.2.2, (more_received _).1 h.2.1⟩, fun h => ⟨rfl, (more_received _).2 h.2, h.1⟩⟩

/-- A message built with the setters comes back from its bytes exactly when its block options fit. -/
theorem parse_serialize_iff (z : Sizes) (type : MessageType) (code : UInt8) (mid : UInt16) (sets : List Setter)
    (hcode : (build z type code mid sets).code ≠ 0) (hne : NoEmptySegments (build z type code mid sets))
    (bytes : List UInt8) (hs : coapSerializeMessage z (build z type code mid sets) = some bytes) (data : Mem)
    (hdata : Mem.Holds 0 bytes data) : (∃ msg mem, coapParseMessage z data bytes.length = .ok (msg, mem) ∧
      SameMessage (build z type code mid sets) (msg.contents mem)) ↔ BlocksFit (build z type code mid sets) := by
  have hb := build_built z type code mid sets
  generalize build z type code mid sets = m at *
  obtain ⟨msg, mem, hp, h1, h2, h3, h4, h5, h6, h7, h8⟩ := parse_serialize hb hcode hne hs hdata
  constructor
  · rintro ⟨msg', mem', hp', hsame⟩
    rw [hp] at hp'
    cases hp'
    have hval : ∀ o, m.options o.number = true → m.received o = m.value o := fun o ho => by
      rw [← hsame.values o ho, value_contents, h7 o ho]
    exact ⟨fun ho => (received_block2 hb ho).1 (hval _ ho), fun ho => ((received_block1 hb ho).1 (hval _ ho)).1,
      fun ho => ((received_block1 hb ho).1 (hval _ ho)).2⟩
  · intro hfit
    refine ⟨msg, mem, hp, h1, h2, h3, h4, h5, h6, fun o ho => ?_, h8⟩
    rw [value_contents, h7 o ho]
    by_cases ho2 : o = .block2
    · subst ho2
      exact (received_block2 hb ho).2 (hfit.block2 ho)
    · by_cases ho1 : o = .block1
      · subst ho1
        exact (received_block1 hb ho).2 ⟨hfit.block1 ho, hfit.more ho⟩
      · exact received_eq o ho2 ho1

end

/-! ## Examples -/

def defaultSizes : Sizes where
  maxHeaderSize := 62
  maxChunkSize := 64
  packet_lt := by decide

/-- A PUT with a path of two segments, a Block1 option of 32 bytes and a payload. -/
def putBlock : List Setter :=
  [.token [0xA1], .uriPath ⟨[47, 97, 47, 98, 99], by decide⟩, .block1 2 1 32, .payload [1, 2, 3]]

theorem memOf_holds (l : List UInt8) : Mem.Holds 0 l (fun i => l.getD i 0) := by
  rw [Mem.holds_iff]
  intro i hi
  simp [hi]

theorem putBlock_segments : NoEmptySegments (build defaultSizes .con 3 7 putBlock) := by
  constructor <;> decide

theorem putBlock_bytes : coapSerializeMessage defaultSizes (build defaultSizes .con 3 7 putBlock) =
    some [0x41, 3, 0, 7, 0xA1, 0xB1, 97, 0x02, 98, 99, 0xD1, 3, 0x29, 0xFF, 1, 2, 3] := by
  unfold coapSerializeMessage
  rw [serializeOptions_eq putBlock_segments]
  decide

theorem parse_serialize_putBlock : (∃ msg mem, coapParseMessage defaultSizes (fun i => List.getD
        [0x41, 3, 0, 7, 0xA1, 0xB1, 97, 0x02, 98, 99, 0xD1, 3, 0x29, 0xFF, 1, 2, 3] i 0) 17 = .ok (msg, mem) ∧
      SameMessage (build defaultSizes .con 3 7 putBlock) (msg.contents mem)) ↔
    BlocksFit (build defaultSizes .con 3 7 putBlock) :=
  parse_serialize_iff defaultSizes .con 3 7 putBlock (by decide) putBlock_segments _ putBlock_bytes _ (memOf_holds _)

/-- A GET for block 1 of 48 bytes, a size that is no power of two. -/
def getOddBlock : List Setter := [.block2 1 0 48]

theorem getOddBlock_bytes : coapSerializeMessage defaultSizes (build defaultSizes .con 1 7 getOddBlock) =
    some [0x40, 1, 0, 7, 0xD1, 10, 0x11] := by
  decide

/-- The receiver reads it as block 1 of 32 bytes. -/
theorem oddBlock_lost : ¬ ∀ (z : Sizes) (type : MessageType) (code : UInt8) (mid : UInt16) (sets : List Setter),
    (build z type code mid sets).code ≠ 0 → NoEmptySegments (build z type code mid sets) →
    ∀ bytes, coapSerializeMessage z (build z type code mid sets) = some bytes → ∀ data : Mem, Mem.Holds 0 bytes data →
    ∃ msg mem, coapParseMessage z data bytes.length = .ok (msg, mem) ∧
      SameMessage (build z type code mid sets) (msg.contents mem) := by
  intro hall
  have hne : NoEmptySegments (build defaultSizes .con 1 7 getOddBlock) := by constructor <;> decide
  obtain ⟨msg, mem, hp, hsame⟩ := hall defaultSizes .con 1 7 getOddBlock (by decide) hne _ getOddBlock_bytes _
    (memOf_holds _)
  obtain ⟨msg', mem', hp', -, -, -, -, -, -, hval, -⟩ := parse_serialize (build_built defaultSizes .con 1 7 getOddBlock)
    (by decide) hne getOddBlock_bytes (memOf_holds _)
  rw [hp'] at hp
  cases hp
  have h1 := hsame.values .block2 (by decide)
  rw [value_contents, hval .block2 (by decide)] at h1
  have h2 : (build defaultSizes .con 1 7 getOddBlock).block2.received.size = 48 :=
    (OptionValue.block.inj h1).2.2
  exact absurd h2 (by decide)

end Contiki.Coap

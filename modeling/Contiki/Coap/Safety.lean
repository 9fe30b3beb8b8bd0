/-
`coap_parse_message` with the positions of the packet that it reads and writes. All of them lie in the packet, save
perhaps the byte behind the payload; a merge of two options writes no byte that is still to be parsed.
-/
import Contiki.Coap.Parse
import Contiki.Lib.Cursor
import Contiki.Lib.Loop

namespace Contiki.Coap.Traced

section

open Lib

/-! ## Accesses -/

/-- The positions read and written so far; those written by a merge again, with the first one still to be parsed. -/
structure Log where
  reads : List Nat
  writes : List Nat
  merges : List (Nat × Nat)

namespace Log

def empty : Log := ⟨[], [], []⟩

def read (a n : Nat) (l : Log) : Log := { l with reads := l.reads ++ List.range' a n }

def write (a n : Nat) (l : Log) : Log := { l with writes := l.writes ++ List.range' a n }

/-- A write of a merge, when what follows is parsed from `next` on. -/
def merge (next a n : Nat) (l : Log) : Log :=
  { l.write a n with merges := l.merges ++ (List.range' a n).map fun x => (x, next) }

/-- All accesses were in the packet, and no merge wrote what is still to be parsed. -/
structure Within (dataLen : Nat) (l : Log) : Prop where
  reads : ∀ x ∈ l.reads, x < dataLen
  writes : ∀ x ∈ l.writes, x < dataLen
  merges : ∀ m ∈ l.merges, m.1 < m.2

variable {dataLen a n next : Nat} {l : Log}

theorem within_empty : empty.Within dataLen := by
  constructor <;> rintro x ⟨⟩

theorem Within.read (h : l.Within dataLen) (hle : a + n ≤ dataLen) : (l.read a n).Within dataLen := by
  refine ⟨fun x hx => ?_, h.writes, h.merges⟩
  rcases List.mem_append.1 hx with hx | hx
  · exact h.reads x hx
  · have := (List.mem_range'_1.1 hx).2
    omega

theorem Within.merge (h : l.Within dataLen) (hlt : a + n ≤ next) (hle : next ≤ dataLen) :
    (l.merge next a n).Within dataLen := by
  refine ⟨h.reads, ?_, ?_⟩
  · rintro x hx
    rcases List.mem_append.1 hx with hx | hx
    · exact h.writes x hx
    · have := (List.mem_range'_1.1 hx).2
      omega
  · rintro m hm
    rcases List.mem_append.1 hm with hm | hm
    · exact h.merges m hm
    · obtain ⟨x, hx, rfl⟩ := List.mem_map.1 hm
      have := (List.mem_range'_1.1 hx).2
      show x < next
      omega

theorem within_write : (l.write a n).Within dataLen ↔ l.Within dataLen ∧ (n = 0 ∨ a + n ≤ dataLen) := by
  constructor
  · rintro ⟨hr, hw, hm⟩
    rcases Cursor.within_append.1 hw with ⟨hw, hnew⟩
    exact ⟨⟨hr, hw, hm⟩, Cursor.range'_within.1 hnew⟩
  · rintro ⟨⟨hr, hw, hm⟩, hnew⟩
    exact ⟨hr, Cursor.within_append.2 ⟨hw, Cursor.range'_within.2 hnew⟩, hm⟩

end Log

/-! ## The decoder -/

structure Parser extends Cursor where
  log : Log

/-- What `coap_parse_message` returns and leaves. -/
structure Result where
  ret : Except ParseError (Message Span × Mem)
  log : Log

def readExtension (mem : Mem) (dataLen value pos : Nat) (l : Log) : Except ParseError (Nat × Nat) × Log :=
  if value = 13 then
    if pos + 1 > dataLen then (.error ⟨.badRequest, none⟩, l)
    else (.ok (value + (mem pos).toNat, pos + 1), l.read pos 1)
  else if value = 14 then
    if pos + 2 > dataLen then (.error ⟨.badRequest, none⟩, l)
    else (.ok (value + 255 + ((mem pos).toNat <<< 8) + (mem (pos + 1)).toNat, pos + 2), l.read pos 2)
  else (.ok (value, pos), l)

/-- `coap_merge_multi_option`: the separator is written before the option is moved. -/
def coapMergeMultiOption (dst : Span) (mem : Mem) (option optionLen : Nat) (separator : UInt8) (l : Log) :
    (Span × Mem) × Log :=
  if dst.len > 0 then
    let l := (l.merge option (dst.start + dst.len) 1).read option optionLen
    ((⟨dst.start, dst.len + 1 + optionLen⟩,
      Mem.copy (dst.start + dst.len + 1) option optionLen (mem.put (dst.start + dst.len) separator)),
      l.merge (option + optionLen) (dst.start + dst.len + 1) optionLen)
  else ((⟨option, optionLen⟩, mem), l)

/-- The `switch` over the options. -/
@[grind =]
def storeOption (msg : Message Span) (mem : Mem) (number option len : Nat) (l : Log) :
    Except ParseError (Message Span × Mem) × Log :=
  let bytes := Mem.read option len mem
  let all := l.read option len
  match CoapOption.ofNumber? number with
  | some .contentFormat => (.ok ({ msg with contentFormat := (coapParseIntOption bytes).toUInt16 }, mem), all)
  | some .maxAge => (.ok ({ msg with maxAge := coapParseIntOption bytes }, mem), all)
  | some .etag => (.ok ({ msg with etag := bytes.take coapEtagLen }, mem), l.read option (min coapEtagLen len))
  | some .accept => (.ok ({ msg with accept := (coapParseIntOption bytes).toUInt16 }, mem), all)
  | some .ifMatch => (.ok ({ msg with ifMatch := bytes.take coapEtagLen }, mem), l.read option (min coapEtagLen len))
  | some .ifNoneMatch => (.ok ({ msg with ifNoneMatch := 1 }, mem), l)
  | some .proxyUri => (.error ⟨.proxyingNotSupported, some "This is a constrained server (Contiki-NG)"⟩, l)
  | some .proxyScheme => (.error ⟨.proxyingNotSupported, some "This is a constrained server (Contiki-NG)"⟩, l)
  | some .uriHost => (.ok ({ msg with uriHost := ⟨option, len⟩ }, mem), l)
  | some .uriPort => (.ok ({ msg with uriPort := (coapParseIntOption bytes).toUInt16 }, mem), all)
  | some .uriPath =>
    let r := coapMergeMultiOption msg.uriPath mem option len slash l
    (.ok ({ msg with uriPath := r.1.1 }, r.1.2), r.2)
  | some .uriQuery =>
    let r := coapMergeMultiOption msg.uriQuery mem option len ampersand l
    (.ok ({ msg with uriQuery := r.1.1 }, r.1.2), r.2)
  | some .locationPath =>
    let r := coapMergeMultiOption msg.locationPath mem option len slash l
    (.ok ({ msg with locationPath := r.1.1 }, r.1.2), r.2)
  | some .locationQuery =>
    let r := coapMergeMultiOption msg.locationQuery mem option len ampersand l
    (.ok ({ msg with locationQuery := r.1.1 }, r.1.2), r.2)
  | some .observe => (.ok ({ msg with observe := (coapParseIntOption bytes).toInt32 }, mem), all)
  | some .block2 => (.ok ({ msg with block2 := Block.unpack (coapParseIntOption bytes) }, mem), all)
  | some .block1 => (.ok ({ msg with block1 := Block.unpack (coapParseIntOption bytes) }, mem), all)
  | some .size2 => (.ok ({ msg with size2 := coapParseIntOption bytes }, mem), all)
  | some .size1 => (.ok ({ msg with size1 := coapParseIntOption bytes }, mem), all)
  | none =>
    if number &&& 1 ≠ 0 then (.error ⟨.badOption, some "Unsupported critical option"⟩, l) else (.ok (msg, mem), l)

def parseOption (dataLen : Nat) (p : Parser) : Except ParseError Cursor × Log :=
  let b := p.mem p.pos
  match readExtension p.mem dataLen (b >>> 4).toNat (p.pos + 1) (p.log.read p.pos 1) with
  | (.error e, l) => (.error e, l)
  | (.ok (optionDelta, pos), l) =>
    match readExtension p.mem dataLen (b &&& 0x0F).toNat pos l with
    | (.error e, l) => (.error e, l)
    | (.ok (optionLength, pos), l) =>
      if pos + optionLength > dataLen then (.error ⟨.badRequest, none⟩, l)
      else
        let number := p.optionNumber + optionDelta
        if number > CoapOption.size1.number then (.error ⟨.badRequest, none⟩, l)
        else
          match storeOption (coapSetOption p.msg number) p.mem number pos optionLength l with
          | (.error e, l) => (.error e, l)
          | (.ok (msg, mem), l) => (.ok ⟨msg, mem, pos + optionLength, number⟩, l)

@[grind =]
def step (z : Sizes) (dataLen : Nat) (p : Parser) : Parser ⊕ Result :=
  if p.pos < dataLen then
    if p.mem p.pos &&& 0xF0 = 0xF0 then
      let payload := p.pos + 1
      let payloadLen := min (dataLen - payload) z.maxChunkSize
      .inr ⟨.ok ({ p.msg with payload := ⟨payload, payloadLen⟩ }, p.mem.put (payload + payloadLen) 0),
        (p.log.read p.pos 1).write (payload + payloadLen) 1⟩
    else
      match parseOption dataLen p with
      | (.error e, l) => .inr ⟨.error e, l⟩
      | (.ok c, l) => .inl ⟨c, l⟩
  else .inr ⟨.ok (p.msg, p.mem), p.log⟩

def parseHeader (data : Mem) (dataLen : Nat) : Parser ⊕ Result :=
  if dataLen < 4 then .inr ⟨.error ⟨.badRequest, none⟩, .empty⟩
  else
    let l := Log.empty.read 0 4
    let version := (0xC0 &&& data 0) >>> 6
    let tokenLen := (0x0F &&& data 0).toNat
    if version ≠ 1 then .inr ⟨.error ⟨.badRequest, some "CoAP version must be 1"⟩, l⟩
    else if tokenLen > coapTokenLen then
      .inr ⟨.error ⟨.badRequest, some "Token Length must not be more than 8"⟩, l⟩
    else if 4 + tokenLen > dataLen then .inr ⟨.error ⟨.badRequest, none⟩, l⟩
    else
      let msg := { Message.zero (⟨0, 0⟩ : Span) with
        version := version
        type := .ofBits ((0x30 &&& data 0) >>> 4).toNat
        code := data 1
        mid := ((data 2).toUInt16 <<< 8) ||| (data 3).toUInt16
        token := Mem.read 4 tokenLen data }
      .inl ⟨⟨msg, data, 4 + tokenLen, 0⟩, l.read 4 tokenLen⟩

/-- `coap_parse_message`, if it ends within `fuel` rounds. -/
def coapParseMessage (z : Sizes) (data : Mem) (dataLen fuel : Nat) : Option Result :=
  match parseHeader data dataLen with
  | .inl p => loop (step z dataLen) fuel p
  | .inr r => some r

end

/-!
`coap_parse_message` keeps to the packet exactly when no payload marker stands in the place of an option with no more
than `COAP_MAX_CHUNK_SIZE` bytes behind it: the terminator of the payload is then written behind the packet.
-/

section

open Lib

variable {z : Sizes} {data mem mem' : Mem} {dataLen number option len pos n : Nat} {msg msg' : Message Span} {l : Log}
  {p : Parser}

/-! ## The plain decoder -/

theorem readExtension_fst (mem : Mem) (dataLen value pos : Nat) (l : Log) :
    (readExtension mem dataLen value pos l).1 = Coap.readExtension mem dataLen value pos := by
  unfold readExtension Coap.readExtension
  split_ifs <;> rfl

theorem merge_fst (dst : Span) (mem : Mem) (option optionLen : Nat) (separator : UInt8) (l : Log) :
    (coapMergeMultiOption dst mem option optionLen separator l).1 =
      Coap.coapMergeMultiOption dst mem option optionLen separator := by
  unfold coapMergeMultiOption Coap.coapMergeMultiOption
  split_ifs <;> rfl

theorem storeOption_fst (msg : Message Span) (mem : Mem) (number option len : Nat) (l : Log) :
    (storeOption msg mem number option len l).1 = Coap.storeOption msg mem number option len := by
  unfold storeOption Coap.storeOption
  simp only [merge_fst]
  cases CoapOption.ofNumber? number with
  | none => split_ifs <;> rfl
  | some o => cases o <;> rfl

theorem parseOption_fst (dataLen : Nat) (p : Parser) :
    (parseOption dataLen p).1 = Coap.parseOption dataLen p.toCursor := by
  unfold parseOption Coap.parseOption
  dsimp only
  rw [← readExtension_fst _ _ _ _ (p.log.read p.pos 1)]
  rcases readExtension p.mem dataLen (p.mem p.pos >>> 4).toNat (p.pos + 1) (p.log.read p.pos 1) with ⟨_ | ⟨delta, q⟩, l⟩
  · rfl
  dsimp only
  rw [← readExtension_fst _ _ _ _ l]
  rcases readExtension p.mem dataLen (p.mem p.pos &&& 0x0F).toNat q l with ⟨_ | ⟨length, q'⟩, l'⟩
  · rfl
  dsimp only
  split_ifs
  · rfl
  · rfl
  rw [← storeOption_fst _ _ _ _ _ l']
  rcases storeOption (coapSetOption p.msg (p.optionNumber + delta)) p.mem (p.optionNumber + delta) q' length l' with
    ⟨_ | ⟨msg, mem⟩, l''⟩
  · rfl
  · rfl

theorem loop_ret {fuel : Nat} {r : Result} (h : loop (step z dataLen) fuel p = some r) :
    r.ret = parseOptions z dataLen p.toCursor := by
  refine loop_computes (f := fun p : Parser => parseOptions z dataLen p.toCursor) (g := Result.ret) ?_ ?_ h
  · rintro p p' hs
    unfold step at hs
    split_ifs at hs with hpos hm
    have hfst := parseOption_fst dataLen p
    rcases hopt : parseOption dataLen p with ⟨_ | c, l⟩
    · rw [hopt] at hs
      cases hs
    · rw [hopt] at hs hfst
      cases hs
      exact (parseOptions_step hpos hm hfst.symm).symm
  · rintro p r hs
    unfold step at hs
    rw [parseOptions]
    split_ifs at hs ⊢ with hpos hm
    · cases hs
      rfl
    · have hfst := parseOption_fst dataLen p
      rcases hopt : parseOption dataLen p with ⟨e | c, l⟩
      · rw [hopt] at hs hfst
        cases hs
        split
        case h_1 e' he =>
          rw [← hfst] at he
          cases he
          rfl
        case h_2 c' he =>
          rw [← hfst] at he
          cases he
      · rw [hopt] at hs
        cases hs
    · cases hs
      rfl

theorem coapParseMessage_ret {fuel : Nat} {r : Result} (h : coapParseMessage z data dataLen fuel = some r) :
    r.ret = Coap.coapParseMessage z data dataLen := by
  unfold coapParseMessage parseHeader at h
  unfold Coap.coapParseMessage
  dsimp only at h ⊢
  split_ifs at h ⊢
  · cases h
    rfl
  · cases h
    rfl
  · cases h
    rfl
  · cases h
    rfl
  · exact loop_ret h

theorem coapParseMessage_unique {fuel fuel' : Nat} {r r' : Result} (h : coapParseMessage z data dataLen fuel = some r)
    (h' : coapParseMessage z data dataLen fuel' = some r') : r = r' := by
  unfold coapParseMessage at h h'
  cases hp : parseHeader data dataLen with
  | inl p =>
    rw [hp] at h h'
    exact loop_unique h h'
  | inr r₀ =>
    rw [hp] at h h'
    exact Option.some.inj (h.symm.trans h')

/-! ## Where strings are -/

def spans (m : Message Span) : List Span :=
  [m.proxyUri, m.proxyScheme, m.uriHost, m.locationPath, m.locationQuery, m.uriPath, m.uriQuery, m.payload]

/-- All strings end before `n`. -/
def EndBy (n : Nat) (m : Message Span) : Prop := ∀ s ∈ spans m, s.start + s.len ≤ n

theorem endBy_iff : EndBy n msg ↔
    msg.proxyUri.start + msg.proxyUri.len ≤ n ∧ msg.proxyScheme.start + msg.proxyScheme.len ≤ n ∧
    msg.uriHost.start + msg.uriHost.len ≤ n ∧ msg.locationPath.start + msg.locationPath.len ≤ n ∧
    msg.locationQuery.start + msg.locationQuery.len ≤ n ∧ msg.uriPath.start + msg.uriPath.len ≤ n ∧
    msg.uriQuery.start + msg.uriQuery.len ≤ n ∧ msg.payload.start + msg.payload.len ≤ n := by
  unfold EndBy spans
  simp only [List.forall_mem_cons, List.not_mem_nil, false_imp_iff, implies_true, and_true]

theorem EndBy.mono {n' : Nat} (h : EndBy n msg) (hle : n ≤ n') : EndBy n' msg := fun s hs => (h s hs).trans hle

theorem endBy_setOption (opt : Nat) : EndBy n (coapSetOption msg opt) ↔ EndBy n msg := by
  unfold coapSetOption
  split_ifs
  · rfl
  · rfl

/-! ## One option -/

theorem extension_within (mem : Mem) (value pos : Nat) (h : l.Within dataLen) : (readExtension mem dataLen value pos l).2.Within dataLen := by
  unfold readExtension
  split_ifs
  · exact h
  · exact h.read (by omega)
  · exact h
  · exact h.read (by omega)
  · exact h

/-- What an option that starts before `option` may change: the accesses stay in the packet, and neither the string that is merged
nor the bytes written go beyond the option. -/
structure Stored (dataLen option len : Nat) (mem mem' : Mem) (l : Log) : Prop where
  within : l.Within dataLen
  keeps : ∀ x, option + len ≤ x → mem' x = mem x

theorem merge_stored (mem : Mem) (separator : UInt8) {dst : Span} (hl : l.Within dataLen) (hdst : dst.start + dst.len < option)
    (hle : option + len ≤ dataLen) :
    Stored dataLen option len mem (coapMergeMultiOption dst mem option len separator l).1.2
        (coapMergeMultiOption dst mem option len separator l).2 ∧
      (coapMergeMultiOption dst mem option len separator l).1.1.start +
        (coapMergeMultiOption dst mem option len separator l).1.1.len ≤ option + len := by
  unfold coapMergeMultiOption
  split_ifs
  · refine ⟨⟨?_, fun x hx => ?_⟩, ?_⟩
    · -- the separator stands before the option, the bytes that are moved before its end
      have hsep : (l.merge option (dst.start + dst.len) 1).Within dataLen := hl.merge (by omega) (by omega)
      exact (hsep.read hle).merge (by omega) hle
    · exact (Mem.copy_of_out (.inr (by omega))).trans (Mem.put_of_ne (by omega))
    · show dst.start + (dst.len + 1 + len) ≤ option + len
      omega
  · exact ⟨⟨hl, fun _ _ => rfl⟩, le_rfl⟩

theorem storeOption_stored (mem : Mem) (number option len : Nat) (hl : l.Within dataLen) (hend : EndBy pos msg) (hlt : pos < option)
    (hle : option + len ≤ dataLen) : (storeOption msg mem number option len l).2.Within dataLen ∧
      ∀ msg' mem', (storeOption msg mem number option len l).1 = .ok (msg', mem') →
        EndBy (option + len) msg' ∧ ∀ x, option + len ≤ x → mem' x = mem x := by
  have hend' : EndBy (option + len) msg := hend.mono (by omega)
  have hetag : (l.read option (min coapEtagLen len)).Within dataLen := hl.read (by omega)
  unfold storeOption
  cases CoapOption.ofNumber? number with
  | none =>
    dsimp only
    split_ifs
    · exact ⟨hl, by rintro _ _ ⟨⟩⟩
    · exact ⟨hl, by rintro _ _ ⟨⟩; exact ⟨hend', fun _ _ => rfl⟩⟩
  | some o =>
    have hspans := endBy_iff.1 hend
    have hspans' := endBy_iff.1 hend'
    cases o with
    | etag | ifMatch => exact ⟨hetag, by rintro _ _ ⟨⟩; exact ⟨hend', fun _ _ => rfl⟩⟩
    | ifNoneMatch => exact ⟨hl, by rintro _ _ ⟨⟩; exact ⟨hend', fun _ _ => rfl⟩⟩
    | proxyUri | proxyScheme => exact ⟨hl, by rintro _ _ ⟨⟩⟩
    | uriHost =>
      refine ⟨hl, ?_⟩
      rintro _ _ ⟨⟩
      refine ⟨endBy_iff.2 ?_, fun _ _ => rfl⟩
      exact ⟨hspans'.1, hspans'.2.1, le_rfl, hspans'.2.2.2⟩
    | uriPath =>
      obtain ⟨⟨hwithin, hkeeps⟩, hdst⟩ := merge_stored mem slash hl
        (hspans.2.2.2.2.2.1.trans_lt hlt) hle
      refine ⟨hwithin, ?_⟩
      rintro _ _ ⟨⟩
      refine ⟨endBy_iff.2 ?_, hkeeps⟩
      obtain ⟨h1, h2, h3, h4, h5, -, h7, h8⟩ := hspans'
      exact ⟨h1, h2, h3, h4, h5, hdst, h7, h8⟩
    | uriQuery =>
      obtain ⟨⟨hwithin, hkeeps⟩, hdst⟩ := merge_stored mem ampersand hl
        (hspans.2.2.2.2.2.2.1.trans_lt hlt) hle
      refine ⟨hwithin, ?_⟩
      rintro _ _ ⟨⟩
      refine ⟨endBy_iff.2 ?_, hkeeps⟩
      obtain ⟨h1, h2, h3, h4, h5, h6, -, h8⟩ := hspans'
      exact ⟨h1, h2, h3, h4, h5, h6, hdst, h8⟩
    | locationPath =>
      obtain ⟨⟨hwithin, hkeeps⟩, hdst⟩ := merge_stored mem slash hl
        (hspans.2.2.2.1.trans_lt hlt) hle
      refine ⟨hwithin, ?_⟩
      rintro _ _ ⟨⟩
      refine ⟨endBy_iff.2 ?_, hkeeps⟩
      obtain ⟨h1, h2, h3, -, h5, h6, h7, h8⟩ := hspans'
      exact ⟨h1, h2, h3, hdst, h5, h6, h7, h8⟩
    | locationQuery =>
      obtain ⟨⟨hwithin, hkeeps⟩, hdst⟩ := merge_stored mem ampersand hl
        (hspans.2.2.2.2.1.trans_lt hlt) hle
      refine ⟨hwithin, ?_⟩
      rintro _ _ ⟨⟩
      refine ⟨endBy_iff.2 ?_, hkeeps⟩
      obtain ⟨h1, h2, h3, h4, -, h6, h7, h8⟩ := hspans'
      exact ⟨h1, h2, h3, h4, hdst, h6, h7, h8⟩
    | contentFormat | maxAge | accept | uriPort | observe | block2 | block1 | size2 | size1 =>
      exact ⟨hl.read hle, by rintro _ _ ⟨⟩; exact ⟨hend', fun _ _ => rfl⟩⟩

/-! ## The options of a packet -/

/-- A known option other than Proxy-*, or an elective one. -/
def Supported (number : Nat) : Prop :=
  match CoapOption.ofNumber? number with
  | some o => o ≠ .proxyUri ∧ o ≠ .proxyScheme
  | none => number &&& 1 = 0

theorem storeOption_supported : (∃ r, Coap.storeOption msg mem number option len = .ok r) ↔ Supported number := by
  unfold Coap.storeOption Supported
  cases CoapOption.ofNumber? number with
  | none =>
    dsimp only
    split_ifs with h
    · exact iff_of_false (by rintro ⟨_, ⟨⟩⟩) h
    · exact iff_of_true ⟨_, rfl⟩ (not_not.1 h)
  | some o =>
    cases o with
    | proxyUri => exact iff_of_false (by rintro ⟨_, ⟨⟩⟩) fun h => h.1 rfl
    | proxyScheme => exact iff_of_false (by rintro ⟨_, ⟨⟩⟩) fun h => h.2 rfl
    | _ => exact iff_of_true ⟨_, rfl⟩ ⟨by rintro ⟨⟩, by rintro ⟨⟩⟩

/-- The header of a packet that `coap_parse_message` accepts. -/
structure HeaderOk (data : Mem) (dataLen : Nat) : Prop where
  size : 4 ≤ dataLen
  version : (0xC0 &&& data 0) >>> 6 = 1
  tokenLen : (0x0F &&& data 0).toNat ≤ coapTokenLen
  token : 4 + (0x0F &&& data 0).toNat ≤ dataLen

/-- The headers of the options of a packet lead to the position, where `number` is that of the option before. -/
inductive Walk (data : Mem) (dataLen : Nat) : Nat → Nat → Prop
  | header (h : HeaderOk data dataLen) : Walk data dataLen (4 + (0x0F &&& data 0).toNat) 0
  | option {pos number delta len p q : Nat} (h : Walk data dataLen pos number) (hpos : pos < dataLen)
      (hmarker : data pos &&& 0xF0 ≠ 0xF0)
      (hdelta : Coap.readExtension data dataLen (data pos >>> 4).toNat (pos + 1) = .ok (delta, p))
      (hlen : Coap.readExtension data dataLen (data pos &&& 0x0F).toNat p = .ok (len, q))
      (hle : q + len ≤ dataLen) (hnumber : number + delta ≤ CoapOption.size1.number)
      (hsupported : Supported (number + delta)) : Walk data dataLen (q + len) (number + delta)

/-- Before an option: what was accessed and where strings are, and that what is still to be parsed is as it was. -/
structure Inv (data : Mem) (dataLen : Nat) (p : Parser) : Prop where
  walk : Walk data dataLen p.pos p.optionNumber
  le : p.pos ≤ dataLen
  same : ∀ x, p.pos ≤ x → p.mem x = data x
  endBy : EndBy p.pos p.msg
  within : p.log.Within dataLen

theorem readExtension_same {value : Nat} (h : ∀ x, pos ≤ x → mem x = data x) :
    Coap.readExtension mem dataLen value pos = Coap.readExtension data dataLen value pos := by
  unfold Coap.readExtension
  rw [h pos le_rfl, h (pos + 1) (by omega)]

theorem parseOption_round (h : Inv data dataLen p) (hpos : p.pos < dataLen) (hmarker : data p.pos &&& 0xF0 ≠ 0xF0) :
    (parseOption dataLen p).2.Within dataLen ∧
      ∀ c, (parseOption dataLen p).1 = .ok c → Inv data dataLen ⟨c, (parseOption dataLen p).2⟩ ∧ p.pos < c.pos := by
  have hfirst : (p.log.read p.pos 1).Within dataLen := h.within.read hpos
  have hd1 := readExtension_fst p.mem dataLen (p.mem p.pos >>> 4).toNat (p.pos + 1) (p.log.read p.pos 1)
  have hl1 := extension_within p.mem (p.mem p.pos >>> 4).toNat (p.pos + 1) hfirst
  rw [readExtension_same fun x hx => h.same x (by omega), h.same _ le_rfl] at hd1
  rw [h.same _ le_rfl] at hl1
  unfold parseOption
  dsimp only
  rw [h.same _ le_rfl]
  rcases hext : readExtension p.mem dataLen (data p.pos >>> 4).toNat (p.pos + 1) (p.log.read p.pos 1) with
    ⟨_ | ⟨delta, q⟩, l⟩
  · rw [hext] at hl1
    exact ⟨hl1, by rintro _ ⟨⟩⟩
  rw [hext] at hd1 hl1
  have hq := readExtension_le hd1.symm
  have hd2 := readExtension_fst p.mem dataLen (data p.pos &&& 0x0F).toNat q l
  have hl2 := extension_within p.mem (data p.pos &&& 0x0F).toNat q hl1
  rw [readExtension_same fun x hx => h.same x (by omega)] at hd2
  dsimp only
  rcases hext' : readExtension p.mem dataLen (data p.pos &&& 0x0F).toNat q l with ⟨_ | ⟨length, q'⟩, l'⟩
  · rw [hext'] at hl2
    exact ⟨hl2, by rintro _ ⟨⟩⟩
  rw [hext'] at hd2 hl2
  have hq' := readExtension_le hd2.symm
  dsimp only
  split_ifs with hle hnumber
  · exact ⟨hl2, by rintro _ ⟨⟩⟩
  · exact ⟨hl2, by rintro _ ⟨⟩⟩
  have hstored := storeOption_stored p.mem (p.optionNumber + delta) q' length hl2
    ((endBy_setOption (p.optionNumber + delta)).2 h.endBy) (by omega) (by omega)
  have hsupported := @storeOption_supported p.mem (p.optionNumber + delta) q' length
    (coapSetOption p.msg (p.optionNumber + delta))
  rw [← storeOption_fst _ _ _ _ _ l'] at hsupported
  rcases hst : storeOption (coapSetOption p.msg (p.optionNumber + delta)) p.mem (p.optionNumber + delta) q' length l' with
    ⟨_ | ⟨msg, mem⟩, l''⟩
  · rw [hst] at hstored
    exact ⟨hstored.1, by rintro _ ⟨⟩⟩
  · rw [hst] at hstored hsupported
    refine ⟨hstored.1, ?_⟩
    rintro _ ⟨⟩
    obtain ⟨hend, hkeeps⟩ := hstored.2 msg mem rfl
    have hwalk := h.walk.option hpos hmarker hd1.symm hd2.symm (by omega) (by omega) (hsupported.1 ⟨_, rfl⟩)
    refine ⟨⟨hwalk, by show q' + length ≤ dataLen; omega, fun x hx => ?_, hend, hstored.1⟩, by show p.pos < q' + length; omega⟩
    have hmid : p.pos ≤ q' + length := by omega
    exact (hkeeps x hx).trans (h.same x (hmid.trans hx))

theorem parseOption_walk (h : Inv data dataLen p) {delta q q' : Nat}
    (hdelta : Coap.readExtension data dataLen (data p.pos >>> 4).toNat (p.pos + 1) = .ok (delta, q))
    (hlen : Coap.readExtension data dataLen (data p.pos &&& 0x0F).toNat q = .ok (len, q'))
    (hle : q' + len ≤ dataLen) (hnumber : p.optionNumber + delta ≤ CoapOption.size1.number)
    (hsupported : Supported (p.optionNumber + delta)) :
    ∃ c, (parseOption dataLen p).1 = .ok c ∧ c.pos = q' + len ∧ c.optionNumber = p.optionNumber + delta := by
  have hq := readExtension_le hdelta
  obtain ⟨⟨msg, mem⟩, hst⟩ := (@storeOption_supported p.mem (p.optionNumber + delta) q' len
    (coapSetOption p.msg (p.optionNumber + delta))).2 hsupported
  refine ⟨⟨msg, mem, q' + len, p.optionNumber + delta⟩, ?_, rfl, rfl⟩
  rw [parseOption_fst]
  unfold Coap.parseOption
  dsimp only
  rw [h.same _ le_rfl, readExtension_same fun x hx => h.same x (by omega), hdelta]
  dsimp only
  rw [readExtension_same fun x hx => h.same x (by omega), hlen]
  dsimp only
  rw [if_neg (by omega), if_neg (by omega), hst]

/-! ## The whole packet -/

/-- All accesses are in the packet, the merges wrote nothing that was still to be parsed, and the strings of an accepted
message are in the packet. -/
structure Safe (dataLen : Nat) (r : Result) : Prop where
  within : r.log.Within dataLen
  strings : ∀ msg mem, r.ret = .ok (msg, mem) → EndBy dataLen msg

/-- A payload marker at `pos` has more than `COAP_MAX_CHUNK_SIZE` bytes behind it. -/
def Room (z : Sizes) (data : Mem) (dataLen pos : Nat) : Prop :=
  pos < dataLen → data pos &&& 0xF0 = 0xF0 → pos + 1 + z.maxChunkSize < dataLen

theorem step_next {p' : Parser} (h : Inv data dataLen p) (hs : step z dataLen p = .inl p') :
    Inv data dataLen p' ∧ dataLen - p'.pos < dataLen - p.pos := by
  unfold step at hs
  rw [h.same _ le_rfl] at hs
  split_ifs at hs with hpos hm
  obtain ⟨-, hok⟩ := parseOption_round h hpos hm
  rcases hopt : parseOption dataLen p with ⟨_ | c, l⟩
  · rw [hopt] at hs
    cases hs
  · rw [hopt] at hs hok
    cases hs
    obtain ⟨hinv, hlt⟩ := hok c rfl
    refine ⟨hinv, ?_⟩
    show dataLen - c.pos < _
    omega

theorem step_last {r : Result} (h : Inv data dataLen p) (hs : step z dataLen p = .inr r) :
    Safe dataLen r ↔ Room z data dataLen p.pos := by
  unfold step at hs
  rw [h.same _ le_rfl] at hs
  split_ifs at hs with hpos hm
  · cases hs
    have hread : (p.log.read p.pos 1).Within dataLen := h.within.read hpos
    constructor
    · rintro ⟨hwithin, -⟩ - -
      have := (Log.within_write.1 hwithin).2
      omega
    · intro hroom
      have := hroom hpos hm
      refine ⟨Log.within_write.2 ⟨hread, .inr (by omega)⟩, ?_⟩
      rintro _ _ ⟨⟩
      have hend := endBy_iff.1 (h.endBy.mono h.le)
      refine endBy_iff.2 ?_
      obtain ⟨h1, h2, h3, h4, h5, h6, h7, -⟩ := hend
      refine ⟨h1, h2, h3, h4, h5, h6, h7, ?_⟩
      show p.pos + 1 + min (dataLen - (p.pos + 1)) z.maxChunkSize ≤ dataLen
      omega
  · obtain ⟨hwithin, -⟩ := parseOption_round h hpos hm
    rcases hopt : parseOption dataLen p with ⟨e | c, l⟩
    · rw [hopt] at hs hwithin
      cases hs
      exact iff_of_true ⟨hwithin, by rintro _ _ ⟨⟩⟩ fun _ hmarker => absurd hmarker hm
    · rw [hopt] at hs
      cases hs
  · cases hs
    refine iff_of_true ⟨h.within, ?_⟩ fun hlt => absurd hlt hpos
    rintro _ _ ⟨⟩
    exact h.endBy.mono h.le

theorem parseHeader_ok (h : HeaderOk data dataLen) : ∃ p, parseHeader data dataLen = .inl p ∧ Inv data dataLen p ∧
    p.pos = 4 + (0x0F &&& data 0).toNat ∧ p.optionNumber = 0 := by
  have hsize := h.size
  have htoken := h.token
  unfold parseHeader
  dsimp only
  rw [if_neg (by omega), if_neg (not_not.2 h.version), if_neg (not_lt.2 h.tokenLen), if_neg (not_lt.2 h.token)]
  refine ⟨_, rfl, ⟨.header h, h.token, fun _ _ => rfl, ?_, ?_⟩, rfl, rfl⟩
  · refine endBy_iff.2 ?_
    simp only [Message.zero, Nat.zero_add, Nat.zero_le, and_self]
  · exact (Log.within_empty.read (by omega)).read h.token

theorem parseHeader_fails (h : ¬ HeaderOk data dataLen) : ∃ r, parseHeader data dataLen = .inr r ∧ Safe dataLen r := by
  unfold parseHeader
  dsimp only
  by_cases hsize : dataLen < 4
  · rw [if_pos hsize]
    exact ⟨_, rfl, Log.within_empty, by rintro _ _ ⟨⟩⟩
  have hread : (Log.empty.read 0 4).Within dataLen := Log.within_empty.read (by omega)
  rw [if_neg hsize]
  split_ifs with hversion htokenLen htoken
  · exact ⟨_, rfl, hread, by rintro _ _ ⟨⟩⟩
  · exact ⟨_, rfl, hread, by rintro _ _ ⟨⟩⟩
  · exact ⟨_, rfl, hread, by rintro _ _ ⟨⟩⟩
  · exact absurd ⟨not_lt.1 hsize, not_not.1 hversion, not_lt.1 htokenLen, not_lt.1 htoken⟩ h

theorem Walk.headerOk (h : Walk data dataLen pos n) : HeaderOk data dataLen := by
  induction h with
  | header h => exact h
  | option _ _ _ _ _ _ _ _ ih => exact ih

theorem inv_of_comes {t : Parser} (h : Inv data dataLen p) (hcomes : Comes (step z dataLen) p t) : Inv data dataLen t := by
  induction hcomes with
  | refl => exact h
  | tail _ hs ih => exact (step_next ih hs).1

theorem comes_of_walk (h : Inv data dataLen p) (hpos : p.pos = 4 + (0x0F &&& data 0).toNat) (hnumber : p.optionNumber = 0)
    (hwalk : Walk data dataLen pos n) : ∃ t, Comes (step z dataLen) p t ∧ t.pos = pos ∧ t.optionNumber = n := by
  induction hwalk with
  | header _ => exact ⟨p, .refl, hpos, hnumber⟩
  | option _ hlt hm hdelta hlen hle hmax hsup ih =>
    obtain ⟨t, hcomes, rfl, rfl⟩ := ih
    have hinv := inv_of_comes h hcomes
    obtain ⟨c, hc, hcpos, hcnumber⟩ := parseOption_walk hinv hdelta hlen hle hmax hsup
    refine ⟨⟨c, (parseOption dataLen t).2⟩, hcomes.tail ?_, hcpos, hcnumber⟩
    unfold step
    rw [if_pos hlt, hinv.same _ le_rfl, if_neg hm]
    rcases hopt : parseOption dataLen t with ⟨_ | c', l⟩
    · rw [hopt] at hc
      cases hc
    · rw [hopt] at hc
      cases hc
      rfl

/-- `coap_parse_message` is safe exactly when every payload marker among the options of the packet has more than
`COAP_MAX_CHUNK_SIZE` bytes behind it. -/
theorem coap_parse_message_safe (z : Sizes) (data : Mem) (dataLen : Nat) :
    (∃ fuel r, coapParseMessage z data dataLen fuel = some r ∧ Safe dataLen r) ↔
      ∀ pos number, Walk data dataLen pos number → Room z data dataLen pos := by
  by_cases hheader : HeaderOk data dataLen
  · obtain ⟨p, hp, hinv, hpos, hnumber⟩ := parseHeader_ok hheader
    unfold coapParseMessage
    rw [hp]
    refine (loop_good_iff (I := Inv data dataLen) (C := fun t => Room z data dataLen t.pos) (B := fun _ => False)
      (μ := fun t => dataLen - t.pos) ?_ ?_ ?_ ?_ hinv).trans ⟨fun h pos number hwalk => ?_, fun h t ht => ?_⟩
    · rintro s s' hs - hstep
      exact step_next hs hstep
    · rintro s r hs hroom hstep
      exact (step_last hs hstep).2 hroom
    · rintro s hs hroom
      refine ⟨fun s' hstep => hroom fun hlt hm => ?_, fun r hstep hsafe => hroom ((step_last hs hstep).1 hsafe)⟩
      -- at a marker the loop ends
      unfold step at hstep
      rw [if_pos hlt, hs.same _ le_rfl, if_pos hm] at hstep
      cases hstep
    · rintro s ⟨⟩
    · obtain ⟨t, ht, rfl, -⟩ := comes_of_walk hinv hpos hnumber hwalk
      exact h t ht
    · exact h t.pos t.optionNumber (inv_of_comes hinv ht).walk
  · obtain ⟨r, hr, hsafe⟩ := parseHeader_fails hheader
    unfold coapParseMessage
    rw [hr]
    exact iff_of_true ⟨0, r, rfl, hsafe⟩ fun _ _ hwalk => absurd hwalk.headerOk hheader

def emptyPayload : Mem := fun i => [0x40, 0x01, 0x00, 0x00, 0xff].getD i 0

/-- The terminator of an empty payload is written behind the packet. -/
theorem terminator_outside :
    ¬ ∃ fuel r, coapParseMessage ⟨48, 64, by decide⟩ emptyPayload 5 fuel = some r ∧ Safe 5 r := by
  rintro ⟨fuel, r, hr, ⟨-, hwrites, -⟩, -⟩
  have hlog : (coapParseMessage ⟨48, 64, by decide⟩ emptyPayload 5 1).map (fun r => r.log.writes) = some [5] := by
    decide
  obtain ⟨r', hr', hlog⟩ := Option.map_eq_some_iff.1 hlog
  obtain rfl := coapParseMessage_unique hr hr'
  exact absurd (hwrites 5 (by rw [hlog]; decide)) (by decide)

end

end Contiki.Coap.Traced

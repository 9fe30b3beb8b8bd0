/-
Sequences of created IEs and what the parser makes of them: header IEs; then the end of the buffer, a list termination,
or a list termination with payload IEs behind it, each with its content.
-/
import Contiki.Frame802154e.Rounds

namespace Contiki.Frame802154e

open Contiki.Lib

variable {cfg : Config} {m : Mem} {s : Parser} {p k : Nat} {st : ParsingState} {nested : Int} {old : Ies}

/-! ## Sequences -/

/-- An MLME IE with the IEs in it, or an IETF IE with the content behind the sub-ID of 6top. -/
inductive PayloadIe
  | mlme (ies : Ies) (nested : List (Ie × Ies))
  | ietf (ies : Ies) (content : List UInt8)

/-- What follows the header IEs; payload IEs may be followed by a list termination too. -/
inductive Tail
  | endOfBuffer
  | unformatted (ies : Ies)
  | payload (ies : Ies) (l : List PayloadIe) (termination : Option Ies)

/-- IEs, each with the values that it is created from; the header IEs are time corrections. -/
structure Sequence where
  header : List Ies
  tail : Tail

def headerBytes (l : List Ies) : List UInt8 := l.flatMap fun v => ieBytes .ackNackTimeCorrection v

def nestedBytes (l : List (Ie × Ies)) : List UInt8 := l.flatMap fun x => ieBytes x.1 x.2

def PayloadIe.bytes : PayloadIe → List UInt8
  | .mlme v l => ieBytes .mlme v ++ nestedBytes l
  | .ietf v content => ieBytes .ietf v ++ IETF_IE_6TOP :: content

def payloadBytes (l : List PayloadIe) : List UInt8 := l.flatMap PayloadIe.bytes

def terminationBytes : Option Ies → List UInt8
  | none => []
  | some v => ieBytes .payloadListTermination v

def Tail.bytes : Tail → List UInt8
  | .endOfBuffer => []
  | .unformatted v => ieBytes .headerListTermination2 v
  | .payload v l termination => ieBytes .headerListTermination1 v ++ payloadBytes l ++ terminationBytes termination

def Sequence.bytes (q : Sequence) : List UInt8 := headerBytes q.header ++ q.tail.bytes

/-- The lengths are those of the content: of an MLME IE the IEs in it, at least one; of an IETF IE the sub-ID and what
follows it. -/
def PayloadIe.WellFormed (cfg : Config) : PayloadIe → Prop
  | .mlme v l => l ≠ [] ∧ (∀ x ∈ l, Nested x.1 ∧ Accepts cfg x.1 x.2) ∧ v.ieMlmeLen.toNat = (nestedBytes l).length
  | .ietf v content => cfg.withSixtop = true ∧ v.sixtopIeContentLen.toNat = 1 + content.length

def Tail.WellFormed (cfg : Config) : Tail → Prop
  | .payload _ l _ => ∀ x ∈ l, x.WellFormed cfg
  | _ => True

def Tail.Terminated : Tail → Prop
  | .endOfBuffer => False
  | .unformatted _ => True
  | .payload _ _ termination => termination.isSome

structure Sequence.WellFormed (cfg : Config) (q : Sequence) : Prop where
  correction : ∀ v ∈ q.header, -2048 ≤ v.ieTimeCorrection.toInt ∧ v.ieTimeCorrection.toInt ≤ 2047
  tail : q.tail.WellFormed cfg

/-! ## The values recovered -/

def headerReceived (l : List Ies) (old : Ies) : Ies := l.foldl (fun old v => received .ackNackTimeCorrection v old) old

def nestedReceived (l : List (Ie × Ies)) (old : Ies) : Ies := l.foldl (fun old x => received x.1 x.2 old) old

/-- The values after a payload IE at `p`; of the content of an IETF IE the place and the length are kept. -/
def PayloadIe.received (p : Nat) (old : Ies) : PayloadIe → Ies
  | .mlme _ l => nestedReceived l old
  | .ietf _ content =>
    { old with sixtopIeContentPtr := some (p + 3), sixtopIeContentLen := UInt16.ofNat content.length }

def payloadReceived : Nat → Ies → List PayloadIe → Ies
  | _, old, [] => old
  | p, old, x :: l => payloadReceived (p + x.bytes.length) (x.received p old) l

/-- The values after the header IEs, which end at `p`. -/
def Tail.received (p : Nat) (old : Ies) : Tail → Ies
  | .endOfBuffer => { old with iePayloadIeOffset := UInt8.ofNat p }
  | .unformatted _ => { old with iePayloadIeOffset := UInt8.ofNat (p + 2) }
  | .payload _ l _ => payloadReceived (p + 2) { old with iePayloadIeOffset := UInt8.ofNat (p + 2) } l

def Sequence.received (q : Sequence) (old : Ies) : Ies :=
  q.tail.received (headerBytes q.header).length (headerReceived q.header { old with iePayloadIeOffset := 0 })

/-! ## Runs of the parser -/

/-- The parser comes to the place in front of `p`. -/
def Reaches (cfg : Config) (m : Mem) (s : Parser) (p k : Nat) (st : ParsingState) (nested : Int) (ies : Ies) : Prop :=
  ∃ s', Comes (parseRound cfg m) s s' ∧ Front p k st nested ies s'

theorem Front.reaches (h : Front p k st nested old s) : Reaches cfg m s p k st nested old := ⟨s, .refl, h⟩

theorem Reaches.trans {p' k' : Nat} {st' : ParsingState} {nested' : Int} {ies' : Ies}
    (h : Reaches cfg m s p k st nested old)
    (h' : ∀ s', Front p k st nested old s' → Reaches cfg m s' p' k' st' nested' ies') :
    Reaches cfg m s p' k' st' nested' ies' := by
  obtain ⟨s₁, hcomes₁, hfront₁⟩ := h
  obtain ⟨s₂, hcomes₂, hfront₂⟩ := h' s₁ hfront₁
  exact ⟨s₂, hcomes₁.trans hcomes₂, hfront₂⟩

theorem reaches_of_round (h : ∃ s', parseRound cfg m s = .inl s' ∧ Front p k st nested old s') :
    Reaches cfg m s p k st nested old := by
  obtain ⟨s', hround, hfront⟩ := h
  exact ⟨s', .single hround, hfront⟩

theorem headerIes_reached : ∀ {l : List Ies} {p k : Nat} {old : Ies} {s : Parser},
    (∀ v ∈ l, -2048 ≤ v.ieTimeCorrection.toInt ∧ v.ieTimeCorrection.toInt ≤ 2047) →
    Front p ((headerBytes l).length + k) .headerIe nested old s → Mem.Holds p (headerBytes l) m →
    Reaches cfg m s (p + (headerBytes l).length) k .headerIe nested (headerReceived l old)
  | [], p, k, old, s, _, h, _ => by
    have hlen : (headerBytes []).length = 0 := rfl
    rw [hlen, Nat.zero_add] at h
    exact h.reaches
  | v :: l, p, k, old, s, hv, h, hm => by
    have hbytes : headerBytes (v :: l) = ieBytes .ackNackTimeCorrection v ++ headerBytes l := List.flatMap_cons
    have hlen : (headerBytes (v :: l)).length = 4 + (headerBytes l).length := by
      rw [hbytes]
      exact List.length_append
    rw [hbytes, Mem.holds_append] at hm
    rw [hlen, Nat.add_assoc] at h
    obtain ⟨hlo, hhi⟩ := hv v List.mem_cons_self
    refine (reaches_of_round (round_ackNack h hm.1 hlo hhi)).trans fun s' h' => ?_
    rw [hlen, ← Nat.add_assoc]
    exact headerIes_reached (fun w hw => hv w (List.mem_cons_of_mem _ hw)) h' hm.2

theorem ieBytes_length_pos (ie : Ie) (v : Ies) : 0 < (ieBytes ie v).length := by
  cases ie with
  | _ => exact Nat.succ_pos _

theorem nestedBytes_cons (x : Ie × Ies) (l : List (Ie × Ies)) :
    nestedBytes (x :: l) = ieBytes x.1 x.2 ++ nestedBytes l := List.flatMap_cons

/-- The IEs of an MLME IE are read until none of its bytes are left. -/
theorem nestedIes_reached : ∀ {l : List (Ie × Ies)} {p k : Nat} {old : Ies} {s : Parser}, l ≠ [] →
    (∀ x ∈ l, Nested x.1 ∧ Accepts cfg x.1 x.2) →
    Front p ((nestedBytes l).length + k) .mlmeSubie (nestedBytes l).length old s → Mem.Holds p (nestedBytes l) m →
    Reaches cfg m s (p + (nestedBytes l).length) k .payloadIe 0 (nestedReceived l old)
  | [], _, _, _, _, hl, _, _, _ => absurd rfl hl
  | x :: l, p, k, old, s, _, hx, h, hm => by
    have hlen : (nestedBytes (x :: l)).length = (ieBytes x.1 x.2).length + (nestedBytes l).length := by
      rw [nestedBytes_cons]
      exact List.length_append
    rw [nestedBytes_cons, Mem.holds_append] at hm
    rw [hlen, Nat.add_assoc] at h
    obtain ⟨hie, haccepts⟩ := hx x List.mem_cons_self
    refine (reaches_of_round (round_nested hie haccepts h hm.1 (by push_cast; omega))).trans fun s' h' => ?_
    rw [hlen, ← Nat.add_assoc]
    cases l with
    | nil =>
      have hnil : (nestedBytes []).length = 0 := rfl
      rw [hnil] at h' ⊢
      rw [if_pos (by push_cast; omega), Nat.zero_add] at h'
      have hzero : (((ieBytes x.1 x.2).length + 0 : Nat) : Int) - (ieBytes x.1 x.2).length = 0 := by
        push_cast
        omega
      rw [hzero] at h'
      exact h'.reaches
    | cons y l =>
      have hpos : 0 < (nestedBytes (y :: l)).length := by
        rw [nestedBytes_cons, List.length_append]
        exact Nat.add_pos_left (ieBytes_length_pos y.1 y.2) _
      rw [if_neg (by push_cast; omega)] at h'
      have hrest : (((ieBytes x.1 x.2).length + (nestedBytes (y :: l)).length : Nat) : Int) -
          (ieBytes x.1 x.2).length = (nestedBytes (y :: l)).length := by
        push_cast
        omega
      rw [hrest] at h'
      exact nestedIes_reached (List.cons_ne_nil _ _) (fun z hz => hx z (List.mem_cons_of_mem _ hz)) h' hm.2

theorem payloadIe_reached {x : PayloadIe} (hx : x.WellFormed cfg)
    (h : Front p (x.bytes.length + k) .payloadIe nested old s) (hm : Mem.Holds p x.bytes m) :
    ∃ nested', Reaches cfg m s (p + x.bytes.length) k .payloadIe nested' (x.received p old) := by
  have hlt := s.bufSize.toNat_lt
  have hbuf := h.bufSize
  cases x with
  | mlme v l =>
    obtain ⟨hne, hl, hlen⟩ := hx
    have hlength : (PayloadIe.mlme v l).bytes.length = 2 + (nestedBytes l).length := List.length_append
    unfold PayloadIe.bytes at hm
    rw [Mem.holds_append] at hm
    rw [hlength] at h hbuf ⊢
    rw [Nat.add_assoc] at h
    refine ⟨0, (reaches_of_round (round_mlme h hm.1 (by omega))).trans fun s' h' => ?_⟩
    rw [hlen] at h'
    rw [← Nat.add_assoc]
    exact nestedIes_reached hne hl h' hm.2
  | ietf v content =>
    obtain ⟨hsixtop, hlen⟩ := hx
    have hlength : (PayloadIe.ietf v content).bytes.length = 2 + (1 + content.length) := by
      rw [Nat.add_comm 1]
      exact List.length_append
    unfold PayloadIe.bytes at hm
    rw [Mem.holds_append, Mem.holds_cons] at hm
    rw [hlength] at h ⊢
    rw [Nat.add_assoc] at h
    rw [← Nat.add_assoc p]
    exact ⟨nested, reaches_of_round (round_ietf hsixtop h hm.1 hm.2.1 hlen)⟩

theorem payloadIes_reached : ∀ {l : List PayloadIe} {p k : Nat} {nested : Int} {old : Ies} {s : Parser},
    (∀ x ∈ l, x.WellFormed cfg) → Front p ((payloadBytes l).length + k) .payloadIe nested old s →
    Mem.Holds p (payloadBytes l) m →
    ∃ nested', Reaches cfg m s (p + (payloadBytes l).length) k .payloadIe nested' (payloadReceived p old l)
  | [], p, k, nested, old, s, _, h, _ => by
    have hlen : (payloadBytes []).length = 0 := rfl
    rw [hlen, Nat.zero_add] at h
    exact ⟨nested, h.reaches⟩
  | x :: l, p, k, nested, old, s, hx, h, hm => by
    have hbytes : payloadBytes (x :: l) = x.bytes ++ payloadBytes l := List.flatMap_cons
    have hlen : (payloadBytes (x :: l)).length = x.bytes.length + (payloadBytes l).length := by
      rw [hbytes]
      exact List.length_append
    rw [hbytes, Mem.holds_append] at hm
    rw [hlen, Nat.add_assoc] at h
    obtain ⟨nested₁, s₁, hcomes, hfront⟩ := payloadIe_reached (hx x List.mem_cons_self) h hm.1
    obtain ⟨nested₂, hreaches⟩ :=
      payloadIes_reached (fun y hy => hx y (List.mem_cons_of_mem _ hy)) hfront hm.2
    rw [hlen, ← Nat.add_assoc]
    obtain ⟨s₂, hcomes', hfront'⟩ := hreaches
    exact ⟨nested₂, s₂, hcomes.trans hcomes', hfront'⟩

/-! ## The round trip -/

theorem parse_of_reaches {P : Parsed → Prop} (h : Reaches cfg m s p k st nested old)
    (hend : ∀ s', Front p k st nested old s' → ∃ r, parseRound cfg m s' = .inr r ∧ P r) :
    ∃ fuel r, loop (parseRound cfg m) fuel s = some r ∧ P r := by
  obtain ⟨s', hcomes, hfront⟩ := h
  obtain ⟨r, hround, hr⟩ := hend s' hfront
  obtain ⟨fuel, hloop⟩ := loop_of_comes hcomes (loop_end hround 0)
  exact ⟨fuel, r, hloop, hr⟩

theorem parseRound_end (h : Front p 0 st nested old s) : ∃ r, parseRound cfg m s = .inr r ∧ r.ret = (p : Nat) ∧
    r.parser.ies = if st = .headerIe then { old with iePayloadIeOffset := UInt8.ofNat p } else old := by
  have hzero : s.bufSize = 0 := UInt8.toNat_inj.1 h.bufSize
  refine ⟨_, if_pos hzero, congrArg Nat.cast h.pos, ?_⟩
  dsimp only
  rw [h.parsingState, ← h.ies, ← h.pos]
  split
  · rfl
  · rfl

theorem tail_recovered {t : Tail} (ht : t.WellFormed cfg) (h : Front p (t.bytes.length + k) .headerIe nested old s)
    (hm : Mem.Holds p t.bytes m) (hk : k = 0 ∨ t.Terminated) : ∃ fuel r, loop (parseRound cfg m) fuel s = some r ∧
      r.ret = (p + t.bytes.length : Nat) ∧ r.parser.ies = t.received p old := by
  cases t with
  | endOfBuffer =>
    obtain rfl : k = 0 := hk.resolve_right id
    exact parse_of_reaches h.reaches fun s' h' => parseRound_end h'
  | unformatted v => exact parse_of_reaches h.reaches fun s' h' => round_headerListTermination2 (v := v) h' hm
  | payload v l termination =>
    have hlen : (Tail.payload v l termination).bytes.length =
        2 + (payloadBytes l).length + (terminationBytes termination).length := by
      unfold Tail.bytes
      rw [List.length_append, List.length_append]
      rfl
    unfold Tail.bytes at hm
    rw [Mem.holds_append, Mem.holds_append] at hm
    obtain ⟨⟨hfirst, hpayload⟩, htermination⟩ := hm
    rw [List.length_append, ← Nat.add_assoc] at htermination
    rw [hlen, Nat.add_assoc, Nat.add_assoc] at h
    obtain ⟨s₁, hcomes₁, hfront₁⟩ := reaches_of_round (round_headerListTermination1 h hfirst)
    obtain ⟨nested', s₂, hcomes₂, hfront₂⟩ := payloadIes_reached ht hfront₁ hpayload
    rw [hlen, ← Nat.add_assoc, ← Nat.add_assoc]
    refine parse_of_reaches ⟨s₂, hcomes₁.trans hcomes₂, hfront₂⟩ fun s' h' => ?_
    cases termination with
    | none =>
      obtain rfl : k = 0 := hk.resolve_right Bool.false_ne_true
      exact parseRound_end h'
    | some w => exact round_payloadListTermination (v := w) h' htermination

/-- What the parser returns for a sequence, and the values it recovers. -/
def Recovers (cfg : Config) (m : Mem) (bufSize : UInt8) (old : Ies) (q : Sequence) : Prop :=
  ∃ fuel r, frame802154eParseInformationElements cfg m bufSize old fuel = some r ∧ r.ret = q.bytes.length ∧
    r.parser.ies = q.received old

theorem parse_recovers {q : Sequence} {bufSize : UInt8} (hq : q.WellFormed cfg) (hm : Mem.Holds 0 q.bytes m)
    (hsize : q.bytes.length = bufSize.toNat ∨ q.tail.Terminated ∧ q.bytes.length ≤ bufSize.toNat) (old : Ies) :
    Recovers cfg m bufSize old q := by
  have hlen : q.bytes.length = (headerBytes q.header).length + q.tail.bytes.length := List.length_append
  obtain ⟨k, hk⟩ : ∃ k, bufSize.toNat = q.bytes.length + k := Nat.exists_eq_add_of_le (by omega)
  have hstart : Front 0 ((headerBytes q.header).length + (q.tail.bytes.length + k)) .headerIe 0
      { old with iePayloadIeOffset := 0 } (startParser bufSize old) :=
    ⟨rfl, by rw [← Nat.add_assoc, ← hlen]; exact hk, rfl, rfl, rfl⟩
  unfold Sequence.bytes at hm
  rw [Mem.holds_append, Nat.zero_add] at hm
  have hheader : Reaches cfg m (startParser bufSize old) (0 + (headerBytes q.header).length) (q.tail.bytes.length + k)
      .headerIe 0 (headerReceived q.header { old with iePayloadIeOffset := 0 }) :=
    headerIes_reached hq.correction hstart hm.1
  rw [Nat.zero_add] at hheader
  obtain ⟨s, hcomes, hfront⟩ := hheader
  have hend : k = 0 ∨ q.tail.Terminated := hsize.imp (fun h => by omega) fun h => h.1
  obtain ⟨fuel, r, hloop, hret, hies⟩ := tail_recovered hq.tail hfront hm.2 hend
  obtain ⟨fuel, hloop⟩ := loop_of_comes hcomes hloop
  refine ⟨fuel, r, hloop, ?_, hies⟩
  rw [hret, hlen]

/-- Every creator writes the bytes of its IE, or nothing; and the parser recovers the values from which the IEs of a
well-formed sequence were created. -/
theorem create_and_parse (cfg : Config) :
    (∀ (ie : Ie) (ies : Ies) (buf : Buf) (len : Int), CreateSpec cfg ie ies buf len) ∧
    ∀ (q : Sequence) (m : Mem) (bufSize : UInt8) (old : Ies), q.WellFormed cfg → Mem.Holds 0 q.bytes m →
      (q.bytes.length = bufSize.toNat ∨ q.tail.Terminated ∧ q.bytes.length ≤ bufSize.toNat) →
      Recovers cfg m bufSize old q :=
  ⟨fun ie ies buf len => create_spec cfg ie ies buf len, fun _ _ _ old hq hm hsize => parse_recovers hq hm hsize old⟩

theorem holds_getD (l : List UInt8) : Mem.Holds 0 l fun x => l.getD x 0 := by
  rw [Mem.holds_iff]
  intro i hi
  rw [Nat.zero_add, List.getD_eq_getElem _ _ hi]

def beaconIes : Ies :=
  { blankIes with
    ieTimeCorrection := -3
    ieIsNack := 7
    ieMlmeLen := 41
    ieAsn := ⟨0x01020304, 5⟩
    ieJoinPriority := 2
    ieTschSlotframeAndLink := ⟨1, 0, 7, 1, fun _ => ⟨3, 4, 0x0f⟩⟩
    ieChannelHoppingSequenceId := 1
    ieHoppingSequenceLen := 4
    ieHoppingSequenceList := fun i => UInt8.ofNat (15 + i) }

/-- A time correction and a beacon, with everything that may stand in it but the timing, and a list termination. -/
def beacon : Sequence where
  header := [beaconIes]
  tail := .payload beaconIes [.mlme beaconIes [(.tschSynchronization, beaconIes), (.tschSlotframeAndLink, beaconIes),
    (.tschTimeslot, blankIes), (.tschChannelHoppingSequence, beaconIes)]] (some beaconIes)

theorem create_and_parse_beacon : Recovers ⟨true, 16⟩ (fun x => beacon.bytes.getD x 0) 60 blankIes beacon := by
  refine (create_and_parse ⟨true, 16⟩).2 beacon _ 60 blankIes ⟨?_, ?_⟩ (holds_getD _) (.inr ⟨rfl, by decide⟩)
  · rintro v hv
    rw [List.mem_singleton.1 hv]
    decide
  · rintro x hx
    rw [List.mem_singleton.1 hx]
    refine ⟨List.cons_ne_nil _ _, ?_, by decide⟩
    rintro y hy
    rcases hy with _ | ⟨_, _ | ⟨_, _ | ⟨_, _ | ⟨_, ⟨⟩⟩⟩⟩⟩
    · exact ⟨trivial, trivial⟩
    · exact ⟨trivial, by decide, by decide⟩
    · exact ⟨trivial, trivial⟩
    · exact ⟨trivial, show 4 ≤ 16 by decide⟩

/-- The IETF IE with content of five bytes: the creator writes the descriptor, and counts the content that its caller
puts behind it. -/
theorem ietf_content_not_written : ¬ ∀ (ie : Ie) (ies : Ies) (len : Int),
    createIe ⟨true, 16⟩ ie ⟨fun _ => 0, []⟩ len ies = ⟨-1, ⟨fun _ => 0, []⟩⟩ ∨
      (∀ x ∈ (createIe ⟨true, 16⟩ ie ⟨fun _ => 0, []⟩ len ies).buf.writes, (x : Int) < len) ∧
      (createIe ⟨true, 16⟩ ie ⟨fun _ => 0, []⟩ len ies).ret =
        (createIe ⟨true, 16⟩ ie ⟨fun _ => 0, []⟩ len ies).buf.writes.dedup.length := by
  intro h
  rcases h .ietf { blankIes with sixtopIeContentLen := 5 } 2 with h | ⟨-, h⟩
  · exact absurd (congrArg Created.ret h) (by decide)
  · exact absurd h (by decide)

end Contiki.Frame802154e

/-
What the transmit process makes of an SDU: where the smaller of the two MPS has room for a byte behind the first header,
each round sends the next piece, and a receiver that gets the fragments in order is as far as the transmit buffer tells.
-/
import Contiki.Lib.Cover
import Contiki.L2cap.Receive

namespace Contiki.L2cap

open Contiki.Lib

variable {A : Type} {cfg : Config A} {c : Nat} {ch : Channel A} {s : State A}

/-! ## What was sent -/

@[grind =]
def emitted (c : Nat) (log : List (Event A)) : List (List UInt8) :=
  log.filterMap fun
    | .fragment d frame => if d = c then some frame else none
    | _ => none

@[grind =]
def accepted (c : Nat) (log : List (Event A)) : List (List UInt8) :=
  log.filterMap fun
    | .accepted d sdu => if d = c then some sdu else none
    | _ => none

@[grind =]
def granted (c : Nat) (log : List (Event A)) : Nat :=
  (log.filterMap fun
    | .granted d n => if d = c then some n else none
    | _ => none).sum

@[simp] theorem emitted_append (log log' : List (Event A)) : emitted c (log ++ log') = emitted c log ++ emitted c log' :=
  List.filterMap_append ..

@[simp] theorem accepted_append (log log' : List (Event A)) : accepted c (log ++ log') = accepted c log ++ accepted c log' :=
  List.filterMap_append ..

@[simp] theorem granted_append (log log' : List (Event A)) : granted c (log ++ log') = granted c log + granted c log' := by
  simp [granted, List.filterMap_append]

/-! ## Frames as bytes -/

@[simp] theorem length_le16 (n : Nat) : (le16 n).length = 2 := rfl

theorem load_le16 {a n : Nat} {m : Mem} (h : Mem.Holds a (le16 n) m) (hn : n < 2 ^ 16) : Mem.load 2 a m = n := by
  obtain ⟨h₀, h₁, -⟩ := h
  simp only [Mem.load, h₀, h₁, UInt8.toNat_ofNat']
  omega

theorem holds_bytes (f : Frame) : Mem.Holds 0 f.bytes f.data := Mem.holds_read.2 fun _ _ => rfl

theorem length_bytes (f : Frame) : f.bytes.length = f.len := Mem.length_read ..

theorem first_of_bytes {f : Frame} {cid n : Nat} {payload : List UInt8}
    (h : f.bytes = le16 (payload.length + 2) ++ le16 cid ++ le16 n ++ payload) (hp : payload.length + 2 < 2 ^ 16)
    (hn : n < 2 ^ 16) : f.First n payload := by
  have hh := holds_bytes f
  have hlen := length_bytes f
  rw [h] at hh hlen
  simp only [List.append_assoc, Mem.holds_append, length_le16, Nat.zero_add] at hh
  simp only [List.length_append, length_le16] at hlen
  exact ⟨by omega, load_le16 hh.1 hp, load_le16 hh.2.2.1 hn, Mem.read_of_holds hh.2.2.2⟩

theorem later_of_bytes {f : Frame} {cid : Nat} {payload : List UInt8}
    (h : f.bytes = le16 payload.length ++ le16 cid ++ payload) (hp : payload.length < 2 ^ 16) : f.Later payload := by
  have hh := holds_bytes f
  have hlen := length_bytes f
  rw [h] at hh hlen
  simp only [List.append_assoc, Mem.holds_append, length_le16, Nat.zero_add] at hh
  simp only [List.length_append, length_le16] at hlen
  exact ⟨by omega, load_le16 hh.1 hp, Mem.read_of_holds hh.2.2⟩

/-! ## When an SDU can be sent -/

/-- `used_mps` before a header size is subtracted. -/
def Channel.usedMps (ch : Channel A) : Nat := min ch.own.mps ch.peer.mps

/-- The length of the last frame of an SDU of `n` bytes. -/
def lastFrameLen (usedMps n : Nat) : Nat :=
  lastSegment (usedMps - l2capFirstHeaderSize) (usedMps - l2capSubseqHeaderSize) n +
    if n ≤ usedMps - l2capFirstHeaderSize then l2capFirstHeaderSize else l2capSubseqHeaderSize

/-- The first header leaves room for a byte, and the packet buffer of a receiver has room for the SDU behind its last
frame. -/
def SduOk (cfg : Config A) (ch : Channel A) (n : Nat) : Prop :=
  l2capFirstHeaderSize < ch.usedMps ∧ n + lastFrameLen ch.usedMps n ≤ cfg.packetbufSize

instance instDecidableSduOk (cfg : Config A) (ch : Channel A) (n : Nat) : Decidable (SduOk cfg ch n) :=
  inferInstanceAs (Decidable (_ ∧ _))

def Channel.room (ch : Channel A) : Nat :=
  segmentRoom (ch.usedMps - l2capFirstHeaderSize) (ch.usedMps - l2capSubseqHeaderSize) ch.tx.currentIndex

/-- The transmit buffer of a channel: empty, or with an SDU that can be sent and was sent up to a cut. -/
def Channel.Sending (cfg : Config A) (ch : Channel A) : Prop :=
  ch.tx.sduLength = 0 ∧ ch.tx.currentIndex = 0 ∨
    ch.tx.currentIndex < ch.tx.sduLength ∧ ch.tx.sduLength ≤ cfg.nodeMtu ∧ SduOk cfg ch ch.tx.sduLength ∧
      AtCut (ch.usedMps - l2capFirstHeaderSize) (ch.usedMps - l2capSubseqHeaderSize) ch.tx.currentIndex

/-- The next fragment of a channel, with `n` bytes of payload. -/
def Channel.nextFragment (ch : Channel A) (n : Nat) : List UInt8 :=
  if ch.tx.currentIndex = 0 then
    le16 (n + 2) ++ le16 ch.peer.cid ++ le16 ch.tx.sduLength ++ Mem.read 0 n ch.tx.sdu
  else le16 n ++ le16 ch.peer.cid ++ Mem.read ch.tx.currentIndex n ch.tx.sdu

def Channel.sent (ch : Channel A) (n : Nat) : Channel A :=
  { ch with
    tx := if ch.tx.currentIndex + n = ch.tx.sduLength then ⟨ch.tx.sdu, 0, 0⟩
      else ⟨ch.tx.sdu, ch.tx.sduLength, ch.tx.currentIndex + n⟩
    peer := { ch.peer with credits := ch.peer.credits - 1 } }

def Channel.nextLen (ch : Channel A) : Nat := min (ch.tx.sduLength - ch.tx.currentIndex) ch.room

/-- What there is to say of the next fragment. -/
structure NextFragment (cfg : Config A) (ch : Channel A) : Prop where
  some : 0 < ch.nextLen
  inside : ch.tx.currentIndex + ch.nextLen ≤ ch.tx.sduLength
  mps : (ch.nextFragment ch.nextLen).length ≤ ch.peer.mps
  header : ch.nextLen + (if ch.tx.currentIndex = 0 then l2capFirstHeaderSize else l2capSubseqHeaderSize) ≤ cfg.packetbufSize
  fits : ch.tx.currentIndex + ch.nextLen = ch.tx.sduLength →
    ch.tx.sduLength + (ch.nextFragment ch.nextLen).length ≤ cfg.packetbufSize

theorem length_nextFragment (ch : Channel A) (n : Nat) : (ch.nextFragment n).length =
    n + if ch.tx.currentIndex = 0 then l2capFirstHeaderSize else l2capSubseqHeaderSize := by
  unfold Channel.nextFragment l2capFirstHeaderSize l2capSubseqHeaderSize
  split <;> simp only [List.length_append, length_le16, Mem.length_read] <;> omega

theorem Channel.Sending.next (h : ch.Sending cfg) (hpos : 0 < ch.tx.sduLength) : NextFragment cfg ch := by
  rcases h with ⟨h₀, -⟩ | ⟨hlt, hmtu, ⟨hroom, hfit⟩, hcut⟩
  · omega
  have hle := cfg.mtu_le
  have hused : ch.usedMps ≤ ch.peer.mps := min_le_right _ _
  have hlen := length_nextFragment ch ch.nextLen
  have hnext : ch.nextLen = min (ch.tx.sduLength - ch.tx.currentIndex) ch.room := rfl
  have hlast := hcut.last hlt
  have hlastpos := @lastSegment_pos (ch.usedMps - l2capFirstHeaderSize) (ch.usedMps - l2capSubseqHeaderSize) _ hpos
  change ch.tx.sduLength - ch.tx.currentIndex ≤ ch.room → _ at hlast
  have hsize : ch.room = if ch.tx.currentIndex = 0 then ch.usedMps - 6 else ch.usedMps - 4 := rfl
  unfold lastFrameLen at hfit
  generalize lastSegment (ch.usedMps - l2capFirstHeaderSize) (ch.usedMps - l2capSubseqHeaderSize) ch.tx.sduLength = last at *
  unfold l2capFirstHeaderSize at hroom
  unfold l2capFirstHeaderSize l2capSubseqHeaderSize at hfit hlen
  by_cases hfirst : ch.tx.currentIndex = 0
  · rw [if_pos hfirst] at hlen hsize
    refine ⟨by omega, by omega, by omega, ?_, fun hend => ?_⟩
    · rw [if_pos hfirst]
      unfold l2capFirstHeaderSize
      split at hfit <;> omega
    · -- the SDU fits in the first fragment
      have hl := hlast (by omega)
      rw [if_pos (by omega)] at hfit
      omega
  · rw [if_neg hfirst] at hlen hsize
    refine ⟨by omega, by omega, by omega, ?_, fun hend => ?_⟩
    · rw [if_neg hfirst]
      unfold l2capSubseqHeaderSize
      split at hfit <;> omega
    · have hl := hlast (by omega)
      split at hfit <;> omega

/-- A round of the process sends the next fragment, when there is one and a buffer and a credit for it. -/
theorem txProcess_eq (numBuffer : Nat) (h : (s.channels c).Sending cfg) (hmps : (s.channels c).own.mps < 2 ^ 16) :
    txProcess cfg c numBuffer s =
      if (s.channels c).tx.sduLength > 0 ∧ numBuffer > 0 ∧ (s.channels c).peer.credits > 0 then
        (s.set c ((s.channels c).sent (s.channels c).nextLen),
          [.fragment c ((s.channels c).nextFragment (s.channels c).nextLen)]) else (s, []) := by
  generalize hch : s.channels c = ch at h hmps ⊢
  unfold txProcess
  simp only [hch]
  split
  · rename_i hgo
    have hn := h.next hgo.1
    have hheader := hn.header
    have hlt := cfg.size_lt
    have hroom : l2capFirstHeaderSize < ch.usedMps := by
      rcases h with ⟨h₀, -⟩ | ⟨-, -, hok, -⟩
      · omega
      · exact hok.1
    have hused : ch.usedMps ≤ ch.own.mps := min_le_left _ _
    have hmin : min ch.own.mps ch.peer.mps = ch.usedMps := rfl
    unfold l2capFirstHeaderSize l2capSubseqHeaderSize at *
    by_cases hfirst : ch.tx.currentIndex = 0
    · have hlen : min ch.tx.sduLength (sub16 ch.usedMps 6) = ch.nextLen := by
        unfold Channel.nextLen Channel.room segmentRoom sub16 l2capFirstHeaderSize
        rw [if_pos hfirst]
        omega
      simp only [hmin, if_pos hfirst, hlen] at hheader ⊢
      rw [if_neg (by omega), Nat.mod_eq_of_lt (by omega)]
      unfold Channel.sent Channel.nextFragment
      simp only [hfirst, if_true]
    · have hlen : min (ch.tx.sduLength - ch.tx.currentIndex) (sub16 ch.usedMps 4) = ch.nextLen := by
        unfold Channel.nextLen Channel.room segmentRoom sub16 l2capSubseqHeaderSize
        rw [if_neg hfirst]
        omega
      simp only [hmin, if_neg hfirst, hlen] at hheader ⊢
      rw [if_neg (by omega)]
      unfold Channel.sent Channel.nextFragment
      simp only [hfirst, if_false, List.append_nil]
  · rfl

theorem Channel.Sending.sent (h : ch.Sending cfg) (hpos : 0 < ch.tx.sduLength) : (ch.sent ch.nextLen).Sending cfg := by
  have hn := h.next hpos
  have hinside := hn.inside
  have hsome := hn.some
  rcases h with ⟨h₀, -⟩ | ⟨hlt, hmtu, hok, hcut⟩
  · omega
  unfold Channel.Sending Channel.sent
  by_cases hend : ch.tx.currentIndex + ch.nextLen = ch.tx.sduLength
  · rw [if_pos hend]
    exact .inl ⟨rfl, rfl⟩
  · -- a fragment that does not reach the end is full
    have hfull : ch.nextLen = ch.room := by
      unfold Channel.nextLen at hend hinside ⊢
      omega
    rw [if_neg hend]
    refine .inr ⟨by dsimp only; omega, hmtu, hok, ?_⟩
    have hnext := hcut.next
    rw [hfull]
    exact hnext

/-! ## What a receiver knows -/

/-- The first `k` bytes of the SDU in a buffer. -/
def Buffer.upTo (tx : Buffer) (k : Nat) : List UInt8 := Mem.read 0 k tx.sdu

def Buffer.behind (tx : Buffer) (k : Nat) : List UInt8 := Mem.read k (tx.sduLength - k) tx.sdu

def Buffer.pending (tx : Buffer) : List (List UInt8) := if tx.sduLength = 0 then [] else [tx.upTo tx.sduLength]

section
variable {tx : Buffer} {k d : Nat}

@[simp] theorem length_upTo (tx : Buffer) (k : Nat) : (tx.upTo k).length = k := Mem.length_read ..

@[simp] theorem length_behind (tx : Buffer) (k : Nat) : (tx.behind k).length = tx.sduLength - k := Mem.length_read ..

theorem upTo_add (tx : Buffer) (k d : Nat) : tx.upTo (k + d) = tx.upTo k ++ Mem.read k d tx.sdu := by
  unfold Buffer.upTo
  rw [Mem.read_add, Nat.zero_add]

theorem behind_split (h : k + d ≤ tx.sduLength) : tx.behind k = Mem.read k d tx.sdu ++ tx.behind (k + d) := by
  unfold Buffer.behind
  rw [← Mem.read_add]
  congr 1
  omega

theorem upTo_behind (h : k ≤ tx.sduLength) : tx.upTo k ++ tx.behind k = tx.upTo tx.sduLength := by
  unfold Buffer.upTo Buffer.behind
  rw [show Mem.read k (tx.sduLength - k) tx.sdu = Mem.read (0 + k) (tx.sduLength - k) tx.sdu by rw [Nat.zero_add],
    ← Mem.read_add]
  congr 1
  omega

theorem behind_eq_nil (tx : Buffer) (k : Nat) : tx.behind k = [] ↔ tx.sduLength ≤ k := by
  rw [← List.length_eq_zero_iff, length_behind, Nat.sub_eq_zero_iff_le]

end

/-- What a receiver's buffer holds when `k` bytes of the SDU in the transmit buffer were sent. -/
def Buffer.Mirrors (rx tx : Buffer) (k : Nat) : Prop :=
  if k = 0 then rx.sduLength = 0 else rx.Midway (tx.upTo k) (tx.behind k)

/-- A receiver that gets the fragments in order, and at first has no SDU in its buffer, has delivered `done`, and has as
much of the next SDU as was sent of it. -/
def Tells (cfg : Config A) (frames done : List (List UInt8)) (tx : Buffer) : Prop :=
  ∀ (c : Nat) (rx : Buffer) (fs : List Frame), rx.sduLength = 0 → fs.map Frame.bytes = frames →
    (receive cfg c rx fs).2 = done ∧ (receive cfg c rx fs).1.Mirrors tx tx.currentIndex

theorem nextFragment_outcome {rx : Buffer} {f : Frame} (hs : ch.Sending cfg) (hpos : 0 < ch.tx.sduLength)
    (hf : f.bytes = ch.nextFragment ch.nextLen) (hrx : rx.Mirrors ch.tx ch.tx.currentIndex) :
    Outcome c (ch.tx.upTo (ch.tx.currentIndex + ch.nextLen)) (ch.tx.behind (ch.tx.currentIndex + ch.nextLen))
      (inputL2capFrameFlowChannel cfg c f rx) := by
  have hn := hs.next hpos
  have hinside := hn.inside
  have hlt := cfg.size_lt
  have hheader := hn.header
  have hmtu : ch.tx.sduLength ≤ cfg.nodeMtu := by
    rcases hs with ⟨h₀, -⟩ | ⟨-, hmtu, -⟩
    · omega
    · exact hmtu
  have hle := cfg.mtu_le
  have hfits : ch.tx.behind (ch.tx.currentIndex + ch.nextLen) = [] →
      ch.tx.currentIndex + ch.nextLen + f.len ≤ cfg.packetbufSize := by
    intro hnil
    rw [behind_eq_nil] at hnil
    have hfit := hn.fits (by omega)
    rw [← hf, length_bytes] at hfit
    omega
  have hsplit := behind_split hinside
  have hall : ch.tx.upTo ch.tx.currentIndex ++ ch.tx.behind ch.tx.currentIndex = ch.tx.upTo ch.tx.sduLength :=
    upTo_behind (by omega)
  have hne : ch.tx.upTo ch.tx.sduLength ≠ [] := by
    rw [← List.length_pos_iff_ne_nil, length_upTo]
    exact hpos
  have hplen : (Mem.read ch.tx.currentIndex ch.nextLen ch.tx.sdu).length = ch.nextLen := Mem.length_read ..
  unfold Channel.nextFragment at hf
  unfold Buffer.Mirrors at hrx
  rw [upTo_add]
  rw [hsplit] at hall hrx
  generalize hpay : Mem.read ch.tx.currentIndex ch.nextLen ch.tx.sdu = payload at hf hfits hsplit hall hrx hplen ⊢
  by_cases hfirst : ch.tx.currentIndex = 0
  · have hnil : ch.tx.upTo ch.tx.currentIndex = [] := by
      rw [hfirst]
      rfl
    rw [if_pos hfirst] at hrx hf hheader
    rw [hfirst] at hpay
    rw [hpay, ← hplen] at hf
    rw [hnil, List.nil_append] at hall ⊢
    unfold l2capFirstHeaderSize at hheader
    refine first_outcome hrx ?_ (hall ▸ hne) ?_ fun h => ?_
    · rw [hall, length_upTo]
      exact first_of_bytes hf (by omega) (by omega)
    · rw [hall, length_upTo]
      exact hmtu
    · have hfit := hfits h
      omega
  · rw [if_neg hfirst] at hrx hf
    rw [← hplen] at hf
    refine later_outcome hrx (later_of_bytes hf (by omega)) (hall ▸ hne) ?_ fun h => ?_
    · rw [hall, length_upTo]
      exact hmtu
    · have hfit := hfits h
      rw [length_upTo]
      omega

theorem Tells.sent {frames done : List (List UInt8)} (h : Tells cfg frames done ch.tx) (hs : ch.Sending cfg)
    (hpos : 0 < ch.tx.sduLength) : ∃ done', done' ++ (ch.sent ch.nextLen).tx.pending = done ++ ch.tx.pending ∧
      Tells cfg (frames ++ [ch.nextFragment ch.nextLen]) done' (ch.sent ch.nextLen).tx := by
  have hn := hs.next hpos
  have hinside := hn.inside
  have hsome := hn.some
  -- one more frame on top of what the receiver got before
  have hout : ∀ (c : Nat) (rx : Buffer) (fs : List Frame), rx.sduLength = 0 →
      fs.map Frame.bytes = frames ++ [ch.nextFragment ch.nextLen] → ∃ r : Buffer × List (Event A),
        receive cfg c rx fs = (r.1, done ++ delivered c r.2) ∧
        Outcome c (ch.tx.upTo (ch.tx.currentIndex + ch.nextLen)) (ch.tx.behind (ch.tx.currentIndex + ch.nextLen)) r := by
    intro c rx fs hrx hfs
    obtain ⟨fs', g, rfl, hfs', hg⟩ := List.map_eq_append_iff.1 hfs
    obtain ⟨f, rfl, hf⟩ := List.map_eq_singleton_iff.1 hg
    obtain ⟨hdone, hat⟩ := h c rx fs' hrx hfs'
    refine ⟨_, ?_, nextFragment_outcome hs hpos hf hat⟩
    rw [receive_append, hdone]
    simp only [receive, List.append_nil]
  unfold Outcome at hout
  by_cases hend : ch.tx.currentIndex + ch.nextLen = ch.tx.sduLength
  · have hnil : ch.tx.behind (ch.tx.currentIndex + ch.nextLen) = [] := (behind_eq_nil _ _).2 hend.ge
    rw [hend] at hnil
    refine ⟨done ++ [ch.tx.upTo ch.tx.sduLength], ?_, fun c rx fs hrx hfs => ?_⟩
    · unfold Channel.sent Buffer.pending
      rw [if_pos hend, if_pos rfl, if_neg (by omega), List.append_nil]
    · obtain ⟨r, hr, ho⟩ := hout c rx fs hrx hfs
      rw [hend, if_pos hnil] at ho
      unfold Channel.sent Buffer.Mirrors
      rw [if_pos hend, if_pos rfl, hr, ho.2]
      exact ⟨rfl, ho.1⟩
  · have hne : ch.tx.behind (ch.tx.currentIndex + ch.nextLen) ≠ [] := fun h => by
      rw [behind_eq_nil] at h
      omega
    refine ⟨done, ?_, fun c rx fs hrx hfs => ?_⟩
    · unfold Channel.sent Buffer.pending
      rw [if_neg hend]
      rfl
    · obtain ⟨r, hr, ho⟩ := hout c rx fs hrx hfs
      rw [if_neg hne] at ho
      unfold Channel.sent Buffer.Mirrors
      rw [if_neg hend, if_neg (by dsimp only; omega), hr, ho.2, List.append_nil]
      exact ⟨rfl, ho.1⟩

end Contiki.L2cap

/-
What a channel makes of the frames it receives: a frame that continues an SDU is appended to it, the last one delivers it,
and the frames of an SDU that begin while no SDU is in the receive buffer deliver exactly that SDU.
-/
import Contiki.L2cap.Model

namespace Contiki.L2cap

open Contiki.Lib

variable {A : Type} {cfg : Config A} {c : Nat} {f : Frame} {rx : Buffer}

@[grind =]
def delivered (c : Nat) (log : List (Event A)) : List (List UInt8) :=
  log.filterMap fun
    | .networkInput d sdu => if d = c then some sdu else none
    | _ => none

@[simp] theorem delivered_append (log log' : List (Event A)) : delivered c (log ++ log') = delivered c log ++ delivered c log' :=
  List.filterMap_append ..

/-! ## Frames -/

/-- A first fragment, of an SDU of `n` bytes. -/
structure Frame.First (f : Frame) (n : Nat) (payload : List UInt8) : Prop where
  len : f.len = payload.length + 6
  frameLen : Mem.load 2 0 f.data = payload.length + 2
  sduLen : Mem.load 2 4 f.data = n
  payload : Mem.read 6 payload.length f.data = payload

structure Frame.Later (f : Frame) (payload : List UInt8) : Prop where
  len : f.len = payload.length + 4
  frameLen : Mem.load 2 0 f.data = payload.length
  payload : Mem.read 4 payload.length f.data = payload

/-- The subsequent fragments of what is left of an SDU; `begins` tells that the sender begins an SDU. -/
def Continues : List (Bool × Frame) → List UInt8 → Prop
  | [], rest => rest = []
  | (begins, f) :: fs, rest =>
    rest ≠ [] ∧ begins = false ∧ ∃ payload rest', rest = payload ++ rest' ∧ f.Later payload ∧ Continues fs rest'

def Carries : List (Bool × Frame) → List UInt8 → Prop
  | [], _ => False
  | (begins, f) :: fs, sdu =>
    begins = true ∧ ∃ payload rest, sdu = payload ++ rest ∧ f.First sdu.length payload ∧ Continues fs rest

/-! ## One frame -/

/-- The buffer holds `got` of an SDU, and `rest` is to come. -/
structure Buffer.Midway (rx : Buffer) (got rest : List UInt8) : Prop where
  sduLength : rx.sduLength = (got ++ rest).length
  currentIndex : rx.currentIndex = got.length
  sdu : Mem.read 0 got.length rx.sdu = got

/-- What comes of a frame behind which the SDU is `got`, with `rest` to come. -/
def Outcome (c : Nat) (got rest : List UInt8) (r : Buffer × List (Event A)) : Prop :=
  if rest = [] then r.1.sduLength = 0 ∧ delivered c r.2 = [got] else r.1.Midway got rest ∧ delivered c r.2 = []

theorem deliver_outcome {got rest : List UInt8} (h : rx.Midway got rest) (hne : got ++ rest ≠ [])
    (hfits : rest = [] → got.length + f.len ≤ cfg.packetbufSize) : Outcome c got rest (deliver cfg c f rx) := by
  have hpos : 0 < (got ++ rest).length := List.length_pos_of_ne_nil hne
  have hlen := h.sduLength
  have hcur := h.currentIndex
  unfold Outcome deliver packetbufRemaininglen
  split
  · rename_i hrest
    subst hrest
    have hfit := hfits rfl
    rw [List.append_nil] at hlen hpos
    rw [if_pos ⟨by omega, by omega⟩, if_neg (by omega)]
    refine ⟨rfl, ?_⟩
    rw [hlen, h.sdu]
    simp [delivered]
  · rename_i hrest
    have hrpos : 0 < rest.length := List.length_pos_of_ne_nil hrest
    rw [List.length_append] at hlen
    rw [if_neg (by omega)]
    exact ⟨h, rfl⟩

theorem first_outcome {payload rest : List UInt8} (hidle : rx.sduLength = 0)
    (hf : f.First (payload ++ rest).length payload) (hne : payload ++ rest ≠ []) (hmtu : (payload ++ rest).length ≤ cfg.nodeMtu)
    (hfits : rest = [] → payload.length + f.len ≤ cfg.packetbufSize) :
    Outcome c payload rest (inputL2capFrameFlowChannel cfg c f rx) := by
  have hlt := cfg.size_lt
  have hle := cfg.mtu_le
  have hflen := hf.len
  have hp : payload.length ≤ cfg.nodeMtu := by
    rw [List.length_append] at hmtu
    omega
  have hpayload : sub16 (Mem.load 2 0 f.data) 2 = payload.length := by
    unfold sub16
    rw [hf.frameLen]
    omega
  unfold inputL2capFrameFlowChannel
  rw [if_neg (by omega), if_pos hidle]
  simp only [hpayload]
  rw [if_neg (by omega)]
  have hmid : Buffer.Midway ⟨Mem.paste 0 payload.length (fun i => f.data (6 + i)) rx.sdu, Mem.load 2 4 f.data, payload.length⟩
      payload rest := ⟨hf.sduLen, rfl, Mem.read_paste.trans hf.payload⟩
  have hout := @deliver_outcome A cfg c _ _ _ _ hmid hne hfits
  unfold Outcome at hout ⊢
  simpa [delivered] using hout

theorem later_outcome {got payload rest : List UInt8} (hmid : rx.Midway got (payload ++ rest)) (hf : f.Later payload)
    (hne : got ++ (payload ++ rest) ≠ []) (hmtu : (got ++ (payload ++ rest)).length ≤ cfg.nodeMtu)
    (hfits : rest = [] → got.length + payload.length + f.len ≤ cfg.packetbufSize) :
    Outcome c (got ++ payload) rest (inputL2capFrameFlowChannel cfg c f rx) := by
  have hpos : 0 < (got ++ (payload ++ rest)).length := List.length_pos_of_ne_nil hne
  have hbusy : rx.sduLength ≠ 0 := by
    rw [hmid.sduLength]
    omega
  have hcur := hmid.currentIndex
  have hflen := hf.len
  simp only [List.length_append] at hmtu
  unfold inputL2capFrameFlowChannel
  rw [if_neg (by omega), if_neg hbusy]
  simp only [hf.frameLen]
  rw [if_neg (by omega)]
  have hmid' : Buffer.Midway
      { rx with
        sdu := Mem.paste rx.currentIndex payload.length (fun i => f.data (4 + i)) rx.sdu
        currentIndex := rx.currentIndex + payload.length } (got ++ payload) rest := by
    refine ⟨by rw [List.append_assoc]; exact hmid.sduLength, by simp [hcur], ?_⟩
    rw [hcur, List.length_append, Mem.read_add, Nat.zero_add, Mem.read_paste_before (by omega), hmid.sdu, Mem.read_paste,
      hf.payload]
  have hout := @deliver_outcome A cfg c _ _ _ _ hmid' (by simpa using hne) (by simpa using hfits)
  unfold Outcome at hout ⊢
  simpa [delivered] using hout

/-! ## Frames one after the other -/

/-- The frames of a channel, in order: the buffer they leave, and the SDUs that are delivered. -/
@[grind =]
def receive (cfg : Config A) (c : Nat) : Buffer → List Frame → Buffer × List (List UInt8)
  | rx, [] => (rx, [])
  | rx, f :: fs =>
    let r := inputL2capFrameFlowChannel cfg c f rx
    let r' := receive cfg c r.1 fs
    (r'.1, delivered c r.2 ++ r'.2)

theorem receive_append : ∀ (fs gs : List Frame) (rx : Buffer), receive cfg c rx (fs ++ gs) =
    ((receive cfg c (receive cfg c rx fs).1 gs).1, (receive cfg c rx fs).2 ++ (receive cfg c (receive cfg c rx fs).1 gs).2)
  | [], gs, rx => by simp [receive]
  | f :: fs, gs, rx => by
    simp only [List.cons_append, receive, receive_append fs gs, List.append_assoc]

/-! ## When frames are received well -/

def Buffer.missing (rx : Buffer) : Nat := rx.sduLength - rx.currentIndex

def payloadLen (rx : Buffer) (f : Frame) : Nat :=
  if rx.sduLength = 0 then sub16 (Mem.load 2 0 f.data) 2 else Mem.load 2 0 f.data

def payloadIndex (rx : Buffer) : Nat := if rx.sduLength = 0 then 0 else rx.currentIndex

def announced (rx : Buffer) (f : Frame) : Nat := if rx.sduLength = 0 then Mem.load 2 4 f.data else rx.sduLength

/-- The payload of a frame is in the frame, and the receive buffer has room for it. -/
def Admitted (cfg : Config A) (rx : Buffer) (f : Frame) : Prop :=
  payloadLen rx f + payloadIndex rx ≤ cfg.nodeMtu ∧
    payloadLen rx f + (if rx.sduLength = 0 then l2capFirstHeaderSize else l2capSubseqHeaderSize) ≤ f.len

/-- A frame neither passes over the end of its SDU nor is for an SDU that is too long, and when it is the last one the
packet buffer has room for the SDU behind the frame. No SDU begins before the one before it is complete. -/
def FrameOk (cfg : Config A) (rx : Buffer) (begins : Bool) (f : Frame) : Prop :=
  4 ≤ f.len ∧ (begins = true → rx.missing = 0) ∧
    (Admitted cfg rx f → announced rx f = 0 ∨
      (payloadIndex rx + payloadLen rx f ≤ announced rx f ∧ announced rx f ≤ cfg.nodeMtu ∧
        (payloadIndex rx + payloadLen rx f = announced rx f → announced rx f + f.len ≤ cfg.packetbufSize)))

instance instDecidableAdmitted (cfg : Config A) (rx : Buffer) (f : Frame) : Decidable (Admitted cfg rx f) :=
  inferInstanceAs (Decidable (_ ∧ _))

instance instDecidableFrameOk (cfg : Config A) (rx : Buffer) (begins : Bool) (f : Frame) :
    Decidable (FrameOk cfg rx begins f) :=
  inferInstanceAs (Decidable (_ ∧ _ ∧ _))

def FramesOk (cfg : Config A) (c : Nat) : Buffer → List (Bool × Frame) → Prop
  | _, [] => True
  | rx, (begins, f) :: fs => FrameOk cfg rx begins f ∧ FramesOk cfg c (inputL2capFrameFlowChannel cfg c f rx).1 fs

/-- The buffer waits for the rest of an SDU, or for the next one. -/
def Buffer.Open (rx : Buffer) : Prop := rx.sduLength = 0 ∨ rx.currentIndex < rx.sduLength

def stored (rx : Buffer) (f : Frame) : Buffer where
  sdu := Mem.paste (payloadIndex rx) (payloadLen rx f)
    (fun i => f.data ((if rx.sduLength = 0 then l2capFirstHeaderSize else l2capSubseqHeaderSize) + i)) rx.sdu
  sduLength := announced rx f
  currentIndex := payloadIndex rx + payloadLen rx f

theorem input_buffer (cfg : Config A) (c : Nat) (f : Frame) (rx : Buffer) :
    (inputL2capFrameFlowChannel cfg c f rx).1 = rx ∨
      (Admitted cfg rx f ∧ (inputL2capFrameFlowChannel cfg c f rx).1 = (deliver cfg c f (stored rx f)).1) := by
  unfold inputL2capFrameFlowChannel Admitted stored payloadIndex payloadLen announced
    l2capFirstHeaderSize l2capSubseqHeaderSize
  split
  · exact .inl rfl
  · by_cases hidle : rx.sduLength = 0
    · simp only [if_pos hidle, Nat.zero_add]
      split
      · exact .inl rfl
      · rename_i hadm
        rw [not_or, not_lt, not_lt] at hadm
        -- `omega` for the zero: by `rfl` the kernel would compute `sub16`
        exact .inr ⟨⟨by omega, hadm.2⟩, rfl⟩
    · simp only [if_neg hidle]
      split
      · exact .inl rfl
      · rename_i hadm
        rw [not_or, not_lt, not_lt] at hadm
        rw [Nat.add_comm rx.currentIndex]
        exact .inr ⟨hadm, rfl⟩

theorem FrameOk.open {begins : Bool} (h : FrameOk cfg rx begins f) (ho : rx.Open) :
    (inputL2capFrameFlowChannel cfg c f rx).1.Open := by
  rcases input_buffer cfg c f rx with he | ⟨hadm, he⟩
  · rw [he]
    exact ho
  rw [he]
  unfold deliver packetbufRemaininglen
  have hs : (stored rx f).sduLength = announced rx f := rfl
  have hc : (stored rx f).currentIndex = payloadIndex rx + payloadLen rx f := rfl
  rcases h.2.2 hadm with h₀ | ⟨hend, -, hfits⟩
  · rw [if_neg (by omega)]
    exact .inl (hs.trans h₀)
  · by_cases hdone : (stored rx f).sduLength > 0 ∧ (stored rx f).sduLength = (stored rx f).currentIndex
    · have hfit := hfits (by omega)
      rw [if_pos hdone, if_neg (by omega)]
      exact .inl rfl
    · rw [if_neg hdone]
      unfold Buffer.Open
      dsimp only
      omega

theorem FrameOk.fits {begins : Bool} {n : Nat} (h : FrameOk cfg rx begins f) (hadm : Admitted cfg rx f)
    (hn : announced rx f = n) (hpos : 0 < n) (hend : payloadIndex rx + payloadLen rx f = n) :
    n + f.len ≤ cfg.packetbufSize := by
  rcases h.2.2 hadm with h₀ | ⟨-, -, hfits⟩
  · omega
  · have hfit := hfits (by omega)
    omega

/-! ## An SDU is received -/

theorem continues_received : ∀ {fs : List (Bool × Frame)} {rx : Buffer} {got rest : List UInt8}, rx.Midway got rest →
    rest ≠ [] → Continues fs rest → (got ++ rest).length ≤ cfg.nodeMtu → FramesOk cfg c rx fs →
    (receive cfg c rx (fs.map Prod.snd)).2 = [got ++ rest]
  | [], _, _, _, _, hne, h, _, _ => absurd h hne
  | (begins, f) :: fs, rx, got, rest, hmid, hne, h, hmtu, hok => by
    obtain ⟨-, -, payload, rest', rfl, hf, hrest⟩ := h
    have hall : got ++ (payload ++ rest') ≠ [] := fun h => hne (List.append_eq_nil_iff.1 h).2
    have hbusy : rx.sduLength ≠ 0 := by
      rw [hmid.sduLength]
      exact (List.length_pos_of_ne_nil hall).ne'
    have hlen := hmid.sduLength
    have hcur := hmid.currentIndex
    have hflen := hf.len
    simp only [List.length_append] at hmtu hlen
    have hfits : rest' = [] → got.length + payload.length + f.len ≤ cfg.packetbufSize := by
      rintro rfl
      simp only [List.length_nil] at hlen
      refine hok.1.fits ?_ ?_ (by simp only [List.append_nil] at hne; have := List.length_pos_of_ne_nil hne; omega) ?_
      · unfold Admitted payloadLen payloadIndex l2capSubseqHeaderSize
        simp only [if_neg hbusy, hf.frameLen]
        omega
      · unfold announced
        rw [if_neg hbusy]
        omega
      · unfold payloadLen payloadIndex
        simp only [if_neg hbusy, hf.frameLen]
        omega
    have hout := later_outcome (c := c) hmid hf hall (by simp only [List.length_append]; omega) hfits
    simp only [List.map_cons, receive]
    unfold Outcome at hout
    split at hout
    · rename_i hnil
      subst hnil
      -- no fragment follows the last one
      have hfs : fs = [] := by
        cases fs with
        | nil => rfl
        | cons g gs => exact absurd rfl hrest.1
      subst hfs
      rw [hout.2]
      simp [receive]
    · rename_i hnil
      rw [hout.2, List.nil_append, continues_received hout.1 hnil hrest (by simp only [List.length_append]; omega) hok.2,
        List.append_assoc]

theorem carries_received {fs : List (Bool × Frame)} {sdu : List UInt8} (ho : rx.Open) (h : Carries fs sdu)
    (hne : sdu ≠ []) (hmtu : sdu.length ≤ cfg.nodeMtu) (hok : FramesOk cfg c rx fs) :
    (receive cfg c rx (fs.map Prod.snd)).2 = [sdu] := by
  cases fs with
  | nil => exact absurd h id
  | cons bf fs =>
    obtain ⟨begins, f⟩ := bf
    obtain ⟨rfl, payload, rest, rfl, hf, hrest⟩ := h
    -- the SDU begins when nothing is missing, so that no SDU is in the buffer
    have hidle : rx.sduLength = 0 := by
      have hmissing : rx.sduLength - rx.currentIndex = 0 := hok.1.2.1 rfl
      rcases ho with h₀ | hlt
      · exact h₀
      · omega
    have hlt := cfg.size_lt
    have hle := cfg.mtu_le
    have hflen := hf.len
    have hpos := List.length_pos_of_ne_nil hne
    simp only [List.length_append] at hmtu hpos
    have hpay : sub16 (Mem.load 2 0 f.data) 2 = payload.length := by
      unfold sub16
      rw [hf.frameLen]
      omega
    have hfits : rest = [] → payload.length + f.len ≤ cfg.packetbufSize := by
      rintro rfl
      simp only [List.length_nil, Nat.add_zero] at hmtu hpos
      refine hok.1.fits ?_ ?_ hpos ?_
      · unfold Admitted payloadLen payloadIndex l2capFirstHeaderSize
        simp only [if_pos hidle, hpay]
        omega
      · unfold announced
        rw [if_pos hidle, hf.sduLen, List.append_nil]
      · unfold payloadLen payloadIndex
        simp only [if_pos hidle, hpay]
        omega
    have hout := first_outcome (c := c) hidle hf hne (by simp only [List.length_append]; omega) hfits
    simp only [List.map_cons, receive]
    unfold Outcome at hout
    split at hout
    · rename_i hnil
      subst hnil
      have hfs : fs = [] := by
        cases fs with
        | nil => rfl
        | cons g gs => exact absurd rfl hrest.1
      subst hfs
      rw [hout.2]
      simp [receive]
    · rename_i hnil
      rw [hout.2, List.nil_append, continues_received hout.1 hnil hrest (by simp only [List.length_append]; omega) hok.2]

end Contiki.L2cap

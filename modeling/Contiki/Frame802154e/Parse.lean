/-
The parser of information elements and the end of its buffer. A round of the parser stays within the buffer unless it
comes to an IETF IE that is longer than what is left, or has no sub-ID; to the fifth byte of a slotframe and link IE
behind the end; or to the length of a hopping sequence behind the end, or one that goes beyond it.
-/
import Contiki.Frame802154e.Model

namespace Contiki.Frame802154e

open Contiki.Lib

variable {cfg : Config} {m : Mem} {s s' s'' : Parser} {n k j len : Nat} {F G : Prop}

/-! ## Within the buffer -/

/-- The parser has read and stored nothing behind the first `n` bytes, and the number of bytes left is right. -/
structure Ok (n : Nat) (s : Parser) : Prop where
  within : s.cursor.Within n
  notWrapped : s.wrapped = false
  stored : ∀ b ∈ s.stored, b.1 + b.2 ≤ n

/-- The parser stays at its place, and within the buffer when `F` holds. -/
structure Content (n : Nat) (s s' : Parser) (F : Prop) : Prop where
  pos : s'.cursor.pos = s.cursor.pos
  bufSize : s'.bufSize = s.bufSize
  ok : Ok n s' ↔ Ok n s ∧ F

theorem Content.trans (h : Content n s s' F) (h' : Content n s' s'' G) : Content n s s'' (F ∧ G) where
  pos := h'.pos.trans h.pos
  bufSize := h'.bufSize.trans h.bufSize
  ok := by rw [h'.ok, h.ok, and_assoc]

theorem Content.iff (h : Content n s s' F) (he : F ↔ G) : Content n s s' G := ⟨h.pos, h.bufSize, by rw [h.ok, he]⟩

theorem content_refl (n : Nat) (s : Parser) : Content n s s True := ⟨rfl, rfl, (and_iff_left trivial).symm⟩

theorem content_peek (k j n : Nat) (s : Parser) : Content n s (s.peek k j) (j = 0 ∨ s.cursor.pos + k + j ≤ n) := by
  refine ⟨rfl, rfl, ?_⟩
  constructor
  · rintro ⟨hw, h2, h3⟩
    obtain ⟨hw, hle⟩ := Cursor.within_peek.1 hw
    exact ⟨⟨hw, h2, h3⟩, hle⟩
  · rintro ⟨⟨hw, h2, h3⟩, hle⟩
    exact ⟨Cursor.within_peek.2 ⟨hw, hle⟩, h2, h3⟩

theorem content_store (k j n : Nat) (ies : Ies) (s : Parser) :
    Content n s (s.store k j ies) (s.cursor.pos + k + j ≤ n) := by
  refine ⟨rfl, rfl, ?_⟩
  constructor
  · rintro ⟨h1, h2, h3⟩
    refine ⟨⟨h1, h2, fun b hb => h3 b (List.mem_append_left _ hb)⟩, ?_⟩
    exact h3 (s.cursor.pos + k, j) (List.mem_append_right _ List.mem_cons_self)
  · rintro ⟨⟨h1, h2, h3⟩, hle⟩
    refine ⟨h1, h2, fun b hb => ?_⟩
    rcases List.mem_append.1 hb with hb | hb
    · exact h3 b hb
    · rw [List.mem_singleton.1 hb]
      exact hle

theorem content_same (n : Nat) (hc : s'.cursor = s.cursor) (hb : s'.bufSize = s.bufSize) (hs : s'.stored = s.stored)
    (hw : s'.wrapped = s.wrapped) : Content n s s' True := by
  refine ⟨by rw [hc], hb, ?_⟩
  rw [and_iff_left trivial]
  constructor
  · rintro ⟨h1, h2, h3⟩
    exact ⟨hc ▸ h1, hw ▸ h2, hs ▸ h3⟩
  · rintro ⟨h1, h2, h3⟩
    exact ⟨hc ▸ h1, hw ▸ h2, hs ▸ h3⟩

theorem Content.same (h : Content n s s' F) (hc : s''.cursor = s'.cursor) (hb : s''.bufSize = s'.bufSize)
    (hs : s''.stored = s'.stored) (hw : s''.wrapped = s'.wrapped) : Content n s s'' F :=
  (h.trans (content_same n hc hb hs hw)).iff (and_iff_left trivial)

theorem content_setIes (n : Nat) (ies : Ies) (s : Parser) : Content n s (s.setIes ies) True :=
  content_same n rfl rfl rfl rfl

theorem ok_advance : Ok n (s.advance len) ↔ Ok n s ∧ len ≤ s.bufSize.toNat := by
  have hwrapped : (s.advance len).wrapped = false ↔ s.wrapped = false ∧ len ≤ s.bufSize.toNat := by
    unfold Parser.advance
    simp
  constructor
  · rintro ⟨h1, h2, h3⟩
    exact ⟨⟨h1, (hwrapped.1 h2).1, h3⟩, (hwrapped.1 h2).2⟩
  · rintro ⟨⟨h1, h2, h3⟩, hle⟩
    exact ⟨h1, hwrapped.2 ⟨h2, hle⟩, h3⟩

/-! ## The content of an IE -/

theorem parseHeaderIe_content (m : Mem) (len id n : Nat) (s : Parser) :
    ∃ F, Content n s (frame802154eParseHeaderIe m len id s).1 F ∧ (s.cursor.pos + len ≤ n → F) := by
  unfold frame802154eParseHeaderIe
  by_cases h : id = HEADER_IE_ACK_NACK_TIME_CORRECTION ∧ len = 2
  · rw [if_pos h]
    refine ⟨_, (content_peek 0 2 n s).trans (content_setIes n _ _), fun hle => ⟨.inr ?_, trivial⟩⟩
    rw [← h.2]
    exact hle
  · rw [if_neg h]
    exact ⟨_, content_refl n s, fun _ => trivial⟩

/-- A slotframe and link IE is read up to its fifth byte, however short it is. -/
theorem parseMlmeShortIe_content (m : Mem) (len id n : Nat) (s : Parser) :
    ∃ F, Content n s (frame802154eParseMlmeShortIe m len id s).1 F ∧ (s.cursor.pos + len ≤ n →
      (F ↔ (id = MLME_SHORT_IE_TSCH_SLOFTRAME_AND_LINK → 1 ≤ len → s.cursor.pos + 5 ≤ n))) := by
  unfold frame802154eParseMlmeShortIe
  dsimp only
  by_cases hslotframe : id = MLME_SHORT_IE_TSCH_SLOFTRAME_AND_LINK
  · rw [if_pos hslotframe]
    by_cases hlen : 1 ≤ len
    · rw [if_pos hlen]
      have hread := (content_peek 0 1 n s).trans (content_peek 4 1 n (s.peek 0 1))
      have hfive : s.cursor.pos + len ≤ n → (((1 = 0 ∨ s.cursor.pos + 0 + 1 ≤ n) ∧
          (1 = 0 ∨ s.cursor.pos + 4 + 1 ≤ n)) ↔ (id = MLME_SHORT_IE_TSCH_SLOFTRAME_AND_LINK → 1 ≤ len →
            s.cursor.pos + 5 ≤ n)) := by
        intro hle
        constructor
        · rintro ⟨-, h⟩ _ _
          omega
        · intro h
          have := h hslotframe hlen
          omega
      by_cases hzero : (m s.cursor.pos).toNat = 0
      · rw [if_pos hzero]
        exact ⟨_, hread, hfive⟩
      · rw [if_neg hzero]
        split
        · refine ⟨_, hread.trans ((content_peek 0 len n _).trans (content_store 0 len n _ _)), fun hle => ?_⟩
          rw [← hfive hle]
          refine ⟨fun h => h.1, fun h => ⟨h, .inr hle, hle⟩⟩
        · exact ⟨_, hread, hfive⟩
    · rw [if_neg hlen]
      exact ⟨_, content_refl n s, fun _ => ⟨fun _ _ h => absurd h hlen, fun _ => trivial⟩⟩
  · rw [if_neg hslotframe]
    split
    · rename_i h
      refine ⟨_, (content_peek 0 6 n s).trans (content_setIes n _ _), fun hle => ?_⟩
      rw [h.2] at hle
      exact iff_of_true ⟨.inr hle, trivial⟩ fun h => absurd h hslotframe
    · split
      · refine ⟨_, (content_peek 0 len n s).trans (content_store 0 len n _ _), fun hle => ?_⟩
        exact iff_of_true ⟨.inr hle, hle⟩ fun h => absurd h hslotframe
      · exact ⟨_, content_refl n s, fun _ => iff_of_true trivial fun h => absurd h hslotframe⟩

/-- Of a hopping sequence IE the length of the sequence is read, which is not compared with the length of the IE. -/
theorem parseMlmeLongIe_content (cfg : Config) (m : Mem) (len id n : Nat) (s : Parser) :
    ∃ F, Content n s (frame802154eParseMlmeLongIe cfg m len id s).1 F ∧ (s.cursor.pos + len ≤ n →
      (F ↔ (id = MLME_LONG_IE_TSCH_CHANNEL_HOPPING_SEQUENCE → 1 < len →
        s.cursor.pos + 10 + Mem.load 2 (s.cursor.pos + 8) m ≤ n))) := by
  have hload : (read16 m (s.cursor.pos + 8)).toNat = Mem.load 2 (s.cursor.pos + 8) m := by
    have := Mem.load_lt 2 (s.cursor.pos + 8) m
    unfold read16
    rw [UInt16.toNat_ofNat']
    omega
  unfold frame802154eParseMlmeLongIe
  dsimp only
  rw [hload]
  by_cases h : id = MLME_LONG_IE_TSCH_CHANNEL_HOPPING_SEQUENCE ∧ 0 < len
  · rw [if_pos h]
    have hid := (content_peek 0 1 n s).trans (content_setIes n { s.ies with
      ieChannelHoppingSequenceId := m s.cursor.pos } _)
    by_cases hlen : 1 < len
    · rw [if_pos hlen]
      have hread := hid.trans ((content_peek 8 2 n _).trans (content_store 10 (Mem.load 2 (s.cursor.pos + 8) m) n
        { s.ies with
          ieChannelHoppingSequenceId := m s.cursor.pos
          ieHoppingSequenceLen := read16 m (s.cursor.pos + 8) } _))
      have hbound : s.cursor.pos + len ≤ n → ((((1 = 0 ∨ s.cursor.pos + 0 + 1 ≤ n) ∧ True) ∧
          (2 = 0 ∨ s.cursor.pos + 8 + 2 ≤ n) ∧ s.cursor.pos + 10 + Mem.load 2 (s.cursor.pos + 8) m ≤ n) ↔
          (id = MLME_LONG_IE_TSCH_CHANNEL_HOPPING_SEQUENCE → 1 < len →
            s.cursor.pos + 10 + Mem.load 2 (s.cursor.pos + 8) m ≤ n)) := by
        intro hle
        constructor
        · exact fun hF _ _ => hF.2.2
        · intro hG
          have := hG h.1 hlen
          exact ⟨⟨.inr (by omega), trivial⟩, .inr (by omega), this⟩
      split
      · refine ⟨_, hread.trans ((content_peek 10 (Mem.load 2 (s.cursor.pos + 8) m) n _).trans (content_setIes n _ _)),
          fun hle => ?_⟩
        rw [← hbound hle]
        exact ⟨fun hF => hF.1, fun hF => ⟨hF, .inr hF.2.2, trivial⟩⟩
      · exact ⟨_, hread, hbound⟩
    · rw [if_neg hlen]
      exact ⟨_, hid, fun hle => iff_of_true ⟨.inr (by omega), trivial⟩ fun _ hc => absurd hc hlen⟩
  · rw [if_neg h]
    exact ⟨_, content_refl n s, fun _ => iff_of_true trivial fun hid hc => absurd ⟨hid, by omega⟩ h⟩

/-! ## Rounds -/

/-- The parser is at a place in the first `n` bytes, with the number of bytes left. -/
def At (n : Nat) (s : Parser) : Prop := s.cursor.pos + s.bufSize.toNat = n

/-- The IE at the place of the parser fits into the buffer: of an IETF IE all of it and, with the sub-ID of 6top, at least
the sub-ID; of a slotframe and link IE five bytes; of a hopping sequence IE the sequence of the length that it has. -/
def Fits (cfg : Config) (m : Mem) (s : Parser) : Prop :=
  let ieDesc := Mem.load 2 s.cursor.pos m
  let p := s.cursor.pos + 2
  let room := s.bufSize.toNat - 2
  2 ≤ s.bufSize.toNat →
  match s.parsingState with
  | .headerIe => True
  | .payloadIe =>
    cfg.withSixtop = true → ieType ieDesc = 1 → longId ieDesc = PAYLOAD_IE_IETF →
      1 ≤ room ∧ longLen ieDesc ≤ room ∧ (m p = IETF_IE_6TOP → 1 ≤ longLen ieDesc)
  | .mlmeSubie =>
    if ieType ieDesc = 0 then
      shortId ieDesc = MLME_SHORT_IE_TSCH_SLOFTRAME_AND_LINK → 1 ≤ shortLen ieDesc → shortLen ieDesc ≤ room → 5 ≤ room
    else
      longId ieDesc = MLME_LONG_IE_TSCH_CHANNEL_HOPPING_SEQUENCE → 1 < longLen ieDesc → longLen ieDesc ≤ room →
        10 + Mem.load 2 (p + 8) m ≤ room

/-- What a round leaves is within the buffer when what it begins with is and `F` holds; the parser goes on with fewer
bytes, or returns -1 or a number of bytes of the buffer. -/
structure Round (n : Nat) (s : Parser) (r : Parser ⊕ Parsed) (F : Prop) : Prop where
  next : ∀ s', r = .inl s' → (Ok n s' ↔ Ok n s ∧ F) ∧ (At n s → F → At n s' ∧ s'.bufSize ≤ s.bufSize)
  last : ∀ p, r = .inr p → (Ok n p.parser ↔ Ok n s ∧ F) ∧ (At n s → p.ret = -1 ∨ 0 ≤ p.ret ∧ p.ret ≤ n)

theorem round_fail (h : Content n s s' F) : Round n s (.inr ⟨-1, s'⟩) F where
  next := by simp
  last := by
    rintro p ⟨⟩
    exact ⟨h.ok, fun _ => .inl rfl⟩

theorem round_return (h : Content n s s' F) : Round n s (.inr ⟨s.cursor.pos, s'⟩) F where
  next := by simp
  last := by
    rintro p ⟨⟩
    refine ⟨h.ok, fun hat => .inr ⟨by simp, ?_⟩⟩
    unfold At at hat
    dsimp only
    omega

theorem round_advance (len : Nat) (h : Content n s s' F) :
    Round n s (.inl (s'.advance len)) (F ∧ len ≤ s.bufSize.toNat) where
  next := by
    rintro s'' ⟨⟩
    rw [ok_advance, h.ok, h.bufSize, and_assoc]
    refine ⟨Iff.rfl, fun hat hF => ?_⟩
    have hlt := s.bufSize.toNat_lt
    have hlen : (UInt8.ofNat len).toNat = len := by
      rw [UInt8.toNat_ofNat', Nat.mod_eq_of_lt (by omega)]
    have hle : UInt8.ofNat len ≤ s.bufSize := by
      rw [UInt8.le_iff_toNat_le, hlen]
      exact hF.2
    have hsub : (s.bufSize - UInt8.ofNat len).toNat = s.bufSize.toNat - len := by
      rw [UInt8.toNat_sub_of_le _ _ hle, hlen]
    unfold At Parser.advance Cursor.skip at *
    dsimp only
    rw [h.pos, h.bufSize, UInt8.le_iff_toNat_le, hsub]
    omega
  last := by simp

theorem Round.iff {r : Parser ⊕ Parsed} (h : Round n s r F) (he : F ↔ G) : Round n s r G := by
  rwa [propext he] at h

theorem headerRound_round (m : Mem) (d n : Nat) (s : Parser) : ∃ F, Round n s (headerRound m d s) F ∧ (At n s → F) := by
  unfold headerRound
  dsimp only
  have hfail : ∃ F, Round n s (.inr ⟨-1, s⟩) F ∧ (At n s → F) := ⟨_, round_fail (content_refl n s), fun _ => trivial⟩
  split
  · exact hfail
  · split
    · split
      · have hset : Content n s { s.setOffset with parsingState := .payloadIe } True :=
          content_same n rfl rfl rfl rfl
        exact ⟨_, round_advance 0 hset, fun _ => ⟨trivial, Nat.zero_le _⟩⟩
      · exact hfail
    · split
      · split
        · exact ⟨_, round_return (content_setIes n _ s), fun _ => trivial⟩
        · exact hfail
      · split
        · exact hfail
        · rename_i hlen
          rw [gt_iff_lt, not_lt] at hlen
          obtain ⟨F, hcontent, hF⟩ := parseHeaderIe_content m (headerLen d) (headerId d) n s
          have hF : At n s → F := fun hat => hF (by unfold At at hat; omega)
          split
          · exact ⟨_, round_advance _ hcontent, fun hat => ⟨hF hat, hlen⟩⟩
          · exact ⟨_, round_fail hcontent, hF⟩

theorem payloadRound_round (cfg : Config) (m : Mem) (d n : Nat) (s : Parser) :
    ∃ F, Round n s (payloadRound cfg m d s) F ∧ (At n s → (F ↔
      (cfg.withSixtop = true → ieType d = 1 → longId d = PAYLOAD_IE_IETF → 1 ≤ s.bufSize.toNat ∧
        longLen d ≤ s.bufSize.toNat ∧ (m s.cursor.pos = IETF_IE_6TOP → 1 ≤ longLen d)))) := by
  unfold payloadRound
  dsimp only
  by_cases htype : ieType d ≠ 1
  · rw [if_pos htype]
    exact ⟨_, round_fail (content_refl n s), fun _ => iff_of_true trivial fun _ h => absurd h htype⟩
  · rw [if_neg htype]
    by_cases hmlme : longId d = PAYLOAD_IE_MLME
    · rw [if_pos hmlme]
      have hset : Content n s { s with parsingState := .mlmeSubie, nestedMlmeLen := longLen d } True :=
        content_same n rfl rfl rfl rfl
      refine ⟨_, round_advance 0 hset, fun _ => iff_of_true ⟨trivial, Nat.zero_le _⟩ ?_⟩
      rw [hmlme]
      exact fun _ _ h => absurd h (by decide)
    · rw [if_neg hmlme]
      by_cases hietf : cfg.withSixtop = true ∧ longId d = PAYLOAD_IE_IETF
      · rw [if_pos hietf]
        have hread := content_peek 0 1 n s
        have hlt := s.bufSize.toNat_lt
        have hG : ∀ {G : Prop}, (cfg.withSixtop = true → ieType d = 1 → longId d = PAYLOAD_IE_IETF → G) ↔ G :=
          ⟨fun h => h hietf.1 (not_not.1 htype) hietf.2, fun h _ _ _ => h⟩
        rw [hG]
        by_cases hsub : m s.cursor.pos = IETF_IE_6TOP
        · rw [if_pos hsub]
          refine ⟨_, round_advance _ (hread.trans (content_store 1 _ n _ _)), fun hat => ?_⟩
          have hlen : longLen d < 0x800 := Nat.mod_lt _ (by omega)
          have hcontent : 1 ≤ longLen d → (UInt16.ofNat (longLen d) - 1).toNat = longLen d - 1 := by
            intro hpos
            rw [UInt16.toNat_sub_of_le]
            · rw [UInt16.toNat_ofNat', Nat.mod_eq_of_lt (by omega)]
              rfl
            · rw [UInt16.le_iff_toNat_le, UInt16.toNat_ofNat', Nat.mod_eq_of_lt (by omega)]
              exact hpos
          have hzero : longLen d = 0 → (UInt16.ofNat (longLen d) - 1).toNat = 65535 := by
            intro hzero
            rw [hzero]
            rfl
          have hpos : (s.peek 0 1).cursor.pos = s.cursor.pos := rfl
          rw [hpos]
          unfold At at hat
          constructor
          · rintro ⟨⟨h1, h2⟩, h3⟩
            refine ⟨by omega, h3, fun _ => ?_⟩
            by_contra hc
            have := hzero (by omega)
            omega
          · rintro ⟨h1, h2, h3⟩
            have := hcontent (h3 hsub)
            have := h3 hsub
            exact ⟨⟨.inr (by omega), by omega⟩, h2⟩
        · rw [if_neg hsub]
          refine ⟨_, round_advance _ hread, fun hat => ?_⟩
          unfold At at hat
          constructor
          · rintro ⟨h1, h2⟩
            exact ⟨by omega, h2, fun h => absurd h hsub⟩
          · rintro ⟨h1, h2, -⟩
            exact ⟨.inr (by omega), h2⟩
      · rw [if_neg hietf]
        have hG : ∀ {F : Prop} {P : Prop}, F → (F ↔ (cfg.withSixtop = true → ieType d = 1 →
            longId d = PAYLOAD_IE_IETF → P)) := fun hF => iff_of_true hF fun h1 _ h2 => absurd ⟨h1, h2⟩ hietf
        split
        · by_cases hzero : longLen d = 0
          · rw [if_pos hzero, hzero, Nat.cast_zero, add_zero]
            exact ⟨_, round_return (content_refl n s), fun _ => hG trivial⟩
          · rw [if_neg hzero]
            exact ⟨_, round_fail (content_refl n s), fun _ => hG trivial⟩
        · exact ⟨_, round_fail (content_refl n s), fun _ => hG trivial⟩

theorem mlmeNext_round (h : Content n s s' F) (hlen : len ≤ s.bufSize.toNat) : Round n s (mlmeNext len s') F := by
  unfold mlmeNext
  dsimp only
  have hnested : Content n s { s' with nestedMlmeLen := s'.nestedMlmeLen - (2 + len) } F :=
    h.same rfl rfl rfl rfl
  split
  · exact round_fail hnested
  · split
    · have hpayload : Content n s
          { s' with parsingState := .payloadIe, nestedMlmeLen := s'.nestedMlmeLen - (2 + len) } F :=
        h.same rfl rfl rfl rfl
      exact (round_advance len hpayload).iff (and_iff_left hlen)
    · exact (round_advance len hnested).iff (and_iff_left hlen)

theorem mlmeRound_round (cfg : Config) (m : Mem) (d n : Nat) (s : Parser) :
    ∃ F, Round n s (mlmeRound cfg m d s) F ∧ (At n s → (F ↔
      if ieType d = 0 then shortId d = MLME_SHORT_IE_TSCH_SLOFTRAME_AND_LINK → 1 ≤ shortLen d →
        shortLen d ≤ s.bufSize.toNat → 5 ≤ s.bufSize.toNat
      else longId d = MLME_LONG_IE_TSCH_CHANNEL_HOPPING_SEQUENCE → 1 < longLen d → longLen d ≤ s.bufSize.toNat →
        10 + Mem.load 2 (s.cursor.pos + 8) m ≤ s.bufSize.toNat)) := by
  unfold mlmeRound
  by_cases htype : ieType d = 0
  · simp only [htype, if_true]
    split
    · rename_i hgt
      exact ⟨_, round_fail (content_refl n s), fun _ => iff_of_true trivial fun _ _ hle => absurd hgt (not_lt.2 hle)⟩
    · rename_i hle
      rw [gt_iff_lt, not_lt] at hle
      obtain ⟨F, hcontent, hF⟩ := parseMlmeShortIe_content m (shortLen d) (shortId d) n s
      have hF : At n s → (F ↔ (shortId d = MLME_SHORT_IE_TSCH_SLOFTRAME_AND_LINK → 1 ≤ shortLen d →
          shortLen d ≤ s.bufSize.toNat → 5 ≤ s.bufSize.toNat)) := by
        intro hat
        unfold At at hat
        rw [hF (by omega)]
        exact forall₂_congr fun _ _ => ⟨fun h _ => by omega, fun h => by have := h hle; omega⟩
      split
      · exact ⟨F, mlmeNext_round hcontent hle, hF⟩
      · exact ⟨F, round_fail hcontent, hF⟩
  · simp only [htype, if_false]
    split
    · rename_i hgt
      exact ⟨_, round_fail (content_refl n s), fun _ => iff_of_true trivial fun _ _ hle => absurd hgt (not_lt.2 hle)⟩
    · rename_i hle
      rw [gt_iff_lt, not_lt] at hle
      obtain ⟨F, hcontent, hF⟩ := parseMlmeLongIe_content cfg m (longLen d) (longId d) n s
      have hF : At n s → (F ↔ (longId d = MLME_LONG_IE_TSCH_CHANNEL_HOPPING_SEQUENCE → 1 < longLen d →
          longLen d ≤ s.bufSize.toNat → 10 + Mem.load 2 (s.cursor.pos + 8) m ≤ s.bufSize.toNat)) := by
        intro hat
        unfold At at hat
        rw [hF (by omega)]
        exact forall₂_congr fun _ _ => ⟨fun h _ => by omega, fun h => by have := h hle; omega⟩
      split
      · exact ⟨F, mlmeNext_round hcontent hle, hF⟩
      · exact ⟨F, round_fail hcontent, hF⟩

theorem ok_descriptor (n : Nat) (s : Parser) : Ok n s.descriptor ↔ Ok n s ∧ s.cursor.pos + 2 ≤ n := by
  constructor
  · rintro ⟨hw, h2, h3⟩
    obtain ⟨hw, hle⟩ := Cursor.within_take.1 hw
    exact ⟨⟨hw, h2, h3⟩, hle.resolve_left (by decide)⟩
  · rintro ⟨⟨hw, h2, h3⟩, hle⟩
    exact ⟨Cursor.within_take.2 ⟨hw, .inr hle⟩, h2, h3⟩

theorem bufSize_descriptor (h : ¬ s.bufSize.toNat < 2) : s.descriptor.bufSize.toNat = s.bufSize.toNat - 2 := by
  unfold Parser.descriptor
  rw [UInt8.toNat_sub_of_le]
  · rfl
  · rw [UInt8.le_iff_toNat_le]
    exact not_lt.1 h

theorem parseRound_round (cfg : Config) (m : Mem) (n : Nat) (s : Parser) : ∃ F,
    (∀ s', parseRound cfg m s = .inl s' → (Ok n s' ↔ Ok n s ∧ F) ∧
      (At n s → F → At n s' ∧ s'.bufSize.toNat < s.bufSize.toNat)) ∧
    (∀ p, parseRound cfg m s = .inr p → (Ok n p.parser ↔ Ok n s ∧ F) ∧ (At n s → p.ret = -1 ∨ 0 ≤ p.ret ∧ p.ret ≤ n)) ∧
    (At n s → (F ↔ Fits cfg m s)) := by
  unfold parseRound Fits
  by_cases hzero : s.bufSize = 0
  · rw [if_pos hzero]
    have hset : Content n s (if s.parsingState = .headerIe then s.setOffset else s) True := by
      split
      · exact content_setIes n _ s
      · exact content_refl n s
    refine ⟨True, by simp, (round_return hset).last, fun _ => iff_of_true trivial fun h => ?_⟩
    rw [hzero] at h
    exact absurd h (by decide)
  · rw [if_neg hzero]
    by_cases hlt : s.bufSize.toNat < 2
    · rw [if_pos hlt]
      exact ⟨True, by simp, (round_fail (content_refl n s)).last,
        fun _ => iff_of_true trivial fun h => absurd hlt (not_lt.2 h)⟩
    · rw [if_neg hlt]
      have hroom := bufSize_descriptor hlt
      have hat : At n s → At n s.descriptor ∧ s.cursor.pos + 2 ≤ n := by
        intro hat
        have hpos : s.descriptor.cursor.pos = s.cursor.pos + 2 := rfl
        unfold At at *
        omega
      obtain ⟨F, hround, hF⟩ : ∃ F, Round n s.descriptor (ieRound cfg m (Mem.load 2 s.cursor.pos m) s.descriptor) F ∧
          (At n s → (F ↔ Fits cfg m s)) := by
        have hstate : s.descriptor.parsingState = s.parsingState := rfl
        have hpos : s.descriptor.cursor.pos = s.cursor.pos + 2 := rfl
        unfold ieRound Fits
        rw [hstate, ← hroom, ← hpos]
        cases s.parsingState with
        | headerIe =>
          obtain ⟨F, hround, hF⟩ := headerRound_round m (Mem.load 2 s.cursor.pos m) n s.descriptor
          exact ⟨F, hround, fun h => iff_of_true (hF (hat h).1) fun _ => trivial⟩
        | payloadIe =>
          obtain ⟨F, hround, hF⟩ := payloadRound_round cfg m (Mem.load 2 s.cursor.pos m) n s.descriptor
          exact ⟨F, hround, fun h => (hF (hat h).1).trans ⟨fun hG _ => hG, fun hG => hG (not_lt.1 hlt)⟩⟩
        | mlmeSubie =>
          obtain ⟨F, hround, hF⟩ := mlmeRound_round cfg m (Mem.load 2 s.cursor.pos m) n s.descriptor
          exact ⟨F, hround, fun h => (hF (hat h).1).trans ⟨fun hG _ => hG, fun hG => hG (not_lt.1 hlt)⟩⟩
      refine ⟨s.cursor.pos + 2 ≤ n ∧ F, fun s' hs => ?_, fun p hp => ?_, fun h => ?_⟩
      · obtain ⟨hok, hnext⟩ := hround.next s' hs
        refine ⟨by rw [hok, ok_descriptor, and_assoc], fun h hF => ?_⟩
        obtain ⟨hat', hle⟩ := hnext (hat h).1 hF.2
        rw [UInt8.le_iff_toNat_le] at hle
        exact ⟨hat', by omega⟩
      · obtain ⟨hok, hret⟩ := hround.last p hp
        exact ⟨by rw [hok, ok_descriptor, and_assoc], fun h => hret (hat h).1⟩
      · exact (and_iff_right (hat h).2).trans (hF h)

/-! ## The parser -/

/-- What the parser returns, and what it may read and store. -/
def ParsedSafe (n : Nat) (r : Parsed) : Prop := Ok n r.parser ∧ (r.ret = -1 ∨ 0 ≤ r.ret ∧ r.ret ≤ n)

/-- The parser ends within its buffer exactly when every IE that it comes to fits. -/
theorem parse_information_elements_safe (cfg : Config) (m : Mem) (bufSize : UInt8) (ies : Ies) :
    (∃ fuel r, frame802154eParseInformationElements cfg m bufSize ies fuel = some r ∧ ParsedSafe bufSize.toNat r) ↔
      ∀ s, Comes (parseRound cfg m) (startParser bufSize ies) s → Fits cfg m s := by
  refine loop_good_iff (I := fun s => Ok bufSize.toNat s ∧ At bufSize.toNat s) (B := fun s => ¬ Ok bufSize.toNat s)
    (μ := fun s => s.bufSize.toNat) ?_ ?_ ?_ ?_ ?_
  · rintro s s' ⟨hok, hat⟩ hfits hs
    obtain ⟨F, hnext, -, hF⟩ := parseRound_round cfg m bufSize.toNat s
    obtain ⟨hiff, hat'⟩ := hnext s' hs
    have hF := (hF hat).2 hfits
    exact ⟨⟨hiff.2 ⟨hok, hF⟩, (hat' hat hF).1⟩, (hat' hat hF).2⟩
  · rintro s r ⟨hok, hat⟩ hfits hs
    obtain ⟨F, -, hlast, hF⟩ := parseRound_round cfg m bufSize.toNat s
    obtain ⟨hiff, hret⟩ := hlast r hs
    exact ⟨hiff.2 ⟨hok, (hF hat).2 hfits⟩, hret hat⟩
  · rintro s ⟨hok, hat⟩ hfits
    obtain ⟨F, hnext, hlast, hF⟩ := parseRound_round cfg m bufSize.toNat s
    have hF : ¬ F := fun h => hfits ((hF hat).1 h)
    exact ⟨fun s' hs hok' => hF ((hnext s' hs).1.1 hok').2, fun r hs hr => hF ((hlast r hs).1.1 hr.1).2⟩
  · intro s hbad
    obtain ⟨F, hnext, hlast, -⟩ := parseRound_round cfg m bufSize.toNat s
    exact ⟨fun s' hs hok' => hbad ((hnext s' hs).1.1 hok').1, fun r hs hr => hbad ((hlast r hs).1.1 hr.1).1⟩
  · refine ⟨⟨Cursor.within_start, rfl, by rintro b ⟨⟩⟩, ?_⟩
    exact Nat.zero_add _

def blankIes : Ies :=
  ⟨0, 0, 0, 0, ⟨0, 0⟩, 0, 0, fun _ => 0, ⟨0, 0, 0, 0, fun _ => ⟨0, 0, 0⟩⟩, 0, 0, fun _ => 0, none, 0⟩

/-- The header IEs end and an IETF IE of one byte follows, which the buffer of four bytes does not have. -/
def ietfAtEnd : Mem := fun x => [0x00, 0x3f, 0x01, 0xa8].getD x 0

/-- The sub-ID is read behind the buffer. -/
theorem parse_ietf_outside : ¬ ∃ fuel r,
    frame802154eParseInformationElements ⟨true, 16⟩ ietfAtEnd 4 blankIes fuel = some r ∧ ParsedSafe 4 r := by
  rintro ⟨fuel, r, hr, ⟨hwithin, -, -⟩, -⟩
  have hlog : (frame802154eParseInformationElements ⟨true, 16⟩ ietfAtEnd 4 blankIes 3).map (fun r =>
      r.parser.cursor.log) = some [0, 1, 2, 3, 4, 5, 6] := by
    decide
  obtain ⟨r', hr', hlog⟩ := Option.map_eq_some_iff.1 hlog
  obtain rfl := loop_unique hr hr'
  exact absurd (hwithin 4 (by rw [hlog]; decide)) (by decide)

end Contiki.Frame802154e

/-
The decoder of SNMP messages on the triples of the encoder. Numbers and strings come back; an
identifier comes back exactly when its first two arcs share one septet and the others have at most
four, for any other one the decoder reads more arcs than were written.
-/
import Contiki.Snmp.Encode
import Contiki.Lib.Mem

namespace Contiki.Snmp

open Contiki.Lib Contiki.Lib.Ber

/-! ## Numbers and strings -/

theorem high_bit (b : UInt8) : b &&& 0x80 = 0 ↔ b.toNat < 128 := by
  revert b
  exact forall_byte (by decide +kernel)

theorem readOctets_append : ∀ (l : List UInt8) (num : UInt32) (rest : List UInt8),
    readOctets l.length num (l ++ rest) = some (l.foldl pushOctet num, rest)
  | [], _, _ => rfl
  | _ :: l, _, rest => readOctets_append l _ rest

theorem toUInt32_eq_pushOctet (b : UInt8) : b.toUInt32 = pushOctet 0 b := by
  apply UInt32.toNat_inj.1
  have hlt := b.toNat_lt
  rw [pushOctet, show (8 : UInt32) = UInt32.ofNat 8 from rfl,
    toNat_shiftLeft_or (by omega) _ _ (by rw [UInt8.toNat_toUInt32]; omega), UInt8.toNat_toUInt32, UInt32.toNat_zero]
  omega

theorem decode_unsignedInteger (type : UInt8) (n : UInt32) (rest : List UInt8) :
    berDecodeUnsignedInteger type (tlv type (octets n.toNat) ++ rest) = some (n, rest) := by
  have hlen : (octets n.toNat).length ≤ 4 := by
    have hlt := n.toNat_lt
    rw [length_octets_le]
    omega
  have hfold := foldl_octets n.toNat
  obtain ⟨b, t, hbt⟩ := List.exists_cons_of_length_pos (length_octets_pos n.toNat)
  rw [hbt] at hlen hfold
  have hnat : (UInt8.ofNat (b :: t).length).toNat = t.length + 1 := by
    rw [UInt8.toNat_ofNat', List.length_cons]
    simp only [List.length_cons] at hlen
    omega
  have hle4 : ¬ UInt8.ofNat (b :: t).length > 4 := by
    rw [gt_iff_lt, UInt8.lt_iff_toNat_lt, hnat]
    simp only [List.length_cons] at hlen
    exact Nat.not_lt.2 hlen
  rw [tlv_of_lt (by rw [hbt]; omega), hbt]
  simp only [berDecodeUnsignedInteger, List.cons_append, berDecodeType, berDecodeLength, Option.bind_eq_bind,
    Option.bind_some, ne_eq, not_true_eq_false, if_false, hle4, hnat, Nat.add_sub_cancel]
  rw [readOctets_append, toUInt32_eq_pushOctet, show t.foldl pushOctet (pushOctet 0 b) = (b :: t).foldl pushOctet 0 from rfl,
    hfold, UInt32.ofNat_toNat]

theorem decode_integer (n : UInt32) (rest : List UInt8) : berDecodeInteger (integerBytes n ++ rest) = some (n, rest) :=
  decode_unsignedInteger _ n rest

theorem decode_string {s : List UInt8} (hs : s.length < 128) (rest : List UInt8) :
    berDecodeStringLenBuffer (tlv berDataTypeOctetString s ++ rest) =
      if s = [] ∧ rest = [] then none else some (s, rest) := by
  have hnat : (UInt8.ofNat s.length).toNat = s.length := by
    rw [UInt8.toNat_ofNat', Nat.mod_eq_of_lt (by omega)]
  have hbit : UInt8.ofNat s.length &&& 0x80 = 0 := by rwa [high_bit, hnat]
  rw [tlv_of_lt hs]
  simp only [berDecodeStringLenBuffer, List.cons_append, berDecodeType, readStringLength, Option.bind_eq_bind,
    Option.bind_some, ne_eq, not_true_eq_false, if_false, hbit, if_true, UInt8.toNat_toUInt32, hnat]
  by_cases h : s = [] ∧ rest = []
  · obtain ⟨rfl, rfl⟩ := h
    rfl
  · have hsum : ¬ ((s ++ rest).length = 0 ∨ (s ++ rest).length < s.length) := by
      rw [List.length_append, ← List.length_eq_zero_iff, ← List.length_eq_zero_iff] at *
      omega
    rw [if_neg hsum, if_neg h, List.take_left' rfl, List.drop_left' rfl]

/-! ## Arcs -/

theorem readArc_continue {b b' : UInt8} (hb : 128 ≤ b.toNat) (j : Nat) (arc : UInt32) (rest : List UInt8) :
    readArc (j + 1) arc (b :: b' :: rest) =
      (readArc j (pushSeptet arc b') (b' :: rest)).map fun r => (r.1, r.2.1 + 1, r.2.2) := by
  have hbit : ¬ b &&& 0x80 = 0 := by
    rw [high_bit]
    exact Nat.not_lt.2 hb
  rw [readArc, if_neg hbit]
  change (readArc j (pushSeptet arc b') (b' :: rest) >>= _) = _
  cases readArc j (pushSeptet arc b') (b' :: rest) <;> rfl

theorem group_tail {c l : UInt8} {cs : List UInt8} (hg : Group (c :: cs) l) : 128 ≤ c.toNat ∧ Group cs l :=
  ⟨hg.1 c (List.mem_cons_self ..), fun x hx => hg.1 x (List.mem_cons_of_mem _ hx), hg.2⟩

theorem readArc_group {l : UInt8} (rest : List UInt8) : ∀ {cs : List UInt8} {j : Nat} (arc : UInt32), Group cs l →
    cs.length < j → readArc j arc (cs ++ l :: rest) =
      some ((cs ++ [l]).tail.foldl pushSeptet arc, cs.length + 1, rest)
  | [], j + 1, arc, hg, _ => by
    simp [readArc, (high_bit l).2 hg.2]
  | c :: cs, j + 1, arc, hg, hlt => by
    obtain ⟨hc, hg'⟩ := group_tail hg
    have ih := fun arc => readArc_group rest (j := j) arc hg' (by simpa using hlt)
    cases cs with
    | nil =>
      rw [List.singleton_append, readArc_continue hc]
      exact congrArg (Option.map _) (ih _)
    | cons c' cs =>
      rw [List.cons_append, List.cons_append, readArc_continue hc]
      exact congrArg (Option.map _) (ih _)

theorem readArc_long {l : UInt8} (rest : List UInt8) : ∀ {cs : List UInt8} (arc : UInt32), Group cs l →
    readArc cs.length arc (cs ++ l :: rest) = some ((cs ++ [l]).tail.foldl pushSeptet arc, cs.length, l :: rest)
  | [], _, _ => rfl
  | c :: cs, arc, hg => by
    obtain ⟨hc, hg'⟩ := group_tail hg
    have ih := fun arc => readArc_long rest arc hg'
    cases cs with
    | nil =>
      rw [List.singleton_append, List.length_singleton, readArc_continue hc]
      exact congrArg (Option.map _) (ih _)
    | cons c' cs =>
      rw [List.cons_append, List.cons_append, List.length_cons, readArc_continue hc]
      exact congrArg (Option.map _) (ih _)

theorem toUInt32_eq_pushSeptet (b : UInt8) : (b &&& 0x7F).toUInt32 = pushSeptet 0 b := by
  apply UInt32.toNat_inj.1
  rw [toNat_pushSeptet, UInt8.toNat_toUInt32, toNat_and_mask, UInt32.toNat_zero]
  omega

theorem readArcs_step {room pos len n : Nat} (hpos : pos ≠ len) {b : UInt8} {inp rest : List UInt8} {arc : UInt32}
    (h : readArc 4 (pushSeptet 0 b) (b :: inp) = some (arc, n, rest)) : readArcs (room + 1) pos len (b :: inp) =
      (readArcs room (pos + n) len rest).map fun r => (arc :: r.1, r.2) := by
  rw [readArcs, if_neg hpos]
  simp only [toUInt32_eq_pushSeptet, h, Option.bind_eq_bind, Option.bind_some]
  cases readArcs room (pos + n) len rest <;> rfl

variable {room pos len : Nat}

theorem readArcs_group {cs : List UInt8} {l : UInt8} (hg : Group cs l) (hlen : cs.length < 4)
    (hpos : pos ≠ len) (rest : List UInt8) : readArcs (room + 1) pos len (cs ++ l :: rest) =
      (readArcs room (pos + (cs.length + 1)) len rest).map fun r => ((cs ++ [l]).foldl pushSeptet 0 :: r.1, r.2) := by
  cases cs with
  | nil => exact readArcs_step hpos (readArc_group rest _ hg hlen)
  | cons c cs => exact readArcs_step hpos (readArc_group rest _ hg hlen)

theorem readArcs_long {cs : List UInt8} {l : UInt8} (hg : Group cs l) (hlen : cs.length = 4)
    (hpos : pos ≠ len) (rest : List UInt8) : readArcs (room + 1) pos len (cs ++ l :: rest) =
      (readArcs room (pos + 4) len (l :: rest)).map fun r => ((cs ++ [l]).foldl pushSeptet 0 :: r.1, r.2) := by
  match cs, hlen with
  | c :: cs, hlen =>
    have harc := readArc_long rest (pushSeptet 0 c) hg
    rw [hlen] at harc
    exact readArcs_step hpos harc

/-! ## Identifiers -/

theorem septets_long {n : Nat} (hlt : n < 2 ^ 32) (hge : 2 ^ 28 ≤ n) :
    ∃ cs l, septets n = cs ++ [l] ∧ Group cs l ∧ cs.length = 4 := by
  obtain ⟨cs, l, hcs, hg, -⟩ := septets_group n
  refine ⟨cs, l, hcs, hg, ?_⟩
  have h5 : (septets n).length ≤ 4 + 1 := length_septets_le.2 (by omega)
  have h4 : ¬ (septets n).length ≤ 3 + 1 := by
    rw [length_septets_le]
    omega
  simp only [hcs, List.length_append, List.length_singleton] at h5 h4
  omega

theorem readArcs_end (room pos : Nat) (inp : List UInt8) : readArcs room pos pos inp = some ([], inp) := by
  unfold readArcs
  simp

variable {r : List UInt32 × List UInt8}

theorem readArcs_zero_some {pos len : Nat} {inp : List UInt8} (hpos : pos ≠ len)
    (h : readArcs 0 pos len inp = some r) : False := by
  rw [readArcs, if_neg hpos] at h
  cases h

theorem readArcs_septets {a : UInt32} {rest : List UInt8}
    (hlen : pos + (septets a.toNat).length ≤ len) (h : readArcs room pos len (septets a.toNat ++ rest) = some r) :
    ∃ room' r', readArcs room' (pos + (septets a.toNat).length) len rest = some r' ∧ r.2 = r'.2 ∧
      (a.toNat < 2 ^ 28 ∧ r.1 = a :: r'.1 ∨ 2 ^ 28 ≤ a.toNat ∧ r.1.length = r'.1.length + 2) := by
  have hpos := length_septets_pos a.toNat
  rcases room with - | room
  · exact absurd h fun h => readArcs_zero_some (by omega) h
  by_cases hsmall : a.toNat < 2 ^ 28
  · obtain ⟨cs, l, hcs, hg, -⟩ := septets_group a.toNat
    have h4 : (septets a.toNat).length ≤ 3 + 1 := length_septets_le.2 hsmall
    have hfold := foldl_septets a.toNat
    rw [hcs] at hfold h4 hlen h ⊢
    simp only [List.length_append, List.length_singleton] at h4 hlen ⊢
    rw [List.append_assoc, List.singleton_append, readArcs_group hg (by omega) (by omega), hfold, UInt32.ofNat_toNat] at h
    obtain ⟨r', hr', rfl⟩ := Option.map_eq_some_iff.1 h
    exact ⟨room, r', hr', rfl, Or.inl ⟨hsmall, rfl⟩⟩
  · obtain ⟨cs, l, hcs, hg, h4⟩ := septets_long a.toNat_lt (Nat.not_lt.1 hsmall)
    rw [hcs] at hlen h ⊢
    simp only [List.length_append, List.length_singleton] at hlen ⊢
    rw [List.append_assoc, List.singleton_append, readArcs_long hg h4 (by omega)] at h
    obtain ⟨r₁, hr₁, rfl⟩ := Option.map_eq_some_iff.1 h
    rcases room with - | room
    · exact absurd hr₁ fun h => readArcs_zero_some (by omega) h
    have hl : Group [] l := ⟨fun _ hx => absurd hx List.not_mem_nil, hg.2⟩
    rw [← List.nil_append (l :: rest), readArcs_group hl (by simp) (by omega)] at hr₁
    obtain ⟨r', hr', rfl⟩ := Option.map_eq_some_iff.1 hr₁
    refine ⟨room, r', ?_, rfl, Or.inr ⟨Nat.not_lt.1 hsmall, rfl⟩⟩
    rw [h4]
    exact hr'

theorem readArcs_flatMap {len : Nat} {rest : List UInt8} : ∀ {arcs : List UInt32} {room pos : Nat}
    {r : List UInt32 × List UInt8}, pos + (arcs.flatMap fun x => septets x.toNat).length = len →
    readArcs room pos len ((arcs.flatMap fun x => septets x.toNat) ++ rest) = some r →
    arcs.length ≤ r.1.length ∧ (r.1.length = arcs.length → (∀ a ∈ arcs, a.toNat < 2 ^ 28) ∧ r = (arcs, rest))
  | [], room, pos, r, hlen, h => by
    obtain rfl : pos = len := by simpa using hlen
    rw [List.flatMap_nil, List.nil_append, readArcs_end] at h
    cases h
    exact ⟨Nat.le_refl _, fun _ => ⟨fun _ ha => absurd ha List.not_mem_nil, rfl⟩⟩
  | a :: arcs, room, pos, r, hlen, h => by
    rw [List.flatMap_cons, List.append_assoc] at h
    rw [List.flatMap_cons, List.length_append] at hlen
    obtain ⟨room', r', hr', h2, hcase⟩ := readArcs_septets (by omega) h
    obtain ⟨ihle, iheq⟩ := readArcs_flatMap (by omega) hr'
    rcases hcase with ⟨hsmall, h1⟩ | ⟨-, h1⟩
    · refine ⟨by rw [h1]; simpa using ihle, fun heq => ?_⟩
      obtain ⟨hall, hr⟩ := iheq (by rw [h1] at heq; simpa using heq)
      refine ⟨?_, ?_⟩
      · intro x hx
        rcases List.mem_cons.1 hx with rfl | hx
        · exact hsmall
        · exact hall x hx
      · rw [hr] at h1 h2
        exact Prod.ext h1 h2
    · rw [h1, List.length_cons]
      exact ⟨by omega, fun heq => absurd heq (by omega)⟩

theorem readArcs_fit {len : Nat} (rest : List UInt8) : ∀ {arcs : List UInt32} {room pos : Nat},
    pos + (arcs.flatMap fun x => septets x.toNat).length = len → arcs.length ≤ room →
    (∀ a ∈ arcs, a.toNat < 2 ^ 28) → readArcs room pos len ((arcs.flatMap fun x => septets x.toNat) ++ rest) = some (arcs, rest)
  | [], room, pos, hlen, _, _ => by
    obtain rfl : pos = len := by simpa using hlen
    exact readArcs_end ..
  | a :: arcs, room + 1, pos, hlen, hroom, hall => by
    obtain ⟨cs, l, hcs, hg, -⟩ := septets_group a.toNat
    have h4 : (septets a.toNat).length ≤ 3 + 1 := length_septets_le.2 (hall a (List.mem_cons_self ..))
    have hfold := foldl_septets a.toNat
    rw [List.flatMap_cons, List.length_append] at hlen
    rw [hcs] at hfold h4 hlen
    simp only [List.length_append, List.length_singleton] at h4 hlen
    have ih := readArcs_fit rest (show pos + (cs.length + 1) + (arcs.flatMap fun x => septets x.toNat).length = len by omega)
      (show arcs.length ≤ room by simpa using hroom) fun x hx => hall x (List.mem_cons_of_mem _ hx)
    rw [List.flatMap_cons, hcs, List.append_assoc, List.append_assoc, List.singleton_append,
      readArcs_group hg (by omega) (by omega), ih, hfold, UInt32.ofNat_toNat]
    rfl

/-- What follows the first byte of a number in septets: nothing, or one more arc for the reader. -/
theorem readArcs_rest {n : Nat} (hn : n < 2 ^ 32) {x : UInt8} {t : List UInt8} (hxt : septets n = x :: t)
    {rest : List UInt8} (hlen : pos + t.length ≤ len)
    (h : readArcs room pos len (t ++ rest) = some r) :
    ∃ room' r', readArcs room' (pos + t.length) len rest = some r' ∧ r'.1.length ≤ r.1.length ∧
      (128 ≤ n → r'.1.length < r.1.length) := by
  obtain ⟨cs, l, hcs, hg, -⟩ := septets_group n
  have h5 : (septets n).length ≤ 4 + 1 := length_septets_le.2 (by omega)
  rw [hcs] at hxt h5
  cases cs with
  | nil =>
    obtain ⟨rfl, rfl⟩ : l = x ∧ [] = t := by simpa using hxt
    refine ⟨room, r, h, Nat.le_refl _, fun hge => ?_⟩
    have h1 : (septets n).length ≤ 0 + 1 := by simp [hcs]
    rw [length_septets_le] at h1
    omega
  | cons c cs =>
    obtain ⟨rfl, rfl⟩ : c = x ∧ cs ++ [l] = t := by simpa using hxt
    simp only [List.length_append, List.length_cons] at hlen h5 ⊢
    rcases room with - | room
    · exact absurd h fun h => readArcs_zero_some (by omega) h
    rw [List.append_assoc, List.singleton_append, readArcs_group (group_tail hg).2 (by omega) (by omega)] at h
    obtain ⟨r', hr', rfl⟩ := Option.map_eq_some_iff.1 h
    exact ⟨room, r', hr', by simp, fun _ => by simp⟩

/-- The identifiers that the decoder gives back: two arcs at least, the first two of which share one
septet, and four septets at most for each other arc. -/
def ReadableArcs : List UInt32 → Prop
  | a :: b :: arcs => b.toNat < 40 ∧ 40 * a.toNat + b.toNat < 128 ∧ ∀ x ∈ arcs, x.toNat < 2 ^ 28
  | _ => False

instance : DecidablePred ReadableArcs := fun l =>
  match l with
  | [] => inferInstanceAs (Decidable False)
  | [_] => inferInstanceAs (Decidable False)
  | _ :: _ :: _ => inferInstanceAs (Decidable (_ ∧ _ ∧ _))

theorem oidBytes_readable {oid : List UInt32} (h : ReadableArcs oid) (out : List UInt8) :
    oidBytes oid out = tlv berDataTypeObjectIdentifier (oidContent oid) ++ out := by
  match oid, h with
  | first :: second :: arcs, ⟨h40, h128, _⟩ =>
    obtain ⟨b, t, hbt, he⟩ := oidBytes_two first second arcs out
    rw [septets_of_lt (by omega)] at hbt
    obtain ⟨rfl, rfl⟩ : UInt8.ofNat second.toNat = b ∧ [] = t := by simpa using hbt
    have hval : ((UInt8.ofNat second.toNat).toNat + 40 * first.toNat) % 2 ^ 32 = 40 * first.toNat + second.toNat := by
      rw [UInt8.toNat_ofNat']
      omega
    rw [he, hval]
    rfl

theorem berDecodeOid_tlv {c : Conf} {x : UInt8} {body rest : List UInt8} (hlen : body.length + 1 < 128) :
    berDecodeOid c (tlv berDataTypeObjectIdentifier (x :: body) ++ rest) =
      (readArcs (c.oidMaxLen - 2) 1 (body.length + 1) (body ++ rest)).bind fun r =>
        if h : ((x / 40).toUInt32 :: (x % 40).toUInt32 :: r.1).length ≤ c.oidMaxLen then some (⟨_, h⟩, r.2) else none := by
  have hnat : (UInt8.ofNat (x :: body).length).toNat = body.length + 1 := by
    rw [UInt8.toNat_ofNat', List.length_cons, Nat.mod_eq_of_lt (by omega)]
  rw [tlv_of_lt (by simpa using hlen)]
  simp only [berDecodeOid, List.cons_append, berDecodeType, berDecodeLength, Option.bind_eq_bind, Option.bind_some,
    ne_eq, not_true_eq_false, if_false, hnat]

theorem decode_oid {c : Conf} {oid : Oid c} (h : ReadableArcs oid.data) (hlen : (oidContent oid.data).length < 128)
    (rest : List UInt8) :
    berDecodeOid c (tlv berDataTypeObjectIdentifier (oidContent oid.data) ++ rest) = some (oid, rest) := by
  match oid, h with
  | ⟨first :: second :: arcs, fits⟩, ⟨h40, h128, hall⟩ =>
    have hcontent : oidContent (first :: second :: arcs) =
        UInt8.ofNat (40 * first.toNat + second.toNat) :: arcs.flatMap fun x => septets x.toNat := by
      rw [oidContent, septets_of_lt h128, List.singleton_append]
    have hx : (UInt8.ofNat (40 * first.toNat + second.toNat)).toNat = 40 * first.toNat + second.toNat := by
      rw [UInt8.toNat_ofNat', Nat.mod_eq_of_lt (by omega)]
    have hquot : (UInt8.ofNat (40 * first.toNat + second.toNat) / 40).toUInt32 = first := by
      apply UInt32.toNat_inj.1
      rw [UInt8.toNat_toUInt32, UInt8.toNat_div, hx]
      change (40 * first.toNat + second.toNat) / 40 = first.toNat
      omega
    have hrem : (UInt8.ofNat (40 * first.toNat + second.toNat) % 40).toUInt32 = second := by
      apply UInt32.toNat_inj.1
      rw [UInt8.toNat_toUInt32, UInt8.toNat_mod, hx]
      change (40 * first.toNat + second.toNat) % 40 = second.toNat
      omega
    dsimp only at hlen ⊢
    rw [hcontent] at hlen ⊢
    rw [berDecodeOid_tlv (by simpa using hlen), readArcs_fit _ (by omega) (by simp only [List.length_cons] at fits; omega) hall]
    simp only [Option.bind_some, hquot, hrem, dif_pos fits]

theorem berDecodeOid_two {c : Conf} {inp rest : List UInt8} {oid : Oid c} (h : berDecodeOid c inp = some (oid, rest)) :
    2 ≤ oid.data.length := by
  unfold berDecodeOid at h
  obtain ⟨⟨type, inp⟩, -, h⟩ := Option.bind_eq_some_iff.1 h
  dsimp only at h
  split at h
  · cases h
  obtain ⟨⟨len, inp⟩, -, h⟩ := Option.bind_eq_some_iff.1 h
  dsimp only at h
  split at h
  · cases h
  obtain ⟨⟨arcs, inp⟩, -, h⟩ := Option.bind_eq_some_iff.1 h
  dsimp only at h
  split at h
  · cases h
    simp
  · cases h

theorem readable_of_decode {c : Conf} {oid : Oid c} {out rest rest' : List UInt8}
    (hlen : (oidBytes oid.data out).length < 128 + out.length)
    (h : berDecodeOid c (oidBytes oid.data out ++ rest) = some (oid, rest')) : ReadableArcs oid.data := by
  obtain ⟨data, fits⟩ := oid
  have htwo := berDecodeOid_two h
  match data with
  | [] => exact absurd htwo (by simp)
  | [_] => exact absurd htwo (by simp)
  | first :: second :: arcs =>
    obtain ⟨b, t, hbt, he⟩ := oidBytes_two first second arcs out
    have hval : (b.toNat + 40 * first.toNat) % 2 ^ 32 < 2 ^ 32 := Nat.mod_lt _ (by omega)
    obtain ⟨x, s, hxs⟩ := List.exists_cons_of_length_pos (length_septets_pos ((b.toNat + 40 * first.toNat) % 2 ^ 32))
    dsimp only at hlen h ⊢
    rw [he, hxs, List.cons_append] at hlen h
    have hshort : (s ++ (t ++ arcs.flatMap fun x => septets x.toNat)).length + 1 < 128 := by
      have hge := length_tlv_ge berDataTypeObjectIdentifier (x :: (s ++ (t ++ arcs.flatMap fun x => septets x.toNat)))
      rw [List.length_append] at hlen
      simp only [List.length_cons] at hge ⊢
      omega
    rw [List.append_assoc, berDecodeOid_tlv hshort] at h
    obtain ⟨r, hr, h⟩ := Option.bind_eq_some_iff.1 h
    split at h
    · rename_i hfits
      simp only [Option.some.injEq, Prod.mk.injEq, Oid.mk.injEq, List.cons.injEq] at h
      obtain ⟨⟨hquot, hrem, harcs⟩, -⟩ := h
      simp only [List.append_assoc] at hr
      -- each number that takes more than one septet before the arcs is read as one arc more
      obtain ⟨room₁, r₁, hr₁, hle₁, hlt₁⟩ := readArcs_rest hval hxs (by simp only [List.length_append]; omega) hr
      obtain ⟨room₂, r₂, hr₂, hle₂, hlt₂⟩ :=
        readArcs_rest second.toNat_lt hbt (by simp only [List.length_append]; omega) hr₁
      obtain ⟨hle, heq⟩ := readArcs_flatMap (by simp only [List.length_append]; omega) hr₂
      rw [harcs] at hle₁ hlt₁
      have hsecond : second.toNat < 128 := by omega
      have hshared : (b.toNat + 40 * first.toNat) % 2 ^ 32 < 128 := by omega
      rw [septets_of_lt hsecond] at hbt
      rw [septets_of_lt hshared] at hxs
      obtain ⟨rfl, -⟩ : UInt8.ofNat second.toNat = b ∧ [] = t := by simpa using hbt
      obtain ⟨rfl, -⟩ : UInt8.ofNat (((UInt8.ofNat second.toNat).toNat + 40 * first.toNat) % 2 ^ 32) = x ∧ [] = s := by
        simpa using hxs
      have hq := congrArg UInt32.toNat hquot
      have hm := congrArg UInt32.toNat hrem
      simp only [UInt8.toNat_toUInt32, UInt8.toNat_div, UInt8.toNat_mod, UInt8.toNat_ofNat', UInt8.reduceToNat] at hq hm hshared
      exact ⟨by omega, by omega, (heq (by omega)).1⟩
    · cases h

end Contiki.Snmp

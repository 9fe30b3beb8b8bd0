/-
`rpl_ext_header_remove` on any chain of extension headers: the buffer after the loop is read off what the loop leaves
of the list, and the packet is right when its links are.
-/
import Contiki.RplLite.Linked

namespace Contiki.RplLite

open Contiki.Lib Contiki.Core

variable {u : Uip} {dest : Ipaddr} {exts es : List ExtHdr} {up : Upper} {s : Stand} {x : ExtHdr} {q : UInt8}
  {pos prev fuel k i : Nat}

/-! ## One pass of the loop -/

/-- The packet after `k` bytes at `pos` have been taken out. -/
def takeOut (u : Uip) (pos prev k : Nat) : Uip :=
  let v := Uip.setLenField ⟨u.buf.put prev (u.buf pos), u.len - k, u.extLen - k⟩ (u.len - k - iphLen)
  { v with buf := v.buf.copy pos (pos + k) (u.len - k - pos) }

theorem takeOut_front (h : i < pos) (h4 : i ≠ 4) (h5 : i ≠ 5) (hp : i ≠ prev) : (takeOut u pos prev k).buf i = u.buf i := by
  unfold takeOut
  dsimp only
  rw [Mem.copy_of_out (.inl h), Uip.setLenField_buf (by omega)]
  exact Mem.put_of_ne hp

theorem takeOut_prev (h : prev < pos) (h6 : 6 ≤ prev) : (takeOut u pos prev k).buf prev = u.buf pos := by
  unfold takeOut
  dsimp only
  rw [Mem.copy_of_out (.inl h), Uip.setLenField_buf (.inr h6)]
  exact Mem.put_same ..

theorem takeOut_back (hi : pos + k + i < u.len) (h6 : 6 ≤ pos) (hprev : prev < pos + k) :
    (takeOut u pos prev k).buf (pos + i) = u.buf (pos + k + i) := by
  unfold takeOut
  dsimp only
  rw [Mem.copy_in (by omega), Uip.setLenField_buf (by omega)]
  exact Mem.put_of_ne (by omega)

theorem takeOut_field (hpos : iphLen ≤ pos) (hmtu : u.len ≤ linkMtu) :
    (takeOut u pos prev k).lenField = u.len - k - iphLen := by
  unfold linkMtu at hmtu
  unfold iphLen at hpos
  have hcopy : (takeOut u pos prev k).lenField =
      (Uip.setLenField ⟨u.buf.put prev (u.buf pos), u.len - k, u.extLen - k⟩ (u.len - k - iphLen)).lenField := by
    refine Uip.lenField_congr fun y hy => ?_
    unfold takeOut
    dsimp only
    exact Mem.copy_of_out (.inl (by omega))
  rw [hcopy]
  exact Uip.lenField_set (by omega)

theorem removeLoop_takes (hext : isProtoExtHdr q = true)
    (hown : q = protoRouting ∨ (q = protoHbho ∧ u.buf (pos + 2) = optRpl)) (hk : (u.buf (pos + 1)).toNat * 8 + 8 = k)
    (hprev : prev ≠ pos + 1) (hx : k ≤ u.extLen) (hmtu : u.len ≤ linkMtu) (hlen : pos + k < u.len) :
    removeLoop (fuel + 1) u pos prev q =
      removeLoop fuel (takeOut u pos prev k) pos prev ((takeOut u pos prev k).buf prev) := by
  have hbyte : ((u.buf.put prev (u.buf pos)) (pos + 1)).toNat * 8 + 8 = k := by
    rw [Mem.put_of_ne (Ne.symm hprev), hk]
  rw [removeLoop, if_neg (by simp [hext]), if_pos hown]
  simp only [hbyte, Uip.addExtHdr]
  rw [if_pos (by omega)]
  have hl : ((u.len : Int) + -(k : Nat)).toNat = u.len - k := by omega
  have hxl : ((u.extLen : Int) + -(k : Nat)).toNat = u.extLen - k := by omega
  simp only [hl, hxl, Uip.setLenField_len]
  rw [if_neg (by omega)]
  rfl

/-! ## The loop on a chain -/

/-- `prev_proto_ptr` at `pos`. -/
def Stand.link (pos : Nat) : Stand → Nat
  | .front => 6
  | .behind => pos
  | .ahead => pos

/-- `protocol` in front of the headers `es` at `pos`. -/
def Stand.tested (up : Upper) (es : List ExtHdr) (u : Uip) (pos : Nat) : Stand → UInt8
  | .front => firstProto es up
  | .behind => firstProto es up
  | .ahead => u.buf pos

/-- The loop stands at `pos`, in front of the headers `es`. -/
structure Standing (up : Upper) (s : Stand) (es : List ExtHdr) (u : Uip) (pos prev : Nat) (q : UInt8) : Prop where
  bytes : Mem.Holds pos (chainBytes es up ++ up.data) u.buf
  len : u.len = pos + (chainBytes es up).length + up.data.length
  extLen : iphLen + u.extLen = pos + (chainBytes es up).length
  field : u.lenField = u.len - iphLen
  mtu : u.len ≤ linkMtu
  start : iphLen ≤ pos
  link : prev = s.link pos
  proto : q = s.tested up es u pos
  first : s = .front → u.proto = firstProto es up

namespace Standing

theorem prev_lt (h : Standing up s es u pos prev q) : 6 ≤ prev ∧ prev ≤ pos := by
  have hp := h.link
  have hpos := h.start
  unfold iphLen at hpos
  unfold Stand.link at hp
  cases s <;> dsimp only at hp <;> omega

theorem len_byte (h : Standing up s (x :: es) u pos prev q) :
    u.buf pos = firstProto es up ∧ (u.buf (pos + 1)).toNat * 8 + 8 = 8 * x.len.toNat + 8 := by
  have hb := h.bytes
  simp only [chainBytes, List.cons_append, Mem.holds_cons] at hb
  refine ⟨hb.1, ?_⟩
  rw [hb.2.1]
  omega

theorem tail (h : Standing up s (x :: es) u pos prev q) :
    Mem.Holds (pos + (8 * x.len.toNat + 8)) (chainBytes es up ++ up.data) u.buf := by
  have hb := h.bytes
  have hd := x.length
  simp only [chainBytes, List.cons_append, Mem.holds_cons, List.append_assoc, Mem.holds_append] at hb
  rw [show pos + (8 * x.len.toNat + 8) = pos + 1 + 1 + x.data.length by omega, Mem.holds_append]
  exact hb.2.2.2

theorem ext (h : Standing up s (x :: es) u pos prev q) (hs : s ≠ .ahead ∨ es ≠ []) : isProtoExtHdr q = true := by
  have hq := h.proto
  cases s with
  | front => rw [hq]; exact x.ext
  | behind => rw [hq]; exact x.ext
  | ahead =>
    rcases es with _ | ⟨y, ys⟩
    · simp at hs
    · have hbyte : u.buf pos = y.proto := h.len_byte.1
      rw [hq]
      show isProtoExtHdr (u.buf pos) = true
      rw [hbyte]
      exact y.ext

theorem takes_iff (h : Standing up s (x :: es) u pos prev q) :
    (q = protoRouting ∨ (q = protoHbho ∧ u.buf (pos + 2) = optRpl)) ↔ s.takes x es = true := by
  have hq := h.proto
  cases s with
  | front => rw [hq]; exact isRpl_iff h.bytes
  | behind => rw [hq]; exact isRpl_iff h.bytes
  | ahead =>
    obtain ⟨b, l, hd⟩ := ExtHdr.data_cons x
    have hdata : u.buf (pos + 2) = b := by
      have hb := h.bytes
      rw [chainBytes, hd] at hb
      exact hb.2.2.1
    have hfirst : q = firstProto es up := hq.trans h.len_byte.1
    rcases es with _ | ⟨y, ys⟩
    · have hup : q = up.proto := hfirst
      have hnot : ¬(up.proto = protoRouting ∨ up.proto = protoHbho ∧ u.buf (pos + 2) = optRpl) := by
        rintro (h43 | h0)
        · have hu := up.upper
          rw [h43] at hu
          revert hu
          decide
        · exact up.proto_ne h0.1
      rw [hup]
      exact iff_of_false hnot Bool.false_ne_true
    · have hy : q = y.proto := hfirst
      unfold Stand.takes
      simp [hy, hdata, hd]

theorem takes (h : Standing up s (x :: es) u pos prev q) (ht : s.takes x es = true) (fuel : Nat) :
    removeLoop (fuel + 1) u pos prev q = removeLoop fuel (takeOut u pos prev (8 * x.len.toNat + 8)) pos prev
        ((takeOut u pos prev (8 * x.len.toNat + 8)).buf prev) ∧
      Standing up (s.next true) es (takeOut u pos prev (8 * x.len.toNat + 8)) pos prev
        ((takeOut u pos prev (8 * x.len.toNat + 8)).buf prev) := by
  have hcons := chainBytes_cons_length x es up
  have hl := h.len
  have hx := h.extLen
  have hm := h.mtu
  have hpos := h.start
  have hprev := h.prev_lt
  have hdata := up.data_pos
  have hs : s ≠ .ahead ∨ es ≠ [] := by
    by_contra hc
    rw [not_or, not_not, not_not] at hc
    rw [hc.1, hc.2] at ht
    cases ht
  have hbuf : Mem.Holds pos (chainBytes es up ++ up.data) (takeOut u pos prev (8 * x.len.toNat + 8)).buf := by
    have htail := h.tail
    rw [Mem.holds_iff] at htail ⊢
    rintro i hi
    have hi' := hi
    rw [List.length_append] at hi'
    rw [takeOut_back (by omega) (by unfold iphLen at hpos; omega) (by omega)]
    exact htail i hi
  refine ⟨removeLoop_takes (h.ext hs) (h.takes_iff.2 ht) h.len_byte.2 (by omega) (by omega) hm (by omega), ?_⟩
  refine ⟨hbuf, ?_, ?_, takeOut_field hpos hm, ?_, hpos, ?_, ?_, ?_⟩
  · show u.len - _ = _
    omega
  · show iphLen + (u.extLen - _) = _
    omega
  · show u.len - _ ≤ _
    omega
  · have hp := h.link
    cases s <;> exact hp
  · have hp := h.link
    unfold iphLen at hpos
    cases s with
    | front =>
      have hp6 : prev = 6 := hp
      exact (takeOut_prev (by omega) (by omega)).trans h.len_byte.1
    | behind => exact congrArg _ hp
    | ahead => exact congrArg _ hp
  · rintro hfront
    cases s with
    | front =>
      have hp6 : prev = 6 := h.link
      unfold Uip.proto
      unfold iphLen at hpos
      rw [← hp6]
      exact (takeOut_prev (by omega) (by omega)).trans h.len_byte.1
    | behind => cases hfront
    | ahead => cases hfront

theorem passes (h : Standing up s (x :: es) u pos prev q) (ht : s.takes x es = false) (fuel : Nat) :
    removeLoop (fuel + 2) u pos prev q =
        removeLoop (fuel + 1) u (pos + (8 * x.len.toNat + 8)) (pos + (8 * x.len.toNat + 8)) (firstProto es up) ∧
      Standing up .behind es u (pos + (8 * x.len.toNat + 8)) (pos + (8 * x.len.toNat + 8)) (firstProto es up) := by
  have hcons := chainBytes_cons_length x es up
  have hl := h.len
  have hx := h.extLen
  have hown : ¬(q = protoRouting ∨ (q = protoHbho ∧ u.buf (pos + 2) = optRpl)) := by
    rw [h.takes_iff, ht]
    exact Bool.false_ne_true
  constructor
  · by_cases hs : s ≠ .ahead ∨ es ≠ []
    · rw [removeLoop, if_neg (by simp [h.ext hs]), if_neg hown,
        getNextHeader_cons h.bytes (show u.len - pos = _ by omega)]
    · rw [not_or, not_not, not_not] at hs
      obtain ⟨rfl, rfl⟩ := hs
      have hq : q = up.proto := h.proto.trans h.len_byte.1
      have hfirst : firstProto [] up = up.proto := rfl
      rw [hq, hfirst, removeLoop, if_pos up.upper, removeLoop, if_pos up.upper]
  · exact ⟨h.tail, by omega, by omega, h.field, h.mtu, Nat.le_trans h.start (Nat.le_add_right _ _), rfl, rfl, by rintro ⟨⟩⟩

end Standing

/-- The packet `u'` with the loop at `pos'`, behind what it left of the headers. -/
structure Leaves (up : Upper) (s : Stand) (es : List ExtHdr) (u : Uip) (pos : Nat) (u' : Uip) (pos' : Nat) : Prop where
  bytes : Mem.Holds pos (rawBytes (left up s es)) u'.buf
  stop : pos' = pos + (rawBytes (left up s es)).length
  front : ∀ i < pos, i ≠ 4 → i ≠ 5 → i ≠ 6 → u'.buf i = u.buf i
  proto : u'.proto = if s = .front then firstProto (kept es) up else u.proto

theorem removeLoop_ends : ∀ {es : List ExtHdr} {s : Stand} {u : Uip} {pos prev : Nat} {q : UInt8} {fuel : Nat},
    Standing up s es u pos prev q → es.length < fuel →
    ∃ u' pos' prev' q' fuel', removeLoop fuel u pos prev q = removeLoop (fuel' + 1) u' pos' prev' q' ∧
      Standing up (ends s es) [] u' pos' prev' q' ∧ Leaves up s es u pos u' pos'
  | [], s, u, pos, prev, q, fuel + 1, h, _ => by
    refine ⟨u, pos, prev, q, fuel, rfl, h, trivial, rfl, fun _ _ _ _ _ => rfl, ?_⟩
    split_ifs with hs
    · exact h.first hs
    · rfl
  | x :: es, s, u, pos, prev, q, fuel + 1, h, hf => by
    rw [List.length_cons] at hf
    have hpos := h.start
    unfold iphLen at hpos
    cases ht : s.takes x es with
    | true =>
      obtain ⟨hloop, hstand⟩ := h.takes ht fuel
      have hfuel : es.length < fuel := by omega
      obtain ⟨u', pos', prev', q', fuel', hrun, hend, hleft⟩ := removeLoop_ends hstand hfuel
      have hl : left up s (x :: es) = left up (s.next true) es := by rw [left, if_pos ht]
      refine ⟨u', pos', prev', q', fuel', hloop.trans hrun, ?_, hl ▸ hleft.bytes, hl ▸ hleft.stop, ?_, ?_⟩
      · rwa [ends, ht]
      · rintro i hi h4 h5 h6
        rw [hleft.front i hi h4 h5 h6]
        have hp := h.link
        refine takeOut_front hi h4 h5 ?_
        unfold Stand.link at hp
        cases s <;> dsimp only at hp <;> omega
      · rw [hleft.proto]
        have hp := h.link
        unfold Stand.link at hp
        cases s with
        | front =>
          have hx : isRpl x = true := ht
          rw [kept_cons_own hx]
          rfl
        | behind => exact takeOut_front (by omega) (by omega) (by omega) (by dsimp only at hp; omega)
        | ahead => exact takeOut_front (by omega) (by omega) (by omega) (by dsimp only at hp; omega)
    | false =>
      obtain ⟨fuel, rfl⟩ : ∃ n, fuel = n + 1 := ⟨fuel - 1, by omega⟩
      obtain ⟨hloop, hstand⟩ := h.passes ht fuel
      have hfuel : es.length < fuel + 1 := by omega
      obtain ⟨u', pos', prev', q', fuel', hrun, hend, hleft⟩ := removeLoop_ends hstand hfuel
      have hd := x.length
      have hl : left up s (x :: es) = (firstProto es up, x) :: left up .behind es := by
        rw [left, if_neg (by simp [ht])]
      refine ⟨u', pos', prev', q', fuel', hloop.trans hrun, ?_, ?_, ?_, ?_, ?_⟩
      · rw [ends, ht]
        cases s <;> exact hend
      · -- the header that stays is in front of where the loop goes on
        have hblock := h.bytes
        have hrest := hleft.bytes
        simp only [chainBytes, List.cons_append, Mem.holds_cons, List.append_assoc, Mem.holds_append] at hblock
        rw [hl, rawBytes]
        simp only [Mem.holds_cons, Mem.holds_append]
        refine ⟨?_, ?_, hblock.2.2.1.congr fun i h1 h2 => ?_, ?_⟩
        · rw [hleft.front pos (by omega) (by omega) (by omega) (by omega)]
          exact hblock.1
        · rw [hleft.front (pos + 1) (by omega) (by omega) (by omega) (by omega)]
          exact hblock.2.1
        · exact hleft.front i (by omega) (by omega) (by omega) (by omega)
        · rwa [show pos + 1 + 1 + x.data.length = pos + (8 * x.len.toNat + 8) by omega]
      · rw [hl, rawBytes, hleft.stop]
        simp only [List.length_cons, List.length_append]
        omega
      · rintro i hi h4 h5 h6
        exact hleft.front i (by omega) h4 h5 h6
      · rw [hleft.proto, if_neg (by rintro ⟨⟩)]
        split_ifs with hs
        · subst hs
          have hx : isRpl x = false := ht
          rw [h.first rfl, kept_cons hx]
          rfl
        · rfl

/-! ## Any bytes -/

theorem getNextHeader_goes {buf : Mem} {size next : Nat} {proto : UInt8}
    (h : getNextHeader buf pos size false = (proto, some next)) : pos + 8 ≤ next ∧ next ≤ pos + size := by
  unfold getNextHeader at h
  simp only [Bool.false_eq_true, if_false] at h
  split_ifs at h
  all_goals
    cases h
  all_goals omega

/-- A pass ends the loop, or goes on with fewer bytes ahead. The bytes behind the loop stay, once a header was kept. -/
theorem removeLoop_pass (u : Uip) (pos prev : Nat) (q : UInt8) (fuel : Nat) (hpos : pos ≤ u.len) :
    (∃ v ok, removeLoop (fuel + 1) u pos prev q = some (v, ok) ∧ v.len ≤ u.len ∧
        (prev = pos → ∀ i, 6 ≤ i → i < pos → v.buf i = u.buf i)) ∨
      ∃ v pos' prev' q', removeLoop (fuel + 1) u pos prev q = removeLoop fuel v pos' prev' q' ∧ pos' ≤ v.len ∧
        v.len + pos < u.len + pos' ∧ v.len ≤ u.len ∧ pos ≤ pos' ∧
        (prev = pos → prev' = pos' ∧ ∀ i, 6 ≤ i → i < pos → v.buf i = u.buf i) := by
  rw [removeLoop]
  by_cases hext : isProtoExtHdr q = false
  · rw [if_pos hext]
    exact .inl ⟨u, true, rfl, Nat.le_refl _, fun _ _ _ _ => rfl⟩
  rw [if_neg hext]
  by_cases hown : q = protoRouting ∨ (q = protoHbho ∧ u.buf (pos + 2) = optRpl)
  · rw [if_pos hown]
    dsimp only
    have hput : prev = pos → ∀ i, 6 ≤ i → i < pos → (u.buf.put prev (u.buf pos)) i = u.buf i := by
      rintro rfl i _ hi
      exact Mem.put_of_ne (Nat.ne_of_lt hi)
    generalize hk : ((u.buf.put prev (u.buf pos)) (pos + 1)).toNat * 8 + 8 = k
    unfold Uip.addExtHdr
    dsimp only
    split_ifs with hadd
    · dsimp only
      have hlen : ((u.len : Int) + -(k : Nat)).toNat + k = u.len := by omega
      split_ifs with hend
      · refine .inl ⟨_, false, rfl, ?_, fun hp i h6 hi => ?_⟩
        · show ((u.len : Int) + -(k : Nat)).toNat ≤ u.len
          omega
        · rw [Uip.setLenField_buf (.inr h6)]
          exact hput hp i h6 hi
      · refine .inr ⟨_, pos, prev, _, rfl, ?_, ?_, ?_, Nat.le_refl _, fun hp => ⟨hp, fun i h6 hi => ?_⟩⟩
        · simp only [Uip.setLenField_len] at hend ⊢
          omega
        · simp only [Uip.setLenField_len]
          omega
        · simp only [Uip.setLenField_len]
          omega
        · dsimp only
          rw [Mem.copy_of_out (.inl hi), Uip.setLenField_buf (.inr h6)]
          exact hput hp i h6 hi
    · exact .inl ⟨_, false, rfl, Nat.le_refl _, hput⟩
  · rw [if_neg hown]
    rcases hnext : getNextHeader u.buf pos (u.len - pos) false with ⟨proto, _ | next⟩
    · exact .inl ⟨u, true, rfl, Nat.le_refl _, fun _ _ _ _ => rfl⟩
    · have hgo := getNextHeader_goes hnext
      exact .inr ⟨u, next, next, proto, rfl, by omega, by omega, Nat.le_refl _, by omega,
        fun _ => ⟨rfl, fun _ _ _ => rfl⟩⟩

theorem removeLoop_keeps : ∀ {fuel : Nat} {u v : Uip} {pos : Nat} {q : UInt8} {ok : Bool}, pos ≤ u.len →
    removeLoop fuel u pos pos q = some (v, ok) → v.len ≤ u.len ∧ ∀ i, 6 ≤ i → i < pos → v.buf i = u.buf i
  | 0, _, _, _, _, _, _, h => by cases h
  | fuel + 1, u, v, pos, q, ok, hpos, h => by
    rcases removeLoop_pass u pos pos q fuel hpos with
      ⟨w, ok', hw, hlen, hkeep⟩ | ⟨w, pos', prev', q', hw, hpos', -, hlen, hle, hkeep⟩
    · rw [hw, Option.some.injEq, Prod.mk.injEq] at h
      rw [← h.1]
      exact ⟨hlen, hkeep rfl⟩
    · obtain ⟨rfl, hsame⟩ := hkeep rfl
      rw [hw] at h
      have ih := removeLoop_keeps hpos' h
      refine ⟨by omega, fun i h6 hi => ?_⟩
      rw [ih.2 i h6 (by omega), hsame i h6 hi]

/-! ## The packet -/

/-- The packet without the headers that are to go: the others are linked in order and every length agrees. -/
structure Removed (u u' : Uip) (exts : List ExtHdr) (up : Upper) : Prop where
  carries : Carries u' u.destipaddr (kept exts) up
  header : ∀ i, i < iphLen → i ≠ 4 → i ≠ 5 → i ≠ 6 → u'.buf i = u.buf i

/-- The call ends, and when it returns true the packet is as it should be. -/
def RemovesRight (u : Uip) (exts : List ExtHdr) (up : Upper) : Prop :=
  ∃ u' ok, rplExtHeaderRemove u = some (u', ok) ∧ (ok = true → Removed u u' exts up)

theorem Standing.start_of (h : Carries u dest exts up) : Standing up .front exts u iphLen 6 (firstProto exts up) where
  bytes := h.bytes
  len := h.len
  extLen := by rw [h.extLen]
  field := h.field
  mtu := h.mtu
  start := Nat.le_refl _
  link := rfl
  proto := rfl
  first := fun _ => h.proto

theorem chainBytes_count (up : Upper) : ∀ es : List ExtHdr, es.length ≤ (chainBytes es up).length
  | [] => Nat.zero_le _
  | e :: es => by
    have ih := chainBytes_count up es
    rw [chainBytes_cons_length, List.length_cons]
    omega

theorem rplExtHeaderRemove_ends (h : Carries u dest exts up) :
    ∃ u' pos' prev' q' fuel', rplExtHeaderRemove u = removeLoop (fuel' + 1) u' pos' prev' q' ∧
      Standing up (ends .front exts) [] u' pos' prev' q' ∧ Leaves up .front exts u iphLen u' pos' := by
  have hlen := h.len
  have hcount := chainBytes_count up exts
  have hfuel : exts.length < u.len + 1 := by omega
  unfold rplExtHeaderRemove
  rw [h.first]
  exact removeLoop_ends (Standing.start_of h) hfuel

/-- What is left of the headers and the payload, when the payload is not taken for a header. -/
theorem rplExtHeaderRemove_left (h : Carries u dest exts up) (hs : ¬Strays exts) :
    ∃ u', rplExtHeaderRemove u = some (u', true) ∧ Mem.Holds iphLen (rawBytes (left up .front exts) ++ up.data) u'.buf ∧
      u'.len = iphLen + (rawBytes (left up .front exts)).length + up.data.length ∧
      u'.extLen = (rawBytes (left up .front exts)).length ∧ u'.lenField = u'.len - iphLen ∧ u'.len ≤ linkMtu ∧
      u'.proto = firstProto (kept exts) up ∧ ∀ i, i < iphLen → i ≠ 4 → i ≠ 5 → i ≠ 6 → u'.buf i = u.buf i := by
  obtain ⟨u', pos', prev', q', fuel', hrun, hend, hleft⟩ := rplExtHeaderRemove_ends h
  have hq : q' = up.proto := by
    have hp := hend.proto
    unfold Strays at hs
    cases he : ends .front exts with
    | front => rw [he] at hp; exact hp
    | behind => rw [he] at hp; exact hp
    | ahead => exact absurd he hs
  have hstop := hleft.stop
  have hlen : u'.len = pos' + 0 + up.data.length := hend.len
  have hext : iphLen + u'.extLen = pos' + 0 := hend.extLen
  refine ⟨u', ?_, Mem.holds_append.2 ⟨hleft.bytes, hstop ▸ hend.bytes⟩, by omega, by omega, hend.field, hend.mtu,
    hleft.proto, hleft.front⟩
  rw [hrun, hq, removeLoop, if_pos up.upper]

theorem removed_iff (h : Carries u dest exts up) (hs : ¬Strays exts) :
    RemovesRight u exts up ↔ rawBytes (left up .front exts) = chainBytes (kept exts) up := by
  obtain ⟨u', hrun, hbytes, hlen, hext, hfield, hmtu, hproto, hfront⟩ := rplExtHeaderRemove_left h hs
  constructor
  · rintro ⟨v, ok, hv, hok⟩
    rw [hrun, Option.some.injEq, Prod.mk.injEq] at hv
    obtain ⟨rfl, rfl⟩ := hv
    obtain ⟨hc, -⟩ := hok rfl
    have hl := hc.extLen
    have hb := hc.bytes
    rw [Mem.holds_append] at hb hbytes
    rw [← Mem.read_of_holds hb.1, ← Mem.read_of_holds hbytes.1, ← hl, hext]
  · intro heq
    rw [heq] at hbytes hlen hext
    have hdest : u'.destipaddr = u.destipaddr :=
      Uip.destipaddr_congr fun i h24 h40 => hfront i h40 (by omega) (by omega) (by omega)
    exact ⟨u', true, hrun, fun _ => ⟨⟨hdest, hproto, hbytes, hlen, hext, hfield, hmtu⟩, hfront⟩⟩

theorem strays_wrong (h : Carries u dest exts up) (hs : Strays exts) {v : Uip}
    (hv : rplExtHeaderRemove u = some (v, true)) : ¬Removed u v exts up := by
  obtain ⟨u', pos', prev', q', fuel', hrun, hend, hleft⟩ := rplExtHeaderRemove_ends h
  rintro ⟨hc, -⟩
  have hahead : ends .front exts = .ahead := hs
  have hlink := hend.link
  rw [hahead] at hlink
  obtain rfl : prev' = pos' := hlink
  have hlen : u'.len = prev' + 0 + up.data.length := hend.len
  have hstop := hleft.stop
  rw [hrun] at hv
  obtain ⟨hle, hkeep⟩ := removeLoop_keeps (by omega) hv
  have hb := (Mem.holds_append.1 hc.bytes).1
  rw [chainBytes_eq] at hb
  have hleftbytes : Mem.Holds iphLen (rawBytes (left up .front exts)) v.buf :=
    hleft.bytes.congr fun i h1 h2 => hkeep i (by unfold iphLen at h1; omega) (by omega)
  refine links_ne_left (strays_kept hs) (left_ext up hahead) hb hleftbytes ?_
  have hl := hc.len
  rw [chainBytes_eq] at hl
  omega

/-- The packet is right where all links are; otherwise a header that is to go has the bytes of one that is kept, or the
payload is taken for a header and the call refuses. -/
theorem rpl_ext_header_remove_right (h : Carries u dest exts up) : (Linked .front exts → RemovesRight u exts up) ∧
      (¬Twins exts → ¬Strays exts → (RemovesRight u exts up ↔ Linked .front exts)) ∧
      (Strays exts → ∀ u', rplExtHeaderRemove u = some (u', true) → ¬Removed u u' exts up) := by
  have hright : Linked .front exts → RemovesRight u exts up := by
    intro hl
    rw [removed_iff h (linked_ends hl), linked_front up hl, chainBytes_eq]
  refine ⟨hright, fun htwins hs => ⟨fun hr => ?_, hright⟩, fun hs u' => strays_wrong h hs⟩
  exact left_linked_front up (left_eq_of_bytes ((removed_iff h hs).1 hr) htwins)

/-! ## Two packets -/

def rplOption : ExtHdr := ⟨protoHbho, 0, [optRpl, 4, 0, 0, 0, 0], by decide, by decide⟩

def routeDone : ExtHdr := ⟨protoRouting, 0, [rhTypeSrh, 0, 0, 0, 0, 0], by decide, by decide⟩

theorem rplFirst_carries : Carries (smallPacket protoHbho (chainBytes [rplOption, destOptions] smallUdp)) Sr.node2
    [rplOption, destOptions] smallUdp := by
  constructor
  case dest => decide
  case proto => decide
  case bytes =>
    rw [Mem.holds_iff]
    decide
  case len => rfl
  case extLen => rfl
  case field => decide
  case mtu => decide

theorem rplFirst_removed : RemovesRight (smallPacket protoHbho (chainBytes [rplOption, destOptions] smallUdp))
    [rplOption, destOptions] smallUdp :=
  (rpl_ext_header_remove_right rplFirst_carries).1 trivial

theorem routeBetween_carries :
    Carries (smallPacket 60 (chainBytes [destOptions, routeDone, destOptions] smallUdp)) Sr.node2
      [destOptions, routeDone, destOptions] smallUdp := by
  constructor
  case dest => decide
  case proto => decide
  case bytes =>
    rw [Mem.holds_iff]
    decide
  case len => rfl
  case extLen => rfl
  case field => decide
  case mtu => decide

/-- A routing header between destination options: the header in front of it names it still. -/
theorem routeBetween_linked : ¬RemovesRight (smallPacket 60 (chainBytes [destOptions, routeDone, destOptions] smallUdp))
    [destOptions, routeDone, destOptions] smallUdp := by
  rw [removed_iff routeBetween_carries (by rintro ⟨⟩)]
  decide

end Contiki.RplLite

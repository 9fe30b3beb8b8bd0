/-
The walk over the options of a hop-by-hop or destination options header: ext_hdr_options_process of net/ipv6/uip6.c
beside the walk of RFC 8200, in which padding of one byte has no length. Both are loops over the same bytes; they agree
exactly when each option of the second is one the first can step over.
-/
import Contiki.Lib.Loop

namespace Contiki.Uip6

open Contiki.Lib

/-! ## Options -/

def UIP_EXT_HDR_OPT_PAD1 : UInt8 := 0
def UIP_EXT_HDR_OPT_PADN : UInt8 := 1
def UIP_EXT_HDR_OPT_RPL : UInt8 := 0x63
def UIP_EXT_HDR_OPT_MPL : UInt8 := 0x6d

/-- The node around the function: the bytes of the header, `ext_header_hbh_update` of the routing driver (it may write
to the option and change the state), whether the multicast engine is MPL, and whether the destination is multicast. -/
structure Node (ρ : Type) where
  byte : ρ → Nat → UInt8
  hbhUpdate : ρ → Nat → Option ρ
  mpl : Bool
  mcast : Bool

variable {ρ : Type} (n : Node ρ)

/-- The walk: `opt_offset`, the state, the offsets whose option was examined and the bytes that were read. -/
structure Walk (ρ : Type) where
  optOffset : Nat
  state : ρ
  examined : List Nat
  reads : List Nat

structure Verdict where
  code : Nat
  pointer : Option Nat
  examined : List Nat
  reads : List Nat

def Walk.return (s : Walk ρ) (code : Nat) (pointer : Option Nat) : Verdict := ⟨code, pointer, s.examined, s.reads⟩

def extHdrLen (state : ρ) : Nat := ((n.byte state 1).toNat <<< 3) + 8

def processOption (s : Walk ρ) (optLen : Nat) : Walk ρ ⊕ Verdict :=
  let type := n.byte s.state s.optOffset
  if type = UIP_EXT_HDR_OPT_PAD1 then .inl { s with optOffset := s.optOffset + 1 }
  else if type = UIP_EXT_HDR_OPT_PADN then .inl { s with optOffset := s.optOffset + optLen }
  else if type = UIP_EXT_HDR_OPT_RPL then
    match n.hbhUpdate s.state s.optOffset with
    | none => .inr (s.return 1 none)
    | some state => .inl { s with optOffset := s.optOffset + optLen, state := state }
  else if type = UIP_EXT_HDR_OPT_MPL ∧ n.mpl then .inl { s with optOffset := s.optOffset + (optLen + optLen) }
  else if type &&& 0xc0 = 0 then .inl { s with optOffset := s.optOffset + optLen }
  else if type &&& 0xc0 = 0x40 then .inr (s.return 1 none)
  else if type &&& 0xc0 = 0xc0 ∧ n.mcast then .inr (s.return 1 none)
  else .inr (s.return 2 (some s.optOffset))

/-- A round of the loop of `ext_hdr_options_process`. -/
def processRound (len : Nat) (s : Walk ρ) : Walk ρ ⊕ Verdict :=
  if s.optOffset + 2 ≤ len then
    let optLen := (n.byte s.state (s.optOffset + 1)).toNat + 2
    let s := { s with
      examined := s.examined ++ [s.optOffset], reads := s.reads ++ [s.optOffset + 1, s.optOffset] }
    if s.optOffset + optLen > len then .inr (s.return 2 (some s.optOffset)) else processOption n s optLen
  else .inr (s.return 0 none)

def Walk.start (state : ρ) : Walk ρ := ⟨2, state, [], [1]⟩

def extHdrOptionsProcess (fuel : Nat) (state : ρ) : Option Verdict :=
  loop (processRound n (extHdrLen n state)) fuel (Walk.start state)

/-! ## The walk of RFC 8200 -/

def optionEnd (len : Nat) (state : ρ) (o : Nat) : Option Nat :=
  if n.byte state o = UIP_EXT_HDR_OPT_PAD1 then some (o + 1)
  else if o + 2 + (n.byte state (o + 1)).toNat ≤ len then some (o + 2 + (n.byte state (o + 1)).toNat)
  else none

def accept (state : ρ) (o : Nat) : Option ρ :=
  let type := n.byte state o
  if type = UIP_EXT_HDR_OPT_RPL then n.hbhUpdate state o
  else if type = UIP_EXT_HDR_OPT_PAD1 ∨ type = UIP_EXT_HDR_OPT_PADN ∨ type = UIP_EXT_HDR_OPT_MPL ∧ n.mpl ∨
    type &&& 0xc0 = 0 then some state
  else none

/-- An option after the other; the result is whether all are accepted, and the offsets that were examined. -/
def rfcRound (len : Nat) (s : Walk ρ) : Walk ρ ⊕ (Bool × List Nat) :=
  if s.optOffset < len then
    match optionEnd n len s.state s.optOffset, accept n s.state s.optOffset with
    | some next, some state => .inl { s with optOffset := next, state := state, examined := s.examined ++ [s.optOffset] }
    | _, _ => .inr (false, s.examined ++ [s.optOffset])
  else .inr (true, s.examined)

/-- The loop can step over the option: it is not the last byte of the header; the byte behind padding of one byte is no
length that leads out of the header; and nothing follows an MPL option, which is stepped over twice. -/
def Steppable (len : Nat) (s : Walk ρ) : Prop :=
  s.optOffset < len → s.optOffset + 2 ≤ len ∧
    (n.byte s.state s.optOffset = UIP_EXT_HDR_OPT_PAD1 →
      s.optOffset + 2 + (n.byte s.state (s.optOffset + 1)).toNat ≤ len) ∧
    (n.byte s.state s.optOffset = UIP_EXT_HDR_OPT_MPL ∧ n.mpl →
      len ≤ s.optOffset + 2 + (n.byte s.state (s.optOffset + 1)).toNat)

/-- What the walk of RFC 8200 says: the header is accepted when that accepts it, and the same options are examined. -/
def Agrees (len : Nat) (state : ρ) (v : Verdict) : Prop :=
  (∀ x ∈ v.reads, x < len) ∧ ∃ fuel r, loop (rfcRound n len) fuel (Walk.start state) = some r ∧
    (v.code = 0 ↔ r.1 = true) ∧ v.examined = r.2

/-! ## Rounds -/

/-- How far the loop steps over an option that it accepts. -/
def advance (state : ρ) (o optLen : Nat) : Nat :=
  if n.byte state o = UIP_EXT_HDR_OPT_PAD1 then 1
  else if n.byte state o = UIP_EXT_HDR_OPT_MPL ∧ n.mpl then optLen + optLen
  else optLen

variable {n} {len optLen o : Nat} {st : ρ} {ex rd : List Nat} {s t : Walk ρ} {v : Verdict} {r : Bool × List Nat}
  {fuel : Nat}

theorem processOption_some {st' : ρ} (h : accept n st o = some st') :
    processOption n ⟨o, st, ex, rd⟩ optLen = .inl ⟨o + advance n st o optLen, st', ex, rd⟩ := by
  unfold accept at h
  unfold processOption advance
  dsimp only at h ⊢
  by_cases hrpl : n.byte st o = UIP_EXT_HDR_OPT_RPL
  · rw [if_pos hrpl] at h
    rw [hrpl, h]
    rfl
  rw [if_neg hrpl] at h
  obtain ⟨hok, h⟩ := Option.ite_none_right_eq_some.1 h
  cases h
  rw [if_neg hrpl]
  by_cases h0 : n.byte st o = UIP_EXT_HDR_OPT_PAD1
  · rw [if_pos h0, if_pos h0]
  rw [if_neg h0, if_neg h0]
  by_cases hm : n.byte st o = UIP_EXT_HDR_OPT_MPL ∧ n.mpl
  · have h1 : n.byte st o ≠ UIP_EXT_HDR_OPT_PADN := by rw [hm.1]; decide
    rw [if_neg h1, if_pos hm, if_pos hm]
  rw [if_neg hm, if_neg hm]
  by_cases h1 : n.byte st o = UIP_EXT_HDR_OPT_PADN
  · rw [if_pos h1]
  · rw [if_neg h1, if_pos (by simpa [h0, h1, hm] using hok)]

theorem processOption_none (h : accept n st o = none) :
    ∃ code pointer, processOption n ⟨o, st, ex, rd⟩ optLen = .inr ⟨code, pointer, ex, rd⟩ ∧ code ≠ 0 := by
  unfold accept at h
  unfold processOption
  by_cases hrpl : n.byte st o = UIP_EXT_HDR_OPT_RPL
  · rw [if_pos hrpl] at h
    rw [hrpl, h]
    exact ⟨1, none, rfl, one_ne_zero⟩
  rw [if_neg hrpl] at h
  obtain ⟨h0, h1, hm, hbits⟩ : _ ∧ _ ∧ _ ∧ _ := by simpa only [ite_eq_right_iff, reduceCtorEq, imp_false, not_or] using h
  rw [if_neg h0, if_neg h1, if_neg hrpl, if_neg hm, if_neg hbits]
  split_ifs
  · exact ⟨1, none, rfl, one_ne_zero⟩
  · exact ⟨1, none, rfl, one_ne_zero⟩
  · exact ⟨2, some o, rfl, two_ne_zero⟩

/-- Both walks stand at the same option, or both have ended. -/
structure Level (len : Nat) (s t : Walk ρ) : Prop where
  state : s.state = t.state
  examined : s.examined = t.examined
  offset : s.optOffset = t.optOffset ∨ len ≤ s.optOffset ∧ len ≤ t.optOffset

theorem round_level (h : Level len s t) (ho : t.optOffset < len) (hs : Steppable n len t) :
    (∃ s' t', processRound n len s = .inl s' ∧ rfcRound n len t = .inl t' ∧ Level len s' t' ∧
      t.optOffset < t'.optOffset) ∨
    ∃ v, processRound n len s = .inr v ∧ rfcRound n len t = .inr (false, v.examined) ∧ v.code ≠ 0 := by
  obtain ⟨hstate, hexamined, hoffset⟩ := h
  obtain ⟨o, st, ex, rd⟩ := s
  obtain ⟨o', st', ex', rd'⟩ := t
  dsimp only at hstate hexamined hoffset ho
  obtain rfl : o = o' := by omega
  subst hstate hexamined
  obtain ⟨htwo, hpad, hmpl⟩ := hs ho
  dsimp only at htwo hpad hmpl
  unfold processRound rfcRound
  rw [if_pos htwo, if_pos ho]
  dsimp only
  by_cases hlong : o + ((n.byte st (o + 1)).toNat + 2) > len
  · have hne : n.byte st o ≠ UIP_EXT_HDR_OPT_PAD1 := fun h => by have := hpad h; omega
    rw [if_pos hlong, optionEnd, if_neg hne, if_neg (by omega)]
    exact .inr ⟨_, rfl, rfl, two_ne_zero⟩
  rw [if_neg hlong]
  cases hacc : accept n st o with
  | none =>
    obtain ⟨code, pointer, hreject, hcode⟩ := processOption_none hacc
    rw [hreject]
    refine .inr ⟨_, rfl, ?_, hcode⟩
    cases optionEnd n len st o with
    | none => rfl
    | some next => rfl
  | some st' =>
    rw [processOption_some hacc, optionEnd, advance]
    left
    by_cases h0 : n.byte st o = UIP_EXT_HDR_OPT_PAD1
    · rw [if_pos h0, if_pos h0]
      exact ⟨_, _, rfl, rfl, ⟨rfl, rfl, .inl rfl⟩, Nat.lt_succ_self o⟩
    have hend : o + 2 + (n.byte st (o + 1)).toNat ≤ len := by omega
    rw [if_neg h0, if_neg h0, if_pos hend]
    refine ⟨_, _, rfl, rfl, ⟨rfl, rfl, ?_⟩, by dsimp only; omega⟩
    dsimp only
    by_cases hm : n.byte st o = UIP_EXT_HDR_OPT_MPL ∧ n.mpl
    · have := hmpl hm
      rw [if_pos hm]
      omega
    · rw [if_neg hm]
      omega

theorem round_ended (h : Level len s t) (ho : len ≤ t.optOffset) :
    ∃ v, processRound n len s = .inr v ∧ rfcRound n len t = .inr (true, v.examined) ∧ v.code = 0 := by
  have hs : len ≤ s.optOffset := by
    rcases h.offset with h | h
    · omega
    · exact h.1
  refine ⟨s.return 0 none, if_neg (by omega), ?_, rfl⟩
  rw [rfcRound, if_neg (by omega), ← h.examined]
  rfl

theorem rfc_examined : ∀ {fuel : Nat} {t : Walk ρ}, loop (rfcRound n len) fuel t = some r →
    (t.optOffset < len → t.examined ++ [t.optOffset] <+: r.2) ∧ (len ≤ t.optOffset → r.2 = t.examined)
  | 0, _, h => by cases h
  | fuel + 1, t, h => by
    by_cases ho : t.optOffset < len
    · refine ⟨fun _ => ?_, fun hge => absurd ho (not_lt.2 hge)⟩
      rcases loop_cases h with ⟨t', ht, h⟩ | ht
      all_goals
        rw [rfcRound, if_pos ho] at ht
        split at ht
      · cases ht
        obtain ⟨hlt, hge⟩ := rfc_examined h
        rename_i next _ _ _
        rcases Nat.lt_or_ge next len with hnext | hnext
        · exact (List.prefix_append _ _).trans (hlt hnext)
        · exact (hge hnext) ▸ List.prefix_refl _
      · cases ht
      · cases ht
      · cases ht
        exact List.prefix_refl _
    · refine ⟨fun hlt => absurd hlt ho, fun _ => ?_⟩
      rcases loop_cases h with ⟨t', ht, h⟩ | ht
      all_goals
        rw [rfcRound, if_neg ho] at ht
        cases ht
      rfl

/-- A round examines the option it stands at and reads its two bytes, or the header has ended. -/
theorem processRound_cases (len : Nat) (s : Walk ρ) : s.optOffset + 2 ≤ len ∧
      ((∃ s', processRound n len s = .inl s' ∧ s'.examined = s.examined ++ [s.optOffset] ∧
        s'.reads = s.reads ++ [s.optOffset + 1, s.optOffset] ∧ s.optOffset < s'.optOffset) ∨
      ∃ v, processRound n len s = .inr v ∧ v.examined = s.examined ++ [s.optOffset] ∧
        v.reads = s.reads ++ [s.optOffset + 1, s.optOffset]) ∨
    len < s.optOffset + 2 ∧ processRound n len s = .inr (s.return 0 none) := by
  by_cases ho : s.optOffset + 2 ≤ len
  · refine .inl ⟨ho, ?_⟩
    rw [processRound, if_pos ho]
    dsimp only
    split_ifs
    · exact .inr ⟨_, rfl, rfl, rfl⟩
    · cases hacc : accept n s.state s.optOffset with
      | none =>
        obtain ⟨code, pointer, hreject, -⟩ := processOption_none hacc
        exact .inr ⟨_, hreject, rfl, rfl⟩
      | some state =>
        refine .inl ⟨_, processOption_some hacc, rfl, rfl, ?_⟩
        unfold advance
        dsimp only
        split_ifs
        all_goals omega
  · exact .inr ⟨not_le.1 ho, if_neg ho⟩

theorem process_ends (hfuel : len - s.optOffset < fuel) (hreads : ∀ x ∈ s.reads, x < len) :
    ∃ v, loop (processRound n len) fuel s = some v ∧ ∀ x ∈ v.reads, x < len := by
  refine loop_within (I := fun s => ∀ x ∈ s.reads, x < len) (μ := fun s => len - s.optOffset) ?_ ?_ hfuel hreads
  · intro s s' hI hs
    rcases processRound_cases (n := n) len s with ⟨ho, ⟨_, h, _, hrd, hlt⟩ | ⟨_, h, _⟩⟩ | ⟨_, h⟩
    all_goals
      rw [hs] at h
      cases h
    refine ⟨?_, by omega⟩
    rw [hrd]
    simp only [List.mem_append, List.mem_cons, List.not_mem_nil, or_false]
    rintro x (hx | rfl | rfl)
    · exact hI x hx
    · omega
    · omega
  · intro s v hI hs
    rcases processRound_cases (n := n) len s with ⟨ho, ⟨_, h, _⟩ | ⟨_, h, _, hrd⟩⟩ | ⟨_, h⟩
    all_goals
      rw [hs] at h
      cases h
    · rw [hrd]
      simp only [List.mem_append, List.mem_cons, List.not_mem_nil, or_false]
      rintro x (hx | rfl | rfl)
      · exact hI x hx
      · omega
      · omega
    · exact hI

theorem process_examined : ∀ {fuel : Nat} {s : Walk ρ}, loop (processRound n len) fuel s = some v →
    s.examined ++ [s.optOffset] <+: v.examined ∨ v.examined = s.examined
  | 0, _, h => by cases h
  | fuel + 1, s, h => by
    rcases processRound_cases (n := n) len s with ⟨ho, ⟨s', hs, hex, _⟩ | ⟨v', hs, hex, _⟩⟩ | ⟨_, hs⟩
    · left
      rw [loop_next hs] at h
      rw [← hex]
      rcases process_examined h with h | h
      · exact (List.prefix_append _ _).trans h
      · exact h ▸ List.prefix_refl _
    · left
      rw [loop_end hs] at h
      cases h
      exact hex ▸ List.prefix_refl _
    · right
      rw [loop_end hs] at h
      cases h
      rfl

theorem round_spoils {fuel' : Nat} (h : Level len s t) (hs : ¬ Steppable n len t)
    (hv : loop (processRound n len) (fuel + 1) s = some v) (hr : loop (rfcRound n len) (fuel' + 1) t = some r) :
    v.examined ≠ r.2 := by
  obtain ⟨hstate, hexamined, hoffset⟩ := h
  obtain ⟨ho, hnot⟩ := Classical.not_imp.1 hs
  obtain ⟨o, st, ex, rd⟩ := s
  obtain ⟨o', st', ex', rd'⟩ := t
  dsimp only at hstate hexamined hoffset ho hnot
  obtain rfl : o = o' := by omega
  subst hstate hexamined
  intro he
  by_cases htwo : o + 2 ≤ len
  case neg =>
    have hended : processRound n len ⟨o, st, ex, rd⟩ = .inr (Walk.return ⟨o, st, ex, rd⟩ 0 none) := if_neg htwo
    rw [loop_end hended] at hv
    cases hv
    have := (rfc_examined hr).1 ho
    rw [← he] at this
    simpa [Walk.return] using this.length_le
  have hcase : (n.byte st o = UIP_EXT_HDR_OPT_PAD1 ∧ len < o + 2 + (n.byte st (o + 1)).toNat) ∨
      (n.byte st o = UIP_EXT_HDR_OPT_MPL ∧ n.mpl) ∧ o + 2 + (n.byte st (o + 1)).toNat < len := by
    by_contra hnone
    rw [not_or, not_and, not_and, not_lt, not_lt] at hnone
    exact hnot ⟨htwo, hnone⟩
  rcases hcase with ⟨hpad, hlong⟩ | ⟨hmpl, hshort⟩
  · have hrefused : processRound n len ⟨o, st, ex, rd⟩ = .inr ⟨2, some o, ex ++ [o], rd ++ [o + 1, o]⟩ := by
      rw [processRound, if_pos htwo]
      exact if_pos (by dsimp only; omega)
    have haccept : accept n st o = some st := (if_neg (by rw [hpad]; decide)).trans (if_pos (.inl hpad))
    have hnext : rfcRound n len ⟨o, st, ex, rd'⟩ = .inl ⟨o + 1, st, ex ++ [o], rd'⟩ := by
      rw [rfcRound, if_pos ho, haccept, optionEnd, if_pos hpad]
    rw [loop_next hnext] at hr
    rw [loop_end hrefused] at hv
    cases hv
    have hlonger := (rfc_examined hr).1 (show o + 1 < len by omega)
    rw [← he] at hlonger
    simpa using hlonger.length_le
  · have hpad : n.byte st o ≠ UIP_EXT_HDR_OPT_PAD1 := by rw [hmpl.1]; decide
    have haccept : accept n st o = some st :=
      (if_neg (by rw [hmpl.1]; decide)).trans (if_pos (.inr (.inr (.inl hmpl))))
    have hnext : rfcRound n len ⟨o, st, ex, rd'⟩ = .inl ⟨o + 2 + (n.byte st (o + 1)).toNat, st, ex ++ [o], rd'⟩ := by
      rw [rfcRound, if_pos ho, haccept, optionEnd, if_neg hpad, if_pos hshort.le]
    have hskip : processRound n len ⟨o, st, ex, rd⟩ = .inl ⟨o + ((n.byte st (o + 1)).toNat + 2 +
        ((n.byte st (o + 1)).toNat + 2)), st, ex ++ [o], rd ++ [o + 1, o]⟩ := by
      rw [processRound, if_pos htwo]
      refine (if_neg (by dsimp only; omega)).trans ((processOption_some haccept).trans ?_)
      rw [advance, if_neg hpad, if_pos hmpl]
    rw [loop_next hnext] at hr
    rw [loop_next hskip] at hv
    have hright := (rfc_examined hr).1 hshort
    rw [← he] at hright
    rcases process_examined hv with hwrong | hsame
    · have := (List.prefix_of_prefix_length_le hright hwrong (by simp)).eq_of_length (by simp)
      simp only [List.append_cancel_left_eq, List.cons.injEq, and_true] at this
      omega
    · rw [hsame] at hright
      simpa using hright.length_le

/-! ## Whole walks -/

/-- From options at which both walks stand, they agree when every option can be stepped over. -/
theorem walk_agrees_iff : ∀ {fuel fuel' : Nat} {s t : Walk ρ}, Level len s t →
    loop (processRound n len) fuel s = some v → loop (rfcRound n len) fuel' t = some r →
    ((v.code = 0 ↔ r.1 = true) ∧ v.examined = r.2 ↔ ∀ u, Comes (rfcRound n len) t u → Steppable n len u)
  | 0, _, _, _, _, hv, _ => by cases hv
  | _, 0, _, _, _, _, hr => by cases hr
  | fuel + 1, fuel' + 1, s, t, h, hv, hr => by
    have hcomes {x} (ht : rfcRound n len t = .inr x) (hs : Steppable n len t) :
        ∀ u, Comes (rfcRound n len) t u → Steppable n len u := by
      intro u hu
      rcases Relation.ReflTransGen.cases_head hu with rfl | ⟨t', ht', _⟩
      · exact hs
      · cases ht.symm.trans ht'
    by_cases ho : t.optOffset < len
    · by_cases hs : Steppable n len t
      · rcases round_level h ho hs with ⟨s', t', hs', ht', hlevel, -⟩ | ⟨v', hs', ht', hcode⟩
        · rw [loop_next hs'] at hv
          rw [loop_next ht'] at hr
          rw [walk_agrees_iff hlevel hv hr]
          refine ⟨fun hall u hu => ?_, fun hall u hu => hall u (.head ht' hu)⟩
          rcases Relation.ReflTransGen.cases_head hu with rfl | ⟨t'', ht'', hu⟩
          · exact hs
          · cases ht'.symm.trans ht''
            exact hall u hu
        · rw [loop_end hs'] at hv
          rw [loop_end ht'] at hr
          cases hv
          cases hr
          exact ⟨fun _ => hcomes ht' hs, fun _ => ⟨by simpa using hcode, rfl⟩⟩
      · refine ⟨fun hgood => absurd hgood.2 (round_spoils h hs hv hr), fun hall => absurd (hall t .refl) hs⟩
    · obtain ⟨v', hs', ht', hcode⟩ := round_ended h (not_lt.1 ho)
      rw [loop_end hs'] at hv
      rw [loop_end ht'] at hr
      cases hv
      cases hr
      exact ⟨fun _ => hcomes ht' fun hlt => absurd hlt ho, fun _ => ⟨by simpa using hcode, rfl⟩⟩

theorem rfc_ends : ∀ (k : Nat) (t : Walk ρ), len - t.optOffset ≤ k → ∃ fuel r, loop (rfcRound n len) fuel t = some r
  | k, t, _ => by
    by_cases ho : t.optOffset < len
    case neg =>
      have hended : rfcRound n len t = .inr (true, t.examined) := if_neg ho
      exact ⟨1, _, loop_end hended 0⟩
    cases hround : rfcRound n len t with
    | inr r => exact ⟨1, r, loop_end hround 0⟩
    | inl t' =>
      have hlt : t.optOffset < t'.optOffset := by
        rw [rfcRound, if_pos ho] at hround
        split at hround
        · cases hround
          rename_i next _ hend _
          dsimp only
          unfold optionEnd at hend
          split_ifs at hend
          · cases hend
            exact Nat.lt_succ_self _
          · cases hend
            omega
        · cases hround
      obtain ⟨fuel, r, hr⟩ := rfc_ends (k - 1) t' (by omega)
      exact ⟨fuel + 1, r, (loop_next hround fuel).trans hr⟩
termination_by k => k
decreasing_by omega

variable (n)

/-- The options of a header are processed as RFC 8200 has them exactly when each can be stepped over. -/
theorem extHdrOptionsProcess_rfc (state : ρ) :
    (∃ fuel v, extHdrOptionsProcess n fuel state = some v ∧ Agrees n (extHdrLen n state) state v) ↔
    ∀ t, Comes (rfcRound n (extHdrLen n state)) (Walk.start state) t → Steppable n (extHdrLen n state) t := by
  have hstart : ∀ x ∈ (Walk.start state).reads, x < extHdrLen n state := by
    unfold Walk.start extHdrLen
    simp
  have hlevel : Level (extHdrLen n state) (Walk.start state) (Walk.start state) := ⟨rfl, rfl, .inl rfl⟩
  obtain ⟨v, hv, hreads⟩ := process_ends (n := n) (Nat.lt_succ_self _) hstart
  obtain ⟨fuel', r, hr⟩ := rfc_ends (n := n) _ (Walk.start state) le_rfl
  rw [← walk_agrees_iff hlevel hv hr]
  constructor
  · rintro ⟨_, v', hv', -, _, r', hr', hgood⟩
    obtain rfl := loop_unique hv hv'
    obtain rfl := loop_unique hr hr'
    exact hgood
  · intro hgood
    exact ⟨_, v, hv, hreads, fuel', r, hr, hgood⟩

/-- A header of eight bytes with nothing but `bytes` behind the first two. -/
def plainNode (bytes : List UInt8) : Node Unit := ⟨fun _ x => (58 :: 0 :: bytes).getD x 0, fun s _ => some s, true, false⟩

/-- Three bytes of padding, each an option of its own, before an option of type 5: its type is taken for the length of the
last of them, and the header is refused. -/
theorem pad1_refused : ¬ ∀ n : Node Unit, ∃ fuel v, extHdrOptionsProcess n fuel () = some v ∧
    Agrees n (extHdrLen n ()) () v := by
  intro hall
  obtain ⟨fuel, v, hv, -, fuel', r, hr, hcode, -⟩ := hall (plainNode [0, 0, 0, 5, 1, 0])
  have hrefused : (extHdrOptionsProcess (plainNode [0, 0, 0, 5, 1, 0]) 7 ()).map Verdict.code = some 2 := by decide
  have haccepted : (loop (rfcRound (plainNode [0, 0, 0, 5, 1, 0]) 8) 7 (Walk.start ())).map Prod.fst = some true := by decide
  obtain ⟨v', hv', hcode'⟩ := Option.map_eq_some_iff.1 hrefused
  obtain ⟨r', hr', hfst⟩ := Option.map_eq_some_iff.1 haccepted
  obtain rfl := loop_unique hv hv'
  obtain rfl := loop_unique hr hr'
  rw [hcode'] at hcode
  exact absurd (hcode.2 hfst) (by decide)

end Contiki.Uip6

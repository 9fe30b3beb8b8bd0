/-
What the handlers of RPL messages read and write, whether they end and what they discard: those of DIO and DIS do as they
should, that of DAO-ACK does not look at the length of the message, and that of DAO neither bounds a prefix by the field
it is copied into nor the parent address by its option.
-/
import Contiki.RplLite.Icmp6

namespace Contiki.RplLite.Icmp6

open Contiki.Lib Contiki.Core

/-! ## What is asked of a handler -/

/-- The positions that options begin at, as their lengths have it. -/
inductive OptionAt (m : Message) (start : Nat) : Nat → Prop
  | first : OptionAt m start start
  | next {i : Nat} : OptionAt m start i → i < m.size → OptionAt m start (i + optionLen m.buf i)

def Whole (m : Message) (i : Nat) : Prop := (m.buf i = optionPad1 ∨ i + 1 < m.size) ∧ i + optionLen m.buf i ≤ m.size

/-- What an option of a DIO is to hold fits into its length, and a prefix into its field. -/
structure DioFits (buf : Mem) (i : Nat) : Prop where
  metricContainer : buf i = optionDagMetricContainer →
    6 ≤ optionLen buf i ∧ (buf (i + 2) = dagMcEtx ∨ buf (i + 2) = dagMcEnergy → 8 ≤ optionLen buf i)
  routeInfo : buf i = optionRouteInfo → 8 + prefixBytes (buf (i + 2)) ≤ optionLen buf i ∧ buf (i + 2) ≤ 128
  dagConf : buf i = optionDagConf → optionLen buf i = 16
  prefixInfo : buf i = optionPrefixInfo → optionLen buf i = 32 ∧ buf (i + 2) ≤ 128

/-- The same of a DAO: the prefix has all bytes of the option, and a parent address has 16. -/
structure DaoFits (buf : Mem) (i : Nat) : Prop where
  target : buf i = optionTarget →
    4 ≤ optionLen buf i ∧ 4 + prefixBytes (buf (i + 3)) = optionLen buf i ∧ buf (i + 3) ≤ 128
  transit : buf i = optionTransit → 6 ≤ optionLen buf i ∧ (20 ≤ optionLen buf i → 22 ≤ optionLen buf i)

/-- All reads are inside the message, all copies inside their fields. -/
structure Trace.Inside (size : Nat) (t : Trace) : Prop where
  reads : ∀ x ∈ t.reads, x < size
  blocks : ∀ b ∈ t.blocks, b.2 ≤ b.1.size

/-- A message with an option that does not fit is discarded. -/
def Discards {δ : Type} (m : Message) (start : Nat) (fits : Nat → Prop) (h : Handled δ) : Prop :=
  (∃ i, OptionAt m start i ∧ i < m.size ∧ ¬(Whole m i ∧ fits i)) → h.passed = none

/-- `dio_input` ends, and does what it should. -/
def DioSafe (defaults : DagConf) (m : Message) : Prop :=
  ∃ h, dioInput defaults (m.size + 1) m = some h ∧ h.trace.Inside m.size ∧ Discards m 24 (DioFits m.buf) h

/-- `dao_input` ends, and does what it should. -/
def DaoSafe (inst : Instance) (m : Message) : Prop :=
  ∃ h, daoInput inst (m.size + 1) m = some h ∧ h.trace.Inside m.size ∧ Discards m (daoOptions m.buf) (DaoFits m.buf) h

def DaoAckSafe (inst : Instance) (m : Message) : Prop := (daoAckInput inst m).trace.Inside m.size

def DisSafe (inst : Instance) (m : Message) : Prop := (disInput inst m).trace.Inside m.size

/-! ## Accesses -/

variable {size a n : Nat} {t : Trace} {f : Block}

theorem inside_empty : Trace.empty.Inside size := ⟨fun _ h => absurd h List.not_mem_nil, fun _ h => absurd h List.not_mem_nil⟩

theorem inside_read : (t.read a n).Inside size ↔ t.Inside size ∧ (n = 0 ∨ a + n ≤ size) := by
  constructor
  · rintro ⟨hr, hb⟩
    obtain ⟨h₁, h₂⟩ := Cursor.within_append.1 hr
    exact ⟨⟨h₁, hb⟩, Cursor.range'_within.1 h₂⟩
  · rintro ⟨⟨hr, hb⟩, h⟩
    exact ⟨Cursor.within_append.2 ⟨hr, Cursor.range'_within.2 h⟩, hb⟩

theorem inside_copy : (t.copy f a n).Inside size ↔ t.Inside size ∧ (n = 0 ∨ a + n ≤ size) ∧ n ≤ 16 := by
  rw [← and_assoc, ← inside_read]
  constructor
  · rintro ⟨hr, hb⟩
    obtain ⟨h₁, h₂⟩ := List.forall_mem_append.1 hb
    exact ⟨⟨hr, h₁⟩, h₂ _ (List.mem_singleton_self _)⟩
  · rintro ⟨⟨hr, hb⟩, h⟩
    refine ⟨hr, List.forall_mem_append.2 ⟨hb, fun b hmem => ?_⟩⟩
    obtain rfl := List.mem_singleton.1 hmem
    exact h

/-! ## The loop over the options -/

section

variable {δ : Type} {m : Message} {switch : Nat → Nat → Trace → δ → Trace × Option δ} {acc good : Nat → Prop} {p i : Nat}

/-- The positions that the loop comes to, when it goes on behind the options that are whole and accepted. -/
inductive Reached (m : Message) (acc : Nat → Prop) : Nat → Nat → Prop
  | here (p : Nat) : Reached m acc p p
  | next {p i : Nat} : p < m.size → Whole m p → acc p → Reached m acc (p + optionLen m.buf p) i → Reached m acc p i

theorem reached_iff : Reached m acc p i ↔
    i = p ∨ p < m.size ∧ Whole m p ∧ acc p ∧ Reached m acc (p + optionLen m.buf p) i := by
  constructor
  · rintro (_ | ⟨h₁, h₂, h₃, h₄⟩)
    · exact .inl rfl
    · exact .inr ⟨h₁, h₂, h₃, h₄⟩
  · rintro (rfl | ⟨h₁, h₂, h₃, h₄⟩)
    · exact .here _
    · exact .next h₁ h₂ h₃ h₄

/-- What the `switch` does with a whole option: which options it accepts, and of which its accesses are inside. -/
structure Switches (m : Message) (switch : Nat → Nat → Trace → δ → Trace × Option δ) (acc good : Nat → Prop) : Prop where
  accepts : ∀ i t d, i < m.size → Whole m i → ((switch i (optionLen m.buf i) t d).2.isSome = true ↔ acc i)
  inside : ∀ i t d, i < m.size → Whole m i → ((switch i (optionLen m.buf i) t d).1.Inside m.size ↔ t.Inside m.size ∧ good i)

theorem optionLen_pos (buf : Mem) (i : Nat) : 0 < optionLen buf i := by
  unfold optionLen
  split_ifs <;> omega

/-- The loop ends; the message is not discarded exactly when it accepts all options that it comes to, and all accesses are
inside exactly when they are for each of these. -/
theorem loop_options (h : Switches m switch acc good) : ∀ (fuel : Nat) (w : Walk δ), m.size - w.pos < fuel →
    ∃ r, loop (optionStep m switch) fuel w = some r ∧
      (r.passed.isSome = true ↔ ∀ i, Reached m acc w.pos i → i < m.size → Whole m i ∧ acc i) ∧
      (r.trace.Inside m.size ↔ w.trace.Inside m.size ∧ ∀ i, Reached m acc w.pos i → i < m.size → Whole m i → good i)
  | 0, _, hfuel => absurd hfuel (Nat.not_lt_zero _)
  | fuel + 1, w, hfuel => by
    by_cases hlt : w.pos < m.size
    · have hread : ∀ t : Trace, (t.read w.pos 1).Inside m.size ↔ t.Inside m.size := fun t => by
        rw [inside_read]
        exact and_iff_left (.inr hlt)
      by_cases hwhole : Whole m w.pos
      · obtain ⟨hhead, hend⟩ := hwhole
        -- the header of the option is read
        obtain ⟨t, ht⟩ : ∃ t, t = if m.buf w.pos = optionPad1 then w.trace.read w.pos 1
          else (w.trace.read w.pos 1).read (w.pos + 1) 1 := ⟨_, rfl⟩
        have htin : t.Inside m.size ↔ w.trace.Inside m.size := by
          rw [ht]
          split_ifs with hpad
          · exact hread _
          · rw [inside_read, hread]
            exact and_iff_left (.inr (hhead.resolve_left hpad))
        have hstep : optionStep m switch w = (switch w.pos (optionLen m.buf w.pos) t w.data).2.elim
            (.inr ⟨(switch w.pos (optionLen m.buf w.pos) t w.data).1, none⟩)
            fun d => .inl ⟨w.pos + optionLen m.buf w.pos, (switch w.pos (optionLen m.buf w.pos) t w.data).1, d⟩ := by
          unfold optionStep
          rw [if_pos hlt, if_neg (by rw [not_and_or]; rcases hhead with hp | hp; exacts [.inl (not_not.2 hp), .inr (by omega)])]
          dsimp only
          rw [if_neg (by omega), ← ht]
        have hacc := h.accepts w.pos t w.data hlt ⟨hhead, hend⟩
        have hgood := h.inside w.pos t w.data hlt ⟨hhead, hend⟩
        rw [htin] at hgood
        cases hr : (switch w.pos (optionLen m.buf w.pos) t w.data).2 with
        | none =>
          rw [hr] at hstep hacc
          have hno : ¬acc w.pos := fun ha => Bool.false_ne_true (hacc.2 ha)
          have hreached : ∀ i, Reached m acc w.pos i ↔ i = w.pos := fun i => by
            rw [reached_iff]
            exact or_iff_left fun hi => hno hi.2.2.1
          refine ⟨_, loop_end hstep fuel, ?_, ?_⟩
          · simp only [hreached, forall_eq]
            exact iff_of_false Bool.false_ne_true fun hall => hno (hall hlt).2
          · simp only [hreached, forall_eq]
            rw [hgood]
            exact and_congr_right fun _ => ⟨fun hg _ _ => hg, fun hg => hg hlt ⟨hhead, hend⟩⟩
        | some d =>
          rw [hr] at hstep hacc
          have hyes : acc w.pos := hacc.1 rfl
          have hpos := optionLen_pos m.buf w.pos
          obtain ⟨r, hloop, hpassed, hinside⟩ := loop_options h fuel
            ⟨w.pos + optionLen m.buf w.pos, (switch w.pos (optionLen m.buf w.pos) t w.data).1, d⟩ (by dsimp only; omega)
          dsimp only at hpassed hinside
          have hreached : ∀ i, Reached m acc w.pos i ↔ i = w.pos ∨ Reached m acc (w.pos + optionLen m.buf w.pos) i := fun i => by
            rw [reached_iff]
            exact or_congr_right ⟨fun hi => hi.2.2.2, fun hi => ⟨hlt, ⟨hhead, hend⟩, hyes, hi⟩⟩
          refine ⟨r, (loop_next hstep fuel).trans hloop, ?_, ?_⟩
          · rw [hpassed]
            simp only [hreached, forall_eq_or_imp]
            exact (and_iff_right fun _ => ⟨⟨hhead, hend⟩, hyes⟩).symm
          · rw [hinside, hgood]
            simp only [hreached, forall_eq_or_imp]
            rw [and_assoc]
            exact and_congr_right fun _ => and_congr_left fun _ => ⟨fun hg _ _ => hg, fun hg => hg hlt ⟨hhead, hend⟩⟩
      · -- an option that does not end inside the message
        have hreached : ∀ i, Reached m acc w.pos i ↔ i = w.pos := fun i => by
          rw [reached_iff]
          exact or_iff_left fun hi => hwhole hi.2.1
        have hstep : ∃ t, optionStep m switch w = .inr ⟨t, none⟩ ∧ (t.Inside m.size ↔ w.trace.Inside m.size) := by
          unfold optionStep
          rw [if_pos hlt]
          dsimp only
          by_cases hhead : m.buf w.pos ≠ optionPad1 ∧ m.size ≤ w.pos + 1
          · rw [if_pos hhead]
            exact ⟨_, rfl, hread _⟩
          · rw [if_neg hhead, if_pos]
            · refine ⟨_, rfl, ?_⟩
              split_ifs with hpad
              · exact hread _
              · rw [inside_read, hread]
                rw [not_and] at hhead
                have := hhead hpad
                exact and_iff_left (.inr (by omega))
            · by_contra hend
              refine hwhole ⟨?_, by omega⟩
              rw [not_and_or, not_not] at hhead
              exact hhead.imp_right fun hle => by omega
        obtain ⟨t, hstep, htin⟩ := hstep
        refine ⟨_, loop_end hstep fuel, ?_, ?_⟩
        · simp only [hreached, forall_eq]
          exact iff_of_false Bool.false_ne_true fun hall => hwhole (hall hlt).1
        · simp only [hreached, forall_eq]
          rw [htin]
          exact (and_iff_left fun _ hw => absurd hw hwhole).symm
    · have hstep : optionStep m switch w = .inr ⟨w.trace, some w.data⟩ := if_neg hlt
      have hnone : ∀ i, Reached m acc w.pos i → ¬i < m.size := by
        intro i hi
        rcases reached_iff.1 hi with rfl | hi
        · exact hlt
        · exact absurd hi.1 hlt
      refine ⟨_, loop_end hstep fuel, iff_of_true rfl fun i hi hi' => absurd hi' (hnone i hi), ?_⟩
      exact (and_iff_left fun i hi hi' => absurd hi' (hnone i hi)).symm

theorem reached_of_optionAt (hall : ∀ i, Reached m acc p i → i < m.size → Whole m i ∧ acc i) (hi : OptionAt m p i) :
    Reached m acc p i := by
  -- the loop goes on from where it has come to
  have hsnoc : ∀ {q j}, Reached m acc q j → j < m.size → Whole m j → acc j → Reached m acc q (j + optionLen m.buf j) := by
    intro q j hj
    induction hj with
    | here q => exact fun h₁ h₂ h₃ => .next h₁ h₂ h₃ (.here _)
    | next h₁ h₂ h₃ _ ih => exact fun h₄ h₅ h₆ => .next h₁ h₂ h₃ (ih h₄ h₅ h₆)
  induction hi with
  | first => exact .here p
  | next _ hlt ih => exact hsnoc ih hlt (hall _ ih hlt).1 (hall _ ih hlt).2

theorem Reached.optionAt (hi : Reached m acc p i) : OptionAt m p i := by
  have hcons : ∀ {q j}, q < m.size → OptionAt m (q + optionLen m.buf q) j → OptionAt m q j := by
    intro q j hq hj
    induction hj with
    | first => exact .next .first hq
    | next _ hlt ih => exact .next ih hlt
  induction hi with
  | here q => exact .first
  | next hlt _ _ _ ih => exact hcons hlt ih

end

variable {m : Message} {i len : Nat}

/-! ## DIO -/

/-- The options that `dio_input` accepts. -/
def DioAccepts (buf : Mem) (i : Nat) : Prop :=
  buf i = optionDagMetricContainer ∧ 6 ≤ optionLen buf i ∧
      (buf (i + 2) = dagMcNone ∨ (buf (i + 2) = dagMcEtx ∨ buf (i + 2) = dagMcEnergy) ∧ 8 ≤ optionLen buf i) ∨
    buf i = optionRouteInfo ∧ 8 + prefixBytes (buf (i + 2)) ≤ optionLen buf i ∧ buf (i + 2) ≤ 128 ∨
    buf i = optionDagConf ∧ optionLen buf i = 16 ∨
    buf i = optionPrefixInfo ∧ optionLen buf i = 32 ∧ buf (i + 2) ≤ 128

theorem prefixBytes_le {length : UInt8} : prefixBytes length ≤ 16 ↔ length ≤ 128 := by
  rw [UInt8.le_iff_toNat_le]
  unfold prefixBytes
  show _ ↔ length.toNat ≤ 128
  omega

theorem dioMetricContainer_spec (t : Trace) (dio : Dio) (hend : i + len ≤ m.size) :
    ((dioMetricContainer m.buf i len t dio).2.isSome = true ↔
      6 ≤ len ∧ (m.buf (i + 2) = dagMcNone ∨ (m.buf (i + 2) = dagMcEtx ∨ m.buf (i + 2) = dagMcEnergy) ∧ 8 ≤ len)) ∧
    ((dioMetricContainer m.buf i len t dio).1.Inside m.size ↔ t.Inside m.size) := by
  unfold dioMetricContainer
  by_cases hlen : len < 6
  · rw [if_pos hlen]
    exact ⟨iff_of_false Bool.false_ne_true (by omega), Iff.rfl⟩
  · rw [if_neg hlen]
    dsimp only
    have hhead : (t.read (i + 2) 4).Inside m.size ↔ t.Inside m.size := by
      rw [inside_read]
      exact and_iff_left (.inr (by omega))
    have hobj : 8 ≤ len → (((t.read (i + 2) 4).read (i + 6) 2).Inside m.size ↔ t.Inside m.size) := fun h => by
      rw [inside_read, hhead]
      exact and_iff_left (.inr (by omega))
    split_ifs with hnone hetx hshort henergy hshort
    · exact ⟨iff_of_true rfl ⟨by omega, .inl hnone⟩, hhead⟩
    · exact ⟨iff_of_false Bool.false_ne_true (by rintro ⟨-, h | ⟨-, h⟩⟩ <;> [exact hnone h; omega]), hhead⟩
    · exact ⟨iff_of_true rfl ⟨by omega, .inr ⟨.inl hetx, by omega⟩⟩, hobj (by omega)⟩
    · exact ⟨iff_of_false Bool.false_ne_true (by rintro ⟨-, h | ⟨-, h⟩⟩ <;> [exact hnone h; omega]), hhead⟩
    · exact ⟨iff_of_true rfl ⟨by omega, .inr ⟨.inr henergy, by omega⟩⟩, hobj (by omega)⟩
    · exact ⟨iff_of_false Bool.false_ne_true (by rintro ⟨-, h | ⟨h | h, -⟩⟩ <;> [exact hnone h; exact hetx h; exact henergy h]), hhead⟩

theorem dioRouteInfo_spec (t : Trace) (dio : Dio) (hend : i + len ≤ m.size) :
    ((dioRouteInfo m.buf i len t dio).2.isSome = true ↔ 8 + prefixBytes (m.buf (i + 2)) ≤ len ∧ m.buf (i + 2) ≤ 128) ∧
    ((dioRouteInfo m.buf i len t dio).1.Inside m.size ↔ t.Inside m.size) := by
  unfold dioRouteInfo
  by_cases hlen : len < 8
  · rw [if_pos hlen]
    exact ⟨iff_of_false Bool.false_ne_true (by omega), Iff.rfl⟩
  · rw [if_neg hlen]
    dsimp only
    have hhead : (t.read (i + 2) 6).Inside m.size ↔ t.Inside m.size := by
      rw [inside_read]
      exact and_iff_left (.inr (by omega))
    split_ifs with hfit
    · refine ⟨iff_of_true rfl ⟨by omega, hfit.2⟩, ?_⟩
      rw [inside_copy, hhead]
      exact and_iff_left ⟨.inr (by omega), prefixBytes_le.2 hfit.2⟩
    · exact ⟨iff_of_false Bool.false_ne_true fun h => hfit ⟨by omega, h.2⟩, hhead⟩

theorem dioDagConf_spec (t : Trace) (dio : Dio) (hend : i + len ≤ m.size) :
    ((dioDagConf m.buf i len t dio).2.isSome = true ↔ len = 16) ∧
    ((dioDagConf m.buf i len t dio).1.Inside m.size ↔ t.Inside m.size) := by
  unfold dioDagConf
  split_ifs with hlen
  · exact ⟨iff_of_false Bool.false_ne_true hlen, Iff.rfl⟩
  · rw [not_not] at hlen
    refine ⟨iff_of_true rfl hlen, ?_⟩
    rw [inside_read, inside_read, and_assoc]
    exact and_iff_left ⟨.inr (by omega), .inr (by omega)⟩

theorem dioPrefixInfo_spec (t : Trace) (dio : Dio) (hend : i + len ≤ m.size) :
    ((dioPrefixInfo m.buf i len t dio).2.isSome = true ↔ len = 32 ∧ m.buf (i + 2) ≤ 128) ∧
    ((dioPrefixInfo m.buf i len t dio).1.Inside m.size ↔ t.Inside m.size) := by
  unfold dioPrefixInfo
  by_cases hlen : len = 32
  · rw [if_neg (not_not.2 hlen)]
    dsimp only
    have hhead : (t.read (i + 2) 1).Inside m.size ↔ t.Inside m.size := by
      rw [inside_read]
      exact and_iff_left (.inr (by omega))
    split_ifs with hlong
    · exact ⟨iff_of_false Bool.false_ne_true fun h => absurd hlong (UInt8.not_lt.2 h.2), hhead⟩
    · refine ⟨iff_of_true rfl ⟨hlen, UInt8.not_lt.1 hlong⟩, ?_⟩
      rw [inside_copy, inside_read, inside_read, hhead, and_assoc, and_assoc]
      exact and_iff_left ⟨.inr (by omega), .inr (by omega), .inr (by omega), le_rfl⟩
  · rw [if_pos hlen]
    exact ⟨iff_of_false Bool.false_ne_true fun h => hlen h.1, Iff.rfl⟩

theorem dio_switches (m : Message) : Switches m (dioOption m.buf) (DioAccepts m.buf) fun _ => True := by
  have hspec : ∀ i t dio, Whole m i →
      ((dioOption m.buf i (optionLen m.buf i) t dio).2.isSome = true ↔ DioAccepts m.buf i) ∧
      ((dioOption m.buf i (optionLen m.buf i) t dio).1.Inside m.size ↔ t.Inside m.size) := by
    rintro i t dio ⟨-, hend⟩
    unfold dioOption DioAccepts
    split_ifs with h₁ h₂ h₃ h₄
    · rw [h₁]
      simpa [optionDagMetricContainer, optionRouteInfo, optionDagConf, optionPrefixInfo] using dioMetricContainer_spec t dio hend
    · rw [h₂]
      simpa [optionDagMetricContainer, optionRouteInfo, optionDagConf, optionPrefixInfo] using dioRouteInfo_spec t dio hend
    · rw [h₃]
      simpa [optionDagMetricContainer, optionRouteInfo, optionDagConf, optionPrefixInfo] using dioDagConf_spec t dio hend
    · rw [h₄]
      simpa [optionDagMetricContainer, optionRouteInfo, optionDagConf, optionPrefixInfo] using dioPrefixInfo_spec t dio hend
    · simp [h₁, h₂, h₃, h₄]
  refine ⟨fun i t dio _ hw => (hspec i t dio hw).1, fun i t dio _ hw => ?_⟩
  rw [(hspec i t dio hw).2, and_true]

theorem DioAccepts.fits {buf : Mem} (h : DioAccepts buf i) : DioFits buf i := by
  constructor
  all_goals
    intro htype
    rcases h with ⟨ht, h⟩ | ⟨ht, h⟩ | ⟨ht, h⟩ | ⟨ht, h⟩
    -- an option has one type
    all_goals first | exact absurd (ht.symm.trans htype) (by decide) | skip
  · refine ⟨h.1, fun hobj => ?_⟩
    rcases h.2 with hnone | h
    · rw [hnone] at hobj
      exact absurd hobj (by decide)
    · exact h.2
  · exact h
  · exact h
  · exact h

theorem dio_safe (defaults : DagConf) (m : Message) : DioSafe defaults m := by
  unfold DioSafe dioInput
  by_cases hshort : m.size < 8 + 16
  · rw [if_pos hshort]
    exact ⟨_, rfl, inside_empty, fun _ => rfl⟩
  · rw [if_neg hshort]
    obtain ⟨r, hloop, hpassed, hinside⟩ := loop_options (dio_switches m) (m.size + 1)
      ⟨24, (Trace.empty.read 0 6).copy .dagId 8 16, dioBase defaults m.buf⟩ (by dsimp only; omega)
    dsimp only at hpassed hinside
    refine ⟨r, hloop, hinside.2 ⟨?_, fun _ _ _ _ => trivial⟩, ?_⟩
    · rw [inside_copy, inside_read]
      exact ⟨⟨inside_empty, .inr (by omega)⟩, .inr (by omega), le_rfl⟩
    · rintro ⟨i, hi, hlt, hnot⟩
      by_contra hsome
      have hall := hpassed.1 (Option.isSome_iff_ne_none.2 hsome)
      obtain ⟨hwhole, hacc⟩ := hall i (reached_of_optionAt hall hi) hlt
      exact hnot ⟨hwhole, hacc.fits⟩

/-! ## DAO -/

/-- The options that `dao_input` accepts. -/
def DaoAccepts (buf : Mem) (i : Nat) : Prop :=
  (buf i = optionTarget → 4 + prefixBytes (buf (i + 3)) = optionLen buf i) ∧ (buf i = optionTransit → 6 ≤ optionLen buf i)

/-- A target option with a prefix that is longer than an address. -/
def LongPrefix (buf : Mem) (i : Nat) : Prop := buf i = optionTarget ∧ 128 < buf (i + 3)

/-- A transit option whose length reaches into the parent address. -/
def ShortParent (buf : Mem) (i : Nat) : Prop := buf i = optionTransit ∧ (optionLen buf i = 20 ∨ optionLen buf i = 21)

/-- A DAO of the instance and the DAG of the node, with all of its base object. -/
structure ForUs (inst : Instance) (m : Message) : Prop where
  used : inst.used = true
  instanceId : inst.instanceId = m.buf 0
  base : 4 ≤ m.size
  dagId : hasDagId m.buf = true → 20 ≤ m.size ∧ inst.dagId = copyAddr m.buf 4 16 zeroAddr

/-- The message has a byte. Among the options up to the first one that is refused, none has a prefix that is longer than an
address; where the length of one reaches into the parent address, there are bytes enough, and a refused option follows. -/
structure DaoMeets (inst : Instance) (m : Message) : Prop where
  first : 0 < m.size
  options : ForUs inst m → ∀ i, Reached m (DaoAccepts m.buf) (daoOptions m.buf) i → i < m.size → Whole m i →
    DaoAccepts m.buf i → ¬LongPrefix m.buf i ∧ (ShortParent m.buf i → i + 22 ≤ m.size ∧
      ∃ j, Reached m (DaoAccepts m.buf) (daoOptions m.buf) j ∧ j < m.size ∧ ¬(Whole m j ∧ DaoAccepts m.buf j))

def DaoInside (m : Message) (i : Nat) : Prop :=
  (m.buf i = optionTarget → 4 + prefixBytes (m.buf (i + 3)) = optionLen m.buf i → m.buf (i + 3) ≤ 128) ∧
    (m.buf i = optionTransit → 20 ≤ optionLen m.buf i → i + 22 ≤ m.size)

theorem daoTarget_spec (t : Trace) (dao : Dao) (hend : i + len ≤ m.size) :
    ((daoTarget m.buf i len t dao).2.isSome = true ↔ 4 + prefixBytes (m.buf (i + 3)) = len) ∧
    ((daoTarget m.buf i len t dao).1.Inside m.size ↔
      t.Inside m.size ∧ (4 + prefixBytes (m.buf (i + 3)) = len → m.buf (i + 3) ≤ 128)) := by
  unfold daoTarget
  by_cases hlen : len < 4
  · rw [if_pos hlen]
    exact ⟨iff_of_false Bool.false_ne_true (by omega), (and_iff_left fun h => absurd h (by omega)).symm⟩
  · rw [if_neg hlen]
    dsimp only
    have hhead : (t.read (i + 3) 1).Inside m.size ↔ t.Inside m.size := by
      rw [inside_read]
      exact and_iff_left (.inr (by omega))
    split_ifs with hother
    · exact ⟨iff_of_false Bool.false_ne_true hother, hhead.trans (and_iff_left fun h => absurd h hother).symm⟩
    · rw [not_not] at hother
      refine ⟨iff_of_true rfl hother, ?_⟩
      rw [inside_copy, hhead]
      refine and_congr_right fun _ => ⟨fun h _ => prefixBytes_le.1 h.2, fun h => ⟨.inr (by omega), prefixBytes_le.2 (h hother)⟩⟩

theorem daoTransit_spec (t : Trace) (dao : Dao) (hend : i + len ≤ m.size) :
    ((daoTransit m.buf i len t dao).2.isSome = true ↔ 6 ≤ len) ∧
    ((daoTransit m.buf i len t dao).1.Inside m.size ↔ t.Inside m.size ∧ (20 ≤ len → i + 22 ≤ m.size)) := by
  unfold daoTransit
  by_cases hlen : len < 6
  · rw [if_pos hlen]
    exact ⟨iff_of_false Bool.false_ne_true (by omega), (and_iff_left fun h => absurd h (by omega)).symm⟩
  · rw [if_neg hlen]
    dsimp only
    have hhead : (t.read (i + 5) 1).Inside m.size ↔ t.Inside m.size := by
      rw [inside_read]
      exact and_iff_left (.inr (by omega))
    split_ifs with haddr
    · refine ⟨iff_of_true rfl (by omega), ?_⟩
      rw [inside_copy, hhead]
      refine and_congr_right fun _ => ⟨fun h _ => ?_, fun h => ⟨.inr ?_, le_rfl⟩⟩
      · have := h.1.resolve_left (by decide)
        omega
      · have := h haddr
        omega
    · exact ⟨iff_of_true rfl (by omega), hhead.trans (and_iff_left fun h => absurd h haddr).symm⟩

theorem dao_switches (m : Message) : Switches m (daoOption m.buf) (DaoAccepts m.buf) (DaoInside m) := by
  have hspec : ∀ i t dao, Whole m i →
      ((daoOption m.buf i (optionLen m.buf i) t dao).2.isSome = true ↔ DaoAccepts m.buf i) ∧
      ((daoOption m.buf i (optionLen m.buf i) t dao).1.Inside m.size ↔ t.Inside m.size ∧ DaoInside m i) := by
    rintro i t dao ⟨-, hend⟩
    unfold daoOption DaoAccepts DaoInside
    split_ifs with h₁ h₂
    · rw [h₁]
      simpa [optionTarget, optionTransit] using daoTarget_spec t dao hend
    · rw [h₂]
      simpa [optionTarget, optionTransit] using daoTransit_spec t dao hend
    · simp [h₁, h₂]
  exact ⟨fun i t dao _ hw => (hspec i t dao hw).1, fun i t dao _ hw => (hspec i t dao hw).2⟩

theorem daoInside_iff (hw : Whole m i) (hacc : DaoAccepts m.buf i) :
    DaoInside m i ↔ ¬LongPrefix m.buf i ∧ (ShortParent m.buf i → i + 22 ≤ m.size) := by
  have hend := hw.2
  unfold DaoInside LongPrefix ShortParent
  refine and_congr ?_ ?_
  · rw [not_and]
    constructor
    · rintro h htype
      exact UInt8.not_lt.2 (h htype (hacc.1 htype))
    · rintro h htype -
      exact UInt8.not_lt.1 (h htype)
  · constructor
    · rintro h ⟨htype, hlen⟩
      exact h htype (by omega)
    · rintro h htype hlen
      by_cases hshort : optionLen m.buf i = 20 ∨ optionLen m.buf i = 21
      · exact h ⟨htype, hshort⟩
      · omega

theorem daoInside_of_refused (hacc : ¬DaoAccepts m.buf i) : DaoInside m i := by
  constructor
  · rintro htype hlen
    refine absurd ⟨fun _ => hlen, fun h => ?_⟩ hacc
    exact absurd (htype.symm.trans h) (by decide)
  · rintro htype hlen
    refine absurd ⟨fun h => ?_, fun _ => by omega⟩ hacc
    exact absurd (htype.symm.trans h) (by decide)

theorem daoFits_iff : DaoFits m.buf i ↔ DaoAccepts m.buf i ∧ ¬LongPrefix m.buf i ∧ ¬ShortParent m.buf i := by
  unfold LongPrefix ShortParent
  constructor
  · rintro ⟨ht, hp⟩
    refine ⟨⟨fun h => (ht h).2.1, fun h => (hp h).1⟩, ?_, ?_⟩
    · rintro ⟨htype, hlong⟩
      exact UInt8.not_lt.2 (ht htype).2.2 hlong
    · rintro ⟨htype, hlen⟩
      have := (hp htype).2 (by omega)
      omega
  · rintro ⟨⟨ht, hp⟩, hlong, hshort⟩
    refine ⟨fun htype => ?_, fun htype => ⟨hp htype, fun hlen => ?_⟩⟩
    · have := ht htype
      exact ⟨by omega, this, UInt8.not_lt.1 fun h => hlong ⟨htype, h⟩⟩
    · by_contra hlt
      exact hshort ⟨htype, by omega⟩

/-- Unless the message is one for the node, it is discarded when its first bytes have been read. -/
theorem daoInput_other {inst : Instance} (hnot : ¬ForUs inst m) :
    ∃ t, daoInput inst (m.size + 1) m = some ⟨t, none⟩ ∧ (t.Inside m.size ↔ 0 < m.size) := by
  have hfirst : (Trace.empty.read 0 1).Inside m.size ↔ 0 < m.size := by
    rw [inside_read, and_iff_right inside_empty]
    omega
  unfold daoInput
  dsimp only
  by_cases hinst : inst.used = false ∨ inst.instanceId ≠ m.buf 0
  · rw [if_pos hinst]
    exact ⟨_, rfl, hfirst⟩
  rw [if_neg hinst]
  rw [not_or, not_not, Bool.not_eq_false] at hinst
  by_cases hbase : m.size < 4
  · rw [if_pos hbase]
    exact ⟨_, rfl, hfirst⟩
  rw [if_neg hbase]
  have hhead : (((Trace.empty.read 0 1).read 1 1).read 3 1).Inside m.size ↔ 0 < m.size := by
    rw [inside_read, inside_read, hfirst]
    omega
  by_cases hflag : hasDagId m.buf = true
  · rw [if_pos hflag]
    by_cases hlen : m.size < 4 + 16
    · rw [if_pos hlen]
      exact ⟨_, rfl, hhead⟩
    · rw [if_neg hlen, if_pos fun hid => hnot ⟨hinst.1, hinst.2, by omega, fun _ => ⟨by omega, hid⟩⟩]
      refine ⟨_, rfl, ?_⟩
      rw [inside_read, hhead]
      omega
  · exact absurd ⟨hinst.1, hinst.2, by omega, fun h => absurd h hflag⟩ hnot

theorem daoInput_forUs {inst : Instance} (hfor : ForUs inst m) : ∃ t : Trace, t.Inside m.size ∧
      daoInput inst (m.size + 1) m = loop (optionStep m (daoOption m.buf)) (m.size + 1) ⟨daoOptions m.buf, t, daoBase inst m.buf⟩ := by
  have hbase := hfor.base
  have hhead : (((Trace.empty.read 0 1).read 1 1).read 3 1).Inside m.size := by
    rw [inside_read, inside_read, inside_read]
    exact ⟨⟨⟨inside_empty, .inr (by omega)⟩, .inr (by omega)⟩, .inr (by omega)⟩
  unfold daoInput daoOptions
  dsimp only
  rw [if_neg (by rw [hfor.used, hfor.instanceId]; simp), if_neg (by omega)]
  by_cases hflag : hasDagId m.buf = true
  · obtain ⟨hlen, hid⟩ := hfor.dagId hflag
    rw [if_pos hflag, if_neg (by omega), if_neg (not_not.2 hid), if_pos hflag]
    exact ⟨_, inside_read.2 ⟨hhead, .inr (by omega)⟩, rfl⟩
  · rw [if_neg hflag, if_neg hflag]
    exact ⟨_, hhead, rfl⟩

theorem dao_safe (inst : Instance) (m : Message) : DaoSafe inst m ↔ DaoMeets inst m := by
  unfold DaoSafe
  by_cases hfor : ForUs inst m
  · obtain ⟨t, ht, heq⟩ := daoInput_forUs hfor
    obtain ⟨r, hloop, hpassed, hinside⟩ := loop_options (dao_switches m) (m.size + 1) ⟨daoOptions m.buf, t, daoBase inst m.buf⟩
      (by dsimp only; omega)
    dsimp only at hpassed hinside
    rw [heq, hloop]
    simp only [Option.some.injEq, exists_eq_left']
    rw [hinside, and_iff_right ht]
    have hpos : 0 < m.size := by
      have := hfor.base
      omega
    constructor
    · rintro ⟨hgood, hdiscards⟩
      refine ⟨hpos, fun _ i hi hlt hw hacc => ?_⟩
      obtain ⟨hlong, hshort⟩ := (daoInside_iff hw hacc).1 (hgood i hi hlt hw)
      refine ⟨hlong, fun hparent => ⟨hshort hparent, ?_⟩⟩
      -- the option does not fit, so that another one has to be refused
      have hnone := hdiscards ⟨i, hi.optionAt, hlt, fun hfits => (daoFits_iff.1 hfits.2).2.2 hparent⟩
      rw [hnone] at hpassed
      by_contra hall
      refine Bool.false_ne_true (hpassed.2 fun j hj hlt' => ?_)
      by_contra hrefused
      exact hall ⟨j, hj, hlt', hrefused⟩
    · rintro ⟨-, hmeets⟩
      refine ⟨fun i hi hlt hw => ?_, ?_⟩
      · by_cases hacc : DaoAccepts m.buf i
        · obtain ⟨hlong, hshort⟩ := hmeets hfor i hi hlt hw hacc
          exact (daoInside_iff hw hacc).2 ⟨hlong, fun hparent => (hshort hparent).1⟩
        · exact daoInside_of_refused hacc
      · rintro ⟨i, hi, hlt, hnot⟩
        by_contra hsome
        have hall := hpassed.1 (Option.isSome_iff_ne_none.2 hsome)
        have hreached := reached_of_optionAt hall hi
        obtain ⟨hw, hacc⟩ := hall i hreached hlt
        obtain ⟨hlong, hshort⟩ := hmeets hfor i hreached hlt hw hacc
        refine hnot ⟨hw, daoFits_iff.2 ⟨hacc, hlong, fun hparent => ?_⟩⟩
        obtain ⟨-, j, hj, hlt', hrefused⟩ := hshort hparent
        exact hrefused (hall j hj hlt')
  · obtain ⟨t, heq, ht⟩ := daoInput_other hfor
    rw [heq]
    simp only [Option.some.injEq, exists_eq_left', ht]
    constructor
    · rintro ⟨hpos, -⟩
      exact ⟨hpos, fun h => absurd h hfor⟩
    · rintro ⟨hpos, -⟩
      exact ⟨hpos, fun _ => rfl⟩

/-! ## All messages -/

theorem dao_ack_safe (inst : Instance) (m : Message) : DaoAckSafe inst m ↔ 4 ≤ m.size := by
  have hreads : (((Trace.empty.read 0 1).read 2 1).read 3 1).Inside m.size ↔ 4 ≤ m.size := by
    rw [inside_read, inside_read, inside_read, and_iff_right inside_empty]
    omega
  unfold DaoAckSafe daoAckInput
  dsimp only
  split_ifs
  · exact hreads
  · exact hreads

theorem dis_safe (inst : Instance) (m : Message) : DisSafe inst m := by
  unfold DisSafe disInput
  split_ifs
  · exact inside_empty
  · exact inside_empty

/-- Of the messages of RPL, the handlers of DIO and DIS read inside all, write inside their fields, end, and discard what
does not fit; that of DAO-ACK when the message has four bytes; and that of DAO exactly when none of its options is one
that it should refuse. -/
theorem rpl_input_safe (defaults : DagConf) (inst : Instance) (m : Message) :
    DioSafe defaults m ∧ DisSafe inst m ∧ (DaoAckSafe inst m ↔ 4 ≤ m.size) ∧ (DaoSafe inst m ↔ DaoMeets inst m) :=
  ⟨dio_safe defaults m, dis_safe inst m, dao_ack_safe inst m, dao_safe inst m⟩

def inInstance : Instance := ⟨true, 0, 30, zeroAddr⟩

def longTarget : Message := ⟨fun i => [0, 0, 0, 0, 5, 34, 0, 255].getD i 0, 40⟩

/-- An empty DAO, a DAO-ACK without its last byte and a DAO with a prefix of 255 bits. -/
theorem daoInput_outside : ¬DaoSafe inInstance ⟨fun _ => 0, 0⟩ ∧ ¬DaoAckSafe inInstance ⟨fun _ => 0, 3⟩ ∧
    ¬DaoSafe inInstance longTarget := by
  refine ⟨?_, ?_, ?_⟩
  · rw [dao_safe]
    rintro ⟨h, -⟩
    exact absurd h (by decide)
  · rw [dao_ack_safe]
    decide
  · rw [dao_safe]
    rintro ⟨-, h⟩
    have hfor : ForUs inInstance longTarget := ⟨rfl, by decide, by decide, fun h => absurd h (by decide)⟩
    refine (h hfor 4 (.here _) (by decide) ⟨.inr (by decide), by decide⟩ ⟨fun _ => by decide, fun h => absurd h (by decide)⟩).1 ?_
    exact ⟨by decide, by decide⟩

end Contiki.RplLite.Icmp6

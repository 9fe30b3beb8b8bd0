/-
The backup link beside the next active link. The links that lose to the best one are looked at as backup links; so is the
best link itself when the next one loses by the TX option or by the slotframe handle, because nothing is then stored as
the new best. It is reported as its own backup when it has the RX option and no other such link has displaced it.
-/
import Contiki.Tsch.NextActive

namespace Contiki.Tsch

open Contiki.Core Contiki.Lib

variable {A : Type} [DecidableEq A] {s : State A} {asn : Asn} {best l x y b : Nat} {u : Option Nat}
  {pre aft passed : List Nat}

/-! ## Preference -/

def packetsFor (s : State A) (l : Nat) : Nat :=
  match s.queues.nbr (s.sched.link l).addr with
  | none => 0
  | some n => n.txRingbuf.elements

/-- What the choice of the best link goes by: the rank, and among links with the TX option the number of packets. -/
def choice (s : State A) (l : Nat) : Nat ×ₗ Int :=
  toLex (rank s l, if (s.sched.link l).isTx then -(packetsFor s l : Int) else 0)

def handleOf (s : State A) (l : Nat) : Nat := (s.sched.link l).slotframeHandle.toNat

def hasRx (s : State A) (l : Nat) : Prop := (s.sched.link l).isRx = true

omit [DecidableEq A] in
theorem rank_eq (h : rank s x = rank s y) :
    (s.sched.link x).isTx = (s.sched.link y).isTx ∧ handleOf s x = handleOf s y := by
  have hx := (s.sched.link x).slotframeHandle.toNat_lt
  have hy := (s.sched.link y).slotframeHandle.toNat_lt
  unfold rank at h
  unfold handleOf
  cases htx : (s.sched.link x).isTx with
  | true =>
    cases hty : (s.sched.link y).isTx with
    | true => simpa [htx, hty] using h
    | false => simp [htx, hty] at h; omega
  | false =>
    cases hty : (s.sched.link y).isTx with
    | true => simp [htx, hty] at h; omega
    | false => simpa [htx, hty] using h

theorem tschLinkComparator_eq (s : State A) (h : rank s x = rank s y) :
    tschLinkComparator s x y = if choice s y < choice s x then y else x := by
  have htx := (rank_eq h).1
  have hlt : choice s y < choice s x ↔ (s.sched.link x).isTx = true ∧ packetsFor s x < packetsFor s y := by
    unfold choice
    rw [Prod.Lex.toLex_lt_toLex, h, htx]
    cases (s.sched.link y).isTx with
    | true => simp
    | false => simp
  unfold tschLinkComparator
  by_cases hx : (s.sched.link x).isTx = true
  · rw [if_neg (not_not.2 hx)]
    by_cases ha : (s.sched.link x).addr = (s.sched.link y).addr
    · have hsame : packetsFor s x = packetsFor s y := by
        unfold packetsFor
        rw [ha]
      rw [if_neg (not_not.2 ha), if_neg]
      rw [hlt, hsame]
      exact fun h => lt_irrefl _ h.2
    · rw [if_pos ha]
      show (if packetsFor s x ≥ packetsFor s y then x else y) = _
      by_cases hp : packetsFor s x ≥ packetsFor s y
      · rw [if_pos hp, if_neg (fun h => not_lt.2 hp (hlt.1 h).2)]
      · rw [if_neg hp, if_pos (hlt.2 ⟨hx, not_le.1 hp⟩)]
  · rw [if_pos hx, if_neg (fun h => hx (hlt.1 h).1)]

theorem overlap_cases (hne : l ≠ best) (u : Option Nat) :
    (choice s l < choice s best ∧ overlap s (best, u) l = (l, backupWith s u best)) ∨
    (rank s best < rank s l ∧ overlap s (best, u) l = (best, backupWith s (backupWith s u l) best)) ∨
    (rank s l = rank s best ∧ ¬ choice s l < choice s best ∧ overlap s (best, u) l = (best, backupWith s u l)) := by
  have hne' : some best ≠ some l := fun h => hne (Option.some.inj h).symm
  have hlex : choice s l < choice s best ↔ rank s l < rank s best ∨ rank s l = rank s best ∧ _ :=
    Prod.Lex.toLex_lt_toLex
  rcases newBest_cases s best l with ⟨hlt, he⟩ | ⟨hlt, he⟩ | ⟨heq, he⟩
  · refine .inl ⟨hlex.2 (.inl hlt), ?_⟩
    simp [overlap, he, hne]
  · refine .inr (.inl ⟨hlt, ?_⟩)
    simp [overlap, he]
  · rw [tschLinkComparator_eq s heq.symm] at he
    by_cases hc : choice s l < choice s best
    · rw [if_pos hc] at he
      exact .inl ⟨hc, by simp [overlap, he, hne]⟩
    · rw [if_neg hc] at he
      exact .inr (.inr ⟨heq, hc, by simp [overlap, he, hne']⟩)

/-! ## Looking at a backup link -/

omit [DecidableEq A] in
theorem backupWith_cases (s : State A) (u : Option Nat) (x : Nat) : (¬ hasRx s x ∧ backupWith s u x = u) ∨
    (hasRx s x ∧ (∀ b, u = some b → handleOf s x < handleOf s b) ∧ backupWith s u x = some x) ∨
    (hasRx s x ∧ ∃ b, u = some b ∧ handleOf s b ≤ handleOf s x ∧ backupWith s u x = u) := by
  unfold backupWith hasRx handleOf
  by_cases hrx : (s.sched.link x).isRx = true
  · rw [if_pos hrx]
    rcases u with - | b
    · exact .inr (.inl ⟨hrx, by rintro b ⟨⟩, rfl⟩)
    · dsimp only
      by_cases hlt : (s.sched.link x).slotframeHandle < (s.sched.link b).slotframeHandle
      · rw [if_pos hlt]
        refine .inr (.inl ⟨hrx, ?_, rfl⟩)
        rintro b ⟨⟩
        exact UInt16.lt_iff_toNat_lt.1 hlt
      · rw [if_neg hlt]
        rw [UInt16.lt_iff_toNat_lt, not_lt] at hlt
        exact .inr (.inr ⟨hrx, b, rfl, hlt, rfl⟩)
  · exact .inl ⟨hrx, if_neg hrx⟩

omit [DecidableEq A] in
theorem backupWith_le (s : State A) (u : Option Nat) (h : hasRx s x) :
    ∃ b, backupWith s u x = some b ∧ handleOf s b ≤ handleOf s x := by
  rcases backupWith_cases s u x with ⟨hrx, -⟩ | ⟨-, -, he⟩ | ⟨-, b, hb, hle, he⟩
  · exact absurd h hrx
  · exact ⟨x, he, le_rfl⟩
  · exact ⟨b, he.trans hb, hle⟩

omit [DecidableEq A] in
theorem backupWith_mono {n : Nat} (x : Nat) (h : ∃ b, u = some b ∧ handleOf s b ≤ n) :
    ∃ b, backupWith s u x = some b ∧ handleOf s b ≤ n := by
  obtain ⟨b, hb, hle⟩ := h
  rcases backupWith_cases s u x with ⟨-, he⟩ | ⟨-, hlt, he⟩ | ⟨-, -, -, -, he⟩
  · exact ⟨b, he.trans hb, hle⟩
  · exact ⟨x, he, (hlt b hb).le.trans hle⟩
  · exact ⟨b, he.trans hb, hle⟩

omit [DecidableEq A] in
theorem backupWith_eq (h : backupWith s u x = some b) : u = some b ∨ b = x ∧ hasRx s x := by
  rcases backupWith_cases s u x with ⟨-, he⟩ | ⟨hrx, -, he⟩ | ⟨-, -, -, -, he⟩
  · exact .inl (he.symm.trans h)
  · exact .inr ⟨Option.some.inj (h.symm.trans he), hrx⟩
  · exact .inl (he.symm.trans h)

omit [DecidableEq A] in
theorem backupWith_keeps (hne : b ≠ x) :
    backupWith s u x = some b ↔ u = some b ∧ (hasRx s x → handleOf s b ≤ handleOf s x) := by
  rcases backupWith_cases s u x with ⟨hrx, he⟩ | ⟨hrx, hlt, he⟩ | ⟨hrx, b', hb', hle, he⟩
  · rw [he]
    exact ⟨fun h => ⟨h, fun h => absurd h hrx⟩, fun h => h.1⟩
  · rw [he]
    constructor
    · intro h
      exact absurd (Option.some.inj h).symm hne
    · rintro ⟨hb, hle⟩
      exact absurd (hlt b hb) (not_lt.2 (hle hrx))
  · rw [he, hb']
    constructor
    · intro h
      exact ⟨h, fun _ => Option.some.inj h ▸ hle⟩
    · exact fun h => h.1

omit [DecidableEq A] in
theorem backupWith_self :
    backupWith s u x = some x ↔ u = some x ∨ hasRx s x ∧ ∀ b, u = some b → handleOf s x < handleOf s b := by
  rcases backupWith_cases s u x with ⟨hrx, he⟩ | ⟨hrx, hlt, he⟩ | ⟨-, b', hb', hle, he⟩
  · rw [he]
    exact ⟨.inl, fun h => h.elim id fun h => absurd h.1 hrx⟩
  · rw [he]
    exact ⟨fun _ => .inr ⟨hrx, hlt⟩, fun _ => rfl⟩
  · rw [he]
    constructor
    · exact .inl
    · rintro (h | ⟨-, h⟩)
      · exact h
      · exact absurd (h b' hb') (not_lt.2 hle)

/-! ## The best link as its own backup -/

def LeaksAt (s : State A) (pre : List Nat) (best : Nat) (aft : List Nat) : Prop :=
  hasRx s best ∧ ∃ mid l post, aft = mid ++ l :: post ∧ (∀ x ∈ mid, ¬ rank s best < rank s x) ∧
    rank s best < rank s l ∧ (∀ x ∈ pre ++ mid ++ [l], hasRx s x → handleOf s best < handleOf s x) ∧
    ∀ x ∈ post, hasRx s x → handleOf s best ≤ handleOf s x

/-- Of the links, the first one with the best choice is such a link. -/
def Leaks (s : State A) (links : List Nat) : Prop :=
  ∃ pre best aft, FirstLeast (choice s) links pre best aft ∧ LeaksAt s pre best aft

theorem append_singleton_split {mid post : List Nat} (h : aft ++ [l] = mid ++ x :: post) :
    (mid = aft ∧ x = l ∧ post = []) ∨ ∃ post', post = post' ++ [l] ∧ aft = mid ++ x :: post' := by
  rcases List.eq_nil_or_concat post with rfl | ⟨post, y, rfl⟩
  · obtain ⟨haft, hlast⟩ := List.append_inj' h rfl
    exact .inl ⟨haft.symm, (List.singleton_inj.1 hlast).symm, rfl⟩
  · rw [List.concat_eq_append, ← List.cons_append, ← List.append_assoc] at h
    obtain ⟨haft, hlast⟩ := List.append_inj' h rfl
    exact .inr ⟨post, by rw [List.concat_eq_append, List.singleton_inj.1 hlast], haft⟩

omit [DecidableEq A] in
theorem leaksAt_snoc_of_loser (h : ∃ x ∈ aft, rank s best < rank s x) :
    LeaksAt s pre best (aft ++ [l]) ↔ LeaksAt s pre best aft ∧ (hasRx s l → handleOf s best ≤ handleOf s l) := by
  constructor
  · rintro ⟨hrx, mid, x, post, he, hmid, hlt, hbefore, hafter⟩
    rcases append_singleton_split he with ⟨rfl, -, -⟩ | ⟨post, rfl, rfl⟩
    · obtain ⟨z, hz, hlt⟩ := h
      exact absurd hlt (hmid z hz)
    · refine ⟨⟨hrx, mid, x, post, rfl, hmid, hlt, hbefore, ?_⟩, hafter l (by simp)⟩
      exact fun z hz => hafter z (by simp [hz])
  · rintro ⟨⟨hrx, mid, x, post, rfl, hmid, hlt, hbefore, hafter⟩, hl⟩
    refine ⟨hrx, mid, x, post ++ [l], by simp, hmid, hlt, hbefore, ?_⟩
    intro z hz
    rcases List.mem_append.1 hz with hz | hz
    · exact hafter z hz
    · rw [List.mem_singleton.1 hz]
      exact hl

omit [DecidableEq A] in
theorem leaksAt_snoc_first (h : ∀ x ∈ aft, ¬ rank s best < rank s x) (hl : rank s best < rank s l) :
    LeaksAt s pre best (aft ++ [l]) ↔
      hasRx s best ∧ ∀ x ∈ pre ++ aft ++ [l], hasRx s x → handleOf s best < handleOf s x := by
  constructor
  · rintro ⟨hrx, mid, x, post, he, -, hlt, hbefore, -⟩
    rcases append_singleton_split he with ⟨rfl, rfl, -⟩ | ⟨post, -, rfl⟩
    · exact ⟨hrx, hbefore⟩
    · exact absurd hlt (h x (by simp))
  · rintro ⟨hrx, hbefore⟩
    exact ⟨hrx, aft, l, [], rfl, h, hl, hbefore, by simp⟩

omit [DecidableEq A] in
theorem leaksAt_snoc_tie (hl : ¬ rank s best < rank s l) (hle : handleOf s best ≤ handleOf s l) :
    LeaksAt s pre best (aft ++ [l]) ↔ LeaksAt s pre best aft := by
  by_cases h : ∃ x ∈ aft, rank s best < rank s x
  · rw [leaksAt_snoc_of_loser h]
    exact ⟨fun h => h.1, fun h => ⟨h, fun _ => hle⟩⟩
  · constructor
    · rintro ⟨-, mid, x, post, he, -, hlt, -⟩
      have hx : x ∈ aft ++ [l] := he ▸ by simp
      rcases List.mem_append.1 hx with hx | hx
      · exact absurd ⟨x, hx, hlt⟩ h
      · rw [List.mem_singleton.1 hx] at hlt
        exact absurd hlt hl
    · rintro ⟨-, mid, x, post, rfl, -, hlt, -⟩
      exact absurd ⟨x, by simp, hlt⟩ h

/-- What the pass over the links `passed` keeps of the best link and the backup link. -/
structure Kept (s : State A) (passed pre : List Nat) (best : Nat) (aft : List Nat) (u : Option Nat) : Prop where
  first : FirstLeast (choice s) passed pre best aft
  backup : ∀ b, u = some b → b ∈ passed ∧ hasRx s b
  others : ∀ x ∈ pre ++ aft, hasRx s x → ∃ b, u = some b ∧ handleOf s b ≤ handleOf s x
  considered : hasRx s best → (∃ x ∈ aft, rank s best < rank s x) → ∃ b, u = some b ∧ handleOf s b ≤ handleOf s best
  leak : u = some best ↔ LeaksAt s pre best aft

omit [DecidableEq A] in
theorem kept_singleton (s : State A) (l : Nat) : Kept s [l] [] l [] none where
  first := firstLeast_singleton l
  backup := by simp
  others := by simp
  considered := by simp
  leak := by simp [LeaksAt]

/-! ## One more link -/

omit [DecidableEq A] in
theorem Kept.below (h : Kept s passed pre best aft u) (hl : l ∉ passed) (hlt : choice s l < choice s best) :
    Kept s (passed ++ [l]) passed l [] (backupWith s u best) where
  first := h.first.below hlt
  backup := by
    intro b hb
    rcases backupWith_eq hb with hb | ⟨rfl, hrx⟩
    · exact ⟨List.mem_append_left _ (h.backup b hb).1, (h.backup b hb).2⟩
    · exact ⟨List.mem_append_left _ h.first.mem, hrx⟩
  others := by
    intro x hx hrx
    rw [List.append_nil] at hx
    rcases h.first.mem_iff.1 hx with rfl | hx
    · exact backupWith_le s u hrx
    · exact backupWith_mono best (h.others x hx hrx)
  considered := by simp
  leak := by
    have hnot : backupWith s u best ≠ some l := by
      intro he
      rcases backupWith_eq he with hb | ⟨rfl, -⟩
      · exact hl (h.backup l hb).1
      · exact hl h.first.mem
    constructor
    · exact fun he => absurd he hnot
    · rintro ⟨-, mid, x, post, he, -⟩
      simp at he

omit [DecidableEq A] in
theorem Kept.behind (h : Kept s passed pre best aft u) (hl : l ∉ passed) (hlt : rank s best < rank s l)
    (hnot : ¬ choice s l < choice s best) :
    Kept s (passed ++ [l]) pre best (aft ++ [l]) (backupWith s (backupWith s u l) best) where
  first := h.first.notBelow hnot
  backup := by
    intro b hb
    rcases backupWith_eq hb with hb | ⟨rfl, hrx⟩
    · rcases backupWith_eq hb with hb | ⟨rfl, hrx⟩
      · exact ⟨List.mem_append_left _ (h.backup b hb).1, (h.backup b hb).2⟩
      · exact ⟨List.mem_append_right _ List.mem_cons_self, hrx⟩
    · exact ⟨List.mem_append_left _ h.first.mem, hrx⟩
  others := by
    intro x hx hrx
    rw [← List.append_assoc] at hx
    rcases List.mem_append.1 hx with hx | hx
    · exact backupWith_mono best (backupWith_mono l (h.others x hx hrx))
    · rw [List.mem_singleton.1 hx] at hrx ⊢
      exact backupWith_mono best (backupWith_le s u hrx)
  considered := fun hrx _ => backupWith_le s _ hrx
  leak := by
    have hne : best ≠ l := fun he => hl (he ▸ h.first.mem)
    rw [backupWith_self, backupWith_keeps hne]
    by_cases hloser : ∃ x ∈ aft, rank s best < rank s x
    · rw [leaksAt_snoc_of_loser hloser, ← h.leak]
      constructor
      · rintro (hkept | ⟨hrx, habove⟩)
        · exact hkept
        · -- the best link was looked at before, so that the backup link is not above it
          obtain ⟨b, hb, hle⟩ := backupWith_mono l (h.considered hrx hloser)
          exact absurd (habove b hb) (not_lt.2 hle)
      · exact .inl
    · have hnone : u ≠ some best := by
        intro hu
        obtain ⟨-, mid, x, post, rfl, -, hx, -⟩ := h.leak.1 hu
        exact hloser ⟨x, by simp, hx⟩
      rw [leaksAt_snoc_first (fun x hx hlt => hloser ⟨x, hx, hlt⟩) hlt]
      constructor
      · rintro (⟨hu, -⟩ | ⟨hrx, habove⟩)
        · exact absurd hu hnone
        · refine ⟨hrx, fun x hx hx' => ?_⟩
          have hb : ∃ b, backupWith s u l = some b ∧ handleOf s b ≤ handleOf s x := by
            rcases List.mem_append.1 hx with hx | hx
            · exact backupWith_mono l (h.others x hx hx')
            · rw [List.mem_singleton.1 hx] at hx' ⊢
              exact backupWith_le s u hx'
          obtain ⟨b, hb, hle⟩ := hb
          exact (habove b hb).trans_le hle
      · rintro ⟨hrx, hbefore⟩
        refine .inr ⟨hrx, fun b hb => ?_⟩
        rcases backupWith_eq hb with hu | ⟨rfl, hrx'⟩
        · obtain ⟨hmem, hrx'⟩ := h.backup b hu
          rcases h.first.mem_iff.1 hmem with rfl | hmem
          · exact absurd hu hnone
          · exact hbefore b (List.mem_append_left _ hmem) hrx'
        · exact hbefore b (by simp) hrx'

omit [DecidableEq A] in
theorem Kept.tie (h : Kept s passed pre best aft u) (hl : l ∉ passed) (heq : rank s l = rank s best)
    (hnot : ¬ choice s l < choice s best) :
    Kept s (passed ++ [l]) pre best (aft ++ [l]) (backupWith s u l) where
  first := h.first.notBelow hnot
  backup := by
    intro b hb
    rcases backupWith_eq hb with hb | ⟨rfl, hrx⟩
    · exact ⟨List.mem_append_left _ (h.backup b hb).1, (h.backup b hb).2⟩
    · exact ⟨List.mem_append_right _ List.mem_cons_self, hrx⟩
  others := by
    intro x hx hrx
    rw [← List.append_assoc] at hx
    rcases List.mem_append.1 hx with hx | hx
    · exact backupWith_mono l (h.others x hx hrx)
    · rw [List.mem_singleton.1 hx] at hrx ⊢
      exact backupWith_le s u hrx
  considered := by
    rintro hrx ⟨x, hx, hlt⟩
    rcases List.mem_append.1 hx with hx | hx
    · exact backupWith_mono l (h.considered hrx ⟨x, hx, hlt⟩)
    · rw [List.mem_singleton.1 hx, heq] at hlt
      exact absurd hlt (lt_irrefl _)
  leak := by
    have hne : best ≠ l := fun he => hl (he ▸ h.first.mem)
    have hle : handleOf s best ≤ handleOf s l := (rank_eq heq).2.ge
    rw [backupWith_keeps hne, leaksAt_snoc_tie (not_lt.2 heq.le) hle, ← h.leak]
    exact ⟨fun h => h.1, fun h => ⟨h, fun _ => hle⟩⟩

theorem Kept.round (h : Kept s passed pre best aft u) (hl : l ∉ passed) :
    ∃ pre' aft', Kept s (passed ++ [l]) pre' (overlap s (best, u) l).1 aft' (overlap s (best, u) l).2 := by
  have hne : l ≠ best := fun he => hl (he ▸ h.first.mem)
  rcases overlap_cases (s := s) hne u with ⟨hlt, he⟩ | ⟨hlt, he⟩ | ⟨heq, hnot, he⟩
  · rw [he]
    exact ⟨_, _, h.below hl hlt⟩
  · rw [he]
    refine ⟨_, _, h.behind hl hlt fun hc => ?_⟩
    rcases Prod.Lex.toLex_lt_toLex.1 hc with hc | ⟨hc, -⟩
    · exact lt_asymm hlt hc
    · exact hlt.ne' hc
  · rw [he]
    exact ⟨_, _, h.tie hl heq hnot⟩

theorem Kept.foldl : ∀ (rest : List Nat) {passed pre aft : List Nat} {c : Nat × Option Nat},
    Kept s passed pre c.1 aft c.2 → (passed ++ rest).Nodup →
    ∃ pre' aft', Kept s (passed ++ rest) pre' (rest.foldl (overlap s) c).1 aft'
      (rest.foldl (overlap s) c).2
  | [], passed, pre, aft, _, h, _ => ⟨pre, aft, by rwa [List.append_nil]⟩
  | l :: rest, passed, _, _, c, h, hn => by
    have hl : l ∉ passed := fun hl => (List.nodup_append.1 hn).2.2 l hl l List.mem_cons_self rfl
    obtain ⟨pre', aft', h'⟩ := h.round hl
    rw [List.append_cons] at hn ⊢
    exact Kept.foldl rest h' hn

/-! ## The backup link -/

omit [DecidableEq A] in
theorem Schedule.Inv.activeAt_nodup {s : Schedule A} (h : s.Inv) (n : Nat) : (s.activeAt n).Nodup := by
  have hsub : ((s.places.filter (s.comes n)).map Prod.snd).Sublist s.links := by
    rw [← places_links]
    exact List.filter_sublist.map _
  exact hsub.nodup h.links.nodup

/-- The backup link is another link active at the same slot, with the RX option and the lowest slotframe handle of all
such links, and there is one if there are such links. -/
def BackupRight (s : State A) (asn : Asn) (r : NextActive) : Prop :=
  (r.link = none → r.backupLink = none) ∧
  ∀ best d, r.link = some best → r.timeOffset = some d →
    (∀ b, r.backupLink = some b → b ≠ best ∧ b ∈ s.sched.activeAt (asn.toNat + d) ∧ hasRx s b ∧
      ∀ l ∈ s.sched.activeAt (asn.toNat + d), l ≠ best → hasRx s l → handleOf s b ≤ handleOf s l) ∧
    (r.backupLink = none → ∀ l ∈ s.sched.activeAt (asn.toNat + d), l ≠ best → ¬ hasRx s l)

omit [DecidableEq A] in
/-- The backup link is right unless it is the best link. -/
theorem Kept.right_iff {d : Nat} {r : NextActive} (h : Kept s (s.sched.activeAt (asn.toNat + d)) pre best aft u)
    (hr : r = ⟨some best, some d, u⟩) : BackupRight s asn r ↔ u ≠ some best := by
  subst hr
  constructor
  · rintro ⟨-, hright⟩ hu
    exact ((hright best d rfl rfl).1 best hu).1 rfl
  · intro hu
    refine ⟨by rintro ⟨⟩, ?_⟩
    intro best' d' hbest hd
    obtain rfl := Option.some.inj hbest
    obtain rfl := Option.some.inj hd
    have hothers : ∀ l ∈ s.sched.activeAt (asn.toNat + d), l ≠ best → hasRx s l →
        ∃ b, u = some b ∧ handleOf s b ≤ handleOf s l := by
      intro l hl hne hrx
      exact h.others l ((h.first.mem_iff.1 hl).resolve_left hne) hrx
    constructor
    · rintro b rfl
      refine ⟨fun he => hu (congrArg some he), (h.backup b rfl).1, (h.backup b rfl).2, fun l hl hne hrx => ?_⟩
      obtain ⟨b', ⟨⟩, hle⟩ := hothers l hl hne hrx
      exact hle
    · rintro rfl l hl hne hrx
      obtain ⟨b, ⟨⟩, -⟩ := hothers l hl hne hrx

/-- The backup link is right exactly when the schedule is locked or the best of the links that are active next is not
such that it becomes its own backup. -/
theorem backup_link (s : State A) (h : s.sched.Valid) (locked : Bool) (asn : Asn) :
    BackupRight s asn (tschScheduleGetNextActiveLink locked s asn) ↔
      locked = true ∨ ∀ d, 0 < d → (∀ k, 0 < k → k < d → s.sched.activeAt (asn.toNat + k) = []) →
        ¬ Leaks s (s.sched.activeAt (asn.toNat + d)) := by
  unfold tschScheduleGetNextActiveLink
  cases locked with
  | true => exact ⟨fun _ => .inl rfl, fun _ => ⟨fun _ => rfl, by rintro best d ⟨⟩⟩⟩
  | false =>
    rw [if_neg (by decide)]
    simp only [Bool.false_eq_true, false_or]
    obtain ⟨hnone, hnil⟩ | ⟨b, first, rest, hb, hpos, hactive, hfold, hbefore, -⟩ := nextActive_spec h asn
    · rw [hnone]
      constructor
      · rintro - d - - ⟨pre, best, aft, hfirst, -⟩
        obtain ⟨sf, hsf, hl, -⟩ := mem_activeAt.1 hfirst.mem
        have hlinks : best ∈ s.sched.links := mem_links.2 ⟨sf, hsf, hl⟩
        rw [hnil] at hlinks
        cases hlinks
      · exact fun _ => ⟨fun _ => rfl, by rintro best d ⟨⟩⟩
    · rw [hb]
      have hnodup := h.inv.activeAt_nodup (asn.toNat + b.time)
      rw [hactive] at hnodup
      obtain ⟨pre, aft, hkept⟩ := Kept.foldl (s := s) rest (c := (first, none)) (kept_singleton s first) hnodup
      rw [← hfold, List.singleton_append, ← hactive] at hkept
      rw [hkept.right_iff rfl, ne_eq, hkept.leak]
      constructor
      · rintro hnot d hd hempty ⟨pre', best', aft', hfirst, hleak⟩
        rcases Nat.lt_trichotomy d b.time with hlt | rfl | hlt
        · rw [hbefore d hd hlt] at hfirst
          cases hfirst.mem
        · obtain ⟨rfl, rfl, rfl⟩ := hkept.first.unique hfirst
          exact hnot hleak
        · rw [hempty b.time hpos hlt] at hactive
          cases hactive
      · exact fun hnot hleak => hnot b.time hpos hbefore ⟨pre, b.best, aft, hkept.first, hleak⟩

theorem backup_link_sameTimeslot : (stateAfter sameTimeslot).sched.Valid ∧ (BackupRight (stateAfter sameTimeslot) ⟨0, 0⟩
        (tschScheduleGetNextActiveLink false (stateAfter sameTimeslot) ⟨0, 0⟩) ↔
      false = true ∨ ∀ d, 0 < d → (∀ k, 0 < k → k < d →
        (stateAfter sameTimeslot).sched.activeAt ((⟨0, 0⟩ : Asn).toNat + k) = []) →
          ¬ Leaks (stateAfter sameTimeslot) ((stateAfter sameTimeslot).sched.activeAt ((⟨0, 0⟩ : Asn).toNat + d))) :=
  ⟨stateAfter_valid sameTimeslot, backup_link _ (stateAfter_valid sameTimeslot) false ⟨0, 0⟩⟩

/-- The link that sends and receives is its own backup, and the one that receives is not looked at again. -/
theorem best_is_own_backup : (stateAfter sameTimeslot).sched.Valid ∧ ¬ BackupRight (stateAfter sameTimeslot) ⟨0, 0⟩
      (tschScheduleGetNextActiveLink false (stateAfter sameTimeslot) ⟨0, 0⟩) := by
  refine ⟨stateAfter_valid sameTimeslot, ?_⟩
  have hcall : tschScheduleGetNextActiveLink false (stateAfter sameTimeslot) ⟨0, 0⟩ = ⟨some 0, some 2, some 0⟩ := by
    decide
  rw [hcall]
  rintro ⟨-, hright⟩
  exact ((hright 0 2 rfl rfl).1 0 rfl).1 rfl

end Contiki.Tsch

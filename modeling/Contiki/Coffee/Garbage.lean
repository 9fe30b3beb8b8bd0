/-
Garbage collection: in greedy mode `collect_garbage` makes all pages of the sectors free that have obsolete pages and no
active ones, and isolates what an obsolete extent that begins in such a sector has in the first sector that stays. An
obsolete extent that begins in a sector that stays must not reach into one that goes: its header would go on to cover
pages that are free.
-/
import Contiki.Coffee.Sectors

namespace Contiki.Coffee

open Contiki.Lib Layout

variable {c : Config}

/-! ## The layout behind a collection -/

namespace Layout

variable (l : Layout c)

def Reclaimed (k : Int) : Prop := ¬l.HasActive k ∧ l.HasObsolete k

/-- An obsolete extent that begins in a sector with active pages meets active pages in all its sectors. -/
def Clean : Prop :=
  ∀ a n, InStore c a → l.kind a = .extent a n false → l.HasActive (c.sectorOf a) →
    ∀ q, a ≤ q → q < a + n → l.HasActive (c.sectorOf q)

variable {l} {p a n k : Int} {act : Bool}

theorem Clean.reclaimed_iff (h : l.Clean) (hp : InStore c p) (hkind : l.kind p = .extent a n false)
    (hgone : l.Reclaimed (c.sectorOf p)) : l.Reclaimed (c.sectorOf a) := by
  obtain ⟨hentry, hstart⟩ := entry_start hp hkind
  have hin := l.extent_in hp hkind
  have ha : InStore c a := hentry.inStore (by omega)
  refine ⟨fun hact => hgone.1 (h a n ha hstart hact p hin.2.1 hin.2.2.1), a, ha, rfl, ?_⟩
  rw [hstart]
  rfl

theorem reclaimed_of_covered (hp : InStore c p) (hkind : l.kind p = .extent a n false) (hk₀ : 0 ≤ k)
    (hstart : c.sectorOf a < k) (hend : c.sectorStart (k + 1) ≤ a + n) : l.Reclaimed k := by
  have hin := l.extent_in hp hkind
  have hlt : a < c.sectorStart k := by
    have := c.sectorStart_mono (show c.sectorOf a + 1 ≤ k by omega)
    have := (c.sectorOf_eq_iff.1 (rfl : c.sectorOf a = _)).2
    omega
  have hall : ∀ q, c.sectorOf q = k → l.kind q = .extent a n false := by
    intro q hq
    obtain ⟨h₁, h₂⟩ := c.sectorOf_eq_iff.1 hq
    exact l.extent_all hp hkind (by omega) (by omega)
  have hzero := c.sectorStart_mono hk₀
  have hsucc := c.sectorStart_succ k
  have hpos := c.pagesPerSector_pos
  rw [c.sectorStart_zero] at hzero
  refine ⟨?_, c.sectorStart k, ⟨hzero, by omega⟩, c.sectorOf_sectorStart k, ?_⟩
  · rintro ⟨q, -, hq, hact⟩
    rw [hall q hq] at hact
    cases hact
  · rw [hall _ (c.sectorOf_sectorStart k)]
    rfl

open Classical in
variable (l) in
/-- What a page is for behind a collection. -/
noncomputable def collectedKind (p : Int) : Kind :=
  if l.Reclaimed (c.sectorOf p) then .free
  else match l.kind p with
    | .extent a n act => if act = false ∧ l.Reclaimed (c.sectorOf a) then .isolated else .extent a n act
    | k => k

theorem collected_reclaimed (h : l.Reclaimed (c.sectorOf p)) : l.collectedKind p = .free := if_pos h

theorem collected_free (h : l.kind p = .free) : l.collectedKind p = .free := by
  unfold collectedKind
  split_ifs
  · rfl
  · rw [h]

theorem collected_isolated (h : l.kind p = .isolated) (hk : ¬l.Reclaimed (c.sectorOf p)) :
    l.collectedKind p = .isolated := by
  unfold collectedKind
  rw [if_neg hk, h]

theorem collected_cut (h : l.kind p = .extent a n false) (hk : ¬l.Reclaimed (c.sectorOf p))
    (ha : l.Reclaimed (c.sectorOf a)) : l.collectedKind p = .isolated := by
  unfold collectedKind
  rw [if_neg hk, h]
  exact if_pos ⟨rfl, ha⟩

theorem collected_extent (h : l.kind p = .extent a n act) (hk : ¬l.Reclaimed (c.sectorOf p))
    (ha : ¬(act = false ∧ l.Reclaimed (c.sectorOf a))) : l.collectedKind p = .extent a n act := by
  unfold collectedKind
  rw [if_neg hk, h]
  exact if_neg ha

theorem collected_eq_free : l.collectedKind p = .free ↔ l.kind p = .free ∨ l.Reclaimed (c.sectorOf p) := by
  constructor
  · intro h
    by_contra hnot
    rw [not_or] at hnot
    cases hkind : l.kind p with
    | free => exact hnot.1 hkind
    | isolated =>
      rw [collected_isolated hkind hnot.2] at h
      cases h
    | extent a n act =>
      by_cases ha : act = false ∧ l.Reclaimed (c.sectorOf a)
      · rw [collected_cut (ha.1 ▸ hkind) hnot.2 ha.2] at h
        cases h
      · rw [collected_extent hkind hnot.2 ha] at h
        cases h
  · rintro (h | h)
    · exact collected_free h
    · exact collected_reclaimed h

theorem collected_eq_extent (h : l.collectedKind p = .extent a n act) :
    l.kind p = .extent a n act ∧ ¬l.Reclaimed (c.sectorOf p) ∧ ¬(act = false ∧ l.Reclaimed (c.sectorOf a)) := by
  by_cases hk : l.Reclaimed (c.sectorOf p)
  · rw [collected_reclaimed hk] at h
    cases h
  cases hkind : l.kind p with
  | free =>
    rw [collected_free hkind] at h
    cases h
  | isolated =>
    rw [collected_isolated hkind hk] at h
    cases h
  | extent a' n' act' =>
    by_cases ha : act' = false ∧ l.Reclaimed (c.sectorOf a')
    · rw [collected_cut (ha.1 ▸ hkind) hk ha.2] at h
      cases h
    · rw [collected_extent hkind hk ha] at h
      cases h
      exact ⟨rfl, hk, ha⟩

theorem collected_isObsolete (h : (l.collectedKind p).isObsolete = true) : (l.kind p).isObsolete = true := by
  cases hkind : l.collectedKind p with
  | free =>
    rw [hkind] at h
    cases h
  | isolated =>
    by_contra hnot
    rw [Bool.not_eq_true] at hnot
    have hk : ¬l.Reclaimed (c.sectorOf p) := by
      intro hk
      rw [collected_reclaimed hk] at hkind
      cases hkind
    cases hp : l.kind p with
    | free =>
      rw [collected_free hp] at hkind
      cases hkind
    | isolated =>
      rw [hp] at hnot
      cases hnot
    | extent a n act =>
      rw [hp] at hnot
      have ha : ¬(act = false ∧ l.Reclaimed (c.sectorOf a)) := by
        rintro ⟨rfl, -⟩
        cases hnot
      rw [collected_extent hp hk ha] at hkind
      cases hkind
  | extent a n act =>
    rw [hkind] at h
    rw [(collected_eq_extent hkind).1]
    exact h

variable (l) in
noncomputable def collected (h : l.Clean) : Layout c where
  kind := l.collectedKind
  extent_in hp hkind := l.extent_in hp (collected_eq_extent hkind).1
  extent_all {p q a n act} hp hkind hle hlt := by
    obtain ⟨hkind, hstays, hstart⟩ := collected_eq_extent hkind
    have hq := l.extent_all hp hkind hle hlt
    have hin := l.extent_in hp hkind
    have hq' : InStore c q := ⟨by omega, by omega⟩
    refine collected_extent hq (fun hgone => ?_) hstart
    cases act with
    | true => exact hgone.1 ⟨q, hq', rfl, by rw [hq]; rfl⟩
    | false => exact hstart ⟨rfl, h.reclaimed_iff hq' hq hgone⟩
  free_rest {p q} hp hkind hle hlt := by
    have hs := c.sectorOf_between hle hlt
    rcases collected_eq_free.1 hkind with hfree | hgone
    · exact collected_free (l.free_rest hp hfree hle hlt)
    · exact collected_reclaimed (hs ▸ hgone)

@[simp] theorem collected_kind (h : l.Clean) : (l.collected h).kind p = l.collectedKind p := rfl

theorem not_reclaimed_collected (h : l.Clean) : ¬(l.collected h).Reclaimed k := by
  rintro ⟨hnone, p, hp, hs, hobs⟩
  rw [collected_kind] at hobs
  have hstays : ¬l.Reclaimed k := by
    intro hgone
    rw [collected_reclaimed (hs.symm ▸ hgone)] at hobs
    cases hobs
  have hactive : l.HasActive k := by
    by_contra hactive
    exact hstays ⟨hactive, p, hp, hs, collected_isObsolete hobs⟩
  obtain ⟨q, hq, hsq, hact⟩ := hactive
  obtain ⟨a, n, hkind⟩ := Kind.isActive_iff.1 hact
  refine hnone ⟨q, hq, hsq, Kind.isActive_iff.2 ⟨a, n, ?_⟩⟩
  exact collected_extent hkind (hsq.symm ▸ hstays) fun h => Bool.false_ne_true h.1.symm

theorem collected_of_not_reclaimed (hnone : ∀ k, ¬l.Reclaimed k) : l.collectedKind p = l.kind p := by
  cases hkind : l.kind p with
  | free => exact collected_free hkind
  | isolated => exact collected_isolated hkind (hnone _)
  | extent a n act => exact collected_extent hkind (hnone _) fun h => hnone _ h.2

end Layout

/-! ## Isolating and erasing -/

variable {l : Layout c} {m : Mem} {p q a n k : Int} {act : Bool}

theorem isolatedHeader_flags : (isolatedHeader c).flags ||| flagValid = 0x23 := by
  show (flagAllocated ||| flagIsolated) ||| flagValid = 0x23
  decide

theorem isolatePages_spec {start : Int} (h₀ : 0 ≤ start) : ∀ {i : Nat}, start + i ≤ c.pageCount → ∀ p, InStore c p →
    (start ≤ p ∧ p < start + i → (readHeader c p (isolatePages c start i m)).allocated = true ∧
      (readHeader c p (isolatePages c start i m)).isolated = true) ∧
      (¬(start ≤ p ∧ p < start + i) →
        ∀ x, p.toNat * c.pageSize ≤ x → x < p.toNat * c.pageSize + c.pageSize → isolatePages c start i m x = m x)
  | 0, _, p, _ => ⟨fun h => by omega, fun _ _ _ _ => rfl⟩
  | i + 1, hle, p, hp => by
    have hle' : start + (i : Int) + 1 ≤ c.pageCount := by
      rw [Nat.cast_add, Nat.cast_one] at hle
      omega
    have ih := isolatePages_spec h₀ (show start + (i : Int) ≤ c.pageCount by omega) p hp
    have hsize := c.headerSize_le
    have hname : (isolatedHeader c).name.length = c.nameLength := List.length_replicate
    by_cases hlast : p = start + i
    · subst hlast
      refine ⟨fun _ => ?_, fun hnot => absurd (by omega) hnot⟩
      unfold isolatePages
      rw [readHeader_writeHeader c hname]
      unfold FileHeader.allocated FileHeader.isolated FileHeader.checkFlag
      dsimp only
      rw [isolatedHeader_flags]
      exact ⟨decide_eq_true (by decide), decide_eq_true (by decide)⟩
    · have hsame : ∀ x, p.toNat * c.pageSize ≤ x → x < p.toNat * c.pageSize + c.pageSize →
          isolatePages c start (i + 1) m x = isolatePages c start i m x := by
        intro x h₁ h₂
        refine writeHeader_of_out c (by omega) (by omega) ?_
        rcases lt_or_gt_of_ne hlast with hlt | hlt
        · have := c.page_before hp.1 hlt
          omega
        · have := c.page_before (show 0 ≤ start + (i : Int) by omega) hlt
          omega
      constructor
      · rintro ⟨h₁, h₂⟩
        rw [readHeader_congr c hp.1 hp.2 fun x hx₁ hx₂ => hsame x hx₁ (by omega)]
        exact ih.1 (by omega)
      · intro hnot x h₁ h₂
        rw [hsame x h₁ h₂]
        exact ih.2 (by omega) x h₁ h₂

theorem erase_blank (hk₀ : 0 ≤ k) (hk : k < c.sectorCount) (hp : InStore c p) (hs : c.sectorOf p = k) :
    Blank c (erase c k m) p := fun x h₁ h₂ => by
  rw [erase_page c hk₀ hk hp.1 h₁ h₂, if_pos hs]

theorem erase_elsewhere (hk₀ : 0 ≤ k) (hk : k < c.sectorCount) (hp : InStore c p) (hs : c.sectorOf p ≠ k) {x : Nat}
    (h₁ : p.toNat * c.pageSize ≤ x) (h₂ : x < p.toNat * c.pageSize + c.pageSize) : erase c k m x = m x := by
  rw [erase_page c hk₀ hk hp.1 h₁ h₂, if_neg hs]

/-! ## The loop over the sectors -/

/-- The collection has come to a sector: the pages before it are as they will be, those from it on as they were, save what
has been isolated in it. -/
structure Layout.Collecting (l : Layout c) (hclean : l.Clean) (s₀ : Store) (k : Int) (scan : SectorScan) (s : Store) :
    Prop where
  scans : l.Scans k scan
  behind : ∀ p, InStore c p → c.sectorOf p < k → (l.collected hclean).Shows s.flash p
  ahead : ∀ p, InStore c p → k ≤ c.sectorOf p → l.Shows s.flash p
  cut : ∀ p a n, InStore c p → c.sectorOf p = k → l.kind p = .extent a n false → c.sectorOf a < k →
    l.Reclaimed (c.sectorOf a) → a + n < c.sectorStart (k + 1) →
      (readHeader c p s.flash).allocated = true ∧ (readHeader c p s.flash).isolated = true
  nextFree : s.nextFree = s₀.nextFree ∨ ∃ j, 0 ≤ j ∧ j < k ∧ l.Reclaimed j ∧ s.nextFree = c.sectorStart j
  nextFree_le : s.nextFree ≤ s₀.nextFree
  nextFree_sector : ∀ j, 0 ≤ j → j < k → l.Reclaimed j → s.nextFree ≤ c.sectorStart j
  rest : { s with flash := s₀.flash, nextFree := s₀.nextFree } = s₀

variable {hclean : l.Clean} {s₀ s : Store} {scan : SectorScan} {r : Int × SectorStatus × SectorScan}

theorem Layout.Collecting.keep (h : l.Collecting hclean s₀ k scan s) (hk₀ : 0 ≤ k) (hr : l.Status k r)
    (hstays : ¬l.Reclaimed k) : l.Collecting hclean s₀ (k + 1) r.2.2 s := by
  refine ⟨hr.scans, fun p hp hs => ?_, fun p hp hs => h.ahead p hp (by omega), ?_, ?_, h.nextFree_le, ?_, h.rest⟩
  · rcases (show c.sectorOf p < k ∨ c.sectorOf p = k by omega) with hlt | rfl
    · exact h.behind p hp hlt
    have hshow := h.ahead p hp le_rfl
    cases hkind : l.kind p with
    | free => exact (shows_free (collected_free hkind)).2 ((shows_free hkind).1 hshow)
    | isolated => exact (shows_isolated (collected_isolated hkind hstays)).2 ((shows_isolated hkind).1 hshow)
    | extent a n act =>
      by_cases ha : act = false ∧ l.Reclaimed (c.sectorOf a)
      · obtain ⟨rfl, ha⟩ := ha
        rw [shows_isolated (collected_cut hkind hstays ha)]
        have hin := l.extent_in hp hkind
        have hle := c.sectorOf_mono hin.2.1
        have hne : c.sectorOf a ≠ c.sectorOf p := fun he => hstays (he ▸ ha)
        have hlt : c.sectorOf a < c.sectorOf p := by omega
        -- an extent that goes on behind the sector would fill it
        have hend : a + n < c.sectorStart (c.sectorOf p + 1) := by
          by_contra hend
          exact hstays (reclaimed_of_covered hp hkind hk₀ hlt (by omega))
        exact h.cut p a n hp rfl hkind hlt ha hend
      · exact (shows_extent (collected_extent hkind hstays ha)).2 ((shows_extent hkind).1 hshow)
  · intro p a n hp hs hkind hlt hgone hend
    have hne : c.sectorOf a ≠ k := fun he => hstays (he ▸ hgone)
    have hin := l.extent_in hp hkind
    have hle := (c.sectorOf_eq_iff.1 hs).1
    exact absurd (reclaimed_of_covered hp hkind hk₀ (by omega) (by omega)) hstays
  · rcases h.nextFree with he | ⟨j, h₁, h₂, h₃⟩
    · exact .inl he
    · exact .inr ⟨j, h₁, by omega, h₃⟩
  · intro j h₁ h₂ hj
    rcases (show j < k ∨ j = k by omega) with hlt | rfl
    · exact h.nextFree_sector j h₁ hlt hj
    · exact absurd hj hstays

theorem Layout.Collecting.erase (h : l.Collecting hclean s₀ k scan s) (hk₀ : 0 ≤ k) (hk : k < c.sectorCount)
    (hr : l.Status k r) (hgone : l.Reclaimed k) : l.Collecting hclean s₀ (k + 1) r.2.2 (eraseSector c k r.1 s) := by
  have hsucc := c.sectorStart_succ k
  have hsucc' := c.sectorStart_succ (k + 1)
  have hpos := c.pagesPerSector_pos
  have hstart := c.sectorStart_mono (show 0 ≤ k + 1 by omega)
  rw [c.sectorStart_zero] at hstart
  have hnonneg := hr.scans.nonneg
  have hend := hr.scans.entry.2.1
  have hisolation := hr.isolation
  have hiso₀ : 0 ≤ r.1 := by
    rw [hisolation]
    split_ifs <;> omega
  have hiso : r.1 ≤ r.2.2.skipPages := by
    rw [hisolation]
    split_ifs <;> omega
  have hflash : (eraseSector c k r.1 s).flash =
      Coffee.erase c k (isolatePages c (c.sectorStart (k + 1)) r.1.toNat s.flash) := by
    unfold eraseSector
    dsimp only
    rw [← hsucc]
    split_ifs with h₀
    · rfl
    · rw [show r.1.toNat = 0 by omega]
      rfl
  have hspec := isolatePages_spec (m := s.flash) hstart
    (show c.sectorStart (k + 1) + (r.1.toNat : Int) ≤ c.pageCount by omega)
  have hsame : ∀ p, InStore c p → c.sectorOf p ≠ k →
      ¬(c.sectorStart (k + 1) ≤ p ∧ p < c.sectorStart (k + 1) + (r.1.toNat : Int)) →
      ∀ x, p.toNat * c.pageSize ≤ x → x < p.toNat * c.pageSize + c.pageSize →
        (eraseSector c k r.1 s).flash x = s.flash x := by
    intro p hp hs hnot x h₁ h₂
    rw [hflash, erase_elsewhere hk₀ hk hp hs h₁ h₂, (hspec p hp).2 hnot x h₁ h₂]
  refine ⟨hr.scans, fun p hp hs => ?_, fun p hp hs => ?_, ?_, ?_, ?_, ?_, ?_⟩
  · rcases (show c.sectorOf p < k ∨ c.sectorOf p = k by omega) with hlt | rfl
    · refine (h.behind p hp hlt).congr hp (hsame p hp (by omega) fun hin => ?_)
      have := c.sectorOf_mono hin.1
      rw [c.sectorOf_sectorStart] at this
      omega
    · rw [shows_free (collected_reclaimed hgone), hflash]
      exact erase_blank hk₀ hk hp rfl
  · by_cases hin : c.sectorStart (k + 1) ≤ p ∧ p < c.sectorStart (k + 1) + (r.1.toNat : Int)
    · -- the page lies within the extent that is cut
      obtain ⟨hk', a, n, hkind, ha, hend⟩ := hr.scans.inside (by omega)
      have hin' := (sector_page (p := c.sectorStart (k + 1)) (by omega) hk' le_rfl (by omega)).1
      exact shows_inside (l.extent_all hin' hkind (by omega) (by omega)) (by omega)
    · exact (h.ahead p hp (by omega)).congr hp (hsame p hp (by omega) hin)
  · rintro p a n hp hs hkind hlt - hend
    have hin := l.extent_in hp hkind
    obtain ⟨hle, hlt'⟩ := c.sectorOf_eq_iff.1 hs
    have ha : a < c.sectorStart (k + 1) := by
      have := (c.sectorOf_eq_iff.1 (rfl : c.sectorOf a = _)).2
      have := c.sectorStart_mono (show c.sectorOf a + 1 ≤ k + 1 by omega)
      omega
    have hfirst : l.kind (c.sectorStart (k + 1)) = .extent a n false := l.extent_all hp hkind (by omega) (by omega)
    have hskip : 0 < r.2.2.skipPages := by
      by_contra h₀
      have hentry := hr.scans.entry
      rw [show r.2.2.skipPages = 0 by omega, Int.add_zero] at hentry
      have := hentry.2.2 (by omega) a n false hfirst
      omega
    obtain ⟨-, a', n', hkind', -, hend'⟩ := hr.scans.inside hskip
    rw [hfirst] at hkind'
    obtain ⟨rfl, rfl, hlast⟩ := Kind.extent.inj hkind'
    rw [← hlast, if_neg (by rintro (h | h); exacts [Bool.false_ne_true h, by omega])] at hisolation
    have hheader : readHeader c p (eraseSector c k r.1 s).flash =
        readHeader c p (isolatePages c (c.sectorStart (k + 1)) r.1.toNat s.flash) := by
      have hsize := c.headerSize_le
      rw [hflash]
      exact readHeader_congr c hp.1 hp.2 fun x h₁ h₂ => erase_elsewhere hk₀ hk hp (by omega) h₁ (by omega)
    rw [hheader]
    exact (hspec p hp).1 (by omega)
  · unfold eraseSector
    dsimp only
    split_ifs
    · exact .inr ⟨k, hk₀, by omega, hgone, rfl⟩
    · rcases h.nextFree with he | ⟨j, h₁, h₂, h₃⟩
      · exact .inl he
      · exact .inr ⟨j, h₁, by omega, h₃⟩
  · have := h.nextFree_le
    unfold eraseSector
    dsimp only
    split_ifs <;> omega
  · intro j h₁ h₂ hj
    have hprev := h.nextFree_sector j h₁
    unfold eraseSector
    dsimp only
    rcases (show j < k ∨ j = k by omega) with hlt | rfl
    · have := hprev hlt hj
      split_ifs <;> omega
    · split_ifs <;> omega
  · exact h.rest

theorem Layout.Status.erasable_iff (hr : l.Status k r) : erasable .greedy r.2.1 = true ↔ l.Reclaimed k := by
  unfold erasable Reclaimed
  rw [← hr.active, ← hr.obsolete]
  simp

theorem collectFrom_spec {fuel : Nat} (hfuel : c.pageCount < fuel) : ∀ {i : Nat} {k : Int} {scan : SectorScan} {s : Store},
    l.Collecting hclean s₀ k scan s → 0 ≤ k → k + i = c.sectorCount →
      ∃ scan' t, collectFrom c fuel .greedy i k scan s = some t ∧ l.Collecting hclean s₀ c.sectorCount scan' t
  | 0, k, scan, s, h, _, he => by
    obtain rfl : k = c.sectorCount := by omega
    exact ⟨scan, s, rfl, h⟩
  | i + 1, k, scan, s, h, hk₀, he => by
    have hk : k < c.sectorCount := by omega
    obtain ⟨r, hr, hstatus⟩ := getSectorStatus_spec hfuel hk₀ hk h.scans fun p hp hs => h.ahead p hp hs.ge
    unfold collectFrom
    rw [hr, Option.bind_some]
    by_cases hgone : l.Reclaimed k
    · rw [if_pos (hstatus.erasable_iff.2 hgone), if_neg (by simp)]
      exact collectFrom_spec hfuel (h.erase hk₀ hk hstatus hgone) (by omega) (by omega)
    · rw [if_neg fun he => hgone (hstatus.erasable_iff.1 he)]
      exact collectFrom_spec hfuel (h.keep hk₀ hstatus hgone) (by omega) (by omega)

/-! ## Greedy collection -/

/-- What a collection leaves. -/
structure Layout.CollectedStore (l : Layout c) (hclean : l.Clean) (s t : Store) : Prop where
  holds : (l.collected hclean).Holds t.flash
  entry : (l.collected hclean).Entry t.nextFree
  nextFree_le : t.nextFree ≤ s.nextFree
  below : ∀ p, InStore c p → l.Reclaimed (c.sectorOf p) → t.nextFree ≤ p
  rest : { t with flash := s.flash, nextFree := s.nextFree } = s

theorem collectGarbage_spec {fuel : Nat} (hfuel : c.pageCount < fuel) (hclean : l.Clean) (hholds : l.Holds s.flash)
    (hentry : l.Entry s.nextFree) : ∃ t, collectGarbage c fuel .greedy s = some t ∧ l.CollectedStore hclean s t := by
  have hbegin : l.Collecting hclean s 0 ⟨0, false⟩ s := by
    refine ⟨scans_zero, fun p hp hs => ?_, fun p hp _ => hholds p hp, ?_, .inl rfl, le_rfl, ?_, rfl⟩
    · exact absurd hs (by have := c.sectorOf_nonneg hp.1; omega)
    · intro p a n hp _ hkind hs
      have := c.sectorOf_nonneg (l.extent_in hp hkind).1
      omega
    · intro j h₁ h₂
      omega
  obtain ⟨scan, t, ht, h⟩ := collectFrom_spec (i := c.sectorCount) hfuel hbegin le_rfl (by omega)
  refine ⟨t, ht, fun p hp => h.behind p hp (c.sectorOf_lt hp.2), ?_, h.nextFree_le, fun p hp hgone => ?_, h.rest⟩
  · rcases h.nextFree with he | ⟨j, h₁, h₂, hgone, he⟩
    · rw [he]
      exact ⟨hentry.1, hentry.2.1, fun hlt a n act hkind => hentry.2.2 hlt a n act (collected_eq_extent hkind).1⟩
    · rw [he]
      have hsucc := c.sectorStart_succ j
      have hpos := c.pagesPerSector_pos
      refine entry_of_kind (sector_page h₁ h₂ le_rfl (by omega)).1 (.inl (collected_reclaimed ?_))
      rwa [c.sectorOf_sectorStart]
  · have h₁ := h.nextFree_sector _ (c.sectorOf_nonneg hp.1) (c.sectorOf_lt hp.2) hgone
    have h₂ := c.sectorStart_le p
    omega

end Contiki.Coffee

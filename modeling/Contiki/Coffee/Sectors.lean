/-
What the pages of a store are for: a layout gives every page as free, as isolated or as part of an extent. A storage holds a
layout when its headers say so where extents begin; what is read elsewhere does not count. The walk from page to page by
`next_file` then stays on the first pages of extents, free areas and isolated pages.
-/
import Contiki.Coffee.Medium
import Contiki.Coffee.Model

namespace Contiki.Coffee

section

open Contiki.Lib

/-! ## Layouts -/

inductive Kind where
  | free
  | isolated
  /-- A page of the extent of so many pages from a page on. -/
  | extent (start pages : Int) (active : Bool)
  deriving DecidableEq, Repr

namespace Kind

@[grind =]
def isActive : Kind → Bool
  | .extent _ _ act => act
  | _ => false

@[grind =]
def isObsolete : Kind → Bool
  | .extent _ _ act => !act
  | .isolated => true
  | .free => false

theorem isActive_iff {k : Kind} : k.isActive = true ↔ ∃ a n, k = .extent a n true := by
  cases k <;> simp [isActive]

end Kind

variable (c : Config)

def InStore (p : Int) : Prop := 0 ≤ p ∧ p < c.pageCount

/-- The use of all pages: extents are whole and in the store, and behind a free page the rest of its sector is free. -/
structure Layout where
  kind : Int → Kind
  extent_in : ∀ {p a n act}, InStore c p → kind p = .extent a n act → 0 ≤ a ∧ a ≤ p ∧ p < a + n ∧ a + n ≤ c.pageCount
  extent_all : ∀ {p q a n act}, InStore c p → kind p = .extent a n act → a ≤ q → q < a + n → kind q = .extent a n act
  free_rest : ∀ {p q}, InStore c p → kind p = .free → p ≤ q → q < c.nextSector p → kind q = .free

variable {c}

namespace Layout

variable (l : Layout c) {p q a n : Int} {act : Bool}

/-- Nothing that begins before the page reaches into it. -/
def Entry (p : Int) : Prop :=
  0 ≤ p ∧ p ≤ c.pageCount ∧ (p < c.pageCount → ∀ a n act, l.kind p = .extent a n act → a = p)

def next (p : Int) : Int :=
  match l.kind p with
  | .free => c.nextSector p
  | .isolated => p + 1
  | .extent a n _ => a + n

variable {l}

theorem next_free (h : l.kind p = .free) : l.next p = c.nextSector p := by
  unfold next
  rw [h]

theorem next_isolated (h : l.kind p = .isolated) : l.next p = p + 1 := by
  unfold next
  rw [h]

theorem next_extent (h : l.kind p = .extent a n act) : l.next p = a + n := by
  unfold next
  rw [h]

theorem Entry.inStore (h : l.Entry p) (hlt : p < c.pageCount) : InStore c p := ⟨h.1, hlt⟩

theorem lt_next (hp : InStore c p) : p < l.next p := by
  cases h : l.kind p with
  | free =>
    rw [next_free h]
    exact c.lt_nextSector p
  | isolated =>
    rw [next_isolated h]
    omega
  | extent a n act =>
    rw [next_extent h]
    exact (l.extent_in hp h).2.2.1

theorem next_le (hp : InStore c p) : l.next p ≤ c.pageCount := by
  cases h : l.kind p with
  | free =>
    rw [next_free h]
    exact c.nextSector_le hp.2
  | isolated =>
    rw [next_isolated h]
    exact hp.2
  | extent a n act =>
    rw [next_extent h]
    exact (l.extent_in hp h).2.2.2

theorem kind_between (hp : InStore c p) (h : p ≤ q) (hq : q < l.next p) : l.kind q = l.kind p := by
  cases hk : l.kind p with
  | free =>
    rw [next_free hk] at hq
    exact l.free_rest hp hk h hq
  | isolated =>
    rw [next_isolated hk] at hq
    rw [show q = p by omega, hk]
  | extent a n act =>
    rw [next_extent hk] at hq
    exact l.extent_all hp hk (by have := (l.extent_in hp hk).2.1; omega) hq

theorem entry_of_free (hp : InStore c p) (hk : l.kind p = .free) : l.Entry (p + 1) := by
  refine ⟨by have := hp.1; omega, hp.2, fun hlt a n act h => ?_⟩
  have hin := l.extent_in ⟨by have := hp.1; omega, hlt⟩ h
  by_contra hne
  have := l.extent_all ⟨by have := hp.1; omega, hlt⟩ h (show a ≤ p by omega) (by omega)
  rw [hk] at this
  cases this

theorem Entry.next (h : l.Entry p) (hlt : p < c.pageCount) : l.Entry (l.next p) := by
  have hp := h.inStore hlt
  have hpos := h.1
  have hgt := lt_next (l := l) hp
  refine ⟨by omega, next_le hp, fun hlt' a n act hk => ?_⟩
  have hp' : InStore c (l.next p) := ⟨by omega, hlt'⟩
  have hin := l.extent_in hp' hk
  by_contra hne
  -- an extent that reaches over the end would begin where the page is, and end there
  have hlast := l.extent_all hp' hk (show a ≤ l.next p - 1 by omega) (by omega)
  rw [kind_between hp (by omega) (by omega)] at hlast
  have hstart := h.2.2 hlt a n act hlast
  rw [next_extent hlast] at hin
  omega

theorem entry_zero : l.Entry 0 :=
  ⟨le_rfl, Int.natCast_nonneg _, fun hlt _ _ _ h => by
    have := l.extent_in ⟨le_rfl, hlt⟩ h
    omega⟩

theorem entry_of_kind (hp : InStore c p) (h : l.kind p = .free ∨ l.kind p = .isolated) : l.Entry p := by
  refine ⟨hp.1, hp.2.le, fun _ a n act hk => ?_⟩
  rcases h with h | h <;> rw [hk] at h <;> cases h

theorem entry_start (hp : InStore c p) (h : l.kind p = .extent a n act) : l.Entry a ∧ l.kind a = .extent a n act := by
  have hin := l.extent_in hp h
  have ha := l.extent_all hp h le_rfl (by omega)
  refine ⟨⟨hin.1, by omega, fun _ a' n' act' h' => ?_⟩, ha⟩
  rw [ha] at h'
  cases h'
  rfl

end Layout

/-! ## Storage -/

/-- The header is one of an extent of so many pages. -/
structure FileHeader.IsExtent (hdr : FileHeader) (pages : Int) (active : Bool) : Prop where
  allocated : hdr.allocated = true
  isolated : hdr.isolated = false
  obsolete : hdr.obsolete = !active
  maxPages : hdr.maxPages.toInt = pages

variable (c) in
def Blank (flash : Mem) (p : Int) : Prop :=
  ∀ x, p.toNat * c.pageSize ≤ x → x < p.toNat * c.pageSize + c.pageSize → flash x = 0

def Layout.Shows (l : Layout c) (flash : Mem) (p : Int) : Prop :=
  match l.kind p with
  | .free => Blank c flash p
  | .isolated => (readHeader c p flash).allocated = true ∧ (readHeader c p flash).isolated = true
  | .extent a n act => a = p → (readHeader c p flash).IsExtent n act

def Layout.Holds (l : Layout c) (flash : Mem) : Prop := ∀ p, InStore c p → l.Shows flash p

variable {l : Layout c} {flash m m' : Mem} {p q a n : Int} {act : Bool}

theorem readHeader_blank (hp : InStore c p) (h : Blank c flash p) : readHeader c p flash = .zero c := by
  have hle := c.headerSize_le
  unfold readHeader
  rw [c.address_page hp.1 hp.2]
  exact loadHeader_zero c fun x h₁ h₂ => h x h₁ (by omega)

theorem shows_free (h : l.kind p = .free) : l.Shows flash p ↔ Blank c flash p := by
  unfold Layout.Shows
  rw [h]

theorem shows_isolated (h : l.kind p = .isolated) : l.Shows flash p ↔
    (readHeader c p flash).allocated = true ∧ (readHeader c p flash).isolated = true := by
  unfold Layout.Shows
  rw [h]

theorem shows_extent (h : l.kind p = .extent a n act) :
    l.Shows flash p ↔ (a = p → (readHeader c p flash).IsExtent n act) := by
  unfold Layout.Shows
  rw [h]

theorem shows_inside (h : l.kind p = .extent a n act) (hne : a ≠ p) : l.Shows flash p :=
  (shows_extent h).2 fun he => absurd he hne

theorem Layout.Shows.congr (hp : InStore c p) (h : l.Shows m p)
    (hm : ∀ x, p.toNat * c.pageSize ≤ x → x < p.toNat * c.pageSize + c.pageSize → m' x = m x) : l.Shows m' p := by
  have hle := c.headerSize_le
  have hread : readHeader c p m' = readHeader c p m := readHeader_congr c hp.1 hp.2 fun x h₁ h₂ => hm x h₁ (by omega)
  cases hk : l.kind p with
  | free =>
    rw [shows_free hk] at h ⊢
    exact fun x h₁ h₂ => (hm x h₁ h₂).trans (h x h₁ h₂)
  | isolated =>
    rw [shows_isolated hk] at h ⊢
    rwa [hread]
  | extent a n act =>
    rw [shows_extent hk] at h ⊢
    rwa [hread]

/-! ## What headers tell -/

theorem Layout.Shows.header (hp : InStore c p) (h : l.Shows flash p) (hstart : ∀ a n act, l.kind p = .extent a n act → a = p) :
    ((readHeader c p flash).free = true ↔ l.kind p = .free) ∧
      ((readHeader c p flash).active = true ↔ ∃ n, l.kind p = .extent p n true) ∧
      nextFile c p (readHeader c p flash) = l.next p := by
  have hcount := c.pageCount_lt
  have hnext : toPage (l.next p) = l.next p := by
    have h₁ := Layout.lt_next (l := l) hp
    have h₂ := Layout.next_le (l := l) hp
    have h₃ := hp.1
    exact toPage_of_mem (by omega) (by omega)
  cases hk : l.kind p with
  | free =>
    rw [shows_free hk] at h
    rw [readHeader_blank hp h]
    have ha : (FileHeader.zero c).allocated = false := FileHeader.checkFlag_zero c _
    unfold nextFile FileHeader.free FileHeader.active
    rw [ha, Bool.not_false, if_pos rfl, ← Layout.next_free hk, hnext]
    refine ⟨iff_of_true rfl rfl, iff_of_false (by simp) ?_, rfl⟩
    rintro ⟨n, hn⟩
    cases hn
  | isolated =>
    obtain ⟨ha, hi⟩ := (shows_isolated hk).1 h
    unfold nextFile FileHeader.free FileHeader.active
    rw [ha, hi, Bool.not_true, if_neg (by decide), if_pos rfl, ← Layout.next_isolated hk, hnext]
    refine ⟨iff_of_false (by decide) (by rintro ⟨⟩), iff_of_false (by simp) ?_, rfl⟩
    rintro ⟨n, hn⟩
    cases hn
  | extent a n act =>
    obtain rfl := hstart a n act hk
    obtain ⟨ha, hi, ho, hm⟩ := (shows_extent hk).1 h rfl
    unfold nextFile FileHeader.free FileHeader.active
    rw [ha, hi, ho, hm, Bool.not_true, if_neg (by decide), if_neg (by decide), ← Layout.next_extent hk, hnext]
    refine ⟨iff_of_false (by decide) (by rintro ⟨⟩), ?_, rfl⟩
    simp

end

/-!
`get_sector_status` on a storage that holds a layout: it tells whether a sector has active and whether it has obsolete
pages, and remembers how far the last extent of the sector reaches into the sectors behind.
-/

section

open Contiki.Lib

variable {c : Config}

/-! ## The pages of a sector -/

namespace Layout

variable (l : Layout c) (k : Int)

def HasActive : Prop := ∃ p, InStore c p ∧ c.sectorOf p = k ∧ (l.kind p).isActive = true

def HasObsolete : Prop := ∃ p, InStore c p ∧ c.sectorOf p = k ∧ (l.kind p).isObsolete = true

structure Scans (scan : SectorScan) : Prop where
  nonneg : 0 ≤ scan.skipPages
  entry : l.Entry (c.sectorStart k + scan.skipPages)
  inside : 0 < scan.skipPages → k < c.sectorCount ∧ ∃ a n,
    l.kind (c.sectorStart k) = .extent a n scan.lastPagesAreActive ∧ a < c.sectorStart k ∧
      a + n = c.sectorStart k + scan.skipPages

def Passed (f : Kind → Bool) (page : Int) : Prop :=
  ∃ p, c.sectorStart k ≤ p ∧ p < c.sectorStart (k + 1) ∧ p < page ∧ f (l.kind p) = true

/-- What the loop of `get_sector_status` has counted. -/
structure Counted (x : PageCount) : Prop where
  entry : l.Entry x.page
  sum : x.page = c.sectorStart k + x.active + x.obsolete
  active_nonneg : 0 ≤ x.active
  obsolete_nonneg : 0 ≤ x.obsolete
  active_iff : 0 < x.active ↔ l.Passed k Kind.isActive x.page
  obsolete_iff : 0 < x.obsolete ↔ l.Passed k Kind.isObsolete x.page
  /-- The last extent, where it ends behind the sector. -/
  last : c.sectorStart (k + 1) < x.page → ∃ a n, l.kind (c.sectorStart (k + 1)) = .extent a n x.lastPagesAreActive ∧
    a < c.sectorStart (k + 1) ∧ a + n = x.page ∧
      c.sectorStart k + (if x.lastPagesAreActive then x.obsolete else x.active) ≤ a

end Layout

variable {l : Layout c} {k p q a n : Int} {act : Bool} {m : Mem} {scan : SectorScan} {f : Kind → Bool}

theorem sector_page (hk₀ : 0 ≤ k) (hk : k < c.sectorCount) (h₁ : c.sectorStart k ≤ p) (h₂ : p < c.sectorStart (k + 1)) :
    InStore c p ∧ c.sectorOf p = k := by
  have hstart := c.sectorStart_mono hk₀
  have hend := c.sectorStart_mono (show k + 1 ≤ c.sectorCount by omega)
  rw [c.sectorStart_zero] at hstart
  rw [c.sectorStart_count] at hend
  exact ⟨⟨by omega, by omega⟩, c.sectorOf_eq_iff.2 ⟨h₁, h₂⟩⟩

/-! ## Counting -/

theorem not_passed_start : ¬l.Passed k f (c.sectorStart k) := by
  rintro ⟨p, h₁, -, h₂, -⟩
  omega

theorem passed_next (hstart : c.sectorStart k ≤ p) (hlt : p < c.sectorStart (k + 1)) (hpq : p < q)
    (hkind : ∀ x, p ≤ x → x < q → l.kind x = l.kind p) : l.Passed k f q ↔ l.Passed k f p ∨ f (l.kind p) = true := by
  constructor
  · rintro ⟨x, h₁, h₂, h₃, hx⟩
    by_cases hxp : x < p
    · exact .inl ⟨x, h₁, h₂, hxp, hx⟩
    · rw [hkind x (by omega) h₃] at hx
      exact .inr hx
  · rintro (⟨x, h₁, h₂, h₃, hx⟩ | hx)
    · exact ⟨x, h₁, h₂, by omega, hx⟩
    · exact ⟨p, hstart, hlt, hpq, hx⟩

/-- What was remembered of the sectors before is counted first. -/
theorem Layout.Scans.counted (h : l.Scans k scan) (hk₀ : 0 ≤ k) (hlt : scan.skipPages < c.pagesPerSector) :
    l.Counted k
      { page := c.sectorStart k + scan.skipPages
        active := if scan.lastPagesAreActive then scan.skipPages else 0
        obsolete := if scan.lastPagesAreActive then 0 else scan.skipPages
        lastPagesAreActive := scan.lastPagesAreActive } := by
  have hsucc := c.sectorStart_succ k
  have hnonneg := h.nonneg
  -- before that page there are only pages of the extent that reaches into the sector
  have hpassed : ∀ f, l.Passed k f (c.sectorStart k + scan.skipPages) ↔
      0 < scan.skipPages ∧ f (l.kind (c.sectorStart k)) = true := by
    intro f
    rcases hnonneg.eq_or_lt with h₀ | h₀
    · rw [← h₀, Int.add_zero]
      exact iff_of_false not_passed_start fun h => absurd h.1 (lt_irrefl 0)
    · obtain ⟨hk, a, n, hkind, ha, he⟩ := h.inside h₀
      have hin := (sector_page hk₀ hk le_rfl (by omega)).1
      rw [passed_next le_rfl (by omega) (by omega) fun x h₁ h₂ => by
        rw [l.extent_all hin hkind (by omega) (by omega), hkind], and_iff_right h₀]
      exact or_iff_right not_passed_start
  have hkind : 0 < scan.skipPages → (l.kind (c.sectorStart k)).isActive = scan.lastPagesAreActive ∧
      (l.kind (c.sectorStart k)).isObsolete = !scan.lastPagesAreActive := by
    intro h₀
    obtain ⟨-, a, n, hkind, -, -⟩ := h.inside h₀
    rw [hkind]
    exact ⟨rfl, rfl⟩
  refine ⟨h.entry, ?_, ?_, ?_, ?_, ?_, fun hover => ?_⟩
  · dsimp only
    split_ifs <;> omega
  · dsimp only
    split_ifs <;> omega
  · dsimp only
    split_ifs <;> omega
  · rw [hpassed]
    dsimp only
    constructor
    · intro h₀
      split_ifs at h₀ with hlast
      · exact ⟨h₀, (hkind h₀).1.trans hlast⟩
      · omega
    · rintro ⟨h₀, ha⟩
      rw [if_pos ((hkind h₀).1.symm.trans ha)]
      exact h₀
  · rw [hpassed]
    dsimp only
    constructor
    · intro h₀
      split_ifs at h₀ with hlast
      · omega
      · rw [Bool.not_eq_true] at hlast
        exact ⟨h₀, by rw [(hkind h₀).2, hlast]; rfl⟩
    · rintro ⟨h₀, ho⟩
      rw [(hkind h₀).2, Bool.not_eq_true'] at ho
      rw [ho]
      exact h₀
  · dsimp only at hover
    omega

theorem Layout.Counted.next {x : PageCount} (h : l.Counted k x) (hk₀ : 0 ≤ k) (hk : k < c.sectorCount)
    (hlt : x.page < c.sectorStart (k + 1)) (last : Bool) {i j : Int} (hi : 0 ≤ i) (hj : 0 ≤ j)
    (hnext : l.next x.page = x.page + i + j) (hactive : 0 < i ↔ (l.kind x.page).isActive = true)
    (hobsolete : 0 < j ↔ (l.kind x.page).isObsolete = true) (hlast : c.sectorStart (k + 1) < l.next x.page →
      l.kind x.page = .extent x.page (i + j) last ∧ if last then j = 0 else i = 0) :
    l.Counted k ⟨x.page + i + j, x.active + i, x.obsolete + j, last⟩ := by
  have hsum := h.sum
  have ha := h.active_nonneg
  have ho := h.obsolete_nonneg
  have hp := sector_page hk₀ hk (by omega) hlt
  have hgt := Layout.lt_next (l := l) hp.1
  have hpassed : ∀ f, l.Passed k f (x.page + i + j) ↔ l.Passed k f x.page ∨ f (l.kind x.page) = true := by
    intro f
    rw [← hnext]
    exact passed_next (by omega) hlt hgt fun q h₁ h₂ => Layout.kind_between hp.1 h₁ h₂
  refine ⟨?_, by dsimp only; omega, by dsimp only; omega, by dsimp only; omega, ?_, ?_, fun hover => ?_⟩
  · have hentry := h.entry.next hp.1.2
    rwa [hnext] at hentry
  · rw [hpassed, ← h.active_iff, ← hactive]
    dsimp only
    omega
  · rw [hpassed, ← h.obsolete_iff, ← hobsolete]
    dsimp only
    omega
  · dsimp only at hover ⊢
    rw [← hnext] at hover ⊢
    obtain ⟨hkind, hzero⟩ := hlast hover
    refine ⟨x.page, i + j, ?_, hlt, by omega, ?_⟩
    · rw [Layout.kind_between hp.1 hlt.le hover, hkind]
    · split_ifs at hzero ⊢ <;> omega

/-- What the loop of `get_sector_status` ends with. -/
structure Layout.Ended (l : Layout c) (k : Int) (x : PageCount) (free : Int) : Prop where
  active_iff : 0 < x.active ↔ l.HasActive k
  obsolete_iff : 0 < x.obsolete ↔ l.HasObsolete k
  total : 0 ≤ x.active + x.obsolete + free - c.pagesPerSector
  entry : l.Entry (c.sectorStart k + x.active + x.obsolete + free)
  last : c.sectorStart (k + 1) < c.sectorStart k + x.active + x.obsolete + free →
    ∃ a n, l.kind (c.sectorStart (k + 1)) = .extent a n x.lastPagesAreActive ∧ a < c.sectorStart (k + 1) ∧
      a + n = c.sectorStart k + x.active + x.obsolete + free ∧
        c.sectorStart k + (if x.lastPagesAreActive then x.obsolete else x.active) ≤ a

theorem passed_end (hk₀ : 0 ≤ k) (hk : k < c.sectorCount) (hp : c.sectorStart (k + 1) ≤ p) :
    l.Passed k f p ↔ ∃ q, InStore c q ∧ c.sectorOf q = k ∧ f (l.kind q) = true := by
  constructor
  · rintro ⟨q, h₁, h₂, -, hq⟩
    obtain ⟨hin, hs⟩ := sector_page hk₀ hk h₁ h₂
    exact ⟨q, hin, hs, hq⟩
  · rintro ⟨q, -, hs, hq⟩
    obtain ⟨h₁, h₂⟩ := c.sectorOf_eq_iff.1 hs
    exact ⟨q, h₁, h₂, by omega, hq⟩

theorem Layout.Counted.ended {x : PageCount} (h : l.Counted k x) (hk₀ : 0 ≤ k) (hk : k < c.sectorCount)
    (hle : c.sectorStart (k + 1) ≤ x.page) : l.Ended k x 0 := by
  have hsucc := c.sectorStart_succ k
  have hsum := h.sum
  refine ⟨h.active_iff.trans (passed_end hk₀ hk hle), h.obsolete_iff.trans (passed_end hk₀ hk hle), by omega, ?_, ?_⟩
  · rw [Int.add_zero, ← hsum]
    exact h.entry
  · rw [Int.add_zero, ← hsum]
    exact h.last

theorem Layout.Counted.ended_free {x : PageCount} (h : l.Counted k x) (hk₀ : 0 ≤ k) (hk : k < c.sectorCount)
    (hlt : x.page < c.sectorStart (k + 1)) (hfree : l.kind x.page = .free) {last : Bool} :
    l.Ended k ⟨x.page, x.active, x.obsolete, last⟩ (c.sectorStart (k + 1) - x.page) := by
  have hsucc := c.sectorStart_succ k
  have hsum := h.sum
  have ha := h.active_nonneg
  have ho := h.obsolete_nonneg
  have hp := sector_page hk₀ hk (by omega) hlt
  have hnext : l.next x.page = c.sectorStart (k + 1) := by
    rw [Layout.next_free hfree, c.nextSector_eq, hp.2]
  have hrest : ∀ f : Kind → Bool, f .free = false → (l.Passed k f x.page ↔ ∃ q, InStore c q ∧ c.sectorOf q = k ∧
      f (l.kind q) = true) := by
    intro f hf
    rw [← passed_end hk₀ hk le_rfl, passed_next (q := c.sectorStart (k + 1)) (by omega) hlt hlt fun q h₁ h₂ =>
      Layout.kind_between hp.1 h₁ (by omega), hfree, hf, or_iff_left Bool.false_ne_true]
  refine ⟨h.active_iff.trans (hrest _ rfl), h.obsolete_iff.trans (hrest _ rfl), by dsimp only; omega, ?_, fun hover => ?_⟩
  · have hentry := h.entry.next hp.1.2
    rw [hnext] at hentry
    dsimp only
    rwa [show c.sectorStart k + x.active + x.obsolete + (c.sectorStart (k + 1) - x.page) = c.sectorStart (k + 1) by omega]
  · dsimp only at hover
    omega

theorem countStep_spec (hk₀ : 0 ≤ k) (hk : k < c.sectorCount) (hshow : ∀ p, InStore c p → c.sectorOf p = k → l.Shows m p)
    {x : PageCount} (h : l.Counted k x) :
    (∀ x', countStep c (c.sectorStart (k + 1)) m x = .inl x' → l.Counted k x' ∧ x.page < x'.page) ∧
      ∀ r, countStep c (c.sectorStart (k + 1)) m x = .inr r → l.Ended k r.1 r.2 := by
  have hcount := c.pageCount_lt
  have hsum := h.sum
  have ha := h.active_nonneg
  have ho := h.obsolete_nonneg
  unfold countStep
  by_cases hlt : x.page < c.sectorStart (k + 1)
  · obtain ⟨hp, hs⟩ := sector_page hk₀ hk (by omega) hlt
    have hshow := hshow _ hp hs
    have hstart := h.entry.2.2 hp.2
    have hgt := Layout.lt_next (l := l) hp
    have hle := Layout.next_le (l := l) hp
    have hpos := hp.1
    have hsector := c.sectorStart_mono hk₀
    rw [c.sectorStart_zero] at hsector
    rw [if_pos hlt]
    dsimp only
    cases hkind : l.kind x.page with
    | free =>
      rw [readHeader_blank hp ((shows_free hkind).1 hshow)]
      have hflag := FileHeader.checkFlag_zero c
      unfold FileHeader.active FileHeader.allocated FileHeader.isolated FileHeader.obsolete
      rw [hflag, hflag, hflag]
      refine ⟨by rintro _ ⟨⟩, ?_⟩
      rintro r ⟨⟩
      exact h.ended_free hk₀ hk hlt hkind
    | isolated =>
      obtain ⟨hal, hi⟩ := (shows_isolated hkind).1 hshow
      unfold FileHeader.active
      rw [hal, hi, Bool.not_true, Bool.and_false, if_neg Bool.false_ne_true, if_pos rfl]
      refine ⟨?_, by rintro _ ⟨⟩⟩
      rintro x' ⟨⟩
      have hnext := h.next (i := 0) (j := 1) hk₀ hk hlt false le_rfl (by omega)
        (by rw [Layout.next_isolated hkind]; omega) (by rw [hkind]; simp [Kind.isActive])
        (by rw [hkind]; simp [Kind.isObsolete]) (fun hover => by rw [Layout.next_isolated hkind] at hover; omega)
      simp only [Int.add_zero] at hnext
      exact ⟨hnext, by dsimp only; omega⟩
    | extent a n act =>
      obtain rfl := hstart a n act hkind
      obtain ⟨hal, hi, hob, hm⟩ := (shows_extent hkind).1 hshow rfl
      rw [Layout.next_extent hkind] at hgt hle
      unfold FileHeader.active
      rw [hal, hi, hob, hm, toPage_of_mem (by omega) (by omega)]
      cases act with
      | true =>
        rw [if_pos (by decide), toPage_of_mem (by omega) (by omega)]
        refine ⟨?_, by rintro _ ⟨⟩⟩
        rintro x' ⟨⟩
        have hnext := h.next (i := n) (j := 0) hk₀ hk hlt true (by omega) le_rfl
          (by rw [Layout.next_extent hkind]; omega) (by rw [hkind]; simp [Kind.isActive]; omega)
          (by rw [hkind]; simp [Kind.isObsolete]) (fun _ => ⟨by rw [hkind, Int.add_zero], by simp⟩)
        simp only [Int.add_zero] at hnext
        exact ⟨hnext, by dsimp only; omega⟩
      | false =>
        rw [if_neg (by decide), if_neg (by decide), if_pos (by decide), toPage_of_mem (by omega) (by omega)]
        refine ⟨?_, by rintro _ ⟨⟩⟩
        rintro x' ⟨⟩
        have hnext := h.next (i := 0) (j := n) hk₀ hk hlt false le_rfl (by omega)
          (by rw [Layout.next_extent hkind]; omega) (by rw [hkind]; simp [Kind.isActive])
          (by rw [hkind]; simp [Kind.isObsolete]; omega) (fun _ => ⟨by rw [hkind, Int.zero_add], by simp⟩)
        simp only [Int.add_zero] at hnext
        exact ⟨hnext, by dsimp only; omega⟩
  · rw [if_neg hlt]
    refine ⟨by rintro _ ⟨⟩, ?_⟩
    rintro r ⟨⟩
    exact h.ended hk₀ hk (by omega)

/-! ## The status of a sector -/

/-- What `get_sector_status` returns for the sector. -/
structure Layout.Status (l : Layout c) (k : Int) (r : Int × SectorStatus × SectorScan) : Prop where
  active : 0 < r.2.1.active ↔ l.HasActive k
  obsolete : 0 < r.2.1.obsolete ↔ l.HasObsolete k
  scans : l.Scans (k + 1) r.2.2
  isolation : r.1 = if r.2.2.lastPagesAreActive = true ∨ c.pagesPerSector ≤ r.2.2.skipPages then 0 else r.2.2.skipPages

theorem scans_of_over (hk : k < c.sectorCount) {i : Int} {last : Bool} (hi : 0 ≤ i)
    (hentry : l.Entry (c.sectorStart (k + 1) + i))
    (hlast : 0 < i → ∃ a n, l.kind (c.sectorStart (k + 1)) = .extent a n last ∧ a < c.sectorStart (k + 1) ∧
      a + n = c.sectorStart (k + 1) + i) : l.Scans (k + 1) ⟨i, last⟩ := by
  refine ⟨hi, hentry, fun h₀ => ⟨?_, hlast h₀⟩⟩
  -- the extent would otherwise leave the store
  dsimp only at h₀
  by_contra hle
  have hend := hentry.2.1
  rw [show k + 1 = c.sectorCount by omega, c.sectorStart_count] at hend
  omega

theorem Layout.Ended.status {x : PageCount} {free : Int} (h : l.Ended k x free) (hk₀ : 0 ≤ k) (hk : k < c.sectorCount) :
    l.Status k (sectorResult c x free) := by
  have hsucc := c.sectorStart_succ k
  have htotal := h.total
  have hentry := h.entry
  rw [show c.sectorStart k + x.active + x.obsolete + free =
    c.sectorStart (k + 1) + (x.active + x.obsolete + free - c.pagesPerSector) by omega] at hentry
  unfold sectorResult
  refine ⟨?_, ?_, ?_, rfl⟩
  · rw [← h.active_iff]
    dsimp only
    split_ifs with hover hlast
    · obtain ⟨a, n, hkind, hlt, hend, hle⟩ := h.last (by omega)
      rw [if_pos hlast] at hle
      have hactive : l.HasActive k := by
        -- the last extent is active and begins in this sector or before
        have hp := sector_page (p := c.sectorStart (k + 1) - 1) hk₀ hk (by have := c.pagesPerSector_pos; omega) (by omega)
        refine ⟨_, hp.1, hp.2, Kind.isActive_iff.2 ⟨a, n, ?_⟩⟩
        have hin : InStore c (c.sectorStart (k + 1)) := by
          have := hentry.2.1
          have := hp.1.1
          exact ⟨by omega, by omega⟩
        rw [l.extent_all hin hkind (by omega) (by omega), hlast]
      exact iff_of_true (by dsimp only; omega) (h.active_iff.2 hactive)
    · exact Iff.rfl
    · exact Iff.rfl
  · rw [← h.obsolete_iff]
    dsimp only
    split_ifs with hover hlast
    · exact Iff.rfl
    · obtain ⟨a, n, hkind, hlt, hend, hle⟩ := h.last (by omega)
      rw [if_neg hlast] at hle
      have hobsolete : l.HasObsolete k := by
        have hp := sector_page (p := c.sectorStart (k + 1) - 1) hk₀ hk (by have := c.pagesPerSector_pos; omega) (by omega)
        refine ⟨_, hp.1, hp.2, ?_⟩
        have hin : InStore c (c.sectorStart (k + 1)) := by
          have := hentry.2.1
          have := hp.1.1
          exact ⟨by omega, by omega⟩
        rw [Bool.not_eq_true] at hlast
        rw [l.extent_all hin hkind (by omega) (by omega), hlast]
        rfl
      exact iff_of_true (by dsimp only; omega) (h.obsolete_iff.2 hobsolete)
    · exact Iff.rfl
  · refine scans_of_over hk (by omega) hentry fun h₀ => ?_
    obtain ⟨a, n, hkind, hlt, hend, -⟩ := h.last (by omega)
    exact ⟨a, n, hkind, hlt, by omega⟩

theorem Layout.Scans.status_within (h : l.Scans k scan) (hk₀ : 0 ≤ k) (hle : c.pagesPerSector ≤ scan.skipPages) :
    (l.HasActive k ↔ scan.lastPagesAreActive = true) ∧ (l.HasObsolete k ↔ scan.lastPagesAreActive = false) ∧
      l.Scans (k + 1) ⟨scan.skipPages - c.pagesPerSector, scan.lastPagesAreActive⟩ := by
  have hpos := c.pagesPerSector_pos
  have hsucc := c.sectorStart_succ k
  obtain ⟨hk, a, n, hkind, ha, he⟩ := h.inside (by omega)
  have hin := (sector_page hk₀ hk le_rfl (by omega)).1
  have hall : ∀ p, InStore c p → c.sectorOf p = k → l.kind p = .extent a n scan.lastPagesAreActive := by
    intro p hp hs
    obtain ⟨h₁, h₂⟩ := c.sectorOf_eq_iff.1 hs
    exact l.extent_all hin hkind (by omega) (by omega)
  refine ⟨⟨?_, fun hlast => ?_⟩, ⟨?_, fun hlast => ?_⟩, ?_⟩
  · rintro ⟨p, hp, hs, hact⟩
    rwa [hall p hp hs] at hact
  · exact ⟨c.sectorStart k, hin, c.sectorOf_sectorStart k, by rw [hkind]; exact hlast⟩
  · rintro ⟨p, hp, hs, hobs⟩
    rw [hall p hp hs] at hobs
    simpa [Kind.isObsolete] using hobs
  · exact ⟨c.sectorStart k, hin, c.sectorOf_sectorStart k, by rw [hkind, hlast]; rfl⟩
  · refine scans_of_over hk (by omega) ?_ fun h₀ => ⟨a, n, l.extent_all hin hkind ?_ ?_, ?_, ?_⟩
    · rw [show c.sectorStart (k + 1) + (scan.skipPages - c.pagesPerSector) = c.sectorStart k + scan.skipPages by omega]
      exact h.entry
    all_goals omega

theorem scans_zero : l.Scans 0 ⟨0, false⟩ :=
  ⟨le_rfl, by rw [c.sectorStart_zero]; exact Layout.entry_zero, fun h => absurd h (lt_irrefl 0)⟩

theorem getSectorStatus_spec {fuel : Nat} (hfuel : c.pageCount < fuel) (hk₀ : 0 ≤ k) (hk : k < c.sectorCount)
    (hscan : l.Scans k scan) (hshow : ∀ p, InStore c p → c.sectorOf p = k → l.Shows m p) :
    ∃ r, getSectorStatus c fuel k scan m = some r ∧ l.Status k r := by
  have hsucc := c.sectorStart_succ k
  obtain ⟨scan', hscan', hs⟩ : ∃ scan', scan' = (if k = 0 then ⟨0, false⟩ else scan) ∧ l.Scans k scan' := by
    refine ⟨_, rfl, ?_⟩
    split_ifs with h₀
    · rw [h₀]
      exact scans_zero
    · exact hscan
  unfold getSectorStatus
  rw [← hscan']
  dsimp only
  by_cases hle : (c.pagesPerSector : Int) ≤ scan'.skipPages
  · obtain ⟨hactive, hobsolete, hnext⟩ := hs.status_within hk₀ hle
    have hpos : (0 : Int) < c.pagesPerSector := by exact_mod_cast c.pagesPerSector_pos
    rw [if_pos hle]
    cases hlast : scan'.lastPagesAreActive with
    | true =>
      rw [hlast] at hactive hobsolete hnext
      rw [if_pos rfl]
      refine ⟨_, rfl, iff_of_true hpos (hactive.2 rfl), iff_of_false (lt_irrefl 0) fun h => ?_, hnext, (if_pos (.inl rfl)).symm⟩
      cases hobsolete.1 h
    | false =>
      rw [hlast] at hactive hobsolete hnext
      rw [if_neg Bool.false_ne_true]
      refine ⟨_, rfl, iff_of_false (lt_irrefl 0) fun h => ?_, iff_of_true hpos (hobsolete.2 rfl), hnext, ?_⟩
      · cases hactive.1 h
      · simp
  · rw [if_neg hle, ← hsucc]
    have hcounted := hs.counted hk₀ (by omega)
    have hloop : ∃ r, loop (countStep c (c.sectorStart (k + 1)) m) fuel
        { page := c.sectorStart k + scan'.skipPages
          active := if scan'.lastPagesAreActive then scan'.skipPages else 0
          obsolete := if scan'.lastPagesAreActive then 0 else scan'.skipPages
          lastPagesAreActive := scan'.lastPagesAreActive } = some r ∧ l.Ended k r.1 r.2 := by
      refine loop_within (I := l.Counted k) (G := fun r => l.Ended k r.1 r.2) (μ := fun x => (c.pageCount - x.page).toNat)
        (fun x x' hx hstep => ?_) (fun x r hx hstep => (countStep_spec hk₀ hk hshow hx).2 r hstep) ?_ hcounted
      · have hx' := (countStep_spec hk₀ hk hshow hx).1 x' hstep
        have := hx'.1.entry.2.1
        exact ⟨hx'.1, by omega⟩
      · have := hcounted.entry.1
        omega
    obtain ⟨r, hr, hended⟩ := hloop
    rw [hr]
    exact ⟨_, rfl, hended.status hk₀ hk⟩

end

end Contiki.Coffee

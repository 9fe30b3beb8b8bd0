/-
The pages as the walk from the first one by `next_file` tells them, and `find_contiguous_pages`: it finds a run of free
pages behind `next_free` exactly when one does not end at the last page of the store.
-/
import Contiki.Coffee.Garbage

namespace Contiki.Coffee

section

open Contiki.Lib Layout

/-! ## The walk -/

section

variable (c : Config) (flash : Mem)

/-- The pages that `next_file` leads to from the first one. -/
inductive Walks : Int → Prop
  | zero : Walks 0
  | next {p : Int} : Walks p → InStore c p → Walks (nextFile c p (readHeader c p flash))

/-- The page is the one at `q`, or passed over there. -/
structure PageOf (q p : Int) : Prop where
  walks : Walks c flash q
  inStore : InStore c q
  le : q ≤ p
  lt : p < nextFile c q (readHeader c q flash)

def FreePage (p : Int) : Prop := ∃ q, PageOf c flash q p ∧ (readHeader c q flash).free = true

def ActivePage (p : Int) : Prop := ∃ q, PageOf c flash q p ∧ (readHeader c q flash).active = true

/-- A page of an obsolete extent, or an isolated one. -/
def ObsoletePage (p : Int) : Prop :=
  ∃ q, PageOf c flash q p ∧ (readHeader c q flash).allocated = true ∧ (readHeader c q flash).active = false

/-- The chain of extents is well formed: a free page has nothing but free pages behind it in its sector, and an extent has
pages and ends in the store. -/
structure WellFormed : Prop where
  free : ∀ q, Walks c flash q → InStore c q → (readHeader c q flash).free = true → ∀ p, q ≤ p → p < c.nextSector q → Blank c flash p
  extent : ∀ q, Walks c flash q → InStore c q → (readHeader c q flash).allocated = true →
    (readHeader c q flash).isolated = false →
      0 < (readHeader c q flash).maxPages.toInt ∧ q + (readHeader c q flash).maxPages.toInt ≤ c.pageCount

def ActiveSector (k : Int) : Prop := ∃ p, c.sectorOf p = k ∧ ActivePage c flash p

def ObsoleteSector (k : Int) : Prop := ∃ p, c.sectorOf p = k ∧ ObsoletePage c flash p

/-- An obsolete extent that begins in a sector with active pages meets active pages in all its sectors. -/
def CleanExtents : Prop :=
  ∀ q, Walks c flash q → InStore c q → (readHeader c q flash).allocated = true → (readHeader c q flash).isolated = false →
    (readHeader c q flash).active = false → ActiveSector c flash (c.sectorOf q) →
      ∀ p, PageOf c flash q p → ActiveSector c flash (c.sectorOf p)

end

variable {c : Config} {l : Layout c} {m : Mem} {p q k : Int}

theorem Layout.Holds.header (h : l.Holds m) (hq : l.Entry p) (hlt : p < c.pageCount) :
    ((readHeader c p m).free = true ↔ l.kind p = .free) ∧
      ((readHeader c p m).active = true ↔ ∃ n, l.kind p = .extent p n true) ∧ nextFile c p (readHeader c p m) = l.next p :=
  (h p (hq.inStore hlt)).header (hq.inStore hlt) (hq.2.2 hlt)

theorem Layout.Holds.walks_entry (h : l.Holds m) (hp : Walks c m p) : l.Entry p := by
  induction hp with
  | zero => exact entry_zero
  | next _ hin ih =>
    rw [(h.header ih hin.2).2.2]
    exact ih.next hin.2

/-- The walk comes to every page, or passes over it. -/
theorem Layout.Holds.pageOf (h : l.Holds m) (hp : InStore c p) : ∃ q, PageOf c m q p := by
  by_contra hnone
  -- else the walk would stay before the page, and yet go on and on
  have hstep : ∀ q, Walks c m q → q ≤ p → Walks c m (l.next q) ∧ q < l.next q ∧ l.next q ≤ p := by
    intro q hq hle
    have hin : InStore c q := ⟨(h.walks_entry hq).1, by have := hp.2; omega⟩
    have hnext := (h.header (h.walks_entry hq) hin.2).2.2
    refine ⟨hnext ▸ hq.next hin, lt_next hin, ?_⟩
    by_contra hlt
    exact hnone ⟨q, hq, hin, hle, by rw [hnext]; omega⟩
  have hfar : ∀ i : Nat, ∃ q, Walks c m q ∧ (i : Int) ≤ q ∧ q ≤ p := by
    intro i
    induction i with
    | zero => exact ⟨0, .zero, le_rfl, hp.1⟩
    | succ i ih =>
      obtain ⟨q, hq, hi, hle⟩ := ih
      obtain ⟨hq', hlt, hle'⟩ := hstep q hq hle
      exact ⟨l.next q, hq', by omega, hle'⟩
  obtain ⟨q, -, h₁, h₂⟩ := hfar (p.toNat + 1)
  have := hp.1
  omega

theorem Layout.Holds.kind_of (h : l.Holds m) (hq : PageOf c m q p) : InStore c p ∧ l.kind p = l.kind q := by
  have hentry := h.walks_entry hq.walks
  have hlt := hq.lt
  have hle := hq.le
  have hpos := hq.inStore.1
  rw [(h.header hentry hq.inStore.2).2.2] at hlt
  have hend := next_le (l := l) hq.inStore
  exact ⟨⟨by omega, by omega⟩, kind_between hq.inStore hle hlt⟩

theorem Layout.Holds.freePage_iff (h : l.Holds m) : FreePage c m p ↔ InStore c p ∧ l.kind p = .free := by
  constructor
  · rintro ⟨q, hq, hfree⟩
    obtain ⟨hin, hkind⟩ := h.kind_of hq
    exact ⟨hin, hkind.trans ((h.header (h.walks_entry hq.walks) hq.inStore.2).1.1 hfree)⟩
  · rintro ⟨hin, hkind⟩
    obtain ⟨q, hq⟩ := h.pageOf hin
    exact ⟨q, hq, (h.header (h.walks_entry hq.walks) hq.inStore.2).1.2 ((h.kind_of hq).2.symm.trans hkind)⟩

theorem Layout.Holds.active_iff (h : l.Holds m) (hp : l.Entry p) (hlt : p < c.pageCount) :
    (readHeader c p m).active = true ↔ (l.kind p).isActive = true := by
  rw [(h.header hp hlt).2.1, Kind.isActive_iff]
  constructor
  · rintro ⟨n, hn⟩
    exact ⟨p, n, hn⟩
  · rintro ⟨a, n, hn⟩
    obtain rfl := hp.2.2 hlt a n true hn
    exact ⟨n, hn⟩

theorem Layout.Holds.activePage_iff (h : l.Holds m) : ActivePage c m p ↔ InStore c p ∧ (l.kind p).isActive = true := by
  constructor
  · rintro ⟨q, hq, hact⟩
    obtain ⟨hin, hkind⟩ := h.kind_of hq
    exact ⟨hin, hkind ▸ (h.active_iff (h.walks_entry hq.walks) hq.inStore.2).1 hact⟩
  · rintro ⟨hin, hkind⟩
    obtain ⟨q, hq⟩ := h.pageOf hin
    exact ⟨q, hq, (h.active_iff (h.walks_entry hq.walks) hq.inStore.2).2 ((h.kind_of hq).2 ▸ hkind)⟩

theorem Kind.isObsolete_iff {k : Kind} : k.isObsolete = true ↔ k ≠ .free ∧ k.isActive ≠ true := by
  cases k <;> simp [isObsolete, isActive]

theorem Layout.Holds.obsoletePage_iff (h : l.Holds m) :
    ObsoletePage c m p ↔ InStore c p ∧ (l.kind p).isObsolete = true := by
  have hkinds : ∀ q, PageOf c m q p → ((readHeader c q m).allocated = true ∧ (readHeader c q m).active = false ↔
      (l.kind p).isObsolete = true) := by
    intro q hq
    have hentry := h.walks_entry hq.walks
    have hfree := (h.header hentry hq.inStore.2).1
    rw [(h.kind_of hq).2, Kind.isObsolete_iff, ne_eq, ← hfree, ne_eq, ← h.active_iff hentry hq.inStore.2]
    unfold FileHeader.free
    simp
  constructor
  · rintro ⟨q, hq, hobs⟩
    exact ⟨(h.kind_of hq).1, (hkinds q hq).1 hobs⟩
  · rintro ⟨hin, hkind⟩
    obtain ⟨q, hq⟩ := h.pageOf hin
    exact ⟨q, hq, (hkinds q hq).2 hkind⟩

theorem Layout.Holds.activeSector_iff (h : l.Holds m) : ActiveSector c m k ↔ l.HasActive k := by
  constructor
  · rintro ⟨p, hs, hp⟩
    obtain ⟨hin, hkind⟩ := h.activePage_iff.1 hp
    exact ⟨p, hin, hs, hkind⟩
  · rintro ⟨p, hin, hs, hkind⟩
    exact ⟨p, hs, h.activePage_iff.2 ⟨hin, hkind⟩⟩

theorem Layout.Holds.obsoleteSector_iff (h : l.Holds m) : ObsoleteSector c m k ↔ l.HasObsolete k := by
  constructor
  · rintro ⟨p, hs, hp⟩
    obtain ⟨hin, hkind⟩ := h.obsoletePage_iff.1 hp
    exact ⟨p, hin, hs, hkind⟩
  · rintro ⟨p, hin, hs, hkind⟩
    exact ⟨p, hs, h.obsoletePage_iff.2 ⟨hin, hkind⟩⟩

theorem Layout.Holds.wellFormed (h : l.Holds m) : WellFormed c m := by
  refine ⟨fun q hq hin hfree p hle hlt => ?_, fun q hq hin halloc hiso => ?_⟩
  · have hkind := (h.header (h.walks_entry hq) hin.2).1.1 hfree
    have hp : InStore c p := ⟨by have := hin.1; omega, by have := c.nextSector_le hin.2; omega⟩
    exact (shows_free (l.free_rest hin hkind hle hlt)).1 (h p hp)
  · have hentry := h.walks_entry hq
    cases hkind : l.kind q with
    | free =>
      rw [← (h.header hentry hin.2).1] at hkind
      unfold FileHeader.free at hkind
      rw [halloc] at hkind
      cases hkind
    | isolated =>
      have := ((shows_isolated hkind).1 (h q hin)).2
      rw [hiso] at this
      cases this
    | extent a n act =>
      obtain rfl := hentry.2.2 hin.2 a n act hkind
      have hext := l.extent_in hin hkind
      rw [((shows_extent hkind).1 (h a hin) rfl).maxPages]
      exact ⟨by omega, by omega⟩

theorem Layout.Holds.clean_iff (h : l.Holds m) : CleanExtents c m ↔ l.Clean := by
  constructor
  · intro hc a n ha hkind hact q hle hlt
    have hin := l.extent_in ha hkind
    obtain ⟨r, hr⟩ := h.pageOf ha
    -- the walk comes to the first page of the extent
    obtain rfl : a = r := by
      have hentry := h.walks_entry hr.walks
      refine hentry.2.2 hr.inStore.2 a n false ?_
      rw [← (h.kind_of hr).2, hkind]
    obtain ⟨halloc, hiso, hobs, hm⟩ := (shows_extent hkind).1 (h a ha) rfl
    have hnext := (h.header (h.walks_entry hr.walks) ha.2).2.2
    rw [next_extent hkind] at hnext
    rw [← h.activeSector_iff] at hact ⊢
    refine hc a hr.walks ha halloc hiso ?_ hact q ⟨hr.walks, ha, hle, by rw [hnext]; exact hlt⟩
    rw [← Bool.not_eq_true, h.active_iff (h.walks_entry hr.walks) ha.2, hkind]
    exact Bool.false_ne_true
  · intro hc q hq hin halloc hiso hnot hact p hp
    have hentry := h.walks_entry hq
    rw [h.activeSector_iff] at hact ⊢
    cases hkind : l.kind q with
    | free =>
      rw [← (h.header hentry hin.2).1] at hkind
      unfold FileHeader.free at hkind
      rw [halloc] at hkind
      cases hkind
    | isolated =>
      have := ((shows_isolated hkind).1 (h q hin)).2
      rw [hiso] at this
      cases this
    | extent a n act =>
      obtain rfl := hentry.2.2 hin.2 a n act hkind
      cases act with
      | true =>
        rw [(h.active_iff hentry hin.2).2 (by rw [hkind]; rfl)] at hnot
        cases hnot
      | false =>
        have hlt := hp.lt
        rw [(h.header hentry hin.2).2.2, next_extent hkind] at hlt
        exact hc a n hin hkind hact p hp.le hlt

/-! ## Runs of free pages -/

def RunOf (f : Int → Prop) (a pages : Int) : Prop := ∀ p, a ≤ p → p < a + pages → f p

/-- A run of free pages from `lo` on that ends before the last page of the store. -/
def Layout.HasRun (l : Layout c) (lo pages : Int) : Prop :=
  ∃ a, lo ≤ a ∧ a + pages < c.pageCount ∧ RunOf (fun p => l.kind p = .free) a pages

/-- What `find_contiguous_pages` returns. -/
def Layout.Found (l : Layout c) (lo pages a : Int) : Prop :=
  if a = invalidPage then ¬l.HasRun lo pages
  else lo ≤ a ∧ a + pages < c.pageCount ∧ RunOf (fun p => l.kind p = .free) a pages ∧
    (a = lo ∨ l.kind (a - 1) ≠ .free)

/-- The loop of `find_contiguous_pages` has come to a page: no run that it could find begins before the one it is in, if it
is in one. -/
structure Layout.Searching (l : Layout c) (lo pages : Int) (x : Search) : Prop where
  entry : l.Entry x.page
  lo_le : lo ≤ x.page
  run : x.start ≠ invalidPage → lo ≤ x.start ∧ x.start < x.page ∧ x.start + pages < c.pageCount ∧
    x.page < x.start + pages ∧ ∀ p, x.start ≤ p → p < x.page → l.kind p = .free
  later : ∀ a, lo ≤ a → a + pages < c.pageCount → RunOf (fun p => l.kind p = .free) a pages →
    (if x.start = invalidPage then x.page else x.start) ≤ a
  first : (if x.start = invalidPage then x.page else x.start) = lo ∨
    l.kind ((if x.start = invalidPage then x.page else x.start) - 1) ≠ .free

variable {lo pages : Int}

theorem searchStep_spec (h : l.Holds m) (hpages : 0 < pages) {x : Search} (hx : l.Searching lo pages x) :
    (∀ x', searchStep c pages m x = .inl x' → l.Searching lo pages x' ∧ x.page < x'.page) ∧
      ∀ a, searchStep c pages m x = .inr a → l.Found lo pages a := by
  obtain ⟨page, start⟩ := x
  obtain ⟨hentry, hle, hrun, hlater, hfresh⟩ := hx
  dsimp only at hentry hle hrun hlater hfresh ⊢
  have hpage : page ≠ invalidPage := by
    have := hentry.1
    unfold invalidPage
    omega
  unfold searchStep
  dsimp only
  by_cases hlt : page < c.pageCount
  · obtain ⟨hfree, -, hnext⟩ := h.header hentry hlt
    have hin := hentry.inStore hlt
    have hgt := lt_next (l := l) hin
    have hbetween := fun q (h₁ : page ≤ q) (h₂ : q < l.next page) => kind_between (l := l) hin h₁ h₂
    rw [if_pos hlt, hnext]
    by_cases hkind : l.kind page = .free
    · rw [if_pos (hfree.2 hkind)]
      -- from where the run goes on, or begins
      obtain ⟨first, hfirst⟩ : ∃ first, first = if start = invalidPage then page else start := ⟨_, rfl⟩
      rw [← hfirst] at hlater hfresh ⊢
      have hnot : first ≠ invalidPage := by
        rw [hfirst]
        split_ifs with hs
        · exact hpage
        · exact hs
      have hfirst_le : lo ≤ first ∧ first ≤ page ∧ ∀ p, first ≤ p → p < page → l.kind p = .free := by
        rw [hfirst]
        split_ifs with hs
        · exact ⟨hle, le_rfl, fun p h₁ h₂ => by omega⟩
        · obtain ⟨h₁, h₂, -, -, h₅⟩ := hrun hs
          exact ⟨h₁, h₂.le, h₅⟩
      have hpassed : ∀ p, first ≤ p → p < l.next page → l.kind p = .free := by
        intro p h₁ h₂
        by_cases hp : p < page
        · exact hfirst_le.2.2 p h₁ hp
        · exact (hbetween p (by omega) h₂).trans hkind
      by_cases hend : start = invalidPage ∧ (c.pageCount : Int) ≤ first + pages
      · rw [if_pos hend]
        refine ⟨by rintro _ ⟨⟩, ?_⟩
        rintro a ⟨⟩
        unfold Found
        rw [if_pos rfl]
        rintro ⟨a, h₁, h₂, h₃⟩
        have := hlater a h₁ h₂ h₃
        omega
      · rw [if_neg hend]
        have hroom : first + pages < c.pageCount := by
          by_cases hs : start = invalidPage
          · rw [not_and] at hend
            have := hend hs
            omega
          · rw [hfirst, if_neg hs]
            exact (hrun hs).2.2.1
        by_cases hfound : first + pages ≤ l.next page
        · rw [if_pos hfound]
          refine ⟨by rintro _ ⟨⟩, ?_⟩
          rintro a ⟨⟩
          unfold Found
          rw [if_neg hnot]
          exact ⟨hfirst_le.1, hroom, fun p h₁ h₂ => hpassed p h₁ (by omega), hfresh⟩
        · rw [if_neg hfound]
          refine ⟨?_, by rintro _ ⟨⟩⟩
          rintro x' ⟨⟩
          refine ⟨⟨hentry.next hlt, by dsimp only; omega, fun _ => ?_, ?_, ?_⟩, hgt⟩
          · exact ⟨hfirst_le.1, by dsimp only; omega, hroom, by dsimp only; omega, hpassed⟩
          · dsimp only
            rw [if_neg hnot]
            exact hlater
          · dsimp only
            rw [if_neg hnot]
            exact hfresh
    · rw [if_neg fun he => hkind (hfree.1 he)]
      refine ⟨?_, by rintro _ ⟨⟩⟩
      rintro x' ⟨⟩
      refine ⟨⟨hentry.next hlt, by dsimp only; omega, fun hs => absurd rfl hs, ?_, .inr ?_⟩, hgt⟩
      rotate_left
      · dsimp only
        rw [if_pos rfl, hbetween _ (by omega) (by omega)]
        exact hkind
      intro a h₁ h₂ h₃
      have hge := hlater a h₁ h₂ h₃
      dsimp only
      rw [if_pos rfl]
      by_contra hlt'
      -- the run would have a page that is not free
      have hcross : ∃ p, a ≤ p ∧ p < a + pages ∧ page ≤ p ∧ p < l.next page := by
        by_cases hap : a < page
        · refine ⟨page, hap.le, ?_, le_rfl, hgt⟩
          split_ifs at hge with hs
          · omega
          · have := (hrun hs).2.2.2.1
            omega
        · exact ⟨a, le_rfl, by omega, by omega, by omega⟩
      obtain ⟨p, hp₁, hp₂, hp₃, hp₄⟩ := hcross
      exact hkind ((hbetween p hp₃ hp₄).symm.trans (h₃ p hp₁ hp₂))
  · rw [if_neg hlt]
    refine ⟨by rintro _ ⟨⟩, ?_⟩
    rintro a ⟨⟩
    unfold Found
    rw [if_pos rfl]
    rintro ⟨a, h₁, h₂, h₃⟩
    have hge := hlater a h₁ h₂ h₃
    split_ifs at hge with hs
    · omega
    · have := (hrun hs).2.2.2.1
      omega

/-- `next_free` moves behind the pages that are found at it. -/
def findState (pages a : Int) (s : Store) : Store :=
  if a ≠ invalidPage ∧ a = s.nextFree then { s with nextFree := a + pages } else s

theorem findContiguousPages_spec {fuel : Nat} (hfuel : c.pageCount < fuel) {s : Store} (h : l.Holds s.flash)
    (hentry : l.Entry s.nextFree) (hpages : 0 < pages) :
    ∃ a, findContiguousPages c fuel pages s = some (a, findState pages a s) ∧ l.Found s.nextFree pages a := by
  have hcount := c.pageCount_lt
  have hloop : ∃ a, loop (searchStep c pages s.flash) fuel ⟨s.nextFree, invalidPage⟩ = some a ∧
      l.Found s.nextFree pages a := by
    refine loop_within (I := l.Searching s.nextFree pages) (G := l.Found s.nextFree pages)
      (μ := fun x => (c.pageCount - x.page).toNat) (fun x x' hx hstep => ?_)
      (fun x a hx hstep => (searchStep_spec h hpages hx).2 a hstep) ?_
      ⟨hentry, le_rfl, fun hs => absurd rfl hs, ?_, .inl (if_pos rfl)⟩
    · have hx' := (searchStep_spec h hpages hx).1 x' hstep
      have := hx'.1.entry.2.1
      exact ⟨hx'.1, by omega⟩
    · have := hentry.1
      dsimp only
      omega
    · intro a ha _ _
      exact ha
  obtain ⟨a, ha, hfound⟩ := hloop
  refine ⟨a, ?_, hfound⟩
  unfold findContiguousPages
  rw [ha, Option.map_some, Option.some.injEq, Prod.mk.injEq, and_iff_right rfl]
  unfold findState
  split_ifs with hs
  · unfold Found at hfound
    rw [if_neg hs.1] at hfound
    have := hentry.1
    rw [toPage_of_mem (by omega) (by omega)]
  · rfl

end

/-!
What happens to a layout: pages are reserved, an extent becomes obsolete, all is collected or erased. The allocation is
sound when the storage holds a layout, `next_free` is a lower bound of the free pages where something begins, and
`gc_wait` is set only while there is nothing to collect.
-/

section

open Contiki.Lib Layout

/-! ## Flags -/

theorem FileHeader.checkFlag_or {hdr hdr' : FileHeader} {v f : UInt8} (h : hdr'.flags = hdr.flags ||| v) (hvf : v &&& f = 0) :
    hdr'.checkFlag f = hdr.checkFlag f := by
  have hand : (hdr.flags ||| v) &&& f = hdr.flags &&& f := by
    apply UInt8.toBitVec_inj.1
    have hz := UInt8.toBitVec_inj.2 hvf
    rw [UInt8.toBitVec_and] at hz
    rw [UInt8.toBitVec_and, UInt8.toBitVec_or, UInt8.toBitVec_and, BitVec.and_or_distrib_right, hz]
    exact BitVec.or_zero
  unfold checkFlag
  rw [h, hand]

variable {c : Config}

/-! ## Edits of layouts -/

namespace Kind

/-- The extent at `a` becomes obsolete. -/
def discard (a : Int) : Kind → Kind
  | .extent b n act => .extent b n (if b = a then false else act)
  | .isolated => .isolated
  | .free => .free

variable {k : Kind} {a b n : Int} {act : Bool}

theorem discard_free : k.discard a = .free ↔ k = .free := by
  cases k <;> simp [discard]

theorem discard_isolated : k.discard a = .isolated ↔ k = .isolated := by
  cases k <;> simp [discard]

theorem discard_extent : k.discard a = .extent b n act ↔
    ∃ act', k = .extent b n act' ∧ act = if b = a then false else act' := by
  cases k with
  | free => simp [discard]
  | isolated => simp [discard]
  | extent b' n' act' =>
    unfold discard
    constructor
    · rintro ⟨⟩
      exact ⟨act', rfl, rfl⟩
    · rintro ⟨act'', ⟨⟩, rfl⟩
      rfl

end Kind

namespace Layout

variable (l : Layout c) {a n p q : Int} {act : Bool}

/-- The free pages from `a` on become an extent. -/
def allocate (a pages : Int) (hin : 0 ≤ a ∧ a + pages ≤ c.pageCount) (hrun : RunOf (fun p => l.kind p = .free) a pages)
    (hfirst : ∀ p, InStore c p → p < a → c.sectorOf p = c.sectorOf a → l.kind p ≠ .free) : Layout c where
  kind p := if a ≤ p ∧ p < a + pages then .extent a pages true else l.kind p
  extent_in {p b n act} hp hkind := by
    split_ifs at hkind with h
    · cases hkind
      exact ⟨hin.1, h.1, h.2, hin.2⟩
    · exact l.extent_in hp hkind
  extent_all {p q b n act} hp hkind hle hlt := by
    split_ifs at hkind with h
    · cases hkind
      exact if_pos ⟨hle, hlt⟩
    · have hq := l.extent_all hp hkind hle hlt
      rw [if_neg, hq]
      rintro ⟨h₁, h₂⟩
      rw [hrun q h₁ h₂] at hq
      cases hq
  free_rest {p q} hp hkind hle hlt := by
    split_ifs at hkind with h
    have hq := l.free_rest hp hkind hle hlt
    rw [if_neg, hq]
    rintro ⟨h₁, h₂⟩
    -- the free page before the run would lie in the sector where the run begins
    have hpa : p < a := by
      by_contra hpa
      exact h ⟨by omega, by omega⟩
    refine hfirst p hp hpa ?_ hkind
    exact (c.sectorOf_between hpa.le (by omega)).symm

/-- The extent at `a` becomes obsolete. -/
def discard (a : Int) : Layout c where
  kind p := (l.kind p).discard a
  extent_in {p b n act} hp hkind := by
    obtain ⟨act', hk, -⟩ := Kind.discard_extent.1 hkind
    exact l.extent_in hp hk
  extent_all {p q b n act} hp hkind hle hlt := by
    obtain ⟨act', hk, he⟩ := Kind.discard_extent.1 hkind
    exact Kind.discard_extent.2 ⟨act', l.extent_all hp hk hle hlt, he⟩
  free_rest {p q} hp hkind hle hlt :=
    Kind.discard_free.2 (l.free_rest hp (Kind.discard_free.1 hkind) hle hlt)

def empty (c : Config) : Layout c where
  kind _ := .free
  extent_in _ hkind := by cases hkind
  extent_all _ hkind := by cases hkind
  free_rest _ _ _ _ := rfl

variable {l}

theorem allocate_inside {pages : Int} {hin hrun hfirst} (h : a ≤ p ∧ p < a + pages) :
    (l.allocate a pages hin hrun hfirst).kind p = .extent a pages true := if_pos h

theorem allocate_outside {pages : Int} {hin hrun hfirst} (h : ¬(a ≤ p ∧ p < a + pages)) :
    (l.allocate a pages hin hrun hfirst).kind p = l.kind p := if_neg h

end Layout

/-! ## Sound allocation -/

/-- The allocation is as the functions leave it. -/
structure Sound (l : Layout c) (s : Store) : Prop where
  holds : l.Holds s.flash
  entry : l.Entry s.nextFree
  below : ∀ p, InStore c p → l.kind p = .free → s.nextFree ≤ p
  gcWait : s.gcWait = true → ∀ k, ¬l.Reclaimed k

variable {l : Layout c} {s t : Store} {m : Mem} {a n p pages : Int} {act : Bool} {hdr : FileHeader}

theorem Sound.congr (h : Sound l s) (hflash : t.flash = s.flash) (hnext : t.nextFree = s.nextFree)
    (hwait : t.gcWait = s.gcWait) : Sound l t := by
  obtain ⟨h₁, h₂, h₃, h₄⟩ := h
  rw [← hflash] at h₁
  rw [← hnext] at h₂ h₃
  rw [← hwait] at h₄
  exact ⟨h₁, h₂, h₃, h₄⟩

/-! ### Collecting -/

theorem Sound.collect {fuel : Nat} (h : Sound l s) (hfuel : c.pageCount < fuel) (hclean : l.Clean) :
    ∃ t, collectGarbage c fuel .greedy s = some t ∧ Sound (l.collected hclean) t ∧
      t.coffeeFiles = s.coffeeFiles ∧ t.coffeeFdSet = s.coffeeFdSet ∧ t.gcWait = s.gcWait := by
  obtain ⟨t, ht, hcol⟩ := collectGarbage_spec hfuel hclean h.holds h.entry
  have hfiles := congrArg Store.coffeeFiles hcol.rest
  have hfds := congrArg Store.coffeeFdSet hcol.rest
  have hwait := congrArg Store.gcWait hcol.rest
  refine ⟨t, ht, ⟨hcol.holds, hcol.entry, fun p hp hkind => ?_, fun _ k => not_reclaimed_collected hclean⟩,
    hfiles, hfds, hwait⟩
  rcases collected_eq_free.1 hkind with hfree | hgone
  · have h₁ := h.below p hp hfree
    have h₂ := hcol.nextFree_le
    omega
  · exact hcol.below p hp hgone

/-! ### Writing -/

theorem Layout.Holds.write {l' : Layout c} (h : l.Holds m) (ha : InStore c a) (hstart : l'.kind a = .extent a n act)
    (hname : hdr.name.length = c.nameLength) (hhdr : ({ hdr with flags := hdr.flags ||| flagValid } : FileHeader).IsExtent n act)
    (hother : ∀ p, InStore c p → l.Shows m p → p ≠ a → l'.Shows m p) : l'.Holds (writeHeader c hdr a m) := by
  intro p hp
  by_cases hpa : p = a
  · subst hpa
    rw [shows_extent hstart, readHeader_writeHeader c hname]
    exact fun _ => hhdr
  · refine (hother p hp (h p hp) hpa).congr hp fun x h₁ h₂ => writeHeader_of_out c ha.1 ha.2 ?_
    have hsize := c.headerSize_le
    rcases lt_or_gt_of_ne hpa with hlt | hlt
    · have := c.page_before hp.1 hlt
      omega
    · have := c.page_before ha.1 hlt
      omega

theorem readHeader_name (p : Int) (m : Mem) : (readHeader c p m).name.length = c.nameLength :=
  Mem.length_read _ _ _

theorem Sound.rewrite (h : Sound l s) (ha : InStore c a) (hkind : l.kind a = .extent a n true)
    (hname : hdr.name.length = c.nameLength)
    (hhdr : ({ hdr with flags := hdr.flags ||| flagValid } : FileHeader).IsExtent n true) :
    Sound l { s with flash := writeHeader c hdr a s.flash } :=
  ⟨h.holds.write ha hkind hname hhdr fun _ _ hp _ => hp, h.entry, h.below, h.gcWait⟩

theorem Sound.data (h : Sound l s) (ha : InStore c a) (hkind : l.kind a = .extent a n act)
    (hm : ∀ x, x < a.toNat * c.pageSize + c.headerSize ∨ (a + n).toNat * c.pageSize ≤ x → m x = s.flash x) :
    Sound l { s with flash := m } := by
  refine ⟨fun p hp => ?_, h.entry, h.below, h.gcWait⟩
  have hin := l.extent_in ha hkind
  by_cases hpa : p = a
  · subst hpa
    have hshow := h.holds p hp
    rw [shows_extent hkind] at hshow ⊢
    rwa [readHeader_congr c hp.1 hp.2 fun x h₁ h₂ => hm x (.inl h₂)]
  by_cases hinside : a ≤ p ∧ p < a + n
  · exact shows_inside (l.extent_all ha hkind hinside.1 hinside.2) (Ne.symm hpa)
  · refine (h.holds p hp).congr hp fun x h₁ h₂ => hm x ?_
    by_cases hlt : p < a
    · have := c.page_before hp.1 hlt
      omega
    · have : (a + n).toNat * c.pageSize ≤ p.toNat * c.pageSize := Nat.mul_le_mul_right _ (by omega)
      omega

/-! ### Allocating -/

theorem Sound.allocate (h : Sound l s) (hpages : 0 < pages) (hfound : l.Found s.nextFree pages a) (hne : a ≠ invalidPage)
    (hname : hdr.name.length = c.nameLength)
    (hhdr : ({ hdr with flags := hdr.flags ||| flagValid } : FileHeader).IsExtent pages true) :
    ∃ l' : Layout c, Sound l' { findState pages a s with flash := writeHeader c hdr a (findState pages a s).flash } ∧
      l'.kind a = .extent a pages true ∧ ∀ p, ¬(a ≤ p ∧ p < a + pages) → l'.kind p = l.kind p := by
  unfold Found at hfound
  rw [if_neg hne] at hfound
  obtain ⟨hlo, hroom, hrun, hfresh⟩ := hfound
  have hpos := h.entry.1
  have hin : 0 ≤ a ∧ a + pages ≤ c.pageCount := ⟨by omega, hroom.le⟩
  have ha : InStore c a := ⟨hin.1, by omega⟩
  have hfirst : ∀ p, InStore c p → p < a → c.sectorOf p = c.sectorOf a → l.kind p ≠ .free := by
    intro p hp hlt hs hfree
    have hge := h.below p hp hfree
    rcases hfresh with rfl | hfresh
    · omega
    · refine hfresh (l.free_rest hp hfree (by omega) ?_)
      rw [c.nextSector_eq, hs, ← c.nextSector_eq]
      have := c.lt_nextSector a
      omega
  have hkind : (l.allocate a pages hin hrun hfirst).kind a = .extent a pages true := allocate_inside ⟨le_rfl, by omega⟩
  have hflash : (findState pages a s).flash = s.flash := by
    unfold findState
    split_ifs <;> rfl
  have hwait : (findState pages a s).gcWait = s.gcWait := by
    unfold findState
    split_ifs <;> rfl
  refine ⟨l.allocate a pages hin hrun hfirst, ⟨?_, ?_, ?_, ?_⟩, hkind, fun p hp => allocate_outside hp⟩
  · dsimp only
    rw [hflash]
    refine h.holds.write ha hkind hname hhdr fun p hp hshow hpa => ?_
    by_cases hinside : a ≤ p ∧ p < a + pages
    · exact shows_inside (allocate_inside hinside) (Ne.symm hpa)
    · unfold Shows at hshow ⊢
      rwa [allocate_outside hinside]
  · -- `next_free` stays where it was, before the run, or moves behind the run
    unfold findState
    split_ifs with hs
    · have hlast : InStore c (a + pages - 1) := ⟨by omega, by omega⟩
      have hentry := entry_of_free hlast (hrun _ (by omega) (by omega))
      rw [show a + pages - 1 + 1 = a + pages by omega] at hentry
      refine ⟨hentry.1, hentry.2.1, fun hlt b n act hk => ?_⟩
      rw [allocate_outside (by dsimp only; omega)] at hk
      exact hentry.2.2 hlt b n act hk
    · rw [not_and] at hs
      have hlt : s.nextFree < a := by
        have := hs hne
        omega
      refine ⟨h.entry.1, h.entry.2.1, fun hlt' b n act hk => ?_⟩
      rw [allocate_outside (by dsimp only; omega)] at hk
      exact h.entry.2.2 hlt' b n act hk
  · intro p hp hfree
    have hout : ¬(a ≤ p ∧ p < a + pages) := by
      intro hinside
      rw [allocate_inside hinside] at hfree
      cases hfree
    rw [allocate_outside hout] at hfree
    have hge := h.below p hp hfree
    unfold findState
    split_ifs with hs
    · dsimp only
      omega
    · exact hge
  · dsimp only
    rw [hwait]
    rintro hw k ⟨hnone, q, hq, hsq, hobs⟩
    have hout : ¬(a ≤ q ∧ q < a + pages) := by
      intro hinside
      rw [allocate_inside hinside] at hobs
      cases hobs
    rw [allocate_outside hout] at hobs
    refine h.gcWait hw k ⟨?_, q, hq, hsq, hobs⟩
    rintro ⟨r, hr, hsr, hact⟩
    refine hnone ⟨r, hr, hsr, ?_⟩
    by_cases hinside : a ≤ r ∧ r < a + pages
    · rw [allocate_inside hinside]
      rfl
    · rwa [allocate_outside hinside]

/-! ### Discarding -/

theorem Sound.discard (h : Sound l s) (ha : InStore c a) (hkind : l.kind a = .extent a n true)
    (hname : hdr.name.length = c.nameLength)
    (hhdr : ({ hdr with flags := hdr.flags ||| flagValid } : FileHeader).IsExtent n false) :
    Sound (l.discard a) { s with flash := writeHeader c hdr a s.flash, gcWait := false } := by
  refine ⟨?_, ?_, ?_, by rintro ⟨⟩⟩
  · have hkind' : (l.discard a).kind a = .extent a n false := Kind.discard_extent.2 ⟨true, hkind, (if_pos rfl).symm⟩
    refine h.holds.write ha hkind' hname hhdr fun p hp hshow hpa => ?_
    cases hk : l.kind p with
    | free => exact (shows_free (Kind.discard_free.2 hk)).2 ((shows_free hk).1 hshow)
    | isolated => exact (shows_isolated (Kind.discard_isolated.2 hk)).2 ((shows_isolated hk).1 hshow)
    | extent b n' act =>
      refine (shows_extent (Kind.discard_extent.2 ⟨act, hk, rfl⟩)).2 fun hb => ?_
      rw [if_neg (by rw [hb]; exact hpa)]
      exact (shows_extent hk).1 hshow hb
  · refine ⟨h.entry.1, h.entry.2.1, fun hlt b n' act hk => ?_⟩
    obtain ⟨act', hk, -⟩ := Kind.discard_extent.1 hk
    exact h.entry.2.2 hlt b n' act' hk
  · intro p hp hfree
    exact h.below p hp (Kind.discard_free.1 hfree)

/-! ### Erasing all -/

theorem eraseSectors_blank : ∀ {i : Nat}, i ≤ c.sectorCount → ∀ p, InStore c p → c.sectorOf p < i →
    Blank c (eraseSectors c i m) p
  | 0, _, p, hp, hs => absurd hs (by have := c.sectorOf_nonneg hp.1; omega)
  | i + 1, hi, p, hp, hs => by
    by_cases hlast : c.sectorOf p = i
    · exact erase_blank (Int.natCast_nonneg i) (by omega) hp hlast
    · have hprev := eraseSectors_blank (show i ≤ c.sectorCount by omega) p hp (by omega)
      intro x h₁ h₂
      exact (erase_elsewhere (Int.natCast_nonneg i) (by omega) hp hlast h₁ h₂).trans (hprev x h₁ h₂)

theorem sound_format (s : Store) : Sound (empty c) (format c s) := by
  refine ⟨fun p hp => ?_, entry_zero, fun p hp _ => hp.1, ?_⟩
  · exact (shows_free rfl).2 (eraseSectors_blank le_rfl p hp (c.sectorOf_lt hp.2))
  · rintro - k ⟨-, p, -, -, hobs⟩
    cases hobs

end

end Contiki.Coffee

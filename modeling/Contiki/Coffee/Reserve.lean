/-
Reservation in runs of the allocation: as long as every collection finds the extents clean, `reserve` finds its pages
exactly when, behind a greedy collection, a run of so many free pages does not end at the last page of the store, and
`next_free` stays a lower bound of the free pages. The run that ends there is given up by the test that should only stop
the search when the remaining pages are not enough.
-/
import Contiki.Coffee.Search
import Contiki.Lib.Run

namespace Contiki.Coffee

open Contiki.Lib Layout

variable {c : Config} {l : Layout c} {s t : Store} {a n p pages : Int} {fuel : Nat} {name : List UInt8} {hdr : FileHeader}

/-! ## File objects -/

variable (c) in
def HasSlot (s : Store) : Prop := ∃ i < c.maxOpenFiles, (s.coffeeFiles i).free = true ∨ (s.coffeeFiles i).unreferenced = true

theorem loadSlot_isSome : (loadSlot c s).isSome = true ↔ HasSlot c s := by
  unfold loadSlot HasSlot
  cases h : (List.range c.maxOpenFiles).find? fun i => (s.coffeeFiles i).free with
  | some i =>
    refine iff_of_true rfl ⟨i, List.mem_range.1 (List.mem_of_find?_eq_some h), .inl ?_⟩
    exact List.find?_some (p := fun i => (s.coffeeFiles i).free) h
  | none =>
    rw [List.find?_eq_none] at h
    rw [List.find?_isSome]
    constructor
    · rintro ⟨i, hi, hu⟩
      exact ⟨i, List.mem_range.1 (List.mem_reverse.1 hi), .inr hu⟩
    · rintro ⟨i, hi, hf | hu⟩
      · exact absurd hf (h i (List.mem_range.2 hi))
      · exact ⟨i, List.mem_reverse.2 (List.mem_range.2 hi), hu⟩

theorem loadFile_eq (start : Int) (hdr : FileHeader) (s : Store) :
    (loadFile c start hdr s).1 = loadSlot c s ∧ (loadFile c start hdr s).2.flash = s.flash ∧
      (loadFile c start hdr s).2.nextFree = s.nextFree ∧ (loadFile c start hdr s).2.gcWait = s.gcWait := by
  unfold loadFile
  cases loadSlot c s with
  | none => exact ⟨rfl, rfl, rfl, rfl⟩
  | some i => exact ⟨rfl, rfl, rfl, rfl⟩

theorem findFile_spec (hfuel : c.pageCount < fuel) (h : l.Holds s.flash) (name : List UInt8) :
    ∃ r t, findFile c fuel name s = some (r, t) ∧ t.flash = s.flash ∧ t.nextFree = s.nextFree ∧ t.gcWait = s.gcWait := by
  unfold findFile
  cases (List.range c.maxOpenFiles).find? fun i =>
      !(s.coffeeFiles i).free && (readHeader c (s.coffeeFiles i).page s.flash).isNamed name with
  | some i => exact ⟨some i, s, rfl, rfl, rfl, rfl⟩
  | none =>
    have hloop : ∃ r, loop (scanStep c name s.flash) fuel 0 = some r ∧ True := by
      refine loop_within (I := l.Entry) (μ := fun p => (c.pageCount - p).toNat) (fun p p' hp hstep => ?_)
        (fun _ _ _ _ => trivial) (by omega) entry_zero
      unfold scanStep at hstep
      dsimp only at hstep
      split_ifs at hstep with hlt hnamed
      · obtain rfl := Sum.inl.inj hstep
        rw [(h.header hp hlt).2.2]
        have hgt := lt_next (l := l) (hp.inStore hlt)
        exact ⟨hp.next hlt, by omega⟩
    obtain ⟨r, hr, -⟩ := hloop
    rw [hr]
    cases r with
    | none => exact ⟨none, s, rfl, rfl, rfl, rfl⟩
    | some page =>
      obtain ⟨-, h₁, h₂, h₃⟩ := loadFile_eq (c := c) page (readHeader c page s.flash) s
      exact ⟨_, _, rfl, h₁, h₂, h₃⟩

/-! ## Runs of free pages -/

variable (c) in
def FreeAfter (flash : Mem) (p : Int) : Prop :=
  FreePage c flash p ∨ InStore c p ∧ ¬ActiveSector c flash (c.sectorOf p) ∧ ObsoleteSector c flash (c.sectorOf p)

variable (c) in
/-- A run of so many pages of a kind ends before the last page of the store. -/
def RunBefore (f : Int → Prop) (pages : Int) : Prop := ∃ a, a + pages < c.pageCount ∧ RunOf f a pages

theorem Layout.Holds.freeAfter_iff {m : Mem} (h : l.Holds m) :
    FreeAfter c m p ↔ InStore c p ∧ l.collectedKind p = .free := by
  unfold FreeAfter
  rw [h.freePage_iff, h.activeSector_iff, h.obsoleteSector_iff, ← and_or_left, collected_eq_free]
  rfl

theorem RunBefore.congr {f g : Int → Prop} (h : ∀ p, f p ↔ g p) : RunBefore c f pages ↔ RunBefore c g pages := by
  unfold RunBefore RunOf
  simp only [h]

theorem Sound.hasRun_iff (h : Sound l s) (hpages : 0 < pages) :
    l.HasRun s.nextFree pages ↔ RunBefore c (FreePage c s.flash) pages := by
  constructor
  · rintro ⟨a, hlo, hend, hrun⟩
    have hpos := h.entry.1
    exact ⟨a, hend, fun p h₁ h₂ => h.holds.freePage_iff.2 ⟨⟨by omega, by omega⟩, hrun p h₁ h₂⟩⟩
  · rintro ⟨a, hend, hrun⟩
    have hfree := fun p h₁ h₂ => h.holds.freePage_iff.1 (hrun p h₁ h₂)
    obtain ⟨hin, hkind⟩ := hfree a le_rfl (by omega)
    exact ⟨a, h.below a hin hkind, hend, fun p h₁ h₂ => (hfree p h₁ h₂).2⟩

/-! ## Reserving -/

/-- The pages that `reserve` finds, in the state that the search was successful in. -/
def Taken (c : Config) (pages a : Int) (t : Store) : Prop :=
  ∃ (l : Layout c) (u : Store), Sound l u ∧ l.Found u.nextFree pages a ∧ t = findState pages a u

variable (c) in
/-- Where the search does not do without a collection, the extents are clean. -/
def MayCollect (pages : Int) (s : Store) : Prop :=
  ¬RunBefore c (FreePage c s.flash) pages → s.gcWait = false → CleanExtents c s.flash

theorem reservePages_spec (h : Sound l s) (hfuel : c.pageCount < fuel) (hpages : 0 < pages) (hclean : MayCollect c pages s) :
    ∃ a t, reservePages c fuel pages s = some (a, t) ∧ t.coffeeFiles = s.coffeeFiles ∧
      (a ≠ invalidPage ↔ RunBefore c (FreeAfter c s.flash) pages) ∧
      if a = invalidPage then ∃ l' : Layout c, Sound l' t else Taken c pages a t := by
  obtain ⟨a, ha, hfound⟩ := findContiguousPages_spec hfuel h.holds h.entry hpages
  unfold reservePages
  rw [ha, Option.bind_some]
  dsimp only
  by_cases hne : a = invalidPage
  · subst hne
    unfold Found at hfound
    rw [if_pos rfl, h.hasRun_iff hpages] at hfound
    have hsame : findState pages invalidPage s = s := if_neg fun h => h.1 rfl
    rw [if_neg (by simp), hsame]
    by_cases hwait : s.gcWait = true
    · rw [if_pos hwait]
      have hafter : ∀ p, FreeAfter c s.flash p ↔ FreePage c s.flash p := fun p => by
        rw [h.holds.freeAfter_iff, h.holds.freePage_iff, collected_of_not_reclaimed (h.gcWait hwait)]
      refine ⟨_, _, rfl, rfl, ?_, by rw [if_pos rfl]; exact ⟨l, h⟩⟩
      rw [RunBefore.congr hafter]
      exact iff_of_false (fun hne => hne rfl) hfound
    · rw [if_neg hwait]
      rw [Bool.not_eq_true] at hwait
      have hcl := h.holds.clean_iff.1 (hclean hfound hwait)
      obtain ⟨u, hu, hsound, hfiles, -, -⟩ := h.collect hfuel hcl
      obtain ⟨b, hb, hfound'⟩ := findContiguousPages_spec hfuel hsound.holds hsound.entry hpages
      have hafter : ∀ p, FreeAfter c s.flash p ↔ FreePage c u.flash p := fun p => by
        rw [h.holds.freeAfter_iff, hsound.holds.freePage_iff, collected_kind]
      rw [hu, Option.bind_some, hb, Option.map_some]
      dsimp only
      rw [RunBefore.congr hafter, ← hsound.hasRun_iff hpages]
      by_cases hbne : b = invalidPage
      · subst hbne
        unfold Found at hfound'
        rw [if_pos rfl] at hfound'
        have hsame : findState pages invalidPage u = u := if_neg fun h => h.1 rfl
        rw [if_pos rfl, hsame]
        refine ⟨_, _, rfl, hfiles, iff_of_false (fun hne => hne rfl) hfound', ?_⟩
        rw [if_pos rfl]
        exact ⟨_, hsound.holds, hsound.entry, hsound.below, fun _ k => not_reclaimed_collected hcl⟩
      · rw [if_neg hbne]
        have hrun := hfound'
        unfold Found at hrun
        rw [if_neg hbne] at hrun
        refine ⟨_, _, rfl, ?_, iff_of_true hbne ⟨b, hrun.1, hrun.2.1, hrun.2.2.1⟩, ?_⟩
        · rw [← hfiles]
          unfold findState
          split_ifs <;> rfl
        · rw [if_neg hbne]
          exact ⟨_, u, hsound, hfound', rfl⟩
  · rw [if_pos hne]
    have hrun := hfound
    unfold Found at hrun
    rw [if_neg hne] at hrun
    refine ⟨_, _, rfl, ?_, iff_of_true hne ?_, ?_⟩
    · unfold findState
      split_ifs <;> rfl
    · have hbefore := (h.hasRun_iff hpages).1 ⟨a, hrun.1, hrun.2.1, hrun.2.2.1⟩
      obtain ⟨b, hend, hall⟩ := hbefore
      exact ⟨b, hend, fun p h₁ h₂ => .inl (hall p h₁ h₂)⟩
    · rw [if_neg hne]
      exact ⟨l, s, h, hfound, rfl⟩

/-- The flags that `reserve` is called with. -/
def reserveFlags (log : Bool) : UInt8 := if log then flagLog else 0

theorem reservedHeader_isExtent (hpages : 0 < pages) (hlt : pages < 2 ^ 15) (log : Bool) :
    ({ reservedHeader c name pages (reserveFlags log) with
      flags := (reservedHeader c name pages (reserveFlags log)).flags ||| flagValid } : FileHeader).IsExtent pages true := by
  have hflags : ∀ log, ((flagAllocated ||| reserveFlags log) ||| flagValid) &&& flagAllocated ≠ 0 ∧
      ((flagAllocated ||| reserveFlags log) ||| flagValid) &&& flagIsolated = 0 ∧
      ((flagAllocated ||| reserveFlags log) ||| flagValid) &&& flagObsolete = 0 := by decide
  obtain ⟨h₁, h₂, h₃⟩ := hflags log
  exact ⟨decide_eq_true h₁, decide_eq_false (not_not.2 h₂), decide_eq_false (not_not.2 h₃), toInt_ofInt hpages.le hlt⟩

theorem reservedHeader_name (name : List UInt8) (flags : UInt8) : (reservedHeader c name pages flags).name.length = c.nameLength := by
  have := c.name_pos
  unfold reservedHeader
  dsimp only
  rw [List.length_append, List.length_replicate, List.length_take]
  omega

/-- `reserve` behind the search for a file of the name. -/
def reserveFound (c : Config) (name : List UInt8) (flags : UInt8) (pages page : Int) (s : Store) : Option Nat × Store :=
  if page = invalidPage then (none, s)
  else
    let hdr := reservedHeader c name pages flags
    match loadFile c page hdr { s with flash := writeHeader c hdr page s.flash } with
    | (none, s) => (none, s)
    | (some i, s) => (some i, s.setFile i { s.coffeeFiles i with endOffset := 0 })

theorem reserve_eq (dup : Bool) (flags : UInt8) : reserve c fuel name pages dup flags s =
    (if dup then some (none, s) else findFile c fuel name s).bind fun r =>
      if r.1.isSome then some (none, r.2)
      else (reservePages c fuel pages r.2).map fun x => reserveFound c name flags pages x.1 x.2 := rfl

theorem reserveFound_spec (name : List UInt8) (hpages : 0 < pages) (hlt : pages < 2 ^ 15) (log : Bool)
    (h : if a = invalidPage then ∃ l' : Layout c, Sound l' t else Taken c pages a t) :
    (∃ l' : Layout c, Sound l' (reserveFound c name (reserveFlags log) pages a t).2) ∧
      (HasSlot c t → ((reserveFound c name (reserveFlags log) pages a t).1.isSome = true ↔ a ≠ invalidPage)) := by
  unfold reserveFound
  by_cases hne : a = invalidPage
  · rw [if_pos hne] at h ⊢
    exact ⟨h, fun _ => iff_of_false Bool.false_ne_true (not_not.2 hne)⟩
  · rw [if_neg hne] at h ⊢
    obtain ⟨l, u, hsound, hfound, rfl⟩ := h
    obtain ⟨l', hsound', -, -⟩ := hsound.allocate hpages hfound hne (reservedHeader_name name (reserveFlags log))
      (reservedHeader_isExtent hpages hlt log)
    dsimp only
    obtain ⟨h₁, h₂, h₃, h₄⟩ := loadFile_eq (c := c) a (reservedHeader c name pages (reserveFlags log))
      { findState pages a u with
        flash := writeHeader c (reservedHeader c name pages (reserveFlags log)) a (findState pages a u).flash }
    rcases hload : loadFile c a (reservedHeader c name pages (reserveFlags log))
      { findState pages a u with
        flash := writeHeader c (reservedHeader c name pages (reserveFlags log)) a (findState pages a u).flash }
      with ⟨_ | i, v⟩
    · rw [hload] at h₁ h₂ h₃ h₄
      refine ⟨⟨l', hsound'.congr h₂ h₃ h₄⟩, fun hslot => ?_⟩
      have hsome := loadSlot_isSome.2 (show HasSlot c { findState pages a u with
        flash := writeHeader c (reservedHeader c name pages (reserveFlags log)) a (findState pages a u).flash } from hslot)
      rw [← h₁] at hsome
      cases hsome
    · rw [hload] at h₁ h₂ h₃ h₄
      exact ⟨⟨l', hsound'.congr h₂ h₃ h₄⟩, fun _ => iff_of_true rfl hne⟩

theorem reserve_spec (h : Sound l s) (hfuel : c.pageCount < fuel) (hpages : 0 < pages) (hlt : pages < 2 ^ 15)
    (hclean : MayCollect c pages s) (name : List UInt8) (dup log : Bool) :
    ∃ r t, reserve c fuel name pages dup (reserveFlags log) s = some (r, t) ∧ (∃ l' : Layout c, Sound l' t) ∧
      ((dup = true ∨ findFile c fuel name s = some (none, s)) → HasSlot c s →
        (r.isSome = true ↔ RunBefore c (FreeAfter c s.flash) pages)) := by
  have hfind : ∃ r u, (if dup then some (none, s) else findFile c fuel name s) = some (r, u) ∧ u.flash = s.flash ∧
      u.nextFree = s.nextFree ∧ u.gcWait = s.gcWait ∧
        ((dup = true ∨ findFile c fuel name s = some (none, s)) → r = none ∧ u = s) := by
    cases dup with
    | true => exact ⟨none, s, rfl, rfl, rfl, rfl, fun _ => ⟨rfl, rfl⟩⟩
    | false =>
      obtain ⟨r, u, hr, h₁, h₂, h₃⟩ := findFile_spec hfuel h.holds name
      refine ⟨r, u, hr, h₁, h₂, h₃, ?_⟩
      rintro (hdup | hnone)
      · cases hdup
      · rw [hr] at hnone
        cases hnone
        exact ⟨rfl, rfl⟩
  obtain ⟨r, u, hr, h₁, h₂, h₃, hnone⟩ := hfind
  have hu := h.congr h₁ h₂ h₃
  rw [reserve_eq, hr, Option.bind_some]
  by_cases hsome : r.isSome = true
  · rw [if_pos hsome]
    refine ⟨none, u, rfl, ⟨l, hu⟩, fun hfree => ?_⟩
    rw [(hnone hfree).1] at hsome
    cases hsome
  · rw [if_neg hsome]
    have hclean' : MayCollect c pages u := by
      unfold MayCollect
      rw [h₁, h₃]
      exact hclean
    obtain ⟨a, t, ht, hfiles, hrun, hstate⟩ := reservePages_spec hu hfuel hpages hclean'
    obtain ⟨hsound, hslot⟩ := reserveFound_spec name hpages hlt log hstate
    rw [ht, Option.map_some]
    refine ⟨_, _, rfl, hsound, fun hfree hs => ?_⟩
    obtain ⟨-, rfl⟩ := hnone hfree
    rw [← hrun]
    refine hslot ?_
    unfold HasSlot at hs ⊢
    rwa [hfiles]

/-! ## Runs -/

/-- What is done to the extents and the caches: a formatting, a reservation, a removal, data written into an extent, a
header written with other values for its log, and the caches set to anything. -/
inductive Event where
  | format
  | reserve (name : List UInt8) (pages : Int) (allowDuplicates log : Bool)
  | remove (page : Int) (removeLog closeFds : Bool)
  | write (page offset : Int) (data : List UInt8)
  | update (page : Int) (logPage : Int16) (logRecords logRecordSize : UInt16) (modified : Bool)
  | caches (coffeeFiles : Nat → File) (coffeeFdSet : Nat → FileDesc)

def FileHeader.withLog (hdr : FileHeader) (logPage : Int16) (logRecords logRecordSize : UInt16) (modified : Bool) :
    FileHeader :=
  { hdr with
    logPage := logPage
    logRecords := logRecords
    logRecordSize := logRecordSize
    flags := if modified then hdr.flags ||| flagModified else hdr.flags }

@[grind =]
def step (c : Config) (fuel : Nat) (s : Store) : Event → Option Store
  | .format => some (format c s)
  | .reserve name pages dup log => (reserve c fuel name pages dup (reserveFlags log) s).map Prod.snd
  | .remove page removeLog closeFds => some (removeByPage c page removeLog closeFds s).2
  | .write page offset data => some { s with
      flash := Mem.paste (address (absoluteOffset c page offset)) data.length (fun i => data.getD i 0) s.flash }
  | .update page logPage logRecords logRecordSize modified => some { s with
      flash := writeHeader c ((readHeader c page s.flash).withLog logPage logRecords logRecordSize modified) page s.flash }
  | .caches coffeeFiles coffeeFdSet => some { s with coffeeFiles := coffeeFiles, coffeeFdSet := coffeeFdSet }

/-- An active extent begins at the page. -/
structure BeginsAt (c : Config) (flash : Mem) (page : Int) : Prop where
  walks : Walks c flash page
  inStore : InStore c page
  active : (readHeader c page flash).active = true

/-- What the functions are called with: a positive number of pages, the first page of an active extent, a log that is
another extent, data that fits behind the header. A collection finds the extents clean. -/
def Meets (c : Config) (s : Store) : Event → Prop
  | .format => True
  | .reserve _ pages _ _ => 0 < pages ∧ pages < 2 ^ 15 ∧ MayCollect c pages s
  | .remove page removeLog _ => BeginsAt c s.flash page ∧
      (removeLog = true → (readHeader c page s.flash).modified = true →
        BeginsAt c s.flash (readHeader c page s.flash).logPage.toInt ∧ (readHeader c page s.flash).logPage.toInt ≠ page)
  | .write page offset data => BeginsAt c s.flash page ∧ 0 ≤ offset ∧
      c.headerSize + offset + data.length ≤ (readHeader c page s.flash).maxPages.toInt * c.pageSize
  | .update page _ _ _ _ => BeginsAt c s.flash page
  | .caches _ _ => True

theorem Layout.Holds.beginsAt {m : Mem} (h : l.Holds m) (ha : BeginsAt c m a) :
    ∃ n, l.kind a = .extent a n true ∧ (readHeader c a m).IsExtent n true := by
  obtain ⟨n, hn⟩ := ((h.header (h.walks_entry ha.walks) ha.inStore.2).2.1).1 ha.active
  exact ⟨n, hn, (shows_extent hn).1 (h a ha.inStore) rfl⟩

theorem FileHeader.IsExtent.congr {hdr hdr' : FileHeader} {act : Bool} {v : UInt8} (h : hdr.IsExtent n act)
    (hflags : hdr'.flags = hdr.flags ||| v) (hmax : hdr'.maxPages = hdr.maxPages) (hv : v &&& 0x26 = 0) :
    hdr'.IsExtent n act := by
  have hsub : ∀ f, (0x26 : UInt8) &&& f = f → v &&& f = 0 := by
    intro f hf
    rw [← hf, ← UInt8.and_assoc, hv]
    exact UInt8.zero_and
  obtain ⟨h₁, h₂, h₃, h₄⟩ := h
  unfold FileHeader.allocated at h₁
  unfold FileHeader.isolated at h₂
  unfold FileHeader.obsolete at h₃
  refine ⟨?_, ?_, ?_, by rw [hmax, h₄]⟩
  · unfold FileHeader.allocated
    rw [FileHeader.checkFlag_or hflags (hsub _ (by decide)), h₁]
  · unfold FileHeader.isolated
    rw [FileHeader.checkFlag_or hflags (hsub _ (by decide)), h₂]
  · unfold FileHeader.obsolete
    rw [FileHeader.checkFlag_or hflags (hsub _ (by decide)), h₃]

theorem FileHeader.IsExtent.discard {act : Bool} (h : hdr.IsExtent n act) :
    ({ hdr with flags := (hdr.flags ||| flagObsolete) ||| flagValid } : FileHeader).IsExtent n false := by
  have hobs : ∀ x : UInt8, ((x ||| flagObsolete) ||| flagValid) &&& flagObsolete ≠ 0 := by
    apply forall_byte
    decide +kernel
  have hor : (hdr.flags ||| flagObsolete) ||| flagValid = hdr.flags ||| (flagObsolete ||| flagValid) := UInt8.or_assoc ..
  obtain ⟨h₁, h₂, -, h₄⟩ := h
  unfold FileHeader.allocated at h₁
  unfold FileHeader.isolated at h₂
  refine ⟨?_, ?_, decide_eq_true (hobs _), h₄⟩
  · unfold FileHeader.allocated
    rw [FileHeader.checkFlag_or hor (by decide), h₁]
  · unfold FileHeader.isolated
    rw [FileHeader.checkFlag_or hor (by decide), h₂]

theorem markObsolete_sound (h : Sound l s) (ha : InStore c a) (hkind : l.kind a = .extent a n true)
    (hname : hdr.name.length = c.nameLength) (hhdr : hdr.IsExtent n true) (closeFds : Bool) :
    Sound (l.discard a) (markObsolete c a hdr closeFds s) := by
  have hmarked : ({ hdr with flags := hdr.flags ||| flagObsolete } : FileHeader).name.length = c.nameLength := hname
  exact (h.discard ha hkind hmarked hhdr.discard).congr rfl rfl rfl

theorem removeByPage_sound (h : Sound l s) (ha : BeginsAt c s.flash a) {removeLog : Bool} (closeFds : Bool)
    (hlog : removeLog = true → (readHeader c a s.flash).modified = true →
      BeginsAt c s.flash (readHeader c a s.flash).logPage.toInt ∧ (readHeader c a s.flash).logPage.toInt ≠ a) :
    ∃ l' : Layout c, Sound l' (removeByPage c a removeLog closeFds s).2 := by
  obtain ⟨n, hkind, hhdr⟩ := h.holds.beginsAt ha
  have hname := readHeader_name (c := c) a s.flash
  unfold removeByPage
  dsimp only
  rw [if_pos ha.active]
  by_cases hm : (removeLog && (readHeader c a s.flash).modified) = true
  · rw [if_pos hm]
    rw [Bool.and_eq_true] at hm
    obtain ⟨hb, hne⟩ := hlog hm.1 hm.2
    obtain ⟨k, hkind', hhdr'⟩ := h.holds.beginsAt hb
    have hsound := markObsolete_sound h hb.inStore hkind' (readHeader_name _ _) hhdr' false
    have hextent : removeExtent c (readHeader c a s.flash).logPage.toInt false s =
        (true, markObsolete c (readHeader c a s.flash).logPage.toInt
          (readHeader c (readHeader c a s.flash).logPage.toInt s.flash) false s) := if_pos hb.active
    rw [hextent]
    have hkept : (l.discard (readHeader c a s.flash).logPage.toInt).kind a = .extent a n true :=
      Kind.discard_extent.2 ⟨true, hkind, (if_neg hne.symm).symm⟩
    exact ⟨_, markObsolete_sound hsound ha.inStore hkept hname hhdr closeFds⟩
  · rw [if_neg hm]
    exact ⟨_, markObsolete_sound h ha.inStore hkind hname hhdr closeFds⟩

theorem address_data (ha : InStore c a) {offset : Int} (h₀ : 0 ≤ offset) (hend : c.headerSize + offset < n * c.pageSize)
    (hn : a + n ≤ c.pageCount) :
    address (absoluteOffset c a offset) = a.toNat * c.pageSize + c.headerSize + offset.toNat := by
  have hbytes : (a + n) * c.pageSize < 2 ^ 31 := by
    have hle : (a + n) * (c.pageSize : Int) ≤ c.pageCount * c.pageSize :=
      Int.mul_le_mul_of_nonneg_right hn (Int.natCast_nonneg _)
    have := c.bytes_fit
    have hcast : ((c.pageCount * c.pageSize : Nat) : Int) < 2 ^ 31 := by exact_mod_cast this
    rw [Nat.cast_mul] at hcast
    omega
  rw [Int.add_mul] at hbytes
  have hcast : a * (c.pageSize : Int) = ((a.toNat * c.pageSize : Nat) : Int) := by
    rw [Nat.cast_mul, Int.toNat_of_nonneg ha.1]
  unfold address absoluteOffset
  rw [hcast] at hbytes ⊢
  rw [Int.emod_eq_of_lt (by omega) (by omega)]
  omega

theorem step_sound (h : Sound l s) (hfuel : c.pageCount < fuel) {e : Event} (hmeets : Meets c s e) :
    ∃ t, step c fuel s e = some t ∧ ∃ l' : Layout c, Sound l' t := by
  cases e with
  | format => exact ⟨_, rfl, _, sound_format s⟩
  | reserve name pages dup log =>
    obtain ⟨hpages, hlt, hclean⟩ := hmeets
    obtain ⟨r, t, hr, hsound, -⟩ := reserve_spec h hfuel hpages hlt hclean name dup log
    exact ⟨t, by rw [step, hr, Option.map_some], hsound⟩
  | remove page removeLog closeFds =>
    obtain ⟨hbegins, hlog⟩ := hmeets
    exact ⟨_, rfl, removeByPage_sound h hbegins closeFds hlog⟩
  | write page offset data =>
    obtain ⟨hbegins, h₀, hend⟩ := hmeets
    obtain ⟨n, hkind, hhdr⟩ := h.holds.beginsAt hbegins
    have hin := l.extent_in hbegins.inStore hkind
    rw [hhdr.maxPages] at hend
    refine ⟨_, rfl, l, h.data hbegins.inStore hkind fun x hx => ?_⟩
    rcases Nat.eq_zero_or_pos data.length with hzero | hpos
    · rw [hzero]
      exact Mem.paste_of_out (by omega)
    · refine Mem.paste_of_out ?_
      rw [address_data (n := n) hbegins.inStore h₀ (by omega) (by omega)]
      have hbytes : ((page + n).toNat * c.pageSize : Int) = page.toNat * c.pageSize + n * c.pageSize := by
        rw [← Int.add_mul, Int.toNat_of_nonneg (by omega), Int.toNat_of_nonneg hbegins.inStore.1]
      zify at hx ⊢
      omega
  | update page logPage logRecords logRecordSize modified =>
    obtain ⟨n, hkind, hhdr⟩ := h.holds.beginsAt hmeets
    refine ⟨_, rfl, l, h.rewrite hmeets.inStore hkind (readHeader_name _ _) ?_⟩
    cases modified with
    | true => exact hhdr.congr (v := flagModified ||| flagValid) (UInt8.or_assoc ..) rfl (by decide)
    | false => exact hhdr.congr (v := flagValid) rfl rfl (by decide)
  | caches coffeeFiles coffeeFdSet => exact ⟨_, rfl, l, h.congr rfl rfl rfl⟩

/-! ## What reservation is for -/

variable (c) in
/-- If behind a greedy collection so many consecutive pages are free, then `reserve` succeeds. -/
def ReserveFinds (fuel : Nat) (name : List UInt8) (pages : Int) (dup log : Bool) (s : Store) : Prop :=
  ∀ t a, collectGarbage c fuel .greedy s = some t → RunOf (FreePage c t.flash) a pages →
    ∃ i u, reserve c fuel name pages dup (reserveFlags log) s = some (some i, u)

theorem reserveFinds_iff (h : Sound l s) (hfuel : c.pageCount < fuel) (hpages : 0 < pages) (hlt : pages < 2 ^ 15)
    (hclean : CleanExtents c s.flash) {dup log : Bool} (hfree : dup = true ∨ findFile c fuel name s = some (none, s))
    (hslot : HasSlot c s) : ReserveFinds c fuel name pages dup log s ↔
      ((∃ a, RunOf (FreeAfter c s.flash) a pages) → RunBefore c (FreeAfter c s.flash) pages) := by
  have hcl := h.holds.clean_iff.1 hclean
  obtain ⟨t, ht, hsound, -, -, -⟩ := h.collect hfuel hcl
  obtain ⟨r, u, hr, -, hiff⟩ := reserve_spec h hfuel hpages hlt (fun _ _ => hclean) name dup log
  have hafter : ∀ p, FreePage c t.flash p ↔ FreeAfter c s.flash p := fun p => by
    rw [h.holds.freeAfter_iff, hsound.holds.freePage_iff, collected_kind]
  rw [← hiff hfree hslot]
  constructor
  · rintro hfinds ⟨a, hrun⟩
    obtain ⟨i, v, hi⟩ := hfinds t a ht fun p h₁ h₂ => (hafter p).2 (hrun p h₁ h₂)
    rw [hr] at hi
    cases hi
    rfl
  · intro hsome t' a ht' hrun
    rw [ht] at ht'
    cases ht'
    obtain ⟨i, hi⟩ := Option.isSome_iff_exists.1 (hsome ⟨a, fun p h₁ h₂ => (hafter p).1 (hrun p h₁ h₂)⟩)
    exact ⟨i, u, by rw [hr, hi]⟩

def twoSectors : Config where
  pageSize := 16
  sectorBits := 1
  sectorCount := 2
  nameLength := 1
  dynSize := 16
  logSize := 16
  logTableLimit := 1
  maxOpenFiles := 1
  fdSetSize := 1
  name_pos := by decide
  header_fits := by decide
  pages_fit := by decide
  bytes_fit := by decide

def formatted (c : Config) : Store := format c ⟨fun _ => 0, fun _ => ⟨0, 0, 0, 0, 0, false⟩, fun _ => ⟨0, none, 0, 0⟩, 0, false⟩

end Contiki.Coffee

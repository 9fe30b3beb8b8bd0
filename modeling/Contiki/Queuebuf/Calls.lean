/-
Each call of the module keeps what holds between calls, and does to what is stored what it would do with all queuebufs in
RAM.
-/
import Contiki.Queuebuf.Invariant

namespace Contiki.Queuebuf

open Contiki.Core

variable {A : Type} {cfg : Config} {cfs : Cfs A} {s s' : State A} {stored : Nat → Content A} {b c n : Nat} {pb : Packetbuf A}

/-! ## Loading -/

theorem Inv.load_ram (cfg : Config) (cfs : Cfs A) (h : Inv s stored) (hl : s.Live b) (hloc : (s.buf b).location = .inRam) :
    ∃ i, (s.buf b).pointer = .ramPtr i ∧ queuebufLoadToRam cfg cfs s b = some (s, .ram i) ∧
      (s.ram i).content = stored b := by
  obtain ⟨i, hp, -, hc⟩ := h.ram.holds b hl hloc
  refine ⟨i, hp, ?_, hc⟩
  unfold queuebufLoadToRam
  rw [hloc, hp]

theorem Inv.load_cfs (h : Inv s stored) (hb : s.ids b = some n) (hc : CacheLive cfg s b) (hok : cfs.Ok) :
    ∃ d, queuebufLoadToRam cfg cfs s b = some ({ s with tmpdata := d, tmpdataQbuf := some b }, .tmpdata) ∧
      d.content = stored b := by
  obtain ⟨⟨hl, hloc⟩, hp⟩ := ids_eq_some.1 hb
  obtain ⟨t, ht, -, hid, hhit⟩ := h.cacheHit hb hc
  have hbid := swapId_of_pointer cfg hp
  unfold queuebufLoadToRam
  rw [hloc, ht, hid, hbid]
  dsimp only
  by_cases he : (s.buf t).swapId cfg = n
  · have htb := hhit.1 he
    subst htb
    rw [if_pos he]
    refine ⟨s.tmpdata, ?_, h.cache t ht hl hloc⟩
    rw [← ht]
  · rw [if_neg he]
    obtain ⟨d, hd, hcontent⟩ := h.files.record b n hb
    have hopen := h.files.opened _ (div_lt_files (h.files.bound b n hb).2)
    refine ⟨d, ?_, hcontent⟩
    simp [readTmpdata, hopen, hok.2.1, hok.2.2.1, hd]

theorem Inv.cached_as (h : Inv s stored) {d : QueuebufData A} (hd : d.content = stored b) :
    Inv { s with tmpdata := d, tmpdataQbuf := some b } stored := by
  refine ⟨⟨h.ram.holds, h.ram.inj⟩, h.files, h.swapped, ?_, fun _ _ _ => by simp⟩
  intro t ht _ _
  cases ht
  exact hd

/-! ## Reading -/

theorem Inv.read (h : Inv s stored) (hl : s.Live b) (hc : (s.buf b).location = .inCfs → CacheLive cfg s b)
    (hok : (s.buf b).location = .inCfs → cfs.Ok) :
    ∃ s' ptr, queuebufLoadToRam cfg cfs s b = some (s', ptr) ∧ (s'.get ptr).content = stored b ∧ Inv s' stored := by
  cases hloc : (s.buf b).location with
  | inRam =>
    obtain ⟨i, -, he, hcontent⟩ := h.load_ram cfg cfs hl hloc
    exact ⟨s, .ram i, he, hcontent, h⟩
  | inCfs =>
    obtain ⟨n, hb⟩ := h.swapped b hl hloc
    obtain ⟨d, he, hcontent⟩ := h.load_cfs hb (hc hloc) (hok hloc)
    exact ⟨_, .tmpdata, he, hcontent, h.cached_as hcontent⟩

/-! ## Updating -/

structure CanUpdate (cfg : Config) (cfs : Cfs A) (s : State A) (b : Nat) : Prop where
  cache : CacheLive cfg s b
  cfs : cfs.Ok
  room : RoomBut s b

instance (cfg : Config) (cfs : Cfs A) (s : State A) (b : Nat) : Decidable (CanUpdate cfg cfs s b) :=
  decidable_of_iff (CacheLive cfg s b ∧ cfs.Ok ∧ RoomBut s b)
    ⟨fun ⟨h₁, h₂, h₃⟩ => ⟨h₁, h₂, h₃⟩, fun h => ⟨h.cache, h.cfs, h.room⟩⟩

theorem ram_set (h : RamHolds s stored) {i : Nat} (hl : s.Live b) (hloc : (s.buf b).location = .inRam)
    (hp : (s.buf b).pointer = .ramPtr i) (d : QueuebufData A) :
    RamHolds { s with ram := Function.update s.ram i d } (Function.update stored b d.content) := by
  refine ⟨fun c hlc hlocc => ?_, h.inj⟩
  obtain ⟨j, hpj, hu, hc⟩ := h.holds c hlc hlocc
  refine ⟨j, hpj, hu, ?_⟩
  by_cases hcb : c = b
  · subst hcb
    have hpc : (s.buf c).pointer = .ramPtr j := hpj
    rw [hp] at hpc
    cases hpc
    simp
  · have hij : j ≠ i := by
      rintro rfl
      exact hcb (h.inj c b j hlc hl hlocc hloc hpj hp)
    simp [hcb, hij, hc]

theorem Inv.update (h : Inv s stored) (hl : s.Live b) (hc : (s.buf b).location = .inCfs → CanUpdate cfg cfs s b)
    (f : QueuebufData A → QueuebufData A) {content : Content A}
    (hf : ∀ d : QueuebufData A, d.content = stored b → (f d).content = content) :
    ∃ s₁ ptr s', queuebufLoadToRam cfg cfs s b = some (s₁, ptr) ∧
      flushIfSwapped cfg cfs b (s₁.set (f (s₁.get ptr)) ptr) = some s' ∧ Inv s' (Function.update stored b content) := by
  cases hloc : (s.buf b).location with
  | inRam =>
    obtain ⟨i, hp, he, hcontent⟩ := h.load_ram cfg cfs hl hloc
    refine ⟨s, .ram i, _, he, if_neg (by simp [State.set, hloc]), ?_⟩
    have hset := ram_set h.ram hl hloc hp (f (s.ram i))
    rw [hf _ hcontent] at hset
    refine ⟨hset, h.files.congr_stored fun c hc => ?_, h.swapped, fun t ht hlt hloct => ?_, h.cached⟩
    · obtain ⟨m, hm⟩ := Option.isSome_iff_exists.1 hc
      apply Function.update_of_ne
      rintro rfl
      have := (ids_eq_some.1 hm).1.2
      rw [hloc] at this
      cases this
    · rw [Function.update_of_ne]
      · exact h.cache t ht hlt hloct
      · rintro rfl
        have hloct : (s.buf t).location = .inCfs := hloct
        rw [hloc] at hloct
        cases hloct
  | inCfs =>
    obtain ⟨n, hb⟩ := h.swapped b hl hloc
    obtain ⟨hcache, hok, hroom⟩ := hc hloc
    obtain ⟨d, he, hcontent⟩ := h.load_cfs hb hcache hok
    let s₂ : State A := { s with tmpdata := f d, tmpdataQbuf := some b }
    obtain ⟨s₃, hs₃, hready, hnext, hmem, hids⟩ := removeFromFile_ready (s := s₂) cfg
      (Function.update stored b content) ⟨h.ram.holds, h.ram.inj⟩ h.files (fun c _ => h.swapped c) hb rfl
      (fun c hc => Function.update_of_ne hc _ _) (by rw [Function.update_self]; exact hf d hcontent)
    have hroom₃ : Room s₃ := by
      intro hfirst c hlt
      rw [hmem] at hlt
      rw [hnext] at hfirst ⊢
      by_cases hcb : c = b
      · rw [hcb, hready.ids_none]
        rfl
      · rw [hids c hcb]
        exact hroom hfirst c hlt hcb
    obtain ⟨id, s', hid, hw, hinv, -⟩ := hready.write hok hroom₃
    refine ⟨_, .tmpdata, s', he, ?_, hinv⟩
    have hflush : queuebufFlushTmpdata cfg cfs s₂ = some (s', true) := by
      have htid : tmpdataSwapId cfg s₂ = some (n : Int) := by
        have hl₂ : s₂.Live b := hl
        unfold tmpdataSwapId
        simp only [s₂]
        rw [if_pos hl₂, swapId_of_pointer cfg (ids_eq_some.1 hb).2]
      unfold queuebufFlushTmpdata
      rw [htid]
      simp only [s₂] at hs₃ ⊢
      simp only [hs₃, hid, hw]
    have hloc₂ : (s₂.buf b).location = .inCfs := hloc
    show flushIfSwapped cfg cfs b s₂ = some s'
    unfold flushIfSwapped
    rw [if_pos hloc₂, hflush]
    rfl

/-! ## Freeing -/

theorem live_free {m : Memb} (hb : b < m.num) (c : Nat) :
    (c < (m.free b).num ∧ (m.free b).used c = true) ↔ c ≠ b ∧ c < m.num ∧ m.used c = true := by
  unfold Memb.free
  rw [if_pos hb]
  by_cases hc : c = b
  · subst hc
    simp
  · simp [hc]

structure Freed (s s' : State A) (b : Nat) : Prop where
  bufmem : s'.bufmem = s.bufmem.free b
  buf : ∀ c, c ≠ b → s'.buf c = s.buf c
  ram : s'.ram = s.ram
  used : ∀ c i, c ≠ b → s.Live c → (s.buf c).location = .inRam → (s.buf c).pointer = .ramPtr i →
    i < s.buframmem.num ∧ s.buframmem.used i = true → i < s'.buframmem.num ∧ s'.buframmem.used i = true
  tmpdata : s'.tmpdata = s.tmpdata
  tmpdataQbuf : s'.tmpdataQbuf = s.tmpdataQbuf

theorem Freed.live (h : Freed s s' b) (hb : s.Live b) (c : Nat) : s'.Live c ↔ c ≠ b ∧ s.Live c := by
  unfold State.Live
  rw [h.bufmem]
  exact live_free hb.1 c

theorem Freed.num (h : Freed s s' b) (hb : s.Live b) : s'.bufmem.num = s.bufmem.num := by
  rw [h.bufmem, Memb.free, if_pos hb.1]

theorem Freed.ids (h : Freed s s' b) (hb : s.Live b) : s'.ids = Function.update s.ids b none := by
  have hlive := h.live hb
  funext c
  by_cases hc : c = b
  · subst hc
    rw [Function.update_self, Option.eq_none_iff_forall_ne_some]
    intro n hn
    exact ((hlive c).1 (ids_eq_some.1 hn).1.1).1 rfl
  · rw [Function.update_of_ne hc]
    exact ids_congr ((hlive c).trans ⟨fun h => h.2, fun h => ⟨hc, h⟩⟩) (h.buf c hc)

theorem Freed.inv (hs : Freed s s' b) (h : Inv s stored) (hb : s.Live b)
    (hf : Files s.bufmem.num (Function.update s.ids b none) stored s'.qbufFile s'.nextSwapId) : Inv s' stored := by
  have hlive := hs.live hb
  have hold : ∀ c, s'.Live c → c ≠ b ∧ s.Live c ∧ s'.buf c = s.buf c := by
    intro c hc
    obtain ⟨hne, hl⟩ := (hlive c).1 hc
    exact ⟨hne, hl, hs.buf c hne⟩
  constructor
  case ram =>
    constructor
    · intro c hc hloc
      obtain ⟨hne, hl, he⟩ := hold c hc
      rw [he] at hloc ⊢
      obtain ⟨i, hp, hu, hcontent⟩ := h.ram.holds c hl hloc
      exact ⟨i, hp, hs.used c i hne hl hloc hp hu, by rw [hs.ram]; exact hcontent⟩
    · intro c c' i hc hc' hloc hloc' hp hp'
      obtain ⟨-, hl, he⟩ := hold c hc
      obtain ⟨-, hl', he'⟩ := hold c' hc'
      rw [he] at hloc hp
      rw [he'] at hloc' hp'
      exact h.ram.inj c c' i hl hl' hloc hloc' hp hp'
  case files =>
    rw [hs.num hb, hs.ids hb]
    exact hf
  case swapped =>
    intro c hc hloc
    obtain ⟨hne, hl, he⟩ := hold c hc
    rw [he] at hloc
    rw [hs.ids hb, Function.update_of_ne hne]
    exact h.swapped c hl hloc
  case cache =>
    intro t ht hl hloc
    obtain ⟨-, hl, he⟩ := hold t hl
    rw [he] at hloc
    rw [hs.tmpdata]
    exact h.cache t (hs.tmpdataQbuf ▸ ht) hl hloc
  case cached =>
    intro c hc hloc
    obtain ⟨-, hl, he⟩ := hold c hc
    rw [he] at hloc
    rw [hs.tmpdataQbuf]
    exact h.cached c hl hloc

theorem Inv.free (h : Inv s stored) (hl : s.Live b) (hc : (s.buf b).location = .inCfs → CacheLive cfg s b) :
    ∃ s', queuebufFree cfg s b = some s' ∧ Inv s' stored := by
  unfold queuebufFree
  rw [if_pos hl.1]
  cases hloc : (s.buf b).location with
  | inRam =>
    obtain ⟨i, hp, hu, -⟩ := h.ram.holds b hl hloc
    rw [hp]
    refine ⟨_, rfl, ?_⟩
    have hfreed : Freed s { s with buframmem := s.buframmem.free i, bufmem := s.bufmem.free b } b := by
      refine ⟨rfl, fun _ _ => rfl, rfl, ?_, rfl, rfl⟩
      intro c j hcb hlc hlocc hpc hj
      have hij : j ≠ i := by
        rintro rfl
        exact hcb (h.ram.inj c b j hlc hl hlocc hloc hpc hp)
      exact (live_free hu.1 j).2 ⟨hij, hj⟩
    refine hfreed.inv h hl ?_
    have hnone : s.ids b = none := by
      rw [Option.eq_none_iff_forall_ne_some]
      intro n hn
      have := (ids_eq_some.1 hn).1.2
      rw [hloc] at this
      cases this
    rw [← hnone, Function.update_eq_self]
    exact h.files
  | inCfs =>
    obtain ⟨n, hb⟩ := h.swapped b hl hloc
    obtain ⟨t, ht, hlt, -, hhit⟩ := h.cacheHit hb (hc hloc)
    obtain ⟨g, timer, hg, he⟩ := removeFromFile_spec cfg (h.files.bound b n hb).2 ht hlt
    have hdrop := h.files.drop hb hg.usage hg.record hg.opened hg.renewable
    rw [swapId_of_pointer cfg (ids_eq_some.1 hb).2]
    dsimp only
    rw [he, Option.map_some]
    refine ⟨_, rfl, ?_⟩
    by_cases hid : (s.buf t).swapId cfg = n
    · rw [if_pos hid]
      have htb := hhit.1 hid
      subst htb
      refine Freed.inv (s := s) (b := t) ⟨rfl, fun c hne => ?_, rfl, fun _ _ _ _ _ _ hj => hj, rfl, rfl⟩ h hl hdrop
      exact setSwapId_other (s := { s.setFile (n / NQBUF_PER_FILE) g with renewTimer := timer }) hne (-1)
    · rw [if_neg hid]
      exact Freed.inv (s := s) (b := b) ⟨rfl, fun _ _ => rfl, rfl, fun _ _ _ _ _ _ hj => hj, rfl, rfl⟩ h hl hdrop

/-! ## Renewing -/

theorem Inv.renewAll (h : Inv s stored) (hok : cfs.Ok) : Inv (qbufRenewAll cfs s) stored := by
  unfold qbufRenewAll
  have hstart : Inv { s with renewTimer := false } stored :=
    ⟨⟨h.ram.holds, h.ram.inj⟩, h.files, h.swapped, h.cache, h.cached⟩
  refine List.foldlRecOn (motive := fun s => Inv s stored) _ _ hstart ?_
  intro s h f hf
  have hf := List.mem_range.1 hf
  split
  · rename_i hr
    have he : qbufRenewFile cfs s f = { s with qbufFile := Function.update s.qbufFile f ⟨true, 0, false, fun _ => none⟩ } := by
      simp [qbufRenewFile, State.setFile, hr, hok.1 f hf]
    rw [he]
    exact ⟨⟨h.ram.holds, h.ram.inj⟩, h.files.renew hf hr, h.swapped, h.cache, h.cached⟩
  · exact h

/-! ## A new queuebuf -/

theorem live_alloc {m m' : Memb} (h : m.alloc = some (b, m')) (c : Nat) :
    (c < m'.num ∧ m'.used c = true) ↔ c = b ∨ c < m.num ∧ m.used c = true := by
  obtain ⟨hb, -, rfl⟩ := Memb.alloc_eq_some h
  by_cases hc : c = b
  · subst hc
    simp [hb]
  · simp [hc]

/-- What `queuebuf_new_from_packetbuf` does, with the queuebuf it returns. -/
def NewRight (cfg : Config) (pb : Packetbuf A) (s s' : State A) (stored : Nat → Content A) : Option Nat → Prop
  | none => Inv s' stored ∧ s'.bufmem = s.bufmem ∧ s'.buframmem = s.buframmem ∧ ∀ b, s.Live b → s'.buf b = s.buf b
  | some b => ¬ s.Live b ∧ s'.Live b ∧ Inv s' (Function.update stored b (pb.content cfg))

theorem Inv.new_ram (h : Inv s stored) {bufmem buframmem : Memb} {i : Nat} (ha : s.bufmem.alloc = some (b, bufmem))
    (hr : s.buframmem.alloc = some (i, buframmem)) {d : QueuebufData A} (hd : d.content = pb.content cfg) :
    NewRight cfg pb s { s with
      bufmem := bufmem
      buframmem := buframmem
      buf := Function.update s.buf b ⟨.inRam, .ramPtr i⟩
      ram := Function.update s.ram i d } stored (some b) := by
  generalize hs' : ({ s with
      bufmem := bufmem
      buframmem := buframmem
      buf := Function.update s.buf b ⟨.inRam, .ramPtr i⟩
      ram := Function.update s.ram i d } : State A) = s'
  obtain ⟨hbnum, hbfree, hbmem⟩ := Memb.alloc_eq_some ha
  obtain ⟨hinum, hifree, himem⟩ := Memb.alloc_eq_some hr
  have hnew : ¬ s.Live b := fun hl => by simp [hl.2] at hbfree
  have hlive : ∀ c, s'.Live c ↔ c = b ∨ s.Live c := by
    intro c
    rw [← hs']
    exact live_alloc ha c
  have hself : s'.buf b = ⟨.inRam, .ramPtr i⟩ := by
    rw [← hs']
    exact Function.update_self ..
  have hother : ∀ c, c ≠ b → s'.buf c = s.buf c := by
    intro c hc
    rw [← hs']
    exact Function.update_of_ne hc _ _
  have hold : ∀ c, s'.Live c → (s'.buf c).location = .inCfs → c ≠ b ∧ s.Live c ∧ (s.buf c).location = .inCfs := by
    intro c hl hloc
    by_cases hc : c = b
    · rw [hc, hself] at hloc
      cases hloc
    · rw [hother c hc] at hloc
      exact ⟨hc, ((hlive c).1 hl).resolve_left hc, hloc⟩
  have hids : s'.ids = s.ids := by
    funext c
    by_cases hc : c = b
    · have hnone : ∀ t : State A, ¬ (t.Live b ∧ (t.buf b).location = .inCfs) → t.ids b = none :=
        fun t ht => if_neg ht
      rw [hc, hnone s fun hl => hnew hl.1, hnone s' fun hl => (hold b hl.1 hl.2).1 rfl]
    · exact ids_congr ((hlive c).trans ⟨fun hl => hl.resolve_left hc, .inr⟩) (hother c hc)
  have hstored : ∀ c, c ≠ b → Function.update stored b (pb.content cfg) c = stored c := fun c hc => Function.update_of_ne hc _ _
  refine ⟨hnew, (hlive b).2 (.inl rfl), ?_⟩
  have hram : ∀ c, c ≠ b → s'.Live c → (s'.buf c).location = .inRam →
      ∃ j, (s'.buf c).pointer = .ramPtr j ∧ j ≠ i ∧ (j < s.buframmem.num ∧ s.buframmem.used j = true) ∧
        (s.ram j).content = stored c := by
    intro c hc hl hloc
    rw [hother c hc] at hloc ⊢
    obtain ⟨j, hp, hu, hcontent⟩ := h.ram.holds c (((hlive c).1 hl).resolve_left hc) hloc
    refine ⟨j, hp, ?_, hu, hcontent⟩
    rintro rfl
    rw [hu.2] at hifree
    cases hifree
  constructor
  case ram =>
    constructor
    · intro c hl hloc
      by_cases hc : c = b
      · refine ⟨i, by rw [hc, hself], ?_, ?_⟩
        · rw [← hs']
          exact (live_alloc hr i).2 (.inl rfl)
        · rw [hc, Function.update_self, ← hs', ← hd]
          exact congrArg _ (Function.update_self ..)
      · obtain ⟨j, hp, hne, hu, hcontent⟩ := hram c hc hl hloc
        refine ⟨j, hp, ?_, ?_⟩
        · rw [← hs']
          exact (live_alloc hr j).2 (.inr hu)
        · rw [hstored c hc, ← hcontent, ← hs']
          exact congrArg _ (Function.update_of_ne hne _ _)
    · intro c c' j hl hl' hloc hloc' hp hp'
      by_cases hc : c = b
      · by_cases hc' : c' = b
        · exact hc.trans hc'.symm
        · obtain ⟨j', hpj, hne, -⟩ := hram c' hc' hl' hloc'
          rw [hc, hself] at hp
          cases hp
          rw [hpj] at hp'
          cases hp'
          exact absurd rfl hne
      · obtain ⟨j', hpj, hne, -⟩ := hram c hc hl hloc
        by_cases hc' : c' = b
        · rw [hc', hself] at hp'
          cases hp'
          rw [hpj] at hp
          cases hp
          exact absurd rfl hne
        · rw [hother c hc] at hloc hp
          rw [hother c' hc'] at hloc' hp'
          exact h.ram.inj c c' j (((hlive c).1 hl).resolve_left hc) (((hlive c').1 hl').resolve_left hc') hloc hloc' hp hp'
  case files =>
    have hnum : s'.bufmem.num = s.bufmem.num := by
      rw [← hs', hbmem]
    have hfiles : s'.qbufFile = s.qbufFile ∧ s'.nextSwapId = s.nextSwapId := by
      rw [← hs']
      exact ⟨rfl, rfl⟩
    rw [hnum, hids, hfiles.1, hfiles.2]
    refine h.files.congr_stored fun c hc => hstored c ?_
    rintro rfl
    obtain ⟨n, hn⟩ := Option.isSome_iff_exists.1 hc
    exact hnew (ids_eq_some.1 hn).1.1
  case swapped =>
    intro c hl hloc
    obtain ⟨-, hl, hloc⟩ := hold c hl hloc
    rw [hids]
    exact h.swapped c hl hloc
  case cache =>
    intro t ht hl hloc
    obtain ⟨hne, hl, hloc⟩ := hold t hl hloc
    rw [← hs'] at ht ⊢
    rw [hstored t hne]
    exact h.cache t ht hl hloc
  case cached =>
    intro c hl hloc
    obtain ⟨-, hl, hloc⟩ := hold c hl hloc
    rw [← hs']
    exact h.cached c hl hloc

theorem Inv.newSwapped_ready (h : Inv s stored) {bufmem : Memb} (ha : s.bufmem.alloc = some (b, bufmem))
    {d : QueuebufData A} {content : Content A} (hd : d.content = content) :
    Ready (newSwapped s b bufmem d) (Function.update stored b content) b ∧ (newSwapped s b bufmem d).ids = s.ids := by
  obtain ⟨hbnum, hbfree, hbmem⟩ := Memb.alloc_eq_some ha
  have hnew : ¬ s.Live b := fun hl => by simp [hl.2] at hbfree
  have hlive : ∀ c, (newSwapped s b bufmem d).Live c ↔ c = b ∨ s.Live c := live_alloc ha
  have hself : (newSwapped s b bufmem d).buf b = ⟨.inCfs, .swapId (-1)⟩ := Function.update_self ..
  have hother : ∀ c, c ≠ b → (newSwapped s b bufmem d).buf c = s.buf c := fun c hc => Function.update_of_ne hc _ _
  have hnone : s.ids b = none := if_neg fun hl => hnew hl.1
  have hids : (newSwapped s b bufmem d).ids = s.ids := by
    funext c
    by_cases hc : c = b
    · rw [hc, hnone, Option.eq_none_iff_forall_ne_some]
      intro n hn
      have hp := (ids_eq_some.1 hn).2
      rw [hself] at hp
      cases hp
    · exact ids_congr ((hlive c).trans ⟨fun hl => hl.resolve_left hc, .inr⟩) (hother c hc)
  have hram : ∀ c, (newSwapped s b bufmem d).Live c → ((newSwapped s b bufmem d).buf c).location = .inRam →
      c ≠ b ∧ s.Live c ∧ (newSwapped s b bufmem d).buf c = s.buf c := by
    intro c hl hloc
    by_cases hc : c = b
    · rw [hc, hself] at hloc
      cases hloc
    · exact ⟨hc, ((hlive c).1 hl).resolve_left hc, hother c hc⟩
  refine ⟨?_, hids⟩
  constructor
  case ram =>
    constructor
    · intro c hl hloc
      obtain ⟨hc, hl, he⟩ := hram c hl hloc
      rw [he] at hloc ⊢
      rw [Function.update_of_ne hc]
      exact h.ram.holds c hl hloc
    · intro c c' i hl hl' hloc hloc' hp hp'
      obtain ⟨-, hl, he⟩ := hram c hl hloc
      obtain ⟨-, hl', he'⟩ := hram c' hl' hloc'
      rw [he] at hloc hp
      rw [he'] at hloc' hp'
      exact h.ram.inj c c' i hl hl' hloc hloc' hp hp'
  case files =>
    have hnum : (newSwapped s b bufmem d).bufmem.num = s.bufmem.num := by
      rw [newSwapped, hbmem]
    rw [hnum, hids]
    refine h.files.congr_stored fun c hc => Function.update_of_ne ?_ _ _
    rintro rfl
    simp [hnone] at hc
  case swapped =>
    intro c hc hl hloc
    rw [hother c hc] at hloc
    rw [hids]
    exact h.swapped c (((hlive c).1 hl).resolve_left hc) hloc
  case cached => rfl
  case live => exact (hlive b).2 (.inl rfl)
  case location => rw [hself]
  case pointer => rw [hself]
  case cache =>
    rw [Function.update_self]
    exact hd

theorem Ready.flush (cfg : Config) (h : Ready s stored b) (hok : Room s → cfs.Ok) :
    (Room s ∧ ∃ s', queuebufFlushTmpdata cfg cfs s = some (s', true) ∧ Inv s' stored ∧ s'.bufmem = s.bufmem) ∨
    (¬ Room s ∧ queuebufFlushTmpdata cfg cfs s = some (s.setSwapId b (-1), false)) := by
  have hid : tmpdataSwapId cfg s = some (-1) := by
    unfold tmpdataSwapId
    rw [h.cached]
    dsimp only
    rw [if_pos h.live, swapId_of_pointer cfg h.pointer]
  have hremove : queuebufRemoveFromFile cfg s (-1) = some s := if_pos rfl
  unfold queuebufFlushTmpdata
  rw [h.cached, hid]
  dsimp only
  rw [hremove]
  dsimp only
  by_cases hroom : Room s
  · obtain ⟨id, s', hnew, hw, hinv, hmem⟩ := h.write (hok hroom) hroom
    refine .inl ⟨hroom, s', ?_, hinv, hmem⟩
    rw [hnew]
    dsimp only
    rw [hw]
  · refine .inr ⟨hroom, ?_⟩
    rw [getNewSwapId_full h.files hroom]

theorem Inv.refused (h : Inv s stored) {bufmem : Memb} (ha : s.bufmem.alloc = some (b, bufmem)) {d : QueuebufData A} :
    NewRight cfg pb s { (newSwapped s b bufmem d).setSwapId b (-1) with bufmem := bufmem.free b } stored none := by
  generalize hs' : ({ (newSwapped s b bufmem d).setSwapId b (-1) with bufmem := bufmem.free b } : State A) = s'
  obtain ⟨hbnum, hbfree, hbmem⟩ := Memb.alloc_eq_some ha
  have hfree : bufmem.free b = s.bufmem := by
    unfold Memb.free
    rw [hbmem, if_pos hbnum]
    dsimp only
    rw [Function.update_idem, Function.update_eq_self_iff.2 hbfree.symm]
  have hmem : s'.bufmem = s.bufmem := by
    rw [← hs']
    exact hfree
  have hlive : ∀ c, s'.Live c ↔ s.Live c := by
    intro c
    unfold State.Live
    rw [hmem]
  have hbuf : ∀ c, s.Live c → s'.buf c = s.buf c := by
    intro c hl
    have hc : c ≠ b := by
      rintro rfl
      rw [hl.2] at hbfree
      cases hbfree
    rw [← hs']
    exact (setSwapId_other hc (-1)).trans (Function.update_of_ne hc _ _)
  have hsame : s'.ram = s.ram ∧ s'.buframmem = s.buframmem ∧ s'.qbufFile = s.qbufFile ∧ s'.nextSwapId = s.nextSwapId ∧
      s'.tmpdataQbuf = some b := by
    rw [← hs']
    exact ⟨rfl, rfl, rfl, rfl, rfl⟩
  obtain ⟨hram, hrammem, hfile, hnext, hcached⟩ := hsame
  have hids : s'.ids = s.ids := by
    funext c
    by_cases hl : s.Live c
    · exact ids_congr (hlive c) (hbuf c hl)
    · have hnone : ∀ t : State A, ¬ t.Live c → t.ids c = none := fun t ht => if_neg fun hl => ht hl.1
      rw [hnone s hl, hnone s' fun hl' => hl ((hlive c).1 hl')]
  refine ⟨?_, hmem, hrammem, hbuf⟩
  constructor
  case ram =>
    constructor
    · intro c hl hloc
      have hl := (hlive c).1 hl
      rw [hbuf c hl] at hloc ⊢
      rw [hram, hrammem]
      exact h.ram.holds c hl hloc
    · intro c c' i hl hl' hloc hloc' hp hp'
      have hl := (hlive c).1 hl
      have hl' := (hlive c').1 hl'
      rw [hbuf c hl] at hloc hp
      rw [hbuf c' hl'] at hloc' hp'
      exact h.ram.inj c c' i hl hl' hloc hloc' hp hp'
  case files =>
    rw [hmem, hids, hfile, hnext]
    exact h.files
  case swapped =>
    intro c hl hloc
    have hl := (hlive c).1 hl
    rw [hbuf c hl] at hloc
    rw [hids]
    exact h.swapped c hl hloc
  case cache =>
    intro t ht hl _
    rw [hcached] at ht
    cases ht
    have hl := ((hlive b).1 hl).2
    rw [hl] at hbfree
    cases hbfree
  case cached =>
    intro c _ _
    rw [hcached]
    simp

/-- The condition on a new queuebuf: if it is swapped and there is an id for it, no call of the file system fails. -/
def CanSwap (cfs : Cfs A) (s : State A) : Prop :=
  s.bufmem.alloc ≠ none → s.buframmem.alloc = none → Room s → cfs.Ok

instance (cfs : Cfs A) (s : State A) : Decidable (CanSwap cfs s) :=
  inferInstanceAs (Decidable (_ ≠ none → _ = none → _ → _))

theorem Inv.new (cfg : Config) (pb : Packetbuf A) (h : Inv s stored) (hok : CanSwap cfs s) :
    ∃ s' r, queuebufNewFromPacketbuf cfg cfs pb s = some (s', r) ∧ NewRight cfg pb s s' stored r := by
  unfold queuebufNewFromPacketbuf
  cases ha : s.bufmem.alloc with
  | none => exact ⟨s, none, rfl, h, rfl, rfl, fun _ _ => rfl⟩
  | some m =>
    obtain ⟨b, bufmem⟩ := m
    cases hr : s.buframmem.alloc with
    | some m' =>
      obtain ⟨i, buframmem⟩ := m'
      exact ⟨_, some b, rfl, h.new_ram ha hr (content_new cfg pb (s.ram i))⟩
    | none =>
      obtain ⟨hbnum, hbfree, hbmem⟩ := Memb.alloc_eq_some ha
      obtain ⟨hready, hids⟩ := h.newSwapped_ready ha (content_new cfg pb s.tmpdata)
      have hroom : Room (newSwapped s b bufmem (packetbufAttrCopyto pb (packetbufCopyto cfg pb s.tmpdata))) ↔ Room s := by
        have hnum : (newSwapped s b bufmem (packetbufAttrCopyto pb (packetbufCopyto cfg pb s.tmpdata))).bufmem.num =
            s.bufmem.num := by
          rw [newSwapped, hbmem]
        unfold Room
        rw [hids, hnum]
        rfl
      dsimp only
      obtain ⟨-, s', he, hinv, hmem⟩ | ⟨-, he⟩ := hready.flush cfg (fun hroom' => hok (by simp [ha]) hr (hroom.1 hroom'))
      · refine ⟨s', some b, ?_, fun hl => ?_, ?_, hinv⟩
        · rw [he]
        · rw [hl.2] at hbfree
          cases hbfree
        · show b < s'.bufmem.num ∧ s'.bufmem.used b = true
          rw [hmem]
          exact hready.live
      · rw [he]
        exact ⟨_, none, rfl, h.refused ha⟩

end Contiki.Queuebuf

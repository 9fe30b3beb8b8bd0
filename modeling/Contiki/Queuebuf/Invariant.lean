/-
The swap files: as many queuebufs have their id in a file as its usage says, the ids are different, and each record is the
one that was stored last. An id that is given away is in use by no queuebuf, and only files without queuebufs are renewed.
-/
import Contiki.Queuebuf.Model

namespace Contiki.Queuebuf

section

variable {A : Type}

/-! ## What a record holds -/

/-- The data of a record up to its length, with the attributes and addresses. -/
structure Content (A : Type) where
  bytes : List UInt8
  attrs : Nat → UInt16
  addrs : Nat → A

def QueuebufData.content (d : QueuebufData A) : Content A := ⟨(List.range d.len).map d.data, d.attrs, d.addrs⟩

/-- What is stored from the packet buffer; a packet that is too long leaves no data. -/
def Packetbuf.content (cfg : Config) (pb : Packetbuf A) : Content A :=
  ⟨if pb.bytes.length > cfg.packetbufSize then [] else pb.bytes, pb.attrs, pb.addrs⟩

theorem copyto_bytes (cfg : Config) (pb : Packetbuf A) (d : QueuebufData A) :
    (packetbufCopyto cfg pb d).content.bytes = (pb.content cfg).bytes := by
  unfold packetbufCopyto Packetbuf.content QueuebufData.content
  split
  · rfl
  · apply List.ext_getElem
    · simp
    · intro i hi hi'
      have hlt : i < pb.bytes.length := hi'
      simp [hlt]

theorem content_new (cfg : Config) (pb : Packetbuf A) (d : QueuebufData A) :
    (packetbufAttrCopyto pb (packetbufCopyto cfg pb d)).content = pb.content cfg := by
  have hb := copyto_bytes cfg pb d
  unfold packetbufAttrCopyto QueuebufData.content at *
  simp only at hb
  rw [hb]
  rfl

theorem content_update (cfg : Config) (pb : Packetbuf A) (d : QueuebufData A) :
    (packetbufCopyto cfg pb (packetbufAttrCopyto pb d)).content = pb.content cfg := by
  have hb := copyto_bytes cfg pb (packetbufAttrCopyto pb d)
  have hattrs : (packetbufCopyto cfg pb (packetbufAttrCopyto pb d)).attrs = pb.attrs ∧
      (packetbufCopyto cfg pb (packetbufAttrCopyto pb d)).addrs = pb.addrs := by
    unfold packetbufCopyto
    split
    · exact ⟨rfl, rfl⟩
    · exact ⟨rfl, rfl⟩
  unfold QueuebufData.content at hb ⊢
  dsimp only at hb
  rw [hattrs.1, hattrs.2, hb]
  rfl

theorem content_updateAttr (pb : Packetbuf A) (d : QueuebufData A) :
    (packetbufAttrCopyto pb d).content = { d.content with attrs := pb.attrs, addrs := pb.addrs } := rfl

/-! ## The invariant of the files -/

def InFile (file : Nat) (id : Option Nat) : Bool := id.any fun n => n / NQBUF_PER_FILE = file

/-- `ids` gives the swap ids of the queuebufs that have one, and `stored` what was stored in them. -/
structure Files (num : Nat) (ids : Nat → Option Nat) (stored : Nat → Content A) (file : Nat → QbufFile A) (next : Nat) :
    Prop where
  usage : ∀ f < NQBUF_FILES, (file f).usage = ((List.range num).countP fun b => InFile f (ids b) : Nat)
  bound : ∀ b n, ids b = some n → b < num ∧ n < NQBUF_ID
  inj : ∀ b c n, ids b = some n → ids c = some n → b = c
  record : ∀ b n, ids b = some n →
    ∃ d, (file (n / NQBUF_PER_FILE)).record (n % NQBUF_PER_FILE) = some d ∧ d.content = stored b
  opened : ∀ f < NQBUF_FILES, (file f).opened = true
  renewable : ∀ f < NQBUF_FILES, (file f).renewable = true →
    (file f).usage = 0 ∧ (f = next / NQBUF_PER_FILE → next % NQBUF_PER_FILE = 0)
  older : ∀ b n, ids b = some n → n / NQBUF_PER_FILE = next / NQBUF_PER_FILE → next % NQBUF_PER_FILE ≠ 0 → n < next
  next : next < NQBUF_ID

variable {num next b n f : Nat} {ids : Nat → Option Nat} {stored stored' : Nat → Content A} {file : Nat → QbufFile A}

theorem div_lt_files (h : n < NQBUF_ID) : n / NQBUF_PER_FILE < NQBUF_FILES := Nat.div_lt_of_lt_mul h

theorem countP_range_update (p p' : Nat → Bool) (hb : b < n) (h : ∀ c, c ≠ b → p' c = p c) :
    (List.range n).countP p' + (if p b then 1 else 0) = (List.range n).countP p + (if p' b then 1 else 0) := by
  have hmem : b ∈ List.range n := List.mem_range.2 hb
  have hperm := List.perm_cons_erase hmem
  have hrest : ((List.range n).erase b).countP p' = ((List.range n).erase b).countP p := by
    apply List.countP_congr
    intro c hc
    rw [h c fun he => ?_]
    subst he
    exact (List.nodup_range.not_mem_erase) hc
  rw [hperm.countP_eq p', hperm.countP_eq p, List.countP_cons, List.countP_cons, hrest]
  omega

namespace Files

variable (h : Files num ids stored file next)
include h

theorem unused (hf : f < NQBUF_FILES) (hu : (file f).usage = 0) (hb : ids b = some n) : n / NQBUF_PER_FILE ≠ f := by
  intro he
  have hcount := h.usage f hf
  rw [hu, eq_comm, Int.natCast_eq_zero, List.countP_eq_zero] at hcount
  exact hcount b (List.mem_range.2 (h.bound b n hb).1) (by simp [InFile, hb, he])

theorem congr_stored (hs : ∀ b, (ids b).isSome → stored' b = stored b) : Files num ids stored' file next := by
  refine { h with record := fun b n hb => ?_ }
  obtain ⟨d, hd, hc⟩ := h.record b n hb
  exact ⟨d, hd, hc.trans (hs b (by rw [hb]; rfl)).symm⟩

theorem usage_nonneg (hf : f < NQBUF_FILES) : 0 ≤ (file f).usage := by
  rw [h.usage f hf]
  omega

theorem renew (hf : f < NQBUF_FILES) (hr : (file f).renewable = true) :
    Files num ids stored (Function.update file f ⟨true, 0, false, fun _ => none⟩) next := by
  obtain ⟨hu, -⟩ := h.renewable f hf hr
  have hoff : ∀ b n, ids b = some n → n / NQBUF_PER_FILE ≠ f := fun b n hb => h.unused hf hu hb
  refine { h with usage := ?_, record := ?_, opened := ?_, renewable := ?_ }
  · intro f' hf'
    by_cases he : f' = f
    · subst he
      rw [Function.update_self, ← h.usage f' hf', hu]
    · rw [Function.update_of_ne he]
      exact h.usage f' hf'
  · intro b n hb
    rw [Function.update_of_ne (hoff b n hb)]
    exact h.record b n hb
  · intro f' hf'
    by_cases he : f' = f
    · subst he
      rw [Function.update_self]
    · rw [Function.update_of_ne he]
      exact h.opened f' hf'
  · intro f' hf' hr'
    by_cases he : f' = f
    · subst he
      rw [Function.update_self] at hr'
      cases hr'
    · rw [Function.update_of_ne he] at hr' ⊢
      exact h.renewable f' hf' hr'

theorem drop (hb : ids b = some n) {g : QbufFile A} (hu : g.usage = (file (n / NQBUF_PER_FILE)).usage - 1)
    (hrec : g.record = (file (n / NQBUF_PER_FILE)).record) (hopen : g.opened = (file (n / NQBUF_PER_FILE)).opened)
    (hr : g.renewable = true → (file (n / NQBUF_PER_FILE)).renewable = true ∨
      g.usage = 0 ∧ n / NQBUF_PER_FILE ≠ next / NQBUF_PER_FILE) :
    Files num (Function.update ids b none) stored (Function.update file (n / NQBUF_PER_FILE) g) next := by
  obtain ⟨hnum, hn⟩ := h.bound b n hb
  have hfile := div_lt_files hn
  have hold : ∀ c m, Function.update ids b none c = some m → ids c = some m ∧ c ≠ b := by
    intro c m hc
    by_cases he : c = b
    · subst he
      simp at hc
    · rw [Function.update_of_ne he] at hc
      exact ⟨hc, he⟩
  have hcount : ∀ f', (List.range num).countP (fun c => InFile f' (Function.update ids b none c)) +
      (if n / NQBUF_PER_FILE = f' then 1 else 0) = (List.range num).countP fun c => InFile f' (ids c) := by
    intro f'
    have := countP_range_update (fun c => InFile f' (ids c)) (fun c => InFile f' (Function.update ids b none c)) hnum fun c hc => by simp only [Function.update_of_ne hc]
    simpa [InFile, hb] using this
  constructor
  case usage =>
    intro f' hf'
    have hc := hcount f'
    by_cases he : f' = n / NQBUF_PER_FILE
    · rw [he, Function.update_self, hu, h.usage _ hfile]
      rw [he, if_pos rfl] at hc
      omega
    · rw [Function.update_of_ne he, h.usage f' hf']
      rw [if_neg fun he' => he he'.symm] at hc
      omega
  case bound => exact fun c m hc => h.bound c m (hold c m hc).1
  case inj => exact fun c c' m hc hc' => h.inj c c' m (hold c m hc).1 (hold c' m hc').1
  case record =>
    intro c m hc
    obtain ⟨d, hd, he⟩ := h.record c m (hold c m hc).1
    refine ⟨d, ?_, he⟩
    by_cases hf : m / NQBUF_PER_FILE = n / NQBUF_PER_FILE
    · rw [hf, Function.update_self, hrec, ← hf]
      exact hd
    · rw [Function.update_of_ne hf]
      exact hd
  case opened =>
    intro f' hf'
    by_cases he : f' = n / NQBUF_PER_FILE
    · rw [he, Function.update_self, hopen]
      exact h.opened _ hfile
    · rw [Function.update_of_ne he]
      exact h.opened f' hf'
  case renewable =>
    intro f' hf' hr'
    by_cases he : f' = n / NQBUF_PER_FILE
    · rw [he, Function.update_self] at hr' ⊢
      rcases hr hr' with hr | ⟨hzero, hne⟩
      · exact absurd rfl (h.unused hfile (h.renewable _ hfile hr).1 hb)
      · exact ⟨hzero, fun he => absurd he hne⟩
    · rw [Function.update_of_ne he] at hr' ⊢
      exact h.renewable f' hf' hr'
  case older => exact fun c m hc => h.older c m (hold c m hc).1
  case next => exact h.next

theorem take (hb : ids b = none) (hnum : b < num) (hr : (file (next / NQBUF_PER_FILE)).renewable = false)
    (hfirst : next % NQBUF_PER_FILE = 0 → (file (next / NQBUF_PER_FILE)).usage ≤ 0) {g : QbufFile A} {d : QueuebufData A}
    (hd : d.content = stored b) (hu : g.usage = (file (next / NQBUF_PER_FILE)).usage + 1)
    (hrec : g.record = Function.update (file (next / NQBUF_PER_FILE)).record (next % NQBUF_PER_FILE) (some d))
    (hopen : g.opened = (file (next / NQBUF_PER_FILE)).opened)
    (hren : g.renewable = (file (next / NQBUF_PER_FILE)).renewable) :
    Files num (Function.update ids b (some next)) stored (Function.update file (next / NQBUF_PER_FILE) g)
      ((next + 1) % NQBUF_ID) := by
  have hfile := div_lt_files h.next
  have hnext := h.next
  -- no queuebuf has an id in the current file from the next one on
  have hfree : ∀ c m, ids c = some m → m / NQBUF_PER_FILE = next / NQBUF_PER_FILE → m < next := by
    intro c m hc hf
    by_cases hz : next % NQBUF_PER_FILE = 0
    · have hzero : (file (next / NQBUF_PER_FILE)).usage = 0 := le_antisymm (hfirst hz) (h.usage_nonneg hfile)
      exact absurd hf (h.unused hfile hzero hc)
    · exact h.older c m hc hf hz
  have hcases : ∀ c m, Function.update ids b (some next) c = some m → (c = b ∧ m = next) ∨ (c ≠ b ∧ ids c = some m) := by
    intro c m hc
    by_cases he : c = b
    · subst he
      rw [Function.update_self] at hc
      exact .inl ⟨rfl, (Option.some.inj hc).symm⟩
    · rw [Function.update_of_ne he] at hc
      exact .inr ⟨he, hc⟩
  have hcount : ∀ f', (List.range num).countP (fun c => InFile f' (Function.update ids b (some next) c)) =
      (List.range num).countP (fun c => InFile f' (ids c)) + (if next / NQBUF_PER_FILE = f' then 1 else 0) := by
    intro f'
    have := countP_range_update (fun c => InFile f' (ids c))
      (fun c => InFile f' (Function.update ids b (some next) c)) hnum fun c hc => by
        simp only [Function.update_of_ne hc]
    simpa [InFile, hb] using this
  constructor
  case usage =>
    intro f' hf'
    rw [hcount]
    by_cases he : f' = next / NQBUF_PER_FILE
    · rw [he, Function.update_self, hu, h.usage _ hfile, if_pos rfl]
      push_cast
      rfl
    · rw [Function.update_of_ne he, h.usage f' hf', if_neg fun he' => he he'.symm]
      rfl
  case bound =>
    intro c m hc
    rcases hcases c m hc with ⟨rfl, rfl⟩ | ⟨-, hc⟩
    · exact ⟨hnum, hnext⟩
    · exact h.bound c m hc
  case inj =>
    intro c c' m hc hc'
    rcases hcases c m hc with ⟨hcb, hm⟩ | ⟨-, hold⟩
    · rcases hcases c' m hc' with ⟨hcb', -⟩ | ⟨-, hold'⟩
      · exact hcb.trans hcb'.symm
      · exact absurd (hfree c' m hold' (by rw [hm])) (by omega)
    · rcases hcases c' m hc' with ⟨-, hm⟩ | ⟨-, hold'⟩
      · exact absurd (hfree c m hold (by rw [hm])) (by omega)
      · exact h.inj c c' m hold hold'
  case record =>
    intro c m hc
    rcases hcases c m hc with ⟨rfl, rfl⟩ | ⟨-, hc⟩
    · exact ⟨d, by rw [Function.update_self, hrec, Function.update_self], hd⟩
    · obtain ⟨d', hd', he⟩ := h.record c m hc
      refine ⟨d', ?_, he⟩
      by_cases hf : m / NQBUF_PER_FILE = next / NQBUF_PER_FILE
      · have hlt := hfree c m hc hf
        have hmod : m % NQBUF_PER_FILE ≠ next % NQBUF_PER_FILE := by
          intro hm
          have h1 := Nat.div_add_mod m NQBUF_PER_FILE
          have h2 := Nat.div_add_mod next NQBUF_PER_FILE
          rw [hf, hm] at h1
          omega
        rw [hf, Function.update_self, hrec, Function.update_of_ne hmod, ← hf]
        exact hd'
      · rw [Function.update_of_ne hf]
        exact hd'
  case opened =>
    intro f' hf'
    by_cases he : f' = next / NQBUF_PER_FILE
    · rw [he, Function.update_self, hopen]
      exact h.opened _ hfile
    · rw [Function.update_of_ne he]
      exact h.opened f' hf'
  case renewable =>
    intro f' hf' hr'
    by_cases he : f' = next / NQBUF_PER_FILE
    · rw [he, Function.update_self, hren, hr] at hr'
      cases hr'
    · rw [Function.update_of_ne he] at hr' ⊢
      refine ⟨(h.renewable f' hf' hr').1, fun hf => ?_⟩
      unfold NQBUF_ID NQBUF_PER_FILE NQBUF_FILES at *
      omega
  case older =>
    intro c m hc hf hz
    rcases hcases c m hc with ⟨-, hm⟩ | ⟨-, hold⟩
    · unfold NQBUF_ID NQBUF_PER_FILE NQBUF_FILES at *
      omega
    · have hlt := hfree c m hold
      unfold NQBUF_ID NQBUF_PER_FILE NQBUF_FILES at *
      omega
  case next => exact Nat.mod_lt _ (by decide)

end Files

end

/-!
What holds of the module between calls, and the parts of a call on a swapped queuebuf: it is loaded, taken from its file
and written to another one.
-/

section

open Contiki.Core

variable {A : Type} {cfg : Config} {cfs : Cfs A} {s s' : State A} {stored : Nat → Content A} {b c t n : Nat}

/-! ## The invariant -/

/-- The swap id of a queuebuf that is allocated, swapped and in a file. -/
def State.ids (s : State A) (b : Nat) : Option Nat :=
  if s.Live b ∧ (s.buf b).location = .inCfs then
    match (s.buf b).pointer with
    | .ramPtr _ => none
    | .swapId id => if 0 ≤ id then some id.toNat else none
  else none

theorem ids_eq_some : s.ids b = some n ↔ (s.Live b ∧ (s.buf b).location = .inCfs) ∧ (s.buf b).pointer = .swapId n := by
  unfold State.ids
  by_cases hl : s.Live b ∧ (s.buf b).location = .inCfs
  · rw [if_pos hl]
    cases (s.buf b).pointer with
    | ramPtr i => simp
    | swapId id =>
      by_cases hid : 0 ≤ id
      · simp only [hl, hid, if_true, Option.some.injEq, Pointer.swapId.injEq, and_self, true_and]
        omega
      · simp only [hid, if_false, reduceCtorEq, Pointer.swapId.injEq, false_iff, not_and]
        omega
  · rw [if_neg hl]
    simp [hl]

theorem ids_congr (hl : s'.Live c ↔ s.Live c) (hb : s'.buf c = s.buf c) : s'.ids c = s.ids c := by
  apply Option.ext
  intro n
  rw [ids_eq_some, ids_eq_some, hl, hb]

structure RamHolds (s : State A) (stored : Nat → Content A) : Prop where
  holds : ∀ b, s.Live b → (s.buf b).location = .inRam →
    ∃ i, (s.buf b).pointer = .ramPtr i ∧ (i < s.buframmem.num ∧ s.buframmem.used i = true) ∧ (s.ram i).content = stored b
  inj : ∀ b c i, s.Live b → s.Live c → (s.buf b).location = .inRam → (s.buf c).location = .inRam →
    (s.buf b).pointer = .ramPtr i → (s.buf c).pointer = .ramPtr i → b = c

structure Inv (s : State A) (stored : Nat → Content A) : Prop where
  ram : RamHolds s stored
  files : Files s.bufmem.num s.ids stored s.qbufFile s.nextSwapId
  swapped : ∀ b, s.Live b → (s.buf b).location = .inCfs → ∃ n, s.ids b = some n
  cache : ∀ t, s.tmpdataQbuf = some t → s.Live t → (s.buf t).location = .inCfs → s.tmpdata.content = stored t
  cached : ∀ b, s.Live b → (s.buf b).location = .inCfs → s.tmpdataQbuf ≠ none

/-- `tmpdata_qbuf` denotes an allocated queuebuf, and not one in RAM whose pointer reads as the swap id of `b`. -/
def CacheLive (cfg : Config) (s : State A) (b : Nat) : Prop :=
  ∀ t ∈ s.tmpdataQbuf, s.Live t ∧ ((s.buf t).location = .inRam → (s.buf t).swapId cfg ≠ (s.buf b).swapId cfg)

instance (cfg : Config) (s : State A) (b : Nat) : Decidable (CacheLive cfg s b) := inferInstanceAs (Decidable (∀ _ ∈ _, _))

/-- The next swap id is not the first of a file that has the id of a queuebuf. -/
def Room (s : State A) : Prop :=
  s.nextSwapId % NQBUF_PER_FILE = 0 → ∀ c < s.bufmem.num, InFile (s.nextSwapId / NQBUF_PER_FILE) (s.ids c) = false

instance (s : State A) : Decidable (Room s) := inferInstanceAs (Decidable (_ → ∀ c < _, _))

/-- The next swap id is not the first of a file that has the id of a queuebuf other than `b`. -/
def RoomBut (s : State A) (b : Nat) : Prop :=
  s.nextSwapId % NQBUF_PER_FILE = 0 →
    ∀ c < s.bufmem.num, c ≠ b → InFile (s.nextSwapId / NQBUF_PER_FILE) (s.ids c) = false

instance (s : State A) (b : Nat) : Decidable (RoomBut s b) := inferInstanceAs (Decidable (_ → ∀ c < _, _))

def Cfs.Ok (cfs : Cfs A) : Prop :=
  (∀ file < NQBUF_FILES, cfs.opens file = true) ∧ cfs.loadSeek = true ∧ cfs.read = true ∧ cfs.seek = true ∧
    cfs.write = true

instance (cfs : Cfs A) : Decidable cfs.Ok := inferInstanceAs (Decidable (_ ∧ _))

theorem swapId_of_pointer (cfg : Config) {id : Int} (h : (s.buf b).pointer = .swapId id) : (s.buf b).swapId cfg = id := by
  unfold Qbuf.swapId
  rw [h]

theorem Inv.cacheHit (h : Inv s stored) (hb : s.ids b = some n) (hc : CacheLive cfg s b) :
    ∃ t, s.tmpdataQbuf = some t ∧ s.Live t ∧ tmpdataSwapId cfg s = some ((s.buf t).swapId cfg) ∧
      ((s.buf t).swapId cfg = n ↔ t = b) := by
  obtain ⟨⟨hlb, hloc⟩, hp⟩ := ids_eq_some.1 hb
  obtain ⟨t, ht⟩ := Option.ne_none_iff_exists'.1 (h.cached b hlb hloc)
  obtain ⟨hlt, hram⟩ := hc t ht
  have hid := swapId_of_pointer cfg hp
  refine ⟨t, ht, hlt, by simp [tmpdataSwapId, ht, hlt], ?_⟩
  constructor
  · intro he
    cases hl : (s.buf t).location with
    | inRam => exact absurd (he.trans hid.symm) (hram hl)
    | inCfs =>
      obtain ⟨m, hm⟩ := h.swapped t hlt hl
      have hmp := swapId_of_pointer cfg (ids_eq_some.1 hm).2
      have hmn : m = n := by
        rw [hmp] at he
        exact_mod_cast he
      exact h.files.inj t b n (hmn ▸ hm) hb
  · rintro rfl
    exact hid

/-! ## A queuebuf is taken from its file -/

theorem forgetSwapId_live (ht : s.tmpdataQbuf = some t) (hl : s.Live t) (id : Int) :
    forgetSwapId cfg s id = some (if (s.buf t).swapId cfg = id then s.setSwapId t (-1) else s) := by
  have hid : tmpdataSwapId cfg s = some ((s.buf t).swapId cfg) := by
    unfold tmpdataSwapId
    rw [ht]
    exact if_pos hl
  unfold forgetSwapId
  rw [ht, hid]
  dsimp only
  split
  · rfl
  · rfl

structure TakenFrom (f g : QbufFile A) (other : Prop) : Prop where
  usage : g.usage = f.usage - 1
  record : g.record = f.record
  opened : g.opened = f.opened
  renewable : g.renewable = true → f.renewable = true ∨ g.usage = 0 ∧ other

theorem removeFromFile_spec (cfg : Config) (hn : n < NQBUF_ID) (ht : s.tmpdataQbuf = some t) (hl : s.Live t) :
    ∃ g timer, TakenFrom (s.qbufFile (n / NQBUF_PER_FILE)) g (n / NQBUF_PER_FILE ≠ s.nextSwapId / NQBUF_PER_FILE) ∧
      queuebufRemoveFromFile cfg s n = some (if (s.buf t).swapId cfg = n then
        { s.setFile (n / NQBUF_PER_FILE) g with renewTimer := timer }.setSwapId t (-1)
        else { s.setFile (n / NQBUF_PER_FILE) g with renewTimer := timer }) := by
  unfold queuebufRemoveFromFile
  rw [if_neg (by omega), if_neg (by omega)]
  dsimp only
  rw [Int.toNat_natCast]
  by_cases hz : (s.qbufFile (n / NQBUF_PER_FILE)).usage - 1 = 0 ∧ n / NQBUF_PER_FILE ≠ s.nextSwapId / NQBUF_PER_FILE
  · rw [if_pos hz]
    refine ⟨{ s.qbufFile (n / NQBUF_PER_FILE) with
      usage := (s.qbufFile (n / NQBUF_PER_FILE)).usage - 1, renewable := true }, true,
      ⟨rfl, rfl, rfl, fun _ => .inr hz⟩, ?_⟩
    apply forgetSwapId_live
    · exact ht
    · exact hl
  · rw [if_neg hz]
    refine ⟨{ s.qbufFile (n / NQBUF_PER_FILE) with usage := (s.qbufFile (n / NQBUF_PER_FILE)).usage - 1 }, s.renewTimer,
      ⟨rfl, rfl, rfl, .inl⟩, ?_⟩
    apply forgetSwapId_live
    · exact ht
    · exact hl

structure Ready (s : State A) (stored : Nat → Content A) (b : Nat) : Prop where
  ram : RamHolds s stored
  files : Files s.bufmem.num s.ids stored s.qbufFile s.nextSwapId
  swapped : ∀ c, c ≠ b → s.Live c → (s.buf c).location = .inCfs → ∃ n, s.ids c = some n
  cached : s.tmpdataQbuf = some b
  live : s.Live b
  location : (s.buf b).location = .inCfs
  pointer : (s.buf b).pointer = .swapId (-1)
  cache : s.tmpdata.content = stored b

theorem Ready.ids_none (h : Ready s stored b) : s.ids b = none := by
  unfold State.ids
  rw [if_pos ⟨h.live, h.location⟩, h.pointer]
  rfl

theorem setSwapId_other (h : c ≠ b) (id : Int) : (s.setSwapId b id).buf c = s.buf c := Function.update_of_ne h _ _

theorem ids_setSwapId (hl : s.Live b) (hc : (s.buf b).location = .inCfs) (id : Int) :
    (s.setSwapId b id).ids = Function.update s.ids b (if 0 ≤ id then some id.toNat else none) := by
  funext c
  by_cases hcb : c = b
  · subst hcb
    have hl' : (s.setSwapId c id).Live c := hl
    rw [Function.update_self]
    unfold State.ids
    rw [if_pos ⟨hl', by simp [State.setSwapId, hc]⟩]
    simp [State.setSwapId]
  · rw [Function.update_of_ne hcb]
    exact ids_congr Iff.rfl (setSwapId_other hcb id)

theorem ram_setSwapId (h : RamHolds s stored) (hc : (s.buf b).location = .inCfs) (id : Int) :
    RamHolds (s.setSwapId b id) stored := by
  have hbuf : ∀ c, ((s.setSwapId b id).buf c).location = .inRam → (s.setSwapId b id).buf c = s.buf c := by
    intro c hl
    by_cases hcb : c = b
    · subst hcb
      simp [State.setSwapId, hc] at hl
    · simp [State.setSwapId, hcb]
  constructor
  · intro c hl hloc
    have he := hbuf c hloc
    rw [he] at hloc ⊢
    exact h.holds c hl hloc
  · intro c c' i hl hl' hloc hloc' hp hp'
    have he := hbuf c hloc
    have he' := hbuf c' hloc'
    rw [he] at hloc hp
    rw [he'] at hloc' hp'
    exact h.inj c c' i hl hl' hloc hloc' hp hp'

/-- After its data were set in the cache, a swapped queuebuf is taken from its file. -/
theorem removeFromFile_ready (cfg : Config) (stored' : Nat → Content A) (hram : RamHolds s stored)
    (hfiles : Files s.bufmem.num s.ids stored s.qbufFile s.nextSwapId)
    (hswapped : ∀ c, c ≠ b → s.Live c → (s.buf c).location = .inCfs → ∃ n, s.ids c = some n)
    (hb : s.ids b = some n) (ht : s.tmpdataQbuf = some b) (hs : ∀ c, c ≠ b → stored' c = stored c)
    (hd : s.tmpdata.content = stored' b) :
    ∃ s', queuebufRemoveFromFile cfg s n = some s' ∧ Ready s' stored' b ∧ s'.nextSwapId = s.nextSwapId ∧
      s'.bufmem = s.bufmem ∧ ∀ c, c ≠ b → s'.ids c = s.ids c := by
  obtain ⟨⟨hl, hloc⟩, hp⟩ := ids_eq_some.1 hb
  obtain ⟨g, timer, hg, he⟩ := removeFromFile_spec cfg (hfiles.bound b n hb).2 ht hl
  rw [if_pos (swapId_of_pointer cfg hp)] at he
  have hids : ({ s.setFile (n / NQBUF_PER_FILE) g with renewTimer := timer }.setSwapId b (-1)).ids =
      Function.update s.ids b none := ids_setSwapId (s := { s.setFile (n / NQBUF_PER_FILE) g with renewTimer := timer }) hl hloc (-1)
  have hram' : RamHolds s stored' := by
    refine ⟨fun c hlc hlocc => ?_, hram.inj⟩
    obtain ⟨i, hpi, hu, hc⟩ := hram.holds c hlc hlocc
    refine ⟨i, hpi, hu, hc.trans (hs c ?_).symm⟩
    rintro rfl
    rw [hloc] at hlocc
    cases hlocc
  refine ⟨_, he, ?_, rfl, rfl, fun c hc => by rw [hids, Function.update_of_ne hc]⟩
  constructor
  case ram =>
    exact ram_setSwapId (s := { s.setFile (n / NQBUF_PER_FILE) g with renewTimer := timer }) ⟨hram'.holds, hram'.inj⟩ hloc (-1)
  case files =>
    rw [hids]
    refine (hfiles.drop hb hg.usage hg.record hg.opened hg.renewable).congr_stored fun c hc => hs c ?_
    rintro rfl
    simp at hc
  case swapped =>
    intro c hc hlc hlocc
    rw [hids, Function.update_of_ne hc]
    rw [setSwapId_other hc] at hlocc
    exact hswapped c hc hlc hlocc
  case cached => exact ht
  case live => exact hl
  case location => simpa [State.setSwapId, State.setFile] using hloc
  case pointer => simp [State.setSwapId]
  case cache => exact hd

/-! ## A queuebuf is written to a file -/

theorem renewed (hok : cfs.Ok) (hf : Files s.bufmem.num s.ids stored s.qbufFile s.nextSwapId) :
    ∃ file, (if s.nextSwapId % NQBUF_PER_FILE = 0 ∧ (s.qbufFile (s.nextSwapId / NQBUF_PER_FILE)).renewable = true then
        qbufRenewFile cfs s (s.nextSwapId / NQBUF_PER_FILE) else s) = { s with qbufFile := file } ∧
      Files s.bufmem.num s.ids stored file s.nextSwapId ∧
      (file (s.nextSwapId / NQBUF_PER_FILE)).renewable = false ∧
      (s.qbufFile (s.nextSwapId / NQBUF_PER_FILE)).usage = (file (s.nextSwapId / NQBUF_PER_FILE)).usage := by
  have hcur := div_lt_files hf.next
  by_cases hr : s.nextSwapId % NQBUF_PER_FILE = 0 ∧ (s.qbufFile (s.nextSwapId / NQBUF_PER_FILE)).renewable = true
  · rw [if_pos hr]
    refine ⟨_, ?_, hf.renew hcur hr.2, by simp, by simp [(hf.renewable _ hcur hr.2).1]⟩
    simp [qbufRenewFile, State.setFile, hr.2, hok.1 _ hcur]
  · rw [if_neg hr]
    refine ⟨s.qbufFile, rfl, hf, ?_, rfl⟩
    by_contra hren
    have hren : (s.qbufFile (s.nextSwapId / NQBUF_PER_FILE)).renewable = true := by simpa using hren
    exact hr ⟨(hf.renewable _ hcur hren).2 rfl, hren⟩

theorem getNewSwapId_full (hf : Files s.bufmem.num s.ids stored s.qbufFile s.nextSwapId) (hroom : ¬ Room s) :
    getNewSwapId cfs s = (s, none) := by
  unfold Room at hroom
  push Not at hroom
  obtain ⟨hfirst, c, -, hin⟩ := hroom
  have hin : InFile (s.nextSwapId / NQBUF_PER_FILE) (s.ids c) = true := by simpa using hin
  obtain ⟨m, hc, hm⟩ := (Option.any_eq_true _ _).1 hin
  have hm : m / NQBUF_PER_FILE = s.nextSwapId / NQBUF_PER_FILE := by simpa using hm
  have hcur := div_lt_files hf.next
  have hused : (s.qbufFile (s.nextSwapId / NQBUF_PER_FILE)).usage ≠ 0 := fun hu => hf.unused hcur hu hc hm
  have hnot : (s.qbufFile (s.nextSwapId / NQBUF_PER_FILE)).renewable ≠ true :=
    fun hr => hused (hf.renewable _ hcur hr).1
  have hpos : (s.qbufFile (s.nextSwapId / NQBUF_PER_FILE)).usage > 0 :=
    lt_of_le_of_ne (hf.usage_nonneg hcur) (Ne.symm hused)
  unfold getNewSwapId
  simp [hfirst, hnot, hpos]

theorem Ready.write (h : Ready s stored b) (hok : cfs.Ok) (hroom : Room s) : ∃ id s', (getNewSwapId cfs s).2 = some id ∧
      writeTmpdata cfs ((getNewSwapId cfs s).1.setSwapId b id) id = (s', true) ∧ Inv s' stored ∧
      s'.bufmem = s.bufmem := by
  obtain ⟨file, hren, hf, hnot, -⟩ := renewed hok h.files
  have hcur := div_lt_files hf.next
  have hzero : s.nextSwapId % NQBUF_PER_FILE = 0 → (file (s.nextSwapId / NQBUF_PER_FILE)).usage ≤ 0 := by
    intro hfirst
    rw [hf.usage _ hcur]
    have hcount : (List.range s.bufmem.num).countP (fun c => InFile (s.nextSwapId / NQBUF_PER_FILE) (s.ids c)) = 0 := by
      rw [List.countP_eq_zero]
      intro c hc
      simp [hroom hfirst c (List.mem_range.1 hc)]
    simp [hcount]
  have hnew : getNewSwapId cfs s = ({ { s with qbufFile := file }.setFile (s.nextSwapId / NQBUF_PER_FILE)
      { file (s.nextSwapId / NQBUF_PER_FILE) with usage := (file (s.nextSwapId / NQBUF_PER_FILE)).usage + 1 } with
        nextSwapId := (s.nextSwapId + 1) % NQBUF_ID }, some s.nextSwapId) := by
    unfold getNewSwapId
    dsimp only
    rw [hren, if_neg fun hpos => absurd (hzero hpos.1) (not_le.2 hpos.2)]
  rw [hnew]
  let g : QbufFile A := { file (s.nextSwapId / NQBUF_PER_FILE) with
    usage := (file (s.nextSwapId / NQBUF_PER_FILE)).usage + 1
    record := Function.update (file (s.nextSwapId / NQBUF_PER_FILE)).record (s.nextSwapId % NQBUF_PER_FILE) (some s.tmpdata) }
  have htake := hf.take h.ids_none h.live.1 hnot hzero (g := g) h.cache rfl rfl rfl rfl
  let s₁ : State A := { s with
    qbufFile := Function.update file (s.nextSwapId / NQBUF_PER_FILE) g, nextSwapId := (s.nextSwapId + 1) % NQBUF_ID }
  have hids : (s₁.setSwapId b s.nextSwapId).ids = Function.update s.ids b (some s.nextSwapId) := by
    rw [ids_setSwapId (s := s₁) h.live h.location, if_pos (Int.natCast_nonneg _), Int.toNat_natCast]
    rfl
  refine ⟨s.nextSwapId, s₁.setSwapId b s.nextSwapId, rfl, ?_, ?_, rfl⟩
  · have hopen := hf.opened _ hcur
    simp [writeTmpdata, State.setSwapId, State.setFile, hopen, hok.2.2.2.1, hok.2.2.2.2, Function.update_idem, s₁, g]
  · constructor
    case ram => exact ram_setSwapId (s := s₁) ⟨h.ram.holds, h.ram.inj⟩ h.location _
    case files =>
      rw [hids]
      exact htake
    case swapped =>
      intro c hl hloc
      rw [hids]
      by_cases hc : c = b
      · subst hc
        exact ⟨s.nextSwapId, Function.update_self ..⟩
      · rw [Function.update_of_ne hc]
        rw [setSwapId_other hc] at hloc
        exact h.swapped c hc hl hloc
    case cache =>
      intro t ht _ _
      have ht : s.tmpdataQbuf = some t := ht
      rw [h.cached] at ht
      cases ht
      exact h.cache
    case cached =>
      intro c _ _
      show s.tmpdataQbuf ≠ none
      rw [h.cached]
      simp

end

end Contiki.Queuebuf

/-
Runs of the queue buffers: as long as the cache denotes a queuebuf when it is asked, an update finds a swap id, and the
file system does not fail, swapping does what queuebufs in RAM would do.
-/
import Contiki.Lib.Run
import Contiki.Queuebuf.Calls

namespace Contiki.Queuebuf

open Contiki.Core Contiki.Lib

variable {A : Type} {cfg : Config}

inductive Result (A : Type)
  | done
  | new (b : Option Nat)
  | read (b : Nat) (content : Content A)

/-- The module, what was stored last in each queuebuf, and what the last call returned. -/
structure World (A : Type) where
  state : State A
  stored : Nat → Content A
  result : Result A

/-- A queuebuf is read by `queuebuf_to_packetbuf`, `queuebuf_dataptr`, `queuebuf_datalen`, `queuebuf_addr` or
`queuebuf_attr`, which each load it and take a part of its content. -/
inductive Action (A : Type)
  | new (pb : Packetbuf A) (cfs : Cfs A)
  | updateAttr (b : Nat) (pb : Packetbuf A) (cfs : Cfs A)
  | update (b : Nat) (pb : Packetbuf A) (cfs : Cfs A)
  | free (b : Nat)
  | read (b : Nat) (cfs : Cfs A)
  | renew (cfs : Cfs A)

@[grind =]
def Callable (w : World A) : Action A → Prop
  | .new .. => True
  | .updateAttr b .. | .update b .. | .free b | .read b _ => w.state.Live b
  | .renew _ => w.state.renewTimer = true

instance (w : World A) : ∀ action, Decidable (Callable w action)
  | .new .. => isTrue trivial
  | .updateAttr b .. | .update b .. | .free b | .read b _ => inferInstanceAs (Decidable (w.state.Live b))
  | .renew _ => inferInstanceAs (Decidable (w.state.renewTimer = true))

@[grind =]
def run (cfg : Config) (w : World A) : Action A → Option (World A)
  | .new pb cfs => (queuebufNewFromPacketbuf cfg cfs pb w.state).map fun r =>
    ⟨r.1, match r.2 with
      | none => w.stored
      | some b => Function.update w.stored b (pb.content cfg), .new r.2⟩
  | .updateAttr b pb cfs => (queuebufUpdateAttrFromPacketbuf cfg cfs pb w.state b).map fun s =>
    ⟨s, Function.update w.stored b { w.stored b with attrs := pb.attrs, addrs := pb.addrs }, .done⟩
  | .update b pb cfs => (queuebufUpdateFromPacketbuf cfg cfs pb w.state b).map fun s =>
    ⟨s, Function.update w.stored b (pb.content cfg), .done⟩
  | .free b => (queuebufFree cfg w.state b).map fun s => ⟨s, w.stored, .done⟩
  | .read b cfs => (queuebufLoadToRam cfg cfs w.state b).map fun r => ⟨r.1, w.stored, .read b (r.1.get r.2).content⟩
  | .renew cfs => some ⟨qbufRenewAll cfs w.state, w.stored, .done⟩

def step (cfg : Config) (w : World A) (action : Action A) : Option (World A) :=
  if Callable w action then run cfg w action else none

/-- After `queuebuf_init`; `zero` is what the memory holds at the start. -/
def World.init (cfg : Config) (cfs : Cfs A) (zero : QueuebufData A) : World A where
  state := queuebufInit cfg cfs
    { bufmem := .init 0
      buf := fun _ => ⟨.inRam, .ramPtr 0⟩
      buframmem := .init 0
      ram := fun _ => zero
      tmpdata := zero
      tmpdataQbuf := none
      nextSwapId := 0
      qbufFile := fun _ => ⟨false, 0, false, fun _ => none⟩
      renewTimer := false }
  stored := fun _ => zero.content
  result := .done

/-! ## What is claimed -/

/-- The usage of each file is the number of queuebufs whose id lies in it. -/
def UsageRight (s : State A) : Prop :=
  ∀ f < NQBUF_FILES, (s.qbufFile f).usage = ((List.range s.bufmem.num).countP fun b => InFile f (s.ids b) : Nat)

/-- What a call returns is what it would return with all queuebufs in RAM, but that a new queuebuf may be refused; one
that is leaves the pools and all queuebufs as they were. -/
def ResultRight (w w' : World A) : Prop :=
  match w'.result with
  | .done => True
  | .new none => w'.state.bufmem = w.state.bufmem ∧ w'.state.buframmem = w.state.buframmem ∧ w'.stored = w.stored ∧
    ∀ b, w.state.Live b → w'.state.buf b = w.state.buf b
  | .new (some b) => ¬ w.state.Live b ∧ w'.state.Live b
  | .read b content => content = w.stored b

def Fine (cfg : Config) (w : World A) (action : Action A) : Prop :=
  Callable w action → ∃ w', step cfg w action = some w' ∧ ResultRight w w'

def Sound (cfg : Config) (w : World A) : Action A → Prop
  | .new _ cfs => CanSwap cfs w.state
  | .updateAttr b _ cfs | .update b _ cfs => (w.state.buf b).location = .inCfs → CanUpdate cfg cfs w.state b
  | .free b => (w.state.buf b).location = .inCfs → CacheLive cfg w.state b
  | .read b cfs => (w.state.buf b).location = .inCfs → CacheLive cfg w.state b ∧ cfs.Ok
  | .renew cfs => cfs.Ok

instance (cfg : Config) (w : World A) : ∀ action, Decidable (Sound cfg w action)
  | .new _ cfs => inferInstanceAs (Decidable (CanSwap cfs w.state))
  | .updateAttr b _ cfs | .update b _ cfs =>
    inferInstanceAs (Decidable ((w.state.buf b).location = .inCfs → CanUpdate cfg cfs w.state b))
  | .free b => inferInstanceAs (Decidable ((w.state.buf b).location = .inCfs → CacheLive cfg w.state b))
  | .read b cfs => inferInstanceAs (Decidable ((w.state.buf b).location = .inCfs → CacheLive cfg w.state b ∧ cfs.Ok))
  | .renew cfs => inferInstanceAs (Decidable cfs.Ok)

/-! ## Runs -/

variable {w w' : World A}

/-- A call that can be made under the condition is made, returns what it should and keeps the invariant. -/
theorem step_sound {action : Action A} (h : Inv w.state w.stored) (hc : Sound cfg w action) (hcall : Callable w action) :
    ∃ w', step cfg w action = some w' ∧ ResultRight w w' ∧ Inv w'.state w'.stored := by
  unfold step
  rw [if_pos hcall]
  cases action with
  | new pb cfs =>
    obtain ⟨s', r, he, hr⟩ := h.new cfg pb hc
    cases r with
    | none =>
      obtain ⟨hinv, h₁, h₂, h₃⟩ := hr
      refine ⟨⟨s', w.stored, .new none⟩, ?_, ⟨h₁, h₂, rfl, h₃⟩, hinv⟩
      simp [run, he]
    | some b =>
      obtain ⟨hnew, hlive, hinv⟩ := hr
      refine ⟨⟨s', Function.update w.stored b (pb.content cfg), .new (some b)⟩, ?_, ⟨hnew, hlive⟩, hinv⟩
      simp [run, he]
  | updateAttr b pb cfs =>
    have hattrs : ∀ d : QueuebufData A, d.content = w.stored b →
        (packetbufAttrCopyto pb d).content = { w.stored b with attrs := pb.attrs, addrs := pb.addrs } := by
      intro d hd
      rw [content_updateAttr, hd]
    obtain ⟨s₁, ptr, s', he, hf, hinv⟩ := h.update hcall hc (packetbufAttrCopyto pb) hattrs
    have hs : queuebufUpdateAttrFromPacketbuf cfg cfs pb w.state b = some s' := by
      unfold queuebufUpdateAttrFromPacketbuf
      rw [he]
      exact hf
    refine ⟨⟨s', _, .done⟩, ?_, trivial, hinv⟩
    rw [run, hs]
    rfl
  | update b pb cfs =>
    obtain ⟨s₁, ptr, s', he, hf, hinv⟩ := h.update hcall hc
      (fun d => packetbufCopyto cfg pb (packetbufAttrCopyto pb d)) fun d _ => content_update cfg pb d
    have hs : queuebufUpdateFromPacketbuf cfg cfs pb w.state b = some s' := by
      unfold queuebufUpdateFromPacketbuf
      rw [he]
      exact hf
    refine ⟨⟨s', _, .done⟩, ?_, trivial, hinv⟩
    rw [run, hs]
    rfl
  | free b =>
    obtain ⟨s', he, hinv⟩ := h.free hcall hc
    refine ⟨⟨s', w.stored, .done⟩, ?_, trivial, hinv⟩
    simp [run, he]
  | read b cfs =>
    obtain ⟨s', ptr, he, hcontent, hinv⟩ := h.read hcall (fun hl => (hc hl).1) fun hl => (hc hl).2
    refine ⟨⟨s', w.stored, .read b (s'.get ptr).content⟩, ?_, hcontent, hinv⟩
    simp [run, he]
  | renew cfs => exact ⟨⟨qbufRenewAll cfs w.state, w.stored, .done⟩, rfl, trivial, h.renewAll hc⟩

theorem init_files (cfs : Cfs A) : ∀ (fs : List Nat) (s : State A) (f : Nat),
    f ∈ fs → (fs.foldl
      (fun s file => qbufRenewFile cfs (s.setFile file { s.qbufFile file with renewable := true }) file) s).qbufFile f =
        ⟨cfs.opens f, 0, false, fun _ => none⟩
  | [], _, _, h => nomatch h
  | f' :: fs, s, f, h => by
    rw [List.foldl_cons]
    by_cases hf : f ∈ fs
    · exact init_files cfs fs _ f hf
    · have he : f = f' := (List.mem_cons.1 h).resolve_right hf
      subst he
      have hrest : ∀ (fs : List Nat) (s : State A), f ∉ fs → (fs.foldl (fun s file =>
          qbufRenewFile cfs (s.setFile file { s.qbufFile file with renewable := true }) file) s).qbufFile f = s.qbufFile f := by
        intro fs
        induction fs with
        | nil => exact fun _ _ => rfl
        | cons g fs ih =>
          intro s hg
          rw [List.foldl_cons, ih _ fun hm => hg (List.mem_cons_of_mem _ hm)]
          have hne : f ≠ g := fun he => hg (by simp [he])
          simp [qbufRenewFile, State.setFile, hne]
      rw [hrest fs _ hf]
      simp [qbufRenewFile, State.setFile]

theorem init_rest (cfs : Cfs A) (fs : List Nat) (s : State A) :
    (fs.foldl (fun s file => qbufRenewFile cfs (s.setFile file { s.qbufFile file with renewable := true }) file)
      s).nextSwapId = s.nextSwapId := by
  induction fs generalizing s with
  | nil => rfl
  | cons f fs ih =>
    rw [List.foldl_cons, ih]
    rfl

theorem init_inv {cfs : Cfs A} (hok : cfs.Ok) (zero : QueuebufData A) :
    Inv (World.init cfg cfs zero).state (World.init cfg cfs zero).stored := by
  have hdead : ∀ b, ¬ (World.init cfg cfs zero).state.Live b := by
    rintro b ⟨-, hu⟩
    cases hu
  have hids : ∀ b, (World.init cfg cfs zero).state.ids b = none := fun b => if_neg fun hl => hdead b hl.1
  have hfile : ∀ f < NQBUF_FILES, (World.init cfg cfs zero).state.qbufFile f = ⟨cfs.opens f, 0, false, fun _ => none⟩ :=
    fun f hf => init_files cfs _ _ f (List.mem_range.2 hf)
  constructor
  case ram => exact ⟨fun b hl => absurd hl (hdead b), fun b _ _ hl => absurd hl (hdead b)⟩
  case swapped => exact fun b hl => absurd hl (hdead b)
  case cache => exact fun b _ hl => absurd hl (hdead b)
  case cached => exact fun b hl => absurd hl (hdead b)
  case files =>
    constructor
    case usage =>
      intro f hf
      rw [hfile f hf]
      simp [hids, InFile]
    case bound => exact fun b n hb => by simp [hids] at hb
    case inj => exact fun b c n hb => by simp [hids] at hb
    case record => exact fun b n hb => by simp [hids] at hb
    case older => exact fun b n hb => by simp [hids] at hb
    case opened =>
      intro f hf
      rw [hfile f hf]
      exact hok.1 f hf
    case renewable =>
      intro f hf hr
      rw [hfile f hf] at hr
      cases hr
    case next =>
      have hnext : (World.init cfg cfs zero).state.nextSwapId = 0 := init_rest cfs _ _
      rw [hnext]
      decide

/-- In every run whose steps meet the condition, no call reads through `tmpdata_qbuf` when it denotes no queuebuf, every
call returns what it should, and the usage of the files is right. -/
theorem queuebuf_run (cfg : Config) (cfs : Cfs A) (zero : QueuebufData A) (hok : cfs.Ok) (actions : List (Action A))
    (hc : AllSteps (step cfg) (Sound cfg) (World.init cfg cfs zero) actions) :
    AllStates (step cfg) (fun w => UsageRight w.state) (World.init cfg cfs zero) actions ∧
      AllSteps (step cfg) (Fine cfg) (World.init cfg cfs zero) actions := by
  have hstep : ∀ (w : World A) (a : Action A) (w' : World A), True → Inv w.state w.stored → Sound cfg w a →
      step cfg w a = some w' → Inv w'.state w'.stored := by
    intro w a w' _ h hc hs
    have hcall : Callable w a := by
      by_contra hn
      simp [step, hn] at hs
    obtain ⟨w'', he, -, hinv⟩ := step_sound h hc hcall
    rw [hs] at he
    cases he
    exact hinv
  constructor
  · have hinv : AllStates (step cfg) (fun w => Inv w.state w.stored) (World.init cfg cfs zero) actions :=
      allStates_of_allSteps (J := fun _ => True) (fun _ _ _ _ _ => trivial) hstep actions _ trivial
        (init_inv hok zero) hc
    exact hinv.mono fun _ h => h.files.usage
  · refine allSteps_of_allSteps (J := fun _ => True) (P := fun w => Inv w.state w.stored) (fun _ _ _ _ _ => trivial) hstep
      (fun w a _ h hc hcall => ?_) actions _ trivial (init_inv hok zero) hc
    obtain ⟨w', he, hr, -⟩ := step_sound h hc hcall
    exact ⟨w', he, hr⟩

def smallConfig : Config where
  queuebufNum := 3
  queuebufRamNum := 1
  packetbufSize := 4
  ramAddr := fun i => 4096 + i

def zero : QueuebufData Nat := ⟨fun _ => 0, 0, fun _ => 0, fun _ => 0⟩

def goodCfs : Cfs Nat := ⟨fun _ => true, true, true, zero, true, true, false, none⟩

def packet (byte : UInt8) : Packetbuf Nat := ⟨[byte], fun _ => 0, fun _ => 0⟩

def threeNew : List (Action Nat) := [.new (packet 1) goodCfs, .new (packet 2) goodCfs, .new (packet 3) goodCfs]

/-- The one that is not in the cache is updated and read, and the other one is freed. -/
theorem queuebuf_run_three :
    AllStates (step smallConfig) (fun w => UsageRight w.state) (World.init smallConfig goodCfs zero)
        (threeNew ++ [.update 1 (packet 4) goodCfs, .free 2, .read 1 goodCfs, .read 0 goodCfs]) ∧
      AllSteps (step smallConfig) (Fine smallConfig) (World.init smallConfig goodCfs zero)
        (threeNew ++ [.update 1 (packet 4) goodCfs, .free 2, .read 1 goodCfs, .read 0 goodCfs]) :=
  queuebuf_run smallConfig goodCfs zero (by decide) _ (by decide)

/-- The one that is in the cache is freed, and then the other one, for which `tmpdata_qbuf` is asked. -/
theorem freed_cache : ¬ AllSteps (step smallConfig) (Fine smallConfig) (World.init smallConfig goodCfs zero)
      (threeNew ++ [.free 2] ++ [.free 1]) := by
  intro h
  have hrun : (exec (step smallConfig) (World.init smallConfig goodCfs zero) (threeNew ++ [.free 2])).map (fun w =>
      (decide (Callable w (.free 1)), (step smallConfig w (.free 1)).isNone)) = some (true, true) := by decide
  obtain ⟨w, hw, hlast⟩ := Option.map_eq_some_iff.1 hrun
  obtain ⟨hcall, hnone⟩ := Prod.mk.inj hlast
  obtain ⟨w', hs, -⟩ := h.last hw (by simpa using hcall)
  rw [hs] at hnone
  cases hnone

end Contiki.Queuebuf

/-
What one observer is sent does not depend on the observers before it, but for the type of the message, which stays
confirmable once it was, and for the transactions that confirmable notifications leave open.
-/
import Contiki.Coap.Notify
import Contiki.Coap.Transfer

namespace Contiki.Coap.Observing

open Core Lib

/-! ## Setters -/

def Overwrites (f : Message (List UInt8) → Message (List UInt8)) : Prop := ∃ w : Writes, ∀ m, f m = w.apply m

theorem overwrites_id : Overwrites id := ⟨.nothing, fun _ => rfl⟩

theorem Overwrites.comp {f g : Message (List UInt8) → Message (List UInt8)} (hf : Overwrites f) (hg : Overwrites g) :
    Overwrites (g ∘ f) := by
  obtain ⟨w, hw⟩ := hf
  obtain ⟨v, hv⟩ := hg
  refine ⟨w.andThen v, fun m => ?_⟩
  show g (f m) = _
  rw [Writes.apply_andThen, hw, hv]

theorem setOption_apply (o : CoapOption) (m : Message (List UInt8)) :
    coapSetOption m o.number = { Writes.nothing with options := fun n => decide (n = o.number) }.apply m := by
  have hle : ¬ o.number > CoapOption.size1.number := Nat.not_lt.2 o.number_le
  unfold coapSetOption
  rw [if_neg hle]
  have hoptions : Function.update m.options o.number true = fun n => decide (n = o.number) || m.options n := by
    funext n
    by_cases h : n = o.number
    · subst h
      simp
    · rw [Function.update_of_ne h, decide_eq_false h, Bool.false_or]
  rw [hoptions]
  rfl

theorem overwrites_setOption (o : CoapOption) : Overwrites fun m => coapSetOption m o.number :=
  ⟨_, setOption_apply o⟩

theorem Overwrites.setOption {f : Message (List UInt8) → Message (List UInt8)} (hf : Overwrites f) (o : CoapOption) :
    Overwrites fun m => coapSetOption (f m) o.number := hf.comp (overwrites_setOption o)

theorem Overwrites.ite {f g : Message (List UInt8) → Message (List UInt8)} {c : Prop} [Decidable c] (hf : Overwrites f)
    (hg : Overwrites g) : Overwrites fun m => if c then f m else g m := by
  by_cases h : c
  · simpa only [if_pos h] using hf
  · simpa only [if_neg h] using hg

theorem overwrites_locationQuery (query : List UInt8) : Overwrites fun m => coapSetHeaderLocationQuery m query := by
  have hfield : Overwrites fun m => { m with locationQuery := query.dropWhile (· = questionMark) } :=
    ⟨{ Writes.nothing with locationQuery := some (query.dropWhile (· = questionMark)) }, fun _ => rfl⟩
  exact hfield.setOption .locationQuery

theorem overwrites_locationPath (path : List UInt8) : Overwrites fun m => coapSetHeaderLocationPath m path := by
  have hquery : Overwrites fun m => if questionMark ∈ path.dropWhile (· = slash)
      then coapSetHeaderLocationQuery m ((path.dropWhile (· = slash)).dropWhile (· ≠ questionMark)).tail else m :=
    (overwrites_locationQuery _).ite overwrites_id
  have hpath : Overwrites fun m => { m with locationPath := (path.dropWhile (· = slash)).takeWhile (· ≠ questionMark) } :=
    ⟨{ Writes.nothing with locationPath := some ((path.dropWhile (· = slash)).takeWhile (· ≠ questionMark)) },
      fun _ => rfl⟩
  -- the option is set when the path that was written is not empty
  exact (((hquery.comp hpath).setOption .locationPath).ite (hquery.comp hpath) :
    Overwrites fun m => if ((path.dropWhile (· = slash)).takeWhile (· ≠ questionMark)).length > 0 then _ else _)

theorem overwrites_block2 (num : UInt32) (more : UInt8) (size : UInt16) :
    Overwrites fun m => coapSetHeaderBlock2 m num more size := by
  have hfield : Overwrites fun m => { m with block2 := ⟨num, if more ≠ 0 then 1 else 0, size, m.block2.offset⟩ } :=
    ⟨{ Writes.nothing with block2 := some (num, if more ≠ 0 then 1 else 0, size) }, fun _ => rfl⟩
  exact (hfield.setOption .block2).ite overwrites_id

theorem overwrites_block1 (num : UInt32) (more : UInt8) (size : UInt16) :
    Overwrites fun m => coapSetHeaderBlock1 m num more size := by
  have hfield : Overwrites fun m => { m with block1 := ⟨num, more, size, m.block1.offset⟩ } :=
    ⟨{ Writes.nothing with block1 := some (num, more, size) }, fun _ => rfl⟩
  exact (hfield.setOption .block1).ite overwrites_id

theorem overwrites_setter (z : Sizes) (s : Setter) : Overwrites fun m => s.apply z m := by
  cases s with
  | statusCode v =>
    have hfield : Overwrites fun m => { m with code := v.toUInt8 } :=
      ⟨{ Writes.nothing with code := some v.toUInt8 }, fun _ => rfl⟩
    exact hfield.ite overwrites_id
  | token v => exact ⟨{ Writes.nothing with token := some (v.take coapTokenLen) }, fun _ => rfl⟩
  | contentFormat v =>
    exact Overwrites.setOption ⟨{ Writes.nothing with contentFormat := some v.toUInt16 }, fun _ => rfl⟩ .contentFormat
  | accept v => exact Overwrites.setOption ⟨{ Writes.nothing with accept := some v.toUInt16 }, fun _ => rfl⟩ .accept
  | maxAge v => exact Overwrites.setOption ⟨{ Writes.nothing with maxAge := some v }, fun _ => rfl⟩ .maxAge
  | etag v => exact Overwrites.setOption ⟨{ Writes.nothing with etag := some (v.take coapEtagLen) }, fun _ => rfl⟩ .etag
  | ifMatch v =>
    exact Overwrites.setOption ⟨{ Writes.nothing with ifMatch := some (v.take coapEtagLen) }, fun _ => rfl⟩ .ifMatch
  | ifNoneMatch => exact overwrites_setOption .ifNoneMatch
  | uriHost v => exact Overwrites.setOption ⟨{ Writes.nothing with uriHost := some v.bytes }, fun _ => rfl⟩ .uriHost
  | uriPath v =>
    exact Overwrites.setOption ⟨{ Writes.nothing with uriPath := some (v.bytes.dropWhile (· = slash)) }, fun _ => rfl⟩
      .uriPath
  | uriQuery v =>
    exact Overwrites.setOption
      ⟨{ Writes.nothing with uriQuery := some (v.bytes.dropWhile (· = questionMark)) }, fun _ => rfl⟩ .uriQuery
  | locationPath v => exact overwrites_locationPath v.bytes
  | locationQuery v => exact overwrites_locationQuery v.bytes
  | observe v => exact Overwrites.setOption ⟨{ Writes.nothing with observe := some v.toInt32 }, fun _ => rfl⟩ .observe
  | block2 num more size => exact overwrites_block2 num more size
  | block1 num more size => exact overwrites_block1 num more size
  | size2 v => exact Overwrites.setOption ⟨{ Writes.nothing with size2 := some v }, fun _ => rfl⟩ .size2
  | size1 v => exact Overwrites.setOption ⟨{ Writes.nothing with size1 := some v }, fun _ => rfl⟩ .size1
  | payload v => exact ⟨{ Writes.nothing with payload := some (v.take z.maxChunkSize) }, fun _ => rfl⟩

theorem overwrites_sets (z : Sizes) : ∀ sets : List Setter, Overwrites fun m => sets.foldl (Setter.apply z) m
  | [] => overwrites_id
  | s :: sets => (overwrites_setter z s).comp (overwrites_sets z sets)

/-! ## A message that was used before -/

namespace NotifyCall

variable {E : Type}

def own (c : NotifyCall) (obs : Observer E) (counted : Bool) : Writes :=
  let counter : Writes :=
    if counted then
      { Writes.nothing with
        observe := some obs.obsCounter.toUInt32.toInt32
        options := fun n => decide (n = CoapOption.observe.number) }
    else .nothing
  let token : Writes := { Writes.nothing with token := some (obs.token.take coapTokenLen) }
  let block : Writes :=
    if c.handling.offset ≠ 0 then
      { Writes.nothing with
        block2 := some (0, if c.handling.offset ≠ -1 then 1 else 0, UInt16.ofNat (coapMaxBlockSize c.z.maxChunkSize))
        options := fun n => decide (n = CoapOption.block2.number) }
    else .nothing
  (counter.andThen token).andThen block

def trim (c : NotifyCall) (payload : List UInt8) : List UInt8 :=
  if c.handling.offset ≠ 0 then (payload.take (coapMaxBlockSize c.z.maxChunkSize)).take c.z.maxChunkSize else payload

theorem trim_trim (c : NotifyCall) (payload : List UInt8) : c.trim (c.trim payload) = c.trim payload := by
  unfold trim
  split_ifs
  · simp only [List.take_take]
    congr 1
    omega
  · rfl

def mark (c : NotifyCall) (obs : Observer E) (type : MessageType) : MessageType :=
  if c.forced obs then .con else type

theorem blockSize_accepted (n : Nat) : blockAccepted 0 (UInt16.ofNat (coapMaxBlockSize n)) := by
  obtain ⟨k, hk, hsize, -⟩ := coapMaxBlockSize_spec n
  rw [hsize]
  exact (wireSize_pow hk).1

theorem observe_apply (z : Sizes) (v : UInt32) (m : Message (List UInt8)) :
    Setter.apply z m (.observe v) =
      { Writes.nothing with
        observe := some v.toInt32
        options := fun n => decide (n = CoapOption.observe.number) }.apply m := by
  unfold Setter.apply
  dsimp only
  rw [setOption_apply .observe]
  rfl

theorem block2_apply (c : NotifyCall) (m : Message (List UInt8)) :
    coapSetHeaderBlock2 m 0 (if c.handling.offset ≠ -1 then 1 else 0)
        (UInt16.ofNat (coapMaxBlockSize c.z.maxChunkSize)) =
      { Writes.nothing with
        block2 := some (0, if c.handling.offset ≠ -1 then 1 else 0, UInt16.ofNat (coapMaxBlockSize c.z.maxChunkSize))
        options := fun n => decide (n = CoapOption.block2.number) }.apply m := by
  have hmore : (if (if c.handling.offset ≠ -1 then 1 else 0 : UInt8) ≠ 0 then 1 else 0 : UInt8) =
      if c.handling.offset ≠ -1 then 1 else 0 := by
    by_cases h : c.handling.offset ≠ -1
    · rw [if_pos h]
      rfl
    · rw [if_neg h]
      rfl
  unfold coapSetHeaderBlock2
  rw [if_pos (blockSize_accepted c.z.maxChunkSize), hmore, setOption_apply .block2]
  rfl

theorem fill_eq (c : NotifyCall) {w : Writes} (hw : ∀ m, c.handling.sets.foldl (Setter.apply c.z) m = w.apply m)
    (obs : Observer E) (mid : UInt16) (n : Message (List UInt8)) :
    c.fill obs mid n =
      let m := (c.own obs (decide (w.code.getD n.code < 128))).apply
        (w.apply { n with type := c.mark obs n.type, mid := mid })
      { m with payload := c.trim m.payload, version := 1 } := by
  have hmark : ({ (if c.forced obs then { n with type := .con } else n) with mid := mid } : Message (List UInt8)) =
      { n with type := c.mark obs n.type, mid := mid } := by
    unfold mark
    split_ifs <;> rfl
  unfold fill
  dsimp only
  rw [hmark, hw]
  generalize hM : w.apply { n with type := c.mark obs n.type, mid := mid } = M
  have hcode : M.code = w.code.getD n.code := by
    rw [← hM]
    rfl
  rw [← hcode]
  have hcounted : (if M.code < 128 then Setter.apply c.z M (.observe obs.obsCounter.toUInt32) else M) =
      (if decide (M.code < 128) = true then
        { Writes.nothing with
          observe := some obs.obsCounter.toUInt32.toInt32
          options := fun n => decide (n = CoapOption.observe.number) } else Writes.nothing).apply M := by
    by_cases hd : M.code < 128
    · rw [if_pos hd, if_pos (decide_eq_true hd), observe_apply]
    · rw [if_neg hd, if_neg (by rwa [decide_eq_true_iff]), Writes.apply_nothing]
  rw [hcounted]
  unfold own trim
  dsimp only
  by_cases ho : c.handling.offset ≠ 0
  · rw [if_pos ho, if_pos ho, if_pos ho, block2_apply, Writes.apply_andThen, Writes.apply_andThen]
    rfl
  · rw [if_neg ho, if_neg ho, if_neg ho, Writes.apply_andThen, Writes.apply_andThen]
    rfl

theorem trim_getD (c : NotifyCall) (w : Option (List UInt8)) (payload : List UInt8) :
    c.trim (w.getD (c.trim (w.getD payload))) = c.trim (w.getD payload) := by
  cases w with
  | none => exact c.trim_trim payload
  | some p => rfl

theorem own_code (c : NotifyCall) (obs : Observer E) (counted : Bool) (m : Message (List UInt8)) :
    ((c.own obs counted).apply m).code = m.code := by
  unfold own
  cases counted <;> split_ifs <;> rfl

theorem fill_again (c : NotifyCall) (a b : Observer E) (mid mid' : UInt16) (n : Message (List UInt8)) :
    c.fill b mid (c.fill a mid' n) = { c.fill b mid n with type := c.mark b (c.fill a mid' n).type } := by
  obtain ⟨w, hw⟩ := overwrites_sets c.z c.handling.sets
  rw [fill_eq c hw b mid (c.fill a mid' n), fill_eq c hw b mid n]
  generalize hA : c.fill a mid' n = A
  rw [fill_eq c hw a mid' n] at hA
  subst hA
  dsimp only
  rw [own_code]
  have hcode : w.code.getD (w.apply { n with type := c.mark a n.type, mid := mid' }).code = w.code.getD n.code :=
    Writes.getD_getD w.code n.code
  rw [hcode]
  generalize decide (w.code.getD n.code < 128) = counted
  -- every field that is not overwritten has the value that the handlers gave it the first time
  unfold own Writes.apply Writes.andThen Writes.nothing
  by_cases ho : c.handling.offset ≠ 0 <;> cases counted <;>
    simp [ho, Writes.getD_getD, trim_getD, Writes.block_block, Writes.block_some, Writes.block_none,
      Writes.block_offset, Writes.or_again]

theorem fill_type (c : NotifyCall) (obs : Observer E) (mid : UInt16) (n : Message (List UInt8)) :
    (c.fill obs mid n).type = c.mark obs n.type := by
  obtain ⟨w, hw⟩ := overwrites_sets c.z c.handling.sets
  rw [fill_eq c hw obs mid n]
  rfl

theorem fill_mid (c : NotifyCall) (obs : Observer E) (mid : UInt16) (n : Message (List UInt8)) :
    { c.fill obs mid n with mid := 0 } = c.fill obs 0 n := by
  obtain ⟨w, hw⟩ := overwrites_sets c.z c.handling.sets
  rw [fill_eq c hw obs mid n, fill_eq c hw obs 0 n]
  rfl

end NotifyCall

/-! ## One observer -/

variable {E K : Type} {c : NotifyCall} {url : List UInt8} {x : Notifying E K} {o : Nat}

theorem notifyOne_skips (h : c.observes url (x.observers.obs o) = false) : notifyOne c url x o = x := by
  unfold notifyOne
  dsimp only
  rw [h]
  rfl

theorem notifyOne_full (h : c.observes url (x.observers.obs o) = true)
    (hfull : x.trans.transactionsMemb.numfree = 0) :
    notifyOne c url x o = { x with trans := (coapGetMid x.trans).2 } := by
  have hnone : x.trans.transactionsMemb.alloc = none := by
    by_contra hne
    have := Memb.numfree_pos.2 hne
    omega
  unfold notifyOne coapNewTransaction
  dsimp only
  rw [if_pos h]
  have hget : (coapGetMid x.trans).2.transactionsMemb = x.trans.transactionsMemb := rfl
  rw [hget, hnone]

theorem coapSend_memb {s : State E K} {t : Nat} (hfirst : (s.trans t).retransCounter = 0) :
    (coapSendTransaction s t).1.transactionsMemb =
      if (s.trans t).con then s.transactionsMemb else s.transactionsMemb.free t := by
  unfold coapSendTransaction
  by_cases hcon : (s.trans t).con = true
  · rw [if_pos hcon, if_pos hcon, if_pos (by rw [hfirst]; exact Nat.zero_le _)]
    rfl
  · rw [if_neg hcon, if_neg hcon]
    rfl

theorem coapNew_alloc {s : State E K} {t : Nat} {mem : Memb} (h : s.transactionsMemb.alloc = some (t, mem))
    (mid : UInt16) (endpoint : E) : ∃ s', coapNewTransaction s mid endpoint = some (t, s') ∧ s'.transactionsMemb = mem ∧
      (s'.trans t).retransCounter = 0 := by
  unfold coapNewTransaction
  rw [h]
  exact ⟨_, rfl, rfl, by simp [setTrans]⟩

theorem notifyOne_sends (h : c.observes url (x.observers.obs o) = true) (hfree : 0 < x.trans.transactionsMemb.numfree) :
    ∃ mid, (notifyOne c url x o).notification = c.fill (x.observers.obs o) mid x.notification ∧
      (notifyOne c url x o).sent = x.sent ++ [⟨o, (notifyOne c url x o).notification,
        coapSerializeMessage c.z (notifyOne c url x o).notification⟩] ∧
      (∀ u, u ≠ o → (notifyOne c url x o).observers.obs u = x.observers.obs u) ∧
      (notifyOne c url x o).trans.transactionsMemb.numfree =
        x.trans.transactionsMemb.numfree - if (notifyOne c url x o).notification.type = .con then 1 else 0 := by
  obtain ⟨⟨t, mem⟩, halloc⟩ := Option.ne_none_iff_exists'.1 (Memb.numfree_pos.1 hfree)
  have hcount := Memb.numfree_alloc halloc
  obtain ⟨s, hnew, hmemb, hfirst⟩ :=
    coapNew_alloc (s := (coapGetMid x.trans).2) halloc (coapGetMid x.trans).1 (x.observers.obs o).endpoint
  unfold notifyOne
  dsimp only
  rw [if_pos h, hnew]
  dsimp only
  refine ⟨_, rfl, rfl, fun u hu => Function.update_of_ne hu _ _, ?_⟩
  rw [coapSend_memb (by rw [setTrans_self]; exact hfirst), setTrans_self, setTrans_memb, hmemb]
  dsimp only
  by_cases hcon : (c.fill (x.observers.obs o) (s.trans t).mid x.notification).type = .con
  · rw [if_pos (decide_eq_true hcon), if_pos hcon]
    omega
  · rw [if_neg (by rwa [decide_eq_true_iff]), if_neg hcon, Memb.free_alloc halloc, Nat.sub_zero]

/-! ## The observers before -/

def held (c : NotifyCall) (url : List UInt8) (s : Observers E) (os : List Nat) : List Nat :=
  (os.filter fun u => c.observes url (s.obs u)).dropWhile fun u => !c.forced (s.obs u)

theorem held_skips {s : Observers E} (h : c.observes url (s.obs o) = false) (os : List Nat) :
    held c url s (os ++ [o]) = held c url s os := by
  unfold held
  rw [List.filter_append, List.filter_singleton, h]
  simp

theorem held_sends {s : Observers E} (h : c.observes url (s.obs o) = true) (os : List Nat) :
    (held c url s (os ++ [o])).length =
      (held c url s os).length + if c.forced (s.obs o) = true ∨ 0 < (held c url s os).length then 1 else 0 := by
  unfold held
  rw [List.filter_append, List.filter_singleton, h, List.dropWhile_append]
  cases (os.filter fun u => c.observes url (s.obs u)).dropWhile fun u => !c.forced (s.obs u) with
  | nil =>
    rw [List.isEmpty_nil, if_pos rfl, cond_true, List.dropWhile_cons]
    cases hf : c.forced (s.obs o) <;> simp
  | cons a as => simp

def unused : Message (List UInt8) := coapInitMessage .non 69 0

/-- The loop after the observers `pre`. -/
structure After (c : NotifyCall) (url : List UInt8) (trans : State E K) (s : Observers E) (pre : List Nat)
    (x : Notifying E K) : Prop where
  numfree : x.trans.transactionsMemb.numfree = trans.transactionsMemb.numfree - (held c url s pre).length
  type : x.notification.type =
    if 0 < (held c url s pre).length ∧ 0 < trans.transactionsMemb.numfree then .con else .non
  fill : ∀ (obs : Observer E) mid,
    c.fill obs mid x.notification = { c.fill obs mid unused with type := c.mark obs x.notification.type }
  obs : ∀ u, u ∉ pre → x.observers.obs u = s.obs u
  sent : ∀ y ∈ x.sent, y.observer ∈ pre

variable {trans : State E K} {s : Observers E} {pre : List Nat}

theorem After.start (c : NotifyCall) (url : List UInt8) (trans : State E K) (s : Observers E) :
    After c url trans s [] (startNotifying trans s) where
  numfree := rfl
  type := rfl
  fill := by
    rintro obs mid
    show c.fill obs mid unused = _
    conv_lhs => rw [show c.fill obs mid unused = { c.fill obs mid unused with type := (c.fill obs mid unused).type }
      from rfl]
    rw [NotifyCall.fill_type]
    rfl
  obs := fun u _ => rfl
  sent := by
    rintro y hy
    cases hy

theorem After.step (hx : After c url trans s pre x) (ho : o ∉ pre) :
    After c url trans s (pre ++ [o]) (notifyOne c url x o) := by
  have hobs := hx.obs o ho
  by_cases h : c.observes url (s.obs o) = true
  · have hlen := held_sends h pre
    have hnum := hx.numfree
    by_cases hfree : 0 < x.trans.transactionsMemb.numfree
    · obtain ⟨mid, hn, hsent, hothers, hcount⟩ := notifyOne_sends (hobs ▸ h) hfree
      -- the type says whether a confirmable notification was due before or is due now
      have htype : (notifyOne c url x o).notification.type =
          if c.forced (s.obs o) = true ∨ 0 < (held c url s pre).length then .con else .non := by
        rw [hn, NotifyCall.fill_type, hobs, NotifyCall.mark, hx.type]
        by_cases hf : c.forced (s.obs o) = true
        · rw [if_pos hf, if_pos (.inl hf)]
        · rw [if_neg hf]
          by_cases hpos : 0 < (held c url s pre).length
          · rw [if_pos ⟨hpos, by omega⟩, if_pos (.inr hpos)]
          · rw [if_neg (fun hc => hpos hc.1), if_neg (fun hc => hc.elim hf hpos)]
      refine ⟨?_, ?_, ?_, ?_, ?_⟩
      · rw [hcount, htype, hlen]
        split_ifs <;> simp_all
        omega
      · rw [htype, hlen]
        split_ifs <;> simp_all
      · rintro obs mid'
        rw [hn, NotifyCall.fill_again, hx.fill]
      · rintro u hu
        rw [List.mem_append, List.mem_singleton, not_or] at hu
        rw [hothers u hu.2, hx.obs u hu.1]
      · rintro y hy
        rw [hsent, List.mem_append, List.mem_singleton] at hy
        rcases hy with hy | rfl
        · exact List.mem_append_left _ (hx.sent y hy)
        · exact List.mem_append_right _ (List.mem_singleton.2 rfl)
    · have hzero : x.trans.transactionsMemb.numfree = 0 := by omega
      rw [notifyOne_full (hobs ▸ h) hzero]
      refine ⟨?_, ?_, hx.fill, fun u hu => hx.obs u fun hm => hu (List.mem_append_left _ hm),
        fun y hy => List.mem_append_left _ (hx.sent y hy)⟩
      · show x.trans.transactionsMemb.numfree = _
        omega
      · show x.notification.type = _
        rw [hx.type]
        split_ifs <;> first | rfl | omega
  · rw [Bool.not_eq_true] at h
    rw [notifyOne_skips (hobs ▸ h)]
    have hheld := held_skips h pre
    exact ⟨hheld ▸ hx.numfree, hheld ▸ hx.type, hx.fill, fun u hu => hx.obs u fun hm => hu (List.mem_append_left _ hm),
      fun y hy => List.mem_append_left _ (hx.sent y hy)⟩

theorem After.run : ∀ {os pre : List Nat} {x : Notifying E K}, (pre ++ os).Nodup → After c url trans s pre x →
    After c url trans s (pre ++ os) (os.foldl (notifyOne c url) x)
  | [], pre, x, _, hx => by simpa using hx
  | o :: os, pre, x, hnd, hx => by
    have ho : o ∉ pre := by
      rintro hm
      exact (List.nodup_append.1 hnd).2.2 o hm o List.mem_cons_self rfl
    have hsplit : pre ++ o :: os = (pre ++ [o]) ++ os := by simp
    rw [hsplit] at hnd ⊢
    exact After.run hnd (hx.step ho)

/-! ## What an observer is sent -/

/-- The notifications that were sent to the observer in block `o`, but for their message ids. -/
def Notifying.sentTo (x : Notifying E K) (o : Nat) : List (Message (List UInt8)) :=
  (x.sent.filter fun y => y.observer = o).map fun y => { y.message with mid := 0 }

theorem sentTo_eq_nil (h : ∀ y ∈ x.sent, y.observer ≠ o) : x.sentTo o = [] := by
  unfold Notifying.sentTo
  rw [List.filter_eq_nil_iff.2 fun y hy => by simpa using h y hy, List.map_nil]

theorem notifyOne_sentTo {u : Nat} (hu : u ≠ o) (x : Notifying E K) : (notifyOne c url x u).sentTo o = x.sentTo o := by
  cases h : c.observes url (x.observers.obs u) with
  | false => rw [notifyOne_skips h]
  | true =>
    by_cases hfree : 0 < x.trans.transactionsMemb.numfree
    · obtain ⟨mid, -, hsent, -⟩ := notifyOne_sends h hfree
      unfold Notifying.sentTo
      rw [hsent, List.filter_append, List.filter_singleton]
      simp [hu]
    · rw [notifyOne_full h (by omega)]
      rfl

theorem foldl_sentTo : ∀ (os : List Nat) (x : Notifying E K), o ∉ os →
    (os.foldl (notifyOne c url) x).sentTo o = x.sentTo o
  | [], _, _ => rfl
  | u :: os, x, h => by
    rw [List.mem_cons, not_or] at h
    rw [List.foldl_cons, foldl_sentTo os _ h.2, notifyOne_sentTo (Ne.symm h.1)]

/-- The notification for an observer, confirmable or not. -/
def NotifyCall.notice (c : NotifyCall) (obs : Observer E) (con : Prop) [Decidable con] : Message (List UInt8) :=
  { c.fill obs 0 unused with type := if con then .con else .non }

theorem After.sentTo (hx : After c url trans s pre x) (ho : o ∉ pre) : (notifyOne c url x o).sentTo o =
      if c.observes url (s.obs o) = true ∧ (held c url s pre).length < trans.transactionsMemb.numfree then
        [c.notice (s.obs o) (c.forced (s.obs o) = true ∨ 0 < (held c url s pre).length)] else [] := by
  have hobs := hx.obs o ho
  have hnum := hx.numfree
  have hnone : x.sentTo o = [] := sentTo_eq_nil fun y hy => by
    rintro rfl
    exact ho (hx.sent y hy)
  by_cases h : c.observes url (s.obs o) = true
  · by_cases hfree : 0 < x.trans.transactionsMemb.numfree
    · rw [if_pos ⟨h, by omega⟩]
      obtain ⟨mid, hn, hsent, -⟩ := notifyOne_sends (hobs ▸ h) hfree
      have happend : (notifyOne c url x o).sentTo o =
          x.sentTo o ++ [{ (notifyOne c url x o).notification with mid := 0 }] := by
        unfold Notifying.sentTo
        rw [hsent, List.filter_append, List.filter_singleton]
        simp
      rw [happend, hnone, List.nil_append, hn, hobs, NotifyCall.fill_mid, hx.fill, hx.type]
      unfold NotifyCall.notice NotifyCall.mark
      congr 2
      split_ifs <;> simp_all
    · rw [if_neg (by omega), notifyOne_full (hobs ▸ h) (by omega)]
      exact hnone
  · rw [if_neg (fun hc => h hc.1)]
    rw [Bool.not_eq_true] at h
    rw [notifyOne_skips (hobs ▸ h), hnone]

/-- The observers before `o` in the list. -/
def Observers.before (s : Observers E) (o : Nat) : List Nat := s.observersList.takeWhile (· ≠ o)

theorem notified_eq (hurl : c.url = some url) (trans : State E K) {s : Observers E} (hnd : s.observersList.Nodup)
    (ho : o ∈ s.observersList) : (coapNotifyObserversSub c trans s).sentTo o =
      if c.observes url (s.obs o) = true ∧ (held c url s (s.before o)).length < trans.transactionsMemb.numfree then
        [c.notice (s.obs o) (c.forced (s.obs o) = true ∨ 0 < (held c url s (s.before o)).length)] else [] := by
  obtain ⟨pre, post, hsplit⟩ := List.append_of_mem ho
  rw [hsplit] at hnd
  have hpre : o ∉ pre := by
    rintro hm
    exact (List.nodup_append.1 hnd).2.2 o hm o List.mem_cons_self rfl
  have hpost : o ∉ post := (List.nodup_cons.1 (List.nodup_append.1 hnd).2.1).1
  have hbefore : s.before o = pre := by
    unfold Observers.before
    rw [hsplit, List.takeWhile_append_of_pos, List.takeWhile_cons_of_neg (by simp), List.append_nil]
    rintro u hu
    simpa using fun h : u = o => hpre (h ▸ hu)
  unfold coapNotifyObserversSub
  rw [hurl, hbefore]
  dsimp only
  rw [hsplit, List.foldl_append, List.foldl_cons, foldl_sentTo post _ hpost]
  have hx : After c url trans s ([] ++ pre) _ := After.run (List.nodup_append.1 hnd).1 (After.start c url trans s)
  exact hx.sentTo hpre

/-! ## One observer or many -/

/-- A call with an observer of the list, whose items are distinct. -/
structure Notified (E K : Type) where
  c : NotifyCall
  trans : State E K
  observers : Observers E
  o : Nat
  distinct : observers.observersList.Nodup
  mem : o ∈ observers.observersList

namespace Notified

def alone (d : Notified E K) : Notified E K :=
  { d with
    observers := { d.observers with observersList := [d.o] }
    distinct := List.nodup_singleton d.o
    mem := List.mem_singleton.2 rfl }

def sentTo (d : Notified E K) : List (Message (List UInt8)) :=
  (coapNotifyObserversSub d.c d.trans d.observers).sentTo d.o

/-- No observer of the URL before `o` is due for a confirmable notification, or `o` is due for one itself and there are
enough transactions; or nothing is sent in either case. -/
def Independent (d : Notified E K) : Prop :=
  ∀ url ∈ d.c.url, d.c.observes url (d.observers.obs d.o) = true → 0 < d.trans.transactionsMemb.numfree →
    held d.c url d.observers (d.observers.before d.o) = [] ∨ d.c.forced (d.observers.obs d.o) = true ∧
      (held d.c url d.observers (d.observers.before d.o)).length < d.trans.transactionsMemb.numfree

theorem alone_before (d : Notified E K) : d.alone.observers.before d.o = [] := by
  show [d.o].takeWhile (· ≠ d.o) = []
  rw [List.takeWhile_cons_of_neg (by simp)]

theorem alone_sentTo (d : Notified E K) {url : List UInt8} (hurl : d.c.url = some url) : d.alone.sentTo =
      if d.c.observes url (d.observers.obs d.o) = true ∧ 0 < d.trans.transactionsMemb.numfree then
        [d.c.notice (d.observers.obs d.o) (d.c.forced (d.observers.obs d.o) = true)] else [] := by
  have h := notified_eq (K := K) hurl d.trans d.alone.distinct d.alone.mem
  have hbefore : d.alone.observers.before d.alone.o = [] := d.alone_before
  rw [hbefore] at h
  refine h.trans ?_
  simp [held, alone]

theorem notice_inj (c : NotifyCall) (obs : Observer E) {p q : Prop} [Decidable p] [Decidable q] :
    c.notice obs p = c.notice obs q ↔ (p ↔ q) := by
  constructor
  · intro h
    have htype : (if p then MessageType.con else .non) = if q then .con else .non := congrArg Message.type h
    by_cases hp : p <;> by_cases hq : q <;> simp [hp, hq] at htype ⊢
  · intro h
    unfold NotifyCall.notice
    simp only [h]

end Notified

/-- What an observer is sent is what it would be sent as the only one exactly when it is independent. -/
theorem notified_alone (d : Notified E K) : d.sentTo = d.alone.sentTo ↔ d.Independent := by
  unfold Notified.Independent
  cases hurl : d.c.url with
  | none =>
    refine iff_of_true ?_ fun url h => by cases h
    unfold Notified.sentTo coapNotifyObserversSub
    have halone : d.alone.c.url = none := hurl
    rw [hurl, halone]
    rfl
  | some url =>
    have hfull : d.sentTo = _ := notified_eq hurl d.trans d.distinct d.mem
    rw [hfull, d.alone_sentTo hurl]
    simp only [Option.mem_some_iff, forall_eq']
    by_cases h : d.c.observes url (d.observers.obs d.o) = true
    · by_cases hfree : 0 < d.trans.transactionsMemb.numfree
      · rw [if_pos (⟨h, hfree⟩ : _ ∧ 0 < d.trans.transactionsMemb.numfree)]
        have hnil : held d.c url d.observers (d.observers.before d.o) = [] ↔
            (held d.c url d.observers (d.observers.before d.o)).length = 0 := List.length_eq_zero_iff.symm
        rw [hnil]
        generalize (held d.c url d.observers (d.observers.before d.o)).length = k
        by_cases hk : k < d.trans.transactionsMemb.numfree
        · rw [if_pos (⟨h, hk⟩ : _ ∧ k < d.trans.transactionsMemb.numfree), List.singleton_inj, Notified.notice_inj]
          constructor
          · intro hiff _ _
            by_cases hf : d.c.forced (d.observers.obs d.o) = true
            · exact .inr ⟨hf, hk⟩
            · exact .inl (by by_contra hne; exact hf (hiff.1 (.inr (by omega))))
          · intro hi
            rcases hi h hfree with rfl | ⟨hf, -⟩
            · simp
            · simp [hf]
        · rw [if_neg (fun hc => hk hc.2)]
          refine iff_of_false (by simp) fun hi => ?_
          rcases hi h hfree with rfl | ⟨-, hlt⟩
          · exact hk hfree
          · exact hk hlt
      · rw [if_neg (fun hc => hfree (Nat.zero_lt_of_lt hc.2)), if_neg (fun hc => hfree hc.2)]
        exact iff_of_true rfl fun _ hpos => absurd hpos hfree
    · rw [if_neg (fun hc => h hc.1), if_neg (fun hc => h hc.1)]
      exact iff_of_true rfl fun hobs => absurd hobs h

/-- Two observers of one URL, with transactions for both: a confirmable notification is due for the first only. -/
def dueFirst : Notified Unit Unit where
  c :=
    { z := ⟨64, 32, by decide⟩
      refreshInterval := 20
      urlLen := 20
      handlers := ⟨[.payload [1]], 0⟩
      handled := true
      resource := some ⟨⟨[97], by decide⟩, false, fun _ => ⟨[], 0⟩⟩
      subpath := none }
  trans := ⟨Memb.init 2, [], fun _ => ⟨0, 0, (), none, false, false⟩, 0⟩
  observers := ⟨Memb.init 2, [0, 1], fun o => ⟨[97], (), [UInt8.ofNat o], 0, if o = 0 then 0 else 1⟩⟩
  o := 1
  distinct := by decide
  mem := by decide

theorem second_confirmable : dueFirst.sentTo ≠ dueFirst.alone.sentTo := by
  intro h
  have htypes : dueFirst.sentTo.map Message.type = dueFirst.alone.sentTo.map Message.type := congrArg _ h
  revert htypes
  decide +kernel

end Contiki.Coap.Observing

/-
What each function of etimer.c does to the list of timers: the timers of the list are those before the
call with the timer added, taken out, or those of an exited process taken out; a poll takes out the
expired timers in the order of the list for as long as the event queue takes their events.
-/
import Contiki.Etimer.Model

namespace Contiki.Etimer

open Contiki.Lib

variable {n w : Nat} {s s' : State n w} {l l' : List (Fin n)}

/-! ## The least distance -/

def State.exp (s : State n w) (t : Fin n) : BitVec w := etimerExpirationTime (s.timers t)

/-- What `update_time` computes from the timers of the list. -/
@[grind =]
def earliest (clock : BitVec w) (exp : Fin n → BitVec w) : List (Fin n) → BitVec w
  | [] => 0
  | t :: l => clock + l.foldl (fun tdist t => if exp t - clock < tdist then exp t - clock else tdist) (exp t - clock)

theorem foldl_min (dist : Fin n → BitVec w) : ∀ (l : List (Fin n)) (d : BitVec w),
    (l.foldl (fun tdist t => if dist t < tdist then dist t else tdist) d = d ∨
      ∃ t ∈ l, l.foldl (fun tdist t => if dist t < tdist then dist t else tdist) d = dist t) ∧
    (l.foldl (fun tdist t => if dist t < tdist then dist t else tdist) d).toNat ≤ d.toNat ∧
    ∀ t ∈ l, (l.foldl (fun tdist t => if dist t < tdist then dist t else tdist) d).toNat ≤ (dist t).toNat
  | [], d => ⟨Or.inl rfl, Nat.le_refl _, fun t ht => absurd ht List.not_mem_nil⟩
  | t :: l, d => by
    obtain ⟨hex, hle, hall⟩ := foldl_min dist l (if dist t < d then dist t else d)
    simp only [List.foldl_cons]
    by_cases hlt : dist t < d
    · rw [if_pos hlt] at hex hle hall ⊢
      rw [BitVec.lt_def] at hlt
      refine ⟨Or.inr ?_, by omega, fun t' ht' => ?_⟩
      · rcases hex with hex | ⟨t', ht', hex⟩
        · exact ⟨t, List.mem_cons_self .., hex⟩
        · exact ⟨t', List.mem_cons_of_mem _ ht', hex⟩
      · rcases List.mem_cons.1 ht' with rfl | ht'
        · exact hle
        · exact hall t' ht'
    · rw [if_neg hlt] at hex hle hall ⊢
      rw [BitVec.lt_def, Nat.not_lt] at hlt
      refine ⟨hex.imp id fun ⟨t', ht', he⟩ => ⟨t', List.mem_cons_of_mem _ ht', he⟩, hle, fun t' ht' => ?_⟩
      rcases List.mem_cons.1 ht' with rfl | ht'
      · omega
      · exact hall t' ht'

/-- Half of the clock's range ahead of `clock` the time `e` has passed. -/
def Due (clock e : BitVec w) : Prop := 2 ^ (w - 1) ≤ (e - clock).toNat

def Level (clock : BitVec w) (exp : Fin n → BitVec w) (l : List (Fin n)) : Prop :=
  (∀ t ∈ l, ¬ Due clock (exp t)) ∨ ∀ t ∈ l, Due clock (exp t)

/-- `e` is the expiration of a timer of the list, and none expires before it. -/
def Earliest (exp : Fin n → BitVec w) (l : List (Fin n)) (e : BitVec w) : Prop :=
  ∃ t ∈ l, e = exp t ∧ ∀ t' ∈ l, (exp t' - e).toNat < 2 ^ (w - 1)

theorem earliest_of_level {clock : BitVec w} {exp : Fin n → BitVec w} (hl : l ≠ []) (h : Level clock exp l) :
    Earliest exp l (earliest clock exp l) := by
  obtain ⟨t₀, ts, rfl⟩ := List.exists_cons_of_ne_nil hl
  obtain ⟨hex, hle, hall⟩ := foldl_min (fun t => exp t - clock) ts (exp t₀ - clock)
  simp only [earliest]
  generalize ts.foldl (fun tdist t => if exp t - clock < tdist then exp t - clock else tdist) (exp t₀ - clock) = d at *
  obtain ⟨t, ht, hd⟩ : ∃ t ∈ t₀ :: ts, d = exp t - clock := by
    rcases hex with hex | ⟨t, ht, hex⟩
    · exact ⟨t₀, List.mem_cons_self .., hex⟩
    · exact ⟨t, List.mem_cons_of_mem _ ht, hex⟩
  have hmin : ∀ t' ∈ t₀ :: ts, d.toNat ≤ (exp t' - clock).toNat := by
    intro t' ht'
    rcases List.mem_cons.1 ht' with rfl | ht'
    · exact hle
    · exact hall t' ht'
  refine ⟨t, ht, by rw [hd, BitVec.add_comm, BitVec.sub_add_cancel], fun t' ht' => ?_⟩
  have hsub : exp t' - (clock + d) = (exp t' - clock) - d := by rw [BitVec.sub_sub]
  rw [hsub, BitVec.toNat_sub_of_le (BitVec.le_def.2 (hmin t' ht'))]
  have hlt := (exp t' - clock).isLt
  rcases h with hnone | hsome
  · have := hnone t' ht'
    unfold Due at this
    omega
  · have := hsome t ht
    unfold Due at this
    rw [← hd] at this
    rcases w with - | w
    · omega
    · rw [Nat.add_sub_cancel] at this ⊢
      omega

/-! ## The functions -/

theorem list_of_chain (hc : Chain s.next s.timerlist l) : s.list = some l := follow_of_chain hc hc.length_le

theorem updateTime_eq (hc : Chain s.next s.timerlist l) :
    updateTime s = some { s with nextExpiration := earliest s.clock s.exp l } := by
  unfold updateTime
  rw [list_of_chain hc]
  cases l <;> rfl

@[simp] theorem timers_set (t : Fin n) (v : Timer n w) : (s.set t v).timers = Function.update s.timers t v := rfl
@[simp] theorem timerlist_set (t : Fin n) (v : Timer n w) : (s.set t v).timerlist = s.timerlist := rfl
@[simp] theorem clock_set (t : Fin n) (v : Timer n w) : (s.set t v).clock = s.clock := rfl
@[simp] theorem nextExpiration_set (t : Fin n) (v : Timer n w) : (s.set t v).nextExpiration = s.nextExpiration := rfl

/-- What a call leaves: the list, the owners, and the times of all timers as they were. -/
structure Leaves (s s' : State n w) (l' : List (Fin n)) (p' : Fin n → Option Process) : Prop where
  chain : Chain s'.next s'.timerlist l'
  p : ∀ t, (s'.timers t).p = p' t
  start : ∀ t, (s'.timers t).start = (s.timers t).start
  interval : ∀ t, (s'.timers t).interval = (s.timers t).interval
  clock : s'.clock = s.clock

variable {p' : Fin n → Option Process}

theorem Leaves.exp (h : Leaves s s' l' p') : s'.exp = s.exp := by
  funext t
  simp only [State.exp, etimerExpirationTime, h.start t, h.interval t]

theorem Leaves.expired (h : Leaves s s' l' p') (t : Fin n) :
    timerExpired s'.clock (s'.timers t) = timerExpired s.clock (s.timers t) := by
  simp only [timerExpired, h.start t, h.interval t, h.clock]

theorem Leaves.trans {s'' : State n w} {l'' : List (Fin n)} {p'' : Fin n → Option Process} (h : Leaves s s' l' p')
    (h' : Leaves s' s'' l'' p'') : Leaves s s'' l'' p'' where
  chain := h'.chain
  p := h'.p
  start t := (h'.start t).trans (h.start t)
  interval t := (h'.interval t).trans (h.interval t)
  clock := h'.clock.trans h.clock

theorem Leaves.congr_p {p'' : Fin n → Option Process} (h : Leaves s s' l' p') (hp : ∀ t, p' t = p'' t) :
    Leaves s s' l' p'' :=
  ⟨h.chain, fun t => (h.p t).trans (hp t), h.start, h.interval, h.clock⟩

def added (et : Fin n) (l : List (Fin n)) : List (Fin n) := if et ∈ l then l else et :: l

theorem updateTime_leaves (h : Leaves s s' l' p') :
    ∃ s'', updateTime s' = some s'' ∧ Leaves s s'' l' p' ∧ s''.nextExpiration = earliest s.clock s.exp l' := by
  refine ⟨_, updateTime_eq h.chain, ⟨h.chain, h.p, h.start, h.interval, h.clock⟩, ?_⟩
  rw [← h.clock, ← h.exp]

theorem addTimer_spec (current : Option Process) (et : Fin n) (hc : Chain s.next s.timerlist l)
    (howned : ∀ t ∈ l, (s.timers t).p ≠ none) : ∃ s', addTimer current et s = some s' ∧
      Leaves s s' (added et l) (fun t => if t = et then current else (s.timers t).p) ∧
      s'.nextExpiration = earliest s.clock s.exp (added et l) := by
  have hfound : s.find et = some (decide (et ∈ l)) := by
    unfold State.find
    split
    · rw [list_of_chain hc]
      rfl
    · rename_i hp
      have : et ∉ l := fun hmem => howned et hmem (by simpa using hp)
      simp [this]
  unfold addTimer
  rw [hfound]
  simp only [Option.bind_eq_bind, Option.bind_some, decide_eq_true_eq]
  by_cases hmem : et ∈ l
  · rw [if_pos hmem, added, if_pos hmem]
    refine updateTime_leaves ⟨?_, fun t => ?_, fun t => ?_, fun t => ?_, rfl⟩
    · refine hc.congr fun t _ => ?_
      by_cases h : t = et <;> simp [State.next, h]
    all_goals by_cases h : t = et <;> simp [h]
  · rw [if_neg hmem, added, if_neg hmem]
    refine updateTime_leaves ⟨hc.push ?_ fun t ht => ?_, fun t => ?_, fun t => ?_, fun t => ?_, rfl⟩
    · simp [State.next]
    · have h : t ≠ et := fun h => hmem (h ▸ ht)
      simp [State.next, h]
    all_goals by_cases h : t = et <;> simp [h]

theorem unlink_leaves {l₁ l₂ : List (Fin n)} {et : Fin n} (hc : Chain s.next s.timerlist (l₁ ++ et :: l₂)) :
    Leaves s (s.unlink l₁.getLast? et) (l₁ ++ l₂) (fun t => (s.timers t).p) := by
  rcases List.eq_nil_or_concat l₁ with rfl | ⟨m, u, rfl⟩
  · refine ⟨?_, fun t => rfl, fun t => rfl, fun t => rfl, rfl⟩
    exact hc.2
  · have hnodup := hc.nodup
    rw [List.concat_eq_append] at hc hnodup ⊢
    rw [List.getLast?_concat]
    rw [List.append_assoc, List.singleton_append] at hc hnodup ⊢
    refine ⟨?_, fun t => ?_, fun t => ?_, fun t => ?_, rfl⟩
    · have hm : ∀ x ∈ m, x ≠ u := by
        rintro x hx rfl
        exact (List.nodup_append.1 hnodup).2.2 x hx x (List.mem_cons_self ..) rfl
      have hl₂ : ∀ x ∈ l₂, x ≠ u := by
        rintro x hx rfl
        have := (List.nodup_cons.1 (List.nodup_append.1 hnodup).2.1).1
        exact this (List.mem_cons_of_mem _ hx)
      refine hc.unlink ?_ (fun x hx => ?_) (fun x hx => ?_)
      · simp [State.unlink, State.next]
      · simp [State.unlink, State.next, hm x hx]
      · simp [State.unlink, State.next, hl₂ x hx]
    all_goals by_cases h : t = u <;> simp [State.unlink, h]

theorem Leaves.clear {et : Fin n} (h : Leaves s s' l' p') (het : et ∉ l') :
    Leaves s (s'.set et { s'.timers et with next := none, p := none }) l' (fun t => if t = et then none else p' t) := by
  refine ⟨h.chain.congr fun t ht => ?_, fun t => ?_, fun t => ?_, fun t => ?_, h.clock⟩
  · have hne : t ≠ et := fun he => het (he ▸ ht)
    simp [State.next, hne]
  · by_cases ht : t = et <;> simp [ht, h.p]
  · by_cases ht : t = et <;> simp [ht, h.start]
  · by_cases ht : t = et <;> simp [ht, h.interval]

theorem find_before {l₂ : List (Fin n)} {et : Fin n} : ∀ {l₁ : List (Fin n)} {t₀ : Fin n},
    Chain s.next (some t₀) (t₀ :: (l₁ ++ et :: l₂)) →
      (t₀ :: (l₁ ++ et :: l₂)).find? (fun t => s.next t = some et) = (t₀ :: l₁).getLast?
  | [], t₀, ⟨_, hn, _⟩ => by simp [hn]
  | t₁ :: l₁, t₀, hc => by
    have ih := find_before (show Chain s.next (some t₁) (t₁ :: (l₁ ++ et :: l₂)) from ⟨rfl, hc.2.2⟩)
    have hne : ¬ s.next t₀ = some et := by
      intro he
      have h1 : s.next t₀ = some t₁ := hc.2.1
      rw [h1] at he
      obtain rfl := Option.some.inj he
      have := (List.nodup_cons.1 (List.nodup_cons.1 hc.nodup).2).1
      exact this (by simp)
    rw [List.find?_cons_of_neg (by simpa using hne), List.getLast?_cons_cons]
    exact ih

theorem takeOut_mem {et : Fin n} {l₁ l₂ : List (Fin n)} (hc : Chain s.next s.timerlist (l₁ ++ et :: l₂)) :
    takeOut et s = updateTime (s.unlink l₁.getLast? et) := by
  unfold takeOut
  cases l₁ with
  | nil => rw [if_pos hc.1, List.getLast?_nil]
  | cons t₀ l₁ =>
    have hne : ¬ s.timerlist = some et := by
      rw [hc.1]
      intro he
      obtain rfl := Option.some.inj he
      exact (List.nodup_cons.1 hc.nodup).1 (by simp)
    have hfind := find_before (show Chain s.next (some t₀) (t₀ :: (l₁ ++ et :: l₂)) from ⟨rfl, hc.2⟩)
    obtain ⟨u, hu⟩ : ∃ u, (t₀ :: l₁).getLast? = some u := ⟨_, List.getLast?_eq_some_getLast (by simp)⟩
    rw [if_neg hne, list_of_chain hc, hu]
    simp only [Option.bind_eq_bind, Option.bind_some]
    rw [List.cons_append, hfind, hu]

theorem takeOut_not_mem {et : Fin n} (hc : Chain s.next s.timerlist l) (het : et ∉ l) : takeOut et s = some s := by
  have hne : ¬ s.timerlist = some et := by
    intro he
    rw [he] at hc
    cases l with
    | nil => cases hc
    | cons t l =>
      obtain rfl := Option.some.inj hc.1
      exact het (List.mem_cons_self ..)
  have hfind : l.find? (fun t => s.next t = some et) = none := by
    rw [List.find?_eq_none]
    intro t ht hn
    exact het (hc.closed ht (by simpa using hn))
  unfold takeOut
  rw [if_neg hne, list_of_chain hc]
  simp only [Option.bind_eq_bind, Option.bind_some, hfind]
  rfl

theorem etimerStop_spec (et : Fin n) (hc : Chain s.next s.timerlist l) : ∃ s', etimerStop et s = some s' ∧
      Leaves s s' (l.erase et) (fun t => if t = et then none else (s.timers t).p) ∧
      s'.nextExpiration = if et ∈ l then earliest s.clock s.exp (l.erase et) else s.nextExpiration := by
  unfold etimerStop
  by_cases het : et ∈ l
  · obtain ⟨l₁, l₂, rfl⟩ := List.append_of_mem het
    have hnot : et ∉ l₁ := fun h => (List.nodup_append.1 hc.nodup).2.2 et h et (List.mem_cons_self ..) rfl
    have herase : (l₁ ++ et :: l₂).erase et = l₁ ++ l₂ := by
      rw [List.erase_append_right _ hnot, List.erase_cons_head]
    have hgone : et ∉ l₁ ++ l₂ := by
      have := (List.nodup_cons.1 (List.nodup_append.1 hc.nodup).2.1).1
      simp [hnot, this]
    obtain ⟨s₁, hs₁, hleaves, hnext⟩ := updateTime_leaves (unlink_leaves hc)
    rw [takeOut_mem hc, hs₁, if_pos het, herase]
    exact ⟨_, rfl, hleaves.clear hgone, hnext⟩
  · rw [takeOut_not_mem hc het, if_neg het, List.erase_of_not_mem het]
    have hleaves : Leaves s s l (fun t => (s.timers t).p) := ⟨hc, fun _ => rfl, fun _ => rfl, fun _ => rfl, rfl⟩
    exact ⟨_, rfl, hleaves.clear het, rfl⟩

/-! ## Exited processes -/

/-- The timers of the list whose owner is not `p`. -/
def State.others (s : State n w) (p : Process) (l : List (Fin n)) : List (Fin n) := l.filter fun t => (s.timers t).p ≠ some p

theorem dropOwned_spec (p : Process) : ∀ {k : Nat} {s : State n w} {l : List (Fin n)}, Chain s.next s.timerlist l →
    l.length ≤ k → ∃ s' l', dropOwned p k s = some s' ∧ Leaves s s' l' (fun t => (s.timers t).p) ∧
      s'.nextExpiration = s.nextExpiration ∧ s.others p l' = s.others p l ∧ l'.length ≤ l.length ∧
      ∀ t, l'.head? = some t → (s.timers t).p ≠ some p
  | k, s, [], hc, _ => by
    refine ⟨s, [], ?_, ⟨hc, fun _ => rfl, fun _ => rfl, fun _ => rfl, rfl⟩, rfl, rfl, Nat.le_refl _, fun t ht => by cases ht⟩
    cases k <;> simp [dropOwned, chain_nil.1 hc]
  | k + 1, s, t :: l, hc, hk => by
    by_cases hp : (s.timers t).p = some p
    · obtain ⟨s', l', hs', hleaves, hnext, hothers, hlen, hhead⟩ :=
        dropOwned_spec p (k := k) (s := s.unlink none t) (l := l) hc.2 (by simpa using hk)
      refine ⟨s', l', ?_, ?_, hnext, ?_, ?_, hhead⟩
      · rw [dropOwned, hc.1]
        simp only [if_pos hp]
        exact hs'
      · exact ⟨hleaves.chain, hleaves.p, hleaves.start, hleaves.interval, hleaves.clock⟩
      · rw [State.others, State.others, List.filter_cons_of_neg (by simpa using hp)]
        exact hothers
      · rw [List.length_cons]
        omega
    · refine ⟨s, t :: l, ?_, ⟨hc, fun _ => rfl, fun _ => rfl, fun _ => rfl, rfl⟩, rfl, rfl, Nat.le_refl _, ?_⟩
      · rw [dropOwned, hc.1]
        simp only [if_neg hp]
      · intro t' ht'
        obtain rfl := Option.some.inj ht'
        exact hp

theorem unlinkOwned_spec (p : Process) : ∀ {k : Nat} {s : State n w} {l₁ l₂ : List (Fin n)} {t : Fin n},
    Chain s.next s.timerlist (l₁ ++ t :: l₂) → l₂.length < k →
    ∃ s', unlinkOwned p k t s = some s' ∧ Leaves s s' (l₁ ++ t :: s.others p l₂) (fun t => (s.timers t).p) ∧
      s'.nextExpiration = s.nextExpiration
  | k + 1, s, l₁, [], t, hc, _ => by
    refine ⟨s, ?_, ⟨hc, fun _ => rfl, fun _ => rfl, fun _ => rfl, rfl⟩, rfl⟩
    rw [unlinkOwned, hc.suffix.2]
  | k + 1, s, l₁, v :: l₂, t, hc, hk => by
    have hn : s.next t = some v := hc.suffix.2.1
    by_cases hp : (s.timers v).p = some p
    · have hun := unlink_leaves (show Chain s.next s.timerlist ((l₁ ++ [t]) ++ v :: l₂) by simpa using hc)
      rw [List.getLast?_concat, List.append_assoc, List.singleton_append] at hun
      obtain ⟨s', hs', hleaves, hnext⟩ := unlinkOwned_spec p hun.chain (show l₂.length < k by simpa using hk)
      have hothers : (s.unlink (some t) v).others p l₂ = s.others p (v :: l₂) := by
        rw [State.others, State.others, List.filter_cons_of_neg (by simpa using hp)]
        simp only [hun.p]
      refine ⟨s', ?_, ?_, hnext⟩
      · rw [unlinkOwned, hn]
        simp only [if_pos hp]
        exact hs'
      · rw [hothers] at hleaves
        exact (hun.trans hleaves).congr_p fun x => hun.p x
    · obtain ⟨s', hs', hleaves, hnext⟩ := unlinkOwned_spec p
        (show Chain s.next s.timerlist ((l₁ ++ [t]) ++ v :: l₂) by simpa using hc) (show l₂.length < k by simpa using hk)
      refine ⟨s', ?_, ?_, hnext⟩
      · rw [unlinkOwned, hn]
        simp only [if_neg hp]
        exact hs'
      · rw [State.others, List.filter_cons_of_pos (by simpa using hp)]
        rw [List.append_assoc, List.singleton_append] at hleaves
        exact hleaves

theorem etimerExited_spec (p : Process) (hc : Chain s.next s.timerlist l) :
    ∃ s', etimerExited p s = some s' ∧ Leaves s s' (s.others p l) (fun t => (s.timers t).p) ∧
      s'.nextExpiration = s.nextExpiration := by
  obtain ⟨s₁, l', hs₁, h₁, hnext₁, hothers, hlen, hhead⟩ := dropOwned_spec p hc hc.length_le
  unfold etimerExited
  rw [hs₁]
  simp only [Option.bind_eq_bind, Option.bind_some]
  cases l' with
  | nil =>
    have hl := h₁.chain
    rw [chain_nil] at hl
    rw [← hothers, hl]
    exact ⟨s₁, rfl, h₁, hnext₁⟩
  | cons t l₂ =>
    have hn := hc.length_le
    have ht : (s.timers t).p ≠ some p := hhead t rfl
    obtain ⟨s', hs', h', hnext'⟩ := unlinkOwned_spec p (show Chain s₁.next s₁.timerlist ([] ++ t :: l₂) from h₁.chain)
      (show l₂.length < n by rw [List.length_cons] at hlen; omega)
    have hsame : s₁.others p l₂ = s.others p l₂ := by
      simp only [State.others, h₁.p]
    rw [h₁.chain.1, ← hothers, State.others, List.filter_cons_of_pos (by simpa using ht)]
    refine ⟨s', hs', ?_, hnext'.trans hnext₁⟩
    rw [hsame] at h'
    exact (h₁.trans h').congr_p h₁.p

/-! ## Polls -/

/-- The timers that a poll takes out: the first `free` expired ones. -/
@[grind =]
def taken (expired : Fin n → Bool) : (free : Nat) → List (Fin n) → List (Fin n)
  | _, [] => []
  | free, t :: l => if expired t ∧ 0 < free then t :: taken expired (free - 1) l else taken expired free l

@[grind =]
def left (expired : Fin n → Bool) : (free : Nat) → List (Fin n) → List (Fin n)
  | _, [] => []
  | free, t :: l => if expired t ∧ 0 < free then left expired (free - 1) l else t :: left expired free l

variable {expired : Fin n → Bool}

theorem taken_append {free : Nat} : ∀ {l₁ l₂ : List (Fin n)},
    (∀ t ∈ l₁, ¬ (expired t ∧ 0 < free)) → taken expired free (l₁ ++ l₂) = taken expired free l₂
  | [], _, _ => rfl
  | t :: l₁, l₂, h => by
    rw [List.cons_append, taken, if_neg (h t (List.mem_cons_self ..)),
      taken_append fun t ht => h t (List.mem_cons_of_mem _ ht)]

theorem left_append {free : Nat} : ∀ {l₁ l₂ : List (Fin n)},
    (∀ t ∈ l₁, ¬ (expired t ∧ 0 < free)) → left expired free (l₁ ++ l₂) = l₁ ++ left expired free l₂
  | [], _, _ => rfl
  | t :: l₁, l₂, h => by
    rw [List.cons_append, left, if_neg (h t (List.mem_cons_self ..)),
      left_append fun t ht => h t (List.mem_cons_of_mem _ ht), List.cons_append]

theorem left_of_taken_nil {free : Nat} : ∀ {l : List (Fin n)}, taken expired free l = [] →
    left expired free l = l
  | [], _ => rfl
  | t :: l, h => by
    unfold taken at h
    split at h
    · cases h
    · rename_i ht
      rw [left, if_neg ht, left_of_taken_nil h]

theorem mem_taken_or_left : ∀ {free : Nat} {l : List (Fin n)} {t : Fin n},
    t ∈ l ↔ t ∈ taken expired free l ∨ t ∈ left expired free l
  | _, [], t => by simp [taken, left]
  | free, u :: l, t => by
    unfold taken left
    split
    · rw [List.mem_cons, List.mem_cons, or_assoc, ← mem_taken_or_left]
    · have ih : t ∈ l ↔ t ∈ taken expired free l ∨ t ∈ left expired free l := mem_taken_or_left
      rw [List.mem_cons, List.mem_cons, ih]
      tauto

theorem firstPosted_spec {free : Nat} : ∀ {u : Option (Fin n)} {l : List (Fin n)},
    (firstPosted s free u l = none ∧ ∀ t ∈ l, ¬ (timerExpired s.clock (s.timers t) ∧ 0 < free)) ∨
      ∃ l₁ t l₂, l = l₁ ++ t :: l₂ ∧ firstPosted s free u l = some (l₁.getLast?.or u, t) ∧
        (∀ t ∈ l₁, ¬ (timerExpired s.clock (s.timers t) ∧ 0 < free)) ∧ timerExpired s.clock (s.timers t) ∧ 0 < free
  | u, [] => Or.inl ⟨rfl, fun t ht => absurd ht List.not_mem_nil⟩
  | u, t :: l => by
    by_cases ht : timerExpired s.clock (s.timers t) ∧ 0 < free
    · exact Or.inr ⟨[], t, l, rfl, by rw [firstPosted, if_pos ht]; rfl, fun t ht => absurd ht List.not_mem_nil, ht⟩
    · rw [firstPosted, if_neg ht]
      rcases firstPosted_spec (u := some t) (l := l) with ⟨hnone, hall⟩ | ⟨l₁, t', l₂, rfl, hf, hall, ht'⟩
      · exact Or.inl ⟨hnone, List.forall_mem_cons.2 ⟨ht, hall⟩⟩
      · refine Or.inr ⟨t :: l₁, t', l₂, rfl, ?_, List.forall_mem_cons.2 ⟨ht, hall⟩, ht'⟩
        rw [hf]
        cases l₁ with
        | nil => rfl
        | cons a l₁ => rw [List.getLast?_cons_cons, List.getLast?_eq_some_getLast (List.cons_ne_nil a l₁)]; rfl

theorem postOne_leaves {l₁ l₂ : List (Fin n)} {t : Fin n} (hc : Chain s.next s.timerlist (l₁ ++ t :: l₂)) :
    ∃ s', updateTime
        ((((s.set t { s.timers t with p := none }).unlink l₁.getLast? t).set t
          { ((s.set t { s.timers t with p := none }).unlink l₁.getLast? t).timers t with next := none })) = some s' ∧
      Leaves s s' (l₁ ++ l₂) (fun x => if x = t then none else (s.timers x).p) ∧
      s'.nextExpiration = earliest s.clock s.exp (l₁ ++ l₂) := by
  have h₁ : Leaves s (s.set t { s.timers t with p := none }) (l₁ ++ t :: l₂)
      (fun x => if x = t then none else (s.timers x).p) := by
    refine ⟨hc.congr fun x _ => ?_, fun x => ?_, fun x => ?_, fun x => ?_, rfl⟩
    · by_cases hx : x = t <;> simp [State.next, hx]
    all_goals by_cases hx : x = t <;> simp [hx]
  have h₂ := (h₁.trans (unlink_leaves h₁.chain)).congr_p h₁.p
  have hgone : t ∉ l₁ ++ l₂ := by
    have hnot : t ∉ l₁ := fun h => (List.nodup_append.1 hc.nodup).2.2 t h t (List.mem_cons_self ..) rfl
    have := (List.nodup_cons.1 (List.nodup_append.1 hc.nodup).2.1).1
    simp [hnot, this]
  have hp : (((s.set t { s.timers t with p := none }).unlink l₁.getLast? t).timers t).p = none := by
    rw [h₂.p]
    exact if_pos rfl
  generalize (s.set t { s.timers t with p := none }).unlink l₁.getLast? t = s₂ at h₂ hp ⊢
  have h₃ := h₂.clear hgone
  rw [← hp] at h₃
  obtain ⟨s', hs', hleaves, hnext⟩ := updateTime_leaves h₃
  refine ⟨s', hs', hleaves.congr_p fun x => ?_, hnext⟩
  by_cases hx : x = t <;> simp [hx, hp]

theorem pollLoop_spec : ∀ {k : Nat} (free : Nat) {s : State n w} {l : List (Fin n)} {expired : Fin n → Bool},
    (∀ t, timerExpired s.clock (s.timers t) = expired t) → Chain s.next s.timerlist l → l.length < k →
    ∃ s', pollLoop k free s = some (s', (taken expired free l).map fun t => ((s.timers t).p, t)) ∧
      Leaves s s' (left expired free l) (fun t => if t ∈ taken expired free l then none else (s.timers t).p) ∧
      s'.nextExpiration =
        if taken expired free l = [] then s.nextExpiration else earliest s.clock s.exp (left expired free l)
  | k + 1, free, s, l, expired, hex, hc, hk => by
    rw [pollLoop, list_of_chain hc]
    simp only [Option.bind_eq_bind, Option.bind_some]
    rcases firstPosted_spec (s := s) (u := none) (l := l) with ⟨hnone, hall⟩ | ⟨l₁, t, l₂, rfl, hfirst, hall, ht, hfree⟩
    · simp only [hex] at hall
      have htaken : taken expired free (l ++ []) = taken expired free [] := taken_append hall
      have hleft : left expired free (l ++ []) = l ++ left expired free [] := left_append hall
      rw [List.append_nil] at htaken hleft
      rw [hnone, htaken, hleft]
      refine ⟨s, rfl, ?_, by simp [taken]⟩
      simpa [taken, left] using (⟨hc, fun _ => rfl, fun _ => rfl, fun _ => rfl, rfl⟩ : Leaves s s l fun t => (s.timers t).p)
    · rw [hex] at ht
      simp only [hex] at hall
      have hall' : ∀ x ∈ l₁, ¬ (expired x ∧ 0 < free - 1) := fun x hx h => hall x hx ⟨h.1, hfree⟩
      have htaken : taken expired free (l₁ ++ t :: l₂) = t :: taken expired (free - 1) (l₁ ++ l₂) := by
        rw [taken_append hall, taken_append hall', taken, if_pos ⟨ht, hfree⟩]
      have hleft : left expired free (l₁ ++ t :: l₂) = left expired (free - 1) (l₁ ++ l₂) := by
        rw [left_append hall, left_append hall', left, if_pos ⟨ht, hfree⟩]
      obtain ⟨s₁, hs₁, h₁, hnext₁⟩ := postOne_leaves hc
      have hex₁ : ∀ x, timerExpired s₁.clock (s₁.timers x) = expired x := fun x => (h₁.expired x).trans (hex x)
      obtain ⟨s', hs', h', hnext'⟩ := pollLoop_spec (k := k) (free - 1) hex₁ h₁.chain (by
        simp only [List.length_append, List.length_cons] at hk ⊢
        omega)
      have hnot : t ∉ taken expired (free - 1) (l₁ ++ l₂) := by
        intro h
        have hmem := mem_taken_or_left.2 (Or.inl h)
        have h₁' := (List.nodup_append.1 hc.nodup).2.2 t
        have h₂' := (List.nodup_cons.1 (List.nodup_append.1 hc.nodup).2.1).1
        rcases List.mem_append.1 hmem with hm | hm
        · exact h₁' hm t (List.mem_cons_self ..) rfl
        · exact h₂' hm
      rw [hfirst, htaken, hleft]
      simp only [Option.or_none, hs₁, Option.bind_some, hs']
      refine ⟨s', ?_, ?_, ?_⟩
      · have hmap : (taken expired (free - 1) (l₁ ++ l₂)).map (fun x => ((s₁.timers x).p, x)) =
            (taken expired (free - 1) (l₁ ++ l₂)).map fun x => ((s.timers x).p, x) := by
          refine List.map_congr_left fun x hx => ?_
          have hne : x ≠ t := fun he => hnot (he ▸ hx)
          rw [h₁.p x, if_neg hne]
        rw [hmap]
        rfl
      · refine (h₁.trans h').congr_p fun x => ?_
        by_cases hx : x = t
        · simp [hx, h₁.p]
        · simp [hx, h₁.p]
      · rw [hnext', hnext₁, h₁.clock, h₁.exp, if_neg (List.cons_ne_nil _ _)]
        split
        · rename_i hnil
          have := left_of_taken_nil hnil
          rw [this]
        · rfl

end Contiki.Etimer

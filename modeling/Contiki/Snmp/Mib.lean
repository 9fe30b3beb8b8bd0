/-
The MIB of snmp-mib.c: a list of resources, which `snmp_mib_add` is to keep in the order of their OIDs. A new resource that
belongs before another is given to `list_insert` in the place of the position, so that both are lost.
-/
import Contiki.Snmp.Model
import Contiki.Lists.Single

namespace Contiki.Snmp

open Contiki.Lists Contiki.Lib

/-! ## The functions -/

/-- `snmp_mib_cmp_oid`. -/
@[grind =]
def mibCmpOid : List UInt32 → List UInt32 → Int
  | a :: oid1, b :: oid2 => if a ≠ b then if a < b then -1 else 1 else mibCmpOid oid1 oid2
  | [], _ :: _ => -1
  | _ :: _, [] => 1
  | [], [] => 0

/-- The loops over the resources, up to the first that meets a condition. -/
@[grind =]
def firstFrom {ρ : Type} (s : State ρ) (p : ρ → Bool) : Nat → Option ρ → Option (Option ρ)
  | _, none => some none
  | 0, some _ => none
  | k + 1, some r => if p r then some (some r) else firstFrom s p k (s.next r)

variable {c : Conf} {ρ : Type} [Fintype ρ] (oid : ρ → Oid c) (s : State ρ)

/-- `snmp_mib_find`. -/
def mibFind (o : Oid c) : Option (Option ρ) :=
  firstFrom s (fun r => mibCmpOid o.data (oid r).data = 0) (Fintype.card ρ) s.list

/-- `snmp_mib_find_next`. -/
def mibFindNext (o : Oid c) : Option (Option ρ) :=
  firstFrom s (fun r => 0 < mibCmpOid (oid r).data o.data) (Fintype.card ρ) s.list

/-- `snmp_mib_add`. -/
@[grind =]
def mibAdd [DecidableEq ρ] (new : ρ) : Option (State ρ) := do
  match ← firstFrom s (fun r => 0 < mibCmpOid (oid r).data (oid new).data) (Fintype.card ρ) s.list with
  | none => listAdd s new
  | some resource => listInsert s (some new) resource

@[grind =]
def mibWalk : Nat → Oid c → Option (List ρ)
  | 0, _ => none
  | k + 1, o => do
    match ← mibFindNext oid s o with
    | none => some []
    | some r => (mibWalk k (oid r)).map (r :: ·)

/-- The calls of `snmp_mib_add` in the order of the resources. -/
@[grind =]
def mibAddAll [DecidableEq ρ] (s : State ρ) : List ρ → Option (State ρ)
  | [] => some s
  | r :: rs => do
    let s ← mibAdd oid s r
    mibAddAll s rs

/-! ## The order of the OIDs -/

/-- The arcs of an OID, compared lexicographically. -/
def Oid.arcs (o : Oid c) : List ℕ := o.data.map UInt32.toNat

variable {oid s} {l rs : List ρ} {o : Oid c} {r new : ρ}

theorem mibCmpOid_pos : ∀ {a b : List UInt32}, 0 < mibCmpOid a b ↔ b.map UInt32.toNat < a.map UInt32.toNat
  | a :: oid1, b :: oid2 => by
    rw [mibCmpOid, List.map_cons, List.map_cons, List.cons_lt_cons_iff]
    by_cases hne : a = b
    · rw [if_neg (not_not.2 hne), mibCmpOid_pos, hne]
      simp
    · rw [if_pos hne]
      have hnat : a.toNat ≠ b.toNat := fun h => hne (UInt32.toNat_inj.1 h)
      by_cases hlt : a < b
      · rw [if_pos hlt]
        have := UInt32.lt_iff_toNat_lt.1 hlt
        exact iff_of_false (by omega) (by omega)
      · rw [if_neg hlt]
        have := mt UInt32.lt_iff_toNat_lt.2 hlt
        exact iff_of_true (by omega) (.inl (by omega))
  | [], b :: oid2 => iff_of_false (by rw [mibCmpOid]; omega) (by simp)
  | a :: oid1, [] => iff_of_true (by rw [mibCmpOid]; omega) (by simp)
  | [], [] => iff_of_false (by rw [mibCmpOid]; omega) (by simp)

theorem mibCmpOid_eq_zero : ∀ {a b : List UInt32}, mibCmpOid a b = 0 ↔ a = b
  | a :: oid1, b :: oid2 => by
    rw [mibCmpOid, List.cons.injEq]
    by_cases hne : a = b
    · rw [if_neg (not_not.2 hne), mibCmpOid_eq_zero]
      exact (and_iff_right hne).symm
    · rw [if_pos hne]
      refine iff_of_false ?_ fun h => hne h.1
      split_ifs <;> decide
  | [], b :: oid2 => iff_of_false (by rw [mibCmpOid]; omega) (by simp)
  | a :: oid1, [] => iff_of_false (by rw [mibCmpOid]; omega) (by simp)
  | [], [] => iff_of_true rfl rfl

theorem data_inj {o o' : Oid c} : o.data = o'.data ↔ o = o' := by
  constructor
  · intro h
    cases o
    cases o'
    congr
  · exact congrArg Oid.data

theorem arcs_inj {o o' : Oid c} : o.arcs = o'.arcs ↔ o = o' := by
  rw [← data_inj]
  exact (List.map_injective_iff.2 fun a b hab => UInt32.toNat_inj.1 hab).eq_iff

/-! ## The loops -/

omit [Fintype ρ] in
theorem firstFrom_eq {p : ρ → Bool} : ∀ {l : List ρ} {h : Option ρ} {k : Nat}, Chain s.next h l → l.length ≤ k →
    firstFrom s p k h = some (l.find? p)
  | [], _, k, hc, _ => by
    rw [chain_nil.1 hc]
    cases k <;> rfl
  | r :: l, _, k + 1, ⟨rfl, hc⟩, hk => by
    rw [firstFrom]
    cases hp : p r with
    | true => rw [if_pos rfl, List.find?_cons_of_pos hp]
    | false => rw [if_neg Bool.false_ne_true, firstFrom_eq hc (Nat.le_of_succ_le_succ hk), List.find?_cons_of_neg (by simp [hp])]

theorem mibFind_eq (hs : Single s l) : mibFind oid s o = some (l.find? fun r => mibCmpOid o.data (oid r).data = 0) :=
  firstFrom_eq hs (length_le_card hs)

theorem mibFindNext_eq (hs : Single s l) : mibFindNext oid s o = some (l.find? fun r => 0 < mibCmpOid (oid r).data o.data) :=
  firstFrom_eq hs (length_le_card hs)

omit [Fintype ρ] in
theorem find_greater (hsorted : l.Pairwise fun a b => (oid a).arcs < (oid b).arcs) :
    l.find? (fun r => 0 < mibCmpOid (oid r).data o.data) = some r ↔
      r ∈ l ∧ o.arcs < (oid r).arcs ∧ ∀ r' ∈ l, o.arcs < (oid r').arcs → (oid r).arcs ≤ (oid r').arcs := by
  rw [List.find?_eq_some_iff_append]
  constructor
  · rintro ⟨hr, as, bs, rfl, has⟩
    have hr : o.arcs < (oid r).arcs := mibCmpOid_pos.1 (of_decide_eq_true hr)
    refine ⟨List.mem_append_right as List.mem_cons_self, hr, fun r' hr' hlt => ?_⟩
    rcases List.mem_append.1 hr' with h | h
    · have hno := has r' h
      rw [decide_eq_true (mibCmpOid_pos.2 hlt)] at hno
      cases hno
    · rcases List.mem_cons.1 h with rfl | h
      · exact le_rfl
      · exact ((List.pairwise_cons.1 (List.pairwise_append.1 hsorted).2.1).1 r' h).le
  · rintro ⟨hmem, hr, hleast⟩
    obtain ⟨as, bs, rfl⟩ := List.append_of_mem hmem
    refine ⟨decide_eq_true (mibCmpOid_pos.2 hr), as, bs, rfl, fun a ha => ?_⟩
    have hlt := (List.pairwise_append.1 hsorted).2.2 a ha r List.mem_cons_self
    rw [decide_eq_false fun hpos => hlt.not_ge (hleast a (List.mem_append_left _ ha) (mibCmpOid_pos.1 hpos))]
    rfl

theorem mibWalk_eq : ∀ (bs as : List ρ) {o : Oid c}, Single s (as ++ bs) →
    ((as ++ bs).Pairwise fun a b => (oid a).arcs < (oid b).arcs) → (∀ a ∈ as, (oid a).arcs ≤ o.arcs) →
      (∀ b ∈ bs, o.arcs < (oid b).arcs) → mibWalk oid s (bs.length + 1) o = some bs
  | [], as, o, hs, _, has, _ => by
    rw [mibWalk, mibFindNext_eq hs, List.append_nil, List.find?_eq_none.2 fun a ha hpos =>
      (has a ha).not_gt (mibCmpOid_pos.1 (of_decide_eq_true hpos))]
    rfl
  | b :: bs, as, o, hs, hsorted, has, hbs => by
    have hfind : (as ++ b :: bs).find? (fun r => 0 < mibCmpOid (oid r).data o.data) = some b := by
      refine List.find?_eq_some_iff_append.2 ⟨decide_eq_true (mibCmpOid_pos.2 (hbs b List.mem_cons_self)), as, bs, rfl, fun a ha => ?_⟩
      rw [decide_eq_false fun hpos => (has a ha).not_gt (mibCmpOid_pos.1 hpos)]
      rfl
    obtain ⟨-, hb, hab⟩ := List.pairwise_append.1 hsorted
    have hwalk := mibWalk_eq bs (as ++ [b]) (o := oid b) (by rwa [List.append_assoc]) (by rwa [List.append_assoc])
      (fun a ha => ?_) (List.pairwise_cons.1 hb).1
    · rw [List.length_cons, mibWalk, mibFindNext_eq hs, hfind]
      show (mibWalk oid s (bs.length + 1) (oid b)).map (b :: ·) = _
      rw [hwalk]
      rfl
    · rcases List.mem_append.1 ha with ha | ha
      · exact (hab a ha b List.mem_cons_self).le
      · rw [List.mem_singleton.1 ha]

theorem mibWalk_greater (hs : Single s l) : ∀ {k : Nat} {o : Oid c} {visited : List ρ}, mibWalk oid s k o = some visited →
    ∀ r ∈ visited, ∃ o' : Oid c, o'.arcs < (oid r).arcs
  | k + 1, o, visited, h, r, hr => by
    rw [mibWalk, mibFindNext_eq hs] at h
    dsimp only [Option.bind_eq_bind, Option.bind_some] at h
    cases hfind : l.find? fun r => 0 < mibCmpOid (oid r).data o.data with
    | none =>
      rw [hfind] at h
      cases h
      exact absurd hr List.not_mem_nil
    | some b =>
      rw [hfind] at h
      obtain ⟨rest, hrest, rfl⟩ := Option.map_eq_some_iff.1 h
      rcases List.mem_cons.1 hr with rfl | hr
      · have hpos := List.find?_some hfind
        exact ⟨o, mibCmpOid_pos.1 (of_decide_eq_true hpos)⟩
      · exact mibWalk_greater hs hrest r hr

/-! ## Adding a resource -/

variable [DecidableEq ρ]

theorem mibAdd_last (hs : Single s l) (hnew : new ∉ l) (hlast : ∀ r ∈ l, ¬(oid new).arcs < (oid r).arcs) :
    ∃ t, mibAdd oid s new = some t ∧ Single t (l ++ [new]) := by
  have hnone : l.find? (fun r => 0 < mibCmpOid (oid r).data (oid new).data) = none := by
    rw [List.find?_eq_none]
    intro r hr h
    exact hlast r hr (mibCmpOid_pos.1 (of_decide_eq_true h))
  obtain ⟨t, ht, hc⟩ := listAdd_single hs new
  rw [List.erase_of_not_mem hnew] at hc
  refine ⟨t, ?_, hc⟩
  unfold mibAdd
  rw [firstFrom_eq hs (length_le_card hs), hnone]
  exact ht

/-- A resource that belongs before another one takes that one out of the list, and is not in it itself. -/
theorem mibAdd_lost (hs : Single s l) (hnew : new ∉ l) (hlost : ∃ r ∈ l, (oid new).arcs < (oid r).arcs) :
    ∃ t r, mibAdd oid s new = some t ∧ Single t (l.erase r) := by
  obtain ⟨r, hr⟩ : ∃ r, l.find? (fun r => 0 < mibCmpOid (oid r).data (oid new).data) = some r := by
    rw [← Option.isSome_iff_exists, List.find?_isSome]
    obtain ⟨r, hr, hlt⟩ := hlost
    exact ⟨r, hr, decide_eq_true (mibCmpOid_pos.2 hlt)⟩
  obtain ⟨t, ht, hc⟩ := listRemove_single hs r
  have hr' : r ∉ l.erase r := hs.nodup.not_mem_erase
  have hnew' : new ∉ l.erase r := fun h => hnew (List.mem_of_mem_erase h)
  refine ⟨(t.setNext r (t.next new)).setNext new (some r), r, ?_, ?_⟩
  · unfold mibAdd
    rw [firstFrom_eq hs (length_le_card hs), hr]
    show listInsert s (some new) r = _
    rw [listInsert, ht]
    rfl
  · refine Chain.congr hc fun y hy => ?_
    rw [State.setNext_next, if_neg (ne_of_mem_of_not_mem hy hnew'), State.setNext_next, if_neg (ne_of_mem_of_not_mem hy hr')]

variable (oid) in
/-- No resource belongs before one that is added earlier, or that is in the list already. -/
def InOrder (l rs : List ρ) : Prop :=
  rs.Pairwise (fun a b => ¬(oid b).arcs < (oid a).arcs) ∧ ∀ a ∈ l, ∀ b ∈ rs, ¬(oid b).arcs < (oid a).arcs

omit [Fintype ρ] [DecidableEq ρ] in
theorem inOrder_cons : InOrder oid l (new :: rs) ↔ (∀ a ∈ l, ¬(oid new).arcs < (oid a).arcs) ∧ InOrder oid (l ++ [new]) rs := by
  unfold InOrder
  simp only [List.pairwise_cons, List.mem_append, List.mem_cons, List.not_mem_nil, or_false]
  constructor
  · rintro ⟨⟨hnew, hrs⟩, hl⟩
    refine ⟨fun a ha => hl a ha new (.inl rfl), hrs, ?_⟩
    rintro a (ha | rfl) b hb
    · exact hl a ha b (.inr hb)
    · exact hnew b hb
  · rintro ⟨hl, hrs, hcross⟩
    refine ⟨⟨fun b hb => hcross new (.inr rfl) b hb, hrs⟩, ?_⟩
    rintro a ha b (rfl | hb)
    · exact hl a ha
    · exact hcross a (.inl ha) b hb

variable (oid) in
/-- What the list holds after the calls are resources that it has held or that were added, all of them exactly when they came in
order, and then in that order. -/
theorem mibAddAll_spec : ∀ {rs : List ρ} {s : State ρ} {l : List ρ}, Single s l → rs.Nodup → (∀ r ∈ rs, r ∉ l) →
    ∃ t l', mibAddAll oid s rs = some t ∧ Single t l' ∧ (∀ r ∈ l', r ∈ l ∨ r ∈ rs) ∧
      ((∀ r, r ∈ l ∨ r ∈ rs → r ∈ l') → InOrder oid l rs) ∧ (InOrder oid l rs → l' = l ++ rs)
  | [], s, l, hs, _, _ => by
    refine ⟨s, l, rfl, hs, fun r hr => .inl hr, fun _ => ⟨List.Pairwise.nil, fun a _ b hb => absurd hb List.not_mem_nil⟩, fun _ => ?_⟩
    rw [List.append_nil]
  | new :: rs, s, l, hs, hnd, hnew => by
    obtain ⟨hfresh, hnd⟩ := List.nodup_cons.1 hnd
    have hnl : new ∉ l := hnew new List.mem_cons_self
    rw [inOrder_cons]
    by_cases hlost : ∃ r ∈ l, (oid new).arcs < (oid r).arcs
    · -- the resource is lost for good
      obtain ⟨t, r, ht, hc⟩ := mibAdd_lost hs hnl hlost
      obtain ⟨u, l', hu, hc', hsub, -, -⟩ := mibAddAll_spec hc hnd fun r' hr' h =>
        hnew r' (List.mem_cons_of_mem new hr') (List.mem_of_mem_erase h)
      refine ⟨u, l', by rw [mibAddAll, ht]; exact hu, hc', fun r' hr' => ?_, fun hall => ?_, fun hin => ?_⟩
      · exact (hsub r' hr').imp List.mem_of_mem_erase (List.mem_cons_of_mem new)
      · rcases hsub new (hall new (.inr List.mem_cons_self)) with h | h
        · exact absurd (List.mem_of_mem_erase h) hnl
        · exact absurd h hfresh
      · obtain ⟨r', hr', hlt⟩ := hlost
        exact absurd hlt (hin.1 r' hr')
    · have hlast : ∀ r ∈ l, ¬(oid new).arcs < (oid r).arcs := fun r hr hlt => hlost ⟨r, hr, hlt⟩
      obtain ⟨t, ht, hc⟩ := mibAdd_last hs hnl hlast
      have hnew' : ∀ r ∈ rs, r ∉ l ++ [new] := by
        intro r hr h
        rcases List.mem_append.1 h with h | h
        · exact hnew r (List.mem_cons_of_mem new hr) h
        · exact hfresh (List.mem_singleton.1 h ▸ hr)
      obtain ⟨u, l', hu, hc', hsub, hall, heq⟩ := mibAddAll_spec hc hnd hnew'
      have hiff : ∀ r, r ∈ l ++ [new] ∨ r ∈ rs ↔ r ∈ l ∨ r ∈ new :: rs := by
        intro r
        rw [List.mem_append, List.mem_singleton, List.mem_cons, or_assoc]
      refine ⟨u, l', by rw [mibAddAll, ht]; exact hu, hc', fun r hr => (hiff r).1 (hsub r hr), fun h => ?_, fun hin => ?_⟩
      · exact ⟨hlast, hall fun r hr => h r ((hiff r).1 hr)⟩
      · rw [heq hin.2, List.append_assoc, List.singleton_append]

/-! ## A complete MIB -/

variable (oid) in
/-- The MIB has all resources in ascending order, and what is read of it agrees with that. -/
structure Complete (t : State ρ) (rs : List ρ) : Prop where
  sorted : ∃ l, Single t l ∧ l.Perm rs ∧ l.Pairwise fun a b => (oid a).arcs < (oid b).arcs
  find : ∀ o, ∃ res, mibFind oid t o = some res ∧ (res.isSome ↔ ∃ r ∈ rs, oid r = o) ∧ ∀ r, res = some r → r ∈ rs ∧ oid r = o
  findNext : ∀ o, ∃ res, mibFindNext oid t o = some res ∧ ∀ r, res = some r ↔
    r ∈ rs ∧ o.arcs < (oid r).arcs ∧ ∀ r' ∈ rs, o.arcs < (oid r').arcs → (oid r).arcs ≤ (oid r').arcs
  walk : ∃ visited, mibWalk oid t (rs.length + 1) ⟨[], Nat.zero_le _⟩ = some visited ∧ visited.Perm rs

omit [DecidableEq ρ] in
theorem complete_of_sorted (hs : Single s rs) (hsorted : rs.Pairwise fun a b => (oid a).arcs < (oid b).arcs)
    (hempty : ∀ r ∈ rs, (oid r).data ≠ []) : Complete oid s rs := by
  refine ⟨⟨rs, hs, List.Perm.refl rs, hsorted⟩, fun o => ⟨_, mibFind_eq hs, ?_, fun r hr => ?_⟩,
    fun o => ⟨_, mibFindNext_eq hs, fun r => find_greater hsorted⟩, rs, ?_, List.Perm.refl rs⟩
  · rw [List.find?_isSome]
    refine exists_congr fun r => and_congr_right fun _ => ?_
    rw [decide_eq_true_iff, mibCmpOid_eq_zero, data_inj]
    exact eq_comm
  · have hzero := List.find?_some hr
    exact ⟨List.mem_of_find?_eq_some hr, (data_inj.1 (mibCmpOid_eq_zero.1 (of_decide_eq_true hzero))).symm⟩
  · refine mibWalk_eq _ [] hs hsorted (fun a ha => absurd ha List.not_mem_nil) fun b hb => ?_
    obtain ⟨x, xs, hx⟩ := List.exists_cons_of_ne_nil (hempty b hb)
    unfold Oid.arcs
    rw [hx]
    exact List.nil_lt_cons _ _

/-- Adding resources with different OIDs always ends, and makes a complete MIB exactly when each is added after all with smaller
OIDs, and none has an empty OID. -/
theorem mibAddAll_complete_iff (s : State ρ) (hs : s.list = none) (rs : List ρ) (hdiff : (rs.map oid).Nodup) :
    ∃ t, mibAddAll oid s rs = some t ∧ (Complete oid t rs ↔
      (rs.Pairwise fun a b => (oid a).arcs < (oid b).arcs) ∧ ∀ r ∈ rs, (oid r).data ≠ []) := by
  have hempty : Single s [] := hs
  obtain ⟨t, l, ht, hc, -, hall, heq⟩ := mibAddAll_spec oid hempty hdiff.of_map fun r _ => List.not_mem_nil
  have hsorted : InOrder oid [] rs ↔ rs.Pairwise fun a b => (oid a).arcs < (oid b).arcs := by
    constructor
    · rintro ⟨hle, -⟩
      refine (hle.and (List.pairwise_map.1 hdiff)).imp fun hab => ?_
      exact lt_of_le_of_ne (not_lt.1 hab.1) (mt arcs_inj.1 hab.2)
    · exact fun h => ⟨h.imp fun hab => hab.not_gt, fun a ha => absurd ha List.not_mem_nil⟩
  refine ⟨t, ht, fun h => ⟨?_, fun r hr hnil => ?_⟩, fun h => ?_⟩
  · obtain ⟨l', hl', hperm, -⟩ := h.sorted
    obtain rfl := Chain.unique hl' hc
    refine hsorted.1 (hall fun r hr => hperm.mem_iff.2 ?_)
    exact hr.resolve_left List.not_mem_nil
  · obtain ⟨visited, hvisited, hperm⟩ := h.walk
    obtain ⟨o, ho⟩ := mibWalk_greater hc hvisited r (hperm.mem_iff.2 hr)
    unfold Oid.arcs at ho
    rw [hnil] at ho
    exact absurd ho (List.not_lt_nil _)
  · obtain rfl : l = rs := heq (hsorted.2 h.1)
    exact complete_of_sorted hc h.1 h.2

def twoOids : Fin 2 → Oid ⟨127, 3, by decide, by decide⟩ := fun r => ⟨if r = 0 then [2, 1] else [2, 2], by split <;> decide⟩

def emptyMib : State (Fin 2) := ⟨fun _ => none, none⟩

theorem twoOids_ascending : ∃ t, mibAddAll twoOids emptyMib [0, 1] = some t ∧ (Complete twoOids t [0, 1] ↔
    ([0, 1].Pairwise fun a b => (twoOids a).arcs < (twoOids b).arcs) ∧ ∀ r ∈ [0, 1], (twoOids r).data ≠ []) :=
  mibAddAll_complete_iff emptyMib rfl [0, 1] (by decide)

/-- Added in descending order, both resources are lost. -/
theorem twoOids_descending : (mibAddAll twoOids emptyMib [1, 0]).map (fun t => t.list) = some none ∧
    ((mibAddAll twoOids emptyMib [1, 0]).bind fun t => mibFind twoOids t (twoOids 1)) = some none ∧
    ¬∃ t, mibAddAll twoOids emptyMib [1, 0] = some t ∧ Complete twoOids t [1, 0] := by
  have hlist : (mibAddAll twoOids emptyMib [1, 0]).map (fun t => t.list) = some none := by decide
  refine ⟨hlist, by decide, ?_⟩
  rintro ⟨t, ht, hcomplete⟩
  obtain ⟨l, hl, hperm, -⟩ := hcomplete.sorted
  rw [ht] at hlist
  have hnil : t.list = none := Option.some.inj hlist
  cases l with
  | nil => exact absurd hperm.length_eq (by decide)
  | cons a l =>
    rw [hl.1] at hnil
    cases hnil

end Contiki.Snmp

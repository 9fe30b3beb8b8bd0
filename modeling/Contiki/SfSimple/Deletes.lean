/-
What delete_req_input answers, and what is removed when the response was sent. `removed_link` stays 0, so every cell that
is found is written at the beginning of the storage, over the one before it; and a response without cells is one that
sixp_pkt_create refuses.
-/
import Contiki.SfSimple.Requests
import Contiki.Tsch.Links

namespace Contiki.SfSimple

open Contiki.Core Contiki.Lib Contiki.Sixtop Contiki.Tsch

/-! ## Cells and bytes -/

theorem Cell.bytes_inj {c d : Cell} (h : c.bytes = d.bytes) : c = d :=
  (readCell_of_read (i := 0) (m := memOf c.bytes) rfl).symm.trans
    (readCell_of_read (i := 0) (m := memOf c.bytes) (show Mem.read 0 4 (memOf c.bytes) = d.bytes from h))

theorem flatMap_bytes_inj : ∀ {cs ds : List Cell}, cs.flatMap Cell.bytes = ds.flatMap Cell.bytes → cs = ds
  | [], [], _ => rfl
  | [], d :: ds, h => by simp [Cell.bytes] at h
  | c :: cs, [], h => by simp [Cell.bytes] at h
  | c :: cs, d :: ds, h => by
    rw [List.flatMap_cons, List.flatMap_cons] at h
    obtain ⟨hc, hcs⟩ := List.append_inj h rfl
    rw [Cell.bytes_inj hc, flatMap_bytes_inj hcs]

theorem cellsIn_bytes (m : Mem) (n : Nat) : (cellsIn m (4 * n)).flatMap Cell.bytes = Mem.read 0 (4 * n) m := by
  rw [cellsIn, Nat.mul_div_cancel_left n (by decide)]
  induction n with
  | zero => rfl
  | succ n ih =>
    rw [List.range_succ, List.map_append, List.flatMap_append, ih, Nat.mul_succ, Mem.read_add, Nat.zero_add]
    simp [bytes_readCell]

/-! ## The loop -/

section

variable (found : Cell → Bool) (list : Mem)

/-- The cells that are found in the first `t` rounds. -/
def foundUpTo (t : Nat) : List Cell := ((List.range t).map fun k => readCell list (4 * k)).filter found

def stacked (m : Mem) (cs : List Cell) : Mem := cs.foldl (fun m c => putCell c 0 m) m

/-- The variables after `t` rounds. -/
def deleteState (m : Mem) (t : Nat) : Gather :=
  ⟨UInt8.ofNat (4 * t), 0, stacked m (foundUpTo found list t), 4 * (foundUpTo found list t).length⟩

theorem foundUpTo_succ (t : Nat) : foundUpTo found list (t + 1) =
    foundUpTo found list t ++ if found (readCell list (4 * t)) then [readCell list (4 * t)] else [] := by
  rw [foundUpTo, List.range_succ, List.map_append, List.filter_append, foundUpTo]
  congr 1
  simp only [List.map_cons, List.map_nil, List.filter_cons, List.filter_nil]

theorem gatherScheduled_eq (m : Mem) {n : Nat} (hn : 4 * n < 256) : ∀ fuel t, t ≤ n →
    gatherScheduled found list (4 * n) fuel (deleteState found list m t) =
      if n - t < fuel then some (deleteState found list m n) else none
  | 0, t, _ => by
    rw [if_neg (by omega)]
    rfl
  | fuel + 1, t, ht => by
    have hi : (deleteState found list m t).i.toNat = 4 * t := by
      simp [deleteState]
      omega
    rw [gatherScheduled, hi]
    rcases Nat.lt_or_eq_of_le ht with hlt | rfl
    · have hnext : UInt8.ofNat (4 * t) + 4 = UInt8.ofNat (4 * (t + 1)) := by
        apply UInt8.toNat.inj
        simp
        omega
      have hstep : (if found (readCell list (4 * t)) then
          (⟨(deleteState found list m t).i + 4, 0, putCell (readCell list (4 * t)) 0 (deleteState found list m t).storage,
            (deleteState found list m t).resLen + 4⟩ : Gather)
          else { deleteState found list m t with i := (deleteState found list m t).i + 4 }) =
          deleteState found list m (t + 1) := by
        simp only [deleteState]
        rw [foundUpTo_succ, hnext]
        split
        · simp [stacked, Nat.mul_add]
        · rw [List.append_nil]
      rw [if_pos (by omega)]
      dsimp only
      rw [hstep, gatherScheduled_eq m hn fuel (t + 1) hlt]
      by_cases hfuel : n - t < fuel + 1
      · rw [if_pos hfuel, if_pos (by omega)]
      · rw [if_neg hfuel, if_neg (by omega)]
    · rw [if_neg (by omega), if_pos (by omega)]

theorem gatherScheduled_long {listLen : Nat} (h : 256 ≤ listLen) : ∀ fuel (g : Gather),
    gatherScheduled found list listLen fuel g = none
  | 0, _ => rfl
  | fuel + 1, g => by
    have hi := g.i.toNat_lt
    rw [gatherScheduled, if_pos (by omega)]
    exact gatherScheduled_long h fuel _

end

theorem read_zeros {a : Nat} {m : Mem} : ∀ n, (∀ x, a ≤ x → x < a + 4 * n → m x = 0) →
    Mem.read a (4 * n) m = (List.replicate n (⟨0, 0⟩ : Cell)).flatMap Cell.bytes
  | 0, _ => rfl
  | n + 1, h => by
    rw [Nat.mul_succ, Mem.read_add, read_zeros n fun x h₁ h₂ => h x h₁ (by omega), List.replicate_succ',
      List.flatMap_append, read_four, h _ (by omega) (by omega), h _ (by omega) (by omega), h _ (by omega) (by omega),
      h _ (by omega) (by omega)]
    rfl

theorem stacked_of_out {m : Mem} {x : Nat} (hx : 4 ≤ x) : ∀ cs : List Cell, stacked m cs x = m x := by
  intro cs
  induction cs using List.reverseRecOn with
  | nil => rfl
  | append_singleton cs c ih =>
    rw [stacked, List.foldl_append]
    refine Eq.trans ?_ ih
    rw [List.foldl_cons, List.foldl_nil, putCell_eq, if_pos (by decide)]
    exact Mem.paste_of_out (by omega)

theorem stacked_read {m : Mem} (hm : ∀ x < storageSize, m x = 0) (cs : List Cell) (c : Cell)
    (hlen : 4 * (cs.length + 1) ≤ storageSize) : Mem.read 0 (4 * (cs.length + 1)) (stacked m (cs ++ [c])) =
      (c :: List.replicate cs.length ⟨0, 0⟩).flatMap Cell.bytes := by
  have hput : stacked m (cs ++ [c]) = Mem.paste 0 4 (memOf c.bytes) (stacked m cs) := by
    rw [stacked, List.foldl_append, List.foldl_cons, List.foldl_nil, putCell_eq, if_pos (by decide)]
    rfl
  have hfirst : Mem.read 0 4 (stacked m (cs ++ [c])) = c.bytes := by
    rw [hput]
    rfl
  have hrest : Mem.read 4 (4 * cs.length) (stacked m (cs ++ [c])) =
      (List.replicate cs.length (⟨0, 0⟩ : Cell)).flatMap Cell.bytes := by
    refine read_zeros cs.length fun x h₁ h₂ => ?_
    rw [stacked_of_out h₁]
    exact hm x (by omega)
  rw [show 4 * (cs.length + 1) = 4 + 4 * cs.length by omega, Mem.read_add, hfirst, Nat.zero_add, hrest]
  rfl

/-! ## Which links are removed -/

section

variable {A : Type} [DecidableEq A] {s s' s'' : State A} {sf : Nat}

/-- The links of the slotframe that are at one of the cells are taken off the schedule, and no others. -/
def RemovesExactly (cells : List Cell) (s s' : State A) : Prop :=
  s'.sched.link = s.sched.link ∧ ∀ l, l ∈ s'.sched.links ↔ l ∈ s.sched.links ∧
    ¬ ((s.sched.link l).slotframeHandle = slotframeHandle ∧ cellOf (s.sched.link l) ∈ cells)

omit [DecidableEq A] in
theorem RemovesExactly.trans {cs ds : List Cell} (h : RemovesExactly cs s s') (h' : RemovesExactly ds s' s'') :
    RemovesExactly (cs ++ ds) s s'' := by
  refine ⟨h'.1.trans h.1, fun l => ?_⟩
  rw [h'.2, h.2, h.1, List.mem_append]
  tauto

theorem removeByOffsets_slotframes (timeslot channelOffset : UInt16) (sf : Nat) : ∀ (ls : List Nat) (s : State A),
    (removeByOffsets timeslot channelOffset sf ls s).1.sched.slotframeList = s.sched.slotframeList ∧
    ∀ sf', ((removeByOffsets timeslot channelOffset sf ls s).1.sched.slotframe sf').handle =
      (s.sched.slotframe sf').handle
  | [], _ => ⟨rfl, fun _ => rfl⟩
  | l :: ls, s => by
    rw [removeByOffsets]
    split
    · obtain ⟨hlist, hhandle⟩ := removeByOffsets_slotframes timeslot channelOffset sf ls (tschScheduleRemoveLink s sf l).1
      have hone : (tschScheduleRemoveLink s sf l).1.sched.slotframeList = s.sched.slotframeList ∧
          ∀ sf', ((tschScheduleRemoveLink s sf l).1.sched.slotframe sf').handle = (s.sched.slotframe sf').handle := by
        unfold tschScheduleRemoveLink
        split
        · exact ⟨rfl, fun sf' => setLinks_handle _ _ _ _⟩
        · exact ⟨rfl, fun _ => rfl⟩
      exact ⟨hlist.trans hone.1, fun sf' => (hhandle sf').trans (hone.2 sf')⟩
    · exact removeByOffsets_slotframes timeslot channelOffset sf ls s

theorem removeLinkByOffsets_removes (h : s.sched.Inv) (hsf : sf ∈ s.sched.slotframeList)
    (hhandle : (s.sched.slotframe sf).handle = slotframeHandle) (c : Cell) :
    (tschScheduleRemoveLinkByOffsets s sf c.timeslotOffset c.channelOffset).1.sched.Inv ∧
      RemovesExactly [c] s (tschScheduleRemoveLinkByOffsets s sf c.timeslotOffset c.channelOffset).1 := by
  have hshrinks := removeByOffsets_shrinks c.timeslotOffset c.channelOffset sf _ s h hsf (h.list_nodup hsf)
    fun _ hl => hl
  refine ⟨hshrinks.inv h, hshrinks.link_eq, fun l => ?_⟩
  have hnodup := hshrinks.perm.nodup_iff.2 h.links.nodup
  have hdisj := (List.nodup_append.1 hnodup).2.2
  have hat : l ∈ ((s.sched.slotframe sf).linksList.filter fun l =>
      (s.sched.link l).timeslot = c.timeslotOffset ∧ (s.sched.link l).channelOffset = c.channelOffset) ↔
      l ∈ s.sched.links ∧ (s.sched.link l).slotframeHandle = slotframeHandle ∧ cellOf (s.sched.link l) ∈ [c] := by
    rw [List.mem_filter, decide_eq_true_eq, List.mem_singleton, cellOf, Cell.ext_iff]
    constructor
    · rintro ⟨hl, hts, hch⟩
      exact ⟨mem_links.2 ⟨sf, hsf, hl⟩, (h.home sf hsf l hl).trans hhandle, hts, hch⟩
    · rintro ⟨hl, hhome, hts, hch⟩
      exact ⟨h.at_home hsf hl (hhome.trans hhandle.symm), hts, hch⟩
  rw [← hshrinks.perm.mem_iff (a := l), List.mem_append]
  constructor
  · intro hl
    refine ⟨Or.inr hl, fun hcell => ?_⟩
    have hmem := hshrinks.perm.mem_iff.1 (List.mem_append_right _ hl)
    exact hdisj l (hat.2 ⟨hmem, hcell⟩) l hl rfl
  · rintro ⟨hl | hl, hcell⟩
    · exact absurd (hat.1 hl).2 hcell
    · exact hl

theorem removeCells_removes : ∀ (cells : List Cell) (s : State A), s.sched.Inv → sf ∈ s.sched.slotframeList →
    (s.sched.slotframe sf).handle = slotframeHandle →
    (removeCells sf cells s).sched.Inv ∧
      RemovesExactly (cells.filter fun c => c.timeslotOffset ≠ 0xffff) s (removeCells sf cells s)
  | [], s, h, _, _ => ⟨h, rfl, fun l => by simp [removeCells]⟩
  | c :: cells, s, h, hsf, hhandle => by
    rw [removeCells]
    by_cases hc : c.timeslotOffset = 0xffff
    · rw [if_pos hc, List.filter_cons_of_neg (by simpa using hc)]
      exact removeCells_removes cells s h hsf hhandle
    · rw [if_neg hc, List.filter_cons_of_pos (by simpa using hc)]
      obtain ⟨hinv, hone⟩ := removeLinkByOffsets_removes h hsf hhandle c
      obtain ⟨hlist, hhandles⟩ := removeByOffsets_slotframes c.timeslotOffset c.channelOffset sf
        (s.sched.slotframe sf).linksList s
      obtain ⟨hinv', hrest⟩ := removeCells_removes cells _ hinv (hlist ▸ hsf) ((hhandles sf).trans hhandle)
      exact ⟨hinv', hone.trans hrest⟩

theorem removeLinksToSchedule_removes (h : s.sched.Inv) (cells : List Cell) :
    (removeLinksToSchedule cells s).sched.Inv ∧
      RemovesExactly (cells.filter fun c => c.timeslotOffset ≠ 0xffff) s (removeLinksToSchedule cells s) := by
  unfold removeLinksToSchedule
  cases hsf : tschScheduleGetSlotframeByHandle s.sched slotframeHandle with
  | some sf =>
    exact removeCells_removes cells s h (List.mem_of_find?_eq_some hsf) (by simpa using List.find?_some hsf)
  | none =>
    refine ⟨h, rfl, fun l => ⟨fun hl => ⟨hl, fun hcell => ?_⟩, fun hl => hl.1⟩⟩
    obtain ⟨sf, hmem, hl⟩ := mem_links.1 hl
    have hne := List.find?_eq_none.1 hsf sf hmem
    simp only [decide_eq_true_eq] at hne
    exact hne ((h.home sf hmem l hl).symm.trans hcell.1)

end

/-! ## The handler -/

section

variable {A : Type} [DecidableEq A] {s : State A} {sf : Nat} {storage : Mem} {body : List UInt8}

def wanted (s : Schedule A) (sf : Nat) (body : List UInt8) : List Cell :=
  (cellsIn (fun i => memOf body (4 + i)) (body.length - 4)).filter (scheduled s sf)

/-- The response is one that `sixp_output` accepts; it lies in `res_storage` and lists the cells that are in the
schedule; and when it was sent, these are removed and no others, whatever the schedule is then. -/
structure DeletesRight (s : Schedule A) (sf : Nat) (body : List UInt8) (r : Message) : Prop where
  accepted : ∀ seqno, sixpPktCreate .response Rc.success sfSimpleSfid seqno (some r.bytes) ≠ none
  inside : r.len ≤ storageSize
  cells : r.bytes = (wanted s sf body).flatMap Cell.bytes
  removed : ∀ s' : State A, s'.sched.Inv → RemovesExactly (wanted s sf body) s' (deleteResponseSentCallback r s')

/-- One cell that has a timeslot, or two to five times the cell (0, 0). -/
def OneOrZeros (cs : List Cell) : Prop :=
  (∃ c, cs = [c] ∧ c.timeslotOffset ≠ 0xffff) ∨ 2 ≤ cs.length ∧ cs.length ≤ 5 ∧ ∀ c ∈ cs, c = ⟨0, 0⟩

def answer (s : Schedule A) (sf : Nat) (storage : Mem) (body : List UInt8) : Message :=
  ⟨stacked (Mem.fill 0 storageSize 0 storage) (wanted s sf body), 4 * (wanted s sf body).length⟩

def noCells (storage : Mem) : Message := ⟨Mem.fill 0 storageSize 0 storage, 0⟩

omit [DecidableEq A] in
theorem deleteReqInput_eq (hlen : 4 ≤ body.length) (hmod : body.length % 4 = 0)
    (hsf : tschScheduleGetSlotframeByHandle s.sched slotframeHandle = some sf) (fuel : Nat) :
    deleteReqInput s.sched storage body fuel = if 0 < numCellsOf body ∧ 0 < body.length - 4 then
      (gatherScheduled (scheduled s.sched sf) (fun i => memOf body (4 + i)) (body.length - 4) fuel
        ⟨0, 0, Mem.fill 0 storageSize 0 storage, 0⟩).map fun g => some ⟨g.storage, g.resLen⟩
      else some (some (noCells storage)) := by
  have hpos : 0 < body.getD 3 0 ↔ 0 < numCellsOf body := UInt8.lt_iff_toNat_lt
  obtain ⟨hnum, hnumOut⟩ := @getNumCells_request body _ (Or.inr (Or.inl rfl)) hlen
  obtain ⟨hlist, hlistOut⟩ := @getCellList_request body _ (Or.inr rfl) hlen hmod
  simp only [deleteReqInput, hnum, hnumOut, hlist, hlistOut, hsf, hpos]
  split <;> rfl

omit [DecidableEq A] in
theorem deleteReqInput_response (hlen : 4 ≤ body.length) (hmod : body.length % 4 = 0)
    (hsf : tschScheduleGetSlotframeByHandle s.sched slotframeHandle = some sf) (hpos : 0 < numCellsOf body)
    (hlist : 0 < body.length - 4) : (body.length - 4 < 256 → ∃ fuel, deleteReqInput s.sched storage body fuel =
      some (some (answer s.sched sf storage body))) ∧
    ∀ fuel r, deleteReqInput s.sched storage body fuel = some (some r) → body.length - 4 < 256 ∧
      r = answer s.sched sf storage body := by
  obtain ⟨n, hn⟩ : ∃ n, body.length - 4 = 4 * n := ⟨(body.length - 4) / 4, by omega⟩
  have hwanted : wanted s.sched sf body =
      foundUpTo (scheduled s.sched sf) (fun i => memOf body (4 + i)) n := by
    rw [wanted, hn, cellsIn, Nat.mul_div_cancel_left n (by decide)]
    rfl
  have hrun : body.length - 4 < 256 → ∀ fuel, deleteReqInput s.sched storage body fuel =
      if n < fuel then some (some (answer s.sched sf storage body)) else none := by
    intro hshort fuel
    rw [hn] at hshort
    have hend := gatherScheduled_eq (scheduled s.sched sf) (fun i => memOf body (4 + i))
      (Mem.fill 0 storageSize 0 storage) hshort fuel 0 (Nat.zero_le n)
    rw [deleteReqInput_eq hlen hmod hsf, if_pos ⟨hpos, hlist⟩, hn, answer, hwanted]
    refine (congrArg _ hend).trans ?_
    rw [Nat.sub_zero]
    split <;> rfl
  constructor
  · intro hshort
    exact ⟨n + 1, (hrun hshort (n + 1)).trans (if_pos (Nat.lt_succ_self n))⟩
  · intro fuel r hr
    by_cases hshort : body.length - 4 < 256
    · rw [hrun hshort] at hr
      split at hr
      · cases hr
        exact ⟨hshort, rfl⟩
      · cases hr
    · rw [deleteReqInput_eq hlen hmod hsf, if_pos ⟨hpos, hlist⟩, gatherScheduled_long _ _ (by omega)] at hr
      cases hr

theorem responseCells_of_bytes {r : Message} {cs : List Cell} (hlen : r.len = 4 * cs.length)
    (h : r.bytes = cs.flatMap Cell.bytes) : responseCells r.mem r.len = some cs := by
  have hcells : cellsIn r.mem (4 * cs.length) = cs := by
    apply flatMap_bytes_inj
    rw [cellsIn_bytes, ← h, Message.bytes, hlen]
  have hoff : getCellListOffset .response Rc.success = some 0 := rfl
  simp only [responseCells, Body.sixpPktGetCellList, listVars, hoff, hlen]
  rw [if_neg (by omega), if_neg (by omega)]
  refine congrArg some (Eq.trans ?_ hcells)
  simp

/-- The storage holds the cells that were found only where there was one, or all of them are (0, 0). -/
theorem stacked_iff {cs : List Cell} (hne : cs ≠ []) (hfits : 4 * cs.length ≤ storageSize) (storage : Mem) :
    Mem.read 0 (4 * cs.length) (stacked (Mem.fill 0 storageSize 0 storage) cs) = cs.flatMap Cell.bytes ↔
      cs.length = 1 ∨ ∀ c ∈ cs, c = ⟨0, 0⟩ := by
  have hzero : ∀ x < storageSize, Mem.fill 0 storageSize 0 storage x = 0 := by
    intro x hx
    rw [Mem.fill, if_pos ⟨Nat.zero_le x, by omega⟩]
  obtain ⟨init, c, rfl⟩ : ∃ init c, cs = init ++ [c] :=
    ⟨cs.dropLast, cs.getLast hne, (List.dropLast_append_getLast hne).symm⟩
  rw [List.length_append, List.length_singleton] at hfits ⊢
  rw [stacked_read hzero init c hfits]
  constructor
  · intro h
    have h := flatMap_bytes_inj h
    cases init with
    | nil => exact Or.inl rfl
    | cons a init =>
      rw [List.length_cons, List.cons_append] at h
      obtain ⟨rfl, hrest⟩ := List.cons.inj h
      have hall : ∀ d ∈ init ++ [c], d = ⟨0, 0⟩ := by
        rw [← hrest]
        exact fun d hd => List.eq_of_mem_replicate hd
      refine Or.inr fun d hd => ?_
      rcases List.mem_cons.1 hd with rfl | hd
      · exact hall _ (by simp)
      · exact hall d hd
  · rintro (h | h)
    · obtain rfl := List.length_eq_zero_iff.1 (show init.length = 0 by omega)
      rfl
    · have hc := h c (by simp)
      have hinit : init = List.replicate init.length ⟨0, 0⟩ :=
        List.eq_replicate_iff.2 ⟨rfl, fun d hd => h d (List.mem_append_left _ hd)⟩
      rw [hc, hinit, List.length_replicate, ← List.replicate_succ', List.replicate_succ]

theorem refused_empty (seqno : UInt8) : sixpPktCreate .response Rc.success sfSimpleSfid seqno (some []) = none := rfl

theorem accepted_nonempty {l : List UInt8} (hne : l ≠ []) (hlen : l.length ≤ packetbufSize) (seqno : UInt8) :
    sixpPktCreate .response Rc.success sfSimpleSfid seqno (some l) ≠ none := by
  cases l with
  | nil => exact absurd rfl hne
  | cons b l =>
    have hcreate : sixpPktCreate .response Rc.success sfSimpleSfid seqno (some (b :: l)) = if
        packetbufSize < (b :: l).length then none
        else some ((PktType.response.toByte <<< 4 ||| sixpPktVersion) :: Rc.success :: sfSimpleSfid :: seqno :: b :: l) :=
      rfl
    rw [hcreate, if_neg (by omega)]
    exact Option.some_ne_none _

theorem callback_eq {r : Message} {cs : List Cell} (hlen : r.len = 4 * cs.length)
    (h : r.bytes = cs.flatMap Cell.bytes) (s : State A) :
    deleteResponseSentCallback r s = removeLinksToSchedule cs s := by
  rw [deleteResponseSentCallback, responseCells_of_bytes hlen h]

theorem no_timeslot_kept (hinv : s.sched.Inv) (hsf : tschScheduleGetSlotframeByHandle s.sched slotframeHandle = some sf)
    {c : Cell} (hc : scheduled s.sched sf c = true) (hts : c.timeslotOffset = 0xffff) :
    ¬ RemovesExactly [c] s (removeLinksToSchedule [c] s) := by
  intro h
  obtain ⟨l, hl⟩ := Option.isSome_iff_exists.1 hc
  have hmem := List.mem_of_find?_eq_some hl
  have hcell : cellOf (s.sched.link l) = c := by
    rw [cellOf, Cell.ext_iff]
    simpa using List.find?_some hl
  have hslotframe := List.mem_of_find?_eq_some hsf
  have hhandle : (s.sched.slotframe sf).handle = slotframeHandle := by simpa using List.find?_some hsf
  have hlinks := mem_links.2 ⟨sf, hslotframe, hmem⟩
  have hkept := (removeLinksToSchedule_removes hinv [c]).2.2 l
  rw [List.filter_cons_of_neg (by simpa using hts), List.filter_nil, h.2] at hkept
  have hgone := (hkept.2 ⟨hlinks, by simp⟩).2
  exact hgone ⟨(hinv.home sf hslotframe l hmem).trans hhandle, by simp [hcell]⟩

theorem oneOrZeros_of_right (hinv : s.sched.Inv)
    (hsf : tschScheduleGetSlotframeByHandle s.sched slotframeHandle = some sf)
    (hright : DeletesRight (A := A) s.sched sf body (answer s.sched sf storage body)) :
    OneOrZeros (wanted s.sched sf body) := by
  have hne : wanted s.sched sf body ≠ [] := by
    intro hnil
    refine hright.accepted 0 ?_
    rw [hright.cells, hnil]
    exact refused_empty 0
  have hfits : 4 * (wanted s.sched sf body).length ≤ storageSize := hright.inside
  have hsize : storageSize = 20 := rfl
  rcases (stacked_iff hne hfits storage).1 hright.cells with hone | hzero
  · obtain ⟨c, hc⟩ := List.length_eq_one_iff.1 hone
    refine Or.inl ⟨c, hc, fun hts => ?_⟩
    have hfound : scheduled s.sched sf c = true := (List.mem_filter.1 (hc ▸ List.mem_singleton_self c)).2
    have hremoved := hright.removed s hinv
    rw [callback_eq rfl hright.cells, hc] at hremoved
    exact no_timeslot_kept hinv hsf hfound hts hremoved
  · by_cases hone : (wanted s.sched sf body).length = 1
    · obtain ⟨c, hc⟩ := List.length_eq_one_iff.1 hone
      refine Or.inl ⟨c, hc, ?_⟩
      rw [hzero c (hc ▸ List.mem_singleton_self c)]
      decide
    · have hpos := List.length_pos_iff.2 hne
      exact Or.inr ⟨by omega, by omega, hzero⟩

theorem right_of_oneOrZeros (h : OneOrZeros (wanted s.sched sf body)) :
    DeletesRight (A := A) s.sched sf body (answer s.sched sf storage body) := by
  have hsize : storageSize = 20 := rfl
  have hne : wanted s.sched sf body ≠ [] := by
    rcases h with ⟨c, hc, -⟩ | ⟨htwo, -⟩
    · simp [hc]
    · rintro hnil
      simp [hnil] at htwo
  have hpos := List.length_pos_iff.2 hne
  have hfits : 4 * (wanted s.sched sf body).length ≤ storageSize := by
    rcases h with ⟨c, hc, -⟩ | ⟨-, hfive, -⟩
    · simp [hc, hsize]
    · omega
  have hts : ∀ c ∈ wanted s.sched sf body, c.timeslotOffset ≠ 0xffff := by
    rcases h with ⟨c, hc, hts⟩ | ⟨-, -, hzero⟩
    · simpa [hc] using hts
    · rintro c hc
      rw [hzero c hc]
      decide
  have hbytes : (answer s.sched sf storage body).bytes = (wanted s.sched sf body).flatMap Cell.bytes := by
    refine (stacked_iff hne hfits storage).2 ?_
    rcases h with ⟨c, hc, -⟩ | ⟨-, -, hzero⟩
    · exact Or.inl (by simp [hc])
    · exact Or.inr hzero
  refine ⟨fun seqno => ?_, hfits, hbytes, fun s' hinv' => ?_⟩
  · refine accepted_nonempty ?_ ?_ seqno
    · rw [← List.length_pos_iff, hbytes, length_flatMap_bytes]
      omega
    · rw [hbytes, length_flatMap_bytes]
      exact hfits.trans (by decide)
  · rw [callback_eq rfl hbytes]
    have hremoves := (removeLinksToSchedule_removes hinv' (wanted s.sched sf body)).2
    rwa [List.filter_eq_self.2 (by simpa using hts)] at hremoves

/-- For every DELETE request that the parser accepts and every schedule with the slotframe: the handler sends a response
that `sixp_output` accepts, that lists the cells of the request that are in the schedule, and after which these are
removed and no others, exactly when cells are asked for in a list of less than 256 bytes and the schedule has one of
them that has a timeslot, or two to five that are all (0, 0). -/
theorem delete_right_iff (s : State A) (hinv : s.sched.Inv) (storage : Mem)
    (hsf : tschScheduleGetSlotframeByHandle s.sched slotframeHandle = some sf) {bytes : List UInt8} {v sfid seqno : UInt8}
    (hparse : sixpPktParse bytes = (true, ⟨v, .request, Cmd.delete, sfid, seqno, some body⟩)) :
    (∃ fuel r, deleteReqInput s.sched storage body fuel = some (some r) ∧ DeletesRight (A := A) s.sched sf body r) ↔
      0 < numCellsOf body ∧ body.length - 4 < 256 ∧ OneOrZeros (wanted s.sched sf body) := by
  obtain ⟨hlen, hmod⟩ := bodyLen_request (Or.inr (Or.inl rfl)) hparse
  by_cases hask : 0 < numCellsOf body ∧ 0 < body.length - 4
  · obtain ⟨hanswers, honly⟩ := @deleteReqInput_response A s sf storage body hlen hmod hsf hask.1 hask.2
    constructor
    · rintro ⟨fuel, r, hr, hright⟩
      obtain ⟨hshort, rfl⟩ := honly fuel r hr
      exact ⟨hask.1, hshort, oneOrZeros_of_right hinv hsf hright⟩
    · rintro ⟨-, hshort, h⟩
      obtain ⟨fuel, hr⟩ := hanswers hshort
      exact ⟨fuel, _, hr, right_of_oneOrZeros h⟩
  · refine iff_of_false ?_ ?_
    · rintro ⟨fuel, r, hr, hright⟩
      rw [deleteReqInput_eq hlen hmod hsf, if_neg hask] at hr
      cases hr
      exact hright.accepted 0 (refused_empty 0)
    · rintro ⟨hpos, -, h⟩
      have hnil : wanted s.sched sf body = [] := by
        rw [wanted, show body.length - 4 = 0 by omega]
        rfl
      rw [hnil] at h
      rcases h with ⟨c, hc, -⟩ | ⟨h, -⟩
      · cases hc
      · cases h

end

def twoLinks : State Unit where
  sched := {
    linkMemb := ⟨4, fun i => i < 2⟩
    link := fun l => ⟨l, (), 0, UInt16.ofNat (20 + l), 1, LINK_OPTION_TX, .normal⟩
    slotframeMemb := ⟨1, fun _ => true⟩
    slotframe := fun _ => ⟨0, 101, [0, 1]⟩
    slotframeList := [0]
    currentLinkHandle := 2 }
  queues := ⟨fun _ => none, .init 0, fun _ => ⟨0, 0, .deferred⟩, 0⟩
  slot := ⟨none, none, none, none, ⟨0, 0, 0⟩, fun _ => ⟨0, 0⟩, false, ⟨0, 0⟩, false, .idle⟩

theorem twoLinks_inv : twoLinks.sched.Inv where
  slotframes := ⟨by decide, fun i => by simp [twoLinks]⟩
  links := ⟨by decide, fun i => by
    simp [twoLinks, Schedule.links]
    omega⟩
  handles := by decide
  home := by simp [twoLinks]
  older := by simp [twoLinks, Schedule.links]

/-- A request for one of the links is answered rightly. -/
theorem delete_right_one : ∃ fuel r,
    deleteReqInput twoLinks.sched (fun _ => 0xff) [0, 0, 1, 1, 20, 0, 1, 0] fuel = some (some r) ∧
      DeletesRight (A := Unit) twoLinks.sched 0 [0, 0, 1, 1, 20, 0, 1, 0] r := by
  have hparse : sixpPktParse [0x00, 0x02, 0xf0, 0x00, 0, 0, 1, 1, 20, 0, 1, 0] =
      (true, ⟨0, .request, Cmd.delete, 0xf0, 0, some [0, 0, 1, 1, 20, 0, 1, 0]⟩) := rfl
  have hcell : OneOrZeros (wanted twoLinks.sched 0 [0, 0, 1, 1, 20, 0, 1, 0]) := Or.inl ⟨⟨20, 1⟩, by decide, by decide⟩
  exact (delete_right_iff twoLinks twoLinks_inv (fun _ => 0xff) rfl hparse).2 ⟨by decide, by decide, hcell⟩

/-- A request for both links is answered with (21, 1) and (0, 0), which are then removed. -/
theorem two_deleted_minimal_cell : ¬ ∃ fuel r,
    deleteReqInput twoLinks.sched (fun _ => 0) [0, 0, 1, 2, 20, 0, 1, 0, 21, 0, 1, 0] fuel = some (some r) ∧
      DeletesRight (A := Unit) twoLinks.sched 0 [0, 0, 1, 2, 20, 0, 1, 0, 21, 0, 1, 0] r := by
  rintro ⟨fuel, r, hr, hright⟩
  obtain ⟨-, honly⟩ := @deleteReqInput_response Unit twoLinks 0 (fun _ => 0)
    [0, 0, 1, 2, 20, 0, 1, 0, 21, 0, 1, 0] (by decide) (by decide) rfl (by decide) (by decide)
  obtain ⟨-, rfl⟩ := honly fuel r hr
  exact absurd hright.cells (by decide)

end Contiki.SfSimple

/-
What the loop of `rpl_ext_header_remove` leaves, on the list of the headers. Behind a header that is kept
`prev_proto_ptr` points into the header that the loop stands at, so a removal there does not reach the link to it,
and the loop goes on with the type of the header after the next.
-/
import Contiki.RplLite.Srh

namespace Contiki.RplLite

open Contiki.Lib Contiki.Core

/-- Where the loop stands: no header kept yet, behind a kept one, or with `protocol` one header ahead. -/
inductive Stand
  | front
  | behind
  | ahead
  deriving DecidableEq

namespace Stand

/-- The test of the loop at the header `x`, with those behind it. -/
@[grind =]
def takes : Stand → ExtHdr → List ExtHdr → Bool
  | .ahead, x, y :: _ => y.proto == protoRouting || (y.proto == protoHbho && x.data.head? == some optRpl)
  | .ahead, _, [] => false
  | .front, x, _ => isRpl x
  | .behind, x, _ => isRpl x

def next : Stand → Bool → Stand
  | _, false => .behind
  | .front, true => .front
  | .behind, true => .ahead
  | .ahead, true => .ahead

end Stand

@[grind =]
def left (up : Upper) : Stand → List ExtHdr → List (UInt8 × ExtHdr)
  | _, [] => []
  | s, x :: es =>
    if s.takes x es then left up (s.next true) es
    else (firstProto es up, x) :: left up .behind es

@[grind =]
def links (up : Upper) : List ExtHdr → List (UInt8 × ExtHdr)
  | [] => []
  | e :: es => (firstProto es up, e) :: links up es

@[grind =]
def rawBytes : List (UInt8 × ExtHdr) → List UInt8
  | [] => []
  | (next, e) :: bs => next :: e.len :: (e.data ++ rawBytes bs)

/-- The loop takes exactly the headers that are RPL's, and the links that it does not write are right: behind a kept
header only hop-by-hop headers are taken, in front of a hop-by-hop header that is kept. -/
@[grind =]
def Linked : Stand → List ExtHdr → Prop
  | .front, [] => True
  | .behind, [] => True
  | .ahead, [] => False
  | .front, x :: es => if isRpl x then Linked .front es else Linked .behind es
  | .behind, x :: es => if isRpl x then x.proto = protoHbho ∧ Linked .ahead es else Linked .behind es
  | .ahead, x :: es =>
    if Stand.takes .ahead x es then isRpl x = true ∧ Linked .ahead es
    else isRpl x = false ∧ x.proto = protoHbho ∧ Linked .behind es

@[grind =]
def ends : Stand → List ExtHdr → Stand
  | s, [] => s
  | s, x :: es => ends (s.next (s.takes x es)) es

/-- The loop comes to the payload with `protocol` one header ahead, and takes it for a header. -/
def Strays (es : List ExtHdr) : Prop := ends .front es = .ahead

/-- A header that is to go has the length and the bytes of one that is kept. -/
def Twins (es : List ExtHdr) : Prop :=
  ∃ a ∈ es, ∃ b ∈ es, isRpl a = true ∧ isRpl b = false ∧ a.len = b.len ∧ a.data = b.data

variable {es : List ExtHdr} {up : Upper}

/-! ## The bytes of the headers -/

theorem chainBytes_eq (up : Upper) : ∀ es : List ExtHdr, chainBytes es up = rawBytes (links up es)
  | [] => rfl
  | e :: es => by rw [chainBytes, links, rawBytes, chainBytes_eq up es]

theorem links_snd (up : Upper) : ∀ es : List ExtHdr, (links up es).map Prod.snd = es
  | [] => rfl
  | e :: es => by rw [links, List.map_cons, links_snd up es]

theorem rawBytes_inj : ∀ {as bs : List (UInt8 × ExtHdr)}, rawBytes as = rawBytes bs →
    as.map (fun a => (a.1, a.2.len, a.2.data)) = bs.map (fun b => (b.1, b.2.len, b.2.data))
  | [], [], _ => rfl
  | [], (m, f) :: bs, h => by cases h
  | (n, e) :: as, [], h => by cases h
  | (n, e) :: as, (m, f) :: bs, h => by
    rw [rawBytes, rawBytes, List.cons.injEq, List.cons.injEq] at h
    obtain ⟨rfl, hlen, hrest⟩ := h
    have hdata : e.data.length = f.data.length := by rw [e.length, f.length, hlen]
    obtain ⟨hd, htail⟩ := List.append_inj hrest hdata
    rw [List.map_cons, List.map_cons, rawBytes_inj htail, hlen, hd]

/-! ## The headers that stay -/

theorem left_sublist (up : Upper) : ∀ (s : Stand) (es : List ExtHdr), ((left up s es).map Prod.snd).Sublist es
  | _, [] => .slnil
  | s, x :: es => by
    rw [left]
    by_cases h : s.takes x es = true
    · rw [if_pos h]
      exact (left_sublist up (s.next true) es).cons x
    · rw [if_neg h]
      exact (left_sublist up .behind es).cons_cons x

theorem kept_cons_own {x : ExtHdr} (h : isRpl x = true) (es : List ExtHdr) : kept (x :: es) = kept es := by
  unfold kept
  rw [List.filter_cons_of_neg (by simp [h])]

theorem kept_cons {x : ExtHdr} (h : isRpl x = false) (es : List ExtHdr) : kept (x :: es) = x :: kept es := by
  unfold kept
  rw [List.filter_cons_of_pos (by simp [h])]

theorem mem_kept {x : ExtHdr} (h : x ∈ kept es) : x ∈ es ∧ isRpl x = false := by
  have hmem := List.mem_filter.1 h
  exact ⟨hmem.1, by simpa using hmem.2⟩

theorem sublist_kept {as es : List ExtHdr} (h : as.Sublist es) (hk : ∀ a ∈ as, isRpl a = false) :
    as.Sublist (kept es) := by
  have hself : as.filter (fun e => !isRpl e) = as := List.filter_eq_self.2 fun a ha => by simp [hk a ha]
  rw [← hself]
  exact h.filter _

theorem firstProto_kept (es : List ExtHdr) (up : Upper) : firstProto (kept es) up ≠ protoRouting := by
  intro h
  rcases hk : kept es with _ | ⟨x, xs⟩
  · rw [hk] at h
    have hu := up.upper
    have hproto : up.proto = protoRouting := h
    rw [hproto] at hu
    revert hu
    decide
  · rw [hk] at h
    have hx : isRpl x = false := (mem_kept (hk ▸ List.mem_cons_self)).2
    have hproto : x.proto = protoRouting := h
    unfold isRpl at hx
    simp [hproto] at hx

theorem own_proto {x : ExtHdr} (h : isRpl x = true) : x.proto = protoRouting ∨ x.proto = protoHbho := by
  unfold isRpl at h
  simp only [Bool.or_eq_true, beq_iff_eq, Bool.and_eq_true] at h
  exact h.imp id And.left

/-! ## Right links -/

theorem linked_ends : ∀ {s : Stand} {es : List ExtHdr}, Linked s es → ends s es ≠ .ahead
  | .front, [], _ => by rintro ⟨⟩
  | .behind, [], _ => by rintro ⟨⟩
  | .ahead, [], h => h.elim
  | .front, x :: es, h => by
    rw [ends, Stand.takes]
    rw [Linked] at h
    cases hx : isRpl x with
    | true =>
      rw [hx, if_pos rfl] at h
      exact linked_ends h
    | false =>
      rw [hx, if_neg Bool.false_ne_true] at h
      exact linked_ends h
  | .behind, x :: es, h => by
    rw [ends, Stand.takes]
    rw [Linked] at h
    cases hx : isRpl x with
    | true =>
      rw [hx, if_pos rfl] at h
      exact linked_ends h.2
    | false =>
      rw [hx, if_neg Bool.false_ne_true] at h
      exact linked_ends h
  | .ahead, x :: es, h => by
    rw [ends]
    rw [Linked] at h
    cases hx : Stand.takes .ahead x es with
    | true =>
      rw [hx, if_pos rfl] at h
      exact linked_ends h.2
    | false =>
      rw [hx, if_neg Bool.false_ne_true] at h
      exact linked_ends h.2.2

/-- Behind a kept header the link to what follows is right, and so is all that is left. -/
theorem linked_left (up : Upper) : ∀ es : List ExtHdr,
    (Linked .behind es → left up .behind es = links up (kept es) ∧ firstProto es up = firstProto (kept es) up) ∧
      (Linked .ahead es → left up .ahead es = links up (kept es) ∧ firstProto (kept es) up = protoHbho)
  | [] => ⟨fun _ => ⟨rfl, rfl⟩, fun h => h.elim⟩
  | x :: es => by
    obtain ⟨hbehind, hahead⟩ := linked_left up es
    constructor
    · intro h
      rw [Linked] at h
      rw [left, Stand.takes]
      cases hx : isRpl x with
      | true =>
        rw [hx, if_pos rfl] at h
        obtain ⟨hl, hp⟩ := hahead h.2
        rw [if_pos rfl, kept_cons_own hx, hp]
        exact ⟨hl, h.1⟩
      | false =>
        rw [hx, if_neg Bool.false_ne_true] at h
        obtain ⟨hl, hp⟩ := hbehind h
        rw [if_neg Bool.false_ne_true, kept_cons hx, hl, hp]
        exact ⟨rfl, rfl⟩
    · intro h
      rw [Linked] at h
      rw [left]
      cases ht : Stand.takes .ahead x es with
      | true =>
        rw [ht, if_pos rfl] at h
        rw [if_pos rfl, kept_cons_own h.1]
        exact hahead h.2
      | false =>
        rw [ht, if_neg Bool.false_ne_true] at h
        obtain ⟨hl, hp⟩ := hbehind h.2.2
        rw [if_neg Bool.false_ne_true, kept_cons h.1, hl, hp]
        exact ⟨rfl, h.2.1⟩

theorem linked_front (up : Upper) : ∀ {es : List ExtHdr}, Linked .front es → left up .front es = links up (kept es)
  | [], _ => rfl
  | x :: es, h => by
    rw [Linked] at h
    rw [left, Stand.takes]
    cases hx : isRpl x with
    | true =>
      rw [hx, if_pos rfl] at h
      rw [if_pos rfl, kept_cons_own hx]
      exact linked_front up h
    | false =>
      rw [hx, if_neg Bool.false_ne_true] at h
      obtain ⟨hl, hp⟩ := (linked_left up es).1 h
      rw [if_neg Bool.false_ne_true, kept_cons hx, hl, hp]
      rfl

theorem left_linked (up : Upper) : ∀ es : List ExtHdr,
    (left up .behind es = links up (kept es) → firstProto es up = firstProto (kept es) up → Linked .behind es) ∧
      (left up .ahead es = links up (kept es) → firstProto (kept es) up = protoHbho → Linked .ahead es)
  | [] => ⟨fun _ _ => trivial, fun _ h => up.proto_ne h⟩
  | x :: es => by
    obtain ⟨hbehind, hahead⟩ := left_linked up es
    constructor
    · intro hl hp
      rw [left, Stand.takes] at hl
      rw [Linked]
      cases hx : isRpl x with
      | true =>
        rw [hx, if_pos rfl, kept_cons_own hx] at hl
        rw [kept_cons_own hx] at hp
        have hproto : x.proto = protoHbho :=
          (own_proto hx).resolve_left fun hr => firstProto_kept es up (hp.symm.trans hr)
        rw [if_pos rfl]
        exact ⟨hproto, hahead hl (hp.symm.trans hproto)⟩
      | false =>
        rw [hx, if_neg Bool.false_ne_true, kept_cons hx, links, List.cons.injEq, Prod.mk.injEq] at hl
        rw [if_neg Bool.false_ne_true]
        exact hbehind hl.2 hl.1.1
    · intro hl hp
      rw [left] at hl
      rw [Linked]
      cases ht : Stand.takes .ahead x es with
      | true =>
        rw [ht, if_pos rfl] at hl
        rw [if_pos rfl]
        cases hx : isRpl x with
        | true =>
          rw [kept_cons_own hx] at hl hp
          exact ⟨rfl, hahead hl hp⟩
        | false =>
          -- one header too few is left
          have hsnd : (left up .ahead es).map Prod.snd = x :: kept es := by
            rw [← kept_cons hx, ← links_snd up (kept (x :: es)), ← hl]
            rfl
          have hsub := left_sublist up .ahead es
          rw [hsnd] at hsub
          have hle := (sublist_kept hsub fun a ha => by
            rw [← kept_cons hx] at ha
            exact (mem_kept ha).2).length_le
          rw [List.length_cons] at hle
          omega
      | false =>
        rw [ht, if_neg Bool.false_ne_true] at hl
        rw [if_neg Bool.false_ne_true]
        cases hx : isRpl x with
        | true =>
          have hmem : x ∈ kept (x :: es) := by
            rw [← links_snd up (kept (x :: es)), ← hl]
            exact List.mem_cons_self
          rw [(mem_kept hmem).2] at hx
          cases hx
        | false =>
          rw [kept_cons hx, links, List.cons.injEq, Prod.mk.injEq] at hl
          rw [kept_cons hx] at hp
          exact ⟨rfl, hp, hbehind hl.2 hl.1.1⟩

theorem left_linked_front (up : Upper) : ∀ {es : List ExtHdr}, left up .front es = links up (kept es) → Linked .front es
  | [], _ => trivial
  | x :: es, hl => by
    rw [left, Stand.takes] at hl
    rw [Linked]
    cases hx : isRpl x with
    | true =>
      rw [hx, if_pos rfl, kept_cons_own hx] at hl
      rw [if_pos rfl]
      exact left_linked_front up hl
    | false =>
      rw [hx, if_neg Bool.false_ne_true, kept_cons hx, links, List.cons.injEq, Prod.mk.injEq] at hl
      rw [if_neg Bool.false_ne_true]
      exact (left_linked up es).1 hl.2 hl.1.1

theorem left_eq_of_bytes (hbytes : rawBytes (left up .front es) = chainBytes (kept es) up) (htwins : ¬Twins es) :
    left up .front es = links up (kept es) := by
  rw [chainBytes_eq] at hbytes
  have hmap := rawBytes_inj hbytes
  have hsub := left_sublist up .front es
  have hown : ∀ a ∈ (left up .front es).map Prod.snd, isRpl a = false := by
    rintro a ha
    obtain ⟨⟨n, a⟩, hl, rfl⟩ := List.mem_map.1 ha
    have hmem : (n, a.len, a.data) ∈ (links up (kept es)).map (fun b => (b.1, b.2.len, b.2.data)) := by
      rw [← hmap]
      exact List.mem_map.2 ⟨(n, a), hl, rfl⟩
    obtain ⟨⟨m, b⟩, hb, heq⟩ := List.mem_map.1 hmem
    rw [Prod.mk.injEq, Prod.mk.injEq] at heq
    have hkept : b ∈ kept es := by
      rw [← links_snd up (kept es)]
      exact List.mem_map.2 ⟨(m, b), hb, rfl⟩
    by_contra hne
    exact htwins ⟨a, hsub.subset ha, b, (mem_kept hkept).1, by simpa using hne, (mem_kept hkept).2, heq.2.1.symm,
      heq.2.2.symm⟩
  have hlen : ((left up .front es).map Prod.snd).length = (kept es).length := by
    have := congrArg List.length hmap
    rw [List.length_map, List.length_map] at this
    rw [List.length_map, this, ← List.length_map (f := Prod.snd), links_snd]
  have hsnd : (left up .front es).map Prod.snd = (links up (kept es)).map Prod.snd := by
    rw [links_snd]
    exact (sublist_kept hsub hown).eq_of_length hlen
  have hfst : (left up .front es).map Prod.fst = (links up (kept es)).map Prod.fst := by
    have := congrArg (List.map Prod.fst) hmap
    rwa [List.map_map, List.map_map] at this
  rw [← List.zip_unzip (left up .front es), ← List.zip_unzip (links up (kept es)), List.unzip_eq_map, List.unzip_eq_map]
  dsimp only
  rw [hsnd, hfst]

/-! ## The payload as a header -/

theorem ends_behind_nil {es : List ExtHdr} (h : ends .behind es = .ahead) : ∃ y ys, es = y :: ys := by
  cases es with
  | nil => cases h
  | cons y ys => exact ⟨y, ys, rfl⟩

theorem left_ext (up : Upper) : ∀ {s : Stand} {es : List ExtHdr}, ends s es = .ahead →
    ∀ b ∈ left up s es, isProtoExtHdr b.1 = true
  | s, [], _ => by
    rintro b hb
    cases hb
  | s, x :: es, h => by
    rw [ends] at h
    rw [left]
    cases ht : s.takes x es with
    | true =>
      rw [ht] at h
      rw [if_pos rfl]
      exact left_ext up h
    | false =>
      rw [ht] at h
      rw [if_neg Bool.false_ne_true]
      rintro b hb
      rcases List.mem_cons.1 hb with rfl | hb
      · obtain ⟨y, ys, rfl⟩ := ends_behind_nil h
        exact y.ext
      · exact left_ext up h b hb

theorem strays_kept : ∀ {es : List ExtHdr}, Strays es → kept es ≠ []
  | [], h => by cases h
  | x :: es, h => by
    unfold Strays at h
    rw [ends, Stand.takes] at h
    cases hx : isRpl x with
    | true =>
      rw [hx] at h
      rw [kept_cons_own hx]
      exact strays_kept h
    | false =>
      rw [kept_cons hx]
      exact List.cons_ne_nil _ _

/-- The chain of the kept headers ends in the type of the payload; no header that was in front of another has it. -/
theorem links_ne_left {m : Mem} : ∀ {ks : List ExtHdr} {bs : List (UInt8 × ExtHdr)} {pos : Nat}, ks ≠ [] →
    (∀ b ∈ bs, isProtoExtHdr b.1 = true) → Mem.Holds pos (rawBytes (links up ks)) m → Mem.Holds pos (rawBytes bs) m →
    ¬(rawBytes (links up ks)).length ≤ (rawBytes bs).length
  | [], _, _, h, _, _, _ => (h rfl).elim
  | k :: ks, [], _, _, _, _, _ => by
    rw [links, rawBytes, rawBytes, List.length_cons, List.length_nil]
    omega
  | k :: ks, (n, e) :: bs, pos, _, hext, hk, hb => by
    rw [links, rawBytes] at hk ⊢
    rw [rawBytes] at hb ⊢
    have hn : firstProto ks up = n := hk.1.symm.trans hb.1
    have hlen : k.len = e.len := hk.2.1.symm.trans hb.2.1
    have hdata : k.data.length = e.data.length := by rw [k.length, e.length, hlen]
    have hk' := (Mem.holds_append.1 hk.2.2).2
    have hb' := (Mem.holds_append.1 hb.2.2).2
    rw [hdata] at hk'
    cases ks with
    | nil =>
      have hup : firstProto [] up = up.proto := rfl
      have := hext (n, e) List.mem_cons_self
      rw [← hn, hup, up.upper] at this
      cases this
    | cons k' ks =>
      have ih := links_ne_left (List.cons_ne_nil k' ks) (fun b hb => hext b (List.mem_cons_of_mem _ hb)) hk' hb'
      simp only [List.length_cons, List.length_append]
      omega

end Contiki.RplLite

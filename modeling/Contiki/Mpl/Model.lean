/-
The sets of mpl.c: buffered messages, seeds and domains. An element of a set is named by its index. The
two loops that start at `&seed_set[MPL_SEED_SET_SIZE]` read the memory behind the seed set: it is the
element of that index here, which other modules write, and `outside` tells that it was read. Where such
an element or NULL would be used as an element of a set, the step ends and `wild` is set.
-/
import Contiki.Core.Uip

namespace Contiki.Mpl

open Contiki.Core

/-- MPL_BUFFERED_MESSAGE_SET_SIZE, MPL_SEED_SET_SIZE, MPL_DOMAIN_SET_SIZE, UIP_DS6_MADDR_NB,
MPL_SEED_ID_TYPE, MPL_SEED_SET_ENTRY_LIFETIME, MPL_CONTROL_MESSAGE_TIMER_EXPIRATIONS,
MPL_PROACTIVE_FORWARDING and UIP_CONF_IPV6_CHECKS; the last two tell whether `trickle_timer_config`
takes the constants of the data and of the control timers. -/
structure Conf where
  bufferedMessageSetSize : Nat
  seedSetSize : Nat
  domainSetSize : Nat
  maddrNb : Nat
  seedIdType : UInt8
  seedSetEntryLifetime : UInt8
  controlMessageTimerExpirations : Nat
  proactiveForwarding : Bool
  ipv6Checks : Bool
  dataTimerOk : Bool
  controlTimerOk : Bool

/-- `seed_id_t`. -/
structure SeedId where
  s : UInt8
  id : Fin 16 → UInt8

structure Timer where
  running : Bool
  e : UInt8

/-- `struct mpl_msg`. -/
structure Msg where
  seed : Option Nat
  tt : Timer
  seq : UInt8

/-- `struct mpl_seed`. -/
structure Seed where
  seedId : SeedId
  minSeqno : UInt8
  lifetime : UInt8
  count : UInt8
  minSeq : List Nat
  domain : Option Nat

/-- `struct mpl_domain`. -/
structure Domain where
  dataAddr : Ipaddr
  ctrlAddr : Ipaddr
  tt : Timer

/-- The sets, the table of multicast addresses, `last_seq`, `local_seed_id` and the `seed_id` that
`accept` keeps between calls. -/
structure State where
  msgs : Nat → Msg
  seeds : Nat → Seed
  domains : Nat → Domain
  maddrs : Nat → Option Ipaddr
  lastSeq : UInt16
  localSeedId : Option SeedId
  seedId : SeedId
  outside : Bool
  wild : Bool

/-- An MPL data message: what `accept` reads of its headers. `seedField` are the bytes where the seed id
stands, `srcIsMine` is `uip_ds6_is_my_addr` of the source. -/
structure DataMsg where
  src : Ipaddr
  dest : Ipaddr
  srcIsMine : Bool
  proto : UInt8
  optType : UInt8
  flags : UInt8
  seq : UInt8
  seedField : Fin 16 → UInt8

inductive Verdict
  | drop
  | accept
  deriving DecidableEq

def Timer.stopped : Timer := ⟨false, 0⟩

def Msg.zero : Msg := ⟨none, Timer.stopped, 0⟩

def State.setMsg (s : State) (k : Nat) (v : Msg) : State := { s with msgs := Function.update s.msgs k v }

def State.setSeed (s : State) (i : Nat) (v : Seed) : State := { s with seeds := Function.update s.seeds i v }

def State.setDomain (s : State) (d : Nat) (v : Domain) : State := { s with domains := Function.update s.domains d v }

/-! ## Serial numbers -/

/-- `SEQ_VAL_IS_LT`; the difference of two bytes fits an `int16_t`. -/
def seqValIsLt (i j : UInt8) : Bool :=
  i ≠ j && ((i < j && (j.toNat : Int) - i.toNat < 0x100) || (i > j && (i.toNat : Int) - j.toNat > 0x100))

def seqValIsGt (i j : UInt8) : Bool :=
  i ≠ j && ((i < j && (j.toNat : Int) - i.toNat > 0x100) || (i > j && (i.toNat : Int) - j.toNat < 0x100))

/-! ## Seed ids -/

/-- `seed_id_net_to_host`. With `S` 1 the last byte stays what it was. -/
@[grind =]
def seedIdNetToHost (dst : SeedId) (src : Fin 16 → UInt8) (s : UInt8) : SeedId :=
  match s with
  | 0 => ⟨0, fun i => src i.rev⟩
  | 1 => ⟨1, fun i => if i.val = 0 then src 1 else if i.val = 1 then src 0 else if i.val < 15 then 0 else dst.id i⟩
  | 2 => ⟨2, fun i => if i.val < 8 then src ⟨7 - i.val, by omega⟩ else 0⟩
  | 3 => ⟨3, fun i => src i.rev⟩
  | _ => dst

/-- `seed_id_host_to_net` into a cleared field. -/
def seedIdHostToNet (src : SeedId) : Fin 16 → UInt8 :=
  match src.s with
  | 0 | 3 => fun i => src.id i.rev
  | 1 => fun i => if i.val = 0 then src.id 1 else if i.val = 1 then src.id 0 else 0
  | 2 => fun i => if i.val < 8 then src.id ⟨7 - i.val, by omega⟩ else 0
  | _ => fun _ => 0

/-! ## Multicast addresses -/

/-- `uip_mcast6_get_address_scope`. -/
def scope (a : Ipaddr) : UInt8 := a 1 &&& 0x0f

/-- `uip_is_addr_mcast_non_routable`. -/
def isMcastNonRoutable (a : Ipaddr) : Bool := a 0 = 0xff && scope a ≤ 2

/-- `UIP_ADDR_MAKE_LINK_LOCAL`. -/
def makeLinkLocal (a : Ipaddr) : Ipaddr := Function.update a 1 ((a 1 &&& 0xf0) ||| 2)

/-- The indices from the last one down. -/
def down (n : Nat) : List Nat := (List.range n).reverse

/-- `uip_ds6_maddr_lookup`. -/
def maddrLookup (c : Conf) (a : Ipaddr) (s : State) : Option Nat := (List.range c.maddrNb).find? fun i => s.maddrs i = some a

/-- `uip_ds6_maddr_add`: not when the address is there, into the last free element. -/
@[grind =]
def maddrAdd (c : Conf) (a : Ipaddr) (s : State) : Option State :=
  match maddrLookup c a s with
  | some _ => none
  | none => ((down c.maddrNb).find? fun i => s.maddrs i = none).map fun i =>
      { s with maddrs := Function.update s.maddrs i (some a) }

/-- `uip_ds6_maddr_rm` of the element found for an address. -/
def maddrRm (c : Conf) (a : Ipaddr) (s : State) : State :=
  match maddrLookup c a s with
  | some i => { s with maddrs := Function.update s.maddrs i none }
  | none => s

/-! ## Buffered messages and seeds -/

/-- `MSG_SET_IS_USED`, `SEED_SET_IS_USED` and `DOMAIN_SET_IS_USED`. -/
def Msg.used (m : Msg) : Bool := m.seed.isSome
def Seed.used (v : Seed) : Bool := v.domain.isSome
def Domain.used (v : Domain) : Bool := v.dataAddr 0 = 0xff

def bufferAllocate (c : Conf) (s : State) : Option Nat := (down c.bufferedMessageSetSize).find? fun k => !(s.msgs k).used

def bufferFree (k : Nat) (s : State) : State :=
  s.setMsg k { s.msgs k with tt := { (s.msgs k).tt with running := false }, seed := none }

/-- The largest seed set, as the loop of `buffer_reclaim` finds it from the element behind the last one down. -/
@[grind =]
def largest (c : Conf) (s : State) : Option Nat :=
  (down (c.seedSetSize + 1)).foldl (fun largest i =>
    if (s.seeds i).used && (match largest with
      | none => true
      | some l => (s.seeds i).count > (s.seeds l).count) then some i else largest) none

/-- `mpl_trickle_timer_reset` of a domain. -/
def domainTimerReset (d : Nat) (s : State) : State :=
  s.setDomain d { s.domains d with tt := { (s.domains d).tt with e := 0 } }

/-- `mpl_trickle_timer_reset(reclaim->seed->domain)`. -/
def reclaimTimerReset (k : Nat) (s : State) : State :=
  match (s.msgs k).seed.bind fun i => (s.seeds i).domain with
  | some d => domainTimerReset d s
  | none => { s with wild := true }

@[grind =]
def bufferReclaim (c : Conf) (s : State) : Option Nat × State :=
  let s := { s with outside := true }
  match largest c s with
  | none => (none, s)
  | some l =>
    if l = c.seedSetSize then (none, { s with wild := true })
    else match (s.seeds l).minSeq with
      | [] => (none, { s with wild := true })
      | reclaim :: rest =>
        let minSeqno := match rest with
          | [] => (s.msgs reclaim).seq
          | next :: _ => (s.msgs next).seq
        let s := s.setSeed l { s.seeds l with minSeq := rest, minSeqno := minSeqno, count := (s.seeds l).count - 1 }
        let s := reclaimTimerReset reclaim s
        (some reclaim, s.setMsg reclaim Msg.zero)

def seedSetLookup (c : Conf) (id : Fin 16 → UInt8) (d : Nat) (s : State) : Option Nat :=
  (down c.seedSetSize).find? fun i => (s.seeds i).used && (s.seeds i).seedId.id = id && (s.seeds i).domain = some d

def seedSetAllocate (c : Conf) (s : State) : Option Nat := (down c.seedSetSize).find? fun i => !(s.seeds i).used

def seedSetFree (i : Nat) (s : State) : State :=
  let s := { (s.seeds i).minSeq.foldl (fun s k => bufferFree k s) s with
    seeds := Function.update s.seeds i { s.seeds i with minSeq := [] } }
  s.setSeed i { s.seeds i with domain := none }

/-! ## Domains -/

def domainSetLookup (c : Conf) (a : Ipaddr) (s : State) : Option Nat :=
  (down c.domainSetSize).find? fun d => (s.domains d).used && (a = (s.domains d).dataAddr || a = (s.domains d).ctrlAddr)

/-- The data and control address of a domain; for a link-local address the data address is one of the
next three scopes that this node has subscribed to. -/
def domainAddrs (c : Conf) (a : Ipaddr) (s : State) : Option (Ipaddr × Ipaddr) :=
  if scope a = 2 then
    (([1, 2, 3].map fun k => Function.update a 1 (a 1 + k)).find? fun b => (maddrLookup c b s).isSome).map fun b => (b, a)
  else some (a, makeLinkLocal a)

def domainSetAllocate (c : Conf) (a : Ipaddr) (s : State) : Option Nat × State :=
  match domainAddrs c a s with
  | none => (none, s)
  | some (dataAddr, ctrlAddr) =>
    match (down c.domainSetSize).find? fun d => !(s.domains d).used with
    | none => (none, s)
    | some d =>
      match if (maddrLookup c ctrlAddr s).isSome then some s else maddrAdd c ctrlAddr s with
      | none => (none, s)
      | some s =>
        if c.controlTimerOk then (some d, s.setDomain d ⟨dataAddr, ctrlAddr, Timer.stopped⟩)
        else (none, s.setDomain d ⟨fun _ => 0, ctrlAddr, Timer.stopped⟩)

def domainSetFree (c : Conf) (d : Nat) (s : State) : State :=
  let s := { s with outside := true }
  let s := (down (c.seedSetSize + 1)).foldl (fun s i =>
    if (s.seeds i).used && (s.seeds i).domain = some d then
      if i = c.seedSetSize then { s with wild := true } else seedSetFree i s
    else s) s
  let s := maddrRm c (s.domains d).dataAddr s
  let s := maddrRm c (s.domains d).ctrlAddr s
  s.setDomain d { s.domains d with dataAddr := fun _ => 0, tt := { (s.domains d).tt with running := false } }

def mplMaddrCheck (c : Conf) (s : State) : State :=
  let s := (down c.maddrNb).foldl (fun s i =>
    match s.maddrs i with
    | some a => if scope a > 2 && domainSetLookup c a s = none then (domainSetAllocate c a s).2 else s
    | none => s) s
  (down c.domainSetSize).foldl (fun s d =>
    if (s.domains d).used && maddrLookup c (s.domains d).dataAddr s = none then domainSetFree c d s else s) s

/-- One seed in `lifetime_timer_expiration`. -/
def seedLifetime (i : Nat) (s : State) : State :=
  let s :=
    if (s.seeds i).used && (s.seeds i).lifetime = 0 && (s.seeds i).minSeq.all (fun k => !(s.msgs k).tt.running) then
      seedSetFree i s
    else s
  if (s.seeds i).lifetime > 0 then s.setSeed i { s.seeds i with lifetime := (s.seeds i).lifetime - 1 } else s

def lifetimeTimerExpiration (c : Conf) (s : State) : State :=
  mplMaddrCheck c ((down c.seedSetSize).foldl (fun s i => seedLifetime i s) s)

/-! ## Data messages -/

/-- `HBH_GET_S`, `HBH_GET_M` and `HBH_GET_V`. -/
def DataMsg.s (m : DataMsg) : UInt8 := (m.flags &&& 0xc0) >>> 6
def DataMsg.m (m : DataMsg) : Bool := m.flags &&& 0x20 = 0x20
def DataMsg.v (m : DataMsg) : Bool := m.flags &&& 0x10 = 0x10

/-- The checks at the head of `accept`. -/
def headerOk (c : Conf) (datagramIn : Bool) (m : DataMsg) : Bool :=
  !(c.ipv6Checks && (isMcastNonRoutable m.dest || m.src = fun _ => 0)) && !(m.srcIsMine && datagramIn) &&
    m.proto = 0 && m.optType = 0x6d && !m.v

def messageSeedId (m : DataMsg) (old : SeedId) : SeedId :=
  seedIdNetToHost old (if m.s = 0 then m.src else m.seedField) m.s

/-- The domain of a message, a new one if it is not known. -/
@[grind =]
def messageDomain (c : Conf) (a : Ipaddr) (s : State) : Option Nat × State :=
  match domainSetLookup c a s with
  | some d => (some d, s)
  | none =>
    match domainSetAllocate c a s with
    | (none, s) => (none, s)
    | (some d, s) => if c.controlTimerOk then (some d, s) else (none, domainSetFree c d s)

/-- A place for the message in the list of its seed, not the first one. -/
@[grind =]
def insertMsg (seq : Nat → UInt8) (k : Nat) : List Nat → List Nat
  | [] => []
  | [x] => [x, k]
  | x :: y :: l =>
    if seqValIsGt (seq k) (seq x) && seqValIsLt (seq k) (seq y) then x :: k :: y :: l
    else x :: insertMsg seq k (y :: l)

/-- The message after `k` in the list of a seed. -/
def listItemNext (k : Nat) : List Nat → Option Nat
  | [] => none
  | x :: l => if x = k then l.head? else listItemNext k l

/-- The message goes into the buffer `k` and into the list of the seed `i`. -/
def placeMessage (c : Conf) (m : DataMsg) (d i k : Nat) (s : State) : Verdict × State :=
  let s := s.setMsg k { s.msgs k with seq := m.seq, seed := some i }
  if !c.dataTimerOk then (.drop, bufferFree k s)
  else
    let s :=
      if (s.seeds i).minSeq = [] then s.setSeed i { s.seeds i with minSeq := [k], minSeqno := m.seq }
      else s.setSeed i { s.seeds i with minSeq := insertMsg (fun k => (s.msgs k).seq) k (s.seeds i).minSeq }
    let s := s.setSeed i { s.seeds i with count := (s.seeds i).count + 1 }
    let s := if c.proactiveForwarding then s.setMsg k { s.msgs k with tt := ⟨true, 0⟩ } else s
    let s := s.setSeed i { s.seeds i with lifetime := c.seedSetEntryLifetime }
    let s :=
      if c.controlMessageTimerExpirations > 0 then
        s.setDomain d { s.domains d with tt := ⟨true, 0⟩ }
      else s
    (.accept, s)

def bufferMessage (c : Conf) (m : DataMsg) (d i : Nat) (s : State) : Verdict × State :=
  match bufferAllocate c s with
  | some k => placeMessage c m d i k (s.setMsg k Msg.zero)
  | none =>
    match bufferReclaim c s with
    | (some k, s) => placeMessage c m d i k s
    | (none, s) => (.drop, s)

/-- A message that was seen before: only its timer changes. -/
def seenBefore (m : DataMsg) (i k : Nat) (s : State) : State :=
  if m.m && (listItemNext k (s.seeds i).minSeq).isSome then
    s.setMsg k { s.msgs k with tt := { (s.msgs k).tt with e := 0 } }
  else s

def accept (c : Conf) (datagramIn : Bool) (m : DataMsg) (s : State) : Verdict × State :=
  if !headerOk c datagramIn m then (.drop, s)
  else
    let seedId := messageSeedId m s.seedId
    let s := { s with seedId := seedId }
    match messageDomain c m.dest s with
    | (none, s) => (.drop, s)
    | (some d, s) =>
      match seedSetLookup c seedId.id d s with
      | some i =>
        if seqValIsLt m.seq (s.seeds i).minSeqno then (.drop, s)
        else match (s.seeds i).minSeq.find? fun k => m.seq = (s.msgs k).seq with
          | some k => (.drop, seenBefore m i k s)
          | none => bufferMessage c m d i s
      | none =>
        match seedSetAllocate c s with
        | none => (.drop, s)
        | some i => bufferMessage c m d i (s.setSeed i ⟨seedId, 0, 0, 0, [], some d⟩)

/-- `in`. -/
def mplIn (c : Conf) (m : DataMsg) (s : State) : Verdict × State :=
  if (maddrLookup c m.dest s).isNone then (.drop, s) else accept c true m s

/-- `update_seed_id` with MPL_SEED_ID_TYPE 0: the global address of the node, if it has one. -/
def updateSeedId (c : Conf) (global : Option Ipaddr) (s : State) : State :=
  if c.seedIdType = 0 then
    { s with localSeedId := global.map fun a => seedIdNetToHost ⟨0, fun _ => 0⟩ a 0 }
  else s

/-- The message that `out` makes of a packet from `src` to `dest`, if this node knows its seed id and the
packet fits the buffer with the new header. -/
def outMessage (c : Conf) (src dest : Ipaddr) (global : Option Ipaddr) (fits : Bool) (s : State) : Option DataMsg × State :=
  let s := if s.localSeedId.isNone then updateSeedId c global s else s
  match s.localSeedId with
  | none => (none, s)
  | some localId =>
    if !fits then (none, s)
    else
      let s := { s with lastSeq := (s.lastSeq + 1) % 0x100 }
      (some ⟨src, dest, true, 0, 0x6d, (c.seedIdType &&& 3) <<< 6 ||| 0x20, s.lastSeq.toUInt8, seedIdHostToNet localId⟩, s)

/-- `out`. -/
def mplOut (c : Conf) (src dest : Ipaddr) (global : Option Ipaddr) (fits : Bool) (s : State) : Verdict × State :=
  match outMessage c src dest global fits s with
  | (none, s) => (.drop, s)
  | (some m, s) => accept c false m s

/-- `init`: the cleared sets, over the addresses the node has subscribed to and what stands behind the seed set. -/
def mplInit (c : Conf) (localSeedId : Option SeedId) (maddrs : Nat → Option Ipaddr) (behind : Seed) : State :=
  mplMaddrCheck c
    { msgs := fun _ => Msg.zero
      seeds := Function.update (fun _ => ⟨⟨0, fun _ => 0⟩, 0, 0, 0, [], none⟩) c.seedSetSize behind
      domains := fun _ => ⟨fun _ => 0, fun _ => 0, Timer.stopped⟩
      maddrs := maddrs
      lastSeq := 0
      localSeedId := localSeedId
      seedId := ⟨0, fun _ => 0⟩
      outside := false
      wild := false }

end Contiki.Mpl

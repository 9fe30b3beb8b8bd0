/-
The message of coap.h and the setters of coap.c. Strings are whatever the message holds in their
place: their bytes in a message to be sent, a pointer into the packet and a length in a parsed one.
-/
import Mathlib.Tactic

namespace Contiki.Coap

section

/-- `coap_message_type_t`. -/
inductive MessageType
  | con
  | non
  | ack
  | rst
  deriving DecidableEq, Repr

def MessageType.bits : MessageType → Nat
  | .con => 0
  | .non => 1
  | .ack => 2
  | .rst => 3

def MessageType.ofBits : Nat → MessageType
  | 0 => .con
  | 1 => .non
  | 2 => .ack
  | _ => .rst

/-- `coap_option_t`. -/
inductive CoapOption
  | ifMatch
  | uriHost
  | etag
  | ifNoneMatch
  | observe
  | uriPort
  | locationPath
  | uriPath
  | contentFormat
  | maxAge
  | uriQuery
  | accept
  | locationQuery
  | block2
  | block1
  | size2
  | proxyUri
  | proxyScheme
  | size1
  deriving DecidableEq, Repr

namespace CoapOption

def number : CoapOption → Nat
  | ifMatch => 1
  | uriHost => 3
  | etag => 4
  | ifNoneMatch => 5
  | observe => 6
  | uriPort => 7
  | locationPath => 8
  | uriPath => 11
  | contentFormat => 12
  | maxAge => 14
  | uriQuery => 15
  | accept => 17
  | locationQuery => 20
  | block2 => 23
  | block1 => 27
  | size2 => 28
  | proxyUri => 35
  | proxyScheme => 39
  | size1 => 60

def all : List CoapOption :=
  [ifMatch, uriHost, etag, ifNoneMatch, observe, uriPort, locationPath, uriPath, contentFormat, maxAge,
    uriQuery, accept, locationQuery, block2, block1, size2, proxyUri, proxyScheme, size1]

/-- The case of a `switch` on an option number, or its default. -/
def ofNumber? (n : Nat) : Option CoapOption := all.find? fun o => o.number = n

@[simp] theorem ofNumber_number (o : CoapOption) : ofNumber? o.number = some o := by
  cases o <;> rfl

theorem number_inj {o o' : CoapOption} (h : o.number = o'.number) : o = o' := by
  have := ofNumber_number o
  rw [h, ofNumber_number] at this
  exact (Option.some.inj this).symm

theorem mem_all (o : CoapOption) : o ∈ all := by cases o <;> decide

theorem sorted_all : all.Pairwise fun o o' => o.number < o'.number := by decide

theorem number_le (o : CoapOption) : o.number ≤ 60 := by cases o <;> decide

end CoapOption

structure Block where
  num : UInt32
  more : UInt8
  size : UInt16
  offset : UInt32
  deriving DecidableEq

/-- `coap_message_t`: an array with its length is a list, the bitmap `options` a predicate. -/
structure Message (S : Type) where
  version : UInt8
  type : MessageType
  code : UInt8
  mid : UInt16
  token : List UInt8
  options : Nat → Bool
  contentFormat : UInt16
  maxAge : UInt32
  etag : List UInt8
  proxyUri : S
  proxyScheme : S
  uriHost : S
  locationPath : S
  uriPort : UInt16
  locationQuery : S
  uriPath : S
  observe : Int32
  accept : UInt16
  ifMatch : List UInt8
  block2 : Block
  block1 : Block
  size2 : UInt32
  size1 : UInt32
  uriQuery : S
  ifNoneMatch : UInt8
  payload : S

def Message.zero {S : Type} (empty : S) : Message S where
  version := 0
  type := .con
  code := 0
  mid := 0
  token := []
  options := fun _ => false
  contentFormat := 0
  maxAge := 0
  etag := []
  proxyUri := empty
  proxyScheme := empty
  uriHost := empty
  locationPath := empty
  uriPort := 0
  locationQuery := empty
  uriPath := empty
  observe := 0
  accept := 0
  ifMatch := []
  block2 := ⟨0, 0, 0, 0⟩
  block1 := ⟨0, 0, 0, 0⟩
  size2 := 0
  size1 := 0
  uriQuery := empty
  ifNoneMatch := 0
  payload := empty

def Message.map {S T : Type} (f : S → T) (m : Message S) : Message T where
  version := m.version
  type := m.type
  code := m.code
  mid := m.mid
  token := m.token
  options := m.options
  contentFormat := m.contentFormat
  maxAge := m.maxAge
  etag := m.etag
  proxyUri := f m.proxyUri
  proxyScheme := f m.proxyScheme
  uriHost := f m.uriHost
  locationPath := f m.locationPath
  uriPort := m.uriPort
  locationQuery := f m.locationQuery
  uriPath := f m.uriPath
  observe := m.observe
  accept := m.accept
  ifMatch := m.ifMatch
  block2 := m.block2
  block1 := m.block1
  size2 := m.size2
  size1 := m.size1
  uriQuery := f m.uriQuery
  ifNoneMatch := m.ifNoneMatch
  payload := f m.payload

/-- `coap_set_option`: nothing happens for a number above `COAP_OPTION_SIZE1`. -/
def coapSetOption {S : Type} (m : Message S) (opt : Nat) : Message S :=
  if opt > CoapOption.size1.number then m else { m with options := Function.update m.options opt true }

def coapIsOption {S : Type} (m : Message S) (opt : Nat) : Bool :=
  decide (opt ≤ CoapOption.size1.number) && m.options opt

/-! ## Sizes -/

def coapTokenLen : Nat := 8

def coapEtagLen : Nat := 8

/-- `COAP_MAX_HEADER_SIZE` and `COAP_MAX_CHUNK_SIZE`; the lengths of a message and of its payload are
`uint16_t`. -/
structure Sizes where
  maxHeaderSize : Nat
  maxChunkSize : Nat
  packet_lt : maxHeaderSize + maxChunkSize + 1 < 65536

/-! ## Setters -/

/-- A string of C: the terminator is not among its bytes. -/
structure CString where
  bytes : List UInt8
  no_nul : 0 ∉ bytes

def slash : UInt8 := 47
def questionMark : UInt8 := 63
def ampersand : UInt8 := 38

def coapInitMessage (type : MessageType) (code : UInt8) (mid : UInt16) : Message (List UInt8) :=
  { Message.zero [] with type := type, code := code, mid := mid }

/-- A call of a setter; there is none for Uri-Port, and Proxy-* is left out. -/
inductive Setter
  | statusCode (code : UInt32)
  | token (token : List UInt8)
  | contentFormat (format : UInt32)
  | accept (accept : UInt32)
  | maxAge (age : UInt32)
  | etag (etag : List UInt8)
  | ifMatch (etag : List UInt8)
  | ifNoneMatch
  | uriHost (host : CString)
  | uriPath (path : CString)
  | uriQuery (query : CString)
  | locationPath (path : CString)
  | locationQuery (query : CString)
  | observe (observe : UInt32)
  | block2 (num : UInt32) (more : UInt8) (size : UInt16)
  | block1 (num : UInt32) (more : UInt8) (size : UInt16)
  | size2 (size : UInt32)
  | size1 (size : UInt32)
  | payload (payload : List UInt8)

def coapSetStatusCode (m : Message (List UInt8)) (code : UInt32) : Message (List UInt8) :=
  if code ≤ 0xFF then { m with code := code.toUInt8 } else m

def coapSetToken (m : Message (List UInt8)) (token : List UInt8) : Message (List UInt8) :=
  { m with token := token.take coapTokenLen }

def coapSetHeaderLocationQuery (m : Message (List UInt8)) (query : List UInt8) : Message (List UInt8) :=
  coapSetOption { m with locationQuery := query.dropWhile (· = questionMark) } CoapOption.locationQuery.number

/-- `coap_set_header_location_path`: what follows the first question mark is the query. -/
def coapSetHeaderLocationPath (m : Message (List UInt8)) (path : List UInt8) : Message (List UInt8) :=
  let path := path.dropWhile (· = slash)
  let m := if questionMark ∈ path
    then coapSetHeaderLocationQuery m (path.dropWhile (· ≠ questionMark)).tail
    else m
  let m := { m with locationPath := path.takeWhile (· ≠ questionMark) }
  if m.locationPath.length > 0 then coapSetOption m CoapOption.locationPath.number else m

def blockAccepted (num : UInt32) (size : UInt16) : Prop :=
  ¬ size < 16 ∧ ¬ size > 2048 ∧ ¬ num > 0x0FFFFF

instance (num : UInt32) (size : UInt16) : Decidable (blockAccepted num size) := by
  unfold blockAccepted; infer_instance

def coapSetHeaderBlock2 (m : Message (List UInt8)) (num : UInt32) (more : UInt8) (size : UInt16) :
    Message (List UInt8) :=
  if blockAccepted num size then
    coapSetOption { m with block2 := ⟨num, if more ≠ 0 then 1 else 0, size, m.block2.offset⟩ }
      CoapOption.block2.number
  else m

/-- `coap_set_header_block1`: `more` is stored as it is. -/
def coapSetHeaderBlock1 (m : Message (List UInt8)) (num : UInt32) (more : UInt8) (size : UInt16) :
    Message (List UInt8) :=
  if blockAccepted num size then
    coapSetOption { m with block1 := ⟨num, more, size, m.block1.offset⟩ } CoapOption.block1.number
  else m

@[grind =]
def Setter.apply (z : Sizes) (m : Message (List UInt8)) : Setter → Message (List UInt8)
  | .statusCode v => coapSetStatusCode m v
  | .token v => coapSetToken m v
  | .contentFormat v => coapSetOption { m with contentFormat := v.toUInt16 } CoapOption.contentFormat.number
  | .accept v => coapSetOption { m with accept := v.toUInt16 } CoapOption.accept.number
  | .maxAge v => coapSetOption { m with maxAge := v } CoapOption.maxAge.number
  | .etag v => coapSetOption { m with etag := v.take coapEtagLen } CoapOption.etag.number
  | .ifMatch v => coapSetOption { m with ifMatch := v.take coapEtagLen } CoapOption.ifMatch.number
  | .ifNoneMatch => coapSetOption m CoapOption.ifNoneMatch.number
  | .uriHost v => coapSetOption { m with uriHost := v.bytes } CoapOption.uriHost.number
  | .uriPath v => coapSetOption { m with uriPath := v.bytes.dropWhile (· = slash) } CoapOption.uriPath.number
  | .uriQuery v =>
    coapSetOption { m with uriQuery := v.bytes.dropWhile (· = questionMark) } CoapOption.uriQuery.number
  | .locationPath v => coapSetHeaderLocationPath m v.bytes
  | .locationQuery v => coapSetHeaderLocationQuery m v.bytes
  | .observe v => coapSetOption { m with observe := v.toInt32 } CoapOption.observe.number
  | .block2 num more size => coapSetHeaderBlock2 m num more size
  | .block1 num more size => coapSetHeaderBlock1 m num more size
  | .size2 v => coapSetOption { m with size2 := v } CoapOption.size2.number
  | .size1 v => coapSetOption { m with size1 := v } CoapOption.size1.number
  | .payload v => { m with payload := v.take z.maxChunkSize }

def build (z : Sizes) (type : MessageType) (code : UInt8) (mid : UInt16) (sets : List Setter) :
    Message (List UInt8) :=
  sets.foldl (Setter.apply z) (coapInitMessage type code mid)

/-! ## What the setters keep -/

/-- What holds of every message built with the setters. -/
structure Built (z : Sizes) (m : Message (List UInt8)) : Prop where
  token : m.token.length ≤ coapTokenLen
  payload : m.payload.length ≤ z.maxChunkSize
  known : ∀ n, m.options n = true → ∃ o : CoapOption, o.number = n
  proxyUri : m.options CoapOption.proxyUri.number = false
  proxyScheme : m.options CoapOption.proxyScheme.number = false
  etag : m.etag.length ≤ coapEtagLen
  ifMatch : m.ifMatch.length ≤ coapEtagLen
  block2 : m.options CoapOption.block2.number = true →
    blockAccepted m.block2.num m.block2.size ∧ m.block2.more ≤ 1
  block1 : m.options CoapOption.block1.number = true → blockAccepted m.block1.num m.block1.size

theorem coapInit_built (z : Sizes) (type : MessageType) (code : UInt8) (mid : UInt16) :
    Built z (coapInitMessage type code mid) := by
  constructor <;> simp [coapInitMessage, Message.zero]

section

variable {z : Sizes} {m : Message (List UInt8)}

theorem Built.setOption (h : Built z m) (o : CoapOption) (hu : o ≠ .proxyUri) (hs : o ≠ .proxyScheme)
    (h2 : o = .block2 → blockAccepted m.block2.num m.block2.size ∧ m.block2.more ≤ 1)
    (h1 : o = .block1 → blockAccepted m.block1.num m.block1.size) : Built z (coapSetOption m o.number) := by
  have hle : ¬ o.number > CoapOption.size1.number := Nat.not_lt.2 o.number_le
  have hne : ∀ o' : CoapOption, o ≠ o' → Function.update m.options o.number true o'.number = m.options o'.number :=
    fun o' hoo => Function.update_of_ne (fun he => hoo (CoapOption.number_inj he.symm)) ..
  unfold coapSetOption
  rw [if_neg hle]
  constructor
  case token => exact h.token
  case payload => exact h.payload
  case known =>
    intro n hn
    by_cases hno : n = o.number
    · exact ⟨o, hno.symm⟩
    · simp only [Function.update_of_ne hno] at hn
      exact h.known n hn
  case proxyUri => exact (hne _ hu).trans h.proxyUri
  case proxyScheme => exact (hne _ hs).trans h.proxyScheme
  case etag => exact h.etag
  case ifMatch => exact h.ifMatch
  case block2 =>
    intro hb
    by_cases ho : o = .block2
    · exact h2 ho
    · simp only [hne _ ho] at hb
      exact h.block2 hb
  case block1 =>
    intro hb
    by_cases ho : o = .block1
    · exact h1 ho
    · simp only [hne _ ho] at hb
      exact h.block1 hb

theorem locationQuery_built (h : Built z m) (query : List UInt8) : Built z (coapSetHeaderLocationQuery m query) := by
  unfold coapSetHeaderLocationQuery
  apply Built.setOption
  · exact ⟨h.token, h.payload, h.known, h.proxyUri, h.proxyScheme, h.etag, h.ifMatch, h.block2, h.block1⟩
  all_goals simp

theorem locationPath_built (h : Built z m) (path : List UInt8) : Built z (coapSetHeaderLocationPath m path) := by
  -- the query first, then the path
  have hpath : ∀ (m' : Message (List UInt8)) (l : List UInt8), Built z m' →
      Built z { m' with locationPath := l } := fun m' l h' =>
    ⟨h'.token, h'.payload, h'.known, h'.proxyUri, h'.proxyScheme, h'.etag, h'.ifMatch, h'.block2, h'.block1⟩
  have hset : ∀ m' : Message (List UInt8), Built z m' →
      Built z (if m'.locationPath.length > 0 then coapSetOption m' CoapOption.locationPath.number else m') := by
    intro m' h'
    split
    · exact h'.setOption _ (by simp) (by simp) (by simp) (by simp)
    · exact h'
  unfold coapSetHeaderLocationPath
  apply hset
  apply hpath
  split
  · exact locationQuery_built h _
  · exact h

theorem apply_built (h : Built z m) (s : Setter) : Built z (s.apply z m) := by
  cases s
  case statusCode code =>
    simp only [Setter.apply, coapSetStatusCode]
    split
    · exact ⟨h.token, h.payload, h.known, h.proxyUri, h.proxyScheme, h.etag, h.ifMatch, h.block2, h.block1⟩
    · exact h
  case token token =>
    exact ⟨by simp [Setter.apply, coapSetToken], h.payload, h.known, h.proxyUri, h.proxyScheme, h.etag,
      h.ifMatch, h.block2, h.block1⟩
  case payload payload =>
    exact ⟨h.token, by simp [Setter.apply], h.known, h.proxyUri, h.proxyScheme, h.etag, h.ifMatch, h.block2,
      h.block1⟩
  case locationPath path => exact locationPath_built h path.bytes
  case locationQuery query => exact locationQuery_built h query.bytes
  case block2 num more size =>
    simp only [Setter.apply, coapSetHeaderBlock2]
    split
    case isTrue ha =>
      -- the block option may be unset before: the fields are the new ones
      have hmore : (if more ≠ 0 then 1 else 0 : UInt8) ≤ 1 := by split <;> decide
      have hb : Built z { m with block2 := ⟨num, if more ≠ 0 then 1 else 0, size, m.block2.offset⟩ } :=
        ⟨h.token, h.payload, h.known, h.proxyUri, h.proxyScheme, h.etag, h.ifMatch, fun _ => ⟨ha, hmore⟩,
          h.block1⟩
      exact hb.setOption _ (by simp) (by simp) (fun _ => ⟨ha, hmore⟩) (by simp)
    case isFalse => exact h
  case block1 num more size =>
    simp only [Setter.apply, coapSetHeaderBlock1]
    split
    case isTrue ha =>
      have hb : Built z { m with block1 := ⟨num, more, size, m.block1.offset⟩ } :=
        ⟨h.token, h.payload, h.known, h.proxyUri, h.proxyScheme, h.etag, h.ifMatch, h.block2, fun _ => ha⟩
      exact hb.setOption _ (by simp) (by simp) (by simp) (fun _ => ha)
    case isFalse => exact h
  case etag etag =>
    refine Built.setOption ?_ _ (by simp) (by simp) (by simp) (by simp)
    exact ⟨h.token, h.payload, h.known, h.proxyUri, h.proxyScheme, by simp, h.ifMatch, h.block2, h.block1⟩
  case ifMatch etag =>
    refine Built.setOption ?_ _ (by simp) (by simp) (by simp) (by simp)
    exact ⟨h.token, h.payload, h.known, h.proxyUri, h.proxyScheme, h.etag, by simp, h.block2, h.block1⟩
  all_goals
    -- the fields that are written carry no condition
    refine Built.setOption ?_ _ (by simp) (by simp) (by simp) (by simp)
    exact ⟨h.token, h.payload, h.known, h.proxyUri, h.proxyScheme, h.etag, h.ifMatch, h.block2, h.block1⟩

theorem build_built (z : Sizes) (type : MessageType) (code : UInt8) (mid : UInt16) :
    ∀ sets : List Setter, Built z (build z type code mid sets) := by
  have key : ∀ (sets : List Setter) (m : Message (List UInt8)), Built z m →
      Built z (sets.foldl (Setter.apply z) m) := by
    intro sets
    induction sets with
    | nil => exact fun m hm => hm
    | cons s sets ih => exact fun m hm => ih _ (apply_built hm s)
  exact fun sets => key sets _ (coapInit_built z type code mid)

end

end

/-!
The encoder of coap.c: option headers, integer, array and block options, and the whole message. A
message without empty segments is its header, the options that are set in the order of their numbers,
one after the other with their parts, and the payload behind its marker.
-/

section

/-! ## Options -/

/-- `coap_log_2`: the `do` loop, which ends within the 16 bits of the value. -/
def coapLog2Loop : Nat → UInt16 → UInt16 → UInt16
  | 0, _, result => result
  | n + 1, value, result =>
    let value := value >>> 1
    let result := result + 1
    if value ≠ 0 then coapLog2Loop n value result else result

def coapLog2 (value : UInt16) : UInt16 :=
  let result := coapLog2Loop 16 value 0
  if result ≠ 0 then result - 1 else result

def coapOptionNibble (value : Nat) : UInt8 :=
  if value < 13 then UInt8.ofNat value else if value ≤ 0xFF + 13 then 13 else 14

/-- The extension bytes of a delta or a length. -/
def optionExtension (value : Nat) : List UInt8 :=
  if value > 268 then [UInt8.ofNat ((value - 269) >>> 8), UInt8.ofNat (value - 269)]
  else if value > 12 then [UInt8.ofNat (value - 13)]
  else []

def coapSetOptionHeader (delta length : Nat) : List UInt8 :=
  (coapOptionNibble delta <<< 4 ||| coapOptionNibble length) :: (optionExtension delta ++ optionExtension length)

def intBytes (value : UInt32) : List UInt8 :=
  (if 0xFF000000 &&& value ≠ 0 then [(value >>> 24).toUInt8] else []) ++
  (if 0xFFFF0000 &&& value ≠ 0 then [(value >>> 16).toUInt8] else []) ++
  (if 0xFFFFFF00 &&& value ≠ 0 then [(value >>> 8).toUInt8] else []) ++
  (if 0xFFFFFFFF &&& value ≠ 0 then [value.toUInt8] else [])

def coapSerializeIntOption (number currentNumber : Nat) (value : UInt32) : List UInt8 :=
  let i := (if 0xFF000000 &&& value ≠ 0 then 1 else 0) + (if 0xFFFF0000 &&& value ≠ 0 then 1 else 0) +
    (if 0xFFFFFF00 &&& value ≠ 0 then 1 else 0) + (if 0xFFFFFFFF &&& value ≠ 0 then 1 else 0)
  coapSetOptionHeader (number - currentNumber) i ++ intBytes value

/-- The loop of `coap_serialize_array_option` for a split character. After a part `j` moves on twice,
over the splitter and over the first byte of the next part. -/
@[grind =]
def splitOptionLoop (number : Nat) (array : List UInt8) (splitChar : UInt8) (j partStart currentNumber : Nat) :
    List UInt8 :=
  if j ≤ array.length + 1 then
    if array[j]? = some splitChar ∨ j = array.length then
      coapSetOptionHeader (number - currentNumber) (j - partStart) ++
        (array.drop partStart).take (j - partStart) ++
        splitOptionLoop number array splitChar (j + 2) (j + 1) number
    else splitOptionLoop number array splitChar (j + 1) partStart currentNumber
  else []
termination_by array.length + 2 - j

def coapSerializeArrayOption (number currentNumber : Nat) (array : List UInt8) (splitChar : Option UInt8) :
    List UInt8 :=
  match splitChar with
  | some c => splitOptionLoop number array c 0 0 currentNumber
  | none => coapSetOptionHeader (number - currentNumber) array.length ++ array

/-! ## Messages -/

/-- The bytes behind the token and `current_number`. -/
structure Out where
  bytes : List UInt8
  currentNumber : Nat

/-- `COAP_SERIALIZE_INT_OPTION`. -/
def Out.intOption (m : Message (List UInt8)) (o : CoapOption) (field : UInt32) (out : Out) : Out :=
  if coapIsOption m o.number then
    ⟨out.bytes ++ coapSerializeIntOption o.number out.currentNumber field, o.number⟩
  else out

/-- `COAP_SERIALIZE_BYTE_OPTION` and `COAP_SERIALIZE_STRING_OPTION`. -/
def Out.arrayOption (m : Message (List UInt8)) (o : CoapOption) (field : List UInt8) (splitter : Option UInt8)
    (out : Out) : Out :=
  if coapIsOption m o.number then
    ⟨out.bytes ++ coapSerializeArrayOption o.number out.currentNumber field splitter, o.number⟩
  else out

def Block.pack (b : Block) : UInt32 :=
  let block := b.num <<< 4
  let block := if b.more ≠ 0 then block ||| 0x8 else block
  block ||| (0xF &&& (coapLog2 (b.size / 16)).toUInt32)

/-- `COAP_SERIALIZE_BLOCK_OPTION`. -/
def Out.blockOption (m : Message (List UInt8)) (o : CoapOption) (field : Block) (out : Out) : Out :=
  if coapIsOption m o.number then
    ⟨out.bytes ++ coapSerializeIntOption o.number out.currentNumber field.pack, o.number⟩
  else out

def serializeOptions (m : Message (List UInt8)) : Out :=
  (⟨[], 0⟩ : Out)
    |>.arrayOption m .ifMatch m.ifMatch none
    |>.arrayOption m .uriHost m.uriHost none
    |>.arrayOption m .etag m.etag none
    |>.intOption m .ifNoneMatch (m.contentFormat - m.contentFormat).toUInt32
    |>.intOption m .observe m.observe.toUInt32
    |>.intOption m .uriPort m.uriPort.toUInt32
    |>.arrayOption m .locationPath m.locationPath (some slash)
    |>.arrayOption m .uriPath m.uriPath (some slash)
    |>.intOption m .contentFormat m.contentFormat.toUInt32
    |>.intOption m .maxAge m.maxAge
    |>.arrayOption m .uriQuery m.uriQuery (some ampersand)
    |>.intOption m .accept m.accept.toUInt32
    |>.arrayOption m .locationQuery m.locationQuery (some ampersand)
    |>.blockOption m .block2 m.block2
    |>.blockOption m .block1 m.block1
    |>.intOption m .size2 m.size2
    |>.arrayOption m .proxyUri m.proxyUri none
    |>.arrayOption m .proxyScheme m.proxyScheme none
    |>.intOption m .size1 m.size1

def headerBytes (m : Message (List UInt8)) : List UInt8 :=
  [((0xC0 : UInt8) &&& ((1 : UInt8) <<< 6)) |||
      ((0x30 : UInt8) &&& (UInt8.ofNat m.type.bits <<< 4)) ||| ((0x0F : UInt8) &&& UInt8.ofNat m.token.length),
    m.code, (m.mid >>> 8).toUInt8, m.mid.toUInt8]

/-- `coap_serialize_message`: nothing when 0 is returned. -/
def coapSerializeMessage (z : Sizes) (m : Message (List UInt8)) : Option (List UInt8) :=
  if m.code = 0 then some (headerBytes m)
  else
    let header := headerBytes m ++ m.token ++ (serializeOptions m).bytes
    if header.length ≤ z.maxHeaderSize then
      some (header ++ (if m.payload.length ≠ 0 then [0xFF] else []) ++ m.payload)
    else none

/-! ## What is written -/

def tlv (delta : Nat) (value : List UInt8) : List UInt8 := coapSetOptionHeader delta value.length ++ value

@[grind =]
def tlvs (number : Nat) : Nat → List (List UInt8) → List UInt8
  | _, [] => []
  | current, p :: ps => tlv (number - current) p ++ tlvs number number ps

theorem intOption_eq (number currentNumber : Nat) (value : UInt32) :
    coapSerializeIntOption number currentNumber value = tlv (number - currentNumber) (intBytes value) := by
  unfold coapSerializeIntOption tlv
  simp only [intBytes, List.length_append]
  have hlen : ∀ (p : Prop) [Decidable p] (b : UInt8), (if p then [b] else []).length = if p then 1 else 0 := by
    intro p _ b
    split <;> rfl
  simp only [hlen]

theorem splitOptionLoop_eq (number : Nat) (c : UInt8) (pre cur rest : List UInt8) (currentNumber : Nat)
    (hcur : c ∉ cur) (hne : ∀ s ∈ (cur ++ rest).splitOn c, s ≠ []) :
    splitOptionLoop number (pre ++ cur ++ rest) c (pre.length + cur.length) pre.length currentNumber =
      tlvs number currentNumber ((cur ++ rest).splitOn c) := by
  have hpart : ∀ pre cur tail : List UInt8, ((pre ++ cur ++ tail).drop pre.length).take (pre.length + cur.length - pre.length) = cur := by
    intro tail
    simp [List.append_assoc]
  induction hn : rest.length using Nat.strong_induction_on generalizing pre cur rest currentNumber with
  | _ n ih =>
  rw [splitOptionLoop, if_pos (by simp; omega)]
  cases rest with
  | nil =>
    -- the end of the last part
    rw [if_pos (by simp), hpart pre cur, splitOptionLoop, if_neg (by simp), List.append_nil, List.append_nil,
      List.splitOn_eq_singleton hcur]
    simp [tlvs, tlv]
  | cons b rest =>
    by_cases hb : b = c
    · subst hb
      rw [List.splitOn_append_cons_self_of_not_mem hcur] at hne ⊢
      rw [if_pos (by simp [List.append_assoc]), hpart pre cur]
      -- the next part has a first byte, and it is no splitter
      have hrest : ∀ s ∈ rest.splitOn b, s ≠ [] := fun s hs => hne s (List.mem_cons_of_mem _ hs)
      cases rest with
      | nil => exact absurd rfl (hrest [] (by simp))
      | cons d rest =>
        have hd : d ≠ b := by
          rintro rfl
          rw [List.splitOn_cons_eq_if_modifyHead] at hrest
          exact hrest [] (by simp) rfl
        have := ih rest.length (by simp at hn; omega) (pre ++ cur ++ [b]) [d] rest number
          (by simpa using Ne.symm hd) (by simpa using hrest) rfl
        simp only [List.append_assoc, List.cons_append, List.nil_append, List.length_append,
          List.length_cons, List.length_nil] at this ⊢
        rw [tlvs, tlv, ← this]
        simp [Nat.add_assoc]
    · rw [if_neg (by simp [List.append_assoc, hb])]
      have := ih rest.length (by simp at hn; omega) pre (cur ++ [b]) rest currentNumber
        (by simp [hcur, Ne.symm hb]) (by simpa using hne) rfl
      simpa [Nat.add_assoc] using this

theorem splitOption_eq (number currentNumber : Nat) (array : List UInt8) (c : UInt8)
    (hne : array = [] ∨ ∀ s ∈ array.splitOn c, s ≠ []) :
    coapSerializeArrayOption number currentNumber array (some c) = tlvs number currentNumber (array.splitOn c) := by
  show splitOptionLoop number array c 0 0 currentNumber = _
  rcases hne with rfl | hne
  · rw [splitOptionLoop, if_pos (by simp), if_pos (by simp), splitOptionLoop, if_neg (by simp)]
    simp [tlvs, tlv]
  · exact splitOptionLoop_eq number c [] [] array currentNumber (by simp) hne

end

end Contiki.Coap

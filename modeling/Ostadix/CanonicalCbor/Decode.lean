import Ostadix.CanonicalCbor.Value

/-! # The bounded and unbounded decoders

The decoder's `payload` and `offset` are modelled by the bytes not read yet. A slice is shorter
than `2 ^ 63`, so the offset of the source never overflows. -/

namespace Ostadix.CanonicalCbor

open Ostadix.Lib

structure DecodeLimits where
  maxBytes : Nat
  maxItems : Nat
  maxDepth : Nat
deriving DecidableEq

inductive DecodeError where
  | payloadTooLong (length maximum : Nat)
  | trailingBytes (count : Nat)
  | nestingDepth (depth maximum : Nat)
  | itemCounterOverflow
  | itemCount (maximum : Nat)
  | declaredLength (kind : String) (len maximumFromInput : Nat)
  | itemBudget (kind : String) (len remainingItems : Nat)
  | negativeOutOfRange
  | invalidUtf8
  | keyNotText
  | unsupportedMajor (major : UInt8)
  | unsupportedSimple (additional : UInt8)
  | nonFiniteF32
  | nonFiniteF64
  | indefiniteLength
  | invalidLength (additional : UInt8)
  | unexpectedEnd
  | outOfFuel
deriving DecidableEq

def DecodeError.message : DecodeError → String
  | payloadTooLong length maximum =>
      s!"canonical payload has {length} bytes; bounded maximum is {maximum}"
  | trailingBytes count => s!"wire payload has {count} trailing bytes"
  | nestingDepth depth maximum =>
      s!"canonical payload nesting depth {depth} exceeds bounded maximum {maximum}"
  | itemCounterOverflow => "canonical payload item counter overflow"
  | itemCount maximum => s!"canonical payload item count exceeds bounded maximum {maximum}"
  | declaredLength kind len maximumFromInput =>
      s!"canonical {kind} declares {len} items/bytes but at most {maximumFromInput} fit in the remaining payload"
  | itemBudget kind len remainingItems =>
      s!"canonical {kind} length {len} exceeds the bounded remaining item budget {remainingItems}"
  | negativeOutOfRange => "negative integer is outside JSON-compatible i64 range"
  | invalidUtf8 => "wire text string is not valid UTF-8"
  | keyNotText => "wire map key is not a text string"
  | unsupportedMajor major => s!"unsupported CBOR major type {major} in wire payload"
  | unsupportedSimple additional => s!"unsupported CBOR simple value {additional} in wire payload"
  | nonFiniteF32 => "non-finite f32"
  | nonFiniteF64 => "non-finite f64"
  | indefiniteLength => "indefinite-length CBOR is not allowed on the O wire"
  | invalidLength additional => s!"invalid CBOR length discriminator {additional}"
  | unexpectedEnd => "unexpected end of wire payload"
  | outOfFuel => ""

structure CborDecoder where
  payload : Bytes
  limits : Option DecodeLimits
  decodedItems : Nat

/-- A decoded result with the decoder that continues after it. -/
abbrev Decoded (α : Type) := α × CborDecoder

def CborDecoder.new (payload : Bytes) : CborDecoder :=
  ⟨payload, none, 0⟩

def CborDecoder.newBounded (payload : Bytes) (limits : DecodeLimits) : CborDecoder :=
  ⟨payload, some limits, 0⟩

def finish (decoder : CborDecoder) : Except DecodeError Unit :=
  if decoder.payload.length = 0 then .ok () else .error (.trailingBytes decoder.payload.length)

/-! ## Reading bytes -/

def readU8 (decoder : CborDecoder) : Except DecodeError (Decoded UInt8) :=
  match decoder.payload with
  | [] => .error .unexpectedEnd
  | byte :: rest => .ok (byte, { decoder with payload := rest })

def readBytes (len : Nat) (decoder : CborDecoder) : Except DecodeError (Decoded Bytes) :=
  if decoder.payload.length < len then .error .unexpectedEnd
  else .ok (decoder.payload.take len, { decoder with payload := decoder.payload.drop len })

def readLen (additional : UInt8) (decoder : CborDecoder) : Except DecodeError (Decoded Nat) :=
  if additional ≤ 23 then .ok (additional.toNat, decoder)
  else if additional = 24 then do
    let (byte, decoder) ← readU8 decoder
    return (byte.toNat, decoder)
  else if additional = 25 then do
    let (bytes, decoder) ← readBytes 2 decoder
    return (ofBigEndian bytes, decoder)
  else if additional = 26 then do
    let (bytes, decoder) ← readBytes 4 decoder
    return (ofBigEndian bytes, decoder)
  else if additional = 27 then do
    let (bytes, decoder) ← readBytes 8 decoder
    return (ofBigEndian bytes, decoder)
  else if additional = 31 then .error .indefiniteLength
  else .error (.invalidLength additional)

/-! ## The item budget -/

/-- Charge `count` items: the shared tail of `note_item` and `reserve_embedded_items`. -/
def chargeItems (limits : DecodeLimits) (count : Nat) (decoder : CborDecoder) :
    Except DecodeError CborDecoder :=
  let decodedItems := decoder.decodedItems + count
  if 2 ^ 64 ≤ decodedItems then .error .itemCounterOverflow
  else if limits.maxItems < decodedItems then .error (.itemCount limits.maxItems)
  else .ok { decoder with decodedItems }

def noteItem (depth : Nat) (decoder : CborDecoder) : Except DecodeError CborDecoder :=
  match decoder.limits with
  | none => .ok decoder
  | some limits =>
      if limits.maxDepth < depth then .error (.nestingDepth depth limits.maxDepth)
      else chargeItems limits 1 decoder

def reserveEmbeddedItems (count : Nat) (decoder : CborDecoder) : Except DecodeError CborDecoder :=
  match decoder.limits with
  | none => .ok decoder
  | some limits => chargeItems limits count decoder

def readSizedLen (additional : UInt8) (kind : String) (minimumBytesPerItem : Nat)
    (decoder : CborDecoder) : Except DecodeError (Decoded Nat) := do
  let (len, decoder) ← readLen additional decoder
  let maximumFromInput := decoder.payload.length / minimumBytesPerItem
  if maximumFromInput < len then
    throw (.declaredLength kind len maximumFromInput)
  match decoder.limits with
  | none => return (len, decoder)
  | some limits =>
      let remainingItems := limits.maxItems - decoder.decodedItems
      if remainingItems < len then throw (.itemBudget kind len remainingItems)
      return (len, decoder)

/-! ## Numbers and simple values -/

/-- The binary64 bits of a binary32 value: the exact widening `as f64`. -/
def widenF32 (bits : Nat) : UInt64 :=
  let sign := bits / 2 ^ 31 % 2
  let exponent := bits / 2 ^ 23 % 2 ^ 8
  let mantissa := bits % 2 ^ 23
  let magnitude :=
    if exponent = 0xff then 0x7ff * 2 ^ 52 + mantissa * 2 ^ 29
    else if exponent ≠ 0 then (exponent + 896) * 2 ^ 52 + mantissa * 2 ^ 29
    else if mantissa = 0 then 0
    else
      -- a subnormal binary32 is a normal binary64: its leading bit becomes implicit
      let lead := mantissa.log2
      (lead + 874) * 2 ^ 52 + (mantissa - 2 ^ lead) * 2 ^ (52 - lead)
  UInt64.ofNat (sign * 2 ^ 63 + magnitude)

def Number.fromF64 (bits : UInt64) : Option Number :=
  if finite : bits.toNat / 2 ^ 52 % 2 ^ 11 ≠ 0x7ff then some (.float ⟨bits, finite⟩) else none

def Number.fromNegative (raw : Nat) : Option Number :=
  if lower : -2 ^ 63 ≤ -1 - (raw : Int) then some (.negInt ⟨-1 - raw, lower, by omega⟩) else none

def decodeSimple (additional : UInt8) (decoder : CborDecoder) : Except DecodeError (Decoded Value) :=
  if additional = 20 then .ok (.bool false, decoder)
  else if additional = 21 then .ok (.bool true, decoder)
  else if additional = 22 then .ok (.null, decoder)
  else if additional = 26 then do
    let (bytes, decoder) ← readBytes 4 decoder
    match Number.fromF64 (widenF32 (ofBigEndian bytes)) with
    | some number => return (.number number, decoder)
    | none => throw .nonFiniteF32
  else if additional = 27 then do
    let (bytes, decoder) ← readBytes 8 decoder
    match Number.fromF64 (UInt64.ofNat (ofBigEndian bytes)) with
    | some number => return (.number number, decoder)
    | none => throw .nonFiniteF64
  else .error (.unsupportedSimple additional)

/-! ## Values -/

/-- Read `count` array items with the decoder of one item. -/
def decodeItems (decodeOne : CborDecoder → Except DecodeError (Decoded Value)) :
    Nat → CborDecoder → Except DecodeError (Decoded (List Value))
  | 0, decoder => .ok ([], decoder)
  | count + 1, decoder => do
      let (item, decoder) ← decodeOne decoder
      let (items, decoder) ← decodeItems decodeOne count decoder
      return (item :: items, decoder)

/-- `Map::insert`: a known key keeps its place and takes the new value. -/
def insertMember (key : String) (value : Value) :
    List (String × Value) → List (String × Value)
  | [] => [(key, value)]
  | (other, old) :: members =>
      if other = key then (key, value) :: members
      else (other, old) :: insertMember key value members

/-- Read `count` members into `map` with the decoder of one item. -/
def decodeMembers (decodeOne : CborDecoder → Except DecodeError (Decoded Value)) :
    Nat → List (String × Value) → CborDecoder → Except DecodeError (Decoded (List (String × Value)))
  | 0, map, decoder => .ok (map, decoder)
  | count + 1, map, decoder => do
      let (key, decoder) ← decodeOne decoder
      let .string key := key | throw .keyNotText
      let (value, decoder) ← decodeOne decoder
      decodeMembers decodeOne count (insertMember key value map) decoder

/-- The body of one data item after its initial byte; `decodeNested` reads an item one level
deeper. -/
def decodeBody (decodeNested : CborDecoder → Except DecodeError (Decoded Value)) (initial : UInt8)
    (decoder : CborDecoder) : Except DecodeError (Decoded Value) :=
  let major := initial >>> 5
  let additional := initial &&& 0x1f
  if major = 0 then do
    let (raw, decoder) ← readLen additional decoder
    return (.number (.posInt (UInt64.ofNat raw)), decoder)
  else if major = 1 then do
    let (raw, decoder) ← readLen additional decoder
    match Number.fromNegative raw with
    | some number => return (.number number, decoder)
    | none => throw .negativeOutOfRange
  else if major = 2 then do
    let (len, decoder) ← readSizedLen additional "byte string" 1 decoder
    let decoder ← reserveEmbeddedItems len decoder
    let (bytes, decoder) ← readBytes len decoder
    return (.array (bytes.map fun byte => .number (.posInt (UInt64.ofNat byte.toNat))), decoder)
  else if major = 3 then do
    let (len, decoder) ← readSizedLen additional "text string" 1 decoder
    let (bytes, decoder) ← readBytes len decoder
    match fromUtf8 bytes with
    | some text => return (.string text, decoder)
    | none => throw .invalidUtf8
  else if major = 4 then do
    let (len, decoder) ← readSizedLen additional "array" 1 decoder
    let (items, decoder) ← decodeItems decodeNested len decoder
    return (.array items, decoder)
  else if major = 5 then do
    let (len, decoder) ← readSizedLen additional "map" 2 decoder
    let (members, decoder) ← decodeMembers decodeNested len [] decoder
    return (.object members, decoder)
  else if major = 7 then decodeSimple additional decoder
  else .error (.unsupportedMajor major)

/-- A part that may be missing makes a value. -/
def orFail {α : Type} (make : α → Value) (error : DecodeError) (found : Option α)
    (decoder : CborDecoder) : Except DecodeError (Decoded Value) :=
  match found with
  | some part => .ok (make part, decoder)
  | none => .error error

section Found

variable {e : DecodeError}

-- `f` and `g` are instantiated by constants: the kernel must not evaluate a conversion
theorem bind_float {first : Except DecodeError (Decoded Bytes)} (f : UInt64 → Option Number)
    (g : Nat → UInt64) :
    (do
      let (bytes, decoder) ← first
      match f (g (ofBigEndian bytes)) with
      | some num => return (.number num, decoder)
      | none => throw e : Except DecodeError (Decoded Value)) =
    first >>= fun p => orFail .number e (f (g (ofBigEndian p.1))) p.2 := by
  congr 1
  funext ⟨x, _⟩
  cases h : f (g (ofBigEndian x)) <;> simp only [h, orFail] <;> rfl

theorem bind_negative {first : Except DecodeError (Decoded Nat)} (f : Nat → Option Number) : (do
      let (raw, decoder) ← first
      match f raw with
      | some num => return (.number num, decoder)
      | none => throw e : Except DecodeError (Decoded Value)) =
    first >>= fun p => orFail .number e (f p.1) p.2 := by
  congr 1
  funext ⟨x, _⟩
  cases h : f x <;> simp only [h, orFail] <;> rfl

theorem bind_text {first : Except DecodeError (Decoded Bytes)} (f : Bytes → Option String) : (do
      let (bytes, decoder) ← first
      match f bytes with
      | some text => return (.string text, decoder)
      | none => throw e : Except DecodeError (Decoded Value)) =
    first >>= fun p => orFail .string e (f p.1) p.2 := by
  congr 1
  funext ⟨x, _⟩
  cases h : f x <;> simp only [h, orFail] <;> rfl

end Found

/-- One data item. Each nested item follows at least one byte of its parent, so a fuel above
the number of unread bytes is never used up. -/
def decodeValueAtDepth : Nat → Nat → CborDecoder → Except DecodeError (Decoded Value)
  | 0, _, _ => .error .outOfFuel
  | fuel + 1, depth, decoder => do
      let decoder ← noteItem depth decoder
      let (initial, decoder) ← readU8 decoder
      decodeBody (decodeValueAtDepth fuel (depth + 1)) initial decoder

/-- Decode one item and require that nothing follows it. -/
def decodeWhole (decoder : CborDecoder) : Except DecodeError Value := do
  let (value, decoder) ← decodeValueAtDepth (decoder.payload.length + 1) 0 decoder
  finish decoder
  return value

def decode (payload : Bytes) : Except DecodeError Value :=
  decodeWhole (.new payload)

def decodeBounded (payload : Bytes) (limits : DecodeLimits) : Except DecodeError Value :=
  if limits.maxBytes < payload.length then
    .error (.payloadTooLong payload.length limits.maxBytes)
  else decodeWhole (.newBounded payload limits)

end Ostadix.CanonicalCbor

import Ostadix.World.Value

/-! # The canonical wire encoding of portable values

Encoders return the bytes they append to the output. The count of nodes, which the source keeps
in its encode and decode states, is passed along and returned. -/

namespace Ostadix.World

open Lib

/-! ## Encoding -/

/-- `enter_encode_node` and the beginning of `take_node` -/
def enterNode (depth nodes : Nat) : ValueResult Nat := do
  bailIf (maxOvalueDepth < depth) (.depthLimit depth maxOvalueDepth)
  bailIf (maxOvalueNodes < nodes + 1) (.nodeLimit (nodes + 1) maxOvalueNodes)
  return nodes + 1

/-- The header that `begin_node` leaves open, with the length that `finish_node` puts in. -/
def finishNode (tag : UInt16) (payload : Bytes) : ValueResult Bytes := do
  let total := ovalueNodeHeaderBytes + payload.length
  bailIf (2 ^ 32 ≤ total) (.recordTooLarge total maxOvalueRecordBytes)
  return putU16 tag ++ putU16 0 ++ putU32 (.ofNat total) ++ payload

def encodeNodeOf (tag : ValueResult NodeTag) (payload : Nat → ValueResult (Bytes × Nat))
    (depth nodes : Nat) : ValueResult (Bytes × Nat) := do
  let nodes ← enterNode depth nodes
  let tag ← tag
  let (payload, nodes) ← payload nodes
  let node ← finishNode tag.toU16 payload
  return (node, nodes)

def coreTag : PortableOValue → ValueResult NodeTag
  | .null => .ok .null
  | .bool _ => .ok .bool
  | .number (.int _) => .ok .integer
  | .number (.binaryFloat ..) => .ok .binaryFloat
  | .number _ => .error .invalidInteger
  | .text _ => .ok .text
  | .char _ => .ok .char
  | .bytes _ => .ok .bytes
  | .list _ => .ok .list
  | .record _ => .ok .record
  | .map _ => .ok .map
  | .tagged .. => .ok .tagged
  | .codeRef _ => .ok .codeRef
  | .objectRef _ => .ok .objectRef
  | .error _ => .ok .error

def encodeInteger (integer : Int) : ValueResult Bytes := do
  let magnitude := magnitudeBytes integer
  bailIf (maxOvalueIntegerBytes < magnitude.length)
    (.integerTooLarge magnitude.length maxOvalueIntegerBytes)
  if integer = 0 then return [0]
  else if 0 < integer then return 0 :: magnitude
  else return 1 :: magnitude

def FloatFormat.tag : FloatFormat → UInt8
  | .f32 => floatF32
  | .f64 => floatF64

def FloatFormat.width : FloatFormat → Nat
  | .f32 => 4
  | .f64 => 8

def encodeBinaryFloat (format : FloatFormat) (bits : Bytes) : ValueResult Bytes := do
  bailIf (bits.length != format.width) (.invalidBinaryFloat format.tag bits.length)
  return putU8 format.tag ++ [0, 0, 0] ++ bits

def textEncoding (encoding : Option String) : ValueResult UInt8 :=
  if encoding = none then .ok 0
  else if encoding = some "utf-8" then .ok 1
  else .error .invalidTextEncoding

def encodeText (text : OText) : ValueResult Bytes := do
  let encoding ← textEncoding text.encoding
  bailIf (maxOvalueTextBytes < (utf8Bytes text.utf8).length)
    (.textTooLong (utf8Bytes text.utf8).length maxOvalueTextBytes)
  return putU8 encoding ++ [0, 0, 0] ++ utf8Bytes text.utf8

def encodeBytes (bytes : OBytes) : ValueResult Bytes := do
  let media := bytes.mediaType.getD ""
  validateMediaType bytes.mediaType
  bailIf (maxOvalueBytesBytes < bytes.bytes.length)
    (.bytesTooLong bytes.bytes.length maxOvalueBytesBytes)
  bailIf (2 ^ 16 ≤ (utf8Bytes media).length) .invalidMediaType
  return putU16 (.ofNat (utf8Bytes media).length) ++ putU16 0 ++ utf8Bytes media ++ bytes.bytes

def encodeCodeRef (reference : PortableCodeRef) : ValueResult Bytes := do
  validateIdentifier reference.evaluator "code evaluator"
  validateIdentifier reference.entrypoint "code entrypoint"
  return putU16 codeDigestSha256 ++ putU16 0 ++
    putU16 (.ofNat (utf8Bytes reference.evaluator).length) ++
    putU16 (.ofNat (utf8Bytes reference.entrypoint).length) ++
    reference.digest.bytes ++ utf8Bytes reference.evaluator ++ utf8Bytes reference.entrypoint

def encodeObjectRef (identity : ObjectIdentity) : ValueResult Bytes :=
  (IdentityWireRecord.object identity).encode.mapError .identity

def encodeError (error : PortableError) : ValueResult Bytes := do
  validateIdentifier error.code "error code"
  bailIf (maxOvalueTextBytes < (utf8Bytes error.message).length)
    (.textTooLong (utf8Bytes error.message).length maxOvalueTextBytes)
  return putU16 (.ofNat (utf8Bytes error.code).length) ++ putU16 0 ++ utf8Bytes error.code ++
    utf8Bytes error.message

/-- The count of a collection and its reserved field. -/
def collectionPrefix (count : Nat) : Bytes :=
  putU16 (.ofNat count) ++ putU16 0

mutual

/-- What `encode_core_node` writes between the header and the end of a node. -/
def encodeCorePayload : PortableOValue → Nat → Nat → ValueResult (Bytes × Nat)
  | .null, _, nodes => .ok ([], nodes)
  | .bool value, _, nodes => .ok ([if value then 1 else 0], nodes)
  | .number (.int integer), _, nodes => do return (← encodeInteger integer, nodes)
  | .number (.binaryFloat format bits), _, nodes => do return (← encodeBinaryFloat format bits, nodes)
  | .number _, _, _ => .error .invalidInteger
  | .text text, _, nodes => do return (← encodeText text, nodes)
  | .char value, _, nodes => .ok (putU32 value.val, nodes)
  | .bytes bytes, _, nodes => do return (← encodeBytes bytes, nodes)
  | .list items, depth, nodes => do
      validateEntryCount "list" items.length maxOvalueListItems
      let (body, nodes) ← encodeItems items (depth + 1) nodes
      return (collectionPrefix items.length ++ body, nodes)
  | .record fields, depth, nodes => do
      validateEntryCount "record" fields.length maxOvalueMapEntries
      let (body, nodes) ← encodeFields fields none (depth + 1) nodes
      return (collectionPrefix fields.length ++ body, nodes)
  | .map entries, depth, nodes => do
      validateEntryCount "map" entries.length maxOvalueMapEntries
      let (body, nodes) ← encodeEntries entries none (depth + 1) nodes
      return (collectionPrefix entries.length ++ body, nodes)
  | .tagged tag value, depth, nodes => do
      validateIdentifier tag "tag"
      let (child, nodes) ←
        encodeNodeOf (coreTag value) (encodeCorePayload value (depth + 1)) (depth + 1) nodes
      return (putU16 (.ofNat (utf8Bytes tag).length) ++ putU16 0 ++ utf8Bytes tag ++ child, nodes)
  | .codeRef reference, _, nodes => do return (← encodeCodeRef reference, nodes)
  | .objectRef identity, _, nodes => do return (← encodeObjectRef identity, nodes)
  | .error error, _, nodes => do return (← encodeError error, nodes)

def encodeItems : List PortableOValue → Nat → Nat → ValueResult (Bytes × Nat)
  | [], _, nodes => .ok ([], nodes)
  | item :: items, depth, nodes => do
      let (first, nodes) ← encodeNodeOf (coreTag item) (encodeCorePayload item depth) depth nodes
      let (others, nodes) ← encodeItems items depth nodes
      return (first ++ others, nodes)

def encodeFields : List (String × PortableOValue) → Option Bytes → Nat → Nat →
    ValueResult (Bytes × Nat)
  | [], _, _, nodes => .ok ([], nodes)
  | (key, value) :: fields, prior, depth, nodes => do
      validateRecordKey (utf8Bytes key)
      checkOrder .duplicateRecordKey .nonCanonicalRecordOrder prior (utf8Bytes key)
      let (child, nodes) ← encodeNodeOf (coreTag value) (encodeCorePayload value depth) depth nodes
      let (others, nodes) ← encodeFields fields (some (utf8Bytes key)) depth nodes
      return (putU16 (.ofNat (utf8Bytes key).length) ++ utf8Bytes key ++ child ++ others, nodes)

def encodeEntries : List (PortableOValue × PortableOValue) → Option Bytes → Nat → Nat →
    ValueResult (Bytes × Nat)
  | [], _, _, nodes => .ok ([], nodes)
  | (key, value) :: entries, prior, depth, nodes => do
      bailIf (!isScalarMapKey key) .nonScalarMapKey
      let (keyBytes, nodes) ← encodeNodeOf (coreTag key) (encodeCorePayload key depth) depth nodes
      checkOrder .duplicateMapKey .nonCanonicalMapOrder prior keyBytes
      let (child, nodes) ← encodeNodeOf (coreTag value) (encodeCorePayload value depth) depth nodes
      let (others, nodes) ← encodeEntries entries (some keyBytes) depth nodes
      return (keyBytes ++ child ++ others, nodes)

end

def encodeCoreNode (value : PortableOValue) (depth nodes : Nat) : ValueResult (Bytes × Nat) :=
  encodeNodeOf (coreTag value) (encodeCorePayload value depth) depth nodes

def encodeExtensionPayload (envelope : ExtensionEnvelope) (depth nodes : Nat) :
    ValueResult (Bytes × Nat) := do
  let (child, nodes) ← encodeCoreNode envelope.value (depth + 1) nodes
  return (putU16 (.ofNat (utf8Bytes envelope.namespace).length) ++
    putU16 (.ofNat (utf8Bytes envelope.name).length) ++ putU16 envelope.version ++ putU16 0 ++
    envelope.schemaDigest.bytes ++ utf8Bytes envelope.namespace ++ utf8Bytes envelope.name ++ child,
    nodes)

/-- The envelope is checked after the node is counted and before it is written. -/
def encodeExtensionNode (envelope : ExtensionEnvelope) (depth nodes : Nat) :
    ValueResult (Bytes × Nat) :=
  encodeNodeOf (do validateExtension envelope; return .extension)
    (encodeExtensionPayload envelope depth) depth nodes

namespace PortableValueRecord

def encodeRoot : PortableValueRecord → ValueResult (Bytes × Nat)
  | core value => encodeCoreNode value 1 0
  | extension envelope => encodeExtensionNode envelope 1 0

def encodeWithLimit (record : PortableValueRecord) (limit : UInt32) : ValueResult Bytes := do
  let (body, _) ← record.encodeRoot
  let total := ovalueWireHeaderBytes + body.length
  enforceRecordSize total limit
  return ovalueWireMagic ++ putU16 ovalueWireSchemaV1 ++ putU16 0 ++ putU32 (.ofNat total) ++ body

def encode (record : PortableValueRecord) : ValueResult Bytes :=
  record.encodeWithLimit (.ofNat maxOvalueRecordBytes)

end PortableValueRecord

/-! ## Decoding

A cursor is the bytes it has left. -/

abbrev ValueParse := Parse PortableValueError

def take (length : Nat) : ValueParse Bytes := Parse.take .truncated length
def takeU8 : ValueParse UInt8 := Parse.takeU8 .truncated
def takeU16 : ValueParse UInt16 := Parse.takeU16 .truncated
def takeU32 : ValueParse UInt32 := Parse.takeU32 .truncated

/-- The payload of a node must be there. -/
def checkNodeLength (tag : UInt16) (declared : Nat) : ValueParse Unit := fun input =>
  if declared < ovalueNodeHeaderBytes ∨ input.length < declared - ovalueNodeHeaderBytes then
    .error (.invalidNodeLength tag declared (input.length + ovalueNodeHeaderBytes))
  else .ok ((), input)

def takeNode (depth nodes : Nat) : ValueParse (UInt16 × Bytes × Nat) := do
  let nodes ← Parse.lift (enterNode depth nodes)
  Parse.require ovalueNodeHeaderBytes (.truncated ovalueNodeHeaderBytes)
  let tag ← takeU16
  let reserved ← takeU16
  Parse.lift (bailIf (reserved != 0) (.nonzeroNodeReserved tag reserved))
  let declared ← takeU32
  checkNodeLength tag declared.toNat
  let payload ← take (declared.toNat - ovalueNodeHeaderBytes)
  return (tag, payload, nodes)

/-- A payload must be used up. -/
def wholePayload {α : Type} (payload : Bytes) (parser : ValueParse α) : ValueResult α := do
  let (value, rest) ← parser payload
  bailIf (rest.length != 0) (.trailingBytes rest.length)
  return value

def takeDigest : ValueParse Digest := do
  let bytes ← take 32
  if length : bytes.length = 32 then return ⟨bytes, length⟩
  else throw (.truncated 32 bytes.length)

def takeIdentifierExact (length : Nat) (field : String) : ValueParse String := do
  let bytes ← take length
  let value ← Parse.lift (okOr (fromUtf8 bytes) (.invalidIdentifier field))
  Parse.lift (validateIdentifier value field)
  return value

def takeIdentifier (field : String) : ValueParse String := do
  Parse.require 4 (.truncated 4)
  let length ← takeU16
  let reserved ← takeU16
  Parse.lift (bailIf (reserved != 0) (.nonzeroNodeReserved NodeTag.tagged.toU16 reserved))
  takeIdentifierExact length.toNat field

def takeCollectionPrefix (tag : UInt16) : ValueParse Nat := do
  Parse.require 4 (.truncated 4)
  let count ← takeU16
  let reserved ← takeU16
  Parse.lift (bailIf (reserved != 0) (.nonzeroNodeReserved tag reserved))
  return count.toNat

def takeUtf8Remaining : ValueParse String := do
  let bytes ← Parse.takeRemaining
  Parse.lift (okOr (fromUtf8 bytes) .invalidUtf8)

/-- Three reserved bytes, read as a `u8` and a `u16`. -/
def takeReserved (tag : UInt16) : ValueParse Unit := do
  let first ← takeU8
  let others ← takeU16
  Parse.lift (bailIf (first != 0 || others != 0) (.nonzeroNodeReserved tag 1))

def requirePayload (tag : UInt16) (expected : Nat) : ValueParse Unit :=
  Parse.requireExactly expected (.invalidPayloadLength tag expected)

def decodeBool (tag : UInt16) : ValueParse Bool := do
  requirePayload tag 1
  let byte ← takeU8
  if byte = 0 then return false
  else if byte = 1 then return true
  else throw (.invalidPayloadLength tag 1 1)

def decodeInteger : ValueParse Int := do
  Parse.require 1 fun _ => .invalidInteger
  let sign ← takeU8
  let magnitude ← Parse.takeRemaining
  Parse.lift (bailIf (maxOvalueIntegerBytes < magnitude.length)
    (.integerTooLarge magnitude.length maxOvalueIntegerBytes))
  Parse.lift (bailIf (1 < sign || magnitude.head? == some 0 || magnitude.isEmpty && sign != 0)
    .invalidInteger)
  return if sign = 1 then -(ofBigEndian magnitude : Int) else ofBigEndian magnitude

def decodeFloatFormat (formatTag : UInt8) (length : Nat) : ValueResult FloatFormat :=
  if formatTag = floatF32 ∧ length = 4 then .ok .f32
  else if formatTag = floatF64 ∧ length = 8 then .ok .f64
  else .error (.invalidBinaryFloat formatTag length)

def decodeBinaryFloat (tag : UInt16) : ValueParse ONumber := do
  Parse.require 4 (.invalidBinaryFloat 0)
  let formatTag ← takeU8
  takeReserved tag
  let bits ← Parse.takeRemaining
  let format ← Parse.lift (decodeFloatFormat formatTag bits.length)
  return .binaryFloat format bits

def decodeTextEncoding (encoding : UInt8) : ValueResult (Option String) :=
  if encoding = 0 then .ok none
  else if encoding = 1 then .ok (some "utf-8")
  else .error .invalidTextEncoding

def decodeText (tag : UInt16) : ValueParse OText := do
  Parse.require 4 (.truncated 4)
  let encoding ← takeU8
  takeReserved tag
  let text ← takeUtf8Remaining
  Parse.lift (bailIf (maxOvalueTextBytes < (utf8Bytes text).length)
    (.textTooLong (utf8Bytes text).length maxOvalueTextBytes))
  let encoding ← Parse.lift (decodeTextEncoding encoding)
  return ⟨text, encoding⟩

/-- `char::from_u32` -/
def charFromU32 (scalar : UInt32) : ValueResult Char :=
  if valid : scalar.isValidChar then .ok ⟨scalar, valid⟩ else .error (.invalidUnicodeScalar scalar)

def decodeChar (tag : UInt16) : ValueParse Char := do
  requirePayload tag 4
  let scalar ← takeU32
  Parse.lift (charFromU32 scalar)

def takeMedia (length : Nat) : ValueParse (Option String) :=
  if length = 0 then pure none
  else do
    let bytes ← take length
    let media ← Parse.lift (okOr (fromUtf8 bytes) .invalidMediaType)
    return some media

def decodeBytes (tag : UInt16) : ValueParse OBytes := do
  Parse.require 4 (.truncated 4)
  let mediaLen ← takeU16
  let reserved ← takeU16
  Parse.lift (bailIf (reserved != 0) (.nonzeroNodeReserved tag reserved))
  let media ← takeMedia mediaLen.toNat
  Parse.lift (validateMediaType media)
  let bytes ← Parse.takeRemaining
  Parse.lift (bailIf (maxOvalueBytesBytes < bytes.length)
    (.bytesTooLong bytes.length maxOvalueBytesBytes))
  return ⟨bytes, media⟩

def decodeCodeRef (tag : UInt16) : ValueParse PortableCodeRef := do
  Parse.require 40 (.truncated 40)
  let algorithm ← takeU16
  let reserved ← takeU16
  let evaluatorLen ← takeU16
  let entrypointLen ← takeU16
  Parse.lift (bailIf (algorithm != codeDigestSha256 || reserved != 0)
    (.nonzeroNodeReserved tag (max reserved (.ofNat (algorithm.toNat - codeDigestSha256.toNat)))))
  let digest ← takeDigest
  let evaluator ← takeIdentifierExact evaluatorLen.toNat "code evaluator"
  let entrypoint ← takeIdentifierExact entrypointLen.toNat "code entrypoint"
  return ⟨digest, evaluator, entrypoint⟩

def decodeObjectRef : ValueParse ObjectIdentity := do
  let nested ← Parse.takeRemaining
  let decoded ← Parse.lift ((IdentityWireRecord.decode nested).mapError .identity)
  match decoded with
  | .object identity => do
      let canonical ← Parse.lift (encodeObjectRef identity)
      Parse.lift (bailIf (canonical != nested) .nonCanonicalObjectIdentity)
      return identity
  | _ => throw .expectedObjectIdentity

def decodeError (tag : UInt16) : ValueParse PortableError := do
  Parse.require 4 (.truncated 4)
  let codeLen ← takeU16
  let reserved ← takeU16
  Parse.lift (bailIf (reserved != 0) (.nonzeroNodeReserved tag reserved))
  let code ← takeIdentifierExact codeLen.toNat "error code"
  let message ← takeUtf8Remaining
  Parse.lift (bailIf (maxOvalueTextBytes < (utf8Bytes message).length)
    (.textTooLong (utf8Bytes message).length maxOvalueTextBytes))
  return ⟨code, message⟩

section Children

-- `decode_core_node` one level down, from the count of nodes before the child
variable (child : Nat → ValueParse (PortableOValue × Nat))

def decodeItems : Nat → Nat → ValueParse (List PortableOValue × Nat)
  | 0, nodes => pure ([], nodes)
  | count + 1, nodes => do
      let (item, nodes) ← child nodes
      let (items, nodes) ← decodeItems count nodes
      return (item :: items, nodes)

def decodeFields : Nat → Option Bytes → Nat → ValueParse (List (String × PortableOValue) × Nat)
  | 0, _, nodes => pure ([], nodes)
  | count + 1, prior, nodes => do
      let keyLen ← takeU16
      let keyBytes ← take keyLen.toNat
      Parse.lift (validateRecordKey keyBytes)
      Parse.lift (checkOrder .duplicateRecordKey .nonCanonicalRecordOrder prior keyBytes)
      let key ← Parse.lift (okOr (fromUtf8 keyBytes) (.invalidRecordKey maxOvalueIdentifierBytes))
      let (value, nodes) ← child nodes
      let (fields, nodes) ← decodeFields count (some keyBytes) nodes
      return ((key, value) :: fields, nodes)

def decodeEntries :
    Nat → Option Bytes → Nat → ValueParse (List (PortableOValue × PortableOValue) × Nat)
  | 0, _, nodes => pure ([], nodes)
  | count + 1, prior, nodes => do
      let ((key, nodes), keyBytes) ← Parse.consumed (child nodes)
      Parse.lift (bailIf (!isScalarMapKey key) .nonScalarMapKey)
      Parse.lift (checkOrder .duplicateMapKey .nonCanonicalMapOrder prior keyBytes)
      let (value, nodes) ← child nodes
      let (entries, nodes) ← decodeEntries count (some keyBytes) nodes
      return ((key, value) :: entries, nodes)

def decodeCorePayload (tag : UInt16) (nodes : Nat) : ValueParse (PortableOValue × Nat) :=
  match NodeTag.ofU16 tag with
  | some .null => do
      requirePayload tag 0
      return (.null, nodes)
  | some .bool => do return (.bool (← decodeBool tag), nodes)
  | some .integer => do return (.number (.int (← decodeInteger)), nodes)
  | some .binaryFloat => do return (.number (← decodeBinaryFloat tag), nodes)
  | some .text => do return (.text (← decodeText tag), nodes)
  | some .char => do return (.char (← decodeChar tag), nodes)
  | some .bytes => do return (.bytes (← decodeBytes tag), nodes)
  | some .list => do
      let count ← takeCollectionPrefix tag
      Parse.lift (validateEntryCount "list" count maxOvalueListItems)
      let (items, nodes) ← decodeItems child count nodes
      return (.list items, nodes)
  | some .record => do
      let count ← takeCollectionPrefix tag
      Parse.lift (validateEntryCount "record" count maxOvalueMapEntries)
      let (fields, nodes) ← decodeFields child count none nodes
      return (.record fields, nodes)
  | some .map => do
      let count ← takeCollectionPrefix tag
      Parse.lift (validateEntryCount "map" count maxOvalueMapEntries)
      let (entries, nodes) ← decodeEntries child count none nodes
      return (.map entries, nodes)
  | some .tagged => do
      let tagText ← takeIdentifier "tag"
      let (value, nodes) ← child nodes
      return (.tagged tagText value, nodes)
  | some .codeRef => do return (.codeRef (← decodeCodeRef tag), nodes)
  | some .objectRef => do return (.objectRef (← decodeObjectRef), nodes)
  | some .error => do return (.error (← decodeError tag), nodes)
  | some .extension => throw .nestedExtension
  | none => throw (.unknownTag tag)

def decodeExtensionPayload (nodes : Nat) : ValueParse (ExtensionEnvelope × Nat) := do
  Parse.require 40 (.truncated 40)
  let namespaceLen ← takeU16
  let nameLen ← takeU16
  let version ← takeU16
  let reserved ← takeU16
  Parse.lift (bailIf (version == 0) .zeroExtensionVersion)
  Parse.lift (bailIf (reserved != 0) (.nonzeroNodeReserved NodeTag.extension.toU16 reserved))
  let schemaDigest ← takeDigest
  Parse.lift (bailIf (schemaDigest.bytes.all (· == 0)) .zeroExtensionSchemaDigest)
  let «namespace» ← takeIdentifierExact namespaceLen.toNat "extension namespace"
  Parse.lift (bailIf (!«namespace».toList.contains '.') .invalidExtensionNamespace)
  let name ← takeIdentifierExact nameLen.toNat "extension name"
  let (value, nodes) ← child nodes
  return (⟨«namespace», name, version, schemaDigest, value⟩, nodes)

end Children

/-- `levels` is the number of levels that are left: `depth` of the source is
`maxOvalueDepth + 1 - levels`. -/
def decodeCoreNode : Nat → Nat → ValueParse (PortableOValue × Nat)
  | 0, _ => throw (.depthLimit (maxOvalueDepth + 1) maxOvalueDepth)
  | levels + 1, nodes => do
      let (tag, payload, nodes) ← takeNode (maxOvalueDepth - levels) nodes
      Parse.lift (bailIf (tag == NodeTag.extension.toU16) .nestedExtension)
      Parse.lift (wholePayload payload (decodeCorePayload (decodeCoreNode levels) tag nodes))

def decodeRootPayload (child : Nat → ValueParse (PortableOValue × Nat)) (tag : UInt16) (nodes : Nat) :
    ValueParse PortableValueRecord :=
  if tag = NodeTag.extension.toU16 then do
    let (envelope, _) ← decodeExtensionPayload child nodes
    return .extension envelope
  else do
    let (value, _) ← decodeCorePayload child tag nodes
    return .core value

def decodeRootNode : ValueParse PortableValueRecord := do
  let (tag, payload, nodes) ← takeNode 1 0
  Parse.lift (wholePayload payload (decodeRootPayload (decodeCoreNode (maxOvalueDepth - 1)) tag nodes))

namespace PortableValueRecord

/-- The header of a record of the given length, and its root node. -/
def decodeRecord (length : Nat) : ValueParse PortableValueRecord := do
  let magic ← take ovalueWireMagic.length
  Parse.lift (bailIf (magic != ovalueWireMagic) .badMagic)
  let schema ← takeU16
  Parse.lift (bailIf (schema != ovalueWireSchemaV1) (.unsupportedSchema schema))
  let reserved ← takeU16
  Parse.lift (bailIf (reserved != 0) (.nonzeroReserved reserved))
  let declared ← takeU32
  Parse.lift (bailIf (declared.toNat != length) (.lengthMismatch declared.toNat length))
  decodeRootNode

/-- `decode_with_limit` up to its last check -/
def parseWithLimit (record : Bytes) (limit : UInt32) : ValueResult PortableValueRecord := do
  enforceRecordSize record.length limit
  bailIf (record.length < ovalueWireHeaderBytes) (.truncated ovalueWireHeaderBytes record.length)
  wholePayload record (decodeRecord record.length)

def decodeWithLimit (record : Bytes) (limit : UInt32) : ValueResult PortableValueRecord := do
  let decoded ← parseWithLimit record limit
  let canonical ← decoded.encode
  bailIf (canonical != record) (.lengthMismatch canonical.length record.length)
  return decoded

end PortableValueRecord

end Ostadix.World

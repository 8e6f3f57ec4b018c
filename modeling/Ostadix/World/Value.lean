import Ostadix.World.IdentityWire

/-! # Portable values

The authority-free values of the World boundary, and the checks that both directions of their
codec make. -/

namespace Ostadix.World

open Lib

/-! ## Scalars shared with the hosted value model -/

inductive FloatFormat where
  | f32
  | f64
deriving DecidableEq

inductive DecimalSpecial where
  | nan | posInf | negInf | posZero | negZero
deriving DecidableEq

inductive FloatSpecial where
  | nan | posInf | negInf | posZero | negZero
deriving DecidableEq

inductive ONumber where
  | int (v : Int)
  | rational (num den : Int)
  | decimal (coeff : Int) (exp10 : Int64) (special : Option DecimalSpecial)
  | binaryFloat (format : FloatFormat) (bits : Bytes)
  | bigFloat (mantissa : Int) (exp2 : Int64) (precision : Option UInt64)
      (special : Option FloatSpecial)
  | complex (re im : ONumber)
deriving DecidableEq

structure OText where
  utf8 : String
  encoding : Option String
deriving DecidableEq

structure OBytes where
  bytes : Bytes
  mediaType : Option String
deriving DecidableEq

/-- Sign and magnitude of `BigInt::to_bytes_be`: no leading zero, except that zero is one zero
byte. -/
def magnitudeBytes (value : Int) : Bytes :=
  if value = 0 then [0] else bigEndianDigits value.natAbs

/-! ## Values -/

/-- An array of thirty-two bytes. -/
@[ext]
structure Digest where
  bytes : Bytes
  length : bytes.length = 32

instance : DecidableEq Digest := fun _ _ =>
  decidable_of_iff' _ Digest.ext_iff

structure PortableCodeRef where
  digest : Digest
  evaluator : String
  entrypoint : String
deriving DecidableEq

structure PortableError where
  code : String
  message : String
deriving DecidableEq

inductive PortableOValue where
  | null
  | bool (value : Bool)
  | number (number : ONumber)
  | text (text : OText)
  | char (value : Char)
  | bytes (bytes : OBytes)
  | list (items : List PortableOValue)
  | record (fields : List (String × PortableOValue))
  | map (entries : List (PortableOValue × PortableOValue))
  | tagged (tag : String) (value : PortableOValue)
  | codeRef (reference : PortableCodeRef)
  | objectRef (identity : ObjectIdentity)
  | error (error : PortableError)

/-- Fixed by `namespace`, `name`, `version` and `schemaDigest`. -/
structure ExtensionEnvelope where
  «namespace» : String
  name : String
  version : UInt16
  schemaDigest : Digest
  value : PortableOValue

inductive PortableValueRecord where
  | core (value : PortableOValue)
  | extension (envelope : ExtensionEnvelope)

inductive PortableValueError where
  | recordTooLarge (actual maximum : Nat)
  | recordTooSmall (actual minimum : Nat)
  | recordExceedsLimit (actual : Nat) (limit : UInt32)
  | truncated (needed remaining : Nat)
  | badMagic
  | unsupportedSchema (found : UInt16)
  | nonzeroReserved (found : UInt16)
  | lengthMismatch (declared actual : Nat)
  | unknownTag (found : UInt16)
  | nonzeroNodeReserved (tag found : UInt16)
  | invalidNodeLength (tag : UInt16) (declared remaining : Nat)
  | invalidPayloadLength (tag : UInt16) (expected actual : Nat)
  | depthLimit (actual maximum : Nat)
  | nodeLimit (actual maximum : Nat)
  | entryLimit (kind : String) (actual maximum : Nat)
  | invalidInteger
  | integerTooLarge (actual maximum : Nat)
  | invalidBinaryFloat (format : UInt8) (actual : Nat)
  | invalidTextEncoding
  | textTooLong (actual maximum : Nat)
  | invalidUtf8
  | invalidUnicodeScalar (found : UInt32)
  | invalidMediaType
  | bytesTooLong (actual maximum : Nat)
  | invalidIdentifier (field : String)
  | invalidRecordKey (maximum : Nat)
  | nonCanonicalRecordOrder
  | duplicateRecordKey
  | nonScalarMapKey
  | nonCanonicalMapOrder
  | duplicateMapKey
  | invalidExtensionNamespace
  | zeroExtensionVersion
  | zeroExtensionSchemaDigest
  | nestedExtension
  | trailingBytes (remaining : Nat)
  | expectedObjectIdentity
  | nonCanonicalObjectIdentity
  | identity (error : IdentityWireError)
deriving DecidableEq

/-! ## Limits and tags -/

def ovalueWireMagic : Bytes := utf8Bytes "OWVALUE\x00"
def ovalueWireSchemaV1 : UInt16 := 1
def ovalueWireHeaderBytes : Nat := 16
def ovalueNodeHeaderBytes : Nat := 8
def minOvalueRecordBytes : Nat := 24
def maxOvalueRecordBytes : Nat := 4096
def maxOvalueDepth : Nat := 16
def maxOvalueNodes : Nat := 128
def maxOvalueListItems : Nat := 64
def maxOvalueMapEntries : Nat := 32
def maxOvalueIntegerBytes : Nat := 256
def maxOvalueTextBytes : Nat := 1024
def maxOvalueBytesBytes : Nat := 2048
def maxOvalueIdentifierBytes : Nat := 96

inductive NodeTag where
  | null | bool | integer | binaryFloat | text | char | bytes | list | record | map | tagged
  | codeRef | objectRef | error | extension
deriving DecidableEq

def NodeTag.toU16 : NodeTag → UInt16
  | null => 0x0000
  | bool => 0x0001
  | integer => 0x0010
  | binaryFloat => 0x0011
  | text => 0x0020
  | char => 0x0021
  | bytes => 0x0022
  | list => 0x0030
  | record => 0x0031
  | map => 0x0032
  | tagged => 0x0040
  | codeRef => 0x0041
  | objectRef => 0x0042
  | error => 0x0043
  | extension => 0x7f00

/-- The tag a number stands for, if any. -/
def NodeTag.ofU16 (value : UInt16) : Option NodeTag :=
  [null, bool, integer, binaryFloat, text, char, bytes, list, record, map, tagged, codeRef,
    objectRef, error, extension].find? (·.toU16 == value)

theorem NodeTag.ofU16_eq_some {v : UInt16} {tag : NodeTag} :
    NodeTag.ofU16 v = some tag ↔ v = tag.toU16 := by
  constructor
  · intro hf
    exact (beq_iff_eq.mp (List.find?_some hf :)).symm
  · rintro rfl
    cases tag <;> rfl

def floatF32 : UInt8 := 1
def floatF64 : UInt8 := 2
def codeDigestSha256 : UInt16 := 1

/-! ## Checks -/

abbrev ValueResult := Except PortableValueError

def validateEntryCount (kind : String) (actual maximum : Nat) : ValueResult Unit :=
  bailIf (maximum < actual) (.entryLimit kind actual maximum)

def validateRecordKey (bytes : Bytes) : ValueResult Unit :=
  bailIf (bytes.isEmpty || maxOvalueIdentifierBytes < bytes.length || (fromUtf8 bytes).isNone)
    (.invalidRecordKey maxOvalueIdentifierBytes)

/-- `.`, `_` and `-` besides lower-case letters and digits -/
def isIdentifierByte (byte : UInt8) : Bool :=
  isAsciiLowercase byte || isAsciiDigit byte || byte == 0x2e || byte == 0x5f || byte == 0x2d

def validateIdentifier (value field : String) : ValueResult Unit :=
  let bytes := utf8Bytes value
  bailIf (bytes.isEmpty || maxOvalueIdentifierBytes < bytes.length ||
      !bytes.head?.any isAsciiLowercase || !bytes.tail.all isIdentifierByte)
    (.invalidIdentifier field)

def isAsciiWhitespace (byte : UInt8) : Bool :=
  byte == 0x20 || byte == 0x09 || byte == 0x0a || byte == 0x0c || byte == 0x0d

def validateMediaType : Option String → ValueResult Unit
  | none => .ok ()
  | some value =>
      let parts := splitAtSlash value
      let typeName := parts.head?.getD ""
      let subtypeName := parts.tail.head?.getD ""
      bailIf (value == "" || maxOvalueIdentifierBytes < (utf8Bytes value).length ||
          typeName == "" || subtypeName == "" || 2 < parts.length ||
          !(utf8Bytes value).all fun byte =>
            0x21 ≤ byte && byte ≤ 0x7e && !isAsciiWhitespace byte)
        .invalidMediaType

def isScalarMapKey : PortableOValue → Bool
  | .null | .bool _ | .number _ | .text _ | .char _ | .bytes _ | .codeRef _ | .objectRef _ => true
  | .list _ | .record _ | .map _ | .tagged .. | .error _ => false

/-- Keys come in strictly increasing byte order. -/
def checkOrder (duplicate nonCanonical : PortableValueError) (prior : Option Bytes) (key : Bytes) :
    ValueResult Unit :=
  match prior with
  | none => .ok ()
  | some previous =>
      if previous = key then .error duplicate
      else if previous < key then .ok () else .error nonCanonical

def validateExtension (envelope : ExtensionEnvelope) : ValueResult Unit := do
  validateIdentifier envelope.namespace "extension namespace"
  bailIf (!envelope.namespace.toList.contains '.') .invalidExtensionNamespace
  validateIdentifier envelope.name "extension name"
  bailIf (envelope.version == 0) .zeroExtensionVersion
  bailIf (envelope.schemaDigest.bytes.all (· == 0)) .zeroExtensionSchemaDigest

def enforceRecordSize (actual : Nat) (limit : UInt32) : ValueResult Unit := do
  bailIf (maxOvalueRecordBytes < actual) (.recordTooLarge actual maxOvalueRecordBytes)
  bailIf (actual < minOvalueRecordBytes) (.recordTooSmall actual minOvalueRecordBytes)
  bailIf (limit.toNat < actual) (.recordExceedsLimit actual limit)

end Ostadix.World

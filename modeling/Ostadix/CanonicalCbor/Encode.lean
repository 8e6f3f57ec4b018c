import Ostadix.CanonicalCbor.Value

/-! # The canonical encoder -/

namespace Ostadix.CanonicalCbor

open Ostadix.Lib

/-- Initial byte and argument of one CBOR data item, in the shortest form. -/
def encodeTypeLen (major : UInt8) (len : Nat) : Bytes :=
  let major := major <<< 5
  if len ≤ 23 then [major ||| UInt8.ofNat len]
  else if len ≤ 0xff then [major ||| 24, UInt8.ofNat len]
  else if len ≤ 0xffff then (major ||| 25) :: toBigEndian 2 len
  else if len ≤ 0xffff_ffff then (major ||| 26) :: toBigEndian 4 len
  else (major ||| 27) :: toBigEndian 8 len

def encodeText (text : String) : Bytes :=
  encodeTypeLen 3 (utf8Bytes text).length ++ utf8Bytes text

/-- The source probes `as_u64`, `as_i64` and `as_f64` in this order. Without arbitrary
precision one of them answers, so its last branch is unreachable. -/
def encodeNumber : Number → Bytes
  | .posInt value => encodeTypeLen 0 value.toNat
  | .negInt value => encodeTypeLen 1 (-1 - value.value).toNat
  | .float value => 0xfb :: toBigEndian 8 value.bits.toNat

/-- Members in the order the encoder writes them: by the length of the encoded key, then by
its bytes. -/
def sortEntries {α : Type} (entries : List (Bytes × α)) : List (Bytes × α) :=
  entries.mergeSort fun left right => shortlexLe left.1 right.1

mutual
def encodeValue : Value → Bytes
  | .null => [0xf6]
  | .bool false => [0xf4]
  | .bool true => [0xf5]
  | .number number => encodeNumber number
  | .string text => encodeText text
  | .array items => encodeTypeLen 4 items.length ++ encodeItems items
  | .object members =>
      encodeTypeLen 5 members.length ++
        (sortEntries (encodeMembers members)).flatMap fun entry => entry.1 ++ entry.2

def encodeItems : List Value → Bytes
  | [] => []
  | item :: items => encodeValue item ++ encodeItems items

/-- Each member with its key and its value encoded, in insertion order. -/
def encodeMembers : List (String × Value) → List (Bytes × Bytes)
  | [] => []
  | (key, value) :: members => (encodeText key, encodeValue value) :: encodeMembers members
end

def encode (message : JsonValue) : Bytes :=
  encodeValue message.value

end Ostadix.CanonicalCbor

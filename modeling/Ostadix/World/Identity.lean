import Ostadix.Lib.Parse

/-! # Governed identities

The names and generations of a World. A name is checked once, by its constructor, and a generation
is never zero. -/

namespace Ostadix.World

open Lib

/-- The errors of the constructors. -/
inductive WorldIdentityError where
  | emptyIdentifier (kind : String)
  | identifierTooLong (kind : String) (limit : Nat)
  | invalidIdentifier (kind value : String)
  | zeroGeneration (kind : String)
deriving DecidableEq

def maxSimpleIdBytes : Nat := 128
def maxResourceIdBytes : Nat := 256

def isAsciiLowercase (byte : UInt8) : Bool := 0x61 ≤ byte && byte ≤ 0x7a
def isAsciiUppercase (byte : UInt8) : Bool := 0x41 ≤ byte && byte ≤ 0x5a
def isAsciiDigit (byte : UInt8) : Bool := 0x30 ≤ byte && byte ≤ 0x39

def isAsciiAlphanumeric (byte : UInt8) : Bool :=
  isAsciiLowercase byte || isAsciiUppercase byte || isAsciiDigit byte

/-- `.`, `_`, `-` and `+` besides letters and digits -/
def isComponentByte (byte : UInt8) : Bool :=
  isAsciiAlphanumeric byte || byte == 0x2e || byte == 0x5f || byte == 0x2d || byte == 0x2b

def validateComponent (kind value : String) : Except WorldIdentityError Unit := do
  bailIf (utf8Bytes value).isEmpty (.emptyIdentifier kind)
  bailIf (maxSimpleIdBytes < (utf8Bytes value).length) (.identifierTooLong kind maxSimpleIdBytes)
  bailIf (value == "." || value == ".." || !(utf8Bytes value).all isComponentByte)
    (.invalidIdentifier kind value)

def splitAtSlash (value : String) : List String :=
  (value.toList.splitOn '/').map String.ofList

def validateResourcePath (value : String) : Except WorldIdentityError Unit := do
  let kind := "resource identity"
  bailIf (utf8Bytes value).isEmpty (.emptyIdentifier kind)
  bailIf (maxResourceIdBytes < (utf8Bytes value).length)
    (.identifierTooLong kind maxResourceIdBytes)
  bailIf (value.toList.head? == some '/' || value.toList.getLast? == some '/' ||
      (splitAtSlash value).any fun component =>
        component == "" || component == "." || component == ".." ||
          (validateComponent kind component).toOption.isNone)
    (.invalidIdentifier kind value)

/-! ## Names and generations -/

/-- A string that passed the check of its constructor. -/
structure Checked (check : String → Except WorldIdentityError Unit) where
  value : String
  valid : check value = .ok ()
deriving DecidableEq

def Checked.new (check : String → Except WorldIdentityError Unit) (value : String) :
    Except WorldIdentityError (Checked check) :=
  match valid : check value with
  | .ok () => .ok ⟨value, valid⟩
  | .error error => .error error

theorem Checked.new_eq_ok {check : String → Except WorldIdentityError Unit} {v : String}
    {ck : Checked check} : Checked.new check v = .ok ck ↔ ck.value = v := by
  obtain ⟨_, hv⟩ := ck
  constructor
  · intro ha
    rw [Checked.new] at ha
    split at ha
    · cases ha
      rfl
    · cases ha
  · rintro rfl
    rw [Checked.new]
    split
    · rfl
    · rename_i error invalid
      rw [hv] at invalid
      cases invalid

abbrev WorldId := Checked (validateComponent "world identity")
abbrev ProcessId := Checked (validateComponent "process identity")
abbrev NodeId := Checked (validateComponent "node identity")
abbrev DomainId := Checked (validateComponent "domain identity")
abbrev ObjectId := Checked (validateComponent "object identity")
abbrev CapabilityId := Checked (validateComponent "capability identity")
abbrev LeaseId := Checked (validateComponent "lease identity")
abbrev TaskId := Checked (validateComponent "task identity")
abbrev CheckpointId := Checked (validateComponent "checkpoint identity")
abbrev ReceiptId := Checked (validateComponent "receipt identity")
abbrev ResourceId := Checked validateResourcePath

/-- A counter that is never zero; `kind` is its name in errors. -/
@[ext]
structure Generation (kind : String) where
  value : UInt64
  nonzero : value ≠ 0

instance {kind : String} : DecidableEq (Generation kind) := fun _ _ =>
  decidable_of_iff' _ Generation.ext_iff

def Generation.new (kind : String) (value : UInt64) :
    Except WorldIdentityError (Generation kind) :=
  if zero : value = 0 then .error (.zeroGeneration kind) else .ok ⟨value, zero⟩

theorem Generation.new_eq_ok {kind : String} {v : UInt64} {gen : Generation kind} :
    Generation.new kind v = .ok gen ↔ gen.value = v := by
  obtain ⟨_, hnz⟩ := gen
  rw [Generation.new]
  split
  · rename_i zero
    constructor
    · intro bad
      cases bad
    · rintro rfl
      exact absurd zero hnz
  · simp [eq_comm]

abbrev WorldEpoch := Generation "world epoch"
abbrev GovernorTerm := Generation "governor term"
abbrev GovernorLogIndex := Generation "governor log index"
abbrev NodeGeneration := Generation "node generation"
abbrev DomainGeneration := Generation "domain generation"
abbrev ProcessGeneration := Generation "process generation"
abbrev ResourceGeneration := Generation "resource generation"
abbrev ObjectVersion := Generation "object version"
abbrev AttemptGeneration := Generation "attempt generation"

/-! ## Identities -/

structure WorldIdentity where
  world : WorldId
  epoch : WorldEpoch
deriving DecidableEq

structure GovernorIdentity where
  world : WorldIdentity
  term : GovernorTerm
  logIndex : GovernorLogIndex
deriving DecidableEq

structure NodeIdentity where
  world : WorldId
  node : NodeId
  generation : NodeGeneration
deriving DecidableEq

structure DomainIdentity where
  node : NodeIdentity
  domain : DomainId
  generation : DomainGeneration
deriving DecidableEq

structure ProcessIdentity where
  domain : DomainIdentity
  process : ProcessId
  generation : ProcessGeneration
deriving DecidableEq

inductive ResourceOwner where
  | world (world : WorldIdentity)
  | node (node : NodeIdentity)
  | domain (domain : DomainIdentity)
  | process (process : ProcessIdentity)
deriving DecidableEq

structure ResourceIdentity where
  owner : ResourceOwner
  resource : ResourceId
  generation : ResourceGeneration
deriving DecidableEq

structure ObjectIdentity where
  world : WorldId
  object : ObjectId
  version : ObjectVersion
deriving DecidableEq

structure CapabilityIdentity where
  world : WorldId
  capability : CapabilityId
deriving DecidableEq

structure LeaseIdentity where
  world : WorldId
  lease : LeaseId
deriving DecidableEq

structure TaskIdentity where
  world : WorldId
  task : TaskId
deriving DecidableEq

structure AttemptIdentity where
  world : WorldId
  task : TaskId
  attempt : AttemptGeneration
deriving DecidableEq

structure CheckpointIdentity where
  attempt : AttemptIdentity
  checkpoint : CheckpointId
deriving DecidableEq

structure ReceiptIdentity where
  world : WorldId
  receipt : ReceiptId
deriving DecidableEq

end Ostadix.World

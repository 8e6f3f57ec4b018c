import Ostadix.World.Identity

/-! # Identity wire records

`OWIDENT` records of all thirteen kinds of identity. The decoder accepts exactly the encodings:
`IdentityWireRecord.decode_eq_ok`. -/

namespace Ostadix.World

open Lib List

def identityWireMagic : Bytes := utf8Bytes "OWIDENT\x00"
def identityWireVersion : UInt16 := 1
def identityWireHeaderBytes : Nat := 16
def maxIdentityWireRecordBytes : Nat := 1024

inductive IdentityWireError where
  | recordTooLarge (actual max : Nat)
  | truncated (needed remaining : Nat)
  | badMagic
  | unsupportedVersion (found : UInt16)
  | unknownKind (found : UInt16)
  | lengthMismatch (declared actual : Nat)
  | invalidUtf8
  | textTooLong
  | unknownResourceOwner (found : UInt16)
  | trailingBytes (remaining : Nat)
  | invalidIdentity (error : WorldIdentityError)
deriving DecidableEq

inductive IdentityWireKind where
  | world | governor | node | domain | process | resource | object | capability | lease | task
  | attempt | checkpoint | receipt
deriving DecidableEq

def IdentityWireKind.toU16 : IdentityWireKind → UInt16
  | world => 1
  | governor => 2
  | node => 3
  | domain => 4
  | process => 5
  | resource => 6
  | object => 7
  | capability => 8
  | lease => 9
  | task => 10
  | attempt => 11
  | checkpoint => 12
  | receipt => 13

def IdentityWireKind.fromU16 (value : UInt16) : Except IdentityWireError IdentityWireKind :=
  okOr ([world, governor, node, domain, process, resource, object, capability, lease, task, attempt,
    checkpoint, receipt].find? (·.toU16 == value)) (.unknownKind value)

inductive IdentityWireRecord where
  | world (identity : WorldIdentity)
  | governor (identity : GovernorIdentity)
  | node (identity : NodeIdentity)
  | domain (identity : DomainIdentity)
  | process (identity : ProcessIdentity)
  | resource (identity : ResourceIdentity)
  | object (identity : ObjectIdentity)
  | capability (identity : CapabilityIdentity)
  | lease (identity : LeaseIdentity)
  | task (identity : TaskIdentity)
  | attempt (identity : AttemptIdentity)
  | checkpoint (identity : CheckpointIdentity)
  | receipt (identity : ReceiptIdentity)
deriving DecidableEq

def IdentityWireRecord.kind : IdentityWireRecord → IdentityWireKind
  | world _ => .world
  | governor _ => .governor
  | node _ => .node
  | domain _ => .domain
  | process _ => .process
  | resource _ => .resource
  | object _ => .object
  | capability _ => .capability
  | lease _ => .lease
  | task _ => .task
  | attempt _ => .attempt
  | checkpoint _ => .checkpoint
  | receipt _ => .receipt

/-! ## Encoding -/

def putText (value : String) : Except IdentityWireError Bytes := do
  bailIf (2 ^ 16 ≤ (utf8Bytes value).length) .textTooLong
  return putU16 (.ofNat (utf8Bytes value).length) ++ utf8Bytes value

def encodeWorld (identity : WorldIdentity) : Except IdentityWireError Bytes := do
  return (← putText identity.world.value) ++ putU64 identity.epoch.value

def encodeNode (identity : NodeIdentity) : Except IdentityWireError Bytes := do
  return (← putText identity.world.value) ++ (← putText identity.node.value) ++
    putU64 identity.generation.value

def encodeDomain (identity : DomainIdentity) : Except IdentityWireError Bytes := do
  return (← encodeNode identity.node) ++ (← putText identity.domain.value) ++
    putU64 identity.generation.value

def encodeProcess (identity : ProcessIdentity) : Except IdentityWireError Bytes := do
  return (← encodeDomain identity.domain) ++ (← putText identity.process.value) ++
    putU64 identity.generation.value

def encodeAttempt (identity : AttemptIdentity) : Except IdentityWireError Bytes := do
  return (← putText identity.world.value) ++ (← putText identity.task.value) ++
    putU64 identity.attempt.value

def encodeOwner : ResourceOwner → Except IdentityWireError Bytes
  | .world world => do return putU16 1 ++ (← encodeWorld world)
  | .node node => do return putU16 2 ++ (← encodeNode node)
  | .domain domain => do return putU16 3 ++ (← encodeDomain domain)
  | .process process => do return putU16 4 ++ (← encodeProcess process)

def encodeResource (identity : ResourceIdentity) : Except IdentityWireError Bytes := do
  return (← encodeOwner identity.owner) ++ (← putText identity.resource.value) ++
    putU64 identity.generation.value

namespace IdentityWireRecord

def payload : IdentityWireRecord → Except IdentityWireError Bytes
  | world identity => encodeWorld identity
  | governor identity => do
      return (← encodeWorld identity.world) ++ putU64 identity.term.value ++
        putU64 identity.logIndex.value
  | node identity => encodeNode identity
  | domain identity => encodeDomain identity
  | process identity => encodeProcess identity
  | resource identity => encodeResource identity
  | object identity => do
      return (← putText identity.world.value) ++ (← putText identity.object.value) ++
        putU64 identity.version.value
  | capability identity => do
      return (← putText identity.world.value) ++ (← putText identity.capability.value)
  | lease identity => do
      return (← putText identity.world.value) ++ (← putText identity.lease.value)
  | task identity => do
      return (← putText identity.world.value) ++ (← putText identity.task.value)
  | attempt identity => encodeAttempt identity
  | checkpoint identity => do
      return (← encodeAttempt identity.attempt) ++ (← putText identity.checkpoint.value)
  | receipt identity => do
      return (← putText identity.world.value) ++ (← putText identity.receipt.value)

def encode (record : IdentityWireRecord) : Except IdentityWireError Bytes := do
  let payload ← record.payload
  let totalLen := identityWireHeaderBytes + payload.length
  bailIf (maxIdentityWireRecordBytes < totalLen)
    (.recordTooLarge totalLen maxIdentityWireRecordBytes)
  return identityWireMagic ++ putU16 identityWireVersion ++ putU16 record.kind.toU16 ++
    putU32 (.ofNat totalLen) ++ payload

end IdentityWireRecord

/-! ## Decoding -/

abbrev IdentityParse := Parse IdentityWireError

def takeText : IdentityParse String := do
  let len ← Parse.takeU16 .truncated
  let bytes ← Parse.take .truncated len.toNat
  Parse.lift (okOr (fromUtf8 bytes) .invalidUtf8)

def readSimple {α : Type} (constructor : String → Except WorldIdentityError α) :
    IdentityParse α := do
  let text ← takeText
  Parse.lift ((constructor text).mapError .invalidIdentity)

def readCounter {α : Type} (constructor : UInt64 → Except WorldIdentityError α) :
    IdentityParse α := do
  let value ← Parse.takeU64 .truncated
  Parse.lift ((constructor value).mapError .invalidIdentity)

def decodeWorld : IdentityParse WorldIdentity := do
  return ⟨← readSimple (Checked.new _), ← readCounter (Generation.new _)⟩

def decodeNode : IdentityParse NodeIdentity := do
  return ⟨← readSimple (Checked.new _), ← readSimple (Checked.new _),
    ← readCounter (Generation.new _)⟩

def decodeDomain : IdentityParse DomainIdentity := do
  return ⟨← decodeNode, ← readSimple (Checked.new _), ← readCounter (Generation.new _)⟩

def decodeProcess : IdentityParse ProcessIdentity := do
  return ⟨← decodeDomain, ← readSimple (Checked.new _), ← readCounter (Generation.new _)⟩

def decodeAttempt : IdentityParse AttemptIdentity := do
  return ⟨← readSimple (Checked.new _), ← readSimple (Checked.new _),
    ← readCounter (Generation.new _)⟩

def decodeOwner : IdentityParse ResourceOwner := do
  let found ← Parse.takeU16 .truncated
  if found = 1 then return .world (← decodeWorld)
  else if found = 2 then return .node (← decodeNode)
  else if found = 3 then return .domain (← decodeDomain)
  else if found = 4 then return .process (← decodeProcess)
  else throw (.unknownResourceOwner found)

def decodeResource : IdentityParse ResourceIdentity := do
  return ⟨← decodeOwner, ← readSimple (Checked.new _), ← readCounter (Generation.new _)⟩

def decodePayload : IdentityWireKind → IdentityParse IdentityWireRecord
  | .world => do return .world (← decodeWorld)
  | .governor => do
      return .governor ⟨← decodeWorld, ← readCounter (Generation.new _),
        ← readCounter (Generation.new _)⟩
  | .node => do return .node (← decodeNode)
  | .domain => do return .domain (← decodeDomain)
  | .process => do return .process (← decodeProcess)
  | .resource => do return .resource (← decodeResource)
  | .object => do
      return .object ⟨← readSimple (Checked.new _), ← readSimple (Checked.new _),
        ← readCounter (Generation.new _)⟩
  | .capability => do
      return .capability ⟨← readSimple (Checked.new _), ← readSimple (Checked.new _)⟩
  | .lease => do return .lease ⟨← readSimple (Checked.new _), ← readSimple (Checked.new _)⟩
  | .task => do return .task ⟨← readSimple (Checked.new _), ← readSimple (Checked.new _)⟩
  | .attempt => do return .attempt (← decodeAttempt)
  | .checkpoint => do return .checkpoint ⟨← decodeAttempt, ← readSimple (Checked.new _)⟩
  | .receipt => do return .receipt ⟨← readSimple (Checked.new _), ← readSimple (Checked.new _)⟩

/-- The header of a record of the given length, and its payload. -/
def decodeRecord (length : Nat) : IdentityParse IdentityWireRecord := do
  let magic ← Parse.take .truncated identityWireMagic.length
  Parse.lift (bailIf (magic != identityWireMagic) .badMagic)
  let version ← Parse.takeU16 .truncated
  Parse.lift (bailIf (version != identityWireVersion) (.unsupportedVersion version))
  let kind ← Parse.takeU16 .truncated
  let kind ← Parse.lift (IdentityWireKind.fromU16 kind)
  let declared ← Parse.takeU32 .truncated
  Parse.lift (bailIf (maxIdentityWireRecordBytes < declared.toNat)
    (.recordTooLarge declared.toNat maxIdentityWireRecordBytes))
  Parse.lift (bailIf (declared.toNat != length) (.lengthMismatch declared.toNat length))
  decodePayload kind

def IdentityWireRecord.decode (record : Bytes) : Except IdentityWireError IdentityWireRecord := do
  bailIf (maxIdentityWireRecordBytes < record.length)
    (.recordTooLarge record.length maxIdentityWireRecordBytes)
  bailIf (record.length < identityWireHeaderBytes)
    (.truncated identityWireHeaderBytes record.length)
  let (decoded, rest) ← decodeRecord record.length record
  bailIf (rest.length != 0) (.trailingBytes rest.length)
  return decoded

/-! ## The decoder accepts exactly the encodings -/

section Exact

open Parse

variable {bs : Bytes} {kind : IdentityWireKind}
  {check : String → Except WorldIdentityError Unit}

theorem putText_eq_ok {text : String} : putText text = .ok bs ↔ (utf8Bytes text).length < 2 ^ 16 ∧
      bs = putU16 (.ofNat (utf8Bytes text).length) ++ utf8Bytes text := by
  simp only [putText, bind_eq_ok, bailIf_eq_ok, exists_unit, pure_eq_ok, decide_eq_false_iff_not,
    Nat.not_le]

theorem exact_takeText : Exact takeText fun text bs => putText text = .ok bs := by
  unfold takeText
  refine .congr (.bind (.takeU16 _) fun len => .bind (.take _ _) fun bs => .lift _) ?_
  intro text bs
  rw [putText_eq_ok]
  constructor
  · rintro ⟨len, _, _, rfl, rfl, _, _, _, rfl, ⟨rfl, fits⟩, read, rfl⟩
    rw [okOr_eq_ok] at read
    cases utf8Bytes_of_fromUtf8 read
    rw [fits, UInt16.ofNat_toNat, append_nil]
    exact ⟨UInt16.toNat_lt len, rfl⟩
  · rintro ⟨hsh, rfl⟩
    refine ⟨_, _, _, rfl, rfl, utf8Bytes text, utf8Bytes text, [], (append_nil _).symm,
      ⟨rfl, (UInt16.toNat_ofNat_of_lt' hsh).symm⟩, ?_, rfl⟩
    rw [okOr_eq_ok, fromUtf8_utf8Bytes]

theorem exact_readSimple :
    Exact (readSimple (Checked.new check)) fun hk bs => putText hk.value = .ok bs := by
  unfold readSimple
  refine .congr (.bind exact_takeText fun text => .lift _) ?_
  intro hk bs
  constructor
  · rintro ⟨text, _, _, rfl, hwr, constructed, rfl⟩
    rw [mapError_eq_ok, Checked.new_eq_ok] at constructed
    rw [constructed, append_nil]
    exact hwr
  · intro hwr
    refine ⟨hk.value, bs, [], (append_nil _).symm, hwr, ?_, rfl⟩
    rw [mapError_eq_ok, Checked.new_eq_ok]

theorem exact_readCounter {kind : String} : Exact (readCounter (Generation.new kind)) fun gen bs =>
      bs = putU64 gen.value := by
  unfold readCounter
  refine .congr (.bind (.takeU64 _) fun v => .lift _) ?_
  intro gen bs
  constructor
  · rintro ⟨v, _, _, rfl, rfl, constructed, rfl⟩
    rw [mapError_eq_ok, Generation.new_eq_ok] at constructed
    rw [constructed, append_nil]
  · rintro rfl
    refine ⟨gen.value, _, [], (append_nil _).symm, rfl, ?_, rfl⟩
    rw [mapError_eq_ok, Generation.new_eq_ok]

section Parts

variable {α δ : Type} {out : IdentityParse α} {write : α → Except IdentityWireError Bytes}
  {check : String → Except WorldIdentityError Unit} {kind : String}
  {encode : δ → Except IdentityWireError Bytes}

/-- An identity made of an outer one and a name. -/
theorem exact_named (hex : Exact out fun v bs => write v = .ok bs) {build : α → Checked check → δ}
    (encodes : ∀ v name, encode (build v name) = do return (← write v) ++ (← putText name.value)) :
    Exact (do return build (← out) (← readSimple (Checked.new check))) fun r bs =>
      (∃ v name, r = build v name) ∧ encode r = .ok bs := by
  refine (hex.map₂ exact_readSimple build).congr ?_
  intro r bs
  constructor
  · rintro ⟨v, name, _, _, rfl, rfl, wrote, wroteName⟩
    refine ⟨⟨v, name, rfl⟩, ?_⟩
    rw [encodes, wrote, wroteName]
    rfl
  · rintro ⟨⟨v, name, rfl⟩, enc⟩
    rw [encodes] at enc
    simp only [bind_eq_ok] at enc
    obtain ⟨_, wrote, _, wroteName, ⟨⟩⟩ := enc
    exact ⟨v, name, _, _, rfl, rfl, wrote, wroteName⟩

/-- An identity made of an outer one, a name and a generation. -/
theorem exact_generated (hex : Exact out fun v bs => write v = .ok bs)
    {build : α → Checked check → Generation kind → δ}
    (encodes : ∀ v name gen, encode (build v name gen) =
      do return (← write v) ++ (← putText name.value) ++ putU64 gen.value) :
    Exact (do
        return build (← out) (← readSimple (Checked.new check))
          (← readCounter (Generation.new kind))) fun r bs =>
      (∃ v name gen, r = build v name gen) ∧ encode r = .ok bs := by
  refine (hex.map₃ exact_readSimple exact_readCounter build).congr ?_
  intro r bs
  constructor
  · rintro ⟨v, name, gen, _, _, _, rfl, rfl, wrote, wroteName, rfl⟩
    refine ⟨⟨v, name, gen, rfl⟩, ?_⟩
    rw [encodes, wrote, wroteName]
    rfl
  · rintro ⟨⟨v, name, gen, rfl⟩, enc⟩
    rw [encodes] at enc
    simp only [bind_eq_ok] at enc
    obtain ⟨_, wrote, _, wroteName, ⟨⟩⟩ := enc
    exact ⟨v, name, gen, _, _, _, rfl, rfl, wrote, wroteName, rfl⟩

end Parts

theorem exact_decodeWorld : Exact decodeWorld fun idn bs => encodeWorld idn = .ok bs := by
  refine (exact_readSimple.map₂ exact_readCounter WorldIdentity.mk).congr ?_
  intro idn bs
  simp only [encodeWorld, bind_eq_ok]
  constructor
  · rintro ⟨_, _, _, _, rfl, rfl, hwr, rfl⟩
    exact ⟨_, hwr, rfl⟩
  · rintro ⟨_, hwr, ⟨⟩⟩
    exact ⟨_, _, _, _, rfl, rfl, hwr, rfl⟩

theorem exact_decodeNode : Exact decodeNode fun idn bs => encodeNode idn = .ok bs :=
  (exact_generated exact_readSimple fun _ _ _ => rfl).congr fun _ _ =>
    and_iff_right ⟨_, _, _, rfl⟩

theorem exact_decodeDomain : Exact decodeDomain fun idn bs => encodeDomain idn = .ok bs :=
  (exact_generated exact_decodeNode fun _ _ _ => rfl).congr fun _ _ =>
    and_iff_right ⟨_, _, _, rfl⟩

theorem exact_decodeProcess : Exact decodeProcess fun idn bs => encodeProcess idn = .ok bs :=
  (exact_generated exact_decodeDomain fun _ _ _ => rfl).congr fun _ _ =>
    and_iff_right ⟨_, _, _, rfl⟩

theorem exact_decodeAttempt : Exact decodeAttempt fun idn bs => encodeAttempt idn = .ok bs :=
  (exact_generated exact_readSimple fun _ _ _ => rfl).congr fun _ _ =>
    and_iff_right ⟨_, _, _, rfl⟩

/-- The number that stands for the kind of an owner. -/
def ResourceOwner.number : ResourceOwner → UInt16
  | .world _ => 1
  | .node _ => 2
  | .domain _ => 3
  | .process _ => 4

theorem encodeOwner_number {owner : ResourceOwner} (enc : encodeOwner owner = .ok bs) :
    ∃ back, bs = putU16 owner.number ++ back := by
  cases owner <;>
  · simp only [encodeOwner, bind_eq_ok] at enc
    obtain ⟨back, _, ⟨⟩⟩ := enc
    exact ⟨back, rfl⟩

/-- One kind of owner, after its number. -/
theorem exact_owner {α : Type} {parser : IdentityParse α}
    {write : α → Except IdentityWireError Bytes} {build : α → ResourceOwner} {num : UInt16}
    (hex : Exact parser fun v bs => write v = .ok bs)
    (encodes : ∀ v, encodeOwner (build v) = do return putU16 num ++ (← write v))
    (numbered : ∀ owner, owner.number = num ↔ ∃ v, owner = build v) :
    Exact (do return build (← parser)) fun owner bs =>
      owner.number = num ∧ encodeOwner owner = .ok (putU16 num ++ bs) := by
  refine (hex.map build).congr ?_
  intro owner bs
  rw [numbered]
  constructor
  · rintro ⟨v, rfl, wrote⟩
    refine ⟨⟨v, rfl⟩, ?_⟩
    rw [encodes, wrote]
    rfl
  · rintro ⟨⟨v, rfl⟩, enc⟩
    rw [encodes, bind_eq_ok] at enc
    obtain ⟨hwr, wrote, hret⟩ := enc
    have he : putU16 num ++ hwr = putU16 num ++ bs := Except.ok.inj hret
    rw [append_cancel_left he] at wrote
    exact ⟨v, rfl, wrote⟩

theorem exact_decodeOwner : Exact decodeOwner fun owner bs => encodeOwner owner = .ok bs := by
  have branch (hf : UInt16) : Exact (if hf = 1 then do return .world (← decodeWorld)
        else if hf = 2 then do return .node (← decodeNode)
        else if hf = 3 then do return .domain (← decodeDomain)
        else if hf = 4 then do return .process (← decodeProcess)
        else throw (.unknownResourceOwner hf)) fun owner bs =>
        owner.number = hf ∧ encodeOwner owner = .ok (putU16 hf ++ bs) := by
    by_cases world : hf = 1
    · rw [if_pos world, world]
      exact exact_owner exact_decodeWorld (fun _ => rfl) fun owner => by
        cases owner <;> simp [ResourceOwner.number]
    rw [if_neg world]
    by_cases n : hf = 2
    · rw [if_pos n, n]
      exact exact_owner exact_decodeNode (fun _ => rfl) fun owner => by
        cases owner <;> simp [ResourceOwner.number]
    rw [if_neg n]
    by_cases domain : hf = 3
    · rw [if_pos domain, domain]
      exact exact_owner exact_decodeDomain (fun _ => rfl) fun owner => by
        cases owner <;> simp [ResourceOwner.number]
    rw [if_neg domain]
    by_cases process : hf = 4
    · rw [if_pos process, process]
      exact exact_owner exact_decodeProcess (fun _ => rfl) fun owner => by
        cases owner <;> simp [ResourceOwner.number]
    rw [if_neg process]
    refine (Exact.throw _).congr fun owner bs => ?_
    simp only [false_iff, not_and]
    rintro rfl
    cases owner
    · exact absurd rfl world
    · exact absurd rfl n
    · exact absurd rfl domain
    · exact absurd rfl process
  refine (Exact.bind (.takeU16 _) branch).congr ?_
  intro owner bs
  constructor
  · rintro ⟨_, _, _, rfl, rfl, rfl, enc⟩
    exact enc
  · intro enc
    obtain ⟨back, rfl⟩ := encodeOwner_number enc
    exact ⟨_, _, back, rfl, rfl, rfl, enc⟩

theorem exact_decodeResource : Exact decodeResource fun idn bs => encodeResource idn = .ok bs :=
  (exact_generated exact_decodeOwner fun _ _ _ => rfl).congr fun _ _ =>
    and_iff_right ⟨_, _, _, rfl⟩

/-- A record that holds one identity. -/
theorem exact_wrapped {α : Type} {parser : IdentityParse α}
    {write : α → Except IdentityWireError Bytes} {build : α → IdentityWireRecord}
    (hex : Exact parser fun v bs => write v = .ok bs) (encodes : ∀ v, (build v).payload = write v)
    (kinds : ∀ rcd : IdentityWireRecord, rcd.kind = kind ↔ ∃ v, rcd = build v) :
    Exact (do return build (← parser)) fun rcd bs =>
      rcd.kind = kind ∧ rcd.payload = .ok bs := by
  refine (hex.map build).congr ?_
  intro rcd bs
  rw [kinds]
  constructor
  · rintro ⟨v, rfl, wrote⟩
    exact ⟨⟨v, rfl⟩, (encodes v).trans wrote⟩
  · rintro ⟨⟨v, rfl⟩, enc⟩
    exact ⟨v, rfl, (encodes v).symm.trans enc⟩

/-- A record whose identity is made of an outer one and a name. -/
theorem exact_namedRecord {α : Type} {out : IdentityParse α}
    {write : α → Except IdentityWireError Bytes} {build : α → Checked check → IdentityWireRecord}
    (hex : Exact out fun v bs => write v = .ok bs)
    (encodes : ∀ v name, (build v name).payload = do return (← write v) ++ (← putText name.value))
    (kinds : ∀ rcd : IdentityWireRecord, rcd.kind = kind ↔ ∃ v name, rcd = build v name) :
    Exact (do return build (← out) (← readSimple (Checked.new check))) fun rcd bs =>
      rcd.kind = kind ∧ rcd.payload = .ok bs :=
  (exact_named hex encodes).congr fun rcd _ => and_congr_left' (kinds rcd).symm

theorem exact_decodePayload (kind : IdentityWireKind) : Exact (decodePayload kind) fun rcd bs =>
      rcd.kind = kind ∧ rcd.payload = .ok bs := by
  cases kind with
  | world =>
    exact exact_wrapped exact_decodeWorld (fun _ => rfl) fun rcd => by
      cases rcd <;> simp [IdentityWireRecord.kind]
  | governor =>
    refine (exact_decodeWorld.map₃ exact_readCounter exact_readCounter
      fun world term logIndex => IdentityWireRecord.governor ⟨world, term, logIndex⟩).congr ?_
    intro rcd bs
    constructor
    · rintro ⟨world, term, logIndex, _, _, _, rfl, rfl, wrote, rfl, rfl⟩
      refine ⟨rfl, ?_⟩
      rw [IdentityWireRecord.payload, wrote]
      rfl
    · rintro ⟨governor, enc⟩
      cases rcd <;> cases governor
      rw [IdentityWireRecord.payload, bind_eq_ok] at enc
      obtain ⟨_, wrote, ⟨⟩⟩ := enc
      exact ⟨_, _, _, _, _, _, rfl, rfl, wrote, rfl, rfl⟩
  | node =>
    exact exact_wrapped exact_decodeNode (fun _ => rfl) fun rcd => by
      cases rcd <;> simp [IdentityWireRecord.kind]
  | domain =>
    exact exact_wrapped exact_decodeDomain (fun _ => rfl) fun rcd => by
      cases rcd <;> simp [IdentityWireRecord.kind]
  | process =>
    exact exact_wrapped exact_decodeProcess (fun _ => rfl) fun rcd => by
      cases rcd <;> simp [IdentityWireRecord.kind]
  | resource =>
    exact exact_wrapped exact_decodeResource (fun _ => rfl) fun rcd => by
      cases rcd <;> simp [IdentityWireRecord.kind]
  | object =>
    have generated : Exact (decodePayload .object) fun rcd bs =>
        (∃ world object version, rcd = .object ⟨world, object, version⟩) ∧ rcd.payload = .ok bs :=
      exact_generated exact_readSimple fun _ _ _ => rfl
    refine generated.congr fun rcd bs => ?_
    refine and_congr_left' ⟨fun ⟨_, _, _, he⟩ => he ▸ rfl, fun object => ?_⟩
    cases rcd <;> cases object
    exact ⟨_, _, _, rfl⟩
  | capability | lease | task | receipt =>
    refine exact_namedRecord exact_readSimple (fun _ _ => rfl) fun rcd => ?_
    cases rcd <;> simp [IdentityWireRecord.kind]
    exact ⟨_, _, rfl⟩
  | attempt =>
    exact exact_wrapped exact_decodeAttempt (fun _ => rfl) fun rcd => by
      cases rcd <;> simp [IdentityWireRecord.kind]
  | checkpoint =>
    refine exact_namedRecord exact_decodeAttempt (fun _ _ => rfl) fun rcd => ?_
    cases rcd <;> simp [IdentityWireRecord.kind]
    exact ⟨_, _, rfl⟩

theorem IdentityWireKind.fromU16_eq_ok {v : UInt16} :
    IdentityWireKind.fromU16 v = .ok kind ↔ v = kind.toU16 := by
  rw [fromU16, okOr_eq_ok]
  constructor
  · intro hf
    exact (beq_iff_eq.mp (find?_some hf :)).symm
  · rintro rfl
    cases kind <;> rfl

theorem exact_decodeRecord (len : Nat) : Exact (decodeRecord len) fun rcd bs =>
      len ≤ maxIdentityWireRecordBytes ∧ ∃ pl, rcd.payload = .ok pl ∧
        bs = identityWireMagic ++ putU16 identityWireVersion ++ putU16 rcd.kind.toU16 ++
          putU32 (.ofNat len) ++ pl := by
  unfold decodeRecord
  refine .congr (.bind (.take _ _) fun _ => .bailIf_bind (.bind (.takeU16 _) fun _ =>
    .bailIf_bind (.bind (.takeU16 _) fun _ => .lift_bind fun _ => .bind (.takeU32 _) fun _ =>
    .bailIf_bind (.bailIf_bind (exact_decodePayload _))))) ?_
  intro rcd bs
  simp only [bne_eq_false_iff_eq, decide_eq_false_iff_not, Nat.not_lt,
    IdentityWireKind.fromU16_eq_ok]
  constructor
  · rintro ⟨_, _, _, rfl, ⟨rfl, _⟩, rfl, _, _, _, rfl, rfl, rfl, _, _, _, rfl, rfl, _, rfl,
      hd, _, pl, rfl, rfl, hsm, rfl, rfl, enc⟩
    refine ⟨hsm, pl, enc, ?_⟩
    rw [UInt32.ofNat_toNat]
    simp only [append_assoc]
  · rintro ⟨hsm, pl, enc, rfl⟩
    have fits : len < 2 ^ 32 := Nat.lt_of_le_of_lt hsm (by decide)
    refine ⟨_, identityWireMagic, _, ?_, ⟨rfl, rfl⟩, rfl, _, _, _, rfl, rfl, rfl, _, _, _, rfl, rfl,
      _, rfl, _, _, pl, rfl, rfl, ?_, UInt32.toNat_ofNat_of_lt' fits, rfl, enc⟩
    · simp only [append_assoc]
    · rw [UInt32.toNat_ofNat_of_lt' fits]
      exact hsm

theorem IdentityWireRecord.encode_eq_ok {rcd : IdentityWireRecord} : rcd.encode = .ok bs ↔
      bs.length ≤ maxIdentityWireRecordBytes ∧ ∃ pl, rcd.payload = .ok pl ∧
        bs = identityWireMagic ++ putU16 identityWireVersion ++ putU16 rcd.kind.toU16 ++
          putU32 (.ofNat bs.length) ++ pl := by
  have total (pl : Bytes) (len : UInt32) :
      (identityWireMagic ++ putU16 identityWireVersion ++ putU16 rcd.kind.toU16 ++
        putU32 len ++ pl).length = identityWireHeaderBytes + pl.length := by
    simp only [length_append, putU16, putU32, length_toBigEndian]
    rfl
  rw [encode, bind_eq_ok]
  constructor
  · rintro ⟨pl, enc, hk⟩
    obtain ⟨_, hsm, hret⟩ := bind_eq_ok.mp hk
    rw [bailIf_eq_ok, decide_eq_false_iff_not, Nat.not_lt] at hsm
    cases hret
    rw [total]
    exact ⟨hsm, pl, enc, rfl⟩
  · rintro ⟨hsm, pl, enc, split⟩
    have len : bs.length = identityWireHeaderBytes + pl.length := by
      rw [split, total]
    refine ⟨pl, enc, bind_eq_ok.mpr ⟨(), ?_, ?_⟩⟩
    · rw [bailIf_eq_ok, decide_eq_false_iff_not, Nat.not_lt, ← len]
      exact hsm
    · rw [← len, ← split]
      rfl

/-- The decoder accepts exactly the encodings. -/
theorem IdentityWireRecord.decode_eq_ok {rcd : IdentityWireRecord} :
    IdentityWireRecord.decode bs = .ok rcd ↔ rcd.encode = .ok bs := by
  have hex := (exact_decodeRecord bs.length).all bs rcd
  refine .trans ?_ (hex.trans IdentityWireRecord.encode_eq_ok.symm)
  simp only [IdentityWireRecord.decode, bind_eq_ok, bailIf_eq_ok, decide_eq_false_iff_not,
    Nat.not_lt]
  constructor
  · rintro ⟨_, hsm, _, _, ⟨_, tl⟩, hpar, _, used, ⟨⟩⟩
    rw [bne_eq_false_iff_eq, length_eq_zero_iff] at used
    obtain rfl : tl = [] := used
    exact hpar
  · intro hpar
    obtain ⟨hsm, _, _, split⟩ := hex.mp hpar
    refine ⟨(), hsm, (), ?_, (rcd, []), hpar, (), rfl, rfl⟩
    rw [split]
    simp only [length_append, putU16, putU32, length_toBigEndian]
    exact Nat.le_add_right _ _

/-! ## Every identity fits -/

theorem length_component_le {kind : String} (name : Checked (validateComponent kind)) :
    (utf8Bytes name.value).length ≤ 128 := by
  have valid := name.valid
  simp only [validateComponent, bind_eq_ok, bailIf_eq_ok, decide_eq_false_iff_not,
    Nat.not_lt] at valid
  obtain ⟨_, _, _, short, _⟩ := valid
  exact short

theorem length_resource_le (name : ResourceId) : (utf8Bytes name.value).length ≤ 256 := by
  have valid := name.valid
  simp only [validateResourcePath, bind_eq_ok, bailIf_eq_ok, decide_eq_false_iff_not,
    Nat.not_lt] at valid
  obtain ⟨_, _, _, short, _⟩ := valid
  exact short

namespace IdentityWireRecord

theorem exists_payload (record : IdentityWireRecord) :
    ∃ payload, record.payload = .ok payload ∧ payload.length ≤ 1008 := by
  have text {value : String} (short : (utf8Bytes value).length ≤ 256) :=
    putText_eq_ok.mpr ⟨Nat.lt_of_le_of_lt short (by decide), rfl⟩
  have simple {kind : String} (name : Checked (validateComponent kind)) :=
    text ((length_component_le name).trans (by decide))
  have resource (name : ResourceId) := text (length_resource_le name)
  -- a resource of each kind of owner
  rcases record with _ | _ | _ | _ | _ | ⟨_ | _ | _ | _⟩ | _ | _ | _ | _ | _ | _ | _
  all_goals
    simp [payload, encodeWorld, encodeNode, encodeDomain, encodeProcess, encodeAttempt,
      encodeOwner, encodeResource, simple, resource, pure, Except.pure, putU64, putU16]
    grind [length_component_le, length_resource_le]

/-- Every identity has exactly one encoding, which the decoder takes back to the identity. -/
theorem encode_unique (record : IdentityWireRecord) :
    ∃ bytes, record.encode = .ok bytes ∧ ∀ other, decode other = .ok record ↔ other = bytes := by
  obtain ⟨payload, wrote, short⟩ := record.exists_payload
  obtain ⟨bytes, encoded⟩ : ∃ bytes, record.encode = .ok bytes := by
    refine ⟨_, bind_eq_ok.mpr ⟨payload, wrote, bind_eq_ok.mpr ⟨(), ?_, rfl⟩⟩⟩
    rw [bailIf_eq_ok, decide_eq_false_iff_not, Nat.not_lt]
    exact Nat.add_le_add_left short 16
  refine ⟨bytes, encoded, fun other => ?_⟩
  rw [decode_eq_ok, encoded, Except.ok.injEq, eq_comm]

end IdentityWireRecord

end Exact

end Ostadix.World

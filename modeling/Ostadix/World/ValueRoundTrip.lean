import Ostadix.World.ValueCodec

/-! # The codec of portable values is canonical

Each decoder is `Exact` for the encoder of the same part. For nodes this is an induction over the
levels that are left, with one lemma per tag. -/

namespace Ostadix.World

open Lib Parse List Nat

/-! ## Parts of payloads -/

theorem length_putU8 (v : UInt8) : (putU8 v).length = 1 := length_toBigEndian 1 _

theorem length_putU16 (v : UInt16) : (putU16 v).length = 2 := length_toBigEndian 2 _

theorem length_putU32 (v : UInt32) : (putU32 v).length = 4 := length_toBigEndian 4 _

theorem putU8_eq (v : UInt8) : putU8 v = [v] := by
  simp [putU8, toBigEndian]

theorem validateIdentifier_short {v fd : String}
    (hv : validateIdentifier v fd = .ok ()) : (utf8Bytes v).length < 2 ^ 16 := by
  simp only [validateIdentifier, bailIf_eq_ok, Bool.or_eq_false_iff, decide_eq_false_iff_not,
    not_lt] at hv
  exact lt_of_le_of_lt hv.1.1.2 (by decide)

theorem validateRecordKey_short {k : Bytes} (hv : validateRecordKey k = .ok ()) :
    k.length < 2 ^ 16 := by
  simp only [validateRecordKey, bailIf_eq_ok, Bool.or_eq_false_iff, decide_eq_false_iff_not,
    not_lt] at hv
  exact lt_of_le_of_lt hv.1.2 (by decide)

theorem exact_takeDigest : Exact takeDigest fun dg bs => bs = dg.bytes := by
  have branch (taken : Bytes) : Exact (if len : taken.length = 32 then
      (pure ⟨taken, len⟩ : ValueParse Digest) else throw (.truncated 32 taken.length))
      fun dg bs => taken = dg.bytes ∧ bs = [] := by
    split
    · refine (Exact.pure _).congr fun dg bs => and_congr_left' ?_
      obtain ⟨_, _⟩ := dg
      rw [Digest.mk.injEq, eq_comm]
    · rename_i len
      refine (Exact.throw _).congr fun dg bs => ?_
      simp only [false_iff, not_and]
      rintro rfl
      exact absurd dg.length len
  refine (Exact.bind (.take _ _) branch).congr ?_
  intro dg bs
  constructor
  · rintro ⟨_, _, _, rfl, ⟨rfl, _⟩, rfl, rfl⟩
    rw [append_nil]
  · rintro rfl
    exact ⟨_, _, [], (append_nil _).symm, ⟨rfl, dg.length⟩, rfl, rfl⟩

theorem exact_takeIdentifierExact (len : Nat) (fd : String) :
    Exact (takeIdentifierExact len fd) fun v bs =>
      bs = utf8Bytes v ∧ bs.length = len ∧ validateIdentifier v fd = .ok () := by
  unfold takeIdentifierExact
  refine .congr (.bind (.take _ _) fun _ => .lift_bind fun _ => .lift_bind fun _ => .pure _) ?_
  intro v bs
  simp only [okOr_eq_ok]
  constructor
  · rintro ⟨_, _, _, rfl, ⟨rfl, len⟩, _, read, _, hv, rfl, rfl⟩
    rw [append_nil]
    exact ⟨(utf8Bytes_of_fromUtf8 read).symm, len, hv⟩
  · rintro ⟨rfl, len, hv⟩
    exact ⟨_, _, [], (append_nil _).symm, ⟨rfl, len⟩, v, fromUtf8_utf8Bytes v, (), hv, rfl, rfl⟩

theorem exact_takeCollectionPrefix (tag : UInt16) : Exact (takeCollectionPrefix tag) fun n bs =>
      n < 2 ^ 16 ∧ bs = collectionPrefix n := by
  refine .require_bind ?_ ?_
  · refine .congr (.bind (.takeU16 _) fun _ => .bind (.takeU16 _) fun _ =>
      .bailIf_bind (.pure _)) ?_
    intro n bs
    simp only [bne_eq_false_iff_eq]
    constructor
    · rintro ⟨hf, _, _, rfl, rfl, _, _, _, rfl, rfl, rfl, rfl, rfl⟩
      refine ⟨UInt16.toNat_lt hf, ?_⟩
      rw [collectionPrefix, UInt16.ofNat_toNat, append_nil]
    · rintro ⟨fits, rfl⟩
      exact ⟨_, _, _, rfl, rfl, _, _, [], (append_nil _).symm, rfl, rfl,
        (UInt16.toNat_ofNat_of_lt' fits).symm, rfl⟩
  · rintro n bs ⟨_, rfl⟩
    rw [collectionPrefix, length_append, length_putU16, length_putU16]

theorem exact_takeReserved (tag : UInt16) :
    Exact (takeReserved tag) fun _ bs => bs = [0, 0, 0] := by
  unfold takeReserved
  refine .congr (.bind (.takeU8 _) fun _ => .bind (.takeU16 _) fun _ => .lift _) ?_
  intro _ bs
  simp only [bailIf_eq_ok, Bool.or_eq_false_iff, bne_eq_false_iff_eq]
  constructor
  · rintro ⟨_, _, _, rfl, rfl, _, _, _, rfl, rfl, ⟨rfl, rfl⟩, rfl⟩
    rfl
  · rintro rfl
    exact ⟨0, [0], [0, 0], rfl, rfl, 0, [0, 0], [], rfl, rfl, ⟨rfl, rfl⟩, rfl⟩

/-! ## Scalars -/

theorem exactAll_decodeBool (tag : UInt16) :
    ExactAll (decodeBool tag) fun v bs => bs = [if v then 1 else 0] := by
  have branch (byte : UInt8) : ExactAll (if byte = 0 then pure false
      else if byte = 1 then pure true
      else throw (.invalidPayloadLength tag 1 1) : ValueParse Bool)
      fun v bs => byte = (if v then 1 else 0) ∧ bs = [] := by
    by_cases zero : byte = 0
    · rw [if_pos zero, zero]
      refine (Exact.pure false).all.congr fun v bs => and_congr_left' ?_
      cases v <;> simp
    rw [if_neg zero]
    by_cases one : byte = 1
    · rw [if_pos one, one]
      refine (Exact.pure true).all.congr fun v bs => and_congr_left' ?_
      cases v <;> simp
    rw [if_neg one]
    refine (Exact.throw _).all.congr fun v bs => ?_
    cases v <;> simp [zero, one]
  unfold decodeBool requirePayload
  refine (ExactAll.requireExactly_bind (.bind (.takeU8 _) branch)).congr ?_
  intro v bs
  constructor
  · rintro ⟨_, byte, _, _, rfl, rfl, rfl, rfl⟩
    rw [putU8_eq]
    rfl
  · rintro rfl
    exact ⟨rfl, _, _, [], (append_nil _).symm, (putU8_eq _).symm, rfl, rfl⟩

theorem exactAll_decodeChar (tag : UInt16) :
    ExactAll (decodeChar tag) fun v bs => bs = putU32 v.val := by
  unfold decodeChar requirePayload
  refine (ExactAll.requireExactly_bind (.bind (.takeU32 _) fun _ => (Exact.lift _).all)).congr ?_
  intro v bs
  have fromU32 {sca : UInt32} : charFromU32 sca = .ok v ↔ sca = v.val := by
    obtain ⟨_, hv⟩ := v
    rw [charFromU32]
    split
    · simp [Except.ok.injEq, Char.ext_iff]
    · rename_i invalid
      constructor
      · intro bad
        cases bad
      · rintro rfl
        exact absurd hv invalid
  simp only [fromU32]
  constructor
  · rintro ⟨_, sca, _, _, rfl, rfl, rfl, rfl⟩
    rw [append_nil]
  · rintro rfl
    exact ⟨length_putU32 _, _, _, [], (append_nil _).symm, rfl, rfl, rfl⟩

theorem magnitudeBytes_of_ne {integer : Int} (hnz : integer ≠ 0) :
    magnitudeBytes integer = bigEndianDigits integer.natAbs := if_neg hnz

variable {bytes : Bytes} {depth ns t : Nat}

theorem encodeInteger_eq_ok {integer : Int} : encodeInteger integer = .ok bytes ↔
      (magnitudeBytes integer).length ≤ maxOvalueIntegerBytes ∧ bytes = if integer = 0 then [0]
          else if 0 < integer then 0 :: magnitudeBytes integer else 1 :: magnitudeBytes integer := by
  simp only [encodeInteger, bind_eq_ok, bailIf_eq_ok, decide_eq_false_iff_not, not_lt]
  by_cases zero : integer = 0
  · simp [zero, pure, Except.pure, eq_comm]
  · by_cases hpos : 0 < integer <;> simp [zero, hpos, pure, Except.pure, eq_comm]

/-- A sign byte and a magnitude without leading zero; zero has neither sign nor magnitude. -/
theorem encodeInteger_iff {integer : Int} : encodeInteger integer = .ok bytes ↔
      ∃ sign mag, bytes = putU8 sign ++ mag ∧ mag.length ≤ maxOvalueIntegerBytes ∧
        (decide (1 < sign) || mag.head? == some 0 || mag.isEmpty && sign != 0) = false ∧
        integer = if sign = 1 then -(ofBigEndian mag : Int) else ofBigEndian mag := by
  simp only [encodeInteger_eq_ok, putU8_eq, singleton_append]
  constructor
  · rintro ⟨hsh, rfl⟩
    by_cases zero : integer = 0
    · subst zero
      exact ⟨0, [], rfl, by decide, rfl, rfl⟩
    rw [if_neg zero]
    rw [magnitudeBytes_of_ne zero] at hsh ⊢
    have leading := bigEndianDigits_head? integer.natAbs
    have hnil := bigEndianDigits_ne_nil (Int.natAbs_ne_zero.mpr zero)
    have can (sign : UInt8) (hsm : ¬ 1 < sign) :
        (decide (1 < sign) || (bigEndianDigits integer.natAbs).head? == some 0 ||
          (bigEndianDigits integer.natAbs).isEmpty && sign != 0) = false := by
      simp [hsm, leading, hnil]
    split
    · rename_i hpos
      refine ⟨0, _, rfl, hsh, can 0 (by decide), ?_⟩
      rw [ofBigEndian_bigEndianDigits, if_neg (by decide)]
      exact (Int.natAbs_of_nonneg (Int.le_of_lt hpos)).symm
    · rename_i hpos
      refine ⟨1, _, rfl, hsh, can 1 (by decide), ?_⟩
      rw [ofBigEndian_bigEndianDigits, if_pos rfl]
      exact Int.eq_neg_natAbs_of_nonpos (Int.not_lt.mp hpos)
  · rintro ⟨sign, mag, rfl, hsh, can, rfl⟩
    simp only [Bool.or_eq_false_iff, decide_eq_false_iff_not, beq_eq_false_iff_ne, ne_eq,
      Bool.and_eq_false_iff, bne_eq_false_iff_eq] at can
    obtain ⟨⟨hsm, leading⟩, hsg⟩ := can
    have digits := bigEndianDigits_ofBigEndian leading
    cases mag with
    | nil =>
      obtain rfl : sign = 0 := by simpa using hsg
      exact ⟨by decide, rfl⟩
    | cons first oths =>
      have hnz : ofBigEndian (first :: oths) ≠ 0 := by
        intro zero
        rw [zero] at digits
        cases digits
      generalize ofBigEndian (first :: oths) = num at *
      by_cases negative : sign = 1
      · subst negative
        rw [if_pos rfl, magnitudeBytes_of_ne (by omega), Int.natAbs_neg, Int.natAbs_natCast, digits,
          if_neg (by omega), if_neg (by omega)]
        exact ⟨hsh, rfl⟩
      · obtain rfl : sign = 0 := by
          apply UInt8.toNat_inj.mp
          have hsm : ¬ 1 < sign.toNat := hsm
          have other : sign.toNat ≠ 1 := fun he => negative (UInt8.toNat_inj.mp he)
          show sign.toNat = 0
          omega
        rw [if_neg (by decide), magnitudeBytes_of_ne (by omega), Int.natAbs_natCast, digits,
          if_neg (by omega), if_pos (by omega)]
        exact ⟨hsh, rfl⟩

theorem exactAll_decodeInteger :
    ExactAll decodeInteger fun integer bs => encodeInteger integer = .ok bs := by
  refine .require_bind ?_ ?_
  · refine .congr (.bind (.takeU8 _) fun _ => .takeRemaining_bind) ?_
    intro integer bs
    simp only [lift_bailIf_bind_ok, encodeInteger_iff, decide_eq_false_iff_not, not_lt]
    constructor
    · rintro ⟨sign, _, mag, rfl, rfl, short, can, ⟨⟩⟩
      exact ⟨sign, mag, rfl, short, can, rfl⟩
    · rintro ⟨sign, mag, rfl, short, can, rfl⟩
      exact ⟨sign, _, mag, rfl, rfl, short, can, rfl⟩
  · intro integer bs enc
    obtain ⟨sign, mag, rfl, _⟩ := encodeInteger_iff.mp enc
    rw [length_append, length_putU8]
    exact le_add_right 1 _

theorem decodeFloatFormat_eq_ok {formatTag : UInt8} {len : Nat} {format : FloatFormat} :
    decodeFloatFormat formatTag len = .ok format ↔ formatTag = format.tag ∧ len = format.width := by
  rw [decodeFloatFormat]
  split
  · rename_i single
    rw [single.1, single.2]
    cases format <;> simp [FloatFormat.tag, FloatFormat.width]
  rename_i single
  split
  · rename_i double
    rw [double.1, double.2]
    cases format <;> simp [FloatFormat.tag, FloatFormat.width]
  rename_i double
  cases format with
  | f32 => simpa [FloatFormat.tag, FloatFormat.width] using single
  | f64 => simpa [FloatFormat.tag, FloatFormat.width] using double

theorem encodeBinaryFloat_eq_ok {format : FloatFormat} {bits bs : Bytes} :
    encodeBinaryFloat format bits = .ok bs ↔
      bits.length = format.width ∧ bs = putU8 format.tag ++ [0, 0, 0] ++ bits := by
  simp only [encodeBinaryFloat, bind_eq_ok, bailIf_eq_ok, bne_eq_false_iff_eq]
  simp [pure, Except.pure, eq_comm]

theorem exactAll_decodeBinaryFloat (tag : UInt16) : ExactAll (decodeBinaryFloat tag) fun num bs =>
      ∃ format bits, num = .binaryFloat format bits ∧ encodeBinaryFloat format bits = .ok bs := by
  refine .require_bind ?_ ?_
  · refine .congr (.bind (.takeU8 _) fun _ => .bind (exact_takeReserved _) fun _ =>
      .takeRemaining_bind) ?_
    intro num bs
    simp only [lift_bind_apply, bind_eq_ok, decodeFloatFormat_eq_ok, encodeBinaryFloat_eq_ok]
    constructor
    · rintro ⟨_, _, _, rfl, rfl, _, _, bits, rfl, rfl, format, ⟨rfl, w⟩, ⟨⟩⟩
      exact ⟨format, bits, rfl, w, (append_assoc _ _ _).symm⟩
    · rintro ⟨format, bits, rfl, w, rfl⟩
      exact ⟨_, _, _, append_assoc _ _ _, rfl, (), _, bits, rfl, rfl, format, ⟨rfl, w⟩, rfl⟩
  · rintro num bs ⟨format, bits, rfl, enc⟩
    obtain ⟨_, rfl⟩ := encodeBinaryFloat_eq_ok.mp enc
    rw [length_append, length_append, length_putU8]
    exact le_add_right 4 _

theorem decodeTextEncoding_eq_ok {byte : UInt8} {encoding : Option String} :
    decodeTextEncoding byte = .ok encoding ↔ textEncoding encoding = .ok byte := by
  rw [decodeTextEncoding, textEncoding]
  by_cases hab : encoding = none
  · rw [if_pos hab, hab]
    by_cases zero : byte = 0
    · simp [zero]
    · by_cases one : byte = 1 <;> simp [zero, one, eq_comm]
  rw [if_neg hab]
  by_cases utf8 : encoding = some "utf-8"
  · rw [if_pos utf8, utf8]
    by_cases zero : byte = 0
    · simp [zero]
    · by_cases one : byte = 1
      · simp [one]
      · simpa [zero, one] using Ne.symm one
  rw [if_neg utf8]
  by_cases zero : byte = 0
  · simpa [zero, eq_comm] using hab
  · by_cases one : byte = 1
    · simpa [one, eq_comm] using utf8
    · simp [zero, one]

variable {α : Type}

theorem takeUtf8Remaining_bind_ok {next : String → ValueParse α} {bs tl : Bytes} {r : α} :
    (takeUtf8Remaining >>= next) bs = .ok (r, tl) ↔
      ∃ text, bs = utf8Bytes text ∧ next text [] = .ok (r, tl) := by
  rw [Parse.bind_ok]
  constructor
  · rintro ⟨text, _, taken, hcnt⟩
    obtain ⟨_, _, rem, read⟩ := Parse.bind_ok.mp taken
    cases rem
    obtain ⟨hv, rfl⟩ := lift_ok.mp read
    rw [okOr_eq_ok] at hv
    exact ⟨text, (utf8Bytes_of_fromUtf8 hv).symm, hcnt⟩
  · rintro ⟨text, rfl, hcnt⟩
    refine ⟨text, [], Parse.bind_ok.mpr ⟨_, _, rfl, lift_ok.mpr ⟨?_, rfl⟩⟩, hcnt⟩
    rw [okOr_eq_ok, fromUtf8_utf8Bytes]

theorem encodeText_eq_ok {text : OText} :
    encodeText text = .ok bytes ↔ ∃ encoding, textEncoding text.encoding = .ok encoding ∧
      (utf8Bytes text.utf8).length ≤ maxOvalueTextBytes ∧
      bytes = putU8 encoding ++ [0, 0, 0] ++ utf8Bytes text.utf8 := by
  simp only [encodeText, bind_eq_ok, bailIf_eq_ok, exists_unit, pure_eq_ok, decide_eq_false_iff_not,
    not_lt]

theorem exactAll_decodeText (tag : UInt16) :
    ExactAll (decodeText tag) fun text bs => encodeText text = .ok bs := by
  refine .require_bind ?_ ?_
  · refine .congr (.bind (.takeU8 _) fun _ => .bind (exact_takeReserved _) fun _ =>
      fun _ _ => takeUtf8Remaining_bind_ok) ?_
    intro text bs
    simp only [lift_bind_apply, bind_eq_ok, bailIf_eq_ok, exists_const, decodeTextEncoding_eq_ok,
      encodeText_eq_ok, decide_eq_false_iff_not, not_lt]
    constructor
    · rintro ⟨encoding, _, _, rfl, rfl, _, _, rfl, rfl, text, rfl, short, _, named, ⟨⟩⟩
      exact ⟨encoding, named, short, (append_assoc _ _ _).symm⟩
    · rintro ⟨encoding, named, short, rfl⟩
      exact ⟨encoding, _, _, append_assoc _ _ _, rfl, _, _, rfl, rfl, text.utf8, rfl, short,
        text.encoding, named, rfl⟩
  · intro text bs enc
    obtain ⟨_, _, _, rfl⟩ := encodeText_eq_ok.mp enc
    rw [length_append, length_append, length_putU8]
    exact le_add_right 4 _

theorem exact_takeMedia (len : Nat) : Exact (takeMedia len) fun media bs =>
      bs.length = len ∧ ((media = none ∧ len = 0) ∨
        ∃ text, media = some text ∧ len ≠ 0 ∧ bs = utf8Bytes text) := by
  rw [takeMedia]
  split
  · rename_i zero
    refine (Exact.pure _).congr fun media bs => ?_
    simp only [zero, length_eq_zero_iff]
    constructor
    · rintro ⟨rfl, rfl⟩
      exact ⟨rfl, .inl ⟨rfl, trivial⟩⟩
    · rintro ⟨rfl, ⟨rfl, _⟩ | ⟨_, _, bad, _⟩⟩
      · exact ⟨rfl, rfl⟩
      · exact absurd rfl bad
  · rename_i zero
    refine .congr (.bind (.take _ _) fun _ => .lift_bind fun _ => .pure _) ?_
    intro media bs
    simp only [okOr_eq_ok]
    constructor
    · rintro ⟨_, _, _, rfl, ⟨rfl, len⟩, text, read, rfl, rfl⟩
      rw [append_nil]
      exact ⟨len, .inr ⟨text, rfl, zero, (utf8Bytes_of_fromUtf8 read).symm⟩⟩
    · rintro ⟨len, ⟨_, bad⟩ | ⟨text, rfl, _, rfl⟩⟩
      · exact absurd bad zero
      · exact ⟨_, _, [], (append_nil _).symm, ⟨rfl, len⟩, text, fromUtf8_utf8Bytes text, rfl, rfl⟩

theorem encodeBytes_eq_ok {v : OBytes} :
    encodeBytes v = .ok bytes ↔ validateMediaType v.mediaType = .ok () ∧
      v.bytes.length ≤ maxOvalueBytesBytes ∧
      (utf8Bytes (v.mediaType.getD "")).length < 2 ^ 16 ∧
      bytes = putU16 (.ofNat (utf8Bytes (v.mediaType.getD "")).length) ++ putU16 0 ++
        utf8Bytes (v.mediaType.getD "") ++ v.bytes := by
  simp only [encodeBytes, bind_eq_ok, bailIf_eq_ok, exists_unit, pure_eq_ok, decide_eq_false_iff_not,
    not_lt, not_le]

theorem utf8Bytes_ne_nil_of_media {text : String} (hv : validateMediaType (some text) = .ok ()) :
    (utf8Bytes text).length ≠ 0 := by
  intro empty
  have hno : text = "" := utf8Bytes_injective (length_eq_zero_iff.mp empty)
  rw [hno] at hv
  revert hv
  decide

theorem exactAll_decodeBytes (tag : UInt16) :
    ExactAll (decodeBytes tag) fun v bs => encodeBytes v = .ok bs := by
  refine .require_bind ?_ ?_
  · refine .congr (.bind (.takeU16 _) fun _ => .bind (.takeU16 _) fun _ => .bailIf_bind
      (.bind (exact_takeMedia _) fun _ => .lift_bind fun _ => .takeRemaining_bind)) ?_
    intro v bs
    simp only [lift_bind_apply, bind_eq_ok, bailIf_eq_ok, exists_const, encodeBytes_eq_ok,
      decide_eq_false_iff_not, not_lt, bne_eq_false_iff_eq]
    constructor
    · rintro ⟨mediaLen, _, _, rfl, rfl, _, _, _, rfl, rfl, rfl, media, mediaBytes, content, rfl,
        ⟨len, named⟩, _, hv, hsh, ⟨⟩⟩
      have hwr : mediaBytes = utf8Bytes (media.getD "") := by
        obtain ⟨rfl, zero⟩ | ⟨text, rfl, _, same⟩ := named
        · rw [zero, length_eq_zero_iff] at len
          rw [len]
          rfl
        · exact same
      have counted : mediaLen.toNat = (utf8Bytes (media.getD "")).length := by rw [← len, hwr]
      refine ⟨hv, hsh, ?_, ?_⟩
      · rw [← counted]
        exact UInt16.toNat_lt mediaLen
      · show _ = putU16 (.ofNat (utf8Bytes (media.getD "")).length) ++ _ ++ _ ++ _
        rw [← counted, UInt16.ofNat_toNat, hwr]
        simp only [append_assoc]
    · rintro ⟨hv, hsh, fits, rfl⟩
      have counted := UInt16.toNat_ofNat_of_lt' fits
      refine ⟨_, _, _, by simp only [append_assoc], rfl, _, _, _, rfl, rfl, rfl,
        v.mediaType, utf8Bytes (v.mediaType.getD ""), v.bytes, rfl, ⟨counted.symm, ?_⟩,
        (), hv, hsh, rfl⟩
      rw [counted]
      obtain ⟨content, media⟩ := v
      cases media with
      | none => exact .inl ⟨rfl, rfl⟩
      | some text => exact .inr ⟨text, rfl, utf8Bytes_ne_nil_of_media hv, rfl⟩
  · intro v bs enc
    obtain ⟨_, _, _, rfl⟩ := encodeBytes_eq_ok.mp enc
    simp only [length_append, length_putU16]
    omega

theorem encodeCodeRef_eq_ok {ref : PortableCodeRef} : encodeCodeRef ref = .ok bytes ↔
      validateIdentifier ref.evaluator "code evaluator" = .ok () ∧
      validateIdentifier ref.entrypoint "code entrypoint" = .ok () ∧
      bytes = putU16 codeDigestSha256 ++ putU16 0 ++
        putU16 (.ofNat (utf8Bytes ref.evaluator).length) ++
        putU16 (.ofNat (utf8Bytes ref.entrypoint).length) ++
        ref.digest.bytes ++ utf8Bytes ref.evaluator ++
        utf8Bytes ref.entrypoint := by
  simp only [encodeCodeRef, bind_eq_ok, exists_unit, pure_eq_ok]

theorem exactAll_decodeCodeRef (tag : UInt16) :
    ExactAll (decodeCodeRef tag) fun ref bs => encodeCodeRef ref = .ok bs := by
  refine .require_bind ?_ ?_
  · refine .congr (.bind (.takeU16 _) fun _ => .bind (.takeU16 _) fun _ =>
      .bind (.takeU16 _) fun _ => .bind (.takeU16 _) fun _ => .bailIf_bind
      (Exact.map₃ exact_takeDigest (exact_takeIdentifierExact _ _) (exact_takeIdentifierExact _ _)
        PortableCodeRef.mk).all) ?_
    intro ref bs
    simp only [Bool.or_eq_false_iff, bne_eq_false_iff_eq, encodeCodeRef_eq_ok]
    constructor
    · rintro ⟨_, _, _, rfl, rfl, _, _, _, rfl, rfl, evaluatorLen, _, _, rfl, rfl, entrypointLen, _, _,
        rfl, rfl, ⟨rfl, rfl⟩, digest, evaluator, entrypoint, _, _, _, rfl, rfl, rfl,
        ⟨rfl, evaluatorLength, evaluatorValid⟩, rfl, entrypointLength, entrypointValid⟩
      refine ⟨evaluatorValid, entrypointValid, ?_⟩
      rw [evaluatorLength, entrypointLength, UInt16.ofNat_toNat, UInt16.ofNat_toNat]
      simp only [append_assoc]
    · rintro ⟨evaluatorValid, entrypointValid, rfl⟩
      have evaluatorLength := UInt16.toNat_ofNat_of_lt' (validateIdentifier_short evaluatorValid)
      have entrypointLength := UInt16.toNat_ofNat_of_lt' (validateIdentifier_short entrypointValid)
      exact ⟨_, _, _, by simp only [append_assoc], rfl, _, _, _, rfl, rfl, _, _, _, rfl, rfl, _,
        _, ref.digest.bytes ++ (utf8Bytes ref.evaluator ++ utf8Bytes ref.entrypoint),
        rfl, rfl, ⟨rfl, rfl⟩, _, _, _, _, _, _, rfl, (append_assoc _ _ _).symm, rfl,
        ⟨rfl, evaluatorLength.symm, evaluatorValid⟩, rfl, entrypointLength.symm, entrypointValid⟩
  · intro ref bs enc
    obtain ⟨_, _, rfl⟩ := encodeCodeRef_eq_ok.mp enc
    simp only [length_append, length_putU16, ref.digest.length]
    omega

theorem exactAll_decodeObjectRef :
    ExactAll decodeObjectRef fun idn bs => encodeObjectRef idn = .ok bs := by
  unfold decodeObjectRef
  refine ExactAll.takeRemaining_bind.congr ?_
  intro idn bs
  simp only [lift_bind_apply, bind_eq_ok, mapError_eq_ok, IdentityWireRecord.decode_eq_ok]
  constructor
  · rintro ⟨hdec, enc, matched⟩
    cases hdec <;> try cases matched
    case object hdec =>
      simp only [lift_bind_apply, bind_eq_ok, bailIf_eq_ok, exists_const,
        bne_eq_false_iff_eq] at matched
      obtain ⟨_, can, rfl, ⟨⟩⟩ := matched
      exact can
  · intro enc
    refine ⟨.object idn, mapError_eq_ok.mp enc, ?_⟩
    simp only [lift_bind_apply, bind_eq_ok, bailIf_eq_ok, exists_const, bne_eq_false_iff_eq]
    exact ⟨bs, enc, rfl, rfl⟩

theorem encodeError_eq_ok {error : PortableError} :
    encodeError error = .ok bytes ↔ validateIdentifier error.code "error code" = .ok () ∧
      (utf8Bytes error.message).length ≤ maxOvalueTextBytes ∧
      bytes = putU16 (.ofNat (utf8Bytes error.code).length) ++ putU16 0 ++ utf8Bytes error.code ++
        utf8Bytes error.message := by
  simp only [encodeError, bind_eq_ok, bailIf_eq_ok, exists_unit, pure_eq_ok,
    decide_eq_false_iff_not, not_lt]

theorem exactAll_decodeError (tag : UInt16) :
    ExactAll (decodeError tag) fun err bs => encodeError err = .ok bs := by
  refine .require_bind ?_ ?_
  · refine .congr (.bind (.takeU16 _) fun _ => .bind (.takeU16 _) fun _ => .bailIf_bind
      (.bind (exact_takeIdentifierExact _ _) fun _ => fun _ _ => takeUtf8Remaining_bind_ok)) ?_
    intro err bs
    simp only [lift_bind_apply, bind_eq_ok, bailIf_eq_ok, exists_const, encodeError_eq_ok,
      decide_eq_false_iff_not, not_lt, bne_eq_false_iff_eq]
    constructor
    · rintro ⟨_, _, _, rfl, rfl, _, _, _, rfl, rfl, rfl, _, _, _, rfl, ⟨rfl, len, hv⟩,
        message, rfl, hsh, ⟨⟩⟩
      refine ⟨hv, hsh, ?_⟩
      rw [len, UInt16.ofNat_toNat]
      simp only [append_assoc]
    · rintro ⟨hv, hsh, rfl⟩
      have len := UInt16.toNat_ofNat_of_lt' (validateIdentifier_short hv)
      exact ⟨_, _, _, by simp only [append_assoc], rfl, _, _, _, rfl, rfl, rfl, _, _, _, rfl,
        ⟨rfl, len.symm, hv⟩, _, rfl, hsh, rfl⟩
  · intro err bs enc
    obtain ⟨_, _, rfl⟩ := encodeError_eq_ok.mp enc
    simp only [length_append, length_putU16]
    omega

theorem exact_takeIdentifier (fd : String) :
    Exact (takeIdentifier fd) fun v bs => validateIdentifier v fd = .ok () ∧
      bs = putU16 (.ofNat (utf8Bytes v).length) ++ putU16 0 ++ utf8Bytes v := by
  refine .require_bind ?_ ?_
  · refine .congr (.bind (.takeU16 _) fun _ => .bind (.takeU16 _) fun _ => .bailIf_bind
      (exact_takeIdentifierExact _ _)) ?_
    intro v bs
    simp only [bne_eq_false_iff_eq]
    constructor
    · rintro ⟨len, _, _, rfl, rfl, _, _, _, rfl, rfl, rfl, rfl, counted, hv⟩
      refine ⟨hv, ?_⟩
      rw [counted, UInt16.ofNat_toNat]
      simp only [append_assoc]
    · rintro ⟨hv, rfl⟩
      have len := UInt16.toNat_ofNat_of_lt' (validateIdentifier_short hv)
      exact ⟨_, _, _, by simp only [append_assoc], rfl, _, _, _, rfl, rfl, rfl, rfl, len.symm, hv⟩
  · rintro v bs ⟨_, rfl⟩
    simp only [length_append, length_putU16]
    omega

/-! ## Nodes -/

theorem finishNode_eq_ok {tag : UInt16} {payload bs : Bytes} :
    finishNode tag payload = .ok bs ↔ ovalueNodeHeaderBytes + payload.length < 2 ^ 32 ∧
      bs = putU16 tag ++ putU16 0 ++ putU32 (.ofNat (ovalueNodeHeaderBytes + payload.length)) ++
        payload := by
  simp only [finishNode, bind_eq_ok, bailIf_eq_ok, exists_const, decide_eq_false_iff_not, not_le]
  simp [pure, Except.pure, eq_comm]

theorem encodeNodeOf_eq_ok {tag : ValueResult NodeTag} {pl : Nat → ValueResult (Bytes × Nat)} :
    encodeNodeOf tag pl depth ns = .ok (bytes, t) ↔
      ∃ hent hf bd, enterNode depth ns = .ok hent ∧ tag = .ok hf ∧
        pl hent = .ok (bd, t) ∧ finishNode hf.toU16 bd = .ok bytes := by
  simp only [encodeNodeOf, bind_eq_ok, Prod.exists, pure_eq_ok, Prod.mk.injEq]
  grind

theorem wholePayload_eq_ok {pl : Bytes} {parser : ValueParse α} {v : α} :
    wholePayload pl parser = .ok v ↔ parser pl = .ok (v, []) := by
  simp only [wholePayload, bind_eq_ok, bailIf_eq_ok, exists_unit, Prod.exists, pure_eq_ok,
    bne_eq_false_iff_eq, length_eq_zero_iff]
  grind

theorem checkNodeLength_bind_ok {tag : UInt16} {dp : Nat} {next : Unit → ValueParse α}
    {inp tl : Bytes} {r : α} :
    (checkNodeLength tag dp >>= next) inp = .ok (r, tl) ↔
      ovalueNodeHeaderBytes ≤ dp ∧ dp - ovalueNodeHeaderBytes ≤ inp.length ∧
        next () inp = .ok (r, tl) := by
  rw [Parse.bind_ok, checkNodeLength]
  split
  · rename_i bad
    constructor
    · rintro ⟨_, _, impossible, _⟩
      cases impossible
    · rintro ⟨large, fits, _⟩
      obtain hsm | hsh := bad
      · exact absurd hsm (Nat.not_lt_of_le large)
      · exact absurd hsh (Nat.not_lt_of_le fits)
  · rename_i bad
    rw [not_or, not_lt, not_lt] at bad
    constructor
    · rintro ⟨_, _, passed, hcnt⟩
      cases passed
      exact ⟨bad.1, bad.2, hcnt⟩
    · rintro ⟨_, _, hcnt⟩
      exact ⟨(), inp, rfl, hcnt⟩

theorem exact_checkedPayload (tag : UInt16) (dp : Nat) (build : Bytes → α) : Exact (do
      checkNodeLength tag dp
      let pl ← take (dp - ovalueNodeHeaderBytes)
      return build pl) fun r bs =>
      r = build bs ∧ ovalueNodeHeaderBytes + bs.length = dp := by
  intro inp r tl
  have taken : Exact (do return build (← take (dp - ovalueNodeHeaderBytes))) _ :=
    (Exact.take _ _).map build
  rw [checkNodeLength_bind_ok, taken inp r tl]
  constructor
  · rintro ⟨_, _, _, rfl, pl, rfl, rfl, len⟩
    exact ⟨pl, rfl, rfl, by omega⟩
  · rintro ⟨bs, rfl, rfl, len⟩
    refine ⟨by omega, ?_, bs, rfl, bs, rfl, rfl, by omega⟩
    rw [length_append]
    omega

/-- A node is read as what `finish_node` writes. -/
theorem exact_takeNode (d ns : Nat) : Exact (takeNode d ns) fun n bs =>
      enterNode d ns = .ok n.2.2 ∧ finishNode n.1 n.2.1 = .ok bs := by
  have fs (hent : Nat) : Exact (do
      let tag ← takeU16
      let hrsv ← takeU16
      Parse.lift (bailIf (hrsv != 0) (.nonzeroNodeReserved tag hrsv))
      let hd ← takeU32
      checkNodeLength tag hd.toNat
      let pl ← take (hd.toNat - ovalueNodeHeaderBytes)
      return (tag, pl, hent)) fun n bs =>
        hent = n.2.2 ∧ finishNode n.1 n.2.1 = .ok bs := by
    refine .congr (.bind (.takeU16 _) fun tag => .bind (.takeU16 _) fun _ => .bailIf_bind
      (.bind (.takeU32 _) fun _ => exact_checkedPayload _ _ fun pl => (tag, pl, hent))) ?_
    intro n bs
    simp only [bne_eq_false_iff_eq, finishNode_eq_ok]
    constructor
    · rintro ⟨tag, _, _, rfl, rfl, _, _, _, rfl, rfl, rfl, hd, _, pl, rfl, rfl, rfl, len⟩
      refine ⟨rfl, ?_, ?_⟩
      · show ovalueNodeHeaderBytes + pl.length < 2 ^ 32
        rw [len]
        exact UInt32.toNat_lt hd
      · show _ = putU16 tag ++ putU16 0 ++ putU32 (.ofNat (ovalueNodeHeaderBytes + pl.length)) ++ pl
        rw [len, UInt32.ofNat_toNat]
        simp only [append_assoc]
    · obtain ⟨tag, pl, _⟩ := n
      rintro ⟨rfl, fits, rfl⟩
      exact ⟨tag, _, _, by simp only [append_assoc], rfl, _, _, _, rfl, rfl, rfl, _, _, pl,
        rfl, rfl, rfl, (UInt32.toNat_ofNat_of_lt' fits).symm⟩
  refine (Exact.lift_bind fun hent => (fs hent).require_bind ?_).congr ?_
  · rintro n bs ⟨_, hfin⟩
    obtain ⟨_, rfl⟩ := finishNode_eq_ok.mp hfin
    simp only [length_append, length_putU16, length_putU32]
    exact le_add_right 8 _
  · intro n bs
    constructor
    · rintro ⟨_, enters, rfl, hfin⟩
      exact ⟨enters, hfin⟩
    · rintro ⟨enters, hfin⟩
      exact ⟨_, enters, rfl, hfin⟩

/-! ## Collections -/

theorem encodeItems_cons_eq_ok {x : PortableOValue} {xs : List PortableOValue} :
    encodeItems (x :: xs) depth ns = .ok (bytes, t) ↔
      ∃ first mid oths, encodeCoreNode x depth ns = .ok (first, mid) ∧
        encodeItems xs depth mid = .ok (oths, t) ∧ bytes = first ++ oths := by
  simp only [encodeItems, encodeCoreNode, bind_eq_ok, Prod.exists, pure_eq_ok, Prod.mk.injEq]
  grind

theorem encodeFields_cons_eq_ok {k : String} {v : PortableOValue}
    {fs : List (String × PortableOValue)} {prior : Option Bytes} :
    encodeFields ((k, v) :: fs) prior depth ns = .ok (bytes, t) ↔
      ∃ first mid oths, validateRecordKey (utf8Bytes k) = .ok () ∧
        checkOrder .duplicateRecordKey .nonCanonicalRecordOrder prior (utf8Bytes k) = .ok () ∧
        encodeCoreNode v depth ns = .ok (first, mid) ∧
        encodeFields fs (some (utf8Bytes k)) depth mid = .ok (oths, t) ∧
        bytes = putU16 (.ofNat (utf8Bytes k).length) ++ utf8Bytes k ++ first ++ oths := by
  simp only [encodeFields, encodeCoreNode, bind_eq_ok, exists_unit, Prod.exists, pure_eq_ok,
    Prod.mk.injEq]
  grind

theorem encodeEntries_cons_eq_ok {k v : PortableOValue}
    {es : List (PortableOValue × PortableOValue)} {prior : Option Bytes} :
    encodeEntries ((k, v) :: es) prior depth ns = .ok (bytes, t) ↔
      ∃ keyBytes between first mid oths, isScalarMapKey k = true ∧
        encodeCoreNode k depth ns = .ok (keyBytes, between) ∧
        checkOrder .duplicateMapKey .nonCanonicalMapOrder prior keyBytes = .ok () ∧
        encodeCoreNode v depth between = .ok (first, mid) ∧
        encodeEntries es (some keyBytes) depth mid = .ok (oths, t) ∧
        bytes = keyBytes ++ first ++ oths := by
  simp only [encodeEntries, encodeCoreNode, bind_eq_ok, bailIf_eq_ok, exists_unit, Prod.exists,
    pure_eq_ok, Prod.mk.injEq, Bool.not_eq_false']
  grind

theorem exact_nothing (encode : List α → ValueResult (Bytes × Nat)) {ns : Nat}
    (hno : encode [] = .ok ([], ns)) :
    Exact (pure ([], ns) : ValueParse (List α × Nat)) fun r bs =>
      r.1.length = 0 ∧ encode r.1 = .ok (bs, r.2) := by
  refine (Exact.pure _).congr ?_
  rintro ⟨pts, _⟩ bs
  constructor
  · rintro ⟨he, rfl⟩
    cases he
    exact ⟨rfl, hno⟩
  · rintro ⟨empty, enc⟩
    obtain rfl : pts = [] := length_eq_zero_iff.mp empty
    rw [hno] at enc
    cases enc
    exact ⟨rfl, rfl⟩

section Children

variable {child : Nat → ValueParse (PortableOValue × Nat)} {depth : Nat}
  (exactChild : ∀ ns, Exact (child ns) fun result bytes =>
    encodeCoreNode result.1 depth ns = .ok (bytes, result.2))
include exactChild

theorem exact_decodeItems (n ns : Nat) : Exact (decodeItems child n ns) fun r bs =>
      r.1.length = n ∧ encodeItems r.1 depth ns = .ok (bs, r.2) := by
  induction n generalizing ns with
  | zero => exact exact_nothing (encodeItems · depth ns) rfl
  | succ n ih =>
    refine .congr (.bind (exactChild ns) fun first => .bind (ih first.2) fun oths =>
      .pure (first.1 :: oths.1, oths.2)) ?_
    rintro ⟨xs, t⟩ bs
    constructor
    · rintro ⟨⟨x, mid⟩, first, _, rfl, wroteFirst, ⟨oths, _⟩, back, _, rfl, ⟨rfl, hwo⟩, he, rfl⟩
      cases he
      rw [append_nil]
      exact ⟨rfl, encodeItems_cons_eq_ok.mpr ⟨first, mid, back, wroteFirst, hwo, rfl⟩⟩
    · rintro ⟨len, enc⟩
      cases xs with
      | nil => cases len
      | cons x xs =>
        obtain ⟨first, mid, back, wroteFirst, hwo, rfl⟩ := encodeItems_cons_eq_ok.mp enc
        exact ⟨(x, mid), first, back, rfl, wroteFirst, (xs, t), back, [],
          (append_nil _).symm, ⟨succ.inj len, hwo⟩, rfl, rfl⟩

theorem exact_decodeFields (n : Nat) (prior : Option Bytes) (ns : Nat) :
    Exact (decodeFields child n prior ns) fun r bs =>
      r.1.length = n ∧ encodeFields r.1 prior depth ns = .ok (bs, r.2) := by
  induction n generalizing prior ns with
  | zero => exact exact_nothing (encodeFields · prior depth ns) rfl
  | succ n ih =>
    refine .congr (.bind (.takeU16 _) fun _ => .bind (.take _ _) fun keyBytes =>
      .lift_bind fun _ => .lift_bind fun _ => .lift_bind fun k => .bind (exactChild ns)
      fun first => .bind (ih (some keyBytes) first.2) fun oths =>
      .pure ((k, first.1) :: oths.1, oths.2)) ?_
    rintro ⟨fs, t⟩ bs
    simp only [okOr_eq_ok]
    constructor
    · rintro ⟨_, _, _, rfl, rfl, keyBytes, _, _, rfl, ⟨rfl, len⟩, _, hv, _, hord, k,
        read, ⟨v, mid⟩, first, _, rfl, wroteFirst, ⟨oths, _⟩, back, _, rfl,
        ⟨rfl, hwo⟩, he, rfl⟩
      cases he
      obtain rfl := utf8Bytes_of_fromUtf8 read
      refine ⟨rfl, encodeFields_cons_eq_ok.mpr ⟨first, mid, back, hv, hord, wroteFirst, hwo, ?_⟩⟩
      rw [len, UInt16.ofNat_toNat]
      simp only [append_assoc, append_nil]
    · rintro ⟨len, enc⟩
      cases fs with
      | nil => cases len
      | cons fd fs =>
        obtain ⟨k, v⟩ := fd
        obtain ⟨first, mid, back, hv, hord, wroteFirst, hwo, rfl⟩ := encodeFields_cons_eq_ok.mp enc
        have counted := UInt16.toNat_ofNat_of_lt' (validateRecordKey_short hv)
        exact ⟨_, _, utf8Bytes k ++ (first ++ back), by simp only [append_assoc], rfl,
          utf8Bytes k, _, _, rfl, ⟨rfl, counted.symm⟩, (), hv, (), hord, k,
          fromUtf8_utf8Bytes k, (v, mid), first, back, rfl, wroteFirst, (fs, t),
          back, [], (append_nil _).symm, ⟨succ.inj len, hwo⟩, rfl, rfl⟩

theorem exact_decodeEntries (n : Nat) (prior : Option Bytes) (ns : Nat) :
    Exact (decodeEntries child n prior ns) fun r bs =>
      r.1.length = n ∧ encodeEntries r.1 prior depth ns = .ok (bs, r.2) := by
  induction n generalizing prior ns with
  | zero => exact exact_nothing (encodeEntries · prior depth ns) rfl
  | succ n ih =>
    refine .congr (.bind (exactChild ns).consumed fun k => .bailIf_bind (.lift_bind fun _ =>
      .bind (exactChild k.1.2) fun first => .bind (ih (some k.2) first.2) fun oths =>
      .pure ((k.1.1, first.1) :: oths.1, oths.2))) ?_
    rintro ⟨es, t⟩ bs
    simp only [Bool.not_eq_false']
    constructor
    · rintro ⟨⟨⟨k, between⟩, keyBytes⟩, _, _, rfl, ⟨rfl, wroteKey⟩, sca, _, hord,
        ⟨v, mid⟩, first, _, rfl, wroteFirst, ⟨oths, _⟩, back, _, rfl, ⟨rfl, hwo⟩,
        he, rfl⟩
      cases he
      refine ⟨rfl, encodeEntries_cons_eq_ok.mpr ⟨keyBytes, between, first, mid, back, sca,
        wroteKey, hord, wroteFirst, hwo, ?_⟩⟩
      simp only [append_assoc, append_nil]
    · rintro ⟨len, enc⟩
      cases es with
      | nil => cases len
      | cons e es =>
        obtain ⟨k, v⟩ := e
        obtain ⟨keyBytes, between, first, mid, back, sca, wroteKey, hord, wroteFirst,
          hwo, rfl⟩ := encodeEntries_cons_eq_ok.mp enc
        exact ⟨((k, between), keyBytes), keyBytes, first ++ back, append_assoc _ _ _,
          ⟨rfl, wroteKey⟩, sca, (), hord, (v, mid), first, back, rfl, wroteFirst,
          (es, t), back, [], (append_nil _).symm, ⟨succ.inj len, hwo⟩,
          rfl, rfl⟩

end Children

/-! ## Payloads -/

/-- The payloads of core nodes with a tag, and the count of nodes after them. -/
def CorePayload (tag : NodeTag) (depth nodes : Nat) (result : PortableOValue × Nat) (bytes : Bytes) :
    Prop :=
  coreTag result.1 = .ok tag ∧ encodeCorePayload result.1 depth nodes = .ok (bytes, result.2)

theorem exactAll_scalar {parser : ValueParse α} {encode : α → ValueResult Bytes}
    {build : α → PortableOValue} {tag : NodeTag} {d ns : Nat}
    (hex : ExactAll parser fun v bs => encode v = .ok bs)
    (pl : ∀ sca, encodeCorePayload (build sca) d ns = do return (← encode sca, ns))
    (tags : ∀ v, coreTag v = .ok tag ↔ ∃ sca, v = build sca := by
      rintro (_ | _ | (_ | _ | _ | _ | _ | _) | _ | _ | _ | _ | _ | _ | _ | _ | _ | _) <;>
        simp [coreTag]) :
    ExactAll (do return (build (← parser), ns)) (CorePayload tag d ns) := by
  refine (hex.map fun sca => (build sca, ns)).congr ?_
  rintro ⟨v, _⟩ bs
  simp only [CorePayload, tags]
  constructor
  · rintro ⟨sca, he, enc⟩
    cases he
    refine ⟨⟨sca, rfl⟩, ?_⟩
    rw [pl, enc]
    rfl
  · rintro ⟨⟨sca, rfl⟩, enc⟩
    rw [pl, bind_eq_ok] at enc
    obtain ⟨_, enc, ⟨⟩⟩ := enc
    exact ⟨sca, rfl, enc⟩

/-- A collection: its count, checked, and its parts. -/
theorem exactAll_collection {kind : String} {maximum : Nat} {wireTag : UInt16}
    {tag : NodeTag} {d ns : Nat} {pts : Nat → ValueParse (List α × Nat)}
    {encode : List α → ValueResult (Bytes × Nat)} {build : List α → PortableOValue}
    (hex : ∀ n, Exact (pts n) fun r bs =>
      r.1.length = n ∧ encode r.1 = .ok (bs, r.2))
    (hsm : maximum < 2 ^ 16)
    (pl : ∀ xs, encodeCorePayload (build xs) d ns = do
      validateEntryCount kind xs.length maximum
      let r ← encode xs
      return (collectionPrefix xs.length ++ r.1, r.2))
    (tags : ∀ v, coreTag v = .ok tag ↔ ∃ xs, v = build xs := by
      rintro (_ | _ | (_ | _ | _ | _ | _ | _) | _ | _ | _ | _ | _ | _ | _ | _ | _ | _) <;>
        simp [coreTag]) :
    ExactAll (do
      let n ← takeCollectionPrefix wireTag
      Parse.lift (validateEntryCount kind n maximum)
      let r ← pts n
      return (build r.1, r.2)) (CorePayload tag d ns) := by
  refine Exact.all (Exact.congr (.bind (exact_takeCollectionPrefix _) fun n =>
    .bailIf_bind (.bind (hex n) fun r => .pure (build r.1, r.2))) ?_)
  rintro ⟨v, _⟩ bs
  simp only [CorePayload, tags, decide_eq_false_iff_not, not_lt]
  constructor
  · rintro ⟨_, _, _, rfl, ⟨_, rfl⟩, hsh, ⟨xs, _⟩, bd, _, rfl, ⟨rfl, enc⟩, he, rfl⟩
    cases he
    refine ⟨⟨xs, rfl⟩, ?_⟩
    rw [pl]
    simp only [bind_eq_ok, validateEntryCount, bailIf_eq_ok, decide_eq_false_iff_not, not_lt,
      append_nil]
    exact ⟨(), hsh, (bd, _), enc, rfl⟩
  · rintro ⟨⟨xs, rfl⟩, enc⟩
    rw [pl] at enc
    simp only [bind_eq_ok, validateEntryCount, bailIf_eq_ok, decide_eq_false_iff_not, not_lt] at enc
    obtain ⟨_, hsh, ⟨bd, _⟩, wrote, ⟨⟩⟩ := enc
    exact ⟨xs.length, _, bd, rfl, ⟨lt_of_le_of_lt hsh hsm, rfl⟩, hsh, (xs, _),
      bd, [], (append_nil _).symm, ⟨rfl, wrote⟩, rfl, rfl⟩

theorem coreTag_ne_extension (v : PortableOValue) : coreTag v ≠ .ok .extension := by
  cases v with
  | number number => cases number <;> nofun
  | _ => nofun

theorem validateExtension_eq_ok {envelope : ExtensionEnvelope} :
    validateExtension envelope = .ok () ↔
      validateIdentifier envelope.namespace "extension namespace" = .ok () ∧
      (!envelope.namespace.toList.contains '.') = false ∧
      validateIdentifier envelope.name "extension name" = .ok () ∧
      (envelope.version == 0) = false ∧ (envelope.schemaDigest.bytes.all (· == 0)) = false := by
  simp only [validateExtension, bind_eq_ok, bailIf_eq_ok, exists_unit]

section Payloads

variable {child : Nat → ValueParse (PortableOValue × Nat)} {depth : Nat}
  (exactChild : ∀ ns, Exact (child ns) fun result bytes =>
    encodeCoreNode result.1 (depth + 1) ns = .ok (bytes, result.2))
include exactChild

theorem exactAll_decodeTagged (ns : Nat) : ExactAll (do
      let tagText ← takeIdentifier "tag"
      let (v, t) ← child ns
      return (PortableOValue.tagged tagText v, t)) (CorePayload .tagged depth ns) := by
  refine Exact.all (Exact.congr (.bind (exact_takeIdentifier _) fun tagText =>
    .bind (exactChild ns) fun r => .pure (PortableOValue.tagged tagText r.1, r.2)) ?_)
  rintro ⟨v, t⟩ bytes
  constructor
  · rintro ⟨tagText, _, _, rfl, ⟨hv, rfl⟩, ⟨inn, _⟩, hwr, _, rfl, enc, he, rfl⟩
    cases he
    refine ⟨rfl, ?_⟩
    simp only [encodeCorePayload, bind_eq_ok]
    refine ⟨(), hv, (hwr, _), enc, ?_⟩
    simp only [append_nil]
    rfl
  · rintro ⟨tagged, enc⟩
    cases v with
    | tagged tagText inn =>
      simp only [encodeCorePayload, bind_eq_ok] at enc
      obtain ⟨_, hv, ⟨hwr, _⟩, enc, ⟨⟩⟩ := enc
      exact ⟨tagText, _, hwr, rfl, ⟨hv, rfl⟩, (inn, _), hwr, [], (append_nil _).symm, enc, rfl, rfl⟩
    | number number => cases number <;> cases tagged
    | _ => cases tagged

/-- The decoder of a core payload accepts exactly what the encoder writes for values of its tag. -/
theorem exactAll_decodeCorePayload (tag : NodeTag) (ns : Nat) :
    ExactAll (decodeCorePayload child tag.toU16 ns) (CorePayload tag depth ns) := by
  rw [decodeCorePayload, NodeTag.ofU16_eq_some.mpr rfl]
  cases tag with
  | null =>
    refine ExactAll.congr (ExactAll.requireExactly_bind (Exact.pure _).all) ?_
    rintro ⟨value, t⟩ bytes
    constructor
    · rintro ⟨_, he, rfl⟩
      cases he
      exact ⟨rfl, rfl⟩
    · rintro ⟨null, enc⟩
      cases value with
      | null => cases enc; exact ⟨rfl, rfl, rfl⟩
      | number number => cases number <;> cases null
      | _ => cases null
  | bool =>
    have hdec (tag : UInt16) : ExactAll (decodeBool tag) fun value bytes =>
        (.ok [if value then 1 else 0] : ValueResult Bytes) = .ok bytes :=
      (exactAll_decodeBool tag).congr fun _ _ => by rw [Except.ok.injEq, eq_comm]
    exact exactAll_scalar (hdec _) fun _ => rfl
  | integer => exact exactAll_scalar exactAll_decodeInteger fun _ => rfl
  | binaryFloat =>
    refine ((exactAll_decodeBinaryFloat _).map fun number =>
      (PortableOValue.number number, ns)).congr ?_
    rintro ⟨value, t⟩ bytes
    constructor
    · rintro ⟨_, he, format, bits, rfl, enc⟩
      cases he
      refine ⟨rfl, ?_⟩
      simp only [encodeCorePayload, enc]
      rfl
    · rintro ⟨tagged, enc⟩
      cases value with
      | number number =>
        cases number with
        | binaryFloat format bits =>
          simp only [encodeCorePayload, bind_eq_ok] at enc
          obtain ⟨_, enc, ⟨⟩⟩ := enc
          exact ⟨_, rfl, format, bits, rfl, enc⟩
        | _ => cases tagged
      | _ => cases tagged
  | text => exact exactAll_scalar (exactAll_decodeText _) fun _ => rfl
  | char =>
    have hdec (tag : UInt16) : ExactAll (decodeChar tag) fun value bytes =>
        (.ok (putU32 value.val) : ValueResult Bytes) = .ok bytes :=
      (exactAll_decodeChar tag).congr fun _ _ => by rw [Except.ok.injEq, eq_comm]
    exact exactAll_scalar (hdec _) fun _ => rfl
  | bytes => exact exactAll_scalar (exactAll_decodeBytes _) fun _ => rfl
  | list =>
    exact exactAll_collection (exact_decodeItems exactChild · ns) (by decide) fun _ => rfl
  | record =>
    exact exactAll_collection (exact_decodeFields exactChild · none ns) (by decide) fun _ => rfl
  | map =>
    exact exactAll_collection (exact_decodeEntries exactChild · none ns) (by decide) fun _ => rfl
  | tagged => exact exactAll_decodeTagged exactChild ns
  | codeRef => exact exactAll_scalar (exactAll_decodeCodeRef _) fun _ => rfl
  | objectRef => exact exactAll_scalar exactAll_decodeObjectRef fun _ => rfl
  | error => exact exactAll_scalar (exactAll_decodeError _) fun _ => rfl
  | extension =>
    -- no core value has this tag
    refine (Exact.throw _).all.congr ?_
    rintro ⟨value, t⟩ bytes
    rw [false_iff]
    rintro ⟨tagged, _⟩
    exact coreTag_ne_extension value tagged

theorem decodeCorePayload_ok {tag : UInt16} {ns : Nat} {pl : Bytes} {r : PortableOValue × Nat} :
    decodeCorePayload child tag ns pl = .ok (r, []) ↔
      ∃ hf : NodeTag, tag = hf.toU16 ∧ CorePayload hf depth ns r pl := by
  cases hk : NodeTag.ofU16 tag with
  | none =>
    constructor
    · intro hdec
      rw [decodeCorePayload, hk] at hdec
      cases hdec
    · rintro ⟨hf, rfl, _⟩
      rw [NodeTag.ofU16_eq_some.mpr rfl] at hk
      cases hk
  | some hf =>
    obtain rfl := NodeTag.ofU16_eq_some.mp hk
    rw [exactAll_decodeCorePayload exactChild hf ns pl r]
    constructor
    · intro ha
      exact ⟨hf, rfl, ha⟩
    · rintro ⟨_, he, ha⟩
      rw [he, NodeTag.ofU16_eq_some.mpr rfl] at hk
      cases hk
      exact ha

theorem exactAll_decodeExtensionPayload (ns : Nat) :
    ExactAll (decodeExtensionPayload child ns) fun r bs =>
      validateExtension r.1 = .ok () ∧ encodeExtensionPayload r.1 depth ns = .ok (bs, r.2) := by
  refine .require_bind ?_ ?_
  · refine Exact.all (Exact.congr (.bind (.takeU16 _) fun _ => .bind (.takeU16 _) fun _ =>
      .bind (.takeU16 _) fun version => .bind (.takeU16 _) fun _ => .bailIf_bind (.bailIf_bind
      (.bind exact_takeDigest fun dg => .bailIf_bind (.bind (exact_takeIdentifierExact _ _)
      fun «namespace» => .bailIf_bind (.bind (exact_takeIdentifierExact _ _) fun name =>
      .bind (exactChild ns) fun r =>
      .pure (ExtensionEnvelope.mk «namespace» name version dg r.1, r.2)))))) ?_)
    rintro ⟨env, t⟩ bs
    simp only [bne_eq_false_iff_eq, validateExtension_eq_ok, encodeExtensionPayload, bind_eq_ok]
    constructor
    · rintro ⟨namespaceLen, _, _, rfl, rfl, nameLen, _, _, rfl, rfl, version, _, _, rfl, rfl, _, _, _,
        rfl, rfl, versioned, rfl, dg, _, _, rfl, rfl, hnz, «namespace», _, _, rfl,
        ⟨rfl, namespaceLength, namespaceValid⟩, dotted, name, _, _, rfl,
        ⟨rfl, nameLength, nameValid⟩, ⟨v, _⟩, hwr, _, rfl, enc, he, rfl⟩
      cases he
      refine ⟨⟨namespaceValid, dotted, nameValid, versioned, hnz⟩, (hwr, _), enc, ?_⟩
      rw [namespaceLength, nameLength, UInt16.ofNat_toNat, UInt16.ofNat_toNat]
      simp only [append_assoc, append_nil]
      rfl
    · rintro ⟨⟨namespaceValid, dotted, nameValid, versioned, hnz⟩, ⟨hwr, _⟩, enc, ⟨⟩⟩
      have namespaceLength := UInt16.toNat_ofNat_of_lt' (validateIdentifier_short namespaceValid)
      have nameLength := UInt16.toNat_ofNat_of_lt' (validateIdentifier_short nameValid)
      exact ⟨_, _, _, by simp only [append_assoc], rfl, _, _, _, rfl, rfl, env.version, _, _,
        rfl, rfl, 0, _, _, rfl, rfl, versioned, rfl, env.schemaDigest, _, _, rfl, rfl, hnz,
        _, _, _, rfl, ⟨rfl, namespaceLength.symm, namespaceValid⟩, dotted, _, _, hwr, rfl,
        ⟨rfl, nameLength.symm, nameValid⟩, (env.value, _), hwr, [],
        (append_nil _).symm, enc, rfl, rfl⟩
  · rintro ⟨env, t⟩ bs ⟨_, enc⟩
    simp only [encodeExtensionPayload, bind_eq_ok] at enc
    obtain ⟨_, _, ⟨⟩⟩ := enc
    simp only [length_append, length_putU16, env.schemaDigest.length]
    omega

end Payloads

/-! ## Whole nodes -/

theorem encodeCoreNode_eq_ok {v : PortableOValue} : encodeCoreNode v depth ns = .ok (bytes, t) ↔
      ∃ hent hf bd, enterNode depth ns = .ok hent ∧
        CorePayload hf depth hent (v, t) bd ∧
        finishNode hf.toU16 bd = .ok bytes := by
  simp only [encodeCoreNode, encodeNodeOf_eq_ok, CorePayload, and_assoc]

theorem enterNode_eq_ok : enterNode depth ns = .ok t ↔
      depth ≤ maxOvalueDepth ∧ ns + 1 ≤ maxOvalueNodes ∧ t = ns + 1 := by
  simp only [enterNode, bind_eq_ok, bailIf_eq_ok, exists_const, decide_eq_false_iff_not, not_lt]
  simp [pure, Except.pure, eq_comm]

/-- By induction over the levels that are left. -/
theorem exact_decodeCoreNode (lv : Nat) (hw : lv ≤ maxOvalueDepth) (ns : Nat) :
    Exact (decodeCoreNode lv ns) fun r bs =>
      encodeCoreNode r.1 (maxOvalueDepth + 1 - lv) ns = .ok (bs, r.2) := by
  induction lv generalizing ns with
  | zero =>
    refine (Exact.throw _).congr ?_
    rintro ⟨v, t⟩ bs
    rw [false_iff, encodeCoreNode_eq_ok]
    rintro ⟨hent, hf, bd, enters, _⟩
    exact absurd (enterNode_eq_ok.mp enters).1 (by decide)
  | succ lv ih =>
    have below : maxOvalueDepth - lv + 1 = maxOvalueDepth + 1 - lv := by omega
    have here : maxOvalueDepth + 1 - (lv + 1) = maxOvalueDepth - lv := by omega
    have exactChild := ih (le_of_succ_le hw)
    rw [← below] at exactChild
    rw [here]
    refine .congr (.bind (exact_takeNode _ _) fun _ => .bailIf_bind (.lift _)) ?_
    rintro ⟨v, t⟩ bs
    simp only [wholePayload_eq_ok, decodeCorePayload_ok exactChild, encodeCoreNode_eq_ok]
    constructor
    · rintro ⟨⟨_, bd, hent⟩, _, _, rfl, ⟨enters, hfin⟩, _, ⟨hf, rfl, ha⟩, rfl⟩
      rw [append_nil]
      exact ⟨hent, hf, bd, enters, ha, hfin⟩
    · rintro ⟨hent, hf, bd, enters, ha, hfin⟩
      refine ⟨(hf.toU16, bd, hent), bs, [], (append_nil _).symm, ⟨enters, hfin⟩, ?_,
        ⟨hf, rfl, ha⟩, rfl⟩
      cases hf with
      | extension => exact absurd ha.1 (coreTag_ne_extension v)
      | _ => rfl

theorem encodeExtensionNode_eq_ok {env : ExtensionEnvelope} :
    encodeExtensionNode env depth ns = .ok (bytes, t) ↔
      ∃ hent bd, enterNode depth ns = .ok hent ∧ validateExtension env = .ok () ∧
        encodeExtensionPayload env depth hent = .ok (bd, t) ∧
        finishNode NodeTag.extension.toU16 bd = .ok bytes := by
  simp only [encodeExtensionNode, encodeNodeOf_eq_ok, bind_eq_ok, exists_unit, pure_eq_ok]
  grind

theorem exactAll_decodeRootPayload {child : Nat → ValueParse (PortableOValue × Nat)} {d : Nat}
    (exactChild : ∀ ns, Exact (child ns) fun r bs =>
      encodeCoreNode r.1 (d + 1) ns = .ok (bs, r.2)) (tag : UInt16) (ns : Nat) :
    ExactAll (decodeRootPayload child tag ns) fun rcd bs =>
      (∃ env t, rcd = .extension env ∧ tag = NodeTag.extension.toU16 ∧
        validateExtension env = .ok () ∧
        encodeExtensionPayload env d ns = .ok (bs, t)) ∨
      ∃ v t hf, rcd = .core v ∧ tag = hf.toU16 ∧
        CorePayload hf d ns (v, t) bs := by
  rw [decodeRootPayload]
  split
  · rename_i extension
    refine ((exactAll_decodeExtensionPayload exactChild ns).map
      fun r => PortableValueRecord.extension r.1).congr ?_
    intro rcd bs
    constructor
    · rintro ⟨⟨env, t⟩, rfl, hv, enc⟩
      exact .inl ⟨env, t, rfl, extension, hv, enc⟩
    · rintro (⟨env, t, rfl, _, hv, enc⟩ | ⟨v, t, hf, rfl, he, ha⟩)
      · exact ⟨(env, t), rfl, hv, enc⟩
      · have hk := NodeTag.ofU16_eq_some.mpr extension
        rw [NodeTag.ofU16_eq_some.mpr he] at hk
        cases hk
        exact absurd ha.1 (coreTag_ne_extension v)
  · rename_i extension
    have core : ExactAll (decodeCorePayload child tag ns) _ :=
      fun pl r => decodeCorePayload_ok exactChild
    refine (core.map fun r => PortableValueRecord.core r.1).congr ?_
    intro rcd bs
    constructor
    · rintro ⟨⟨v, t⟩, rfl, hf, he, ha⟩
      exact .inr ⟨v, t, hf, rfl, he, ha⟩
    · rintro (⟨_, _, _, he, _⟩ | ⟨v, t, hf, rfl, he, ha⟩)
      · exact absurd he extension
      · exact ⟨(v, t), rfl, hf, he, ha⟩

theorem exact_decodeRootNode :
    Exact decodeRootNode fun rcd bs => ∃ t, rcd.encodeRoot = .ok (bs, t) := by
  have exactChild : ∀ ns, Exact (decodeCoreNode (maxOvalueDepth - 1) ns) fun r bs =>
      encodeCoreNode r.1 (1 + 1) ns = .ok (bs, r.2) :=
    exact_decodeCoreNode (maxOvalueDepth - 1) (by decide)
  refine .congr (.bind (exact_takeNode _ _) fun _ => .lift _) ?_
  intro rcd bs
  simp only [wholePayload_eq_ok, exactAll_decodeRootPayload exactChild _ _ _ _]
  constructor
  · rintro ⟨⟨_, bd, hent⟩, _, _, rfl, ⟨enters, hfin⟩,
      ⟨env, t, rfl, rfl, hv, enc⟩ | ⟨v, t, hf, rfl, rfl, ha⟩, rfl⟩
    · rw [append_nil]
      exact ⟨t, encodeExtensionNode_eq_ok.mpr ⟨hent, bd, enters, hv, enc, hfin⟩⟩
    · rw [append_nil]
      exact ⟨t, encodeCoreNode_eq_ok.mpr ⟨hent, hf, bd, enters, ha, hfin⟩⟩
  · rintro ⟨t, enc⟩
    cases rcd with
    | core v =>
      obtain ⟨hent, hf, bd, enters, ha, hfin⟩ := encodeCoreNode_eq_ok.mp enc
      exact ⟨(hf.toU16, bd, hent), bs, [], (append_nil _).symm, ⟨enters, hfin⟩,
        .inr ⟨v, t, hf, rfl, rfl, ha⟩, rfl⟩
    | extension env =>
      obtain ⟨hent, bd, enters, hv, wrote, hfin⟩ := encodeExtensionNode_eq_ok.mp enc
      exact ⟨(_, bd, hent), bs, [], (append_nil _).symm, ⟨enters, hfin⟩,
        .inl ⟨env, t, rfl, rfl, hv, wrote⟩, rfl⟩

/-! ## Records -/

namespace PortableValueRecord

theorem exact_decodeRecord (len : Nat) (fits : len < 2 ^ 32) :
    Exact (decodeRecord len) fun rcd bs => ∃ body t, rcd.encodeRoot = .ok (body, t) ∧
        bs = ovalueWireMagic ++ putU16 ovalueWireSchemaV1 ++ putU16 0 ++ putU32 (.ofNat len) ++
          body := by
  refine .congr (.bind (.take _ _) fun _ => .bailIf_bind (.bind (.takeU16 _) fun _ =>
    .bailIf_bind (.bind (.takeU16 _) fun _ => .bailIf_bind (.bind (.takeU32 _) fun _ =>
    .bailIf_bind exact_decodeRootNode)))) ?_
  intro rcd bs
  simp only [bne_eq_false_iff_eq]
  constructor
  · rintro ⟨_, _, _, rfl, ⟨rfl, _⟩, rfl, _, _, _, rfl, rfl, rfl, _, _, _, rfl, rfl, rfl, hd, _,
      body, rfl, rfl, rfl, t, enc⟩
    refine ⟨body, t, enc, ?_⟩
    rw [UInt32.ofNat_toNat]
    simp only [append_assoc]
  · rintro ⟨body, t, enc, rfl⟩
    exact ⟨_, ovalueWireMagic, _, by simp only [append_assoc], ⟨rfl, rfl⟩, rfl, _, _, _, rfl, rfl,
      rfl, _, _, _, rfl, rfl, rfl, _, _, body, rfl, rfl, UInt32.toNat_ofNat_of_lt' fits, t, enc⟩

variable {limit : UInt32} {record : PortableValueRecord}

theorem enforceRecordSize_eq_ok {actual : Nat} : enforceRecordSize actual limit = .ok () ↔
      actual ≤ maxOvalueRecordBytes ∧ minOvalueRecordBytes ≤ actual ∧ actual ≤ limit.toNat := by
  simp only [enforceRecordSize, bind_eq_ok, bailIf_eq_ok, exists_const, decide_eq_false_iff_not,
    not_lt]

theorem encodeWithLimit_eq_ok : record.encodeWithLimit limit = .ok bytes ↔
      enforceRecordSize bytes.length limit = .ok () ∧ ∃ bd t, record.encodeRoot = .ok (bd, t) ∧
          bytes = ovalueWireMagic ++ putU16 ovalueWireSchemaV1 ++ putU16 0 ++
            putU32 (.ofNat bytes.length) ++ bd := by
  have total (bd : Bytes) (len : UInt32) :
      (ovalueWireMagic ++ putU16 ovalueWireSchemaV1 ++ putU16 0 ++ putU32 len ++ bd).length =
        ovalueWireHeaderBytes + bd.length := by
    simp only [length_append, length_putU16, length_putU32]
    rfl
  simp only [encodeWithLimit, bind_eq_ok]
  constructor
  · rintro ⟨⟨bd, t⟩, enc, _, sized, ⟨⟩⟩
    rw [total]
    exact ⟨sized, bd, t, enc, rfl⟩
  · rintro ⟨sized, bd, t, enc, split⟩
    have len : bytes.length = ovalueWireHeaderBytes + bd.length := by rw [split, total]
    refine ⟨(bd, t), enc, (), ?_, ?_⟩
    · rw [← len]
      exact sized
    · rw [← len, ← split]
      rfl

/-- Up to its last check the decoder accepts exactly the encodings within the limit. -/
theorem parseWithLimit_eq_ok :
    parseWithLimit bytes limit = .ok record ↔ record.encodeWithLimit limit = .ok bytes := by
  rw [encodeWithLimit_eq_ok]
  simp only [parseWithLimit, bind_eq_ok, bailIf_eq_ok, exists_const, decide_eq_false_iff_not,
    not_lt, wholePayload_eq_ok]
  constructor
  · rintro ⟨_, sized, _, hpar⟩
    have fits : bytes.length < 2 ^ 32 :=
      lt_of_le_of_lt (enforceRecordSize_eq_ok.mp sized).1 (by decide)
    exact ⟨sized, ((exact_decodeRecord bytes.length fits).all bytes record).mp hpar⟩
  · rintro ⟨sized, ha⟩
    obtain ⟨hsm, large, _⟩ := enforceRecordSize_eq_ok.mp sized
    have fits : bytes.length < 2 ^ 32 := lt_of_le_of_lt hsm (by decide)
    exact ⟨(), sized, le_trans (by decide) large,
      ((exact_decodeRecord bytes.length fits).all bytes record).mpr ha⟩

/-- The hard maximum is the largest limit. -/
theorem encode_of_encodeWithLimit (enc : record.encodeWithLimit limit = .ok bytes) :
    record.encode = .ok bytes := by
  obtain ⟨sized, tl⟩ := encodeWithLimit_eq_ok.mp enc
  obtain ⟨hsm, large, _⟩ := enforceRecordSize_eq_ok.mp sized
  exact encodeWithLimit_eq_ok.mpr ⟨enforceRecordSize_eq_ok.mpr ⟨hsm, large, hsm⟩, tl⟩

theorem decodeWithLimit_eq_parseWithLimit (bs : Bytes) (limit : UInt32) :
    decodeWithLimit bs limit = parseWithLimit bs limit := by
  rw [decodeWithLimit]
  cases parsed : parseWithLimit bs limit with
  | error => rfl
  | ok rcd =>
    have enc := encode_of_encodeWithLimit (parseWithLimit_eq_ok.mp parsed)
    show (rcd.encode >>= fun can =>
      bailIf (can != bs) (.lengthMismatch can.length bs.length) >>= fun _ =>
        (pure rcd : ValueResult PortableValueRecord)) = _
    rw [enc]
    show (bailIf (bs != bs) _ >>= fun _ => (pure rcd : ValueResult PortableValueRecord)) = _
    rw [bne_self_eq_false]
    rfl

/-- The codec is canonical: what is encoded within a limit is decoded again, what the decoder
accepts before its last check is the encoding of its result, so that check never fails and no
value has two accepted encodings. -/
theorem encode_decode_canonical (limit : UInt32) :
    (∀ record bytes, encodeWithLimit record limit = .ok bytes →
      decodeWithLimit bytes limit = .ok record) ∧
    (∀ bytes record, parseWithLimit bytes limit = .ok record →
      record.encode = .ok bytes ∧ decodeWithLimit bytes limit = .ok record) ∧
    ∀ bytes other record, decodeWithLimit bytes limit = .ok record →
      ∀ otherLimit, decodeWithLimit other otherLimit = .ok record → other = bytes := by
  simp only [decodeWithLimit_eq_parseWithLimit]
  refine ⟨fun record bytes => parseWithLimit_eq_ok.mpr, fun bytes record parsed =>
    ⟨encode_of_encodeWithLimit (parseWithLimit_eq_ok.mp parsed), parsed⟩, ?_⟩
  intro bytes other record parsed otherLimit otherParsed
  have first := encode_of_encodeWithLimit (parseWithLimit_eq_ok.mp parsed)
  have second := encode_of_encodeWithLimit (parseWithLimit_eq_ok.mp otherParsed)
  rw [first] at second
  exact (Except.ok.inj second).symm

/-- The map with the one entry `true: -300` -/
def smallMap : PortableValueRecord :=
  .core (.map [(.bool true, .number (.int (-300)))])

def smallMapBytes : Bytes :=
  [0x4f, 0x57, 0x56, 0x41, 0x4c, 0x55, 0x45, 0, 0, 1, 0, 0, 0, 0, 0, 48,
    0, 0x32, 0, 0, 0, 0, 0, 32, 0, 1, 0, 0,
    0, 1, 0, 0, 0, 0, 0, 9, 1,
    0, 0x10, 0, 0, 0, 0, 0, 11, 1, 0x01, 0x2c]

theorem smallMap_round_trip :
    smallMap.encodeWithLimit 48 = .ok smallMapBytes ∧
      decodeWithLimit smallMapBytes 48 = .ok smallMap := by
  have encoded : smallMap.encodeWithLimit 48 = .ok smallMapBytes := by decide +kernel
  exact ⟨encoded, (encode_decode_canonical 48).1 smallMap smallMapBytes encoded⟩

end PortableValueRecord

end Ostadix.World

import Ostadix.CanonicalCbor.Decode
import Ostadix.Lib.Except

/-! # What a bounded decoding reads

The log of a decoding lists the items it starts, the elements of byte strings and the room it
reserves for declared lengths. A decoder is accounted for if its log stays within the limits. -/

namespace Ostadix.CanonicalCbor

open Ostadix.Lib List

/-! ## The log of a decoding -/

inductive DecodeEvent where
  | item (depth : Nat)
  /-- The bytes of a byte string at `depth` become items. -/
  | elements (depth count : Nat)
  | reserve (capacity unread : Nat)
deriving DecidableEq

def DecodeEvent.depth : DecodeEvent → Nat
  | item depth | elements depth _ => depth
  | reserve .. => 0

def DecodeEvent.items : DecodeEvent → Nat
  | item _ => 1
  | elements _ count => count
  | reserve .. => 0

def itemsOf (log : List DecodeEvent) : Nat :=
  (log.map DecodeEvent.items).sum

variable {α β : Type}

/-- The log of what follows a step that succeeded. -/
def logThen (result : Except DecodeError α) (log : α → List DecodeEvent) : List DecodeEvent :=
  match result with
  | .ok value => log value
  | .error _ => []

section

variable (decodeOne : CborDecoder → Except DecodeError (Decoded Value))
  (logOne : CborDecoder → List DecodeEvent)

def logItems : Nat → CborDecoder → List DecodeEvent
  | 0, _ => []
  | count + 1, decoder =>
      logOne decoder ++ logThen (decodeOne decoder) fun (_, decoder) => logItems count decoder

def logMembers : Nat → CborDecoder → List DecodeEvent
  | 0, _ => []
  | count + 1, decoder =>
      logOne decoder ++ logThen (decodeOne decoder) fun (key, decoder) =>
        match key with
        | .string _ => logOne decoder ++ logThen (decodeOne decoder) fun (_, decoder) =>
            logMembers count decoder
        | _ => []

/-- A length is declared, and room for as many items or bytes is reserved. -/
def logSized (additional : UInt8) (kind : String) (log : Nat → CborDecoder → List DecodeEvent)
    (decoder : CborDecoder) : List DecodeEvent :=
  logThen (readSizedLen additional kind 1 decoder) fun (len, decoder) =>
    .reserve len decoder.payload.length :: log len decoder

def logBody (depth : Nat) (initial : UInt8) (decoder : CborDecoder) : List DecodeEvent :=
  let major := initial >>> 5
  let additional := initial &&& 0x1f
  if major = 0 then []
  else if major = 1 then []
  else if major = 2 then
    logSized additional "byte string" (fun len _ => [.elements depth len]) decoder
  else if major = 3 then logSized additional "text string" (fun _ _ => []) decoder
  else if major = 4 then logSized additional "array" (logItems decodeOne logOne) decoder
  else if major = 5 then
    logThen (readSizedLen additional "map" 2 decoder) fun (len, decoder) =>
      logMembers decodeOne logOne len decoder
  else []

end

def logValueAtDepth : Nat → Nat → CborDecoder → List DecodeEvent
  | 0, _, _ => []
  | fuel + 1, depth, decoder =>
      .item depth :: logThen (noteItem depth decoder) fun decoder =>
        logThen (readU8 decoder) fun (initial, decoder) =>
          logBody (decodeValueAtDepth fuel (depth + 1)) (logValueAtDepth fuel (depth + 1)) depth
            initial decoder

/-- The log of `decodeBounded`. -/
def logBounded (payload : Bytes) (limits : DecodeLimits) : List DecodeEvent :=
  if limits.maxBytes < payload.length then []
  else logValueAtDepth (payload.length + 1) 0 (.newBounded payload limits)

/-! ## Nesting -/

mutual
def nesting : Value → Nat
  | .array items => nestingItems items
  | .object members => nestingMembers members
  | _ => 0

def nestingItems : List Value → Nat
  | [] => 0
  | item :: items => max (1 + nesting item) (nestingItems items)

def nestingMembers : List (String × Value) → Nat
  | [] => 0
  | (_, value) :: members => max (1 + nesting value) (nestingMembers members)
end

theorem nestingItems_le {xs : List Value} {bd d : Nat} (shallow : d ≤ bd)
    (each : ∀ item ∈ xs, d + 1 + nesting item ≤ bd) : d + nestingItems xs ≤ bd := by
  induction xs with
  | nil => exact shallow
  | cons item xs ih =>
    simp only [forall_mem_cons] at each
    have := ih each.2
    rw [nestingItems]
    omega

theorem nestingMembers_le {ms : List (String × Value)} {bd d : Nat}
    (shallow : d ≤ bd) (each : ∀ entry ∈ ms, d + 1 + nesting entry.2 ≤ bd) :
    d + nestingMembers ms ≤ bd := by
  induction ms with
  | nil => exact shallow
  | cons entry ms ih =>
    simp only [forall_mem_cons] at each
    have := ih each.2
    rw [nestingMembers]
    omega

theorem forall_insertMember {key : String} {v : Value} {ms : List (String × Value)}
    {p : Value → Prop} (h : p v) (each : ∀ entry ∈ ms, p entry.2) :
    ∀ entry ∈ insertMember key v ms, p entry.2 := by
  induction ms with
  | nil => simpa [insertMember] using h
  | cons entry ms ih =>
    simp only [forall_mem_cons] at each
    rw [insertMember]
    split <;> simp only [forall_mem_cons]
    · exact ⟨h, each.2⟩
    · exact ⟨each.1, ih each.2⟩

/-! ## Accounted decoders -/

/-- A stretch of decoding with its log: the counter moved by the items of the log. -/
structure Charged (limits : DecodeLimits) (log : List DecodeEvent) (before after : CborDecoder) :
    Prop where
  same : after.limits = some limits
  items : after.decodedItems = before.decodedItems + itemsOf log
  few : before.decodedItems ≤ limits.maxItems → after.decodedItems ≤ limits.maxItems
  shallow : ∀ event ∈ log, event.depth ≤ limits.maxDepth

/-- Room is only reserved for what may be there. -/
def Reserved (limits : DecodeLimits) (log : List DecodeEvent) : Prop :=
  ∀ capacity unread, .reserve capacity unread ∈ log → capacity ≤ unread ∧ capacity ≤ limits.maxItems

/-- `bound` is as deep as an item may lie or an element of a byte string does. -/
def Bounds (limits : DecodeLimits) (log : List DecodeEvent) (bound : Nat) : Prop :=
  limits.maxDepth ≤ bound ∧ ∀ depth count, .elements depth count ∈ log → 0 < count → depth < bound

/-- Every run of the decoder has its log within the limits. A run that succeeds is charged, would
succeed without limits, and `holds` of its result for every bound on the depth. -/
structure Accounts (limits : DecodeLimits) (decoder : CborDecoder → Except DecodeError (Decoded α))
    (log : CborDecoder → List DecodeEvent) (holds : Nat → α → Prop) : Prop where
  reserved : ∀ before, before.limits = some limits → Reserved limits (log before)
  run : ∀ before result after, before.limits = some limits → decoder before = .ok (result, after) →
    Charged limits (log before) before after ∧
    decoder (.new before.payload) = .ok (result, .new after.payload) ∧
    ∀ bound, Bounds limits (log before) bound → holds bound result

section Rules

variable {lim : DecodeLimits} {log : CborDecoder → List DecodeEvent} {holds : Nat → α → Prop}
  {a1 : CborDecoder → Except DecodeError (Decoded α)}

theorem Charged.trans {left right : List DecodeEvent} {s mid t : CborDecoder}
    (start : Charged lim left s mid) (next : Charged lim right mid t) :
    Charged lim (left ++ right) s t where
  same := next.same
  items := by
    rw [next.items, start.items]
    simp [itemsOf, Nat.add_assoc]
  few h := next.few (start.few h)
  shallow event hm := (mem_append.mp hm).elim (start.shallow event) (next.shallow event)

theorem Reserved.append {left right : List DecodeEvent} (h : Reserved lim left)
    (h' : Reserved lim right) : Reserved lim (left ++ right) :=
  fun capacity unread hm => (mem_append.mp hm).elim (h capacity unread) (h' capacity unread)

theorem Reserved.logThen {r : Except DecodeError α} {log : α → List DecodeEvent}
    (h : ∀ value, r = .ok value → Reserved lim (log value)) :
    Reserved lim (logThen r log) := by
  cases r with
  | ok value => exact h value rfl
  | error => exact fun _ _ hm => by cases hm

namespace Accounts

theorem mono {holds' : Nat → α → Prop} (start : Accounts lim a1 log holds)
    (himp : ∀ bound value, holds bound value → holds' bound value) :
    Accounts lim a1 log holds' where
  reserved := start.reserved
  run before result after same ok := by
    obtain ⟨hchg, free, deep⟩ := start.run before result after same ok
    exact ⟨hchg, free, fun bound bounds => himp bound result (deep bound bounds)⟩

theorem pure (v : α) (h : ∀ bound, holds bound v) :
    Accounts lim (fun dec => .ok (v, dec)) (fun _ => []) holds where
  reserved _ _ _ _ hm := by cases hm
  run before result after same ok := by
    cases ok
    exact ⟨⟨same, rfl, id, by simp⟩, rfl, fun bound _ => h bound⟩

theorem error (error : DecodeError) : Accounts lim (fun _ => .error error) (fun _ => []) holds where
  reserved _ _ _ _ hm := by cases hm
  run _ _ _ _ ok := by cases ok

/-- Steps in a row. -/
theorem bind {next : Decoded α → Except DecodeError (Decoded β)}
    {logNext : Decoded α → List DecodeEvent} {holds' : Nat → β → Prop}
    (start : Accounts lim a1 log holds)
    (steps : ∀ value, Accounts lim (fun dec => next (value, dec))
      (fun dec => logNext (value, dec)) fun hb r =>
        holds hb value → holds' hb r) :
    Accounts lim (fun dec => a1 dec >>= next)
      (fun dec => log dec ++ CanonicalCbor.logThen (a1 dec) logNext) holds' where
  reserved before same := by
    refine (start.reserved before same).append (.logThen fun (value, middle) ok => ?_)
    exact (steps value).reserved middle (start.run _ _ _ same ok).1.same
  run before r after same ok := by
    obtain ⟨⟨value, middle⟩, ran, ok⟩ := bind_eq_ok.mp ok
    obtain ⟨hchg, free, deep⟩ := start.run _ _ _ same ran
    obtain ⟨charged', free', deep'⟩ := (steps value).run _ _ _ hchg.same ok
    rw [ran, free]
    refine ⟨hchg.trans charged', free', fun hb bnds => deep' hb ?_ (deep hb ?_)⟩
    · exact ⟨bnds.1, fun d n hm => bnds.2 d n (mem_append_right _ hm)⟩
    · exact ⟨bnds.1, fun d n hm => bnds.2 d n (mem_append_left _ hm)⟩

/-- A last step that logs nothing. -/
theorem andThen {next : Decoded α → Except DecodeError (Decoded β)} {holds' : Nat → β → Prop}
    (start : Accounts lim a1 log holds)
    (steps : ∀ value, Accounts lim (fun dec => next (value, dec)) (fun _ => [])
      fun hb r => holds hb value → holds' hb r) :
    Accounts lim (fun dec => a1 dec >>= next) log holds' := by
  have quiet : (fun dec => log dec ++ CanonicalCbor.logThen (a1 dec) fun _ => []) = log := by
    funext dec
    cases a1 dec <;> exact append_nil _
  exact quiet ▸ start.bind steps

theorem readU8 : Accounts lim readU8 (fun _ => []) fun _ _ => True where
  reserved _ _ _ _ hm := by cases hm
  run before result after same ok := by
    obtain ⟨_ | ⟨_, _⟩, _, _⟩ := before <;> cases ok
    exact ⟨⟨same, rfl, id, by simp⟩, rfl, fun _ _ => trivial⟩

theorem readBytes (len : Nat) : Accounts lim (readBytes len) (fun _ => []) fun _ bs =>
    bs.length = len where
  reserved _ _ _ _ hm := by cases hm
  run before result after same ok := by
    unfold CanonicalCbor.readBytes at ok ⊢
    split_ifs at ok with short
    cases ok
    exact ⟨⟨same, rfl, id, by simp⟩, if_neg short, fun _ _ => length_take_of_le (Nat.le_of_not_lt short)⟩

theorem readLen (xtra : UInt8) : Accounts lim (readLen xtra) (fun _ => []) fun _ _ =>
    True := by
  unfold CanonicalCbor.readLen
  split_ifs
  · exact pure _ fun _ => trivial
  · exact readU8.andThen fun _ => pure _ fun _ _ => trivial
  · exact (readBytes 2).andThen fun _ => pure _ fun _ _ => trivial
  · exact (readBytes 4).andThen fun _ => pure _ fun _ _ => trivial
  · exact (readBytes 8).andThen fun _ => pure _ fun _ _ => trivial
  · exact error _
  · exact error _

/-- The limits are looked at behind the header, and only they tell the runs apart. -/
theorem readSizedLen_ok {xtra : UInt8} {kind : String} {minimum len : Nat}
    {s t : CborDecoder} (same : s.limits = some lim)
    (ok : readSizedLen xtra kind minimum s = .ok (len, t)) :
    len ≤ t.payload.length ∧ len ≤ lim.maxItems ∧ Charged lim [] s t ∧
      readSizedLen xtra kind minimum (.new s.payload) = .ok (len, .new t.payload) := by
  obtain ⟨⟨_, _⟩, ran, ok⟩ := bind_eq_ok.mp ok
  obtain ⟨hchg, free, -⟩ := (readLen xtra).run _ _ _ same ran
  rw [CanonicalCbor.readSizedLen, free]
  dsimp only at ok ⊢
  split_ifs at ok with long
  · cases ok
  rw [hchg.same] at ok
  dsimp only at ok
  split_ifs at ok with many
  · cases ok
  cases ok
  have := Nat.div_le_self t.payload.length minimum
  refine ⟨by omega, by omega, hchg, ?_⟩
  simp [CborDecoder.new, long, Pure.pure, Except.pure]

theorem readSizedLen (xtra : UInt8) (kind : String) (minimum : Nat) :
    Accounts lim (readSizedLen xtra kind minimum) (fun _ => []) fun _ _ => True where
  reserved _ _ _ _ hm := by cases hm
  run _ _ _ same ok := by
    obtain ⟨-, -, hchg, free⟩ := readSizedLen_ok same ok
    exact ⟨hchg, free, fun _ _ => trivial⟩

/-- Room for a declared length is reserved within the limits. -/
theorem sized {xtra : UInt8} {kind : String} {next : Decoded Nat → Except DecodeError (Decoded α)}
    {logNext : Nat → CborDecoder → List DecodeEvent}
    (steps : ∀ len, Accounts lim (fun dec => next (len, dec)) (logNext len) holds) :
    Accounts lim (fun dec => CanonicalCbor.readSizedLen xtra kind 1 dec >>= next)
      (logSized xtra kind logNext) holds where
  reserved before same := by
    refine .logThen fun (len, middle) ok => ?_
    obtain ⟨fits, few, hchg, -⟩ := readSizedLen_ok same ok
    intro capacity unread hm
    rcases mem_cons.mp hm with here | hm
    · cases here
      exact ⟨fits, few⟩
    · exact (steps len).reserved middle hchg.same capacity unread hm
  run before result after same ok := by
    obtain ⟨⟨len, middle⟩, ran, ok⟩ := bind_eq_ok.mp ok
    obtain ⟨-, -, hchg, free⟩ := readSizedLen_ok same ran
    obtain ⟨charged', free', deep⟩ := (steps len).run _ _ _ hchg.same ok
    rw [logSized, ran, free]
    have reserve : Charged lim [.reserve len middle.payload.length] before middle :=
      ⟨hchg.same, hchg.items, hchg.few, by simp [DecodeEvent.depth]⟩
    refine ⟨reserve.trans charged', free', fun hb bnds => deep hb ⟨bnds.1, ?_⟩⟩
    exact fun d n hm => bnds.2 d n (mem_cons_of_mem _ hm)

theorem congr {o : CborDecoder → Except DecodeError (Decoded α)}
    (start : Accounts lim a1 log holds) (same : ∀ decoder, o decoder = a1 decoder) :
    Accounts lim o log holds :=
  (funext same : o = a1) ▸ start

theorem orFail (make : β → Value) (err : DecodeError) (opt : Option β)
    (flat : ∀ part, nesting (make part) = 0) :
    Accounts lim (orFail make err opt) (fun _ => []) fun _ v => nesting v = 0 := by
  cases opt with
  | none => exact Accounts.error err
  | some part => exact pure _ fun _ => flat part

/-- What is read makes a leaf. -/
theorem leaf (start : Accounts lim a1 log holds) {make : β → Value} (err : DecodeError)
    (hf : α → Option β) (flat : ∀ part, nesting (make part) = 0) :
    Accounts lim (fun dec => a1 dec >>= fun p =>
      CanonicalCbor.orFail make err (hf p.1) p.2) log fun _ v => nesting v = 0 :=
  start.andThen fun v => (orFail make err (hf v) flat).mono fun _ _ h _ => h

theorem decodeSimple (xtra : UInt8) : Accounts lim (decodeSimple xtra) (fun _ => [])
    fun _ v => nesting v = 0 := by
  unfold CanonicalCbor.decodeSimple
  split_ifs
  · exact pure _ fun _ => rfl
  · exact pure _ fun _ => rfl
  · exact pure _ fun _ => rfl
  · refine congr ?_ fun _ => bind_float Number.fromF64 widenF32
    exact (readBytes 4).leaf _ (fun bs => Number.fromF64 (widenF32 (ofBigEndian bs))) fun _ => rfl
  · refine congr ?_ fun _ => bind_float Number.fromF64 UInt64.ofNat
    exact (readBytes 8).leaf _ (fun bs => Number.fromF64 (UInt64.ofNat (ofBigEndian bs)))
      fun _ => rfl
  · exact error _

theorem chargeItems_ok (log : List DecodeEvent) {n : Nat} {s t : CborDecoder}
    (same : s.limits = some lim) (ok : chargeItems lim n s = .ok t)
    (counted : itemsOf log = n) (shallow : ∀ event ∈ log, event.depth ≤ lim.maxDepth) :
    Charged lim log s t ∧ t.payload = s.payload := by
  unfold chargeItems at ok
  dsimp only at ok
  split_ifs at ok with ho many
  cases ok
  exact ⟨⟨same, by rw [counted], fun _ => Nat.le_of_not_lt many, shallow⟩, rfl⟩

/-- The bytes of a byte string at `depth` are counted before they are read. -/
theorem elements {depth : Nat} (shallow : depth ≤ lim.maxDepth) (len : Nat)
    (f : UInt8 → Number) : Accounts lim
    (fun dec => reserveEmbeddedItems len dec >>= fun dec =>
      CanonicalCbor.readBytes len dec >>= fun p =>
        .ok (.array (p.1.map fun byte => .number (f byte)), p.2))
    (fun _ => [.elements depth len])
    fun hb v => depth ≤ hb → depth + nesting v ≤ hb where
  reserved _ _ _ _ hm := by simp at hm
  run before result after same ok := by
    obtain ⟨_, charge, ok⟩ := bind_eq_ok.mp ok
    obtain ⟨⟨bs, _⟩, ran, ok⟩ := bind_eq_ok.mp ok
    cases ok
    rw [reserveEmbeddedItems, same] at charge
    obtain ⟨hchg, kept⟩ := chargeItems_ok [.elements depth len] same charge
      (by simp [itemsOf, DecodeEvent.items]) (by simpa [DecodeEvent.depth] using shallow)
    obtain ⟨charged', free, length⟩ := (readBytes len).run _ _ _ hchg.same ran
    refine ⟨by simpa using hchg.trans charged', ?_, fun hb bnds hw => ?_⟩
    · rw [kept] at free
      exact bind_eq_ok.mpr ⟨.new before.payload, rfl, bind_eq_ok.mpr ⟨_, free, rfl⟩⟩
    · refine nestingItems_le hw fun item hm => ?_
      obtain ⟨byte, hls, rfl⟩ := mem_map.mp hm
      have some_byte : 0 < bs.length := length_pos_of_mem hls
      rw [length hb ⟨bnds.1, by simp⟩] at some_byte
      exact bnds.2 depth len (by simp) some_byte

section Nested

variable {depth : Nat} {decodeOne : CborDecoder → Except DecodeError (Decoded Value)}
  {logOne : CborDecoder → List DecodeEvent}
  (one : Accounts lim decodeOne logOne fun bound value => depth + 1 + nesting value ≤ bound)
include one

theorem items (n : Nat) : Accounts lim (decodeItems decodeOne n)
    (logItems decodeOne logOne n) fun hb items =>
      ∀ item ∈ items, depth + 1 + nesting item ≤ hb := by
  induction n with
  | zero => exact pure [] (by simp)
  | succ n ih =>
    refine one.bind fun item => ih.andThen fun items => pure _ fun hb rest here => ?_
    exact forall_mem_cons.mpr ⟨here, rest⟩

theorem members (n : Nat) (map : List (String × Value)) :
    Accounts lim (decodeMembers decodeOne n map) (logMembers decodeOne logOne n)
      fun hb members => (∀ e ∈ map, depth + 1 + nesting e.2 ≤ hb) →
        ∀ e ∈ members, depth + 1 + nesting e.2 ≤ hb := by
  induction n generalizing map with
  | zero => exact pure map fun _ => id
  | succ n ih =>
    refine one.bind fun k => ?_
    cases k with
    | string k =>
      refine one.bind fun v => (ih (insertMember k v map)).mono ?_
      exact fun hb members all here _ s =>
        all (forall_insertMember (p := fun v => depth + 1 + nesting v ≤ hb) here s)
    | _ => exact error .keyNotText

/-- The body of an item at `depth`. -/
theorem body (shallow : depth ≤ lim.maxDepth) (ini : UInt8) :
    Accounts lim (decodeBody decodeOne ini) (logBody decodeOne logOne depth ini)
      fun hb v => depth ≤ hb → depth + nesting v ≤ hb := by
  have flat {hb : Nat} {v : Value} (same : nesting v = 0) (h : depth ≤ hb) :
      depth + nesting v ≤ hb := by omega
  unfold decodeBody logBody
  dsimp only
  split_ifs
  · refine (readLen _).andThen fun raw => ?_
    refine pure (Value.number (.posInt (UInt64.ofNat raw))) ?_
    exact fun _ _ => flat rfl
  · refine congr (mono ?_ fun _ _ => flat) fun _ => bind_negative Number.fromNegative
    exact (readLen _).leaf _ Number.fromNegative fun _ => rfl
  · exact sized fun len => elements shallow len _
  · refine sized fun len => ?_
    refine congr (mono ?_ fun _ _ => flat) fun _ => bind_text fromUtf8
    exact (readBytes len).leaf _ fromUtf8 fun _ => rfl
  · refine sized fun len => ?_
    refine (one.items len).andThen fun xs => ?_
    refine pure (Value.array xs) ?_
    exact fun hb each hw => nestingItems_le hw each
  · refine (readSizedLen _ _ 2).bind fun len => ?_
    refine (one.members len []).andThen fun ms => ?_
    refine pure (Value.object ms) ?_
    exact fun hb each _ hw => nestingMembers_le hw (each (by simp))
  · exact (decodeSimple _).mono fun _ _ => flat
  · exact error _

end Nested

theorem noteItem_ok {d : Nat} {s t : CborDecoder} (he : s.limits = some lim)
    (ok : noteItem d s = .ok t) :
    d ≤ lim.maxDepth ∧ Charged lim [.item d] s t ∧ t.payload = s.payload := by
  rw [noteItem, he] at ok
  dsimp only at ok
  split_ifs at ok with deep
  have hshal := Nat.le_of_not_lt deep
  exact ⟨hshal, chargeItems_ok [.item d] he ok rfl (by simpa [DecodeEvent.depth] using hshal)⟩

theorem valueAtDepth (fuel d : Nat) : Accounts lim (decodeValueAtDepth fuel d)
    (logValueAtDepth fuel d) fun hb v => d + nesting v ≤ hb := by
  induction fuel generalizing d with
  | zero => exact error .outOfFuel
  | succ fuel ih =>
    have tl (hshal : d ≤ lim.maxDepth) : Accounts lim
        (fun dec => CanonicalCbor.readU8 dec >>= fun p =>
          decodeBody (decodeValueAtDepth fuel (d + 1)) p.1 p.2)
        (fun dec => CanonicalCbor.logThen (CanonicalCbor.readU8 dec) fun p =>
          logBody (decodeValueAtDepth fuel (d + 1)) (logValueAtDepth fuel (d + 1)) d p.1 p.2)
        fun hb v => d ≤ hb → d + nesting v ≤ hb :=
      readU8.bind fun ini => ((ih (d + 1)).body hshal ini).mono fun _ _ h _ => h
    refine ⟨fun s he => ?_, fun s r t he ok => ?_⟩
    · intro capacity unread hm
      rcases mem_cons.mp hm with here | hm
      · cases here
      · refine Reserved.logThen (fun mid ok => ?_) capacity unread hm
        obtain ⟨hshal, hchg, -⟩ := noteItem_ok he ok
        exact (tl hshal).reserved mid hchg.same
    · obtain ⟨mid, noted, ok⟩ := bind_eq_ok.mp ok
      obtain ⟨hshal, hchg, kept⟩ := noteItem_ok he noted
      obtain ⟨charged', free, deep⟩ := (tl hshal).run mid r t hchg.same ok
      rw [kept] at free
      rw [logValueAtDepth, noted]
      refine ⟨hchg.trans charged', free, fun hb bnds => deep hb ⟨bnds.1, ?_⟩ ?_⟩
      · exact fun d n hm => bnds.2 d n (mem_cons_of_mem _ hm)
      · exact hshal.trans bnds.1

end Accounts

end Rules

/-- A bounded decoding reserves room within the limits, whether it succeeds or not. If it succeeds,
the decoding without limits gives the same value, its items are within the limit, no item that is
read on its own lies too deep, and neither does the value, up to the bytes of a byte string at the
greatest depth, which are one level deeper. -/
theorem decodeBounded_accounted (pl : Bytes) (lim : DecodeLimits) :
    Reserved lim (logBounded pl lim) ∧
    ∀ value, decodeBounded pl lim = .ok value → decode pl = .ok value ∧
      itemsOf (logBounded pl lim) ≤ lim.maxItems ∧
      (∀ event ∈ logBounded pl lim, event.depth ≤ lim.maxDepth) ∧
      nesting value ≤ lim.maxDepth + 1 ∧
      ((∀ count, .elements lim.maxDepth count ∈ logBounded pl lim → count = 0) →
        nesting value ≤ lim.maxDepth) := by
  unfold logBounded decodeBounded
  split_ifs
  · exact ⟨by simp [Reserved], fun value ok => by cases ok⟩
  have accs : Accounts lim _ _ _ := .valueAtDepth (pl.length + 1) 0
  refine ⟨accs.reserved _ rfl, fun value ok => ?_⟩
  obtain ⟨⟨found, last⟩, ran, ok⟩ := bind_eq_ok.mp ok
  obtain ⟨_, hfin, ok⟩ := bind_eq_ok.mp ok
  cases ok
  obtain ⟨hchg, free, deep⟩ := accs.run _ _ _ rfl ran
  refine ⟨bind_eq_ok.mpr ⟨_, free, bind_eq_ok.mpr ⟨(), hfin, rfl⟩⟩, ?_, hchg.shallow, ?_, ?_⟩
  · have xs := hchg.items.trans (Nat.zero_add _)
    exact xs ▸ hchg.few (Nat.zero_le _)
  · have := deep (lim.maxDepth + 1) ⟨Nat.le_succ _, fun d count hm _ =>
      Nat.lt_succ_of_le (hchg.shallow _ hm)⟩
    omega
  · intro none
    have := deep lim.maxDepth ⟨le_rfl, fun d count hm some => ?_⟩
    · omega
    · have shallow := hchg.shallow _ hm
      rcases Nat.lt_or_eq_of_le shallow with below | rfl
      · exact below
      · have := none count hm
        omega

/-- A byte string at depth zero, which is the greatest one allowed, nests. -/
theorem decodeBounded_nests :
    decodeBounded [0x41, 0x05] ⟨2, 2, 0⟩ = .ok (.array [.number (.posInt 5)]) ∧
      nesting (.array [.number (.posInt 5)]) = 1 :=
  ⟨rfl, rfl⟩

end Ostadix.CanonicalCbor

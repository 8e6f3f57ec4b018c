import Ostadix.Lib.Bytes
import Ostadix.Lib.Except

/-! # Parsers of byte strings

A parser takes bytes from the front of its input and may stop with an error. `Exact` says which
byte strings it reads as which values, in both directions at once: whatever the parser takes is
in the grammar, and it takes everything in the grammar, with any bytes behind it. A parser that
uses up its input is described by `ExactAll`. -/

namespace Ostadix.Lib

open List

abbrev Parse (ε α : Type) := StateT Bytes (Except ε) α

def putU8 (value : UInt8) : Bytes := toBigEndian 1 value.toNat

def putU16 (value : UInt16) : Bytes := toBigEndian 2 value.toNat

def putU32 (value : UInt32) : Bytes := toBigEndian 4 value.toNat

def putU64 (value : UInt64) : Bytes := toBigEndian 8 value.toNat

namespace Parse

section Primitives

variable {ε α : Type}

def take (truncated : Nat → Nat → ε) (length : Nat) : Parse ε Bytes := fun input =>
  if input.length < length then .error (truncated length input.length)
  else .ok (input.take length, input.drop length)

def takeRemaining : Parse ε Bytes := fun input => .ok (input, [])

/-- Stop if fewer bytes are left than needed. -/
def require (needed : Nat) (error : Nat → ε) : Parse ε Unit := fun input =>
  if input.length < needed then .error (error input.length) else .ok ((), input)

/-- Stop unless exactly so many bytes are left. -/
def requireExactly (expected : Nat) (error : Nat → ε) : Parse ε Unit := fun input =>
  if input.length = expected then .ok ((), input) else .error (error input.length)

/-- The value of a parser and the bytes it took. -/
def consumed (parser : Parse ε α) : Parse ε (α × Bytes) := fun input =>
  (parser input).map fun (value, rest) => ((value, input.take (input.length - rest.length)), rest)

/-- A computation that does not look at the input. -/
def lift (computation : Except ε α) : Parse ε α := fun input =>
  computation.map (·, input)

/-- A big-endian machine word of `width` bytes. -/
def takeWord {ω : Type} (ofNat : Nat → ω) (truncated : Nat → Nat → ε) (width : Nat) :
    Parse ε ω := do
  return ofNat (ofBigEndian (← take truncated width))

def takeU8 (truncated : Nat → Nat → ε) : Parse ε UInt8 := takeWord UInt8.ofNat truncated 1

def takeU16 (truncated : Nat → Nat → ε) : Parse ε UInt16 := takeWord UInt16.ofNat truncated 2

def takeU32 (truncated : Nat → Nat → ε) : Parse ε UInt32 := takeWord UInt32.ofNat truncated 4

def takeU64 (truncated : Nat → Nat → ε) : Parse ε UInt64 := takeWord UInt64.ofNat truncated 8

end Primitives

section Grammar

variable {ε α β : Type}

def Exact (parser : Parse ε α) (grammar : α → Bytes → Prop) : Prop :=
  ∀ input value rest,
    parser input = .ok (value, rest) ↔ ∃ bytes, input = bytes ++ rest ∧ grammar value bytes

def ExactAll (parser : Parse ε α) (grammar : α → Bytes → Prop) : Prop :=
  ∀ input value, parser input = .ok (value, []) ↔ grammar value input

variable {parser : Parse ε α} {next : α → Parse ε β} {grammar grammar' : α → Bytes → Prop}
  {nextGrammar : α → β → Bytes → Prop}

variable {inp tl : Bytes}

theorem bind_ok {r : β} : (parser >>= next) inp = .ok (r, tl) ↔
    ∃ v mid, parser inp = .ok (v, mid) ∧ next v mid = .ok (r, tl) :=
  run_bind_eq_ok

theorem Exact.congr (hex : Exact parser grammar)
    (he : ∀ v bs, grammar v bs ↔ grammar' v bs) : Exact parser grammar' := by
  intro inp v tl
  rw [hex inp v tl]
  simp only [he]

theorem ExactAll.congr (hex : ExactAll parser grammar) (he : ∀ v bs, grammar v bs ↔ grammar' v bs) :
    ExactAll parser grammar' := by
  intro inp v
  rw [hex inp v, he]

theorem Exact.all (hex : Exact parser grammar) : ExactAll parser grammar := by
  intro inp v
  rw [hex inp v []]
  constructor
  · rintro ⟨_, rfl, ha⟩
    rw [append_nil]
    exact ha
  · intro ha
    exact ⟨inp, (append_nil inp).symm, ha⟩

theorem Exact.pure (v : α) : Exact (pure v : Parse ε α) fun r bs => r = v ∧ bs = [] := by
  intro inp r tl
  constructor
  · intro hret
    cases hret
    exact ⟨[], rfl, rfl, rfl⟩
  · rintro ⟨_, rfl, rfl, rfl⟩
    rfl

theorem Exact.throw (err : ε) : Exact (throw err : Parse ε α) fun _ _ => False := by
  intro inp r tl
  constructor
  · intro bad
    cases bad
  · rintro ⟨_, _, bad⟩
    exact bad.elim

theorem Exact.bind (first : Exact parser grammar) (x2 : ∀ v, Exact (next v) (nextGrammar v)) :
    Exact (parser >>= next) fun r bs =>
      ∃ v front back, bs = front ++ back ∧ grammar v front ∧ nextGrammar v r back := by
  intro inp r tl
  rw [bind_ok]
  constructor
  · rintro ⟨v, _, ranFirst, ranSecond⟩
    obtain ⟨front, rfl, acceptedFirst⟩ := (first _ _ _).mp ranFirst
    obtain ⟨back, rfl, acceptedSecond⟩ := (x2 v _ _ _).mp ranSecond
    exact ⟨front ++ back, (append_assoc _ _ _).symm, v, front, back, rfl, acceptedFirst,
      acceptedSecond⟩
  · rintro ⟨_, rfl, v, front, back, rfl, acceptedFirst, acceptedSecond⟩
    refine ⟨v, back ++ tl, (first _ _ _).mpr ⟨front, ?_, acceptedFirst⟩,
      (x2 v _ _ _).mpr ⟨back, rfl, acceptedSecond⟩⟩
    rw [append_assoc]

theorem ExactAll.bind (first : Exact parser grammar) (x2 : ∀ v, ExactAll (next v) (nextGrammar v)) :
    ExactAll (parser >>= next) fun r bs =>
      ∃ v front back, bs = front ++ back ∧ grammar v front ∧ nextGrammar v r back := by
  intro inp r
  rw [bind_ok]
  constructor
  · rintro ⟨v, mid, ranFirst, ranSecond⟩
    obtain ⟨front, rfl, acceptedFirst⟩ := (first _ _ _).mp ranFirst
    exact ⟨v, front, mid, rfl, acceptedFirst, (x2 v _ _).mp ranSecond⟩
  · rintro ⟨v, front, back, rfl, acceptedFirst, acceptedSecond⟩
    exact ⟨v, back, (first _ _ _).mpr ⟨front, rfl, acceptedFirst⟩, (x2 v _ _).mpr acceptedSecond⟩

/-! ## Values with several parts -/

section Parts

variable {γ δ : Type} {second : Parse ε β} {third : Parse ε γ}
  {secondGrammar : β → Bytes → Prop} {thirdGrammar : γ → Bytes → Prop}

theorem Exact.map (exact₁ : Exact parser grammar) (build : α → δ) :
    Exact (do return build (← parser)) fun r bs =>
      ∃ part, r = build part ∧ grammar part bs := by
  refine (exact₁.bind fun part => .pure (build part)).congr ?_
  intro r bs
  constructor
  · rintro ⟨part, front, _, rfl, ha, rfl, rfl⟩
    exact ⟨part, rfl, (append_nil front).symm ▸ ha⟩
  · rintro ⟨part, rfl, ha⟩
    exact ⟨part, bs, [], (append_nil bs).symm, ha, rfl, rfl⟩

theorem ExactAll.map (exact₁ : ExactAll parser grammar) (build : α → δ) :
    ExactAll (do return build (← parser)) fun r bs =>
      ∃ part, r = build part ∧ grammar part bs := by
  intro inp r
  rw [bind_ok]
  constructor
  · rintro ⟨part, _, hpar, ⟨⟩⟩
    exact ⟨part, rfl, (exact₁ inp part).mp hpar⟩
  · rintro ⟨part, rfl, ha⟩
    exact ⟨part, [], (exact₁ inp part).mpr ha, rfl⟩

theorem Exact.map₂ (exact₁ : Exact parser grammar) (exact₂ : Exact second secondGrammar)
    (build : α → β → δ) :
    Exact (do return build (← parser) (← second)) fun r bs =>
      ∃ part part₂ bytes₁ bytes₂, r = build part part₂ ∧ bs = bytes₁ ++ bytes₂ ∧
        grammar part bytes₁ ∧ secondGrammar part₂ bytes₂ := by
  refine (exact₁.bind fun part => exact₂.map (build part)).congr ?_
  intro r bs
  constructor
  · rintro ⟨part, bytes₁, bytes₂, rfl, accepted₁, part₂, rfl, accepted₂⟩
    exact ⟨part, part₂, bytes₁, bytes₂, rfl, rfl, accepted₁, accepted₂⟩
  · rintro ⟨part, part₂, bytes₁, bytes₂, rfl, rfl, accepted₁, accepted₂⟩
    exact ⟨part, bytes₁, bytes₂, rfl, accepted₁, part₂, rfl, accepted₂⟩

theorem Exact.map₃ (exact₁ : Exact parser grammar) (exact₂ : Exact second secondGrammar)
    (exact₃ : Exact third thirdGrammar) (build : α → β → γ → δ) :
    Exact (do return build (← parser) (← second) (← third)) fun r bs =>
      ∃ part part₂ part₃ bytes₁ bytes₂ bytes₃, r = build part part₂ part₃ ∧
        bs = bytes₁ ++ bytes₂ ++ bytes₃ ∧ grammar part bytes₁ ∧ secondGrammar part₂ bytes₂ ∧
        thirdGrammar part₃ bytes₃ := by
  refine (exact₁.bind fun part => exact₂.map₂ exact₃ (build part)).congr ?_
  intro r bs
  constructor
  · rintro ⟨part, bytes₁, _, rfl, accepted₁, part₂, part₃, bytes₂, bytes₃, rfl, rfl, accepted₂,
      accepted₃⟩
    exact ⟨part, part₂, part₃, bytes₁, bytes₂, bytes₃, rfl, (append_assoc _ _ _).symm,
      accepted₁, accepted₂, accepted₃⟩
  · rintro ⟨part, part₂, part₃, bytes₁, bytes₂, bytes₃, rfl, rfl, accepted₁, accepted₂, accepted₃⟩
    exact ⟨part, bytes₁, bytes₂ ++ bytes₃, append_assoc _ _ _, accepted₁, part₂, part₃, bytes₂,
      bytes₃, rfl, rfl, accepted₂, accepted₃⟩

end Parts

/-! ## Primitives -/

theorem Exact.take (truncated : Nat → Nat → ε) (len : Nat) :
    Exact (take truncated len) fun v bs => v = bs ∧ bs.length = len := by
  intro inp v tl
  rw [Parse.take]
  split
  · rename_i hsh
    constructor
    · intro bad
      cases bad
    · rintro ⟨bs, rfl, rfl, rfl⟩
      rw [length_append] at hsh
      omega
  · rename_i hsh
    constructor
    · intro taken
      cases taken
      exact ⟨inp.take len, (take_append_drop len inp).symm, rfl,
        length_take_of_le (Nat.le_of_not_lt hsh)⟩
    · rintro ⟨bs, rfl, rfl, rfl⟩
      rw [take_left, drop_left]

theorem Exact.consumed (hex : Exact parser grammar) :
    Exact (consumed parser) fun r bs => r.2 = bs ∧ grammar r.1 bs := by
  have taken (bs tl : Bytes) : (bs ++ tl).take ((bs ++ tl).length - tl.length) = bs := by
    rw [length_append, Nat.add_sub_cancel, take_left]
  rintro inp ⟨v, slice⟩ tl
  constructor
  · intro hpar
    rw [Parse.consumed] at hpar
    cases ran : parser inp with
    | error => rw [ran] at hpar; cases hpar
    | ok r =>
      rw [ran] at hpar
      obtain ⟨v, tl⟩ := r
      cases hpar
      obtain ⟨bs, rfl, ha⟩ := (hex _ _ _).mp ran
      exact ⟨bs, rfl, taken bs tl, ha⟩
  · rintro ⟨bs, rfl, he, ha⟩
    obtain rfl : slice = bs := he
    have ran := (hex _ v tl).mpr ⟨slice, rfl, ha⟩
    rw [Parse.consumed, ran]
    show Except.ok ((v, (slice ++ tl).take ((slice ++ tl).length - tl.length)), tl) = _
    rw [taken]

section

variable (truncated : Nat → Nat → ε)

include truncated

theorem Exact.takeWord {ω : Type} {ofNat : Nat → ω} {toNat : ω → Nat} {w : Nat}
    (ofNat_toNat : ∀ word, ofNat (toNat word) = word)
    (toNat_ofNat : ∀ num, num < 256 ^ w → toNat (ofNat num) = num)
    (toNat_lt : ∀ word, toNat word < 256 ^ w) :
    Exact (takeWord ofNat truncated w) fun word bs =>
      bs = toBigEndian w (toNat word) := by
  refine ((Exact.take truncated w).bind fun bs => .pure (ofNat (ofBigEndian bs))).congr ?_
  intro word bs
  constructor
  · rintro ⟨taken, _, _, rfl, ⟨rfl, rfl⟩, rfl, rfl⟩
    rw [append_nil, toNat_ofNat _ (ofBigEndian_lt taken), toBigEndian_ofBigEndian]
  · rintro rfl
    refine ⟨_, _, [], (append_nil _).symm, ⟨rfl, length_toBigEndian w _⟩, ?_, rfl⟩
    rw [ofBigEndian_toBigEndian_of_lt (toNat_lt word), ofNat_toNat]

theorem Exact.takeU8 : Exact (takeU8 truncated) fun v bs => bs = putU8 v :=
  .takeWord truncated (fun _ => UInt8.ofNat_toNat)
    (fun _ fits => UInt8.toNat_ofNat_of_lt' fits) UInt8.toNat_lt

theorem Exact.takeU16 : Exact (takeU16 truncated) fun v bs => bs = putU16 v :=
  .takeWord truncated (fun _ => UInt16.ofNat_toNat)
    (fun _ fits => UInt16.toNat_ofNat_of_lt' fits) UInt16.toNat_lt

theorem Exact.takeU32 : Exact (takeU32 truncated) fun v bs => bs = putU32 v :=
  .takeWord truncated (fun _ => UInt32.ofNat_toNat)
    (fun _ fits => UInt32.toNat_ofNat_of_lt' fits) UInt32.toNat_lt

theorem Exact.takeU64 : Exact (takeU64 truncated) fun v bs => bs = putU64 v :=
  .takeWord truncated (fun _ => UInt64.ofNat_toNat)
    (fun _ fits => UInt64.toNat_ofNat_of_lt' fits) UInt64.toNat_lt

end

theorem lift_ok {cmp : Except ε α} {v : α} :
    lift cmp inp = .ok (v, tl) ↔ cmp = .ok v ∧ inp = tl := by
  cases cmp <;> simp [lift, Except.map]

theorem Exact.lift (cmp : Except ε α) : Exact (lift cmp) fun v bs => cmp = .ok v ∧ bs = [] := by
  intro inp v tl
  rw [lift_ok]
  constructor
  · rintro ⟨ok, rfl⟩
    exact ⟨[], rfl, ok, rfl⟩
  · rintro ⟨_, rfl, ok, rfl⟩
    exact ⟨ok, rfl⟩

/-! ## Checks -/

section Checks

variable {computation : Except ε α} {cond : Bool} {err : ε} {then_ : Unit → Parse ε β}
  {thenGrammar : β → Bytes → Prop}

theorem lift_bind_apply (inp : Bytes) :
    (lift computation >>= next) inp = (computation >>= fun v => next v inp) := by
  cases computation <;> rfl

theorem guard_bind_ok (err : ε) {guard : Parse ε Unit} {r : β} {p : Prop} [Decidable p]
    (check : guard inp = if p then .ok ((), inp) else .error err) :
    (guard >>= then_) inp = .ok (r, tl) ↔ p ∧ then_ () inp = .ok (r, tl) := by
  rw [bind_ok, check]
  split <;> simp [*, exists_unit]

theorem lift_bailIf_bind_ok {r : β} : (lift (bailIf cond err) >>= then_) inp = .ok (r, tl) ↔
      cond = false ∧ then_ () inp = .ok (r, tl) :=
  guard_bind_ok err (by cases cond <;> rfl)

/-- After the rest of the input nothing is left to look at. -/
theorem ExactAll.takeRemaining_bind {next : Bytes → Parse ε β} :
    ExactAll (Parse.takeRemaining >>= next) fun r bs => next bs [] = .ok (r, []) :=
  fun _ _ => .rfl

theorem Exact.lift_bind (second : ∀ v, Exact (next v) (nextGrammar v)) :
    Exact (Parse.lift computation >>= next) fun r bs =>
      ∃ v, computation = .ok v ∧ nextGrammar v r bs := by
  intro inp r tl
  rw [lift_bind_apply, bind_eq_ok]
  simp only [second _ inp r tl]
  constructor
  · rintro ⟨v, hc, bs, split, ha⟩
    exact ⟨bs, split, v, hc, ha⟩
  · rintro ⟨bs, split, v, hc, ha⟩
    exact ⟨v, hc, bs, split, ha⟩

theorem ExactAll.lift_bind (second : ∀ v, ExactAll (next v) (nextGrammar v)) :
    ExactAll (lift computation >>= next) fun r bs =>
      ∃ v, computation = .ok v ∧ nextGrammar v r bs := by
  intro inp r
  rw [lift_bind_apply, bind_eq_ok]
  simp only [second _ inp r]

theorem Exact.bailIf_bind (x2 : Exact (then_ ()) thenGrammar) :
    Exact (Parse.lift (bailIf cond err) >>= then_) fun r bs =>
      cond = false ∧ thenGrammar r bs := by
  intro inp r tl
  rw [lift_bailIf_bind_ok, x2 inp r tl]
  constructor
  · rintro ⟨passed, bs, split, ha⟩
    exact ⟨bs, split, passed, ha⟩
  · rintro ⟨bs, split, passed, ha⟩
    exact ⟨passed, bs, split, ha⟩

theorem ExactAll.bailIf_bind (x2 : ExactAll (then_ ()) thenGrammar) :
    ExactAll (lift (bailIf cond err) >>= then_) fun r bs =>
      cond = false ∧ thenGrammar r bs := by
  intro inp r
  rw [lift_bailIf_bind_ok, x2 inp r]

variable {short : Nat → ε}

theorem require_bind_ok {needed : Nat} {r : β} :
    (require needed short >>= then_) inp = .ok (r, tl) ↔
      needed ≤ inp.length ∧ then_ () inp = .ok (r, tl) :=
  guard_bind_ok _ (by simp only [require, ← Nat.not_lt, ite_not]; rfl)

/-- A check that enough bytes are left changes nothing if the grammar needs them anyway. -/
theorem ExactAll.require_bind {needed : Nat} (x2 : ExactAll (then_ ()) thenGrammar)
    (long : ∀ r bs, thenGrammar r bs → needed ≤ bs.length) :
    ExactAll (require needed short >>= then_) thenGrammar := by
  intro inp r
  rw [require_bind_ok, x2 inp r]
  exact and_iff_right_of_imp (long r inp)

theorem ExactAll.requireExactly_bind {num : Nat} {o : Nat → ε}
    (x2 : ExactAll (then_ ()) thenGrammar) :
    ExactAll (requireExactly num o >>= then_) fun r bs =>
      bs.length = num ∧ thenGrammar r bs := by
  intro inp r
  show _ ↔ inp.length = num ∧ thenGrammar r inp
  rw [← x2 inp r]
  exact guard_bind_ok _ rfl

theorem Exact.require_bind {needed : Nat} (x2 : Exact (then_ ()) thenGrammar)
    (long : ∀ r bs, thenGrammar r bs → needed ≤ bs.length) :
    Exact (Parse.require needed short >>= then_) thenGrammar := by
  intro inp r tl
  rw [require_bind_ok, x2 inp r tl]
  refine and_iff_right_of_imp ?_
  rintro ⟨bs, rfl, ha⟩
  rw [length_append]
  exact Nat.le_add_right_of_le (long r bs ha)

end Checks

end Grammar

end Parse

end Ostadix.Lib

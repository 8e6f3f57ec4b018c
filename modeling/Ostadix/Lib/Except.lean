import Ostadix.Lib.Lists

/-! # Fallible computations

Inversion of a successful `Except` computation, and its result as an option. -/

namespace Ostadix.Lib

open List

variable {ε α β : Type} {convert : α → Except ε β}

theorem bind_eq_ok {first : Except ε α} {next : α → Except ε β} {r : β} :
    (first >>= next) = .ok r ↔ ∃ v, first = .ok v ∧ next v = .ok r := by
  cases first <;> simp [bind, Except.bind]

theorem pure_eq_ok {v r : α} : (pure v : Except ε α) = .ok r ↔ r = v := by
  simp [pure, Except.pure, eq_comm]

theorem exists_unit {post : Unit → Prop} : (∃ done, post done) ↔ post () :=
  ⟨fun ⟨(), held⟩ => held, fun held => ⟨(), held⟩⟩

theorem bind_eq_error {first : Except ε α} {next : α → Except ε β} {error : ε} :
    (first >>= next) = .error error ↔
      first = .error error ∨ ∃ v, first = .ok v ∧ next v = .error error := by
  cases first <;> simp [bind, Except.bind]

/-- The same for a computation with a state. -/
theorem run_bind_eq_ok {σ ε α β : Type} {first : StateT σ (Except ε) α}
    {next : α → StateT σ (Except ε) β} {s : σ} {r : β × σ} :
    (first >>= next) s = .ok r ↔ ∃ v mid, first s = .ok (v, mid) ∧ next v mid = .ok r :=
  bind_eq_ok.trans Prod.exists

theorem run_lift_eq_ok {σ ε α : Type} {act : Except ε α} {s t : σ} {v : α} :
    (liftM act : StateT σ (Except ε) α) s = .ok (v, t) ↔ act = .ok v ∧ t = s := by
  show (act >>= fun v => Except.ok (v, s)) = _ ↔ _
  rw [bind_eq_ok]
  simp [and_comm, eq_comm]

theorem run_forM_cons {σ ε α : Type} {x : α} {xs : List α}
    {step : α → StateT σ (Except ε) Unit} {s t : σ} :
    (x :: xs).forM step s = .ok ((), t) ↔
      ∃ mid, step x s = .ok ((), mid) ∧ xs.forM step mid = .ok ((), t) :=
  run_bind_eq_ok.trans exists_unit

@[simp] theorem ok_bind (v : α) (next : α → Except ε β) : (Except.ok v >>= next) = next v := rfl

theorem error_bind (err : ε) (next : α → Except ε β) :
    (Except.error err >>= next) = .error err := rfl

theorem mapError_ok {ε δ α : Type} (v : α) (render : ε → δ) :
    (Except.ok v).mapError render = .ok v := rfl

theorem mapError_eq_ok {ε δ α : Type} {r : Except ε α} {render : ε → δ} {v : α} :
    r.mapError render = .ok v ↔ r = .ok v := by
  cases r <;> simp [Except.mapError]

theorem mapError_eq_error {ε δ α : Type} {r : Except ε α} {render : ε → δ} {err : δ} :
    r.mapError render = .error err ↔ ∃ cause, r = .error cause ∧ err = render cause := by
  cases r <;> simp [Except.mapError, eq_comm]

def bailIf {ε : Type} (condition : Bool) (error : ε) : Except ε Unit :=
  if condition then .error error else .ok ()

theorem bailIf_true {ε : Type} (err : ε) : bailIf true err = .error err := rfl

theorem bailIf_false {ε : Type} (err : ε) : bailIf false err = .ok () := rfl

theorem bailIf_eq_ok {ε : Type} {cond : Bool} {err : ε} {done : Unit} :
    bailIf cond err = .ok done ↔ cond = false := by
  cases cond <;> simp [bailIf]

theorem bailIf_eq_error {ε : Type} {cond : Bool} {err o : ε} :
    bailIf cond err = .error o ↔ cond = true ∧ o = err := by
  cases cond <;> simp [bailIf, eq_comm]

def okOr {ε α : Type} (found : Option α) (error : ε) : Except ε α :=
  match found with
  | some value => .ok value
  | none => .error error

theorem okOr_eq_ok {ε α : Type} {opt : Option α} {err : ε} {v : α} :
    okOr opt err = .ok v ↔ opt = some v := by
  cases opt <;> simp [okOr]

theorem okOr_eq_error {ε α : Type} {opt : Option α} {err o : ε} :
    okOr opt err = .error o ↔ opt = none ∧ o = err := by
  cases opt <;> simp [okOr, eq_comm]

theorem forM_eq_ok {ε α : Type} {xs : List α} {check : α → Except ε Unit} :
    xs.forM check = .ok () ↔ ∀ x ∈ xs, check x = .ok () := by
  induction xs with
  | nil => simp [pure, Except.pure]
  | cons x xs ih =>
    rw [forall_mem_cons, ← ih]
    exact bind_eq_ok.trans exists_unit

theorem forM_ne_error {ε α : Type} (xs : List α) {check : α → Except ε Unit} {err : ε}
    (checks : ∀ x, check x ≠ .error err) : forM xs check ≠ .error err := by
  induction xs with
  | nil => simp [pure, Except.pure]
  | cons x xs ih => simp [bind_eq_error, checks x, ih]

theorem exists_mapM_ok {xs : List α} (converts : ∀ x ∈ xs, ∃ r, convert x = .ok r) :
    ∃ rs, xs.mapM convert = .ok rs := by
  induction xs with
  | nil => exact ⟨[], rfl⟩
  | cons x xs ih =>
    obtain ⟨first, firstOk⟩ := converts x mem_cons_self
    obtain ⟨tl, restOk⟩ := ih (forall_mem_cons.mp converts).2
    exact ⟨first :: tl, by rw [mapM_cons, firstOk, ok_bind, restOk]; rfl⟩

theorem mapM_eq_ok {xs : List α} {rs : List β} : xs.mapM convert = .ok rs ↔
      List.Forall₂ (fun x r => convert x = .ok r) xs rs := by
  induction xs generalizing rs with
  | nil => cases rs <;> simp [pure, Except.pure]
  | cons x xs ih =>
    rw [mapM_cons, bind_eq_ok]
    constructor
    · rintro ⟨_, firstOk, tl⟩
      obtain ⟨_, othersOk, ⟨⟩⟩ := bind_eq_ok.mp tl
      exact .cons firstOk (ih.mp othersOk)
    · intro converted
      cases converted with
      | cons firstOk othersOk =>
        exact ⟨_, firstOk, bind_eq_ok.mpr ⟨_, ih.mpr othersOk, rfl⟩⟩

theorem mapM_eq_ok_of_mem {xs : List α} {rs : List β}
    (converted : xs.mapM convert = .ok rs) {x : α} (hm : x ∈ xs) :
    ∃ r, convert x = .ok r ∧ r ∈ rs := by
  obtain ⟨r, hst, ok⟩ := exists_of_forall₂ (mapM_eq_ok.mp converted) hm
  exact ⟨r, ok, hst⟩

theorem mem_of_mapM_eq_ok {xs : List α} {rs : List β}
    (converted : xs.mapM convert = .ok rs) {r : β} (hm : r ∈ rs) :
    ∃ x ∈ xs, convert x = .ok r :=
  exists_of_forall₂ (mapM_eq_ok.mp converted).flip hm

theorem toOption_bind (first : Except ε α) (next : α → Except ε β) :
    (first >>= next).toOption = first.toOption.bind fun v => (next v).toOption := by
  cases first <;> rfl

@[simp] theorem toOption_ok {ε α : Type} (v : α) :
    (Except.ok v : Except ε α).toOption = some v := rfl

theorem eq_ok_of_toOption {ε α : Type} {r : Except ε α} {v : α}
    (some : r.toOption = some v) : r = .ok v := by
  cases r with
  | error => cases some
  | ok => rw [Option.some.inj some]

end Ostadix.Lib

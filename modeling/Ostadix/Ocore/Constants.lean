import Ostadix.Lib.Except
import Ostadix.Ocore.Typeck

/-! # Values of constants

The checker evaluates constants in the order of their declarations, and a constant that an
initializer names has the value `zero` until its turn. Against that stands the value a constant
ought to have: its initializer, with every constant in it replaced by the value of that constant's
own initializer. -/

namespace Ostadix.Ocore

open Ast Lib List

/-! ## The constants an initializer names -/

mutual

/-- The paths that stand for a value in a constant initializer. -/
def valuePaths : Expr → List Path
  | .mk kind _ => kindPaths kind

def kindPaths : ExprKind → List Path
  | .path path => [path]
  | .array values => listPaths values
  | .arrayRepeat value _ => valuePaths value
  | .struct _ fields => fieldPaths fields
  | _ => []

def listPaths : List Expr → List Path
  | [] => []
  | value :: values => valuePaths value ++ listPaths values

def fieldPaths : List (String × Expr) → List Path
  | [] => []
  | (_, value) :: fields => valuePaths value ++ fieldPaths fields

end

/-- `ref` is named by one of the paths. -/
def NamesConst (program : ProgramTables) (scope : ModuleScope) (paths : List Path) (ref : ConstId) :
    Prop :=
  ∃ path ∈ paths, ∃ qualified, resolvePath scope program.symbols path = .ok qualified ∧
    program.symbols.lookup qualified = some (.const ref)

namespace Checker

/-- The value of a constant by substitution, at most `fuel` constants deep. -/
def declaredValue (checker : Checker) : Nat → ConstId → CheckResult HirConstValue
  | 0, _ => throw .panic
  | fuel + 1, id => do
      let const ← unwrap checker.constDefs[id]?
      let expected := (← unwrap checker.program.consts[id]?).ty
      constValue checker.program (checker.declaredValue fuel) const.scope const.definition.init
        expected

end Checker

/-! ## What the value of an initializer depends on -/

variable {ref : ConstId} {const : Definition ConstDef}

section Congruence

variable {prog : ProgramTables} {consts : List ConstEntry} {statics : List StaticEntry}
  {sc : ModuleScope} {valueOf o : ConstId → CheckResult HirConstValue}

theorem NamesConst.mono {paths more : List Path} (subset : paths ⊆ more)
    (names : NamesConst prog sc paths ref) : NamesConst prog sc more ref := by
  obtain ⟨path, hm, hres⟩ := names
  exact ⟨path, subset hm, hres⟩

theorem namedConstant_congr (htys : consts.map (·.ty) = prog.consts.map (·.ty))
    {id : ConstId} (he : o id = valueOf id) (sp : Span) (want : TypeId) :
    namedConstant { prog with consts, statics } o sc id sp want =
      namedConstant prog valueOf sc id sp want := by
  have sameTy : consts[id]?.map (·.ty) = prog.consts[id]?.map (·.ty) := by
    rw [← getElem?_map, ← getElem?_map, htys]
  rw [namedConstant, namedConstant, he]
  cases hh : prog.consts[id]? with
  | none =>
    rw [hh, Option.map_none, Option.map_eq_none_iff] at sameTy
    rw [sameTy]
  | some e =>
    rw [hh, Option.map_some, Option.map_eq_some_iff] at sameTy
    obtain ⟨he, hf, tyEq⟩ := sameTy
    rw [hf]
    show (if he.ty = want then _ else _) = if e.ty = want then _ else _
    rw [tyEq]

theorem pathConstant_congr (htys : consts.map (·.ty) = prog.consts.map (·.ty)) {path : Path}
    (he : ∀ ref, NamesConst prog sc [path] ref → o ref = valueOf ref) (sp : Span) (want : TypeId) :
    pathConstant { prog with consts, statics } o sc path sp want =
      pathConstant prog valueOf sc path sp want := by
  cases hres : resolvePath sc prog.symbols path with
  | error => simp only [pathConstant, hres]; rfl
  | ok hql =>
    cases hf : prog.symbols.lookup hql with
    | none => simp only [pathConstant, hres, ok_bind, hf]; rfl
    | some symbol =>
      cases symbol with
      | const id =>
        simp only [pathConstant, hres, ok_bind, hf]
        exact namedConstant_congr htys
          (he id ⟨path, mem_singleton_self path, hql, hres, hf⟩) sp want
      | _ => simp only [pathConstant, hres, ok_bind, hf]; rfl

mutual

/-- The value of an initializer depends on the values of the constants it names, and on nothing
else that the evaluation of constants changes. -/
theorem constValue_congr (htys : consts.map (·.ty) = prog.consts.map (·.ty)) (expr : Expr)
    (he : ∀ ref, NamesConst prog sc (valuePaths expr) ref → o ref = valueOf ref) :
    Checker.constValue { prog with consts, statics } o sc expr =
      Checker.constValue prog valueOf sc expr := by
  cases expr with
  | mk kind sp =>
    rw [valuePaths] at he
    rw [Checker.constValue, Checker.constValue]
    exact constValueKind_congr htys sp kind he

theorem constValueKind_congr (htys : consts.map (·.ty) = prog.consts.map (·.ty))
    (sp : Span) (kind : ExprKind)
    (he : ∀ ref, NamesConst prog sc (kindPaths kind) ref → o ref = valueOf ref) :
    Checker.constValueKind { prog with consts, statics } o sc sp kind =
      Checker.constValueKind prog valueOf sc sp kind := by
  funext want
  cases kind with
  | path =>
    rw [kindPaths] at he
    exact pathConstant_congr htys he sp want
  | array vs =>
    rw [kindPaths] at he
    simp only [Checker.constValueKind, constValues_congr htys vs he]
    rfl
  | arrayRepeat v =>
    rw [kindPaths] at he
    simp only [Checker.constValueKind, constValue_congr htys v he]
    rfl
  | struct path fs =>
    rw [kindPaths] at he
    simp only [Checker.constValueKind, constFields_congr htys fs he]
    rfl
  | unary op => cases op <;> rfl
  | _ => rfl

theorem constValues_congr (htys : consts.map (·.ty) = prog.consts.map (·.ty)) (vs : List Expr)
    (he : ∀ ref, NamesConst prog sc (listPaths vs) ref → o ref = valueOf ref) :
    Checker.constValues { prog with consts, statics } o sc vs =
      Checker.constValues prog valueOf sc vs := by
  cases vs with
  | nil => rfl
  | cons v vs =>
    rw [listPaths] at he
    funext elt
    rw [Checker.constValues, Checker.constValues, constValue_congr htys v fun ref names =>
        he ref (names.mono (subset_append_left _ _)),
      constValues_congr htys vs fun ref names =>
        he ref (names.mono (subset_append_right _ _))]

theorem constFields_congr (htys : consts.map (·.ty) = prog.consts.map (·.ty))
    (fs : List (String × Expr))
    (he : ∀ ref, NamesConst prog sc (fieldPaths fs) ref → o ref = valueOf ref) :
    Checker.constFields { prog with consts, statics } o sc fs =
      Checker.constFields prog valueOf sc fs := by
  cases fs with
  | nil => rfl
  | cons fd fs =>
    obtain ⟨_, v⟩ := fd
    rw [fieldPaths] at he
    rw [Checker.constFields, Checker.constFields, constValue_congr htys v fun ref names =>
        he ref (names.mono (subset_append_left _ _)),
      constFields_congr htys fs fun ref names =>
        he ref (names.mono (subset_append_right _ _))]

end

end Congruence

/-! ## What an initializer evaluates to -/

section Inversion

variable {prog : ProgramTables} {sc : ModuleScope}
  {valueOf o : ConstId → CheckResult HirConstValue} {sp : Span} {want : TypeId}
  {value : HirConstValue}

theorem diag_ne_ok {α : Type} {file msg : String} {r : α} : diag file sp msg ≠ .ok r :=
  nofun

theorem notConstant_ne_ok : notConstant prog sc sp want ≠ .ok value := by
  intro ok
  obtain ⟨_, -, hfl⟩ := bind_eq_ok.mp ok
  exact diag_ne_ok hfl

theorem functionConstant_ok {id : FunctionId}
    (ok : functionConstant prog sc id sp want = .ok value) : value = .function id := by
  obtain ⟨function, -, ok⟩ := bind_eq_ok.mp ok
  obtain ⟨ty, -, ok⟩ := bind_eq_ok.mp ok
  cases ty with
  | function =>
    obtain ⟨_, -, ok⟩ := bind_eq_ok.mp ok
    dsimp only at ok
    split at ok
    · cases ok
    · cases ok
      rfl
  | _ => cases ok

theorem enumConstant_ok {qn : String} (ok : enumConstant prog sc qn sp want = .ok value) :
    ∃ id vr, value = .enum id vr [] := by
  obtain ⟨hf, -, ok⟩ := bind_eq_ok.mp ok
  cases hf with
  | none => cases ok
  | some =>
    obtain ⟨_, -, ok⟩ := bind_eq_ok.mp ok
    obtain ⟨vr, -, ok⟩ := bind_eq_ok.mp ok
    obtain ⟨_, -, ok⟩ := bind_eq_ok.mp ok
    dsimp only at ok
    split at ok
    · cases ok
    · cases ok
      exact ⟨_, _, rfl⟩

theorem namedConstant_ok {id : ConstId}
    (ok : namedConstant prog valueOf sc id sp want = .ok value) :
    valueOf id = .ok value := by
  obtain ⟨_, -, ok⟩ := bind_eq_ok.mp ok
  dsimp only at ok
  split at ok
  · exact ok
  · cases ok

/-- A path stands for a function, an enum variant or the constant it names. -/
theorem pathConstant_ok {path : Path} (ok : pathConstant prog valueOf sc path sp want = .ok value) :
    (∃ id, value = .function id) ∨ (∃ id vr, value = .enum id vr []) ∨
      ∃ id, NamesConst prog sc [path] id ∧ valueOf id = .ok value := by
  obtain ⟨hql, hres, ok⟩ := bind_eq_ok.mp ok
  cases hf : prog.symbols.lookup hql with
  | none =>
    rw [hf] at ok
    exact .inr (.inl (enumConstant_ok ok))
  | some symbol =>
    rw [hf] at ok
    cases symbol with
    | function id => exact .inl ⟨id, functionConstant_ok ok⟩
    | const id =>
      exact .inr (.inr ⟨id, ⟨path, mem_singleton_self path, hql, hres, hf⟩, namedConstant_ok ok⟩)
    | _ => exact .inr (.inl (enumConstant_ok ok))

theorem integerConstant_ok {integer : UInt64}
    (ok : integerConstant prog sc integer sp want = .ok value) :
    value = .integer integer := by
  obtain ⟨_, -, ok⟩ := bind_eq_ok.mp ok
  obtain ⟨_, -, ok⟩ := bind_eq_ok.mp ok
  dsimp only at ok
  split at ok
  · obtain ⟨_, -, ok⟩ := bind_eq_ok.mp ok
    cases ok
  · cases ok
    rfl

theorem negativeConstant_ok {op : Expr} (ok : negativeConstant prog sc op sp want = .ok value) :
    ∃ integer, value = .integer integer := by
  rw [negativeConstant] at ok
  split at ok
  · obtain ⟨_, -, ok⟩ := bind_eq_ok.mp ok
    obtain ⟨_, -, ok⟩ := bind_eq_ok.mp ok
    dsimp only at ok
    split at ok
    · obtain ⟨_, -, ok⟩ := bind_eq_ok.mp ok
      cases ok
    · cases ok
      exact ⟨_, rfl⟩
  · cases ok

/-- What stands in a constant initializer and names nothing. -/
inductive IsLiteral : HirConstValue → Prop
  | integer (value : UInt64) : IsLiteral (.integer value)
  | bool (value : Bool) : IsLiteral (.bool value)
  | bytes (bytes : List UInt8) : IsLiteral (.bytes bytes)

/-- The forms of an initializer that has a value. -/
def Evaluates (program : ProgramTables) (valueOf : ConstId → CheckResult HirConstValue)
    (scope : ModuleScope) (span : Span) (expected : TypeId) (value : HirConstValue) :
    ExprKind → Prop
  | .path path => pathConstant program valueOf scope path span expected = .ok value
  | .array values => ∃ element len results,
      program.types.typeAt expected = .ok (.array element len) ∧
      Checker.constValues program valueOf scope values element = .ok results ∧
      value = .array results
  | .arrayRepeat repeated len => ∃ element result,
      program.types.typeAt expected = .ok (.array element len) ∧
      Checker.constValue program valueOf scope repeated element = .ok result ∧
      value = .repeat result len
  | .struct _ fields => ∃ id results, program.types.typeAt expected = .ok (.struct id) ∧
      orderConstStructFields program scope id span
        (Checker.constFields program valueOf scope fields) = .ok results ∧
      value = .struct id results
  | _ => IsLiteral value

theorem constValueKind_ok {kind : ExprKind}
    (ok : Checker.constValueKind prog valueOf sc sp kind want = .ok value) :
    Evaluates prog valueOf sc sp want value kind := by
  cases kind with
  | path => exact ok
  | array =>
    obtain ⟨ty, hf, ok⟩ := bind_eq_ok.mp ok
    cases ty with
    | array elt len =>
      dsimp only at ok
      split at ok
      · obtain ⟨rs, hev, ⟨⟩⟩ := bind_eq_ok.mp ok
        exact ⟨elt, len, rs, hf, hev, rfl⟩
      · exact absurd ok notConstant_ne_ok
    | _ => exact absurd ok notConstant_ne_ok
  | arrayRepeat repeated len =>
    obtain ⟨ty, hf, ok⟩ := bind_eq_ok.mp ok
    cases ty with
    | array elt expectedLen =>
      dsimp only at ok
      split at ok
      · rename_i he
        subst he
        obtain ⟨r, hev, ⟨⟩⟩ := bind_eq_ok.mp ok
        exact ⟨elt, r, hf, hev, rfl⟩
      · exact absurd ok notConstant_ne_ok
    | _ => exact absurd ok notConstant_ne_ok
  | struct =>
    obtain ⟨ty, hf, ok⟩ := bind_eq_ok.mp ok
    cases ty with
    | struct id =>
      obtain ⟨_, -, ok⟩ := bind_eq_ok.mp ok
      obtain ⟨_, -, ok⟩ := bind_eq_ok.mp ok
      dsimp only at ok
      split at ok
      · cases ok
      · obtain ⟨rs, hev, ⟨⟩⟩ := bind_eq_ok.mp ok
        exact ⟨id, rs, hf, hev, rfl⟩
    | _ => exact absurd ok notConstant_ne_ok
  | integer integer =>
    obtain ⟨isInteger, -, ok⟩ := bind_eq_ok.mp ok
    split at ok
    · cases integerConstant_ok ok
      exact .integer integer
    · exact absurd ok notConstant_ne_ok
  | unary op =>
    cases op with
    | neg =>
      obtain ⟨isInteger, -, ok⟩ := bind_eq_ok.mp ok
      split at ok
      · obtain ⟨integer, rfl⟩ := negativeConstant_ok ok
        exact .integer integer
      · exact absurd ok notConstant_ne_ok
    | _ => exact absurd ok notConstant_ne_ok
  | byte =>
    obtain ⟨ty, -, ok⟩ := bind_eq_ok.mp ok
    split at ok
    · cases ok
      exact .integer _
    · exact absurd ok notConstant_ne_ok
  | bool bool =>
    obtain ⟨ty, -, ok⟩ := bind_eq_ok.mp ok
    split at ok
    · cases ok
      exact .bool bool
    · exact absurd ok notConstant_ne_ok
  | byteString bs =>
    obtain ⟨ty, -, ok⟩ := bind_eq_ok.mp ok
    split at ok
    · obtain ⟨_, -, ok⟩ := bind_eq_ok.mp ok
      split at ok
      · cases ok
        exact .bytes bs
      · exact absurd ok notConstant_ne_ok
    · exact absurd ok notConstant_ne_ok
  | _ => exact absurd ok notConstant_ne_ok

theorem constValue_ne_zero {expr : Expr} (hnz : ∀ id value, valueOf id = .ok value → value ≠ .zero)
    (ok : Checker.constValue prog valueOf sc expr want = .ok value) : value ≠ .zero := by
  obtain ⟨kind, _⟩ := expr
  have evaluates := constValueKind_ok ok
  cases kind with
  | path =>
    obtain ⟨id, rfl⟩ | ⟨id, _, rfl⟩ | ⟨id, -, hf⟩ := pathConstant_ok evaluates
    · exact nofun
    · exact nofun
    · exact hnz id value hf
  | array =>
    obtain ⟨_, _, _, -, -, rfl⟩ := evaluates
    exact nofun
  | arrayRepeat | struct =>
    obtain ⟨_, _, -, -, rfl⟩ := evaluates
    exact nofun
  | _ =>
    cases evaluates
    all_goals exact nofun

/-! ## What the value says about the constants -/

theorem constFields_eq_map (fs : List (String × Expr)) : Checker.constFields prog valueOf sc fs =
      fs.map fun fd => (fd.1, Checker.constValue prog valueOf sc fd.2) := by
  induction fs with
  | nil => rfl
  | cons fd fs ih => rw [Checker.constFields, ih, map_cons]

/-- The fields of a struct initializer are those of the struct, each once. -/
theorem orderConstStructFields_ok {id : StructId}
    {fs : List (String × (TypeId → CheckResult HirConstValue))} {rs : List HirConstValue}
    (hne : ∀ e ∈ prog.types.structs, (e.fields.map (·.name)).Nodup)
    (ok : orderConstStructFields prog sc id sp fs = .ok rs) :
    ∃ e, prog.types.structs[id]? = some e ∧
      (e.fields.map (·.name)).Perm (fs.map Prod.fst) ∧
      List.Forall₂ (fun fd r => ∃ evaluate, fs.lookup fd.name = some evaluate ∧
        evaluate fd.ty = .ok r) e.fields rs := by
  obtain ⟨e, hf, ok⟩ := bind_eq_ok.mp ok
  dsimp only at ok
  split at ok
  · cases ok
  · rename_i hlen
    have hp := unwrap_eq_ok.mp hf
    have hev : List.Forall₂ (fun fd r => ∃ evaluate,
        fs.lookup fd.name = some evaluate ∧ evaluate fd.ty = .ok r)
        e.fields rs := by
      refine (mapM_eq_ok.mp ok).imp fun fd r ok => ?_
      split at ok
      · rename_i evaluate hlk
        exact ⟨evaluate, hlk, ok⟩
      · cases ok
    refine ⟨e, hp, ?_, hev⟩
    refine keys_perm_of_lookup (hne e (mem_of_getElem? hp)) ?_ ?_
    · intro name hm
      obtain ⟨fd, hls, rfl⟩ := mem_map.mp hm
      obtain ⟨_, -, evaluate, hlk, -⟩ := exists_of_forall₂ hev hls
      exact Option.isSome_iff_exists.mpr ⟨evaluate, hlk⟩
    · simp at hlen
      simp [hlen]

/-- Two evaluations agree on a constant, and it has a value in both. -/
def AgreeOn (valueOf other : ConstId → CheckResult HirConstValue) (ref : ConstId) : Prop :=
  ∃ value, valueOf ref = .ok value ∧ other ref = .ok value

theorem NamesConst.append {paths more : List Path}
    (names : NamesConst prog sc (paths ++ more) ref) :
    NamesConst prog sc paths ref ∨ NamesConst prog sc more ref := by
  obtain ⟨path, hm, hres⟩ := names
  exact (mem_append.mp hm).imp (fun hm => ⟨path, hm, hres⟩) fun hm => ⟨path, hm, hres⟩

theorem NamesConst.field {fs : List (String × Expr)}
    (names : NamesConst prog sc (fieldPaths fs) ref) :
    ∃ fd ∈ fs, NamesConst prog sc (valuePaths fd.2) ref := by
  induction fs with
  | nil =>
    obtain ⟨_, bad, -⟩ := names
    cases bad
  | cons fd fs ih =>
    obtain hh | hl := NamesConst.append names
    · exact ⟨fd, mem_cons_self, hh⟩
    · obtain ⟨o, hm, names⟩ := ih hl
      exact ⟨o, mem_cons_of_mem _ hm, names⟩

theorem lookup_constFields {fs : List (String × Expr)}
    (hne : (fs.map Prod.fst).Nodup) {fd : String × Expr} (hm : fd ∈ fs) :
    (Checker.constFields prog valueOf sc fs).lookup fd.1 =
      some (Checker.constValue prog valueOf sc fd.2) := by
  have hls : (fd.1, Checker.constValue prog valueOf sc fd.2) ∈
      Checker.constFields prog valueOf sc fs := by
    rw [constFields_eq_map]
    exact mem_map_of_mem hm
  refine lookup_of_mem ?_ hls
  rw [constFields_eq_map, map_map]
  exact hne

theorem pathConstant_agree {path : Path}
    (ok : pathConstant prog valueOf sc path sp want = .ok value)
    (alsoOk : pathConstant prog o sc path sp want = .ok value)
    (names : NamesConst prog sc [path] ref) : AgreeOn valueOf o ref := by
  obtain ⟨_, hm, _, hres, hf⟩ := names
  cases mem_singleton.mp hm
  simp only [pathConstant, hres, ok_bind, hf] at ok alsoOk
  exact ⟨value, namedConstant_ok ok, namedConstant_ok alsoOk⟩

mutual

/-- Two evaluations with the same result agree on every constant that is named. -/
theorem constValue_agree
    (hne : ∀ entry ∈ prog.types.structs, (entry.fields.map (·.name)).Nodup) (expr : Expr)
    {want : TypeId} {v : HirConstValue} (ok : Checker.constValue prog valueOf sc expr want = .ok v)
    (alsoOk : Checker.constValue prog o sc expr want = .ok v) (ref : ConstId)
    (names : NamesConst prog sc (valuePaths expr) ref) : AgreeOn valueOf o ref := by
  cases expr with
  | mk kind =>
    have evaluates := constValueKind_ok ok
    have alsoEvaluates := constValueKind_ok alsoOk
    cases kind with
    | path => exact pathConstant_agree evaluates alsoEvaluates names
    | array vs =>
      obtain ⟨elt, _, rs, hf, hev, rfl⟩ := evaluates
      obtain ⟨_, _, _, alsoFound, alsoEvaluated, he⟩ := alsoEvaluates
      cases hf.symm.trans alsoFound
      cases he
      exact constValues_agree hne vs hev alsoEvaluated ref names
    | arrayRepeat repeated =>
      obtain ⟨elt, r, hf, hev, rfl⟩ := evaluates
      obtain ⟨_, _, alsoFound, alsoEvaluated, he⟩ := alsoEvaluates
      cases hf.symm.trans alsoFound
      cases he
      exact constValue_agree hne repeated hev alsoEvaluated ref names
    | struct path fs =>
      obtain ⟨_, rs, hf, hev, rfl⟩ := evaluates
      obtain ⟨_, _, alsoFound, alsoEvaluated, he⟩ := alsoEvaluates
      cases hf.symm.trans alsoFound
      cases he
      obtain ⟨entry, hp, keys, fieldsOk⟩ := orderConstStructFields_ok hne hev
      obtain ⟨_, alsoPresent, -, alsoFieldsOk⟩ := orderConstStructFields_ok hne alsoEvaluated
      cases hp.symm.trans alsoPresent
      obtain ⟨field, hm, fieldNames⟩ := NamesConst.field names
      rw [constFields_eq_map, map_map] at keys
      have distinctKeys : (fs.map Prod.fst).Nodup := keys.nodup (hne entry (mem_of_getElem? hp))
      -- the field of the struct that takes this field of the initializer
      obtain ⟨_, hls, sameName⟩ := mem_map.mp (keys.mem_iff.mpr (mem_map_of_mem hm))
      obtain ⟨r, -, ⟨_, hlk, ok⟩, _, alsoLooked, alsoOk⟩ :=
        exists_of_forall₂ (forall₂_and fieldsOk alsoFieldsOk) hls
      rw [sameName, Function.comp, lookup_constFields distinctKeys hm] at hlk alsoLooked
      cases hlk
      cases alsoLooked
      exact constFields_agree hne fs field hm ok alsoOk ref fieldNames
    | _ =>
      obtain ⟨_, bad, -⟩ := names
      cases bad

theorem constValues_agree (hne : ∀ e ∈ prog.types.structs, (e.fields.map (·.name)).Nodup)
    (vs : List Expr) {elt : TypeId} {rs : List HirConstValue}
    (ok : Checker.constValues prog valueOf sc vs elt = .ok rs)
    (alsoOk : Checker.constValues prog o sc vs elt = .ok rs)
    (ref : ConstId) (names : NamesConst prog sc (listPaths vs) ref) :
    AgreeOn valueOf o ref := by
  cases vs with
  | nil =>
    obtain ⟨_, bad, -⟩ := names
    cases bad
  | cons v vs =>
    obtain ⟨_, firstOk, ok⟩ := bind_eq_ok.mp ok
    obtain ⟨_, restOk, ⟨⟩⟩ := bind_eq_ok.mp ok
    obtain ⟨_, alsoFirst, alsoOk⟩ := bind_eq_ok.mp alsoOk
    obtain ⟨_, alsoRest, ⟨⟩⟩ := bind_eq_ok.mp alsoOk
    obtain hh | hl := NamesConst.append names
    · exact constValue_agree hne v firstOk alsoFirst ref hh
    · exact constValues_agree hne vs restOk alsoRest ref hl

theorem constFields_agree (hne : ∀ e ∈ prog.types.structs, (e.fields.map (·.name)).Nodup)
    (fs : List (String × Expr)) (fd : String × Expr) (hm : fd ∈ fs)
    {want : TypeId} {v : HirConstValue} (ok : Checker.constValue prog valueOf sc fd.2 want = .ok v)
    (alsoOk : Checker.constValue prog o sc fd.2 want = .ok v) (ref : ConstId)
    (names : NamesConst prog sc (valuePaths fd.2) ref) : AgreeOn valueOf o ref := by
  cases fs with
  | nil => cases hm
  | cons first fs =>
    obtain ⟨name, expr⟩ := first
    obtain rfl | hl := mem_cons.mp hm
    · exact constValue_agree hne expr ok alsoOk ref names
    · exact constFields_agree hne fs fd hl ok alsoOk ref names

end

end Inversion

/-! ## The pass -/

section Pass

variable {checker t : Checker}

theorem checkConst_ok {id : ConstId} (ran : checkConst id const checker = .ok ((), t)) :
    ∃ e value, checker.program.consts[id]? = some e ∧
      Checker.constValue checker.program checker.program.valueOf const.scope const.definition.init
        e.ty = .ok value ∧
      t = { checker with
        program.consts := checker.program.consts.modify id fun e => { e with value } } := by
  rw [checkConst] at ran
  obtain ⟨_, _, ⟨⟩, read⟩ := run_bind_eq_ok.mp ran
  obtain ⟨e, _, hf, evaluating⟩ := run_bind_eq_ok.mp read
  obtain ⟨hf, rfl⟩ := run_lift_eq_ok.mp hf
  obtain ⟨value, _, hev, ⟨⟩⟩ := run_bind_eq_ok.mp evaluating
  obtain ⟨hev, rfl⟩ := run_lift_eq_ok.mp hev
  exact ⟨e, value, unwrap_eq_ok.mp hf, hev, rfl⟩

theorem checkStatic_ok {id : StaticId} {static : Definition StaticDef}
    (ran : checkStatic id static checker = .ok ((), t)) :
    ∃ e init, checker.program.statics[id]? = some e ∧
      Checker.constValue checker.program checker.program.valueOf static.scope
        static.definition.init e.ty = .ok init ∧
      t = { checker with
        program.statics := checker.program.statics.modify id fun e => { e with init } } := by
  rw [checkStatic] at ran
  obtain ⟨_, _, ⟨⟩, read⟩ := run_bind_eq_ok.mp ran
  obtain ⟨e, _, hf, evaluating⟩ := run_bind_eq_ok.mp read
  obtain ⟨hf, rfl⟩ := run_lift_eq_ok.mp hf
  obtain ⟨init, _, hev, ⟨⟩⟩ := run_bind_eq_ok.mp evaluating
  obtain ⟨hev, rfl⟩ := run_lift_eq_ok.mp hev
  exact ⟨e, init, unwrap_eq_ok.mp hf, hev, rfl⟩

/-- The values that the first `count` constants are evaluated with: later ones are `zero`. -/
def seenBefore (consts : List ConstEntry) (count ref : Nat) :
    CheckResult HirConstValue := do
  let entry ← unwrap consts[ref]?
  return if ref < count then entry.value else .zero

/-- `consts` are the constants of `checker` after the evaluation of the first `count`. -/
structure Evaluated (checker : Checker) (count : Nat) (consts : List ConstEntry) : Prop where
  tys : consts.map (·.ty) = checker.program.consts.map (·.ty)
  values : ∀ (id : Nat) const, id < count → checker.constDefs[id]? = some const →
    ∃ entry, consts[id]? = some entry ∧
      Checker.constValue checker.program (seenBefore consts id) const.scope const.definition.init
        entry.ty = .ok entry.value
  later : ∀ (id : Nat) entry, count ≤ id → consts[id]? = some entry → entry.value = .zero

variable {consts : List ConstEntry}

theorem Evaluated.valueOf_eq {n : Nat} (hev : Evaluated checker n consts) (ref : ConstId) :
    ProgramTables.valueOf { checker.program with consts } ref = seenBefore consts n ref := by
  rw [ProgramTables.valueOf, seenBefore]
  cases hf : consts[ref]? with
  | none => rfl
  | some e =>
    by_cases s : ref < n
    · simp [unwrap, s]
    · simp [unwrap, s, hev.later ref e (Nat.le_of_not_lt s) hf]

theorem seenBefore_modify {n pos : Nat} (s : n ≤ pos) (value : HirConstValue) :
    seenBefore (consts.modify pos fun e => { e with value }) n = seenBefore consts n := by
  funext ref
  rw [seenBefore, seenBefore, getElem?_modify]
  cases hf : consts[ref]? with
  | none => rfl
  | some =>
    by_cases hh : pos = ref
    · have late : ¬ref < n := by omega
      simp [unwrap, hh, late]
    · simp [unwrap, hh]

variable {pos : Nat}

/-- One constant. -/
theorem Evaluated.step (hev : Evaluated checker pos consts)
    (hp : checker.constDefs[pos]? = some const)
    (ran : checkConst pos const { checker with program.consts := consts } = .ok ((), t)) :
    ∃ consts', t = { checker with program.consts := consts' } ∧
      Evaluated checker (pos + 1) consts' := by
  obtain ⟨e, value, hf, valueOk, rfl⟩ := checkConst_ok ran
  have modified (id : Nat) (apart : id ≠ pos) :
      (consts.modify pos fun e => { e with value })[id]? = consts[id]? := by
    rw [getElem?_modify]
    simp [Ne.symm apart]
  have modifiedHere : (consts.modify pos fun e => { e with value })[pos]? =
      some { e with value } := by
    rw [getElem?_modify, hf]
    simp
  refine ⟨_, rfl, ?_, ?_, ?_⟩
  · rw [← hev.tys]
    exact map_modify_eq hf rfl
  · intro id o before hh
    by_cases last : id = pos
    · subst last
      cases hp.symm.trans hh
      refine ⟨_, modifiedHere, ?_⟩
      rw [← valueOk, seenBefore_modify (Nat.le_refl id),
        constValue_congr hev.tys const.definition.init fun ref _ => hev.valueOf_eq ref]
    · obtain ⟨hear, hp, earlierOk⟩ := hev.values id o (by omega) hh
      refine ⟨hear, (modified id last).trans hp, ?_⟩
      rw [seenBefore_modify (by omega)]
      exact earlierOk
  · intro id o t hh
    rw [modified id (by omega)] at hh
    exact hev.later id o (by omega) hh

/-- The constants in a row. -/
theorem Evaluated.run {defs : List (Definition ConstDef)} (hev : Evaluated checker pos consts)
    (tl : checker.constDefs.drop pos = defs)
    (ran : ((defs.zipIdx pos).forM fun (const, id) => checkConst id const : CheckM Unit)
      { checker with program.consts := consts } = .ok ((), t)) :
    ∃ consts' n, t = { checker with program.consts := consts' } ∧
      checker.constDefs.length ≤ n ∧ Evaluated checker n consts' := by
  induction defs generalizing pos consts with
  | nil =>
    cases ran
    exact ⟨consts, pos, rfl, drop_eq_nil_iff.mp tl, hev⟩
  | cons const defs ih =>
    obtain ⟨_, first, hl⟩ := run_forM_cons.mp ran
    have hp : checker.constDefs[pos]? = some const := by
      rw [← head?_drop, tl]
      rfl
    obtain ⟨consts', rfl, evaluated'⟩ := hev.step hp first
    refine ih evaluated' ?_ hl
    rw [← tail_drop, tl]
    rfl

/-- `statics` are the statics of `checker` after the evaluation of the first `count`, with the
constants `consts`. -/
structure Initialized (checker : Checker) (consts : List ConstEntry) (count : Nat)
    (statics : List StaticEntry) : Prop where
  tys : statics.map (·.ty) = checker.program.statics.map (·.ty)
  values : ∀ (id : Nat) static, id < count → checker.staticDefs[id]? = some static →
    ∃ entry, statics[id]? = some entry ∧
      Checker.constValue checker.program (ProgramTables.valueOf { checker.program with consts })
        static.scope static.definition.init entry.ty = .ok entry.init

theorem Initialized.step {statics : List StaticEntry}
    {static : Definition StaticDef} (hini : Initialized checker consts pos statics)
    (htys : consts.map (·.ty) = checker.program.consts.map (·.ty))
    (hp : checker.staticDefs[pos]? = some static) (ran : checkStatic pos static
      { checker with program.consts := consts, program.statics := statics } = .ok ((), t)) :
    ∃ statics', t = { checker with program.consts := consts, program.statics := statics' } ∧
      Initialized checker consts (pos + 1) statics' := by
  obtain ⟨e, init, hf, initOk, rfl⟩ := checkStatic_ok ran
  refine ⟨_, rfl, ?_, ?_⟩
  · rw [← hini.tys]
    exact map_modify_eq hf rfl
  · intro id o s hh
    by_cases last : id = pos
    · subst last
      cases hp.symm.trans hh
      refine ⟨{ e with init }, ?_, ?_⟩
      · rw [getElem?_modify, hf]
        simp
      · rw [← initOk]
        exact (congrFun (constValue_congr htys static.definition.init fun _ _ => rfl) _).symm
    · obtain ⟨hear, hp, earlierOk⟩ := hini.values id o (by omega) hh
      refine ⟨hear, ?_, earlierOk⟩
      rw [getElem?_modify, hp]
      simp [Ne.symm last]

theorem Initialized.run {defs : List (Definition StaticDef)} {statics : List StaticEntry}
    (hini : Initialized checker consts pos statics)
    (htys : consts.map (·.ty) = checker.program.consts.map (·.ty))
    (tl : checker.staticDefs.drop pos = defs)
    (ran : ((defs.zipIdx pos).forM fun (static, id) => checkStatic id static : CheckM Unit)
      { checker with program.consts := consts, program.statics := statics } = .ok ((), t)) :
    ∃ statics' n, t = { checker with program.consts := consts, program.statics := statics' } ∧
      checker.staticDefs.length ≤ n ∧ Initialized checker consts n statics' := by
  induction defs generalizing pos statics with
  | nil =>
    cases ran
    exact ⟨statics, pos, rfl, drop_eq_nil_iff.mp tl, hini⟩
  | cons static defs ih =>
    obtain ⟨_, first, hl⟩ := run_forM_cons.mp ran
    have hp : checker.staticDefs[pos]? = some static := by
      rw [← head?_drop, tl]
      rfl
    obtain ⟨statics', rfl, initialized'⟩ := hini.step htys hp first
    refine ih initialized' ?_ hl
    rw [← tail_drop, tl]
    rfl

/-- Nothing is evaluated yet. -/
structure Checker.Unevaluated (checker : Checker) : Prop where
  length : checker.constDefs.length = checker.program.consts.length
  zero : ∀ entry ∈ checker.program.consts, entry.value = .zero

theorem checkConstantsAndStatics_ok (huev : checker.Unevaluated)
    (ran : checkConstantsAndStatics checker = .ok ((), t)) :
    ∃ consts statics, t = { checker with program.consts := consts, program.statics := statics } ∧
      Evaluated checker checker.constDefs.length consts ∧
      Initialized checker consts checker.staticDefs.length statics := by
  rw [checkConstantsAndStatics] at ran
  obtain ⟨_, _, ⟨⟩, read⟩ := run_bind_eq_ok.mp ran
  obtain ⟨_, _, constsRan, restRan⟩ := run_bind_eq_ok.mp read
  obtain ⟨_, _, ⟨⟩, staticsRan⟩ := run_bind_eq_ok.mp restRan
  have st0 : Evaluated checker 0 checker.program.consts :=
    ⟨rfl, nofun, fun id e _ hp => huev.zero e (mem_of_getElem? hp)⟩
  obtain ⟨consts, _, rfl, _, hev⟩ := st0.run rfl constsRan
  have hlen : consts.length = checker.constDefs.length := by
    rw [huev.length]
    simpa using congrArg List.length hev.tys
  have ini : Initialized checker consts 0 checker.program.statics := ⟨rfl, nofun⟩
  obtain ⟨statics, _, rfl, _, hini⟩ := ini.run hev.tys rfl staticsRan
  refine ⟨consts, statics, rfl, ⟨hev.tys, ?_, ?_⟩, hini.tys, ?_⟩
  · intro id const hi hp
    exact hev.values id const (by omega) hp
  · intro id e late hp
    have hi := (List.getElem?_eq_some_iff.mp hp).1
    omega
  · intro id static hi hp
    exact hini.values id static (by omega) hp

end Pass

/-! ## Declared values -/

section Declared

variable {ck : Checker} {consts : List ConstEntry} {statics : List StaticEntry}

theorem Checker.declaredValue_ne_zero (fuel : Nat) (id : ConstId) {v : HirConstValue}
    (ok : ck.declaredValue fuel id = .ok v) : v ≠ .zero := by
  induction fuel generalizing id v with
  | zero => cases ok
  | succ fuel ih =>
    obtain ⟨_, -, ok⟩ := bind_eq_ok.mp ok
    obtain ⟨_, -, ok⟩ := bind_eq_ok.mp ok
    exact constValue_ne_zero ih ok

/-- The constants a constant names are declared before it. -/
def Checker.Ordered (checker : Checker) : Prop :=
  ∀ (id : Nat) const, checker.constDefs[id]? = some const → ∀ ref : Nat,
    NamesConst checker.program const.scope (valuePaths const.definition.init) ref → ref < id

/-- Every constant and every static has the value of its initializer by substitution. -/
structure Checker.Holds (checker : Checker) (consts : List ConstEntry)
    (statics : List StaticEntry) : Prop where
  consts : ∀ (id : Nat) entry, consts[id]? = some entry →
    ∃ fuel, checker.declaredValue fuel id = .ok entry.value
  statics : ∀ (id : Nat) static entry, checker.staticDefs[id]? = some static →
    statics[id]? = some entry → ∃ fuel,
      Checker.constValue checker.program (checker.declaredValue fuel) static.scope
        static.definition.init entry.ty = .ok entry.init

variable {e : ConstEntry}

theorem seenBefore_ok {n ref : Nat} (hp : consts[ref]? = some e) :
    seenBefore consts n ref = .ok (if ref < n then e.value else .zero) := by
  rw [seenBefore, hp]
  rfl

section

variable (hev : Evaluated ck ck.constDefs.length consts)

include hev

theorem Evaluated.length (huev : ck.Unevaluated) : consts.length = ck.constDefs.length := by
  rw [huev.length]
  simpa using congrArg List.length hev.tys

/-- What a constant of known position is by substitution. -/
theorem Evaluated.declaredValue_succ {id : Nat} (hd : ck.constDefs[id]? = some const)
    (hp : consts[id]? = some e) (fuel : Nat) : ck.declaredValue (fuel + 1) id =
      Checker.constValue ck.program (ck.declaredValue fuel) const.scope
        const.definition.init e.ty := by
  have sameTy : ck.program.consts[id]?.map (·.ty) = some e.ty := by
    rw [← getElem?_map, ← hev.tys, getElem?_map, hp]
    rfl
  obtain ⟨_, hf, tyEq⟩ := Option.map_eq_some_iff.mp sameTy
  rw [Checker.declaredValue, hd, hf, ← tyEq]
  rfl

theorem Evaluated.declaredValue (huev : ck.Unevaluated) (hord : ck.Ordered)
    {fuel id : Nat} (hen : id < fuel) (hp : consts[id]? = some e) :
    ck.declaredValue fuel id = .ok e.value := by
  induction id using Nat.strongRecOn generalizing fuel e with
  | ind id ih =>
    obtain ⟨fuel, rfl⟩ := Nat.exists_eq_succ_of_ne_zero (Nat.ne_zero_of_lt hen)
    have hi := (List.getElem?_eq_some_iff.mp hp).1
    have hlen := hev.length huev
    have hd := List.getElem?_eq_getElem (hlen ▸ hi)
    obtain ⟨_, alsoPresent, valueOk⟩ := hev.values id _ (hlen ▸ hi) hd
    cases hp.symm.trans alsoPresent
    rw [hev.declaredValue_succ hd hp, ← valueOk]
    refine congrFun (constValue_congr rfl _ fun ref names => ?_) _
    have hear := hord id _ hd ref names
    have hf := getElem?_eq_getElem (Nat.lt_trans hear hi)
    rw [ih ref hear (by omega) hf, seenBefore_ok hf, if_pos hear]

end

/-- A constant that names a constant declared after it, or itself, is not what its initializer
says: the later constant was `zero` when it was read. -/
theorem holds_iff (huev : ck.Unevaluated)
    (hne : ∀ e ∈ ck.program.types.structs, (e.fields.map (·.name)).Nodup)
    (hev : Evaluated ck ck.constDefs.length consts)
    (hini : Initialized ck consts ck.staticDefs.length statics) :
    ck.Holds consts statics ↔ ck.Ordered := by
  have hlen := hev.length huev
  constructor
  · intro hh id const hd ref names
    have hi := (List.getElem?_eq_some_iff.mp hd).1
    obtain ⟨e, hp, valueOk⟩ := hev.values id const hi hd
    obtain ⟨fuel, declaredOk⟩ := hh.consts id e hp
    cases fuel with
    | zero => cases declaredOk
    | succ fuel =>
      rw [hev.declaredValue_succ hd hp] at declaredOk
      obtain ⟨_, refOk, seen⟩ :=
        constValue_agree hne const.definition.init declaredOk valueOk ref names
      have hnz := Checker.declaredValue_ne_zero fuel ref refOk
      apply Classical.byContradiction
      intro late
      rw [seenBefore] at seen
      obtain ⟨_, -, seen⟩ := bind_eq_ok.mp seen
      rw [if_neg late] at seen
      cases seen
      exact hnz rfl
  · intro hord
    refine ⟨?_, ?_⟩
    · intro id e hp
      exact ⟨id + 1, hev.declaredValue huev hord (Nat.lt_succ_self id) hp⟩
    · intro id static e hd hp
      obtain ⟨_, alsoPresent, initOk⟩ := hini.values id static
        (List.getElem?_eq_some_iff.mp hd).1 hd
      cases hp.symm.trans alsoPresent
      refine ⟨consts.length, ?_⟩
      rw [← initOk]
      refine congrFun (constValue_congr rfl _ fun ref names => ?_) _
      cases hf : consts[ref]? with
      | some =>
        rw [hev.declaredValue huev hord (List.getElem?_eq_some_iff.mp hf).1 hf,
          ProgramTables.valueOf, hf]
        rfl
      | none =>
        have undeclared : ck.constDefs[ref]? = none := by
          rw [List.getElem?_eq_none_iff] at hf ⊢
          exact hlen ▸ hf
        rw [ProgramTables.valueOf, hf]
        cases consts.length with
        | zero => rfl
        | succ =>
          rw [Checker.declaredValue, undeclared]
          rfl

end Declared

end Ostadix.Ocore

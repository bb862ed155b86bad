/-
Accepted filters: those that the checks let through, from an expression or from a text.

* `Expr.Sound` — an expression whose nodes are in order: declared parameters, no text, no empty
  connective, as many arguments as the method takes;
* `check_eq_ok_iff`, `checkParams_eq_ok_iff` — what the checks of expressions and of parameters
  establish;
* `Filter.Accepted.sound`, `Filter.Accepted.isParameterName` — so an accepted filter is in order;
* `Filter.Accepted.mem_paramNames` — and its parameters are those that its expression names.
-/
import TypedSql.Filter.Lambda
import TypedSql.Proofs.Outcome

namespace TypedSql

/-! ### Expressions -/

theorem Method.arity_le_one (method : Method) : method.arity ≤ 1 := by
  cases method <;> simp [arity]

/-- No method takes more than its first argument. -/
theorem Method.rest_eq_nil {method : Method} {first : Expr} {rest : List Expr}
    (arity : (first :: rest).length = method.arity) : rest = [] := by
  have := method.arity_le_one
  rw [List.length_cons] at arity
  exact List.eq_nil_of_length_eq_zero (by omega)

namespace Expr

/-- Induction over an expression, with the hypothesis for every operand of a connective and every
argument of a call. -/
@[elab_as_elim] theorem induction {P : Expr → Prop} (field : ∀ property, P (.field property))
    (param : ∀ name, P (.param name)) (literal : ∀ value, P (.literal value))
    (now : ∀ clock, P (.now clock))
    (compare : ∀ op left right, P left → P right → P (.compare op left right))
    (logical : ∀ op operands, (∀ e ∈ operands, P e) → P (.logical op operands))
    (not : ∀ operand, P operand → P (.not operand))
    (call : ∀ method receiver arguments, P receiver → (∀ e ∈ arguments, P e) →
      P (.call method receiver arguments)) (e : Expr) : P e :=
  @Expr.rec P (fun es => ∀ e ∈ es, P e) field param literal now compare logical not call
    (fun _ he => absurd he (by simp))
    (fun _ _ hfirst hrest => List.forall_mem_cons.mpr ⟨hfirst, hrest⟩) e

theorem isNull_iff {e : Expr} : e.isNull = true ↔ e = .literal .null := by
  constructor
  · intro h
    rw [isNull.eq_def] at h
    split at h
    · rfl
    · exact absurd h (by simp)
  · rintro rfl
    rfl

/-- The parts of an expression, from left to right. -/
def parts : Expr → List Expr
  | field _ | param _ | literal _ | now _ => []
  | compare _ left right => [left, right]
  | logical _ operands => operands
  | not operand => [operand]
  | call _ receiver arguments => receiver :: arguments

/-- Induction over an expression, with the hypothesis for every part. -/
@[elab_as_elim] theorem parts_induction {P : Expr → Prop}
    (step : ∀ e, (∀ part ∈ e.parts, P part) → P e) (e : Expr) : P e := by
  induction e using induction with
  | field property => exact step _ (by simp [parts])
  | param name => exact step _ (by simp [parts])
  | literal value => exact step _ (by simp [parts])
  | now clock => exact step _ (by simp [parts])
  | compare op left right hleft hright => exact step _ (by simp [parts, hleft, hright])
  | logical op operands ih => exact step _ ih
  | not operand ih => exact step _ (by simp [parts, ih])
  | call method receiver arguments ih iharguments =>
    exact step _ (List.forall_mem_cons.mpr ⟨ih, iharguments⟩)

/-- An expression whose nodes are in order, over declared parameters. -/
inductive Sound (declared : List String) : Expr → Prop
  | field (property : String) : Sound declared (.field property)
  | param {name : String} (known : name ∈ declared) : Sound declared (.param name)
  | literal {value : Literal} (noText : ∀ t, value ≠ .text t) : Sound declared (.literal value)
  | now (clock : Clock) : Sound declared (.now clock)
  | compare {op : Comparison} {left right : Expr} (first : Sound declared left)
      (second : Sound declared right) : Sound declared (.compare op left right)
  | logical {op : Connective} {operands : List Expr} (some : operands ≠ [])
      (each : ∀ e ∈ operands, Sound declared e) : Sound declared (.logical op operands)
  | not {operand : Expr} (inner : Sound declared operand) : Sound declared (.not operand)
  | call {method : Method} {receiver : Expr} {arguments : List Expr}
      (arity : arguments.length = method.arity) (inner : Sound declared receiver)
      (each : ∀ e ∈ arguments, Sound declared e) : Sound declared (.call method receiver arguments)

theorem checkList_eq_ok_iff {declared : List String} {depth : Nat} {es : List Expr} :
    checkList declared depth es = .ok () ↔ ∀ e ∈ es, e.check declared depth = .ok () := by
  induction es with
  | nil => simp [checkList]
  | cons e es ih => simp [checkList, check_bind_eq_ok, ih]

/-- An expression passes the checks if and only if it is not too deep, its node is in order, and its
parts pass them one level deeper. -/
theorem check_eq_ok_iff {declared : List String} {depth : Nat} {e : Expr} :
    e.check declared depth = .ok () ↔ depth ≤ maxExprDepth ∧ checkNode declared e = .ok () ∧
      ∀ part ∈ e.parts, part.check declared (depth + 1) = .ok () := by
  rw [check.eq_def]
  split_ifs with hdeep
  · exact iff_of_false (by simp) fun h => absurd h.1 (Nat.not_le.mpr hdeep)
  rw [and_iff_right (Nat.not_lt.mp hdeep)]
  split
  · rename_i hnode
    exact iff_of_false (by simp) fun h => absurd (hnode.symm.trans h.1) (by simp)
  rename_i hnode
  rw [and_iff_right hnode]
  cases e with
  | compare op left right => simp [parts, check_bind_eq_ok]
  | logical op operands => exact checkList_eq_ok_iff
  | not operand => simp [parts]
  | call method receiver arguments => simp [parts, check_bind_eq_ok, checkList_eq_ok_iff]
  | _ => simp [parts]

theorem check_sound {declared : List String} {e : Expr} {depth : Nat}
    (h : e.check declared depth = .ok ()) : Sound declared e := by
  induction e using parts_induction generalizing depth with
  | step e ih =>
    obtain ⟨-, hnode, hparts⟩ := check_eq_ok_iff.mp h
    have heach : ∀ part ∈ e.parts, Sound declared part := fun part hpart =>
      ih part hpart (hparts part hpart)
    cases e with
    | field property => exact .field property
    | param name =>
      refine .param ?_
      rw [checkNode] at hnode
      split_ifs at hnode with hname
      simpa using hname
    | literal value =>
      refine .literal fun t ht => ?_
      subst ht
      exact absurd hnode (by simp [checkNode])
    | now clock => exact .now clock
    | compare op left right =>
      exact .compare (heach left (by simp [parts])) (heach right (by simp [parts]))
    | logical op operands =>
      refine .logical (fun hempty => ?_) heach
      subst hempty
      exact absurd hnode (by simp [checkNode])
    | not operand => exact .not (heach operand (by simp [parts]))
    | call method receiver arguments =>
      obtain ⟨hreceiver, harguments⟩ := List.forall_mem_cons.mp heach
      refine .call ?_ hreceiver harguments
      rw [checkNode] at hnode
      split_ifs at hnode with harity
      exact harity

@[simp] theorem mem_paramNamesOfList {name : String} {es : List Expr} :
    name ∈ paramNamesOfList es ↔ ∃ e ∈ es, name ∈ e.paramNames := by
  induction es with
  | nil => simp [paramNamesOfList]
  | cons e es ih => simp [paramNamesOfList, ih]

/-- An expression in order names declared parameters only. -/
theorem Sound.declared_of_mem {declared : List String} {e : Expr} (h : e.Sound declared)
    {name : String} (hname : name ∈ e.paramNames) : name ∈ declared := by
  induction h with
  | field property => exact absurd hname (by simp [paramNames])
  | param known => simpa [paramNames, ← List.mem_singleton.mp hname] using known
  | literal _ => exact absurd hname (by simp [paramNames])
  | now clock => exact absurd hname (by simp [paramNames])
  | compare _ _ ihleft ihright =>
    rw [paramNames, List.mem_append] at hname
    exact hname.elim ihleft ihright
  | logical _ _ ih =>
    rw [paramNames, mem_paramNamesOfList] at hname
    obtain ⟨e, he, hmem⟩ := hname
    exact ih e he hmem
  | not _ ih => exact ih hname
  | call _ _ _ ih iharguments =>
    rw [paramNames, List.mem_append, mem_paramNamesOfList] at hname
    obtain hname | ⟨e, he, hmem⟩ := hname
    · exact ih hname
    · exact iharguments e he hmem

end Expr

/-! ### Names and parameters -/

theorem checkName_ok {kind : NameKind} {name : String} :
    checkName kind name = .ok () ↔ kind.admits name = true := by
  rw [checkName]
  split_ifs with h <;> simp [h]

theorem isIdentifierChar_of_admits {kind : NameKind} (hkind : kind ≠ .var) {name : String}
    (h : kind.admits name = true) : ∀ c ∈ name.toList, Text.isIdentifierChar c = true := by
  intro c hc
  simpa [NameKind.admitsChar, hkind] using (NameKind.admits_iff.mp h).2.2 c hc

theorem isIdentifierChar_of_isParameterName {name : String} (h : isParameterName name = true) :
    ∀ c ∈ name.toList, Text.isIdentifierChar c = true := by
  intro c hc
  rw [isParameterName, Bool.and_eq_true] at h
  have hchar := (NameKind.admits_iff.mp h.1).2.2 c hc
  have hdot : c ≠ '.' := by
    rintro rfl
    exact absurd h.2 (by simp [hc])
  simpa [NameKind.admitsChar, hdot] using hchar

theorem checkParam_eq_ok_iff {earlier : List String} {name : String} :
    checkParam earlier name = .ok () ↔ isReservedParameter name = false ∧
      isParameterName name = true ∧ name ∉ lambdaWords ∧ name ∉ earlier := by
  rw [checkParam]
  split_ifs with hreserved hname hearlier
  · simp [hreserved]
  · exact iff_of_false (by simp) fun h => by simp [h.2.1, h.2.2.1] at hname
  · exact iff_of_false (by simp) fun h => absurd (by simpa using hearlier) h.2.2.2
  · simp_all

theorem checkParamsFrom_eq_ok_iff {earlier names : List String} :
    checkParamsFrom earlier names = .ok () ↔ (∀ name ∈ names, isReservedParameter name = false ∧
      isParameterName name = true ∧ name ∉ lambdaWords ∧ name ∉ earlier) ∧ names.Nodup := by
  induction names generalizing earlier with
  | nil => simp [checkParamsFrom]
  | cons name rest ih =>
    rw [checkParamsFrom, check_bind_eq_ok, checkParam_eq_ok_iff, ih, List.forall_mem_cons,
      List.nodup_cons]
    simp only [List.mem_append, List.mem_singleton, not_or]
    constructor
    · rintro ⟨hname, heach, hnodup⟩
      exact ⟨⟨hname, fun name' hmem => ⟨(heach name' hmem).1, (heach name' hmem).2.1,
        (heach name' hmem).2.2.1, (heach name' hmem).2.2.2.1⟩⟩,
        fun hmem => (heach name hmem).2.2.2.2 rfl, hnodup⟩
    · rintro ⟨⟨hname, heach⟩, hnew, hnodup⟩
      refine ⟨hname, fun name' hmem => ?_, hnodup⟩
      obtain ⟨hreserved, hparameter, hword, hearlier⟩ := heach name' hmem
      exact ⟨hreserved, hparameter, hword, hearlier, fun heq => hnew (heq ▸ hmem)⟩

theorem checkParams_eq_ok_iff {params : List FilterParam} :
    checkParams params = .ok () ↔ params.length ≤ maxFilterParams ∧
      (∀ name ∈ params.map FilterParam.name, isReservedParameter name = false ∧
        isParameterName name = true ∧ name ∉ lambdaWords) ∧
      (params.map FilterParam.name).Nodup := by
  rw [checkParams]
  split_ifs with hmany
  · exact iff_of_false (by simp) fun h => absurd h.1 (Nat.not_le.mpr hmany)
  · rw [checkParamsFrom_eq_ok_iff, and_iff_right (Nat.not_lt.mp hmany)]
    simp only [List.not_mem_nil, not_false_eq_true, and_true]

/-! ### Filters -/

namespace Filter

/-- A filter that was made from an expression or read from a text. -/
inductive Accepted : Filter → Prop
  | ofExpr {f : Filter} {e : Expr} {params : List FilterParam}
      (made : Filter.ofExpr e params = .ok f) : Accepted f
  | parse {f : Filter} {text : String} {params : List FilterParam}
      (made : Filter.parse text params = .ok f) : Accepted f

theorem ofExpr_ok {e : Expr} {params : List FilterParam} {f : Filter}
    (h : Filter.ofExpr e params = .ok f) :
    f = ⟨e, params⟩ ∧ checkParams params = .ok () ∧
      e.check (params.map FilterParam.name) 0 = .ok () ∧ ∀ p ∈ params, p.name ∈ e.paramNames := by
  obtain ⟨⟨⟩, hparams, h₁⟩ := bind_eq_ok.mp h
  obtain ⟨⟨⟩, hcheck, h₂⟩ := bind_eq_ok.mp h₁
  dsimp only at h₂
  split at h₂
  · exact absurd h₂ throw_ne_ok
  · rename_i hused
    refine ⟨(pure_eq_ok.mp h₂).symm, hparams, hcheck, fun p hp => ?_⟩
    simpa using List.find?_eq_none.mp hused p hp

/-- A text is read as an expression, which is then checked like any other. -/
theorem Accepted.ofExpr_self {f : Filter} (h : f.Accepted) :
    Filter.ofExpr f.expr f.params = .ok f := by
  obtain ⟨e, params, hmade⟩ : ∃ e params, Filter.ofExpr e params = .ok f := by
    cases h with
    | ofExpr made => exact ⟨_, _, made⟩
    | parse made =>
      obtain ⟨_, _, h₁⟩ := bind_eq_ok.mp made
      obtain ⟨e, _, h₂⟩ := bind_eq_ok.mp h₁
      exact ⟨e, _, h₂⟩
  obtain ⟨rfl, -⟩ := ofExpr_ok hmade
  exact hmade

theorem Accepted.sound {f : Filter} (h : f.Accepted) :
    f.expr.Sound (f.params.map FilterParam.name) :=
  Expr.check_sound (ofExpr_ok h.ofExpr_self).2.2.1

theorem Accepted.isParameterName {f : Filter} (h : f.Accepted) :
    ∀ name ∈ f.params.map FilterParam.name, isParameterName name = true :=
  fun name hname => ((checkParams_eq_ok_iff.mp (ofExpr_ok h.ofExpr_self).2.1).2.1 name hname).2.1

theorem Accepted.notReserved {f : Filter} (h : f.Accepted) :
    ∀ name ∈ f.params.map FilterParam.name, isReservedParameter name = false :=
  fun name hname => ((checkParams_eq_ok_iff.mp (ofExpr_ok h.ofExpr_self).2.1).2.1 name hname).1

theorem Accepted.nodup {f : Filter} (h : f.Accepted) : (f.params.map FilterParam.name).Nodup :=
  (checkParams_eq_ok_iff.mp (ofExpr_ok h.ofExpr_self).2.1).2.2

/-- The parameters of an accepted filter are those that its expression names. -/
theorem Accepted.mem_paramNames {f : Filter} (h : f.Accepted) {name : String} :
    name ∈ f.expr.paramNames ↔ name ∈ f.params.map FilterParam.name := by
  refine ⟨fun hname => h.sound.declared_of_mem hname, fun hname => ?_⟩
  obtain ⟨p, hp, rfl⟩ := List.mem_map.mp hname
  exact (ofExpr_ok h.ofExpr_self).2.2.2 p hp

end Filter

end TypedSql

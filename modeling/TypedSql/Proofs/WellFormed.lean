/-
Accepted filters are well formed, and are refused by a model for what they say of it only.

A node of an expression is the expression itself, at depth zero, or a node of one of its parts, one
level deeper (`Expr.Node`). The checks ask the same of every node, and the condition of an
expression is written from those of all its parts, so it can be refused at a node only
(`Expr.Refusal`).

* `Expr.check_eq_ok_iff_nodes` — the checks of an expression, node by node;
* `Expr.lexemes_eq_error`, `Expr.exists_lexemes_part` — a condition is refused for its own node or
  for a part, and never written where a part is refused;
* `Filter.accepted_iff_wellFormed` — the accepted filters are the well-formed ones;
* `Filter.Accepted.wellFormed` — so they are, and the text of their condition is refused if and only
  if a node is.
-/
import TypedSql.Proofs.ConditionPhrase

namespace TypedSql

namespace Expr

/-! ### Nodes -/

/-- The nodes of an expression and their depth. -/
inductive Node : Expr → Nat → Expr → Prop
  | root (e : Expr) : Node e 0 e
  | part {e part node : Expr} {depth : Nat} (mem : part ∈ e.parts) (below : Node part depth node) :
      Node e (depth + 1) node

/-- What holds of the root and, one level deeper, of the nodes of the parts holds of every node. -/
theorem forall_node_iff {P : Nat → Expr → Prop} {e : Expr} : (∀ depth node, Node e depth node →
      P depth node) ↔
    P 0 e ∧ ∀ part ∈ e.parts, ∀ depth node, Node part depth node → P (depth + 1) node := by
  constructor
  · intro h
    exact ⟨h 0 e (.root e), fun part hpart depth node hnode => h _ _ (.part hpart hnode)⟩
  · rintro ⟨hroot, hparts⟩ depth node hnode
    cases hnode with
    | root => exact hroot
    | part mem below => exact hparts _ mem _ _ below

theorem exists_node_iff {P : Expr → Prop} {e : Expr} : (∃ depth node, Node e depth node ∧ P node) ↔
    P e ∨ ∃ part ∈ e.parts, ∃ depth node, Node part depth node ∧ P node := by
  constructor
  · rintro ⟨depth, node, hnode, hP⟩
    cases hnode with
    | root => exact .inl hP
    | part mem below => exact .inr ⟨_, mem, _, _, below, hP⟩
  · rintro (hP | ⟨part, hpart, depth, node, hnode, hP⟩)
    · exact ⟨0, e, .root e, hP⟩
    · exact ⟨_, node, .part hpart hnode, hP⟩

/-- An expression passes the checks if and only if each node is in order and not too deep. -/
theorem check_eq_ok_iff_nodes {declared : List String} {depth : Nat} {e : Expr} :
    e.check declared depth = .ok () ↔ ∀ d node, Node e d node →
      depth + d ≤ maxExprDepth ∧ checkNode declared node = .ok () := by
  induction e using parts_induction generalizing depth with
  | step e ih =>
    rw [check_eq_ok_iff, forall_node_iff, and_assoc]
    refine and_congr_right fun _ => and_congr_right fun _ => ?_
    refine forall₂_congr fun part hpart => ?_
    simp only [ih part hpart, Nat.add_assoc, Nat.add_comm 1]

/-- A parameter is named by an expression if and only if it is one of the nodes. -/
theorem mem_paramNames_iff {name : String} {e : Expr} :
    name ∈ e.paramNames ↔ ∃ depth, Node e depth (.param name) := by
  have hnodes : name ∈ e.paramNames ↔ ∃ depth node, Node e depth node ∧ .param name = node := by
    induction e using parts_induction with
    | step e ih =>
      rw [exists_node_iff]
      have hparts : (∃ part ∈ e.parts, name ∈ part.paramNames) ↔ ∃ part ∈ e.parts, ∃ depth node,
          Node part depth node ∧ .param name = node :=
        exists_congr fun part => and_congr_right fun hpart => ih part hpart
      rw [← hparts]
      cases e <;> simp [paramNames, parts]
  rw [hnodes]
  constructor
  · rintro ⟨depth, _, hnode, rfl⟩
    exact ⟨depth, hnode⟩
  · rintro ⟨depth, hnode⟩
    exact ⟨depth, _, hnode, rfl⟩

/-! ### Refusals -/

/-- What a model refuses a node for: a property that it does not have, a column whose name cannot be
written, or a number that is not finite. -/
inductive Refusal (m : RowModel) : Expr → CompileError → Prop
  | unknown {property : String} (missing : m.field? property = none) :
      Refusal m (.field property) (.unknownProperty m.name property)
  | column {property : String} {f : Field} (found : m.field? property = some f)
      (bad : NameKind.column.admits f.columnName = false) :
      Refusal m (.field property) (.invalidName .column f.columnName)
  | notFinite {x : Number.BinaryNumber} (bad : x.isFinite = false) :
      Refusal m (.literal (.number x)) (.invalidExpression (.notFinite x))

variable {declared : List String} {m : RowModel} {e : Expr} {err : CompileError}

theorem pure_ne_error {α : Type} {a : α} : (pure a : Except CompileError α) ≠ .error err := by
  simp [pure, Except.pure]

theorem columnLexeme_eq_error {f : Field} : f.columnLexeme = .error err ↔
    NameKind.column.admits f.columnName = false ∧ .invalidName .column f.columnName = err := by
  cases hadmits : NameKind.column.admits f.columnName with
  | true =>
    have hcolumn := columnLexeme_ok.mpr ⟨hadmits, rfl⟩
    simp [hcolumn]
  | false => simp [Field.columnLexeme, Field.checkedColumn, checkName, hadmits, bind, Except.bind]

theorem lookup_eq_error {property : String} : m.lookup property = .error err ↔
    m.field? property = none ∧ .unknownProperty m.name property = err := by
  rw [RowModel.lookup]
  cases m.field? property <;> simp

/-- A node that a model refuses is refused by the compiler. -/
theorem Refusal.lexemes_eq_error (h : Refusal m e err) : e.lexemes m = .error err := by
  cases h with
  | unknown missing =>
    rw [lexemes]
    exact bind_eq_error.mpr (.inl (lookup_eq_error.mpr ⟨missing, rfl⟩))
  | column found bad =>
    rw [lexemes]
    refine bind_eq_error.mpr (.inr ⟨_, by rw [RowModel.lookup, found], ?_⟩)
    exact bind_eq_error.mpr (.inl (columnLexeme_eq_error.mpr ⟨bad, rfl⟩))
  | notFinite bad => simp [lexemes, Literal.lexemes, bad]

theorem refusal_of_field {property : String} (h : (field property).lexemes m = .error err) :
    Refusal m (field property) err := by
  rw [lexemes] at h
  obtain hlookup | ⟨f, found, h₁⟩ := bind_eq_error.mp h
  · obtain ⟨missing, rfl⟩ := lookup_eq_error.mp hlookup
    exact .unknown missing
  obtain hcolumn | ⟨_, -, h₂⟩ := bind_eq_error.mp h₁
  · obtain ⟨bad, rfl⟩ := columnLexeme_eq_error.mp hcolumn
    rw [RowModel.lookup] at found
    split at found
    · rename_i f' hfield
      obtain rfl := Except.ok.inj found
      exact .column hfield bad
    · exact absurd found (by simp)
  · exact absurd h₂ pure_ne_error

theorem refusal_of_literal {value : Literal} (noText : ∀ t, value ≠ .text t)
    (h : (literal value).lexemes m = .error err) : Refusal m (literal value) err := by
  rw [lexemes, Literal.lexemes.eq_def] at h
  cases value with
  | text t => exact absurd rfl (noText t)
  | number x =>
    dsimp only at h
    split_ifs at h with hfinite
    obtain rfl := Except.error.inj h
    exact .notFinite (by simpa using hfinite)
  | _ => exact absurd h (by simp)

theorem lexemesOfList_eq_error {es : List Expr} (h : lexemesOfList m es = .error err) :
    ∃ e ∈ es, e.lexemes m = .error err := by
  induction es with
  | nil => exact absurd h (by simp [lexemesOfList])
  | cons e es ih =>
    rw [lexemesOfList] at h
    obtain hfirst | ⟨ls, -, h₁⟩ := bind_eq_error.mp h
    · exact ⟨e, List.mem_cons_self, hfirst⟩
    · obtain hrest | ⟨parts, -, h₂⟩ := bind_eq_error.mp h₁
      · obtain ⟨e', he', herror⟩ := ih hrest
        exact ⟨e', List.mem_cons_of_mem e he', herror⟩
      · exact absurd h₂ pure_ne_error

/-- A comparison is refused for its operands only, whichever is written first. -/
theorem lexemes_compare_error {op : Comparison} {left right : Expr}
    (h : (compare op left right).lexemes m = .error err) :
    left.lexemes m = .error err ∨ right.lexemes m = .error err := by
  rw [lexemes] at h
  -- the operand that is written first is always written, the other one unless there is a null test
  split_ifs at h
  · dsimp only at h
    split at h
    · obtain hright | ⟨_, -, h₁⟩ := bind_eq_error.mp h
      · exact .inr hright
      · exact absurd h₁ pure_ne_error
    · obtain hright | ⟨_, -, h₁⟩ := bind_eq_error.mp h
      · exact .inr hright
      · exact absurd h₁ pure_ne_error
    · obtain hright | ⟨_, -, h₁⟩ := bind_eq_error.mp h
      · exact .inr hright
      · obtain hleft | ⟨_, -, h₂⟩ := bind_eq_error.mp h₁
        · exact .inl hleft
        · exact absurd h₂ pure_ne_error
  · obtain hleft | ⟨_, -, h₁⟩ := bind_eq_error.mp h
    · exact .inl hleft
    dsimp only at h₁
    split at h₁
    · exact absurd h₁ pure_ne_error
    · exact absurd h₁ pure_ne_error
    · obtain hright | ⟨_, -, h₂⟩ := bind_eq_error.mp h₁
      · exact .inr hright
      · exact absurd h₂ pure_ne_error

/-- A condition is refused for the node of its expression or for a part. -/
theorem lexemes_eq_error (hnode : checkNode declared e = .ok ()) (h : e.lexemes m = .error err) :
    Refusal m e err ∨ ∃ part ∈ e.parts, part.lexemes m = .error err := by
  cases e with
  | field property => exact .inl (refusal_of_field h)
  | param name => exact absurd h (by simp [lexemes])
  | literal value =>
    refine .inl (refusal_of_literal (fun t ht => ?_) h)
    subst ht
    exact absurd hnode (by simp [checkNode])
  | now clock => cases clock <;> exact absurd h (by simp [lexemes])
  | compare op left right =>
    refine .inr ?_
    obtain hleft | hright := lexemes_compare_error h
    · exact ⟨left, by simp [parts], hleft⟩
    · exact ⟨right, by simp [parts], hright⟩
  | logical op operands =>
    rw [lexemes] at h
    obtain hoperands | ⟨_, -, h₁⟩ := bind_eq_error.mp h
    · exact .inr (lexemesOfList_eq_error hoperands)
    · exact absurd h₁ pure_ne_error
  | not operand =>
    rw [lexemes] at h
    obtain hoperand | ⟨_, -, h₁⟩ := bind_eq_error.mp h
    · exact .inr ⟨operand, by simp [parts], hoperand⟩
    · exact absurd h₁ pure_ne_error
  | call method receiver arguments =>
    rw [lexemes] at h
    refine .inr ?_
    obtain hreceiver | ⟨subject, -, h₁⟩ := bind_eq_error.mp h
    · exact ⟨receiver, by simp [parts], hreceiver⟩
    cases arguments with
    | nil => exact absurd h₁ pure_ne_error
    | cons first rest =>
      obtain hfirst | ⟨_, -, h₂⟩ := bind_eq_error.mp h₁
      · exact ⟨first, by simp [parts], hfirst⟩
      · exact absurd h₂ pure_ne_error

theorem exists_lexemes_of_isNull (h : e.isNull = true) : ∃ ls, e.lexemes m = .ok ls := by
  obtain rfl := isNull_iff.mp h
  exact ⟨_, rfl⟩

/-- The operand of a comparison that is not written is a null literal. -/
theorem exists_lexemes_compare {op : Comparison} {left right : Expr} {ls : List Lexeme}
    (h : (compare op left right).lexemes m = .ok ls) :
    (∃ ls, left.lexemes m = .ok ls) ∧ ∃ ls, right.lexemes m = .ok ls := by
  obtain ⟨inner, -, h₁⟩ := lexemes_compare_ok h
  split_ifs at h₁ with hswap
  · obtain ⟨xs, hxs, -⟩ := h₁
    rw [Bool.and_eq_true] at hswap
    exact ⟨exists_lexemes_of_isNull hswap.1, xs, hxs⟩
  · obtain ⟨xs, hxs, hinner⟩ := h₁
    refine ⟨⟨xs, hxs⟩, ?_⟩
    cases hinner with
    | nullTest negated isNull equality => exact exists_lexemes_of_isNull isNull
    | binary noTest second => exact ⟨_, second⟩

/-- Where a condition is written, so is every part: a null literal that is left out could be
written, and no method has a second argument. -/
theorem exists_lexemes_part {ls : List Lexeme} (hnode : checkNode declared e = .ok ())
    (h : e.lexemes m = .ok ls) : ∀ part ∈ e.parts, ∃ ls, part.lexemes m = .ok ls := by
  intro part hpart
  cases e with
  | compare op left right =>
    obtain ⟨hleft, hright⟩ := exists_lexemes_compare h
    obtain rfl | rfl : part = left ∨ part = right := by simpa [parts] using hpart
    · exact hleft
    · exact hright
  | logical op operands =>
    rw [lexemes] at h
    obtain ⟨written, hwritten, -⟩ := bind_eq_ok.mp h
    obtain ⟨ls, -, hls⟩ := exists_mem_of_forall₂ (lexemesOfList_ok hwritten).flip hpart
    exact ⟨ls, hls⟩
  | not operand =>
    rw [lexemes] at h
    obtain ⟨ls, hls, -⟩ := bind_eq_ok.mp h
    obtain rfl := List.mem_singleton.mp hpart
    exact ⟨ls, hls⟩
  | call method receiver arguments =>
    obtain ⟨subject, hsubject, hwritten⟩ := lexemes_call_ok h
    obtain rfl | hpart := List.mem_cons.mp hpart
    · exact ⟨subject, hsubject⟩
    obtain ⟨rfl, -⟩ | ⟨first, rest, argument, rfl, hargument, -⟩ := hwritten
    · exact absurd hpart List.not_mem_nil
    · -- the arity leaves no argument behind the one that is written
      rw [checkNode] at hnode
      split_ifs at hnode with harity
      rw [Method.rest_eq_nil harity] at hpart
      obtain rfl := List.mem_singleton.mp hpart
      exact ⟨argument, hargument⟩
  | _ => exact absurd hpart List.not_mem_nil

/-- Where every node is in order, a condition is refused for a node. -/
theorem exists_refusal (hnodes : ∀ depth node, Node e depth node → checkNode declared node = .ok ())
    (h : e.lexemes m = .error err) : ∃ depth node, Node e depth node ∧ Refusal m node err := by
  induction e using parts_induction with
  | step e ih =>
    rw [exists_node_iff]
    obtain ⟨hroot, hparts⟩ := forall_node_iff.mp hnodes
    obtain hrefusal | ⟨part, hpart, herror⟩ := lexemes_eq_error hroot h
    · exact .inl hrefusal
    · exact .inr ⟨part, hpart, ih part hpart (hparts part hpart) herror⟩

/-- And it is refused where a node is. -/
theorem exists_error (hnodes : ∀ depth node, Node e depth node → checkNode declared node = .ok ())
    {depth : Nat} {node : Expr} (hnode : Node e depth node) (hrefusal : Refusal m node err) :
    ∃ err, e.lexemes m = .error err := by
  induction hnode with
  | root e => exact ⟨err, hrefusal.lexemes_eq_error⟩
  | @part e part node depth mem below ih =>
    obtain ⟨hroot, hparts⟩ := forall_node_iff.mp hnodes
    obtain ⟨err', herror⟩ := ih (hparts part mem) hrefusal
    cases hwhole : e.lexemes m with
    | error err'' => exact ⟨err'', rfl⟩
    | ok ls =>
      obtain ⟨ls', hls'⟩ := exists_lexemes_part hroot hwhole part mem
      exact absurd (herror.symm.trans hls') (by simp)

theorem checkNode_eq_ok_iff : checkNode declared e = .ok () ↔
    (∀ name, e = .param name → name ∈ declared) ∧ (∀ t, e ≠ .literal (.text t)) ∧
      (∀ op, e ≠ .logical op []) ∧
      ∀ method receiver arguments, e = .call method receiver arguments →
        arguments.length = method.arity := by
  rw [checkNode.eq_def]
  split <;> simp_all

end Expr

/-! ### Filters -/

theorem isParameterName_iff {name : String} : isParameterName name = true ↔
    1 ≤ name.utf8ByteSize ∧ name.utf8ByteSize ≤ 64 ∧
      ∀ c ∈ name.toList, c.isAlphanum = true ∨ c = '_' ∨ c = '$' := by
  have hsome : 1 ≤ name.utf8ByteSize ↔ name ≠ "" := by
    rw [Nat.one_le_iff_ne_zero, ne_eq, ne_eq, String.utf8ByteSize_eq_zero_iff]
  have hchars : (∀ c ∈ name.toList, c.isAlphanum = true ∨ c = '_' ∨ c = '$') ↔
      (∀ c ∈ name.toList, NameKind.var.admitsChar c = true) ∧ '.' ∉ name.toList := by
    constructor
    · intro h
      refine ⟨fun c hc => by simp [NameKind.admitsChar, Text.isIdentifierChar, h c hc, or_assoc],
        fun hdot => absurd (h _ hdot) (by decide)⟩
    · rintro ⟨h, hdot⟩ c hc
      have hne : c ≠ '.' := fun heq => hdot (heq ▸ hc)
      simpa [NameKind.admitsChar, Text.isIdentifierChar, hne, or_assoc] using h c hc
  rw [hchars, hsome, isParameterName, Bool.and_eq_true, NameKind.admits_iff]
  simp [NameKind.maxLength, and_assoc]

namespace Filter

/-- A well-formed filter: at most five parameters, each with a name of its own that cannot be taken
for something else, and an expression that names all of them and no other, holds no text, no
connective without operands and no call with a wrong number of arguments, and is at most 256 levels
deep. -/
structure WellFormed (f : Filter) : Prop where
  few : f.params.length ≤ 5
  names : ∀ name ∈ f.params.map FilterParam.name, 1 ≤ name.utf8ByteSize ∧ name.utf8ByteSize ≤ 64 ∧
    ∀ c ∈ name.toList, c.isAlphanum = true ∨ c = '_' ∨ c = '$'
  noWord : ∀ name ∈ f.params.map FilterParam.name, name ∉ lambdaWords
  notReserved : ∀ name ∈ f.params.map FilterParam.name, ∀ reserved ∈ reservedParameters,
    Text.sameIgnoringCase reserved name = false
  distinct : (f.params.map FilterParam.name).Nodup
  used : ∀ name, (∃ depth, f.expr.Node depth (.param name)) ↔ name ∈ f.params.map FilterParam.name
  noText : ∀ depth t, ¬f.expr.Node depth (.literal (.text t))
  someOperand : ∀ depth op, ¬f.expr.Node depth (.logical op [])
  arity : ∀ depth method receiver arguments, f.expr.Node depth (.call method receiver arguments) →
    arguments.length = method.arity
  shallow : ∀ depth node, f.expr.Node depth node → depth ≤ 256

theorem ofExpr_self_iff {f : Filter} : Filter.ofExpr f.expr f.params = .ok f ↔
    checkParams f.params = .ok () ∧ f.expr.check (f.params.map FilterParam.name) 0 = .ok () ∧
      ∀ p ∈ f.params, p.name ∈ f.expr.paramNames := by
  constructor
  · intro h
    exact (ofExpr_ok h).2
  · rintro ⟨hparams, hcheck, hused⟩
    have hnone : (f.params.find? fun p => !f.expr.paramNames.contains p.name) = none :=
      List.find?_eq_none.mpr fun p hp => by simpa using hused p hp
    simp only [Filter.ofExpr, hparams, hcheck, hnone, ok_bind]
    rfl

theorem isReservedParameter_eq_false_iff {name : String} : isReservedParameter name = false ↔
    ∀ reserved ∈ reservedParameters, Text.sameIgnoringCase reserved name = false := by
  rw [isReservedParameter, List.any_eq_false]
  simp

/-- The accepted filters are the well-formed ones. -/
theorem accepted_iff_wellFormed {f : Filter} : f.Accepted ↔ f.WellFormed := by
  constructor
  · intro h
    obtain ⟨hparams, hcheck, -⟩ := ofExpr_self_iff.mp h.ofExpr_self
    obtain ⟨hfew, hnames, hdistinct⟩ := checkParams_eq_ok_iff.mp hparams
    have hnodes {depth : Nat} {node : Expr} (hnode : f.expr.Node depth node) :=
      Expr.check_eq_ok_iff_nodes.mp hcheck depth node hnode
    have horder {depth : Nat} {node : Expr} (hnode : f.expr.Node depth node) :=
      Expr.checkNode_eq_ok_iff.mp (hnodes hnode).2
    exact
      { few := hfew
        names := fun name hname => isParameterName_iff.mp (hnames name hname).2.1
        noWord := fun name hname => (hnames name hname).2.2
        notReserved := fun name hname =>
          isReservedParameter_eq_false_iff.mp (hnames name hname).1
        distinct := hdistinct
        used := fun name => Expr.mem_paramNames_iff.symm.trans h.mem_paramNames
        noText := fun depth t hnode => (horder hnode).2.1 t rfl
        someOperand := fun depth op hnode => (horder hnode).2.2.1 op rfl
        arity := fun depth method receiver arguments hnode => (horder hnode).2.2.2 _ _ _ rfl
        shallow := fun depth node hnode =>
          (Nat.zero_add depth).symm.trans_le (hnodes hnode).1 }
  · intro h
    refine .ofExpr (ofExpr_self_iff.mpr ⟨checkParams_eq_ok_iff.mpr ⟨h.few, fun name hname => ?_,
      h.distinct⟩, Expr.check_eq_ok_iff_nodes.mpr fun depth node hnode => ?_, fun p hp => ?_⟩)
    · exact ⟨isReservedParameter_eq_false_iff.mpr (h.notReserved name hname),
        isParameterName_iff.mpr (h.names name hname), h.noWord name hname⟩
    · refine ⟨(Nat.zero_add depth).trans_le (h.shallow depth node hnode),
        Expr.checkNode_eq_ok_iff.mpr ⟨?_, ?_, ?_, ?_⟩⟩
      · rintro name rfl
        exact (h.used name).mp ⟨depth, hnode⟩
      · rintro t rfl
        exact h.noText depth t hnode
      · rintro op rfl
        exact h.someOperand depth op hnode
      · rintro method receiver arguments rfl
        exact h.arity depth method receiver arguments hnode
    · exact Expr.mem_paramNames_iff.mpr ((h.used p.name).mpr (List.mem_map_of_mem hp))

theorem sql_eq_error {f : Filter} {m : RowModel} {err : CompileError} :
    f.sql m = .error err ↔ f.expr.lexemes m = .error err := by
  rw [sql, bind_eq_error, condition]
  refine or_iff_left ?_
  rintro ⟨_, _, h⟩
  exact Expr.pure_ne_error h

/-- Every node of an accepted filter's expression is in order. -/
theorem Accepted.checkNode {f : Filter} (h : f.Accepted) {depth : Nat} {node : Expr}
    (hnode : f.expr.Node depth node) :
    node.checkNode (f.params.map FilterParam.name) = .ok () :=
  (Expr.check_eq_ok_iff_nodes.mp (ofExpr_self_iff.mp h.ofExpr_self).2.1 depth node hnode).2

/-- An accepted filter is well formed, and whatever the model, the text of its condition is refused
for a node only, and if and only if there is one that the model refuses. -/
theorem Accepted.wellFormed {f : Filter} (h : f.Accepted) : f.WellFormed ∧ ∀ m,
    (∀ err, f.sql m = .error err → ∃ depth node, f.expr.Node depth node ∧ Expr.Refusal m node err) ∧
    ((∃ err, f.sql m = .error err) ↔
      ∃ depth node err, f.expr.Node depth node ∧ Expr.Refusal m node err) := by
  have hnodes : ∀ depth node, f.expr.Node depth node →
      node.checkNode (f.params.map FilterParam.name) = .ok () :=
    fun _ _ => h.checkNode
  refine ⟨accepted_iff_wellFormed.mp h, fun m => ⟨fun err herror => ?_, ?_, ?_⟩⟩
  · exact Expr.exists_refusal hnodes (sql_eq_error.mp herror)
  · rintro ⟨err, herror⟩
    obtain ⟨depth, node, hnode, hrefusal⟩ := Expr.exists_refusal hnodes (sql_eq_error.mp herror)
    exact ⟨depth, node, err, hnode, hrefusal⟩
  · rintro ⟨depth, node, err, hnode, hrefusal⟩
    obtain ⟨err', herror⟩ := Expr.exists_error hnodes hnode hrefusal
    exact ⟨err', sql_eq_error.mpr herror⟩

/-- A model without fields refuses a filter for a property under a negation, behind a null literal
that changes places with it. -/
theorem wellFormed_missing : ∃ f : Filter, f.WellFormed ∧ f.params.map FilterParam.name = ["x"] ∧
    ∃ err, f.sql ⟨"Point", "point", []⟩ = .error err := by
  have hmade : Filter.ofExpr (.compare .lt (.literal .null) (.not (.call (.equals true) (.field "A")
      [.param "x"]))) [⟨"x", ⟨.string, false⟩⟩] = .ok _ := rfl
  obtain ⟨hformed, hrefused⟩ := (Accepted.ofExpr hmade).wellFormed
  have hfield : Expr.Node (.compare .lt (.literal .null) (.not (.call (.equals true) (.field "A")
      [.param "x"]))) 3 (.field "A") :=
    .part (List.mem_cons_of_mem _ List.mem_cons_self)
      (.part List.mem_cons_self (.part List.mem_cons_self (.root _)))
  exact ⟨_, hformed, rfl, (hrefused _).2.mpr ⟨3, _, _, hfield, .unknown rfl⟩⟩

end Filter

end TypedSql

/-
The two limits of nesting: the levels that a text may open, and the depth of an expression.

A text opens at most `Lambda.maxLevels` levels. Each of them adds at most a disjunction, a
conjunction, a comparison and the members in a row behind an operand, so a text with `m` members in
a row at most is read as an expression of depth `(3 + m) * maxLevels` at most. With one member in a
row that is `maxExprDepth`, and the checks of a filter never refuse it for its depth.

* `Expr.DepthAtMost` — no node is deeper than a bound; `Expr.check_eq_error` tells what an
  expression is refused for, so it is refused for its depth only where a node is too deep;
* `Lambda.FewDerives` — the grammar with a bound on the members in a row, which leaves nothing else
  out (`Lambda.derives_iff_exists_few`);
* `Lambda.shallow_few` — the depth of what it derives, by induction on the levels;
* `Lambda.exists_few_node`, `Lambda.exists_node_maxExprDepth` — this depth is attained;
* `Filter.parse_ne_tooDeep` — no text is refused for its depth whose expression keeps to it.
-/
import TypedSql.Proofs.LambdaText
import TypedSql.Proofs.WellFormed

namespace TypedSql

namespace Expr

/-! ### Depth -/

/-- No node of an expression is deeper than a bound. -/
def DepthAtMost (bound : Nat) (e : Expr) : Prop :=
  ∀ depth node, Node e depth node → depth ≤ bound

variable {declared : List String} {depth bound bound' : Nat} {e : Expr} {err : CompileError}

theorem DepthAtMost.mono (h : DepthAtMost bound e) (hle : bound ≤ bound') :
    DepthAtMost bound' e :=
  fun depth node hnode => Nat.le_trans (h depth node hnode) hle

/-- A leaf is its only node. -/
theorem depthAtMost_of_parts_eq_nil (h : e.parts = []) : DepthAtMost bound e := by
  refine forall_node_iff.mpr ⟨Nat.zero_le bound, fun part hpart => ?_⟩
  rw [h] at hpart
  exact absurd hpart List.not_mem_nil

/-- An expression is one level deeper than its parts. -/
theorem depthAtMost_succ_iff :
    DepthAtMost (bound + 1) e ↔ ∀ part ∈ e.parts, DepthAtMost bound part := by
  rw [DepthAtMost, forall_node_iff, and_iff_right (Nat.zero_le _)]
  refine forall₂_congr fun part _ => ?_
  simp only [DepthAtMost, Nat.add_le_add_iff_right]

theorem checkList_eq_error {es : List Expr} (h : checkList declared depth es = .error err) :
    ∃ e ∈ es, e.check declared depth = .error err := by
  induction es with
  | nil => exact absurd h (by simp [checkList])
  | cons e es ih =>
    rw [checkList] at h
    obtain hfirst | ⟨_, -, hrest⟩ := bind_eq_error.mp h
    · exact ⟨e, List.mem_cons_self, hfirst⟩
    · obtain ⟨e', he', herror⟩ := ih hrest
      exact ⟨e', List.mem_cons_of_mem e he', herror⟩

/-- An expression is refused for its depth, for its node, or for a part. -/
theorem check_eq_error (h : e.check declared depth = .error err) :
    (maxExprDepth < depth ∧ err = .invalidExpression (.tooDeep maxExprDepth)) ∨
      checkNode declared e = .error err ∨
      ∃ part ∈ e.parts, part.check declared (depth + 1) = .error err := by
  rw [check.eq_def] at h
  split_ifs at h with hdeep
  · exact .inl ⟨hdeep, (Except.error.inj h).symm⟩
  right
  split at h
  · rename_i hnode
    exact .inl (hnode.trans h)
  right
  cases e with
  | compare op left right =>
    obtain hleft | ⟨_, -, hright⟩ := bind_eq_error.mp h
    · exact ⟨left, by simp [parts], hleft⟩
    · exact ⟨right, by simp [parts], hright⟩
  | logical op operands => exact checkList_eq_error h
  | not operand => exact ⟨operand, by simp [parts], h⟩
  | call method receiver arguments =>
    obtain hreceiver | ⟨_, -, harguments⟩ := bind_eq_error.mp h
    · exact ⟨receiver, by simp [parts], hreceiver⟩
    · obtain ⟨argument, hargument, herror⟩ := checkList_eq_error harguments
      exact ⟨argument, List.mem_cons_of_mem receiver hargument, herror⟩
  | _ => exact absurd h (by simp)

/-- No node is refused for its depth on its own. -/
theorem checkNode_ne_tooDeep {limit : Nat} :
    checkNode declared e ≠ .error (.invalidExpression (.tooDeep limit)) := by
  rw [checkNode.eq_def]
  split
  · split_ifs <;> simp
  · simp
  · simp
  · split_ifs <;> simp
  · simp

/-- An expression without a node that is too deep is not refused for its depth. -/
theorem check_ne_tooDeep {limit : Nat} (h : DepthAtMost bound e)
    (hbound : depth + bound ≤ maxExprDepth) :
    e.check declared depth ≠ .error (.invalidExpression (.tooDeep limit)) := by
  intro herror
  induction e using parts_induction generalizing depth bound with
  | step e ih =>
    obtain ⟨hdeep, -⟩ | hnode | ⟨part, hpart, hrefused⟩ := check_eq_error herror
    · omega
    · exact checkNode_ne_tooDeep hnode
    · -- there is a part, so the bound is at least one
      have hsome : 1 ≤ bound := h 1 part (.part hpart (.root part))
      obtain ⟨b, rfl⟩ := Nat.exists_eq_add_of_le' hsome
      exact ih part hpart (depthAtMost_succ_iff.mp h part hpart) (by omega) hrefused

end Expr

namespace Lambda

/-! ### Members in a row -/

/-- The members behind an expression, and the expression with them: at most as many members as the
first number says. -/
inductive FewMembers (Inner : Grammar) : Nat → Expr → List Token → Expr → Nat → Prop
  | nil {m n : Nat} (e : Expr) : FewMembers Inner m e [] e n
  | property {m n : Nat} {e e' : Expr} {name : String} {method : Method} {ts : List Token}
      (known : property? name = some method)
      (rest : FewMembers Inner m (.call method e []) ts e' n) :
      FewMembers Inner (m + 1) e (.dot :: .word name :: ts) e' n
  | method {m n : Nat} {e e' : Expr} {name : String} {method method' : Method}
      {inside ts : List Token} {arguments : List Expr} (known : method? name = some method)
      (found : Arguments Inner method inside method' arguments n)
      (rest : FewMembers Inner m (.call method' e arguments) ts e' n) :
      FewMembers Inner (m + 1) e
        (.dot :: .word name :: .openParen :: (inside ++ .closeParen :: ts)) e' n

mutual

/-- An operand with its members and signs, and at most `m` members in a row. -/
inductive FewUnary (m : Nat) (row : String) (params : List String) : Grammar
  | not {ts : List Token} {e : Expr} {n : Nat} (operand : FewUnary m row params ts e n) :
      FewUnary m row params (.bang :: ts) (.not e) (n + 1)
  | negativeInteger {n : Nat} (i : Nat) :
      FewUnary m row params [.minus, .integer i] (.literal (.integer (-Int64.ofNat i))) n
  | negativeNumber {n : Nat} (x : Number.BinaryNumber) :
      FewUnary m row params [.minus, .number x] (.literal (.number x.negate)) n
  | member {ts ts' : List Token} {e e' : Expr} {n : Nat}
      (primary : Primary row params (FewExpression m row params) ts e n)
      (members : FewMembers (FewExpression m row params) m e ts' e' n) :
      FewUnary m row params (ts ++ ts') e' n

/-- The root, the inside of parentheses, or an argument, and at most `m` members in a row. -/
inductive FewExpression (m : Nat) (row : String) (params : List String) : Grammar
  | opened {ts : List Token} {e : Expr} {n : Nat} (inner : Joined .or orMarks
        (Joined .and andMarks (Compared (FewUnary m row params))) ts e n) :
      FewExpression m row params ts e (n + 1)

end

/-- A filter's text whose operands carry at most `m` members in a row. -/
inductive FewDerives (m : Nat) (params : List String) : List Token → Expr → Prop
  | intro {row : String} {head body : List Token} {e : Expr} (named : Head head row)
      (free : row ∉ params) (inner : FewExpression m row params body e maxLevels) :
      FewDerives m params (head ++ body) e

/-! ### Phrases of another grammar -/

/-- The phrases of a grammar up to a length are phrases of another one. -/
def UpTo (length : Nat) (G G' : Grammar) (n : Nat) : Prop :=
  ∀ ⦃ts e⦄, ts.length ≤ length → G ts e n → G' ts e n

/-- What holds of operands and of expressions at every level. An expression holds operands of the
level below, and an operand expressions of its own level. -/
theorem levels_induction {U E : Nat → Prop} (none : E 0) (opened : ∀ n, U n → E (n + 1))
    (signed : ∀ n, (∀ k, n = k + 1 → U k) → E n → U n) (n : Nat) : U n ∧ E n := by
  induction n with
  | zero => exact ⟨signed 0 (fun k hk => absurd hk (by omega)) none, none⟩
  | succ n ih =>
    have hexpr := opened n ih.1
    refine ⟨signed (n + 1) (fun k hk => ?_) hexpr, hexpr⟩
    obtain rfl : n = k := by omega
    exact ih.1

section Phrases

variable {length m n : Nat} {row : String} {params : List String} {G G' : Grammar}
  {ts : List Token} {e e' : Expr}

theorem UpTo.chain (hG : UpTo length G G' n) {marks : List Token} {es : List Expr}
    (h : Chain marks G ts es n) (hts : ts.length ≤ length) : Chain marks G' ts es n := by
  induction h with
  | one item => exact .one (hG hts item)
  | more item mark _ ih =>
    rw [List.length_append, List.length_cons] at hts
    exact .more (hG (by omega) item) mark (ih hG (by omega))

theorem UpTo.joined (hG : UpTo length G G' n) {op : Connective} {marks : List Token} :
    UpTo length (Joined op marks G) (Joined op marks G') n := by
  rintro ts e hts ⟨items⟩
  exact .intro (hG.chain items hts)

theorem UpTo.compared (hG : UpTo length G G' n) : UpTo length (Compared G) (Compared G') n := by
  intro ts e hts h
  cases h with
  | one operand => exact .one (hG hts operand)
  | two first second =>
    rw [List.length_append, List.length_cons] at hts
    exact .two (hG (by omega) first) (hG (by omega) second)

theorem UpTo.body (hG : UpTo length G G' n) :
    UpTo length (Joined .or orMarks (Joined .and andMarks (Compared G)))
      (Joined .or orMarks (Joined .and andMarks (Compared G'))) n :=
  hG.compared.joined.joined

theorem UpTo.primary (hG : UpTo length G G' n) :
    UpTo length (Primary row params G) (Primary row params G') n := by
  intro ts e hts h
  cases h with
  | parenthesized inner =>
    rw [List.length_cons, List.length_append] at hts
    exact .parenthesized (hG (by omega) inner)
  | integer i => exact .integer i
  | number x => exact .number x
  | named word => exact .named word

theorem UpTo.arguments (hG : UpTo length G G' n) {method method' : Method} {found : List Expr}
    (h : Arguments G method ts method' found n) (hts : ts.length ≤ length) :
    Arguments G' method ts method' found n := by
  cases h with
  | none => exact .none method
  | one _ argument => exact .one method (hG hts argument)
  | compared given argument comparer =>
    rw [List.length_append] at hts
    exact .compared given (hG (by omega) argument) comparer

theorem UpTo.members (hG : UpTo length G G' n) (h : FewMembers G m e ts e' n)
    (hts : ts.length ≤ length) : Members G' e ts e' n := by
  induction h with
  | nil e => exact .nil e
  | property known _ ih =>
    simp only [List.length_cons] at hts
    exact .property known (ih hG (by omega))
  | method known found _ ih =>
    simp only [List.length_cons, List.length_append] at hts
    exact .method known (hG.arguments found (by omega)) (ih hG (by omega))

/-- There are no more members than tokens. -/
theorem UpTo.fewMembers (hG : UpTo length G G' n) (h : Members G e ts e' n)
    (hts : ts.length ≤ length) (hm : ts.length ≤ m) : FewMembers G' m e ts e' n := by
  induction h generalizing m with
  | nil e => exact .nil e
  | property known _ ih =>
    simp only [List.length_cons] at hts hm
    obtain ⟨k, rfl⟩ := Nat.exists_eq_add_of_le' (Nat.le_trans (Nat.le_add_left 1 _) hm)
    exact .property known (ih hG (by omega) (by omega))
  | method known found _ ih =>
    simp only [List.length_cons, List.length_append] at hts hm
    obtain ⟨k, rfl⟩ := Nat.exists_eq_add_of_le' (Nat.le_trans (Nat.le_add_left 1 _) hm)
    exact .method known (hG.arguments found (by omega)) (ih hG (by omega) (by omega))

/-- With a bound on the members in a row there are no further phrases. -/
theorem upTo_unary (m n : Nat) :
    UpTo length (FewUnary m row params) (Unary row params) n ∧
      UpTo length (FewExpression m row params) (Expression row params) n := by
  refine levels_induction (fun _ _ _ h => nomatch h) (fun n ih => ?_) (fun n hbelow hexpr => ?_) n
  · rintro ts e hts ⟨inner⟩
    exact .opened (ih.body hts inner)
  · intro ts e hts h
    cases h with
    | not operand =>
      rw [List.length_cons] at hts
      exact .not (hbelow _ rfl (by omega) operand)
    | negativeInteger i => exact .negativeInteger i
    | negativeNumber x => exact .negativeNumber x
    | member primary members =>
      rw [List.length_append] at hts
      exact .member (hexpr.primary (by omega) primary) (hexpr.members members (by omega))

/-- And there are all phrases that are no longer than the bound. -/
theorem upTo_fewUnary (m n : Nat) :
    UpTo m (Unary row params) (FewUnary m row params) n ∧
      UpTo m (Expression row params) (FewExpression m row params) n := by
  refine levels_induction (fun _ _ _ h => nomatch h) (fun n ih => ?_) (fun n hbelow hexpr => ?_) n
  · rintro ts e hts ⟨inner⟩
    exact .opened (ih.body hts inner)
  · intro ts e hts h
    cases h with
    | not operand =>
      rw [List.length_cons] at hts
      exact .not (hbelow _ rfl (by omega) operand)
    | negativeInteger i => exact .negativeInteger i
    | negativeNumber x => exact .negativeNumber x
    | member primary members =>
      rw [List.length_append] at hts
      exact .member (hexpr.primary (by omega) primary)
        (hexpr.fewMembers members (by omega) (by omega))

theorem FewDerives.derives (h : FewDerives m params ts e) : Derives params ts e := by
  obtain ⟨named, free, inner⟩ := h
  exact .intro named free ((upTo_unary m maxLevels).2 (Nat.le_refl _) inner)

/-- The bounds leave out nothing but members: no text has more of them in a row than tokens. -/
theorem derives_iff_exists_few : Derives params ts e ↔ ∃ m, FewDerives m params ts e := by
  constructor
  · rintro ⟨named, free, inner⟩
    exact ⟨_, .intro named free ((upTo_fewUnary _ maxLevels).2 (Nat.le_refl _) inner)⟩
  · rintro ⟨m, h⟩
    exact h.derives

end Phrases

/-! ### Depth of phrases -/

section Depth

variable {m n bound : Nat} {row : String} {params : List String} {G : Grammar} {ts : List Token}
  {e e' : Expr}

/-- No phrase of a grammar has a node deeper than a bound. -/
def Shallow (bound : Nat) (G : Grammar) (n : Nat) : Prop :=
  ∀ ⦃ts e⦄, G ts e n → Expr.DepthAtMost bound e

theorem Shallow.mono {bound' : Nat} (hG : Shallow bound G n) (hle : bound ≤ bound') :
    Shallow bound' G n :=
  fun _ _ h => (hG h).mono hle

theorem Shallow.chain (hG : Shallow bound G n) {marks : List Token} {es : List Expr}
    (h : Chain marks G ts es n) : ∀ e ∈ es, Expr.DepthAtMost bound e := by
  induction h with
  | one item => exact List.forall_mem_singleton.mpr (hG item)
  | more item _ _ ih => exact List.forall_mem_cons.mpr ⟨hG item, ih hG⟩

/-- A connective adds one to the depth of its operands, and nothing to that of a single one. -/
theorem Shallow.joined (hG : Shallow bound G n) {op : Connective} {marks : List Token} :
    Shallow (bound + 1) (Joined op marks G) n := by
  rintro ts e ⟨items⟩
  cases items with
  | one item => exact (hG item).mono (Nat.le_succ bound)
  | @more ts ts' t e es n item mark rest =>
    have hjoined : Expr.DepthAtMost (bound + 1) (.logical op (e :: es)) :=
      Expr.depthAtMost_succ_iff.mpr (hG.chain (.more item mark rest))
    rcases es with _ | ⟨e', es⟩
    · exact (hG item).mono (Nat.le_succ bound)
    · exact hjoined

theorem Shallow.compared (hG : Shallow bound G n) : Shallow (bound + 1) (Compared G) n := by
  intro ts e h
  cases h with
  | one operand => exact (hG operand).mono (Nat.le_succ bound)
  | two first second =>
    refine Expr.depthAtMost_succ_iff.mpr (List.forall_mem_cons.mpr ⟨hG first, ?_⟩)
    exact List.forall_mem_singleton.mpr (hG second)

theorem Shallow.primary (hG : Shallow bound G n) : Shallow bound (Primary row params G) n := by
  intro ts e h
  cases h with
  | parenthesized inner => exact hG inner
  | integer i => exact Expr.depthAtMost_of_parts_eq_nil rfl
  | number x => exact Expr.depthAtMost_of_parts_eq_nil rfl
  | named word => cases word <;> exact Expr.depthAtMost_of_parts_eq_nil rfl

theorem Shallow.arguments (hG : Shallow bound G n) {method method' : Method} {found : List Expr}
    (h : Arguments G method ts method' found n) :
    ∀ argument ∈ found, Expr.DepthAtMost bound argument := by
  cases h with
  | none => exact fun _ hargument => absurd hargument List.not_mem_nil
  | one _ argument => exact List.forall_mem_singleton.mpr (hG argument)
  | compared _ argument _ => exact List.forall_mem_singleton.mpr (hG argument)

/-- Each member in a row adds one to the depth. -/
theorem Shallow.members (hG : Shallow bound G n) (h : FewMembers G m e ts e' n)
    (he : Expr.DepthAtMost bound e) : Expr.DepthAtMost (bound + m) e' := by
  induction h generalizing bound with
  | nil e => exact he.mono (Nat.le_add_right _ _)
  | @property m n e e' name method ts known rest ih =>
    have hcall : Expr.DepthAtMost (bound + 1) (.call method e []) :=
      Expr.depthAtMost_succ_iff.mpr (List.forall_mem_singleton.mpr he)
    exact (ih (hG.mono (Nat.le_succ bound)) hcall).mono (by omega)
  | @method m n e e' name method method' inside ts arguments known found rest ih =>
    have hcall : Expr.DepthAtMost (bound + 1) (.call method' e arguments) :=
      Expr.depthAtMost_succ_iff.mpr (List.forall_mem_cons.mpr ⟨he, hG.arguments found⟩)
    exact (ih (hG.mono (Nat.le_succ bound)) hcall).mono (by omega)

/-- A level adds a disjunction, a conjunction, a comparison and the members in a row. -/
theorem shallow_few (m n : Nat) :
    Shallow ((3 + m) * n + m) (FewUnary m row params) n ∧
      Shallow ((3 + m) * n) (FewExpression m row params) n := by
  refine levels_induction (U := fun n => Shallow ((3 + m) * n + m) (FewUnary m row params) n)
    (E := fun n => Shallow ((3 + m) * n) (FewExpression m row params) n)
    (fun _ _ h => nomatch h) (fun n ih => ?_) (fun n hbelow hexpr => ?_) n
  · rintro ts e ⟨inner⟩
    have hbody := ih.compared.joined.joined inner
    exact hbody.mono (by rw [Nat.mul_succ]; omega)
  · intro ts e h
    cases h with
    | @not ts e k operand =>
      have hnot : Expr.DepthAtMost ((3 + m) * k + m + 1) (.not e) :=
        Expr.depthAtMost_succ_iff.mpr (List.forall_mem_singleton.mpr (hbelow k rfl operand))
      exact hnot.mono (by rw [Nat.mul_succ]; omega)
    | negativeInteger i => exact Expr.depthAtMost_of_parts_eq_nil rfl
    | negativeNumber x => exact Expr.depthAtMost_of_parts_eq_nil rfl
    | member primary members => exact hexpr.members members (hexpr.primary primary)

/-- No node of an expression with at most `m` members in a row is deeper than the levels allow. -/
theorem FewDerives.depthAtMost (h : FewDerives m params ts e) :
    Expr.DepthAtMost ((3 + m) * maxLevels) e := by
  obtain ⟨-, -, inner⟩ := h
  exact (shallow_few m maxLevels).2 inner

/-! ### Phrases of the greatest depth -/

/-- An expression with members, and what it holds so much deeper. -/
theorem exists_fewMembers (m n : Nat) (e : Expr) : ∃ ts e', FewMembers G m e ts e' n ∧
    ∀ depth node, Expr.Node e depth node → Expr.Node e' (depth + m) node := by
  induction m generalizing e with
  | zero => exact ⟨[], e, .nil e, fun _ _ hnode => hnode⟩
  | succ m ih =>
    obtain ⟨ts, e', hmembers, hdeeper⟩ := ih (.call .value e [])
    refine ⟨.dot :: .word "Value" :: ts, e', .property rfl hmembers, fun depth node hnode => ?_⟩
    have hcall : Expr.Node (.call .value e []) (depth + 1) node := .part List.mem_cons_self hnode
    have hnested := hdeeper _ _ hcall
    rwa [Nat.add_assoc, Nat.add_comm 1] at hnested

/-- An operand can have members, and be compared, joined by `&&` and by `||`. -/
theorem exists_few_around (m : Nat) (h : Primary row params (FewExpression m row params) ts e n) :
    ∃ ts' e', FewExpression m row params ts' e' (n + 1) ∧
      ∀ depth node, Expr.Node e depth node → Expr.Node e' (depth + m + 3) node := by
  obtain ⟨ts', e', hmembers, hbehind⟩ := exists_fewMembers m n e
  have htrue : FewUnary m row params [.word "true"] (.literal (.bool true)) n :=
    .member (.named .true) (.nil _)
  have hcompared : Compared (FewUnary m row params) (ts ++ ts' ++ .comparison .eq :: [.word "true"])
      (.compare .eq e' (.literal (.bool true))) n := .two (.member h hmembers) htrue
  have hand : Joined .and andMarks (Compared (FewUnary m row params)) _
      (.logical .and [.compare .eq e' (.literal (.bool true)), .literal (.bool true)]) n :=
    .intro (.more hcompared List.mem_cons_self (.one (.one htrue)))
  have hor : Joined .or orMarks (Joined .and andMarks (Compared (FewUnary m row params))) _
      (.logical .or [.logical .and [.compare .eq e' (.literal (.bool true)), .literal (.bool true)],
        .literal (.bool true)]) n :=
    .intro (.more hand List.mem_cons_self (.one (.intro (.one (.one htrue)))))
  refine ⟨_, _, .opened hor, fun depth node hnode => ?_⟩
  exact .part List.mem_cons_self
    (.part List.mem_cons_self (.part List.mem_cons_self (hbehind depth node hnode)))

/-- The bound is attained: each level can add all that a level adds at most. -/
theorem exists_few_node (hfree : row ∉ fixedWords) (m n : Nat) : ∃ ts e node,
    FewExpression m row params ts e (n + 1) ∧ Expr.Node e ((3 + m) * (n + 1)) node := by
  have hlevel (k : Nat) : (3 + m) * (k + 1) = (3 + m) * k + m + 3 := by
    rw [Nat.mul_succ]
    omega
  induction n with
  | zero =>
    obtain ⟨ts, e, hexpr, haround⟩ := exists_few_around m (.named (.field "A" hfree))
    refine ⟨ts, e, .field "A", hexpr, ?_⟩
    rw [hlevel]
    exact haround 0 (.field "A") (.root _)
  | succ n ih =>
    -- the parentheses open the level, and the members stand behind them
    obtain ⟨ts, e, node, hinner, hnode⟩ := ih
    obtain ⟨ts', e', hexpr, haround⟩ := exists_few_around m (.parenthesized hinner)
    refine ⟨ts', e', node, hexpr, ?_⟩
    rw [hlevel]
    exact haround ((3 + m) * (n + 1)) node hnode

/-- With one member in a row, there are nodes exactly as deep as a filter's may be. -/
theorem exists_node_maxExprDepth (hfree : row ∉ fixedWords) (hrow : row ∉ params) :
    ∃ ts e node, FewDerives 1 params ts e ∧ Expr.Node e maxExprDepth node := by
  obtain ⟨ts, e, node, hexpr, hnode⟩ := exists_few_node hfree 1 63
  exact ⟨_, e, node, .intro (.plain row) hrow hexpr, hnode⟩

end Depth

/-! ### Texts -/

/-- The operands of a text carry at most `m` members in a row. -/
def MembersAtMost (m : Nat) (params : List String) (text : String) : Prop :=
  ∃ toks e, Token.scan text.toList = .ok toks ∧ FewDerives m params (toks.map Placed.token) e

/-- What a text is read as is what its tokens derive. -/
theorem derived_eq {params : List String} {text : String} {e e' : Expr} {toks : List Placed}
    (hparse : parse params text = .ok e) (hscan : Token.scan text.toList = .ok toks)
    (h : Derives params (toks.map Placed.token) e') : e = e' := by
  obtain ⟨hquotation, -⟩ := parse_eq_ok_iff.mp hparse
  have hread := parse_of_derives hquotation hscan h
  exact Except.ok.inj (hparse.symm.trans hread)

/-- What a text with few members in a row is read as has no node that is too deep. -/
theorem MembersAtMost.depthAtMost {m : Nat} {params : List String} {text : String} {e : Expr}
    (h : MembersAtMost m params text) (hparse : parse params text = .ok e) :
    Expr.DepthAtMost ((3 + m) * maxLevels) e := by
  obtain ⟨toks, e', hscan, hfew⟩ := h
  obtain rfl := derived_eq hparse hscan hfew.derives
  exact hfew.depthAtMost

end Lambda

namespace Filter

theorem checkParamsFrom_ne_tooDeep {earlier names : List String} {limit : Nat} :
    checkParamsFrom earlier names ≠ .error (.invalidExpression (.tooDeep limit)) := by
  induction names generalizing earlier with
  | nil => simp [checkParamsFrom]
  | cons name names ih =>
    intro herror
    obtain hname | ⟨_, -, hrest⟩ := bind_eq_error.mp herror
    · rw [checkParam] at hname
      split_ifs at hname <;> exact absurd (Except.error.inj hname) (by simp)
    · exact ih hrest

theorem checkParams_ne_tooDeep {params : List FilterParam} {limit : Nat} :
    checkParams params ≠ .error (.invalidExpression (.tooDeep limit)) := by
  rw [checkParams]
  split_ifs
  · simp
  · exact checkParamsFrom_ne_tooDeep

/-- A filter whose expression is not too deep is not refused for its depth. -/
theorem ofExpr_ne_tooDeep {e : Expr} {params : List FilterParam} {limit : Nat}
    (h : e.DepthAtMost maxExprDepth) :
    Filter.ofExpr e params ≠ .error (.invalidExpression (.tooDeep limit)) := by
  intro herror
  obtain hparams | ⟨_, -, h₁⟩ := bind_eq_error.mp herror
  · exact checkParams_ne_tooDeep hparams
  obtain hcheck | ⟨_, -, h₂⟩ := bind_eq_error.mp h₁
  · exact Expr.check_ne_tooDeep h (Nat.le_of_eq (Nat.zero_add _)) hcheck
  · dsimp only at h₂
    split at h₂
    · exact absurd (Except.error.inj h₂) (by simp)
    · exact absurd h₂ Expr.pure_ne_error

/-- A text that is read as an expression without nodes that are too deep is not refused for its
depth. -/
theorem parse_ne_tooDeep {text : String} {params : List FilterParam} {e : Expr} {limit : Nat}
    (hparse : Lambda.parse (params.map FilterParam.name) text = .ok e)
    (h : e.DepthAtMost maxExprDepth) :
    Filter.parse text params ≠ .error (.invalidExpression (.tooDeep limit)) := by
  intro herror
  obtain hparams | ⟨_, -, h₁⟩ := bind_eq_error.mp herror
  · exact checkParams_ne_tooDeep hparams
  rw [hparse, ok_bind] at h₁
  exact ofExpr_ne_tooDeep h h₁

end Filter

end TypedSql

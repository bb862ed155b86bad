/-
The levels of a filter's text, counted.

The readers of `TypedSql.Filter.Lambda` recurse on the levels that are left. The readers of this
file count the levels that are open instead: the counter goes up in front of a level and down behind
it, and no level is opened when it stands at `maxLevels`. They recurse on the frames of a stack, of
which every open level takes one, and have no outcome when the stack is too small.

* `Counting.Follows` — a counting reader has the outcome of a reader, and leaves the counter as it
  was;
* `Counting.follows_unary` — so do the readers of operands and of expressions, on a stack with a
  frame for each level that is left;
* `Counting.parse_eq_some`, `Counting.exists_parse_eq_none` — so a stack of `maxLevels` frames is
  large enough for every text, and no smaller one is;
* `Counting.restoring` — no part of a reader changes the counter;
* `Filter.nesting_fits` — the levels of a text, and the depth of what it is read as.
-/
import TypedSql.Proofs.NestingLimits

namespace TypedSql

namespace Lambda

/-! ### Readers with a counter -/

/-- Where a reader stands: the tokens that are left, and the number of levels that are open. -/
structure Cursor where
  rest : List Placed
  depth : Nat

/-- A reader that moves a cursor. After a refusal the cursor stands somewhere, too. There is no
outcome if the stack is too small. -/
abbrev Counting (α : Type) := ExceptT CompileError (StateT Cursor Option) α

namespace Counting

/-- A reader that opens no levels. -/
def plain {α : Type} (reader : Reader α) : Counting α := fun cursor =>
  match reader cursor.rest with
  | .ok (a, rest) => some (.ok a, ⟨rest, cursor.depth⟩)
  | .error refusal => some (.error refusal, cursor)

/-- The next token. -/
def peek : Counting (Option Token) := fun cursor =>
  some (.ok (cursor.rest.head?.map Placed.token), cursor)

/-- The number of tokens that are left. -/
def remaining : Counting Nat := fun cursor =>
  some (.ok cursor.rest.length, cursor)

/-- Takes a token. -/
def skip : Counting Unit := fun cursor =>
  some (.ok (), ⟨cursor.rest.tail, cursor.depth⟩)

/-- A reader without a frame on the stack. -/
def overflow {α : Type} : Counting α := fun _ => none

/-- Reads one level deeper, if the counter allows it. The counter goes down again behind the level,
whatever its outcome. -/
def nested {α : Type} (s : Scope) (inner : Counting α) : Counting α := fun cursor =>
  if maxLevels ≤ cursor.depth then
    plain (fun rest => fault s.length rest (.tooDeep maxLevels)) cursor
  else
    match inner ⟨cursor.rest, cursor.depth + 1⟩ with
    | some (outcome, left) => some (outcome, ⟨left.rest, left.depth - 1⟩)
    | none => none

/-- Reads further operands, each after a separator. -/
def operandsAfter (separator : Token) (operand : Counting Expr) : Nat → Counting (List Expr)
  | 0 => pure []
  | fuel + 1 => do
    if (← peek) = some separator then
      skip
      let e ← operand
      let more ← operandsAfter separator operand fuel
      pure (e :: more)
    else pure []

/-- Reads operands between separators and joins them. -/
def joined (op : Connective) (separator : Token) (operand : Counting Expr) : Counting Expr := do
  let first ← operand
  let more ← operandsAfter separator operand (← remaining)
  pure (collapse op (first :: more))

/-- Reads an operand, and a second one if a comparison follows. -/
def comparison (unary : Counting Expr) : Counting Expr := do
  let left ← unary
  match ← peek with
  | some (.comparison op) =>
    skip
    let right ← unary
    pure (.compare op left right)
  | _ => pure left

/-- Reads comparisons and joins them. -/
def conjunction (unary : Counting Expr) : Counting Expr :=
  joined .and .and (comparison unary)

/-- Reads an expression whose operands a reader is given for. -/
def disjunction (unary : Counting Expr) : Counting Expr :=
  joined .or .or (conjunction unary)

/-- Reads the closing parenthesis behind what has been found. -/
def closed {α : Type} (s : Scope) (found : α) : Counting α := do
  plain (expect s.length .closeParen "')'")
  pure found

/-- Reads an operand. `inner` reads what parentheses hold. -/
def operand (s : Scope) (inner : Counting Expr) : Counting Expr := do
  match ← peek with
  | some .openParen =>
    skip
    inner >>= closed s
  | some (.integer n) =>
    skip
    pure (.literal (integerLiteral n))
  | some (.number x) =>
    skip
    pure (.literal (.number x))
  | some (.word name) =>
    skip
    plain (named s name)
  | _ => plain fun rest => fault s.length rest (.expected "an operand")

/-- Reads the argument of a method, with a comparer behind that of an equality, and the closing
parenthesis. -/
def argument (s : Scope) (inner : Counting Expr) (method : Method) :
    Counting (Method × List Expr) := do
  let argument ← inner
  match method, ← peek with
  | .equals _, some .comma =>
    skip
    let ignoreCase ← plain (comparer s)
    closed s (.equals ignoreCase, [argument])
  | _, _ => closed s (method, [argument])

/-- Reads the arguments of a method, if there are any, and the closing parenthesis. -/
def arguments (s : Scope) (inner : Counting Expr) (method : Method) :
    Counting (Method × List Expr) := do
  match ← peek with
  | some .closeParen => closed s (method, [])
  | _ => argument s inner method

/-- Reads the members that follow an operand. -/
def membersAfter (s : Scope) (inner : Counting Expr) : Nat → Expr → Counting Expr
  | 0, e => pure e
  | fuel + 1, e => do
    match ← peek with
    | some .dot =>
      skip
      let name ← plain (word s.length)
      match ← peek with
      | some .openParen =>
        skip
        match method? name with
        | none => plain fun rest => fault s.length rest (.unsupportedMethod name)
        | some method =>
          let (method, found) ← arguments s inner method
          membersAfter s inner fuel (.call method e found)
      | _ =>
        match property? name with
        | none => plain fun rest => fault s.length rest (.unsupportedMember name)
        | some method => membersAfter s inner fuel (.call method e [])
    | _ => pure e

/-- Reads an operand and its members. -/
def member (s : Scope) (inner : Counting Expr) : Counting Expr := do
  let e ← operand s inner
  membersAfter s inner (← remaining) e

/-- Reads an operand with its members and signs. `negated` reads what is negated. -/
def signed (s : Scope) (negated inner : Counting Expr) : Counting Expr := do
  match ← peek with
  | some .bang =>
    skip
    let e ← negated
    pure (.not e)
  | some .minus =>
    skip
    plain (negative s)
  | _ => member s inner

/-- Reads an operand with its members and signs. The number is that of the frames that are left. -/
def unary (s : Scope) : Nat → Counting Expr
  | 0 => signed s (nested s overflow) (nested s overflow)
  | frames + 1 => signed s (nested s (unary s frames)) (nested s (disjunction (unary s frames)))

/-- Reads an expression. -/
def expression (s : Scope) : Nat → Counting Expr
  | 0 => nested s overflow
  | frames + 1 => nested s (disjunction (unary s frames))

/-- Reads the tokens of a filter. -/
def body (frames : Nat) (params : List String) (length : Nat) : Counting Expr := do
  let row ← plain (head length)
  if params.contains row then throw (.invalidExpression (.rowNamedLike row))
  let e ← expression ⟨row, params, length⟩ frames
  match ← peek with
  | none => pure e
  | some _ => plain fun rest => fault length rest .trailingInput

/-- Reads the text of a filter on a stack of so many frames. -/
def parse (frames : Nat) (params : List String) (text : String) :
    Option (Except CompileError Expr) :=
  let cs := text.toList
  if cs.any isQuotation then
    some (.error (.unsafeText
      (.quotation (Token.byteLength (cs.takeWhile fun c => !isQuotation c)))))
  else
    match Token.scan cs with
    | .error refusal => some (.error refusal)
    | .ok tokens => (body frames params (Token.byteLength cs) ⟨tokens, 0⟩).map Prod.fst

/-! ### The same outcome and the same counter -/

/-- The outcome of a reader, and the outcome of a counting reader that leaves the counter as it
was. -/
inductive Lands {α : Type} (depth : Nat) : Except CompileError (α × List Placed) →
    Option (Except CompileError α × Cursor) → Prop
  | ok (a : α) (rest : List Placed) : Lands depth (.ok (a, rest)) (some (.ok a, ⟨rest, depth⟩))
  | error (refusal : CompileError) (rest : List Placed) :
      Lands depth (.error refusal) (some (.error refusal, ⟨rest, depth⟩))

/-- A counting reader has the outcome of a reader on all tokens, and leaves the counter as it
was. -/
def Follows {α : Type} (depth : Nat) (counting : Counting α) (reader : Reader α) : Prop :=
  ∀ rest, Lands depth (reader rest) (counting ⟨rest, depth⟩)

section Follows

variable {α β : Type} {depth : Nat} {s : Scope}

/-- A sequence of readers goes on at the cursor that the first one leaves. -/
theorem bind_apply (counting : Counting α) (g : α → Counting β) (cursor : Cursor) :
    (counting >>= g) cursor =
      (counting cursor).bind fun reached => ExceptT.bindCont g reached.1 reached.2 :=
  rfl

theorem Lands.bind {x : Except CompileError (α × List Placed)} {counting : Counting α}
    {cursor : Cursor} {f : α × List Placed → Except CompileError (β × List Placed)}
    {g : α → Counting β} (h : Lands depth x (counting cursor))
    (hnext : ∀ a rest, Lands depth (f (a, rest)) (g a ⟨rest, depth⟩)) :
    Lands depth (x >>= f) ((counting >>= g) cursor) := by
  rw [bind_apply]
  generalize counting cursor = y at h
  cases h with
  | ok a rest => exact hnext a rest
  | error refusal rest => exact .error refusal rest

theorem follows_plain (reader : Reader α) : Follows depth (plain reader) reader := by
  intro rest
  rw [plain]
  split
  · rename_i a rest' hread
    rw [hread]
    exact .ok a rest'
  · rename_i refusal hread
    rw [hread]
    exact .error refusal rest

/-- No level is opened behind the last one. -/
theorem follows_nested_last {inner : Counting α} (hdepth : maxLevels ≤ depth) :
    Follows depth (nested s inner) (deeper s none) := by
  intro rest
  rw [nested, if_pos hdepth]
  exact follows_plain (deeper s none) rest

/-- A level is opened, read and closed. -/
theorem follows_nested {inner : Counting α} {reader : Reader α} (hdepth : depth < maxLevels)
    (h : Follows (depth + 1) inner reader) : Follows depth (nested s inner) reader := by
  intro rest
  rw [nested, if_neg (Nat.not_le.mpr hdepth)]
  have hinner := h rest
  generalize reader rest = x at hinner ⊢
  generalize inner ⟨rest, depth + 1⟩ = y at hinner ⊢
  cases hinner with
  | ok a rest' => exact .ok a rest'
  | error refusal rest' => exact .error refusal rest'

/-! ### One reader at a time -/

variable {counting : Counting Expr} {reader : Reader Expr}

theorem follows_operandsAfter (h : Follows depth counting reader) (separator : Token)
    (fuel : Nat) : Follows depth (operandsAfter separator counting fuel)
      (Lambda.operandsAfter separator reader fuel) := by
  induction fuel with
  | zero => exact fun rest => .ok [] rest
  | succ fuel ih =>
    rintro (_ | ⟨⟨p, t⟩, after⟩)
    · exact .ok [] []
    · by_cases hnext : t = separator
      · subst hnext
        rw [Lambda.operandsAfter, if_pos rfl, operandsAfter]
        show Lands depth _ ((if some t = some t then _ else _ : Counting (List Expr)) _)
        rw [if_pos rfl]
        refine Lands.bind (h after) fun e rest => ?_
        exact Lands.bind (ih rest) fun more rest => .ok (e :: more) rest
      · rw [Lambda.operandsAfter, if_neg hnext, operandsAfter]
        show Lands depth _ ((if some t = some separator then _ else _ : Counting (List Expr)) _)
        rw [if_neg (by simpa using hnext)]
        exact .ok [] _

theorem follows_joined (h : Follows depth counting reader) (op : Connective) (separator : Token) :
    Follows depth (joined op separator counting) (Lambda.joined op separator reader) := by
  intro rest
  refine Lands.bind (h rest) fun first rest => ?_
  exact Lands.bind (follows_operandsAfter h separator rest.length rest) fun more rest =>
    .ok (collapse op (first :: more)) rest

theorem follows_comparison (h : Follows depth counting reader) :
    Follows depth (comparison counting) (Lambda.comparison reader) := by
  intro rest
  refine Lands.bind (h rest) fun left rest => ?_
  rcases rest with _ | ⟨⟨p, t⟩, after⟩
  · exact .ok left []
  · cases t with
    | comparison op =>
      exact Lands.bind (h after) fun right rest =>
        .ok (Expr.compare op left right) rest
    | _ => exact .ok left _

theorem follows_conjunction (h : Follows depth counting reader) :
    Follows depth (conjunction counting) (Lambda.joined .and .and (Lambda.comparison reader)) :=
  follows_joined (follows_comparison h) .and .and

theorem follows_disjunction (h : Follows depth counting reader) :
    Follows depth (disjunction counting) (Lambda.disjunction reader) :=
  follows_joined (follows_conjunction h) .or .or

theorem lands_closed (s : Scope) (found : α) (rest : List Placed) :
    Lands depth (expect s.length .closeParen "')'" rest >>= fun x => pure (found, x.2))
      (closed s found ⟨rest, depth⟩) :=
  Lands.bind (follows_plain _ rest) fun _ rest => .ok found rest

theorem follows_operand (h : Follows depth counting reader) :
    Follows depth (operand s counting) (Lambda.operand s reader) := by
  rintro (_ | ⟨⟨p, t⟩, after⟩)
  · exact follows_plain _ []
  · cases t with
    | openParen => exact Lands.bind (h after) fun e rest => lands_closed s e rest
    | integer n => exact .ok (Expr.literal (integerLiteral n)) after
    | number x => exact .ok (Expr.literal (.number x)) after
    | word name => exact follows_plain (named s name) after
    | _ => exact follows_plain _ _

theorem follows_arguments (h : Follows depth counting reader) (method : Method) :
    Follows depth (arguments s counting method) (Lambda.arguments s reader method) := by
  intro rest
  by_cases hclose : ∃ p after, rest = ⟨p, .closeParen⟩ :: after
  · obtain ⟨p, after, rfl⟩ := hclose
    exact lands_closed s (method, []) (⟨p, .closeParen⟩ :: after)
  have hargument : arguments s counting method ⟨rest, depth⟩ =
      argument s counting method ⟨rest, depth⟩ := by
    rcases rest with _ | ⟨⟨p, t⟩, after⟩
    · rfl
    · cases t with
      | closeParen => exact absurd ⟨p, after, rfl⟩ hclose
      | _ => rfl
  rw [Lambda.arguments.eq_2 _ _ _ _ (by simpa using hclose), hargument]
  refine Lands.bind (h rest) fun argument rest => ?_
  have hfound : Lands depth _ (closed s (method, [argument]) ⟨rest, depth⟩) :=
    lands_closed s (method, [argument]) rest
  -- a comparer follows the argument of an equality only, behind a comma
  cases method with
  | equals given =>
    rcases rest with _ | ⟨⟨p, t⟩, after⟩
    · exact hfound
    · cases t with
      | comma =>
        exact Lands.bind (follows_plain (comparer s) after) fun ignoreCase rest =>
          lands_closed s (Method.equals ignoreCase, [argument]) rest
      | _ => exact hfound
  | _ => exact hfound

theorem follows_membersAfter (h : Follows depth counting reader) (fuel : Nat) (e : Expr) :
    Follows depth (membersAfter s counting fuel e) (Lambda.membersAfter s reader fuel e) := by
  induction fuel generalizing e with
  | zero => exact fun rest => .ok e rest
  | succ fuel ih =>
    rintro (_ | ⟨⟨p, t⟩, after⟩)
    · exact .ok e []
    cases t with
    | dot =>
      refine Lands.bind (follows_plain (word s.length) after) fun name rest => ?_
      have hproperty (rest : List Placed) :
          Lands depth
            (match property? name with
              | none => fault s.length rest (.unsupportedMember name)
              | some method => Lambda.membersAfter s reader fuel (.call method e []) rest)
            ((match property? name with
              | none => plain fun rest => fault s.length rest (.unsupportedMember name)
              | some method => membersAfter s counting fuel (.call method e []))
                ⟨rest, depth⟩) := by
        cases property? name with
        | none =>
          exact follows_plain (fun rest => fault s.length rest (.unsupportedMember name)) rest
        | some method => exact ih (.call method e []) rest
      rcases rest with _ | ⟨⟨q, t⟩, inside⟩
      · exact hproperty []
      cases t with
      | openParen =>
        show Lands depth (match method? name with | none => _ | some method => _)
          ((match method? name with | none => _ | some method => _ : Counting Expr) _)
        cases method? name with
        | none =>
          exact follows_plain (fun rest => fault s.length rest (.unsupportedMethod name)) inside
        | some method =>
          exact Lands.bind (follows_arguments h method inside) fun found rest => ih _ rest
      | _ => exact hproperty _
    | _ => exact .ok e _

theorem follows_member (h : Follows depth counting reader) :
    Follows depth (member s counting) (Lambda.member s reader) := by
  intro rest
  refine Lands.bind (follows_operand h rest) fun e rest => ?_
  exact follows_membersAfter h rest.length e rest

/-! ### Levels -/

/-- What a negation holds: an operand of the level below, if there is one. -/
def negated (s : Scope) : Nat → Reader Expr
  | 0 => deeper s none
  | levels + 1 => Lambda.unary s levels

theorem unary_bang (levels p : Nat) (after : List Placed) :
    Lambda.unary s levels (⟨p, .bang⟩ :: after) =
      negated s levels after >>= fun x => pure (.not x.1, x.2) := by
  cases levels with
  | zero => cases after <;> rfl
  | succ levels => rfl

theorem follows_signed {levels : Nat} {below inner : Counting Expr}
    (hbelow : Follows depth below (negated s levels))
    (hinner : Follows depth inner (Lambda.expression s levels)) :
    Follows depth (signed s below inner) (Lambda.unary s levels) := by
  intro rest
  by_cases hbang : ∃ p after, rest = ⟨p, .bang⟩ :: after
  · obtain ⟨p, after, rfl⟩ := hbang
    rw [unary_bang]
    exact Lands.bind (hbelow after) fun e rest => .ok (Expr.not e) rest
  by_cases hminus : ∃ p after, rest = ⟨p, .minus⟩ :: after
  · obtain ⟨p, after, rfl⟩ := hminus
    have hnegative : Lands depth _ (plain (negative s) ⟨after, depth⟩) := follows_plain _ after
    cases levels <;> exact hnegative
  rw [unary_eq_member (by simpa using hbang) (by simpa using hminus)]
  have hmember : signed s below inner ⟨rest, depth⟩ = member s inner ⟨rest, depth⟩ := by
    rcases rest with _ | ⟨⟨p, t⟩, after⟩
    · rfl
    · cases t with
      | bang => exact absurd ⟨p, after, rfl⟩ hbang
      | minus => exact absurd ⟨p, after, rfl⟩ hminus
      | _ => rfl
  rw [hmember]
  exact follows_member hinner rest

/-- Where no level is left, no frame is needed. -/
theorem follows_unary_last (hdepth : maxLevels ≤ depth) (frames : Nat) :
    Follows depth (unary s frames) (Lambda.unary s 0) ∧
      Follows depth (expression s frames) (Lambda.expression s 0) := by
  have hlast (inner : Counting Expr) : Follows depth (nested s inner) (deeper s none) :=
    follows_nested_last hdepth
  cases frames with
  | zero => exact ⟨follows_signed (hlast overflow) (hlast overflow), hlast overflow⟩
  | succ frames =>
    have hexpr := hlast (disjunction (unary s frames))
    exact ⟨follows_signed (hlast (unary s frames)) hexpr, hexpr⟩

/-- The readers of operands and of expressions have the outcome of those that recurse on the levels
that are left, if the stack has a frame for each of these. -/
theorem follows_unary {frames : Nat} (hframes : maxLevels ≤ depth + frames) :
    Follows depth (unary s frames) (Lambda.unary s (maxLevels - depth)) ∧
      Follows depth (expression s frames) (Lambda.expression s (maxLevels - depth)) := by
  induction frames generalizing depth with
  | zero =>
    have hdepth : maxLevels ≤ depth := hframes
    rw [Nat.sub_eq_zero_of_le hdepth]
    exact follows_unary_last hdepth 0
  | succ frames ih =>
    by_cases hdepth : maxLevels ≤ depth
    · rw [Nat.sub_eq_zero_of_le hdepth]
      exact follows_unary_last hdepth (frames + 1)
    · -- a level takes one of the levels that are left, and one frame
      have hbelow : Follows (depth + 1) (unary s frames)
          (Lambda.unary s (maxLevels - (depth + 1))) := (ih (by omega)).1
      have hlevels : maxLevels - depth = maxLevels - (depth + 1) + 1 := by omega
      rw [hlevels]
      have hexpr : Follows depth (expression s (frames + 1))
          (Lambda.expression s (maxLevels - (depth + 1) + 1)) :=
        follows_nested (Nat.not_le.mp hdepth) (follows_disjunction hbelow)
      exact ⟨follows_signed (follows_nested (Nat.not_le.mp hdepth) hbelow) hexpr, hexpr⟩

end Follows

/-! ### The stack -/

theorem Lands.outcome_bind {α β : Type} {depth : Nat} {counting : Counting α} {cursor : Cursor}
    {x : Except CompileError (α × List Placed)} {f : α × List Placed → Except CompileError β}
    {g : α → Counting β} (h : Lands depth x (counting cursor))
    (hnext : ∀ a rest, (g a ⟨rest, depth⟩).map Prod.fst = some (f (a, rest))) :
    ((counting >>= g) cursor).map Prod.fst = some (x >>= f) := by
  rw [bind_apply]
  generalize counting cursor = y at h
  cases h with
  | ok a rest => exact hnext a rest
  | error refusal rest => rfl

/-- No text needs more than `maxLevels` frames of the stack, and counting the levels changes no
outcome. -/
theorem parse_eq_some {frames : Nat} (hframes : maxLevels ≤ frames) (params : List String)
    (text : String) : parse frames params text = some (Lambda.parse params text) := by
  rw [parse, Lambda.parse]
  by_cases hquotation : text.toList.any isQuotation = true
  · simp only [if_pos hquotation]
    rfl
  simp only [if_neg hquotation]
  cases Token.scan text.toList with
  | error refusal => rfl
  | ok toks =>
    refine Lands.outcome_bind (follows_plain (head _) toks) fun row rest => ?_
    by_cases hrow : params.contains row = true
    · simp only [if_pos hrow]
      rfl
    simp only [if_neg hrow]
    have hexpr := (follows_unary (s := ⟨row, params, Token.byteLength text.toList⟩)
      (Nat.le_trans hframes (Nat.le_add_left frames 0))).2
    refine Lands.outcome_bind (hexpr rest) fun e rest => ?_
    rcases rest with _ | ⟨next, rest⟩ <;> rfl

section Overflow

variable {s : Scope} {frames depth : Nat}

theorem bind_eq_none {α β : Type} {counting : Counting α} {cursor : Cursor} {g : α → Counting β}
    (h : counting cursor = none) : (counting >>= g) cursor = none := by
  rw [bind_apply, h]
  rfl

theorem plain_bind {α β : Type} {reader : Reader α} {rest left : List Placed} {a : α}
    {g : α → Counting β} (h : reader rest = .ok (a, left)) :
    (plain reader >>= g) ⟨rest, depth⟩ = g a ⟨left, depth⟩ := by
  have hplain : plain reader ⟨rest, depth⟩ = some (.ok a, ⟨left, depth⟩) := by
    rw [plain, h]
  rw [bind_apply, hplain]
  rfl

/-- An open parenthesis needs a frame for what it holds. -/
theorem unary_eq_none {p : Nat} {after : List Placed}
    (h : expression s frames ⟨after, depth⟩ = none) :
    unary s frames ⟨⟨p, .openParen⟩ :: after, depth⟩ = none := by
  have hmember : unary s frames ⟨⟨p, .openParen⟩ :: after, depth⟩ =
      member s (expression s frames) ⟨⟨p, .openParen⟩ :: after, depth⟩ := by
    cases frames <;> rfl
  have hoperand : operand s (expression s frames) ⟨⟨p, .openParen⟩ :: after, depth⟩ =
      (expression s frames >>= closed s) ⟨after, depth⟩ := rfl
  rw [hmember]
  exact bind_eq_none (hoperand.trans (bind_eq_none h))

theorem nested_eq_none {α : Type} {inner : Counting α} {rest : List Placed}
    (hdepth : depth < maxLevels) (h : inner ⟨rest, depth + 1⟩ = none) :
    nested s inner ⟨rest, depth⟩ = none := by
  have hopen : ¬maxLevels ≤ depth := Nat.not_le.mpr hdepth
  rw [nested, if_neg hopen, h]

/-- Where levels are left, parentheses that are opened one behind the other use up the stack. -/
theorem expression_eq_none {opens : List Placed} (hopens : ∀ next ∈ opens, next.token = .openParen)
    (hframes : frames ≤ opens.length) (hdepth : depth + frames < maxLevels) :
    expression s frames ⟨opens, depth⟩ = none := by
  induction frames generalizing opens depth with
  | zero =>
    show nested s overflow ⟨opens, depth⟩ = none
    exact nested_eq_none hdepth rfl
  | succ frames ih =>
    rcases opens with _ | ⟨⟨p, t⟩, opens⟩
    · exact absurd hframes (by simp)
    obtain ⟨hfirst, hmore⟩ := List.forall_mem_cons.mp hopens
    have hinner : expression s frames ⟨opens, depth + 1⟩ = none :=
      ih hmore (by simpa using hframes) (by omega)
    obtain rfl : t = .openParen := hfirst
    show nested s (disjunction (unary s frames)) ⟨⟨p, .openParen⟩ :: opens, depth⟩ = none
    exact nested_eq_none (by omega)
      (bind_eq_none (bind_eq_none (bind_eq_none (unary_eq_none hinner))))

end Overflow

/-- There is a text for which no smaller stack is large enough. -/
theorem exists_parse_eq_none : ∃ text, ∀ frames < maxLevels, parse frames [] text = none := by
  have hrow : Head [Token.word "row", .arrow] "row" := .plain "row"
  have hspelled : ∀ t ∈ [Token.word "row", .arrow] ++ List.replicate maxLevels .openParen,
      ∃ spelling, Token.Spells t spelling := by
    refine List.forall_mem_append.mpr ⟨hrow.spelled (by decide), fun t ht => ?_⟩
    rw [List.eq_of_mem_replicate ht]
    exact exists_spells_mark rfl
  have hchain : ([Token.word "row", .arrow] ++ List.replicate maxLevels Token.openParen).IsChain
      (Token.mayPrecede · ·) := by
    refine List.isChain_append.mpr ⟨by decide, ?_, fun t ht t' ht' => ?_⟩
    · exact List.isChain_replicate_of_rel maxLevels rfl
    · obtain rfl : Token.arrow = t := by simpa using ht
      rfl
  obtain ⟨cs, hcs⟩ := Token.exists_spaced hspelled
  obtain ⟨toks, hscan, htoks⟩ := Token.scan_of_spaced hcs hchain
  obtain ⟨used, opens, rfl, hused, hopens⟩ := map_token_append htoks
  refine ⟨String.ofList cs, fun frames hframes => ?_⟩
  have hquotation : ¬cs.any isQuotation = true := by
    simpa using not_isQuotation_of_spaced hcs
  have hhead : head (Token.byteLength cs) (used ++ opens) = .ok ("row", opens) :=
    head_eq_ok.mpr ⟨used, rfl, hused ▸ hrow⟩
  have hlength : opens.length = maxLevels := by
    rw [← List.length_map (f := Placed.token), hopens, List.length_replicate]
  have hall : ∀ next ∈ opens, next.token = .openParen := fun next hnext =>
    List.eq_of_mem_replicate (hopens ▸ List.mem_map_of_mem hnext)
  have hexpr : expression ⟨"row", [], Token.byteLength cs⟩ frames ⟨opens, 0⟩ = none :=
    expression_eq_none hall (by omega) (by omega)
  rw [parse, String.toList_ofList]
  simp only [if_neg hquotation, hscan]
  rw [Option.map_eq_none_iff]
  exact (plain_bind hhead).trans (bind_eq_none hexpr)

/-! ### The counter -/

/-- A counting reader has an outcome on all tokens, and leaves the counter as it was. -/
def Restores {α : Type} (depth : Nat) (counting : Counting α) : Prop :=
  ∀ rest, ∃ outcome left, counting ⟨rest, depth⟩ = some (outcome, ⟨left, depth⟩)

theorem Follows.restores {α : Type} {depth : Nat} {counting : Counting α} {reader : Reader α}
    (h : Follows depth counting reader) : Restores depth counting := by
  intro rest
  have hrest := h rest
  generalize reader rest = x at hrest
  generalize counting ⟨rest, depth⟩ = y at hrest ⊢
  cases hrest with
  | ok a left => exact ⟨.ok a, left, rfl⟩
  | error refusal left => exact ⟨.error refusal, left, rfl⟩

/-- No part of a reader changes the counter. -/
structure Restoring (s : Scope) (frames depth : Nat) : Prop where
  expression : Restores depth (expression s frames)
  disjunction : Restores depth (disjunction (unary s frames))
  conjunction : Restores depth (conjunction (unary s frames))
  comparison : Restores depth (comparison (unary s frames))
  unary : Restores depth (unary s frames)
  member : Restores depth (member s (Counting.expression s frames))
  operand : Restores depth (operand s (Counting.expression s frames))
  arguments (method : Method) :
    Restores depth (arguments s (Counting.expression s frames) method)
  membersAfter (count : Nat) (e : Expr) :
    Restores depth (membersAfter s (Counting.expression s frames) count e)

/-- The counter has its value again behind every part, if the stack is large enough. -/
theorem restoring (s : Scope) {frames depth : Nat} (hframes : maxLevels ≤ depth + frames) :
    Restoring s frames depth := by
  obtain ⟨hunary, hexpr⟩ := follows_unary (s := s) hframes
  exact
    { expression := hexpr.restores
      disjunction := (follows_disjunction hunary).restores
      conjunction := (follows_conjunction hunary).restores
      comparison := (follows_comparison hunary).restores
      unary := hunary.restores
      member := (follows_member hexpr).restores
      operand := (follows_operand hexpr).restores
      arguments := fun method => (follows_arguments hexpr method).restores
      membersAfter := fun count e => (follows_membersAfter hexpr count e).restores }

end Counting

end Lambda

/-! ### The two limits -/

namespace Filter

/-- **The two limits of nesting fit.** What a text with at most one member in a row is read as has
no node that is deeper than 256, so the checks of a filter do not refuse it for its depth. No text
opens more than 64 levels at once, and behind every part of a text as many are open as in front. -/
theorem nesting_fits (params : List FilterParam) (text : String) :
    (∀ e, Lambda.parse (params.map FilterParam.name) text = .ok e →
      Lambda.MembersAtMost 1 (params.map FilterParam.name) text →
        (∀ depth node, e.Node depth node → depth ≤ 256) ∧
          ∀ limit, Filter.parse text params ≠ .error (.invalidExpression (.tooDeep limit))) ∧
      (∀ frames, 64 ≤ frames →
        Lambda.Counting.parse frames (params.map FilterParam.name) text =
          some (Lambda.parse (params.map FilterParam.name) text)) ∧
      ∀ s frames depth, 64 ≤ depth + frames → Lambda.Counting.Restoring s frames depth := by
  refine ⟨fun e hparse hfew => ?_, fun frames hframes => ?_, fun s frames depth hframes => ?_⟩
  · have hdepth : e.DepthAtMost maxExprDepth := hfew.depthAtMost hparse
    exact ⟨hdepth, fun limit => parse_ne_tooDeep hparse hdepth⟩
  · exact Lambda.Counting.parse_eq_some hframes _ text
  · exact Lambda.Counting.restoring s hframes

/-- A text with a member on each side of a connective, and with one in the argument of a call. -/
theorem nesting_fits_members : ∃ text e, Lambda.parse ["x"] text = .ok e ∧
    Lambda.MembersAtMost 1 ["x"] text ∧ (∀ depth node, e.Node depth node → depth ≤ 256) ∧
      Lambda.Counting.parse 64 ["x"] text = some (.ok e) := by
  have hcolumn (property : String) : Lambda.Primary "row" ["x"] (Lambda.FewExpression 1 "row" ["x"])
      [.word "row", .dot, .word property] (.field property) 63 :=
    .named (.field property (by decide))
  have hvalue : Lambda.property? "Value" = some .value := by simp [Lambda.property?]
  have hcontains : Lambda.method? "Contains" = some .contains := by simp [Lambda.method?]
  have hx : Lambda.FewExpression 1 "row" ["x"] ([.word "x"] ++ [.dot, .word "Value"])
      (.call .value (.param "x") []) 63 :=
    .opened (.intro (.one (.intro (.one (.one (.member
      (.named (.param (by decide) (by decide) (by decide))) (.property hvalue (.nil _))))))))
  have hleft : Lambda.FewUnary 1 "row" ["x"]
      ([.word "row", .dot, .word "A"] ++ [.dot, .word "HasValue"])
      (.call .hasValue (.field "A") []) 63 :=
    .member (hcolumn "A") (.property (by simp [Lambda.property?]) (.nil _))
  have hcall : Lambda.FewMembers (Lambda.FewExpression 1 "row" ["x"]) 1 (.field "B")
      (.dot :: .word "Contains" :: .openParen ::
        (([.word "x"] ++ [.dot, .word "Value"]) ++ .closeParen :: []))
      (.call .contains (.field "B") [.call .value (.param "x") []]) 63 :=
    .method hcontains (.one .contains hx) (.nil _)
  have hbody := Lambda.FewDerives.intro (.plain "row") (by decide) (.opened (.intro (.more
    (.intro (.one (.one hleft))) (List.mem_cons_self : Token.or ∈ Lambda.orMarks)
      (.one (.intro (.one (.one (.member (hcolumn "B") hcall))))))))
  have hscan : Token.scan "row => row.A.HasValue || row.B.Contains(x.Value)".toList = .ok
      [⟨0, .word "row"⟩, ⟨4, .arrow⟩, ⟨7, .word "row"⟩, ⟨10, .dot⟩, ⟨11, .word "A"⟩, ⟨12, .dot⟩,
        ⟨13, .word "HasValue"⟩, ⟨22, .or⟩, ⟨25, .word "row"⟩, ⟨28, .dot⟩, ⟨29, .word "B"⟩,
        ⟨30, .dot⟩, ⟨31, .word "Contains"⟩, ⟨39, .openParen⟩, ⟨40, .word "x"⟩, ⟨41, .dot⟩,
        ⟨42, .word "Value"⟩, ⟨47, .closeParen⟩] := rfl
  have hfew : Lambda.MembersAtMost 1 ["x"] "row => row.A.HasValue || row.B.Contains(x.Value)" :=
    ⟨_, _, hscan, hbody⟩
  have hparse : Lambda.parse ["x"] "row => row.A.HasValue || row.B.Contains(x.Value)" = .ok _ :=
    Lambda.parse_of_derives (by simp [Lambda.isQuotation]) hscan hbody.derives
  obtain ⟨hdepth, hstack, -⟩ := nesting_fits [⟨"x", ⟨.string, false⟩⟩]
    "row => row.A.HasValue || row.B.Contains(x.Value)"
  refine ⟨_, _, hparse, hfew, (hdepth _ hparse hfew).1, ?_⟩
  rw [← hparse]
  exact hstack 64 (Nat.le_refl 64)

end Filter

end TypedSql

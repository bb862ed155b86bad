/-
Null literals beside equality signs.

A null literal that is an operand of `==` or `!=` becomes a null test. The condition still has an
equality sign beside the keyword `null` where the literal comes to the sign along another way: as
the receiver or the argument of `Equals`, or at the edge of an operand that is no literal itself,
such as `null.Value`.

* `Phrase.isChain_outline` — where a phrase has an equality sign beside `null`;
* `Expr.equatesNull_phrase` — which expressions have such a phrase;
* `Expr.exists_infix_of_node` — the condition of a node stands in that of the expression;
* `Filter.Accepted.equatesNull_iff` — the conditions with an equality sign beside `null`, and the
  null tests that comparisons with a null literal become.
-/
import TypedSql.Proofs.Grouping
import TypedSql.Proofs.WellFormed

namespace TypedSql

open Lexeme (word mark space)

/-- Whether an operator asks if two values are the same. -/
def Operator.isEquality : Operator → Bool
  | compare .eq | compare .ne => true
  | _ => false

/-- The comparison for equality, or its negation. -/
def Comparison.equality (negated : Bool) : Comparison :=
  if negated then .ne else .eq

theorem Comparison.converse_equality (negated : Bool) :
    (equality negated).converse = equality negated := by
  cases negated <;> rfl

/-- Whether a piece is an equality sign. -/
def Piece.isEquality : Piece → Bool
  | operator op => op.isEquality
  | _ => false

namespace Condition

open Phrase (pieces piecesOfList piecesBehind testPieces)

/-! ### Pieces side by side -/

/-- The pieces of a condition, where a null test is one piece. -/
def outline : List Piece → List Piece
  | .is :: .constant none :: rest => .is :: outline rest
  | .is :: .not :: .constant none :: rest => .is :: outline rest
  | p :: rest => p :: outline rest
  | [] => []

/-- An equality sign stands beside the keyword `null`, in front of it or behind it. The keyword of a
null test is none. -/
def EquatesNull (ps : List Piece) : Prop :=
  ∃ sign : Piece, sign.isEquality = true ∧
    ([sign, .constant none] <:+: outline ps ∨ [.constant none, sign] <:+: outline ps)

/-- Two pieces that may stand side by side without an equality sign beside `null`. -/
def Apart (p q : Piece) : Prop :=
  ¬(p.isEquality = true ∧ q = .constant none) ∧ ¬(p = .constant none ∧ q.isEquality = true)

theorem not_equatesNull_iff {ps : List Piece} : ¬EquatesNull ps ↔ (outline ps).IsChain Apart := by
  rw [List.isChain_iff_forall_rel_of_append_cons_cons]
  constructor
  · intro h p q before after heq
    have hpair : [p, q] <:+: outline ps := ⟨before, after, by simp [heq]⟩
    refine ⟨fun ⟨hp, hq⟩ => h ⟨p, hp, .inl (hq ▸ hpair)⟩, fun ⟨hp, hq⟩ => h ⟨q, hq, .inr ?_⟩⟩
    exact hp ▸ hpair
  · rintro h ⟨sign, hsign, ⟨before, after, heq⟩ | ⟨before, after, heq⟩⟩
    · have hsplit : outline ps = before ++ sign :: .constant none :: after := by simp [← heq]
      exact (h hsplit).1 ⟨hsign, rfl⟩
    · have hsplit : outline ps = before ++ .constant none :: sign :: after := by simp [← heq]
      exact (h hsplit).2 ⟨rfl, hsign⟩

/-- A piece beside which anything may stand. -/
def isNeutral (p : Piece) : Bool :=
  !p.isEquality && p != .constant none

theorem isChain_append_neutral {p : Piece} (hp : isNeutral p = true) {xs ys : List Piece} :
    (xs ++ p :: ys).IsChain Apart ↔ xs.IsChain Apart ∧ ys.IsChain Apart := by
  obtain ⟨hsign, hnull⟩ : p.isEquality = false ∧ p ≠ .constant none := by
    simpa [isNeutral] using hp
  rw [List.isChain_append, List.isChain_cons]
  simp [Apart, hsign, hnull]

theorem isChain_cons_neutral {p : Piece} (hp : isNeutral p = true) {xs : List Piece} :
    (p :: xs).IsChain Apart ↔ xs.IsChain Apart := by
  rw [← List.nil_append (p :: xs), isChain_append_neutral hp, and_iff_right .nil]

theorem isChain_concat_neutral {p : Piece} (hp : isNeutral p = true) {xs : List Piece} :
    (xs ++ [p]).IsChain Apart ↔ xs.IsChain Apart := by
  rw [isChain_append_neutral hp, and_iff_left .nil]

theorem isChain_append_sign {p : Piece} (hp : p.isEquality = true) {xs ys : List Piece} :
    (xs ++ p :: ys).IsChain Apart ↔ (xs.IsChain Apart ∧ ys.IsChain Apart) ∧
      xs.getLast? ≠ some (.constant none) ∧ ys.head? ≠ some (.constant none) := by
  have hnull : p ≠ .constant none := by
    rintro rfl
    exact absurd hp (by simp [Piece.isEquality])
  have hfirst : (∀ q ∈ ys.head?, Apart p q) ↔ ys.head? ≠ some (.constant none) := by
    cases ys <;> simp [Apart, hp, hnull]
  have hlast : (∀ q ∈ xs.getLast?, ∀ q' ∈ (p :: ys).head?, Apart q q') ↔
      xs.getLast? ≠ some (.constant none) := by
    cases xs.getLast? <;> simp [Apart, hp, hnull]
  rw [List.isChain_append, List.isChain_cons, hfirst, hlast]
  tauto

/-! ### Outlines of phrases -/

theorem outline_cons {p : Piece} (hp : p ≠ .is) (rest : List Piece) :
    outline (p :: rest) = p :: outline rest := by
  rw [outline.eq_def]
  split
  · rename_i heq
    exact absurd (List.cons.inj heq).1 hp
  · rename_i heq
    exact absurd (List.cons.inj heq).1 hp
  · rename_i heq
    obtain ⟨rfl, rfl⟩ := List.cons.inj heq
    rfl
  · rename_i heq
    exact absurd heq (by simp)

/-- No null test begins in these pieces and ends behind them. -/
def Whole (xs : List Piece) : Prop :=
  ∀ rest, outline (xs ++ rest) = outline xs ++ outline rest

theorem whole_nil : Whole [] :=
  fun _ => rfl

namespace Whole

variable {xs ys : List Piece}

theorem cons (h : Whole xs) {p : Piece} (hp : p ≠ .is) : Whole (p :: xs) := by
  intro rest
  rw [List.cons_append, outline_cons hp, outline_cons hp, h, List.cons_append]

theorem append (h : Whole xs) (h' : Whole ys) : Whole (xs ++ ys) := by
  intro rest
  rw [List.append_assoc, h, h, h', List.append_assoc]

end Whole

theorem whole_testPieces (negated : Bool) : Whole (testPieces negated) := by
  intro rest
  cases negated <;> rfl

theorem outline_testPieces (negated : Bool) : outline (testPieces negated) = [.is] := by
  cases negated <;> rfl

theorem whole_piecesBehind {es : List Phrase} (h : ∀ e ∈ es, Whole e.pieces) :
    Whole (piecesBehind es) := by
  induction es with
  | nil => exact whole_nil
  | cons e es ih =>
    obtain ⟨hfirst, hrest⟩ := List.forall_mem_cons.mp h
    exact (hfirst.append (ih hrest)).cons (by simp)

theorem whole_piecesOfList {es : List Phrase} (h : ∀ e ∈ es, Whole e.pieces) :
    Whole (piecesOfList es) := by
  cases es with
  | nil => exact whole_nil
  | cons e es =>
    obtain ⟨hfirst, hrest⟩ := List.forall_mem_cons.mp h
    exact hfirst.append (whole_piecesBehind hrest)

theorem whole_pieces (t : Phrase) : Whole t.pieces := by
  have hclose : Whole [.closeParen] := whole_nil.cons (by simp)
  induction t using Phrase.induction with
  | leaf value =>
    rcases value with _ | _ | ⟨_ | _⟩ | _ | _
    case number.true => exact (whole_nil.cons (by simp)).cons (by simp)
    all_goals exact whole_nil.cons (by simp)
  | call function arguments ih =>
    exact (((whole_piecesOfList ih).append hclose).cons (by simp)).cons (by simp)
  | group inner ih => exact (ih.append hclose).cons (by simp)
  | binary op left right ihleft ihright => exact ihleft.append (ihright.cons (by simp))
  | nullTest negated operand ih => exact ih.append (whole_testPieces negated)
  | not operand ih => exact ih.cons (by simp)

end Condition

namespace Phrase

open Condition

/-- The pieces of a phrase, where a null test is one piece. -/
def outline (t : Phrase) : List Piece :=
  Condition.outline t.pieces

theorem outline_group (inner : Phrase) :
    (group inner).outline = .openParen :: (inner.outline ++ [.closeParen]) := by
  rw [outline, pieces, outline_cons (by simp), whole_pieces inner]
  rfl

theorem outline_binary (op : Operator) (left right : Phrase) :
    (binary op left right).outline = left.outline ++ .operator op :: right.outline := by
  rw [outline, pieces, whole_pieces left, outline_cons (by simp)]
  rfl

theorem outline_nullTest (negated : Bool) (operand : Phrase) :
    (nullTest negated operand).outline = operand.outline ++ [.is] := by
  rw [outline, pieces, whole_pieces operand, outline_testPieces]
  rfl

theorem outline_not (operand : Phrase) : (not operand).outline = .not :: operand.outline := by
  rw [outline, pieces, outline_cons (by simp)]
  rfl

theorem outline_leaf (value : Leaf) : (leaf value).outline = value.pieces := by
  rcases value with _ | _ | ⟨_ | _⟩ | _ | _ <;> rfl

theorem outline_call (function : String) (arguments : List Phrase) :
    (call function arguments).outline =
      .function function :: .openParen ::
        (Condition.outline (piecesOfList arguments) ++ [.closeParen]) := by
  rw [outline, pieces, outline_cons (by simp), outline_cons (by simp),
    whole_piecesOfList fun e _ => whole_pieces e]
  rfl

theorem outline_ne_nil (t : Phrase) : t.outline ≠ [] := by
  cases t with
  | leaf value =>
    rw [outline_leaf]
    rcases value with _ | _ | ⟨_ | _⟩ | _ | _ <;> simp [Leaf.pieces]
  | call function arguments => simp [outline_call]
  | group inner => simp [outline_group]
  | binary op left right => simp [outline_binary]
  | nullTest negated operand => simp [outline_nullTest]
  | not operand => simp [outline_not]

/-! ### Null at the edges of a phrase -/

/-- Whether a phrase begins with the keyword `null`. -/
def opensWithNull : Phrase → Bool
  | leaf value => value == .constant none
  | binary _ left _ => left.opensWithNull
  | nullTest _ operand => operand.opensWithNull
  | call .. | group _ | not _ => false

/-- Whether a phrase ends with the keyword `null`, other than that of a null test. -/
def endsInNull : Phrase → Bool
  | leaf value => value == .constant none
  | binary _ _ right => right.endsInNull
  | not operand => operand.endsInNull
  | call .. | group _ | nullTest .. => false

mutual

/-- Whether a phrase has an equality sign beside the keyword `null`. -/
def equatesNull : Phrase → Bool
  | leaf _ => false
  | call _ arguments => anyEquatesNull arguments
  | group inner => equatesNull inner
  | binary op left right => equatesNull left || equatesNull right ||
      op.isEquality && (left.endsInNull || right.opensWithNull)
  | nullTest _ operand => equatesNull operand
  | not operand => equatesNull operand

/-- Whether one of several phrases has an equality sign beside the keyword `null`. -/
def anyEquatesNull : List Phrase → Bool
  | [] => false
  | e :: rest => equatesNull e || anyEquatesNull rest

end

@[simp] theorem anyEquatesNull_eq_any (es : List Phrase) :
    anyEquatesNull es = es.any equatesNull := by
  induction es with
  | nil => rfl
  | cons e es ih => rw [anyEquatesNull, ih, List.any_cons]

theorem head?_outline (t : Phrase) :
    t.outline.head? = some (.constant none) ↔ t.opensWithNull = true := by
  induction t using Phrase.induction with
  | leaf value =>
    rw [outline_leaf]
    rcases value with _ | _ | ⟨_ | _⟩ | _ | _ <;> simp [Leaf.pieces, opensWithNull]
  | call function arguments _ => simp [outline_call, opensWithNull]
  | group inner _ => simp [outline_group, opensWithNull]
  | binary op left right ihleft _ =>
    rw [outline_binary, List.head?_append_of_ne_nil _ left.outline_ne_nil, ihleft, opensWithNull]
  | nullTest negated operand ih =>
    rw [outline_nullTest, List.head?_append_of_ne_nil _ operand.outline_ne_nil, ih, opensWithNull]
  | not operand _ => simp [outline_not, opensWithNull]

theorem getLast?_outline (t : Phrase) :
    t.outline.getLast? = some (.constant none) ↔ t.endsInNull = true := by
  induction t using Phrase.induction with
  | leaf value =>
    rw [outline_leaf]
    rcases value with _ | _ | ⟨_ | _⟩ | _ | _ <;> simp [Leaf.pieces, endsInNull]
  | call function arguments _ =>
    rw [outline_call, ← List.cons_append, ← List.cons_append, List.getLast?_concat]
    simp [endsInNull]
  | group inner _ =>
    rw [outline_group, ← List.cons_append, List.getLast?_concat]
    simp [endsInNull]
  | binary op left right _ ihright =>
    rw [outline_binary, List.getLast?_append_of_ne_nil _ (List.cons_ne_nil _ _),
      List.getLast?_cons_of_ne_nil right.outline_ne_nil, ihright, endsInNull]
  | nullTest negated operand _ => simp [outline_nullTest, endsInNull]
  | not operand ih =>
    rw [outline_not, List.getLast?_cons_of_ne_nil operand.outline_ne_nil, ih, endsInNull]

/-- Behind a phrase or a comma, only the phrases of a list matter. -/
theorem isChain_append_piecesBehind {es : List Phrase}
    (h : ∀ e ∈ es, e.outline.IsChain Apart ↔ e.equatesNull = false) (xs : List Piece) :
    (xs ++ Condition.outline (piecesBehind es)).IsChain Apart ↔
      xs.IsChain Apart ∧ es.any equatesNull = false := by
  induction es generalizing xs with
  | nil => simp [piecesBehind, Condition.outline]
  | cons e es ih =>
    obtain ⟨hfirst, hrest⟩ := List.forall_mem_cons.mp h
    rw [piecesBehind, outline_cons (by simp), whole_pieces e, isChain_append_neutral rfl,
      ih hrest, List.any_cons, Bool.or_eq_false_iff, ← hfirst]
    rfl

theorem isChain_piecesOfList {es : List Phrase}
    (h : ∀ e ∈ es, e.outline.IsChain Apart ↔ e.equatesNull = false) :
    (Condition.outline (piecesOfList es)).IsChain Apart ↔ es.any equatesNull = false := by
  cases es with
  | nil => simp [piecesOfList, Condition.outline]
  | cons e es =>
    obtain ⟨hfirst, hrest⟩ := List.forall_mem_cons.mp h
    rw [piecesOfList, whole_pieces e, isChain_append_piecesBehind hrest, List.any_cons,
      Bool.or_eq_false_iff, ← hfirst]
    rfl

/-- Where a phrase has an equality sign beside the keyword `null`: within a part, or between the
operands of an operator. -/
theorem isChain_outline (t : Phrase) : t.outline.IsChain Apart ↔ t.equatesNull = false := by
  induction t using Phrase.induction with
  | leaf value =>
    rw [outline_leaf]
    rcases value with _ | _ | ⟨_ | _⟩ | _ | _ <;>
      simp [Leaf.pieces, equatesNull, Apart, Piece.isEquality]
  | call function arguments ih =>
    rw [outline_call, isChain_cons_neutral rfl, isChain_cons_neutral rfl,
      isChain_concat_neutral rfl, isChain_piecesOfList ih, equatesNull,
      anyEquatesNull_eq_any]
  | group inner ih =>
    rw [outline_group, isChain_cons_neutral rfl, isChain_concat_neutral rfl, ih, equatesNull]
  | binary op left right ihleft ihright =>
    rw [outline_binary, equatesNull, Bool.or_eq_false_iff, Bool.or_eq_false_iff]
    -- an operator other than an equality sign may stand beside anything
    cases hsign : op.isEquality with
    | false =>
      have hneutral : isNeutral (.operator op) = true := by
        simp [isNeutral, Piece.isEquality, hsign]
      rw [isChain_append_neutral hneutral, ihleft, ihright]
      simp
    | true =>
      have hpiece : (Piece.operator op).isEquality = true := hsign
      rw [isChain_append_sign hpiece, ihleft, ihright, ne_eq, ne_eq, getLast?_outline,
        head?_outline]
      simp
  | nullTest negated operand ih => rw [outline_nullTest, isChain_concat_neutral rfl, ih, equatesNull]
  | not operand ih => rw [outline_not, isChain_cons_neutral rfl, ih, equatesNull]

/-- The pieces of a phrase have an equality sign beside the keyword `null` if and only if the
phrase does. -/
theorem equatesNull_pieces (t : Phrase) : EquatesNull t.pieces ↔ t.equatesNull = true := by
  rw [← not_iff_not, not_equatesNull_iff, Bool.not_eq_true]
  exact isChain_outline t

end Phrase

/-! ### Null at the edges of an expression -/

/-- Whether the condition of a call begins with that of its receiver. -/
def Method.leads : Method → Bool
  | toUpper | toLower | equals true => false
  | _ => true

namespace Expr

/-- Whether the condition of an expression begins with the keyword `null`. -/
def opensWithNull : Expr → Bool
  | literal value => value == .null
  | call method receiver _ => method.leads && receiver.opensWithNull
  | _ => false

/-- Whether the condition of an expression ends with the keyword `null`, other than that of a null
test. -/
def endsInNull : Expr → Bool
  | literal value => value == .null
  | not operand => operand.endsInNull
  | call .value receiver _ => receiver.endsInNull
  | call (.equals false) _ [argument] => argument.endsInNull
  | _ => false

mutual

/-- Whether the condition of an expression has an equality sign beside the keyword `null`: the sign
of a comparison for equality where no operand is the literal itself, or that of `Equals`. -/
def equatesNull : Expr → Bool
  | compare op left right => equatesNull left || equatesNull right ||
      ((op == .eq || op == .ne) && !left.isNull && !right.isNull) &&
        (left.endsInNull || right.opensWithNull)
  | logical _ operands => anyEquatesNull operands
  | not operand => equatesNull operand
  | call method receiver arguments => equatesNull receiver || anyEquatesNull arguments ||
      method == .equals false && (receiver.endsInNull || arguments.any opensWithNull)
  | _ => false

/-- Whether the condition of one of several expressions has an equality sign beside `null`. -/
def anyEquatesNull : List Expr → Bool
  | [] => false
  | e :: rest => equatesNull e || anyEquatesNull rest

end

@[simp] theorem anyEquatesNull_eq_any (es : List Expr) :
    anyEquatesNull es = es.any equatesNull := by
  induction es with
  | nil => rfl
  | cons e es ih => rw [anyEquatesNull, ih, List.any_cons]

end Expr

/-! ### Phrases of expressions -/

namespace Phrase

theorem equatesNull_joined (op : Connective) (es : List Phrase) :
    (joined op.operator es).equatesNull = es.any equatesNull := by
  have hsign : op.operator.isEquality = false := by cases op <;> rfl
  cases es with
  | nil => rfl
  | cons first rest =>
    rw [joined]
    induction rest generalizing first with
    | nil => simp
    | cons next rest ih => simp [ih, equatesNull, hsign, Bool.or_assoc]

/-- A null test has no equality sign of its own. -/
theorem equatesNull_comparison {op : Comparison} {left right : Phrase} {rightNull : Bool}
    (hright : rightNull = true → right.equatesNull = false) :
    (comparison op left right rightNull).equatesNull =
      (left.equatesNull || right.equatesNull ||
        ((op == .eq || op == .ne) && !rightNull) && (left.endsInNull || right.opensWithNull)) := by
  cases rightNull with
  | false => cases op <;> simp [comparison, equatesNull, Operator.isEquality]
  | true => cases op <;> simp [comparison, equatesNull, Operator.isEquality, hright rfl]

end Phrase

namespace Method

variable {method : Method} {receiver : Phrase} {arguments : List Phrase}

theorem opensWithNull_phrase (arity : arguments.length = method.arity) :
    (method.phrase receiver arguments).opensWithNull =
      (method.leads && receiver.opensWithNull) := by
  rcases arguments_of_arity arity with ⟨hnone, rfl⟩ | ⟨hone, argument, rfl⟩
  · cases method with
    | toUpper | toLower | hasValue | value => simp [phrase, leads, Phrase.opensWithNull]
    | _ => exact absurd hnone (by simp [Method.arity])
  · cases method with
    | contains | startsWith | endsWith =>
      simp [phrase, leads, Phrase.matching, Phrase.opensWithNull]
    | equals ignoreCase => cases ignoreCase <;> simp [phrase, leads, Phrase.opensWithNull]
    | _ => exact absurd hone (by simp [Method.arity])

theorem equatesNull_phrase (arity : arguments.length = method.arity) :
    (method.phrase receiver arguments).equatesNull =
      (receiver.equatesNull || arguments.any Phrase.equatesNull ||
        method == .equals false &&
          (receiver.endsInNull || arguments.any Phrase.opensWithNull)) := by
  rcases arguments_of_arity arity with ⟨hnone, rfl⟩ | ⟨hone, argument, rfl⟩
  · cases method with
    | toUpper | toLower | hasValue | value => simp [phrase, Phrase.equatesNull]
    | _ => exact absurd hnone (by simp [Method.arity])
  · cases method with
    | contains | startsWith | endsWith =>
      simp [phrase, Phrase.matching, Phrase.anyText, Phrase.equatesNull, Operator.isEquality]
    | equals ignoreCase =>
      cases ignoreCase with
      | false => simp [phrase, Phrase.equatesNull, Operator.isEquality]
      | true => simp [phrase, Phrase.equatesNull, Phrase.endsInNull, Phrase.opensWithNull]
    | _ => exact absurd hone (by simp [Method.arity])

end Method

theorem any_map_of_forall {α β : Type} {f : α → β} {p : β → Bool} {q : α → Bool} {xs : List α}
    (h : ∀ x ∈ xs, p (f x) = q x) : (xs.map f).any p = xs.any q := by
  rw [List.any_map, Bool.eq_iff_iff, List.any_eq_true, List.any_eq_true]
  exact exists_congr fun x => and_congr_right fun hx => by rw [Function.comp_apply, h x hx]

theorem Literal.leaf_eq_null_iff {value : Literal} :
    value.leaf = .constant none ↔ value = .null := by
  cases value with
  | integer value =>
    rw [leaf, Leaf.ofNumeral.eq_def]
    split <;> simp
  | number value =>
    rw [leaf, Leaf.ofNumeral.eq_def]
    split <;> simp
  | _ => simp [leaf]

namespace Expr

variable {m : RowModel} {declared : List String}

theorem opensWithNull_phrase {e : Expr} (he : e.Sound declared) :
    (e.phrase .group m).opensWithNull = e.opensWithNull := by
  induction he with
  | field property => rfl
  | param known => rfl
  | literal noText => simp [phrase, Phrase.opensWithNull, opensWithNull, Literal.leaf_eq_null_iff]
  | now clock => cases clock <;> rfl
  | compare _ _ _ _ =>
    rw [phrase]
    split_ifs <;> rfl
  | logical _ _ _ => rfl
  | not _ _ => rfl
  | call arity _ _ ih _ =>
    rw [phrase, phraseOfList_eq_map, Method.opensWithNull_phrase (by simpa using arity), ih,
      opensWithNull]

theorem endsInNull_phrase {e : Expr} (he : e.Sound declared) :
    (e.phrase .group m).endsInNull = e.endsInNull := by
  induction he with
  | field property => rfl
  | param known => rfl
  | literal noText => simp [phrase, Phrase.endsInNull, endsInNull, Literal.leaf_eq_null_iff]
  | now clock => cases clock <;> rfl
  | compare _ _ _ _ =>
    rw [phrase]
    split_ifs <;> rfl
  | logical _ _ _ => rfl
  | not _ ih => rw [phrase, Phrase.endsInNull, endsInNull, ih]
  | call arity inner each ih iharguments =>
    rename_i method receiver arguments
    rcases Method.arguments_of_arity arity with ⟨hnone, rfl⟩ | ⟨hone, argument, rfl⟩
    · cases method with
      | toUpper | toLower | hasValue => rfl
      | value => simp [phrase, Method.phrase, endsInNull, ih]
      | _ => exact absurd hnone (by simp [Method.arity])
    · cases method with
      | contains | startsWith | endsWith => rfl
      | equals ignoreCase =>
        cases ignoreCase with
        | false => simp [phrase, Method.phrase, Phrase.endsInNull, endsInNull, iharguments]
        | true => rfl
      | _ => exact absurd hone (by simp [Method.arity])

/-- An expression has an equality sign beside the keyword `null` if and only if its phrase does. -/
theorem equatesNull_phrase {e : Expr} (he : e.Sound declared) :
    (e.phrase .group m).equatesNull = e.equatesNull := by
  induction he with
  | field property => rfl
  | param known => rfl
  | literal noText => rfl
  | now clock => cases clock <;> rfl
  | compare first second ihleft ihright =>
    rename_i op left right
    have hnull {e : Expr} (h : e.isNull = true) : (e.phrase .group m).equatesNull = false := by
      obtain rfl := isNull_iff.mp h
      rfl
    rw [phrase, equatesNull]
    split_ifs with hswap
    · -- the null literal changes sides, and the sign gives way to a test
      rw [Bool.and_eq_true] at hswap
      rw [Phrase.equatesNull, Phrase.equatesNull_comparison fun _ => hnull hswap.1, ihleft,
        ihright, hswap.1]
      simp [Bool.or_comm]
    · rw [Phrase.equatesNull, Phrase.equatesNull_comparison hnull, ihleft, ihright,
        endsInNull_phrase first, opensWithNull_phrase second]
      cases hright : right.isNull with
      | true => simp
      | false =>
        have hleft : left.isNull = false := by simpa [hright] using hswap
        simp [hleft]
  | logical some each ih =>
    rw [phrase, phraseOfList_eq_map, Phrase.equatesNull, Phrase.equatesNull_joined,
      any_map_of_forall ih, equatesNull, anyEquatesNull_eq_any]
  | not inner ih => rw [phrase, Phrase.equatesNull, equatesNull, ih]
  | call arity inner each ih iharguments =>
    rw [phrase, phraseOfList_eq_map, Method.equatesNull_phrase (by simpa using arity), ih,
      any_map_of_forall iharguments, endsInNull_phrase inner,
      any_map_of_forall fun e he => opensWithNull_phrase (each e he), equatesNull,
      anyEquatesNull_eq_any]

end Expr

/-! ### Conditions of nodes -/

section Infixes

variable {ls xs ys : List Lexeme}

theorem infix_binary_left (operator : Lexeme) : xs <:+: binary xs operator ys :=
  ⟨[], [space, operator, space] ++ ys, by simp [binary]⟩

theorem infix_binary_right (operator : Lexeme) : ys <:+: binary xs operator ys :=
  ⟨xs ++ [space, operator, space], [], by simp [binary]⟩

theorem infix_parenthesized : ls <:+: mark "(" :: (ls ++ [mark ")"]) :=
  ⟨[mark "("], [mark ")"], by simp⟩

theorem infix_sqlCall {function : String} {arguments : List (List Lexeme)} (h : ls ∈ arguments) :
    ls <:+: sqlCall function arguments := by
  have hjoined : ls <:+: Lexeme.commaSeparated arguments := Lexeme.infix_joined h
  exact hjoined.trans ⟨[word function, mark "("], [mark ")"], by simp [sqlCall]⟩

theorem Method.infix_receiver (method : Method) : xs <:+: method.lexemes xs ys := by
  cases method with
  | contains | startsWith | endsWith => exact infix_binary_left _
  | equals ignoreCase =>
    cases ignoreCase with
    | false => exact infix_binary_left _
    | true => exact (infix_sqlCall List.mem_cons_self).trans (infix_binary_left _)
  | toUpper | toLower => exact infix_sqlCall List.mem_cons_self
  | hasValue => exact (List.prefix_append _ _).isInfix
  | value => exact List.infix_rfl

theorem Method.infix_argument {method : Method} (arity : method.arity = 1) :
    ys <:+: method.lexemes xs ys := by
  cases method with
  | contains => exact (infix_sqlCall (by simp)).trans (infix_binary_right _)
  | startsWith => exact (infix_sqlCall (by simp)).trans (infix_binary_right _)
  | endsWith => exact (infix_sqlCall (by simp)).trans (infix_binary_right _)
  | equals ignoreCase =>
    cases ignoreCase with
    | false => exact infix_binary_right _
    | true => exact (infix_sqlCall List.mem_cons_self).trans (infix_binary_right _)
  | _ => exact absurd arity (by simp [Method.arity])

end Infixes

namespace Expr

variable {m : RowModel} {declared : List String}

/-- An operand of a comparison stands in its condition, unless it is a null literal. -/
theorem exists_infix_of_operand {op : Comparison} {left right operand : Expr} {ls : List Lexeme}
    (h : (compare op left right).lexemes m = .ok ls) (hoperand : operand = left ∨ operand = right)
    (hnull : operand.isNull = false) :
    ∃ inner, operand.lexemes m = .ok inner ∧ inner <:+: ls := by
  obtain ⟨inside, rfl, h₁⟩ := lexemes_compare_ok h
  split_ifs at h₁ with hswap
  · obtain ⟨xs, hxs, hinside⟩ := h₁
    rw [Bool.and_eq_true] at hswap
    obtain rfl | rfl := hoperand
    · exact absurd hswap.1 (by simp [hnull])
    refine ⟨xs, hxs, List.IsInfix.trans ?_ infix_parenthesized⟩
    cases hinside with
    | nullTest => exact (List.prefix_append _ _).isInfix
    | binary => exact infix_binary_left _
  · obtain ⟨xs, hxs, hinside⟩ := h₁
    obtain rfl | rfl := hoperand
    · refine ⟨xs, hxs, List.IsInfix.trans ?_ infix_parenthesized⟩
      cases hinside with
      | nullTest => exact (List.prefix_append _ _).isInfix
      | binary => exact infix_binary_left _
    · cases hinside with
      | nullTest _ isNull _ => exact absurd isNull (by simp [hnull])
      | binary _ second =>
        exact ⟨_, second, (infix_binary_right _).trans infix_parenthesized⟩

/-- The condition of a part stands in that of the expression, unless the part is a null literal. -/
theorem exists_infix_of_part {e part : Expr} {ls : List Lexeme}
    (hnode : checkNode declared e = .ok ()) (h : e.lexemes m = .ok ls) (hpart : part ∈ e.parts)
    (hnull : part.isNull = false) : ∃ inner, part.lexemes m = .ok inner ∧ inner <:+: ls := by
  cases e with
  | compare op left right => exact exists_infix_of_operand h (by simpa [parts] using hpart) hnull
  | logical op operands =>
    rw [lexemes] at h
    obtain ⟨written, hwritten, h₁⟩ := bind_eq_ok.mp h
    obtain rfl := pure_eq_ok.mp h₁
    obtain ⟨inner, hmem, hinner⟩ := exists_mem_of_forall₂ (lexemesOfList_ok hwritten).flip hpart
    exact ⟨inner, hinner, (Lexeme.infix_joined hmem).trans infix_parenthesized⟩
  | not operand =>
    rw [lexemes] at h
    obtain ⟨inner, hinner, h₁⟩ := bind_eq_ok.mp h
    obtain rfl := pure_eq_ok.mp h₁
    obtain rfl := List.mem_singleton.mp hpart
    exact ⟨inner, hinner, (List.suffix_append [word "NOT", space] inner).isInfix⟩
  | call method receiver arguments =>
    obtain ⟨subject, hsubject, hwritten⟩ := lexemes_call_ok h
    obtain rfl | hpart := List.mem_cons.mp hpart
    · obtain ⟨-, rfl⟩ | ⟨_, _, _, -, -, rfl⟩ := hwritten
      · exact ⟨subject, hsubject, method.infix_receiver⟩
      · exact ⟨subject, hsubject, method.infix_receiver⟩
    obtain ⟨rfl, -⟩ | ⟨first, rest, argument, rfl, hargument, rfl⟩ := hwritten
    · exact absurd hpart List.not_mem_nil
    · have harity := (checkNode_eq_ok_iff.mp hnode).2.2.2 _ _ _ rfl
      obtain rfl := Method.rest_eq_nil harity
      obtain rfl := List.mem_singleton.mp hpart
      exact ⟨argument, hargument, Method.infix_argument harity.symm⟩
  | _ => exact absurd hpart List.not_mem_nil

/-- A null literal is its only node. -/
theorem isNull_eq_false_of_node {e node : Expr} {depth : Nat} (hnode : Node e depth node)
    (hnull : node.isNull = false) : e.isNull = false := by
  cases hnode with
  | root => exact hnull
  | part mem below =>
    rw [← Bool.not_eq_true]
    intro h
    obtain rfl := isNull_iff.mp h
    exact absurd mem List.not_mem_nil

/-- The condition of a node stands in that of the expression, unless the node is a null literal. -/
theorem exists_infix_of_node {e node : Expr} {depth : Nat} {ls : List Lexeme}
    (hnodes : ∀ depth node, Node e depth node → checkNode declared node = .ok ())
    (h : e.lexemes m = .ok ls) (hnode : Node e depth node) (hnull : node.isNull = false) :
    ∃ inner, node.lexemes m = .ok inner ∧ inner <:+: ls := by
  induction hnode generalizing ls with
  | root e => exact ⟨ls, h, List.infix_rfl⟩
  | part mem below ih =>
    obtain ⟨hroot, hparts⟩ := forall_node_iff.mp hnodes
    obtain ⟨outer, houter, hinfix⟩ :=
      exists_infix_of_part hroot h mem (isNull_eq_false_of_node below hnull)
    obtain ⟨inner, hinner, hinfix'⟩ := ih (hparts _ mem) houter hnull
    exact ⟨inner, hinner, hinfix'.trans hinfix⟩

/-- What a comparison for equality is written as where a null literal is on the right. -/
theorem eq_of_comparisonLexemes {negated : Bool} {xs inner : List Lexeme}
    {ys : Except CompileError (List Lexeme)}
    (h : ComparisonLexemes (.equality negated) xs ys true inner) :
    inner = xs ++ nullTest negated := by
  cases h with
  | nullTest negated' _ equality =>
    cases negated <;> cases negated' <;> first | rfl | exact absurd equality (by decide)
  | binary noTest second =>
    cases negated <;> exact absurd noTest (by decide)

/-- A comparison for equality with a null literal, on either side, is a null test of the other
operand. -/
theorem lexemes_compare_null {negated : Bool} {left right operand : Expr} {ls : List Lexeme}
    (h : (compare (.equality negated) left right).lexemes m = .ok ls)
    (hnull : left = operand ∧ right.isNull = true ∨ left.isNull = true ∧ right = operand) :
    ∃ inner, operand.lexemes m = .ok inner ∧
      ls = mark "(" :: (inner ++ nullTest negated ++ [mark ")"]) := by
  obtain ⟨inside, rfl, h₁⟩ := lexemes_compare_ok h
  split_ifs at h₁ with hswap
  · obtain ⟨xs, hxs, hinside⟩ := h₁
    rw [Comparison.converse_equality] at hinside
    obtain rfl := eq_of_comparisonLexemes hinside
    obtain ⟨-, hright⟩ | ⟨-, rfl⟩ := hnull
    · exact absurd hswap (by simp [hright])
    · exact ⟨xs, hxs, rfl⟩
  · obtain ⟨xs, hxs, hinside⟩ := h₁
    have hright : right.isNull = true := by
      obtain ⟨-, hright⟩ | ⟨hleft, -⟩ := hnull
      · exact hright
      · simpa [hleft] using hswap
    rw [hright] at hinside
    obtain rfl := eq_of_comparisonLexemes hinside
    obtain ⟨rfl, -⟩ | ⟨hleft, rfl⟩ := hnull
    · exact ⟨xs, hxs, rfl⟩
    · -- two null literals: either may be the one that is tested
      obtain rfl := isNull_iff.mp hleft
      obtain rfl := isNull_iff.mp hright
      exact ⟨xs, hxs, rfl⟩

theorem text_nullTest (negated : Bool) (inner : List Lexeme) :
    Lexeme.text (mark "(" :: (inner ++ nullTest negated ++ [mark ")"])) =
      "(" ++ Lexeme.text inner ++ (if negated then " IS NOT NULL)" else " IS NULL)") := by
  have hopen : Lexeme.text [mark "("] = "(" := rfl
  have hclose : Lexeme.text (nullTest negated ++ [mark ")"]) =
      if negated then " IS NOT NULL)" else " IS NULL)" := by cases negated <;> rfl
  rw [← List.singleton_append, List.append_assoc, Lexeme.text_append, Lexeme.text_append, hopen,
    hclose, String.append_assoc]

end Expr

/-! ### Conditions of filters -/

namespace Filter

/-- The condition of an accepted filter has an equality sign beside the keyword `null` if and only
if its expression has one of an operand at whose edge the literal stands, or that of `Equals`; and
every comparison for equality with a null literal is a null test of the other operand. -/
theorem Accepted.equatesNull_iff {f : Filter} (hf : f.Accepted) {m : RowModel} {text : String}
    (h : f.sql m = .ok text) :
    (∃ ps, Condition.scan text.toList = some ps ∧
      (Condition.EquatesNull ps ↔ f.expr.equatesNull = true)) ∧
    ∀ (depth : Nat) (negated : Bool) (left right operand : Expr),
      f.expr.Node depth (.compare (.equality negated) left right) →
      left = operand ∧ right.isNull = true ∨ left.isNull = true ∧ right = operand →
      ∃ ls before after, operand.lexemes m = .ok ls ∧
        text = before ++ "(" ++ Lexeme.text ls ++
          (if negated then " IS NOT NULL)" else " IS NULL)") ++ after := by
  refine ⟨⟨_, hf.scan_sql h, ?_⟩, ?_⟩
  · rw [Phrase.equatesNull_pieces, Expr.equatesNull_phrase hf.sound]
  intro depth negated left right operand hnode hnull
  obtain ⟨ls, hls, h₁⟩ := bind_eq_ok.mp h
  obtain rfl := pure_eq_ok.mp h₁
  obtain ⟨_, hcomparison, before, after, rfl⟩ :=
    Expr.exists_infix_of_node (fun _ _ => hf.checkNode) hls hnode rfl
  obtain ⟨inner, hinner, rfl⟩ := Expr.lexemes_compare_null hcomparison hnull
  refine ⟨inner, Lexeme.text before, Lexeme.text after, hinner, ?_⟩
  rw [Lexeme.text_append, Lexeme.text_append, Expr.text_nullTest]
  simp only [String.append_assoc]

/-- A property asked whether it equals the null literal, as in `row => row.A.Equals(null)`. -/
def equalsNull : Filter :=
  ⟨.call (.equals false) (.field "A") [.literal .null], []⟩

/-- Asked by its method, equality with the null literal is written with an equality sign. -/
theorem equatesNull_equalsNull :
    equalsNull.Accepted ∧ equalsNull.sql .pair = .ok "`A` = null" ∧
      ∃ ps, Condition.scan "`A` = null".toList = some ps ∧ Condition.EquatesNull ps := by
  have hparse : Filter.parse "row => row.A.Equals(null)" [] = .ok equalsNull := rfl
  have haccepted : equalsNull.Accepted := .parse hparse
  have hsql : equalsNull.sql .pair = .ok "`A` = null" := rfl
  obtain ⟨⟨ps, hscan, hiff⟩, -⟩ := haccepted.equatesNull_iff hsql
  exact ⟨haccepted, hsql, ps, hscan, hiff.mpr rfl⟩

end Filter

end TypedSql

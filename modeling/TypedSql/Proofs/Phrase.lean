/-
Conditions as a server reads them.

A condition is a phrase: operands joined by operators that bind with four levels. Comparisons,
`LIKE` and null tests stand on the first, and bind to the left; then come `NOT`, `AND` and `OR`.
A phrase keeps its parentheses, so it says how it is spelled (`Phrase.pieces`), and it is grouped
as these levels have it if every operand of an operator binds tightly enough
(`Phrase.WellGrouped`).

* `Phrase.eq_of_bare_of_pieces` — the operators of a phrase and its spelling determine it: where
  two phrases differ in their parentheses only, they are spelled differently.
-/
import Mathlib
import TypedSql.Filter.Expr

namespace TypedSql

/-- Two lists with as many members of a kind in front of one of that kind are equal up to there. -/
theorem append_cons_inj_of_filter {α : Type} {p : α → Bool} {xs xs' ys ys' : List α} {a a' : α}
    (ha : p a = true) (ha' : p a' = true) (hfilter : (xs.filter p).length = (xs'.filter p).length)
    (h : xs ++ a :: ys = xs' ++ a' :: ys') : xs = xs' ∧ ys = ys' := by
  induction xs generalizing xs' with
  | nil =>
    cases xs' with
    | nil => exact ⟨rfl, (List.cons.inj h).2⟩
    | cons x' xs' =>
      obtain ⟨rfl, -⟩ := List.cons.inj h
      exact absurd hfilter (by simp [ha])
  | cons x xs ih =>
    cases xs' with
    | nil =>
      obtain ⟨rfl, -⟩ := List.cons.inj h
      exact absurd hfilter (by simp [ha'])
    | cons x' xs' =>
      obtain ⟨rfl, htail⟩ := List.cons.inj h
      have hrest : (xs.filter p).length = (xs'.filter p).length := by
        rw [List.filter_cons, List.filter_cons] at hfilter
        split at hfilter
        · simpa using hfilter
        · exact hfilter
      obtain ⟨rfl, rfl⟩ := ih hrest htail
      exact ⟨rfl, rfl⟩

/-- What is read off a list, where it leaves no more than the list. A reader goes on with such a
rest. -/
def bounded {α β : Type} (xs : List β) (r : Option (α × List β)) :
    Option (α × {rest : List β // rest.length ≤ xs.length}) := do
  let (a, rest) ← r
  if h : rest.length ≤ xs.length then some (a, ⟨rest, h⟩) else none

theorem bounded_some {α β : Type} {xs rest : List β} (h : rest.length ≤ xs.length) (a : α) :
    bounded xs (some (a, rest)) = some (a, ⟨rest, h⟩) :=
  dif_pos h

theorem eq_some_of_bounded {α β : Type} {xs : List β} {r : Option (α × List β)} {a : α}
    {rest : {rest : List β // rest.length ≤ xs.length}} (h : bounded xs r = some (a, rest)) :
    r = some (a, rest.1) := by
  obtain ⟨⟨a', rest'⟩, hr, h⟩ := Option.bind_eq_some_iff.mp h
  dsimp only at h
  split_ifs at h
  obtain ⟨rfl, rfl⟩ := Prod.mk.inj (Option.some.inj h)
  exact hr

/-- What joins two operands. -/
inductive Operator where
  | compare (op : Comparison)
  | like
  | and
  | or
  deriving DecidableEq, Repr

/-- How loosely an operator binds. The second level is that of negations. -/
def Operator.level : Operator → Nat
  | compare _ | like => 1
  | and => 3
  | or => 4

theorem Operator.level_pos (op : Operator) : 0 < op.level := by
  cases op <;> simp [level]

theorem Operator.level_le (op : Operator) : op.level ≤ 4 := by
  cases op <;> simp [level]

theorem Operator.level_ne_two (op : Operator) : op.level ≠ 2 := by
  cases op <;> simp [level]

/-- A piece of a condition's text. -/
inductive Piece where
  | column (name : String)
  | placeholder (name : String)
  /-- A number without a sign. -/
  | number (spelling : String)
  | minus
  | text (content : String)
  /-- A truth value, or NULL. -/
  | constant (value : Option Bool)
  | function (name : String)
  | openParen
  | closeParen
  | comma
  | operator (op : Operator)
  | is
  | not
  deriving DecidableEq, Repr

/-- How loosely a piece binds the operand in front of it, if it binds one. -/
def Piece.level? : Piece → Option Nat
  | operator op => some op.level
  | is => some 1
  | _ => none

/-- An operand of one piece, or of a sign and a number. -/
inductive Leaf where
  | column (name : String)
  | placeholder (name : String)
  | number (negative : Bool) (spelling : String)
  | text (content : String)
  | constant (value : Option Bool)
  deriving DecidableEq, Repr

/-- The pieces of an operand. -/
def Leaf.pieces : Leaf → List Piece
  | column name => [.column name]
  | placeholder name => [.placeholder name]
  | number true spelling => [.minus, .number spelling]
  | number false spelling => [.number spelling]
  | text content => [.text content]
  | constant value => [.constant value]

/-- A condition with its parentheses. -/
inductive Phrase where
  | leaf (value : Leaf)
  | call (function : String) (arguments : List Phrase)
  | group (inner : Phrase)
  | binary (op : Operator) (left right : Phrase)
  | nullTest (negated : Bool) (operand : Phrase)
  | not (operand : Phrase)
  deriving Repr

namespace Phrase

/-- Induction over a phrase, with the hypothesis for every argument of a call. -/
@[elab_as_elim] theorem induction {P : Phrase → Prop} (leaf : ∀ value, P (.leaf value))
    (call : ∀ function arguments, (∀ a ∈ arguments, P a) → P (.call function arguments))
    (group : ∀ inner, P inner → P (.group inner))
    (binary : ∀ op left right, P left → P right → P (.binary op left right))
    (nullTest : ∀ negated operand, P operand → P (.nullTest negated operand))
    (not : ∀ operand, P operand → P (.not operand)) (t : Phrase) : P t :=
  @Phrase.rec P (fun es => ∀ e ∈ es, P e) leaf call group binary nullTest not
    (fun _ he => absurd he (by simp))
    (fun _ _ hfirst hrest => List.forall_mem_cons.mpr ⟨hfirst, hrest⟩) t

/-- How loosely the outermost operator binds. -/
def level : Phrase → Nat
  | leaf _ | call .. | group _ => 0
  | binary op _ _ => op.level
  | nullTest .. => 1
  | not _ => 2

/-- The pieces behind the operand of a null test. -/
def testPieces : Bool → List Piece
  | false => [.is, .constant none]
  | true => [.is, .not, .constant none]

mutual

/-- The spelling of a phrase. -/
def pieces : Phrase → List Piece
  | leaf value => value.pieces
  | call function arguments =>
    .function function :: .openParen :: (piecesOfList arguments ++ [.closeParen])
  | group inner => .openParen :: (pieces inner ++ [.closeParen])
  | binary op left right => pieces left ++ .operator op :: pieces right
  | nullTest negated operand => pieces operand ++ testPieces negated
  | not operand => .not :: pieces operand

/-- The spelling of phrases, with a comma between each two. -/
def piecesOfList : List Phrase → List Piece
  | [] => []
  | first :: rest => pieces first ++ piecesBehind rest

/-- The spelling of phrases, with a comma in front of each. -/
def piecesBehind : List Phrase → List Piece
  | [] => []
  | next :: rest => .comma :: (pieces next ++ piecesBehind rest)

end

theorem piecesOfList_eq (es : List Phrase) :
    piecesOfList es = ((es.map pieces).intersperse [.comma]).flatten := by
  induction es with
  | nil => rfl
  | cons e es ih =>
    cases es with
    | nil => simp [piecesOfList, piecesBehind]
    | cons e' es => simp_all [piecesOfList, piecesBehind]

/-- Every operand binds at least as tightly as its place asks for: the left operand of an operator
as tightly as the operator, the right one more tightly. -/
inductive WellGrouped : Phrase → Prop
  | leaf (value : Leaf) : WellGrouped (.leaf value)
  | call {arguments : List Phrase} (function : String)
      (each : ∀ a ∈ arguments, WellGrouped a) : WellGrouped (.call function arguments)
  | group {inner : Phrase} (inside : WellGrouped inner) : WellGrouped (.group inner)
  | binary {op : Operator} {left right : Phrase} (first : WellGrouped left)
      (second : WellGrouped right) (leftLevel : left.level ≤ op.level)
      (rightLevel : right.level < op.level) : WellGrouped (.binary op left right)
  | nullTest {operand : Phrase} (negated : Bool) (inside : WellGrouped operand)
      (tight : operand.level ≤ 1) : WellGrouped (.nullTest negated operand)
  | not {operand : Phrase} (inside : WellGrouped operand) (tight : operand.level ≤ 2) :
      WellGrouped (.not operand)

@[simp] theorem wellGrouped_leaf (value : Leaf) : WellGrouped (.leaf value) :=
  .leaf value

@[simp] theorem wellGrouped_call {function : String} {arguments : List Phrase} :
    WellGrouped (.call function arguments) ↔ ∀ a ∈ arguments, a.WellGrouped :=
  ⟨fun h => by cases h with | call _ each => exact each, .call function⟩

@[simp] theorem wellGrouped_group {inner : Phrase} :
    WellGrouped (.group inner) ↔ inner.WellGrouped :=
  ⟨fun h => by cases h with | group inside => exact inside, .group⟩

@[simp] theorem wellGrouped_binary {op : Operator} {left right : Phrase} :
    WellGrouped (.binary op left right) ↔
      (left.WellGrouped ∧ left.level ≤ op.level) ∧ right.WellGrouped ∧ right.level < op.level := by
  constructor
  · rintro ⟨⟩
    exact ⟨⟨‹_›, ‹_›⟩, ‹_›, ‹_›⟩
  · rintro ⟨⟨first, leftLevel⟩, second, rightLevel⟩
    exact .binary first second leftLevel rightLevel

@[simp] theorem wellGrouped_nullTest {negated : Bool} {operand : Phrase} :
    WellGrouped (.nullTest negated operand) ↔ operand.WellGrouped ∧ operand.level ≤ 1 :=
  ⟨fun h => by cases h with | nullTest _ inside tight => exact ⟨inside, tight⟩,
    fun h => .nullTest negated h.1 h.2⟩

@[simp] theorem wellGrouped_not {operand : Phrase} :
    WellGrouped (.not operand) ↔ operand.WellGrouped ∧ operand.level ≤ 2 :=
  ⟨fun h => by cases h with | not inside tight => exact ⟨inside, tight⟩, fun h => .not h.1 h.2⟩

theorem level_le (t : Phrase) : t.level ≤ 4 := by
  cases t with
  | binary op left right => exact op.level_le
  | _ => simp [level]

/-- No phrase begins with a closing parenthesis. -/
theorem head_pieces_ne_closeParen (t : Phrase) (rest : List Piece) :
    (t.pieces ++ rest).head? ≠ some .closeParen := by
  induction t using Phrase.induction generalizing rest with
  | leaf value => rcases value with _ | _ | ⟨_ | _⟩ | _ | _ <;> simp [pieces, Leaf.pieces]
  | call function arguments _ => simp [pieces]
  | group inner _ => simp [pieces]
  | binary op left right ihleft _ =>
    rw [pieces, List.append_assoc]
    exact ihleft _
  | nullTest negated operand ih =>
    rw [pieces, List.append_assoc]
    exact ih _
  | not operand _ => simp [pieces]

/-! ### Parentheses -/

mutual

/-- A phrase without its parentheses. -/
def bare : Phrase → Phrase
  | leaf value => leaf value
  | call function arguments => call function (bareOfList arguments)
  | group inner => bare inner
  | binary op left right => binary op (bare left) (bare right)
  | nullTest negated operand => nullTest negated (bare operand)
  | not operand => not (bare operand)

/-- Phrases without their parentheses. -/
def bareOfList : List Phrase → List Phrase
  | [] => []
  | first :: rest => bare first :: bareOfList rest

end

/-- What stands behind the parenthesis that closes the last but `depth` of the open ones. -/
def behindClosing : Nat → List Piece → List Piece
  | _, [] => []
  | depth, .openParen :: rest => behindClosing (depth + 1) rest
  | 0, .closeParen :: rest => rest
  | depth + 1, .closeParen :: rest => behindClosing depth rest
  | depth, _ :: rest => behindClosing depth rest

theorem behindClosing_piecesOfList {es : List Phrase} (h : ∀ e ∈ es, ∀ depth rest,
      behindClosing depth (e.pieces ++ rest) = behindClosing depth rest)
    (depth : Nat) (rest : List Piece) :
    behindClosing depth (piecesOfList es ++ rest) = behindClosing depth rest ∧
      behindClosing depth (piecesBehind es ++ rest) = behindClosing depth rest := by
  induction es generalizing depth rest with
  | nil => simp [piecesOfList, piecesBehind]
  | cons first more ih =>
    have hfirst := h first (by simp)
    have hmore := ih fun e he => h e (by simp [he])
    constructor
    · rw [piecesOfList, List.append_assoc, hfirst, (hmore _ _).2]
    · simp [piecesBehind, behindClosing, hfirst, (hmore _ _).2]

/-- The parentheses of a phrase are closed within it. -/
theorem behindClosing_pieces (t : Phrase) (depth : Nat) (rest : List Piece) :
    behindClosing depth (t.pieces ++ rest) = behindClosing depth rest := by
  induction t using Phrase.induction generalizing depth rest with
  | leaf value =>
    rcases value with _ | _ | ⟨_ | _⟩ | _ | _ <;> simp [pieces, Leaf.pieces, behindClosing]
  | call function arguments ih =>
    have harguments := fun depth rest => (behindClosing_piecesOfList ih depth rest).1
    simp [pieces, behindClosing, harguments]
  | group inner ih => simp [pieces, behindClosing, ih]
  | binary op left right ihleft ihright => simp [pieces, behindClosing, ihleft, ihright]
  | nullTest negated operand ih => cases negated <;> simp [pieces, testPieces, behindClosing, ih]
  | not operand ih => simp [pieces, behindClosing, ih]

/-- The parenthesis that a phrase begins with is closed within the phrase. -/
theorem length_le_behindClosing {t : Phrase} {inside : List Piece}
    (h : t.pieces = .openParen :: inside) (rest : List Piece) :
    rest.length ≤ (behindClosing 0 (inside ++ rest)).length := by
  induction t using Phrase.induction generalizing inside rest with
  | leaf value =>
    rcases value with _ | _ | ⟨_ | _⟩ | _ | _ <;> exact absurd h (by simp [pieces, Leaf.pieces])
  | call function arguments _ => exact absurd h (by simp [pieces])
  | group inner _ =>
    obtain rfl : pieces inner ++ [.closeParen] = inside := by simpa [pieces] using h
    rw [List.append_assoc, behindClosing_pieces]
    simp [behindClosing]
  | binary op left right ihleft _ =>
    rw [pieces] at h
    rcases List.append_eq_cons_iff.mp h with ⟨-, hop⟩ | ⟨first, hleft, rfl⟩
    · exact absurd hop (by simp)
    · -- the parenthesis is one of the left operand, behind which there is more
      rw [List.append_assoc]
      refine Nat.le_trans ?_ (ihleft hleft _)
      simp only [List.cons_append, List.length_cons, List.length_append]
      omega
  | nullTest negated operand ih =>
    rw [pieces] at h
    rcases List.append_eq_cons_iff.mp h with ⟨-, htest⟩ | ⟨first, hoperand, rfl⟩
    · exact absurd htest (by cases negated <;> simp [testPieces])
    · rw [List.append_assoc]
      refine Nat.le_trans ?_ (ih hoperand _)
      simp
  | not operand _ => exact absurd h (by simp [pieces])

/-- Only a phrase in parentheses is spelled like one. -/
theorem eq_group_of_pieces {t inner : Phrase} (h : t.pieces = (group inner).pieces) :
    ∃ inner', t = group inner' := by
  cases t with
  | leaf value =>
    rcases value with _ | _ | ⟨_ | _⟩ | _ | _ <;> exact absurd h (by simp [pieces, Leaf.pieces])
  | call function arguments => exact absurd h (by simp [pieces])
  | group inner' => exact ⟨inner', rfl⟩
  | binary op left right =>
    rw [pieces, pieces] at h
    rcases List.append_eq_cons_iff.mp h with ⟨-, hop⟩ | ⟨first, hleft, hinner⟩
    · exact absurd hop (by simp)
    · -- the parenthesis of an operand is closed in front of the operator, that of a group is not
      have hle := length_le_behindClosing hleft (.operator op :: pieces right)
      rw [← hinner, behindClosing_pieces] at hle
      exact absurd hle (by simp [behindClosing])
  | nullTest negated operand =>
    -- a null test does not end with a parenthesis
    have hlast := congrArg List.getLast? h
    rw [pieces, pieces, ← List.cons_append, List.getLast?_append, List.getLast?_concat] at hlast
    cases negated <;> exact absurd hlast (by simp [testPieces])
  | not operand => exact absurd h (by simp [pieces])

/-- Whether a piece is no parenthesis. -/
def isPlain : Piece → Bool
  | .openParen | .closeParen => false
  | _ => true

theorem filter_piecesOfList_bare {es : List Phrase}
    (h : ∀ e ∈ es, e.bare.pieces.filter isPlain = e.pieces.filter isPlain) :
    (piecesOfList (bareOfList es)).filter isPlain = (piecesOfList es).filter isPlain ∧
      (piecesBehind (bareOfList es)).filter isPlain = (piecesBehind es).filter isPlain := by
  induction es with
  | nil => exact ⟨rfl, rfl⟩
  | cons first more ih =>
    have hfirst := h first (by simp)
    have hmore := (ih fun e he => h e (by simp [he])).2
    constructor
    · simp [bareOfList, piecesOfList, hfirst, hmore]
    · simp [bareOfList, piecesBehind, List.filter_cons, hfirst, hmore]

/-- Without parentheses, a phrase is spelled by the same pieces up to parentheses. -/
theorem filter_pieces_bare (t : Phrase) :
    t.bare.pieces.filter isPlain = t.pieces.filter isPlain := by
  induction t using Phrase.induction with
  | leaf value => rfl
  | call function arguments ih =>
    simp [bare, pieces, List.filter_cons, (filter_piecesOfList_bare ih).1]
  | group inner ih => simp [bare, pieces, isPlain, ih]
  | binary op left right ihleft ihright =>
    simp [bare, pieces, List.filter_cons, ihleft, ihright]
  | nullTest negated operand ih => simp [bare, pieces, ih]
  | not operand ih => simp [bare, pieces, List.filter_cons, ih]

theorem length_filter_eq_of_bare {s t : Phrase} (h : s.bare = t.bare) :
    (s.pieces.filter isPlain).length = (t.pieces.filter isPlain).length := by
  rw [← filter_pieces_bare, h, filter_pieces_bare]

theorem eq_of_bareOfList {es es' : List Phrase}
    (h : ∀ e ∈ es, ∀ t : Phrase, e.bare = t.bare → e.pieces = t.pieces → e = t)
    (hbare : bareOfList es = bareOfList es') (hpieces : piecesOfList es = piecesOfList es') :
    es = es' := by
  induction es generalizing es' with
  | nil =>
    cases es' with
    | nil => rfl
    | cons _ _ => exact absurd hbare (by simp [bareOfList])
  | cons first rest ih =>
    cases es' with
    | nil => exact absurd hbare (by simp [bareOfList])
    | cons first' rest' =>
      obtain ⟨hfirst, hrest⟩ := List.cons.inj hbare
      have hrestEq : piecesOfList rest = piecesOfList rest' → rest = rest' :=
        ih (fun e he => h e (by simp [he])) hrest
      -- the comma behind the first phrase, if there is one, is the same in both spellings
      cases rest with
      | nil =>
        obtain rfl := hrestEq (by cases rest' <;> simp_all [bareOfList])
        rw [h first (by simp) first' hfirst (by simpa [piecesOfList, piecesBehind] using hpieces)]
      | cons next more =>
        cases rest' with
        | nil => exact absurd hrest (by simp [bareOfList])
        | cons next' more' =>
          have hcomma : isPlain .comma = true := rfl
          obtain ⟨hf, hr⟩ := append_cons_inj_of_filter hcomma hcomma
            (length_filter_eq_of_bare hfirst) hpieces
          rw [h first (by simp) first' hfirst hf, hrestEq hr]

/-- The operators of a phrase and its spelling determine it. -/
theorem eq_of_bare_of_pieces {s t : Phrase} (hbare : s.bare = t.bare)
    (hpieces : s.pieces = t.pieces) : s = t := by
  -- parentheses are all that `hbare` leaves open, and `eq_group_of_pieces` settles those
  induction s using Phrase.induction generalizing t with
  | leaf value =>
    cases t with
    | leaf value' => exact hbare
    | group inner => exact absurd (eq_group_of_pieces hpieces) (by simp)
    | _ => exact absurd hbare (by simp [bare])
  | call function arguments ih =>
    cases t with
    | call function' arguments' =>
      obtain ⟨rfl, harguments⟩ := Phrase.call.inj hbare
      rw [eq_of_bareOfList (fun e he t => ih e he) harguments (by simpa [pieces] using hpieces)]
    | group inner => exact absurd (eq_group_of_pieces hpieces) (by simp)
    | _ => exact absurd hbare (by simp [bare])
  | group inner ih =>
    obtain ⟨inner', rfl⟩ := eq_group_of_pieces hpieces.symm
    have hinner : inner.pieces = inner'.pieces := by simpa [pieces] using hpieces
    rw [ih (show inner.bare = inner'.bare from hbare) hinner]
  | binary op left right ihleft ihright =>
    cases t with
    | binary op' left' right' =>
      obtain ⟨rfl, hleft, hright⟩ := Phrase.binary.inj hbare
      -- the left operands have as many pieces but for parentheses, so they end at the same place
      obtain ⟨hl, hr⟩ := append_cons_inj_of_filter (p := isPlain) rfl rfl
        (length_filter_eq_of_bare hleft) hpieces
      rw [ihleft hleft hl, ihright hright hr]
    | group inner => exact absurd (eq_group_of_pieces hpieces) (by simp)
    | _ => exact absurd hbare (by simp [bare])
  | nullTest negated operand ih =>
    cases t with
    | nullTest negated' operand' =>
      obtain ⟨rfl, hoperand⟩ := Phrase.nullTest.inj hbare
      rw [ih hoperand (List.append_cancel_right hpieces)]
    | group inner => exact absurd (eq_group_of_pieces hpieces) (by simp)
    | _ => exact absurd hbare (by simp [bare])
  | not operand ih =>
    cases t with
    | not operand' =>
      rw [ih (Phrase.not.inj hbare) (List.cons.inj hpieces).2]
    | group inner => exact absurd (eq_group_of_pieces hpieces) (by simp)
    | _ => exact absurd hbare (by simp [bare])

end Phrase

end TypedSql

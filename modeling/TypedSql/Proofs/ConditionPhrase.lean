/-
The phrase of a filter's expression.

The condition that an expression is written as is the spelling of a phrase (`Expr.phrase`): the
operators of the expression, with a null literal on the right of a comparison, without the calls
that ask for a value itself, and with parentheses around comparisons and connectives.

* `scans_lexemes` — the lexemes of an expression in order are scanned as the pieces of its phrase;
* `Filter.scan_sql` — so is the text of an accepted filter.
-/
import TypedSql.Proofs.Accepted
import TypedSql.Proofs.ConditionScanner

namespace TypedSql

open Lexeme (word mark placeholder space)
open Condition

/-! ### Phrases of expressions -/

/-- The operator between the operands of a connective. -/
def Connective.operator : Connective → Operator
  | and => .and
  | or => .or

/-- The column of a property. -/
def RowModel.columnOf (m : RowModel) (property : String) : String :=
  match m.field? property with
  | some f => f.columnName
  | none => property

/-- The operand that a literal is written as. -/
def Literal.leaf : Literal → Leaf
  | null => .constant none
  | bool value => .constant (some value)
  | integer value => .ofNumeral (toString value.toInt).toList
  | number value => .ofNumeral (Number.Style.literal.write Number.binary64 value).toList
  | text value => .text value

namespace Phrase

/-- Phrases joined by an operator, from the left. -/
def joined (op : Operator) : List Phrase → Phrase
  | [] => .leaf (.constant none)
  | first :: rest => rest.foldl (.binary op) first

/-- A comparison. Equality with NULL on the right is a null test. -/
def comparison (op : Comparison) (left right : Phrase) (rightNull : Bool) : Phrase :=
  match op, rightNull with
  | .eq, true => .nullTest false left
  | .ne, true => .nullTest true left
  | op, _ => .binary (.compare op) left right

/-- A match with a pattern that is put together from parts. -/
def matching (subject : Phrase) (pattern : List Phrase) : Phrase :=
  .binary .like subject (.call "CONCAT" pattern)

/-- The pattern that matches any text. -/
def anyText : Phrase :=
  .leaf (.text "%")

end Phrase

/-- The phrase of a method call, from those of its receiver and arguments. -/
def Method.phrase : Method → Phrase → List Phrase → Phrase
  | contains, receiver, [argument] => receiver.matching [.anyText, argument, .anyText]
  | startsWith, receiver, [argument] => receiver.matching [argument, .anyText]
  | endsWith, receiver, [argument] => receiver.matching [.anyText, argument]
  | equals false, receiver, [argument] => .binary (.compare .eq) receiver argument
  | equals true, receiver, [argument] =>
    .binary (.compare .eq) (.call "LOWER" [receiver]) (.call "LOWER" [argument])
  | toUpper, receiver, _ => .call "UPPER" [receiver]
  | toLower, receiver, _ => .call "LOWER" [receiver]
  | hasValue, receiver, _ => .nullTest true receiver
  | _, receiver, _ => receiver

namespace Expr

mutual

/-- The phrase of an expression over a model, with comparisons and connectives wrapped. -/
def phrase (wrap : Phrase → Phrase) (m : RowModel) : Expr → Phrase
  | field property => .leaf (.column (m.columnOf property))
  | param name => .leaf (.placeholder name)
  | literal value => .leaf value.leaf
  | now .localTime => .call "NOW" []
  | now .utc => .call "UTC_TIMESTAMP" []
  | compare op left right =>
    if left.isNull && !right.isNull then
      wrap (.comparison op.converse (phrase wrap m right) (phrase wrap m left) true)
    else wrap (.comparison op (phrase wrap m left) (phrase wrap m right) right.isNull)
  | logical op operands => wrap (.joined op.operator (phraseOfList wrap m operands))
  | not operand => .not (phrase wrap m operand)
  | call method receiver arguments =>
    method.phrase (phrase wrap m receiver) (phraseOfList wrap m arguments)

/-- The phrases of expressions. -/
def phraseOfList (wrap : Phrase → Phrase) (m : RowModel) : List Expr → List Phrase
  | [] => []
  | e :: rest => phrase wrap m e :: phraseOfList wrap m rest

end

@[simp] theorem phraseOfList_eq_map (wrap : Phrase → Phrase) (m : RowModel) (es : List Expr) :
    phraseOfList wrap m es = es.map (phrase wrap m) := by
  induction es with
  | nil => rfl
  | cons e es ih => rw [phraseOfList, ih, List.map_cons]

end Expr

/-! ### Lexemes of expressions -/

theorem columnLexeme_ok {f : Field} {l : Lexeme} :
    f.columnLexeme = .ok l ↔
      NameKind.column.admits f.columnName = true ∧ l = .name f.columnName := by
  rw [Field.columnLexeme, bind_eq_ok]
  constructor
  · rintro ⟨name, hname, h⟩
    obtain ⟨⟨⟩, hcheck, h'⟩ := bind_eq_ok.mp hname
    obtain rfl := pure_eq_ok.mp h'
    exact ⟨checkName_ok.mp hcheck, (pure_eq_ok.mp h).symm⟩
  · rintro ⟨hadmits, rfl⟩
    exact ⟨_, bind_eq_ok.mpr ⟨(), checkName_ok.mpr hadmits, rfl⟩, rfl⟩

/-- A written property is a column of the model, named as columns may be. -/
theorem lexemes_field_ok {m : RowModel} {property : String} {ls : List Lexeme}
    (h : (Expr.field property).lexemes m = .ok ls) :
    ls = [.name (m.columnOf property)] ∧ NameKind.column.admits (m.columnOf property) = true := by
  rw [Expr.lexemes] at h
  obtain ⟨f, hlookup, h₁⟩ := bind_eq_ok.mp h
  obtain ⟨l, hcolumn, h₂⟩ := bind_eq_ok.mp h₁
  obtain rfl := pure_eq_ok.mp h₂
  obtain ⟨hadmits, rfl⟩ := columnLexeme_ok.mp hcolumn
  cases hfield : m.field? property with
  | none =>
    rw [RowModel.lookup, hfield] at hlookup
    exact absurd hlookup (by simp)
  | some f' =>
    rw [RowModel.lookup, hfield] at hlookup
    obtain rfl := Except.ok.inj hlookup
    rw [RowModel.columnOf, hfield]
    exact ⟨rfl, hadmits⟩

/-- The lexemes of a comparison, its operands in the order in which they are written. -/
inductive ComparisonLexemes (op : Comparison) (xs : List Lexeme)
    (ys : Except CompileError (List Lexeme)) (rightNull : Bool) : List Lexeme → Prop
  | nullTest (negated : Bool) (isNull : rightNull = true)
      (equality : op = if negated then .ne else .eq) :
      ComparisonLexemes op xs ys rightNull (xs ++ TypedSql.nullTest negated)
  | binary {right : List Lexeme} (noTest : rightNull = false ∨ op ≠ .eq ∧ op ≠ .ne)
      (second : ys = .ok right) :
      ComparisonLexemes op xs ys rightNull (TypedSql.binary xs (mark op.operator) right)

theorem lexemes_compare_ok {m : RowModel} {op : Comparison} {left right : Expr} {ls : List Lexeme}
    (h : (Expr.compare op left right).lexemes m = .ok ls) :
    ∃ inner, ls = mark "(" :: (inner ++ [mark ")"]) ∧
      if left.isNull && !right.isNull then
        ∃ xs, right.lexemes m = .ok xs ∧
          ComparisonLexemes op.converse xs (left.lexemes m) true inner
      else ∃ xs, left.lexemes m = .ok xs ∧
          ComparisonLexemes op xs (right.lexemes m) right.isNull inner := by
  rw [Expr.lexemes] at h
  -- in both orders the operator decides whether there is a null test, and with which words
  split_ifs at h ⊢ with hswap
  · dsimp only at h
    split at h
    · obtain ⟨xs, hxs, h₁⟩ := bind_eq_ok.mp h
      exact ⟨_, (pure_eq_ok.mp h₁).symm, xs, hxs, .nullTest false rfl rfl⟩
    · obtain ⟨xs, hxs, h₁⟩ := bind_eq_ok.mp h
      exact ⟨_, (pure_eq_ok.mp h₁).symm, xs, hxs, .nullTest true rfl rfl⟩
    · rename_i heq hne
      obtain ⟨xs, hxs, h₁⟩ := bind_eq_ok.mp h
      obtain ⟨ys, hys, h₂⟩ := bind_eq_ok.mp h₁
      refine ⟨_, (pure_eq_ok.mp h₂).symm, xs, hxs, .binary (.inr ?_) hys⟩
      cases op <;> simp_all [Comparison.converse]
  · obtain ⟨xs, hxs, h₁⟩ := bind_eq_ok.mp h
    dsimp only at h₁
    split at h₁
    · rename_i hnull
      exact ⟨_, (pure_eq_ok.mp h₁).symm, xs, hxs, .nullTest false hnull rfl⟩
    · rename_i hnull
      exact ⟨_, (pure_eq_ok.mp h₁).symm, xs, hxs, .nullTest true hnull rfl⟩
    · rename_i heq hne
      obtain ⟨ys, hys, h₂⟩ := bind_eq_ok.mp h₁
      refine ⟨_, (pure_eq_ok.mp h₂).symm, xs, hxs, .binary ?_ hys⟩
      cases hnull : right.isNull with
      | false => exact .inl rfl
      | true => exact .inr ⟨fun h => heq h hnull, fun h => hne h hnull⟩

theorem lexemes_call_ok {m : RowModel} {method : Method} {receiver : Expr} {arguments : List Expr}
    {ls : List Lexeme} (h : (Expr.call method receiver arguments).lexemes m = .ok ls) :
    ∃ subject, receiver.lexemes m = .ok subject ∧
      (arguments = [] ∧ ls = method.lexemes subject [] ∨
        ∃ first rest argument, arguments = first :: rest ∧ first.lexemes m = .ok argument ∧
          ls = method.lexemes subject argument) := by
  rw [Expr.lexemes] at h
  obtain ⟨subject, hsubject, h₁⟩ := bind_eq_ok.mp h
  refine ⟨subject, hsubject, ?_⟩
  cases arguments with
  | nil => exact .inl ⟨rfl, (pure_eq_ok.mp h₁).symm⟩
  | cons first rest =>
    obtain ⟨argument, hargument, h₂⟩ := bind_eq_ok.mp h₁
    exact .inr ⟨first, rest, argument, rfl, hargument, (pure_eq_ok.mp h₂).symm⟩

theorem lexemesOfList_ok {m : RowModel} {es : List Expr} {parts : List (List Lexeme)}
    (h : Expr.lexemesOfList m es = .ok parts) :
    List.Forall₂ (fun e ls => e.lexemes m = .ok ls) es parts := by
  induction es generalizing parts with
  | nil =>
    obtain rfl := Except.ok.inj h
    exact .nil
  | cons e es ih =>
    rw [Expr.lexemesOfList] at h
    obtain ⟨first, hfirst, h₁⟩ := bind_eq_ok.mp h
    obtain ⟨rest, hrest, h₂⟩ := bind_eq_ok.mp h₁
    obtain rfl := pure_eq_ok.mp h₂
    exact .cons hfirst (ih hrest)

/-! ### Scanning -/

theorem Phrase.pieces_foldl (op : Operator) (first : Phrase) (rest : List Phrase) :
    (rest.foldl (.binary op) first).pieces =
      first.pieces ++ (rest.map fun e => .operator op :: e.pieces).flatten := by
  induction rest generalizing first with
  | nil => simp
  | cons next rest ih => simp [ih, pieces]

theorem Phrase.pieces_joined (op : Operator) {es : List Phrase} (h : es ≠ []) :
    (Phrase.joined op es).pieces = ((es.map pieces).intersperse [.operator op]).flatten := by
  obtain ⟨first, rest, rfl⟩ := List.exists_cons_of_ne_nil h
  rw [joined, pieces_foldl]
  induction rest generalizing first with
  | nil => simp
  | cons next rest ih => simp_all

theorem scans_comparison {op : Comparison} {xs inner : List Lexeme}
    {ys : Except CompileError (List Lexeme)} {left right : Phrase} {rightNull : Bool}
    (h : ComparisonLexemes op xs ys rightNull inner) (first : Scans xs left.pieces)
    (second : ∀ {ls}, ys = .ok ls → Scans ls right.pieces) :
    Scans inner (Phrase.comparison op left right rightNull).pieces := by
  cases h with
  | nullTest negated isNull equality =>
    have hphrase : Phrase.comparison op left right rightNull = .nullTest negated left := by
      subst equality isNull
      cases negated <;> rfl
    rw [hphrase, Phrase.pieces]
    exact first.append (.inl rfl) (scans_nullTest negated)
  | binary noTest hys =>
    have hphrase : Phrase.comparison op left right rightNull =
        .binary (.compare op) left right := by
      rw [Phrase.comparison.eq_def]
      split <;> simp_all
    rw [hphrase, Phrase.pieces]
    exact first.binary (scans_operator op) (second hys)

section Methods

variable {method : Method} {receiver argument : List Lexeme} {r a : Phrase}

theorem scans_matching {parts : List (List Lexeme)} {es : List Phrase}
    (subject : Scans receiver r.pieces)
    (pattern : List.Forall₂ (fun ls e => Scans ls e.pieces) parts es) :
    Scans (binary receiver (word "LIKE") (sqlCall "CONCAT" parts)) (r.matching es).pieces := by
  have hlike : Scans [word "LIKE"] [.operator .like] := scans_word rfl
  exact subject.binary hlike (scans_call rfl rfl pattern)

/-- A call of a function with one argument. -/
theorem scans_call_one {function : String} (hword : isWord function = true)
    (hfunction : Piece.ofWord function.toList = .function function)
    (inner : Scans receiver r.pieces) :
    Scans (sqlCall function [receiver]) (Phrase.call function [r]).pieces :=
  scans_call hword hfunction (.cons inner .nil)

theorem scans_method_none (arity : method.arity = 0) (subject : Scans receiver r.pieces) :
    Scans (method.lexemes receiver argument) (method.phrase r []).pieces := by
  cases method with
  | toUpper => exact scans_call_one rfl rfl subject
  | toLower => exact scans_call_one rfl rfl subject
  | hasValue => exact subject.append (.inl rfl) (scans_nullTest true)
  | value => exact subject
  | _ => exact absurd arity (by simp [Method.arity])

theorem scans_method_one (arity : method.arity = 1) (subject : Scans receiver r.pieces)
    (inner : Scans argument a.pieces) :
    Scans (method.lexemes receiver argument) (method.phrase r [a]).pieces := by
  have hany : Scans [Lexeme.anyText] Phrase.anyText.pieces := scans_anyText
  cases method with
  | contains => exact scans_matching subject (.cons hany (.cons inner (.cons hany .nil)))
  | startsWith => exact scans_matching subject (.cons inner (.cons hany .nil))
  | endsWith => exact scans_matching subject (.cons hany (.cons inner .nil))
  | equals ignoreCase =>
    cases ignoreCase with
    | false => exact subject.binary (scans_operator .eq) inner
    | true =>
      exact (scans_call_one rfl rfl subject).binary (scans_operator .eq)
        (scans_call_one rfl rfl inner)
  | _ => exact absurd arity (by simp [Method.arity])

end Methods

theorem scans_literal {value : Literal} {ls : List Lexeme} (h : value.lexemes = .ok ls) :
    Scans ls value.leaf.pieces := by
  cases value with
  | null =>
    obtain rfl := Except.ok.inj h
    exact scans_word rfl
  | bool value =>
    obtain rfl := Except.ok.inj h
    cases value with
    | false => exact scans_word rfl
    | true => exact scans_word rfl
  | integer value =>
    obtain rfl := Except.ok.inj h
    exact scans_numeral rfl (Number.signed_toString _)
  | number value =>
    rw [Literal.lexemes] at h
    split_ifs at h with hfinite
    obtain rfl := Except.ok.inj h
    exact scans_numeral rfl (Number.signed_write _ _ hfinite)
  | text value => exact absurd h (by simp [Literal.lexemes])

theorem scans_connective (op : Connective) {parts : List (List Lexeme)} {es : List Phrase}
    (h : List.Forall₂ (fun ls e => Scans ls e.pieces) parts es) :
    Scans (Lexeme.joined [space, word op.keyword, space] parts)
      ((es.map Phrase.pieces).intersperse [.operator op.operator]).flatten := by
  have hword : Scans [word op.keyword] [.operator op.operator] := by
    cases op with
    | and =>
      have hand : Scans [word "AND"] [.operator .and] := scans_word rfl
      exact hand
    | or =>
      have hor : Scans [word "OR"] [.operator .or] := scans_word rfl
      exact hor
  have hseparator : ∀ {ls ps}, Scans ls ps →
      Scans (space :: ([word op.keyword, space] ++ ls)) (.operator op.operator :: ps) :=
    fun h => (hword.append (.inl rfl) h.space_cons).space_cons
  exact scans_joined (.inl rfl) hseparator (List.forall₂_map_right_iff.mpr h)

/-- What holds of each operand holds of the operands in order. -/
theorem scans_operands {m : RowModel} {es : List Expr} {parts : List (List Lexeme)}
    (ih : ∀ e ∈ es, ∀ {ls}, e.lexemes m = .ok ls → Scans ls (e.phrase .group m).pieces)
    (h : Expr.lexemesOfList m es = .ok parts) :
    List.Forall₂ (fun ls e => Scans ls e.pieces) parts (es.map (Expr.phrase .group m)) := by
  rw [List.forall₂_map_right_iff]
  have hboth := (List.forall₂_and_left _ _).mpr ⟨fun e he ls => @ih e he ls, lexemesOfList_ok h⟩
  exact (hboth.imp fun e ls hscans => hscans.1 ls hscans.2).flip

/-- The lexemes of an expression in order are scanned as the pieces of its phrase. -/
theorem scans_lexemes {m : RowModel} {declared : List String}
    (hdeclared : ∀ name ∈ declared, isParameterName name = true) {e : Expr}
    (he : e.Sound declared) {ls : List Lexeme} (h : e.lexemes m = .ok ls) :
    Scans ls (e.phrase .group m).pieces := by
  induction he generalizing ls with
  | field property =>
    obtain ⟨rfl, hadmits⟩ := lexemes_field_ok h
    exact scans_name (isIdentifierChar_of_admits (by decide) hadmits)
  | param known =>
    obtain rfl := Except.ok.inj h
    exact scans_placeholder (isIdentifierChar_of_isParameterName (hdeclared _ known))
  | literal _ => exact scans_literal h
  | now clock =>
    cases clock with
    | localTime =>
      obtain rfl := Except.ok.inj h
      exact scans_call rfl rfl .nil
    | utc =>
      obtain rfl := Except.ok.inj h
      exact scans_call rfl rfl .nil
  | compare _ _ ihleft ihright =>
    obtain ⟨inner, rfl, hinner⟩ := lexemes_compare_ok h
    rw [Expr.phrase]
    split_ifs at hinner ⊢
    · obtain ⟨xs, hxs, hcomparison⟩ := hinner
      exact (scans_comparison hcomparison (ihright hxs) ihleft).parenthesized
    · obtain ⟨xs, hxs, hcomparison⟩ := hinner
      exact (scans_comparison hcomparison (ihleft hxs) ihright).parenthesized
  | logical some _ ih =>
    rename_i op operands _
    rw [Expr.lexemes] at h
    obtain ⟨parts, hparts, h₁⟩ := bind_eq_ok.mp h
    obtain rfl := pure_eq_ok.mp h₁
    rw [Expr.phrase, Expr.phraseOfList_eq_map, Phrase.pieces, Phrase.pieces_joined _ (by simpa)]
    exact (scans_connective op (scans_operands ih hparts)).parenthesized
  | not _ ih =>
    rw [Expr.lexemes] at h
    obtain ⟨inner, hinner, h₁⟩ := bind_eq_ok.mp h
    obtain rfl := pure_eq_ok.mp h₁
    have hnot : Scans [word "NOT"] [.not] := scans_word rfl
    exact hnot.append (.inl rfl) (ih hinner).space_cons
  | call arity _ _ ih iharguments =>
    rename_i method _ _ _ _
    obtain ⟨subject, hsubject, ⟨rfl, rfl⟩ | ⟨first, rest, argument, rfl, hargument, rfl⟩⟩ :=
      lexemes_call_ok h
    · exact scans_method_none arity.symm (ih hsubject)
    · obtain rfl := Method.rest_eq_nil arity
      exact scans_method_one arity.symm (ih hsubject) (iharguments first (by simp) hargument)

/-- The text of an accepted filter is scanned as the pieces of its phrase. -/
theorem Filter.Accepted.scan_sql {f : Filter} (hf : f.Accepted) {m : RowModel} {text : String}
    (h : f.sql m = .ok text) : scan text.toList = some (f.expr.phrase .group m).pieces := by
  obtain ⟨ls, hls, h₁⟩ := bind_eq_ok.mp h
  obtain rfl := pure_eq_ok.mp h₁
  have hscan := (scans_lexemes hf.isParameterName hf.sound hls [] ends_nil).scan
  rw [List.append_nil] at hscan
  rw [hscan, scan.eq_1]
  simp

end TypedSql

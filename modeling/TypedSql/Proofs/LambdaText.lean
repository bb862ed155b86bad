/-
The text of an expression, and that it is read as this expression.

An expression is written with parentheses around its operands and receivers, at least where the
grammar asks for them (`Style`); the fully parenthesized text has them around all but single names
and numbers (`Style.full`).

* `Writable` — the expressions that have a text;
* `derived_of_writable` — the tokens of an expression derive it, at as many levels as they open
  (`levels`), by induction on the expression;
* `neat_tokens` — they have spellings, and may stand next to each other;
* `parse_of_spaced`, `parse_tokens` — so its text, with any white space between the tokens, is read
  as the expression.
-/
import TypedSql.Proofs.Accepted
import TypedSql.Proofs.LambdaGrammar
import TypedSql.Proofs.TokenText

namespace TypedSql

namespace Lambda

/-! ### Styles -/

/-- Where an expression stands: on its own in parentheses or in the text, as the operand of a
comparison, a connective or a negation, or in front of a member. -/
inductive Place where
  | whole
  | operand
  | receiver
  deriving DecidableEq, Repr

/-- Whether an expression stands at a place in parentheses only. Members would belong to the operand
of a negation, and a negative number has none. -/
def Place.needs : Place → Expr → Bool
  | operand, .compare .. | operand, .logical .. => true
  | receiver, .compare .. | receiver, .logical .. | receiver, .not _ => true
  | receiver, .literal (.integer i) => i < 0
  | _, _ => false

/-- Which expressions are put in parentheses, and where: at least those that must be. -/
structure Style where
  encloses : Place → Expr → Bool
  enough : ∀ place e, place.needs e = true → encloses place e = true

/-- Parentheses around every operand and receiver but single names and numbers. -/
def Style.full : Style where
  encloses
    | .whole, _ => false
    | _, .compare .. | _, .logical .. | _, .not _ | _, .call .. => true
    | .receiver, .literal (.integer i) => i < 0
    | _, _ => false
  enough place e h := by
    unfold Place.needs at h
    split at h <;> simp_all

/-- What is not enclosed at a place needs no parentheses there. -/
theorem Style.bare (style : Style) {place : Place} {e : Expr} (h : ¬style.encloses place e = true) :
    place.needs e = false := by
  by_contra hneeds
  exact h (style.enough place e (by simpa using hneeds))

/-- The tokens of an expression at a place. -/
def Style.around (style : Style) (place : Place) (e : Expr) (ts : List Token) : List Token :=
  if style.encloses place e then .openParen :: (ts ++ [.closeParen]) else ts

/-- The number of levels that the parentheses around an expression open. -/
def Style.opens (style : Style) (place : Place) (e : Expr) : Nat :=
  if style.encloses place e then 1 else 0

/-! ### Tokens -/

/-- The tokens of a literal. Numbers with fractions and texts have none. -/
def literalTokens : Literal → List Token
  | .null => [.word "null"]
  | .bool value => [.word (if value then "true" else "false")]
  | .integer i => if i < 0 then [.minus, .integer i.toInt.natAbs] else [.integer i.toInt.natAbs]
  | .number _ | .text _ => []

/-- The tokens of a clock. -/
def clockTokens : Clock → List Token
  | .localTime => [.word "DateTime", .dot, .word "Now"]
  | .utc => [.word "DateTime", .dot, .word "UtcNow"]

/-- The token between the operands of a connective. -/
def connectiveToken : Connective → Token
  | .and => .and
  | .or => .or

/-- The name of a member. -/
def memberName : Method → String
  | .contains => "Contains"
  | .startsWith => "StartsWith"
  | .endsWith => "EndsWith"
  | .equals _ => "Equals"
  | .toUpper => "ToUpper"
  | .toLower => "ToLower"
  | .hasValue => "HasValue"
  | .value => "Value"

/-- The tokens behind the argument of a method. -/
def comparerTokens : Method → List Token
  | .equals true => [.comma, .word "StringComparison", .dot, .word "OrdinalIgnoreCase"]
  | _ => []

/-- The tokens of a member, from those of its argument. Properties have no parentheses. -/
def memberTokens (method : Method) (argument : List Token) : List Token :=
  match method with
  | .hasValue | .value => [.dot, .word (memberName method)]
  | _ => .dot :: .word (memberName method) :: .openParen ::
      (argument ++ comparerTokens method ++ [.closeParen])

mutual

/-- The tokens of an expression over the rows of a name. -/
def tokens (style : Style) (row : String) : Expr → List Token
  | .field property => [.word row, .dot, .word property]
  | .param name => [.word name]
  | .literal value => literalTokens value
  | .now clock => clockTokens clock
  | .compare op left right =>
    style.around .operand left (tokens style row left) ++
      .comparison op :: style.around .operand right (tokens style row right)
  | .logical op operands =>
    [connectiveToken op].intercalate (tokensOfList style row .operand operands)
  | .not operand => .bang :: style.around .operand operand (tokens style row operand)
  | .call method receiver arguments =>
    style.around .receiver receiver (tokens style row receiver) ++
      memberTokens method (tokensOfList style row .whole arguments).flatten

/-- The tokens of expressions at a place. -/
def tokensOfList (style : Style) (row : String) (place : Place) : List Expr → List (List Token)
  | [] => []
  | e :: rest => style.around place e (tokens style row e) :: tokensOfList style row place rest

end

mutual

/-- The number of levels that the tokens of an expression open: each negation, each pair of
parentheses and each argument opens one. -/
def levels (style : Style) : Expr → Nat
  | .field _ | .param _ | .literal _ | .now _ => 0
  | .compare _ left right =>
    max (levels style left + style.opens .operand left)
      (levels style right + style.opens .operand right)
  | .logical _ operands => levelsOfList style .operand operands
  | .not operand => levels style operand + style.opens .operand operand + 1
  | .call _ receiver arguments =>
    max (levels style receiver + style.opens .receiver receiver)
      (if arguments.isEmpty then 0 else levelsOfList style .whole arguments + 1)

/-- The greatest number of levels that expressions at a place open. -/
def levelsOfList (style : Style) (place : Place) : List Expr → Nat
  | [] => 0
  | e :: rest => max (levels style e + style.opens place e) (levelsOfList style place rest)

end

@[simp] theorem tokensOfList_eq_map (style : Style) (row : String) (place : Place)
    (es : List Expr) : tokensOfList style row place es =
      es.map fun e => style.around place e (tokens style row e) := by
  induction es with
  | nil => rfl
  | cons e es ih => rw [tokensOfList, ih, List.map_cons]

theorem levelsOfList_le {style : Style} {place : Place} {es : List Expr} {n : Nat} :
    levelsOfList style place es ≤ n ↔ ∀ e ∈ es, levels style e + style.opens place e ≤ n := by
  induction es with
  | nil => simp [levelsOfList]
  | cons e es ih => rw [levelsOfList, Nat.max_le, ih, List.forall_mem_cons]

/-! ### Expressions with a text -/

/-- The expressions that have a text: names are names, parameters are declared and not taken for
something else, whole numbers have an absolute value that can be read, connectives have two operands
or more and calls as many arguments as the method takes. -/
inductive Writable (params : List String) : Expr → Prop
  | field {property : String} (named : Token.isName property = true) :
      Writable params (.field property)
  | param {name : String} (declared : name ∈ params) (named : Token.isName name = true)
      (free : name ∉ lambdaWords) : Writable params (.param name)
  | null : Writable params (.literal .null)
  | bool (value : Bool) : Writable params (.literal (.bool value))
  | integer {i : Int64} (bound : -(2 ^ 63 - 1) ≤ i.toInt) : Writable params (.literal (.integer i))
  | now (clock : Clock) : Writable params (.now clock)
  | compare (op : Comparison) {left right : Expr} (first : Writable params left)
      (second : Writable params right) : Writable params (.compare op left right)
  | logical (op : Connective) {operands : List Expr} (some : 2 ≤ operands.length)
      (each : ∀ e ∈ operands, Writable params e) : Writable params (.logical op operands)
  | not {operand : Expr} (inner : Writable params operand) : Writable params (.not operand)
  | call {method : Method} {receiver : Expr} {arguments : List Expr}
      (arity : arguments.length = method.arity) (subject : Writable params receiver)
      (each : ∀ e ∈ arguments, Writable params e) :
      Writable params (.call method receiver arguments)

/-! ### Tokens in the grammar -/

section Grammar

variable {row : String} {params : List String} {style : Style} {ts ts' : List Token} {e e' : Expr}
  {n : Nat}

/-- What parentheses hold when a number of levels can still be opened in them. -/
abbrev Body (row : String) (params : List String) : Grammar :=
  Joined .or orMarks (Joined .and andMarks (Compared (Unary row params)))

/-- An operand without a sign, and its members. -/
def MemberChain (row : String) (params : List String) : Grammar := fun ts e n =>
  ∃ first members e', ts = first ++ members ∧
    Primary row params (Expression row params) first e' n ∧
    Members (Expression row params) e' members e n

theorem body_of_compared (h : Compared (Unary row params) ts e n) : Body row params ts e n :=
  .intro (.one (.intro (.one h)))

theorem body_of_unary (h : Unary row params ts e n) : Body row params ts e n :=
  body_of_compared (.one h)

theorem memberChain_of_primary (h : Primary row params (Expression row params) ts e n) :
    MemberChain row params ts e n :=
  ⟨ts, [], e, (List.append_nil ts).symm, h, .nil e⟩

theorem unary_of_memberChain (h : MemberChain row params ts e n) : Unary row params ts e n := by
  obtain ⟨first, members, e', rfl, hfirst, hmembers⟩ := h
  exact .member hfirst hmembers

/-- Parentheses open a level, and what they hold is an operand without a sign. -/
theorem memberChain_parenthesized (h : Body row params ts e n) :
    MemberChain row params (.openParen :: (ts ++ [.closeParen])) e (n + 1) :=
  memberChain_of_primary (.parenthesized (.opened h))

theorem Members.append {G : Grammar} {e'' : Expr} (h : Members G e ts e' n)
    (h' : Members G e' ts' e'' n) : Members G e (ts ++ ts') e'' n := by
  induction h with
  | nil => exact h'
  | property known rest ih => exact .property known (ih h')
  | @method e e₁ name method method' inside ts arguments n known found rest ih =>
    simp only [List.cons_append, List.append_assoc]
    exact .method known found (ih h')

theorem MemberChain.members (h : MemberChain row params ts e n)
    (h' : Members (Expression row params) e ts' e' n) : MemberChain row params (ts ++ ts') e' n := by
  obtain ⟨first, members, e₀, rfl, hfirst, hmembers⟩ := h
  exact ⟨first, members ++ ts', e₀, List.append_assoc _ _ _, hfirst, hmembers.append h'⟩

/-- The tokens of an expression derive it, when as many levels can still be opened as they open: in
parentheses, and where no parentheses are needed as an operand and as a receiver. -/
structure Derived (row : String) (params : List String) (style : Style) (e : Expr) : Prop where
  whole {n : Nat} (enough : levels style e ≤ n) : Body row params (tokens style row e) e n
  operand {n : Nat} (bare : Place.operand.needs e = false) (enough : levels style e ≤ n) :
    Unary row params (tokens style row e) e n
  receiver {n : Nat} (bare : Place.receiver.needs e = false) (enough : levels style e ≤ n) :
    MemberChain row params (tokens style row e) e n

namespace Derived

theorem of_memberChain
    (h : ∀ {n}, levels style e ≤ n → MemberChain row params (tokens style row e) e n) :
    Derived row params style e where
  whole enough := body_of_unary (unary_of_memberChain (h enough))
  operand _ enough := unary_of_memberChain (h enough)
  receiver _ := h

theorem of_unary (receives : Place.receiver.needs e = true)
    (h : ∀ {n}, levels style e ≤ n → Unary row params (tokens style row e) e n) :
    Derived row params style e where
  whole enough := body_of_unary (h enough)
  operand _ := h
  receiver bare := absurd (receives.symm.trans bare) (by simp)

theorem of_body (operates : Place.operand.needs e = true) (receives : Place.receiver.needs e = true)
    (h : ∀ {n}, levels style e ≤ n → Body row params (tokens style row e) e n) :
    Derived row params style e where
  whole := h
  operand bare := absurd (operates.symm.trans bare) (by simp)
  receiver bare := absurd (receives.symm.trans bare) (by simp)

/-- In parentheses, an expression opens one level more. -/
theorem parenthesized (h : Derived row params style e) (enough : levels style e + 1 ≤ n) :
    MemberChain row params (.openParen :: (tokens style row e ++ [.closeParen])) e n := by
  obtain ⟨m, rfl⟩ := Nat.exists_eq_add_of_le' (Nat.le_trans (Nat.le_add_left 1 _) enough)
  exact memberChain_parenthesized (h.whole (Nat.le_of_succ_le_succ enough))

theorem around_operand (h : Derived row params style e)
    (enough : levels style e + style.opens .operand e ≤ n) :
    Unary row params (style.around .operand e (tokens style row e)) e n := by
  rw [Style.opens] at enough
  rw [Style.around]
  split_ifs at enough ⊢ with hencloses
  · exact unary_of_memberChain (h.parenthesized enough)
  · exact h.operand (style.bare hencloses) enough

theorem around_receiver (h : Derived row params style e)
    (enough : levels style e + style.opens .receiver e ≤ n) :
    MemberChain row params (style.around .receiver e (tokens style row e)) e n := by
  rw [Style.opens] at enough
  rw [Style.around]
  split_ifs at enough ⊢ with hencloses
  · exact h.parenthesized enough
  · exact h.receiver (style.bare hencloses) enough

/-- An argument opens a level, with or without parentheses of its own. -/
theorem around_whole (h : Derived row params style e)
    (enough : levels style e + style.opens .whole e + 1 ≤ n) :
    Expression row params (style.around .whole e (tokens style row e)) e n := by
  obtain ⟨m, rfl⟩ := Nat.exists_eq_add_of_le' (Nat.le_trans (Nat.le_add_left 1 _) enough)
  replace enough := Nat.le_of_succ_le_succ enough
  rw [Style.opens] at enough
  rw [Style.around]
  split_ifs at enough ⊢ with hencloses
  · exact .opened (body_of_unary (unary_of_memberChain (h.parenthesized enough)))
  · exact .opened (h.whole enough)

end Derived

/-- The member of a method without arguments. -/
theorem member_none {G : Grammar} {method : Method} (arity : method.arity = 0) :
    Members G e (memberTokens method []) (.call method e []) n := by
  cases method with
  | toUpper => exact .method rfl (.none _) (.nil _)
  | toLower => exact .method rfl (.none _) (.nil _)
  | hasValue => exact .property rfl (.nil _)
  | value => exact .property rfl (.nil _)
  | _ => exact absurd arity (by simp [Method.arity])

/-- The member of a method with an argument, and with a comparer behind it where case is ignored. -/
theorem member_one {G : Grammar} {method : Method} (arity : method.arity = 1) (h : G ts e' n) :
    Members G e (memberTokens method ts) (.call method e [e']) n := by
  have hplain {name : String} (known : method? name = some method) :
      Members G e (.dot :: .word name :: .openParen :: (ts ++ [] ++ [.closeParen]))
        (.call method e [e']) n := by
    rw [List.append_nil]
    exact .method known (.one method h) (.nil _)
  cases method with
  | contains => exact hplain rfl
  | startsWith => exact hplain rfl
  | endsWith => exact hplain rfl
  | equals ignoreCase =>
    cases ignoreCase with
    | false => exact hplain rfl
    | true =>
      exact .method rfl (.compared false h (.intro "OrdinalIgnoreCase" (.inl rfl))) (.nil _)
  | _ => exact absurd arity (by simp [Method.arity])

/-- A whole number is that of its sign and its absolute value. -/
theorem ofNat_natAbs {i : Int64} :
    (if i < 0 then -Int64.ofNat i.toInt.natAbs else Int64.ofNat i.toInt.natAbs) = i := by
  have hsign : i < 0 ↔ i.toInt < 0 := Int64.lt_iff_toInt_lt
  rw [← Int64.ofInt_eq_ofNat, Int64.neg_ofInt]
  split_ifs with hneg
  · have habs : -(i.toInt.natAbs : Int) = i.toInt := by
      have := hsign.mp hneg
      omega
    rw [habs, Int64.ofInt_toInt]
  · have habs : (i.toInt.natAbs : Int) = i.toInt := by
      have := mt hsign.mpr hneg
      omega
    rw [habs, Int64.ofInt_toInt]

theorem derived_integer (i : Int64) : Derived row params style (.literal (.integer i)) := by
  have hvalue := ofNat_natAbs (i := i)
  by_cases hneg : i < 0
  · refine .of_unary (by simpa [Place.needs] using hneg) fun {n} _ => ?_
    have hunary : Unary row params [.minus, .integer i.toInt.natAbs]
      (.literal (.integer (-Int64.ofNat i.toInt.natAbs))) n := .negativeInteger _
    rw [if_pos hneg] at hvalue
    rw [hvalue] at hunary
    rwa [tokens, literalTokens, if_pos hneg]
  · refine .of_memberChain fun {n} _ => memberChain_of_primary ?_
    have hprimary : Primary row params (Expression row params) [.integer i.toInt.natAbs]
      (.literal (.integer (Int64.ofNat i.toInt.natAbs))) n := .integer _
    rw [if_neg hneg] at hvalue
    rw [hvalue] at hprimary
    rwa [tokens, literalTokens, if_neg hneg]

/-- Operands between marks. -/
theorem chain_operands {Item : Grammar} {marks : List Token} {mark : Token} (hmark : mark ∈ marks)
    (hitem : ∀ {ts e}, Unary row params ts e n → Item ts e n) {es : List Expr} (some : es ≠ [])
    (each : ∀ e ∈ es, Derived row params style e ∧ levels style e + style.opens .operand e ≤ n) :
    Chain marks Item ([mark].intercalate
      (es.map fun e => style.around .operand e (tokens style row e))) es n := by
  induction es with
  | nil => exact absurd rfl some
  | cons e es ih =>
    obtain ⟨⟨hderived, enough⟩, hrest⟩ := List.forall_mem_cons.mp each
    have hfirst := hitem (hderived.around_operand enough)
    cases es with
    | nil => simpa using Chain.one hfirst
    | cons e' es =>
      have hchain := Chain.more hfirst hmark (ih (List.cons_ne_nil e' es) hrest)
      rw [List.map_cons, List.map_cons, List.intercalate_cons_cons, List.append_assoc,
        List.singleton_append]
      exact hchain

theorem collapse_of_two_le {op : Connective} {es : List Expr} (h : 2 ≤ es.length) :
    collapse op es = .logical op es := by
  rw [collapse.eq_def]
  split
  · exact absurd h (by simp)
  · rfl

theorem derived_logical {op : Connective} {operands : List Expr} (some : 2 ≤ operands.length)
    (each : ∀ e ∈ operands, Derived row params style e) :
    Derived row params style (.logical op operands) := by
  refine .of_body rfl rfl fun {n} enough => ?_
  -- a single operand would stand for itself
  rw [levels, levelsOfList_le] at enough
  have hsome : operands ≠ [] := List.ne_nil_of_length_pos (by omega)
  have hboth := fun e he => And.intro (each e he) (enough e he)
  rw [tokens, tokensOfList_eq_map, ← collapse_of_two_le some]
  cases op with
  | and =>
    have hchain : Chain andMarks (Compared (Unary row params)) ([.and].intercalate
        (operands.map fun e => style.around .operand e (tokens style row e))) operands n :=
      chain_operands (by simp [andMarks]) .one hsome hboth
    exact .intro (.one (.intro hchain))
  | or =>
    have hchain : Chain orMarks (Joined .and andMarks (Compared (Unary row params)))
        ([.or].intercalate (operands.map fun e => style.around .operand e (tokens style row e)))
        operands n :=
      chain_operands (by simp [orMarks]) (fun h => .intro (.one (.one h))) hsome hboth
    exact .intro hchain

theorem fixedWords_subset : fixedWords ⊆ lambdaWords := by
  decide

/-- The tokens of an expression derive it. -/
theorem derived_of_writable (hfree : row ∉ fixedWords) (hparams : row ∉ params)
    (h : Writable params e) : Derived row params style e := by
  induction h with
  | field named =>
    exact .of_memberChain fun _ => memberChain_of_primary (.named (.field _ hfree))
  | @param name declared named free =>
    refine .of_memberChain fun _ => memberChain_of_primary (.named (.param declared ?_ ?_))
    · rintro rfl
      exact hparams declared
    · exact fun hword => free (fixedWords_subset hword)
  | null => exact .of_memberChain fun _ => memberChain_of_primary (.named .null)
  | bool value =>
    cases value with
    | false => exact .of_memberChain fun _ => memberChain_of_primary (.named .false)
    | true => exact .of_memberChain fun _ => memberChain_of_primary (.named .true)
  | integer bound => exact derived_integer _
  | now clock =>
    cases clock with
    | localTime => exact .of_memberChain fun _ => memberChain_of_primary (.named (.now (.inl rfl)))
    | utc => exact .of_memberChain fun _ => memberChain_of_primary (.named (.utcNow (.inl rfl)))
  | compare op first second ihfirst ihsecond =>
    refine .of_body rfl rfl fun enough => ?_
    rw [levels, Nat.max_le] at enough
    exact body_of_compared
      (.two (ihfirst.around_operand enough.1) (ihsecond.around_operand enough.2))
  | logical op some each ih => exact derived_logical some ih
  | not inner ih =>
    -- the sign opens a level, in front of those of its operand
    refine .of_unary rfl fun {n} enough => ?_
    rw [levels] at enough
    obtain ⟨m, rfl⟩ := Nat.exists_eq_add_of_le' (Nat.le_trans (Nat.le_add_left 1 _) enough)
    exact .not (ih.around_operand (Nat.le_of_succ_le_succ enough))
  | @call method receiver arguments arity subject each ihsubject iharguments =>
    refine .of_memberChain fun {n} enough => ?_
    rw [levels, Nat.max_le] at enough
    refine (ihsubject.around_receiver enough.1).members ?_
    cases arguments with
    | nil => exact member_none arity.symm
    | cons first rest =>
      obtain rfl := Method.rest_eq_nil arity
      have enoughArgument : levels style first + style.opens .whole first + 1 ≤ n := by
        have := enough.2
        simpa [levelsOfList] using this
      have hargument := (iharguments first List.mem_cons_self).around_whole enoughArgument
      rw [tokensOfList, tokensOfList, List.flatten_singleton]
      exact member_one arity.symm hargument

end Grammar

/-! ### Tokens next to each other -/

/-- Whether an expression can begin with a token. -/
def beginsExpr : Token → Bool
  | .word _ | .integer _ | .minus | .bang | .openParen => true
  | _ => false

/-- Whether an expression can end with a token. -/
def endsExpr : Token → Bool
  | .word _ | .integer _ | .closeParen => true
  | _ => false

/-- Whether a token is a symbol other than the point. -/
def isMark : Token → Bool
  | .word _ | .integer _ | .number _ | .dot => false
  | _ => true

theorem mayPrecede_mark {t mark : Token} (h : endsExpr t = true) (hmark : isMark mark = true) :
    t.mayPrecede mark = true := by
  cases t <;> cases mark <;> simp_all [endsExpr, isMark, Token.mayPrecede]

theorem mark_mayPrecede {mark t : Token} (hmark : isMark mark = true) (h : beginsExpr t = true) :
    mark.mayPrecede t = true := by
  cases mark <;> cases t <;> simp_all [beginsExpr, isMark, Token.mayPrecede]

theorem exists_spells_mark {mark : Token} (h : isMark mark = true) :
    ∃ spelling, Token.Spells mark spelling := by
  have hmem : mark ∈ Token.symbols.map Prod.snd := by
    cases mark with
    | comparison op => cases op <;> decide
    | word _ | integer _ | number _ | dot => exact absurd h (by simp [isMark])
    | _ => decide
  obtain ⟨⟨spelling, t⟩, hsymbol, rfl⟩ := List.mem_map.mp hmem
  exact ⟨spelling, .symbol hsymbol⟩

/-- Tokens with spellings, each of which may precede the next one, between ends as expressions have
them. -/
structure Neat (ts : List Token) : Prop where
  some : ts ≠ []
  chain : ts.IsChain (Token.mayPrecede · ·)
  spelled : ∀ t ∈ ts, ∃ spelling, Token.Spells t spelling
  first : ∀ t ∈ ts.head?, beginsExpr t = true
  last : ∀ t ∈ ts.getLast?, endsExpr t = true

namespace Neat

variable {ts ts' : List Token} {mark : Token}

/-- Tokens behind an expression, the first of which is a mark or a point. -/
theorem append (h : Neat ts) (some : ts' ≠ []) (chain : ts'.IsChain (Token.mayPrecede · ·))
    (spelled : ∀ t ∈ ts', ∃ spelling, Token.Spells t spelling)
    (first : ∀ t ∈ ts'.head?, isMark t = true ∨ t = .dot)
    (last : ∀ t ∈ ts'.getLast?, endsExpr t = true) : Neat (ts ++ ts') where
  some := List.append_ne_nil_of_left_ne_nil h.some ts'
  chain := by
    refine List.isChain_append.mpr ⟨h.chain, chain, fun t ht t' ht' => ?_⟩
    obtain hmark | rfl := first t' ht'
    · exact mayPrecede_mark (h.last t ht) hmark
    · have hends := h.last t ht
      cases t <;> simp_all [endsExpr, Token.mayPrecede]
  spelled := List.forall_mem_append.mpr ⟨h.spelled, spelled⟩
  first t ht := h.first t (by rwa [List.head?_append_of_ne_nil _ h.some] at ht)
  last t ht := last t (by rwa [List.getLast?_append_of_ne_nil _ some] at ht)

section Mark

variable (h : Neat ts) (hmark : isMark mark = true)
include h hmark

theorem chain_cons : (mark :: ts).IsChain (Token.mayPrecede · ·) :=
  List.isChain_cons.mpr ⟨fun t ht => mark_mayPrecede hmark (h.first t ht), h.chain⟩

theorem spelled_cons : ∀ t ∈ mark :: ts, ∃ spelling, Token.Spells t spelling :=
  List.forall_mem_cons.mpr ⟨exists_spells_mark hmark, h.spelled⟩

omit hmark in
theorem last_cons : ∀ t ∈ (mark :: ts).getLast?, endsExpr t = true := by
  rw [← List.singleton_append, List.getLast?_append_of_ne_nil _ h.some]
  exact h.last

/-- A mark in front of an expression. -/
theorem cons (begins : beginsExpr mark = true) : Neat (mark :: ts) where
  some := List.cons_ne_nil mark ts
  chain := h.chain_cons hmark
  spelled := h.spelled_cons hmark
  first t ht := by
    obtain rfl : mark = t := by simpa using ht
    exact begins
  last := h.last_cons

end Mark

/-- A mark between two expressions. -/
theorem between (h : Neat ts) (h' : Neat ts') (hmark : isMark mark = true) :
    Neat (ts ++ mark :: ts') := by
  refine h.append (List.cons_ne_nil mark ts') (h'.chain_cons hmark) (h'.spelled_cons hmark)
    (fun t ht => ?_) h'.last_cons
  obtain rfl : mark = t := by simpa using ht
  exact .inl hmark

/-- A single token that an expression can begin and end with. -/
theorem single {t : Token} (spelled : ∃ spelling, Token.Spells t spelling)
    (begins : beginsExpr t = true) (ends : endsExpr t = true) : Neat [t] where
  some := List.cons_ne_nil t []
  chain := List.isChain_singleton t
  spelled := List.forall_mem_singleton.mpr spelled
  first t' ht' := by
    obtain rfl : t = t' := by simpa using ht'
    exact begins
  last t' ht' := by
    obtain rfl : t = t' := by simpa using ht'
    exact ends

theorem word {name : String} (named : Token.isName name = true) : Neat [.word name] :=
  .single ⟨_, .word named⟩ rfl rfl

theorem integer {n : Nat} (bound : n < Token.integerBound) : Neat [.integer n] :=
  .single ⟨_, Token.spells_toDigits bound⟩ rfl rfl

/-- A point and a name behind an expression. -/
theorem point (h : Neat ts) {name : String} (named : Token.isName name = true) :
    Neat (ts ++ [.dot, .word name]) := by
  refine h.append (by simp) (by simp [Token.mayPrecede]) ?_ (by simp) (by simp [endsExpr])
  rw [List.forall_mem_cons]
  exact ⟨⟨['.'], .symbol (by decide)⟩, (Neat.word named).spelled⟩

theorem parenthesized (h : Neat ts) : Neat (.openParen :: (ts ++ [.closeParen])) := by
  refine (h.append (by simp) (List.isChain_singleton _) ?_ (by simp [isMark])
    (by simp [endsExpr])).cons rfl rfl
  exact List.forall_mem_singleton.mpr (exists_spells_mark rfl)

theorem around (h : Neat ts) (style : Style) (place : Place) (e : Expr) :
    Neat (style.around place e ts) := by
  rw [Style.around]
  split_ifs
  · exact h.parenthesized
  · exact h

/-- Expressions with a mark between each two. -/
theorem intercalate {parts : List (List Token)} (hmark : isMark mark = true) (some : parts ≠ [])
    (each : ∀ ts ∈ parts, Neat ts) : Neat ([mark].intercalate parts) := by
  induction parts with
  | nil => exact absurd rfl some
  | cons ts parts ih =>
    obtain ⟨hfirst, hrest⟩ := List.forall_mem_cons.mp each
    cases parts with
    | nil => simpa using hfirst
    | cons ts' parts =>
      rw [List.intercalate_cons_cons, List.append_assoc, List.singleton_append]
      exact hfirst.between (ih (List.cons_ne_nil ts' parts) hrest) hmark

/-- A call of a method: a point, a name and parentheses. -/
theorem called (h : Neat ts) {name : String} (named : Token.isName name = true) {more : List Token}
    (h' : Neat (.openParen :: more)) : Neat (ts ++ .dot :: .word name :: .openParen :: more) := by
  have happend := (h.point named).append h'.some h'.chain h'.spelled (by simp [isMark]) h'.last
  rwa [List.append_assoc] at happend

theorem emptyParentheses : Neat [.openParen, .closeParen] where
  some := List.cons_ne_nil _ _
  chain := by simp [Token.mayPrecede]
  spelled := by
    rw [List.forall_mem_cons, List.forall_mem_singleton]
    exact ⟨exists_spells_mark rfl, exists_spells_mark rfl⟩
  first := by simp [beginsExpr]
  last := by simp [endsExpr]

theorem member_none (h : Neat ts) {method : Method} (arity : method.arity = 0) :
    Neat (ts ++ memberTokens method []) := by
  cases method with
  | hasValue => exact h.point rfl
  | value => exact h.point rfl
  | toUpper => exact h.called rfl emptyParentheses
  | toLower => exact h.called rfl emptyParentheses
  | _ => exact absurd arity (by simp [Method.arity])

theorem member_one (h : Neat ts) (h' : Neat ts') {method : Method} (arity : method.arity = 1) :
    Neat (ts ++ memberTokens method ts') := by
  have hplain : Neat (.openParen :: (ts' ++ [] ++ [.closeParen])) := by
    rw [List.append_nil]
    exact h'.parenthesized
  cases method with
  | contains => exact h.called rfl hplain
  | startsWith => exact h.called rfl hplain
  | endsWith => exact h.called rfl hplain
  | equals ignoreCase =>
    cases ignoreCase with
    | false => exact h.called rfl hplain
    | true =>
      have howner : Neat [.word "StringComparison"] := .word rfl
      have hcomparer : Neat [.word "StringComparison", .dot, .word "OrdinalIgnoreCase"] :=
        howner.point rfl
      exact h.called rfl (h'.between hcomparer rfl).parenthesized
  | _ => exact absurd arity (by simp [Method.arity])

end Neat

theorem neat_integer {i : Int64} (bound : -(2 ^ 63 - 1) ≤ i.toInt) :
    Neat (literalTokens (.integer i)) := by
  have habove := i.toInt_lt
  have hbound : i.toInt.natAbs < Token.integerBound := by
    rw [Token.integerBound]
    omega
  rw [literalTokens]
  split_ifs
  · exact (Neat.integer hbound).cons rfl rfl
  · exact .integer hbound

/-- The tokens of an expression have spellings and may stand next to each other. -/
theorem neat_tokens {row : String} (hrow : Token.isName row = true) {params : List String}
    (style : Style) {e : Expr} (h : Writable params e) : Neat (tokens style row e) := by
  induction h with
  | field named => exact (Neat.word hrow).point named
  | param declared named free => exact .word named
  | null => exact .word rfl
  | bool value => cases value <;> exact .word rfl
  | integer bound => exact neat_integer bound
  | now clock =>
    have hclock : Neat [.word "DateTime"] := .word rfl
    cases clock with
    | localTime => exact hclock.point rfl
    | utc => exact hclock.point rfl
  | compare op first second ihfirst ihsecond =>
    exact (ihfirst.around style .operand _).between (ihsecond.around style .operand _) rfl
  | @logical op operands some each ih =>
    rw [tokens, tokensOfList_eq_map]
    have hsome : operands ≠ [] := List.ne_nil_of_length_pos (by omega)
    refine .intercalate (by cases op <;> rfl) (by simpa using hsome)
      (List.forall_mem_map.mpr fun e he => ?_)
    exact (ih e he).around style .operand e
  | not inner ih => exact (ih.around style .operand _).cons rfl rfl
  | @call method receiver arguments arity subject each ihsubject iharguments =>
    have hreceiver := ihsubject.around style .receiver receiver
    cases arguments with
    | nil => exact hreceiver.member_none arity.symm
    | cons first rest =>
      obtain rfl := Method.rest_eq_nil arity
      rw [tokens, tokensOfList, tokensOfList, List.flatten_singleton]
      exact hreceiver.member_one
        ((iharguments first List.mem_cons_self).around style .whole first) arity.symm

/-! ### Texts -/

theorem Head.isChain_append {row : String} {head ts : List Token} (h : Head head row)
    (hts : Neat ts) : (head ++ ts).IsChain (Token.mayPrecede · ·) := by
  have harrow : ∀ t ∈ ts.head?, Token.arrow.mayPrecede t = true := fun t ht =>
    mark_mayPrecede rfl (hts.first t ht)
  cases h with
  | plain =>
    exact List.isChain_append.mpr ⟨by simp [Token.mayPrecede], hts.chain, by simpa using harrow⟩
  | parenthesized =>
    exact List.isChain_append.mpr ⟨by simp [Token.mayPrecede], hts.chain, by simpa using harrow⟩

theorem Head.spelled {row : String} {head : List Token} (h : Head head row)
    (hrow : Token.isName row = true) : ∀ t ∈ head, ∃ spelling, Token.Spells t spelling := by
  have hname : ∃ spelling, Token.Spells (.word row) spelling := ⟨_, .word hrow⟩
  have harrow : ∃ spelling, Token.Spells .arrow spelling := exists_spells_mark rfl
  cases h with
  | plain => exact List.forall_mem_cons.mpr ⟨hname, List.forall_mem_singleton.mpr harrow⟩
  | parenthesized =>
    exact List.forall_mem_cons.mpr ⟨exists_spells_mark rfl, List.forall_mem_cons.mpr
      ⟨hname, List.forall_mem_cons.mpr
        ⟨exists_spells_mark rfl, List.forall_mem_singleton.mpr harrow⟩⟩⟩

theorem not_isQuotation {p : Char → Bool}
    (hp : (p '\'' || p '"' || p '\x60') = false) {c : Char} (hc : p c = true) :
    isQuotation c = false := by
  by_contra hquotation
  simp only [isQuotation, Bool.or_eq_true, beq_iff_eq, Bool.not_eq_false] at hquotation
  obtain (rfl | rfl) | rfl := hquotation <;> simp [hc] at hp

/-- No text of tokens holds a quotation mark. -/
theorem not_isQuotation_of_spaced {ts : List Token} {cs : List Char} (h : Token.Spaced ts cs) :
    ∀ c ∈ cs, isQuotation c = false := by
  have hblanks {cs : List Char} (hcs : Text.Blanks cs) : ∀ c ∈ cs, isQuotation c = false :=
    fun c hc => not_isQuotation (by decide) (hcs c hc)
  induction h with
  | nil white => exact hblanks white
  | cons white spelled behind ih =>
    refine List.forall_mem_append.mpr ⟨hblanks white, List.forall_mem_append.mpr ⟨?_, ih⟩⟩
    cases spelled with
    | symbol mem =>
      have hall : ∀ s ∈ Token.symbols, ∀ c ∈ s.1, isQuotation c = false := by
        simp [Token.symbols, isQuotation]
      exact hall _ mem
    | word named =>
      exact fun c hc => not_isQuotation (by decide) ((Token.isName_iff.mp named).2.1 c hc)
    | integer some each value bound =>
      exact fun c hc => not_isQuotation (by decide) (each c hc)

/-- A text without quotation marks is read as what its tokens derive. -/
theorem parse_of_derives {params : List String} {text : String} {e : Expr} {toks : List Placed}
    (hquotation : ∀ c ∈ text.toList, isQuotation c = false)
    (hscan : Token.scan text.toList = .ok toks) (h : Derives params (toks.map Placed.token) e) :
    parse params text = .ok e := by
  generalize hts : toks.map Placed.token = ts at h
  obtain ⟨hhead, hfree, hexpr⟩ := h
  obtain ⟨used, body, rfl, rfl, rfl⟩ := map_token_append hts
  have hread := (reads_unary ⟨_, params, Token.byteLength text.toList⟩ maxLevels).2.complete hexpr
    (stops_nil 3)
  rw [List.append_nil] at hread
  exact parse_eq_ok_iff.mpr ⟨hquotation, _, hscan, _, body, head_eq_ok.mpr ⟨used, rfl, hhead⟩,
    hfree, hread⟩

/-- A text of the tokens of an expression behind a head is read as the expression, if at most 63
levels are opened. -/
theorem parse_of_spaced {row : String} {params : List String} {e : Expr} {style : Style}
    (hrow : Token.isName row = true) (hfree : row ∉ fixedWords) (hparams : row ∉ params)
    (he : Writable params e) (hlevels : levels style e ≤ 63) {head : List Token}
    (hhead : Head head row) {text : String}
    (htext : Token.Spaced (head ++ tokens style row e) text.toList) :
    parse params text = .ok e := by
  obtain ⟨toks, hscan, htoks⟩ :=
    Token.scan_of_spaced htext (hhead.isChain_append (neat_tokens hrow style he))
  have hexpr : Expression row params (tokens style row e) e maxLevels :=
    .opened ((derived_of_writable hfree hparams he).whole hlevels)
  refine parse_of_derives (not_isQuotation_of_spaced htext) hscan ?_
  rw [htoks]
  exact .intro hhead hparams hexpr

/-- An expression is written and read back: its tokens behind a head have a text, and each of their
texts, with any white space between the tokens, is read as the expression, if at most 63 levels are
opened. -/
theorem parse_tokens {row : String} {params : List String} {e : Expr} (style : Style)
    (hrow : Token.isName row = true) (hfree : row ∉ fixedWords) (hparams : row ∉ params)
    (he : Writable params e) (hlevels : levels style e ≤ 63) {head : List Token}
    (hhead : Head head row) :
    (∃ text : String, Token.Spaced (head ++ tokens style row e) text.toList) ∧
      ∀ text : String, Token.Spaced (head ++ tokens style row e) text.toList →
        parse params text = .ok e := by
  refine ⟨?_, fun text htext => parse_of_spaced hrow hfree hparams he hlevels hhead htext⟩
  obtain ⟨cs, hcs⟩ := Token.exists_spaced
    (List.forall_mem_append.mpr ⟨hhead.spelled hrow, (neat_tokens hrow style he).spelled⟩)
  exact ⟨String.ofList cs, by rwa [String.toList_ofList]⟩

/-- A negative number has a member in parentheses, and a disjunction in another one stays there. -/
theorem exists_text_nested : ∃ text, parse ["x"] text = .ok
    (.logical .or [.not (.compare .lt (.call .value (.literal (.integer (-5))) []) (.now .utc)),
      .logical .or [.call (.equals true) (.field "Equals") [.param "x"],
        .compare .eq (.literal .null) (.field "null")]]) := by
  have hnegative : Writable ["x"] (.not (.compare .lt (.call .value (.literal (.integer (-5))) [])
      (.now .utc))) :=
    .not (.compare .lt (.call rfl (.integer (by decide)) (by simp)) (.now .utc))
  have hequals : Writable ["x"] (.call (.equals true) (.field "Equals") [.param "x"]) :=
    .call rfl (.field rfl) (List.forall_mem_singleton.mpr (.param (by simp) rfl (by decide)))
  have hnull : Writable ["x"] (.compare .eq (.literal .null) (.field "null")) :=
    .compare .eq .null (.field rfl)
  have hinner : Writable ["x"] (.logical .or [.call (.equals true) (.field "Equals") [.param "x"],
      .compare .eq (.literal .null) (.field "null")]) :=
    .logical .or (Nat.le_refl 2)
      (List.forall_mem_cons.mpr ⟨hequals, List.forall_mem_singleton.mpr hnull⟩)
  have hrow : Token.isName "row" = true := rfl
  obtain ⟨⟨text, htext⟩, hread⟩ := parse_tokens .full hrow (by decide) (by decide)
    (.logical .or (by simp)
      (List.forall_mem_cons.mpr ⟨hnegative, List.forall_mem_singleton.mpr hinner⟩))
    (by decide) (.plain "row")
  exact ⟨text, hread text htext⟩

example : parse ["x"]
    "(r)=>\t!(r.A\n<-5)||r . null.Equals ( x,StringComparison.OrdinalIgnoreCase)" = .ok (.logical .or [.not (.compare .lt (.field "A") (.literal (.integer (-5)))),
      .call (.equals true) (.field "null") [.param "x"]]) := by
  rfl

end Lambda

end TypedSql

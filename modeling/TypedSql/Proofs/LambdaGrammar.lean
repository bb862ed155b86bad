/-
The grammar of a filter's text, and that the reader accepts exactly this grammar.

A `Grammar` says which tokens spell which expression. The forms below are those of
`TypedSql.Filter.Lambda`'s header, from the tightest to the loosest; a nonterminal with a number is
bounded by the levels that can still be opened.

* `Reads` — a reader takes a phrase of a grammar off its tokens (`sound`), and takes every phrase
  that no token behind it goes on (`complete`);
* `reads_unary` — the readers of operands and of expressions read their nonterminals, by induction
  on the levels;
* `parse_eq_ok_iff_derives` — a text is read as an expression if and only if its tokens derive it.
-/
import TypedSql.Filter.Lambda
import TypedSql.Proofs.Outcome

namespace TypedSql

namespace Lambda

/-! ### The grammar -/

/-- Which tokens spell which expression, when a number of levels can still be opened. -/
abbrev Grammar := List Token → Expr → Nat → Prop

/-- The tokens between the operands of a conjunction. -/
def andMarks : List Token := [.and, .ofWord "AndAlso"]

/-- The tokens between the operands of a disjunction. -/
def orMarks : List Token := [.or, .ofWord "OrElse"]

/-- The words that stand for a literal or a clock, whatever the row is called. -/
def fixedWords : List String := ["null", "true", "false", "DateTime", "DateTimeOffset"]

/-- One item, or more with a mark between each two. -/
inductive Chain (marks : List Token) (Item : Grammar) : List Token → List Expr → Nat → Prop
  | one {ts : List Token} {e : Expr} {n : Nat} (item : Item ts e n) : Chain marks Item ts [e] n
  | more {ts ts' : List Token} {t : Token} {e : Expr} {es : List Expr} {n : Nat}
      (item : Item ts e n) (mark : t ∈ marks) (rest : Chain marks Item ts' es n) :
      Chain marks Item (ts ++ t :: ts') (e :: es) n

/-- Items joined by a connective; one item stands for itself. -/
inductive Joined (op : Connective) (marks : List Token) (Item : Grammar) : Grammar
  | intro {ts : List Token} {es : List Expr} {n : Nat} (items : Chain marks Item ts es n) :
      Joined op marks Item ts (collapse op es) n

/-- An operand, or two with a comparison between them. -/
inductive Compared (Operand : Grammar) : Grammar
  | one {ts : List Token} {e : Expr} {n : Nat} (operand : Operand ts e n) : Compared Operand ts e n
  | two {ts ts' : List Token} {op : Comparison} {left right : Expr} {n : Nat}
      (first : Operand ts left n) (second : Operand ts' right n) :
      Compared Operand (ts ++ .comparison op :: ts') (.compare op left right) n

/-- A name of a text comparison, and whether it ignores case. -/
inductive Comparer : List Token → Bool → Prop
  | intro {owner : String} (kind : String)
      (known : owner = "StringComparison" ∨ owner = "StringComparer") :
      Comparer [.word owner, .dot, .word kind] ("IgnoreCase".toList.isSuffixOf kind.toList)

/-- What stands between the parentheses of a method call: nothing or an expression, and behind the
expression a comparer, if the method is an equality. -/
inductive Arguments (Inner : Grammar) : Method → List Token → Method → List Expr → Nat → Prop
  | none {n : Nat} (method : Method) : Arguments Inner method [] method [] n
  | one {ts : List Token} {e : Expr} {n : Nat} (method : Method) (argument : Inner ts e n) :
      Arguments Inner method ts method [e] n
  | compared {ts ts' : List Token} {e : Expr} {ignoreCase : Bool} {n : Nat} (given : Bool)
      (argument : Inner ts e n) (comparer : Comparer ts' ignoreCase) :
      Arguments Inner (.equals given) (ts ++ .comma :: ts') (.equals ignoreCase) [e] n

/-- The members behind an expression, and the expression with them. -/
inductive Members (Inner : Grammar) : Expr → List Token → Expr → Nat → Prop
  | nil {n : Nat} (e : Expr) : Members Inner e [] e n
  | property {e e' : Expr} {name : String} {method : Method} {ts : List Token} {n : Nat}
      (known : property? name = some method) (rest : Members Inner (.call method e []) ts e' n) :
      Members Inner e (.dot :: .word name :: ts) e' n
  | method {e e' : Expr} {name : String} {method method' : Method} {inside ts : List Token}
      {arguments : List Expr} {n : Nat} (known : method? name = some method)
      (found : Arguments Inner method inside method' arguments n)
      (rest : Members Inner (.call method' e arguments) ts e' n) :
      Members Inner e (.dot :: .word name :: .openParen :: (inside ++ .closeParen :: ts)) e' n

/-- What a word begins. Literals and clocks come before the row, and the row before parameters. -/
inductive Named (row : String) (params : List String) : List Token → Expr → Prop
  | null : Named row params [.word "null"] (.literal .null)
  | true : Named row params [.word "true"] (.literal (.bool true))
  | false : Named row params [.word "false"] (.literal (.bool false))
  | now {clock : String} (known : clock = "DateTime" ∨ clock = "DateTimeOffset") :
      Named row params [.word clock, .dot, .word "Now"] (.now .localTime)
  | utcNow {clock : String} (known : clock = "DateTime" ∨ clock = "DateTimeOffset") :
      Named row params [.word clock, .dot, .word "UtcNow"] (.now .utc)
  | field (property : String) (free : row ∉ fixedWords) :
      Named row params [.word row, .dot, .word property] (.field property)
  | param {name : String} (declared : name ∈ params) (notRow : name ≠ row)
      (free : name ∉ fixedWords) : Named row params [.word name] (.param name)

/-- An operand without members and signs. -/
inductive Primary (row : String) (params : List String) (Inner : Grammar) : Grammar
  | parenthesized {ts : List Token} {e : Expr} {n : Nat} (inner : Inner ts e n) :
      Primary row params Inner (.openParen :: (ts ++ [.closeParen])) e n
  | integer {n : Nat} (i : Nat) :
      Primary row params Inner [.integer i] (.literal (integerLiteral i)) n
  | number {n : Nat} (x : Number.BinaryNumber) :
      Primary row params Inner [.number x] (.literal (.number x)) n
  | named {ts : List Token} {e : Expr} {n : Nat} (word : Named row params ts e) :
      Primary row params Inner ts e n

mutual

/-- An operand with its members and signs. A negation opens a level. -/
inductive Unary (row : String) (params : List String) : Grammar
  | not {ts : List Token} {e : Expr} {n : Nat} (operand : Unary row params ts e n) :
      Unary row params (.bang :: ts) (.not e) (n + 1)
  | negativeInteger {n : Nat} (i : Nat) :
      Unary row params [.minus, .integer i] (.literal (.integer (-Int64.ofNat i))) n
  | negativeNumber {n : Nat} (x : Number.BinaryNumber) :
      Unary row params [.minus, .number x] (.literal (.number x.negate)) n
  | member {ts ts' : List Token} {e e' : Expr} {n : Nat}
      (primary : Primary row params (Expression row params) ts e n)
      (members : Members (Expression row params) e ts' e' n) :
      Unary row params (ts ++ ts') e' n

/-- The root, the inside of parentheses, or an argument. Each opens a level. -/
inductive Expression (row : String) (params : List String) : Grammar
  | opened {ts : List Token} {e : Expr} {n : Nat}
      (inner : Joined .or orMarks (Joined .and andMarks (Compared (Unary row params))) ts e n) :
      Expression row params ts e (n + 1)

end

/-- The name of the row, with or without parentheses, and the arrow. -/
inductive Head : List Token → String → Prop
  | plain (row : String) : Head [.word row, .arrow] row
  | parenthesized (row : String) : Head [.openParen, .word row, .closeParen, .arrow] row

/-- A filter's text: a head whose row is no parameter, and an expression of at most `maxLevels`
levels. -/
inductive Derives (params : List String) : List Token → Expr → Prop
  | intro {row : String} {head body : List Token} {e : Expr} (named : Head head row)
      (free : row ∉ params) (inner : Expression row params body e maxLevels) :
      Derives params (head ++ body) e

/-! ### Readers of a grammar -/

/-- The tightest form that a token goes on with: members, comparisons, conjunctions and
disjunctions; other tokens go on with none. -/
def goesOn : Token → Nat
  | .dot | .openParen => 0
  | .comparison _ => 1
  | .and => 2
  | .or => 3
  | _ => 4

/-- The next token goes on with no form up to `k`. -/
def Stops (k : Nat) (rest : List Placed) : Prop :=
  ∀ next ∈ rest.head?, k < goesOn next.token

theorem Stops.mono {k k' : Nat} {rest : List Placed} (h : Stops k' rest) (hk : k ≤ k') :
    Stops k rest :=
  fun next hnext => Nat.lt_of_le_of_lt hk (h next hnext)

theorem stops_nil (k : Nat) : Stops k [] :=
  fun next hnext => absurd hnext (by simp)

theorem Stops.head {k : Nat} {next : Placed} {rest : List Placed} (h : Stops k (next :: rest)) :
    k < goesOn next.token :=
  h next rfl

theorem stops_cons {k : Nat} {next : Placed} {rest : List Placed} (h : k < goesOn next.token) :
    Stops k (next :: rest) := by
  intro next' hnext
  obtain rfl : next = next' := by simpa using hnext
  exact h

/-- A reader takes phrases of a grammar off its tokens: what it takes is a phrase, and it takes
every phrase behind which no token goes on with a form up to `k`. -/
structure Reads (k : Nat) (reader : Reader Expr) (G : Grammar) (n : Nat) : Prop where
  sound {toks rest : List Placed} {e : Expr} (h : reader toks = .ok (e, rest)) :
    ∃ used, toks = used ++ rest ∧ G (used.map Placed.token) e n
  complete {used rest : List Placed} {e : Expr} (h : G (used.map Placed.token) e n)
    (stops : Stops k rest) : reader (used ++ rest) = .ok (e, rest)

/-- Tokens that spell a list of two parts are the tokens of the two parts. -/
theorem map_token_append {used : List Placed} {ts ts' : List Token}
    (h : used.map Placed.token = ts ++ ts') :
    ∃ first second, used = first ++ second ∧ first.map Placed.token = ts ∧
      second.map Placed.token = ts' :=
  List.map_eq_append_iff.mp h

theorem map_token_cons {used : List Placed} {t : Token} {ts : List Token}
    (h : used.map Placed.token = t :: ts) :
    ∃ p more, used = ⟨p, t⟩ :: more ∧ more.map Placed.token = ts := by
  obtain ⟨⟨p, t'⟩, more, rfl, rfl, hmore⟩ := List.map_eq_cons_iff.mp h
  exact ⟨p, more, rfl, hmore⟩

theorem map_token_single {used : List Placed} {t : Token} (h : used.map Placed.token = [t]) :
    ∃ p, used = [⟨p, t⟩] := by
  obtain ⟨p, more, rfl, hmore⟩ := map_token_cons h
  obtain rfl := List.map_eq_nil_iff.mp hmore
  exact ⟨p, rfl⟩

theorem map_token_pair {used : List Placed} {t t' : Token}
    (h : used.map Placed.token = [t, t']) : ∃ p q, used = [⟨p, t⟩, ⟨q, t'⟩] := by
  obtain ⟨p, more, rfl, hmore⟩ := map_token_cons h
  obtain ⟨q, rfl⟩ := map_token_single hmore
  exact ⟨p, q, rfl⟩

section Layers

variable {k n : Nat} {reader : Reader Expr} {G : Grammar}

/-- One operand, or two with a comparison between them. -/
theorem reads_comparison (hR : Reads 0 reader G n) :
    Reads 1 (comparison reader) (Compared G) n where
  sound {toks rest e} h := by
    obtain ⟨⟨left, rest₁⟩, hleft, hmore⟩ := bind_eq_ok.mp h
    obtain ⟨used, rfl, hused⟩ := hR.sound hleft
    dsimp only at hmore
    split at hmore
    · rename_i p op after
      obtain ⟨⟨right, rest₂⟩, hright, hend⟩ := bind_eq_ok.mp hmore
      obtain ⟨used', rfl, hused'⟩ := hR.sound hright
      obtain ⟨rfl, rfl⟩ := Prod.mk.inj (pure_eq_ok.mp hend)
      refine ⟨used ++ ⟨p, .comparison op⟩ :: used', by simp, ?_⟩
      rw [List.map_append, List.map_cons]
      exact .two hused hused'
    · obtain ⟨rfl, rfl⟩ := Prod.mk.inj (pure_eq_ok.mp hmore)
      exact ⟨used, rfl, .one hused⟩
  complete {used rest e} h stops := by
    rw [comparison]
    generalize hts : used.map Placed.token = ts at h
    cases h with
    | one operand =>
      subst hts
      simp only [hR.complete operand (stops.mono (by omega)), ok_bind]
      -- a comparison behind the operand would not stop this form
      split
      · exact absurd stops.head (by simp [goesOn])
      · rfl
    | two first second =>
      obtain ⟨used₁, more, rfl, rfl, hmore⟩ := map_token_append hts
      obtain ⟨p, used₂, rfl, rfl⟩ := map_token_cons hmore
      rw [List.append_assoc, List.cons_append, hR.complete first (stops_cons (by simp [goesOn])),
        ok_bind]
      simp only [hR.complete second (stops.mono (by omega)), ok_bind]
      rfl

/-- Further operands, each behind a mark. There is fuel for as many as there are tokens. -/
theorem operandsAfter_sound {separator : Token} {marks : List Token} (hmark : separator ∈ marks)
    (hR : Reads k reader G n) {fuel : Nat} {toks rest : List Placed} {es : List Expr}
    (h : operandsAfter separator reader fuel toks = .ok (es, rest)) :
    es = [] ∧ toks = rest ∨ ∃ p used, toks = ⟨p, separator⟩ :: (used ++ rest) ∧
      Chain marks G (used.map Placed.token) es n := by
  induction fuel generalizing toks es with
  | zero =>
    obtain ⟨rfl, rfl⟩ := Prod.mk.inj (Except.ok.inj h)
    exact .inl ⟨rfl, rfl⟩
  | succ fuel ih =>
    rcases toks with _ | ⟨next, after⟩
    · obtain ⟨rfl, rfl⟩ := Prod.mk.inj (Except.ok.inj h)
      exact .inl ⟨rfl, rfl⟩
    · rw [operandsAfter] at h
      split at h
      · rename_i hnext
        obtain ⟨⟨e, rest₁⟩, hitem, hmore⟩ := bind_eq_ok.mp h
        obtain ⟨⟨more, rest₂⟩, hrest, hend⟩ := bind_eq_ok.mp hmore
        obtain ⟨rfl, rfl⟩ := Prod.mk.inj (pure_eq_ok.mp hend)
        obtain ⟨used, rfl, hused⟩ := hR.sound hitem
        obtain ⟨p, t⟩ := next
        obtain rfl : t = separator := hnext
        right
        rcases ih hrest with ⟨rfl, rfl⟩ | ⟨p', used', rfl, hchain⟩
        · exact ⟨p, used, rfl, .one hused⟩
        · refine ⟨p, used ++ ⟨p', t⟩ :: used', by simp, ?_⟩
          rw [List.map_append, List.map_cons]
          exact .more hused hmark hchain
      · obtain ⟨rfl, rfl⟩ := Prod.mk.inj (Except.ok.inj h)
        exact .inl ⟨rfl, rfl⟩

/-- No operand follows where no mark does. -/
theorem operandsAfter_of_stops {separator : Token} (hgoes : goesOn separator ≤ k) (fuel : Nat)
    {rest : List Placed} (stops : Stops k rest) :
    operandsAfter separator reader fuel rest = .ok ([], rest) := by
  rcases fuel with _ | fuel
  · rfl
  · rcases rest with _ | ⟨next, after⟩
    · rfl
    · have hnext : next.token ≠ separator := by
        rintro rfl
        exact absurd stops.head (by omega)
      rw [operandsAfter, if_neg hnext]

theorem operandsAfter_complete {separator : Token} {marks : List Token}
    (hmarks : ∀ t ∈ marks, t = separator) (hgoes : goesOn separator = k + 1)
    (hR : Reads k reader G n) {ts : List Token} {es : List Expr} (h : Chain marks G ts es n) :
    ∀ {used rest : List Placed} {p fuel : Nat}, used.map Placed.token = ts →
      Stops (k + 1) rest → used.length < fuel →
      operandsAfter separator reader fuel (⟨p, separator⟩ :: (used ++ rest)) = .ok (es, rest) := by
  induction h with
  | one item =>
    rintro used rest p (_ | fuel) rfl stops hfuel
    · omega
    · rw [operandsAfter, if_pos rfl, hR.complete item (stops.mono (by omega)), ok_bind]
      simp only [operandsAfter_of_stops (Nat.le_of_eq hgoes) fuel stops, ok_bind]
      rfl
  | more item mark _ ih =>
    rintro used rest p (_ | fuel) hts stops hfuel
    · omega
    -- the mark takes one token, so the fuel lasts for the operands behind it
    · obtain ⟨used₁, more, rfl, rfl, hmore⟩ := map_token_append hts
      obtain ⟨p', used₂, rfl, rfl⟩ := map_token_cons hmore
      obtain rfl := (hmarks _ mark).symm
      have hlength : used₂.length < fuel := by
        simp only [List.length_append, List.length_cons] at hfuel
        omega
      rw [operandsAfter, if_pos rfl, List.append_assoc, List.cons_append,
        hR.complete item (stops_cons (by simp [hgoes])), ok_bind]
      simp only [ih hR rfl stops hlength, ok_bind]
      rfl

/-- Operands between marks of one kind, which go on with the form `k + 1`. -/
theorem reads_joined {op : Connective} {separator : Token} {marks : List Token}
    (hmarks : ∀ t, t ∈ marks ↔ t = separator) (hgoes : goesOn separator = k + 1)
    (hR : Reads k reader G n) :
    Reads (k + 1) (joined op separator reader) (Joined op marks G) n where
  sound {toks rest e} h := by
    obtain ⟨⟨first, rest₁⟩, hfirst, hmore⟩ := bind_eq_ok.mp h
    obtain ⟨⟨more, rest₂⟩, hrest, hend⟩ := bind_eq_ok.mp hmore
    obtain ⟨rfl, rfl⟩ := Prod.mk.inj (pure_eq_ok.mp hend)
    obtain ⟨used, rfl, hused⟩ := hR.sound hfirst
    rcases operandsAfter_sound ((hmarks separator).mpr rfl) hR hrest with
      ⟨rfl, rfl⟩ | ⟨p, used', rfl, hchain⟩
    · exact ⟨used, rfl, .intro (.one hused)⟩
    · refine ⟨used ++ ⟨p, separator⟩ :: used', by simp, ?_⟩
      rw [List.map_append, List.map_cons]
      exact .intro (.more hused ((hmarks separator).mpr rfl) hchain)
  complete {used rest e} h stops := by
    rw [joined]
    generalize hts : used.map Placed.token = ts at h
    obtain ⟨hchain⟩ := h
    cases hchain with
    | one item =>
      subst hts
      simp only [hR.complete item (stops.mono (by omega)), ok_bind,
        operandsAfter_of_stops (Nat.le_of_eq hgoes) rest.length stops]
      rfl
    | more item mark hrest =>
      obtain ⟨used₁, more, rfl, rfl, hmore⟩ := map_token_append hts
      obtain ⟨p, used₂, rfl, rfl⟩ := map_token_cons hmore
      obtain rfl := ((hmarks _).mp mark).symm
      have hlength : used₂.length < (⟨p, separator⟩ :: (used₂ ++ rest)).length := by
        simp only [List.length_append, List.length_cons]
        omega
      rw [List.append_assoc, List.cons_append,
        hR.complete item (stops_cons (by simp [hgoes])), ok_bind]
      simp only [operandsAfter_complete (fun t => (hmarks t).mp) hgoes hR hrest rfl stops hlength,
        ok_bind]
      rfl

end Layers

/-! ### Single tokens and words -/

@[simp] theorem fault_ne_ok {α : Type} {length : Nat} {rest : List Placed} {f : SyntaxFault}
    {a : α} : fault length rest f ≠ .ok a := by
  cases rest <;> simp [fault]

theorem expect_eq_ok {length : Nat} {t : Token} {what : String} {toks rest : List Placed}
    {u : Unit} : expect length t what toks = .ok (u, rest) ↔ ∃ p, toks = ⟨p, t⟩ :: rest := by
  rcases toks with _ | ⟨⟨p, t'⟩, more⟩
  · simp [expect]
  · rw [expect]
    constructor
    · intro h
      split at h
      · rename_i ht
        obtain ⟨-, rfl⟩ := Prod.mk.inj (Except.ok.inj h)
        exact ⟨p, by rw [← ht]⟩
      · exact absurd h fault_ne_ok
    · rintro ⟨p', h⟩
      obtain ⟨hnext, rfl⟩ := List.cons.inj h
      rw [hnext, if_pos rfl]

theorem word_eq_ok {length : Nat} {toks rest : List Placed} {name : String} :
    word length toks = .ok (name, rest) ↔ ∃ p, toks = ⟨p, .word name⟩ :: rest := by
  constructor
  · intro h
    unfold word at h
    split at h
    · rename_i p name' rest'
      obtain ⟨rfl, rfl⟩ := Prod.mk.inj (Except.ok.inj h)
      exact ⟨p, rfl⟩
    · exact absurd h fault_ne_ok
  · rintro ⟨p, rfl⟩
    rfl

theorem named_sound {s : Scope} {name : String} {toks rest : List Placed} {e : Expr}
    (h : named s name toks = .ok (e, rest)) :
    ∃ used, toks = used ++ rest ∧
      Named s.row s.params (.word name :: used.map Placed.token) e := by
  unfold named at h
  split_ifs at h with hnull htrue hfalse hclock hrow hparam
  · obtain ⟨rfl, rfl⟩ := Prod.mk.inj (Except.ok.inj h)
    exact ⟨[], rfl, hnull ▸ .null⟩
  · obtain ⟨rfl, rfl⟩ := Prod.mk.inj (Except.ok.inj h)
    exact ⟨[], rfl, htrue ▸ .true⟩
  · obtain ⟨rfl, rfl⟩ := Prod.mk.inj (Except.ok.inj h)
    exact ⟨[], rfl, hfalse ▸ .false⟩
  · obtain ⟨⟨u, rest₁⟩, hdot, hmore⟩ := bind_eq_ok.mp h
    obtain ⟨⟨clock, rest₂⟩, hword, hend⟩ := bind_eq_ok.mp hmore
    obtain ⟨p, rfl⟩ := expect_eq_ok.mp hdot
    obtain ⟨q, rfl⟩ := word_eq_ok.mp hword
    dsimp only at hend
    split_ifs at hend with hnow hutc
    · obtain ⟨rfl, rfl⟩ := Prod.mk.inj (pure_eq_ok.mp hend)
      exact ⟨[⟨p, .dot⟩, ⟨q, .word clock⟩], rfl, hnow ▸ .now hclock⟩
    · obtain ⟨rfl, rfl⟩ := Prod.mk.inj (pure_eq_ok.mp hend)
      exact ⟨[⟨p, .dot⟩, ⟨q, .word clock⟩], rfl, hutc ▸ .utcNow hclock⟩
    · exact absurd hend fault_ne_ok
  · have hfree : name ∉ fixedWords := by simp_all [fixedWords]
    obtain ⟨⟨u, rest₁⟩, hdot, hmore⟩ := bind_eq_ok.mp h
    obtain ⟨⟨property, rest₂⟩, hword, hend⟩ := bind_eq_ok.mp hmore
    obtain ⟨p, rfl⟩ := expect_eq_ok.mp hdot
    obtain ⟨q, rfl⟩ := word_eq_ok.mp hword
    obtain ⟨rfl, rfl⟩ := Prod.mk.inj (pure_eq_ok.mp hend)
    exact ⟨[⟨p, .dot⟩, ⟨q, .word property⟩], rfl, hrow ▸ .field property (hrow ▸ hfree)⟩
  · have hfree : name ∉ fixedWords := by simp_all [fixedWords]
    obtain ⟨rfl, rfl⟩ := Prod.mk.inj (Except.ok.inj h)
    exact ⟨[], rfl, .param (by simpa using hparam) hrow hfree⟩

theorem named_complete {s : Scope} {name : String} {used rest : List Placed} {e : Expr}
    (h : Named s.row s.params (.word name :: used.map Placed.token) e) :
    named s name (used ++ rest) = .ok (e, rest) := by
  generalize hts : used.map Placed.token = ts at h
  cases h with
  | null =>
    obtain rfl := List.map_eq_nil_iff.mp hts
    rfl
  | true =>
    obtain rfl := List.map_eq_nil_iff.mp hts
    rfl
  | false =>
    obtain rfl := List.map_eq_nil_iff.mp hts
    rfl
  | now known =>
    obtain ⟨p, q, rfl⟩ := map_token_pair hts
    rcases known with rfl | rfl <;> rfl
  | utcNow known =>
    obtain ⟨p, q, rfl⟩ := map_token_pair hts
    rcases known with rfl | rfl <;> rfl
  | field property free =>
    obtain ⟨p, q, rfl⟩ := map_token_pair hts
    simp only [fixedWords, List.mem_cons, List.not_mem_nil, or_false, not_or] at free
    obtain ⟨hnull, htrue, hfalse, hdate, hoffset⟩ := free
    rw [named, if_neg hnull, if_neg htrue, if_neg hfalse, if_neg (by tauto), if_pos rfl]
    rfl
  | param declared notRow free =>
    obtain rfl := List.map_eq_nil_iff.mp hts
    simp only [fixedWords, List.mem_cons, List.not_mem_nil, or_false, not_or] at free
    obtain ⟨hnull, htrue, hfalse, hdate, hoffset⟩ := free
    rw [named, if_neg hnull, if_neg htrue, if_neg hfalse, if_neg (by tauto), if_neg notRow,
      if_pos (by simpa using declared)]
    rfl

theorem Named.eq_word_cons {row : String} {params : List String} {ts : List Token} {e : Expr}
    (h : Named row params ts e) : ∃ name ts', ts = .word name :: ts' := by
  cases h <;> exact ⟨_, _, rfl⟩

/-! ### Operands -/

theorem comparer_sound {s : Scope} {toks rest : List Placed} {ignoreCase : Bool}
    (h : comparer s toks = .ok (ignoreCase, rest)) :
    ∃ used, toks = used ++ rest ∧ Comparer (used.map Placed.token) ignoreCase := by
  obtain ⟨⟨owner, rest₁⟩, howner, hmore⟩ := bind_eq_ok.mp h
  obtain ⟨p, rfl⟩ := word_eq_ok.mp howner
  dsimp only at hmore
  split_ifs at hmore with hknown
  · obtain ⟨⟨u, rest₂⟩, hdot, hkind⟩ := bind_eq_ok.mp hmore
    obtain ⟨⟨kind, rest₃⟩, hword, hend⟩ := bind_eq_ok.mp hkind
    obtain ⟨q, rfl⟩ := expect_eq_ok.mp hdot
    obtain ⟨r, rfl⟩ := word_eq_ok.mp hword
    obtain ⟨rfl, rfl⟩ := Prod.mk.inj (pure_eq_ok.mp hend)
    exact ⟨[⟨p, .word owner⟩, ⟨q, .dot⟩, ⟨r, .word kind⟩], rfl, .intro kind hknown⟩
  · exact absurd hmore fault_ne_ok

theorem comparer_complete {s : Scope} {used rest : List Placed} {ignoreCase : Bool}
    (h : Comparer (used.map Placed.token) ignoreCase) :
    comparer s (used ++ rest) = .ok (ignoreCase, rest) := by
  generalize hts : used.map Placed.token = ts at h
  obtain ⟨kind, hknown⟩ := h
  obtain ⟨p, more, rfl, hmore⟩ := map_token_cons hts
  obtain ⟨q, r, rfl⟩ := map_token_pair hmore
  rcases hknown with rfl | rfl <;> rfl

section Operands

variable {s : Scope} {n : Nat} {inner : Reader Expr} {G : Grammar}

/-- The parenthesis that closes what has been read. -/
theorem closing_eq_ok {α : Type} {length : Nat} {a b : α} {toks rest : List Placed} :
    (expect length .closeParen "')'" toks >>= fun x => pure (a, x.2)) = .ok (b, rest) ↔
      a = b ∧ ∃ p, toks = ⟨p, .closeParen⟩ :: rest := by
  constructor
  · intro h
    obtain ⟨⟨u, rest₁⟩, hclose, hend⟩ := bind_eq_ok.mp h
    obtain ⟨rfl, rfl⟩ := Prod.mk.inj (pure_eq_ok.mp hend)
    exact ⟨rfl, expect_eq_ok.mp hclose⟩
  · rintro ⟨rfl, p, rfl⟩
    rfl

/-- What parentheses hold, up to the closing one. -/
theorem closed_eq_ok (hinner : Reads 3 inner G n) {toks rest : List Placed} {e : Expr} :
    (inner toks >>= fun x => expect s.length .closeParen "')'" x.2 >>= fun y => pure (x.1, y.2)) =
        .ok (e, rest) ↔
      ∃ used p, toks = used ++ ⟨p, .closeParen⟩ :: rest ∧ G (used.map Placed.token) e n := by
  constructor
  · intro h
    obtain ⟨⟨e', rest₁⟩, hread, hmore⟩ := bind_eq_ok.mp h
    obtain ⟨rfl, p, rfl⟩ := closing_eq_ok.mp hmore
    obtain ⟨used, rfl, hused⟩ := hinner.sound hread
    exact ⟨used, p, rfl, hused⟩
  · rintro ⟨used, p, rfl, hused⟩
    rw [hinner.complete hused (stops_cons (by simp [goesOn]))]
    rfl

theorem operand_sound (hinner : Reads 3 inner G n) {toks rest : List Placed} {e : Expr}
    (h : operand s inner toks = .ok (e, rest)) :
    ∃ used, toks = used ++ rest ∧
      Primary s.row s.params G (used.map Placed.token) e n := by
  unfold operand at h
  split at h
  · rename_i p after
    obtain ⟨used, q, rfl, hused⟩ := (closed_eq_ok hinner).mp h
    refine ⟨⟨p, .openParen⟩ :: used ++ [⟨q, .closeParen⟩], by simp, ?_⟩
    rw [List.cons_append, List.map_cons, List.map_append]
    exact .parenthesized hused
  · rename_i p i after
    obtain ⟨rfl, rfl⟩ := Prod.mk.inj (Except.ok.inj h)
    exact ⟨[⟨p, .integer i⟩], rfl, .integer i⟩
  · rename_i p x after
    obtain ⟨rfl, rfl⟩ := Prod.mk.inj (Except.ok.inj h)
    exact ⟨[⟨p, .number x⟩], rfl, .number x⟩
  · rename_i p name after
    obtain ⟨used, rfl, hused⟩ := named_sound h
    exact ⟨⟨p, .word name⟩ :: used, rfl, .named hused⟩
  · exact absurd h fault_ne_ok

theorem operand_complete (hinner : Reads 3 inner G n) {used rest : List Placed} {e : Expr}
    (h : Primary s.row s.params G (used.map Placed.token) e n) :
    operand s inner (used ++ rest) = .ok (e, rest) := by
  generalize hts : used.map Placed.token = ts at h
  cases h with
  | parenthesized hin =>
    obtain ⟨p, more, rfl, hmore⟩ := map_token_cons hts
    obtain ⟨used₁, last, rfl, rfl, hlast⟩ := map_token_append hmore
    obtain ⟨q, more, rfl, hnil⟩ := map_token_cons hlast
    obtain rfl := List.map_eq_nil_iff.mp hnil
    rw [List.cons_append, List.append_assoc]
    exact (closed_eq_ok hinner).mpr ⟨used₁, q, rfl, hin⟩
  | integer i =>
    obtain ⟨p, rfl⟩ := map_token_single hts
    rfl
  | number x =>
    obtain ⟨p, rfl⟩ := map_token_single hts
    rfl
  | named hword =>
    obtain ⟨name, ts', rfl⟩ := hword.eq_word_cons
    obtain ⟨p, used', rfl, rfl⟩ := map_token_cons hts
    exact named_complete hword

/-- What stands between the parentheses of a call, and the closing one. -/
theorem arguments_sound (hinner : Reads 3 inner G n) {method method' : Method}
    {found : List Expr} {toks rest : List Placed}
    (h : arguments s inner method toks = .ok ((method', found), rest)) :
    ∃ used p, toks = used ++ ⟨p, .closeParen⟩ :: rest ∧
      Arguments G method (used.map Placed.token) method' found n := by
  unfold arguments at h
  dsimp only at h
  split at h
  · rw [ok_bind] at h
    obtain ⟨hfound, q, htoks⟩ := closing_eq_ok.mp h
    obtain ⟨rfl, rfl⟩ := Prod.mk.inj hfound
    exact ⟨[], q, htoks, .none _⟩
  · rename_i hopen
    obtain ⟨⟨argument, rest₁⟩, hread, hmore⟩ := bind_eq_ok.mp h
    clear h hopen
    obtain ⟨used, rfl, hused⟩ := hinner.sound hread
    dsimp only at hmore
    split at hmore
    · rename_i given q after
      obtain ⟨⟨ignoreCase, rest₂⟩, hcomparer, hend⟩ := bind_eq_ok.mp hmore
      obtain ⟨used', rfl, hused'⟩ := comparer_sound hcomparer
      rw [pure_bind] at hend
      obtain ⟨hfound, p, rfl⟩ := closing_eq_ok.mp hend
      obtain ⟨rfl, rfl⟩ := Prod.mk.inj hfound
      refine ⟨used ++ ⟨q, .comma⟩ :: used', p, by simp, ?_⟩
      rw [List.map_append, List.map_cons]
      exact .compared given hused hused'
    · rw [pure_bind] at hmore
      obtain ⟨hfound, p, rfl⟩ := closing_eq_ok.mp hmore
      obtain ⟨rfl, rfl⟩ := Prod.mk.inj hfound
      exact ⟨used, p, rfl, .one _ hused⟩

/-- The reader decides by the closing parenthesis whether there is an argument, so no argument may
begin with one. -/
theorem arguments_complete (hinner : Reads 3 inner G n)
    (hrefuses : ∀ p rest x, inner (⟨p, .closeParen⟩ :: rest) ≠ .ok x) {method method' : Method}
    {found : List Expr} {used rest : List Placed} {p : Nat}
    (h : Arguments G method (used.map Placed.token) method' found n) :
    arguments s inner method (used ++ ⟨p, .closeParen⟩ :: rest) = .ok ((method', found), rest) := by
  -- an argument is read as such, whatever stands behind it
  have hargument : ∀ {first more : List Placed} {e : Expr}, G (first.map Placed.token) e n →
      Stops 3 more → ∀ q after, first ++ more ≠ ⟨q, .closeParen⟩ :: after := by
    intro first more e hfirst stops q after heq
    exact hrefuses q after _ (heq ▸ hinner.complete hfirst stops)
  generalize hts : used.map Placed.token = ts at h
  cases h with
  | none =>
    obtain rfl := List.map_eq_nil_iff.mp hts
    rfl
  | one _ hin =>
    subst hts
    have stops : Stops 3 (⟨p, .closeParen⟩ :: rest) := stops_cons (by simp [goesOn])
    rw [arguments.eq_2 _ _ _ _ (hargument hin stops), hinner.complete hin stops]
    cases method <;> rfl
  | compared given hin hcomparer =>
    obtain ⟨used₁, more, rfl, rfl, hmore⟩ := map_token_append hts
    obtain ⟨q, used₂, rfl, rfl⟩ := map_token_cons hmore
    have stops : Stops 3 (⟨q, .comma⟩ :: (used₂ ++ ⟨p, .closeParen⟩ :: rest)) :=
      stops_cons (by simp [goesOn])
    rw [List.append_assoc, List.cons_append, arguments.eq_2 _ _ _ _ (hargument hin stops),
      hinner.complete hin stops]
    simp only [ok_bind, comparer_complete hcomparer]
    rfl

/-- Members are taken one after the other; each adds a call around the expression. -/
theorem membersAfter_sound (hinner : Reads 3 inner G n) {fuel : Nat} {e e' : Expr}
    {toks rest : List Placed} (h : membersAfter s inner fuel e toks = .ok (e', rest)) :
    ∃ used, toks = used ++ rest ∧ Members G e (used.map Placed.token) e' n := by
  induction fuel generalizing e toks with
  | zero =>
    obtain ⟨rfl, rfl⟩ := Prod.mk.inj (Except.ok.inj h)
    exact ⟨[], rfl, .nil _⟩
  | succ fuel ih =>
    unfold membersAfter at h
    split at h
    · rename_i p after
      obtain ⟨⟨name, rest₁⟩, hword, hmore⟩ := bind_eq_ok.mp h
      obtain ⟨q, rfl⟩ := word_eq_ok.mp hword
      dsimp only at hmore
      split at hmore
      · rename_i r inside
        split at hmore
        · exact absurd hmore fault_ne_ok
        · rename_i method hmethod
          obtain ⟨⟨⟨method', found⟩, rest₂⟩, hargs, hrest⟩ := bind_eq_ok.mp hmore
          obtain ⟨used, c, rfl, hused⟩ := arguments_sound hinner hargs
          obtain ⟨used', rfl, hused'⟩ := ih hrest
          refine ⟨⟨p, .dot⟩ :: ⟨q, .word name⟩ :: ⟨r, .openParen⟩ ::
            (used ++ ⟨c, .closeParen⟩ :: used'), by simp, ?_⟩
          rw [List.map_cons, List.map_cons, List.map_cons, List.map_append, List.map_cons]
          exact .method hmethod hused hused'
      · split at hmore
        · exact absurd hmore fault_ne_ok
        · rename_i method hmethod
          obtain ⟨used, rfl, hused⟩ := ih hmore
          exact ⟨⟨p, .dot⟩ :: ⟨q, .word name⟩ :: used, rfl, .property hmethod hused⟩
    · obtain ⟨rfl, rfl⟩ := Prod.mk.inj (Except.ok.inj h)
      exact ⟨[], rfl, .nil _⟩

/-- Behind a member there is another one, or what stops members. -/
theorem Members.stops {G : Grammar} {e e' : Expr} {used rest : List Placed} {n : Nat}
    (h : Members G e (used.map Placed.token) e' n) (stops : Stops 0 rest) {p : Nat}
    {after : List Placed} : used ++ rest ≠ ⟨p, .openParen⟩ :: after := by
  rcases used with _ | ⟨⟨q, t⟩, more⟩
  · rintro rfl
    exact absurd stops.head (by simp [goesOn])
  · rintro heq
    obtain ⟨hnext, -⟩ := List.cons.inj heq
    obtain ⟨rfl, rfl⟩ := Placed.mk.inj hnext
    cases h

theorem membersAfter_complete (hinner : Reads 3 inner G n)
    (hrefuses : ∀ p rest x, inner (⟨p, .closeParen⟩ :: rest) ≠ .ok x) {e e' : Expr}
    {ts : List Token} (h : Members G e ts e' n) :
    ∀ {used rest : List Placed} {fuel : Nat}, used.map Placed.token = ts → Stops 0 rest →
      used.length ≤ fuel → membersAfter s inner fuel e (used ++ rest) = .ok (e', rest) := by
  induction h with
  | nil e =>
    rintro used rest (_ | fuel) hts stops hfuel
    · obtain rfl := List.map_eq_nil_iff.mp hts
      rfl
    · obtain rfl := List.map_eq_nil_iff.mp hts
      rw [List.nil_append]
      unfold membersAfter
      split
      · exact absurd stops.head (by simp [goesOn])
      · rfl
  | property known hrest ih =>
    rintro used rest (_ | fuel) hts stops hfuel
    · obtain ⟨p, more, rfl, hmore⟩ := map_token_cons hts
      simp at hfuel
    · obtain ⟨p, more, rfl, hmore⟩ := map_token_cons hts
      obtain ⟨q, more', rfl, rfl⟩ := map_token_cons hmore
      have hlength : more'.length ≤ fuel := by
        simp only [List.length_cons] at hfuel
        omega
      rw [List.cons_append, List.cons_append, membersAfter]
      simp only [word, ok_bind]
      -- behind a property the reader looks for the parenthesis of a method
      split
      · rename_i heq
        exact absurd heq (hrest.stops stops)
      · rw [known]
        exact ih hinner rfl stops hlength
  | method known hfound hrest ih =>
    rintro used rest (_ | fuel) hts stops hfuel
    · obtain ⟨p, more, rfl, hmore⟩ := map_token_cons hts
      simp at hfuel
    · obtain ⟨p, more, rfl, hmore⟩ := map_token_cons hts
      obtain ⟨q, more₁, rfl, hmore₁⟩ := map_token_cons hmore
      obtain ⟨r, more₂, rfl, hmore₂⟩ := map_token_cons hmore₁
      obtain ⟨inside, more₃, rfl, rfl, hmore₃⟩ := map_token_append hmore₂
      obtain ⟨c, used', rfl, rfl⟩ := map_token_cons hmore₃
      have hlength : used'.length ≤ fuel := by
        simp only [List.length_cons, List.length_append] at hfuel
        omega
      simp only [List.cons_append, List.append_assoc]
      rw [membersAfter]
      simp only [word, ok_bind, known, arguments_complete hinner hrefuses hfound]
      exact ih hinner rfl stops hlength

theorem member_sound (hinner : Reads 3 inner G n) {toks rest : List Placed} {e : Expr}
    (h : member s inner toks = .ok (e, rest)) :
    ∃ used used' e', toks = used ++ (used' ++ rest) ∧
      Primary s.row s.params G (used.map Placed.token) e' n ∧
      Members G e' (used'.map Placed.token) e n := by
  obtain ⟨⟨e', rest₁⟩, hoperand, hmembers⟩ := bind_eq_ok.mp h
  obtain ⟨used, rfl, hused⟩ := operand_sound hinner hoperand
  obtain ⟨used', rfl, hused'⟩ := membersAfter_sound hinner hmembers
  exact ⟨used, used', e', rfl, hused, hused'⟩

theorem member_complete (hinner : Reads 3 inner G n)
    (hrefuses : ∀ p rest x, inner (⟨p, .closeParen⟩ :: rest) ≠ .ok x)
    {used used' rest : List Placed} {e e' : Expr}
    (hprimary : Primary s.row s.params G (used.map Placed.token) e' n)
    (hmembers : Members G e' (used'.map Placed.token) e n) (stops : Stops 0 rest) :
    member s inner (used ++ (used' ++ rest)) = .ok (e, rest) := by
  rw [member, operand_complete hinner hprimary, ok_bind]
  exact membersAfter_complete hinner hrefuses hmembers rfl stops
    (by rw [List.length_append]; omega)

end Operands

/-! ### Levels -/

theorem negative_sound {s : Scope} {row : String} {params : List String} {n p : Nat}
    {toks rest : List Placed} {e : Expr} (h : negative s toks = .ok (e, rest)) :
    ∃ used, ⟨p, .minus⟩ :: toks = used ++ rest ∧
      Unary row params (used.map Placed.token) e n := by
  unfold negative at h
  split at h
  · rename_i q i after
    obtain ⟨rfl, rfl⟩ := Prod.mk.inj (Except.ok.inj h)
    exact ⟨[⟨p, .minus⟩, ⟨q, .integer i⟩], rfl, .negativeInteger i⟩
  · rename_i q x after
    obtain ⟨rfl, rfl⟩ := Prod.mk.inj (Except.ok.inj h)
    exact ⟨[⟨p, .minus⟩, ⟨q, .number x⟩], rfl, .negativeNumber x⟩
  · exact absurd h fault_ne_ok
  · exact absurd h fault_ne_ok

/-- An operand does not begin with a sign. -/
theorem operand_head_ne {row : String} {params : List String} {G : Grammar}
    {used : List Placed} {e : Expr} {n : Nat}
    (h : Primary row params G (used.map Placed.token) e n) (rest : List Placed) :
    (∀ p after, used ++ rest ≠ ⟨p, .bang⟩ :: after) ∧
      ∀ p after, used ++ rest ≠ ⟨p, .minus⟩ :: after := by
  generalize hts : used.map Placed.token = ts at h
  cases h with
  | parenthesized =>
    obtain ⟨p, more, rfl, -⟩ := map_token_cons hts
    simp
  | integer i =>
    obtain ⟨p, rfl⟩ := map_token_single hts
    simp
  | number x =>
    obtain ⟨p, rfl⟩ := map_token_single hts
    simp
  | named hword =>
    obtain ⟨name, ts', rfl⟩ := hword.eq_word_cons
    obtain ⟨p, more, rfl, -⟩ := map_token_cons hts
    simp

theorem deeper_none_ne_ok {α : Type} {s : Scope} {rest : List Placed} {x : α × List Placed} :
    deeper s none rest ≠ .ok x :=
  fault_ne_ok

theorem unary_eq_member {s : Scope} {n : Nat} {toks : List Placed}
    (hbang : ∀ p after, toks ≠ ⟨p, .bang⟩ :: after)
    (hminus : ∀ p after, toks ≠ ⟨p, .minus⟩ :: after) :
    unary s n toks = member s (expression s n) toks := by
  rcases n with _ | n
  · exact unary.eq_3 s toks hbang hminus
  · exact unary.eq_6 s toks n hbang hminus

theorem expression_closeParen {s : Scope} {n p : Nat} {rest : List Placed}
    {x : Expr × List Placed} : expression s n (⟨p, .closeParen⟩ :: rest) ≠ .ok x := by
  intro h
  rcases n with _ | n
  · rw [expression] at h
    exact deeper_none_ne_ok h
  · obtain ⟨_, hconjunction, _⟩ := bind_eq_ok.mp h
    obtain ⟨_, hcomparison, _⟩ := bind_eq_ok.mp hconjunction
    obtain ⟨_, hunary, _⟩ := bind_eq_ok.mp hcomparison
    rw [unary_eq_member (by simp) (by simp)] at hunary
    obtain ⟨_, hoperand, _⟩ := bind_eq_ok.mp hunary
    exact absurd hoperand (by simp [operand])

/-- An expression opens a level around the operands of the level below. -/
theorem reads_opened {s : Scope} {n : Nat} (h : Reads 0 (unary s n) (Unary s.row s.params) n) :
    Reads 3 (expression s (n + 1)) (Expression s.row s.params) (n + 1) := by
  have hor : Reads 3 (disjunction (unary s n))
      (Joined .or orMarks (Joined .and andMarks (Compared (Unary s.row s.params)))) n :=
    reads_joined (by simp [orMarks, Token.ofWord]) rfl
      (reads_joined (by simp [andMarks, Token.ofWord]) rfl (reads_comparison h))
  constructor
  · intro toks rest e hread
    obtain ⟨used, htoks, hused⟩ := hor.sound hread
    exact ⟨used, htoks, .opened hused⟩
  · intro used rest e hexpr stops
    obtain ⟨hinner⟩ := hexpr
    exact hor.complete hinner stops

/-- Operands with members and signs, around expressions of the same number of levels. -/
theorem reads_signed {s : Scope} {n : Nat}
    (hbelow : ∀ m, n = m + 1 → Reads 0 (unary s m) (Unary s.row s.params) m)
    (h : Reads 3 (expression s n) (Expression s.row s.params) n) :
    Reads 0 (unary s n) (Unary s.row s.params) n where
  sound {toks rest e} hread := by
    -- the first token tells a negation and a sign; without either there is an operand
    by_cases hbang : ∃ p after, toks = ⟨p, .bang⟩ :: after
    · obtain ⟨p, after, rfl⟩ := hbang
      rcases n with _ | n
      · exact absurd hread deeper_none_ne_ok
      · obtain ⟨⟨e', rest₁⟩, hnegated, hend⟩ := bind_eq_ok.mp hread
        obtain ⟨rfl, rfl⟩ := Prod.mk.inj (pure_eq_ok.mp hend)
        obtain ⟨used, rfl, hused⟩ := (hbelow n rfl).sound hnegated
        exact ⟨⟨p, .bang⟩ :: used, rfl, .not hused⟩
    by_cases hminus : ∃ p after, toks = ⟨p, .minus⟩ :: after
    · obtain ⟨p, after, rfl⟩ := hminus
      have hnegative : negative s after = .ok (e, rest) := by
        rcases n with _ | n <;> exact hread
      exact negative_sound hnegative
    · rw [unary_eq_member (by simpa using hbang) (by simpa using hminus)] at hread
      obtain ⟨used, used', e', rfl, hprimary, hmembers⟩ := member_sound h hread
      refine ⟨used ++ used', by simp, ?_⟩
      rw [List.map_append]
      exact .member hprimary hmembers
  complete {used rest e} hunary stops := by
    generalize hts : used.map Placed.token = ts at hunary
    cases hunary with
    | not operand =>
      obtain ⟨p, more, rfl, rfl⟩ := map_token_cons hts
      rename_i m
      show (unary s m (more ++ rest) >>= _) = _
      rw [(hbelow m rfl).complete operand stops]
      rfl
    | negativeInteger i =>
      obtain ⟨p, q, rfl⟩ := map_token_pair hts
      rcases n with _ | n <;> rfl
    | negativeNumber x =>
      obtain ⟨p, q, rfl⟩ := map_token_pair hts
      rcases n with _ | n <;> rfl
    | member primary members =>
      obtain ⟨used₁, used₂, rfl, rfl, rfl⟩ := map_token_append hts
      obtain ⟨hbang, hminus⟩ := operand_head_ne primary (used₂ ++ rest)
      rw [List.append_assoc, unary_eq_member hbang hminus]
      exact member_complete h (fun _ _ _ => expression_closeParen) primary members stops

/-- The readers of operands and of expressions read their nonterminals, for every number of levels
that can still be opened. -/
theorem reads_unary (s : Scope) (n : Nat) :
    Reads 0 (unary s n) (Unary s.row s.params) n ∧
      Reads 3 (expression s n) (Expression s.row s.params) n := by
  induction n with
  | zero =>
    have hexpr : Reads 3 (expression s 0) (Expression s.row s.params) 0 := by
      rw [expression]
      exact ⟨fun h => absurd h deeper_none_ne_ok, fun h _ => nomatch h⟩
    exact ⟨reads_signed (fun m hm => absurd hm (by omega)) hexpr, hexpr⟩
  | succ n ih =>
    -- an expression holds operands of the level below, and an operand expressions of its own level
    have hexpr := reads_opened ih.1
    refine ⟨reads_signed (fun m hm => ?_) hexpr, hexpr⟩
    obtain rfl : n = m := by omega
    exact ih.1

/-! ### The text of a filter -/

theorem head_eq_ok {length : Nat} {toks rest : List Placed} {row : String} :
    head length toks = .ok (row, rest) ↔
      ∃ used, toks = used ++ rest ∧ Head (used.map Placed.token) row := by
  constructor
  · intro h
    unfold head at h
    split at h
    · rename_i p after
      obtain ⟨⟨row', rest₁⟩, hword, hmore⟩ := bind_eq_ok.mp h
      obtain ⟨⟨u, rest₂⟩, hclose, hmore'⟩ := bind_eq_ok.mp hmore
      obtain ⟨⟨u', rest₃⟩, harrow, hend⟩ := bind_eq_ok.mp hmore'
      obtain ⟨q, rfl⟩ := word_eq_ok.mp hword
      obtain ⟨r, rfl⟩ := expect_eq_ok.mp hclose
      obtain ⟨t, rfl⟩ := expect_eq_ok.mp harrow
      obtain ⟨rfl, rfl⟩ := Prod.mk.inj (pure_eq_ok.mp hend)
      exact ⟨[⟨p, .openParen⟩, ⟨q, .word row'⟩, ⟨r, .closeParen⟩, ⟨t, .arrow⟩], rfl,
        .parenthesized row'⟩
    · obtain ⟨⟨row', rest₁⟩, hword, hmore⟩ := bind_eq_ok.mp h
      obtain ⟨⟨u, rest₂⟩, harrow, hend⟩ := bind_eq_ok.mp hmore
      obtain ⟨q, rfl⟩ := word_eq_ok.mp hword
      obtain ⟨t, rfl⟩ := expect_eq_ok.mp harrow
      obtain ⟨rfl, rfl⟩ := Prod.mk.inj (pure_eq_ok.mp hend)
      exact ⟨[⟨q, .word row'⟩, ⟨t, .arrow⟩], rfl, .plain row'⟩
  · rintro ⟨used, rfl, hused⟩
    generalize hts : used.map Placed.token = ts at hused
    cases hused with
    | plain =>
      obtain ⟨p, q, rfl⟩ := map_token_pair hts
      rfl
    | parenthesized =>
      obtain ⟨p, more, rfl, hmore⟩ := map_token_cons hts
      obtain ⟨q, more', rfl, hmore'⟩ := map_token_cons hmore
      obtain ⟨r, t, rfl⟩ := map_token_pair hmore'
      rfl

/-- The steps of reading a text. -/
theorem parse_eq_ok_iff {params : List String} {text : String} {e : Expr} :
    parse params text = .ok e ↔
      (∀ c ∈ text.toList, isQuotation c = false) ∧ ∃ toks, Token.scan text.toList = .ok toks ∧
        ∃ row rest, head (Token.byteLength text.toList) toks = .ok (row, rest) ∧ row ∉ params ∧
          expression ⟨row, params, Token.byteLength text.toList⟩ maxLevels rest = .ok (e, []) := by
  have hquotation : text.toList.any isQuotation = false ↔
      ∀ c ∈ text.toList, isQuotation c = false := by
    simp
  rw [← hquotation, parse]
  by_cases hany : text.toList.any isQuotation = true
  · rw [if_pos hany]
    exact iff_of_false throw_bind_ne_ok (fun h => by simp [hany] at h)
  · rw [if_neg hany]
    dsimp only
    constructor
    · intro h
      obtain ⟨toks, hscan, h₁⟩ := bind_eq_ok.mp h
      obtain ⟨⟨row, rest⟩, hhead, h₂⟩ := bind_eq_ok.mp h₁
      dsimp only at h₂
      split_ifs at h₂ with hrow
      · exact absurd h₂ throw_bind_ne_ok
      · obtain ⟨⟨e', rest'⟩, hexpr, hend⟩ := bind_eq_ok.mp h₂
        dsimp only at hend
        split_ifs at hend with hrest
        · obtain rfl := pure_eq_ok.mp hend
          obtain rfl := List.isEmpty_iff.mp hrest
          exact ⟨by simpa using hany, toks, hscan, row, rest, hhead, by simpa using hrow, hexpr⟩
        · exact absurd hend fault_ne_ok
    · rintro ⟨-, toks, hscan, row, rest, hhead, hrow, hexpr⟩
      simp only [hscan, hhead, ok_bind]
      rw [if_neg (by simpa using hrow), hexpr]
      rfl

/-- **The reader accepts its grammar.** A text is read as an expression if and only if it holds no
quotation mark and its tokens derive the expression. -/
theorem parse_eq_ok_iff_derives {params : List String} {text : String} {e : Expr} :
    parse params text = .ok e ↔
      (∀ c ∈ text.toList, isQuotation c = false) ∧
        ∃ toks, Token.scan text.toList = .ok toks ∧
          Derives params (toks.map Placed.token) e := by
  rw [parse_eq_ok_iff]
  refine and_congr_right fun _ => exists_congr fun toks => and_congr_right fun _ => ?_
  constructor
  · rintro ⟨row, rest, hhead, hfree, hbody⟩
    obtain ⟨used, rfl, hused⟩ := head_eq_ok.mp hhead
    obtain ⟨body, rfl, hexpr⟩ := (reads_unary _ _).2.sound hbody
    rw [List.map_append, List.append_nil]
    exact .intro hused hfree hexpr
  · intro h
    generalize hts : toks.map Placed.token = ts at h
    obtain ⟨hhead, hfree, hexpr⟩ := h
    obtain ⟨used, body, rfl, rfl, rfl⟩ := map_token_append hts
    refine ⟨_, body, head_eq_ok.mpr ⟨used, rfl, hhead⟩, hfree, ?_⟩
    have hread := (reads_unary ⟨_, params, Token.byteLength text.toList⟩ maxLevels).2.complete hexpr
      (stops_nil 3)
    rwa [List.append_nil] at hread

end Lambda

end TypedSql

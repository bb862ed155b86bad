/-
Reading conditions.

The reader takes the pieces of a condition from left to right, and goes on behind an operand with
every operator that its place lets through.

* `reading_sound` — what is read is spelled by the pieces taken and well grouped;
* `readsBack_of_wellGrouped` — a well-grouped phrase is read from its spelling;
* `read_eq_some` — so the reader is exact, and no spelling has two well-grouped phrases.
-/
import TypedSql.Proofs.Phrase

namespace TypedSql

namespace Condition

open Phrase (level pieces piecesOfList piecesBehind testPieces WellGrouped)

/-- Reads an operand of one piece, or of a sign and a number. -/
def leaf : List Piece → Option (Leaf × List Piece)
  | .column name :: rest => some (.column name, rest)
  | .placeholder name :: rest => some (.placeholder name, rest)
  | .number spelling :: rest => some (.number false spelling, rest)
  | .minus :: .number spelling :: rest => some (.number true spelling, rest)
  | .text content :: rest => some (.text content, rest)
  | .constant value :: rest => some (.constant value, rest)
  | _ => none

/-- Reads what stands behind the first word of a null test. -/
def nullBehind : List Piece → Option (Bool × List Piece)
  | .constant none :: rest => some (false, rest)
  | .not :: .constant none :: rest => some (true, rest)
  | _ => none

/-- Reads a closing parenthesis. -/
def closing : List Piece → Option (List Piece)
  | .closeParen :: rest => some rest
  | _ => none

mutual

/-- Reads an operand that no operator holds together. -/
def operand : List Piece → Option (Phrase × List Piece)
  | .openParen :: rest => do
    let (inner, rest) ← reading 4 rest
    let rest ← closing rest
    some (.group inner, rest)
  | .function name :: .openParen :: .closeParen :: rest => some (.call name [], rest)
  | .function name :: .openParen :: rest => do
    let (first, ⟨rest, _⟩) ← bounded rest (reading 4 rest)
    let (more, rest) ← arguments rest
    some (.call name (first :: more), rest)
  | ts => do
    let (value, rest) ← leaf ts
    some (.leaf value, rest)
termination_by ts => 2 * ts.length

/-- Reads the arguments behind the first one, and the closing parenthesis. -/
def arguments : List Piece → Option (List Phrase × List Piece)
  | .comma :: rest => do
    let (next, ⟨rest, _⟩) ← bounded rest (reading 4 rest)
    let (more, rest) ← arguments rest
    some (next :: more, rest)
  | ts => do
    let rest ← closing ts
    some ([], rest)
termination_by ts => 2 * ts.length

/-- Reads a phrase up to a level. -/
def reading (n : Nat) : List Piece → Option (Phrase × List Piece)
  | .not :: rest =>
    if 2 ≤ n then do
      let (inner, ⟨rest, _⟩) ← bounded rest (reading 2 rest)
      after n (.not inner) rest
    else none
  | ts => do
    let (first, ⟨rest, _⟩) ← bounded ts (operand ts)
    after n first rest
termination_by ts => 2 * ts.length + 1

/-- Goes on behind a phrase with operators up to a level. -/
def after (n : Nat) (left : Phrase) : List Piece → Option (Phrase × List Piece)
  | .operator op :: rest =>
    if op.level ≤ n then do
      let (right, ⟨rest, _⟩) ← bounded rest (reading (op.level - 1) rest)
      after n (.binary op left right) rest
    else some (left, .operator op :: rest)
  | .is :: rest =>
    if 1 ≤ n then do
      let (negated, ⟨rest, _⟩) ← bounded rest (nullBehind rest)
      after n (.nullTest negated left) rest
    else some (left, .is :: rest)
  | ts => some (left, ts)
termination_by ts => 2 * ts.length

end

/-- The phrase that a list of pieces spells. -/
def read (ts : List Piece) : Option Phrase :=
  match reading 4 ts with
  | some (t, []) => some t
  | _ => none

/-! ### What is read is well grouped -/

/-- The next piece is no operator that binds more tightly than a level. -/
def Loose (k : Nat) (rest : List Piece) : Prop :=
  ∀ p ∈ rest.head?, ∀ l ∈ p.level?, k ≤ l

theorem Loose.mono {k k' : Nat} {rest : List Piece} (h : Loose k' rest) (hk : k ≤ k') :
    Loose k rest :=
  fun p hp l hl => Nat.le_trans hk (h p hp l hl)

/-- No operator is on the level of negations. -/
theorem Loose.succ_two {rest : List Piece} (h : Loose 2 rest) : Loose 3 rest := by
  intro p hp l hl
  refine Nat.lt_of_le_of_ne (h p hp l hl) ?_
  rintro rfl
  cases p with
  | operator op => exact op.level_ne_two (by simpa [Piece.level?] using hl)
  | _ => exact absurd hl (by simp [Piece.level?])

theorem loose_nil (k : Nat) : Loose k [] :=
  fun p hp => absurd hp (by simp)

theorem loose_cons {k : Nat} {p : Piece} {rest : List Piece} :
    Loose k (p :: rest) ↔ ∀ l ∈ p.level?, k ≤ l := by
  simp [Loose]

theorem loose_operator {k : Nat} {op : Operator} {rest : List Piece} :
    Loose k (.operator op :: rest) ↔ k ≤ op.level := by
  simp [loose_cons, Piece.level?]

theorem loose_is {k : Nat} {rest : List Piece} : Loose k (.is :: rest) ↔ k ≤ 1 := by
  simp [loose_cons, Piece.level?]

/-- No operator binds more tightly than a comparison. -/
theorem loose_one (rest : List Piece) : Loose 1 rest := by
  intro p _ l hl
  cases p with
  | operator op =>
    obtain rfl : op.level = l := by simpa [Piece.level?] using hl
    exact op.level_pos
  | is => exact Nat.le_of_eq (by simpa [Piece.level?] using hl)
  | _ => exact absurd hl (by simp [Piece.level?])

/-- A phrase of a level is taken off pieces that do not go on with an operator of this level. -/
structure Taken (n : Nat) (ts : List Piece) (t : Phrase) (rest : List Piece) : Prop where
  spelled : ts = t.pieces ++ rest
  grouped : t.WellGrouped
  tight : t.level ≤ n
  loose : Loose (n + 1) rest

theorem leaf_sound {ts rest : List Piece} {value : Leaf} (h : leaf ts = some (value, rest)) :
    ts = value.pieces ++ rest := by
  rw [leaf.eq_def] at h
  split at h
  all_goals
    first
    | (obtain ⟨rfl, rfl⟩ := Prod.mk.inj (Option.some.inj h)
       rfl)
    | exact absurd h (by simp)

theorem nullBehind_sound {ts rest : List Piece} {negated : Bool}
    (h : nullBehind ts = some (negated, rest)) : .is :: ts = testPieces negated ++ rest := by
  rw [nullBehind.eq_def] at h
  split at h
  all_goals
    first
    | (obtain ⟨rfl, rfl⟩ := Prod.mk.inj (Option.some.inj h)
       rfl)
    | exact absurd h (by simp)

theorem closing_sound {ts rest : List Piece} (h : closing ts = some rest) :
    ts = .closeParen :: rest := by
  rw [closing.eq_def] at h
  split at h
  · rw [Option.some.inj h]
  · exact absurd h (by simp)

/-- What the readers take is spelled by what they return, which is well grouped. An operator behind
a phrase takes all of it as its left operand, so it may bind no more tightly than the phrase. -/
theorem reading_sound :
    (∀ ts r, operand ts = some r →
      ts = r.1.pieces ++ r.2 ∧ r.1.WellGrouped ∧ r.1.level = 0) ∧
    (∀ ts r, arguments ts = some r →
      ts = piecesBehind r.1 ++ .closeParen :: r.2 ∧ ∀ a ∈ r.1, a.WellGrouped) ∧
    (∀ n ts r, reading n ts = some r → Taken n ts r.1 r.2) ∧
    (∀ n left ts r, after n left ts = some r → left.WellGrouped → left.level ≤ n →
      Loose left.level ts → Taken n (left.pieces ++ ts) r.1 r.2) := by
  -- by induction along the calls of the four readers, with one case for each way they go
  refine operand.mutual_induct _ _ _ _ ?group ?callNone ?call ?leaf ?next ?last ?not ?looseNot
    ?operand ?binary ?looseOperator ?nullTest ?looseTest ?stop
  case group =>
    intro rest hreading r h
    rw [operand.eq_def] at h
    obtain ⟨⟨inner, behind⟩, hinner, h⟩ := Option.bind_eq_some_iff.mp h
    obtain ⟨behind', hclose, h⟩ := Option.bind_eq_some_iff.mp h
    obtain rfl := Option.some.inj h
    have taken := hreading _ hinner
    refine ⟨?_, .group taken.grouped, rfl⟩
    rw [taken.spelled, closing_sound hclose]
    simp [pieces]
  case callNone =>
    intro name rest r h
    rw [operand.eq_def] at h
    obtain rfl := Option.some.inj h
    exact ⟨rfl, .call _ (by simp), rfl⟩
  case call =>
    intro name rest hopen hreading harguments r h
    rw [operand.eq_3 _ _ hopen] at h
    obtain ⟨⟨first, behind⟩, hfirst, h⟩ := Option.bind_eq_some_iff.mp h
    obtain ⟨⟨more, behind'⟩, hmore, h⟩ := Option.bind_eq_some_iff.mp h
    obtain rfl := Option.some.inj h
    have taken := hreading _ (eq_some_of_bounded hfirst)
    obtain ⟨hspelled, hgrouped⟩ := harguments behind.1 behind.2 _ hmore
    refine ⟨?_, .call _ (List.forall_mem_cons.mpr ⟨taken.grouped, hgrouped⟩), rfl⟩
    rw [taken.spelled, hspelled]
    simp [pieces, piecesOfList]
  case leaf =>
    intro ts hopen hcallNone hcall r h
    rw [operand.eq_4 _ hopen hcallNone hcall] at h
    obtain ⟨⟨value, rest⟩, hvalue, h⟩ := Option.bind_eq_some_iff.mp h
    obtain rfl := Option.some.inj h
    refine ⟨?_, .leaf _, rfl⟩
    rw [leaf_sound hvalue]
    rfl
  case next =>
    intro rest hreading harguments r h
    rw [arguments.eq_def] at h
    obtain ⟨⟨next, behind⟩, hnext, h⟩ := Option.bind_eq_some_iff.mp h
    obtain ⟨⟨more, behind'⟩, hmore, h⟩ := Option.bind_eq_some_iff.mp h
    obtain rfl := Option.some.inj h
    have taken := hreading _ (eq_some_of_bounded hnext)
    obtain ⟨hspelled, hgrouped⟩ := harguments behind.1 behind.2 _ hmore
    refine ⟨?_, List.forall_mem_cons.mpr ⟨taken.grouped, hgrouped⟩⟩
    rw [taken.spelled, hspelled]
    simp [piecesBehind]
  case last =>
    intro ts hcomma r h
    rw [arguments.eq_2 _ hcomma] at h
    obtain ⟨rest, hclose, h⟩ := Option.bind_eq_some_iff.mp h
    obtain rfl := Option.some.inj h
    exact ⟨closing_sound hclose, by simp⟩
  case not =>
    intro n rest hn hreading hafter r h
    rw [reading.eq_1, if_pos hn] at h
    obtain ⟨⟨inner, behind⟩, hinner, h⟩ := Option.bind_eq_some_iff.mp h
    have taken := hreading _ (eq_some_of_bounded hinner)
    have hloose : Loose (level (.not inner)) behind.1 := taken.loose.mono (by simp [level])
    rw [taken.spelled]
    exact hafter inner behind.1 behind.2 r h (.not taken.grouped taken.tight) hn hloose
  case looseNot =>
    intro n rest hn r h
    rw [reading.eq_1, if_neg hn] at h
    exact absurd h (by simp)
  case operand =>
    intro n ts hnot hoperand hafter r h
    rw [reading.eq_2 _ _ hnot] at h
    obtain ⟨⟨first, behind⟩, hfirst, h⟩ := Option.bind_eq_some_iff.mp h
    obtain ⟨hspelled, hgrouped, hlevel⟩ := hoperand _ (eq_some_of_bounded hfirst)
    dsimp only at hspelled hlevel
    rw [hspelled]
    exact hafter first behind.1 behind.2 r h hgrouped (by omega) (fun p hp => by omega)
  case binary =>
    intro n left op rest hn hreading hafter r h hleft hlevel hloose
    rw [after.eq_1, if_pos hn] at h
    obtain ⟨⟨right, behind⟩, hright, h⟩ := Option.bind_eq_some_iff.mp h
    have taken := hreading _ (eq_some_of_bounded hright)
    have htight : left.level ≤ op.level := loose_operator.mp hloose
    have hpos := op.level_pos
    -- the right operand took all operators below the level of `op`
    have hbehind : Loose (level (.binary op left right)) behind.1 :=
      taken.loose.mono (by simp only [level]; omega)
    have hbinary := hafter right behind.1 behind.2 r h
      (.binary hleft taken.grouped htight (Nat.lt_of_le_pred hpos taken.tight)) hn hbehind
    rw [taken.spelled]
    simpa [pieces] using hbinary
  case looseOperator =>
    intro n left op rest hn r h hleft hlevel hloose
    rw [after.eq_1, if_neg hn] at h
    obtain rfl := Option.some.inj h
    exact ⟨rfl, hleft, hlevel, loose_operator.mpr (by omega)⟩
  case nullTest =>
    intro n left rest hn hafter r h hleft hlevel hloose
    rw [after.eq_2, if_pos hn] at h
    obtain ⟨⟨negated, behind⟩, htest, h⟩ := Option.bind_eq_some_iff.mp h
    have htaken := hafter negated behind.1 behind.2 r h
      (.nullTest negated hleft (loose_is.mp hloose)) hn (loose_one _)
    rw [nullBehind_sound (eq_some_of_bounded htest), ← List.append_assoc]
    exact htaken
  case looseTest =>
    intro n left rest hn r h hleft hlevel hloose
    rw [after.eq_2, if_neg hn] at h
    obtain rfl := Option.some.inj h
    exact ⟨rfl, hleft, hlevel, loose_is.mpr (by omega)⟩
  case stop =>
    intro n left ts hoperator his r h hleft hlevel hloose
    rw [after.eq_3 _ _ _ hoperator his] at h
    obtain rfl := Option.some.inj h
    -- a piece that is neither an operator nor the word of a null test has no level
    refine ⟨rfl, hleft, hlevel, fun p hp l hl => ?_⟩
    obtain ⟨rest, rfl⟩ : ∃ rest, ts = p :: rest := List.head?_eq_some_iff.mp hp
    cases p with
    | operator op => exact absurd rfl (hoperator op rest)
    | is => exact absurd rfl (his rest)
    | _ => exact absurd hl (by simp [Piece.level?])

/-! ### What is well grouped is read -/

theorem leaf_pieces (value : Leaf) (rest : List Piece) :
    leaf (value.pieces ++ rest) = some (value, rest) := by
  rcases value with _ | _ | ⟨_ | _⟩ | _ | _ <;> rfl

theorem nullBehind_testPieces (negated : Bool) (rest : List Piece) :
    ∃ more, testPieces negated ++ rest = .is :: more ∧ rest.length ≤ more.length ∧
      nullBehind more = some (negated, rest) := by
  cases negated with
  | false => exact ⟨_, rfl, by simp, rfl⟩
  | true => exact ⟨_, rfl, Nat.le_add_right rest.length 2, rfl⟩

theorem operand_leaf (value : Leaf) (rest : List Piece) :
    operand (value.pieces ++ rest) = some (.leaf value, rest) := by
  have hother : operand (value.pieces ++ rest) =
      (leaf (value.pieces ++ rest)).bind fun r => some (.leaf r.1, r.2) := by
    rcases value with _ | _ | ⟨_ | _⟩ | _ | _ <;> rw [operand.eq_def] <;> rfl
  rw [hother, leaf_pieces]
  rfl

theorem operand_not (rest : List Piece) : operand (.not :: rest) = none := by
  rw [operand.eq_def]
  rfl

/-- Behind an operand, the reader goes on with operators. -/
theorem reading_of_operand {rest : List Piece} {t : Phrase}
    (h : operand (t.pieces ++ rest) = some (t, rest)) (n : Nat) :
    reading n (t.pieces ++ rest) = after n t rest := by
  have hnot : ∀ more, t.pieces ++ rest = .not :: more → False := by
    intro more heq
    rw [heq, operand_not] at h
    exact absurd h (by simp)
  rw [reading.eq_2 _ _ hnot, h, bounded_some (by simp)]
  rfl

theorem after_of_loose {n : Nat} {rest : List Piece} (h : Loose (n + 1) rest) (t : Phrase) :
    after n t rest = some (t, rest) := by
  rw [after.eq_def]
  split
  · exact if_neg (Nat.not_le_of_lt (loose_operator.mp h))
  · exact if_neg (Nat.not_le_of_lt (loose_is.mp h))
  · rfl

/-- The reader goes on behind the spelling of a phrase. -/
def ReadsBack (t : Phrase) : Prop :=
  ∀ n rest, t.level ≤ n → Loose t.level rest → reading n (t.pieces ++ rest) = after n t rest

/-- Within parentheses and argument lists, a phrase is read to its end. -/
theorem ReadsBack.whole {t : Phrase} (h : ReadsBack t) {p : Piece} (hp : p.level? = none)
    (rest : List Piece) : reading 4 (t.pieces ++ p :: rest) = some (t, p :: rest) := by
  have hloose : ∀ k, Loose k (p :: rest) := fun k => loose_cons.mpr (by simp [hp])
  rw [h 4 _ t.level_le (hloose _), after_of_loose (hloose 5)]

theorem piecesBehind_eq_cons (es : List Phrase) (rest : List Piece) :
    ∃ p more, piecesBehind es ++ .closeParen :: rest = p :: more ∧ p.level? = none := by
  cases es with
  | nil => exact ⟨_, _, rfl, rfl⟩
  | cons e es => exact ⟨_, _, rfl, rfl⟩

theorem arguments_piecesBehind {es : List Phrase} (h : ∀ e ∈ es, ReadsBack e)
    (rest : List Piece) :
    arguments (piecesBehind es ++ .closeParen :: rest) = some (es, rest) := by
  induction es with
  | nil =>
    rw [arguments.eq_def]
    rfl
  | cons e es ih =>
    obtain ⟨p, more, hmore, hp⟩ := piecesBehind_eq_cons es rest
    have hread := (h e (by simp)).whole hp more
    rw [← hmore] at hread
    rw [arguments.eq_def]
    simp only [piecesBehind, List.cons_append, List.append_assoc]
    rw [hread, bounded_some (by simp), Option.bind_eq_bind, Option.bind_some]
    rw [ih fun e' he' => h e' (by simp [he'])]
    rfl

theorem readsBack_of_operand {t : Phrase}
    (h : ∀ rest, operand (t.pieces ++ rest) = some (t, rest)) : ReadsBack t :=
  fun n rest _ _ => reading_of_operand (h rest) n

theorem readsBack_call {args : List Phrase} (function : String)
    (each : ∀ e ∈ args, ReadsBack e) : ReadsBack (.call function args) := by
  refine readsBack_of_operand fun rest => ?_
  cases args with
  | nil =>
    rw [operand.eq_def]
    rfl
  | cons e es =>
    obtain ⟨p, more, hmore, hp⟩ := piecesBehind_eq_cons es rest
    have hread := (each e (by simp)).whole hp more
    have hes : ∀ e' ∈ es, ReadsBack e' := fun e' he' => each e' (by simp [he'])
    have hrest := arguments_piecesBehind hes rest
    -- the reader tells a call with arguments by what follows the opening parenthesis
    have hopen : ∀ rest', e.pieces ++ p :: more = .closeParen :: rest' → False := by
      intro rest' heq
      exact e.head_pieces_ne_closeParen _ (congrArg List.head? heq)
    have hspelled : pieces (.call function (e :: es)) ++ rest =
        .function function :: .openParen :: (e.pieces ++ p :: more) := by
      rw [← hmore]
      simp [pieces, piecesOfList]
    rw [hspelled, operand.eq_3 _ _ hopen, hread, ← hmore, bounded_some (by simp)]
    simp only [Option.bind_eq_bind, Option.bind_some, hrest]

theorem readsBack_of_wellGrouped {t : Phrase} (h : t.WellGrouped) : ReadsBack t := by
  induction h with
  | leaf value => exact readsBack_of_operand (operand_leaf value)
  | call function _ ih => exact readsBack_call function ih
  | group _ ih =>
    refine readsBack_of_operand fun rest => ?_
    rw [operand.eq_def]
    simp only [pieces, List.cons_append, List.append_assoc, List.nil_append]
    rw [ih.whole rfl]
    rfl
  | binary _ _ leftLevel rightLevel ihleft ihright =>
    rename_i op left right _ _
    intro n rest hn hloose
    have hpos := op.level_pos
    change op.level ≤ n at hn
    change Loose op.level rest at hloose
    -- the right operand is read below the level of `op`, so `op` itself may follow it
    have hright : reading (op.level - 1) (right.pieces ++ rest) = some (right, rest) := by
      rw [ihright _ _ (by omega) (hloose.mono (by omega))]
      exact after_of_loose (hloose.mono (by omega)) right
    rw [pieces, List.append_assoc, List.cons_append,
      ihleft n _ (by omega) (loose_operator.mpr leftLevel), after.eq_def]
    dsimp only
    rw [if_pos hn, hright, bounded_some (by simp)]
    rfl
  | nullTest negated _ tight ih =>
    intro n rest hn _
    change 1 ≤ n at hn
    obtain ⟨more, hmore, hlength, hbehind⟩ := nullBehind_testPieces negated rest
    rw [pieces, List.append_assoc, hmore, ih n _ (by omega) (loose_is.mpr tight), after.eq_def]
    dsimp only
    rw [if_pos hn, hbehind, bounded_some hlength]
    rfl
  | not _ tight ih =>
    rename_i operand _
    intro n rest hn hloose
    change 2 ≤ n at hn
    have hinner : reading 2 (operand.pieces ++ rest) = some (operand, rest) := by
      rw [ih 2 rest tight (hloose.mono tight)]
      exact after_of_loose hloose.succ_two operand
    rw [pieces, List.cons_append, reading.eq_def]
    dsimp only
    rw [if_pos hn, hinner, bounded_some (by simp)]
    rfl

/-! ### The reader is exact -/

/-- A list of pieces is read as a phrase if and only if the phrase is well grouped and they spell
it. -/
theorem read_eq_some {ts : List Piece} {t : Phrase} :
    read ts = some t ↔ t.WellGrouped ∧ t.pieces = ts := by
  constructor
  · intro h
    rw [read] at h
    split at h
    · rename_i t' hread
      obtain rfl := Option.some.inj h
      have taken := reading_sound.2.2.1 _ _ _ hread
      exact ⟨taken.grouped, by simpa using taken.spelled.symm⟩
    · exact absurd h (by simp)
  · rintro ⟨hgrouped, rfl⟩
    have hread := readsBack_of_wellGrouped hgrouped 4 [] t.level_le (loose_nil _)
    rw [List.append_nil, after_of_loose (loose_nil _)] at hread
    rw [read, hread]

end Condition

end TypedSql

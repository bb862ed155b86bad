/-
How a text is split into its placeholders.

The segments of a text are those that spell it, with names that go on as long as they can
(`Segment.Maximal`): behind a placeholder, and behind an `@` that stands alone, there is no
character of a name.

* `Segment.split_eq_iff` — these two conditions determine the segments of a text;
* `Segment.split_positional` — question marks in the place of placeholders begin no new ones.
-/
import Mathlib
import TypedSql.Statement.Placeholder

namespace TypedSql

namespace Segment

/-- No name begins or goes on here. -/
def EndsName (cs : List Char) : Prop :=
  ∀ c ∈ cs.head?, Text.isIdentifierChar c = false

theorem endsName_cons {c : Char} {cs : List Char} :
    EndsName (c :: cs) ↔ Text.isIdentifierChar c = false := by
  simp [EndsName]

/-- The text of a list of segments. -/
def textOf (segments : List Segment) : List Char :=
  segments.flatMap spell

@[simp] theorem textOf_cons (s : Segment) (segments : List Segment) :
    textOf (s :: segments) = s.spell ++ textOf segments :=
  rfl

/-- Names go on as long as they can, and none stands behind an `@` outside placeholders. -/
inductive Maximal : List Segment → Prop
  | nil : Maximal []
  | plain {c : Char} {rest : List Segment} (lone : c = '@' → EndsName (textOf rest))
      (behind : Maximal rest) : Maximal (.plain c :: rest)
  | placeholder {name : List Char} {rest : List Segment} (some : name ≠ [])
      (each : ∀ c ∈ name, Text.isIdentifierChar c = true) (ends : EndsName (textOf rest))
      (behind : Maximal rest) : Maximal (.placeholder name :: rest)

/-! ### The segments of a text -/

/-- Behind an `@`, a name is taken to its end. -/
theorem splitFrom_name {name run rest : List Char}
    (hrun : ∀ c ∈ run, Text.isIdentifierChar c = true) (hrest : EndsName rest) :
    splitFrom (some name) (run ++ rest) = ofName (name ++ run) :: splitFrom none rest := by
  induction run generalizing name with
  | nil =>
    rw [List.nil_append, List.append_nil]
    cases rest with
    | nil => rfl
    | cons c rest =>
      have hc : ¬ Text.isIdentifierChar c = true := by simpa using endsName_cons.mp hrest
      simp only [splitFrom]
      rw [if_neg hc]
      split_ifs
      · rfl
      · rfl
  | cons c run ih =>
    rw [List.cons_append, splitFrom, if_pos (hrun c (by simp)), ih fun d hd => hrun d (by simp [hd])]
    simp

theorem maximal_ofName {name : List Char} {rest : List Segment}
    (each : ∀ c ∈ name, Text.isIdentifierChar c = true) (ends : EndsName (textOf rest))
    (behind : Maximal rest) : Maximal (ofName name :: rest) := by
  cases name with
  | nil => exact .plain (fun _ => ends) behind
  | cons c name => exact .placeholder (by simp) each ends behind

/-- What is split off is maximal, whether or not an `@` has been passed. -/
theorem maximal_splitFrom (cs : List Char) :
    Maximal (splitFrom none cs) ∧ ∀ name : List Char,
      (∀ c ∈ name, Text.isIdentifierChar c = true) → Maximal (splitFrom (some name) cs) := by
  induction cs with
  | nil => exact ⟨.nil, fun name hname => maximal_ofName hname (by simp [EndsName, textOf]) .nil⟩
  | cons c rest ih =>
    obtain ⟨hnone, hsome⟩ := ih
    constructor
    · rw [splitFrom]
      split_ifs with hat
      · exact hsome [] (by simp)
      · exact .plain (fun h => absurd h hat) hnone
    · intro name hname
      rw [splitFrom]
      split_ifs with hchar hat
      · refine hsome _ fun d hd => ?_
        rcases List.mem_append.mp hd with hd | hd
        · exact hname d hd
        · exact List.mem_singleton.mp hd ▸ hchar
      · -- the next `@` ends the name
        refine maximal_ofName hname ?_ (hsome [] (by simp))
        rw [textOf, spell_splitFrom]
        exact endsName_cons.mpr (by decide)
      · refine maximal_ofName hname ?_ (.plain (fun h => absurd h hat) hnone)
        exact endsName_cons.mpr (by simpa using hchar)

theorem split_textOf {segments : List Segment} (h : Maximal segments) :
    split (textOf segments) = segments := by
  induction h with
  | nil => rfl
  | plain lone _ ih =>
    rename_i c rest _
    rw [textOf_cons, spell, List.singleton_append, split, splitFrom]
    split_ifs with hat
    · have hlone : splitFrom (some []) (textOf rest) = ofName [] :: splitFrom none (textOf rest) :=
        splitFrom_name (List.forall_mem_nil _) (lone hat)
      rw [hlone, ← split, ih, hat]
      rfl
    · rw [← split, ih]
  | placeholder some each ends _ ih =>
    rename_i name rest _
    rw [textOf_cons, spell, List.cons_append, split, splitFrom, if_pos rfl, splitFrom_name each ends,
      ← split, ih, List.nil_append, ofName, if_neg (by simpa using some)]

/-- The segments of a text are those that spell it with names as long as they can be. -/
theorem split_eq_iff {cs : List Char} {segments : List Segment} :
    split cs = segments ↔ Maximal segments ∧ textOf segments = cs := by
  constructor
  · rintro rfl
    exact ⟨(maximal_splitFrom cs).1, spell_segments cs⟩
  · rintro ⟨hmaximal, rfl⟩
    exact split_textOf hmaximal

/-! ### Question marks for placeholders -/

/-- A question mark in the place of a placeholder. -/
def positional : Segment → Segment
  | plain c => plain c
  | placeholder _ => plain '?'

theorem fill_eq_textOf (segments : List Segment) :
    fill (fun _ => ['?']) segments = textOf (segments.map positional) := by
  rw [textOf, List.flatMap_map, fill]
  congr 1
  funext s
  cases s <;> rfl

/-- Where no name begins in a text, none begins in its positional form. -/
theorem endsName_positional {segments : List Segment} (h : EndsName (textOf segments)) :
    EndsName (textOf (segments.map positional)) := by
  cases segments with
  | nil => exact h
  | cons s segments =>
    cases s with
    | plain c => exact endsName_cons.mpr (endsName_cons.mp h)
    | placeholder name => exact endsName_cons.mpr (by decide)

theorem maximal_positional {segments : List Segment} (h : Maximal segments) :
    Maximal (segments.map positional) := by
  induction h with
  | nil => exact .nil
  | plain lone _ ih => exact .plain (fun hat => endsName_positional (lone hat)) ih
  | placeholder _ _ _ _ ih => exact .plain (fun h => absurd h (by decide)) ih

/-- Question marks in the place of placeholders begin no new ones. -/
theorem split_positional {segments : List Segment} (h : Maximal segments) :
    split (fill (fun _ => ['?']) segments) = segments.map positional :=
  split_eq_iff.mpr ⟨maximal_positional h, (fill_eq_textOf segments).symm⟩

theorem count_positional {segments : List Segment} (h : Maximal segments) :
    (fill (fun _ => ['?']) segments).count '?' =
      (textOf segments).count '?' + (segments.filterMap name?).length := by
  induction h with
  | nil => rfl
  | plain _ _ ih =>
    simp only [fill, textOf_cons, List.flatMap_cons, List.count_append, spell] at ih ⊢
    rw [ih, List.filterMap_cons_none (f := name?) rfl]
    omega
  | placeholder _ each _ _ ih =>
    rename_i name _ _ _ _
    have hname : '?' ∉ '@' :: name := by
      intro hmem
      rcases List.mem_cons.mp hmem with hat | hmem
      · exact absurd hat (by decide)
      · exact absurd (each '?' hmem) (by decide)
    simp only [fill, textOf_cons, List.flatMap_cons, List.count_append, spell] at ih ⊢
    rw [ih, List.count_eq_zero.mpr hname, List.filterMap_cons_some (f := name?) rfl, List.length_cons]
    simp
    omega

end Segment

end TypedSql

/-
Binding by name, as the server sees it.

* `FirstWithout` — the placeholder that binding stops at;
* `Binds` — the text and the values that stand for a statement: a question mark for each of its
  placeholders, and their values in the same order;
* `Connection.bound_exact` — binding gives the one or the other, and in a built statement every
  question mark stands for a value.
-/
import TypedSql.Connection.Basic
import TypedSql.Proofs.Alphabet
import TypedSql.Proofs.Segments

namespace TypedSql

namespace Statement

variable {s : Statement} {b : Bindings}

/-- The first placeholder, from left to right, that has no value. -/
def FirstWithout (s : Statement) (b : Bindings) (name : String) : Prop :=
  ∃ before after, s.placeholders = before ++ name :: after ∧
    (∀ earlier ∈ before, (b.get? earlier).isSome = true) ∧ b.get? name = none

/-- A text and values that stand for a statement. -/
structure Binds (s : Statement) (b : Bindings) (r : BoundStatement) : Prop where
  /-- The placeholders give way to question marks; all other characters stay. -/
  text : ∃ segments, Segment.Maximal segments ∧ Segment.textOf segments = s.text.toList ∧
    segments.filterMap Segment.name? = s.placeholders ∧
    r.text.toList = Segment.textOf (segments.map Segment.positional)
  /-- Each value is that of the placeholder in its place. -/
  values : List.Forall₂ (fun name value => b.get? name = some value) s.placeholders r.values

/-- The segments of a statement. -/
theorem exists_segments (s : Statement) : ∃ segments, Segment.Maximal segments ∧
    Segment.textOf segments = s.text.toList ∧
    segments.filterMap Segment.name? = s.placeholders := by
  obtain ⟨hmaximal, htext⟩ := Segment.split_eq_iff.mp (Eq.refl (Segment.split s.text.toList))
  exact ⟨_, hmaximal, htext, rfl⟩

/-! ### What binding gives -/

theorem forall₂_values {names : List String}
    (h : ∀ name ∈ names, (b.get? name).isSome = true) :
    List.Forall₂ (fun name value => b.get? name = some value) names (names.filterMap b.get?) := by
  induction names with
  | nil => exact .nil
  | cons name names ih =>
    obtain ⟨value, hvalue⟩ := Option.isSome_iff_exists.mp (h name (by simp))
    rw [List.filterMap_cons_some hvalue]
    exact .cons hvalue (ih fun name' hname' => h name' (by simp [hname']))

theorem bind_eq_error_iff {name : String} : s.bind b = .error name ↔ FirstWithout s b name := by
  have hfirst : s.placeholders.find? (fun name => (b.get? name).isNone) = some name ↔
      FirstWithout s b name := by
    rw [List.find?_eq_some_iff_append, Option.isNone_iff_eq_none]
    constructor
    · rintro ⟨hnone, before, after, heq, hbefore⟩
      exact ⟨before, after, heq, by simpa [Option.isSome_iff_ne_none] using hbefore, hnone⟩
    · rintro ⟨before, after, heq, hbefore, hnone⟩
      exact ⟨hnone, before, after, heq, by simpa [Option.isSome_iff_ne_none] using hbefore⟩
  rw [← hfirst, bind]
  split
  · rename_i missing hmissing
    rw [hmissing, Except.error.injEq, Option.some_inj]
  · rename_i hmissing
    rw [hmissing]
    simp

/-- The two forms of a statement with placeholders, and no others, stand for it. -/
theorem Binds.eq {r r' : BoundStatement} (h : Binds s b r) (h' : Binds s b r') : r = r' := by
  obtain ⟨segments, hmaximal, htext, -, hform⟩ := h.text
  obtain ⟨segments', hmaximal', htext', -, hform'⟩ := h'.text
  obtain rfl : segments = segments' :=
    (Segment.split_textOf hmaximal).symm.trans (htext.trans htext'.symm ▸
      Segment.split_textOf hmaximal')
  have hvalues : r.values = r'.values := by
    have hname : Relator.RightUnique fun name value => b.get? name = some value :=
      fun _ _ _ hvalue hvalue' => Option.some.inj (hvalue.symm.trans hvalue')
    exact Relator.RightUnique.forall₂ hname h.values h'.values
  rw [BoundStatement.mk.injEq]
  exact ⟨String.toList_inj.mp (hform.trans hform'.symm), hvalues⟩

theorem bind_eq_ok_iff {r : BoundStatement} : s.bind b = .ok r ↔ Binds s b r := by
  have hbinds : ∀ {r}, s.bind b = .ok r → Binds s b r := by
    intro r h
    rw [bind] at h
    split at h
    · exact absurd h (by simp)
    · rename_i hfound
      obtain rfl := Except.ok.inj h
      obtain ⟨segments, hmaximal, htext, hnames⟩ := s.exists_segments
      refine ⟨⟨segments, hmaximal, htext, hnames, ?_⟩, forall₂_values fun name hname => ?_⟩
      · rw [substitute, String.toList_ofList, ← htext, Segment.split_textOf hmaximal,
          Segment.fill_eq_textOf]
      · simpa [Option.isSome_iff_ne_none] using List.find?_eq_none.mp hfound name hname
  refine ⟨hbinds, fun h => ?_⟩
  cases hbind : s.bind b with
  | ok r' => rw [h.eq (hbinds hbind)]
  | error name =>
    -- a placeholder without a value has no place among the values
    obtain ⟨before, after, heq, -, hnone⟩ := bind_eq_error_iff.mp hbind
    have hname : name ∈ s.placeholders := by simp [heq]
    obtain ⟨value, -, hvalue⟩ := exists_mem_of_forall₂ h.values.flip hname
    exact absurd (hnone.symm.trans hvalue) (by simp)

/-! ### Question marks -/

theorem Binds.placeholders_eq_nil {r : BoundStatement} (h : Binds s b r) :
    TypedSql.placeholders r.text = [] := by
  obtain ⟨segments, hmaximal, -, -, hform⟩ := h.text
  rw [TypedSql.placeholders, hform, Segment.split_textOf (Segment.maximal_positional hmaximal),
    List.filterMap_map]
  refine List.filterMap_eq_nil_iff.mpr fun segment _ => ?_
  cases segment <;> rfl

theorem Binds.count_question {r : BoundStatement} (h : Binds s b r) :
    r.text.toList.count '?' = s.text.toList.count '?' + s.placeholders.length := by
  obtain ⟨segments, hmaximal, htext, hnames, hform⟩ := h.text
  rw [hform, ← htext, ← hnames, ← Segment.fill_eq_textOf, Segment.count_positional hmaximal]

end Statement

namespace Connection

open Statement (Binds FirstWithout)

theorem bound_eq_ok_iff {s : Statement} {b : Bindings} {r : BoundStatement} :
    bound s b = .ok r ↔ Binds s b r := by
  rw [← Statement.bind_eq_ok_iff, bound]
  cases s.bind b <;> simp

theorem bound_eq_error_iff {s : Statement} {b : Bindings} {e : ConnectionError} :
    bound s b = .error e ↔ ∃ name, FirstWithout s b name ∧ e = .missingParameter name := by
  simp only [← Statement.bind_eq_error_iff, bound]
  cases s.bind b <;> simp [eq_comm]

/-- Binding fails at the first placeholder without a value, which it names, and at nothing else;
otherwise it puts a question mark for each placeholder and the values in the same order, so that no
placeholder is left and no other question mark is added. In a built statement all question marks are
these. -/
theorem bound_exact (s : Statement) (b : Bindings) :
    (∀ e, bound s b = .error e ↔ ∃ name, FirstWithout s b name ∧ e = .missingParameter name) ∧
    (∀ r, bound s b = .ok r ↔ Binds s b r) ∧
    ((∃ r, bound s b = .ok r) ↔ ∀ name ∈ s.placeholders, (b.get? name).isSome = true) ∧
    (∀ r, bound s b = .ok r → placeholders r.text = [] ∧
      r.text.toList.count '?' = s.text.toList.count '?' + s.placeholders.length ∧
      (s.Built → '?' ∉ s.text.toList ∧ r.text.toList.count '?' = r.values.length)) := by
  refine ⟨fun e => bound_eq_error_iff, fun r => bound_eq_ok_iff, ⟨?_, fun h => ?_⟩, fun r h => ?_⟩
  · rintro ⟨r, hr⟩ name hname
    obtain ⟨value, -, hvalue⟩ := exists_mem_of_forall₂ (bound_eq_ok_iff.mp hr).values.flip hname
    exact Option.isSome_iff_exists.mpr ⟨value, hvalue⟩
  · cases hbound : bound s b with
    | ok r => exact ⟨r, rfl⟩
    | error e =>
      obtain ⟨name, ⟨before, after, heq, -, hnone⟩, -⟩ := bound_eq_error_iff.mp hbound
      exact absurd (h name (by simp [heq])) (by simp [hnone])
  · have hbinds := bound_eq_ok_iff.mp h
    refine ⟨hbinds.placeholders_eq_nil, hbinds.count_question, fun hbuilt =>
      ⟨hbuilt.notMem_question, ?_⟩⟩
    rw [hbinds.count_question, List.count_eq_zero.mpr hbuilt.notMem_question, Nat.zero_add,
      hbinds.values.length_eq]

/-- A name that stands twice is bound twice. -/
theorem bound_twice :
    ∃ s r, Compiler.delete ⟨"shop", by decide⟩
        ⟨"Stock", "stock", [{ property := "LeftOver", host := ⟨.i32, false⟩ },
          { property := "Ordered", host := ⟨.i32, false⟩ }]⟩
        ⟨.logical .or [.compare .lt (.field "LeftOver") (.param "least"),
          .compare .lt (.field "Ordered") (.param "least")], [⟨"least", ⟨.i32, false⟩⟩]⟩ = .ok s ∧
      bound s (.ofList [("least", .int 5)]) = .ok r ∧
      r.text = "DELETE FROM `shop`.`stock`\nWHERE ((`LEFT_OVER` < ?) OR (`ORDERED` < ?));" ∧
      r.values = [.int 5, .int 5] ∧ r.text.toList.count '?' = r.values.length := by
  have hparse : Filter.parse "row => row.LeftOver < least || row.Ordered < least"
      [⟨"least", ⟨.i32, false⟩⟩] =
        .ok ⟨.logical .or [.compare .lt (.field "LeftOver") (.param "least"),
          .compare .lt (.field "Ordered") (.param "least")], [⟨"least", ⟨.i32, false⟩⟩]⟩ := rfl
  have hmade : Compiler.delete ⟨"shop", by decide⟩
      ⟨"Stock", "stock", [{ property := "LeftOver", host := ⟨.i32, false⟩ },
        { property := "Ordered", host := ⟨.i32, false⟩ }]⟩
      ⟨.logical .or [.compare .lt (.field "LeftOver") (.param "least"),
        .compare .lt (.field "Ordered") (.param "least")], [⟨"least", ⟨.i32, false⟩⟩]⟩ =
          .ok ⟨"DELETE FROM `shop`.`stock`\nWHERE ((`LEFT_OVER` < @least) OR (`ORDERED` < @least));",
            [⟨"least", "int", none, .input⟩]⟩ := by
    decide +kernel
  have hbound : bound
      ⟨"DELETE FROM `shop`.`stock`\nWHERE ((`LEFT_OVER` < @least) OR (`ORDERED` < @least));",
        [⟨"least", "int", none, .input⟩]⟩ (.ofList [("least", .int 5)]) =
          .ok ⟨"DELETE FROM `shop`.`stock`\nWHERE ((`LEFT_OVER` < ?) OR (`ORDERED` < ?));",
            [.int 5, .int 5]⟩ := by
    decide +kernel
  have hmarks := ((bound_exact _ _).2.2.2 _ hbound).2.2 (.delete (.parse hparse) hmade)
  exact ⟨_, _, hmade, hbound, rfl, rfl, hmarks.2⟩

end Connection

end TypedSql

/-
The body of a stored procedure: the lines of a statement whose placeholders became names.

* `Procedure.lines_eq_iff` — the lines of a text are the pieces between its line ends, a last end
  aside;
* `Procedure.placeholders_indented` — no placeholder is left in the body: a name in backticks begins
  none, and neither does a line behind one that an `@` ends.
-/
import TypedSql.Proofs.Spacing
import TypedSql.Statement.Procedure

namespace TypedSql

namespace Procedure

/-! ### Lines -/

/-- Lines, with what ends them, make up a text. The last line may end with the text. -/
inductive LinesOf : List Char → List (List Char) → Prop
  | nil : LinesOf [] []
  | last {line : List Char} (some : line ≠ []) (inLine : '\n' ∉ line) : LinesOf line [line]
  | feed {line rest : List Char} {lines : List (List Char)} (inLine : '\n' ∉ line)
      (alone : line.getLast? ≠ some '\r') (behind : LinesOf rest lines) :
      LinesOf (line ++ '\n' :: rest) (line :: lines)
  | returnFeed {line rest : List Char} {lines : List (List Char)} (inLine : '\n' ∉ line)
      (behind : LinesOf rest lines) : LinesOf (line ++ '\r' :: '\n' :: rest) (line :: lines)

/-- Lines behind a character that ends none. -/
theorem lines_cons {c : Char} {rest : List Char} (hfeed : c ≠ '\n')
    (hreturn : c = '\r' → rest.head? ≠ some '\n') :
    lines (c :: rest) = match lines rest with
      | [] => [[c]]
      | line :: more => (c :: line) :: more := by
  refine (lines.eq_3 c rest ?_).trans ((if_neg hfeed).trans ?_)
  · rintro more hc rfl
    exact hreturn hc rfl
  · cases lines rest <;> rfl

theorem lines_feed (rest : List Char) : lines ('\n' :: rest) = [] :: lines rest := by
  rw [lines, if_pos rfl]
  exact fun more h => absurd h (by decide)

theorem linesOf_cons {c : Char} {rest : List Char} (hfeed : c ≠ '\n')
    (hreturn : c = '\r' → rest.head? ≠ some '\n') (h : LinesOf rest (lines rest)) :
    LinesOf (c :: rest) (lines (c :: rest)) := by
  have hin {line : List Char} (inLine : '\n' ∉ line) : '\n' ∉ c :: line := by
    simpa [Ne.symm hfeed] using inLine
  rw [lines_cons hfeed hreturn]
  generalize lines rest = ls at h
  cases h with
  | nil => exact .last (by simp) (hin List.not_mem_nil)
  | last _ inLine => exact .last (by simp) (hin inLine)
  | @feed line rest lines inLine alone behind =>
    refine .feed (hin inLine) ?_ behind
    cases line with
    | nil => simpa using fun hc => hreturn hc rfl
    | cons d line => simpa [List.getLast?_cons] using alone
  | returnFeed inLine behind => exact .returnFeed (hin inLine) behind

theorem linesOf_lines (cs : List Char) : LinesOf cs (lines cs) := by
  have behind {c : Char} {rest : List Char}
      (hreturn : ∀ more, c = '\r' → rest = '\n' :: more → False) (hc : c = '\r') :
      rest.head? ≠ some '\n' := fun hhead => by
    obtain ⟨more, hrest⟩ := List.head?_eq_some_iff.mp hhead
    exact hreturn more hc hrest
  induction cs using lines.induct with
  | case1 => exact .nil
  | case2 rest ih => exact @LinesOf.returnFeed [] rest _ List.not_mem_nil ih
  | case3 rest _ ih =>
    rw [lines_feed]
    exact @LinesOf.feed [] rest _ List.not_mem_nil (by simp) ih
  | case4 c rest hreturn hfeed _ ih => exact linesOf_cons hfeed (behind hreturn) ih
  | case5 c rest hreturn hfeed _ _ _ ih => exact linesOf_cons hfeed (behind hreturn) ih

/-- Characters of a line in front of lines. -/
theorem lines_append {line tail first : List Char} {more : List (List Char)}
    (inLine : '\n' ∉ line) (alone : line.getLast? = some '\r' → tail.head? ≠ some '\n')
    (h : lines tail = first :: more) : lines (line ++ tail) = (line ++ first) :: more := by
  induction line with
  | nil => exact h
  | cons c line ih =>
    rw [List.mem_cons, not_or] at inLine
    have hreturn : c = '\r' → (line ++ tail).head? ≠ some '\n' := by
      cases line with
      | nil => exact fun hc => alone (by simp [hc])
      | cons d line =>
        intro _ hd
        obtain rfl := Option.some.inj hd
        exact inLine.2 List.mem_cons_self
    have hrest : lines (line ++ tail) = (line ++ first) :: more := by
      refine ih inLine.2 fun hlast => alone ?_
      rw [List.getLast?_cons, hlast]
      rfl
    rw [List.cons_append, lines_cons (Ne.symm inLine.1) hreturn, hrest]
    rfl

/-- The lines of a text are the pieces between its line ends. -/
theorem lines_eq_iff {cs : List Char} {ls : List (List Char)} : lines cs = ls ↔ LinesOf cs ls := by
  constructor
  · rintro rfl
    exact linesOf_lines cs
  · intro h
    induction h with
    | nil => rfl
    | @last line some inLine =>
      obtain ⟨init, c, rfl⟩ := (List.eq_nil_or_concat line).resolve_left some
      rw [List.concat_eq_append] at inLine ⊢
      rw [List.mem_append, not_or] at inLine
      have hlast : lines [c] = [[c]] :=
        lines_cons (fun hc => inLine.2 (hc ▸ List.mem_cons_self)) (by simp)
      exact lines_append inLine.1 (fun _ hc => inLine.2 (by simp [Option.some.inj hc])) hlast
    | @feed line rest lines inLine alone behind ih =>
      rw [lines_append inLine (fun h => absurd h alone) (lines_feed rest), ih, List.append_nil]
    | @returnFeed line rest lines inLine behind ih =>
      rw [lines_append inLine (by simp) (Procedure.lines.eq_2 rest), ih, List.append_nil]

end Procedure

/-! ### Texts without placeholders -/

/-- No name stands behind an `@`. -/
def Markless (cs : List Char) : Prop :=
  cs.IsChain fun c d => c = '@' → Text.isIdentifierChar d = false

namespace Markless

variable {cs ds : List Char}

/-- A text without an `@`. -/
theorem of_notMem (h : '@' ∉ cs) : Markless cs := by
  induction cs with
  | nil => exact .nil
  | cons c cs ih =>
    rw [List.mem_cons, not_or] at h
    exact (ih h.2).cons fun _ _ hc => absurd hc.symm h.1

theorem maximal (h : Markless cs) : Segment.Maximal (cs.map .plain) := by
  induction cs with
  | nil => exact .nil
  | cons c cs ih =>
    obtain ⟨hbehind, hrest⟩ := List.isChain_cons.mp h
    refine .plain (fun hc => ?_) (ih hrest)
    rw [Segment.textOf_plain]
    exact fun d hd => hbehind d hd hc

/-- Such a text has no placeholder. -/
theorem placeholders_eq_nil {text : String} (h : Markless text.toList) :
    placeholders text = [] := by
  have hsplit : Segment.split text.toList = text.toList.map .plain :=
    Segment.split_eq_iff.mpr ⟨h.maximal, Segment.textOf_plain _⟩
  rw [placeholders, hsplit, List.filterMap_map]
  exact List.filterMap_eq_nil_iff.mpr fun _ _ => rfl

/-- Two such texts, the second of which begins with no character of a name. -/
theorem append (h : Markless cs) (h' : Markless ds) (ends : Segment.EndsName ds) :
    Markless (cs ++ ds) :=
  List.isChain_append.mpr ⟨h, h', fun _ _ d hd _ => ends d hd⟩

end Markless

namespace Procedure

/-! ### Names for placeholders -/

/-- The text of a segment, with a routine parameter's name in backticks for a placeholder. -/
def refer : Segment → List Char
  | .plain c => [c]
  | .placeholder name => "`p_".toList ++ name ++ "`".toList

theorem toList_substitute (text : String) :
    (substitute parameterReference text).toList = (Segment.split text.toList).flatMap refer := by
  rw [substitute, String.toList_ofList, Segment.fill]
  congr 1
  funext s
  cases s with
  | plain c => rfl
  | placeholder name => simp [refer, parameterReference, routineParameterName, Lexeme.spell]

theorem endsName_refer {segments : List Segment} (h : Segment.EndsName (Segment.textOf segments)) :
    Segment.EndsName (segments.flatMap refer) := by
  cases segments with
  | nil => exact h
  | cons s segments =>
    cases s with
    | plain c => exact Segment.endsName_cons.mpr (Segment.endsName_cons.mp h)
    | placeholder name => exact Segment.endsName_cons.mpr (by decide)

theorem markless_refer {segments : List Segment} (h : Segment.Maximal segments) :
    Markless (segments.flatMap refer) := by
  induction h with
  | nil => exact .nil
  | plain lone _ ih => exact ih.cons fun d hd hc => endsName_refer (lone hc) d hd
  | @placeholder name rest some each ends _ ih =>
    have hname : '@' ∉ refer (.placeholder name) := by
      have heach : '@' ∉ name := fun hat => absurd (each _ hat) (by decide)
      simpa [refer] using heach
    exact (Markless.of_notMem hname).append ih (endsName_refer ends)

/-! ### Lines without placeholders -/

theorem LinesOf.markless {cs : List Char} {ls : List (List Char)} (h : LinesOf cs ls)
    (hcs : Markless cs) : ∀ line ∈ ls, Markless line := by
  induction h with
  | nil => simp
  | last => simpa using hcs
  | feed _ _ _ ih =>
    obtain ⟨hline, hrest, -⟩ := List.isChain_append.mp hcs
    exact List.forall_mem_cons.mpr ⟨hline, ih hrest.tail⟩
  | returnFeed _ _ ih =>
    obtain ⟨hline, hrest, -⟩ := List.isChain_append.mp hcs
    exact List.forall_mem_cons.mpr ⟨hline, ih hrest.tail.tail⟩

/-- What holds of each line behind a tab and of any two texts with a line end between them holds of
indented lines. -/
theorem indented_induction {P : List Char → Prop} (nil : P [])
    (between : ∀ {xs ys}, P xs → P ys → P (xs ++ '\n' :: ys)) {ls : List (List Char)}
    (h : ∀ line ∈ ls, P ('\t' :: line)) :
    P (List.intercalate ['\n'] (ls.map ('\t' :: ·))) := by
  induction ls with
  | nil => exact nil
  | cons line rest ih =>
    obtain ⟨hline, hrest⟩ := List.forall_mem_cons.mp h
    cases rest with
    | nil => simpa [List.intercalate] using hline
    | cons next rest =>
      rw [List.map_cons, List.map_cons, List.intercalate_cons_cons, List.append_assoc]
      exact between hline (ih hrest)

theorem markless_indented {ls : List (List Char)} (h : ∀ line ∈ ls, Markless line) :
    Markless (List.intercalate ['\n'] (ls.map ('\t' :: ·))) := by
  refine indented_induction .nil (fun hxs hys => ?_) fun line hline => ?_
  · have hbehind := hys.cons (x := '\n') fun _ _ hc => absurd hc (by decide)
    exact hxs.append hbehind (Segment.endsName_cons.mpr (by decide))
  · exact (h line hline).cons fun _ _ hc => absurd hc (by decide)

/-- Where names stand for the placeholders of a text, its indented lines have none. -/
theorem placeholders_indented {segments : List Segment} (h : Segment.Maximal segments)
    {ls : List (List Char)} (hlines : LinesOf (segments.flatMap refer) ls) {body : String}
    (hbody : body.toList = List.intercalate ['\n'] (ls.map ('\t' :: ·))) :
    placeholders body = [] :=
  Markless.placeholders_eq_nil (hbody ▸ markless_indented (hlines.markless (markless_refer h)))

end Procedure

end TypedSql

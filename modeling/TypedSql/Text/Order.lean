/-
Texts in order, by code points, which is the order of their bytes; each text once.

Main statements: `mem_ordered` (no text is lost or added) and `pairwise_ordered` (the order is strict).
-/

namespace TypedSql.Text

/-- Puts a text into its place among ordered texts. -/
def insertOrdered (s : String) : List String → List String
  | [] => [s]
  | t :: rest =>
    if s < t then s :: t :: rest
    else if s = t then t :: rest
    else t :: insertOrdered s rest

/-- The texts of a list in order, each once. -/
def ordered (texts : List String) : List String :=
  texts.foldr insertOrdered []

theorem mem_insertOrdered {s t : String} {texts : List String} :
    t ∈ insertOrdered s texts ↔ t = s ∨ t ∈ texts := by
  induction texts with
  | nil => simp [insertOrdered]
  | cons u rest ih =>
    rw [insertOrdered]
    split
    · simp
    · split
      · rename_i h
        subst h
        simp
      · simp [ih, or_left_comm]

theorem mem_ordered {t : String} {texts : List String} : t ∈ ordered texts ↔ t ∈ texts := by
  induction texts with
  | nil => simp [ordered]
  | cons s rest ih => simpa [ordered, mem_insertOrdered] using or_congr_right ih

theorem pairwise_insertOrdered (s : String) {texts : List String}
    (h : texts.Pairwise (· < ·)) : (insertOrdered s texts).Pairwise (· < ·) := by
  induction texts with
  | nil => simp [insertOrdered]
  | cons t rest ih =>
    rw [List.pairwise_cons] at h
    rw [insertOrdered]
    split
    · rename_i hst
      refine List.pairwise_cons.2 ⟨fun u hu => ?_, List.pairwise_cons.2 h⟩
      rcases List.mem_cons.1 hu with rfl | hu
      · exact hst
      · exact String.lt_trans hst (h.1 u hu)
    · split
      · exact List.pairwise_cons.2 h
      · rename_i hst hne
        refine List.pairwise_cons.2 ⟨fun u hu => ?_, ih h.2⟩
        rcases mem_insertOrdered.1 hu with rfl | hu
        · have hle : t ≤ u := String.not_lt.1 hst
          exact String.not_le.1 fun hge => hne (String.le_antisymm hge hle)
        · exact h.1 u hu

theorem pairwise_ordered (texts : List String) : (ordered texts).Pairwise (· < ·) := by
  induction texts with
  | nil => simp [ordered]
  | cons s rest ih => exact pairwise_insertOrdered s ih

end TypedSql.Text

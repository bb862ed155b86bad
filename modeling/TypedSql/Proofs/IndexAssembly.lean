/-
Indexes against the rows they are put together from.

The rows of an index are those that name it and tell a column. They are sorted by the places they
tell, rows of one place as they are listed (`Sorted`), and each gives a column of the index.

* `bytes_lt` — the order of texts is that of their bytes;
* `ofRow_eq_ok` — a row is refused if it lacks a name or number, whether it tells a column or not;
* `ofRows_eq_ok` — what is listed is put together from the rows with a column alone;
* `ofRows_exact` — no row is lost, none counts twice, and if no two rows of an index tell the same
  place, they may be listed in any order.
-/
import Mathlib
import TypedSql.Catalog.Index
import TypedSql.Proofs.DeclarationGrammar
import TypedSql.Proofs.Outcome

namespace TypedSql

/-! ### Texts by their bytes -/

namespace Text

/-- The bytes of a text in UTF-8. -/
def bytes (s : String) : List UInt8 :=
  s.toUTF8.data.toList

theorem bytes_eq_flatMap (s : String) : bytes s = s.toList.flatMap String.utf8EncodeChar := by
  rw [bytes, String.toUTF8, ← String.utf8Encode_toList, List.utf8Encode]
  simp

/-- The bytes of a character decide against those of another one, whatever stands behind. -/
theorem utf8EncodeChar_append_lt {c d : Char} (h : c < d) (xs ys : List UInt8) :
    String.utf8EncodeChar c ++ xs < String.utf8EncodeChar d ++ ys := by
  have hlt : c.val.toNat < d.val.toNat := h
  have hmax : d.val.toNat < 0x110000 := by
    have hvalid := d.valid
    rw [UInt32.isValidChar, Nat.isValidChar] at hvalid
    omega
  have hdiv : ∀ n : Nat, n / 4096 = n / 64 / 64 ∧ n / 262144 = n / 64 / 64 / 64 := by omega
  have hbyte : ∀ n m b : Nat, m + b ≤ 256 → 0 < m → (n % m + b) % 256 = n % m + b := by
    intro n m b hbound hm
    have := Nat.mod_lt n hm
    omega
  unfold String.utf8EncodeChar
  simp only
  split_ifs
  -- one case for each two lengths of the characters, of which the first is not greater
  all_goals
    simp (disch := omega) only [List.cons_append, List.nil_append, List.cons_lt_cons_iff,
      UInt8.lt_iff_toNat_lt, ← UInt8.toNat_inj, UInt8.toNat_ofNat', Nat.reducePow, (hdiv _).1,
      (hdiv _).2, hbyte]
    omega

theorem bytes_lt {s t : String} (h : s < t) : bytes s < bytes t := by
  rw [bytes_eq_flatMap, bytes_eq_flatMap]
  have hlist : s.toList < t.toList := h
  -- the first characters that differ decide, and what is in front of them has the same bytes
  generalize s.toList = cs at hlist
  generalize t.toList = ds at hlist
  induction cs generalizing ds with
  | nil =>
    cases ds with
    | nil => exact absurd hlist (List.lt_irrefl [])
    | cons d ds =>
      obtain ⟨b, more, heq⟩ := List.exists_cons_of_ne_nil (String.utf8EncodeChar_ne_nil (c := d))
      rw [List.flatMap_nil, List.flatMap_cons, heq]
      exact List.nil_lt_cons _ _
  | cons c cs ih =>
    cases ds with
    | nil => exact absurd hlist (List.not_lt_nil _)
    | cons d ds =>
      rw [List.flatMap_cons, List.flatMap_cons]
      obtain hcd | ⟨rfl, hrest⟩ := List.cons_lt_cons_iff.mp hlist
      · exact utf8EncodeChar_append_lt hcd _ _
      · exact List.append_left_lt (ih ds hrest)

/-- Texts are put in order in one way, however they are listed. -/
theorem ordered_eq_of_perm {texts texts' : List String} (h : texts.Perm texts') :
    ordered texts = ordered texts' := by
  have hnodup : ∀ texts : List String, (ordered texts).Nodup := by
    intro texts
    refine (pairwise_ordered texts).imp ?_
    rintro s _ hlt rfl
    exact String.lt_irrefl s hlt
  have hperm : (ordered texts).Perm (ordered texts') := by
    refine (List.perm_ext_iff_of_nodup (hnodup texts) (hnodup texts')).mpr fun t => ?_
    rw [mem_ordered, mem_ordered]
    exact h.mem_iff
  refine List.Perm.eq_of_pairwise ?_ (pairwise_ordered texts) (pairwise_ordered texts') hperm
  intro s t _ _ hst hts
  exact absurd (String.lt_trans hst hts) (String.lt_irrefl s)

end Text

/-! ### Sorting -/

section Sorting

variable {α : Type} {key : α → UInt32}

/-- The order of keys. -/
def byKey (key : α → UInt32) (a b : α) : Bool :=
  key a ≤ key b

theorem byKey_trans (a b c : α) (h : byKey key a b = true) (h' : byKey key b c = true) :
    byKey key a c = true := by
  simp only [byKey, decide_eq_true_eq] at h h' ⊢
  exact UInt32.le_trans h h'

theorem byKey_total (a b : α) : (byKey key a b || byKey key b a) = true := by
  simpa [byKey] using UInt32.le_total (key a) (key b)

theorem pairwise_mergeSort_byKey (xs : List α) :
    (xs.mergeSort (byKey key)).Pairwise fun a b => key a ≤ key b :=
  (List.pairwise_mergeSort byKey_trans byKey_total xs).imp fun h => of_decide_eq_true h

/-- Members of one key stay as they are listed. -/
theorem filter_mergeSort_byKey (key : α → UInt32) (xs : List α) (k : UInt32) :
    (xs.mergeSort (byKey key)).filter (fun a => key a = k) = xs.filter fun a => key a = k := by
  have hequal : (xs.filter fun a => key a = k).Pairwise fun a b => byKey key a b = true := by
    refine List.pairwise_of_forall_mem_list fun a ha b hb => ?_
    have hka : key a = k := by simpa using (List.mem_filter.mp ha).2
    have hkb : key b = k := by simpa using (List.mem_filter.mp hb).2
    rw [byKey, hka, hkb]
    simp
  -- what is in order as it is listed stays so, and nothing of this key is added
  have hsub := List.sublist_mergeSort byKey_trans byKey_total hequal List.filter_sublist
  have hsub' := hsub.filter fun a => decide (key a = k)
  rw [List.filter_filter] at hsub'
  simp only [Bool.and_self] at hsub'
  refine (hsub'.eq_of_length ?_).symm
  exact ((List.mergeSort_perm xs (byKey key)).filter _).length_eq.symm

/-- Lists with the same members, each of another key, are sorted into one list. -/
theorem mergeSort_byKey_eq_of_perm {xs ys : List α} (h : xs.Perm ys)
    (hapart : (xs.map key).Nodup) :
    xs.mergeSort (byKey key) = ys.mergeSort (byKey key) := by
  have hperm : (xs.mergeSort (byKey key)).Perm (ys.mergeSort (byKey key)) :=
    (List.mergeSort_perm xs _).trans (h.trans (List.mergeSort_perm ys _).symm)
  refine List.Perm.eq_of_pairwise ?_ (pairwise_mergeSort_byKey xs) (pairwise_mergeSort_byKey ys)
    hperm
  intro a b ha hb hab hba
  have ha' : a ∈ xs := List.mem_mergeSort.mp ha
  have hb' : b ∈ xs := h.mem_iff.mpr (List.mem_mergeSort.mp hb)
  exact List.inj_on_of_nodup_map hapart ha' hb' (UInt32.le_antisymm hab hba)

end Sorting

/-! ### Numbers in rows -/

namespace TextRow

/-- A row has a number of 32 bits in a column, with white space around it. -/
def HasNumber (row : TextRow) (column : String) (n : UInt32) : Prop :=
  ∃ text, row.get? column = some text ∧ Declaration.NumberText text.toList n

theorem requireNumber_eq_ok {row : TextRow} {column : String} {n : UInt32} :
    row.requireNumber column = .ok n ↔ row.HasNumber column n := by
  rw [requireNumber, require, HasNumber]
  cases hcell : row.get? column with
  | none => simp [bind, Except.bind]
  | some text =>
    simp only [Option.some.injEq, exists_eq_left', ← Declaration.argument?_eq_some_iff,
      Declaration.argument?, ok_bind]
    cases hread : Text.readNumeral? UInt32.size (Text.trim text.toList) <;> simp

/-- The number in a column, or zero where there is none. -/
def number (row : TextRow) (column : String) : UInt32 :=
  (row.requireNumber column).toOption.getD 0

theorem number_eq {row : TextRow} {column : String} {n : UInt32} (h : row.HasNumber column n) :
    row.number column = n := by
  rw [number, requireNumber_eq_ok.mpr h]
  rfl

instance (row : TextRow) (column : String) (n : UInt32) : Decidable (row.HasNumber column n) :=
  decidable_of_iff (row.requireNumber column = .ok n) requireNumber_eq_ok

end TextRow

/-! ### Parts in rows -/

namespace IndexPart

/-- A row names an index and tells the place of a part and whether duplicates are admitted. -/
@[mk_iff told_iff]
structure Told (row : TextRow) : Prop where
  name : row.get? "Key_name" ≠ none
  place : ∃ n, row.HasNumber "Seq_in_index" n
  duplicates : ∃ n, row.HasNumber "Non_unique" n

/-- The place that a row tells. -/
def placeIn (row : TextRow) : UInt32 :=
  row.number "Seq_in_index"

/-- The part in a row that tells one, with a column. -/
def inRow (row : TextRow) : IndexPart where
  index := (row.get? "Key_name").getD ""
  place := placeIn row
  admitsDuplicates := row.number "Non_unique" != 0
  column := ⟨(row.get? "Column_name").getD "", orderOf (row.get? "Collation")⟩

/-- The part in a row, from the name and the numbers that it tells. -/
theorem part_eq {row : TextRow} {name : String} {place duplicates : UInt32}
    (hname : row.get? "Key_name" = some name) (hplace : row.HasNumber "Seq_in_index" place)
    (hduplicates : row.HasNumber "Non_unique" duplicates) :
    ((row.get? "Column_name").map fun column =>
      ⟨name, place, duplicates != 0, ⟨column, orderOf (row.get? "Collation")⟩⟩) =
        (row.get? "Column_name").map fun _ => inRow row := by
  cases hcolumn : row.get? "Column_name" with
  | none => rfl
  | some column =>
    simp [inRow, placeIn, hname, hcolumn, TextRow.number_eq hplace, TextRow.number_eq hduplicates]

/-- A row that tells no part is refused, whether it tells a column or not. -/
theorem ofRow_eq_ok {row : TextRow} {part : Option IndexPart} :
    ofRow row = .ok part ↔
      Told row ∧ part = (row.get? "Column_name").map fun _ => inRow row := by
  have hname : ∀ name, row.require "Key_name" = .ok name ↔ row.get? "Key_name" = some name := by
    intro name
    rw [TextRow.require]
    cases row.get? "Key_name" <;> simp
  simp only [ofRow, bind_eq_ok, pure_eq_ok, hname, TextRow.requireNumber_eq_ok]
  constructor
  · rintro ⟨name, hname, place, hplace, duplicates, hduplicates, rfl⟩
    exact ⟨⟨by simp [hname], ⟨place, hplace⟩, ⟨duplicates, hduplicates⟩⟩,
      part_eq hname hplace hduplicates⟩
  · rintro ⟨⟨hname, ⟨place, hplace⟩, ⟨duplicates, hduplicates⟩⟩, rfl⟩
    obtain ⟨name, hname⟩ := Option.ne_none_iff_exists'.mp hname
    exact ⟨name, hname, place, hplace, duplicates, hduplicates,
      part_eq hname hplace hduplicates⟩

end IndexPart

namespace Index

open IndexPart (Told placeIn inRow)

/-- The rows that tell a column. -/
def rowsWithColumn (rows : List TextRow) : List TextRow :=
  rows.filter fun row => (row.get? "Column_name").isSome

theorem mapM_ofRow_eq_ok {rows : List TextRow} {parts : List (Option IndexPart)} :
    rows.mapM IndexPart.ofRow = .ok parts ↔ (∀ row ∈ rows, Told row) ∧
      parts = rows.map fun row => (row.get? "Column_name").map fun _ => inRow row := by
  simp only [mapM_eq_ok, IndexPart.ofRow_eq_ok]
  rw [List.forall₂_and_left, ← List.forall₂_eq_eq_eq, List.forall₂_map_right_iff]
  exact and_congr_right fun _ => ⟨List.Forall₂.flip, List.Forall₂.flip⟩

/-- Indexes are read if every row tells a part, and those without a column are left out. -/
theorem ofRows_eq_ok {rows : List TextRow} {indexes : List Index} :
    ofRows rows = .ok indexes ↔
      (∀ row ∈ rows, Told row) ∧ indexes = assemble ((rowsWithColumn rows).map inRow) := by
  have hparts : (rows.map fun row =>
      (row.get? "Column_name").map fun _ => inRow row).filterMap id =
        (rowsWithColumn rows).map inRow := by
    rw [List.filterMap_map]
    induction rows with
    | nil => rfl
    | cons row rows ih =>
      cases hcolumn : row.get? "Column_name" <;> simp [rowsWithColumn, hcolumn] at ih ⊢ <;> exact ih
  simp only [ofRows, bind_eq_ok, mapM_ofRow_eq_ok, pure_eq_ok]
  constructor
  · rintro ⟨_, ⟨htold, rfl⟩, rfl⟩
    exact ⟨htold, by rw [hparts]⟩
  · rintro ⟨htold, rfl⟩
    exact ⟨_, ⟨htold, rfl⟩, by rw [hparts]⟩

/-! ### Parts by their indexes -/

/-- Parts may be listed in any order, if no two of an index tell the same place. -/
theorem assemble_eq_of_perm {parts parts' : List IndexPart} (h : parts.Perm parts')
    (hapart : ∀ name, ((partsOf name parts).map IndexPart.place).Nodup) :
    assemble parts = assemble parts' := by
  have hnames := Text.ordered_eq_of_perm (h.map IndexPart.index)
  have hparts : ∀ name, partsOf name parts = partsOf name parts' := by
    intro name
    have hfilter := h.filter fun part => part.index == name
    have hnodup := hapart name
    rw [partsOf, ((List.mergeSort_perm _ _).map _).nodup_iff] at hnodup
    exact mergeSort_byKey_eq_of_perm hfilter hnodup
  rw [assemble, assemble, hnames]
  refine List.map_congr_left fun name _ => ?_
  rw [ofParts, ofParts, hparts]

/-- The rows of an index, which tell a column. -/
def rowsOf (name : String) (rows : List TextRow) : List TextRow :=
  rows.filter fun row => row.get? "Key_name" = some name ∧ (row.get? "Column_name").isSome

/-- The parts of an index are those in its rows, sorted by their places. -/
theorem partsOf_rowsWithColumn {rows : List TextRow} (told : ∀ row ∈ rows, Told row)
    (name : String) : partsOf name ((rowsWithColumn rows).map inRow) =
      ((rowsOf name rows).mergeSort (byKey placeIn)).map inRow := by
  have hname : ∀ row ∈ rows, ((inRow row).index == name) = true ↔
      row.get? "Key_name" = some name := by
    intro row hrow
    obtain ⟨name', hname'⟩ := Option.ne_none_iff_exists'.mp (told row hrow).name
    simp [inRow, hname']
  have hrows : ((rowsWithColumn rows).map inRow).filter (fun part => part.index == name) =
      (rowsOf name rows).map inRow := by
    rw [List.filter_map, rowsWithColumn, List.filter_filter, rowsOf]
    congr 1
    refine List.filter_congr fun row hrow => ?_
    rw [Bool.eq_iff_iff, Bool.and_eq_true, decide_eq_true_eq]
    exact and_congr_left fun _ => hname row hrow
  -- a row and its part tell the same place
  rw [partsOf, hrows]
  exact (List.map_mergeSort (f := inRow) fun _ _ _ _ => rfl).symm

/-! ### Indexes from rows -/

/-- Rows are sorted by the places they tell, and rows of one place stay as they are listed. -/
structure Sorted (listed sorted : List TextRow) : Prop where
  each : sorted.Perm listed
  places : sorted.Pairwise fun row row' => ∀ n n', row.HasNumber "Seq_in_index" n →
    row'.HasNumber "Seq_in_index" n' → n ≤ n'
  stable : ∀ n, (sorted.filter fun row => row.HasNumber "Seq_in_index" n) =
    listed.filter fun row => row.HasNumber "Seq_in_index" n

theorem sorted_mergeSort {rows : List TextRow} (told : ∀ row ∈ rows, Told row) :
    Sorted rows (rows.mergeSort (byKey placeIn)) := by
  have hplace : ∀ row ∈ rows, ∀ n, row.HasNumber "Seq_in_index" n ↔ placeIn row = n := by
    intro row hrow n
    obtain ⟨n', hn'⟩ := (told row hrow).place
    constructor
    · exact TextRow.number_eq
    · intro h
      rw [placeIn, TextRow.number_eq hn'] at h
      exact h ▸ hn'
  refine ⟨List.mergeSort_perm rows _, ?_, fun n => ?_⟩
  · refine (pairwise_mergeSort_byKey rows).imp fun {row row'} hle n n' hn hn' => ?_
    rwa [placeIn, placeIn, TextRow.number_eq hn, TextRow.number_eq hn'] at hle
  · have hfilter := filter_mergeSort_byKey placeIn rows n
    have hlisted : (rows.filter fun row => decide (row.HasNumber "Seq_in_index" n)) =
        rows.filter fun row => decide (placeIn row = n) :=
      List.filter_congr fun row hrow => by simp [hplace row hrow n]
    have hsorted : ((rows.mergeSort (byKey placeIn)).filter
        fun row => decide (row.HasNumber "Seq_in_index" n)) =
          (rows.mergeSort (byKey placeIn)).filter fun row => decide (placeIn row = n) :=
      List.filter_congr fun row hrow => by simp [hplace row (List.mem_mergeSort.mp hrow) n]
    rw [hsorted, hfilter, hlisted]

/-- A row tells a column of an index, and its order by a letter. -/
structure TellsColumn (row : TextRow) (c : IndexColumn) : Prop where
  column : row.get? "Column_name" = some c.column
  ascending : c.order = some .ascending ↔ row.get? "Collation" = some "A"
  descending : c.order = some .descending ↔ row.get? "Collation" = some "D"

theorem tellsColumn_inRow {row : TextRow} (h : (row.get? "Column_name").isSome) :
    TellsColumn row (inRow row).column := by
  obtain ⟨column, hcolumn⟩ := Option.isSome_iff_exists.mp h
  refine ⟨by simp [inRow, hcolumn], ?_, ?_⟩
  all_goals
    simp only [inRow, IndexPart.orderOf]
    split <;> simp_all

/-- An index has a column for each of its rows, and is unique if the first of them says so. -/
def TellRows (rows : List TextRow) (i : Index) : Prop :=
  ∃ first more, Sorted (rowsOf i.name rows) (first :: more) ∧
    List.Forall₂ TellsColumn (first :: more) i.columns ∧
    (i.isUnique = true ↔ first.HasNumber "Non_unique" 0)

theorem tellRows_ofParts {rows : List TextRow} (told : ∀ row ∈ rows, Told row) {name : String}
    (hsome : rowsOf name rows ≠ []) :
    TellRows rows (ofParts name ((rowsWithColumn rows).map inRow)) := by
  have hsub : ∀ row ∈ rowsOf name rows, row ∈ rows := fun row hrow =>
    (List.mem_filter.mp hrow).1
  have hsorted := sorted_mergeSort fun row hrow => told row (hsub row hrow)
  have hparts := partsOf_rowsWithColumn told name
  generalize (rowsOf name rows).mergeSort (byKey placeIn) = sorted at hsorted hparts
  cases sorted with
  | nil => exact absurd (List.nil_perm.mp hsorted.each) hsome
  | cons first more =>
    have hmem : ∀ row ∈ first :: more, row ∈ rowsOf name rows := fun row hrow =>
      hsorted.each.mem_iff.mp hrow
    refine ⟨first, more, hsorted, ?_, ?_⟩
    · rw [ofParts, hparts, List.map_map, List.forall₂_map_right_iff, List.forall₂_same]
      intro row hrow
      have hrow' := (List.mem_filter.mp (hmem row hrow)).2
      exact tellsColumn_inRow (of_decide_eq_true hrow').2
    · -- the number of the first row decides, and it is read as zero in one way
      obtain ⟨n, hn⟩ := (told first (hsub first (hmem first List.mem_cons_self))).duplicates
      have hfirst : first.HasNumber "Non_unique" 0 ↔ n = 0 := by
        constructor
        · intro hzero
          rw [← TextRow.number_eq hn, TextRow.number_eq hzero]
        · rintro rfl
          exact hn
      rw [hfirst, ofParts, hparts]
      simp [inRow, TextRow.number_eq hn]

/-- There is an index for each name that a row with a column tells. -/
theorem mem_names_iff {rows : List TextRow} (told : ∀ row ∈ rows, Told row) {name : String} :
    name ∈ Text.ordered (((rowsWithColumn rows).map inRow).map IndexPart.index) ↔
      rowsOf name rows ≠ [] := by
  have hparts := partsOf_rowsWithColumn told name
  rw [Text.mem_ordered]
  constructor
  · intro hname hnil
    obtain ⟨part, hpart, hindex⟩ := List.mem_map.mp hname
    have hmem := mem_partsOf.mpr ⟨hpart, hindex⟩
    rw [hparts, hnil, List.mergeSort_nil] at hmem
    exact List.not_mem_nil hmem
  · intro hsome
    obtain ⟨row, hrow⟩ := List.exists_mem_of_ne_nil _ hsome
    have hmem : inRow row ∈ partsOf name ((rowsWithColumn rows).map inRow) := by
      rw [hparts]
      exact List.mem_map_of_mem (List.mem_mergeSort.mpr hrow)
    obtain ⟨hpart, hindex⟩ := mem_partsOf.mp hmem
    exact List.mem_map.mpr ⟨inRow row, hpart, hindex⟩

/-- Rows that tell their places apart give parts that do. -/
theorem nodup_places {rows : List TextRow} (told : ∀ row ∈ rows, Told row) {name : String}
    (hapart : (rowsOf name rows).Pairwise fun row row' => ∀ n,
      ¬ (row.HasNumber "Seq_in_index" n ∧ row'.HasNumber "Seq_in_index" n)) :
    ((partsOf name ((rowsWithColumn rows).map inRow)).map IndexPart.place).Nodup := by
  have hnodup : ((rowsOf name rows).map placeIn).Nodup := by
    refine List.pairwise_map.mpr (hapart.imp_of_mem fun {row row'} hrow hrow' hne heq => ?_)
    obtain ⟨n, hn⟩ := (told row (List.mem_filter.mp hrow).1).place
    obtain ⟨n', hn'⟩ := (told row' (List.mem_filter.mp hrow').1).place
    rw [placeIn, placeIn, TextRow.number_eq hn, TextRow.number_eq hn'] at heq
    exact hne n ⟨hn, heq ▸ hn'⟩
  rw [partsOf_rowsWithColumn told, List.map_map]
  exact ((List.mergeSort_perm _ _).map placeIn).nodup_iff.mpr hnodup

theorem exists_error_iff {rows : List TextRow} :
    (∃ e, ofRows rows = .error e) ↔ ∃ row ∈ rows, ¬ Told row := by
  have hok : (∃ indexes, ofRows rows = .ok indexes) ↔ ∀ row ∈ rows, Told row := by
    simp only [ofRows_eq_ok, exists_and_left, exists_eq, and_true]
  have herror : (∃ e, ofRows rows = .error e) ↔ ¬ ∃ indexes, ofRows rows = .ok indexes := by
    cases ofRows rows <;> simp
  rw [herror, hok]
  simp

/-- What the server lists is put together as it stands. -/
theorem ofRows_exact (rows : List TextRow) :
    ((∃ e, ofRows rows = .error e) ↔ ∃ row ∈ rows, row.get? "Key_name" = none ∨
      (∀ n, ¬ row.HasNumber "Seq_in_index" n) ∨ ∀ n, ¬ row.HasNumber "Non_unique" n) ∧
    ∀ indexes, ofRows rows = .ok indexes →
      (indexes.map Index.name).Pairwise (fun s t => Text.bytes s < Text.bytes t) ∧
      (∀ name, (∃ i ∈ indexes, i.name = name) ↔ rowsOf name rows ≠ []) ∧
      (∀ i ∈ indexes, i.columns ≠ [] ∧ TellRows rows i) ∧
      ((∀ name, (rowsOf name rows).Pairwise fun row row' => ∀ n,
          ¬ (row.HasNumber "Seq_in_index" n ∧ row'.HasNumber "Seq_in_index" n)) →
        ∀ rows', rows'.Perm rows → ofRows rows' = .ok indexes) := by
  refine ⟨?_, fun indexes h => ?_⟩
  · have hnot : ∀ row, ¬ Told row ↔ row.get? "Key_name" = none ∨
        (∀ n, ¬ row.HasNumber "Seq_in_index" n) ∨ ∀ n, ¬ row.HasNumber "Non_unique" n := by
      intro row
      rw [IndexPart.told_iff, not_and_or, not_and_or, not_exists, not_exists, not_ne_iff]
    simp only [exists_error_iff, hnot]
  obtain ⟨told, rfl⟩ := ofRows_eq_ok.mp h
  refine ⟨?_, fun name => ?_, fun i hi => ?_, fun hapart rows' hperm => ?_⟩
  · exact (pairwise_assemble _).imp fun hlt => Text.bytes_lt hlt
  · rw [← mem_names_iff told]
    simp [assemble, ofParts]
  · refine ⟨columns_ne_nil_of_mem_assemble hi, ?_⟩
    obtain ⟨name, hname, rfl⟩ := List.mem_map.mp hi
    exact tellRows_ofParts told ((mem_names_iff told).mp hname)
  · have hparts : ((rowsWithColumn rows).map inRow).Perm ((rowsWithColumn rows').map inRow) :=
      (hperm.symm.filter _).map inRow
    rw [ofRows_eq_ok]
    exact ⟨fun row hrow => told row (hperm.mem_iff.mp hrow),
      assemble_eq_of_perm hparts fun name => nodup_places told (hapart name)⟩

/-- Two parts of an index, listed from the last one. -/
theorem ofRows_reversed :
    ofRows [⟨["Key_name", "Seq_in_index", "Non_unique", "Column_name", "Collation"],
        [some "IX", some " 2 ", some "1", some "EMAIL", some "D"]⟩,
      ⟨["Key_name", "Seq_in_index", "Non_unique", "Column_name", "Collation"],
        [some "IX", some "+1", some "0", some "NAME", none]⟩] =
      .ok [⟨"IX", true, [⟨"NAME", none⟩, ⟨"EMAIL", some .descending⟩]⟩] := by
  refine ((ofRows_exact _).2 _ ?_).2.2.2 (fun name => ?_) _ (.swap _ _ [])
  · rw [ofRows]
    refine bind_eq_ok.mpr ⟨[some ⟨"IX", 1, false, ⟨"NAME", none⟩⟩,
      some ⟨"IX", 2, true, ⟨"EMAIL", some .descending⟩⟩], by decide +kernel, ?_⟩
    have hsorted : partsOf "IX" [⟨"IX", 1, false, ⟨"NAME", none⟩⟩,
        ⟨"IX", 2, true, ⟨"EMAIL", some .descending⟩⟩] = _ :=
      List.mergeSort_of_pairwise (by decide)
    have hnames : Text.ordered ["IX", "IX"] = ["IX"] := by decide
    simp [assemble, hnames, ofParts, hsorted]
  · refine List.Pairwise.filter _ (List.pairwise_pair.mpr ?_)
    rintro n ⟨hfirst, hsecond⟩
    have hapart := (TextRow.number_eq hfirst).trans (TextRow.number_eq hsecond).symm
    exact absurd hapart (by decide +kernel)

end Index

end TypedSql

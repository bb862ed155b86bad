/-
Reading a table page by page.

A statement that reads rows returns the rows of a table on which its condition is true, in the order
of its sort keys, up to its limit. A client fetches pages one after the other: the first one from
the start, and each next one behind the key of the last row that it has got.

* `Query.returns_ofPage_iff` — the rows of a page are those behind its start, up to the limit;
* `Fetched.position` — pages that are fetched one after the other are the first rows of all;
* `Compiler.pages_complete` — so the pages of a filter that keeps its grouping end, and they are the
  rows that pass the filter, each once, in the direction of the pages.
-/
import TypedSql.Proofs.Meaning
import TypedSql.Proofs.QueryReader

namespace TypedSql

/-- A row of a table: the values of its columns. -/
abbrev TableRow (V : Type) := String → Option V

/-- A row as a statement shows it: properties and their values. -/
abbrev Record (V : Type) := List (String × Option V)

section Rows

variable {V : Type} (i : Interpretation V)

/-! ### The rows that a statement returns -/

/-- Whether a value comes before another one. NULL comes first. -/
def Interpretation.precedes : Option V → Option V → Bool
  | none, y => y.isSome
  | some _, none => false
  | some a, some b => i.compare .lt a b

/-- Whether a value comes before another one in a direction. -/
def Interpretation.inDirection (ascending : Bool) (x y : Option V) : Bool :=
  if ascending then i.precedes x y else i.precedes y x

namespace SortKey

/-- The value of a key: NULL where its condition does not hold. -/
def result (k : SortKey) (s : Environment V) : Option V :=
  if k.condition.truth i s = some true then k.value.value i s else none

/-- Whether a row comes before another one by a key. -/
def precedes (k : SortKey) (s s' : Environment V) : Bool :=
  i.inDirection (k.order = .ascending) (k.result i s) (k.result i s')

/-- Whether a row comes before another one by the first key that tells them apart. -/
def precedesBy (s s' : Environment V) : List SortKey → Bool
  | [] => false
  | k :: rest => k.precedes i s s' || (!k.precedes i s' s && precedesBy s s' rest)

end SortKey

namespace Query

/-- The rows of a table on which the condition is true. -/
def matching (q : Query) (parameter : String → Option V) (table : List (TableRow V)) :
    List (TableRow V) :=
  table.filter fun row => q.condition.truth i ⟨row, parameter⟩ = some true

/-- A statement returns rows of a table: the first of those that match, in an order in which no row
stands behind one that it comes before. -/
def Returns (q : Query) (parameter : String → Option V) (table page : List (TableRow V)) : Prop :=
  ∃ (sorted : List (TableRow V)) (n : Nat), sorted.Perm (q.matching i parameter table) ∧
    sorted.Pairwise (fun row row' =>
      SortKey.precedesBy i ⟨row', parameter⟩ ⟨row, parameter⟩ q.keys = false) ∧
    parameter q.limit = some (i.ofInt n) ∧ page = sorted.take n

/-- A row as a statement shows it. -/
def shown (q : Query) (row : TableRow V) : Record V :=
  q.items.map fun item => (item.property.getD item.column, row item.column)

end Query

/-! ### Requests for pages -/

/-- What the pages of a table are read with. -/
structure Paging (V : Type) where
  /-- The parameters of the filter. -/
  given : String → Option V
  ascending : Bool
  /-- The number of rows on a page. -/
  count : Nat

/-- The parameters of the page behind a start. -/
def Paging.parameter (g : Paging V) (start : Option V) (name : String) : Option V :=
  if name = startName then start
  else if name = ascendingName then some (i.ofBool g.ascending)
  else if name = countName then some (i.ofInt g.count)
  else g.given name

/-- Pages that are fetched one after the other, and the start of the next one: NULL at first, and
behind a page the value of a property in its last record. -/
inductive Fetched (Page : Option V → List (Record V) → Prop) (property : String) :
    List (List (Record V)) → Option V → Prop
  | none : Fetched Page property [] none
  | next {pages : List (List (Record V))} {start : Option V} {page : List (Record V)}
      {last : Record V} (earlier : Fetched Page property pages start) (read : Page start page)
      (ends : page.getLast? = some last) :
      Fetched Page property (pages ++ [page]) (last.lookup property).join

/-- Pages that are fetched one after the other enumerate records: a next page can always be read, no
more pages have records than there are, so that an empty page is reached, and then the pages have
all of the records in their order. -/
structure Enumerates (Page : Option V → List (Record V) → Prop) (property : String)
    (records : List (Record V)) : Prop where
  reads : ∀ {pages start}, Fetched Page property pages start → ∃ page, Page start page
  bounded : ∀ {pages start}, Fetched Page property pages start → pages.length ≤ records.length
  ends : ∃ pages start, Fetched Page property pages start ∧ Page start []
  complete : ∀ {pages start}, Fetched Page property pages start → Page start [] →
    pages.flatten = records

/-- A column orders rows: none of them has NULL there, the server compares the values by ranks, and
no two rows have values of the same rank. -/
structure Orders {K : Type} [LinearOrder K] (rank : V → K) (column : String)
    (rows : List (TableRow V)) : Prop where
  notNull : ∀ row ∈ rows, row column ≠ none
  distinct : rows.Pairwise fun row row' => (row column).map rank ≠ (row' column).map rank
  lt : ∀ row ∈ rows, ∀ row' ∈ rows, ∀ a ∈ row column, ∀ b ∈ row' column,
    (i.compare .lt a b = true ↔ rank a < rank b)
  gt : ∀ row ∈ rows, ∀ row' ∈ rows, ∀ a ∈ row column, ∀ b ∈ row' column,
    (i.compare .gt a b = true ↔ rank b < rank a)

/-- The rows stand in a direction of a column. -/
def InOrder (ascending : Bool) (column : String) (rows : List (TableRow V)) : Prop :=
  rows.Pairwise fun row row' => i.inDirection ascending (row column) (row' column) = true

/-- The rows of a table that pass a filter, if there is one. -/
def RowModel.passing (m : RowModel) (filter : Option Filter) (given : String → Option V)
    (table : List (TableRow V)) : List (TableRow V) :=
  table.filter fun row => filter.all fun f => f.expr.truth i ⟨row, given⟩ m = some true

/-- A row as the record of a model. -/
def RowModel.record (m : RowModel) (row : TableRow V) : Record V :=
  m.fields.map fun f => (f.property, row f.columnName)

/-! ### The condition and the sort keys of a page -/

variable {i}

theorem Connective.combine_and_eq_true {t t' : Option Bool} :
    Connective.and.combine [t, t'] = some true ↔ t = some true ∧ t' = some true := by
  rcases t with _ | _ | _ <;> rcases t' with _ | _ | _ <;> decide

namespace Phrase

variable {s : Environment V} {key : String}

@[simp] theorem truth_group (t : Phrase) : (group t).truth i s = t.truth i s :=
  rfl

@[simp] theorem truth_and (t u : Phrase) :
    (binary .and t u).truth i s = Connective.and.combine [t.truth i s, u.truth i s] :=
  i.truth_ofTruth _

@[simp] theorem truth_or (t u : Phrase) :
    (binary .or t u).truth i s = Connective.or.combine [t.truth i s, u.truth i s] :=
  i.truth_ofTruth _

@[simp] theorem truth_not (t : Phrase) : (not t).truth i s = (t.truth i s).map (!·) :=
  i.truth_ofTruth _

@[simp] theorem truth_isNull (t : Phrase) :
    (nullTest false t).truth i s = some (t.value i s).isNone :=
  congrArg some (i.holds_ofBool _)

theorem truth_compare (op : Comparison) {t u : Phrase} {a b : V} (ht : t.value i s = some a)
    (hu : u.value i s = some b) :
    (binary (.compare op) t u).truth i s = some (i.compare op a b) := by
  rw [truth, value, ht, hu]
  exact congrArg some (i.holds_ofBool _)

theorem truth_placeholder {name : String} {b : Bool} (h : s.parameter name = some (i.ofBool b)) :
    (leaf (.placeholder name)).truth i s = some b := by
  rw [truth, value, Leaf.value, h]
  exact congrArg some (i.holds_ofBool b)

/-- From the start, every row is on a page. -/
theorem truth_page_of_none (hstart : s.parameter startName = none) :
    (page key).truth i s = some true := by
  have hnull : (nullTest false (leaf (.placeholder startName))).truth i s = some true := by
    rw [truth_isNull, value, Leaf.value, hstart]
    rfl
  rw [page, truth_group, truth_or, truth_or, hnull]
  simp [Connective.combine, Connective.absorbing]

/-- Behind a start, a row is on a page if it comes after the start in the direction of the page. -/
theorem truth_page_of_some {start v : V} {ascending : Bool}
    (hstart : s.parameter startName = some start)
    (hdirection : s.parameter ascendingName = some (i.ofBool ascending))
    (hkey : s.column key = some v) :
    (page key).truth i s =
      some (if ascending then i.compare .gt v start else i.compare .lt v start) := by
  have hvalue : (leaf (.column key)).value i s = some v := hkey
  have hstart : (leaf (.placeholder startName)).value i s = some start := hstart
  rw [page, truth_group, truth_or, truth_or, truth_isNull, truth_group, truth_group, truth_and,
    truth_and, truth_not, truth_placeholder hdirection, truth_compare _ hvalue hstart,
    truth_compare _ hvalue hstart, hstart]
  generalize i.compare .gt v start = above
  generalize i.compare .lt v start = below
  cases ascending <;> cases above <;> cases below <;> rfl

theorem truth_filteredPage {filter : Option Phrase} :
    (filteredPage filter key).truth i s = some true ↔
      (∀ t ∈ filter, t.truth i s = some true) ∧ (page key).truth i s = some true := by
  cases filter with
  | none => simp [filteredPage]
  | some t => simp [filteredPage, Connective.combine_and_eq_true]

end Phrase

/-- The sort keys of a page order its rows in the direction of the page: in the other direction, a
key is NULL on every row. -/
theorem Query.precedesBy_pageKeys {s s' : Environment V} {ascending : Bool} (key : String)
    (h : s.parameter ascendingName = some (i.ofBool ascending))
    (h' : s'.parameter ascendingName = some (i.ofBool ascending)) :
    SortKey.precedesBy i s s' (pageKeys key) =
      i.inDirection ascending (s.column key) (s'.column key) := by
  have htruth := Phrase.truth_placeholder h
  have htruth' := Phrase.truth_placeholder h'
  simp only [pageKeys, SortKey.precedesBy, SortKey.precedes, SortKey.result, Phrase.truth_not,
    htruth, htruth', Phrase.value, Leaf.value]
  cases ascending <;> simp [Interpretation.inDirection, Interpretation.precedes]

/-! ### Rows in order -/

namespace Orders

variable {K : Type} [LinearOrder K] {rank : V → K} {column : String} {rows : List (TableRow V)}

theorem of_perm {table : List (TableRow V)} (h : Orders i rank column table)
    (hrows : rows.Perm table) : Orders i rank column rows where
  notNull row hrow := h.notNull row (hrows.subset hrow)
  distinct := (hrows.pairwise_iff Ne.symm).mpr h.distinct
  lt row hrow row' hrow' := h.lt row (hrows.subset hrow) row' (hrows.subset hrow')
  gt row hrow row' hrow' := h.gt row (hrows.subset hrow) row' (hrows.subset hrow')

theorem filter (h : Orders i rank column rows) (p : TableRow V → Bool) :
    Orders i rank column (rows.filter p) where
  notNull row hrow := h.notNull row (List.mem_of_mem_filter hrow)
  distinct := h.distinct.filter p
  lt row hrow row' hrow' :=
    h.lt row (List.mem_of_mem_filter hrow) row' (List.mem_of_mem_filter hrow')
  gt row hrow row' hrow' :=
    h.gt row (List.mem_of_mem_filter hrow) row' (List.mem_of_mem_filter hrow')

variable {row row' : TableRow V}

theorem exists_value (h : Orders i rank column rows) (hrow : row ∈ rows) :
    ∃ v, row column = some v :=
  Option.ne_none_iff_exists'.mp (h.notNull row hrow)

/-- The rows stand in the order of their ranks. -/
theorem precedes_iff (h : Orders i rank column rows) (hrow : row ∈ rows) (hrow' : row' ∈ rows)
    {a b : V} (ha : row column = some a) (hb : row' column = some b) :
    i.precedes (row column) (row' column) = true ↔ rank a < rank b := by
  rw [ha, hb]
  exact h.lt row hrow row' hrow' a ha b hb

theorem asymm (h : Orders i rank column rows) (hrow : row ∈ rows) (hrow' : row' ∈ rows)
    {ascending : Bool} (before : i.inDirection ascending (row column) (row' column) = true) :
    i.inDirection ascending (row' column) (row column) = false := by
  obtain ⟨a, ha⟩ := h.exists_value hrow
  obtain ⟨b, hb⟩ := h.exists_value hrow'
  have hforth := h.precedes_iff hrow hrow' ha hb
  have hback := h.precedes_iff hrow' hrow hb ha
  rw [Bool.eq_false_iff]
  cases ascending with
  | true => exact fun behind => lt_asymm (hforth.mp before) (hback.mp behind)
  | false => exact fun behind => lt_asymm (hback.mp before) (hforth.mp behind)

/-- Two rows whose keys differ stand one before the other. -/
theorem total (h : Orders i rank column rows) (hrow : row ∈ rows) (hrow' : row' ∈ rows)
    (distinct : (row column).map rank ≠ (row' column).map rank) {ascending : Bool}
    (notBehind : i.inDirection ascending (row' column) (row column) = false) :
    i.inDirection ascending (row column) (row' column) = true := by
  obtain ⟨a, ha⟩ := h.exists_value hrow
  obtain ⟨b, hb⟩ := h.exists_value hrow'
  have hforth := h.precedes_iff hrow hrow' ha hb
  have hback := h.precedes_iff hrow' hrow hb ha
  have hne : rank a ≠ rank b := by simpa [ha, hb] using distinct
  rw [Bool.eq_false_iff] at notBehind
  cases ascending with
  | true => exact hforth.mpr (hne.lt_of_le (not_lt.mp fun hlt => notBehind (hback.mpr hlt)))
  | false => exact hback.mpr (hne.symm.lt_of_le (not_lt.mp fun hlt => notBehind (hforth.mpr hlt)))

/-- If no row stands behind one that it comes before, each comes before those behind it. -/
theorem inOrder (h : Orders i rank column rows) {ascending : Bool}
    (sorted : rows.Pairwise fun row row' =>
      i.inDirection ascending (row' column) (row column) = false) :
    InOrder i ascending column rows :=
  (h.distinct.and sorted).imp_of_mem fun hrow hrow' hboth => h.total hrow hrow' hboth.1 hboth.2

theorem exists_sorted (h : Orders i rank column rows) (ascending : Bool) :
    ∃ sorted : List (TableRow V), sorted.Perm rows ∧ InOrder i ascending column sorted := by
  -- by rank upwards; downwards the same rows in reverse
  let place : TableRow V → WithBot K := fun row => (row column).map rank
  let le : TableRow V → TableRow V → Bool := fun row row' => place row ≤ place row'
  have htrans : ∀ row row' row'', le row row' → le row' row'' → le row row'' := by
    intro row row' row'' hfirst hsecond
    exact decide_eq_true ((of_decide_eq_true hfirst).trans (of_decide_eq_true hsecond))
  have htotal : ∀ row row', (le row row' || le row' row) = true := by
    intro row row'
    simpa [le] using le_total (place row) (place row')
  have hperm := List.mergeSort_perm rows le
  have hmerged := h.of_perm hperm
  have upwards : InOrder i true column (rows.mergeSort le) := by
    refine hmerged.inOrder ((List.pairwise_mergeSort htrans htotal rows).imp_of_mem ?_)
    intro row row' hrow hrow' hle
    obtain ⟨a, ha⟩ := hmerged.exists_value hrow
    obtain ⟨b, hb⟩ := hmerged.exists_value hrow'
    have hrank : rank a ≤ rank b := by
      have hplace : place row ≤ place row' := of_decide_eq_true hle
      simp only [place, ha, hb] at hplace
      exact WithBot.coe_le_coe.mp hplace
    rw [Bool.eq_false_iff]
    exact fun hbefore => hrank.not_gt ((hmerged.precedes_iff hrow' hrow hb ha).mp hbefore)
  cases ascending with
  | true => exact ⟨_, hperm, upwards⟩
  | false => exact ⟨_, (List.reverse_perm _).trans hperm, List.pairwise_reverse.mpr upwards⟩

theorem eq_of_perm (h : Orders i rank column rows) {rows' : List (TableRow V)} {ascending : Bool}
    (sorted : InOrder i ascending column rows) (sorted' : InOrder i ascending column rows')
    (hperm : rows'.Perm rows) : rows' = rows := by
  refine hperm.eq_of_pairwise (fun row row' hrow hrow' forth back => ?_) sorted' sorted
  have hnot := h.asymm (hperm.subset hrow) hrow' forth
  exact absurd back (by simp [hnot])

end Orders

/-! ### One page -/

/-- No parameter of a filter is one of those that pages are read with. -/
theorem Paging.parameter_of_notReserved (g : Paging V) (start : Option V) {name : String}
    (h : isReservedParameter name = false) : g.parameter i start name = g.given name := by
  have hne : ∀ reserved ∈ reservedParameters, name ≠ reserved := by
    rintro reserved hmem rfl
    have hany : isReservedParameter name = true :=
      List.any_eq_true.mpr ⟨name, hmem, by simp [Text.sameIgnoringCase]⟩
    simp [h] at hany
  rw [parameter, if_neg (hne startName (by decide)), if_neg (hne ascendingName (by decide)),
    if_neg (hne countName (by decide))]

theorem Filter.Accepted.truth_parameter {f : Filter} (hf : f.Accepted) (m : RowModel)
    (g : Paging V) (start : Option V) (row : TableRow V) :
    f.expr.truth i ⟨row, g.parameter i start⟩ m = f.expr.truth i ⟨row, g.given⟩ m := by
  refine congrArg i.truth (Expr.value_congr i rfl fun name hname => ?_)
  exact g.parameter_of_notReserved start (hf.notReserved name (hf.mem_paramNames.mp hname))

/-- The start behind rows: NULL behind none, otherwise the key of the last one. -/
def startBehind (key : String) (front : List (TableRow V)) : Option V :=
  front.getLast?.bind fun row => row key

section Page

variable {K : Type} [LinearOrder K] {rank : V → K} {key : String} {front rest : List (TableRow V)}
  {g : Paging V}

/-- A row is on the page behind another one if it comes after it. -/
theorem truth_page_behind {rows : List (TableRow V)} (h : Orders i rank key rows)
    {row last : TableRow V} (hlast : last ∈ rows) (hrow : row ∈ rows) :
    (Phrase.page key).truth i ⟨row, g.parameter i (last key)⟩ = some true ↔
      i.inDirection g.ascending (last key) (row key) = true := by
  obtain ⟨start, hstart⟩ := h.exists_value hlast
  obtain ⟨v, hv⟩ := h.exists_value hrow
  rw [Phrase.truth_page_of_some hstart rfl hv, hstart, hv, Option.some_inj]
  cases g.ascending with
  | true =>
    exact (h.gt row hrow last hlast v hv start hstart).trans
      (h.lt last hlast row hrow start hstart v hv).symm
  | false => rfl

/-- Of rows in order, those behind the start are on the page. -/
theorem filter_page (h : Orders i rank key (front ++ rest))
    (sorted : InOrder i g.ascending key (front ++ rest)) :
    (front ++ rest).filter (fun row => (Phrase.page key).truth i
      ⟨row, g.parameter i (startBehind key front)⟩ = some true) = rest := by
  rcases List.eq_nil_or_concat' front with rfl | ⟨shown, last, rfl⟩
  · exact List.filter_eq_self.mpr fun row _ => decide_eq_true (Phrase.truth_page_of_none rfl)
  have hlast : last ∈ shown ++ [last] ++ rest := by simp
  have hbehind : startBehind key (shown ++ [last]) = last key := by
    simp [startBehind]
  have honPage : ∀ row ∈ shown ++ [last] ++ rest,
      ((Phrase.page key).truth i ⟨row, g.parameter i (last key)⟩ = some true ↔
        i.inDirection g.ascending (last key) (row key) = true) :=
    fun row hrow => truth_page_behind h hlast hrow
  obtain ⟨hfront, -, hrest⟩ := List.pairwise_append.mp sorted
  rw [hbehind, List.filter_append]
  have hnone : (shown ++ [last]).filter (fun row =>
      (Phrase.page key).truth i ⟨row, g.parameter i (last key)⟩ = some true) = [] := by
    refine List.filter_eq_nil_iff.mpr fun row hrow hpage => ?_
    have hmem := List.mem_append_left rest hrow
    -- the rows in front come before the last one, so none of them comes after it
    have hafter := (honPage row hmem).mp (of_decide_eq_true hpage)
    have hnot := h.asymm hlast hmem hafter
    rcases List.mem_append.mp hrow with hshown | hsame
    · have hbefore := (List.pairwise_append.mp hfront).2.2 row hshown last (by simp)
      exact absurd hbefore (by simp [hnot])
    · obtain rfl := List.mem_singleton.mp hsame
      exact absurd hafter (by simp [hnot])
  have hall : rest.filter (fun row =>
      (Phrase.page key).truth i ⟨row, g.parameter i (last key)⟩ = some true) = rest := by
    refine List.filter_eq_self.mpr fun row hrow => decide_eq_true ?_
    exact (honPage row (List.mem_append_right _ hrow)).mpr (hrest last (by simp) row hrow)
  rw [hnone, hall, List.nil_append]

variable {m : RowModel} {filter : Option Filter} {items : List SelectItem} {database name : String}
  {table page : List (TableRow V)}

/-- The rows that match the statement that reads a page are on the page and pass the filter. -/
theorem Query.matching_ofPage (hf : ∀ f ∈ filter, f.Accepted) (start : Option V) :
    (ofPage items database name (filter.map fun f => f.expr.phrase .group m) key).matching i
        (g.parameter i start) table =
      (m.passing i filter g.given table).filter fun row =>
        (Phrase.page key).truth i ⟨row, g.parameter i start⟩ = some true := by
  rw [RowModel.passing, List.filter_filter]
  refine List.filter_congr fun row _ => ?_
  have hphrase : ∀ f ∈ filter, (f.expr.phrase .group m).truth i ⟨row, g.parameter i start⟩ =
      f.expr.truth i ⟨row, g.given⟩ m := by
    intro f hfilter
    rw [← (hf f hfilter).truth_parameter m g start row]
    exact congrArg i.truth (Expr.value_phrase i _ (hf f hfilter).sound)
  rw [Bool.eq_iff_iff, Bool.and_eq_true, decide_eq_true_iff, decide_eq_true_iff]
  refine Phrase.truth_filteredPage.trans ?_
  cases filter with
  | none => simp
  | some f => simp [hphrase f rfl, and_comm]

/-- A page has the rows behind its start, up to the number of rows on a page. -/
theorem Query.returns_ofPage_iff (hf : ∀ f ∈ filter, f.Accepted)
    (hint : Function.Injective i.ofInt) (h : Orders i rank key table)
    (hrows : (front ++ rest).Perm (m.passing i filter g.given table))
    (sorted : InOrder i g.ascending key (front ++ rest)) :
    (ofPage items database name (filter.map fun f => f.expr.phrase .group m) key).Returns i
      (g.parameter i (startBehind key front)) table page ↔ page = rest.take g.count := by
  have horders : Orders i rank key (front ++ rest) := (h.filter _).of_perm hrows
  have hmatching : ((ofPage items database name (filter.map fun f => f.expr.phrase .group m)
      key).matching i (g.parameter i (startBehind key front)) table).Perm rest := by
    rw [matching_ofPage hf]
    have hfilter := filter_page horders sorted
    exact (hrows.symm.filter _).trans (.of_eq hfilter)
  have hrest : Orders i rank key rest := by
    have hfilter := horders.filter fun row =>
      (Phrase.page key).truth i ⟨row, g.parameter i (startBehind key front)⟩ = some true
    rwa [filter_page horders sorted] at hfilter
  have hsorted : InOrder i g.ascending key rest := (List.pairwise_append.mp sorted).2.1
  have hkeys : ∀ row row' : TableRow V,
      SortKey.precedesBy i ⟨row, g.parameter i (startBehind key front)⟩
        ⟨row', g.parameter i (startBehind key front)⟩ (pageKeys key) =
      i.inDirection g.ascending (row key) (row' key) :=
    fun row row' => precedesBy_pageKeys key rfl rfl
  constructor
  · -- the keys leave one order only, as no two rows have the same
    rintro ⟨found, n, hperm, hfound, hlimit, rfl⟩
    obtain rfl : g.count = n := by
      exact_mod_cast hint (Option.some.inj hlimit)
    have hperm := hperm.trans hmatching
    have hinOrder := (hrest.of_perm hperm).inOrder
      (hfound.imp fun hnot => (hkeys _ _).symm.trans hnot)
    rw [hrest.eq_of_perm hsorted hinOrder hperm]
  · rintro rfl
    refine ⟨rest, g.count, hmatching.symm, ?_, rfl, rfl⟩
    exact hsorted.imp_of_mem fun hrow hrow' hbefore =>
      (hkeys _ _).trans (hrest.asymm hrow hrow' hbefore)

/-- The records of a page that a statement returns for a start. -/
def Query.Page (i : Interpretation V) (q : Query) (g : Paging V) (table : List (TableRow V))
    (start : Option V) (records : List (Record V)) : Prop :=
  ∃ page, q.Returns i (g.parameter i start) table page ∧ records = page.map q.shown

end Page

/-! ### Pages one after the other -/

/-- A statement that reads the columns of a model shows records of the model. -/
theorem Query.shown_ofPage {m : RowModel} {items : List SelectItem}
    (h : List.Forall₂ (fun f item => SelectItem.ofField f = .ok item) m.fields items)
    (database name : String) (filter : Option Phrase) (key : String) (row : TableRow V) :
    (ofPage items database name filter key).shown row = m.record row := by
  show items.map (fun item => (item.property.getD item.column, row item.column)) = _
  rw [RowModel.record]
  generalize m.fields = fields at h
  induction h with
  | nil => rfl
  | cons first _ ih =>
    obtain ⟨hcolumn, -, hproperty, -⟩ := selectItem_ok first
    rw [List.map_cons, List.map_cons, ih, hproperty, hcolumn]

/-- The value of a property in a record is that of the first field of the property. -/
theorem RowModel.lookup_record {m : RowModel} {property : String} {f : Field}
    (h : m.field? property = some f) (row : TableRow V) :
    (m.record row).lookup property = some (row f.columnName) := by
  rw [field?] at h
  rw [record]
  generalize m.fields = fields at h
  induction fields with
  | nil => cases h
  | cons first fields ih =>
    rw [List.map_cons, List.lookup_cons]
    by_cases hfirst : first.property = property
    · rw [List.find?_cons_of_pos (by simpa using hfirst)] at h
      obtain rfl := Option.some.inj h
      simp [hfirst]
    · rw [List.find?_cons_of_neg (by simpa using hfirst)] at h
      rw [beq_eq_false_iff_ne.mpr (Ne.symm hfirst)]
      exact ih h

/-- Pages that are fetched one after the other are the first rows of all, and the next page starts
behind them. -/
theorem Fetched.position {Page : Option V → List (Record V) → Prop} {property key : String}
    {rows : List (TableRow V)} {record : TableRow V → Record V} {count : Nat}
    (reads : ∀ front rest page, rows = front ++ rest → Page (startBehind key front) page →
      page = (rest.take count).map record)
    (finds : ∀ row, ((record row).lookup property).join = row key)
    {pages : List (List (Record V))} {start : Option V} (h : Fetched Page property pages start) :
    ∃ front rest, rows = front ++ rest ∧ start = startBehind key front ∧
      pages.flatten = front.map record ∧ pages.length ≤ front.length := by
  -- each page moves the next rows from the rest to the front
  induction h with
  | none => exact ⟨[], rows, rfl, rfl, rfl, Nat.le_refl 0⟩
  | @next pages start page last earlier read ends ih =>
    obtain ⟨front, rest, rfl, rfl, hflatten, hlength⟩ := ih
    obtain rfl := reads front rest page rfl read
    rw [List.getLast?_map, Option.map_eq_some_iff] at ends
    obtain ⟨row, hrow, rfl⟩ := ends
    have hmore : 0 < (rest.take count).length := by
      rw [List.length_pos_iff]
      rintro hnil
      rw [hnil] at hrow
      cases hrow
    refine ⟨front ++ rest.take count, rest.drop count, ?_, ?_, ?_, ?_⟩
    · rw [List.append_assoc, List.take_append_drop]
    · rw [finds, startBehind, List.getLast?_append, hrow]
      rfl
    · rw [List.flatten_append, hflatten, List.map_append]
      simp
    · rw [List.length_append, List.length_append, List.length_singleton]
      omega

/-- If a next page can always be read, and not too many of them have records, an empty one is
reached. -/
theorem Fetched.exists_ended {Page : Option V → List (Record V) → Prop} {property : String}
    {bound : Nat}
    (reads : ∀ {pages start}, Fetched Page property pages start → ∃ page, Page start page)
    (bounded : ∀ {pages start}, Fetched Page property pages start → pages.length ≤ bound) :
    ∃ pages start, Fetched Page property pages start ∧ Page start [] := by
  -- otherwise there are pages without end
  by_contra hnever
  have hmany : ∀ n, ∃ pages start, Fetched Page property pages start ∧ pages.length = n := by
    intro n
    induction n with
    | zero => exact ⟨[], Option.none, .none, rfl⟩
    | succ n ih =>
      obtain ⟨pages, start, hfetched, rfl⟩ := ih
      obtain ⟨page, hpage⟩ := reads hfetched
      have hne : page ≠ [] := by
        rintro rfl
        exact hnever ⟨pages, start, hfetched, hpage⟩
      obtain ⟨last, hlast⟩ := Option.isSome_iff_exists.mp (List.getLast?_isSome.mpr hne)
      exact ⟨_, _, hfetched.next hpage hlast, by simp⟩
  obtain ⟨pages, start, hfetched, hlength⟩ := hmany (bound + 1)
  have hbound := bounded hfetched
  omega

/-- If the page behind the first rows has the next rows, the pages enumerate all rows. -/
theorem Enumerates.of_splits {Page : Option V → List (Record V) → Prop} {property : String}
    {rows : List (TableRow V)} {record : TableRow V → Record V} {count : Nat} (key : String)
    (hcount : 0 < count)
    (h : ∀ front rest page, rows = front ++ rest →
      (Page (startBehind key front) page ↔ page = (rest.take count).map record))
    (finds : ∀ row, ((record row).lookup property).join = row key) :
    Enumerates Page property (rows.map record) := by
  have hposition := fun {pages start} (hfetched : Fetched Page property pages start) =>
    hfetched.position (fun front rest page hsplit => (h front rest page hsplit).mp) finds
  have reads : ∀ {pages start}, Fetched Page property pages start → ∃ page, Page start page := by
    intro pages start hfetched
    obtain ⟨front, rest, hsplit, rfl, -, -⟩ := hposition hfetched
    exact ⟨_, (h front rest _ hsplit).mpr rfl⟩
  have bounded : ∀ {pages start}, Fetched Page property pages start →
      pages.length ≤ (rows.map record).length := by
    intro pages start hfetched
    obtain ⟨front, rest, rfl, -, -, hlength⟩ := hposition hfetched
    rw [List.length_map, List.length_append]
    omega
  refine ⟨reads, bounded, Fetched.exists_ended reads bounded, fun hfetched hempty => ?_⟩
  obtain ⟨front, rest, rfl, rfl, hflatten, -⟩ := hposition hfetched
  have hnone : rest = [] := by
    have htake := List.map_eq_nil_iff.mp ((h front rest [] rfl).mp hempty).symm
    exact (List.take_eq_nil_iff.mp htake).resolve_left hcount.ne'
  rw [hflatten, hnone, List.append_nil]

end Rows

/-- The pages of a filter that keeps its grouping enumerate the rows that pass the filter, each once
and in the direction of the pages. -/
theorem Compiler.pages_complete {c : Compiler} {m : RowModel} {order : OrderBy}
    {filter : Option Filter} {s : Statement} (hf : ∀ f ∈ filter, f.Accepted)
    (kept : ∀ f ∈ filter, f.expr.keepsGrouping = true) (h : c.selectPage m order filter = .ok s) :
    ∃ q, Query.ofText s.text = some q ∧
      ∀ {V K : Type} [LinearOrder K] (i : Interpretation V) (rank : V → K) (g : Paging V)
        (table : List (TableRow V)), Function.Injective i.ofInt → 0 < g.count →
        Orders i rank (m.columnOf order.property) table →
        ∃ rows : List (TableRow V), rows.Perm (m.passing i filter g.given table) ∧
          InOrder i g.ascending (m.columnOf order.property) rows ∧
          Enumerates (q.Page i g table) order.property (rows.map m.record) := by
  obtain ⟨items, f, hitems, hfield, htext⟩ := Query.ofText_selectPage hf kept h
  refine ⟨_, htext, ?_⟩
  intro V K _ i rank g table hint hcount horders
  have hcolumn : m.columnOf order.property = f.columnName := by
    rw [RowModel.columnOf, hfield]
  rw [hcolumn] at horders ⊢
  have hpassing : Orders i rank f.columnName (m.passing i filter g.given table) := horders.filter _
  obtain ⟨rows, hrows, sorted⟩ := hpassing.exists_sorted g.ascending
  refine ⟨rows, hrows, sorted, .of_splits f.columnName hcount ?_ fun row => ?_⟩
  · rintro front rest page rfl
    have hshown := funext (Query.shown_ofPage (V := V) hitems c.database m.table
      (filter.map fun f => f.expr.phrase .group m) f.columnName)
    simp only [Query.Page, hshown, Query.returns_ofPage_iff hf hint horders hrows sorted,
      exists_eq_left]
  · rw [RowModel.lookup_record hfield]
    rfl

/-- A filter with a negation and a parameter. -/
def Filter.notBelow : Filter :=
  ⟨.not (.compare .lt (.field "B") (.param "Low")), [⟨"Low", ⟨.i32, false⟩⟩]⟩

/-- A row of the table of two columns of numbers. -/
def TableRow.pair (a b : Int) : TableRow Int := fun column =>
  if column = "A" then some a else if column = "B" then some b else none

theorem TableRow.orders_pair (pairs : List (Int × Int)) (h : (pairs.map Prod.fst).Nodup) :
    Orders .numbers (fun v : Int => v) "A" (pairs.map fun p => TableRow.pair p.1 p.2) where
  notNull row hrow := by
    obtain ⟨p, -, rfl⟩ := List.mem_map.mp hrow
    exact Option.some_ne_none p.1
  distinct := by
    rw [List.pairwise_map]
    exact (List.pairwise_map.mp h).imp fun hne heq => hne (Option.some.inj heq)
  lt _ _ _ _ _ _ _ _ := decide_eq_true_iff
  gt _ _ _ _ _ _ _ _ := decide_eq_true_iff

/-- Pages of one row each. -/
theorem Compiler.pages_notBelow :
    ∃ s q, Compiler.selectPage ⟨"app", by decide⟩ .pair ⟨"A", .ascending⟩ (some .notBelow) = .ok s ∧
      Query.ofText s.text = some q ∧
      Enumerates (q.Page .numbers ⟨fun _ => some 2, true, 1⟩
        [TableRow.pair 3 5, TableRow.pair 1 0, TableRow.pair 2 7]) "A"
        [[("A", some 2), ("B", some 7)], [("A", some 3), ("B", some 5)]] := by
  have hparse : Filter.parse "row => !(row.B < Low)" [⟨"Low", ⟨.i32, false⟩⟩] = .ok .notBelow := rfl
  have hmade : (Compiler.selectPage ⟨"app", by decide⟩ .pair ⟨"A", .ascending⟩
      (some .notBelow)).isOk = true := by decide +kernel
  obtain ⟨s, hs⟩ : ∃ s, Compiler.selectPage ⟨"app", by decide⟩ .pair ⟨"A", .ascending⟩
      (some .notBelow) = .ok s := by
    generalize Compiler.selectPage _ _ _ _ = result at hmade
    cases result with
    | ok s => exact ⟨s, rfl⟩
    | error e => exact absurd hmade Bool.false_ne_true
  have accepted : ∀ f ∈ some Filter.notBelow, f.Accepted := by
    rintro f ⟨⟩
    exact .parse hparse
  have kept : ∀ f ∈ some Filter.notBelow, f.expr.keepsGrouping = true := by
    rintro f ⟨⟩
    decide
  obtain ⟨q, hq, hpages⟩ := pages_complete accepted kept hs
  refine ⟨s, q, hs, hq, ?_⟩
  have horders := TableRow.orders_pair [(3, 5), (1, 0), (2, 7)] (by decide)
  obtain ⟨rows, hrows, sorted, henumerates⟩ := hpages .numbers (fun v : Int => v)
    ⟨fun _ => some 2, true, 1⟩ _ (fun _ _ h => h) (by decide) horders
  have hpassing : RowModel.pair.passing .numbers (some .notBelow) (fun _ => some 2)
      [TableRow.pair 3 5, TableRow.pair 1 0, TableRow.pair 2 7] =
        [TableRow.pair 3 5, TableRow.pair 2 7] := rfl
  have hsorted : InOrder Interpretation.numbers true "A" [TableRow.pair 2 7, TableRow.pair 3 5] :=
    List.pairwise_pair.mpr rfl
  have hperm : rows.Perm [TableRow.pair 2 7, TableRow.pair 3 5] :=
    (hrows.trans (.of_eq hpassing)).trans (.swap _ _ _)
  have horders' := TableRow.orders_pair [(2, 7), (3, 5)] (by decide)
  obtain rfl := horders'.eq_of_perm hsorted sorted hperm
  exact henumerates

end TypedSql

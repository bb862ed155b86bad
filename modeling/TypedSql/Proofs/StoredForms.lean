/-
Stored statements and settings are read back.

The proof meets in the middle: the printer writes one of the spellings of a document
(`spelled_print_array` and its neighbours), and the reader takes every spelling for its document.
It remains that the document of a record gives back the record.

* `Statement.ofJson?_toJson`, `Settings.ofJson?_toJson` — a record is found in its document;
* `Stored.load?_store` — so it is loaded from what is stored, and from any other spelling of that.
-/
import Mathlib
import TypedSql.Proofs.JsonSpelling
import TypedSql.Proofs.Numeral
import TypedSql.Settings.Stored
import TypedSql.Statement.Stored

namespace TypedSql

namespace Json

/-! ### What the printer writes -/

theorem hexDigit_hexDigit (n : Nat) : HexDigit (n % 16) (hexDigit n) :=
  ⟨Nat.mod_lt n (by decide), .inl rfl⟩

theorem spellsChar_escape (c : Char) : SpellsChar c (escape c) := by
  rw [escape]
  split_ifs with hquotation hbackslash hbackspace htab hline hpage hreturn hcontrol
  · subst hquotation
    exact .letter (by decide)
  · subst hbackslash
    exact .letter (by decide)
  · subst hbackspace
    exact .letter (by decide)
  · subst htab
    exact .letter (by decide)
  · subst hline
    exact .letter (by decide)
  · subst hpage
    exact .letter (by decide)
  · subst hreturn
    exact .letter (by decide)
  · -- the code of a control character has two digits
    have hzero : HexDigit 0 '0' := ⟨by decide, .inl rfl⟩
    have hunit := UnitEscape.intro hzero hzero (hexDigit_hexDigit (c.toNat / 16))
      (hexDigit_hexDigit c.toNat)
    have hcode : 4096 * 0 + 256 * 0 + 16 * (c.toNat / 16 % 16) + c.toNat % 16 = c.toNat := by
      omega
    rw [hcode] at hunit
    exact .unit hunit
  · exact .plain hquotation hbackslash (Nat.le_of_not_lt hcontrol)

theorem spellsText_escape (text : List Char) : SpellsText text (text.flatMap escape) := by
  induction text with
  | nil => exact .nil
  | cons c text ih => exact .cons (spellsChar_escape c) ih

theorem spelled_print_text (s : String) : Spelled (.document (.ofText s)) (print (.ofText s)) :=
  .string (spellsText_escape s.toList)

/-- The digits of a positive number begin with no zero. -/
theorem zero_notMem_head?_toDigits {n : Nat} (h : n ≠ 0) : '0' ∉ (Nat.toDigits 10 n).head? := by
  induction n using Nat.strong_induction_on with
  | _ n ih =>
    by_cases hsmall : n < 10
    · rw [Nat.toDigits_of_lt_base hsmall]
      interval_cases n
      · exact absurd rfl h
      all_goals decide
    · -- the first digit is that of a tenth of the number
      rw [Nat.toDigits_of_base_le (by decide) (by omega),
        List.head?_append_of_ne_nil _ Nat.toDigits_ne_nil]
      exact ih (n / 10) (by omega) (by omega)

theorem wholeDigits_toDigits (n : Nat) : WholeDigits (Nat.toDigits 10 n) := by
  refine ⟨Nat.toDigits_ne_nil, Number.isDigit_toDigits, ?_⟩
  by_cases h : n = 0
  · exact .inl (h ▸ rfl)
  · exact .inr (zero_notMem_head?_toDigits h)

theorem spelled_print_nat (n : Nat) : Spelled (.document (.ofNat n)) (print (.ofNat n)) :=
  .number false (wholeDigits_toDigits n)

theorem gap_nil : Gap [] :=
  fun _ h => absurd h List.not_mem_nil

/-- An array is printed as one of its spellings, if each of its items is. -/
theorem spelled_print_array {items : List Json}
    (h : ∀ j ∈ items, Spelled (.document j) (print j)) :
    Spelled (.document (.array items)) (print (.array items)) := by
  cases items with
  | nil => exact .emptyArray gap_nil
  | cons j items =>
    refine .array ?_
    -- each item brings the comma behind it, and the last one the bracket
    induction items generalizing j with
    | nil =>
      have hlast := Spelled.lastItem gap_nil (h j List.mem_cons_self) gap_nil
      simpa [commas, printItems] using hlast
    | cons k items ih =>
      obtain ⟨hj, hrest⟩ := List.forall_mem_cons.mp h
      have hnext := Spelled.nextItem gap_nil hj gap_nil (ih k hrest)
      simpa [commas, printItems, List.intercalate_cons_cons] using hnext

/-- An object is printed as one of its spellings, if each of its entries has a key and the document
behind it is. -/
theorem spelled_print_object (fields : List (String × Json))
    (h : ∀ field ∈ fields, Spelled (.document field.2) (print field.2)) :
    Spelled (.document (.object (fields.map fun field => entry field.1 field.2)))
      (print (.object (fields.map fun field => entry field.1 field.2))) := by
  have hentry : ∀ field ∈ fields, Spelled (.entry field.1 field.2)
      (quote field.1.toList ++ ':' :: print field.2) := by
    intro field hfield
    have := Spelled.entry (spellsText_escape field.1.toList) gap_nil gap_nil (h field hfield)
    simpa [quote] using this
  cases fields with
  | nil => exact .emptyObject gap_nil
  | cons first fields =>
    refine .object ?_
    induction fields generalizing first with
    | nil =>
      have hlast := Spelled.lastEntry gap_nil (hentry first List.mem_cons_self) gap_nil
      simpa [commas, printEntries, Json.entry] using hlast
    | cons second fields ih =>
      obtain ⟨hfirst, hrest⟩ := List.forall_mem_cons.mp hentry
      have hnext := Spelled.nextEntry gap_nil hfirst gap_nil
        (ih second (List.forall_mem_cons.mp h).2 hrest)
      simpa [commas, printEntries, Json.entry, List.intercalate_cons_cons] using hnext

/-- What is found in a document is found in every text that spells it. -/
theorem load_of_spells {α : Type} {ofJson? : Json → Option α} {j : Json} {a : α}
    (hfound : ofJson? j = some a) {text : String} (h : Spells j text) :
    (read? text >>= ofJson?) = some a := by
  rw [read?_of_spells h]
  exact hfound

theorem spells_text {j : Json} (h : Spelled (.document j) (print j)) : Spells j j.text :=
  ⟨[], print j, [], gap_nil, h, gap_nil, by simp [text]⟩

/-! ### Records in documents -/

/-- The document under a key, where each key stands once. -/
theorem lookup_entry {fields : List (String × Json)} (h : (fields.map Prod.fst).Nodup)
    {field : String × Json} (hfield : field ∈ fields) :
    (fields.map fun field => entry field.1 field.2).lookup (some field.1) = some field.2 := by
  induction fields with
  | nil => exact absurd hfield List.not_mem_nil
  | cons first fields ih =>
    obtain ⟨hfirst, hnodup⟩ := List.nodup_cons.mp h
    rw [List.map_cons, entry, List.lookup_cons]
    obtain rfl | hfield := List.mem_cons.mp hfield
    · simp
    · have hne : (some field.1 == some first.1) = false := by
        rw [beq_eq_false_iff_ne]
        intro heq
        exact hfirst (Option.some.inj heq ▸ List.mem_map_of_mem hfield)
      rw [hne]
      exact ih hnodup hfield

/-- An object whose keys are the fields of a record, each once, gives these fields. -/
theorem fields?_object (fields : List (String × Json)) (h : (fields.map Prod.fst).Nodup)
    (isClosed : Bool) :
    fields? (fields.map Prod.fst) isClosed
      (.object (fields.map fun field => entry field.1 field.2)) =
        some (fields.map fun field => some field.2) := by
  have hkeys : (fields.map fun field => entry field.1 field.2).filterMap Prod.fst =
      fields.map Prod.fst := by
    simp [List.filterMap_map, entry]
  -- no key is unknown, which a closed record would refuse, and none stands twice
  have hopen : (isClosed && !(fields.map Prod.fst).all (fields.map Prod.fst).contains) = false := by
    have hall : (fields.map Prod.fst).all (fields.map Prod.fst).contains = true :=
      List.all_eq_true.mpr fun key hkey => List.contains_iff_mem.mpr hkey
    rw [hall]
    cases isClosed <;> rfl
  have hcount : (fields.map Prod.fst).all
      (fun key => decide ((fields.map Prod.fst).count key ≤ 1)) = true :=
    List.all_eq_true.mpr fun key _ => decide_eq_true (List.nodup_iff_count_le_one.mp h key)
  have hvalues : (fields.map Prod.fst).map
      (fun key => (fields.map fun field => entry field.1 field.2).lookup (some key)) =
        fields.map fun field => some field.2 := by
    rw [List.map_map]
    exact List.map_congr_left fun field hfield => lookup_entry h hfield
  rw [fields?]
  simp only [hkeys, hopen, hcount, hvalues, List.length_map, ne_eq, not_true_eq_false, if_false,
    if_true, Bool.false_eq_true]

theorem toText?_ofText (s : String) : (ofText s).toText? = some s :=
  rfl

theorem toNat?_ofNat {bound n : Nat} (h : n < bound) : (ofNat n).toNat? bound = some n := by
  simp [toNat?, ofNat, Text.digitsValue_toDigits, h]

end Json

/-! ### Lengths of time -/

namespace Duration

/-- The fields of the stored form. -/
def fields (d : Duration) : List (String × Json) :=
  [("secs", .ofNat d.seconds.toNat), ("nanos", .ofNat d.nanos.toNat)]

theorem spelled_print (d : Duration) : Json.Spelled (.document d.toJson) d.toJson.print := by
  refine Json.spelled_print_object d.fields ?_
  simp [fields, Json.spelled_print_nat]

theorem ofJson?_toJson (d : Duration) : ofJson? d.toJson = some d := by
  have hfields : d.toJson.fields? ["secs", "nanos"] true =
      some [some (.ofNat d.seconds.toNat), some (.ofNat d.nanos.toNat)] :=
    Json.fields?_object d.fields (by simp [fields]) true
  have hseconds := Json.toNat?_ofNat d.seconds.toNat_lt_size
  have hnanos := Json.toNat?_ofNat d.nanos.toNat_lt_size
  -- there is nothing to carry
  have hcarry : d.nanos.toNat / nanosPerSecond = 0 := Nat.div_eq_of_lt d.nanos_lt
  have hrest : d.nanos.toNat % nanosPerSecond = d.nanos.toNat := Nat.mod_eq_of_lt d.nanos_lt
  simp [ofJson?, hfields, hseconds, hnanos, hcarry, hrest, d.seconds.toNat_lt_size, ofSeconds]

end Duration

/-! ### Settings -/

namespace Settings

/-- The fields of the stored form. -/
def fields (s : Settings) : List (String × Json) :=
  [("connection_string", .ofText s.connectionString),
    ("read_pool_size", .ofNat s.readPoolSize.toNat),
    ("write_pool_size", .ofNat s.writePoolSize.toNat), ("open_retry_cooldown", s.cooldown.toJson)]

theorem spelled_print (s : Settings) : Json.Spelled (.document s.toJson) s.toJson.print := by
  refine Json.spelled_print_object s.fields ?_
  simp [fields, Json.spelled_print_text, Json.spelled_print_nat, Duration.spelled_print]

theorem readSize?_ofNat (n : UInt64) : readSize? (.ofNat n.toNat) = some n := by
  simp [readSize?, Json.toNat?_ofNat n.toNat_lt_size]

theorem ofJson?_toJson (s : Settings) : ofJson? s.toJson = some s := by
  have hfields : s.toJson.fields? ["connection_string", "read_pool_size", "write_pool_size",
      "open_retry_cooldown"] false = some [some (.ofText s.connectionString),
        some (.ofNat s.readPoolSize.toNat), some (.ofNat s.writePoolSize.toNat),
        some s.cooldown.toJson] :=
    Json.fields?_object s.fields (by simp [fields]) false
  simp [ofJson?, hfields, fieldOr, Json.toText?_ofText, readSize?_ofNat, Duration.ofJson?_toJson]

end Settings

/-! ### Statements -/

namespace Parameter

/-- The fields of the stored form. -/
def fields (p : Parameter) : List (String × Json) :=
  [("name", .ofText p.name), ("native_type_name", .ofText p.typeName),
    ("length", lengthJson p.length), ("direction", .ofText p.direction.label)]

theorem spelled_print_lengthJson (length : Option UInt32) :
    Json.Spelled (.document (lengthJson length)) (lengthJson length).print := by
  cases length with
  | none => exact .null
  | some n => exact Json.spelled_print_nat n.toNat

theorem readLength?_lengthJson (length : Option UInt32) :
    readLength? (some (lengthJson length)) = some length := by
  cases length with
  | none => rfl
  | some n =>
    show ((Json.ofNat n.toNat).toNat? UInt32.size).map _ = _
    rw [Json.toNat?_ofNat n.toNat_lt_size]
    simp

theorem spelled_print (p : Parameter) : Json.Spelled (.document p.toJson) p.toJson.print := by
  refine Json.spelled_print_object p.fields ?_
  simp [fields, Json.spelled_print_text, spelled_print_lengthJson]

theorem ofJson?_toJson (p : Parameter) : ofJson? p.toJson = some p := by
  have hfields : p.toJson.fields? ["name", "native_type_name", "length", "direction"] false =
      some [some (.ofText p.name), some (.ofText p.typeName), some (lengthJson p.length),
        some (.ofText p.direction.label)] :=
    Json.fields?_object p.fields (by simp [fields]) false
  have hdirection : Direction.ofJson? (.ofText p.direction.label) = some p.direction :=
    Direction.ofLabel?_label p.direction
  simp [ofJson?, hfields, Json.toText?_ofText, readLength?_lengthJson, hdirection]

end Parameter

namespace Statement

/-- The fields of the stored form. -/
def fields (s : Statement) : List (String × Json) :=
  [("text", .ofText s.text), ("parameters", .array (s.parameters.map Parameter.toJson))]

theorem spelled_print (s : Statement) : Json.Spelled (.document s.toJson) s.toJson.print := by
  refine Json.spelled_print_object s.fields ?_
  have hparameters : Json.Spelled (.document (.array (s.parameters.map Parameter.toJson)))
      (Json.print (.array (s.parameters.map Parameter.toJson))) :=
    Json.spelled_print_array (List.forall_mem_map.mpr fun p _ => p.spelled_print)
  simp [fields, Json.spelled_print_text, hparameters]

theorem ofJson?_toJson (s : Statement) : ofJson? s.toJson = some s := by
  have hfields : s.toJson.fields? ["text", "parameters"] false =
      some [some (.ofText s.text), some (.array (s.parameters.map Parameter.toJson))] :=
    Json.fields?_object s.fields (by simp [fields]) false
  have hparameters : (s.parameters.map Parameter.toJson).mapM Parameter.ofJson? =
      some s.parameters := by
    induction s.parameters with
    | nil => rfl
    | cons p parameters ih => simp [Parameter.ofJson?_toJson, ih]
  simp [ofJson?, hfields, Json.toText?_ofText, items?, hparameters]

end Statement

/-! ### Loading -/

namespace Stored

/-- What is stored is loaded again: every statement and all settings are found in their stored form,
which spells the document of their fields, and in every other spelling of that document. -/
theorem load?_store :
    (∀ s : Statement, s.toJson.Spells s.store ∧ Statement.load? s.store = some s ∧
      ∀ text, s.toJson.Spells text → Statement.load? text = some s) ∧
    ∀ s : Settings, s.toJson.Spells s.store ∧ Settings.load? s.store = some s ∧
      ∀ text, s.toJson.Spells text → Settings.load? text = some s := by
  constructor
  · intro s
    have hload : ∀ text, s.toJson.Spells text → Statement.load? text = some s :=
      fun _ => Json.load_of_spells s.ofJson?_toJson
    have hstore := Json.spells_text s.spelled_print
    exact ⟨hstore, hload _ hstore, hload⟩
  · intro s
    have hload : ∀ text, s.toJson.Spells text → Settings.load? text = some s :=
      fun _ => Json.load_of_spells s.ofJson?_toJson
    have hstore := Json.spells_text s.spelled_print
    exact ⟨hstore, hload _ hstore, hload⟩

/-- White space, and a character beyond the first plane as a surrogate pair. -/
theorem load?_pair :
    Statement.load?
      "\x7b \"text\": \"\\uD83d\\ude00\",\n\"parameters\": []\x7d" = some ⟨"😀", []⟩ := by
  refine (load?_store.1 ⟨"😀", []⟩).2.2 _ ?_
  have hspace : Json.Gap [' '] := by simp [Json.Gap, Json.isSpace]
  have hline : Json.Gap ['\n'] := by simp [Json.Gap, Json.isSpace]
  have hhigh : Json.UnitEscape 0xD83D ['\\', 'u', 'D', '8', '3', 'd'] :=
    @Json.UnitEscape.intro 13 8 3 13 _ _ _ _ ⟨by decide, .inr rfl⟩ ⟨by decide, .inl rfl⟩
      ⟨by decide, .inl rfl⟩ ⟨by decide, .inl rfl⟩
  have hlow : Json.UnitEscape 0xDE00 ['\\', 'u', 'd', 'e', '0', '0'] :=
    @Json.UnitEscape.intro 13 14 0 0 _ _ _ _ ⟨by decide, .inl rfl⟩ ⟨by decide, .inl rfl⟩
      ⟨by decide, .inl rfl⟩ ⟨by decide, .inl rfl⟩
  have htext : Json.SpellsText "😀".toList _ :=
    .cons (.pair (by decide) (by decide) (by decide) hhigh hlow) .nil
  have hfirst := Json.Spelled.entry (Json.spellsText_escape "text".toList) Json.gap_nil hspace
    (Json.Spelled.string htext)
  have hsecond := Json.Spelled.entry (Json.spellsText_escape "parameters".toList) Json.gap_nil
    hspace (Json.Spelled.emptyArray Json.gap_nil)
  exact ⟨[], _, [], Json.gap_nil, .object (.nextEntry hspace hfirst Json.gap_nil
    (.lastEntry hline hsecond Json.gap_nil)), Json.gap_nil, rfl⟩

end Stored

end TypedSql

/-
Texts from which nothing breaks out.

In a confined text, backticks stand in pairs around names, quotation marks stand in pairs around the
pattern `%`, nothing begins a comment or escapes a character, and the one semicolon stands at the
end (`Confined`). The property is put together from that of the parts of a text (`Safe`), and of the
lexemes (`Lexeme.Contained`): fixed words and marks, declared types, checked names, placeholders and
numbers.

* `Paired.of_segment` — what stands between two paired marks is admitted;
* `Safe.append` — parts that are safe are so next to each other;
* `confined_text` — contained lexemes and a semicolon spell a confined text.
-/
import TypedSql.Proofs.Accepted
import TypedSql.Proofs.Numeral
import TypedSql.Proofs.Phrase
import TypedSql.Proofs.Runs
import TypedSql.Sql.Lexeme
import TypedSql.Types.Declaration

namespace TypedSql

/-! ### Paired marks -/

/-- Marks of a kind stand in pairs, with what is admitted between the two. -/
inductive Paired (q : Char) (P : List Char → Prop) : List Char → Prop
  | nil : Paired q P []
  | plain {c : Char} {cs : List Char} (other : c ≠ q) (rest : Paired q P cs) : Paired q P (c :: cs)
  | quoted {inside cs : List Char} (free : q ∉ inside) (admitted : P inside)
      (rest : Paired q P cs) : Paired q P (q :: (inside ++ q :: cs))

namespace Paired

variable {q : Char} {P : List Char → Prop}

theorem append {xs ys : List Char} (h : Paired q P xs) (h' : Paired q P ys) :
    Paired q P (xs ++ ys) := by
  induction h with
  | nil => exact h'
  | plain other _ ih => exact .plain other ih
  | quoted free admitted _ ih =>
    rw [List.cons_append, List.append_assoc, List.cons_append]
    exact .quoted free admitted ih

theorem of_notMem {cs : List Char} (h : q ∉ cs) : Paired q P cs := by
  induction cs with
  | nil => exact .nil
  | cons c cs ih =>
    rw [List.mem_cons, not_or] at h
    exact .plain (fun heq => h.1 heq.symm) (ih h.2)

theorem even_count {cs : List Char} (h : Paired q P cs) : Even (cs.count q) := by
  induction h with
  | nil => exact ⟨0, rfl⟩
  | plain other _ ih => rwa [List.count_cons_of_ne other]
  | quoted free _ _ ih =>
    rw [List.count_cons_self, List.count_append, List.count_eq_zero.mpr free, List.count_cons_self]
    obtain ⟨n, hn⟩ := ih
    exact ⟨n + 1, by omega⟩

/-- What stands between a mark that opens and the next mark is admitted. A mark opens if an even
number of them stands in front of it. -/
theorem of_segment {cs before inside after : List Char} (h : Paired q P cs)
    (heq : cs = before ++ q :: (inside ++ q :: after)) (heven : Even (before.count q))
    (hfree : q ∉ inside) : P inside := by
  have hnone : ∀ {xs : List Char}, q ∉ xs → (xs.filter (· == q)).length = 0 := by
    intro xs hxs
    rw [← List.countP_eq_length_filter]
    exact List.count_eq_zero.mpr hxs
  -- induction on the pairs: the segment is the first one, or an even number of marks precedes it
  -- in what follows the first one
  induction h generalizing before with
  | nil => exact absurd heq (by simp)
  | plain other _ ih =>
    cases before with
    | nil => exact absurd (List.cons.inj heq).1 other
    | cons c before =>
      rw [List.cons_append] at heq
      obtain ⟨rfl, htail⟩ := List.cons.inj heq
      exact ih htail (by rwa [List.count_cons_of_ne other] at heven)
  | quoted free admitted _ ih =>
    cases before with
    | nil =>
      obtain ⟨rfl, -⟩ := append_cons_inj_of_filter (p := (· == q)) (by simp) (by simp)
        (by rw [hnone free, hnone hfree]) (List.cons.inj heq).2
      exact admitted
    | cons c before =>
      rw [List.cons_append] at heq
      obtain ⟨rfl, htail⟩ := List.cons.inj heq
      rw [List.count_cons_self, Nat.even_add_one, Nat.not_even_iff_odd] at heven
      -- the mark that closes the first pair stands in front of the segment
      have hmem : q ∈ before := List.count_pos_iff.mp heven.pos
      obtain ⟨first, second, rfl, hfirst⟩ := List.eq_append_cons_of_mem hmem
      rw [List.append_assoc, List.cons_append] at htail
      obtain ⟨rfl, hrest⟩ := append_cons_inj_of_filter (p := (· == q)) (by simp) (by simp)
        (by rw [hnone free, hnone hfirst]) htail
      refine ih hrest ?_
      rw [List.count_append, List.count_eq_zero.mpr hfirst, List.count_cons_self, Nat.zero_add,
        Nat.odd_add_one, Nat.not_odd_iff_even] at heven
      exact heven

end Paired

/-! ### Safe parts -/

/-- A name as it may stand between backticks. -/
def IsQuotedName (cs : List Char) : Prop :=
  cs ≠ [] ∧ (String.ofList cs).utf8ByteSize ≤ 64 ∧ ∀ c ∈ cs, Text.isIdentifierChar c = true

/-- The characters that stand nowhere in front of the end of a statement. -/
def forbidden : List Char :=
  ['\'', '\\', '#', ';', '/']

/-- The characters that stand nowhere, stand in pairs, or stand alone. -/
def loaded : List Char :=
  '\x60' :: '"' :: '-' :: forbidden

/-- Whether a text has none of these. -/
def isPlainText (text : String) : Bool :=
  text.toList.all (!loaded.contains ·)

theorem isPlainText_iff {text : String} :
    isPlainText text = true ↔ ∀ c ∈ text.toList, c ∉ loaded := by
  simp [isPlainText]

/-- A part of a statement that neither opens nor ends anything. -/
structure Safe (cs : List Char) : Prop where
  names : Paired '\x60' IsQuotedName cs
  patterns : Paired '"' (· = ['%']) cs
  free : ∀ c ∈ cs, c ∉ forbidden
  hyphens : cs.IsChain fun a b => ¬ (a = '-' ∧ b = '-')
  last : cs.getLast? ≠ some '-'

theorem safe_of_paired {cs : List Char} (names : Paired '\x60' IsQuotedName cs)
    (patterns : Paired '"' (· = ['%']) cs) (free : ∀ c ∈ cs, c ∉ forbidden) (h : '-' ∉ cs) :
    Safe cs where
  names := names
  patterns := patterns
  free := free
  hyphens := by
    refine List.isChain_iff_forall_rel_of_append_cons_cons.mpr fun a b before after heq hab => ?_
    exact h (by simp [heq, hab.1])
  last hlast := h (List.mem_of_getLast? hlast)

theorem safe_of_plain {cs : List Char} (h : ∀ c ∈ cs, c ∉ loaded) : Safe cs := by
  have hnot : ∀ {d : Char}, d ∈ loaded → d ∉ cs := fun hd hmem => h _ hmem hd
  refine safe_of_paired (.of_notMem (hnot (by decide))) (.of_notMem (hnot (by decide)))
    (fun c hc hmem => h c hc ?_) (hnot (by decide))
  exact List.mem_cons_of_mem _ (List.mem_cons_of_mem _ (List.mem_cons_of_mem _ hmem))

theorem Safe.append {xs ys : List Char} (h : Safe xs) (h' : Safe ys) : Safe (xs ++ ys) where
  names := h.names.append h'.names
  patterns := h.patterns.append h'.patterns
  free c hc := (List.mem_append.mp hc).elim (h.free c) (h'.free c)
  -- two hyphens do not meet where the parts do, since the first part ends with none
  hyphens := by
    refine List.isChain_append.mpr ⟨h.hyphens, h'.hyphens, fun a ha b _ hab => ?_⟩
    exact h.last (hab.1 ▸ ha)
  last := by
    rw [List.getLast?_append]
    cases hlast : ys.getLast? with
    | none => exact h.last
    | some c => exact fun heq => h'.last (hlast.trans heq)

/-- A hyphen may stand in front of anything else. -/
theorem Safe.hyphen_cons {c : Char} {cs : List Char} (h : Safe (c :: cs)) (hc : c ≠ '-') :
    Safe ('-' :: c :: cs) where
  names := .plain (by decide) h.names
  patterns := .plain (by decide) h.patterns
  free d hd := by
    rcases List.mem_cons.mp hd with rfl | hd
    · decide
    · exact h.free d hd
  hyphens := List.isChain_cons_cons.mpr ⟨fun hab => hc hab.2, h.hyphens⟩
  last := by
    rw [List.getLast?_cons_cons]
    exact h.last

theorem safe_nil : Safe [] :=
  safe_of_plain (by simp)

/-- A character that may stand in a name is plain. -/
theorem notMem_loaded_of_isIdentifierChar {c : Char} (h : Text.isIdentifierChar c = true) :
    c ∉ loaded := by
  intro hmem
  simp only [loaded, forbidden, List.mem_cons, List.not_mem_nil, or_false] at hmem
  rcases hmem with rfl | rfl | rfl | rfl | rfl | rfl | rfl | rfl <;> exact absurd h (by decide)

theorem safe_of_isDigit {cs : List Char} (h : ∀ c ∈ cs, c.isDigit = true) : Safe cs :=
  safe_of_plain fun c hc =>
    notMem_loaded_of_isIdentifierChar (Text.isIdentifierChar_of_isDigit (h c hc))

/-! ### Numerals -/

theorem safe_fraction {cs : List Char} (h : Number.Fraction cs) : Safe cs := by
  cases h with
  | none => exact safe_nil
  | point each =>
    have hpoint : Safe ['.'] := safe_of_plain (by simp [loaded, forbidden])
    exact hpoint.append (safe_of_isDigit each)

/-- Digits with a sign in front. -/
theorem safe_hyphen_digits {cs : List Char} (some : cs ≠ []) (each : ∀ c ∈ cs, c.isDigit = true) :
    Safe ('-' :: cs) := by
  obtain ⟨c, more, rfl⟩ := List.exists_cons_of_ne_nil some
  refine (safe_of_isDigit each).hyphen_cons ?_
  rintro rfl
  exact absurd (each '-' (by simp)) (by decide)

theorem safe_exponent {cs : List Char} (h : Number.Exponent cs) : Safe cs := by
  have he : Safe ['e'] := safe_of_plain (by simp [loaded, forbidden])
  cases h with
  | none => exact safe_nil
  | plain _ each => exact he.append (safe_of_isDigit each)
  | negative some each => exact he.append (safe_hyphen_digits some each)

theorem safe_signed {cs : List Char} (h : Number.Signed cs) : Safe cs := by
  have hunsigned : ∀ {cs}, Number.Numeral cs → Safe cs := by
    rintro _ ⟨-, each, behind, scaled⟩
    exact ((safe_of_isDigit each).append (safe_fraction behind)).append (safe_exponent scaled)
  cases h with
  | plain unsigned => exact hunsigned unsigned
  | negative unsigned =>
    obtain ⟨some, each, behind, scaled⟩ := unsigned
    rename_i whole fraction exponent
    have hwhole := safe_hyphen_digits some each
    exact (hwhole.append (safe_fraction behind)).append (safe_exponent scaled)

/-! ### Lexemes -/

/-- The words of statements. -/
def vocabulary : List String :=
  ["ADD", "AFTER", "ALTER", "AND", "AS", "ASC", "AUTO_INCREMENT", "BY", "CASE", "COLUMN", "CONCAT",
   "COUNT", "CREATE", "CURRENT_TIMESTAMP", "DEFAULT", "DELETE", "DESC", "DROP", "END", "EXISTS",
   "FIRST", "FROM", "IF", "INSERT", "INTO", "IS", "KEY", "LIKE", "LIMIT", "LOWER", "NOT", "NOW",
   "NULL", "OR", "ORDER", "PRIMARY", "PROCEDURE", "SELECT", "SET", "TABLE", "THEN", "UNIQUE",
   "UPDATE", "UPPER", "UTC_TIMESTAMP", "VALUES", "WHEN", "WHERE", "false", "null", "true"]

/-- The marks of statements, but for the one that ends them. -/
def marks : List String :=
  ["(", ")", ",", ".", "*", "=", "!=", "<", "<=", ">", ">="]

/-- The white space of statements. -/
def blanks : List String :=
  [" ", "\n", "\n\t", "\n\t\t"]

/-- A lexeme that is fixed, or made of a declared type, a checked name or a number. -/
inductive Lexeme.Contained : Lexeme → Prop
  | blank {text : String} (known : text ∈ blanks) : Contained (.blank text)
  | word {text : String} (known : text ∈ vocabulary) : Contained (.word text)
  | declaration {native : NativeType} {length : Option UInt32} {text : String}
      (written : Declaration.write Registry.standard native length = .ok text) :
      Contained (.word text)
  | mark {text : String} (known : text ∈ marks) : Contained (.mark text)
  | name {kind : NameKind} {text : String} (notVariable : kind ≠ .var)
      (checked : kind.admits text = true) : Contained (.name text)
  | placeholder {parameter : String} (checked : isParameterName parameter = true) :
      Contained (.placeholder parameter)
  | integer (value : Int64) : Contained (.integer value)
  | number {value : Number.BinaryNumber} (finite : value.isFinite = true) :
      Contained (.number value)
  | anyText : Contained .anyText

/-! ### Declared types -/

section Declared

variable {p : Char → Bool}

/-- A family is registered with the names that it gives to its server types. -/
theorem mem_declarations_register {r : Registry} {f : Family} {entry : NativeType × String}
    (h : entry ∈ (r.register f).declarations) :
    entry ∈ r.declarations ∨ entry.2 = Registry.declarationName f.name entry.1 := by
  simp only [Registry.register, Registry.registerVariant, List.foldl_cons, List.foldl_nil,
    List.mem_append, List.mem_singleton] at h
  obtain (((h | rfl) | rfl) | rfl) | rfl := h
  · exact .inl h
  all_goals exact .inr rfl

theorem exists_declarationName {families : List Family} {entry : NativeType × String}
    (h : entry ∈ (Registry.ofFamilies families).declarations) :
    ∃ f ∈ families, entry.2 = Registry.declarationName f.name entry.1 := by
  induction families using List.reverseRecOn with
  | nil => exact absurd h (by simp [Registry.ofFamilies, Registry.empty])
  | append_singleton front last ih =>
    rw [Registry.ofFamilies, List.foldl_append] at h
    obtain h | hlast := mem_declarations_register h
    · obtain ⟨f, hf, hname⟩ := ih h
      exact ⟨f, List.mem_append_left _ hf, hname⟩
    · exact ⟨last, by simp, hlast⟩

theorem all_nameOf (hnames : Family.standard.all (fun f => f.name.toList.all p) = true)
    (hmarks : "() unsigned".toList.all p = true) {native : NativeType} {name : String}
    (h : Registry.standard.nameOf native = .ok name) : name.toList.all p = true := by
  rw [Registry.nameOf] at h
  split at h
  · rename_i found hfound
    obtain rfl := Except.ok.inj h
    obtain ⟨before, after, heq, -⟩ := List.lookup_eq_some_iff.mp hfound
    have hmem : (native, found) ∈ Registry.standard.declarations := by simp [heq]
    obtain ⟨f, hf, hname⟩ := exists_declarationName hmem
    have hfamily := List.all_eq_true.mp hnames f hf
    have hsign : " unsigned".toList.all p = true :=
      List.all_eq_true.mpr fun c hc =>
        List.all_eq_true.mp hmarks c (List.mem_of_mem_drop (i := 2) hc)
    dsimp only at hname
    rw [hname, Registry.declarationName]
    split_ifs
    · rw [String.toList_append, List.all_append, hfamily, hsign]
      rfl
    · exact hfamily
  · exact absurd h (by simp)

theorem all_withLength (hdigit : ∀ c : Char, c.isDigit = true → p c = true)
    (hmarks : "() unsigned".toList.all p = true) {name : String} (h : name.toList.all p = true)
    (length : UInt32) : (Declaration.withLength name length).toList.all p = true := by
  have hmark : ∀ c ∈ "() unsigned".toList, p c = true := List.all_eq_true.mp hmarks
  have hname : ∀ c ∈ name.toList, p c = true := List.all_eq_true.mp h
  have hlength : ∀ c ∈ ("(" ++ toString length.toNat ++ ")").toList, p c = true := by
    intro c hc
    simp only [String.toList_append, List.mem_append, Nat.toString_eq_repr, Nat.toList_repr] at hc
    rcases hc with (hc | hc) | hc
    · exact hmark c (List.mem_singleton.mp hc ▸ by decide)
    · exact hdigit c (Number.isDigit_toDigits c hc)
    · exact hmark c (List.mem_singleton.mp hc ▸ by decide)
  refine List.all_eq_true.mpr fun c hc => ?_
  rw [Declaration.withLength] at hc
  split_ifs at hc
  · rw [String.toList_append, String.toList_append, List.mem_append, List.mem_append,
      String.toList_ofList] at hc
    rcases hc with (hc | hc) | hc
    · exact hname c (List.mem_of_mem_take hc)
    · exact hlength c hc
    · exact hmark c (List.mem_of_mem_drop (i := 2) hc)
  · rw [String.toList_append, List.mem_append] at hc
    exact hc.elim (hname c) (hlength c)

/-- What holds of the characters of the families' names, of digits, of parentheses and of the word
behind a length holds of every character of a declaration that is written. -/
theorem all_write (hnames : Family.standard.all (fun f => f.name.toList.all p) = true)
    (hdigit : ∀ c : Char, c.isDigit = true → p c = true)
    (hmarks : "() unsigned".toList.all p = true) {native : NativeType} {length : Option UInt32}
    {text : String} (h : Declaration.write Registry.standard native length = .ok text) :
    text.toList.all p = true := by
  obtain ⟨name, hname, h₁⟩ := bind_eq_ok.mp h
  split at h₁
  · obtain rfl := pure_eq_ok.mp h₁
    exact all_nameOf hnames hmarks hname
  · obtain rfl := pure_eq_ok.mp h₁
    exact all_withLength hdigit hmarks (all_nameOf hnames hmarks hname) _

end Declared

theorem isPlainText_write {native : NativeType} {length : Option UInt32} {text : String}
    (h : Declaration.write Registry.standard native length = .ok text) :
    isPlainText text = true := by
  refine all_write (by decide +kernel) (fun c hc => ?_) (by decide) h
  simpa using notMem_loaded_of_isIdentifierChar (Text.isIdentifierChar_of_isDigit hc)

/-! ### Contained lexemes are safe -/

theorem isPlainText_of_mem {texts : List String} (htexts : texts.all isPlainText = true)
    {text : String} (h : text ∈ texts) : isPlainText text = true :=
  List.all_eq_true.mp htexts text h

theorem safe_of_isPlainText {text : String} (h : isPlainText text = true) : Safe text.toList :=
  safe_of_plain (isPlainText_iff.mp h)

theorem isQuotedName_of_admits {kind : NameKind} (hkind : kind ≠ .var) {name : String}
    (h : kind.admits name = true) : IsQuotedName name.toList := by
  obtain ⟨hsome, hsize, -⟩ := NameKind.admits_iff.mp h
  refine ⟨by simpa using hsome, ?_, isIdentifierChar_of_admits hkind h⟩
  rw [String.ofList_toList]
  exact hsize

theorem safe_name {name : String} (h : IsQuotedName name.toList) :
    Safe (Lexeme.name name).spell.toList := by
  have hplain : ∀ c ∈ name.toList, c ∉ loaded := fun c hc =>
    notMem_loaded_of_isIdentifierChar (h.2.2 c hc)
  have hspell : (Lexeme.name name).spell.toList = '\x60' :: (name.toList ++ ['\x60']) := by
    simp [Lexeme.spell]
  have hother : ∀ {d : Char}, d ≠ '\x60' → d ∈ loaded →
      d ∉ '\x60' :: (name.toList ++ ['\x60']) := by
    intro d hne hd hmem
    simp only [List.mem_cons, List.mem_append, List.not_mem_nil, or_false] at hmem
    rcases hmem with hmem | hmem | hmem
    · exact hne hmem
    · exact hplain d hmem hd
    · exact hne hmem
  have hquoted : Paired '\x60' IsQuotedName ('\x60' :: (name.toList ++ ['\x60'])) :=
    .quoted (fun hmem => hplain _ hmem (by decide)) h .nil
  rw [hspell]
  refine safe_of_paired hquoted (.of_notMem (hother (by decide) (by decide))) ?_
    (hother (by decide) (by decide))
  intro c hc hmem
  have hloaded : c ∈ loaded :=
    List.mem_cons_of_mem _ (List.mem_cons_of_mem _ (List.mem_cons_of_mem _ hmem))
  refine hother ?_ hloaded hc
  rintro rfl
  exact absurd hmem (by decide)

theorem safe_anyText : Safe Lexeme.anyText.spell.toList := by
  have hspell : Lexeme.anyText.spell.toList = '"' :: (['%'] ++ '"' :: []) := rfl
  have hquoted : Paired '"' (· = ['%']) ('"' :: (['%'] ++ '"' :: [])) :=
    .quoted (by decide) rfl .nil
  rw [hspell]
  exact safe_of_paired (.of_notMem (by decide)) hquoted (by simp [forbidden]) (by decide)

theorem Lexeme.Contained.safe {l : Lexeme} (h : l.Contained) : Safe l.spell.toList := by
  cases h with
  | blank known => exact safe_of_isPlainText (isPlainText_of_mem (by decide +kernel) known)
  | word known => exact safe_of_isPlainText (isPlainText_of_mem (by decide +kernel) known)
  | declaration written => exact safe_of_isPlainText (isPlainText_write written)
  | mark known => exact safe_of_isPlainText (isPlainText_of_mem (by decide +kernel) known)
  | name notVariable checked => exact safe_name (isQuotedName_of_admits notVariable checked)
  | placeholder checked =>
    rename_i parameter
    have hat : Safe "@".toList := safe_of_plain (by simp [loaded, forbidden])
    rw [Lexeme.spell, String.toList_append]
    exact hat.append (safe_of_plain fun c hc =>
      notMem_loaded_of_isIdentifierChar (isIdentifierChar_of_isParameterName checked c hc))
  | integer value => exact safe_signed (Number.signed_toString _)
  | number finite => exact safe_signed (Number.signed_write _ _ finite)
  | anyText => exact safe_anyText

/-! ### Confined texts -/

/-- The text between two marks of a kind, of which the first one opens: an even number of them
stands in front of it. -/
def IsQuoted (q : Char) (inside cs : List Char) : Prop :=
  ∃ before after, cs = before ++ q :: (inside ++ q :: after) ∧ Even (before.count q) ∧ q ∉ inside

/-- A statement's text that nothing breaks out of. -/
structure Confined (cs : List Char) : Prop where
  backticks : Even (cs.count '\x60')
  names : ∀ inside, IsQuoted '\x60' inside cs → IsQuotedName inside
  quotations : Even (cs.count '"')
  patterns : ∀ inside, IsQuoted '"' inside cs → inside = ['%']
  noEscape : '\'' ∉ cs ∧ '\\' ∉ cs
  noComment : '#' ∉ cs ∧ ¬ ['-', '-'] <:+: cs ∧ ¬ ['/', '*'] <:+: cs
  oneEnd : ∃ body, cs = body ++ [';'] ∧ ';' ∉ body

theorem safe_text {ls : List Lexeme} (h : ∀ l ∈ ls, l.Contained) :
    Safe (Lexeme.text ls).toList := by
  induction ls with
  | nil => exact safe_nil
  | cons l ls ih =>
    rw [Lexeme.toList_text_cons]
    exact (h l (by simp)).safe.append (ih fun l' hl' => h l' (by simp [hl']))

/-- Contained lexemes and a semicolon behind them spell a confined text. -/
theorem confined_text {ls : List Lexeme} (h : ∀ l ∈ ls, l.Contained) :
    Confined (Lexeme.text (ls ++ [.mark ";"])).toList := by
  have hbody := safe_text h
  have htext : (Lexeme.text (ls ++ [.mark ";"])).toList = (Lexeme.text ls).toList ++ [';'] := by
    rw [Lexeme.text_append, String.toList_append]
    rfl
  have hfree : ∀ {c : Char}, c ∈ forbidden → c ∉ (Lexeme.text ls).toList :=
    fun hc hmem => hbody.free _ hmem hc
  have hend : ∀ {q : Char} {P : List Char → Prop}, q ∉ [';'] → Paired q P [';'] := .of_notMem
  have hnames := hbody.names.append (hend (by decide))
  have hpatterns := hbody.patterns.append (hend (by decide))
  have hnot : ∀ {c : Char}, c ∈ forbidden → c ≠ ';' → c ∉ (Lexeme.text ls).toList ++ [';'] := by
    intro c hc hne hmem
    rcases List.mem_append.mp hmem with hmem | hmem
    · exact hfree hc hmem
    · exact hne (List.mem_singleton.mp hmem)
  rw [htext]
  exact {
    backticks := hnames.even_count
    names := fun inside ⟨before, after, heq, heven, hinside⟩ =>
      hnames.of_segment heq heven hinside
    quotations := hpatterns.even_count
    patterns := fun inside ⟨before, after, heq, heven, hinside⟩ =>
      hpatterns.of_segment heq heven hinside
    noEscape := ⟨hnot (by decide) (by decide), hnot (by decide) (by decide)⟩
    noComment := by
      refine ⟨hnot (by decide) (by decide), fun hrun => ?_, fun hrun => ?_⟩
      · have hchain : (((Lexeme.text ls).toList ++ [';']).IsChain
            fun a b => ¬ (a = '-' ∧ b = '-')) := by
          refine List.isChain_append.mpr ⟨hbody.hyphens, .singleton _, fun a ha b hb hab => ?_⟩
          exact hbody.last (hab.1 ▸ ha)
        obtain ⟨before, after, heq⟩ := hrun
        rw [← heq, List.append_assoc, List.isChain_append] at hchain
        exact absurd hchain.2.1 (by simp)
      · exact hnot (c := '/') (by decide) (by decide) (hrun.subset (by simp))
    oneEnd := ⟨_, rfl, hfree (by decide)⟩ }

end TypedSql

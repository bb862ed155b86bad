/-
The characters of statements.

Contained lexemes are spelled with the characters of names and those of punctuation
(`Lexeme.Contained.isStatementChar`). An `@` stands at the beginning of placeholders only, and a
question mark nowhere (`Statement.Built.notMem_question`).
-/
import TypedSql.Proofs.BuiltStatements

namespace TypedSql

/-- The characters of statements that are no part of a name, but for the one that begins a
placeholder. -/
def punctuation : List Char :=
  [' ', '\n', '\t', '(', ')', ',', ';', '.', '*', '=', '!', '<', '>', '-', '%', '"', '\x60']

/-- Whether a character may stand in a statement outside placeholders. -/
def isStatementChar (c : Char) : Bool :=
  Text.isIdentifierChar c || punctuation.contains c

theorem isStatementChar_of_isIdentifierChar {c : Char} (h : Text.isIdentifierChar c = true) :
    isStatementChar c = true := by
  rw [isStatementChar, h, Bool.true_or]

theorem isStatementChar_of_isDigit {c : Char} (h : c.isDigit = true) : isStatementChar c = true :=
  isStatementChar_of_isIdentifierChar (Text.isIdentifierChar_of_isDigit h)

/-! ### Numerals -/

/-- What holds of digits, of the point, of the exponent and of the sign holds of every character of
a numeral. -/
theorem forall_of_signed {p : Char → Prop} (hdigit : ∀ c : Char, c.isDigit = true → p c)
    (hmarks : ∀ c ∈ ['.', 'e', '-'], p c) {cs : List Char} (h : Number.Signed cs) :
    ∀ c ∈ cs, p c := by
  have hdigits : ∀ {digits : List Char}, (∀ c ∈ digits, c.isDigit = true) → ∀ c ∈ digits, p c :=
    fun each c hc => hdigit c (each c hc)
  have hcons : ∀ {c : Char} {cs : List Char}, c ∈ ['.', 'e', '-'] → (∀ c ∈ cs, p c) →
      ∀ d ∈ c :: cs, p d :=
    fun hc hcs => List.forall_mem_cons.mpr ⟨hmarks _ hc, hcs⟩
  have hfraction : ∀ {cs}, Number.Fraction cs → ∀ c ∈ cs, p c := by
    rintro _ (_ | each)
    · simp
    · exact hcons (by decide) (hdigits each)
  have hexponent : ∀ {cs}, Number.Exponent cs → ∀ c ∈ cs, p c := by
    rintro _ (_ | ⟨_, each⟩ | ⟨_, each⟩)
    · simp
    · exact hcons (by decide) (hdigits each)
    · exact hcons (by decide) (hcons (by decide) (hdigits each))
  have hunsigned : ∀ {cs}, Number.Numeral cs → ∀ c ∈ cs, p c := by
    rintro _ ⟨-, each, behind, scaled⟩ c hc
    rcases List.mem_append.mp hc with hc | hc
    · rcases List.mem_append.mp hc with hc | hc
      · exact hdigits each c hc
      · exact hfraction behind c hc
    · exact hexponent scaled c hc
  cases h with
  | plain unsigned => exact hunsigned unsigned
  | negative unsigned => exact hcons (by decide) (hunsigned unsigned)

theorem isStatementChar_signed {cs : List Char} (h : Number.Signed cs) :
    ∀ c ∈ cs, isStatementChar c = true :=
  forall_of_signed (fun _ => isStatementChar_of_isDigit) (List.all_eq_true.mp (by decide)) h

/-! ### Lexemes -/

theorem isStatementChar_of_mem {texts : List String}
    (htexts : texts.all (fun t => t.toList.all isStatementChar) = true) {text : String}
    (h : text ∈ texts) : ∀ c ∈ text.toList, isStatementChar c = true :=
  List.all_eq_true.mp (List.all_eq_true.mp htexts text h)

/-- A contained lexeme that is no placeholder is spelled with characters of statements. -/
theorem Lexeme.Contained.isStatementChar {l : Lexeme} (h : l.Contained)
    (other : ∀ name, l ≠ .placeholder name) :
    ∀ c ∈ l.spell.toList, TypedSql.isStatementChar c = true := by
  cases h with
  | blank known => exact isStatementChar_of_mem (by decide +kernel) known
  | word known => exact isStatementChar_of_mem (by decide +kernel) known
  | declaration written =>
    exact List.all_eq_true.mp (all_write (by decide +kernel)
      (fun _ => isStatementChar_of_isDigit) (by decide +kernel) written)
  | mark known => exact isStatementChar_of_mem (by decide +kernel) known
  | name notVariable checked =>
    have hname := isIdentifierChar_of_admits notVariable checked
    intro c hc
    rw [spell, String.toList_append, String.toList_append, List.mem_append, List.mem_append] at hc
    rcases hc with (hc | hc) | hc
    · exact List.mem_singleton.mp hc ▸ by decide
    · exact isStatementChar_of_isIdentifierChar (hname c hc)
    · exact List.mem_singleton.mp hc ▸ by decide
  | placeholder _ => exact absurd rfl (other _)
  | integer value => exact isStatementChar_signed (Number.signed_toString _)
  | number finite => exact isStatementChar_signed (Number.signed_write _ _ finite)
  | anyText => exact List.all_eq_true.mp (by decide +kernel)

/-- The characters of a contained placeholder behind its `@`. -/
theorem Lexeme.Contained.isIdentifierChar {name : String}
    (h : (Lexeme.placeholder name).Contained) :
    ∀ c ∈ name.toList, Text.isIdentifierChar c = true := by
  cases h with
  | placeholder checked => exact isIdentifierChar_of_isParameterName checked

/-- Of the lexemes of a statement, only white space ends a line. -/
theorem Lexeme.Contained.notMem_newline {l : Lexeme} (h : l.Contained)
    (inLine : ∀ text, l = .blank text → text = " ") : '\n' ∉ l.spell.toList := by
  have hother : ∀ {c : Char}, Text.isIdentifierChar c = true → c ≠ '\n' := by
    rintro c hc rfl
    exact absurd hc (by decide)
  have hdigit : ∀ c : Char, c.isDigit = true → c ≠ '\n' := fun c hc =>
    hother (Text.isIdentifierChar_of_isDigit hc)
  have hmarks : ∀ c ∈ ['.', 'e', '-'], c ≠ '\n' := by simp
  have hknown : ∀ {texts : List String} {text : String}, text ∈ texts →
      texts.all (fun t => t.toList.all (· != '\n')) = true → '\n' ∉ text.toList := by
    intro texts text htext htexts hmem
    have hall := List.all_eq_true.mp (List.all_eq_true.mp htexts text htext)
    exact absurd (hall _ hmem) (by decide)
  cases h with
  | blank known =>
    obtain rfl := inLine _ rfl
    decide
  | word known => exact hknown known (by decide +kernel)
  | declaration written =>
    have hall := all_write (p := fun c => c != '\n') (by decide +kernel)
      (fun c hc => by simpa using hdigit c hc) (by decide) written
    exact fun hmem => absurd (List.all_eq_true.mp hall '\n' hmem) (by decide)
  | mark known => exact hknown known (by decide +kernel)
  | name notVariable checked =>
    have hname := isIdentifierChar_of_admits notVariable checked
    have hfree : '\n' ∉ _ := fun hmem => hother (hname _ hmem) rfl
    simpa [spell] using hfree
  | placeholder checked =>
    have hname := isIdentifierChar_of_isParameterName checked
    have hfree : '\n' ∉ _ := fun hmem => hother (hname _ hmem) rfl
    simpa [spell] using hfree
  | integer value =>
    exact fun hmem => forall_of_signed hdigit hmarks (Number.signed_toString _) _ hmem rfl
  | number finite =>
    exact fun hmem => forall_of_signed hdigit hmarks (Number.signed_write _ _ finite) _ hmem rfl
  | anyText => decide

theorem AllContained.notMem_newline {ls : List Lexeme} (h : AllContained ls)
    (inLine : ∀ text, .blank text ∈ ls → text = " ") : '\n' ∉ (Lexeme.text ls).toList := by
  induction ls with
  | nil => simp
  | cons l ls ih =>
    obtain ⟨hfirst, hrest⟩ := List.forall_mem_cons.mp h
    have hl : ∀ text, l = .blank text → text = " " := fun text heq =>
      inLine text (heq ▸ List.mem_cons_self)
    rw [Lexeme.toList_text_cons, List.mem_append, not_or]
    exact ⟨hfirst.notMem_newline hl,
      ih hrest fun text hmem => inLine text (List.mem_cons_of_mem l hmem)⟩

/-- No lexeme of a statement has a question mark in it. -/
theorem Lexeme.Contained.notMem_question {l : Lexeme} (h : l.Contained) :
    '?' ∉ l.spell.toList := by
  by_cases hplaceholder : ∃ name, l = .placeholder name
  · obtain ⟨name, rfl⟩ := hplaceholder
    rw [spell, String.toList_append, List.mem_append, not_or]
    exact ⟨by decide, fun hmem => absurd (h.isIdentifierChar _ hmem) (by decide)⟩
  · intro hmem
    exact absurd (h.isStatementChar (fun name heq => hplaceholder ⟨name, heq⟩) _ hmem) (by decide)

theorem AllContained.notMem_question {ls : List Lexeme} (h : AllContained ls) :
    '?' ∉ (Lexeme.text ls).toList := by
  induction ls with
  | nil => simp
  | cons l ls ih =>
    obtain ⟨hfirst, hrest⟩ := List.forall_mem_cons.mp h
    rw [Lexeme.toList_text_cons, List.mem_append, not_or]
    exact ⟨hfirst.notMem_question, ih hrest⟩

/-- No built statement has a question mark in it. -/
theorem Statement.Built.notMem_question {s : Statement} (h : s.Built) : '?' ∉ s.text.toList := by
  obtain ⟨body, htext, hbody⟩ := h.isContained
  rw [htext, Lexeme.text_append, String.toList_append, List.mem_append, not_or]
  exact ⟨AllContained.notMem_question hbody, by decide⟩

end TypedSql

/-
Declarations that list members, such as `enum('a','b')`.

A member is listed in single quotes, with the quotes in it doubled. The grammar of declarations
knows no quotes: the arguments end at the first closing parenthesis, and they are the pieces between
commas, whatever these marks stand in.

* `Spelled.count_close` — there is at most one closing parenthesis in a declaration;
* `arguments_memberList` — the first argument of a list of members is no number, and the second one
  is a number only inside the first member;
* `read_listed_iff` — a list of members is accepted if and only if no member has a closing
  parenthesis, and what it is read as then.
-/
import TypedSql.Proofs.DeclarationGrammar

namespace TypedSql

namespace Text

/-- What is split begins the first piece, if it is no mark. -/
theorem exists_splitAt_cons {mark c : Char} (h : c ≠ mark) (rest : List Char) :
    ∃ piece pieces, splitAt mark (c :: rest) = (c :: piece) :: pieces := by
  rw [splitAt, if_neg h]
  cases splitAt mark rest with
  | nil => exact ⟨[], [], rfl⟩
  | cons piece pieces => exact ⟨piece, pieces, rfl⟩

end Text

namespace Declaration

open Text

/-! ### Members in quotes -/

/-- A text with each quote in it doubled. -/
def doubled (cs : List Char) : List Char :=
  cs.flatMap fun c => if c = '\x27' then [c, c] else [c]

/-- A member in single quotes. -/
def quotedMember (member : String) : List Char :=
  '\x27' :: (doubled member.toList ++ ['\x27'])

/-- Members in quotes, with a comma between each two. -/
def memberList (members : List String) : List Char :=
  [','].intercalate (members.map quotedMember)

/-- The declaration of a family with a list of members. -/
def listed (family : String) (members : List String) : String :=
  String.ofList (family.toList ++ '(' :: (memberList members ++ [')']))

theorem mem_doubled {c : Char} {cs : List Char} : c ∈ doubled cs ↔ c ∈ cs := by
  rw [doubled, List.mem_flatMap]
  constructor
  · rintro ⟨d, hd, hc⟩
    split_ifs at hc <;> simp at hc <;> exact hc ▸ hd
  · intro hc
    exact ⟨c, hc, by split_ifs <;> simp⟩

theorem doubled_append (cs ds : List Char) : doubled (cs ++ ds) = doubled cs ++ doubled ds :=
  List.flatMap_append

theorem doubled_comma (cs : List Char) : doubled (',' :: cs) = ',' :: doubled cs :=
  rfl

theorem doubled_of_notMem {cs : List Char} (h : '\x27' ∉ cs) : doubled cs = cs := by
  induction cs with
  | nil => rfl
  | cons c cs ih =>
    obtain ⟨hc, hcs⟩ := List.ne_and_not_mem_of_not_mem_cons h
    rw [doubled, List.flatMap_cons, if_neg (Ne.symm hc), ← doubled, ih hcs]
    rfl

/-- Behind the first member, each further one follows a comma. -/
theorem memberList_cons (first : String) (more : List String) : memberList (first :: more) =
    quotedMember first ++ more.flatMap fun m => ',' :: quotedMember m := by
  induction more generalizing first with
  | nil => simp [memberList]
  | cons second more ih =>
    rw [memberList, List.map_cons, List.map_cons, List.intercalate_cons_cons, ← List.map_cons,
      ← memberList, ih]
    simp

/-- The closing parentheses of a list are those of its members. -/
theorem close_mem_memberList {members : List String} :
    ')' ∈ memberList members ↔ ∃ m ∈ members, ')' ∈ m.toList := by
  have hquoted (m : String) : ')' ∈ quotedMember m ↔ ')' ∈ m.toList := by
    simp [quotedMember, mem_doubled]
  cases members with
  | nil => simp [memberList]
  | cons first more => simp [memberList_cons, hquoted]

/-! ### When a list is accepted -/

/-- A declaration has one closing parenthesis at most: that of its arguments. -/
theorem Spelled.count_close {text name : List Char} {arguments : Option (List Char)}
    {unsigned : Bool} (h : Spelled text name arguments unsigned)
    (hletters : ∀ c ∈ name, foldsToLetter c = true) : text.count ')' ≤ 1 := by
  obtain ⟨hfront, hgap, hlist, htail⟩ := h
  rename_i before between list tail
  have hblank {cs : List Char} (hcs : Blanks cs) : cs.count ')' = 0 :=
    List.count_eq_zero.mpr fun hmem => absurd (hcs _ hmem) (by decide)
  have hname : name.count ')' = 0 :=
    List.count_eq_zero.mpr fun hmem => absurd (hletters _ hmem) (by decide)
  have hbehind : tail.count ')' = 0 :=
    List.count_eq_zero.mpr (htail.notMem (by decide) (by decide))
  have harguments : list.count ')' ≤ 1 := by
    cases hlist with
    | absent => exact Nat.zero_le 1
    | present closed => simp [List.count_eq_zero.mpr closed]
  simp only [List.count_append, hblank hfront, hblank hgap, hname, hbehind]
  omega

theorem toList_listed (family : String) (members : List String) :
    (listed family members).toList = family.toList ++ '(' :: (memberList members ++ [')']) :=
  String.toList_ofList

theorem spelled_listed (family : String) {members : List String}
    (closed : ∀ m ∈ members, ')' ∉ m.toList) :
    Spelled (listed family members).toList family.toList (some (memberList members)) false := by
  have hclosed : ')' ∉ memberList members := fun hmem => by
    obtain ⟨m, hm, hclose⟩ := close_mem_memberList.mp hmem
    exact closed m hm hclose
  have htail : Tail ([] ++ ([] ++ [])) false := .intro .absent .absent blanks_nil
  have hspelled : Spelled ([] ++ (family.toList ++ ([] ++ ('(' :: (memberList members ++ [')']) ++
      ([] ++ ([] ++ [])))))) family.toList (some (memberList members)) false :=
    .intro blanks_nil blanks_nil (.present hclosed) htail
  rw [toList_listed]
  simpa using hspelled

/-- A closing parenthesis in a member ends the arguments, so that nothing can follow. -/
theorem closed_of_read {family : String} {members : List String} {nullable : Bool} {d : Declaration}
    (h : read Registry.standard (listed family members) nullable = .ok d) :
    ∀ m ∈ members, ')' ∉ m.toList := by
  obtain ⟨name, arguments, unsigned, hspelled, hname⟩ := spelled_of_read h
  have hcount := hspelled.count_close hname.letters.2
  rw [toList_listed] at hcount
  simp only [List.count_append, List.count_cons, List.count_nil] at hcount
  intro m hm hclose
  have hinside := List.one_le_count_iff.mpr (close_mem_memberList.mpr ⟨m, hm, hclose⟩)
  simp at hcount
  omega

/-! ### Numbers among members -/

/-- A number has no quote and no comma. -/
theorem NumberText.notMem {cs : List Char} {n : UInt32} (h : NumberText cs n) {c : Char}
    (hblank : isBlank c = false) (hsign : c ≠ '+') (hdigit : c.isDigit = false) : c ∉ cs := by
  obtain ⟨hbefore, hsigned, -, heach, -, hafter⟩ := h
  have hwhite {ds : List Char} (hds : Blanks ds) : c ∉ ds := fun hmem =>
    absurd ((hds c hmem).symm.trans hblank) (by simp)
  simp only [List.mem_append, not_or]
  refine ⟨hwhite hbefore, ⟨?_, fun hmem => ?_⟩, hwhite hafter⟩
  · obtain rfl | rfl := hsigned
    · exact List.not_mem_nil
    · simpa using hsign
  · exact absurd ((heach c hmem).symm.trans hdigit) (by simp)

theorem argument?_of_quote {cs : List Char} (h : '\x27' ∈ cs) : argument? cs = none := by
  by_contra hsome
  obtain ⟨n, hn⟩ := Option.ne_none_iff_exists'.mp hsome
  exact (argument?_eq_some_iff.mp hn).notMem (by decide) (by decide) (by decide) h

/-- A number between the first two commas of a text. -/
def NumberBetween (text : List Char) (n : UInt32) : Prop :=
  ∃ before number after, text = before ++ ',' :: (number ++ ',' :: after) ∧ ',' ∉ before ∧
    NumberText number n

/-- What follows a member: the end of the list, or a comma and the quote of the next member. -/
def FollowsMember (behind : List Char) : Prop :=
  behind = [] ∨ ∃ rest, behind = ',' :: '\x27' :: rest

/-- A piece that a member's closing quote ends, and the quote in the piece behind it. -/
theorem splitAt_closing {cs behind : List Char} (hcs : ',' ∉ cs) (hbehind : FollowsMember behind) :
    ∃ pieces, splitAt ',' (cs ++ '\x27' :: behind) = (cs ++ ['\x27']) :: pieces ∧
      ∀ piece ∈ pieces.head?, '\x27' ∈ piece := by
  have hcomma : ',' ∉ cs ++ ['\x27'] := by simp [hcs]
  obtain rfl | ⟨rest, rfl⟩ := hbehind
  · exact ⟨[], splitAt_of_notMem hcomma, by simp⟩
  · obtain ⟨piece, pieces, hsplit⟩ :=
      exists_splitAt_cons (show '\x27' ≠ ',' by decide) rest
    refine ⟨('\x27' :: piece) :: pieces, ?_, by simp⟩
    have htext : cs ++ '\x27' :: ',' :: '\x27' :: rest =
        cs ++ ['\x27'] ++ ',' :: '\x27' :: rest := by simp
    rw [htext, splitAt_append hcomma, hsplit]

section Numbers

variable {cs behind : List Char} {n : UInt32}

/-- A comma in a member ends a piece. -/
theorem splitAt_doubled {front : List Char} (h : ',' ∉ front) (rest : List Char) :
    splitAt ',' (doubled (front ++ ',' :: rest) ++ behind) =
      doubled front :: splitAt ',' (doubled rest ++ behind) := by
  have hfront : ',' ∉ doubled front := by simpa [mem_doubled] using h
  rw [doubled_append, doubled_comma, List.append_assoc, List.cons_append, splitAt_append hfront]

/-- So does one in the first member, behind its opening quote. -/
theorem splitAt_quote_doubled {front : List Char} (h : ',' ∉ front) (rest : List Char) :
    splitAt ',' ('\x27' :: (doubled (front ++ ',' :: rest) ++ behind)) =
      ('\x27' :: doubled front) :: splitAt ',' (doubled rest ++ behind) := by
  rw [splitAt, if_neg (by decide), splitAt_doubled h]

theorem argument_zero_quoted : (arguments ('\x27' :: cs))[0]?.join = none := by
  obtain ⟨piece, pieces, hsplit⟩ := exists_splitAt_cons (show '\x27' ≠ ',' by decide) cs
  rw [arguments, hsplit]
  simp [argument?_of_quote]

/-- A second argument that is a number stands between two commas of the first member: a piece that
goes on to a quote is no number. -/
theorem numberBetween_of_argument (hbehind : FollowsMember behind)
    (h : (arguments ('\x27' :: (doubled cs ++ '\x27' :: behind)))[1]?.join = some n) :
    NumberBetween cs n := by
  have hink {piece : List Char} (hpiece : '\x27' ∈ piece) : argument? piece ≠ some n := by
    rw [argument?_of_quote hpiece]
    simp
  rw [arguments] at h
  by_cases hfirst : ',' ∈ cs
  · obtain ⟨before, rest, rfl, hbefore⟩ := List.eq_append_cons_of_mem hfirst
    rw [splitAt_quote_doubled hbefore] at h
    by_cases hrest : ',' ∈ rest
    · obtain ⟨number, after, rfl, hnumber⟩ := List.eq_append_cons_of_mem hrest
      rw [splitAt_doubled hnumber] at h
      have htext := argument?_eq_some_iff.mp (by simpa using h)
      have hquote : '\x27' ∉ number := fun hmem =>
        htext.notMem (by decide) (by decide) (by decide) (mem_doubled.mpr hmem)
      rw [doubled_of_notMem hquote] at htext
      exact ⟨before, number, after, rfl, hbefore, htext⟩
    · have hcomma : ',' ∉ doubled rest := by simpa [mem_doubled] using hrest
      obtain ⟨pieces, hpieces, -⟩ := splitAt_closing hcomma hbehind
      have hquote : '\x27' ∈ doubled rest ++ ['\x27'] := by simp
      rw [hpieces] at h
      exact absurd (by simpa using h) (hink hquote)
  · have hcomma : ',' ∉ '\x27' :: doubled cs := by simpa [mem_doubled] using hfirst
    obtain ⟨pieces, hpieces, hnext⟩ := splitAt_closing hcomma hbehind
    rw [← List.cons_append, hpieces] at h
    cases pieces with
    | nil => simp at h
    | cons piece pieces => exact absurd (by simpa using h) (hink (hnext piece rfl))

theorem argument_of_numberBetween (h : NumberBetween cs n) :
    (arguments ('\x27' :: (doubled cs ++ '\x27' :: behind)))[1]?.join = some n := by
  obtain ⟨before, number, after, rfl, hbefore, hnumber⟩ := h
  have hcomma : ',' ∉ number := hnumber.notMem (by decide) (by decide) (by decide)
  have hsame : doubled number = number :=
    doubled_of_notMem (hnumber.notMem (by decide) (by decide) (by decide))
  rw [arguments, splitAt_quote_doubled hbefore, splitAt_doubled hcomma, hsame]
  simpa using argument?_eq_some_iff.mpr hnumber

end Numbers

/-- The first argument of a list of members is no number, and the second one is a number only where
it stands between the first two commas of the first member. -/
theorem arguments_memberList (first : String) (more : List String) :
    (arguments (memberList (first :: more)))[0]?.join = none ∧
      ∀ n, (arguments (memberList (first :: more)))[1]?.join = some n ↔
        NumberBetween first.toList n := by
  obtain ⟨behind, hlist, hbehind⟩ : ∃ behind, memberList (first :: more) =
      '\x27' :: (doubled first.toList ++ '\x27' :: behind) ∧ FollowsMember behind := by
    refine ⟨more.flatMap fun m => ',' :: quotedMember m, ?_, ?_⟩
    · rw [memberList_cons, quotedMember, List.cons_append, List.append_assoc]
      rfl
    · cases more with
      | nil => exact .inl rfl
      | cons second more => exact .inr ⟨_, rfl⟩
  rw [hlist]
  exact ⟨argument_zero_quoted, fun n =>
    ⟨numberBetween_of_argument hbehind, argument_of_numberBetween⟩⟩

/-! ### What a list is read as -/

/-- The families whose declarations list members, with their server types. -/
def memberFamilies : List (String × NativeType) :=
  [("enum", .enum), ("set", .set)]

theorem mem_standard_of_memberFamilies {family : String} {native : NativeType}
    (h : (family, native) ∈ memberFamilies) :
    Family.plain family native .string ∈ Family.standard := by
  have hall : ∀ entry ∈ memberFamilies,
      Family.plain entry.1 entry.2 .string ∈ Family.standard := by
    decide
  exact hall _ h

/-- A list of members is accepted if and only if no member has a closing parenthesis. It is then of
the server type of its family and has no length, but a number between the first two commas of the
first member counts as a scale. -/
theorem read_listed_iff {family : String} {native : NativeType}
    (h : (family, native) ∈ memberFamilies) (first : String) (more : List String)
    (nullable : Bool) :
    ((∃ d, read Registry.standard (listed family (first :: more)) nullable = .ok d) ↔
      ∀ m ∈ first :: more, ')' ∉ m.toList) ∧
    ∀ d, read Registry.standard (listed family (first :: more)) nullable = .ok d →
      d.family = family ∧ d.native = native ∧ d.host = ⟨.string, nullable⟩ ∧ d.length = none ∧
        ∀ n, d.scale = some n ↔ NumberBetween first.toList n := by
  have hf := mem_standard_of_memberFamilies h
  have hname : ∀ entry ∈ memberFamilies, (Family.plain entry.1 entry.2 .string).hasName
      (String.ofList (lower entry.1.toList)) = true ∧ entry.1 ≠ "tinyint" := by
    decide
  obtain ⟨hnamed, hplain⟩ := hname _ h
  have hread (closed : ∀ m ∈ first :: more, ')' ∉ m.toList) :=
    exists_read (spelled_listed family closed) hf hnamed nullable
  refine ⟨⟨fun ⟨d, hd⟩ => closed_of_read hd, fun closed => ?_⟩, fun d hd => ?_⟩
  · obtain ⟨d, hd, -⟩ := hread closed
    exact ⟨d, hd⟩
  · obtain ⟨d', hd', hmeans⟩ := hread (closed_of_read hd)
    obtain rfl : d' = d := Except.ok.inj (hd'.symm.trans hd)
    obtain ⟨hzero, hone⟩ := arguments_memberList first more
    obtain ⟨g, hg, hgname, hfamily, hnative, hhost⟩ := hmeans.family
    rw [if_neg fun htruth => hplain htruth.1] at hgname
    obtain rfl : g = Family.plain family native .string :=
      Family.eq_of_hasName hg hf (hgname ▸ g.hasName_name) (Family.hasName_name _)
    refine ⟨hfamily, hnative, hhost, ?_, fun n => ?_⟩
    · refine Option.eq_none_iff_forall_ne_some.mpr fun n hn => ?_
      have hlength := numbers_eq_some_iff.mpr ((hmeans.length n).mp hn)
      rw [Option.getD_some, hzero] at hlength
      exact absurd hlength (by simp)
    · rw [hmeans.scale, ← numbers_eq_some_iff, Option.getD_some, hone]

/-- A quote and an opening parenthesis do no harm, but a number between commas does. -/
theorem read_listed_numbered : ("set", NativeType.set) ∈ memberFamilies ∧
    ∃ d, read Registry.standard (listed "set" ["a, +7,b", "it\x27s (c,8,d"]) true = .ok d ∧
      d.native = .set ∧ d.length = none ∧ d.scale = some 7 := by
  have hset : ("set", NativeType.set) ∈ memberFamilies := by decide
  obtain ⟨hread, hmeans⟩ := read_listed_iff hset "a, +7,b" ["it\x27s (c,8,d"] true
  obtain ⟨d, hd⟩ := hread.mpr (by decide)
  obtain ⟨-, hnative, -, hlength, hscale⟩ := hmeans d hd
  have hnumber : NumberText " +7".toList 7 := argument?_eq_some_iff.mp (by decide)
  exact ⟨hset, d, hd, hnative, hlength,
    (hscale 7).mpr ⟨['a'], " +7".toList, ['b'], rfl, by decide, hnumber⟩⟩

/-- A closing parenthesis does harm. -/
example : (read Registry.standard (listed "enum" ["a)", "b"]) false).isOk = false := by
  decide

end Declaration

end TypedSql

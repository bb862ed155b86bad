/-
Declarations that are written, and what they are read as.

A server type is declared by the name of the one family that carries it, with a length in
parentheses behind the name and the word `unsigned` at the end (`spelling`). The grammar spells such
a text with these parts, so it is read as the same family and length; only the length 1 of `tinyint`
makes a truth value of it.

* `write_member`, `exists_read_spelling` — how a server type is written, and what this is read as;
* `ofMember_of_read` — a declaration that is read is one of a family's member;
* `read_write` — what is written is read back.
-/
import TypedSql.Proofs.DeclarationGrammar
import TypedSql.Proofs.Numeral
import TypedSql.Proofs.Outcome

namespace TypedSql

/-! ### Families and their members -/

namespace Family

/-- A member is the one that the sign of its type selects. -/
theorem member_isUnsigned {f : Family} (hf : f ∈ standard) (unsigned : Bool) :
    f.member (f.member unsigned).native.isUnsigned = f.member unsigned := by
  have hall : ∀ f ∈ standard, ∀ unsigned,
      f.member (f.member unsigned).native.isUnsigned = f.member unsigned := by
    decide
  exact hall f hf unsigned

/-- The smallest integers with a sign are those of `tinyint`. -/
theorem native_eq_byte_iff {f : Family} (hf : f ∈ standard) (unsigned : Bool) :
    (f.member unsigned).native = .byte ↔ f.name = "tinyint" ∧ unsigned = false := by
  have hall : ∀ f ∈ standard, ∀ unsigned,
      (f.member unsigned).native = .byte ↔ f.name = "tinyint" ∧ unsigned = false := by
    decide
  exact hall f hf unsigned

/-- A truth value is what the family `bool` declares, with or without a sign. -/
theorem member_eq_of_bool {f : Family} (hf : f ∈ standard) (hname : f.name = "bool")
    (unsigned : Bool) : f.member unsigned = ⟨.bool, .bool⟩ := by
  have hall : ∀ f ∈ standard, f.name = "bool" → ∀ unsigned, f.member unsigned = ⟨.bool, .bool⟩ := by
    decide
  exact hall f hf hname unsigned

end Family

/-- A server type that a family carries, and that can be declared by the family's name. -/
def NativeType.Declarable (native : NativeType) : Prop :=
  ∃ f ∈ Family.standard, ∃ unsigned, (f.member unsigned).native = native

theorem NativeType.declarable_iff {native : NativeType} : native.Declarable ↔ native ≠ .null := by
  have hall : ∀ native ∈ NativeType.all,
      (∃ f ∈ Family.standard, ∃ unsigned, (f.member unsigned).native = native) ↔
        native ≠ .null := by
    decide
  exact hall native (NativeType.mem_all native)

namespace Declaration

open Text

/-! ### Writing -/

/-- The text of a length: in parentheses, or nothing. -/
def lengthText : Option UInt32 → String
  | none => ""
  | some n => "(" ++ toString n.toNat ++ ")"

/-- A declaration: a name, a length, and whether it is unsigned. -/
def spelling (family : String) (length : Option UInt32) (unsigned : Bool) : String :=
  family ++ lengthText length ++ if unsigned then " unsigned" else ""

theorem nameOf_member {f : Family} (hf : f ∈ Family.standard) (unsigned : Bool) :
    Registry.standard.nameOf (f.member unsigned).native =
      .ok (spelling f.name none (f.member unsigned).native.isUnsigned) := by
  have hall : ∀ f ∈ Family.standard, ∀ unsigned,
      Registry.standard.nameOf (f.member unsigned).native =
        .ok (spelling f.name none (f.member unsigned).native.isUnsigned) := by
    decide +kernel
  exact hall f hf unsigned

/-- A server type that has a name can be declared. -/
theorem declarable_of_nameOf {native : NativeType} {name : String}
    (h : Registry.standard.nameOf native = .ok name) : native.Declarable := by
  rw [NativeType.declarable_iff]
  rintro rfl
  have hnone : (Registry.standard.nameOf .null).isOk = false := by decide +kernel
  rw [h] at hnone
  exact absurd hnone (by simp [Except.isOk, Except.toBool])

/-- A length is put in front of the word `unsigned`. -/
theorem withLength_spelling {f : Family} (hf : f ∈ Family.standard) (n : UInt32)
    (unsigned : Bool) :
    withLength (spelling f.name none unsigned) n = spelling f.name (some n) unsigned := by
  cases unsigned with
  | false =>
    have hall : ∀ f ∈ Family.standard,
        " unsigned".toList.isSuffixOf (spelling f.name none false).toList = false := by
      decide
    rw [withLength]
    simp only [hall f hf, Bool.false_eq_true, if_false]
    simp [spelling, lengthText]
  | true =>
    have hlist : (spelling f.name none true).toList = f.name.toList ++ " unsigned".toList := by
      simp [spelling, lengthText]
    have hsuffix : " unsigned".toList.isSuffixOf (f.name.toList ++ " unsigned".toList) = true :=
      List.isSuffixOf_iff_suffix.mpr (List.suffix_append _ _)
    rw [withLength]
    simp only [hlist, hsuffix, if_true]
    rw [List.length_append, Nat.add_sub_cancel, List.take_left, String.ofList_toList]
    rfl

/-- A server type is written with the name of its family, the length that is given or that it must
have, and the sign of the type. -/
theorem write_member {f : Family} (hf : f ∈ Family.standard) (unsigned : Bool)
    (length : Option UInt32) :
    write Registry.standard (f.member unsigned).native length =
      .ok (spelling f.name (writtenLength (f.member unsigned).native length)
        (f.member unsigned).native.isUnsigned) := by
  rw [write, nameOf_member hf, ok_bind]
  cases writtenLength (f.member unsigned).native length with
  | none => rfl
  | some n => exact congrArg Except.ok (withLength_spelling hf n _)

/-! ### Reading what is written -/

/-- The digits of a length. -/
def lengthDigits (n : UInt32) : List Char :=
  Nat.toDigits 10 n.toNat

theorem numberText_lengthDigits (n : UInt32) : NumberText (lengthDigits n) n := by
  have hdigits : NumberText ([] ++ ([] ++ lengthDigits n ++ [])) n :=
    .intro blanks_nil (.inl rfl) Nat.toDigits_ne_nil Number.isDigit_toDigits
      (digitsValue_toDigits n.toNat) blanks_nil
  simpa using hdigits

/-- The digits of a length are the only argument. -/
theorem arguments_lengthDigits (n : UInt32) : arguments (lengthDigits n) = [some n] := by
  have hcomma : ',' ∉ lengthDigits n := fun hmem =>
    absurd (Number.isDigit_toDigits ',' hmem) (by decide)
  rw [arguments, splitAt_of_notMem hcomma, List.map_singleton,
    argument?_eq_some_iff.mpr (numberText_lengthDigits n)]

theorem spelled_spelling (family : String) (length : Option UInt32) (unsigned : Bool) :
    Spelled (spelling family length unsigned).toList family.toList (length.map lengthDigits)
      unsigned := by
  obtain ⟨list, hlisted, hlist⟩ : ∃ list, ArgumentList list (length.map lengthDigits) ∧
      (lengthText length).toList = list := by
    cases length with
    | none => exact ⟨[], .absent, rfl⟩
    | some n =>
      have hclosed : ')' ∉ lengthDigits n := fun hmem =>
        absurd (Number.isDigit_toDigits ')' hmem) (by decide)
      exact ⟨_, .present hclosed, by simp [lengthText, lengthDigits]⟩
  obtain ⟨sign, hsigned, hsign⟩ : ∃ sign, Modifier "unsigned" sign unsigned ∧
      (if unsigned then " unsigned" else "").toList = sign := by
    cases unsigned with
    | false => exact ⟨[], .absent, rfl⟩
    | true =>
      exact ⟨[' '] ++ "unsigned".toList, .present (by simp) blanks_space (by decide), rfl⟩
  have htail : Tail (sign ++ ([] ++ [])) unsigned := .intro hsigned .absent blanks_nil
  have hspelled : Spelled ([] ++ (family.toList ++ ([] ++ (list ++ (sign ++ ([] ++ []))))))
      family.toList (length.map lengthDigits) unsigned :=
    .intro blanks_nil blanks_nil hlisted htail
  have htext : (spelling family length unsigned).toList = family.toList ++ (list ++ sign) := by
    rw [spelling, String.toList_append, String.toList_append, hlist, hsign, List.append_assoc]
  rw [htext]
  simpa using hspelled

/-- A declaration of a family's member. -/
structure OfMember (d : Declaration) (f : Family) (m : Member) (nullable : Bool) : Prop where
  family : d.family = f.name
  native : d.native = m.native
  host : d.host = ⟨m.kind, nullable⟩

/-- A text that is written with a family's name is read as this family, and with the length that it
is written with; the length 1 of `tinyint` makes a truth value of it. -/
theorem exists_read_spelling {f : Family} (hf : f ∈ Family.standard) (length : Option UInt32)
    (unsigned nullable : Bool) :
    ∃ d, read Registry.standard (spelling f.name length unsigned) nullable = .ok d ∧
      d.length = length ∧ ∃ g ∈ Family.standard, g.name = familyFor f.name length unsigned ∧
        d.OfMember g (g.member unsigned) nullable := by
  have hname : ∀ f ∈ Family.standard, f.hasName (String.ofList (lower f.name.toList)) = true := by
    decide
  obtain ⟨d, hd, hmeans⟩ :=
    exists_read (spelled_spelling f.name length unsigned) hf (hname f hf) nullable
  have hlength : d.length = length := by
    have hdigits : (arguments ((length.map lengthDigits).getD []))[0]?.join = length := by
      cases length with
      | none => rfl
      | some n => exact congrArg (fun ns => ns[0]?.join) (arguments_lengthDigits n)
    refine Option.ext fun n => (hmeans.length n).trans ?_
    rw [← numbers_eq_some_iff, hdigits]
  obtain ⟨g, hg, hgname, hfamily, hnative, hhost⟩ := hmeans.family
  rw [hlength] at hgname
  exact ⟨d, hd, hlength, g, hg, hgname, hfamily, hnative, hhost⟩

/-- So is what is written for a server type, and it is this type that it is read as, unless that is
the smallest integers with a sign and the length is 1. -/
theorem exists_read_member {f : Family} (hf : f ∈ Family.standard) (unsigned : Bool)
    (length : Option UInt32) (nullable : Bool) :
    ∃ d, read Registry.standard
        (spelling f.name length (f.member unsigned).native.isUnsigned) nullable = .ok d ∧
      d.length = length ∧
      ((f.member unsigned).native = .byte ∧ length = some 1 ∧ d.native = .bool ∧
          d.host = ⟨.bool, nullable⟩ ∨
        ¬((f.member unsigned).native = .byte ∧ length = some 1) ∧
          d.OfMember f (f.member unsigned) nullable) := by
  obtain ⟨d, hd, hlength, g, hg, hgname, hmember⟩ :=
    exists_read_spelling hf length (f.member unsigned).native.isUnsigned nullable
  have hself := Family.member_isUnsigned hf unsigned
  have hbyte := Family.native_eq_byte_iff hf (f.member unsigned).native.isUnsigned
  rw [hself] at hbyte
  refine ⟨d, hd, hlength, ?_⟩
  rw [familyFor] at hgname
  split_ifs at hgname with htruth
  · -- a truth value, as the server reports it
    obtain ⟨hname, hone, hsign⟩ := htruth
    rw [Family.member_eq_of_bool hg hgname] at hmember
    exact .inl ⟨hbyte.mpr ⟨hname, hsign⟩, hone, hmember.native, hmember.host⟩
  · obtain rfl : g = f :=
      Family.eq_of_hasName hg hf (hgname ▸ g.hasName_name) f.hasName_name
    rw [hself] at hmember
    refine .inr ⟨fun hsmall => htruth ?_, hmember⟩
    obtain ⟨hname, hsign⟩ := hbyte.mp hsmall.1
    exact ⟨hname, hsmall.2, hsign⟩

/-- The length that a type is written with: the one that is given, or else 255 where the type must
have one. -/
theorem writtenLength_eq (native : NativeType) (length : Option UInt32) :
    writtenLength native length = length.or (if native.requiresLength then some 255 else none) := by
  cases length <;> rfl

/-- A server type is written, and what is written is read as this type again, unless that is the
smallest integers with a sign and the length 1. -/
theorem exists_write_read {f : Family} (hf : f ∈ Family.standard) (unsigned : Bool)
    (length : Option UInt32) (nullable : Bool) :
    ∃ text d, write Registry.standard (f.member unsigned).native length = .ok text ∧
      read Registry.standard text nullable = .ok d ∧
      d.length = length.or (if (f.member unsigned).native.requiresLength then some 255 else none) ∧
      ((f.member unsigned).native = .byte ∧ length = some 1 ∧ d.native = .bool ∧
          d.host = ⟨.bool, nullable⟩ ∨
        ¬((f.member unsigned).native = .byte ∧ length = some 1) ∧
          d.OfMember f (f.member unsigned) nullable) := by
  obtain ⟨d, hd, hlength, hnative⟩ := exists_read_member hf unsigned
    (writtenLength (f.member unsigned).native length) nullable
  -- no default length makes a truth value
  have hdefault : (f.member unsigned).native = .byte →
      writtenLength (f.member unsigned).native length = length := by
    intro hbyte
    rw [writtenLength_eq, hbyte]
    exact Option.or_none
  refine ⟨_, d, write_member hf unsigned length, hd, hlength.trans (writtenLength_eq _ _), ?_⟩
  obtain ⟨hbyte, hone, htruth⟩ | ⟨hother, hmember⟩ := hnative
  · exact .inl ⟨hbyte, (hdefault hbyte).symm.trans hone, htruth⟩
  · exact .inr ⟨fun ⟨hbyte, hone⟩ => hother ⟨hbyte, (hdefault hbyte).trans hone⟩, hmember⟩

/-- A declaration that is read is one of a family's member, and never the smallest integers with a
sign and the length 1. -/
theorem ofMember_of_read {text : String} {nullable : Bool} {d : Declaration}
    (h : read Registry.standard text nullable = .ok d) :
    (∃ f ∈ Family.standard, ∃ unsigned, d.OfMember f (f.member unsigned) nullable) ∧
      ¬(d.native = .byte ∧ d.length = some 1) := by
  obtain ⟨name, arguments, unsigned, hspelled, f, hf, hname⟩ := spelled_of_read h
  obtain ⟨d', hd', hmeans⟩ := exists_read hspelled hf hname nullable
  obtain rfl : d' = d := Except.ok.inj (hd'.symm.trans h)
  obtain ⟨g, hg, hgname, hfamily, hnative, hhost⟩ := hmeans.family
  refine ⟨⟨g, hg, unsigned, hfamily, hnative, hhost⟩, fun ⟨hbyte, hone⟩ => ?_⟩
  obtain ⟨htinyint, hsign⟩ := (Family.native_eq_byte_iff hg unsigned).mp (hnative ▸ hbyte)
  rw [htinyint] at hgname
  split_ifs at hgname with htruth
  · exact absurd hgname (by decide)
  · exact htruth ⟨hgname.symm, hone, hsign⟩

/-- What is written for a server type is read as this type, with the length that was given or the
one that the type must have; only the length 1 of the smallest integers with a sign makes a truth
value of them. So a declaration that is read and written again keeps its family, its types and its
length. -/
theorem read_write :
    (∀ native : NativeType, native.Declarable → ∀ length nullable, ∃ text d,
      write Registry.standard native length = .ok text ∧
        read Registry.standard text nullable = .ok d ∧
        d.native = (if native = .byte ∧ length = some 1 then .bool else native) ∧
        d.length = length.or (if native.requiresLength then some 255 else none)) ∧
    ∀ text nullable d, read Registry.standard text nullable = .ok d → ∃ text' d',
      write Registry.standard d.native d.length = .ok text' ∧
        read Registry.standard text' nullable = .ok d' ∧
        d'.family = d.family ∧ d'.native = d.native ∧ d'.host = d.host ∧
        d'.length = d.length.or (if d.native.requiresLength then some 255 else none) := by
  constructor
  · rintro native ⟨f, hf, unsigned, rfl⟩ length nullable
    obtain ⟨text, d, hwrite, hread, hlength, hnative⟩ :=
      exists_write_read hf unsigned length nullable
    refine ⟨text, d, hwrite, hread, ?_, hlength⟩
    obtain ⟨hbyte, hone, htruth, -⟩ | ⟨hother, hmember⟩ := hnative
    · rw [if_pos ⟨hbyte, hone⟩, htruth]
    · rw [if_neg hother, hmember.native]
  · intro text nullable d h
    obtain ⟨⟨f, hf, unsigned, hmember⟩, hnever⟩ := ofMember_of_read h
    obtain ⟨text', d', hwrite, hread, hlength, ⟨hbyte, hone, -⟩ | ⟨-, hmember'⟩⟩ :=
      exists_write_read hf unsigned d.length nullable
    · exact absurd ⟨hmember.native.trans hbyte, hone⟩ hnever
    · rw [hmember.family, hmember.native, hmember.host]
      exact ⟨text', d', hwrite, hread, hmember'.family, hmember'.native, hmember'.host, hlength⟩

/-- The one exception, and an alias with a sign that means nothing, a plus sign, zeros and
capitals. -/
theorem read_write_truth : NativeType.byte.Declarable ∧
    (∃ text d, write Registry.standard .byte (some 1) = .ok text ∧
      read Registry.standard text true = .ok d ∧ d.native = .bool ∧ d.length = some 1) ∧
    ∃ d, read Registry.standard "FIXED( +007, 2) UnSigned zerofill" true = .ok d ∧
      ∃ text' d', write Registry.standard d.native d.length = .ok text' ∧
        read Registry.standard text' true = .ok d' ∧ d'.family = d.family ∧
        d'.native = d.native ∧ d'.host = d.host ∧ d'.length = some 7 := by
  have hbyte : NativeType.byte.Declarable := NativeType.declarable_iff.mpr (by decide)
  have hread : ((read Registry.standard "FIXED( +007, 2) UnSigned zerofill" true).toOption.map
      Declaration.length) = some (some 7) := by
    decide
  cases hd : read Registry.standard "FIXED( +007, 2) UnSigned zerofill" true with
  | error e => simp [hd, Except.toOption] at hread
  | ok d =>
    obtain ⟨text', d', hwrite, hread', hfamily, hnative, hhost, hlength⟩ := read_write.2 _ _ d hd
    have hseven : d.length = some 7 := by simpa [hd, Except.toOption] using hread
    exact ⟨hbyte, read_write.1 .byte hbyte (some 1) true, d, rfl, text', d', hwrite, hread',
      hfamily, hnative, hhost, by rw [hlength, hseven]; rfl⟩

end Declaration

end TypedSql

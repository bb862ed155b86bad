/-
The canonical declaration of a host type, and columns that are introspected.

Several families have members with one host type, and the last of them that was registered declares
it. It has this host type itself, so that its name, which is read as the same member, is its own
canonical declaration.

* `Registry.exists_nativeOf` — a host type is declared by a member with its kind of value;
* `exists_read_hostDeclaration` — the canonical declaration of a host type is read as this type;
* `exists_read_ofField` — so is the type that a column is defined with;
* `canonical_fixed` — the canonical declaration of what was read is its own one, and what a column
  is defined with is introspected as its host type.
-/
import TypedSql.Catalog.Column
import TypedSql.Proofs.Builders
import TypedSql.Proofs.DeclarationRoundTrip

namespace TypedSql

/-- The server type of a host type is that of a member with the same kind of value. -/
theorem Registry.exists_nativeOf (host : HostType) : ∃ f ∈ Family.standard, ∃ unsigned,
    (f.member unsigned).kind = host.kind ∧
      standard.nativeOf host = .ok (f.member unsigned).native := by
  have hall : ∀ host ∈ HostType.all, ∃ f ∈ Family.standard, ∃ unsigned,
      (f.member unsigned).kind = host.kind ∧
        standard.nativeOf host = .ok (f.member unsigned).native := by
    decide +kernel
  exact hall host host.mem_all

/-- The smallest integers with a sign are the host values of no other member. -/
theorem Family.kind_eq_i8_iff {f : Family} (hf : f ∈ standard) (unsigned : Bool) :
    (f.member unsigned).kind = .i8 ↔ (f.member unsigned).native = .byte := by
  have hall : ∀ f ∈ standard, ∀ unsigned,
      (f.member unsigned).kind = .i8 ↔ (f.member unsigned).native = .byte := by
    decide +kernel
  exact hall f hf unsigned

namespace Declaration

/-- Every host type has a canonical declaration, and this is read as the host type. -/
theorem exists_read_hostDeclaration (host : HostType) :
    ∃ canonical d, Registry.standard.hostDeclaration host = .ok canonical ∧
      read Registry.standard canonical host.nullable = .ok d ∧ d.host = host := by
  obtain ⟨f, hf, unsigned, hkind, hnative⟩ := Registry.exists_nativeOf host
  obtain ⟨d, hd, -, ⟨-, hone, -⟩ | ⟨-, hmember⟩⟩ :=
    exists_read_member hf unsigned none host.nullable
  · exact absurd hone (by simp)
  · refine ⟨_, d, ?_, hd, by rw [hmember.host, hkind]⟩
    rw [Registry.hostDeclaration, hnative, ok_bind, nameOf_member hf]

/-- The type that a column is defined with is read as the host type of its field, unless the server
type is overridden, or the length 1 makes a truth value of a small integer. -/
theorem exists_read_ofField {f : Field} {definition : ColumnDefinition} (plain : f.native = none)
    (h : ColumnDefinition.ofField f = .ok definition) :
    ∃ d, read Registry.standard definition.declaration f.host.nullable = .ok d ∧
      (d.host = f.host ↔ ¬(f.host.kind = .i8 ∧ f.maxLength = some 1)) := by
  obtain ⟨g, hg, unsigned, hkind, hnative⟩ := Registry.exists_nativeOf f.host
  obtain ⟨native, hlift, h₁⟩ := bind_eq_ok.mp h
  obtain ⟨column, -, h₂⟩ := bind_eq_ok.mp h₁
  obtain ⟨declaration, hwrite, h₃⟩ := bind_eq_ok.mp h₂
  obtain rfl := pure_eq_ok.mp h₃
  have hfield : f.nativeType Registry.standard = .ok (g.member unsigned).native := by
    rw [Field.nativeType, plain, hnative]
  obtain rfl : (g.member unsigned).native = native :=
    Except.ok.inj (hfield.symm.trans (liftType_ok hlift))
  obtain ⟨text, d, hwritten, hread, -, hmeans⟩ :=
    exists_write_read hg unsigned f.maxLength f.host.nullable
  obtain rfl : text = declaration := Except.ok.inj (hwritten.symm.trans (liftType_ok hwrite))
  have hbyte := Family.kind_eq_i8_iff hg unsigned
  rw [hkind] at hbyte
  refine ⟨d, hread, ?_⟩
  obtain ⟨hsmall, hone, -, hhost⟩ | ⟨hother, hmember⟩ := hmeans
  · have hi8 : f.host.kind = .i8 := hbyte.mpr hsmall
    refine iff_of_false (fun heq => ?_) fun hnot => hnot ⟨hi8, hone⟩
    rw [← heq, hhost] at hi8
    exact absurd hi8 (by simp)
  · refine iff_of_true ?_ fun ⟨hi8, hone⟩ => hother ⟨hbyte.mp hi8, hone⟩
    rw [hmember.host, hkind]

end Declaration

/-- A row of a list of columns is read where its declaration is, and has the declaration's host
type. -/
theorem Column.exists_ofRow? {types : Registry} {row : TextRow} {name declaration null : String}
    (hname : row.get? "Field" = some name) (htype : row.get? "Type" = some declaration)
    (hnull : row.get? "Null" = some null) {d : Declaration}
    (h : Declaration.read types declaration (Text.sameIgnoringCase null "YES") = .ok d) :
    ∃ c, Column.ofRow? types row = .ok c ∧ c.host = d.host := by
  simp only [Column.ofRow?, TextRow.require, hname, htype, hnull, h, ok_bind]
  exact ⟨_, rfl, rfl⟩

namespace Declaration

/-- Whatever is read, its host type has a canonical declaration, which is read as the same host
type and is its own canonical declaration. And where the server type of a column is not overridden,
the type that the column is defined with is read as the column's host type, in a row of the server's
list as well, unless it is a small integer of the length 1. -/
theorem canonical_fixed :
    (∀ text nullable d, read Registry.standard text nullable = .ok d →
      ∃ canonical d', Registry.standard.hostDeclaration d.host = .ok canonical ∧
        read Registry.standard canonical nullable = .ok d' ∧ d'.host = d.host ∧
        Registry.standard.hostDeclaration d'.host = .ok canonical) ∧
    ∀ (f : Field) (definition : ColumnDefinition), f.native = none →
      ColumnDefinition.ofField f = .ok definition →
      (∃ d, read Registry.standard definition.declaration f.host.nullable = .ok d ∧
        (d.host = f.host ↔ ¬(f.host.kind = .i8 ∧ f.maxLength = some 1))) ∧
      ∀ row name null, TextRow.get? row "Field" = some name →
        row.get? "Type" = some definition.declaration → row.get? "Null" = some null →
        Text.sameIgnoringCase null "YES" = f.host.nullable →
        ∃ c, Column.ofRow? Registry.standard row = .ok c ∧
          (c.host = f.host ↔ ¬(f.host.kind = .i8 ∧ f.maxLength = some 1)) := by
  constructor
  · intro text nullable d h
    obtain ⟨⟨f, -, unsigned, hmember⟩, -⟩ := ofMember_of_read h
    obtain ⟨canonical, d', hcanonical, hread, hhost⟩ := exists_read_hostDeclaration d.host
    have hnullable : d.host.nullable = nullable := congrArg HostType.nullable hmember.host
    rw [hnullable] at hread
    exact ⟨canonical, d', hcanonical, hread, hhost, hhost ▸ hcanonical⟩
  · intro f definition plain h
    obtain ⟨d, hread, hhost⟩ := exists_read_ofField plain h
    refine ⟨⟨d, hread, hhost⟩, fun row name null hname htype hnull hsame => ?_⟩
    obtain ⟨c, hc, hchost⟩ := Column.exists_ofRow? hname htype hnull (hsame ▸ hread)
    exact ⟨c, hc, hchost ▸ hhost⟩

/-- A family that is not the canonical one of its host type, and a small integer of the length 1
that is no truth value. -/
theorem canonical_fixed_unsigned :
    (∃ d, read Registry.standard "MEDIUMINT(8) Unsigned" true = .ok d ∧
      ∃ canonical d', Registry.standard.hostDeclaration d.host = .ok canonical ∧
        read Registry.standard canonical true = .ok d' ∧ d'.host = d.host ∧
        Registry.standard.hostDeclaration d'.host = .ok canonical) ∧
    ∃ definition,
      ColumnDefinition.ofField { property := "Age", host := ⟨.u8, true⟩, maxLength := some 1 } =
        .ok definition ∧
      (∃ d, read Registry.standard definition.declaration true = .ok d ∧ d.host = ⟨.u8, true⟩) ∧
      ∃ c, Column.ofRow? Registry.standard ⟨["Field", "Type", "Null"],
        [some "AGE", some definition.declaration, some "yes"]⟩ = .ok c ∧ c.host = ⟨.u8, true⟩ := by
  have hread : ∃ d, read Registry.standard "MEDIUMINT(8) Unsigned" true = .ok d :=
    exists_eq_ok_of_isOk (by decide +kernel)
  have hdefinition :
      ColumnDefinition.ofField { property := "Age", host := ⟨.u8, true⟩, maxLength := some 1 } =
        .ok ⟨"AGE", "tinyint(1) unsigned", true, false, false⟩ := by
    decide +kernel
  obtain ⟨d, hd⟩ := hread
  obtain ⟨⟨d', hd', hhost⟩, hrow⟩ := canonical_fixed.2 _ _ rfl hdefinition
  obtain ⟨c, hc, hchost⟩ := hrow ⟨["Field", "Type", "Null"],
    [some "AGE", some "tinyint(1) unsigned", some "yes"]⟩ "AGE" "yes" (by decide) (by decide)
    (by decide) (by decide)
  exact ⟨⟨d, hd, canonical_fixed.1 _ _ d hd⟩, _, hdefinition,
    ⟨d', hd', hhost.mpr (by simp)⟩, c, hc, hchost.mpr (by simp)⟩

end Declaration

end TypedSql

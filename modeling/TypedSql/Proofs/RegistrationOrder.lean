/-
The order of registration, and what it decides.

Registering a family puts its name, its aliases and its variants in front of what is there, and its
declaration names behind. So a look-up of a host type, a name or a variant finds what was registered
last, and a look-up of a declaration name what was registered first.

* `natives_ofFamilies`, `declarations_ofFamilies` — the tables that a list of families makes, by
  induction on the families, from what one registration adds (`natives_register`,
  `declarations_register`);
* `nativeOf_ofFamilies`, `nameOf_ofFamilies` — what is found in them;
* `ordered_ofFamilies` — every look-up in the registry of a list of families, by the order of the
  families alone.
-/
import TypedSql.Proofs.Registration

namespace TypedSql

namespace Family

/-- The variants of a family in the order of their registration: those without NULL first, and
signed before unsigned. -/
def variants (f : Family) : List Variant :=
  [f.variant false false, f.variant false true, f.variant true false, f.variant true true]

/-- Whether a server type is one of the family's. -/
def carries (f : Family) (native : NativeType) : Bool :=
  native == f.signed.native || native == f.unsigned.native

end Family

namespace Registry

/-! ### First and last members -/

/-- The first member of a list with a property. -/
def First {α : Type} (p : α → Bool) (xs : List α) (x : α) : Prop :=
  ∃ front back, xs = front ++ x :: back ∧ p x = true ∧ ∀ y ∈ front, p y = false

/-- The last member of a list with a property. -/
def Last {α : Type} (p : α → Bool) (xs : List α) (x : α) : Prop :=
  ∃ front back, xs = front ++ x :: back ∧ p x = true ∧ ∀ y ∈ back, p y = false

theorem find?_eq_some_iff_first {α : Type} {p : α → Bool} {xs : List α} {x : α} :
    xs.find? p = some x ↔ First p xs x := by
  rw [List.find?_eq_some_iff_append]
  constructor
  · rintro ⟨hx, front, back, hxs, hfront⟩
    exact ⟨front, back, hxs, hx, fun y hy => by simpa using hfront y hy⟩
  · rintro ⟨front, back, hxs, hx, hfront⟩
    exact ⟨hx, front, back, hxs, fun y hy => by simpa using hfront y hy⟩

/-- The last member of a list is the first one from behind. -/
theorem find?_reverse_eq_some_iff_last {α : Type} {p : α → Bool} {xs : List α} {x : α} :
    xs.reverse.find? p = some x ↔ Last p xs x := by
  rw [find?_eq_some_iff_first]
  constructor
  · rintro ⟨back, front, hxs, hx, hback⟩
    refine ⟨front.reverse, back.reverse, ?_, hx, fun y hy => hback y (List.mem_reverse.mp hy)⟩
    rw [← List.reverse_reverse xs, hxs]
    simp
  · rintro ⟨front, back, rfl, hx, hback⟩
    exact ⟨back.reverse, front.reverse, by simp, hx, fun y hy => hback y (List.mem_reverse.mp hy)⟩

theorem find?_reverse_eq_none_iff {α : Type} {p : α → Bool} {xs : List α} :
    xs.reverse.find? p = none ↔ ∀ x ∈ xs, p x = false := by
  simp

/-- A look-up among the pairs that a list makes finds what its first member with the key makes. -/
theorem lookup_map {α κ β : Type} [BEq κ] (key : α → κ) (value : α → β) (k : κ) (xs : List α) :
    (xs.map fun x => (key x, value x)).lookup k = (xs.find? fun x => k == key x).map value := by
  induction xs with
  | nil => rfl
  | cons x xs ih =>
    rw [List.map_cons, List.lookup_cons, List.find?_cons, ih]
    cases k == key x <;> rfl

/-! ### The tables of a list of families -/

theorem natives_register (r : Registry) (f : Family) : (r.register f).natives =
    (f.variants.reverse.map fun v => (v.host, v.native)) ++ r.natives :=
  rfl

theorem declarations_register (r : Registry) (f : Family) : (r.register f).declarations =
    r.declarations ++ f.variants.map fun v => (v.native, declarationName f.name v.native) := by
  simp [register, registerVariant, Family.variants, Family.variant]

/-- The last registered variant comes first in the table of server types. -/
theorem natives_ofFamilies (families : List Family) : (ofFamilies families).natives =
    (families.flatMap Family.variants).reverse.map fun v => (v.host, v.native) := by
  induction families using List.reverseRecOn with
  | nil => rfl
  | append_singleton families f ih =>
    rw [ofFamilies, List.foldl_append, List.foldl_cons, List.foldl_nil, ← ofFamilies,
      natives_register, ih, List.flatMap_append, List.flatMap_singleton, List.reverse_append,
      List.map_append]

/-- The first registered variant comes first in the table of declaration names. -/
theorem declarations_ofFamilies (families : List Family) : (ofFamilies families).declarations =
    families.flatMap fun f =>
      f.variants.map fun v => (v.native, declarationName f.name v.native) := by
  induction families using List.reverseRecOn with
  | nil => rfl
  | append_singleton families f ih =>
    rw [ofFamilies, List.foldl_append, List.foldl_cons, List.foldl_nil, ← ofFamilies,
      declarations_register, ih, List.flatMap_append, List.flatMap_singleton]

/-! ### Look-ups -/

theorem nativeOf_ofFamilies (families : List Family) (host : HostType) :
    (ofFamilies families).nativeOf host =
      match (families.flatMap Family.variants).reverse.find? fun v => host == v.host with
      | some v => .ok v.native
      | none => .error (.unmapped host) := by
  rw [nativeOf, natives_ofFamilies, lookup_map]
  cases (families.flatMap Family.variants).reverse.find? fun v => host == v.host <;> rfl

/-- A family gives all its variants of one server type one declaration name. -/
theorem lookup_declarations (f : Family) (native : NativeType) :
    (f.variants.map fun v => (v.native, declarationName f.name v.native)).lookup native =
      if f.carries native then some (declarationName f.name native) else none := by
  have hcarries : (f.variants.find? fun v => native == v.native) = none ↔
      f.carries native = false := by
    simp +contextual [Family.variants, Family.variant, Family.carries, Family.member]
  rw [lookup_map Variant.native (fun v => declarationName f.name v.native) native f.variants]
  cases hfind : f.variants.find? fun v => native == v.native with
  | none => rw [hcarries.mp hfind, if_neg Bool.false_ne_true, Option.map_none]
  | some v =>
    have hnative : native = v.native := by simpa using List.find?_some hfind
    have hyes : f.carries native = true := by
      by_contra hno
      have hnone := hcarries.mpr (by simpa using hno)
      exact absurd (hfind.symm.trans hnone) (by simp)
    rw [if_pos hyes, Option.map_some, hnative]

theorem lookup_declarations_ofFamilies (families : List Family) (native : NativeType) :
    (ofFamilies families).declarations.lookup native =
      (families.find? (Family.carries · native)).map fun f => declarationName f.name native := by
  rw [declarations_ofFamilies]
  induction families with
  | nil => rfl
  | cons f families ih =>
    rw [List.flatMap_cons, List.lookup_append, lookup_declarations, ih, List.find?_cons]
    cases f.carries native <;> rfl

theorem nameOf_ofFamilies (families : List Family) (native : NativeType) :
    (ofFamilies families).nameOf native =
      match families.find? (Family.carries · native) with
      | some f => .ok (declarationName f.name native)
      | none => .error (.invalidTypeId native.code) := by
  rw [nameOf, lookup_declarations_ofFamilies]
  cases families.find? (Family.carries · native) <;> rfl

/-- What the order of families says about each look-up in a registry. -/
structure Ordered (families : List Family) (r : Registry) : Prop where
  /-- A host type stands for the server type of the last variant that has it. -/
  native {host : HostType} {native : NativeType} : r.nativeOf host = .ok native ↔
    ∃ v, Last (fun v => host == v.host) (families.flatMap Family.variants) v ∧ v.native = native
  /-- A host type that no variant has stands for none. -/
  unmapped {host : HostType} {err : TypeError} : r.nativeOf host = .error err ↔
    err = .unmapped host ∧ ∀ f ∈ families, ∀ v ∈ f.variants, v.host ≠ host
  /-- The first family of a server type names it, and its sign follows the name. -/
  declared {native : NativeType} {name : String} : r.nameOf native = .ok name ↔
    ∃ f, First (Family.carries · native) families f ∧
      name = f.name ++ if native.isUnsigned then " unsigned" else ""
  /-- A server type of no family has no declaration name. -/
  undeclared {native : NativeType} {err : TypeError} : r.nameOf native = .error err ↔
    err = .invalidTypeId native.code ∧ ∀ f ∈ families, f.carries native = false
  /-- A name or alias stands for the last family that has it. -/
  named {name family : String} : r.family? name = some family ↔
    ∃ f, Last (Family.hasName · name) families f ∧ f.name = family
  /-- A name that no family has stands for none. -/
  unnamed {name : String} : r.family? name = none ↔ ∀ f ∈ families, f.hasName name = false
  /-- The variants of a family's name are those of the last family of this name. -/
  variant {family : String} {nullable unsigned : Bool} {v : Variant} :
    r.variant? family nullable unsigned = some v ↔
      ∃ f, Last (fun f => family == f.name) families f ∧ f.variant nullable unsigned = v

theorem declarationName_eq (family : String) (native : NativeType) :
    declarationName family native =
      family ++ if native.isUnsigned then " unsigned" else "" := by
  rw [declarationName]
  cases native.isUnsigned <;> simp

/-- **The order of registration decides.** Of the variants with one host type the last one counts,
of the families with one server type the first one names it, and of the families with one name the
last one has it; what no family has is not found. -/
theorem ordered_ofFamilies (families : List Family) : Ordered families (ofFamilies families) where
  native {host native} := by
    rw [nativeOf_ofFamilies]
    simp only [← find?_reverse_eq_some_iff_last]
    cases (families.flatMap Family.variants).reverse.find? fun v => host == v.host <;> simp
  unmapped {host err} := by
    have hnone : ((families.flatMap Family.variants).reverse.find? fun v => host == v.host) = none ↔
        ∀ f ∈ families, ∀ v ∈ f.variants, v.host ≠ host := by
      rw [find?_reverse_eq_none_iff]
      simp only [List.mem_flatMap, forall_exists_index, and_imp, beq_eq_false_iff_ne, ne_comm]
      exact ⟨fun h f hf v hv => h v f hf hv, fun h v f hf hv => h f hf v hv⟩
    rw [nativeOf_ofFamilies, ← hnone]
    cases (families.flatMap Family.variants).reverse.find? fun v => host == v.host <;>
      simp [eq_comm]
  declared {native name} := by
    rw [nameOf_ofFamilies]
    simp only [← find?_eq_some_iff_first, ← declarationName_eq]
    cases families.find? (Family.carries · native) <;> simp [eq_comm]
  undeclared {native err} := by
    have hnone : families.find? (Family.carries · native) = none ↔
        ∀ f ∈ families, f.carries native = false := by
      simp
    rw [nameOf_ofFamilies, ← hnone]
    cases families.find? (Family.carries · native) <;> simp [eq_comm]
  named {name family} := by
    rw [family?_ofFamilies]
    simp only [← find?_reverse_eq_some_iff_last, Option.map_eq_some_iff]
  unnamed {name} := by
    rw [family?_ofFamilies, Option.map_eq_none_iff, find?_reverse_eq_none_iff]
  variant {family nullable unsigned v} := by
    rw [variant?_ofFamilies]
    simp only [← find?_reverse_eq_some_iff_last, Option.map_eq_some_iff]

end Registry

end TypedSql

/-
What a list of families, registered in order, makes of a name.

Registering a family puts its name, its aliases and its variants in front of what is there, so the
last family decides (`last_decides`).

* `family?_ofFamilies`, `variant?_ofFamilies` — the family of a name or alias, and the variants of a
  family, are those of the last family that has the name;
* `family?_standard`, `variant?_standard` — no two families of the server share a name, so each of
  them has its names and its variants.
-/
import Mathlib
import TypedSql.Types.Registry

namespace TypedSql

namespace Family

/-- Whether a family is declared by a name: its own one or an alias. -/
def hasName (f : Family) (name : String) : Bool :=
  name == f.name || f.aliases.contains name

/-- The variant of a family that nullability and sign select. -/
def variant (f : Family) (nullable unsigned : Bool) : Variant :=
  ⟨⟨(f.member unsigned).kind, nullable⟩, (f.member unsigned).native⟩

theorem hasName_name (f : Family) : f.hasName f.name = true := by
  simp [hasName]

/-- No two families of the server share a name. -/
theorem eq_of_hasName {f g : Family} (hf : f ∈ standard) (hg : g ∈ standard) {name : String}
    (hname : f.hasName name = true) (hname' : g.hasName name = true) : f = g := by
  have hall : ∀ f ∈ standard, ∀ g ∈ standard,
      ∀ n ∈ f.name :: f.aliases, g.hasName n = true → f = g := by
    decide +kernel
  exact hall f hf g hg name (by simpa [hasName] using hname) hname'

end Family

namespace Registry

/-! ### Families in order -/

/-- Where each family puts its own answer in front of what is there, the last family that has one
decides. -/
theorem last_decides {β : Type} (look : Registry → Option β) {p : Family → Bool} {g : Family → β}
    (empty : look empty = none)
    (step : ∀ r f, look (r.register f) = if p f then some (g f) else look r)
    (families : List Family) : look (ofFamilies families) = (families.reverse.find? p).map g := by
  induction families using List.reverseRecOn with
  | nil => exact empty
  | append_singleton families f ih =>
    rw [ofFamilies, List.foldl_append, List.foldl_cons, List.foldl_nil, ← ofFamilies, step, ih,
      List.reverse_append, List.reverse_singleton, List.singleton_append, List.find?_cons]
    cases p f <;> rfl

theorem names_register (r : Registry) (f : Family) : (r.register f).names =
    (f.aliases.reverse.map fun a => (a, f.name)) ++ (f.name, f.name) :: r.names :=
  rfl

theorem lookup_map_const {aliases : List String} {family name : String} :
    (aliases.map fun a => (a, family)).lookup name =
      if aliases.contains name then some family else none := by
  induction aliases with
  | nil => rfl
  | cons first rest ih =>
    rw [List.map_cons, List.lookup_cons, ih, List.contains_cons]
    cases name == first <;> rfl

theorem family?_register (r : Registry) (f : Family) (name : String) :
    (r.register f).family? name = if f.hasName name then some f.name else r.family? name := by
  rw [family?, names_register, List.lookup_append, lookup_map_const, List.lookup_cons,
    List.contains_reverse, Family.hasName]
  cases f.aliases.contains name <;> cases name == f.name <;> rfl

theorem variants_register (r : Registry) (f : Family) : (r.register f).variants =
    [(⟨f.name, true, true⟩, f.variant true true), (⟨f.name, true, false⟩, f.variant true false),
      (⟨f.name, false, true⟩, f.variant false true),
      (⟨f.name, false, false⟩, f.variant false false)] ++ r.variants :=
  rfl

theorem variant?_register (r : Registry) (f : Family) (name : String) (nullable unsigned : Bool) :
    (r.register f).variant? name nullable unsigned =
      if name == f.name then some (f.variant nullable unsigned)
      else r.variant? name nullable unsigned := by
  have hkey (n u : Bool) : ((⟨name, nullable, unsigned⟩ : VariantKey) == ⟨f.name, n, u⟩) =
      (name == f.name && nullable == n && unsigned == u) := by
    rw [Bool.eq_iff_iff]
    simp [and_assoc]
  rw [variant?, variants_register, List.lookup_append]
  simp only [List.lookup_cons, List.lookup_nil, hkey]
  cases name == f.name <;> cases nullable <;> cases unsigned <;> rfl

/-- The family of a name is the last one that has it. -/
theorem family?_ofFamilies (families : List Family) (name : String) :
    (ofFamilies families).family? name =
      (families.reverse.find? (Family.hasName · name)).map Family.name :=
  last_decides (fun r => r.family? name) rfl (fun r f => family?_register r f name) families

/-- The variants of a family are those of the last one of its name. -/
theorem variant?_ofFamilies (families : List Family) (name : String) (nullable unsigned : Bool) :
    (ofFamilies families).variant? name nullable unsigned =
      (families.reverse.find? fun f => name == f.name).map fun f => f.variant nullable unsigned :=
  last_decides (fun r => r.variant? name nullable unsigned) rfl
    (fun r f => variant?_register r f name nullable unsigned) families

/-! ### The families of the server -/

/-- A family that no other one is mistaken for is found. -/
theorem find?_reverse_of_unique {p : Family → Bool} {families : List Family} {f : Family}
    (hf : f ∈ families) (hp : p f = true) (unique : ∀ g ∈ families, p g = true → g = f) :
    families.reverse.find? p = some f := by
  cases hfind : families.reverse.find? p with
  | none => exact absurd hp (List.find?_eq_none.mp hfind f (List.mem_reverse.mpr hf))
  | some g =>
    have hg := List.mem_reverse.mp (List.mem_of_find?_eq_some hfind)
    rw [unique g hg (List.find?_some hfind)]

/-- The names of the server's families. -/
theorem family?_standard {name family : String} : standard.family? name = some family ↔
    ∃ f ∈ Family.standard, f.hasName name = true ∧ f.name = family := by
  rw [standard, family?_ofFamilies, Option.map_eq_some_iff]
  constructor
  · rintro ⟨f, hfind, rfl⟩
    exact ⟨f, List.mem_reverse.mp (List.mem_of_find?_eq_some hfind),
      List.find?_some (p := (Family.hasName · name)) hfind, rfl⟩
  · rintro ⟨f, hf, hname, rfl⟩
    exact ⟨f, find?_reverse_of_unique hf hname fun g hg hname' =>
      Family.eq_of_hasName hg hf hname' hname, rfl⟩

/-- Each family of the server has its own variants. -/
theorem variant?_standard {f : Family} (hf : f ∈ Family.standard) (nullable unsigned : Bool) :
    standard.variant? f.name nullable unsigned = some (f.variant nullable unsigned) := by
  rw [standard, variant?_ofFamilies]
  have hunique : ∀ g ∈ Family.standard, (f.name == g.name) = true → g = f := by
    intro g hg hname
    obtain heq := beq_iff_eq.mp hname
    exact Family.eq_of_hasName hg hf (heq ▸ g.hasName_name) f.hasName_name
  rw [find?_reverse_of_unique hf (beq_self_eq_true f.name) hunique, Option.map_some]

end Registry

end TypedSql

/-
The registry of type families. A family is a declaration name with its aliases and the server and
host type of its signed and unsigned members. Families are registered in order, and the order
decides: of all members with one host type, the last registered becomes the server type of that
host type; of all families with one server type, the first registered gives its declaration name;
a name belongs to the family that registered it last.
-/
import TypedSql.Types.NativeType
import TypedSql.Types.Error

namespace TypedSql

/-- A server type together with the kind of host value read from it. -/
structure Member where
  native : NativeType
  kind : HostKind
  deriving DecidableEq, Repr

/-- A family of column types that are declared by one name. -/
structure Family where
  name : String
  aliases : List String
  signed : Member
  unsigned : Member
  deriving DecidableEq, Repr

namespace Family

/-- A family of one member, without aliases. -/
def plain (name : String) (native : NativeType) (kind : HostKind) : Family :=
  ⟨name, [], ⟨native, kind⟩, ⟨native, kind⟩⟩

/-- A family of integers, with a signed and an unsigned member. -/
def integers (name : String) (aliases : List String) (signed unsigned : Member) : Family :=
  ⟨name, aliases, signed, unsigned⟩

/-- A family of one member, with aliases. -/
def aliased (name : String) (aliases : List String) (native : NativeType) (kind : HostKind) :
    Family :=
  ⟨name, aliases, ⟨native, kind⟩, ⟨native, kind⟩⟩

/-- The member that a declaration without or with `unsigned` selects. -/
def member (f : Family) (unsigned : Bool) : Member :=
  if unsigned then f.unsigned else f.signed

/-- The families of the server, in order of registration. -/
def standard : List Family :=
  [plain "bit" .bit .u64,
   aliased "bool" ["boolean"] .bool .bool,
   integers "tinyint" [] ⟨.byte, .i8⟩ ⟨.uByte, .u8⟩,
   integers "smallint" [] ⟨.int16, .i16⟩ ⟨.uInt16, .u16⟩,
   integers "mediumint" [] ⟨.int24, .i32⟩ ⟨.uInt24, .u32⟩,
   integers "int" ["integer"] ⟨.int32, .i32⟩ ⟨.uInt32, .u32⟩,
   integers "bigint" [] ⟨.int64, .i64⟩ ⟨.uInt64, .u64⟩,
   aliased "decimal" ["dec", "numeric", "fixed"] .decimal .decimal,
   plain "float" .float .f32,
   aliased "double" ["real"] .double .f64,
   plain "year" .year .year,
   plain "date" .date .dateTime,
   plain "time" .time .time,
   plain "timestamp" .timestamp .dateTime,
   plain "datetime" .dateTime .dateTime,
   plain "char" .char .string,
   plain "varchar" .varChar .string,
   plain "tinytext" .tinyText .string,
   plain "text" .text .string,
   plain "mediumtext" .mediumText .string,
   plain "longtext" .longText .string,
   plain "tinyblob" .tinyBlob .bytes,
   plain "blob" .blob .bytes,
   plain "mediumblob" .mediumBlob .bytes,
   plain "longblob" .longBlob .bytes,
   plain "enum" .enum .string,
   plain "set" .set .string,
   plain "binary" .binary .bytes,
   plain "varbinary" .varBinary .string,
   plain "json" .json .json]

end Family

/-- What a declaration of a family means, once nullability and sign are known. -/
structure Variant where
  host : HostType
  native : NativeType
  deriving DecidableEq, Repr

/-- The choices that select a variant of a family. -/
structure VariantKey where
  family : String
  nullable : Bool
  unsigned : Bool
  deriving DecidableEq, Repr

/-- Look-up tables over the registered families. Each is a list of pairs in which the first pair
with a key counts. -/
structure Registry where
  /-- Meaning of a family's declarations. -/
  variants : List (VariantKey × Variant)
  /-- Family of a name or alias. -/
  names : List (String × String)
  /-- Declaration name of a server type. -/
  declarations : List (NativeType × String)
  /-- Server type of a host type. -/
  natives : List (HostType × NativeType)
  deriving DecidableEq, Repr

namespace Registry

/-- No family. -/
def empty : Registry :=
  ⟨[], [], [], []⟩

/-- The declaration name that a family gives a server type. -/
def declarationName (family : String) (native : NativeType) : String :=
  if native.isUnsigned then family ++ " unsigned" else family

/-- Registers one variant of a family. The variant and the server type of its host type replace
earlier ones; a declaration name that is already there stays. -/
def registerVariant (f : Family) (r : Registry) (nullable unsigned : Bool) : Registry :=
  let m := f.member unsigned
  let host : HostType := ⟨m.kind, nullable⟩
  { r with
    variants := (⟨f.name, nullable, unsigned⟩, ⟨host, m.native⟩) :: r.variants
    natives := (host, m.native) :: r.natives
    declarations := r.declarations ++ [(m.native, declarationName f.name m.native)] }

/-- Registers a family: its name, its aliases, and its four variants, those without NULL first and
signed before unsigned. -/
def register (r : Registry) (f : Family) : Registry :=
  let named := { r with
    names := (f.aliases.reverse.map fun a => (a, f.name)) ++ (f.name, f.name) :: r.names }
  [(false, false), (false, true), (true, false), (true, true)].foldl
    (fun r choice => registerVariant f r choice.1 choice.2) named

/-- The registry of a list of families. -/
def ofFamilies (families : List Family) : Registry :=
  families.foldl register empty

/-- The registry of the server's families. -/
def standard : Registry :=
  ofFamilies Family.standard

/-- The family that a name or alias stands for. -/
def family? (r : Registry) (name : String) : Option String :=
  r.names.lookup name

/-- The meaning of a family's declaration. -/
def variant? (r : Registry) (family : String) (nullable unsigned : Bool) : Option Variant :=
  r.variants.lookup ⟨family, nullable, unsigned⟩

/-- The server type that stands for a host type. -/
def nativeOf (r : Registry) (host : HostType) : Except TypeError NativeType :=
  match r.natives.lookup host with
  | some native => .ok native
  | none => .error (.unmapped host)

/-- The name that declares a server type. -/
def nameOf (r : Registry) (native : NativeType) : Except TypeError String :=
  match r.declarations.lookup native with
  | some name => .ok name
  | none => .error (.invalidTypeId native.code)

/-- The name that declares the server type of a host type. -/
def hostDeclaration (r : Registry) (host : HostType) : Except TypeError String := do
  r.nameOf (← r.nativeOf host)

end Registry

end TypedSql

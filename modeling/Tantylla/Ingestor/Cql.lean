/-
  CQL values, and what the router makes of them (`router/utils.rs`): a JSON value for
  the payload (`cql_to_json`) and a bare string for document ids
  (`cql_value_to_key_string`).

  The texts that other crates give to a value (a UUID, an address, a decimal, the
  base64 of a blob, the `Debug` form of the types the router does not handle) are
  parameters.
-/
import Tantylla.Json

namespace Tantylla

/-- A UUID. -/
abbrev Uuid := BitVec 128

/-- An IP address. -/
inductive IpAddr where
  | v4 (bits : BitVec 32)
  | v6 (bits : BitVec 128)
  deriving DecidableEq

/-- A CQL decimal: the unscaled value and the scale. -/
structure CqlDecimal where
  unscaled : ℤ
  scale : ℤ
  deriving DecidableEq

/-- `scylla::value::CqlValue`.  Doubles and floats are given by their bits; `other` stands
    for the types that both functions below leave to `Debug`. -/
inductive CqlValue where
  | ascii (s : String)
  | text (s : String)
  | boolean (b : Bool)
  | tinyInt (i : ℤ)
  | smallInt (i : ℤ)
  | int (i : ℤ)
  | bigInt (i : ℤ)
  | varint (i : ℤ)
  | decimal (d : CqlDecimal)
  | float (bits : UInt32)
  | double (bits : UInt64)
  | uuid (u : Uuid)
  | timeuuid (u : Uuid)
  | timestamp (ms : ℤ)
  | inet (ip : IpAddr)
  | blob (bytes : List UInt8)
  | list (vs : List CqlValue)
  | set (vs : List CqlValue)
  | map (kvs : List (CqlValue × CqlValue))
  | userDefinedType (fields : List (String × Option CqlValue))
  | tuple (vs : List (Option CqlValue))
  | other (debug : String)

/-- The texts and conversions of other crates. -/
structure Formats where
  uuid : Uuid → String
  inet : IpAddr → String
  decimal : CqlDecimal → String
  base64 : List UInt8 → String
  f32 : UInt32 → String
  f64 : UInt64 → String
  f32ToF64 : UInt32 → UInt64
  debug : CqlValue → String
  /-- `serde_json::to_string` of a value. -/
  jsonToString : Json → String

/-- `Number::from_f64`: a double that is finite. -/
def fromF64 (bits : UInt64) : Json :=
  if (bits >>> 52) &&& 0x7ff = 0x7ff then .null else .num (.float bits)

section
variable (F : Formats)

/-- The key of a map entry: JSON keys are strings. -/
def mapKey : CqlValue → String
  | .text s | .ascii s => s
  | k => F.debug k

mutual
/-- `cql_to_json`. -/
def cqlToJson : CqlValue → Json
  | .ascii s | .text s => .str s
  | .boolean b => .bool b
  | .int i | .bigInt i => .num (.int i)
  | .decimal d => .str (F.decimal d)
  | .double bits => fromF64 bits
  | .float bits => fromF64 (F.f32ToF64 bits)
  | .uuid u | .timeuuid u => .str (F.uuid u)
  | .timestamp ms => .num (.int ms)
  | .inet ip => .str (F.inet ip)
  | .blob b => .str (F.base64 b)
  | .list vs | .set vs => .arr (cqlListToJson vs)
  | .map kvs => .obj (cqlMapToJson kvs [])
  | .userDefinedType fields => .obj (cqlFieldsToJson fields [])
  | .tuple vs => .arr (cqlTupleToJson vs)
  | .tinyInt i => .str (F.debug (.tinyInt i))
  | .smallInt i => .str (F.debug (.smallInt i))
  | .varint i => .str (F.debug (.varint i))
  | .other s => .str (F.debug (.other s))

def cqlListToJson : List CqlValue → List Json
  | [] => []
  | v :: vs => cqlToJson v :: cqlListToJson vs

/-- The entries of a map, inserted one after the other. -/
def cqlMapToJson : List (CqlValue × CqlValue) → List (String × Json) → List (String × Json)
  | [], m => m
  | (k, v) :: kvs, m => cqlMapToJson kvs (OrdMap.put (mapKey F k) (cqlToJson v) m)

/-- The fields of a user-defined type, inserted one after the other. -/
def cqlFieldsToJson : List (String × Option CqlValue) → List (String × Json) →
    List (String × Json)
  | [], m => m
  | (k, some v) :: fields, m => cqlFieldsToJson fields (OrdMap.put k (cqlToJson v) m)
  | (k, none) :: fields, m => cqlFieldsToJson fields (OrdMap.put k .null m)

def cqlTupleToJson : List (Option CqlValue) → List Json
  | [] => []
  | some v :: vs => cqlToJson v :: cqlTupleToJson vs
  | none :: vs => .null :: cqlTupleToJson vs
end

/-- `cql_value_to_key_string`: the bare text of a value in a document id. -/
def cqlValueToKeyString : CqlValue → String
  | .ascii s | .text s => s
  | .uuid u | .timeuuid u => F.uuid u
  | .int i | .bigInt i => toString i
  | .boolean b => toString b
  | .float bits => F.f32 bits
  | .double bits => F.f64 bits
  | .blob b => F.base64 b
  | .inet ip => F.inet ip
  | v => F.debug v

end

end Tantylla

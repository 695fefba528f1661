import Seisin.Types.Field

/-!
# Declared datum types

A solution declares a type by its name, version, fields, indexes and constraints.  Encoding and
decoding a datum follow the declared fields and stamp the version; the checks that need nothing but
the declaration run before anything is staged.
-/

namespace Seisin

open ByteString

/-- A type's pk discipline: version-7 uuids, or a closed set of mnemonics. -/
inductive PkKind where
  | uuid
  | enum (mnemonics : List String)

inductive FieldCheck where
  | gt (bound : FieldValue)
  | ge (bound : FieldValue)
  | lt (bound : FieldValue)
  | le (bound : FieldValue)
  | minLen (bound : ℕ)
  | maxLen (bound : ℕ)

structure FieldCheckDef where
  field : String
  check : FieldCheck

/-- What a constrained field references. -/
inductive FkTarget where
  | pkUuid (typeName : String)
  | pkEnum (typeName : String) (mnemonics : List String)
  | skUnique (typeName field : String)

/-- What deleting a referenced datum does about its references. -/
inductive OnDelete where
  | restrict
  | track

structure GuardRef where
  typeName : String
  field : String
  onDelete : OnDelete

/-- The name of the op a violated constraint reports. -/
structure ConflictOp where
  name : String

structure RelationalConstraintDef where
  field : String
  references : FkTarget
  resolution : Option ConflictOp

inductive IndexDef where
  | sk (field : String) (unique : Option ConflictOp)
  | rk (field : String)

structure DatumTypeDef where
  name : String
  version : ℕ
  pk : PkKind
  fields : List (String × FieldType)
  indexes : List IndexDef
  constraints : List RelationalConstraintDef
  guards : List GuardRef
  checks : List FieldCheckDef
  trackExtent : Bool
  replicationFactor : ℕ

/-- What a typed access can fail with. -/
inductive TypedError where
  | notVersion7 (typeName : String) (id : DatumId)
  | notMnemonicId (typeName : String) (id : DatumId) (mnemonics : ℕ)
  | notMnemonic (field typeName value : String)
  | notDatumId (field typeName : String) (length : ℕ)
  | checkFailed (field : String) (check : FieldCheck) (value : FieldValue)
  | fieldCount (typeName : String) (declared given : ℕ)
  | typeMismatch (field typeName : String) (declared : FieldType)
  | undecodable (id : DatumId) (reason : String)

namespace DatumTypeDef

def new (name : String) : DatumTypeDef where
  name := name
  version := 1
  pk := .uuid
  fields := []
  indexes := []
  constraints := []
  guards := []
  checks := []
  trackExtent := false
  replicationFactor := 1

/-- The position of a declared field. -/
def fieldIdx (def_ : DatumTypeDef) (field : String) : Option ℕ :=
  def_.fields.findIdx? fun declared => declared.1 = field

end DatumTypeDef

/-! ## Datum encoding -/

/-- Encodes the values of the declared fields in order, failing at the first that has another type. -/
def encodeFields (typeName : String) :
    List (String × FieldType) → List FieldValue → Except TypedError Bytes
  | (field, ty) :: fields, value :: values =>
      if value.matchesType ty then
        match encodeFields typeName fields values with
        | .error failure => .error failure
        | .ok rest => .ok (encodeFieldValue value ++ rest)
      else .error (.typeMismatch field typeName ty)
  | _, _ => .ok []

def encodeDatum (def_ : DatumTypeDef) (values : List FieldValue) : Except TypedError Bytes :=
  if values.length ≠ def_.fields.length then
    .error (.fieldCount def_.name def_.fields.length values.length)
  else
    match encodeFields def_.name def_.fields values with
    | .error failure => .error failure
    | .ok encoded => .ok (leBytes 2 def_.version ++ encoded)

/-- Decodes one value per declared field. -/
def decodeFields (buf : Bytes) :
    List (String × FieldType) → ℕ → Except String (List FieldValue × ℕ)
  | [], offset => .ok ([], offset)
  | (_, ty) :: fields, offset =>
      match decodeFieldValue buf ty offset with
      | .error message => .error message
      | .ok (value, next) =>
          match decodeFields buf fields next with
          | .error message => .error message
          | .ok (values, last) => .ok (value :: values, last)

def decodeDatum (def_ : DatumTypeDef) (buf : Bytes) : Except String (List FieldValue) :=
  if buf.length < 2 then
    .error ("datum bytes too short for a schema version prefix: " ++ toString buf.length ++ " bytes")
  else if leNat (buf.take 2) ≠ def_.version then
    .error ("datum was encoded at schema version " ++ toString (leNat (buf.take 2)) ++
      " but type \"" ++ def_.name ++ "\" is at version " ++ toString def_.version ++
      " — decoding across versions needs that version's field layout " ++
      "(schema version history, not yet built)")
  else
    match decodeFields buf def_.fields 2 with
    | .error message => .error message
    | .ok (values, offset) =>
        if offset ≠ buf.length then
          .error ("datum type \"" ++ def_.name ++ "\" decoded " ++ toString offset ++ " of " ++
            toString buf.length ++ " bytes; " ++ toString (buf.length - offset) ++
            " trailing bytes unaccounted for")
        else .ok values

/-! ## Checks that need no runtime dispatch -/

/-- The name an enum pk's mnemonic derives its id from. -/
def enumPkName (typeName mnemonic : String) : Bytes :=
  ofString ("pk:" ++ typeName ++ ":" ++ mnemonic)

/-- `fromName` is the name-based id derivation in the types' namespace. -/
def checkPk (fromName : Bytes → DatumId) (pkId : DatumId) (def_ : DatumTypeDef) :
    Except TypedError Unit :=
  match def_.pk with
  | .uuid =>
      if (pkId.asBytes.getD 6 0).toNat / 16 ≠ 7 then .error (.notVersion7 def_.name pkId)
      else .ok ()
  | .enum mnemonics =>
      if mnemonics.any fun mnemonic => fromName (enumPkName def_.name mnemonic) = pkId then .ok ()
      else .error (.notMnemonicId def_.name pkId mnemonics.length)

namespace FieldCheck

def passes : FieldCheck → FieldValue → Bool
  | .gt (.i64 bound), .i64 value => bound < value
  | .ge (.i64 bound), .i64 value => bound ≤ value
  | .lt (.i64 bound), .i64 value => value < bound
  | .le (.i64 bound), .i64 value => value ≤ bound
  | .gt (.f64 bound), .f64 value => bound.lt value
  | .ge (.f64 bound), .f64 value => bound.le value
  | .lt (.f64 bound), .f64 value => value.lt bound
  | .le (.f64 bound), .f64 value => value.le bound
  | .minLen bound, .string value => bound ≤ (ofString value).length
  | .maxLen bound, .string value => (ofString value).length ≤ bound
  | .minLen bound, .bytes value => bound ≤ value.length
  | .maxLen bound, .bytes value => value.length ≤ bound
  | _, _ => false

end FieldCheck

/-- The static part of a relational constraint: mnemonics and the shape of referenced ids. -/
def checkConstraint (def_ : DatumTypeDef) (values : List FieldValue)
    (constraint : RelationalConstraintDef) : Except TypedError Unit :=
  match def_.fieldIdx constraint.field with
  | none => .ok ()
  | some idx =>
      match constraint.references, values[idx]? with
      | .pkEnum typeName mnemonics, some (.string value) =>
          if value ∈ mnemonics then .ok ()
          else .error (.notMnemonic constraint.field typeName value)
      | .pkUuid typeName, some (.bytes bytes) =>
          if bytes.length = 16 then .ok ()
          else .error (.notDatumId constraint.field typeName bytes.length)
      | _, _ => .ok ()

def checkField (def_ : DatumTypeDef) (values : List FieldValue) (checkDef : FieldCheckDef) :
    Except TypedError Unit :=
  match def_.fieldIdx checkDef.field with
  | none => .ok ()
  | some idx =>
      match values[idx]? with
      | none => .ok ()
      | some value =>
          if checkDef.check.passes value then .ok ()
          else .error (.checkFailed checkDef.field checkDef.check value)

/-- The first failure among the constraints and then the checks, in declared order. -/
def runFieldChecks (def_ : DatumTypeDef) (values : List FieldValue) : Except TypedError Unit := do
  def_.constraints.forM (checkConstraint def_ values)
  def_.checks.forM (checkField def_ values)

end Seisin

import RecordFilter.Declaration.TypeText
import RecordFilter.Record.Basic
import RecordFilter.Schema.Basic

/-!
Declared types and what they expose. A struct exposes each member that carries the attribute
`filterable`, under a name of its choice. Faults are found in the order of the declaration.
-/

namespace RecordFilter

namespace Declaration

inductive OptionValue where
  | missing
  | text (s : String)
  /-- A number or a truth value. -/
  | other
  deriving DecidableEq

structure AttributeOption where
  key : String
  value : OptionValue
  deriving DecidableEq

inductive AttributeForm where
  | bare
  | assigned (value : String)
  | options (options : List AttributeOption)
  deriving DecidableEq

structure Attribute where
  path : String
  form : AttributeForm
  deriving DecidableEq

structure Member where
  name : String
  type : String
  attributes : List Attribute
  deriving DecidableEq

inductive Shape where
  | named
  | tuple
  | unit
  | enumeration
  | union
  deriving DecidableEq

end Declaration

/-- A type as declared, with its members where it has named ones. -/
structure Declaration where
  shape : Declaration.Shape
  name : String
  attributes : List Declaration.Attribute
  members : List Declaration.Member
  deriving DecidableEq

inductive DeclarationError where
  | notStruct
  | unnamedMembers
  | unknownOption
  | missingValue
  | notText
  | unsupportedType
  deriving DecidableEq

def DeclarationError.message : DeclarationError → String
  | notStruct => "Filterable can only be derived for structs"
  | unnamedMembers => "Filterable requires a struct with named fields"
  | unknownOption => "expected `rename = \"...\"` or `name = \"...\"`"
  | missingValue => "expected `=`"
  | notText => "expected string literal"
  | unsupportedType =>
      "unsupported filterable field type; expected String, an integer, a float, bool, " ++
        "or Option of those"

/-- A member that is exposed, and the name it is exposed under. -/
structure Exposed where
  name : String
  type : MemberType
  member : String
  deriving DecidableEq

structure Exposure where
  recordType : String
  fields : List Exposed
  deriving DecidableEq

namespace Declaration

/-- A name without the mark that lets it be a word of the language. -/
def plainName (s : String) : String :=
  match s.toList with
  | 'r' :: '#' :: rest => String.ofList rest
  | _ => s

def Attribute.marksExposure (a : Attribute) : Bool :=
  a.path == "filterable"

/-- The options that one attribute gives; only the form with options gives any. -/
def Attribute.givenOptions (a : Attribute) : List AttributeOption :=
  match a.form with
  | .options options => if a.marksExposure then options else []
  | _ => []

/-- The text of an option, which has to be one of the two that there are. -/
def AttributeOption.check (o : AttributeOption) : Except DeclarationError String :=
  if o.key = "rename" ∨ o.key = "name" then
    match o.value with
    | .missing => .error .missingValue
    | .other => .error .notText
    | .text s => .ok s
  else .error .unknownOption

/-- The last text given for a key, after all options have been checked in their order. -/
def lastOption (key : String) : List AttributeOption → Except DeclarationError (Option String)
  | [] => .ok none
  | o :: rest => do
      let value ← o.check
      let later ← lastOption key rest
      return later.or (if o.key = key then some value else none)

def optionOf (key : String) (attributes : List Attribute) :
    Except DeclarationError (Option String) :=
  lastOption key (attributes.flatMap Attribute.givenOptions)

def Member.isExposed (m : Member) : Bool :=
  m.attributes.any Attribute.marksExposure

def Member.expose (m : Member) : Except DeclarationError Exposed := do
  let renamed ← optionOf "rename" m.attributes
  match (TypeExpr.ofText m.type).memberType? with
  | some type => return ⟨renamed.getD (plainName m.name), type, m.name⟩
  | none => .error .unsupportedType

/-- What a declaration exposes, or the first thing that is wrong with it. -/
def expose (d : Declaration) : Except DeclarationError Exposure := do
  let renamed ← optionOf "name" d.attributes
  match d.shape with
  | .named =>
      let fields ← (d.members.filter Member.isExposed).mapM Member.expose
      return ⟨renamed.getD (plainName d.name), fields⟩
  | .tuple => .error .unnamedMembers
  | .unit => .error .unnamedMembers
  | .enumeration => .error .notStruct
  | .union => .error .notStruct

end Declaration

namespace Exposure

def schema (x : Exposure) : Schema where
  recordType := x.recordType
  fields := x.fields.map fun e => ⟨e.name, e.type.kind⟩

end Exposure

/-- An exposed member with the value it has in one record. -/
structure Exposed.Reading where
  exposed : Exposed
  value : exposed.type.Value

/-- The record of the exposed members of a value; of those under one name, the first answers. -/
def Record.ofReadings (readings : List Exposed.Reading) : Record where
  field? name :=
    (readings.find? (·.exposed.name == name)).map fun r => r.exposed.type.toScalar r.value

end RecordFilter

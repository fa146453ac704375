import Decisya.Computation.Fuel
import Decisya.Text.Utf16
import Decisya.Logging.Shapes

/-!
# The type analyzer

What the masking core asks about the type of a value. What reflection says of a type is a
table, in which `none` is an exception. The walk over a type graph is run with fuel. The caches
are left out.
-/

namespace Decisya.Logging.Rendering

open Text

set_option autoImplicit false

/-! ## Denied names -/

def deniedKeyFragments : List Utf16 :=
  [ascii "password", ascii "passwd", ascii "pwd", ascii "secret", ascii "token", ascii "apikey",
    ascii "authorization", ascii "cookie", ascii "connectionstring", ascii "querystring",
    ascii "credential", ascii "privatekey", ascii "signingkey", ascii "hashkey", ascii "bearer",
    ascii "jwt", ascii "session"]

/-- `char.ToLowerInvariant`; outside ASCII it is a table. -/
def toLowerInvariant (table : UInt16 → UInt16) (c : UInt16) : UInt16 :=
  if isUpperUnit c then c + 0x20 else if c < 0x80 then c else table c

def isSeparator (c : UInt16) : Bool := c == 0x5F || c == 0x2D || c == 0x2E

def normalized (table : UInt16 → UInt16) (key : Utf16) : Utf16 :=
  (key.filter fun c => !isSeparator c).map (toLowerInvariant table)

def isDeniedKey (table : UInt16 → UInt16) (key : Utf16) : Bool :=
  deniedKeyFragments.any fun fragment => decide (fragment <:+: normalized table key)

/-! ## What reflection says -/

/-- Scalars. The primitive types are one, and so are the enumerations. -/
inductive ScalarType where
  | primitive
  | enumeration
  | decimal
  | guid
  | dateTime
  | dateTimeOffset
  | dateOnly
  | timeOnly
  | timeSpan
  | money
  | currency
  deriving DecidableEq

/-- The types the code compares with, those built from others, and any other. -/
inductive Ty (Name : Type) where
  | string
  | uri
  | object
  | scalar (type : ScalarType)
  | nullable (underlying : Ty Name)
  | keyValuePair (key value : Ty Name)
  | named (name : Name)
  deriving DecidableEq

/-- A property. Its marks are those of itself or a property it overrides, and of the interface
members that its getter implements; a map that is refused is one that throws. -/
structure Property (Name : Type) where
  name : Utf16
  type : Ty Name
  hasPublicGetter : Bool
  indexParameters : ℕ
  isMarked : Option Bool
  interfaceMarks : List (Option Bool)

structure Field (Name : Type) where
  name : Utf16
  type : Ty Name
  isMarked : Option Bool

structure TypeInfo (Name : Type) where
  name : Utf16
  nameSpace : Option Utf16
  assembly : Option Utf16
  /-- The full name of its definition, if the type is generic. -/
  genericDefinition : Option Utf16
  isCompilerGenerated : Bool
  isPrimitive : Bool
  isEnum : Bool
  isValueType : Bool
  isInterface : Bool
  isAbstract : Bool
  implementsEnumerable : Bool
  isMarked : Option Bool
  elementTypes : Option (List (Ty Name))
  properties : Option (List (Property Name))
  fields : Option (List (Field Name))

structure Reflection (Name : Type) where
  lowerTable : UInt16 → UInt16
  info : Ty Name → TypeInfo Name

def maxGraphDepth : ℕ := 3

section Types
variable {Name : Type}

/-- No type is nullable twice. -/
def Ty.unwrap : Ty Name → Ty Name
  | .nullable underlying => underlying
  | type => type

def isShapeMaskableScalar (type : Ty Name) : Bool :=
  match type.unwrap with
  | .string | .uri => true
  | _ => false

end Types

namespace Reflection

variable {Name : Type} (types : Reflection Name)

def isScalar (type : Ty Name) : Bool :=
  match type with
  | .string | .uri | .scalar _ => true
  | _ =>
    (types.info type).isPrimitive || (types.info type).isEnum ||
      ((types.info type).isValueType &&
        (types.info type).nameSpace.any (ascii "NodaTime").isPrefixOf)

def isSensitiveType (type : Ty Name) : Bool := (types.info type).isMarked.getD true

def isEnumerable (type : Ty Name) : Bool :=
  match type with
  | .string => false
  | _ => (types.info type).implementsEnumerable

def isScalarElement : Ty Name → Bool
  | .nullable underlying => isScalarElement underlying
  | .keyValuePair key value =>
    !types.isSensitiveType (.keyValuePair key value) &&
      (types.isScalar (.keyValuePair key value) || (isScalarElement key && isScalarElement value))
  | type => !types.isSensitiveType type && types.isScalar type

def hasScalarElements (type : Ty Name) : Bool :=
  match (types.info type).elementTypes with
  | none => false
  | some elementTypes => !elementTypes.isEmpty && elementTypes.all types.isScalarElement

def elementsNeedShapeMasking (type : Ty Name) : Bool :=
  match (types.info type).elementTypes with
  | none => false
  | some elementTypes => elementTypes.any fun element => isShapeMaskableScalar element.unwrap

def isAnonymous (type : Ty Name) : Bool :=
  (types.info type).genericDefinition.isSome && (types.info type).isCompilerGenerated &&
    decide (ascii "AnonymousType" <:+: (types.info type).name)

def isTupleLike (type : Ty Name) : Bool :=
  match type with
  | .keyValuePair _ _ => true
  | _ =>
    (types.info type).genericDefinition.any fun definition =>
      (ascii "System.ValueTuple`").isPrefixOf definition ||
        (ascii "System.Tuple`").isPrefixOf definition

def isProcessorRenderable (type : Ty Name) : Bool :=
  types.isAnonymous type || types.isTupleLike type ||
    (types.info type).assembly.any (ascii "Decisya.").isPrefixOf

/-- A type whose properties cannot be listed has none. -/
def renderableProperties (type : Ty Name) : List (Property Name) :=
  ((types.info type).properties.getD []).filter fun property =>
    property.hasPublicGetter && property.indexParameters == 0

def isSensitiveMember (property : Property Name) : Bool :=
  property.isMarked.getD true || types.isSensitiveType property.type.unwrap ||
    property.interfaceMarks.any fun mark => mark.getD true

def isDenied (name : Utf16) : Bool := isDeniedKey types.lowerTable name

/-! ## The walk -/

/-- `analyze` is the walk over the graph of the member's own type. -/
def memberNeedsRendering (analyze : Ty Name → Option Bool) (member : Ty Name) : Option Bool :=
  if isShapeMaskableScalar member = true then some true
  else if types.isScalar member = true then some false
  else if (match member with
      | .object => true
      | _ => (types.info member).isInterface || (types.info member).isAbstract) = true then some true
  else if types.isEnumerable member = true then some (!types.hasScalarElements member)
  else if types.isSensitiveType member = true then some true
  else analyze member

variable [DecidableEq Name]

/-- `none` when the fuel runs out. An exception in the walk over one type answers yes. -/
def analyzeGraph : ℕ → Ty Name → ℕ → List (Ty Name) → Option Bool
  | 0, _, _, _ => none
  | fuel + 1, type, depth, visiting =>
    if maxGraphDepth < depth then some true
    -- the type is being analysed higher up
    else if type ∈ visiting then some false
    else
      let memberNeeds (member : Ty Name) :=
        types.memberNeedsRendering
          (fun t => analyzeGraph fuel t (depth + 1) (type :: visiting)) member.unwrap
      (Fuel.search (fun property : Property Name =>
        if types.isSensitiveMember property || types.isDenied property.name then some true
        else memberNeeds property.type) (types.renderableProperties type)).bind fun found =>
      if found = true then some true
      else
        match (types.info type).fields with
        | none => some true
        | some fields =>
          Fuel.search (fun field : Field Name =>
            if field.isMarked.getD true || types.isSensitiveType field.type.unwrap ||
                types.isDenied field.name then some true
            else memberNeeds field.type) fields

def needsProcessorRendering (fuel : ℕ) (type : Ty Name) : Option Bool :=
  types.analyzeGraph fuel type 0 []

/-! ## The walk ends -/

variable {types}

theorem settles_memberNeedsRendering {bound : ℕ} {analyze : ℕ → Ty Name → Option Bool}
    {member : Ty Name} (h : Fuel.Settles bound fun fuel => analyze fuel member) :
    Fuel.Settles bound fun fuel => types.memberNeedsRendering (analyze fuel) member := by
  unfold memberNeedsRendering
  refine Fuel.settles_ite (fun _ => Fuel.settles_some true) fun _ => ?_
  refine Fuel.settles_ite (fun _ => Fuel.settles_some false) fun _ => ?_
  refine Fuel.settles_ite (fun _ => Fuel.settles_some true) fun _ => ?_
  refine Fuel.settles_ite (fun _ => Fuel.settles_some _) fun _ => ?_
  exact Fuel.settles_ite (fun _ => Fuel.settles_some true) fun _ => h

/-- The depth bounds the walk, whether or not the graph has cycles. -/
theorem settles_analyzeGraph {levels depth : ℕ} (hdepth : maxGraphDepth < depth + levels)
    (type : Ty Name) (visiting : List (Ty Name)) :
    Fuel.Settles (levels + 1) fun fuel => types.analyzeGraph fuel type depth visiting := by
  induction levels generalizing depth type visiting with
  | zero =>
    apply (Fuel.settles_some true).succ
    intro fuel
    rw [analyzeGraph, if_pos (by omega)]
  | succ levels ih =>
    refine Fuel.Settles.succ ?_ fun fuel => by rw [analyzeGraph]
    have hmember : ∀ member : Ty Name, Fuel.Settles (levels + 1) fun fuel =>
        types.memberNeedsRendering
          (fun t => types.analyzeGraph fuel t (depth + 1) (type :: visiting)) member.unwrap :=
      fun member => settles_memberNeedsRendering (ih (by omega) member.unwrap (type :: visiting))
    refine Fuel.settles_ite (fun _ => Fuel.settles_some true) fun _ => ?_
    refine Fuel.settles_ite (fun _ => Fuel.settles_some false) fun _ => ?_
    apply Fuel.Settles.bind
    · apply Fuel.settles_search
      intro property _
      exact Fuel.settles_ite (fun _ => Fuel.settles_some true) fun _ => hmember property.type
    · intro found
      refine Fuel.settles_ite (fun _ => Fuel.settles_some true) fun _ => ?_
      cases (types.info type).fields with
      | none => exact Fuel.settles_some true
      | some fields =>
        apply Fuel.settles_search
        intro field _
        exact Fuel.settles_ite (fun _ => Fuel.settles_some true) fun _ => hmember field.type

theorem settles_needsProcessorRendering (type : Ty Name) :
    Fuel.Settles (maxGraphDepth + 2) fun fuel => types.needsProcessorRendering fuel type := by
  apply settles_analyzeGraph
  omega

end Reflection

end Decisya.Logging.Rendering

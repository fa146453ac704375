import Mathlib.Logic.Relation
import Decisya.Logging.RenderingBounds

/-!
# Records that print their members

A universe of record types and the values of these types. A member may hold a value of any
type that derives from the declared one. The default `ToString` of a record prints every member
of the type it has when it runs, and throws where that takes more stack than there is.
-/

namespace Decisya.Logging.Rendering

open Text

set_option autoImplicit false

/-! ## Types -/

inductive MemberType (Name : Type) where
  | text
  | scalar (type : ScalarType)
  | record (name : Name)
  deriving DecidableEq

structure Member (Name : Type) where
  name : Utf16
  type : MemberType Name
  isMarked : Bool

/-- Types of one assembly of Decisya. A mark is there whether or not it is inherited. -/
structure RecordTypes (Name : Type) where
  lowerTable : UInt16 → UInt16
  typeName : Name → Utf16
  members : Name → List (Member Name)
  isMarked : Name → Bool
  isAbstract : Name → Bool
  derives : Name → Name → Prop
  derives_self : ∀ name, derives name name

def MemberType.ty {Name : Type} : MemberType Name → Ty Name
  | .text => .string
  | .scalar type => .scalar type
  | .record name => .named name

def Member.property {Name : Type} (member : Member Name) : Property Name :=
  ⟨member.name, member.type.ty, true, 0, some member.isMarked, []⟩

namespace RecordTypes
variable {Name : Type} (types : RecordTypes Name)

def reflection : Reflection Name where
  lowerTable := types.lowerTable
  info type :=
    match type with
    | .named name =>
      { name := types.typeName name
        nameSpace := none
        assembly := some (ascii "Decisya.Records")
        genericDefinition := none
        isCompilerGenerated := false
        isPrimitive := false
        isEnum := false
        isValueType := false
        isInterface := false
        isAbstract := types.isAbstract name
        implementsEnumerable := false
        isMarked := some (types.isMarked name)
        elementTypes := some []
        properties := some ((types.members name).map Member.property)
        fields := some [] }
    | _ =>
      { name := []
        nameSpace := none
        assembly := none
        genericDefinition := none
        isCompilerGenerated := false
        isPrimitive := false
        isEnum := false
        isValueType := false
        isInterface := false
        isAbstract := false
        implementsEnumerable := false
        isMarked := some false
        elementTypes := some []
        properties := some []
        fields := some [] }

/-- The member is marked or of a marked type, or its name is denied. -/
def Hides (member : Member Name) : Prop :=
  types.reflection.isDenied member.name = true ∨
    types.reflection.isSensitiveMember member.property = true

end RecordTypes

/-! ## Values -/

/-- What a member holds. A scalar comes with its text. -/
inductive Content (Obj : Type) where
  | null
  | text (s : Utf16)
  | scalar (type : ScalarType) (s : Utf16)
  | record (o : Obj)

/-- An object that the processor is given. -/
inductive Node (Obj : Type) where
  | scalar (type : ScalarType) (s : Utf16)
  | record (o : Obj)

section Values
variable {Name Obj : Type} (types : RecordTypes Name)

/-- A value that a member of the type may have. -/
inductive Fits (typeOf : Obj → Name) : MemberType Name → Content Obj → Prop where
  | noText : Fits typeOf .text .null
  | text (s : Utf16) : Fits typeOf .text (.text s)
  | scalar (type : ScalarType) (s : Utf16) : Fits typeOf (.scalar type) (.scalar type s)
  | noRecord (declared : Name) : Fits typeOf (.record declared) .null
  | record {declared : Name} {o : Obj} (hderives : types.derives (typeOf o) declared)
      (hinstance : types.isAbstract (typeOf o) = false) :
      Fits typeOf (.record declared) (.record o)

/-- Records that refer to each other, in any way. -/
structure Heap (Obj : Type) where
  typeOf : Obj → Name
  value : Obj → Property Name → Content Obj
  /-- How many records may print each other before the stack is full. -/
  stack : ℕ
  fits : ∀ o, ∀ member ∈ types.members (typeOf o),
    Fits types typeOf member.type (value o member.property)

variable {types} (heap : Heap types Obj)

def Content.box : Content Obj → Boxed (Node Obj)
  | .null => .null
  | .text s => .text s
  | .scalar type s => .object (.scalar type s)
  | .record o => .object (.record o)

def contentText (recordText : Obj → Option Utf16) : Content Obj → Option Utf16
  | .null => some []
  | .text s => some s
  | .scalar _ s => some s
  | .record o => recordText o

def membersText (recordText : Obj → Option Utf16) (o : Obj) :
    List (Member Name) → Option Utf16
  | [] => some []
  | member :: members =>
    (contentText recordText (heap.value o member.property)).bind fun text =>
      (membersText recordText o members).map fun rest =>
        member.name ++ ascii " = " ++ text ++ (if members.isEmpty then [] else ascii ", ") ++ rest

/-- The default `ToString`, with so much stack. -/
def recordText : ℕ → Obj → Option Utf16
  | 0, _ => none
  | stack + 1, o =>
    (membersText heap (recordText stack) o (types.members (heap.typeOf o))).map fun body =>
      types.typeName (heap.typeOf o) ++ ascii " \x7b " ++ body ++
        (if (types.members (heap.typeOf o)).isEmpty then [] else ascii " ") ++ ascii "\x7d"

def Heap.objects : Objects Name (Node Obj) where
  typeOf node :=
    match node with
    | .scalar type _ => .scalar type
    | .record o => .named (heap.typeOf o)
  uri _ := none
  getValue node property :=
    match node with
    | .scalar _ _ => none
    | .record o => some (heap.value o property).box
  enumerate _ := none
  toText node :=
    match node with
    | .scalar _ s => some (some s)
    | .record o => (recordText heap heap.stack o).map some
  json _ := none

/-! ## Hidden data -/

inductive SameContent (related : Obj → Obj → Prop) : Content Obj → Content Obj → Prop where
  | null : SameContent related .null .null
  | text (s : Utf16) : SameContent related (.text s) (.text s)
  | scalar (type : ScalarType) (s : Utf16) :
      SameContent related (.scalar type s) (.scalar type s)
  | record {o o' : Obj} (h : related o o') : SameContent related (.record o) (.record o')

/-- Related records have the same type, and differ only in what is hidden: in members that are
hidden, and in all of them where the type is marked. -/
def DifferInHidden (related : Obj → Obj → Prop) : Prop :=
  ∀ o o', related o o' → heap.typeOf o = heap.typeOf o' ∧
    (types.isMarked (heap.typeOf o) = true ∨ ∀ member ∈ types.members (heap.typeOf o),
      types.Hides member ∨
        SameContent related (heap.value o member.property) (heap.value o' member.property))

end Values

/-- Whatever is hidden in a record, the same is handed to the sinks. -/
def KeepsSecrets {Name : Type} [DecidableEq Name] (types : RecordTypes Name) : Prop :=
  ∀ (Obj : Type) (heap : Heap types Obj) (related : Obj → Obj → Prop),
    DifferInHidden heap related → ∀ o o', related o o' →
    types.isAbstract (heap.typeOf o) = false → ∀ fuel key budget, enoughFuel ≤ fuel →
      (valueMasking types.reflection heap.objects fuel).processKeyed key
          (.object (.record o)) budget =
        (valueMasking types.reflection heap.objects fuel).processKeyed key
          (.object (.record o')) budget

/-! ## What a type may show -/

namespace RecordTypes
variable {Name : Type} (types : RecordTypes Name)

/-- There is more than null that the member may hold. -/
def CanHold (member : Member Name) : Prop :=
  ∀ declared, member.type = .record declared →
    ∃ name, types.derives name declared ∧ types.isAbstract name = false

/-- A value of the type is hidden, and there is something in it. -/
def HoldsHidden (name : Name) : Prop :=
  types.isMarked name = true ∧ ∃ member ∈ types.members name, types.CanHold member

/-- A record of this type may print what is hidden: in a member, in a member's value of a
marked type, or further down. -/
inductive Exposes : Name → Prop where
  | member {name : Name} {member : Member Name} (hmember : member ∈ types.members name)
      (hhides : types.Hides member) (hholds : types.CanHold member) : Exposes name
  | type {name declared held : Name} {member : Member Name}
      (hmember : member ∈ types.members name) (htype : member.type = .record declared)
      (hderives : types.derives held declared) (hinstance : types.isAbstract held = false)
      (hhidden : types.HoldsHidden held) : Exposes name
  | deeper {name declared held : Name} {member : Member Name}
      (hmember : member ∈ types.members name) (htype : member.type = .record declared)
      (hderives : types.derives held declared) (hinstance : types.isAbstract held = false)
      (hexposes : Exposes held) : Exposes name

def Declares (name declared : Name) : Prop :=
  ∃ member ∈ types.members name, member.type = .record declared

/-- The processor hands records of the type on as they are. -/
def Passes [DecidableEq Name] (name : Name) : Prop :=
  types.isAbstract name = false ∧ types.isMarked name = false ∧
    ∀ fuel, enoughFuel ≤ fuel →
      types.reflection.needsProcessorRendering fuel (.named name) = some false

/-- Wherever a member that such a record prints may hold a type derived from the declared one,
that type holds nothing that is hidden and exposes nothing. -/
def DerivedTypesAreSafe [DecidableEq Name] : Prop :=
  ∀ name, types.Passes name → ∀ reached, Relation.ReflTransGen types.Declares name reached →
    ∀ declared, types.Declares reached declared → ∀ held, types.derives held declared →
      held ≠ declared → types.isAbstract held = false →
        ¬ types.HoldsHidden held ∧ ¬ types.Exposes held

end RecordTypes

end Decisya.Logging.Rendering

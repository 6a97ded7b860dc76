import BeanSynthesis.Dict
import BeanSynthesis.Text.Blank

/-!
# Schema properties

What the schema says about the properties of a class: the kind of construct each came from, how
often an element may occur, and the facets that restrict a simple type.
-/

namespace BeanSynthesis

/-- How often an element may occur at most. -/
inductive MaxOccurs where
  | one
  | bounded (count : Nat)
  | unbounded
deriving DecidableEq, Repr, Inhabited

/-- The number of an upper bound; none if there is no bound. -/
def MaxOccurs.bound? : MaxOccurs → Option Nat
  | one => some 1
  | bounded count => some count
  | unbounded => none

/-- A simple type with the literals of its facets. -/
structure SimpleType where
  name : Option String := none
  facets : Dict String := ∅
deriving Inhabited

/-- The value of a decimal digit string with an optional sign. -/
def decimalValue? (s : List Char) : Option Int :=
  let value? (digits : List Char) : Option Nat :=
    if digits ≠ [] && digits.all Char.isDigit then
      some (digits.foldl (fun n d => n * 10 + (d.toNat - '0'.toNat)) 0)
    else none
  match s with
  | '+' :: digits => (value? digits).map fun n => (n : Int)
  | '-' :: digits => (value? digits).map fun n => -(n : Int)
  | digits => (value? digits).map fun n => (n : Int)

/-- Whether a number is in the range of 32-bit integers. -/
def fitsInt32 (n : Int) : Bool := -2147483648 ≤ n && n ≤ 2147483647

/-- The 32-bit integer that a literal denotes, white space around it aside. -/
def int32Value? (literal : String) : Option Int :=
  (decimalValue? (Text.trimChars literal.toList)).filter fitsInt32

namespace SimpleType

/-- The literal of a facet. -/
def facet? (t : SimpleType) (name : String) : Option String := t.facets.get? name

/-- The value of a facet that is a 32-bit integer. -/
def intFacet? (t : SimpleType) (name : String) : Option Int :=
  (t.facet? name).bind int32Value?

/-- A facet that is read as a number is one of 32 bits. -/
theorem intFacet?_fits {t : SimpleType} {name : String} {n : Int} (h : t.intFacet? name = some n) :
    fitsInt32 n := by
  obtain ⟨literal, -, hvalue⟩ := Option.bind_eq_some_iff.1 h
  exact (Option.filter_eq_some_iff.1 hvalue).2

/-- The type with one more facet. -/
def withFacet (t : SimpleType) (name literal : String) : SimpleType :=
  { t with facets := t.facets.insert name literal }

end SimpleType

/-- What an element particle consists of. -/
inductive ParticleTerm where
  /-- An element with its simple type, if it has one. -/
  | element (simpleType : Option SimpleType)
  /-- A nested group of elements. -/
  | modelGroup
  /-- Something that the schema compiler could not express. -/
  | unsupported (description : String)
deriving Inhabited

/-- The schema construct that a property came from. -/
inductive PropertyKind where
  | element (minOccurs : Nat) (maxOccurs : MaxOccurs) (required : Bool) (term : ParticleTerm)
  | attr (required : Bool) (simpleType : Option SimpleType)
  | value (simpleType : Option SimpleType)
  | reference
deriving Inhabited

/-- Whether a property is a reference, which needs no field. -/
def PropertyKind.isReference : PropertyKind → Bool
  | reference => true
  | _ => false

/-- A property of a class. -/
structure Property where
  /-- The field that holds the property. -/
  name : String
  /-- The base name of its accessors. -/
  publicName : String
  kind : PropertyKind
deriving Inhabited

end BeanSynthesis

import Mathlib.Data.List.AList
import Aletheia.Temporal

/-!
# Identifiers, property maps and versions

The data the stores hold. Nodes and edges differ only in what they are keyed by and in the two
endpoints of an edge, so a version is generic in its key `K` and its endpoints `X`: a node version
is a `Version NodeId Unit`, an edge version a `Version EdgeId Endpoints`.
-/

namespace Aletheia

structure NodeId where
  val : ℕ
deriving DecidableEq, Repr

structure EdgeId where
  val : ℕ
deriving DecidableEq, Repr

structure TxId where
  val : ℕ
deriving DecidableEq, Repr

/-- A version id: a sequence number, and `STRUCTURAL_VERSION_TAG` (bit 62 of the source's `u64`)
as a flag of its own. -/
structure VersionId where
  seq : ℕ
  isStructural : Bool
deriving DecidableEq, Repr

def VersionId.new (seq : ℕ) : VersionId := ⟨seq, false⟩

def VersionId.structural (seq : ℕ) : VersionId := ⟨seq, true⟩

@[simp] lemma VersionId.new_seq (n : ℕ) : (VersionId.new n).seq = n := rfl
@[simp] lemma VersionId.new_isStructural (n : ℕ) : (VersionId.new n).isStructural = false := rfl
@[simp] lemma VersionId.structural_seq (n : ℕ) : (VersionId.structural n).seq = n := rfl
@[simp] lemma VersionId.structural_isStructural (n : ℕ) :
    (VersionId.structural n).isStructural = true := rfl

/-- Labels and property keys are interned: an id of the global interner stands for the string. -/
abbrev InternedString := ℕ

instance : LawfulBEq (InternedString × InternedString) := inferInstance

/-- A property value; floats are kept as their IEEE 754 bit patterns. -/
inductive PropertyValue where
  | null
  | bool (b : Bool)
  | int (i : ℤ)
  | float (bits : BitVec 64)
  | string (s : String)
  | bytes (b : List UInt8)
  | array (xs : List PropertyValue)
  | vector (xs : List (BitVec 32))
  | sparseVector (dim : ℕ) (entries : List (ℕ × BitVec 32))
deriving Repr

def PropertyValue.maxVectorDimensions : ℕ := 100000

/-- A property map: entries in iteration order, no key twice. -/
abbrev PropertyMap := AList (fun _ : InternedString => PropertyValue)

/-- Who wrote a version and why; opaque to the storage engine. -/
structure Provenance where
  tag : ℕ
deriving DecidableEq, Repr

structure Endpoints where
  source : NodeId
  target : NodeId
deriving DecidableEq, Repr

structure Content (X : Type) where
  label : InternedString
  properties : PropertyMap
  ends : X
  provenance : Option Provenance

/-- One entry of an entity's version chain (`NodeVersion` / `EdgeVersion`). The anchor or delta
encoding of the properties is not represented: a version carries the map it reconstructs to. -/
structure Version (K X : Type) where
  id : VersionId
  entity : K
  temporal : BiTemporalInterval
  content : Content X
  prevVersion : Option VersionId
  nextVersion : Option VersionId

/-- The errors of a vector index's `add`. -/
inductive VectorError where
  | indexError (reason : String)
  | containsNaN (count : ℕ)
  | containsInfinity (count : ℕ)
  | dimensionMismatch (expected actual : ℕ)
deriving DecidableEq, Repr

/-- The errors of the storage layer that the modelled functions return. -/
inductive StorageError where
  | nodeNotFound (id : NodeId)
  | edgeNotFound (id : EdgeId)
  | versionNotFound (id : VersionId)
  | duplicateId (id : VersionId)
  | capacityExceeded (current limit : ℕ)
  | inconsistentState (reason : String)
  | walError (reason : String)
  | temporal (e : TemporalError)
  | vector (e : VectorError)
deriving DecidableEq, Repr

end Aletheia

import Aletheia.Commit

/-!
# Constraints on properties

The registry of declared constraints and `check_constraints`. A declared `(label, property)` is
unique: every supported value of it is reserved for the node that holds it. The check reserves the
keys of all buffered creates and updates before the commit clock is taken and notes the keys of the
committed nodes to be freed; the guard it returns frees the noted keys on commit and takes back the
new reservations when it is dropped.
-/

namespace Aletheia

/-! ### Declared types and required keys -/

/-- Nodes and edges have separate schemas. -/
inductive EntitySort where
  | node
  | edge
deriving DecidableEq, Repr

inductive DeclaredType where
  | string
  | integer
  | float
  | boolean
  | temporal
  | bytes
  | vector (dim : Option ℕ)
deriving DecidableEq, Repr

def DeclaredType.typeName : DeclaredType → String
  | .string => "string"
  | .integer => "int"
  | .float => "float"
  | .boolean => "bool"
  | .temporal => "temporal"
  | .bytes => "bytes"
  | .vector _ => "vector"

def PropertyValue.typeName : PropertyValue → String
  | .null => "null"
  | .bool _ => "bool"
  | .int _ => "int"
  | .float _ => "float"
  | .string _ => "string"
  | .bytes _ => "bytes"
  | .array _ => "array"
  | .vector _ => "vector"
  | .sparseVector _ _ => "sparse_vector"

/-- `DeclaredType::matches`; a temporal value is an integer. -/
def DeclaredType.accepts : DeclaredType → PropertyValue → Bool
  | .string, .string _ | .integer, .int _ | .float, .float _ | .boolean, .bool _
  | .temporal, .int _ | .bytes, .bytes _ => true
  | .vector dim, .vector v => dim.all (v.length = ·)
  | _, _ => false

structure PropertyConstraint where
  property : InternedString
  declaredType : Option DeclaredType
  required : Bool
  nullable : Bool
deriving DecidableEq, Repr

inductive PropertyCheck where
  | ok
  | missing (reason : String)
  | typeMismatch (expected actual : String)
deriving DecidableEq, Repr

def checkProperty (c : PropertyConstraint) (value : Option PropertyValue) : PropertyCheck :=
  match value with
  | none => if c.required then .missing "missing required key" else .ok
  | some .null =>
    if c.required then .missing "missing required key"
    else if c.nullable = false then .missing "null value not permitted"
    else .ok
  | some v =>
    match c.declaredType with
    | some t => if t.accepts v then .ok else .typeMismatch t.typeName v.typeName
    | none => .ok

/-! ### Unique keys -/

/-- A value that can be a unique key. -/
inductive ValueKey where
  | bool (b : Bool)
  | int (i : ℤ)
  | float (bits : BitVec 64)
  | string (s : String)
  | bytes (b : List UInt8)
deriving DecidableEq, Repr

/-- The bits of `f64::NAN`. -/
def canonicalNaN : BitVec 64 := 0x7ff8000000000000#64

/-- Floats are compared by their bits, with one key for all NaNs; nulls, vectors and arrays have no
key. -/
def ValueKey.fromPropertyValue : PropertyValue → Option ValueKey
  | .bool b => some (.bool b)
  | .int i => some (.int i)
  | .float f => some (.float (if isNaN64 f then canonicalNaN else f))
  | .string s => some (.string s)
  | .bytes b => some (.bytes b)
  | .null | .vector _ | .sparseVector _ _ | .array _ => none

structure ReservationKey where
  label : InternedString
  property : InternedString
  value : ValueKey
deriving DecidableEq, Repr

inductive ConstraintError where
  | uniqueViolation (label property : InternedString) (value : ValueKey) (existing : NodeId)
  | typeViolation (sort : EntitySort) (label property : InternedString) (expected actual : String)
  | missingRequiredKey (sort : EntitySort) (label : InternedString) (keys : List InternedString)
deriving DecidableEq, Repr

structure ConstraintRegistry where
  declarations : List (InternedString × InternedString)
  reservationIndex : Finmap fun _ : ReservationKey => NodeId
  schemaConstraints : List ((EntitySort × InternedString) × List PropertyConstraint)

/-- The keys that the transaction has newly reserved and those it frees on commit. -/
structure ReservationGuard where
  added : List ReservationKey
  toRemove : List ReservationKey

namespace ConstraintRegistry

variable (reg : ConstraintRegistry)

def isConstrained (label property : InternedString) : Bool :=
  decide ((label, property) ∈ reg.declarations)

/-- The reservation keys of a node with this label and these properties. -/
def keys (label : InternedString) (properties : PropertyMap) : List ReservationKey :=
  properties.entries.filterMap fun e =>
    if reg.isConstrained label e.1 then
      (ValueKey.fromPropertyValue e.2).map (⟨label, e.1, ·⟩)
    else none

def remove (ks : List ReservationKey) : ConstraintRegistry :=
  { reg with reservationIndex := ks.foldl (fun m k => m.erase k) reg.reservationIndex }

/-- `true` for a new reservation, `false` if the node has it already. -/
def tryReserve (key : ReservationKey) (n : NodeId) :
    Except ConstraintError (Bool × ConstraintRegistry) :=
  match reg.reservationIndex.lookup key with
  | none => .ok (true, { reg with reservationIndex := reg.reservationIndex.insert key n })
  | some existing =>
    if existing = n then .ok (false, reg)
    else .error (.uniqueViolation key.label key.property key.value existing)

/-- The first loop of `reserve_for_transaction`. A violation drops the guard, which takes back what
was `added`. -/
def reserve : List (ReservationKey × NodeId) → List ReservationKey → ConstraintRegistry →
    Except ConstraintError (List ReservationKey) × ConstraintRegistry
  | [], added, reg => (.ok added, reg)
  | (key, n) :: rest, added, reg =>
    match reg.tryReserve key n with
    | .ok (true, reg') => reserve rest (added ++ [key]) reg'
    | .ok (false, reg') => reserve rest added reg'
    | .error e => (.error e, reg.remove added)

/-- `added` and `removed` are the keys of the added and of the removed entries. -/
def reserveForTransaction (added : List (ReservationKey × NodeId)) (removed : List ReservationKey) :
    Except ConstraintError ReservationGuard × ConstraintRegistry :=
  match reserve added [] reg with
  | (.ok new, reg') =>
    (.ok ⟨new, removed.filter fun k => decide (k ∉ added.map (·.1))⟩, reg')
  | (.error e, reg') => (.error e, reg')

/-- `ReservationGuard::commit`. -/
def commit (guard : ReservationGuard) : ConstraintRegistry := reg.remove guard.toRemove

def drop (guard : ReservationGuard) : ConstraintRegistry := reg.remove guard.added

/-- A type mismatch is reported at once, missing keys together at the end. -/
def checkEntity (sort : EntitySort) (label : InternedString) (properties : PropertyMap) :
    Except ConstraintError Unit :=
  match reg.schemaConstraints.lookup (sort, label) with
  | none => .ok ()
  | some constraints => do
    let missing ← constraints.foldlM (fun missing c =>
      match checkProperty c (properties.lookup c.property) with
      | .missing _ => .ok (missing ++ [c.property])
      | .typeMismatch expected actual =>
        .error (.typeViolation sort label c.property expected actual)
      | .ok => .ok missing) []
    if missing.isEmpty then .ok () else .error (.missingRequiredKey sort label missing)

end ConstraintRegistry

namespace WriteTransaction

/-- The schema checks, for every buffered create and update. -/
def checkSchema (tx : WriteTransaction) (reg : ConstraintRegistry) : Except ConstraintError Unit :=
  tx.buffer.forM fun
    | .node (.create _ _ _ content) | .node (.update _ _ _ content) =>
      reg.checkEntity .node content.label content.properties
    | .edge (.create _ _ _ content) | .edge (.update _ _ _ content) =>
      reg.checkEntity .edge content.label content.properties
    | _ => .ok ()

/-- The keys of every buffered create and update of a node, whether or not a later write of the
transaction replaces it. -/
def addedKeys (tx : WriteTransaction) (reg : ConstraintRegistry) : List (ReservationKey × NodeId) :=
  tx.buffer.flatMap fun
    | .node (.create n _ _ content) | .node (.update n _ _ content) =>
      (reg.keys content.label content.properties).map (·, n)
    | _ => []

/-- The keys of the committed nodes that the transaction updates or deletes. Retractions are not
looked at. -/
def removedKeys (tx : WriteTransaction) (db : Db) (reg : ConstraintRegistry) :
    List ReservationKey :=
  tx.buffer.flatMap fun
    | .node (.update n _ _ _) | .node (.delete n _ _) =>
      ((db.nodes.get n).map fun x => reg.keys x.label x.properties).getD []
    | _ => []

def checkConstraints (tx : WriteTransaction) (db : Db) (reg : ConstraintRegistry) :
    Except ConstraintError ReservationGuard × ConstraintRegistry :=
  match tx.checkSchema reg with
  | .ok () => reg.reserveForTransaction (tx.addedKeys reg) (tx.removedKeys db reg)
  | .error e => (.error e, reg)

end WriteTransaction

end Aletheia

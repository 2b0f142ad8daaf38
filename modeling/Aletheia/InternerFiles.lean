import Aletheia.Machine
import Aletheia.Version
import Mathlib.Data.Finset.Insert
import Mathlib.Data.Fintype.Defs

/-!
# Interned strings in the persisted files

Labels, property keys and string values are written as ids of the string interner, and the file of
the interner is written on its own. A file of a component is read through the interner file that is
on disk at that moment: the strings are interned again in the new process, which may hold others
already, and `InternerRemap` takes a position in the file to the id its string has got.

What a component holds in memory stands here for its texts. Within one process the interner only
grows, so that the id of a text does not change.
-/

namespace Aletheia

/-! ### Records -/

/-- A property value whose strings are of type `α`: texts in memory, ids in a file. Values that have
no persisted form (arrays and sparse vectors) make the whole conversion fail; a vector has passed
the dimension check of its constructor, which is also the one at load. -/
inductive TextValue (α : Type) where
  | null
  | bool (b : Bool)
  | int (i : ℤ)
  | float (bits : BitVec 64)
  | string (s : α)
  | bytes (b : List UInt8)
  | vector (xs : {xs : List (BitVec 32) // xs.length ≤ PropertyValue.maxVectorDimensions})
deriving DecidableEq

/-- What is interned of a node, an edge, a version or an adjacency entry. Only delta versions have
removed keys, and an adjacency entry has only its label. -/
structure TextRecord (α : Type) where
  label : α
  properties : List (α × TextValue α)
  removedKeys : List α
deriving DecidableEq

namespace TextValue

variable {α β : Type} (f : α → β)

def map : TextValue α → TextValue β
  | .null => .null
  | .bool b => .bool b
  | .int i => .int i
  | .float bits => .float bits
  | .string s => .string (f s)
  | .bytes b => .bytes b
  | .vector xs => .vector xs

def texts : TextValue α → List α
  | .string s => [s]
  | _ => []

end TextValue

namespace TextRecord

variable {α β : Type} (f : α → β)

def map (r : TextRecord α) : TextRecord β where
  label := f r.label
  properties := r.properties.map fun p => (f p.1, p.2.map f)
  removedKeys := r.removedKeys.map f

/-- What is interned when the record comes into memory. -/
def names (r : TextRecord α) : List α := r.label :: (r.properties.map Prod.fst ++ r.removedKeys)

/-- The string values, which are interned only when they are persisted. -/
def values (r : TextRecord α) : List α := r.properties.flatMap fun p => p.2.texts

def texts (r : TextRecord α) : List α := r.names ++ r.values

end TextRecord

/-! ### The interner -/

abbrev StringInterner := List String

namespace StringInterner

def intern (strings : StringInterner) (s : String) : StringInterner :=
  if s ∈ strings then strings else strings ++ [s]

def internAll (strings : StringInterner) (ss : List String) : StringInterner :=
  ss.foldl intern strings

/-- `restore_string_interner`: the id that each string of the file gets, and the interner after
that. -/
def restore : StringInterner → List String → List ℕ × StringInterner
  | live, [] => ([], live)
  | live, s :: rest =>
    let (positions, live') := restore (live.intern s) rest
    ((live.intern s).idxOf s :: positions, live')

end StringInterner

/-- `none` is the identity. -/
structure InternerRemap where
  mapping : Option (List ℕ)

/-- The live id of a file id; what the source maps to `UNMAPPABLE_FILE_ID` has none. -/
def InternerRemap.resolve (remap : InternerRemap) (fileId : ℕ) : Option ℕ :=
  match remap.mapping with
  | none => some fileId
  | some positions => positions[fileId]?

/-! ### Loading -/

/-- The components that are written to a file of their own. -/
inductive FileKind where
  | graph
  | temporal
  | temporalAdjacency
deriving DecidableEq, Repr

instance : Fintype FileKind where
  elems := {.graph, .temporal, .temporalAdjacency}
  complete kind := by cases kind <;> decide

namespace TextRecord

section Restore

variable (resolve : ℕ → Option String)

def restorePropertyValue : TextValue ℕ → Option (TextValue String)
  | .null => some .null
  | .bool b => some (.bool b)
  | .int i => some (.int i)
  | .float bits => some (.float bits)
  | .string id => (resolve id).map .string
  | .bytes b => some (.bytes b)
  | .vector xs => some (.vector xs)

def restorePropertyMap : List (ℕ × TextValue ℕ) → Option (List (String × TextValue String))
  | [] => some []
  | (key, value) :: rest => do
    let value ← restorePropertyValue resolve value
    let key ← resolve key
    let rest ← restorePropertyMap rest
    return (key, value) :: rest

/-- A label, a key or a value that does not resolve is an error. A removed key is not looked up; one
without a text removes nothing. -/
def restore (r : TextRecord ℕ) : Option (TextRecord String) := do
  let label ← resolve r.label
  let properties ← restorePropertyMap resolve r.properties
  return ⟨label, properties, r.removedKeys.filterMap resolve⟩

/-- A record with an error is left out of the graph and of the adjacency index; the history ends
before the first one. -/
def restoreAll (kind : FileKind) : List (TextRecord ℕ) → List (TextRecord String)
  | [] => []
  | r :: rest =>
    match r.restore resolve with
    | some t => t :: restoreAll kind rest
    | none => if kind = .temporal then [] else restoreAll kind rest

end Restore

end TextRecord

/-! ### Processes on one directory -/

/-- What a driver has converted and not yet written: the records, the texts they stand for, and
whether the interner has been saved since. -/
structure Conversion where
  records : List (TextRecord ℕ)
  texts : List (TextRecord String)
  saved : Bool

/-- A file of a component, with the texts that were in memory when it was converted. -/
structure ComponentFile where
  records : List (TextRecord ℕ)
  texts : List (TextRecord String)

structure InternerFiles where
  live : StringInterner
  memory : FileKind → List (TextRecord String)
  pending : FileKind → Option Conversion
  internerFile : Option (List String)
  files : FileKind → Option ComponentFile

namespace InternerFiles

inductive Action where
  | intern (s : String)
  /-- commits change what a component holds -/
  | change (kind : FileKind) (texts : List (TextRecord String))
  | convert (kind : FileKind)
  | saveStringInterner
  | writeFile (kind : FileKind)
  /-- a crash, and a process whose interner holds some strings before it opens the directory -/
  | restart (existing : List String)

def init (existing : StringInterner) : InternerFiles :=
  ⟨existing, fun _ => [], fun _ => none, none, fun _ => none⟩

/-- `load_manifest_and_strings_with_remap`. -/
def loadStrings (s : InternerFiles) (existing : StringInterner) : InternerRemap × StringInterner :=
  match s.internerFile with
  | some strings => ((existing.restore strings).map (⟨some ·⟩) id)
  | none => (⟨none⟩, existing)

def lookup (s : InternerFiles) (existing : StringInterner) (fileId : ℕ) : Option String :=
  let (remap, live) := s.loadStrings existing
  (remap.resolve fileId).bind fun id => live[id]?

def load (s : InternerFiles) (existing : StringInterner) (kind : FileKind) :
    List (TextRecord String) :=
  match s.files kind with
  | some file => TextRecord.restoreAll (s.lookup existing) kind file.records
  | none => []

def step (s : InternerFiles) : Action → Option InternerFiles
  | .intern string => some { s with live := s.live.intern string }
  | .change kind texts =>
    some { s with
      live := s.live.internAll (texts.flatMap TextRecord.names)
      memory := Function.update s.memory kind texts }
  | .convert kind =>
    let texts := s.memory kind
    let live := s.live.internAll (texts.flatMap TextRecord.values)
    some { s with
      live := live
      pending := Function.update s.pending kind
        (some ⟨texts.map (TextRecord.map live.idxOf), texts, false⟩) }
  | .saveStringInterner =>
    some { s with
      internerFile := some s.live
      pending := fun kind => (s.pending kind).map fun c => { c with saved := true } }
  | .writeFile kind =>
    match s.pending kind with
    | some c =>
      -- the adjacency index is written without saving the interner first
      if c.saved ∨ kind = .temporalAdjacency then
        some { s with
          files := Function.update s.files kind (some ⟨c.records, c.texts⟩)
          pending := Function.update s.pending kind none }
      else none
    | none => none
  | .restart existing =>
    if existing.Nodup then
      some { s with
        live := (s.loadStrings existing).2
        memory := s.load existing
        pending := fun _ => none }
    else none

end InternerFiles

end Aletheia

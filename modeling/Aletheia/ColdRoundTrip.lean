import Aletheia.ColdRecords
import Mathlib.Data.List.NodupEquivFin

/-!
# What a cold record gives back

Decoding an encoded version succeeds and gives back its ids, links, label and provenance. The record
has the wall clocks of the four bounds but not their logical counters, the changed and removed
properties of a delta but not its vector deltas, and in an array only elements that are neither
arrays nor sparse vectors: those read as null.
-/

namespace Aletheia.ColdStorage

open Exec List

variable {v : PropertyValue} {entries : List (ℕ × BitVec 32)} {id : VersionId}

/-! ### Versions that the history can hold -/

/-- What `SparseVec::new` has made of its arguments. -/
structure SparseOk (dimension : ℕ) (entries : List (ℕ × BitVec 32)) : Prop where
  dimension_le : dimension ≤ PropertyValue.maxVectorDimensions
  sorted : (entries.map Prod.fst).Pairwise (· < ·)
  entry : ∀ e ∈ entries, e.1 < dimension ∧ SparseVec.validateValue e.2 = .ok ()

/-- A sparse vector is one that `SparseVec::new` has made. -/
def ValueOk : PropertyValue → Prop
  | .sparseVector dimension entries => SparseOk dimension entries
  | _ => True

/-- The keys are interned. -/
def MapOk (t : Interner) (m : PropertyMap) : Prop :=
  ∀ e ∈ m.entries, e.1 < t.strings.length ∧ ValueOk e.2

def DataOk (t : Interner) : StoredData → Prop
  | .anchor properties _ => MapOk t properties
  | .delta d => MapOk t d.changed ∧ ∀ k ∈ d.removed, k < t.strings.length

/-- What `TimeRange::new` accepts. -/
structure RangeOk (r : TimeRange) : Prop where
  le : r.start ≤ r.stop
  start_ok : r.start.Valid ∨ r.start = timestampMax
  stop_ok : r.stop.Valid ∨ r.stop = timestampMax

/-- A version with the invariants of its constructors: ids from the generators, ranges in order,
interned names, and the transaction start as its commit timestamp. -/
structure HeldVersion (t : Interner) (K X : Type) {E : Type} [ColdEntity K X E] extends
    StoredVersion K X where
  id_ok : id.seq < 2 ^ 62
  entity_ok : ColdEntity.asU64 X entity ≤ maxValidId
  ends_ok : ColdEntity.EndsOk K ends
  next_ok : ∀ u ∈ nextVersion, u.seq < 2 ^ 62
  prev_ok : ∀ u ∈ prevVersion, u.seq < 2 ^ 62
  valid_ok : RangeOk temporal.validTime
  tx_ok : RangeOk temporal.transactionTime
  commit_eq : commitTimestamp = temporal.transactionTime.start
  label_ok : label < t.strings.length
  data_ok : DataOk t data

/-! ### Values -/

/-- An element of an array as it reads after the record. -/
def simplifyElement : PropertyValue → PropertyValue
  | .array _ | .sparseVector _ _ => .null
  | v => v

/-- Arrays and sparse vectors inside an array read as null. -/
def simplify : PropertyValue → PropertyValue
  | .array xs => .array (xs.map simplifyElement)
  | v => v

lemma decodeElement_encodeElement (v : PropertyValue) :
    decodeElement (encodeElement v) = simplifyElement v := by
  cases v <;> rfl

lemma scanSorted_eq_ok {dimension prev : ℕ}
    (hsorted : (prev :: entries.map Prod.fst).Pairwise (· < ·))
    (hentry : ∀ e ∈ entries, e.1 < dimension ∧ SparseVec.validateValue e.2 = .ok ()) :
    SparseVec.scanSorted dimension prev entries = .ok true := by
  induction entries generalizing prev with
  | nil => rfl
  | cons e entries ih =>
    obtain ⟨i, x⟩ := e
    obtain ⟨⟨hi, hx⟩, hrest⟩ := forall_mem_cons.mp hentry
    rw [map_cons, pairwise_cons] at hsorted
    have hlt : prev < i := hsorted.1 i mem_cons_self
    rw [SparseVec.scanSorted, if_neg hlt.ne', if_neg hlt.not_gt, if_neg (not_le.mpr hi), hx]
    exact ih hsorted.2 hrest

lemma sparseVec_new {dimension : ℕ} (h : SparseOk dimension entries) :
    SparseVec.new (entries.map Prod.fst) (entries.map Prod.snd) dimension = .ok entries := by
  have hzip : (entries.map Prod.fst).zip (entries.map Prod.snd) = entries := by
    rw [← unzip_fst, ← unzip_snd]
    exact zip_unzip entries
  rw [SparseVec.new, if_neg (not_lt.mpr h.dimension_le), if_neg (by simp), hzip]
  cases entries with
  | nil => rfl
  | cons e entries =>
    obtain ⟨i, x⟩ := e
    obtain ⟨⟨hi, hx⟩, hrest⟩ := forall_mem_cons.mp h.entry
    simp only [if_neg (not_le.mpr hi), hx, scanSorted_eq_ok h.sorted hrest]
    rfl

/-- **A value is decoded to itself**, up to what arrays cannot hold. -/
lemma decode_encodePropertyValue (h : ValueOk v) :
    decodePropertyValue (encodePropertyValue v) = .ok (simplify v) := by
  cases v with
  | array xs =>
    simp only [encodePropertyValue, decodePropertyValue, simplify, map_map]
    exact congrArg _ (congrArg _ (map_congr_left fun v _ => decodeElement_encodeElement v))
  | sparseVector dimension entries =>
    have hmod : dimension % 2 ^ 32 = dimension := by
      refine Nat.mod_eq_of_lt (h.dimension_le.trans_lt ?_)
      decide
    simp only [encodePropertyValue, decodePropertyValue, hmod, sparseVec_new h, simplify]
  | _ => rfl

/-! ### Properties -/

section Properties

variable {t : Interner}

lemma intern_text {id : InternedString} (h : id < t.strings.length) :
    (intern (t.text id)).run t = .ok id t := by
  have htext : t.text id = t.strings[id] := by
    rw [Interner.text, Interner.resolve, List.getElem?_eq_getElem h, Option.getD_some]
  have hmem : t.text id ∈ t.strings := htext ▸ getElem_mem h
  have hidx : t.strings.idxOf (t.text id) = id := by
    rw [htext]
    exact t.nodup.idxOf_getElem id h
  change intern (t.text id) t = _
  rw [intern, dif_pos hmem, hidx]

lemma run_check {α : Type} {x : Except DecodeError α} {a : α} (h : x = .ok a) :
    (check x).run t = .ok a t :=
  run_readE h

lemma run_decodeProperty {k : InternedString} (hk : k < t.strings.length) (hv : ValueOk v) :
    (decodeProperty (t.text k) (encodePropertyValue v)).run t = .ok (k, simplify v) t :=
  run_bind_ok (run_check (decode_encodePropertyValue hv)) (run_bind_ok (intern_text hk) rfl)

lemma run_decodeChange {k : InternedString} (hk : k < t.strings.length) (hv : ValueOk v) :
    (decodeChange (t.text k) (encodePropertyValue v)).run t = .ok (k, simplify v) t :=
  run_bind_ok (intern_text hk) (run_bind_ok (run_check (decode_encodePropertyValue hv)) rfl)

/-- The map with its values as they read after the record. -/
def simplifyMap (m : PropertyMap) : PropertyMap :=
  m.entries.foldl (fun acc e => acc.insert e.1 (simplify e.2)) ∅

lemma lookup_simplifyMap (m : PropertyMap) (key : InternedString) :
    (simplifyMap m).lookup key = (m.lookup key).map simplify := by
  have h := view_foldl_entries (fun (m : PropertyMap) k => m.lookup k)
    (fun m k v => m.insert k (simplify v)) (fun _ v _ => some (simplify v))
    (fun acc k v key => PropertyDelta.lookup_insert_eq_ite acc k (simplify v) key) key m ∅
  rw [simplifyMap]
  refine h.trans ?_
  rw [AList.lookup_empty]
  cases m.lookup key <;> rfl

lemma run_decodeProperties
    {entry : String → SerializablePropertyValue →
      EStateM DecodeError Interner (InternedString × PropertyValue)}
    {es : List (Sigma fun _ : InternedString => PropertyValue)}
    (hentry : ∀ e ∈ es,
      (entry (t.text e.1) (encodePropertyValue e.2)).run t = .ok (e.1, simplify e.2) t)
    (m : PropertyMap) :
    (decodeProperties entry (es.map fun e => (t.text e.1, encodePropertyValue e.2)) m).run t =
      .ok (es.foldl (fun acc e => acc.insert e.1 (simplify e.2)) m) t := by
  induction es generalizing m with
  | nil => rfl
  | cons e es ih =>
    obtain ⟨hhead, htail⟩ := forall_mem_cons.mp hentry
    exact run_bind_ok hhead (ih htail _)

lemma run_decodeRemoved {removed : List InternedString}
    (h : ∀ k ∈ removed, k < t.strings.length) (acc : List InternedString) :
    ∃ removed', (decodeRemoved (removed.map t.text) acc).run t = .ok removed' t ∧
      ∀ k, k ∈ removed' ↔ k ∈ acc ∨ k ∈ removed := by
  induction removed generalizing acc with
  | nil => exact ⟨acc, rfl, by simp⟩
  | cons k removed ih =>
    obtain ⟨hk, hrest⟩ := forall_mem_cons.mp h
    obtain ⟨removed', hrun, hmem⟩ := ih hrest (if k ∈ acc then acc else acc ++ [k])
    refine ⟨removed', run_bind_ok (intern_text hk) hrun, fun j => ?_⟩
    rw [hmem, mem_cons]
    split
    · rename_i hacc
      exact ⟨fun h => h.imp_right .inr, fun h => by
        obtain h | rfl | h := h
        exacts [.inl h, .inl hacc, .inr h]⟩
    · rw [mem_append, mem_singleton, or_assoc]

end Properties

/-! ### Version data -/

/-- Both give the same map wherever reconstruction uses them. -/
def SameEffect : VersionData → VersionData → Prop
  | .anchor m, .anchor m' => SameMap m m'
  | .delta d, .delta d' => ∀ base base', SameMap base base' → SameMap (d.apply base) (d'.apply base')
  | _, _ => False

namespace StoredData

/-- The data with its values as they read after the record. -/
def simplified : StoredData → StoredData
  | .anchor m snapshot => .anchor (simplifyMap m) snapshot
  | .delta d => .delta { d with changed := simplifyMap d.changed }

/-- The vectors that are stored as changes to the vector before. -/
def vectorDeltas : StoredData → AList fun _ : InternedString => VectorDelta
  | .anchor _ _ => ∅
  | .delta d => d.vectorDeltas

def vectorSnapshotId : StoredData → Option ℕ
  | .anchor _ snapshot => snapshot
  | .delta _ => none

end StoredData

/-- **The decoded data acts as the stored data**, as far as the record has it. -/
lemma run_decodeVersionData {t : Interner} {data : StoredData} (h : DataOk t data) :
    ∃ data', (decodeVersionData (encodeVersionData t data)).run t = .ok data' t ∧
      data'.vectorSnapshotId = data.vectorSnapshotId ∧
      (data.vectorDeltas = ∅ → SameEffect data.simplified.payload data'.payload) := by
  cases data with
  | anchor m snapshot =>
    have hrun := run_decodeProperties (fun e he => run_decodeProperty (h e he).1 (h e he).2) ∅
    exact ⟨_, run_bind_ok hrun rfl, rfl, fun _ _ => rfl⟩
  | delta d =>
    obtain ⟨hchanged, hremoved⟩ := h
    have hrun := run_decodeProperties
      (fun e he => run_decodeChange (hchanged e he).1 (hchanged e he).2) ∅
    obtain ⟨removed', hrun', hmem⟩ := run_decodeRemoved hremoved []
    refine ⟨_, run_bind_ok hrun (run_bind_ok hrun' rfl), rfl, ?_⟩
    intro hvectors base base' hbase key
    -- a delta acts on each key alone, and only membership in the removed names matters
    have hkey : key ∈ removed' ↔ key ∈ d.removed := by simpa using hmem key
    change d.vectorDeltas = ∅ at hvectors
    simp only [PropertyDelta.lookup_apply, PropertyDelta.applied, hkey, hbase key, hvectors]
    rfl

/-! ### Ids, provenance and times -/

lemma versionIdOfU64_asU64 (h : id.seq < 2 ^ 62) : versionIdOfU64 (versionIdAsU64 id) = id := by
  obtain ⟨seq, structural⟩ := id
  have hbit : seq.testBit 62 = false := Nat.testBit_lt_two_pow h
  cases structural with
  | false =>
    change versionIdOfU64 seq = _
    rw [versionIdOfU64, hbit]
    rfl
  | true =>
    change versionIdOfU64 (2 ^ 62 + seq) = _
    rw [versionIdOfU64, Nat.testBit_two_pow_add_eq, hbit, Nat.add_sub_cancel_left]
    rfl

lemma versionIdAsU64_le (h : id.seq < 2 ^ 62) : versionIdAsU64 id ≤ maxValidId := by
  rw [versionIdAsU64, maxValidId]
  split <;> omega

variable {error : ℕ → DecodeError}

lemma checkId_eq_ok {α : Type} {make : ℕ → α} {n : ℕ}
    (h : n ≤ maxValidId) : checkId make error n = .ok (make n) :=
  if_neg (not_lt.mpr h)

lemma checkId_version (h : id.seq < 2 ^ 62) :
    checkId versionIdOfU64 error (versionIdAsU64 id) = .ok id := by
  rw [checkId_eq_ok (versionIdAsU64_le h), versionIdOfU64_asU64 h]

lemma decodeLink_map {link : Option VersionId}
    (h : ∀ u ∈ link, u.seq < 2 ^ 62) : decodeLink error (link.map versionIdAsU64) = .ok link := by
  cases link with
  | none => rfl
  | some id =>
    change (checkId versionIdOfU64 error (versionIdAsU64 id)).map some = _
    rw [checkId_version (h id rfl)]
    rfl

lemma decodeProvenance_map (p : Option ProvenanceBundle) :
    decodeProvenance (p.map encodeProvenance) = .ok p := by
  cases p with
  | none => rfl
  | some p =>
    obtain ⟨source, confidence, note, correlationId, principal, hconfidence⟩ := p
    cases confidence with
    | none => rfl
    | some c =>
      simp only [Option.map_some, decodeProvenance, encodeProvenance, ProvenanceBundle.fromParts,
        dif_pos (hconfidence c rfl)]

/-- What the record has of a timestamp. -/
def wall (s : Timestamp) : Timestamp := ⟨s.wallclock, 0⟩

lemma wall_mono {s s' : Timestamp} (h : s ≤ s') : wall s ≤ wall s' := by
  rw [HybridTimestamp.le_def] at h ⊢
  simp only [wall]
  omega

lemma wall_eq_self {s : Timestamp} (h : s.logical = 0) : wall s = s := by
  obtain ⟨w, l⟩ := s
  exact congrArg (HybridTimestamp.mk w) h.symm

lemma wall_inRange {s : Timestamp} (h : s.Valid ∨ s = timestampMax) :
    ¬ ((wall s).wallclock > maxValidTimestamp ∧ wall s ≠ timestampMax) := by
  rintro ⟨hlt, hne⟩
  obtain h | rfl := h
  · exact absurd hlt (not_lt.mpr h)
  · exact hne rfl

/-- The range that the record gives back. -/
def wallRange (r : TimeRange) : TimeRange := ⟨wall r.start, wall r.stop⟩

lemma decodeRange_wall {error : TemporalError → DecodeError} {r : TimeRange} (h : RangeOk r) :
    decodeRange error r.start.wallclock r.stop.wallclock = .ok (wallRange r) := by
  have hnew : timeRangeNew (wall r.start) (wall r.stop) = .ok (wallRange r) := by
    rw [timeRangeNew, if_neg (not_lt.mpr (wall_mono h.le)), if_neg (wall_inRange h.start_ok),
      if_neg (wall_inRange h.stop_ok)]
    rfl
  rw [decodeRange, show timeRangeNew ⟨r.start.wallclock, 0⟩ ⟨r.stop.wallclock, 0⟩ = _ from hnew]

/-! ### The order of ranges -/

/-- No time is in both. -/
def Apart (r q : TimeRange) : Prop := ∀ s, ¬ (r.contains s = true ∧ q.contains s = true)

lemma apart_iff {r q : TimeRange} :
    Apart r q ↔ r.stop ≤ r.start ∨ q.stop ≤ q.start ∨ r.stop ≤ q.start ∨ q.stop ≤ r.start := by
  constructor
  · intro h
    by_contra! hnot
    obtain ⟨hr, hq, hrq, hqr⟩ := hnot
    refine h (max r.start q.start) ⟨?_, ?_⟩
    · exact TimeRange.contains_iff.mpr ⟨le_max_left _ _, max_lt hr hrq⟩
    · exact TimeRange.contains_iff.mpr ⟨le_max_right _ _, max_lt hqr hq⟩
  · rintro h s ⟨hr, hq⟩
    obtain ⟨hr₁, hr₂⟩ := TimeRange.contains_iff.mp hr
    obtain ⟨hq₁, hq₂⟩ := TimeRange.contains_iff.mp hq
    obtain h | h | h | h := h
    · exact absurd (hr₁.trans_lt hr₂) (not_lt.mpr h)
    · exact absurd (hq₁.trans_lt hq₂) (not_lt.mpr h)
    · exact absurd (hq₁.trans_lt hr₂) (not_lt.mpr h)
    · exact absurd (hr₁.trans_lt hq₂) (not_lt.mpr h)

/-- `r` and `q` stand to each other in time as `r'` and `q'` do. -/
structure StaysOrdered (r q r' q' : TimeRange) : Prop where
  starts : r.start ≤ q.start → r'.start ≤ q'.start
  stops : r.stop ≤ q.stop → r'.stop ≤ q'.stop
  before : r.stop ≤ q.start → r'.stop ≤ q'.start
  apart : Apart r q → Apart r' q'

lemma staysOrdered_wallRange (r q : TimeRange) : StaysOrdered r q (wallRange r) (wallRange q) where
  starts := wall_mono
  stops := wall_mono
  before := wall_mono
  apart h := by
    rw [apart_iff] at h ⊢
    exact h.imp wall_mono (.imp wall_mono (.imp wall_mono wall_mono))

/-! ### Versions -/

section Versions

variable {K X E : Type} [ColdEntity K X E] {t : Interner}

/-- `v'` is `v` in all that a record holds exactly. The logical counters of the four bounds and the
vector deltas are not among it. -/
structure Restored (v v' : StoredVersion K X) : Prop where
  id : v'.id = v.id
  entity : v'.entity = v.entity
  label : v'.label = v.label
  ends : v'.ends = v.ends
  nextVersion : v'.nextVersion = v.nextVersion
  prevVersion : v'.prevVersion = v.prevVersion
  provenance : v'.provenance = v.provenance
  validStart : v.temporal.validTime.start.logical = 0 →
    v'.temporal.validTime.start = v.temporal.validTime.start
  validStop : v.temporal.validTime.stop.logical = 0 →
    v'.temporal.validTime.stop = v.temporal.validTime.stop
  txStart : v.temporal.transactionTime.start.logical = 0 →
    v'.temporal.transactionTime.start = v.temporal.transactionTime.start
  txStop : v.temporal.transactionTime.stop.logical = 0 →
    v'.temporal.transactionTime.stop = v.temporal.transactionTime.stop
  commitTimestamp : v.commitTimestamp.logical = 0 → v'.commitTimestamp = v.commitTimestamp
  vectorSnapshotId : v'.data.vectorSnapshotId = v.data.vectorSnapshotId
  data : v.data.vectorDeltas = ∅ → SameEffect v.data.simplified.payload v'.data.payload

/-- The version that the decoder builds once it has the data. -/
def decoded (v : StoredVersion K X) (data : StoredData) : StoredVersion K X :=
  { v with
    temporal := ⟨wallRange v.temporal.validTime, wallRange v.temporal.transactionTime⟩
    data := data
    commitTimestamp := wall v.temporal.transactionTime.start }

lemma run_decodeVersion (v : HeldVersion t K X) {data : StoredData}
    (hdata : (decodeVersionData (encodeVersionData t v.data)).run t = .ok data t) :
    (decodeVersion (encodeVersion t v.toStoredVersion)).run t =
      .ok (decoded v.toStoredVersion data) t := by
  have hentity : checkId (ColdEntity.ofU64 (K := K) X) .invalidEntityId
      (ColdEntity.asU64 X v.entity) = .ok v.entity := by
    rw [checkId_eq_ok v.entity_ok, ColdEntity.ofU64_asU64]
  exact
    run_bind_ok (run_check (decodeProvenance_map v.provenance)) <|
    run_bind_ok (run_check (decodeRange_wall v.valid_ok)) <|
    run_bind_ok (run_check (decodeRange_wall v.tx_ok)) <|
    run_bind_ok (run_check (checkId_version v.id_ok)) <|
    run_bind_ok (run_check hentity) <|
    run_bind_ok (intern_text v.label_ok) <|
    run_bind_ok (run_check (ColdEntity.decodeEnds_encodeEnds _ v.ends_ok)) <|
    run_bind_ok hdata <|
    run_bind_ok (run_check (decodeLink_map v.next_ok)) <|
    run_bind_ok (run_check (decodeLink_map v.prev_ok)) rfl

/-- **A held version is decoded**, with the interner as it was. -/
lemma exists_decodeVersion (v : HeldVersion t K X) : ∃ v' : StoredVersion K X,
      (decodeVersion (encodeVersion t v.toStoredVersion)).run t = .ok v' t ∧
      Restored v.toStoredVersion v' := by
  obtain ⟨data, hdata, hsnapshot, heffect⟩ := run_decodeVersionData v.data_ok
  refine ⟨_, run_decodeVersion v hdata, ?_⟩
  exact
    { id := rfl, entity := rfl, label := rfl, ends := rfl, nextVersion := rfl, prevVersion := rfl
      provenance := rfl
      validStart := wall_eq_self
      validStop := wall_eq_self
      txStart := wall_eq_self
      txStop := wall_eq_self
      commitTimestamp := by
        intro h
        rw [v.commit_eq] at h ⊢
        exact wall_eq_self h
      vectorSnapshotId := hsnapshot
      data := heffect }

lemma temporal_of_decodeVersion {v : HeldVersion t K X} {v' : StoredVersion K X} {t' : Interner}
    (h : (decodeVersion (encodeVersion t v.toStoredVersion)).run t = .ok v' t') :
    v'.temporal = ⟨wallRange v.temporal.validTime, wallRange v.temporal.transactionTime⟩ := by
  obtain ⟨data, hdata, -⟩ := run_decodeVersionData v.data_ok
  rw [run_decodeVersion v hdata] at h
  injection h with h
  rw [← h, decoded]

end Versions

def IntervalsStayOrdered (i j i' j' : BiTemporalInterval) : Prop :=
  StaysOrdered i.validTime j.validTime i'.validTime j'.validTime ∧
    StaysOrdered i.transactionTime j.transactionTime i'.transactionTime j'.transactionTime

section Order

variable {K X E K' X' E' : Type} [ColdEntity K X E] [ColdEntity K' X' E'] {t : Interner}

lemma intervalsStayOrdered {v : HeldVersion t K X} {w : HeldVersion t K' X'}
    {v' : StoredVersion K X} {w' : StoredVersion K' X'} {t₁ t₂ : Interner}
    (hv : (decodeVersion (encodeVersion t v.toStoredVersion)).run t = .ok v' t₁)
    (hw : (decodeVersion (encodeVersion t w.toStoredVersion)).run t = .ok w' t₂) :
    IntervalsStayOrdered v.temporal w.temporal v'.temporal w'.temporal := by
  rw [temporal_of_decodeVersion hv, temporal_of_decodeVersion hw]
  exact ⟨staysOrdered_wallRange _ _, staysOrdered_wallRange _ _⟩

end Order

/-- **Cold records decode to what was stored.** Every held node and edge version comes back with its
ids, links, label and provenance, the bounds and the commit timestamp that have no logical counter,
and data of the same effect where no vector is stored as a delta, up to the elements that arrays in
cold storage do not support. Versions that are ordered or apart stay so. -/
theorem cold_versions_restored (t : Interner) :
    (∀ v : HeldVersion t NodeId Unit, ∃ v',
      (decodeNodeVersion (encodeNodeVersion t v.toStoredVersion)).run t = .ok v' t ∧
      Restored v.toStoredVersion v') ∧
    (∀ v : HeldVersion t EdgeId Endpoints, ∃ v',
      (decodeEdgeVersion (encodeEdgeVersion t v.toStoredVersion)).run t = .ok v' t ∧
      Restored v.toStoredVersion v') ∧
    (∀ (v w : HeldVersion t NodeId Unit) v' w',
      (decodeNodeVersion (encodeNodeVersion t v.toStoredVersion)).run t = .ok v' t →
      (decodeNodeVersion (encodeNodeVersion t w.toStoredVersion)).run t = .ok w' t →
      IntervalsStayOrdered v.temporal w.temporal v'.temporal w'.temporal) ∧
    (∀ (v w : HeldVersion t EdgeId Endpoints) v' w',
      (decodeEdgeVersion (encodeEdgeVersion t v.toStoredVersion)).run t = .ok v' t →
      (decodeEdgeVersion (encodeEdgeVersion t w.toStoredVersion)).run t = .ok w' t →
      IntervalsStayOrdered v.temporal w.temporal v'.temporal w'.temporal) ∧
    (∀ (v : HeldVersion t NodeId Unit) (w : HeldVersion t EdgeId Endpoints) v' w',
      (decodeNodeVersion (encodeNodeVersion t v.toStoredVersion)).run t = .ok v' t →
      (decodeEdgeVersion (encodeEdgeVersion t w.toStoredVersion)).run t = .ok w' t →
      IntervalsStayOrdered v.temporal w.temporal v'.temporal w'.temporal) :=
  ⟨exists_decodeVersion, exists_decodeVersion, fun _ _ _ _ => intervalsStayOrdered,
    fun _ _ _ _ => intervalsStayOrdered, fun _ _ _ _ => intervalsStayOrdered⟩

/-! ### What does not come back -/

namespace Lost

def interner : Interner := ⟨["Person", "tags"], by decide, 10⟩

/-- A person's first version, recorded at `recorded`. -/
def person (recorded : Timestamp) (hrecorded : recorded.Valid) (data : StoredData)
    (hdata : DataOk interner data) : HeldVersion interner NodeId Unit where
  id := .new 1
  entity := ⟨1⟩
  temporal := ⟨.fromStart recorded, .fromStart recorded⟩
  label := 0
  ends := ()
  data := data
  commitTimestamp := recorded
  nextVersion := none
  prevVersion := none
  provenance := none
  id_ok := by decide
  entity_ok := by decide
  ends_ok := trivial
  next_ok := by simp
  prev_ok := by simp
  valid_ok := ⟨hrecorded.lt_max.le, .inl hrecorded, .inr rfl⟩
  tx_ok := ⟨hrecorded.lt_max.le, .inl hrecorded, .inr rfl⟩
  commit_eq := rfl
  label_ok := by decide
  data_ok := hdata

/-- The tags are an array within an array. -/
def nestedTags : PropertyMap := (∅ : PropertyMap).insert 1 (.array [.array [.int 7]])

lemma mapOk_nestedTags : MapOk interner nestedTags := by
  simp [MapOk, nestedTags, interner, ValueOk]

def nested : HeldVersion interner NodeId Unit :=
  person ⟨10, 0⟩ (by decide) (.anchor nestedTags none) mapOk_nestedTags

def stamped : HeldVersion interner NodeId Unit :=
  person ⟨10, 3⟩ (by decide) (.anchor ∅ none) (by simp [DataOk, MapOk])

/-- One component of the vector under the second key has changed. -/
def moved : HeldVersion interner NodeId Unit :=
  person ⟨10, 0⟩ (by decide)
    (.delta ⟨∅, (∅ : AList fun _ : InternedString => VectorDelta).insert 1 (.full [1#32]), []⟩)
    (by simp [DataOk, MapOk])

end Lost

/-- An array within an array is not given back, nor is a logical counter or a vector delta. -/
theorem cold_versions_lossy :
    (¬ ∃ v', (decodeNodeVersion (encodeNodeVersion Lost.interner Lost.nested.toStoredVersion)).run
        Lost.interner = .ok v' Lost.interner ∧
      SameEffect Lost.nested.data.payload v'.data.payload) ∧
    (¬ ∃ v', (decodeNodeVersion (encodeNodeVersion Lost.interner Lost.stamped.toStoredVersion)).run
        Lost.interner = .ok v' Lost.interner ∧
      v'.temporal = Lost.stamped.temporal) ∧
    (¬ ∃ v', (decodeNodeVersion (encodeNodeVersion Lost.interner Lost.moved.toStoredVersion)).run
        Lost.interner = .ok v' Lost.interner ∧
      SameEffect Lost.moved.data.payload v'.data.payload) := by
  refine ⟨?_, ?_, ?_⟩
  · rintro ⟨v', hrun, heffect⟩
    obtain ⟨w, hrun', hw⟩ := exists_decodeVersion Lost.nested
    obtain rfl : v' = w := by injection hrun.symm.trans hrun'
    have hsimple : SameEffect (.anchor (simplifyMap Lost.nestedTags)) v'.data.payload := hw.data rfl
    have hexact : SameEffect (.anchor Lost.nestedTags) v'.data.payload := heffect
    cases hpayload : v'.data.payload with
    | delta d =>
      rw [hpayload] at hexact
      exact hexact.elim
    | anchor m =>
      rw [hpayload] at hsimple hexact
      have hlookup := (hexact 1).trans (hsimple 1).symm
      rw [lookup_simplifyMap, Lost.nestedTags, AList.lookup_insert] at hlookup
      simp [simplify, simplifyElement] at hlookup
  · rintro ⟨v', hrun, htemporal⟩
    rw [temporal_of_decodeVersion hrun] at htemporal
    exact absurd htemporal (by decide)
  · rintro ⟨v', hrun, heffect⟩
    have hdata : (decodeVersionData (encodeVersionData Lost.interner Lost.moved.data)).run
        Lost.interner = .ok (.delta ⟨∅, ∅, []⟩) Lost.interner := rfl
    obtain rfl : v' = decoded Lost.moved.toStoredVersion (.delta ⟨∅, ∅, []⟩) := by
      injection hrun.symm.trans (run_decodeVersion Lost.moved hdata)
    have hlookup := heffect ∅ ∅ (fun _ => rfl) 1
    rw [PropertyDelta.lookup_apply, PropertyDelta.lookup_apply] at hlookup
    change some (PropertyValue.vector [1#32]) = none at hlookup
    cases hlookup

end Aletheia.ColdStorage

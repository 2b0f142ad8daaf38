import Aletheia.Version

/-!
# The temporal adjacency index

Per node a list of entries, each a rectangle of valid and transaction time, ordered by where the
valid interval starts. An insert looks for its position with a binary search, which may return any
position among equal keys. A query takes the entries that start by the queried time and walks them
backwards for as long as they have not ended: the walk stops at the first one that has, and the
entries before it are not looked at.
-/

namespace Aletheia

open Function List

structure TemporalAdjacencyEntry where
  edgeId : EdgeId
  neighbor : NodeId
  label : InternedString
  validFrom : Timestamp
  validTo : Timestamp
  txFrom : Timestamp
  txTo : Timestamp
deriving DecidableEq, Repr

/-- `binary_search_by_key` with the insertion point of a missing key: where a key may be inserted
into an ordered list so that it stays ordered. -/
structure BinarySearch where
  position : List Timestamp → Timestamp → ℕ
  before : ∀ {keys : List Timestamp} (key : Timestamp), keys.Pairwise (· ≤ ·) →
    ∀ k ∈ keys.take (position keys key), k ≤ key
  after : ∀ {keys : List Timestamp} (key : Timestamp), keys.Pairwise (· ≤ ·) →
    ∀ k ∈ keys.drop (position keys key), key ≤ k

/-- The indexes that were built with `TemporalAdjacencyIndex::new` and filled by calls. A node
without entries has the empty list. -/
structure TemporalAdjacencyIndex where
  outgoing : NodeId → List TemporalAdjacencyEntry
  incoming : NodeId → List TemporalAdjacencyEntry
  maxEntriesPerNode : ℕ

namespace TemporalAdjacencyEntry

def isValidAt (x : TemporalAdjacencyEntry) (validTime txTime : Timestamp) : Bool :=
  x.validFrom ≤ validTime ∧ validTime < x.validTo ∧ x.txFrom ≤ txTime ∧ txTime < x.txTo

end TemporalAdjacencyEntry

open TemporalAdjacencyEntry

/-- Change the last element with the property (`rposition`, or `rev().find`). -/
def replaceLast {α : Type} (p : α → Bool) (f : α → α) : List α → List α
  | [] => []
  | x :: xs =>
    if xs.any p then x :: replaceLast p f xs
    else if p x then f x :: xs
    else x :: xs

namespace TemporalAdjacencyIndex

variable {validFrom txFrom txEnd : Timestamp}

def new (maxEntriesPerNode : ℕ) : TemporalAdjacencyIndex :=
  ⟨fun _ => [], fun _ => [], maxEntriesPerNode⟩

/-- Close the transaction interval of the edge's latest entry. -/
def closeEdgeTransactionTime (ix : TemporalAdjacencyIndex) (edgeId : EdgeId)
    (source target : NodeId) (txEnd : Timestamp) : TemporalAdjacencyIndex :=
  let close := replaceLast (fun x => x.edgeId = edgeId) fun x => { x with txTo := txEnd }
  { ix with
    outgoing := Function.update ix.outgoing source (close (ix.outgoing source))
    incoming := Function.update ix.incoming target (close (ix.incoming target)) }

/-- Close the open entry of one version of the edge, or the edge's latest open entry if it has
none. -/
def closeEntryOf (edgeId : EdgeId) (validFrom txFrom txEnd : Timestamp)
    (entries : List TemporalAdjacencyEntry) : List TemporalAdjacencyEntry :=
  let exact : TemporalAdjacencyEntry → Bool := fun x =>
    x.edgeId = edgeId ∧ x.validFrom = validFrom ∧ x.txFrom = txFrom ∧ x.txTo = timestampMax
  if entries.any exact then replaceLast exact (fun x => { x with txTo := txEnd }) entries
  else
    replaceLast (fun x => x.edgeId = edgeId ∧ x.txTo = timestampMax)
      (fun x => { x with txTo := txEnd }) entries

def closeEdgeTransactionTimeOf (ix : TemporalAdjacencyIndex) (edgeId : EdgeId)
    (source target : NodeId) (validFrom txFrom txEnd : Timestamp) : TemporalAdjacencyIndex :=
  { ix with
    outgoing := Function.update ix.outgoing source
      (closeEntryOf edgeId validFrom txFrom txEnd (ix.outgoing source))
    incoming := Function.update ix.incoming target
      (closeEntryOf edgeId validFrom txFrom txEnd (ix.incoming target)) }

def insertEntry (search : BinarySearch) (x : TemporalAdjacencyEntry)
    (entries : List TemporalAdjacencyEntry) : List TemporalAdjacencyEntry :=
  let pos := search.position (entries.map (·.validFrom)) x.validFrom
  entries.take pos ++ x :: entries.drop pos

/-- Both nodes must have room; otherwise nothing is inserted. -/
def insertEdge (search : BinarySearch) (ix : TemporalAdjacencyIndex) (edgeId : EdgeId)
    (source target : NodeId) (label : InternedString)
    (validFrom validTo txFrom txTo : Timestamp) : Except StorageError TemporalAdjacencyIndex :=
  if ix.maxEntriesPerNode ≤ (ix.outgoing source).length then
    .error (.capacityExceeded (ix.outgoing source).length ix.maxEntriesPerNode)
  else if ix.maxEntriesPerNode ≤ (ix.incoming target).length then
    .error (.capacityExceeded (ix.incoming target).length ix.maxEntriesPerNode)
  else
    .ok { ix with
      outgoing := Function.update ix.outgoing source
        (insertEntry search ⟨edgeId, target, label, validFrom, validTo, txFrom, txTo⟩
          (ix.outgoing source))
      incoming := Function.update ix.incoming target
        (insertEntry search ⟨edgeId, source, label, validFrom, validTo, txFrom, txTo⟩
          (ix.incoming target)) }

/-- The entries a query looks at: from the last one that starts by the queried time backwards,
until one has ended by it. The ordered list makes the partition point the end of the first stretch
of such entries. -/
def candidates (entries : List TemporalAdjacencyEntry) (validTime : Timestamp) :
    List TemporalAdjacencyEntry :=
  (entries.takeWhile fun x => x.validFrom ≤ validTime).reverse.takeWhile fun x =>
    validTime < x.validTo

/-- The edges of the candidates that pass the filter, each once. -/
def queryAtTime (keep : TemporalAdjacencyEntry → Bool) (entries : List TemporalAdjacencyEntry)
    (validTime txTime : Timestamp) : List EdgeId :=
  (((candidates entries validTime).filter fun x => keep x && x.isValidAt validTime txTime).map
    (·.edgeId)).eraseDups

def getOutgoingAtTime (ix : TemporalAdjacencyIndex) (node : NodeId)
    (validTime txTime : Timestamp) : List EdgeId :=
  queryAtTime (fun _ => true) (ix.outgoing node) validTime txTime

def getIncomingAtTime (ix : TemporalAdjacencyIndex) (node : NodeId)
    (validTime txTime : Timestamp) : List EdgeId :=
  queryAtTime (fun _ => true) (ix.incoming node) validTime txTime

def getOutgoingWithLabelAtTime (ix : TemporalAdjacencyIndex) (node : NodeId)
    (label : InternedString) (validTime txTime : Timestamp) : List EdgeId :=
  queryAtTime (fun x => x.label = label) (ix.outgoing node) validTime txTime

inductive Call where
  | insertEdge (edgeId : EdgeId) (source target : NodeId) (label : InternedString)
      (validFrom validTo txFrom txTo : Timestamp)
  | closeEdgeTransactionTime (edgeId : EdgeId) (source target : NodeId) (txEnd : Timestamp)
  | closeEdgeTransactionTimeOf (edgeId : EdgeId) (source target : NodeId)
      (validFrom txFrom txEnd : Timestamp)

/-- A failed insert leaves the index as it was. -/
def call (search : BinarySearch) (ix : TemporalAdjacencyIndex) : Call → TemporalAdjacencyIndex
  | .insertEdge edgeId source target label validFrom validTo txFrom txTo =>
    match ix.insertEdge search edgeId source target label validFrom validTo txFrom txTo with
    | .ok ix' => ix'
    | .error _ => ix
  | .closeEdgeTransactionTime edgeId source target txEnd =>
    ix.closeEdgeTransactionTime edgeId source target txEnd
  | .closeEdgeTransactionTimeOf edgeId source target validFrom txFrom txEnd =>
    ix.closeEdgeTransactionTimeOf edgeId source target validFrom txFrom txEnd

def calls (search : BinarySearch) (ix : TemporalAdjacencyIndex) (cs : List Call) :
    TemporalAdjacencyIndex :=
  cs.foldl (call search) ix

/-! ### The order of the entries -/

def Ordered (entries : List TemporalAdjacencyEntry) : Prop :=
  (entries.map (·.validFrom)).Pairwise (· ≤ ·)

lemma map_validFrom_replaceLast {p : TemporalAdjacencyEntry → Bool} {txEnd : Timestamp}
    (entries : List TemporalAdjacencyEntry) :
    (replaceLast p (fun x => { x with txTo := txEnd }) entries).map (·.validFrom) =
      entries.map (·.validFrom) := by
  induction entries with
  | nil => rfl
  | cons x xs ih =>
    unfold replaceLast
    split
    · rw [map_cons, map_cons, ih]
    · split
      · rfl
      · rfl

lemma map_validFrom_closeEntryOf {edgeId : EdgeId} (entries : List TemporalAdjacencyEntry) :
    (closeEntryOf edgeId validFrom txFrom txEnd entries).map (·.validFrom) =
      entries.map (·.validFrom) := by
  unfold closeEntryOf
  dsimp only
  split
  · exact map_validFrom_replaceLast entries
  · exact map_validFrom_replaceLast entries

variable {entries : List TemporalAdjacencyEntry}

lemma ordered_closeEntryOf {edgeId : EdgeId} (h : Ordered entries) :
    Ordered (closeEntryOf edgeId validFrom txFrom txEnd entries) := by
  unfold Ordered
  rw [map_validFrom_closeEntryOf]
  exact h

variable {x : TemporalAdjacencyEntry}

lemma ordered_insertEntry (search : BinarySearch) (h : Ordered entries) :
    Ordered (insertEntry search x entries) := by
  unfold Ordered insertEntry
  rw [map_append, map_cons, map_take, map_drop]
  have hsplit := take_append_drop
    (search.position (entries.map (·.validFrom)) x.validFrom) (entries.map (·.validFrom))
  have hpair := h
  unfold Ordered at hpair
  rw [← hsplit, pairwise_append] at hpair
  obtain ⟨htake, hdrop, hcross⟩ := hpair
  refine pairwise_append.mpr ⟨htake, pairwise_cons.mpr ⟨?_, hdrop⟩, ?_⟩
  · exact search.after _ h
  · intro a ha b hb
    obtain rfl | hb := mem_cons.mp hb
    · exact search.before _ h a ha
    · exact hcross a ha b hb

def Sorted (ix : TemporalAdjacencyIndex) : Prop :=
  ∀ node, Ordered (ix.outgoing node) ∧ Ordered (ix.incoming node)

lemma ordered_update {f : NodeId → List TemporalAdjacencyEntry} (h : ∀ n, Ordered (f n))
    {node : NodeId} (he : Ordered entries) (n : NodeId) : Ordered (update f node entries n) := by
  by_cases hn : n = node
  · rw [hn, update_self]
    exact he
  · rw [update_of_ne hn]
    exact h n

variable {ix : TemporalAdjacencyIndex}

lemma sorted_closeEdgeTransactionTimeOf (h : ix.Sorted)
    (edgeId : EdgeId) (source target : NodeId) (validFrom txFrom txEnd : Timestamp) :
    (ix.closeEdgeTransactionTimeOf edgeId source target validFrom txFrom txEnd).Sorted :=
  fun n => ⟨ordered_update (fun n => (h n).1) (ordered_closeEntryOf (h source).1) n,
    ordered_update (fun n => (h n).2) (ordered_closeEntryOf (h target).2) n⟩

lemma sorted_call (search : BinarySearch) (h : ix.Sorted)
    (c : Call) : (ix.call search c).Sorted := by
  have hout : ∀ n, Ordered (ix.outgoing n) := fun n => (h n).1
  have hin : ∀ n, Ordered (ix.incoming n) := fun n => (h n).2
  cases c with
  | insertEdge edgeId source target label validFrom validTo txFrom txTo =>
    simp only [call, insertEdge]
    split
    · rename_i ix' hok
      split at hok
      · cases hok
      split at hok
      · cases hok
      cases hok
      exact fun n => ⟨ordered_update hout (ordered_insertEntry search (hout source)) n,
        ordered_update hin (ordered_insertEntry search (hin target)) n⟩
    · exact h
  | closeEdgeTransactionTime edgeId source target txEnd =>
    refine fun n => ⟨ordered_update hout ?_ n, ordered_update hin ?_ n⟩
    · unfold Ordered
      rw [map_validFrom_replaceLast]
      exact hout source
    · unfold Ordered
      rw [map_validFrom_replaceLast]
      exact hin target
  | closeEdgeTransactionTimeOf edgeId source target validFrom txFrom txEnd =>
    exact sorted_closeEdgeTransactionTimeOf h edgeId source target validFrom txFrom txEnd

lemma sorted_calls (search : BinarySearch) (h : ix.Sorted)
    (cs : List Call) : (ix.calls search cs).Sorted := by
  induction cs generalizing ix with
  | nil => exact h
  | cons c cs ih => exact ih (sorted_call search h c)

lemma sorted_new (maxEntriesPerNode : ℕ) : (new maxEntriesPerNode).Sorted :=
  fun _ => ⟨List.Pairwise.nil, List.Pairwise.nil⟩

/-! ### What a query returns -/

/-- A query returns the edges that have a matching entry, and no other edge. -/
def Exact (keep : TemporalAdjacencyEntry → Bool) (entries : List TemporalAdjacencyEntry)
    (validTime txTime : Timestamp) (result : List EdgeId) : Prop :=
  ∀ edgeId, edgeId ∈ result ↔
    ∃ x ∈ entries, x.edgeId = edgeId ∧ keep x = true ∧ x.isValidAt validTime txTime = true

/-- Every edge with a matching entry has one behind which no entry that starts by the queried time
has ended by it. -/
def Unhidden (keep : TemporalAdjacencyEntry → Bool) (entries : List TemporalAdjacencyEntry)
    (validTime txTime : Timestamp) : Prop :=
  ∀ x ∈ entries, keep x = true → x.isValidAt validTime txTime = true →
    ∃ before y after, entries = before ++ y :: after ∧ y.edgeId = x.edgeId ∧ keep y = true ∧
      y.isValidAt validTime txTime = true ∧
      ∀ z ∈ after, z.validFrom ≤ validTime → validTime < z.validTo

lemma isValidAt_iff {v s : Timestamp} :
    x.isValidAt v s = true ↔ x.validFrom ≤ v ∧ v < x.validTo ∧ x.txFrom ≤ s ∧ s < x.txTo := by
  simp [isValidAt]

lemma exists_takeWhile_append (h : Ordered entries) (v : Timestamp) :
    ∃ later, entries = (entries.takeWhile fun x => x.validFrom ≤ v) ++ later ∧
      ∀ x ∈ later, v < x.validFrom := by
  refine ⟨entries.dropWhile fun x => x.validFrom ≤ v, takeWhile_append_dropWhile.symm, ?_⟩
  unfold Ordered at h
  induction entries with
  | nil => exact fun x hx => absurd hx not_mem_nil
  | cons y entries ih =>
    obtain ⟨hle, hrest⟩ := pairwise_cons.mp h
    by_cases hy : y.validFrom ≤ v
    · rw [dropWhile_cons_of_pos (by simpa using hy)]
      exact ih hrest
    · rw [dropWhile_cons_of_neg (by simpa using hy)]
      intro x hx
      obtain rfl | hx := mem_cons.mp hx
      · exact not_le.mp hy
      · exact (not_le.mp hy).trans_le (hle _ (mem_map_of_mem hx))

lemma mem_takeWhile_iff {α : Type} {p : α → Bool} {l : List α} {x : α} : x ∈ l.takeWhile p ↔
      ∃ before after, l = before ++ x :: after ∧ p x = true ∧ ∀ y ∈ before, p y = true := by
  induction l with
  | nil => simp
  | cons a l ih =>
    rw [takeWhile_cons]
    by_cases ha : p a = true
    · rw [if_pos ha, mem_cons, ih]
      constructor
      · rintro (rfl | ⟨before, after, rfl, hx, hbefore⟩)
        · exact ⟨[], l, rfl, ha, fun y hy => absurd hy not_mem_nil⟩
        · exact ⟨a :: before, after, rfl, hx, forall_mem_cons.mpr ⟨ha, hbefore⟩⟩
      · rintro ⟨before, after, heq, hx, hbefore⟩
        cases before with
        | nil => exact .inl (List.cons.inj heq).1.symm
        | cons b before =>
          exact .inr ⟨before, after, (List.cons.inj heq).2, hx, (forall_mem_cons.mp hbefore).2⟩
    · rw [if_neg ha]
      refine ⟨fun h => absurd h not_mem_nil, ?_⟩
      rintro ⟨before, after, heq, hx, hbefore⟩
      cases before with
      | nil => exact absurd ((List.cons.inj heq).1 ▸ hx) ha
      | cons b before =>
        exact absurd ((List.cons.inj heq).1 ▸ (forall_mem_cons.mp hbefore).1) ha

/-- An entry is looked at when it starts by `v`, has not ended, and no entry behind it that starts
by `v` has. -/
lemma mem_candidates (h : Ordered entries) {v : Timestamp} :
    x ∈ candidates entries v ↔ ∃ before after, entries = before ++ x :: after ∧
      x.validFrom ≤ v ∧ v < x.validTo ∧ ∀ z ∈ after, z.validFrom ≤ v → v < z.validTo := by
  obtain ⟨later, hsplit, hlater⟩ := exists_takeWhile_append h v
  have hstart : ∀ y ∈ entries.takeWhile fun x => x.validFrom ≤ v, y.validFrom ≤ v := by
    intro y hy
    obtain ⟨_, _, _, hy, _⟩ := mem_takeWhile_iff.mp hy
    exact of_decide_eq_true hy
  unfold candidates
  generalize (entries.takeWhile fun x => x.validFrom ≤ v) = started at hsplit hstart ⊢
  subst hsplit
  rw [mem_takeWhile_iff]
  constructor
  · rintro ⟨after, before, heq, hx, hafter⟩
    have hstarted : started = before.reverse ++ x :: after.reverse := by
      rw [← reverse_reverse started, heq]
      simp
    refine ⟨before.reverse, after.reverse ++ later, by rw [hstarted]; simp, ?_,
      of_decide_eq_true hx, ?_⟩
    · exact hstart x (by rw [hstarted]; simp)
    · intro z hz hzv
      obtain hz | hz := mem_append.mp hz
      · exact of_decide_eq_true (hafter z (mem_reverse.mp hz))
      · exact absurd hzv (not_le.mpr (hlater z hz))
  · rintro ⟨before, after, heq, hxv, hx, hafter⟩
    have hnot : x ∉ later := fun hmem => absurd hxv (not_le.mpr (hlater x hmem))
    -- the entry is among those that have started, and so is what follows it there
    obtain ⟨rest, hstarted, rfl⟩ : ∃ rest, started = before ++ x :: rest ∧ after = rest ++ later := by
      obtain ⟨c, -, hlate⟩ | ⟨c, hstarted, hlate⟩ := append_eq_append_iff.mp heq
      · exact absurd (hlate ▸ mem_append_right c mem_cons_self) hnot
      · obtain ⟨-, hlate⟩ | ⟨rest, rfl, hafter⟩ := append_eq_cons_iff.mp hlate.symm
        · exact absurd (hlate ▸ mem_cons_self) hnot
        · exact ⟨rest, hstarted, hafter⟩
    refine ⟨rest.reverse, before.reverse, by rw [hstarted]; simp, decide_eq_true hx, ?_⟩
    intro y hy
    have hy := mem_reverse.mp hy
    refine decide_eq_true (hafter y (mem_append_left _ hy) (hstart y ?_))
    rw [hstarted]
    exact mem_append_right _ (mem_cons_of_mem _ hy)

/-- **A query is exact when no matching edge is hidden.** It never returns an edge without a
matching entry; it misses an edge exactly when each matching entry of the edge stands before one
that has ended. -/
theorem exact_iff_unhidden {keep : TemporalAdjacencyEntry → Bool}
    (h : Ordered entries) (v s : Timestamp) :
    Exact keep entries v s (queryAtTime keep entries v s) ↔ Unhidden keep entries v s := by
  have hresult : ∀ edgeId, edgeId ∈ queryAtTime keep entries v s ↔
      ∃ x ∈ candidates entries v, x.edgeId = edgeId ∧ keep x = true ∧ x.isValidAt v s = true := by
    intro edgeId
    simp only [queryAtTime, mem_eraseDups, mem_map, mem_filter, Bool.and_eq_true]
    constructor
    · rintro ⟨x, ⟨hx, hkeep, hvalid⟩, hid⟩
      exact ⟨x, hx, hid, hkeep, hvalid⟩
    · rintro ⟨x, hx, hid, hkeep, hvalid⟩
      exact ⟨x, ⟨hx, hkeep, hvalid⟩, hid⟩
  constructor
  · intro hexact x hx hkeep hvalid
    obtain ⟨y, hy, hid, hykeep, hyvalid⟩ :=
      (hresult x.edgeId).mp ((hexact x.edgeId).mpr ⟨x, hx, rfl, hkeep, hvalid⟩)
    obtain ⟨before, after, heq, -, -, hafter⟩ := (mem_candidates h).mp hy
    exact ⟨before, y, after, heq, hid, hykeep, hyvalid, hafter⟩
  · intro hunhidden edgeId
    rw [hresult]
    constructor
    · rintro ⟨x, hx, hid, hkeep, hvalid⟩
      obtain ⟨before, after, rfl, -⟩ := (mem_candidates h).mp hx
      exact ⟨x, mem_append_right _ mem_cons_self, hid, hkeep, hvalid⟩
    · rintro ⟨x, hx, rfl, hkeep, hvalid⟩
      obtain ⟨before, y, after, heq, hid, hykeep, hyvalid, hafter⟩ := hunhidden x hx hkeep hvalid
      have hy := isValidAt_iff.mp hyvalid
      exact ⟨y, (mem_candidates h).mpr ⟨before, after, heq, hy.1, hy.2.1, hafter⟩, hid, hykeep,
        hyvalid⟩

end TemporalAdjacencyIndex

end Aletheia

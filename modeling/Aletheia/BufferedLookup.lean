import Aletheia.CypherValues
import Aletheia.IndexRuns

/-!
# Property lookups inside a write transaction

`find_nodes_by_property` of a write transaction takes the committed matches that the transaction has
not written, and adds every buffered create or update that matches. `get_node` goes by the last
write of a node. The two agree as long as no write that matches is followed by another one of its
node.
-/

namespace Aletheia

open List

/-- The node has the label, and the property with the value. A name that was never interned is no
label and no key. -/
def Wanted (label key : Option InternedString) (value : PropertyValue)
    (nodeLabel : InternedString) (properties : PropertyMap) : Bool :=
  decide (label = some nodeLabel) &&
    key.any fun key => (properties.lookup key).any fun v => Cypher.valueEq v value

namespace CurrentIndexes

/-- `CurrentStorage::find_nodes_by_property`: by an equality index that covers the value, or by a
scan. -/
def findNodesByProperty (s : CurrentIndexes) (label key : Option InternedString)
    (value : PropertyValue) : List NodeId :=
  match label, key with
  | some l, some k =>
    match (valueKey value).filter fun _ => (l, k) ∈ s.propIndexEnabled with
    | some v => s.findNodesByPropertyIndexed l k v
    | none => (s.nodes.entries.filter fun e =>
        Wanted label key value e.2.label e.2.properties).map Sigma.fst
  | _, _ => []

variable {s : CurrentIndexes} {label key : Option InternedString} {value : PropertyValue}

lemma valueKey_eq_some_iff {v : ValueKey} (hvalue : valueKey value = some v) (x : PropertyValue) :
    valueKey x = some v ↔ Cypher.valueEq x value = true := by
  cases value <;> cases hvalue <;> cases x <;> simp [valueKey, Cypher.valueEq]

lemma findNodesByProperty_spec (h : s.BucketsMirror) :
    (s.findNodesByProperty label key value).Nodup ∧
      ∀ id, id ∈ s.findNodesByProperty label key value ↔
        ∃ n ∈ s.nodes.lookup id, Wanted label key value n.label n.properties := by
  unfold findNodesByProperty
  split
  next l k =>
    split
    next v hv =>
      obtain ⟨hvalue, hpair⟩ := Option.filter_eq_some_iff.mp hv
      obtain ⟨hnodup, hmem⟩ := h (l, k) (of_decide_eq_true hpair) v
      refine ⟨hnodup, fun id => (hmem id).trans (exists_congr fun n => and_congr_right fun _ => ?_)⟩
      rw [Wanted, Bool.and_eq_true, decide_eq_true_iff, Option.some_inj, Option.any_some, eq_comm,
        keyOf]
      refine and_congr_right fun _ => ?_
      cases n.properties.lookup k with
      | none => simp
      | some x => exact valueKey_eq_some_iff hvalue x
    next =>
      refine ⟨s.nodes.nodupKeys.sublist filter_sublist, fun id => ?_⟩
      simp only [mem_map, mem_filter, Sigma.exists, Option.mem_def]
      constructor
      · rintro ⟨_, n, ⟨hn, hwanted⟩, rfl⟩
        exact ⟨n, AList.mem_lookup_iff.mpr hn, hwanted⟩
      · rintro ⟨n, hn, hwanted⟩
        exact ⟨id, n, ⟨AList.mem_lookup_iff.mp hn, hwanted⟩, rfl⟩
  next hnone =>
    refine ⟨nodup_nil, fun id => ⟨(absurd · not_mem_nil), ?_⟩⟩
    rintro ⟨n, -, hwanted⟩
    rcases label with _ | l <;> rcases key with _ | k <;> simp [Wanted] at hwanted
    exact (hnone l k rfl rfl).elim

end CurrentIndexes

/-- `is_visible_with_embedded_ts`: data of transaction `0` is always visible. -/
def isVisible (snapshot : Timestamp) (active : List TxId) (m : VersionMetadata) : Bool :=
  m.createdByTx.val == 0 ||
    m.commitTimestamp.any fun ts => decide (ts < snapshot) && decide (m.createdByTx ∉ active)

namespace WriteTransaction

variable {w : EntityWrite NodeId Unit}

/-- The node of a buffered create or update that matches. -/
def bufferedMatch (label key : Option InternedString) (value : PropertyValue) :
    EntityWrite NodeId Unit → Option NodeId
  | .create k _ _ content | .update k _ _ content =>
    if Wanted label key value content.label content.properties then some k else none
  | .delete _ _ _ | .retract _ _ _ => none

/-- `WriteBuffer::has_modified_node`. -/
def hasModifiedNode (tx : WriteTransaction) (id : NodeId) : Bool :=
  (tx.writes NodeId Unit).any fun w => w.key = id

variable (tx : WriteTransaction) (s : CurrentIndexes) (active : List TxId)
  (label key : Option InternedString) (value : PropertyValue)

/-- The committed node, if the transaction's snapshot shows it. -/
def committedNode (id : NodeId) : Option (Entity Unit) :=
  (s.nodes.lookup id).filter fun n => isVisible tx.snapshotTimestamp active n.metadata

def getNode (id : NodeId) : Option (Entity Unit) :=
  (tx.bufferedEntity id).getD (tx.committedNode s active id)

def findNodesByProperty : List NodeId :=
  (s.findNodesByProperty label key value).filter
      (fun id => !tx.hasModifiedNode id && (tx.committedNode s active id).isSome) ++
    (tx.writes NodeId Unit).filterMap (bufferedMatch label key value)

/-- The lookup lists the nodes that `get_node` gives with the label and the value, each once. -/
def LookupExact : Prop :=
  (tx.findNodesByProperty s active label key value).Nodup ∧
    ∀ id, id ∈ tx.findNodesByProperty s active label key value ↔
      ∃ n ∈ tx.getNode s active id, Wanted label key value n.label n.properties

/-- A write that matches is the last one of its node. -/
def MatchesLast : Prop :=
  (tx.writes NodeId Unit).Pairwise fun w w' =>
    w'.key = w.key → bufferedMatch label key value w = none

variable {tx s active label key value} {id : NodeId}

lemma key_of_bufferedMatch (h : bufferedMatch label key value w = some id) : w.key = id := by
  cases w with
  | create k | update k => exact Option.some.inj (Option.ite_none_right_eq_some.mp h).2
  | delete k | retract k => cases h

/-- Along a list, taking `f` of every element lists the keys whose last element has one, each once,
exactly if `f` has nothing for the elements before the last of their key. -/
lemma filterMap_last_iff {α κ : Type} [DecidableEq κ] {key : α → κ} {f : α → Option κ}
    (hf : ∀ {a k}, f a = some k → key a = k) (l : List α) : ((l.filterMap f).Nodup ∧
        ∀ k ∈ l.filterMap f, ∃ a ∈ l.reverse.find? (fun a => key a = k), f a = some k) ↔
      l.Pairwise fun a b => key b = key a → f a = none := by
  induction l using List.reverseRecOn with
  | nil => simp
  | append_singleton l w ih =>
    have hearlier : (∀ a ∈ l, ∀ b ∈ [w], key b = key a → f a = none) ↔ key w ∉ l.filterMap f := by
      simp only [mem_singleton, forall_eq, mem_filterMap, not_exists, not_and]
      refine forall₂_congr fun a _ => ⟨fun h hsome => ?_, fun h heq => ?_⟩
      · cases (h (hf hsome).symm).symm.trans hsome
      · cases ha : f a with
        | none => rfl
        | some k => exact absurd (ha.trans (by rw [heq, hf ha])) h
    rw [pairwise_append, hearlier, ← ih, filterMap_append, reverse_append, nodup_append']
    simp only [reverse_singleton, singleton_append, List.find?_cons, mem_append, pairwise_singleton,
      true_and, mem_filterMap (l := [w]), mem_singleton, exists_eq_left, disjoint_left]
    constructor
    · rintro ⟨⟨hnodup, -, hdisjoint⟩, hlast⟩
      have hnot : key w ∉ l.filterMap f := by
        intro hmem
        obtain ⟨a, ha, hfa⟩ := hlast _ (.inl hmem)
        simp only [decide_true, Option.mem_some] at ha
        exact hdisjoint hmem (ha ▸ hfa)
      refine ⟨⟨hnodup, fun k hk => ?_⟩, hnot⟩
      have hne : key w ≠ k := fun h => hnot (h ▸ hk)
      simpa [hne] using hlast k (.inl hk)
    · rintro ⟨⟨hnodup, hlast⟩, hnot⟩
      refine ⟨⟨hnodup, ?_, fun k hk hw => hnot (hf hw ▸ hk)⟩, ?_⟩
      · cases hw : f w <;> simp [hw]
      · rintro k (hk | hw)
        · have hne : key w ≠ k := fun h => hnot (h ▸ hk)
          simpa [hne] using hlast k hk
        · exact ⟨w, by simp [hf hw], hw⟩

lemma hasModifiedNode_eq : tx.hasModifiedNode id = (tx.getWrite Unit id).isSome := by
  rw [Bool.eq_iff_iff, hasModifiedNode, getWrite, List.find?_isSome]
  simp

/-- A node the transaction has written goes by its last write. -/
lemma wanted_of_getWrite (hw : tx.getWrite Unit id = some w) :
    (∃ n ∈ tx.getNode s active id, Wanted label key value n.label n.properties) ↔
      bufferedMatch label key value w = some id := by
  have hkey : w.key = id := by simpa using List.find?_some hw
  unfold getNode bufferedEntity
  rw [hw]
  cases w with
  | create k vid vf content | update k vid vf content =>
    cases hkey
    simp [EntityStore.pendingEntity, bufferedMatch, EntityWrite.key]
  | delete k | retract k => simp [bufferedMatch]

lemma mem_committed_iff (h : s.BucketsMirror) (hw : tx.getWrite Unit id = none) :
    id ∈ (s.findNodesByProperty label key value).filter
        (fun id => !tx.hasModifiedNode id && (tx.committedNode s active id).isSome) ↔
      ∃ n ∈ tx.getNode s active id, Wanted label key value n.label n.properties := by
  unfold getNode bufferedEntity
  rw [mem_filter, (CurrentIndexes.findNodesByProperty_spec h).2, hasModifiedNode_eq, hw]
  unfold committedNode
  cases s.nodes.lookup id with
  | none => simp
  | some n => cases hvisible : isVisible tx.snapshotTimestamp active n.metadata <;> simp [hvisible]

lemma lookupExact_iff_last (h : s.BucketsMirror) : tx.LookupExact s active label key value ↔
      ((tx.writes NodeId Unit).filterMap (bufferedMatch label key value)).Nodup ∧
        ∀ id ∈ (tx.writes NodeId Unit).filterMap (bufferedMatch label key value),
          ∃ w ∈ tx.getWrite Unit id, bufferedMatch label key value w = some id := by
  have hmodified : ∀ id ∈ (tx.writes NodeId Unit).filterMap (bufferedMatch label key value),
      (tx.getWrite Unit id).isSome := by
    intro id hid
    obtain ⟨w, hw, hmatch⟩ := mem_filterMap.mp hid
    rw [← hasModifiedNode_eq, hasModifiedNode, any_eq_true]
    exact ⟨w, hw, by simp [key_of_bufferedMatch hmatch]⟩
  unfold LookupExact findNodesByProperty
  constructor
  · rintro ⟨hnodup, hmem⟩
    refine ⟨(nodup_append'.mp hnodup).2.1, fun id hid => ?_⟩
    obtain ⟨w, hw⟩ := Option.isSome_iff_exists.mp (hmodified id hid)
    exact ⟨w, hw, (wanted_of_getWrite hw).mp ((hmem id).mp (mem_append_right _ hid))⟩
  · rintro ⟨hnodup, hlast⟩
    refine ⟨nodup_append'.mpr
      ⟨(CurrentIndexes.findNodesByProperty_spec h).1.filter _, hnodup, fun id hid hid' => ?_⟩,
      fun id => mem_append.trans ?_⟩
    · have := (mem_filter.mp hid).2
      rw [hasModifiedNode_eq, hmodified id hid'] at this
      cases this
    · cases hw : tx.getWrite Unit id with
      | none =>
        refine (or_iff_left fun hid => ?_).trans (mem_committed_iff h hw)
        have := hmodified id hid
        rw [hw] at this
        cases this
      | some w =>
        rw [wanted_of_getWrite hw, mem_filter, hasModifiedNode_eq, hw]
        simp only [Option.isSome_some, Bool.not_true, Bool.false_and, Bool.false_eq_true, and_false,
          false_or]
        constructor
        · intro hid
          obtain ⟨w', hw', hmatch⟩ := hlast id hid
          cases hw.symm.trans hw'
          exact hmatch
        · intro hmatch
          have hmem := mem_reverse.mp (mem_of_find?_eq_some hw)
          exact mem_filterMap.mpr ⟨w, hmem, hmatch⟩

/-- **Reading its own writes**: after every run of operations on current storage, the lookup agrees
with `get_node` exactly when no write that matches is followed by another one of its node. -/
theorem lookupExact_iff (nsKey : InternedString) (ops : List CurrentIndexes.Op)
    (tx : WriteTransaction) (active : List TxId) (label key : Option InternedString)
    (value : PropertyValue) :
    tx.LookupExact (ops.foldl (CurrentIndexes.exec nsKey) .new) active label key value ↔
      tx.MatchesLast label key value :=
  (lookupExact_iff_last (CurrentIndexes.buckets_foldl nsKey ops)).trans
    (filterMap_last_iff key_of_bufferedMatch _)

/-- A transaction with these node writes, on property `1` of a node with label `0`. -/
def buffered (writes : List (EntityWrite NodeId Unit)) : WriteTransaction :=
  ⟨⟨1⟩, ⟨0, 0⟩, .ofWallclock 0, writes.map .node, []⟩

def createWith (value : PropertyValue) : EntityWrite NodeId Unit :=
  .create ⟨0⟩ (.new 0) (.ofWallclock 0) ⟨0, (∅ : PropertyMap).insert 1 value, (), none⟩

def updateWith (value : PropertyValue) : EntityWrite NodeId Unit :=
  .update ⟨0⟩ (.new 1) (.ofWallclock 0) ⟨0, (∅ : PropertyMap).insert 1 value, (), none⟩

/-- A node that is created with a value is found under it after an update to another one, found twice
after an update to the same one, and found after its deletion. -/
theorem lookup_not_exact :
    (buffered [createWith (.int 1), updateWith (.int 2)]).findNodesByProperty .new [] (some 0)
      (some 1) (.int 1) = [⟨0⟩] ∧
    ((buffered [createWith (.int 1), updateWith (.int 2)]).getNode .new [] ⟨0⟩).any
      (fun n => Wanted (some 0) (some 1) (.int 1) n.label n.properties) = false ∧
    (buffered [createWith (.int 1), updateWith (.int 1)]).findNodesByProperty .new [] (some 0)
      (some 1) (.int 1) = [⟨0⟩, ⟨0⟩] ∧
    (buffered [createWith (.int 1), .delete ⟨0⟩ ⟨⟨0, 0⟩, by decide⟩ none]).findNodesByProperty .new []
      (some 0) (some 1) (.int 1) = [⟨0⟩] ∧
    ((buffered [createWith (.int 1), .delete ⟨0⟩ ⟨⟨0, 0⟩, by decide⟩ none]).getNode .new []
      ⟨0⟩).isNone := by
  refine ⟨?_, ?_, ?_, ?_, ?_⟩ <;> decide +kernel

end WriteTransaction

end Aletheia

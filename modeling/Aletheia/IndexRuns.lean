import Aletheia.IndexMirror
import Aletheia.Machine

/-!
# Which operations keep the mirror

For each operation the condition under which every derived structure stays the projection of the
maps, in both directions, and from it what the readers return after any run.
-/

namespace Aletheia.CurrentIndexes

open Function List AList

variable {nsKey : InternedString} {s : CurrentIndexes} {a : RestingAdjacency}
  {label : InternedString}

/-- A bucket of an enabled pair lists the nodes with its label and value, each once. -/
def BucketsMirror (s : CurrentIndexes) : Prop :=
  ∀ pair ∈ s.propIndexEnabled, ∀ v, (s.propIndex pair v).Nodup ∧
    ∀ id, id ∈ s.propIndex pair v ↔ Holds (s.nodes.lookup id) pair v

/-! ### Nodes -/

section Nodes

variable {id : NodeId} {node : Entity Unit}

variable (h : ∀ u, s.nodeHeaders.lookup u = (s.nodes.lookup u).map (·.label))

include h

lemma headers_insert (u : NodeId) : (s.nodeHeaders.insert id node.label).lookup u =
      ((s.nodes.insert id node).lookup u).map (·.label) := by
  by_cases hu : u = id
  · subst hu
    rw [lookup_insert, lookup_insert, Option.map_some]
  · rw [lookup_insert_ne hu, lookup_insert_ne hu]
    exact h u

lemma headers_erase (u : NodeId) : (s.nodeHeaders.erase id).lookup u =
      ((s.nodes.erase id).lookup u).map (·.label) := by
  by_cases hu : u = id
  · subst hu
    rw [lookup_erase, lookup_erase, Option.map_none]
  · rw [lookup_erase_ne hu, lookup_erase_ne hu]
    exact h u

omit h

lemma buckets_insertNode (h : s.BucketsMirror) (hnodup : s.propIndexEnabled.Nodup) :
    (s.insertNode nsKey id node).BucketsMirror := by
  intro pair hpair v
  change pair ∈ s.propIndexEnabled at hpair
  have hfold := foldl_pairs (g := reindexPair id (s.nodes.lookup id) node)
    (fun _ _ _ hne => reindexPair_of_ne hne) (fun _ _ _ heq => reindexPair_congr heq) hnodup
    s.propIndex pair
  rw [if_pos hpair] at hfold
  unfold insertNode
  dsimp only
  rw [hfold]
  refine ⟨nodup_reindexPair (fun w => (h pair hpair w).1) v, fun u => ?_⟩
  rw [mem_reindexPair fun w => (h pair hpair w).2 id]
  split
  · rename_i hu
    rw [hu, lookup_insert]
  · rename_i hu
    rw [lookup_insert_ne hu]
    exact (h pair hpair v).2 u

lemma mirrors_insertNode (h : Mirrors nsKey s) (hnodup : s.propIndexEnabled.Nodup) :
    Mirrors nsKey (s.insertNode nsKey id node) ↔ Kept nsKey s (.insertNode id node) := by
  constructor
  · intro h' old hold
    have hmem : id ∈ s.nsNodes (namespaceOf nsKey old.properties) :=
      (h.nsNodes.mem _ _).mpr ⟨old, hold, rfl⟩
    -- the node is still a member of its old namespace
    have hmem' : id ∈ (s.insertNode nsKey id node).nsNodes (namespaceOf nsKey old.properties) := by
      unfold insertNode
      dsimp only
      by_cases hns : namespaceOf nsKey old.properties = namespaceOf nsKey node.properties
      · rw [hns, update_self]
        exact mem_insert_self
      · rw [update_of_ne hns]
        exact hmem
    obtain ⟨n, hn, hns⟩ := (h'.nsNodes.mem _ _).mp hmem'
    change (s.nodes.insert id node).lookup id = some n at hn
    rw [lookup_insert] at hn
    cases hn
    exact hns.symm
  · intro hkept
    exact ⟨headers_insert h.headers, h.nsNodes.insert hkept, h.nsEdges,
      buckets_insertNode h.buckets hnodup, h.outgoing, h.incoming⟩

lemma buckets_removeNode (h : s.BucketsMirror) (hnodup : s.propIndexEnabled.Nodup) :
    (s.removeNode nsKey id).BucketsMirror := by
  unfold removeNode
  cases hid : s.nodes.lookup id with
  | none => exact h
  | some node =>
    intro pair hpair v
    have hfold := foldl_pairs (g := unindexPair id node)
      (fun _ _ _ hne => unindexPair_of_ne hne) (fun _ _ _ heq => unindexPair_congr heq) hnodup
      s.propIndex pair
    change pair ∈ s.propIndexEnabled at hpair
    rw [if_pos hpair] at hfold
    dsimp only
    rw [hfold]
    refine ⟨nodup_unindexPair (fun w => (h pair hpair w).1) v, fun u => ?_⟩
    rw [mem_unindexPair fun w => hid ▸ (h pair hpair w).2 id]
    by_cases hu : u = id
    · subst hu
      rw [lookup_erase]
      simp only [ne_eq, not_true_eq_false, false_and, not_holds_none]
    · rw [lookup_erase_ne hu, (h pair hpair v).2 u]
      exact and_iff_right hu

lemma mirrors_removeNode (h : Mirrors nsKey s) (hnodup : s.propIndexEnabled.Nodup) :
    Mirrors nsKey (s.removeNode nsKey id) := by
  have hbuckets : (s.removeNode nsKey id).BucketsMirror := buckets_removeNode h.buckets hnodup
  unfold removeNode at hbuckets ⊢
  cases hid : s.nodes.lookup id with
  | none => exact h
  | some node =>
    rw [hid] at hbuckets
    exact ⟨headers_erase h.headers, h.nsNodes.remove hid, h.nsEdges, hbuckets, h.outgoing,
      h.incoming⟩

end Nodes

/-! ### Edges -/

section Edges

variable {id : EdgeId} {edge old : Entity Endpoints}

lemma mirrors_replaceEdge (h : Mirrors nsKey s) (hold : s.edges.lookup id = some old) :
    Mirrors nsKey { s with edges := s.edges.insert id edge } ↔
      old.label = edge.label ∧ old.ends = edge.ends ∧
        namespaceOf nsKey old.properties = namespaceOf nsKey edge.properties := by
  constructor
  · intro h'
    have hentry : outEntry id old = outEntry id edge := by
      obtain ⟨n, hn, hout⟩ := (h'.outgoing.mem (outEntry id old)).mp
        ((h.outgoing.mem _).mpr ⟨old, hold, rfl⟩)
      change (s.edges.insert id edge).lookup id = some n at hn
      rw [lookup_insert] at hn
      cases hn
      exact hout
    obtain ⟨n, hn, hns⟩ := (h'.nsEdges.mem _ id).mp ((h.nsEdges.mem _ id).mpr ⟨old, hold, rfl⟩)
    change (s.edges.insert id edge).lookup id = some n at hn
    rw [lookup_insert] at hn
    cases hn
    simp only [outEntry, Edge.mk.injEq, true_and] at hentry
    obtain ⟨hsource, htarget, hlabel⟩ := hentry
    refine ⟨hlabel, ?_, hns.symm⟩
    generalize old.ends = x at hsource htarget ⊢
    generalize edge.ends = y at hsource htarget ⊢
    cases x
    cases y
    cases hsource
    cases htarget
    rfl
  · rintro ⟨hlabel, hends, hns⟩
    have hout : outEntry id old = outEntry id edge := by rw [outEntry, outEntry, hlabel, hends]
    have hin : inEntry id old = inEntry id edge := by rw [inEntry, inEntry, hlabel, hends]
    exact ⟨h.headers, h.nsNodes, h.nsEdges.replace hold hns, h.buckets,
      h.outgoing.replace hold hout, h.incoming.replace hold hin⟩

lemma not_mem_entries {e e' : Edge} (h : e.edgeId ∈ a.tombstones) : e ∉ (a.insert e').entries := by
  unfold RestingAdjacency.entries RestingAdjacency.insert
  rw [mem_filter, decide_eq_true_iff]
  exact fun hmem => hmem.2 h

lemma mirrors_insertEdge (h : Mirrors nsKey s) :
    Mirrors nsKey (s.insertEdge nsKey id edge) ↔ Kept nsKey s (.insertEdge id edge) := by
  unfold insertEdge Kept
  cases hid : s.edges.lookup id with
  | some old =>
    dsimp only
    rw [mirrors_replaceEdge h hid]
    simp only [hid, Option.mem_def, Option.some.injEq, forall_eq', reduceCtorEq, false_imp_iff,
      and_true]
  | none =>
    dsimp only
    simp only [hid, Option.mem_def, reduceCtorEq, false_imp_iff, implies_true, true_and,
      true_imp_iff]
    constructor
    · intro h'
      have hself : (s.edges.insert id edge).lookup id = some edge := lookup_insert _
      constructor
      · intro hdeleted
        exact not_mem_entries hdeleted ((h'.outgoing.mem (outEntry id edge)).mpr ⟨edge, hself, rfl⟩)
      · intro hdeleted
        exact not_mem_entries hdeleted ((h'.incoming.mem (inEntry id edge)).mpr ⟨edge, hself, rfl⟩)
    · rintro ⟨hout, hin⟩
      refine ⟨h.headers, h.nsNodes, h.nsEdges.insert ?_, h.buckets,
        h.outgoing.insert (fun _ _ => rfl) hid hout, h.incoming.insert (fun _ _ => rfl) hid hin⟩
      intro old hold
      rw [hid] at hold
      cases hold

lemma mirrors_removeEdge (h : Mirrors nsKey s) : Mirrors nsKey (s.removeEdge nsKey id) := by
  unfold removeEdge
  cases hid : s.edges.lookup id with
  | none => exact h
  | some edge =>
    exact ⟨h.headers, h.nsNodes, h.nsEdges.remove hid, h.buckets, h.outgoing.remove,
      h.incoming.remove⟩

end Edges

/-! ### Switching indexes on and off -/

section Pairs

variable {pair : IndexPair}

lemma buckets_enable (h : s.BucketsMirror) : (s.enablePropertyIndex pair).BucketsMirror := by
  unfold enablePropertyIndex
  split
  · exact h
  · intro p hp v
    change p ∈ s.propIndexEnabled ++ [pair] at hp
    change (s.nodes.entries.foldl (enter pair) (update s.propIndex pair fun _ => []) p v).Nodup ∧
      ∀ u, u ∈ s.nodes.entries.foldl (enter pair) (update s.propIndex pair fun _ => []) p v ↔
        Holds (s.nodes.lookup u) p v
    by_cases heq : p = pair
    · subst heq
      refine ⟨nodup_enter _ (fun w => ?_) v, fun u => ?_⟩
      · rw [update_self]
        exact nodup_nil
      · rw [mem_enter, update_self]
        simp only [not_mem_nil, false_or]
        constructor
        · rintro ⟨n, hn, hholds⟩
          rw [mem_lookup_iff.mpr hn]
          exact hholds
        · rintro ⟨n, hn, hholds⟩
          exact ⟨n, mem_lookup_iff.mp hn, n, rfl, hholds⟩
    · have hin : p ∈ s.propIndexEnabled := by
        obtain hin | hin := mem_append.mp hp
        · exact hin
        · exact absurd (mem_singleton.mp hin) heq
      rw [enter_of_ne heq, update_of_ne heq]
      exact h p hin v

lemma buckets_disable (h : s.BucketsMirror) : (s.disablePropertyIndex pair).BucketsMirror := by
  unfold disablePropertyIndex
  split
  · intro p hp v
    obtain ⟨hin, hne⟩ := mem_filter.mp hp
    dsimp only
    rw [update_of_ne (of_decide_eq_true hne)]
    exact h p hin v
  · exact h

lemma mirrors_enable (h : Mirrors nsKey s) : Mirrors nsKey (s.enablePropertyIndex pair) := by
  have hbuckets : (s.enablePropertyIndex pair).BucketsMirror := buckets_enable h.buckets
  unfold enablePropertyIndex at hbuckets ⊢
  split_ifs at hbuckets ⊢ <;>
    exact ⟨h.headers, h.nsNodes, h.nsEdges, hbuckets, h.outgoing, h.incoming⟩

lemma mirrors_disable (h : Mirrors nsKey s) : Mirrors nsKey (s.disablePropertyIndex pair) := by
  have hbuckets : (s.disablePropertyIndex pair).BucketsMirror := buckets_disable h.buckets
  unfold disablePropertyIndex at hbuckets ⊢
  split_ifs at hbuckets ⊢ <;>
    exact ⟨h.headers, h.nsNodes, h.nsEdges, hbuckets, h.outgoing, h.incoming⟩

lemma nodup_enabled (hnodup : s.propIndexEnabled.Nodup) (op : Op) :
    (s.exec nsKey op).propIndexEnabled.Nodup := by
  cases op with
  | insertNode id node => exact hnodup
  | insertEdge id edge | removeNode id | removeEdge id =>
    simp only [exec, insertEdge, removeNode, removeEdge]
    split <;> exact hnodup
  | enablePropertyIndex pair =>
    simp only [exec, enablePropertyIndex]
    split
    · exact hnodup
    · rename_i hpair
      refine nodup_append.mpr ⟨hnodup, nodup_singleton _, ?_⟩
      rintro p hp q hq rfl
      exact hpair (mem_singleton.mp hq ▸ hp)
  | disablePropertyIndex pair =>
    simp only [exec, disablePropertyIndex]
    split
    · exact hnodup.filter _
    · exact hnodup
  | compactAdjacency => exact hnodup

/-- **The equality indexes after every run of operations.** -/
theorem buckets_foldl (nsKey : InternedString) (ops : List Op) :
    (ops.foldl (exec nsKey) new).BucketsMirror := by
  have hstep : ∀ s : CurrentIndexes, s.BucketsMirror → s.propIndexEnabled.Nodup →
      (ops.foldl (exec nsKey) s).BucketsMirror := by
    induction ops with
    | nil => exact fun s h _ => h
    | cons op ops ih =>
      intro s h hnodup
      refine ih _ ?_ (nodup_enabled hnodup op)
      cases op with
      | insertNode id node => exact buckets_insertNode h hnodup
      | removeNode id => exact buckets_removeNode h hnodup
      | enablePropertyIndex pair => exact buckets_enable h
      | disablePropertyIndex pair => exact buckets_disable h
      | insertEdge id edge | removeEdge id =>
        simp only [exec, insertEdge, removeEdge]
        split <;> exact h
      | compactAdjacency => exact h
  exact hstep new (fun pair hpair => (nomatch hpair)) nodup_nil

end Pairs

/-- **One operation.** -/
theorem mirrors_exec_iff (h : Mirrors nsKey s) (hnodup : s.propIndexEnabled.Nodup) (op : Op) :
    Mirrors nsKey (s.exec nsKey op) ↔ Kept nsKey s op := by
  cases op with
  | insertNode id node => exact mirrors_insertNode h hnodup
  | insertEdge id edge => exact mirrors_insertEdge h
  | removeNode id => exact iff_of_true (mirrors_removeNode h hnodup) trivial
  | removeEdge id => exact iff_of_true (mirrors_removeEdge h) trivial
  | enablePropertyIndex pair => exact iff_of_true (mirrors_enable h) trivial
  | disablePropertyIndex pair => exact iff_of_true (mirrors_disable h) trivial
  | compactAdjacency =>
    exact iff_of_true ⟨h.headers, h.nsNodes, h.nsEdges, h.buckets, h.outgoing.compact,
      h.incoming.compact⟩ trivial

/-! ### What the readers return -/

/-- The readers list exactly what the maps hold, each once. -/
structure ReadsMaps (s : CurrentIndexes) : Prop where
  find : ∀ label key value, (label, key) ∈ s.propIndexEnabled →
    (s.findNodesByPropertyIndexed label key value).Nodup ∧
    ∀ id, id ∈ s.findNodesByPropertyIndexed label key value ↔
      ∃ n, s.nodes.lookup id = some n ∧ n.label = label ∧ keyOf n key = some value
  byLabel : ∀ label, (s.filterNodesByLabel label).Nodup ∧
    ∀ id, id ∈ s.filterNodesByLabel label ↔ ∃ n, s.nodes.lookup id = some n ∧ n.label = label
  outgoing : ∀ source label, (s.getOutgoingWithLabel source label).Nodup ∧
    ∀ e, e ∈ s.getOutgoingWithLabel source label ↔ ∃ edge, s.edges.lookup e.edgeId = some edge ∧
      e = outEntry e.edgeId edge ∧ edge.ends.source = source ∧ edge.label = label
  incoming : ∀ target label, (s.getIncomingWithLabel target label).Nodup ∧
    ∀ e, e ∈ s.getIncomingWithLabel target label ↔ ∃ edge, s.edges.lookup e.edgeId = some edge ∧
      e = inEntry e.edgeId edge ∧ edge.ends.target = target ∧ edge.label = label

lemma mem_filterNodesByLabel {id : NodeId} :
    id ∈ s.filterNodesByLabel label ↔ s.nodeHeaders.lookup id = some label := by
  unfold filterNodesByLabel
  rw [mem_map]
  constructor
  · rintro ⟨⟨u, l⟩, hmem, rfl⟩
    obtain ⟨hentry, hl⟩ := mem_filter.mp hmem
    have hl : l = label := of_decide_eq_true hl
    rw [← hl]
    exact mem_lookup_iff.mpr hentry
  · intro hlookup
    exact ⟨⟨id, label⟩, mem_filter.mpr ⟨mem_lookup_iff.mp hlookup, by simp only [decide_true]⟩, rfl⟩

lemma nodup_filterNodesByLabel (label : InternedString) : (s.filterNodesByLabel label).Nodup := by
  unfold filterNodesByLabel
  exact s.nodeHeaders.nodupKeys.sublist filter_sublist

lemma mem_withLabel {node : NodeId} {e : Edge} :
    e ∈ (a.getAdjacency node).filter (fun e => e.label = label) ↔
      e ∈ a.entries ∧ e.source = node ∧ e.label = label := by
  rw [mem_filter, decide_eq_true_iff, RestingAdjacency.getAdjacency, entriesOf, mem_filter,
    decide_eq_true_iff, and_assoc]

lemma Lists.reads {edges : AList fun _ : EdgeId => Entity Endpoints}
    {entry : EdgeId → Entity Endpoints → Edge} {ends : Entity Endpoints → NodeId}
    (h : Lists edges entry a)
    (hentry : ∀ id edge, (entry id edge).source = ends edge ∧ (entry id edge).label = edge.label)
    (node : NodeId) (label : InternedString) :
    ((a.getAdjacency node).filter fun e => e.label = label).Nodup ∧
    ∀ e, e ∈ (a.getAdjacency node).filter (fun e => e.label = label) ↔
      ∃ edge, edges.lookup e.edgeId = some edge ∧ e = entry e.edgeId edge ∧ ends edge = node ∧
        edge.label = label := by
  refine ⟨(h.nodup.filter _).filter _, fun e => ?_⟩
  rw [mem_withLabel, h.mem]
  constructor
  · rintro ⟨⟨edge, hedge, he⟩, rfl, rfl⟩
    obtain ⟨hsource, hlabel⟩ := hentry e.edgeId edge
    rw [← he] at hsource hlabel
    exact ⟨edge, hedge, he, hsource.symm, hlabel.symm⟩
  · rintro ⟨edge, hedge, he, rfl, rfl⟩
    obtain ⟨hsource, hlabel⟩ := hentry e.edgeId edge
    rw [← he] at hsource hlabel
    exact ⟨⟨edge, hedge, he⟩, hsource, hlabel⟩

lemma Mirrors.readsMaps (h : Mirrors nsKey s) : ReadsMaps s := by
  refine ⟨?_, ?_, ?_, ?_⟩
  · intro label key value hpair
    exact h.buckets (label, key) hpair value
  · intro label
    refine ⟨nodup_filterNodesByLabel label, fun id => ?_⟩
    rw [mem_filterNodesByLabel, h.headers, Option.map_eq_some_iff]
  · exact h.outgoing.reads fun _ _ => ⟨rfl, rfl⟩
  · exact h.incoming.reads fun _ _ => ⟨rfl, rfl⟩

/-! ### Runs -/

def step (nsKey : InternedString) (s : CurrentIndexes) (op : Op) : Option CurrentIndexes :=
  some (s.exec nsKey op)

lemma mirrors_new : Mirrors nsKey new := by
  have hempty : ∀ entry, Lists (∅ : AList fun _ : EdgeId => Entity Endpoints) entry ⟨[], [], []⟩ := by
    refine fun entry => ⟨nodup_nil, fun e => ⟨fun he => (nomatch he), ?_⟩⟩
    rintro ⟨edge, hedge, -⟩
    cases hedge
  refine ⟨fun _ => rfl, ?_, ?_, fun pair hpair => (nomatch hpair), hempty _, hempty _⟩
  · refine ⟨fun _ => nodup_nil, fun ns id => ⟨fun hid => (nomatch hid), ?_⟩⟩
    rintro ⟨n, hn, -⟩
    cases hn
  · refine ⟨fun _ => nodup_nil, fun ns id => ⟨fun hid => (nomatch hid), ?_⟩⟩
    rintro ⟨n, hn, -⟩
    cases hn

/-- **The mirror.** After any run of operations that keep namespaces and entries, every derived
structure is the projection of the maps, and the next operation keeps it so exactly if it keeps them
too. -/
theorem mirrors_run (nsKey : InternedString) (ops : List Op) (s : CurrentIndexes)
    (hkept : Machine.Along (step nsKey) (Kept nsKey) new ops)
    (hrun : Machine.run (step nsKey) new ops = some s) :
    Mirrors nsKey s ∧ ReadsMaps s ∧
      ∀ op, Mirrors nsKey (s.exec nsKey op) ↔ Kept nsKey s op := by
  have hstep : ∀ (s : CurrentIndexes) (op : Op) (s' : CurrentIndexes),
      Mirrors nsKey s ∧ s.propIndexEnabled.Nodup → Kept nsKey s op →
      step nsKey s op = some s' → Mirrors nsKey s' ∧ s'.propIndexEnabled.Nodup := by
    rintro s op s' ⟨h, hnodup⟩ hop hs'
    cases hs'
    exact ⟨(mirrors_exec_iff h hnodup op).mpr hop, nodup_enabled hnodup op⟩
  obtain ⟨h, hnodup⟩ := Machine.invariant_run hstep ⟨mirrors_new, nodup_nil⟩ hkept hrun
  exact ⟨h, h.readsMaps, mirrors_exec_iff h hnodup⟩

/-! ### What the conditions exclude -/

def anEdge (label : InternedString) : Entity Endpoints :=
  ⟨label, ∅, ⟨⟨1⟩, ⟨2⟩⟩, .new 0, ⟨⟨0⟩, none⟩⟩

/-- A node in the namespace `name`, which is the value of property 0. -/
def aNode (name : String) : Entity Unit :=
  ⟨0, (∅ : PropertyMap).insert 0 (.string name), (), .new 0, ⟨⟨0⟩, none⟩⟩

def runOps (ops : List Op) : CurrentIndexes := ops.foldl (fun s op => s.exec 0 op) new

/-- An edge inserted again with another label is still listed under the first one. An edge that is
removed and inserted again is not listed at all. A node inserted again in another namespace is a
member of both. -/
theorem mirror_breaks :
    (runOps [.insertEdge ⟨0⟩ (anEdge 5), .insertEdge ⟨0⟩ (anEdge 6)]).getOutgoingWithLabel ⟨1⟩ 5 =
      [⟨⟨1⟩, ⟨2⟩, ⟨0⟩, 5⟩] ∧
    (runOps [.insertEdge ⟨0⟩ (anEdge 5), .insertEdge ⟨0⟩ (anEdge 6)]).getOutgoingWithLabel ⟨1⟩ 6 =
      [] ∧
    ((runOps [.insertEdge ⟨0⟩ (anEdge 5), .insertEdge ⟨0⟩ (anEdge 6)]).edges.lookup ⟨0⟩).map
      (·.label) = some 6 ∧
    (runOps [.insertEdge ⟨0⟩ (anEdge 5), .removeEdge ⟨0⟩,
      .insertEdge ⟨0⟩ (anEdge 5)]).getOutgoingWithLabel ⟨1⟩ 5 = [] ∧
    (runOps [.insertNode ⟨0⟩ (aNode "a"), .insertNode ⟨0⟩ (aNode "b")]).nsNodes ⟨"a"⟩ = [⟨0⟩] := by
  refine ⟨?_, ?_, ?_, ?_, ?_⟩
  · decide +kernel
  · decide +kernel
  · decide +kernel
  · decide +kernel
  · decide +kernel

/-- After an edge is inserted, inserting it once more with its label keeps the mirror. -/
theorem mirrors_run_edge :
    ∃ s, Machine.run (step 0) new [.insertEdge ⟨0⟩ (anEdge 5)] = some s ∧
      Mirrors 0 (s.exec 0 (.insertEdge ⟨0⟩ (anEdge 5))) := by
  refine ⟨_, rfl, ?_⟩
  have h := mirrors_run 0 [.insertEdge ⟨0⟩ (anEdge 5)] _ ?_ rfl
  · refine (h.2.2 (.insertEdge ⟨0⟩ (anEdge 5))).mpr ⟨?_, ?_⟩
    · intro old hold
      have hlookup : (new.exec 0 (.insertEdge ⟨0⟩ (anEdge 5))).edges.lookup ⟨0⟩ =
          some (anEdge 5) := rfl
      cases hlookup.symm.trans hold
      exact ⟨rfl, rfl, rfl⟩
    · intro hnone
      cases hnone
  · refine ⟨⟨fun old hold => (nomatch hold), fun _ => ⟨?_, ?_⟩⟩, trivial⟩
    · exact not_mem_nil
    · exact not_mem_nil

end Aletheia.CurrentIndexes

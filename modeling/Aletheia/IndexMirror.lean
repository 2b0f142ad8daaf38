import Aletheia.CurrentIndexes

/-!
# The indexes mirror the primary maps

An operation keeps every derived structure equal to the projection of the maps of nodes and edges
exactly if it does not move an existing entity to another namespace, does not change label or
endpoints of an existing edge, and does not bring back an edge id whose deletion is still pending.
-/

namespace Aletheia.CurrentIndexes

open Function List AList

/-! ### One bucket -/

section Buckets

variable {pair other : IndexPair} {value : Option ValueKey} {id u : NodeId} {b b' : Buckets}
  {v : ValueKey}

lemma bucketInsert_of_ne (hne : other ≠ pair) : bucketInsert pair value id b other = b other := by
  cases value with
  | none => rfl
  | some v => exact update_of_ne hne _ _

lemma bucketRemove_of_ne (hne : other ≠ pair) : bucketRemove pair value id b other = b other := by
  cases value with
  | none => rfl
  | some v => exact update_of_ne hne _ _

lemma bucketInsert_congr (h : b pair = b' pair) :
    bucketInsert pair value id b pair = bucketInsert pair value id b' pair := by
  cases value with
  | none => exact h
  | some v => rw [bucketInsert, bucketInsert, update_self, update_self, h]

lemma bucketRemove_congr (h : b pair = b' pair) :
    bucketRemove pair value id b pair = bucketRemove pair value id b' pair := by
  cases value with
  | none => exact h
  | some v => rw [bucketRemove, bucketRemove, update_self, update_self, h]

lemma mem_bucketInsert :
    u ∈ bucketInsert pair value id b pair v ↔ u ∈ b pair v ∨ value = some v ∧ u = id := by
  cases value with
  | none => simp only [bucketInsert, reduceCtorEq, false_and, or_false]
  | some w =>
    rw [bucketInsert, update_self]
    by_cases hv : v = w
    · subst hv
      rw [update_self, mem_insert_iff]
      simp only [true_and]
      exact or_comm
    · rw [update_of_ne hv]
      have hne : ¬some w = some v := fun h => hv (Option.some.inj h).symm
      simp only [hne, false_and, or_false]

lemma mem_bucketRemove :
    u ∈ bucketRemove pair value id b pair v ↔ u ∈ b pair v ∧ ¬(value = some v ∧ u = id) := by
  cases value with
  | none => simp only [bucketRemove, reduceCtorEq, false_and, not_false_eq_true, and_true]
  | some w =>
    rw [bucketRemove, update_self]
    by_cases hv : v = w
    · subst hv
      rw [update_self, mem_filter, decide_eq_true_iff]
      simp only [true_and]
    · rw [update_of_ne hv]
      have hne : ¬some w = some v := fun h => hv (Option.some.inj h).symm
      simp only [hne, false_and, not_false_eq_true, and_true]

lemma nodup_bucketInsert (h : ∀ v, (b pair v).Nodup) (v : ValueKey) :
    (bucketInsert pair value id b pair v).Nodup := by
  cases value with
  | none => exact h v
  | some w =>
    rw [bucketInsert, update_self]
    by_cases hv : v = w
    · subst hv
      rw [update_self]
      exact (h v).insert
    · rw [update_of_ne hv]
      exact h v

lemma nodup_bucketRemove (h : ∀ v, (b pair v).Nodup) (v : ValueKey) :
    (bucketRemove pair value id b pair v).Nodup := by
  cases value with
  | none => exact h v
  | some w =>
    rw [bucketRemove, update_self]
    by_cases hv : v = w
    · subst hv
      rw [update_self]
      exact (h v).filter _
    · rw [update_of_ne hv]
      exact h v

/-- Steps that each touch the buckets of their own pair, and see nothing else, act on a pair alone. -/
lemma foldl_pairs {g : Buckets → IndexPair → Buckets} (hother : ∀ b p q, q ≠ p → g b p q = b q)
    (hown : ∀ b b' p, b p = b' p → g b p p = g b' p p) {pairs : List IndexPair}
    (hnodup : pairs.Nodup) (b : Buckets) (p : IndexPair) :
    pairs.foldl g b p = if p ∈ pairs then g b p p else b p := by
  induction pairs generalizing b with
  | nil => rfl
  | cons q pairs ih =>
    obtain ⟨hq, hnodup⟩ := nodup_cons.mp hnodup
    rw [foldl_cons, ih hnodup]
    by_cases hp : p = q
    · subst hp
      rw [if_neg hq, if_pos mem_cons_self]
    · have hmem : p ∈ q :: pairs ↔ p ∈ pairs := by
        rw [mem_cons]
        exact or_iff_right hp
      rw [hother b q p hp]
      by_cases hin : p ∈ pairs
      · rw [if_pos hin, if_pos (hmem.mpr hin)]
        exact hown _ _ p (hother b q p hp)
      · rw [if_neg hin, if_neg (fun h => hin (hmem.mp h))]

end Buckets

/-! ### One node in one index -/

/-- The node has the label of the pair and `v` as the value of its property. -/
def Holds (node : Option (Entity Unit)) (pair : IndexPair) (v : ValueKey) : Prop :=
  ∃ n, node = some n ∧ n.label = pair.1 ∧ keyOf n pair.2 = some v

section Node

variable {pair : IndexPair} {id u : NodeId} {b : Buckets} {v : ValueKey}
  {old : Option (Entity Unit)} {new node : Entity Unit}

lemma holds_some : Holds (some node) pair v ↔ node.label = pair.1 ∧ keyOf node pair.2 = some v := by
  constructor
  · rintro ⟨n, hn, h⟩
    cases hn
    exact h
  · exact fun h => ⟨node, rfl, h⟩

lemma not_holds_none : ¬Holds none pair v := by
  rintro ⟨n, hn, -⟩
  cases hn

lemma holds_old : Holds old pair v ↔ (old.any fun n => pair.1 = n.label) = true ∧
    (old.bind fun n => keyOf n pair.2) = some v := by
  cases old with
  | none =>
    simp only [not_holds_none, Option.any_none, Bool.false_eq_true, false_and]
  | some n =>
    rw [holds_some, Option.any_some, decide_eq_true_iff, Option.bind_some]
    exact and_congr_left fun _ => eq_comm

lemma mem_reindexPair (hid : ∀ v, id ∈ b pair v ↔ Holds old pair v) :
    u ∈ reindexPair id old new b pair pair v ↔
      if u = id then Holds (some new) pair v else u ∈ b pair v := by
  have hold := hid v
  rw [holds_old] at hold
  have hnew : Holds (some new) pair v ↔ (decide (pair.1 = new.label)) = true ∧
      keyOf new pair.2 = some v := by
    rw [holds_some, decide_eq_true_iff]
    exact and_congr_left fun _ => eq_comm
  unfold reindexPair
  generalize (old.any fun n => decide (pair.1 = n.label)) = isOld at hold ⊢
  generalize decide (pair.1 = new.label) = isNew at hnew ⊢
  generalize (old.bind fun n => keyOf n pair.2) = oldKey at hold ⊢
  generalize keyOf new pair.2 = newKey at hnew ⊢
  cases isOld with
  | false =>
    simp only [Bool.false_eq_true, false_and, iff_false] at hold
    cases isNew with
    | false =>
      -- the pair is not about this node
      simp only [Bool.not_false, Bool.and_self, if_true]
      split
      · rename_i heq
        simp only [heq, hold, hnew, Bool.false_eq_true, false_and]
      · rfl
    | true =>
      simp only [Bool.not_false, Bool.not_true, Bool.and_false, Bool.false_and,
        Bool.false_eq_true, if_false]
      rw [mem_bucketInsert]
      split
      · rename_i heq
        simp only [heq, hold, hnew, false_or, true_and, and_true]
      · rename_i hne
        simp only [hne, and_false, or_false]
  | true =>
    cases isNew with
    | false =>
      simp only [Bool.not_true, Bool.false_and, Bool.and_false, Bool.false_eq_true, if_false,
        if_true]
      rw [mem_bucketRemove]
      split
      · rename_i heq
        simp only [heq, hold, hnew, true_and, and_true, Bool.false_eq_true, false_and, and_not_self]
      · rename_i hne
        simp only [hne, and_false, not_false_eq_true, and_true]
    | true =>
      simp only [Bool.not_true, Bool.and_self, Bool.false_eq_true, if_false, if_true]
      split
      · -- the value stays
        rename_i hsame
        split
        · rename_i heq
          rw [heq, hold, hnew, hsame]
        · rfl
      · rw [mem_bucketInsert, mem_bucketRemove]
        split
        · rename_i heq
          simp only [heq, hold, hnew, true_and, and_true, and_not_self, false_or]
        · rename_i hne
          simp only [hne, and_false, not_false_eq_true, and_true, or_false]

lemma reindexPair_of_ne {b : Buckets} {p q : IndexPair} (hne : q ≠ p) :
    reindexPair id old new b p q = b q := by
  unfold reindexPair
  split
  · rfl
  · split
    · split
      · rfl
      · rw [bucketInsert_of_ne hne, bucketRemove_of_ne hne]
    · split
      · exact bucketRemove_of_ne hne
      · exact bucketInsert_of_ne hne

lemma nodup_reindexPair (h : ∀ v, (b pair v).Nodup) (v : ValueKey) :
    (reindexPair id old new b pair pair v).Nodup := by
  unfold reindexPair
  split
  · exact h v
  · split
    · split
      · exact h v
      · exact nodup_bucketInsert (nodup_bucketRemove h) v
    · split
      · exact nodup_bucketRemove h v
      · exact nodup_bucketInsert h v

lemma reindexPair_congr {b b' : Buckets} (h : b pair = b' pair) :
    reindexPair id old new b pair pair = reindexPair id old new b' pair pair := by
  unfold reindexPair
  split
  · exact h
  · split
    · split
      · exact h
      · exact bucketInsert_congr (bucketRemove_congr h)
    · split
      · exact bucketRemove_congr h
      · exact bucketInsert_congr h

lemma unindexPair_of_ne {b : Buckets} {p q : IndexPair} (hne : q ≠ p) :
    unindexPair id node b p q = b q := by
  unfold unindexPair
  split
  · exact bucketRemove_of_ne hne
  · rfl

lemma unindexPair_congr {b b' : Buckets} (h : b pair = b' pair) :
    unindexPair id node b pair pair = unindexPair id node b' pair pair := by
  unfold unindexPair
  split
  · exact bucketRemove_congr h
  · exact h

lemma nodup_unindexPair (h : ∀ v, (b pair v).Nodup) (v : ValueKey) :
    (unindexPair id node b pair pair v).Nodup := by
  unfold unindexPair
  split
  · exact nodup_bucketRemove h v
  · exact h v

lemma mem_unindexPair (hid : ∀ v, id ∈ b pair v ↔ Holds (some node) pair v) :
    u ∈ unindexPair id node b pair pair v ↔ u ≠ id ∧ u ∈ b pair v := by
  have hold := hid v
  rw [holds_some] at hold
  unfold unindexPair
  by_cases hu : u = id
  · subst hu
    simp only [ne_eq, not_true_eq_false, false_and, iff_false]
    split
    · rename_i hlabel
      rw [mem_bucketRemove, hold]
      rintro ⟨⟨-, hkey⟩, hnot⟩
      exact hnot ⟨hkey, rfl⟩
    · rename_i hlabel
      rw [hold]
      exact fun h => hlabel h.1.symm
  · simp only [ne_eq, hu, not_false_eq_true, true_and]
    split
    · rw [mem_bucketRemove]
      simp only [hu, and_false, not_false_eq_true, and_true]
    · rfl

end Node

/-! ### The backfill -/

section Backfill

variable {pair : IndexPair}

/-- One node of the backfill of `enable_property_index`. -/
def enter (pair : IndexPair) (b : Buckets) (e : Sigma fun _ : NodeId => Entity Unit) : Buckets :=
  if e.2.label = pair.1 then bucketInsert pair (keyOf e.2 pair.2) e.1 b else b

lemma enter_of_ne {q : IndexPair} (hne : q ≠ pair) (b : Buckets)
    (es : List (Sigma fun _ : NodeId => Entity Unit)) : es.foldl (enter pair) b q = b q := by
  induction es generalizing b with
  | nil => rfl
  | cons e es ih =>
    rw [foldl_cons, ih]
    unfold enter
    split
    · exact bucketInsert_of_ne hne
    · rfl

lemma mem_enter {u : NodeId} {v : ValueKey} (b : Buckets)
    (es : List (Sigma fun _ : NodeId => Entity Unit)) : u ∈ es.foldl (enter pair) b pair v ↔
      u ∈ b pair v ∨ ∃ n, ⟨u, n⟩ ∈ es ∧ Holds (some n) pair v := by
  induction es generalizing b with
  | nil => simp only [foldl_nil, not_mem_nil, false_and, exists_false, or_false]
  | cons e es ih =>
    obtain ⟨id, node⟩ := e
    have hhead : u ∈ enter pair b ⟨id, node⟩ pair v ↔
        u ∈ b pair v ∨ u = id ∧ Holds (some node) pair v := by
      rw [enter, holds_some]
      split
      · rename_i hlabel
        rw [mem_bucketInsert]
        exact or_congr_right ⟨fun h => ⟨h.2, hlabel, h.1⟩, fun h => ⟨h.2.2, h.1⟩⟩
      · rename_i hlabel
        simp only [hlabel, false_and, and_false, or_false]
    rw [foldl_cons, ih, hhead, or_assoc]
    refine or_congr_right ⟨?_, ?_⟩
    · rintro (⟨rfl, hn⟩ | ⟨n, hn, hholds⟩)
      · exact ⟨node, mem_cons_self, hn⟩
      · exact ⟨n, mem_cons_of_mem _ hn, hholds⟩
    · rintro ⟨n, hn, hholds⟩
      obtain heq | hn := mem_cons.mp hn
      · cases heq
        exact .inl ⟨rfl, hholds⟩
      · exact .inr ⟨n, hn, hholds⟩

lemma nodup_enter {b : Buckets} (es : List (Sigma fun _ : NodeId => Entity Unit))
    (h : ∀ v, (b pair v).Nodup) (v : ValueKey) : (es.foldl (enter pair) b pair v).Nodup := by
  induction es generalizing b with
  | nil => exact h v
  | cons e es ih =>
    refine ih fun w => ?_
    unfold enter
    split
    · exact nodup_bucketInsert h w
    · exact h w

end Backfill

/-! ### The mirror -/

/-- The entries are those of the edges, each once. -/
structure Lists (edges : AList fun _ : EdgeId => Entity Endpoints)
    (entry : EdgeId → Entity Endpoints → Edge) (a : RestingAdjacency) : Prop where
  nodup : a.entries.Nodup
  mem : ∀ e, e ∈ a.entries ↔ ∃ edge, edges.lookup e.edgeId = some edge ∧ e = entry e.edgeId edge

/-- The members are those whose properties name the namespace, each once. -/
structure Members {K X : Type} [DecidableEq K] (nsKey : InternedString)
    (entities : AList fun _ : K => Entity X) (members : Namespace → List K) : Prop where
  nodup : ∀ ns, (members ns).Nodup
  mem : ∀ ns id, id ∈ members ns ↔
    ∃ n, entities.lookup id = some n ∧ namespaceOf nsKey n.properties = ns

/-- Every derived structure is the projection of the primary maps. -/
structure Mirrors (nsKey : InternedString) (s : CurrentIndexes) : Prop where
  headers : ∀ id, s.nodeHeaders.lookup id = (s.nodes.lookup id).map (·.label)
  nsNodes : Members nsKey s.nodes s.nsNodes
  nsEdges : Members nsKey s.edges s.nsEdges
  buckets : ∀ pair ∈ s.propIndexEnabled, ∀ v, (s.propIndex pair v).Nodup ∧
    ∀ id, id ∈ s.propIndex pair v ↔ Holds (s.nodes.lookup id) pair v
  outgoing : Lists s.edges outEntry s.outgoing
  incoming : Lists s.edges inEntry s.incoming

/-- An operation that leaves namespaces, and label and endpoints of edges, as they are, and does not
bring back an edge id with a pending deletion. -/
def Kept (nsKey : InternedString) (s : CurrentIndexes) : Op → Prop
  | .insertNode id node => ∀ old ∈ s.nodes.lookup id,
      namespaceOf nsKey old.properties = namespaceOf nsKey node.properties
  | .insertEdge id edge =>
    (∀ old ∈ s.edges.lookup id, old.label = edge.label ∧ old.ends = edge.ends ∧
      namespaceOf nsKey old.properties = namespaceOf nsKey edge.properties) ∧
    (s.edges.lookup id = none → id ∉ s.outgoing.tombstones ∧ id ∉ s.incoming.tombstones)
  | _ => True

/-! ### Namespaces -/

section Members

variable {K X : Type} [DecidableEq K] {nsKey : InternedString}
  {entities : AList fun _ : K => Entity X} {members : Namespace → List K} {id : K} {x : Entity X}

lemma lookup_insert_of_ne {u : K} (hne : u ≠ id) :
    (entities.insert id x).lookup u = entities.lookup u :=
  lookup_insert_ne hne

variable (h : Members nsKey entities members)

include h

lemma Members.insert
    (hkept : ∀ old ∈ entities.lookup id,
      namespaceOf nsKey old.properties = namespaceOf nsKey x.properties) :
    Members nsKey (entities.insert id x) (update members (namespaceOf nsKey x.properties)
      ((members (namespaceOf nsKey x.properties)).insert id)) := by
  refine ⟨fun ns => ?_, fun ns u => ?_⟩
  · by_cases hns : ns = namespaceOf nsKey x.properties
    · rw [hns, update_self]
      exact (h.nodup _).insert
    · rw [update_of_ne hns]
      exact h.nodup ns
  · have hmem : u ∈ update members (namespaceOf nsKey x.properties)
        ((members (namespaceOf nsKey x.properties)).insert id) ns ↔
        u ∈ members ns ∨ ns = namespaceOf nsKey x.properties ∧ u = id := by
      by_cases hns : ns = namespaceOf nsKey x.properties
      · rw [hns, update_self, mem_insert_iff]
        simp only [true_and]
        exact or_comm
      · rw [update_of_ne hns]
        simp only [hns, false_and, or_false]
    rw [hmem, h.mem]
    by_cases hu : u = id
    · subst hu
      rw [lookup_insert]
      constructor
      · rintro (⟨n, hn, rfl⟩ | ⟨rfl, -⟩)
        · exact ⟨x, rfl, (hkept n hn).symm⟩
        · exact ⟨x, rfl, rfl⟩
      · rintro ⟨n, hn, rfl⟩
        cases hn
        exact .inr ⟨rfl, rfl⟩
    · rw [lookup_insert_of_ne hu]
      simp only [hu, and_false, or_false]

lemma Members.replace {old : Entity X} (hold : entities.lookup id = some old)
    (hns : namespaceOf nsKey old.properties = namespaceOf nsKey x.properties) :
    Members nsKey (entities.insert id x) members := by
  refine ⟨h.nodup, fun ns u => ?_⟩
  rw [h.mem]
  by_cases hu : u = id
  · subst hu
    rw [lookup_insert, hold]
    constructor
    · rintro ⟨n, hn, rfl⟩
      cases hn
      exact ⟨x, rfl, hns.symm⟩
    · rintro ⟨n, hn, rfl⟩
      cases hn
      exact ⟨old, rfl, hns⟩
  · rw [lookup_insert_of_ne hu]

lemma Members.remove (hx : entities.lookup id = some x) :
    Members nsKey (entities.erase id) (update members (namespaceOf nsKey x.properties)
      ((members (namespaceOf nsKey x.properties)).filter (· ≠ id))) := by
  refine ⟨fun ns => ?_, fun ns u => ?_⟩
  · by_cases hns : ns = namespaceOf nsKey x.properties
    · rw [hns, update_self]
      exact (h.nodup _).filter _
    · rw [update_of_ne hns]
      exact h.nodup ns
  · by_cases hu : u = id
    · subst hu
      rw [lookup_erase]
      simp only [reduceCtorEq, false_and, exists_false, iff_false]
      by_cases hns : ns = namespaceOf nsKey x.properties
      · rw [hns, update_self, mem_filter]
        exact fun hmem => of_decide_eq_true hmem.2 rfl
      · rw [update_of_ne hns, h.mem, hx]
        rintro ⟨n, hn, rfl⟩
        cases hn
        exact hns rfl
    · rw [lookup_erase_ne hu, ← h.mem]
      by_cases hns : ns = namespaceOf nsKey x.properties
      · rw [hns, update_self, mem_filter, decide_eq_true_iff]
        exact and_iff_left hu
      · rw [update_of_ne hns]

end Members

/-! ### Adjacency -/

section Lists

variable {edges : AList fun _ : EdgeId => Entity Endpoints}
  {entry : EdgeId → Entity Endpoints → Edge} {a : RestingAdjacency} {id : EdgeId}
  {edge : Entity Endpoints}

lemma Lists.insert (hentry : ∀ id edge, (entry id edge).edgeId = id) (h : Lists edges entry a)
    (hnew : edges.lookup id = none) (hid : id ∉ a.tombstones) :
    Lists (edges.insert id edge) entry (a.insert (entry id edge)) := by
  have hentries : (a.insert (entry id edge)).entries = a.entries ++ [entry id edge] := by
    unfold RestingAdjacency.entries RestingAdjacency.insert
    dsimp only
    rw [← append_assoc, filter_append]
    congr 1
    rw [filter_singleton, hentry]
    simp only [hid, not_false_eq_true, decide_true, cond_true]
  refine ⟨?_, fun e => ?_⟩
  · rw [hentries, nodup_append]
    refine ⟨h.nodup, nodup_singleton _, ?_⟩
    rintro e he _ hmem rfl
    obtain rfl := mem_singleton.mp hmem
    obtain ⟨old, hold, -⟩ := (h.mem _).mp he
    rw [hentry, hnew] at hold
    cases hold
  · rw [hentries, mem_append, mem_singleton, h.mem]
    by_cases he : e.edgeId = id
    · rw [he, lookup_insert, hnew]
      constructor
      · rintro (⟨old, hold, -⟩ | rfl)
        · cases hold
        · exact ⟨edge, rfl, rfl⟩
      · rintro ⟨n, hn, hen⟩
        cases hn
        exact .inr hen
    · rw [lookup_insert_of_ne he]
      have hne : e ≠ entry id edge := by
        rintro rfl
        exact he (hentry id edge)
      simp only [hne, or_false]

lemma Lists.replace (h : Lists edges entry a) {old : Entity Endpoints}
    (hold : edges.lookup id = some old) (hsame : entry id old = entry id edge) :
    Lists (edges.insert id edge) entry a := by
  refine ⟨h.nodup, fun e => ?_⟩
  rw [h.mem]
  by_cases he : e.edgeId = id
  · rw [he, lookup_insert, hold]
    constructor
    · rintro ⟨n, hn, hen⟩
      cases hn
      exact ⟨edge, rfl, hen.trans hsame⟩
    · rintro ⟨n, hn, hen⟩
      cases hn
      exact ⟨old, rfl, hen.trans hsame.symm⟩
  · rw [lookup_insert_of_ne he]

lemma mem_entries_delete {e : Edge} : e ∈ (a.delete id).entries ↔ e ∈ a.entries ∧ e.edgeId ≠ id := by
  unfold RestingAdjacency.entries RestingAdjacency.delete
  rw [mem_filter, mem_filter, decide_eq_true_iff, decide_eq_true_iff, mem_insert_iff, not_or]
  exact ⟨fun h => ⟨⟨h.1, h.2.2⟩, h.2.1⟩, fun h => ⟨h.1.1, h.2, h.1.2⟩⟩

lemma nodup_entries_delete (h : a.entries.Nodup) : (a.delete id).entries.Nodup := by
  have hsub : (a.delete id).entries = a.entries.filter fun e => e.edgeId ≠ id := by
    unfold RestingAdjacency.entries RestingAdjacency.delete
    rw [filter_filter]
    refine filter_congr fun e _ => ?_
    simp only [mem_insert_iff, not_or, ne_eq, Bool.decide_and]
  rw [hsub]
  exact h.filter _

lemma Lists.remove (h : Lists edges entry a) : Lists (edges.erase id) entry (a.delete id) := by
  refine ⟨nodup_entries_delete h.nodup, fun e => ?_⟩
  rw [mem_entries_delete, h.mem]
  by_cases he : e.edgeId = id
  · rw [he, lookup_erase]
    simp only [ne_eq, not_true_eq_false, and_false, reduceCtorEq, false_and, exists_false]
  · rw [lookup_erase_ne he]
    exact and_iff_left he

lemma Lists.compact (h : Lists edges entry a) : Lists edges entry a.compact := by
  have hentries : a.compact.entries = a.entries := by
    unfold RestingAdjacency.compact
    rw [RestingAdjacency.entries]
    simp only [append_nil, not_mem_nil, not_false_eq_true, decide_true, filter_true]
  exact ⟨hentries ▸ h.nodup, hentries ▸ h.mem⟩

end Lists

end Aletheia.CurrentIndexes

import Aletheia.System
import Aletheia.Traversal

/-!
# Traversal of the graph at a point in time

The graph at a coordinate has the nodes and edges that a point lookup finds there. A traversal under
that coordinate walks it faithfully exactly when every edge that existed there is still adjacent (or
has a parallel one that is), and no detour through nodes that did not exist there is a shortcut.
-/

namespace Aletheia.Query

open List

variable (db : Db) (validTime txTime : Timestamp) (direction : Direction)
  (label : Option InternedString) {k : ℕ} {t : TraversalIterator}

/-! ### The graph at a coordinate -/

def NodeExistsAt (n : NodeId) : Prop := ∃ node, getNodeAtTime db n validTime txTime = .ok node

/-- The edge leads from `x` to `y` when it is followed in the direction. -/
def Direction.Leads : Direction → Endpoints → NodeId → NodeId → Prop
  | .outgoing, ends, x, y => ends.source = x ∧ ends.target = y
  | .incoming, ends, x, y => ends.target = x ∧ ends.source = y
  | .both, ends, x, y => (ends.source = x ∧ ends.target = y) ∨ (ends.target = x ∧ ends.source = y)

/-- An edge with the label leads from `x` to `y` at the coordinate. -/
def JoinedAt (x y : NodeId) : Prop :=
  ∃ e edge, getEdgeAtTime db e validTime txTime = .ok edge ∧ (∀ l, label = some l → edge.label = l) ∧
    direction.Leads edge.ends x y

/-- A step of the graph at the coordinate, to a node that exists there. -/
def StepAt (x y : NodeId) : Prop :=
  JoinedAt db validTime txTime direction label x y ∧ NodeExistsAt db validTime txTime y

/-- **The nodes a traversal is to find**: their distance from the start lies within the bounds. -/
def ExpectedAt (minDepth depth : ℕ) (start w : NodeId) : Prop :=
  ∃ k, Bfs.Distance (StepAt db validTime txTime direction label) start k w ∧
    1 ≤ k ∧ minDepth ≤ k ∧ k ≤ depth

/-- The row is the node `w` as it was at the coordinate, with a path that leads to it. -/
def RowAt (w : NodeId) (r : Except StorageError QueryRow) : Prop :=
  ∃ row node, r = .ok row ∧ row.entity = .node node ∧
    getNodeAtTime db w validTime txTime = .ok node ∧ row.path.bind List.getLast? = some (.node w)

lemma RowAt.unique {db : Db} {validTime txTime : Timestamp} {w w' : NodeId}
    {r : Except StorageError QueryRow} (h : RowAt db validTime txTime w r)
    (h' : RowAt db validTime txTime w' r) : w = w' := by
  obtain ⟨row, node, rfl, -, -, hpath⟩ := h
  obtain ⟨row', node', heq, -, -, hpath'⟩ := h'
  cases heq
  simpa using hpath.symm.trans hpath'

/-- **The rows are exactly the expected nodes**, each once. -/
def TraversedAt (minDepth depth : ℕ) (start : NodeId) (rows : List (Except StorageError QueryRow)) :
    Prop :=
  ∃ ids : List NodeId, ids.Nodup ∧
    (∀ w, w ∈ ids ↔ ExpectedAt db validTime txTime direction label minDepth depth start w) ∧
    List.Forall₂ (RowAt db validTime txTime) ids rows

/-! ### What the traversal follows -/

/-- The edges listed at a node for the direction, with the other end. -/
def Direction.Lists (x y : NodeId) (e : EdgeId) : Direction → Endpoints → Prop
  | .outgoing, ends => e ∈ db.edges.outgoing x ∧ ends.target = y
  | .incoming, ends => e ∈ db.edges.incoming x ∧ ends.source = y
  | .both, ends =>
    (e ∈ db.edges.outgoing x ∧ ends.target = y) ∨ (e ∈ db.edges.incoming x ∧ ends.source = y)

/-- An edge that exists at the coordinate is still in the adjacency lists of current storage and leads
from `x` to `y`. -/
def StillJoined (x y : NodeId) : Prop :=
  ∃ e entity, db.edges.get e = some entity ∧ direction.Lists db x y e entity.ends ∧
    (∀ l, label = some l → entity.label = l) ∧
    (db.edgeHistory.findVersionAtTime e validTime txTime).isSome = true

/-- A step of the traversal to a node that did not exist at the coordinate. -/
def GhostStep (x y : NodeId) : Prop :=
  StillJoined db validTime txTime direction label x y ∧ ¬NodeExistsAt db validTime txTime y

/-- **When traversals at the coordinate are faithful.** -/
structure Faithful : Prop where
  /-- of the edges at the coordinate between two nodes, one is still adjacent -/
  kept : ∀ x y, JoinedAt db validTime txTime direction label x y → NodeExistsAt db validTime txTime y →
    y ≠ x → StillJoined db validTime txTime direction label x y
  /-- what the adjacency lists reach through nodes that did not exist was as near at the coordinate -/
  noShortcut : ∀ k x m y, Bfs.Walk (GhostStep db validTime txTime direction label) x k m →
    StillJoined db validTime txTime direction label m y → NodeExistsAt db validTime txTime y → y ≠ x →
    ∃ j ≤ k + 1, Bfs.Walk (StepAt db validTime txTime direction label) x j y

/-- The traversal under the coordinate, without a scope and without edge variables. -/
def traversalAt (minDepth depth : ℕ) : TraversalIterator :=
  ⟨direction, label, minDepth, depth, some (validTime, txTime), false, none⟩

variable {db validTime txTime direction label} {minDepth depth fuel : ℕ} {start : NodeId}
  {places : List (Bfs.Place NodeId EdgeId)}

/-! ### The search of the iterator -/

lemma mem_neighborsAlong {edges : List EdgeId} {far : Endpoints → NodeId} {hop : NodeId × EdgeId} :
    hop ∈ t.neighborsAlong db edges far ↔ ∃ entity, hop.2 ∈ edges ∧
      db.edges.get hop.2 = some entity ∧ far entity.ends = hop.1 ∧
      (∀ l, t.label = some l → entity.label = l) ∧ t.edgeVisibleAtTime db hop.2 = true := by
  simp only [TraversalIterator.neighborsAlong, mem_filterMap, Option.bind_eq_some_iff,
    Option.ite_none_right_eq_some, Bool.and_eq_true, Option.some.injEq]
  constructor
  · rintro ⟨e, he, entity, hget, ⟨hlabel, hvisible⟩, rfl⟩
    refine ⟨entity, he, hget, rfl, fun l hl => ?_, hvisible⟩
    simpa [hl] using hlabel
  · rintro ⟨entity, he, hget, hfar, hlabel, hvisible⟩
    refine ⟨hop.2, he, entity, hget, ⟨?_, hvisible⟩, Prod.ext hfar rfl⟩
    cases hl : t.label with
    | none => rfl
    | some l => simpa using hlabel l hl

variable {x y : NodeId}

lemma step_traversalAt :
    Bfs.Step ((traversalAt validTime txTime direction label minDepth depth).hops db) x y ↔
      StillJoined db validTime txTime direction label x y := by
  have hhops : ∀ hop, hop ∈ (traversalAt validTime txTime direction label minDepth depth).hops db x ↔
      hop ∈ (traversalAt validTime txTime direction label minDepth depth).getNeighbors db x := by
    simp [TraversalIterator.hops, TraversalIterator.boundaryAllows, traversalAt]
  simp only [Bfs.Step, hhops, StillJoined]
  have hall : ∀ {edges : List EdgeId} {far : Endpoints → NodeId}, (∃ hop : NodeId × EdgeId,
      hop ∈ (traversalAt validTime txTime direction label minDepth depth).neighborsAlong db edges far ∧
        hop.1 = y) ↔
      ∃ e entity, db.edges.get e = some entity ∧ (e ∈ edges ∧ far entity.ends = y) ∧
        (∀ l, label = some l → entity.label = l) ∧
        (db.edgeHistory.findVersionAtTime e validTime txTime).isSome = true := by
    intro edges far
    simp only [mem_neighborsAlong]
    constructor
    · rintro ⟨⟨_, e⟩, ⟨entity, he, hget, hfar, hlabel, hvisible⟩, rfl⟩
      exact ⟨e, entity, hget, ⟨he, hfar⟩, hlabel, hvisible⟩
    · rintro ⟨e, entity, hget, ⟨he, hfar⟩, hlabel, hvisible⟩
      exact ⟨(y, e), ⟨entity, he, hget, hfar, hlabel, hvisible⟩, rfl⟩
  cases direction with
  | outgoing => exact hall
  | incoming => exact hall
  | both =>
    simp only [TraversalIterator.getNeighbors, traversalAt, mem_append, or_and_right, exists_or,
      Direction.Lists, and_or_left]
    exact or_congr hall hall

/-! ### The rows -/

lemma getNodeAtTime_error {n : NodeId} {e : StorageError}
    (h : getNodeAtTime db n validTime txTime = .error e) : nodeMissingAtTime e = true := by
  unfold getNodeAtTime versionAtTime at h
  split at h
  next =>
    cases h
    rfl
  next =>
    split at h
    next =>
      cases h
      rfl
    next => cases h

lemma fetchTargetNode_traversalAt (n : NodeId) :
    (traversalAt validTime txTime direction label minDepth depth).fetchTargetNode db n =
      .ok (getNodeAtTime db n validTime txTime).toOption := by
  simp only [TraversalIterator.fetchTargetNode, traversalAt]
  cases hnode : getNodeAtTime db n validTime txTime with
  | ok node => rfl
  | error e =>
    simp only [getNodeAtTime_error hnode, if_true]
    rfl

def Emitted (db : Db) (validTime txTime : Timestamp) (minDepth depth : ℕ)
    (p : Bfs.Place NodeId EdgeId) : Prop :=
  (1 ≤ p.depth ∧ minDepth ≤ p.depth ∧ p.depth ≤ depth) ∧ NodeExistsAt db validTime txTime p.node

lemma emit_traversalAt (p : Bfs.Place NodeId EdgeId) :
    (traversalAt validTime txTime direction label minDepth depth).emit db start p =
      if 1 ≤ p.depth ∧ minDepth ≤ p.depth ∧ p.depth ≤ depth then
        (getNodeAtTime db p.node validTime txTime).toOption.map fun node =>
          .ok (.withPath (.node node) (TraversalIterator.pathOf start p.trail)) else none := by
  simp only [TraversalIterator.emit, fetchTargetNode_traversalAt]
  cases (getNodeAtTime db p.node validTime txTime).toOption <;> rfl

/-- The trail of a place leads from the start to its node. -/
def LeadsTo (start : NodeId) (p : Bfs.Place NodeId EdgeId) : Prop :=
  (TraversalIterator.pathOf start p.trail).getLast? = some (.node p.node)

lemma leadsTo_of_visits
    (h : Bfs.visits (t.hops db) t.depth t.bindEdge fuel (Bfs.start start) = some places) :
    ∀ p ∈ places, LeadsTo start p := by
  refine Bfs.visits_forall (fun p hop _ _ => ?_) (fun p hp => ?_) h
  · rw [LeadsTo, TraversalIterator.pathOf, flatMap_append, ← cons_append, List.getLast?_append]
    rfl
  · obtain rfl := mem_singleton.mp hp
    rfl

lemma forall₂_rows [∀ p, Decidable (Emitted db validTime txTime minDepth depth p)]
    (h : ∀ p ∈ places, LeadsTo start p) : List.Forall₂ (RowAt db validTime txTime)
      ((places.filter fun p => Emitted db validTime txTime minDepth depth p).map Bfs.Place.node)
      (places.filterMap
        ((traversalAt validTime txTime direction label minDepth depth).emit db start)) := by
  induction places with
  | nil => exact .nil
  | cons p places ih =>
    have hrest := ih fun q hq => h q (mem_cons_of_mem _ hq)
    by_cases hp : Emitted db validTime txTime minDepth depth p
    · obtain ⟨node, hnode⟩ := hp.2
      have hemit : (traversalAt validTime txTime direction label minDepth depth).emit db start p =
          some (.ok (.withPath (.node node) (TraversalIterator.pathOf start p.trail))) := by
        rw [emit_traversalAt, if_pos hp.1, hnode]
        rfl
      rw [filter_cons_of_pos (by simpa using hp), map_cons, filterMap_cons_some hemit]
      exact .cons ⟨_, node, rfl, rfl, hnode, h p mem_cons_self⟩ hrest
    · have hemit : (traversalAt validTime txTime direction label minDepth depth).emit db start p =
          none := by
        rw [emit_traversalAt]
        split_ifs with hrange
        · cases hnode : getNodeAtTime db p.node validTime txTime with
          | ok node => exact absurd ⟨hrange, node, hnode⟩ hp
          | error e => rfl
        · rfl
      rw [filter_cons_of_neg (by simpa using hp), filterMap_cons_none hemit]
      exact hrest

def FoundAt (db : Db) (validTime txTime : Timestamp) (direction : Direction)
    (label : Option InternedString) (minDepth depth : ℕ) (start w : NodeId) : Prop :=
  ∃ k, Bfs.Distance (StillJoined db validTime txTime direction label) start k w ∧
    (1 ≤ k ∧ minDepth ≤ k ∧ k ≤ depth) ∧ NodeExistsAt db validTime txTime w

section Found

variable (h : Bfs.visits ((traversalAt validTime txTime direction label minDepth depth).hops db)
  depth false fuel (Bfs.start start) = some places)

include h

lemma exists_place_iff {w : NodeId} :
    (∃ p ∈ places, p.node = w ∧ Emitted db validTime txTime minDepth depth p) ↔
      FoundAt db validTime txTime direction label minDepth depth start w := by
  have hspec := (Bfs.visits_start h).2
  have hstep : Bfs.Step ((traversalAt validTime txTime direction label minDepth depth).hops db) =
      StillJoined db validTime txTime direction label :=
    funext fun x => funext fun y => propext step_traversalAt
  rw [hstep] at hspec
  constructor
  · rintro ⟨p, hp, rfl, hrange, hexists⟩
    exact ⟨p.depth, ((hspec p.node p.depth).mp ⟨p, hp, rfl, rfl⟩).1, hrange, hexists⟩
  · rintro ⟨k, hdist, hrange, hexists⟩
    obtain ⟨p, hp, rfl, rfl⟩ := (hspec w k).mpr ⟨hdist, hrange.2.2⟩
    exact ⟨p, hp, rfl, hrange, hexists⟩

lemma traversedAt_iff :
    TraversedAt db validTime txTime direction label minDepth depth start (places.filterMap
        ((traversalAt validTime txTime direction label minDepth depth).emit db start)) ↔
      ∀ w, ExpectedAt db validTime txTime direction label minDepth depth start w ↔
        FoundAt db validTime txTime direction label minDepth depth start w := by
  classical
  set found := (places.filter fun p => Emitted db validTime txTime minDepth depth p).map Bfs.Place.node
    with hfound
  have hmem : ∀ w, w ∈ found ↔
      FoundAt db validTime txTime direction label minDepth depth start w := by
    intro w
    rw [← exists_place_iff h, hfound]
    simp only [mem_map, mem_filter, decide_eq_true_eq]
    constructor
    · rintro ⟨p, ⟨hp, hem⟩, rfl⟩
      exact ⟨p, hp, rfl, hem⟩
    · rintro ⟨p, hp, rfl, hem⟩
      exact ⟨p, ⟨hp, hem⟩, rfl⟩
  have hrows : List.Forall₂ (RowAt db validTime txTime) found (places.filterMap
      ((traversalAt validTime txTime direction label minDepth depth).emit db start)) :=
    forall₂_rows (leadsTo_of_visits h)
  constructor
  · rintro ⟨ids, -, hids, hforall⟩ w
    have hunique : Relator.LeftUnique (RowAt db validTime txTime) := fun _ _ _ hr hr' => hr.unique hr'
    rw [← hids, ← hmem, left_unique_forall₂' hunique hforall hrows]
  · intro hall
    refine ⟨found, ?_, fun w => (hmem w).trans (hall w).symm, hrows⟩
    exact (Bfs.visits_start h).1.sublist (List.Sublist.map _ filter_sublist)

end Found

/-! ### Faithful traversals -/

lemma Faithful.still (hf : Faithful db validTime txTime direction label)
    (h : Bfs.Walk (StepAt db validTime txTime direction label) x k y) :
    ∃ j ≤ k, Bfs.Walk (StillJoined db validTime txTime direction label) x j y := by
  induction h with
  | nil => exact ⟨0, le_rfl, .nil⟩
  | @snoc k v w _ hstep ih =>
    obtain ⟨j, hj, hwalk⟩ := ih
    by_cases hvw : w = v
    · subst hvw
      exact ⟨j, hj.trans (Nat.le_succ k), hwalk⟩
    · exact ⟨j + 1, Nat.succ_le_succ hj, .snoc hwalk (hf.kept v w hstep.1 hstep.2 hvw)⟩

/-- What the traversal follows, cut at the last node that existed: up to there the graph at the
coordinate is as short, and from there on there are only nodes that did not exist. -/
lemma Faithful.cut (hf : Faithful db validTime txTime direction label)
    (h : Bfs.Walk (StillJoined db validTime txTime direction label) x k y) :
    ∃ z i j, i + j ≤ k ∧ Bfs.Walk (StepAt db validTime txTime direction label) x i z ∧
      Bfs.Walk (GhostStep db validTime txTime direction label) z j y := by
  induction h with
  | nil => exact ⟨x, 0, 0, le_rfl, .nil, .nil⟩
  | @snoc k m y _ hstep ih =>
    obtain ⟨z, i, j, hij, hwalk, hghost⟩ := ih
    by_cases hy : NodeExistsAt db validTime txTime y
    · by_cases hyz : y = z
      · subst hyz
        exact ⟨y, i, 0, by omega, hwalk, .nil⟩
      · obtain ⟨j', hj', hwalk'⟩ := hf.noShortcut j z m y hghost hstep hy hyz
        exact ⟨y, i + j', 0, by omega, hwalk.trans hwalk', .nil⟩
    · exact ⟨z, i, j + 1, by omega, hwalk, .snoc hghost ⟨hstep, hy⟩⟩

lemma Faithful.at (hf : Faithful db validTime txTime direction label)
    (h : Bfs.Walk (StillJoined db validTime txTime direction label) x k y)
    (hy : NodeExistsAt db validTime txTime y) :
    ∃ j ≤ k, Bfs.Walk (StepAt db validTime txTime direction label) x j y := by
  obtain ⟨z, i, j, hij, hwalk, hghost⟩ := hf.cut h
  cases hghost with
  | nil => exact ⟨i, hij, hwalk⟩
  | snoc _ hstep => exact absurd hy hstep.2

lemma Faithful.distance_iff (hf : Faithful db validTime txTime direction label)
    (hy : NodeExistsAt db validTime txTime y) :
    Bfs.Distance (StepAt db validTime txTime direction label) x k y ↔
      Bfs.Distance (StillJoined db validTime txTime direction label) x k y := by
  constructor
  · rintro ⟨hwalk, hmin⟩
    obtain ⟨j, hj, hwalk'⟩ := hf.still hwalk
    obtain ⟨i, hi, hdist⟩ := hwalk'.exists_distance
    obtain ⟨i', hi', hat⟩ := hf.at hdist.1 hy
    have := hmin i' hat
    obtain rfl : i = k := by omega
    exact hdist
  · rintro ⟨hwalk, hmin⟩
    obtain ⟨j, hj, hwalk'⟩ := hf.at hwalk hy
    obtain ⟨i, hi, hdist⟩ := hwalk'.exists_distance
    obtain ⟨i', hi', hstill⟩ := hf.still hdist.1
    have := hmin i' hstill
    obtain rfl : i = k := by omega
    exact hdist

lemma exists_of_distance (h : Bfs.Distance (StepAt db validTime txTime direction label) x k y)
    (hk : 1 ≤ k) : NodeExistsAt db validTime txTime y := by
  obtain ⟨k, rfl⟩ := Nat.exists_eq_add_of_le' hk
  obtain ⟨v, -, hstep⟩ := h.pred
  exact hstep.2

lemma Faithful.expected_iff (hf : Faithful db validTime txTime direction label) (w : NodeId) :
    ExpectedAt db validTime txTime direction label minDepth depth start w ↔
      FoundAt db validTime txTime direction label minDepth depth start w := by
  constructor
  · rintro ⟨k, hdist, hk, hmin, hmax⟩
    have hw := exists_of_distance hdist hk
    exact ⟨k, (hf.distance_iff hw).mp hdist, ⟨hk, hmin, hmax⟩, hw⟩
  · rintro ⟨k, hdist, ⟨hk, hmin, hmax⟩, hw⟩
    exact ⟨k, (hf.distance_iff hw).mpr hdist, hk, hmin, hmax⟩

/-- Traversals one hop deep, and those as deep as a detour, tell whether the lists are faithful. -/
lemma faithful_of_expected (h : ∀ start depth w,
    ExpectedAt db validTime txTime direction label 1 depth start w ↔
      FoundAt db validTime txTime direction label 1 depth start w) :
    Faithful db validTime txTime direction label where
  kept x y hjoined hy hne := by
    have hwalk : Bfs.Walk (StepAt db validTime txTime direction label) x 1 y :=
      .snoc .nil ⟨hjoined, hy⟩
    obtain ⟨k, hk, hdist⟩ := hwalk.exists_distance
    have hpos : 1 ≤ k := by
      by_contra hzero
      obtain rfl : k = 0 := by omega
      exact hne hdist.1.eq_of_zero
    obtain ⟨j, hfound, ⟨hj, -, hj'⟩, -⟩ := (h x 1 y).mp ⟨k, hdist, hpos, hpos, hk⟩
    obtain rfl : j = 0 + 1 := by omega
    obtain ⟨v, hv, hstep⟩ := hfound.pred
    rwa [hv.1.eq_of_zero] at hstep
  noShortcut k x m y hghost hstep hy hne := by
    have hwalk : Bfs.Walk (StillJoined db validTime txTime direction label) x (k + 1) y :=
      .snoc (hghost.mono fun _ _ hab => hab.1) hstep
    obtain ⟨j, hj, hdist⟩ := hwalk.exists_distance
    have hpos : 1 ≤ j := by
      by_contra hzero
      obtain rfl : j = 0 := by omega
      exact hne hdist.1.eq_of_zero
    obtain ⟨i, hexpected, -, -, hi⟩ := (h x (k + 1) y).mpr ⟨j, hdist, ⟨hpos, hpos, hj⟩, hy⟩
    exact ⟨i, hi, hexpected.1⟩

/-- **Traversal at a coordinate.** All traversals from all start nodes yield exactly the nodes of the
graph at the coordinate within the bounds if and only if the adjacency lists are faithful to it. -/
theorem traversedAt_iff_faithful (db : Db) (validTime txTime : Timestamp) (direction : Direction)
    (label : Option InternedString) :
    (∀ start minDepth depth, ∃ fuel rows,
      (traversalAt validTime txTime direction label minDepth depth).rowsFrom db fuel start = some rows ∧
        TraversedAt db validTime txTime direction label minDepth depth start rows) ↔
      Faithful db validTime txTime direction label := by
  constructor
  · intro h
    refine faithful_of_expected fun start depth w => ?_
    obtain ⟨fuel, rows, hrows, htraversed⟩ := h start 1 depth
    obtain ⟨places, hplaces, rfl⟩ := Option.map_eq_some_iff.mp hrows
    exact (traversedAt_iff hplaces).mp htraversed w
  · intro hf start minDepth depth
    set hops := (traversalAt validTime txTime direction label minDepth depth).hops db with hhops
    obtain ⟨places, hplaces⟩ : ∃ places, Bfs.visits hops depth false (Bfs.ball hops start depth).card
        (Bfs.start start) = some places := Bfs.exists_visits start le_rfl
    exact ⟨_, _, congrArg (Option.map _) hplaces, (traversedAt_iff hplaces).mpr hf.expected_iff⟩

lemma ok_of_toOption {α : Type} {x : Except StorageError α} {a : α} (h : x.toOption = some a) :
    x = .ok a := by
  cases x with
  | ok b => exact congrArg Except.ok (Option.some.inj h)
  | error e => cases h

/-- A transaction creates nodes 0 and 1 and an edge between them; a later one deletes the edge. -/
def edgeDeleted : List Action :=
  [Action.begin ⟨1, 0⟩ (.ofWallclock 1), .buffer 0 (.node (.create ⟨0, ∅, (), none⟩ none)) ⟨1, 0⟩,
    .buffer 0 (.node (.create ⟨0, ∅, (), none⟩ none)) ⟨1, 0⟩,
    .buffer 0 (.edge (.create ⟨5, ∅, ⟨⟨0⟩, ⟨1⟩⟩, none⟩ none)) ⟨1, 0⟩] ++
    System.commitSteps 0 ⟨2, 0⟩ ++
    [Action.begin ⟨3, 0⟩ (.ofWallclock 3), .buffer 1 (.edge (.delete ⟨0⟩ none none)) ⟨3, 0⟩] ++
    System.commitSteps 1 ⟨4, 0⟩

/-- The edge was there at time 3, and so was node 1, but the traversal at time 3 yields no row. -/
theorem traversal_forgets_deleted_edge :
    ∃ sys, Machine.run System.step (System.start (.init 1000 (some 1000000) []) ⟨[], ∅, []⟩ ⟨0, 0⟩)
        edgeDeleted = some sys ∧
      (traversalAt ⟨3, 0⟩ ⟨3, 0⟩ .outgoing none 1 1).rowsFrom sys.db 3 ⟨0⟩ = some [] ∧
      ExpectedAt sys.db ⟨3, 0⟩ ⟨3, 0⟩ .outgoing none 1 1 ⟨0⟩ ⟨1⟩ ∧
      ¬TraversedAt sys.db ⟨3, 0⟩ ⟨3, 0⟩ .outgoing none 1 1 ⟨0⟩ [] := by
  have heval : (Machine.run System.step
      (System.start (.init 1000 (some 1000000) []) ⟨[], ∅, []⟩ ⟨0, 0⟩) edgeDeleted).map (fun sys =>
        (((traversalAt ⟨3, 0⟩ ⟨3, 0⟩ .outgoing none 1 1).rowsFrom sys.db 3 ⟨0⟩).map List.length,
          (getEdgeAtTime sys.db ⟨0⟩ ⟨3, 0⟩ ⟨3, 0⟩).toOption.map (·.ends),
          (getNodeAtTime sys.db ⟨1⟩ ⟨3, 0⟩ ⟨3, 0⟩).toOption.map (·.id))) =
      some (some 0, some ⟨⟨0⟩, ⟨1⟩⟩, some ⟨1⟩) := by
    decide +kernel
  obtain ⟨sys, hrun, hout⟩ := Option.map_eq_some_iff.mp heval
  simp only [Prod.mk.injEq, Option.map_eq_some_iff, length_eq_zero_iff] at hout
  obtain ⟨⟨rows, hrows, rfl⟩, ⟨edge, hedge, hends⟩, node, hnode, -⟩ := hout
  have hedge : getEdgeAtTime sys.db ⟨0⟩ ⟨3, 0⟩ ⟨3, 0⟩ = .ok edge := ok_of_toOption hedge
  have hnode : getNodeAtTime sys.db ⟨1⟩ ⟨3, 0⟩ ⟨3, 0⟩ = .ok node := ok_of_toOption hnode
  have hstep : StepAt sys.db ⟨3, 0⟩ ⟨3, 0⟩ .outgoing none ⟨0⟩ ⟨1⟩ :=
    ⟨⟨⟨0⟩, edge, hedge, by simp, by simp [Direction.Leads, hends]⟩, node, hnode⟩
  have hexpected : ExpectedAt sys.db ⟨3, 0⟩ ⟨3, 0⟩ .outgoing none 1 1 ⟨0⟩ ⟨1⟩ := by
    obtain ⟨k, hk, hdist⟩ := (Bfs.Walk.snoc .nil hstep).exists_distance
    have hpos : k ≠ 0 := by
      rintro rfl
      exact absurd hdist.1.eq_of_zero (by decide)
    exact ⟨k, hdist, by omega, by omega, by omega⟩
  refine ⟨sys, hrun, hrows, hexpected, fun ⟨ids, _, hids, hrow⟩ => ?_⟩
  obtain rfl := forall₂_nil_right_iff.mp hrow
  exact absurd ((hids ⟨1⟩).mpr hexpected) (by simp)

end Aletheia.Query

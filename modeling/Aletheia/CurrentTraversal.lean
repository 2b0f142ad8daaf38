import Aletheia.AsOfTraversal

/-!
# Traversal of the current graph

Without a temporal context the traversal follows the edges of current storage. When no transaction
is under way the adjacency lists are exactly the edges, and the search is a breadth-first search of the
graph they form: each node within the bounds is found once, nearest first, with a shortest path. A
node that was deleted without its edges is still found through them, and reported as missing.
-/

namespace Aletheia.Query

open Function List

/-- The adjacency lists are the edges of the store, as they are between two commits. -/
structure Settled (s : CurrentStorage EdgeId Endpoints) : Prop where
  outgoing : ∀ n e, e ∈ s.outgoing n ↔ ∃ x, s.get e = some x ∧ x.ends.source = n
  incoming : ∀ n e, e ∈ s.incoming n ↔ ∃ x, s.get e = some x ∧ x.ends.target = n

lemma settled_empty (vs : List VectorIndex) : Settled (.empty vs) := by
  constructor <;> intro n e <;> rw [CurrentStorage.get_empty] <;> simp [CurrentStorage.empty]

section Writes

variable {s : CurrentStorage EdgeId Endpoints} {e : EdgeId} {x : Entity Endpoints}

lemma Settled.insert (h : Settled s) (hends : ∀ old, s.get e = some old → old.ends = x.ends) :
    Settled (s.insert e x) := by
  have hget : ∀ e', (s.insert e x).get e' = if e' = e then some x else s.get e' := by
    intro e'
    split_ifs with heq
    · rw [heq, CurrentStorage.get_insert_self]
    · exact CurrentStorage.get_insert_of_ne heq
  cases hold : s.get e with
  | some old =>
    have hlists : (s.insert e x).outgoing = s.outgoing ∧ (s.insert e x).incoming = s.incoming := by
      simp [CurrentStorage.insert, hold]
    constructor <;> intro n e' <;> simp only [hlists, hget, h.outgoing, h.incoming] <;>
      by_cases heq : e' = e <;> simp [heq, hold, hends old hold]
  | none =>
    have hout : (s.insert e x).outgoing = update s.outgoing x.ends.source
        (s.outgoing x.ends.source ++ [e]) := by
      simp [CurrentStorage.insert, hold, EntityKind.endpoints]
    have hin : (s.insert e x).incoming = update s.incoming x.ends.target
        (s.incoming x.ends.target ++ [e]) := by
      simp [CurrentStorage.insert, hold, EntityKind.endpoints]
    constructor
    · intro n e'
      rw [hout, hget, update_apply]
      by_cases heq : e' = e <;> by_cases hn : n = x.ends.source <;>
        simp [heq, hn, h.outgoing, hold, eq_comm]
    · intro n e'
      rw [hin, hget, update_apply]
      by_cases heq : e' = e <;> by_cases hn : n = x.ends.target <;>
        simp [heq, hn, h.incoming, hold, eq_comm]

end Writes

/-! ### The graph -/

variable (db : Db) (t : TraversalIterator)

/-- The edge leads from `x` to `y` in the direction, has the label, and the scope admits it and its
far end. -/
def Crosses (x : NodeId) (e : EdgeId) (y : NodeId) : Prop :=
  ∃ edge, db.edges.get e = some edge ∧ t.direction.Leads edge.ends x y ∧
    (∀ l, t.label = some l → edge.label = l) ∧
    ∀ inScope, t.scope = some inScope → inScope edge.properties = true ∧
      ∃ node, db.nodes.get y = some node ∧ inScope node.properties = true

def Joined (x y : NodeId) : Prop := ∃ e, Crosses db t x e y

/-- A path of the graph, as the steps that follow its start. -/
inductive PathTo (x : NodeId) : List (NodeId × EdgeId) → NodeId → Prop
  | nil : PathTo x [] x
  | snoc {trail : List (NodeId × EdgeId)} {y z : NodeId} {e : EdgeId} :
    PathTo x trail y → Crosses db t y e z → PathTo x (trail ++ [(z, e)]) z

/-- What is emitted for a node found `d` steps from the start. A node whose record is gone, while
edges that lead to it remain, is reported as missing. -/
def RowFor (start : NodeId) (found : NodeId × ℕ) (r : Except StorageError QueryRow) : Prop :=
  match db.nodes.get found.1 with
  | none => r = .error (.nodeNotFound found.1)
  | some x => ∃ trail, PathTo db t start trail found.1 ∧ trail.length = found.2 ∧
      r = .ok (.withPath (.node ⟨found.1, x.label, x.properties, x.currentVersion⟩)
        (TraversalIterator.pathOf start trail))

/-- **The rows are the nodes within the bounds**, each once and nearest first. -/
def Searched (start : NodeId) (rows : List (Except StorageError QueryRow)) : Prop :=
  ∃ found : List (NodeId × ℕ), (found.map Prod.fst).Nodup ∧
    (∀ w d, (w, d) ∈ found ↔
      Bfs.Distance (Joined db t) start d w ∧ 1 ≤ d ∧ t.minDepth ≤ d ∧ d ≤ t.depth) ∧
    found.Pairwise (fun p q => p.2 ≤ q.2) ∧ List.Forall₂ (RowFor db t start) found rows

/-- The rows for an input: each of its nodes is searched from in turn, its errors are passed on, and
what is not a node is dropped. -/
inductive SearchedAll : List (Except StorageError QueryRow) → List (Except StorageError QueryRow) →
    Prop
  | nil : SearchedAll [] []
  | error {e input rows} : SearchedAll input rows →
    SearchedAll (.error e :: input) (.error e :: rows)
  | other {row input rows} : row.entity.nodeId? = none → SearchedAll input rows →
    SearchedAll (.ok row :: input) rows
  | node {row start here input rows} : row.entity.nodeId? = some start → Searched db t start here →
    SearchedAll input rows → SearchedAll (.ok row :: input) (here ++ rows)

/-! ### The search of the iterator -/

variable {db t} {start : NodeId}

section Current

variable (hcontext : t.temporalContext = none)

include hcontext

lemma boundaryAllows_iff {e : EdgeId} {y : NodeId} {edge : Entity Endpoints}
    (hedge : db.edges.get e = some edge) :
    t.boundaryAllows db e y = true ↔ ∀ inScope, t.scope = some inScope →
      inScope edge.properties = true ∧
        ∃ node, db.nodes.get y = some node ∧ inScope node.properties = true := by
  cases hscope : t.scope with
  | none => simp [TraversalIterator.boundaryAllows, hscope]
  | some inScope =>
    simp [TraversalIterator.boundaryAllows, hscope, hcontext, hedge, Option.any_eq_true]

lemma mem_neighborsAlong_iff {near : Endpoints → NodeId} {edges : List EdgeId} {x : NodeId}
    (far : Endpoints → NodeId) (hop : NodeId × EdgeId)
    (hlist : ∀ e, e ∈ edges ↔ ∃ edge, db.edges.get e = some edge ∧ near edge.ends = x) :
    hop ∈ t.neighborsAlong db edges far ↔ ∃ edge, db.edges.get hop.2 = some edge ∧
      (near edge.ends = x ∧ far edge.ends = hop.1) ∧ ∀ l, t.label = some l → edge.label = l := by
  have hvisible : t.edgeVisibleAtTime db hop.2 = true := by
    simp [TraversalIterator.edgeVisibleAtTime, hcontext]
  rw [mem_neighborsAlong]
  simp only [hlist, hvisible, and_true]
  constructor
  · rintro ⟨edge, ⟨edge', hget', hnear⟩, hget, hfar, hlabel⟩
    cases hget.symm.trans hget'
    exact ⟨edge, hget, ⟨hnear, hfar⟩, hlabel⟩
  · rintro ⟨edge, hget, ⟨hnear, hfar⟩, hlabel⟩
    exact ⟨edge, ⟨edge, hget, hnear⟩, hget, hfar, hlabel⟩

lemma mem_hops_iff (hsettled : Settled db.edges) {x : NodeId} {hop : NodeId × EdgeId} :
    hop ∈ t.hops db x ↔ Crosses db t x hop.2 hop.1 := by
  have hneighbors : hop ∈ t.getNeighbors db x ↔ ∃ edge, db.edges.get hop.2 = some edge ∧
      t.direction.Leads edge.ends x hop.1 ∧ ∀ l, t.label = some l → edge.label = l := by
    have hout := mem_neighborsAlong_iff hcontext Endpoints.target hop (hsettled.outgoing x)
    have hin := mem_neighborsAlong_iff hcontext Endpoints.source hop (hsettled.incoming x)
    cases hdirection : t.direction with
    | outgoing =>
      rw [TraversalIterator.getNeighbors, hdirection]
      exact hout
    | incoming =>
      rw [TraversalIterator.getNeighbors, hdirection]
      exact hin
    | both =>
      simp only [TraversalIterator.getNeighbors, hdirection, mem_append, hout, hin,
        Direction.Leads, or_and_right, and_or_left, exists_or]
  rw [TraversalIterator.hops, mem_filter, hneighbors]
  constructor
  · rintro ⟨⟨edge, hget, hleads, hlabel⟩, hboundary⟩
    exact ⟨edge, hget, hleads, hlabel, (boundaryAllows_iff hcontext hget).mp hboundary⟩
  · rintro ⟨edge, hget, hleads, hlabel, hscope⟩
    exact ⟨⟨edge, hget, hleads, hlabel⟩, (boundaryAllows_iff hcontext hget).mpr hscope⟩

lemma step_hops (hsettled : Settled db.edges) : Bfs.Step (t.hops db) = Joined db t := by
  funext x y
  apply propext
  simp only [Bfs.Step, mem_hops_iff hcontext hsettled, Joined]
  constructor
  · rintro ⟨hop, hcrosses, rfl⟩
    exact ⟨hop.2, hcrosses⟩
  · rintro ⟨e, hcrosses⟩
    exact ⟨(y, e), hcrosses, rfl⟩

variable {places : List (Bfs.Place NodeId EdgeId)}

lemma pathTo_of_visits (hsettled : Settled db.edges) {fuel : ℕ}
    (h : Bfs.visits (t.hops db) t.depth false fuel (Bfs.start start) = some places) :
    ∀ p ∈ places, PathTo db t start p.trail p.node ∧ p.trail.length = p.depth := by
  refine Bfs.visits_forall (fun p hop hp hmem => ?_) (fun p hp => ?_) h
  · have hcrosses := (mem_hops_iff hcontext hsettled).mp hmem
    exact ⟨.snoc hp.1 hcrosses, by simp [hp.2]⟩
  · obtain rfl := mem_singleton.mp hp
    exact ⟨.nil, rfl⟩

variable (hbind : t.bindEdge = false)

include hbind

lemma emit_current (db : Db) (start : NodeId) (p : Bfs.Place NodeId EdgeId) : t.emit db start p =
      if 1 ≤ p.depth ∧ t.minDepth ≤ p.depth ∧ p.depth ≤ t.depth then
        some ((getNode db p.node).map fun node =>
          .withPath (.node node) (TraversalIterator.pathOf start p.trail)) else none := by
  simp only [TraversalIterator.emit, TraversalIterator.fetchTargetNode, hcontext, hbind]
  cases getNode db p.node <;> rfl

lemma rowFor_of_emit {p : Bfs.Place NodeId EdgeId} {r : Except StorageError QueryRow}
    (hpath : PathTo db t start p.trail p.node ∧ p.trail.length = p.depth)
    (h : t.emit db start p = some r) : RowFor db t start (p.node, p.depth) r := by
  rw [emit_current hcontext hbind] at h
  split_ifs at h
  cases h
  simp only [RowFor, getNode]
  cases db.nodes.get p.node with
  | none => rfl
  | some x => exact ⟨p.trail, hpath.1, hpath.2, rfl⟩

lemma forall₂_rowFor
    (h : ∀ p ∈ places, PathTo db t start p.trail p.node ∧ p.trail.length = p.depth) :
    List.Forall₂ (RowFor db t start)
      ((places.filter fun p => 1 ≤ p.depth ∧ t.minDepth ≤ p.depth ∧ p.depth ≤ t.depth).map
        fun p => (p.node, p.depth)) (places.filterMap (t.emit db start)) := by
  induction places with
  | nil => exact .nil
  | cons p places ih =>
    have hrest := ih fun q hq => h q (mem_cons_of_mem _ hq)
    have hemit := emit_current hcontext hbind db start p
    split_ifs at hemit with hrange
    · rw [filter_cons_of_pos (by simpa using hrange), map_cons,
        filterMap_cons_some hemit]
      exact .cons (rowFor_of_emit hcontext hbind (h p mem_cons_self) hemit) hrest
    · rw [filter_cons_of_neg (by simpa using hrange), filterMap_cons_none hemit]
      exact hrest

/-- **The search from one node.** -/
lemma searched_of_visits (hsettled : Settled db.edges) {fuel : ℕ}
    (h : Bfs.visits (t.hops db) t.depth false fuel (Bfs.start start) = some places) :
    Searched db t start (places.filterMap (t.emit db start)) := by
  obtain ⟨hnodup, hspec⟩ := Bfs.visits_start h
  rw [step_hops hcontext hsettled] at hspec
  refine ⟨_, ?_, fun w d => ?_, ?_,
    forall₂_rowFor hcontext hbind (pathTo_of_visits hcontext hsettled h)⟩
  · rw [map_map]
    exact hnodup.sublist (List.Sublist.map _ filter_sublist)
  · simp only [mem_map, mem_filter, decide_eq_true_eq, Prod.mk.injEq]
    constructor
    · rintro ⟨p, ⟨hp, hrange⟩, rfl, rfl⟩
      exact ⟨((hspec _ _).mp ⟨p, hp, rfl, rfl⟩).1, hrange⟩
    · rintro ⟨hdist, hrange⟩
      obtain ⟨p, hp, rfl, rfl⟩ := (hspec w d).mpr ⟨hdist, hrange.2.2⟩
      exact ⟨p, ⟨hp, hrange⟩, rfl, rfl⟩
  · rw [pairwise_map]
    exact ((Bfs.invariant_start start).pairwise_visits h).sublist filter_sublist

end Current

/-- **Traversal of the current graph.** With enough fuel the iterator ends, and its rows are, for
each node of the input in turn, the nodes of the graph within the bounds: each once, nearest first,
with a path of as many edges as it is away, or the report that its record is gone. -/
theorem rows_current_exact (hsettled : Settled db.edges) (hcontext : t.temporalContext = none)
    (hbind : t.bindEdge = false) (input : List (Except StorageError QueryRow)) :
    ∃ enough, ∀ fuel, enough ≤ fuel →
      ∃ rows, t.rows db fuel input = some rows ∧ SearchedAll db t input rows := by
  induction input with
  | nil => exact ⟨0, fun fuel _ => ⟨[], rfl, .nil⟩⟩
  | cons item input ih =>
    obtain ⟨enough, henough⟩ := ih
    cases item with
    | error e =>
      refine ⟨enough, fun fuel hfuel => ?_⟩
      obtain ⟨rows, hrows, hall⟩ := henough fuel hfuel
      exact ⟨.error e :: rows, by simp [TraversalIterator.rows, hrows], .error hall⟩
    | ok row =>
      cases hid : row.entity.nodeId? with
      | none =>
        refine ⟨enough, fun fuel hfuel => ?_⟩
        obtain ⟨rows, hrows, hall⟩ := henough fuel hfuel
        exact ⟨rows, by simp [TraversalIterator.rows, hid, hrows], .other hid hall⟩
      | some start =>
        refine ⟨max enough (Bfs.ball (t.hops db) start t.depth).card, fun fuel hfuel => ?_⟩
        obtain ⟨rows, hrows, hall⟩ := henough fuel ((le_max_left _ _).trans hfuel)
        obtain ⟨places, hplaces⟩ : ∃ places,
            Bfs.visits (t.hops db) t.depth false fuel (Bfs.start start) = some places :=
          Bfs.exists_visits start ((le_max_right _ _).trans hfuel)
        have hhere : t.rowsFrom db fuel start = some (places.filterMap (t.emit db start)) := by
          rw [TraversalIterator.rowsFrom, hbind, hplaces]
          rfl
        refine ⟨_, ?_, .node hid (searched_of_visits hcontext hbind hsettled hplaces) hall⟩
        simp [TraversalIterator.rows, hid, hrows, hhere]

def oneEdge : Db :=
  { Db.init 1000 none [] with
    nodes := ((CurrentStorage.empty []).insert ⟨0⟩ ⟨0, ∅, (), .new 0, ⟨⟨0⟩, none⟩⟩).insert ⟨1⟩
      ⟨0, ∅, (), .new 1, ⟨⟨0⟩, none⟩⟩
    edges := (CurrentStorage.empty []).insert ⟨0⟩ ⟨5, ∅, ⟨⟨0⟩, ⟨1⟩⟩, .new 2, ⟨⟨0⟩, none⟩⟩ }

theorem rows_current_exact_oneEdge :
    ∃ enough, ∀ fuel, enough ≤ fuel → ∃ rows,
      TraversalIterator.rows oneEdge ⟨.both, some 5, 1, 2, none, false, some fun _ => true⟩ fuel
          [.ok ⟨.nodeId ⟨0⟩, none, none, none, none, none⟩, .error (.edgeNotFound ⟨3⟩),
            .ok ⟨.nodeId ⟨1⟩, none, none, none, none, none⟩] = some rows ∧
        SearchedAll oneEdge ⟨.both, some 5, 1, 2, none, false, some fun _ => true⟩
          [.ok ⟨.nodeId ⟨0⟩, none, none, none, none, none⟩, .error (.edgeNotFound ⟨3⟩),
            .ok ⟨.nodeId ⟨1⟩, none, none, none, none, none⟩] rows :=
  rows_current_exact ((settled_empty []).insert (by simp)) rfl rfl _

/-- A transaction creates nodes 0 and 1 and an edge between them; a later one deletes node 1 and
leaves the edge. -/
def edgeOrphaned : List Action :=
  edgeDeleted.take 4 ++ System.commitSteps 0 ⟨2, 0⟩ ++
    [Action.begin ⟨3, 0⟩ (.ofWallclock 3), .buffer 1 (.node (.delete ⟨1⟩ none none)) ⟨3, 0⟩] ++
    System.commitSteps 1 ⟨4, 0⟩

/-- The traversal of the edge emits no node but an error. -/
theorem traversal_reports_orphan :
    ∃ sys, Machine.run System.step (System.start (.init 1000 (some 1000000) []) ⟨[], ∅, []⟩ ⟨0, 0⟩)
        edgeOrphaned = some sys ∧
      sys.db.nodes.get ⟨1⟩ = none ∧
      Crosses sys.db ⟨.outgoing, none, 1, 1, none, false, none⟩ ⟨0⟩ ⟨0⟩ ⟨1⟩ ∧
      TraversalIterator.rowsFrom sys.db ⟨.outgoing, none, 1, 1, none, false, none⟩ 3 ⟨0⟩ =
        some [.error (.nodeNotFound ⟨1⟩)] := by
  have heval : (Machine.run System.step
      (System.start (.init 1000 (some 1000000) []) ⟨[], ∅, []⟩ ⟨0, 0⟩) edgeOrphaned).map (fun sys =>
        ((sys.db.nodes.get ⟨1⟩).isNone, (sys.db.edges.get ⟨0⟩).map Entity.ends,
          (TraversalIterator.rowsFrom sys.db ⟨.outgoing, none, 1, 1, none, false, none⟩ 3 ⟨0⟩).map
            (List.map fun r => match r with
              | .error e => some e
              | .ok _ => none))) =
      some (true, some ⟨⟨0⟩, ⟨1⟩⟩, some [some (.nodeNotFound ⟨1⟩)]) := by
    decide +kernel
  obtain ⟨sys, hrun, hout⟩ := Option.map_eq_some_iff.mp heval
  simp only [Prod.mk.injEq, Option.map_eq_some_iff, Option.isNone_iff_eq_none] at hout
  obtain ⟨hnode, ⟨edge, hedge, hends⟩, rows, hrows, hmap⟩ := hout
  refine ⟨sys, hrun, hnode, ⟨edge, hedge, by simp [Direction.Leads, hends], by simp, by simp⟩, ?_⟩
  rw [hrows]
  obtain ⟨r, rest, rfl, hr, hrest⟩ := map_eq_cons_iff.mp hmap
  obtain rfl := map_eq_nil_iff.mp hrest
  cases r with
  | error e => rw [Option.some.inj hr]
  | ok row => cases hr

end Aletheia.Query

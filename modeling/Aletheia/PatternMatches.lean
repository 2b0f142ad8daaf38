import Aletheia.CypherPatterns

/-!
# Pattern matching is exact

What an assignment of entities to pattern elements has to satisfy, and that `match_bindings` lists
one binding for each such assignment. The matcher checks edges and variables one after the other; an
assignment that passes has no edge twice and no variable with two meanings, and conversely.
-/

namespace Aletheia.Cypher

open Enumeration List
open Query (EntityResult getNode getEdge Settled)

variable {n : Query.Node} {a : List Walk} {env : List PartialBinding} {cap : ℕ} {x : Text}

/-! ### Assignments -/

/-- Nodes and relationships take turns, a relationship first. -/
def Alternates : List CypherPatternElement → Prop
  | [] => True
  | .relationship _ :: .node _ :: rest => Alternates rest
  | _ => False

def CypherPattern.WellFormed (p : CypherPattern) : Prop :=
  ∃ first rest, p.elements = .node first :: rest ∧ Alternates rest

def CypherDirection.Joins (u : NodeId) (e : Query.Edge) (v : NodeId) : CypherDirection → Prop
  | .outgoing => e.ends.source = u ∧ e.ends.target = v
  | .incoming => e.ends.target = u ∧ e.ends.source = v
  | .both => (e.ends.source = u ∧ e.ends.target = v) ∨ (e.ends.target = u ∧ e.ends.source = v)

/-- What a pattern is assigned: its first node, then an edge and a node for each relationship. -/
abbrev Walk := Query.Node × List (Query.Edge × Query.Node)

def Walk.edges (w : Walk) : List EdgeId := w.2.map (·.1.id)

variable (ctx : EvalContext) (db : Db)

/-- A node of the graph that satisfies its element. -/
def NodeFits (patt : CypherNodePattern) (n : Query.Node) : Prop :=
  getNode db n.id = .ok n ∧ nodeElementMatches ctx n patt = .ok true

def EdgeFits (rel : CypherRelPattern) (e : Query.Edge) : Prop :=
  getEdge db e.id = .ok e ∧ edgeMatches ctx e rel = .ok true

def StepsFit : List CypherPatternElement → NodeId → List (Query.Edge × Query.Node) → Prop
  | [], _, [] => True
  | .relationship rel :: .node next :: rest, u, (e, n) :: steps =>
    (EdgeFits ctx db rel e ∧ rel.direction.Joins u e n.id) ∧ NodeFits ctx db next n ∧
      StepsFit rest n.id steps
  | _, _, _ => False

def PatternFits (p : CypherPattern) (w : Walk) : Prop :=
  match p.elements with
  | .node first :: rest => NodeFits ctx db first w.1 ∧ StepsFit ctx db rest w.1.id w.2
  | _ => False

/-- The variables of a pattern with what they are assigned. -/
def stepOccurrences : List CypherPatternElement → List (Query.Edge × Query.Node) →
    List (Option Text × EntityResult)
  | .relationship rel :: .node next :: rest, (e, n) :: steps =>
    (next.var, .node n) :: (rel.var, .edge e) :: stepOccurrences rest steps
  | _, _ => []

def occurrences (p : CypherPattern) (w : Walk) : List (Option Text × EntityResult) :=
  match p.elements with
  | .node first :: rest => (first.var, .node w.1) :: stepOccurrences rest w.2
  | _ => []

def allOccurrences (ps : List CypherPattern) (a : List Walk) : List (Option Text × EntityResult) :=
  (ps.zip a).flatMap fun x => occurrences x.1 x.2

/-- **An assignment satisfies the patterns.** -/
structure Satisfies (ps : List CypherPattern) (a : List Walk) : Prop where
  fits : List.Forall₂ (PatternFits ctx db) ps a
  /-- no edge is used by two relationship elements -/
  distinct : (a.flatMap Walk.edges).Nodup
  /-- equal variables denote the same entity -/
  consistent : ∀ x e e', (some x, e) ∈ allOccurrences ps a → (some x, e') ∈ allOccurrences ps a →
    entityRef e = entityRef e'

/-- A variable is bound where it occurs first. -/
def addVar (vars : Binding) (o : Option Text × EntityResult) : Binding :=
  match o.1 with
  | none => vars
  | some x => if (lookup vars x).isNone then vars ++ [(x, o.2)] else vars

/-- The binding of an assignment: what each variable denotes. -/
def bindingOf (ps : List CypherPattern) (a : List Walk) : Binding :=
  (allOccurrences ps a).foldl addVar []

/-! ### Variables -/

def bindVars (vars : Binding) (os : List (Option Text × EntityResult)) : Option Binding :=
  os.foldlM (fun vars o => bindVar vars o.1 o.2) vars

variable {ctx db} {vars : Binding} {os : List (Option Text × EntityResult)}

@[simp] lemma bindVars_nil : bindVars vars [] = some vars := rfl

@[simp] lemma bindVars_cons {o : Option Text × EntityResult} :
    bindVars vars (o :: os) = (bindVar vars o.1 o.2).bind (bindVars · os) := rfl

lemma bindVars_append {os' : List (Option Text × EntityResult)} :
    bindVars vars (os ++ os') = (bindVars vars os).bind (bindVars · os') := by
  rw [bindVars, foldlM_append]
  rfl

variable {e : EntityResult}

lemma lookup_append {x y : Text} :
    lookup (vars ++ [(y, e)]) x = (lookup vars x).or (if y = x then some e else none) := by
  simp only [lookup, List.find?_append, Option.map_or, List.find?_singleton]
  split_ifs <;> simp_all

lemma lookup_foldl_addVar (os : List (Option Text × EntityResult)) (h : lookup vars x = some e) :
    lookup (os.foldl addVar vars) x = some e := by
  induction os generalizing vars with
  | nil => exact h
  | cons o os ih =>
    refine ih ?_
    obtain ⟨_ | y, e'⟩ := o
    · exact h
    · simp only [addVar]
      split_ifs
      · rw [lookup_append, h]
        rfl
      · exact h

lemma bindVars_eq_some_iff {b : Binding} : bindVars vars os = some b ↔ b = os.foldl addVar vars ∧
    ∀ x e, (some x, e) ∈ os → (lookup (os.foldl addVar vars) x).map entityRef =
      some (entityRef e) := by
  induction os generalizing vars with
  | nil => simp [eq_comm]
  | cons o os ih =>
    obtain ⟨_ | x, e⟩ := o
    · simp [bindVar, ih, addVar]
    · rw [bindVars_cons, foldl_cons, bindVar]
      cases hx : lookup vars x with
      | none =>
        have hadd : addVar vars (some x, e) = vars ++ [(x, e)] := by simp [addVar, hx]
        have hfirst : lookup (os.foldl addVar (vars ++ [(x, e)])) x = some e :=
          lookup_foldl_addVar _ (by simp [lookup_append, hx])
        simp only [hadd, Option.bind_some, ih, mem_cons, Prod.mk.injEq, Option.some.injEq]
        refine and_congr_right fun _ =>
          ⟨fun h y e' hmem => ?_, fun h y e' hmem => h y e' (.inr hmem)⟩
        obtain ⟨rfl, rfl⟩ | hmem := hmem
        · simp [hfirst]
        · exact h y e' hmem
      | some old =>
        have hadd : addVar vars (some x, e) = vars := by simp [addVar, hx]
        have hfirst := lookup_foldl_addVar os hx
        simp only [hadd, mem_cons, Prod.mk.injEq, Option.some.injEq]
        by_cases heq : entityRef old = entityRef e
        · simp only [heq, if_true, Option.bind_some, ih]
          refine and_congr_right fun _ =>
            ⟨fun h y e' hmem => ?_, fun h y e' hmem => h y e' (.inr hmem)⟩
          obtain ⟨rfl, rfl⟩ | hmem := hmem
          · simp [hfirst, heq]
          · exact h y e' hmem
        · simp only [heq, if_false, Option.bind_none, reduceCtorEq, false_iff]
          rintro ⟨-, h⟩
          have := h x e (.inl ⟨rfl, rfl⟩)
          simp only [hfirst, Option.map_some, Option.some.injEq] at this
          exact heq this

lemma mem_of_lookup_foldl_addVar (h : lookup (os.foldl addVar vars) x = some e) :
    lookup vars x = some e ∨ (some x, e) ∈ os := by
  induction os generalizing vars with
  | nil => exact .inl h
  | cons o os ih =>
    obtain h | h := ih h
    · obtain ⟨_ | y, e'⟩ := o
      · exact .inl h
      · simp only [addVar] at h
        split_ifs at h
        · rw [lookup_append] at h
          obtain h | ⟨-, h⟩ := Option.or_eq_some_iff.mp h
          · exact .inl h
          · simp only [Option.ite_none_right_eq_some, Option.some.injEq] at h
            obtain ⟨rfl, rfl⟩ := h
            exact .inr mem_cons_self
        · exact .inl h
    · exact .inr (mem_cons_of_mem _ h)

lemma exists_lookup_foldl_addVar (vars : Binding) (h : (some x, e) ∈ os) :
    ∃ e', lookup (os.foldl addVar vars) x = some e' := by
  induction os generalizing vars with
  | nil => cases h
  | cons o os ih =>
    obtain rfl | h := mem_cons.mp h
    · cases hx : lookup vars x with
      | none =>
        have hadd : addVar vars (some x, e) = vars ++ [(x, e)] := by simp [addVar, hx]
        rw [foldl_cons, hadd]
        exact ⟨e, lookup_foldl_addVar _ (by simp [hx, lookup_append])⟩
      | some e' => exact ⟨e', lookup_foldl_addVar _ hx⟩
    · exact ih _ h

/-- All occurrences can be bound if and only if equal variables denote the same entity. -/
lemma bindVars_isSome_iff : (bindVars [] os).isSome = true ↔
    ∀ x e e', (some x, e) ∈ os → (some x, e') ∈ os → entityRef e = entityRef e' := by
  rw [Option.isSome_iff_exists]
  simp only [bindVars_eq_some_iff, exists_eq_left]
  constructor
  · intro h x e e' he he'
    simpa using (h x e he).symm.trans (h x e' he')
  · intro h x e he
    obtain ⟨e', hx⟩ := exists_lookup_foldl_addVar [] he
    obtain hnil | he' := mem_of_lookup_foldl_addVar hx
    · cases hnil
    · rw [hx, Option.map_some, h x e' e he' he]

/-! ### Candidates -/

/-- An unbound parameter ends the search. -/
def Unbound (ctx : EvalContext) (e : MatchError) : Prop :=
  ∃ name, ctx.params name = none ∧ e = .eval (.unboundParameter name)

variable {allowed : MatchError → Prop} (hunbound : ∀ e, Unbound ctx e → allowed e)

include hunbound in
lemma meets_propsMatch (properties : PropertyMap) (ps : List (Text × CypherValue)) :
    Meets allowed (fun b => propsMatch ctx properties ps = .ok b)
      (propsMatch ctx properties ps) := by
  induction ps with
  | nil => rfl
  | cons p ps ih =>
    obtain ⟨key, want⟩ := p
    rw [propsMatch]
    cases ctx.getProperty properties key with
    | none => rfl
    | some actual =>
      cases hwant : ctx.cypherValueToProperty want with
      | error e =>
        refine hunbound _ ?_
        cases want <;> simp only [EvalContext.cypherValueToProperty, reduceCtorEq] at hwant
        case parameter name =>
          cases hp : ctx.params name with
          | none => exact ⟨name, hp, by simpa [hp, eq_comm] using hwant⟩
          | some v => simp [hp] at hwant
      | ok want =>
        dsimp only
        split_ifs
        · exact ih
        · rfl

include hunbound in
lemma meets_nodeElementMatches (n : Query.Node) (patt : CypherNodePattern) :
    Meets allowed (fun b => nodeElementMatches ctx n patt = .ok b)
      (nodeElementMatches ctx n patt) := by
  rw [nodeElementMatches]
  split_ifs
  · exact meets_propsMatch hunbound _ _
  · rfl

include hunbound in
lemma meets_edgeMatches (e : Query.Edge) (rel : CypherRelPattern) :
    Meets allowed (fun b => edgeMatches ctx e rel = .ok b) (edgeMatches ctx e rel) := by
  rw [edgeMatches]
  split_ifs
  · rfl
  · exact meets_propsMatch hunbound _ _

lemma getNode_id {id : NodeId} (h : getNode db id = .ok n) : n.id = id := by
  rw [getNode] at h
  split at h
  · cases h
  · cases h
    rfl

lemma getEdge_id {id : EdgeId} {e : Query.Edge} (h : getEdge db id = .ok e) : e.id = id := by
  rw [getEdge] at h
  split at h
  · cases h
  · cases h
    rfl

lemma mem_allNodes : n ∈ allNodes db ↔ getNode db n.id = .ok n := by
  have hopt : ∀ i, (getNode db i).toOption = some n ↔ getNode db i = .ok n := by
    intro i
    cases getNode db i <;> simp [Except.toOption]
  simp only [allNodes, mem_filterMap, Finset.mem_sort, Finset.mem_image, hopt]
  constructor
  · rintro ⟨i, -, h⟩
    rwa [getNode_id h]
  · intro h
    refine ⟨n.id.val, ⟨n.id, ?_, rfl⟩, h⟩
    rw [getNode] at h
    cases hget : db.nodes.get n.id with
    | none => simp [hget] at h
    | some x => exact Finmap.mem_keys.mpr (Finmap.mem_of_lookup_eq_some hget)

lemma nodup_allNodes : (allNodes db).Nodup := by
  refine (Finset.sort_nodup _ _).filterMap fun i j n hi hj => ?_
  have hid : ∀ k, n ∈ (getNode db ⟨k⟩).toOption → n.id = ⟨k⟩ := by
    intro k hk
    cases hget : getNode db ⟨k⟩ with
    | error e => simp [hget, Except.toOption] at hk
    | ok n' =>
      simp only [hget, Except.toOption, Option.mem_def, Option.some.injEq] at hk
      rw [← hk]
      exact getNode_id hget
  simpa using (hid i hi).symm.trans (hid j hj)

lemma nodeRef_eq_some_iff {id : NodeId} : nodeRef db id = some n ↔ getNode db id = .ok n := by
  constructor
  · intro h
    have hid : n.id = id := by simpa using List.find?_some h
    exact hid ▸ mem_allNodes.mp (mem_of_find?_eq_some h)
  · intro h
    have hid := getNode_id h
    have hmem : n ∈ allNodes db := mem_allNodes.mpr (hid ▸ h)
    cases hfind : nodeRef db id with
    | none =>
      have := List.find?_eq_none.mp hfind n hmem
      simp [hid] at this
    | some n' =>
      have hid' : n'.id = id := by simpa using List.find?_some hfind
      have hn' := mem_allNodes.mp (mem_of_find?_eq_some hfind)
      rw [hid', h] at hn'
      cases hn'
      rfl

include hunbound in
lemma meets_scanNodeCandidates (patt : CypherNodePattern) :
    Meets allowed (Enumerates (NodeFits ctx db patt) Eq) (scanNodeCandidates ctx db patt) := by
  have hall : Enumerates (fun n => getNode db n.id = .ok n) Eq (allNodes db) :=
    ⟨allNodes db, nodup_allNodes, fun n => mem_allNodes, forall₂_same.mpr fun _ _ => rfl⟩
  refine (meets_flatMapE (fun n u => NodeFits ctx db patt n ∧ u = n) hall ?_ ?_).imp
    fun out hout => hout.congr (fun n => ?_) fun _ _ _ hR => hR
  · rintro n _ hn rfl
    refine (meets_nodeElementMatches hunbound n patt).bind fun b hb => ?_
    cases b with
    | false => exact .nil fun u ⟨hfit, _⟩ => by cases hb.symm.trans hfit.2
    | true => exact .singleton n (fun u => and_iff_right ⟨hn, hb⟩) rfl
  · rintro n n' u - - ⟨-, rfl⟩ ⟨-, rfl⟩
    rfl
  · exact ⟨fun hn => ⟨n, hn.1, hn, rfl⟩, fun ⟨n', _, hn', heq⟩ => heq ▸ hn'⟩

/-! ### Adjacent edges -/

variable {rel : CypherRelPattern}

include hunbound in
lemma meets_collectEdges (far : Endpoints → NodeId) (ids : List EdgeId)
    (result : List (Query.Edge × NodeId)) (hnodup : (result.map (·.1.id)).Nodup) :
    Meets allowed (fun out => (out.map (·.1.id)).Nodup ∧ ∀ p, p ∈ out ↔ p ∈ result ∨
        ((p.1.id ∈ ids ∧ EdgeFits ctx db rel p.1 ∧ p.2 = far p.1.ends) ∧
          p.1.id ∉ result.map (·.1.id))) (collectEdges ctx db rel far result ids) := by
  induction ids generalizing result with
  | nil => exact ⟨hnodup, fun p => by simp⟩
  | cons id ids ih =>
    rw [collectEdges]
    cases hget : getEdge db id with
    | error _ =>
      refine (ih result hnodup).imp fun out ⟨hout, hmem⟩ => ⟨hout, fun p => ?_⟩
      have hid : ∀ p : Query.Edge × NodeId, EdgeFits ctx db rel p.1 → p.1.id ≠ id := by
        rintro p hfit rfl
        cases hget.symm.trans hfit.1
      rw [hmem, mem_cons]
      grind
    | ok e =>
      have hid := getEdge_id hget
      have huniq : ∀ e', EdgeFits ctx db rel e' → e'.id = id → e' = e := by
        rintro e' hfit rfl
        cases hfit.1.symm.trans hget
        rfl
      refine (meets_edgeMatches hunbound e rel).bind fun b hb => ?_
      by_cases hadd : (b && !result.any fun p => p.1.id = e.id) = true
      · rw [if_pos hadd]
        obtain ⟨rfl, hnew⟩ : b = true ∧ id ∉ result.map (·.1.id) := by
          simpa [hid] using hadd
        have hfit : EdgeFits ctx db rel e := ⟨hid ▸ hget, hb⟩
        refine (ih _ ?_).imp fun out ⟨hout, hmem⟩ => ⟨hout, fun p => ?_⟩
        · rw [map_append, nodup_append]
          refine ⟨hnodup, nodup_singleton _, fun i hi j hj heq => hnew ?_⟩
          rw [map_singleton, mem_singleton] at hj
          rwa [heq, hj, hid] at hi
        · rw [hmem, mem_cons, map_append, mem_append, mem_append]
          grind
      · rw [if_neg hadd]
        refine (ih result hnodup).imp fun out ⟨hout, hmem⟩ => ⟨hout, fun p => ?_⟩
        rw [hmem, mem_cons]
        have hold : EdgeFits ctx db rel e → id ∈ result.map (·.1.id) := by
          intro hfit
          cases hb.symm.trans hfit.2
          simpa [hid] using hadd
        grind

variable (hsettled : Settled db.edges)

include hsettled in
lemma mem_outgoing_iff {e : Query.Edge} (h : getEdge db e.id = .ok e) (n : NodeId) :
    e.id ∈ db.edges.outgoing n ↔ e.ends.source = n := by
  rw [getEdge] at h
  rw [hsettled.outgoing]
  cases hget : db.edges.get e.id with
  | none => simp [hget] at h
  | some x =>
    simp only [hget, Except.ok.injEq] at h
    simp [← congrArg Query.Edge.ends h]

include hsettled in
lemma mem_incoming_iff {e : Query.Edge} (h : getEdge db e.id = .ok e) (n : NodeId) :
    e.id ∈ db.edges.incoming n ↔ e.ends.target = n := by
  rw [getEdge] at h
  rw [hsettled.incoming]
  cases hget : db.edges.get e.id with
  | none => simp [hget] at h
  | some x =>
    simp only [hget, Except.ok.injEq] at h
    simp [← congrArg Query.Edge.ends h]

include hunbound hsettled in
lemma meets_adjacent (n : NodeId) : Meets allowed
      (Enumerates (fun p => EdgeFits ctx db rel p.1 ∧ rel.direction.Joins n p.1 p.2) Eq)
      (adjacent ctx db n rel) := by
  have hlist : ∀ (d : CypherDirection) (out : List (Query.Edge × NodeId)),
      (out.map (·.1.id)).Nodup →
      (∀ p, p ∈ out ↔ EdgeFits ctx db rel p.1 ∧ d.Joins n p.1 p.2) →
      Enumerates (fun p => EdgeFits ctx db rel p.1 ∧ d.Joins n p.1 p.2) Eq out :=
    fun d out hnodup hmem => ⟨out, hnodup.of_map _, hmem, forall₂_same.mpr fun _ _ => rfl⟩
  have hout : ∀ p : Query.Edge × NodeId, EdgeFits ctx db rel p.1 →
      (p.1.id ∈ db.edges.outgoing n ↔ p.1.ends.source = n) :=
    fun p hp => mem_outgoing_iff hsettled hp.1 n
  have hin : ∀ p : Query.Edge × NodeId, EdgeFits ctx db rel p.1 →
      (p.1.id ∈ db.edges.incoming n ↔ p.1.ends.target = n) :=
    fun p hp => mem_incoming_iff hsettled hp.1 n
  rw [adjacent]
  cases rel.direction with
  | outgoing =>
    refine (meets_collectEdges hunbound Endpoints.target (db.edges.outgoing n) [] (by simp)).bind
      fun out ⟨hnodup, hmem⟩ => hlist _ out hnodup fun p => ?_
    rw [hmem, CypherDirection.Joins]
    have := hout p
    grind
  | incoming =>
    refine (meets_collectEdges hunbound Endpoints.source (db.edges.incoming n) [] (by simp)).imp
      fun out ⟨hnodup, hmem⟩ => hlist _ out hnodup fun p => ?_
    rw [hmem, CypherDirection.Joins]
    have := hin p
    grind
  | both =>
    refine (meets_collectEdges hunbound Endpoints.target (db.edges.outgoing n) [] (by simp)).bind
      fun first ⟨hnodup, hmem⟩ => ?_
    refine (meets_collectEdges hunbound Endpoints.source (db.edges.incoming n) first hnodup).imp
      fun out ⟨hnodup', hmem'⟩ => hlist _ out hnodup' fun p => ?_
    -- a self-loop is found by the first loop, with the same far end
    have hfirst : EdgeFits ctx db rel p.1 →
        (p.1.id ∈ first.map (·.1.id) ↔ p.1.ends.source = n) := by
      intro hfit
      rw [← hout p hfit, mem_map]
      constructor
      · rintro ⟨q, hq, hid⟩
        have hq := (hmem q).mp hq
        grind
      · intro hmemOut
        refine ⟨(p.1, p.1.ends.target), (hmem _).mpr (.inr ⟨⟨hmemOut, hfit, rfl⟩, ?_⟩), rfl⟩
        exact not_mem_nil
    rw [hmem', hmem, CypherDirection.Joins]
    have := hin p
    have := hout p
    grind

/-! ### Extension along a pattern -/

/-- The steps that may follow from a node, given what is bound and used already. -/
structure StepsFrom (ctx : EvalContext) (db : Db) (elements : List CypherPatternElement)
    (base : PartialBinding) (u : NodeId) (steps : List (Query.Edge × Query.Node)) : Prop where
  fits : StepsFit ctx db elements u steps
  distinct : (base.usedEdges ++ steps.map (·.1.id)).Nodup
  bound : (bindVars base.vars (stepOccurrences elements steps)).isSome

/-- The binding that the steps lead to. -/
structure Reaches (base : PartialBinding) (os : List (Option Text × EntityResult))
    (used : List EdgeId) (b : PartialBinding) : Prop where
  vars : bindVars base.vars os = some b.vars
  usedEdges : b.usedEdges = base.usedEdges ++ used

lemma Reaches.unique {base b b' : PartialBinding} {used : List EdgeId}
    (h : Reaches base os used b) (h' : Reaches base os used b') : b = b' := by
  obtain ⟨vars, usedEdges⟩ := b
  obtain ⟨vars', usedEdges'⟩ := b'
  obtain rfl : vars = vars' := by simpa using h.vars.symm.trans h'.vars
  obtain rfl : usedEdges = usedEdges' := h.usedEdges.trans h'.usedEdges.symm
  rfl

section Step

variable {next : CypherNodePattern} {rest : List CypherPatternElement} {base : PartialBinding}
  {u : NodeId} {e : Query.Edge} {steps : List (Query.Edge × Query.Node)}

lemma stepsFrom_cons_iff : StepsFrom ctx db (.relationship rel :: .node next :: rest) base u steps ↔
      ∃ e n steps', steps = (e, n) :: steps' ∧
        (EdgeFits ctx db rel e ∧ rel.direction.Joins u e n.id) ∧ NodeFits ctx db next n ∧
        e.id ∉ base.usedEdges ∧
        ∃ vars, (bindVar base.vars next.var (.node n)).bind (bindVar · rel.var (.edge e)) =
            some vars ∧ StepsFrom ctx db rest ⟨vars, base.usedEdges ++ [e.id]⟩ n.id steps' := by
  constructor
  · rintro ⟨hfits, hdistinct, hbound⟩
    obtain _ | ⟨⟨e, n⟩, steps⟩ := steps
    · exact hfits.elim
    obtain ⟨hedge, hnode, hrest⟩ := hfits
    refine ⟨e, n, steps, rfl, hedge, hnode, fun hmem => ?_, ?_⟩
    · exact (nodup_append.mp hdistinct).2.2 _ hmem _ mem_cons_self rfl
    · rw [stepOccurrences, bindVars_cons] at hbound
      simp only [bindVars_cons, ← Option.bind_assoc] at hbound
      cases hvars : (bindVar base.vars next.var (.node n)).bind (bindVar · rel.var (.edge e)) with
      | none => simp [hvars] at hbound
      | some vars =>
        refine ⟨vars, rfl, hrest, ?_, by simpa [hvars] using hbound⟩
        simpa using hdistinct
  · rintro ⟨e, n, steps, rfl, hedge, hnode, -, vars, hvars, hrest, hdistinct, hbound⟩
    refine ⟨⟨hedge, hnode, hrest⟩, by simpa using hdistinct, ?_⟩
    rw [stepOccurrences, bindVars_cons]
    simp only [bindVars_cons, ← Option.bind_assoc, hvars]
    exact hbound

lemma stepsFrom_head {farId : NodeId}
    (h : (∃ far steps', steps = (e, far) :: steps' ∧ far.id = farId) ∧
      StepsFrom ctx db (.relationship rel :: .node next :: rest) base u steps) :
    e.id ∉ base.usedEdges ∧ ∃ far, nodeRef db farId = some far ∧
      nodeElementMatches ctx far next = .ok true ∧ ∃ vars steps', steps = (e, far) :: steps' ∧
        (bindVar base.vars next.var (.node far)).bind (bindVar · rel.var (.edge e)) = some vars ∧
        StepsFrom ctx db rest ⟨vars, base.usedEdges ++ [e.id]⟩ far.id steps' := by
  obtain ⟨⟨far, steps', rfl, rfl⟩, h⟩ := h
  obtain ⟨_, _, _, heq, -, hnode, hnew, vars, hvars, hrest⟩ := stepsFrom_cons_iff.mp h
  cases heq
  exact ⟨hnew, far, nodeRef_eq_some_iff.mpr hnode.1, hnode.2, vars, steps', rfl, hvars, hrest⟩

lemma Reaches.cons {vars : Binding} {b : PartialBinding}
    (hvars : (bindVar base.vars next.var (.node n)).bind (bindVar · rel.var (.edge e)) = some vars)
    (h : Reaches ⟨vars, base.usedEdges ++ [e.id]⟩ (stepOccurrences rest steps)
      (steps.map (·.1.id)) b) :
    Reaches base (stepOccurrences (.relationship rel :: .node next :: rest) ((e, n) :: steps))
      (((e, n) :: steps).map (·.1.id)) b := by
  obtain ⟨hbind, hused⟩ := h
  refine ⟨?_, by simpa using hused⟩
  rw [stepOccurrences, bindVars_cons]
  simp only [bindVars_cons, ← Option.bind_assoc, hvars]
  exact hbind

end Step

include hunbound hsettled in
/-- **The search along a pattern lists the steps that may follow.** -/
lemma meets_extendFrom : ∀ (elements : List CypherPatternElement) (base : PartialBinding)
    (u : NodeId), Alternates elements → base.usedEdges.Nodup →
    Meets allowed (Enumerates (StepsFrom ctx db elements base u)
        fun steps => Reaches base (stepOccurrences elements steps) (steps.map (·.1.id)))
      (extendFrom ctx db elements base u)
  | [], base, u, _, hused => by
    refine .singleton [] (fun steps => ?_) ⟨rfl, by simp⟩
    cases steps with
    | nil => exact iff_of_true ⟨trivial, by simpa using hused, rfl⟩ rfl
    | cons s steps => exact ⟨fun h => h.fits.elim, fun h => by cases h⟩
  | .relationship rel :: .node next :: rest, base, u, halt, hused => by
    rw [extendFrom]
    refine (meets_adjacent hunbound hsettled u).bind fun adj hadj => ?_
    refine (meets_flatMapE (fun p steps => (∃ far steps', steps = (p.1, far) :: steps' ∧
      far.id = p.2) ∧ StepsFrom ctx db (.relationship rel :: .node next :: rest) base u steps)
      hadj ?_ ?_).imp fun out hout => hout.congr (fun steps => ?_) fun _ _ _ hR => hR
    · rintro ⟨e, farId⟩ _ hedge rfl
      have hhead := fun steps => @stepsFrom_head ctx db rel next rest base u e steps farId
      by_cases hused' : e.id ∈ base.usedEdges
      · simp only [hused', if_true]
        exact .nil fun steps h => (hhead steps h).1 hused'
      simp only [hused', if_false]
      cases hfar : nodeRef db farId with
      | none =>
        refine .nil fun steps h => ?_
        obtain ⟨-, far, hfar', -⟩ := hhead steps h
        cases hfar.symm.trans hfar'
      | some far =>
        have hget := nodeRef_eq_some_iff.mp hfar
        obtain rfl := getNode_id hget
        refine (meets_nodeElementMatches hunbound far next).bind fun b hb => ?_
        cases b with
        | false =>
          refine .nil fun steps h => ?_
          obtain ⟨-, far', hfar', hmatch, -⟩ := hhead steps h
          cases hfar.symm.trans hfar'
          cases hb.symm.trans hmatch
        | true =>
          simp only [if_true]
          cases hvars : (bindVar base.vars next.var (.node far)).bind
              (bindVar · rel.var (.edge e)) with
          | none =>
            refine .nil fun steps h => ?_
            obtain ⟨-, far', hfar', -, vars, -, -, hvars', -⟩ := hhead steps h
            cases hfar.symm.trans hfar'
            cases hvars.symm.trans hvars'
          | some vars =>
            have hnodup : (base.usedEdges ++ [e.id]).Nodup := by
              rw [nodup_append]
              refine ⟨hused, nodup_singleton _, fun i hi j hj heq => hused' ?_⟩
              rwa [← mem_singleton.mp hj, ← heq]
            refine (meets_extendFrom rest ⟨vars, base.usedEdges ++ [e.id]⟩ far.id halt hnodup).imp
              fun out hout => hout.map ((e, far) :: ·) (fun _ _ _ _ heq => by simpa using heq)
                (fun steps => ?_) fun steps b _ hR => hR.cons hvars
            constructor
            · intro h
              obtain ⟨-, far', hfar', -, vars', steps', rfl, hvars', hrest⟩ := hhead steps h
              cases hfar.symm.trans hfar'
              cases hvars.symm.trans hvars'
              exact ⟨steps', hrest, rfl⟩
            · rintro ⟨steps', hrest, rfl⟩
              exact ⟨⟨far, steps', rfl, rfl⟩, stepsFrom_cons_iff.mpr
                ⟨e, far, steps', rfl, hedge, ⟨hget, hb⟩, hused', vars, hvars, hrest⟩⟩
    · rintro ⟨e, v⟩ ⟨e', v'⟩ steps - - ⟨⟨far, steps', rfl, rfl⟩, -⟩ ⟨⟨far', steps'', heq, rfl⟩, -⟩
      simp only [List.cons.injEq, Prod.mk.injEq] at heq
      rw [heq.1.1, heq.1.2]
    · constructor
      · intro h
        obtain ⟨e, n, steps', rfl, hedge, -⟩ := stepsFrom_cons_iff.mp h
        exact ⟨(e, n.id), hedge, ⟨n, steps', rfl, rfl⟩, h⟩
      · rintro ⟨p, -, -, h⟩
        exact h
  | .relationship _ :: [], _, _, halt, _ => halt.elim
  | .relationship _ :: .relationship _ :: _, _, _, halt, _ => halt.elim
  | .node _ :: _, _, _, halt, _ => halt.elim

/-! ### Extension by a pattern -/

/-- Variables denote entities of the graph. -/
def Stored (db : Db) : EntityResult → Prop
  | .node n => getNode db n.id = .ok n
  | .edge e => getEdge db e.id = .ok e
  | _ => False

lemma stored_of_stepsFit : ∀ {elements : List CypherPatternElement} {u : NodeId}
    {steps : List (Query.Edge × Query.Node)}, StepsFit ctx db elements u steps →
    ∀ o ∈ stepOccurrences elements steps, Stored db o.2
  | [], _, [], _, _, ho => by simp [stepOccurrences] at ho
  | .relationship rel :: .node next :: rest, _, (e, n) :: steps, hfits, o, ho => by
    obtain ⟨⟨hedge, -⟩, hnode, hrest⟩ := hfits
    simp only [stepOccurrences, mem_cons] at ho
    obtain rfl | rfl | ho := ho
    · exact hnode.1
    · exact hedge.1
    · exact stored_of_stepsFit hrest o ho

lemma stored_of_patternFits {p : CypherPattern} {w : Walk} (h : PatternFits ctx db p w) :
    ∀ o ∈ occurrences p w, Stored db o.2 := by
  intro o ho
  rw [PatternFits] at h
  rw [occurrences] at ho
  split at h
  · rename_i first rest helements
    simp only [helements, mem_cons] at ho
    obtain rfl | ho := ho
    · exact h.1.1
    · exact stored_of_stepsFit h.2 o ho
  · exact h.elim

/-- The walks a pattern may be assigned, given what is bound and used already. -/
structure WalkFrom (ctx : EvalContext) (db : Db) (p : CypherPattern) (base : PartialBinding)
    (w : Walk) : Prop where
  fits : PatternFits ctx db p w
  distinct : (base.usedEdges ++ w.edges).Nodup
  bound : (bindVars base.vars (occurrences p w)).isSome

section Pattern

variable {p : CypherPattern} {first : CypherNodePattern} {rest : List CypherPatternElement}
  {base : PartialBinding} (helements : p.elements = .node first :: rest) {memo : List Query.Node}

include helements in
lemma walkFrom_iff {steps : List (Query.Edge × Query.Node)} :
    WalkFrom ctx db p base (n, steps) ↔ NodeFits ctx db first n ∧
      ∃ vars, bindVar base.vars first.var (.node n) = some vars ∧
        StepsFrom ctx db rest ⟨vars, base.usedEdges⟩ n.id steps := by
  constructor
  · rintro ⟨hfits, hdistinct, hbound⟩
    simp only [PatternFits, helements] at hfits
    simp only [occurrences, helements, bindVars_cons] at hbound
    cases hvars : bindVar base.vars first.var (.node n) with
    | none => simp [hvars] at hbound
    | some vars =>
      exact ⟨hfits.1, vars, rfl, hfits.2, hdistinct, by simpa [hvars] using hbound⟩
  · rintro ⟨hnode, vars, hvars, hfits, hdistinct, hbound⟩
    refine ⟨?_, hdistinct, ?_⟩
    · simp only [PatternFits, helements]
      exact ⟨hnode, hfits⟩
    · simpa [occurrences, helements, hvars] using hbound

variable (hstored : ∀ x e, lookup base.vars x = some e → Stored db e)

include hunbound hstored in
lemma meets_firstCandidates (hmemo : Enumerates (NodeFits ctx db first) Eq memo) : Meets allowed
      (Enumerates (fun n => NodeFits ctx db first n ∧
        (bindVar base.vars first.var (.node n)).isSome) Eq)
      (firstCandidates ctx first base memo) := by
  rw [firstCandidates]
  cases hvar : first.var with
  | none => exact hmemo.congr (fun n => by simp [bindVar]) fun _ _ _ hR => hR
  | some x =>
    rw [Option.bind_some]
    cases hx : lookup base.vars x with
    | none => exact hmemo.congr (fun n => by simp [bindVar, hx]) fun _ _ _ hR => hR
    | some e =>
      have hsame : ∀ n, (bindVar base.vars (some x) (.node n)).isSome ↔
          entityRef e = entityRef (.node n) := by
        intro n
        simp only [bindVar, hx]
        split_ifs with h <;> simp [h]
      have he := hstored x e hx
      cases e with
      | node n =>
        have huniq : ∀ n', NodeFits ctx db first n' → n.id = n'.id → n' = n := by
          intro n' hn' hid
          have := hn'.1
          rw [← hid, he] at this
          cases this
          rfl
        refine (meets_nodeElementMatches hunbound n first).bind fun b hb => ?_
        cases b with
        | false =>
          refine .nil fun n' ⟨hn', hbound⟩ => ?_
          obtain rfl := huniq n' hn' (by simpa [entityRef] using (hsame n').mp hbound)
          cases hb.symm.trans hn'.2
        | true =>
          refine .singleton n (fun n' => ?_) rfl
          constructor
          · rintro ⟨hn', hbound⟩
            exact huniq n' hn' (by simpa [entityRef] using (hsame n').mp hbound)
          · rintro rfl
            exact ⟨⟨he, hb⟩, (hsame _).mpr rfl⟩
      | edge e =>
        exact .nil fun n ⟨_, hbound⟩ => by simpa [entityRef] using (hsame n).mp hbound
      | _ => exact he.elim

lemma bindVar_eq_addVar {vars vars' : Binding} {var : Option Text} {e : EntityResult}
    (h : bindVar vars var e = some vars') : addVar vars (var, e) = vars' := by
  cases var with
  | none => simpa [bindVar, addVar] using h
  | some x =>
    cases hx : lookup vars x with
    | none => simpa [bindVar, addVar, hx] using h
    | some old =>
      simp only [bindVar, hx] at h
      split_ifs at h
      cases h
      simp [addVar, hx]

include hunbound hsettled helements hstored in
/-- **A binding is extended by the walks that its pattern may be assigned.** -/
lemma meets_matchPatternExtends (halt : Alternates rest) (hused : base.usedEdges.Nodup)
    (hmemo : Enumerates (NodeFits ctx db first) Eq memo) :
    Meets allowed (Enumerates (WalkFrom ctx db p base)
        fun w => Reaches base (occurrences p w) w.edges)
      (matchPatternExtends ctx db p base memo) := by
  rw [matchPatternExtends]
  simp only [helements]
  refine (meets_firstCandidates hunbound hstored hmemo).bind fun candidates hcand => ?_
  refine (meets_flatMapE (fun n w => w.1 = n ∧ WalkFrom ctx db p base w) hcand ?_ ?_).imp
    fun out hout => hout.congr (fun w => ?_) fun _ _ _ hR => hR
  · rintro n _ ⟨hnode, hbound⟩ rfl
    obtain ⟨vars, hvars⟩ := Option.isSome_iff_exists.mp hbound
    change Meets _ _ (extendFrom ctx db rest ⟨addVar base.vars (first.var, .node n), _⟩ n.id)
    rw [bindVar_eq_addVar hvars]
    refine (meets_extendFrom hunbound hsettled rest ⟨vars, base.usedEdges⟩ n.id halt hused).imp
      fun out hout => hout.map (Prod.mk n) (fun _ _ _ _ heq => by simpa using heq)
        (fun w => ?_) fun steps b hsteps hR => ⟨?_, hR.usedEdges⟩
    · obtain ⟨n', steps⟩ := w
      rw [walkFrom_iff helements]
      constructor
      · rintro ⟨rfl, -, vars', hvars', hsteps⟩
        cases hvars.symm.trans hvars'
        exact ⟨steps, hsteps, rfl⟩
      · rintro ⟨steps', hsteps, heq⟩
        cases heq
        exact ⟨rfl, hnode, vars, hvars, hsteps⟩
    · simpa [occurrences, helements, hvars] using hR.vars
  · rintro n n' w - - ⟨rfl, -⟩ ⟨rfl, -⟩
    rfl
  · constructor
    · intro h
      obtain ⟨hnode, vars, hvars, -⟩ := (walkFrom_iff helements).mp h
      exact ⟨w.1, ⟨hnode, by rw [hvars]; rfl⟩, rfl, h⟩
    · rintro ⟨-, -, -, h⟩
      exact h

end Pattern

/-! ### All patterns -/

/-- The assignments of the patterns so far. -/
structure Assigned (ctx : EvalContext) (db : Db) (ps : List CypherPattern) (a : List Walk) :
    Prop where
  fits : List.Forall₂ (PatternFits ctx db) ps a
  distinct : (a.flatMap Walk.edges).Nodup
  bound : (bindVars [] (allOccurrences ps a)).isSome

variable {ps : List CypherPattern} {p : CypherPattern}

lemma assigned_iff_satisfies : Assigned ctx db ps a ↔ Satisfies ctx db ps a := by
  constructor
  · rintro ⟨hfits, hdistinct, hbound⟩
    exact ⟨hfits, hdistinct, bindVars_isSome_iff.mp hbound⟩
  · rintro ⟨hfits, hdistinct, hconsistent⟩
    exact ⟨hfits, hdistinct, bindVars_isSome_iff.mpr hconsistent⟩

/-- The bindings found for them. -/
def Found (ps : List CypherPattern) (a : List Walk) : PartialBinding → Prop :=
  Reaches ⟨[], []⟩ (allOccurrences ps a) (a.flatMap Walk.edges)

lemma allOccurrences_concat {w : Walk} (h : ps.length = a.length) :
    allOccurrences (ps ++ [p]) (a ++ [w]) = allOccurrences ps a ++ occurrences p w := by
  simp [allOccurrences, zip_append h]

lemma Assigned.stored {b : PartialBinding} (h : Assigned ctx db ps a) (hb : Found ps a b) :
    ∀ x e, lookup b.vars x = some e → Stored db e := by
  intro x e hx
  rw [(bindVars_eq_some_iff.mp hb.vars).1] at hx
  obtain hnil | hmem := mem_of_lookup_foldl_addVar hx
  · cases hnil
  · obtain ⟨⟨p, w⟩, hpw, ho⟩ := mem_flatMap.mp hmem
    exact stored_of_patternFits ((forall₂_iff_zip.mp h.fits).2 hpw) _ ho

lemma assigned_concat_iff {a' : List Walk} :
    Assigned ctx db (ps ++ [p]) a' ↔ ∃ a, Assigned ctx db ps a ∧ ∃ w, a' = a ++ [w] ∧
      ∀ b, Found ps a b → WalkFrom ctx db p b w := by
  constructor
  · rintro ⟨hfits, hdistinct, hbound⟩
    rw [← forall₂_reverse_iff, reverse_append, reverse_singleton,
      singleton_append, forall₂_cons_left_iff] at hfits
    obtain ⟨w, r, hw, hr, heq⟩ := hfits
    obtain rfl : a' = r.reverse ++ [w] := by rw [← reverse_reverse a', heq]; simp
    have hr : List.Forall₂ (PatternFits ctx db) ps r.reverse := by
      rwa [← forall₂_reverse_iff, reverse_reverse]
    rw [allOccurrences_concat hr.length_eq, bindVars_append] at hbound
    rw [flatMap_append, flatMap_singleton] at hdistinct
    obtain ⟨vars, hvars⟩ : ∃ vars, bindVars [] (allOccurrences ps r.reverse) = some vars := by
      cases hvars : bindVars [] (allOccurrences ps r.reverse) with
      | none => simp [hvars] at hbound
      | some vars => exact ⟨vars, rfl⟩
    refine ⟨r.reverse, ⟨hr, (nodup_append.mp hdistinct).1, by rw [hvars]; rfl⟩, w, rfl, ?_⟩
    rintro b ⟨hb, hused⟩
    rw [hb] at hbound
    exact ⟨hw, by rw [hused]; exact hdistinct, hbound⟩
  · rintro ⟨a, ⟨hfits, hdistinct, hbound⟩, w, rfl, hwalk⟩
    obtain ⟨vars, hvars⟩ := Option.isSome_iff_exists.mp hbound
    obtain ⟨hw, hnodup, hbound'⟩ := hwalk ⟨vars, a.flatMap Walk.edges⟩ ⟨hvars, rfl⟩
    refine ⟨rel_append hfits (.cons hw .nil), ?_, ?_⟩
    · rwa [flatMap_append, flatMap_singleton]
    · rwa [allOccurrences_concat hfits.length_eq, bindVars_append, hvars]

lemma meets_extendAll {P : List PartialBinding → Prop}
    {extend : PartialBinding → Except MatchError (List PartialBinding)}
    (hcap : allowed (.tooManyBindings cap)) (env next : List PartialBinding)
    (h : Meets allowed (fun out => P (next ++ out)) (flatMapE extend env)) :
    Meets allowed P (extendAll cap extend next env) := by
  induction env generalizing next with
  | nil => simpa [flatMapE, extendAll, Meets] using h
  | cons base env ih =>
    rw [extendAll]
    rw [flatMapE] at h
    cases hbase : extend base with
    | error e =>
      rw [hbase] at h
      exact h
    | ok out =>
      rw [hbase] at h
      change Meets allowed P (if cap < (next ++ out).length then _ else _)
      split_ifs
      · exact hcap
      · refine ih _ ?_
        cases henv : flatMapE extend env with
        | error e =>
          rw [henv] at h
          exact h
        | ok out' =>
          rw [henv] at h
          have h : P (next ++ (out ++ out')) := h
          rwa [← append_assoc] at h

/-- The scan that is made for a pattern before the search. -/
def Memoized (ctx : EvalContext) (db : Db) (p : CypherPattern)
    (m : CypherPattern × List Query.Node) : Prop :=
  m.1 = p ∧ ∃ first rest, p.elements = .node first :: rest ∧ Alternates rest ∧
    Enumerates (NodeFits ctx db first) Eq m.2

include hunbound hsettled in
lemma meets_extendAll_pattern (hcap : allowed (.tooManyBindings cap))
    {m : CypherPattern × List Query.Node} (hm : Memoized ctx db p m)
    (henv : Enumerates (Assigned ctx db ps) (Found ps) env) :
    Meets allowed (Enumerates (Assigned ctx db (ps ++ [p])) (Found (ps ++ [p])))
      (extendAll cap (matchPatternExtends ctx db m.1 · m.2) [] env) := by
  obtain ⟨rfl, first, rest, helements, halt, hmemo⟩ := hm
  refine meets_extendAll hcap env [] ?_
  refine (meets_flatMapE (fun a a' => ∃ w, a' = a ++ [w] ∧
    ∀ b, Found ps a b → WalkFrom ctx db m.1 b w) henv ?_ ?_).imp
    fun out hout => hout.congr (fun a' => assigned_concat_iff) fun _ _ _ hR => hR
  · intro a base ha hbase
    have hused : base.usedEdges.Nodup := by
      rw [hbase.usedEdges]
      exact ha.distinct
    refine (meets_matchPatternExtends hunbound hsettled helements (ha.stored hbase) halt hused
      hmemo).imp fun out hout => hout.map (fun w => a ++ [w])
        (fun _ _ _ _ heq => by simpa using heq) (fun a' => ?_) fun w b hw hR => ?_
    · constructor
      · rintro ⟨w, rfl, hwalk⟩
        exact ⟨w, hwalk base hbase, rfl⟩
      · rintro ⟨w, hwalk, rfl⟩
        refine ⟨w, rfl, fun b hb => ?_⟩
        rwa [hb.unique hbase]
    · refine ⟨?_, ?_⟩
      · rw [allOccurrences_concat ha.fits.length_eq, bindVars_append, hbase.vars]
        exact hR.vars
      · rw [hR.usedEdges, hbase.usedEdges, flatMap_append, flatMap_singleton, append_assoc]
  · rintro a a' _ - - ⟨w, rfl, -⟩ ⟨w', heq, -⟩
    exact (append_inj' heq rfl).1

include hunbound hsettled in
lemma meets_matchAll (hcap : allowed (.tooManyBindings cap)) {done ps : List CypherPattern}
    {ms : List (CypherPattern × List Query.Node)} (hms : List.Forall₂ (Memoized ctx db) ps ms)
    (henv : Enumerates (Assigned ctx db done) (Found done) env) :
    Meets allowed (Enumerates (Assigned ctx db (done ++ ps)) (Found (done ++ ps)))
      (matchAll ctx db cap ms env) := by
  induction hms generalizing done env with
  | nil => simpa [matchAll, Meets] using henv
  | @cons p m ps ms hm _ ih =>
    refine (meets_extendAll_pattern hunbound hsettled hcap hm henv).bind fun next hnext => ?_
    simpa using ih hnext

include hunbound in
lemma meets_memos {ps : List CypherPattern} (hwf : ∀ p ∈ ps, p.WellFormed) :
    Meets allowed (List.Forall₂ (Memoized ctx db) ps) (ps.mapM (firstMemo ctx db)) := by
  induction ps with
  | nil => exact .nil
  | cons p ps ih =>
    rw [forall_mem_cons] at hwf
    obtain ⟨⟨first, rest, helements, halt⟩, hwf⟩ := hwf
    have hfirst : Meets allowed (Memoized ctx db p) (firstMemo ctx db p) := by
      simp only [firstMemo, helements]
      exact (meets_scanNodeCandidates hunbound first).bind fun memo hmemo =>
        ⟨rfl, first, rest, helements, halt, hmemo⟩
    rw [mapM_cons]
    exact hfirst.bind fun m hm => (ih hwf).bind fun ms hms => .cons hm hms

/-- `(a)-[r]->(b), (b)--()` -/
def twoPatterns : List CypherPattern :=
  [⟨[.node ⟨some ['a'], [], []⟩, .relationship ⟨some ['r'], [], .outgoing, none, []⟩,
      .node ⟨some ['b'], [], []⟩]⟩,
    ⟨[.node ⟨some ['b'], [], []⟩, .relationship ⟨none, [], .both, none, []⟩, .node ⟨none, [], []⟩]⟩]

end Aletheia.Cypher

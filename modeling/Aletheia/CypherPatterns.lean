import Mathlib.Data.Finset.Sort
import Aletheia.CurrentTraversal
import Aletheia.CypherWhere
import Aletheia.Enumeration

/-!
# Matching of patterns with several variables

`match_bindings` extends bindings pattern by pattern and, within a pattern, relationship by
relationship. It lists one binding for each way to assign nodes and edges of the current graph to
the elements of the patterns: the entities satisfy their elements, edges join their neighbours, no edge
is used twice, and equal variables denote the same entity.
-/

namespace Aletheia.Cypher

open Enumeration
open Query (EntityResult getNode getEdge)

/-! ### The matcher -/

inductive MatchError where
  | eval (e : EvalError)
  | mustStartWithNode
  | expectedRelationship
  | relationshipWithoutNode
  | tooManyBindings (cap : ℕ)

structure PartialBinding where
  vars : Binding
  usedEdges : List EdgeId

variable (ctx : EvalContext) (db : Db)

/-- The nodes of current storage in the order of their ids. -/
def allNodes : List Query.Node :=
  ((db.nodes.entities.keys.image NodeId.val).sort (· ≤ ·)).filterMap fun i =>
    (getNode db ⟨i⟩).toOption

def nodeRef (id : NodeId) : Option Query.Node := (allNodes db).find? fun n => n.id = id

def matchesLabel (label : InternedString) (s : Text) : Bool :=
  (ctx.resolve label).any fun interned => interned = s

def propsMatch (properties : PropertyMap) : List (Text × CypherValue) → Except MatchError Bool
  | [] => .ok true
  | (key, want) :: rest =>
    match ctx.getProperty properties key with
    | none => .ok false
    | some actual =>
      match ctx.cypherValueToProperty want with
      | .error e => .error (.eval e)
      | .ok want =>
        if ctx.looselyEqual actual want then propsMatch properties rest else .ok false

def nodeElementMatches (n : Query.Node) (patt : CypherNodePattern) : Except MatchError Bool :=
  if patt.labels.all (matchesLabel ctx n.label) then propsMatch ctx n.properties patt.properties
  else .ok false

def edgeMatches (e : Query.Edge) (rel : CypherRelPattern) : Except MatchError Bool :=
  if !rel.relTypes.isEmpty && !rel.relTypes.any (matchesLabel ctx e.label) then .ok false
  else propsMatch ctx e.properties rel.properties

/-- One loop of `adjacent`: edges that match and were not seen before, with their far end. -/
def collectEdges (rel : CypherRelPattern) (far : Endpoints → NodeId) :
    List (Query.Edge × NodeId) → List EdgeId → Except MatchError (List (Query.Edge × NodeId))
  | result, [] => .ok result
  | result, id :: ids =>
    match getEdge db id with
    | .error _ => collectEdges rel far result ids
    | .ok e => do
      if (← edgeMatches ctx e rel) && !result.any (fun p => p.1.id = e.id) then
        collectEdges rel far (result ++ [(e, far e.ends)]) ids
      else collectEdges rel far result ids

def adjacent (n : NodeId) (rel : CypherRelPattern) :
    Except MatchError (List (Query.Edge × NodeId)) := do
  let out ←
    if rel.direction = .outgoing ∨ rel.direction = .both then
      collectEdges ctx db rel Endpoints.target [] (db.edges.outgoing n)
    else .ok []
  if rel.direction = .incoming ∨ rel.direction = .both then
    collectEdges ctx db rel Endpoints.source out (db.edges.incoming n)
  else .ok out

def entityRef : EntityResult → Option EntityRef
  | .node n => some (.node n.id)
  | .nodeId n => some (.node n)
  | .edge e => some (.edge e.id)
  | .edgeId e => some (.edge e)
  | .null => none

def bindVar (vars : Binding) (var : Option Text) (entity : EntityResult) : Option Binding :=
  match var with
  | none => some vars
  | some x =>
    match lookup vars x with
    | none => some (vars ++ [(x, entity)])
    | some existing => if entityRef existing = entityRef entity then some vars else none

def extendFrom : List CypherPatternElement → PartialBinding → NodeId →
    Except MatchError (List PartialBinding)
  | [], binding, _ => .ok [binding]
  | .relationship rel :: .node next :: rest, binding, current => do
    flatMapE (fun (edge, farId) =>
      if edge.id ∈ binding.usedEdges then .ok []
      else
        match nodeRef db farId with
        | none => .ok []
        | some far => do
          if ← nodeElementMatches ctx far next then
            match (bindVar binding.vars next.var (.node far)).bind
                (bindVar · rel.var (.edge edge)) with
            | none => .ok []
            | some vars => extendFrom rest ⟨vars, binding.usedEdges ++ [edge.id]⟩ far.id
          else .ok []) (← adjacent ctx db current rel)
  | .relationship _ :: _, _, _ => .error .relationshipWithoutNode
  | .node _ :: _, _, _ => .error .expectedRelationship

def scanNodeCandidates (patt : CypherNodePattern) : Except MatchError (List Query.Node) :=
  flatMapE (fun n => do if ← nodeElementMatches ctx n patt then return [n] else return [])
    (allNodes db)

/-- The first node of a pattern: what its variable denotes already, or any that matches.
`first_memo` is the scan for it, which does not depend on the base. -/
def firstCandidates (first : CypherNodePattern) (base : PartialBinding)
    (firstMemo : List Query.Node) : Except MatchError (List Query.Node) :=
  match first.var.bind (lookup base.vars) with
  | some (.node n) => do if ← nodeElementMatches ctx n first then return [n] else return []
  | some _ => .ok []
  | none => .ok firstMemo

def matchPatternExtends (pattern : CypherPattern) (base : PartialBinding)
    (firstMemo : List Query.Node) : Except MatchError (List PartialBinding) :=
  match pattern.elements with
  | .node first :: rest => do
    flatMapE (fun n =>
      let vars :=
        match first.var with
        | none => base.vars
        | some x => if (lookup base.vars x).isNone then base.vars ++ [(x, .node n)] else base.vars
      extendFrom ctx db rest ⟨vars, base.usedEdges⟩ n.id)
      (← firstCandidates ctx first base firstMemo)
  | _ => .error .mustStartWithNode

/-- Extend all bindings found so far by one pattern. -/
def extendAll (cap : ℕ) (extend : PartialBinding → Except MatchError (List PartialBinding)) :
    List PartialBinding → List PartialBinding → Except MatchError (List PartialBinding)
  | next, [] => .ok next
  | next, base :: env => do
    let next := next ++ (← extend base)
    if cap < next.length then .error (.tooManyBindings cap) else extendAll cap extend next env

def matchAll (cap : ℕ) : List (CypherPattern × List Query.Node) → List PartialBinding →
    Except MatchError (List PartialBinding)
  | [], env => .ok env
  | (pattern, memo) :: rest, env => do
    let next ← extendAll cap (matchPatternExtends ctx db pattern · memo) [] env
    matchAll cap rest next

def firstMemo (pattern : CypherPattern) : Except MatchError (CypherPattern × List Query.Node) :=
  match pattern.elements with
  | .node first :: _ => do return (pattern, ← scanNodeCandidates ctx db first)
  | _ => .ok (pattern, [])

/-- `binding_cap` bounds the bindings after each step. -/
def matchBindings (cap : ℕ) (patterns : List CypherPattern) (whereClause : Option CypherExpr) :
    Except MatchError (List Binding) := do
  let memos ← patterns.mapM (firstMemo ctx db)
  let env ← matchAll ctx db cap memos [⟨[], []⟩]
  match whereClause with
  | none => return env.map (·.vars)
  | some predicate =>
    flatMapE (fun b =>
      match evalPredicate ctx b.vars predicate with
      | .error e => .error (.eval e)
      | .ok t => .ok (if t = .true then [b.vars] else [])) env

end Aletheia.Cypher

import Aletheia.CypherValues

/-!
# The WHERE clause

`eval_predicate` evaluates a condition over a binding to true, false or null. The logic of Cypher is
Kleene's, with null for a property that is absent. A property may also be there with the value null;
the evaluator takes that for a value like any other, so it agrees with the logic exactly on the
bindings whose nodes store no null.
-/

namespace Aletheia.Cypher

open Exec List

open Query (Node EntityResult)

variable {e : CypherExpr} {v : Option PropertyValue} {values : List CypherExpr}
  {needle : PropertyValue}

inductive Tri where
  | true | false | null
deriving DecidableEq, Repr

namespace Tri

def fromBool (b : Bool) : Tri := if b then .true else .false

def not : Tri → Tri
  | .true => .false
  | .false => .true
  | .null => .null

def and : Tri → Tri → Tri
  | .false, _ | _, .false => .false
  | .true, .true => .true
  | _, _ => .null

def or : Tri → Tri → Tri
  | .true, _ | _, .true => .true
  | .false, .false => .false
  | _, _ => .null

end Tri

/-! ### The evaluator -/

variable (ctx : EvalContext) (b : Binding)

/-- The operand is a property access on a variable that is bound to an edge. -/
def edgePropertyOperand : CypherExpr → Option (Query.Edge × Text)
  | .property var property =>
    match lookup b var with
    | some (.edge e) => some (e, property)
    | _ => none
  | _ => none

/-- `None` is null. -/
def evalValue : CypherExpr → Except EvalError (Option PropertyValue)
  | .value v => do
    let pv ← ctx.cypherValueToProperty v
    return match pv with
      | .null => none
      | pv => some pv
  | .property var property =>
    match lookup b var with
    | none => .error (.unboundVariable var)
    | some entity => .ok (ctx.entityProperty entity property)
  | .grouped inner => evalValue inner
  | .var name => .error (.bareVariable name)
  | other => .error (.notScalar other)

def asString : Option PropertyValue → Option Text
  | some (.string s) => some s.toList
  | _ => none

def flipCompOp : CypherCompOp → CypherCompOp
  | .eq => .eq
  | .ne => .ne
  | .lt => .gt
  | .le => .ge
  | .gt => .lt
  | .ge => .le

def edgeLeafCompare (e : Query.Edge) (property : Text) (other : Option PropertyValue)
    (op : CypherCompOp) : Bool :=
  match other, ctx.edgeLeafValue e property with
  | none, _ => false
  | some other, some v => ctx.compare v other op
  | some _, none => op = .ne

/-- The loop of `IN` over its list: it stops at a match. -/
def evalIn (needle : PropertyValue) : Bool → List CypherExpr → Except EvalError Tri
  | sawNull, [] => .ok (if sawNull then .null else .false)
  | sawNull, candidate :: rest =>
    match evalValue ctx b candidate with
    | .error e => .error e
    | .ok none => evalIn needle Bool.true rest
    | .ok (some v) =>
      if ctx.looselyEqual needle v then .ok .true else evalIn needle sawNull rest

/-- The tests of `CONTAINS`, `STARTS WITH` and `ENDS WITH`. An edge's field that is no string is
false, any other subject that is none is null. -/
def evalStringTest (expr : CypherExpr) (test : Text → Bool) : Except EvalError Tri :=
  match edgePropertyOperand b expr with
  | some (e, property) =>
    .ok (.fromBool ((asString (ctx.edgeLeafValue e property)).any test))
  | none => do
    match asString (← evalValue ctx b expr) with
    | some s => return .fromBool (test s)
    | none => return .null

def evalPredicate : CypherExpr → Except EvalError Tri
  | .comparison left op right =>
    match edgePropertyOperand b left, edgePropertyOperand b right with
    | some (e, property), _ => do
      return .fromBool (edgeLeafCompare ctx e property (← evalValue ctx b right) op)
    | none, some (e, property) => do
      return .fromBool (edgeLeafCompare ctx e property (← evalValue ctx b left) (flipCompOp op))
    | none, none => do
      match ← evalValue ctx b left, ← evalValue ctx b right with
      | some x, some y => return .fromBool (ctx.compare x y op)
      | _, _ => return .null
  | .and x y => do return (← evalPredicate x).and (← evalPredicate y)
  | .or x y => do return (← evalPredicate x).or (← evalPredicate y)
  | .not x => do return (← evalPredicate x).not
  | .isNull x => do return .fromBool (← evalValue ctx b x).isNone
  | .isNotNull x => do return .fromBool (← evalValue ctx b x).isSome
  | .inList expr values =>
    match edgePropertyOperand b expr with
    | some (e, property) => do
      let candidates ← values.mapM (evalValue ctx b)
      return .fromBool ((ctx.edgeLeafValue e property).any fun v =>
        candidates.any fun c => c.any (ctx.looselyEqual v))
    | none => do
      match ← evalValue ctx b expr with
      | none => return .null
      | some needle => evalIn ctx b needle Bool.false values
  | .contains expr substring => evalStringTest ctx b expr fun s => decide (substring <:+: s)
  | .startsWith expr start => evalStringTest ctx b expr fun s => decide (start <+: s)
  | .endsWith expr suffix => evalStringTest ctx b expr fun s => decide (suffix <:+ s)
  | .grouped inner => evalPredicate inner
  | .value (.bool x) => .ok (.fromBool x)
  | other => do
    match ← evalValue ctx b other with
    | some (.bool x) => return .fromBool x
    | none => return .null
    | some _ => .error (.notBoolean other)

/-! ### Kleene's logic -/

namespace Tri

/-- False is below null and null below true. -/
def rank : Tri → ℕ
  | .false => 0
  | .null => 1
  | .true => 2

def min (x y : Tri) : Tri := if x.rank ≤ y.rank then x else y

def max (x y : Tri) : Tri := if x.rank ≤ y.rank then y else x

lemma and_eq_min (x y : Tri) : x.and y = x.min y := by
  cases x <;> cases y <;> rfl

lemma or_eq_max (x y : Tri) : x.or y = x.max y := by
  cases x <;> cases y <;> rfl

end Tri

def notNull : PropertyValue → Bool
  | .null => false
  | _ => true

/-- The value a scalar expression denotes; `none` is null. -/
def denotes : CypherExpr → Option PropertyValue
  | .value v => (ctx.cypherValueToProperty v).toOption.filter notNull
  | .property var property =>
    ((lookup b var).bind fun entity => ctx.entityProperty entity property).filter notNull
  | .grouped inner => denotes inner
  | _ => none

def denotesString (test : Text → Bool) (expr : CypherExpr) : Tri :=
  ((asString (denotes ctx b expr)).map fun s => Tri.fromBool (test s)).getD .null

/-- **The value of a condition in Kleene's logic.** -/
def kleene : CypherExpr → Tri
  | .comparison left op right =>
    match denotes ctx b left, denotes ctx b right with
    | some x, some y => .fromBool (ctx.compare x y op)
    | _, _ => .null
  | .and x y => (kleene x).min (kleene y)
  | .or x y => (kleene x).max (kleene y)
  | .not x => (kleene x).not
  | .isNull x => .fromBool (denotes ctx b x).isNone
  | .isNotNull x => .fromBool (denotes ctx b x).isSome
  | .inList expr values =>
    match denotes ctx b expr with
    | none => .null
    | some x =>
      if values.any fun c => (denotes ctx b c).any (ctx.looselyEqual x) then .true
      else if values.any fun c => (denotes ctx b c).isNone then .null
      else .false
  | .contains expr substring => denotesString ctx b (fun s => decide (substring <:+: s)) expr
  | .startsWith expr start => denotesString ctx b (fun s => decide (start <+: s)) expr
  | .endsWith expr suffix => denotesString ctx b (fun s => decide (suffix <:+ s)) expr
  | .grouped inner => kleene inner
  | other =>
    match denotes ctx b other with
    | some (.bool x) => .fromBool x
    | _ => .null

/-! ### Conditions over nodes -/

/-- The variable of a scalar expression is bound to a node. -/
def ScalarOverNodes : CypherExpr → Prop
  | .property var _ => ∃ n, lookup b var = some (.node n)
  | .grouped inner => ScalarOverNodes inner
  | _ => True

def OverNodes : CypherExpr → Prop
  | .comparison left _ right => ScalarOverNodes b left ∧ ScalarOverNodes b right
  | .and x y | .or x y => OverNodes x ∧ OverNodes y
  | .not x | .grouped x => OverNodes x
  | .inList expr values => ScalarOverNodes b expr ∧ ∀ c ∈ values, ScalarOverNodes b c
  | .isNull x | .isNotNull x | .contains x _ | .startsWith x _ | .endsWith x _ =>
    ScalarOverNodes b x
  | other => ScalarOverNodes b other

def NoStoredNull : Prop :=
  ∀ var n key, lookup b var = some (.node n) → ctx.getProperty n.properties key ≠ some .null

/-- `b` is `old` with stored nulls in the place of some absent properties. -/
def NullsStored (old : Binding) : Prop :=
  ∀ var n, lookup b var = some (.node n) → ∃ n', lookup old var = some (.node n') ∧
    ∀ key, ctx.getProperty n.properties key = ctx.getProperty n'.properties key ∨
      ctx.getProperty n'.properties key = none ∧ ctx.getProperty n.properties key = some .null

variable {ctx b} {t : Tri}

lemma edgePropertyOperand_eq_none (h : ScalarOverNodes b e) : edgePropertyOperand b e = none := by
  cases e with
  | property var key =>
    obtain ⟨n, hn⟩ := h
    simp [edgePropertyOperand, hn]
  | _ => rfl

lemma filter_notNull (h : v ≠ some .null) : v.filter notNull = v := by
  rcases v with _ | v
  · rfl
  · cases v <;> first | rfl | exact absurd rfl h

lemma denotes_of_evalValue (hnull : NoStoredNull ctx b) (ho : ScalarOverNodes b e)
    (h : evalValue ctx b e = .ok v) : denotes ctx b e = v := by
  fun_induction evalValue ctx b e with
  | case1 x =>
    simp only [bind, Except.bind, pure, Except.pure] at h
    split at h
    · cases h
    · rename_i pv hpv
      cases h
      simp only [denotes, hpv, Except.toOption]
      cases pv <;> rfl
  | case2 var key hnone => cases h
  | case3 var key entity hentity =>
    obtain ⟨n, hn⟩ := ho
    cases hentity.symm.trans hn
    cases h
    simp only [denotes, hn, Option.bind_some]
    exact filter_notNull (hnull var n key hn)
  | case4 inner ih => exact ih ho h
  | case5 name => cases h
  | case6 other => cases h

lemma evalIn_eq (hnull : NoStoredNull ctx b) (ho : ∀ c ∈ values, ScalarOverNodes b c)
    {sawNull : Bool} (h : evalIn ctx b needle sawNull values = .ok t) :
    t = if values.any fun c => (denotes ctx b c).any (ctx.looselyEqual needle) then .true
      else if sawNull || values.any fun c => (denotes ctx b c).isNone then .null else .false := by
  induction values generalizing sawNull with
  | nil =>
    cases h
    simp
  | cons c rest ih =>
    have hrest : ∀ c ∈ rest, ScalarOverNodes b c := fun c hc => ho c (mem_cons_of_mem _ hc)
    rw [evalIn] at h
    cases hv : evalValue ctx b c with
    | error e => simp [hv] at h
    | ok v =>
      have hc := denotes_of_evalValue hnull (ho c mem_cons_self) hv
      cases v with
      | none =>
        simp only [hv] at h
        rw [ih hrest h]
        simp [hc]
      | some x =>
        simp only [hv] at h
        by_cases heq : ctx.looselyEqual needle x = true
        · rw [if_pos heq] at h
          cases h
          simp [hc, heq]
        · rw [if_neg heq] at h
          rw [ih hrest h]
          simp [hc, heq]

lemma evalStringTest_eq (hnull : NoStoredNull ctx b) {test : Text → Bool} (ho : ScalarOverNodes b e)
    (h : evalStringTest ctx b e test = .ok t) : t = denotesString ctx b test e := by
  simp only [evalStringTest, edgePropertyOperand_eq_none ho, bind, Except.bind] at h
  split at h
  · cases h
  · rename_i v hv
    rw [denotesString, denotes_of_evalValue hnull ho hv]
    cases hs : asString v with
    | none =>
      simp only [hs] at h
      exact (Except.ok.inj h).symm
    | some s =>
      simp only [hs] at h
      exact (Except.ok.inj h).symm

lemma evalBare_eq (hnull : NoStoredNull ctx b) (ho : ScalarOverNodes b e)
    (h : (do
      match ← evalValue ctx b e with
      | some (.bool x) => return .fromBool x
      | none => return .null
      | some _ => .error (.notBoolean e)) = Except.ok t) :
    t = match denotes ctx b e with
      | some (.bool x) => .fromBool x
      | _ => .null := by
  obtain ⟨v, hv, h⟩ := except_bind_eq_ok.mp h
  rw [denotes_of_evalValue hnull ho hv]
  split at h
  · exact (Except.ok.inj h).symm
  · exact (Except.ok.inj h).symm
  · cases h

/-- **Without stored nulls the evaluator computes Kleene's logic.** -/
lemma kleene_of_evalPredicate (hnull : NoStoredNull ctx b) : ∀ (e : CypherExpr) {t : Tri},
    OverNodes b e → evalPredicate ctx b e = .ok t → t = kleene ctx b e
  | .comparison left op right, t, ho, h => by
    simp only [evalPredicate, edgePropertyOperand_eq_none ho.1,
      edgePropertyOperand_eq_none ho.2] at h
    obtain ⟨x, hx, h⟩ := except_bind_eq_ok.mp h
    obtain ⟨y, hy, h⟩ := except_bind_eq_ok.mp h
    rw [kleene, denotes_of_evalValue hnull ho.1 hx, denotes_of_evalValue hnull ho.2 hy]
    cases x <;> cases y <;> exact (Except.ok.inj h).symm
  | .and x y, t, ho, h => by
    obtain ⟨u, hu, h⟩ := except_bind_eq_ok.mp h
    obtain ⟨w, hw, h⟩ := except_bind_eq_ok.mp h
    cases h
    rw [kleene, ← kleene_of_evalPredicate hnull x ho.1 hu,
      ← kleene_of_evalPredicate hnull y ho.2 hw, Tri.and_eq_min]
  | .or x y, t, ho, h => by
    obtain ⟨u, hu, h⟩ := except_bind_eq_ok.mp h
    obtain ⟨w, hw, h⟩ := except_bind_eq_ok.mp h
    cases h
    rw [kleene, ← kleene_of_evalPredicate hnull x ho.1 hu,
      ← kleene_of_evalPredicate hnull y ho.2 hw, Tri.or_eq_max]
  | .not x, t, ho, h => by
    obtain ⟨u, hu, h⟩ := except_bind_eq_ok.mp h
    cases h
    rw [kleene, ← kleene_of_evalPredicate hnull x ho hu]
  | .isNull x, t, ho, h => by
    obtain ⟨v, hv, h⟩ := except_bind_eq_ok.mp h
    rw [kleene, denotes_of_evalValue hnull ho hv]
    exact (Except.ok.inj h).symm
  | .isNotNull x, t, ho, h => by
    obtain ⟨v, hv, h⟩ := except_bind_eq_ok.mp h
    rw [kleene, denotes_of_evalValue hnull ho hv]
    exact (Except.ok.inj h).symm
  | .inList e values, t, ho, h => by
    simp only [evalPredicate, edgePropertyOperand_eq_none ho.1] at h
    obtain ⟨v, hv, h⟩ := except_bind_eq_ok.mp h
    rw [kleene, denotes_of_evalValue hnull ho.1 hv]
    cases v with
    | none => exact (Except.ok.inj h).symm
    | some x => simpa using evalIn_eq hnull ho.2 h
  | .contains _ _, _, ho, h | .startsWith _ _, _, ho, h | .endsWith _ _, _, ho, h =>
    evalStringTest_eq hnull ho h
  | .grouped inner, t, ho, h => kleene_of_evalPredicate hnull inner ho h
  | .value v, t, ho, h => by
    cases v with
    | bool x => exact (Except.ok.inj h).symm
    | _ => exact evalBare_eq hnull ho h
  | .property _ _, _, ho, h | .var _, _, ho, h | .functionCall _ _ _, _, ho, h | .star, _, ho, h
  | .list _, _, ho, h => evalBare_eq hnull ho h

/-! ### Bindings with the same properties -/

section Same

variable {old : Binding}
  (hsame : ∀ var n, lookup b var = some (.node n) → ∃ n', lookup old var = some (.node n') ∧
    ∀ key, ctx.getProperty n'.properties key = ctx.getProperty n.properties key)

include hsame

variable (ho : ScalarOverNodes b e)

include ho

lemma scalarOverNodes_same : ScalarOverNodes old e := by
  fun_induction ScalarOverNodes b e with
  | case1 var key =>
    obtain ⟨n, hn⟩ := ho
    exact (hsame var n hn).imp fun _ h => h.1
  | case2 inner ih => exact ih ho
  | case3 => simp_all [ScalarOverNodes]

lemma evalValue_same : evalValue ctx old e = evalValue ctx b e := by
  fun_induction evalValue ctx b e with
  | case2 var key hnone =>
    obtain ⟨n, hn⟩ := ho
    exact nomatch hnone.symm.trans hn
  | case3 var key entity hentity =>
    obtain ⟨n, hn⟩ := ho
    obtain ⟨n', hn', hkeys⟩ := hsame var n hn
    cases hentity.symm.trans hn
    simp only [evalValue, hn', EvalContext.entityProperty, hkeys]
  | case4 inner ih => exact ih ho
  | _ => simp_all [evalValue]

lemma evalStringTest_same (test : Text → Bool) :
    evalStringTest ctx old e test = evalStringTest ctx b e test := by
  simp only [evalStringTest, edgePropertyOperand_eq_none ho, evalValue_same hsame ho,
    edgePropertyOperand_eq_none (scalarOverNodes_same hsame ho)]

omit ho

lemma evalIn_same (ho : ∀ c ∈ values, ScalarOverNodes b c) (sawNull : Bool) :
    evalIn ctx old needle sawNull values = evalIn ctx b needle sawNull values := by
  induction values generalizing sawNull with
  | nil => rfl
  | cons c rest ih =>
    have hrest := ih fun c hc => ho c (mem_cons_of_mem _ hc)
    simp only [evalIn, evalValue_same hsame (ho c mem_cons_self), hrest]

lemma evalPredicate_same : ∀ {e : CypherExpr}, OverNodes b e →
    evalPredicate ctx old e = evalPredicate ctx b e
  | .comparison left op right, ho => by
    simp only [evalPredicate, evalValue_same hsame ho.1, evalValue_same hsame ho.2,
      edgePropertyOperand_eq_none ho.1, edgePropertyOperand_eq_none ho.2,
      edgePropertyOperand_eq_none (scalarOverNodes_same hsame ho.1),
      edgePropertyOperand_eq_none (scalarOverNodes_same hsame ho.2)]
  | .and x y, ho | .or x y, ho => by
    simp only [evalPredicate, evalPredicate_same ho.1, evalPredicate_same ho.2]
  | .not x, ho => by simp only [evalPredicate, evalPredicate_same (e := x) ho]
  | .isNull x, ho | .isNotNull x, ho => by
    simp only [evalPredicate, evalValue_same (e := x) hsame ho]
  | .inList e values, ho => by
    simp only [evalPredicate, edgePropertyOperand_eq_none ho.1, evalValue_same hsame ho.1,
      edgePropertyOperand_eq_none (scalarOverNodes_same hsame ho.1), evalIn_same hsame ho.2]
  | .contains _ _, ho | .startsWith _ _, ho | .endsWith _ _, ho => evalStringTest_same hsame ho _
  | .grouped x, ho => evalPredicate_same (e := x) ho
  | .value v, ho => by cases v <;> rfl
  | .property x k, ho => by
    simp only [evalPredicate, evalValue_same (e := .property x k) hsame ho]
  | .var _, _ | .functionCall _ _ _, _ | .star, _ | .list _, _ => rfl

end Same

/-- Parameters and interner of a statement without parameters, about the property `k`. -/
def plainContext : EvalContext :=
  ⟨fun _ => none, fun s => if s = ['k'] then some 1 else none, fun _ => none, fun _ => 0,
    fun _ => 0⟩

end Aletheia.Cypher

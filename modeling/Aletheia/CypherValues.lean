import Aletheia.CypherParser
import Aletheia.Traversal

/-!
# Values of Cypher expressions

Literals, parameters and properties as the evaluator of multi-variable patterns sees them, with its
equality and its partial order. A floating-point value is its bit pattern; reading a literal and
converting an integer are left to the language.
-/

namespace Aletheia.Cypher

open Query (Node EntityResult)

/-! ### Equality and order -/

def f64Key (a : BitVec 64) : ℤ :=
  if a.msb then -((a.setWidth 63).toNat : ℤ) else (a.setWidth 63).toNat

/-- `f64::partial_cmp`. -/
def cmpF64 (a b : BitVec 64) : Option Ordering :=
  if isNaN64 a || isNaN64 b then none else some (compare (f64Key a) (f64Key b))

/-- Equality of `f32`: the two zeros are equal, a NaN is equal to nothing. -/
def eqF32 (a b : BitVec 32) : Bool :=
  !isNaN32 a && !isNaN32 b && (decide (a = b) || decide (a <<< 1 = 0 ∧ b <<< 1 = 0))

def eqAll {α : Type} (eq : α → α → Bool) (xs ys : List α) : Bool :=
  decide (xs.length = ys.length) && (xs.zip ys).all fun p => eq p.1 p.2

mutual

/-- `PropertyValue::eq`. -/
def valueEq : PropertyValue → PropertyValue → Bool
  | .null, .null => true
  | .bool a, .bool b => a == b
  | .int a, .int b => a == b
  | .float a, .float b => cmpF64 a b == some .eq
  | .string a, .string b => a == b
  | .bytes a, .bytes b => a == b
  | .array xs, .array ys => valuesEq xs ys
  | .vector xs, .vector ys => eqAll eqF32 xs ys
  | .sparseVector d xs, .sparseVector d' ys =>
    d == d' && eqAll (fun x y => x.1 == y.1 && eqF32 x.2 y.2) xs ys
  | _, _ => false

def valuesEq : List PropertyValue → List PropertyValue → Bool
  | [], [] => true
  | x :: xs, y :: ys => valueEq x y && valuesEq xs ys
  | _, _ => false

end

def isNumeric : PropertyValue → Bool
  | .int _ | .float _ => true
  | _ => false

inductive CypherParameterValue where
  | null
  | bool (b : Bool)
  | int (i : ℤ)
  | float (bits : BitVec 64)
  | string (s : Text)
  | embedding (xs : List (BitVec 32))
  | list (items : List CypherParameterValue)

structure EvalContext where
  params : Text → Option CypherParameterValue
  /-- `GLOBAL_INTERNER.get_id` -/
  getId : Text → Option InternedString
  /-- `GLOBAL_INTERNER.resolve_with` -/
  resolve : InternedString → Option Text
  /-- `f64::from_str` -/
  parseF64 : Text → BitVec 64
  /-- `as f64` on an `i64` -/
  asF64 : ℤ → BitVec 64

namespace EvalContext

variable (ctx : EvalContext)

def partialCmp : PropertyValue → PropertyValue → Option Ordering
  | .int x, .int y => some (compare x y)
  | .int x, .float y => cmpF64 (ctx.asF64 x) y
  | .float x, .int y => cmpF64 x (ctx.asF64 y)
  | .float x, .float y => cmpF64 x y
  | .string x, .string y => some (compare x y)
  | .bool x, .bool y => some (compare x y)
  | _, _ => none

/-- Equality up to the conversion between integers and floats. -/
def looselyEqual (a b : PropertyValue) : Bool :=
  if isNumeric a && isNumeric b then ctx.partialCmp a b == some .eq else valueEq a b

def compare (a b : PropertyValue) : CypherCompOp → Bool
  | .eq => ctx.looselyEqual a b
  | .ne => !ctx.looselyEqual a b
  | .lt => ctx.partialCmp a b == some .lt
  | .le => ctx.partialCmp a b == some .lt || ctx.partialCmp a b == some .eq
  | .gt => ctx.partialCmp a b == some .gt
  | .ge => ctx.partialCmp a b == some .gt || ctx.partialCmp a b == some .eq

end EvalContext

/-! ### Literals and parameters -/

mutual

def paramToProperty : CypherParameterValue → PropertyValue
  | .null => .null
  | .bool b => .bool b
  | .int n => .int n
  | .float f => .float f
  | .string s => .string (String.ofList s)
  | .embedding e => .vector e
  | .list items => .array (paramsToProperties items)

def paramsToProperties : List CypherParameterValue → List PropertyValue
  | [] => []
  | p :: ps => paramToProperty p :: paramsToProperties ps

end

inductive EvalError where
  | unboundParameter (name : Text)
  | unboundVariable (name : Text)
  | bareVariable (name : Text)
  | notScalar (expr : CypherExpr)
  | notBoolean (expr : CypherExpr)

def EvalContext.cypherValueToProperty (ctx : EvalContext) :
    CypherValue → Except EvalError PropertyValue
  | .null => .ok .null
  | .bool b => .ok (.bool b)
  | .int n => .ok (.int n)
  | .float f => .ok (.float (ctx.parseF64 f))
  | .string s => .ok (.string (String.ofList s))
  | .parameter name =>
    match ctx.params name with
    | none => .error (.unboundParameter name)
    | some p => .ok (paramToProperty p)

/-! ### Bound entities -/

/-- The entities that the variables of a pattern denote. -/
abbrev Binding := List (Text × EntityResult)

def lookup (b : Binding) (var : Text) : Option EntityResult :=
  (b.find? fun p => p.1 = var).map (·.2)

/-- `Node::get_property` and `Edge::get_property`. -/
def EvalContext.getProperty (ctx : EvalContext) (properties : PropertyMap) (key : Text) :
    Option PropertyValue :=
  (ctx.getId key).bind properties.lookup

def EvalContext.edgeStructuralValue (ctx : EvalContext) (e : Query.Edge) (key : Text) :
    Option PropertyValue :=
  if key = "type".toList ∨ key = "label".toList then
    (ctx.resolve e.label).map fun s => .string (String.ofList s)
  else if key = "source".toList then some (.int (BitVec.ofNat 64 e.ends.source.val).toInt)
  else if key = "target".toList then some (.int (BitVec.ofNat 64 e.ends.target.val).toInt)
  else if key = "id".toList then some (.int (BitVec.ofNat 64 e.id.val).toInt)
  else none

/-- The value of an edge's field: reserved fields shadow properties. -/
def EvalContext.edgeLeafValue (ctx : EvalContext) (e : Query.Edge) (key : Text) :
    Option PropertyValue :=
  (ctx.edgeStructuralValue e key).or (ctx.getProperty e.properties key)

def EvalContext.entityProperty (ctx : EvalContext) (entity : EntityResult) (property : Text) :
    Option PropertyValue :=
  match entity with
  | .node n => ctx.getProperty n.properties property
  | .edge e => ctx.edgeLeafValue e property
  | _ => none

end Aletheia.Cypher

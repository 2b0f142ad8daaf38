import Aletheia.CypherLexer

/-!
# The Cypher parser

`CypherParser::parse`. The state is the list of the tokens from the current one on. Expressions
recurse on what is left of `MAX_EXPRESSION_DEPTH`; every round of a loop consumes a token, so that
the number of tokens left bounds its rounds.
-/

namespace Aletheia.Cypher

/-! ### The tree -/

inductive CypherValue where
  | null
  | bool (b : Bool)
  | int (i : ℤ)
  /-- The decimal literal that `f64::from_str` reads. -/
  | float (literal : Text)
  | string (s : Text)
  | parameter (name : Text)

inductive CypherCompOp where
  | eq | ne | lt | le | gt | ge
deriving DecidableEq, Repr

inductive CypherExpr where
  | value (v : CypherValue)
  | var (name : Text)
  | property (var property : Text)
  | comparison (left : CypherExpr) (op : CypherCompOp) (right : CypherExpr)
  | and (left right : CypherExpr)
  | or (left right : CypherExpr)
  | not (inner : CypherExpr)
  | isNull (inner : CypherExpr)
  | isNotNull (inner : CypherExpr)
  | inList (expr : CypherExpr) (values : List CypherExpr)
  | contains (expr : CypherExpr) (substring : Text)
  | startsWith (expr : CypherExpr) (start : Text)
  | endsWith (expr : CypherExpr) (suffix : Text)
  | functionCall (name : Text) (args : List CypherExpr) (distinct : Bool)
  | star
  | grouped (inner : CypherExpr)
  | list (elements : List CypherExpr)

inductive CypherDirection where
  | outgoing | incoming | both
deriving DecidableEq, Repr

inductive CypherDepth where
  | unbounded
  | exactly (n : ℕ)
  | max (n : ℕ)
  | min (n : ℕ)
  | range (min max : ℕ)
deriving DecidableEq, Repr

structure CypherNodePattern where
  var : Option Text
  labels : List Text
  properties : List (Text × CypherValue)

structure CypherRelPattern where
  var : Option Text
  relTypes : List Text
  direction : CypherDirection
  depth : Option CypherDepth
  properties : List (Text × CypherValue)

inductive CypherPatternElement where
  | node (pattern : CypherNodePattern)
  | relationship (pattern : CypherRelPattern)

structure CypherPattern where
  elements : List CypherPatternElement

inductive CypherReturnItem where
  | star
  | expression (expr : CypherExpr) (name : Option Text)

structure CypherOrderItem where
  expr : CypherExpr
  descending : Bool

structure CypherReturn where
  distinct : Bool
  items : List CypherReturnItem
  orderBy : List CypherOrderItem
  skip : Option ℕ
  limit : Option ℕ

structure CypherWith extends CypherReturn where
  whereClause : Option CypherExpr

inductive CypherTemporal where
  | asOfTimestamp (time : Text)
  | asOfValidTime (time : Text)
  | asOfSystemTime (time : Text)
  | biTemporal (validTime systemTime : Text)
  | between (start stop : Text)

inductive CypherNamespaceClause where
  | all
  | names (names : List Text)

def CypherNamespaceClause.isRestricting : CypherNamespaceClause → Bool
  | .all => false
  | .names ns => !decide (ns = ["all".toList])

structure CypherSetItem where
  var : Text
  property : Text
  value : CypherValue

inductive CypherWriteClause where
  | create (patterns : List CypherPattern)
  | setItems (items : List CypherSetItem)
  | delete (detach : Bool) (targets : List Text)
  | merge (pattern : CypherPattern) (onCreate onMatch : List CypherSetItem)

structure CypherReadingClause where
  pattern : List CypherPattern
  whereClause : Option CypherExpr

structure CypherWriteStatement where
  reading : Option CypherReadingClause
  clauses : List CypherWriteClause
  returnClause : Option CypherReturn

structure CypherOptionalMatch where
  pattern : List CypherPattern
  whereClause : Option CypherExpr
  precedingWiths : ℕ

structure CypherMatch where
  optional : Bool
  pattern : List CypherPattern
  whereClause : Option CypherExpr
  returnClause : CypherReturn
  temporal : Option CypherTemporal
  nspace : Option CypherNamespaceClause
  withClauses : List CypherWith
  optionalMatches : List CypherOptionalMatch

inductive CypherStatement where
  | matchQuery (statement : CypherMatch)
  | unwind (source : CypherExpr) (var : Text) (returnClause : CypherReturn)
  | explain (inner : CypherStatement)
  | profile (inner : CypherStatement)
  | write (statement : CypherWriteStatement)

/-- There is a write clause, possibly under a prefix. -/
def CypherStatement.isWrite : CypherStatement → Bool
  | .matchQuery _ | .unwind _ _ _ => false
  | .explain inner | .profile inner => inner.isWrite
  | .write _ => true

/-! ### Tokens -/

abbrev Parser := EStateM CypherError (List Token)

namespace Parser

/-- The current token; the list ends with an `Eof`. -/
def peek : Parser Token := fun s => .ok (s.head?.getD ⟨.eof, [], 0⟩) s

def error {α : Type} (message : ParseMessage) : Parser α := do
  throw (.parseError (← peek).position message)

/-- The current token, consumed unless it is the last. -/
def advance : Parser Token := do
  let tok ← peek
  if tok.kind ≠ .eof then modify List.tail
  return tok

def atKind (kind : TokenKind) : Parser Bool := return decide ((← peek).kind = kind)

def expect (kind : TokenKind) : Parser Token := do
  let tok ← peek
  if tok.kind = kind then advance else error (.expected kind tok.kind)

def eat (kind : TokenKind) : Parser Bool := do
  if ← atKind kind then
    let _ ← advance
    return true
  else return false

/-- `while cond { acc = body(acc) }`. -/
def loop {β : Type} (cond : Parser Bool) (body : β → Parser β) : ℕ → β → Parser β
  | 0, acc => return acc
  | n + 1, acc => do
    if ← cond then loop cond body n (← body acc) else return acc

def whileLoop {β : Type} (cond : Parser Bool) (body : β → Parser β) (acc : β) : Parser β := do
  loop cond body (← get).length acc

/-- `item (sep item)*`. -/
def sepBy {α : Type} (sep : TokenKind) (item : Parser α) : Parser (List α) := do
  let first ← item
  whileLoop (eat sep) (fun items => return items ++ [← item]) [first]

def identifier : Parser Text := return (← expect .identifier).text

def optionalIdentifier : Parser (Option Text) := do
  if ← atKind .identifier then return some (← advance).text else return none

/-- `if self.at(kind) { Some(parse()) } else { None }`. -/
def ifAt {α : Type} (kind : TokenKind) (parse : Parser α) : Parser (Option α) := do
  if ← atKind kind then return some (← parse) else return none

def eqIgnoreAsciiCase (a b : Text) : Bool := decide (a.map Char.toLower = b.map Char.toLower)

def checkContextualKw (keyword : String) : Parser Bool := do
  let tok ← peek
  return decide (tok.kind = .identifier) && eqIgnoreAsciiCase tok.text keyword.toList

def expectContextualKw (keyword : String) : Parser Unit := do
  if ← checkContextualKw keyword then
    let _ ← advance
  else error (.expectedContextual keyword.toList (← peek).kind)

/-! ### Values -/

def digitsValue (digits : Text) : ℕ := digits.foldl (fun n c => 10 * n + (c.toNat - 48)) 0

def parseUsize (role : UsizeRole) : Parser ℕ := do
  let tok ← expect .integerLiteral
  if digitsValue tok.text < 2 ^ 64 then return digitsValue tok.text
  else error (.invalidUsize role tok.text)

def parseValue : Parser CypherValue := do
  let tok ← peek
  match tok.kind with
  | .integerLiteral =>
    let tok ← advance
    if digitsValue tok.text < 2 ^ 63 then return .int (digitsValue tok.text)
    else error .invalidInteger
  | .floatLiteral => return .float (← advance).text
  | .stringLiteral => return .string (← advance).text
  | .trueKw =>
    let _ ← advance
    return .bool true
  | .falseKw =>
    let _ ← advance
    return .bool false
  | .nullKw =>
    let _ ← advance
    return .null
  | .parameter => return .parameter (← advance).text
  | kind => error (.expectedValue kind)

/-- `{key: value, ...}`. -/
def parseProperties : Parser (List (Text × CypherValue)) := do
  let _ ← expect .lBrace
  let entry : Parser (Text × CypherValue) := do
    let key ← identifier
    let _ ← expect .colon
    return (key, ← parseValue)
  let props ← if ← atKind .rBrace then pure [] else sepBy .comma entry
  let _ ← expect .rBrace
  return props

def optionalProperties : Parser (List (Text × CypherValue)) :=
  return (← ifAt .lBrace parseProperties).getD []

/-! ### Patterns -/

def parseNodePattern : Parser CypherNodePattern := do
  let _ ← expect .lParen
  let var ← optionalIdentifier
  let labels ← whileLoop (eat .colon) (fun labels => return labels ++ [← identifier]) []
  let properties ← optionalProperties
  let _ ← expect .rParen
  return { var, labels, properties }

/-- Everything after the star. -/
def parseDepth : Parser CypherDepth := do
  if ← eat .dotDot then return .max (← parseUsize .afterDots)
  else if ← atKind .integerLiteral then
    let n ← parseUsize .depth
    if ← eat .dotDot then
      if ← atKind .integerLiteral then
        let m ← parseUsize .afterDots
        if n > m then error (.invalidDepthRange n m) else return .range n m
      else return .min n
    else return .exactly n
  else return .unbounded

def parseRelationshipPattern : Parser CypherRelPattern := do
  let incoming ← eat .leftArrow
  if !incoming then
    let _ ← expect .dash
  let _ ← expect .lBracket
  let var ← optionalIdentifier
  let relTypes ← if ← eat .colon then sepBy .pipe identifier else pure []
  let depth ← if ← eat .star then some <$> parseDepth else pure none
  let properties ← optionalProperties
  let _ ← expect .rBracket
  let direction ←
    if incoming then
      let _ ← expect .dash
      pure CypherDirection.incoming
    else if ← eat .arrow then pure .outgoing
    else
      let _ ← expect .dash
      pure .both
  return { var, relTypes, direction, depth, properties }

def parsePattern : Parser CypherPattern := do
  let first ← parseNodePattern
  let more : Parser Bool := return (← atKind .dash) || (← atKind .leftArrow)
  let elements ← whileLoop more
    (fun elements => do
      let rel ← parseRelationshipPattern
      let node ← parseNodePattern
      return elements ++ [.relationship rel, .node node])
    [.node first]
  return ⟨elements⟩

def parsePatternList : Parser (List CypherPattern) := sepBy .comma parsePattern

/-! ### Expressions -/

/-- `MAX_EXPRESSION_DEPTH`. -/
def maxExpressionDepth : ℕ := 128

/-- `MAX_EXPRESSION_TERMS`. -/
def maxExpressionTerms : ℕ := 4096

/-- A chain of operands, with its number of operands so far. -/
def parseChain (sep : TokenKind) (join : CypherExpr → CypherExpr → CypherExpr)
    (operand : Parser CypherExpr) : Parser CypherExpr := do
  let first ← operand
  let (_, expr) ← whileLoop (eat sep)
    (fun (terms, left) => do
      if terms + 1 > maxExpressionTerms then error .tooManyTerms
      return (terms + 1, join left (← operand)))
    (1, first)
  return expr

/-- `parse_or_expr` and `parse_and_expr`, over `parse_not_expr`. -/
def parseOrExpr (notExpr : Parser CypherExpr) : Parser CypherExpr :=
  parseChain .orKw .or (parseChain .andKw .and notExpr)

/-- Items between commas, unless `close` comes first. -/
def parseArguments (close : TokenKind) (expr : Parser CypherExpr) : Parser (List CypherExpr) := do
  if ← atKind close then return [] else sepBy .comma expr

def parseFunctionArgs (expr : Parser CypherExpr) : Parser (List CypherExpr) :=
  parseArguments .rParen expr

/-- `[ expr, ... ]` after its bracket. -/
def parseListElements (expr : Parser CypherExpr) : Parser (List CypherExpr) := do
  if ← atKind .rBracket then return []
  else
    let first ← expr
    whileLoop (eat .comma)
      (fun elements => do
        if elements.length ≥ maxExpressionTerms then error .tooManyElements
        return elements ++ [← expr])
      [first]

/-- The arguments of a call, with both parentheses. -/
def parseCall (expr : Parser CypherExpr) : Parser (List CypherExpr) := do
  let _ ← expect .lParen
  let args ← parseFunctionArgs expr
  let _ ← expect .rParen
  return args

/-- `parse_primary_expr`; `expr` parses an expression one level deeper. -/
def parsePrimaryExpr (T : CharTables) (expr : Parser CypherExpr) : Parser CypherExpr := do
  let kind := (← peek).kind
  match kind with
  | .lParen =>
    let _ ← advance
    let inner ← expr
    let _ ← expect .rParen
    return .grouped inner
  | .lBracket =>
    let _ ← advance
    let elements ← parseListElements expr
    let _ ← expect .rBracket
    return .list elements
  | .identifier =>
    let name := (← advance).text
    if ← eat .dot then
      let next ← identifier
      if ← atKind .lParen then
        return .functionCall (name ++ '.' :: next) (← parseCall expr) false
      else return .property name next
    else if ← atKind .lParen then return .functionCall name (← parseCall expr) false
    else return .var name
  | .countKw | .collectKw | .avgKw | .sumKw | .minKw | .maxKw =>
    let name := toUppercase T (← advance).text
    let _ ← expect .lParen
    let distinct ← eat .distinctKw
    let args ←
      if ← atKind .star then
        if distinct then error .distinctStar
        let _ ← advance
        pure [CypherExpr.star]
      else parseFunctionArgs expr
    let _ ← expect .rParen
    return .functionCall name args distinct
  | .integerLiteral | .floatLiteral | .stringLiteral | .trueKw | .falseKw | .nullKw | .parameter =>
    return .value (← parseValue)
  | kind => error (.expectedExpression kind)

def compOp : TokenKind → Option CypherCompOp
  | .eq => some .eq
  | .ne => some .ne
  | .lt => some .lt
  | .le => some .le
  | .gt => some .gt
  | .ge => some .ge
  | _ => none

def parseStringArgument (primary : Parser CypherExpr) (message : ParseMessage) : Parser Text := do
  match ← primary with
  | .value (.string s) => return s
  | _ => error message

def parseComparison (T : CharTables) (expr : Parser CypherExpr) : Parser CypherExpr := do
  let primary := parsePrimaryExpr T expr
  let left ← primary
  let kind := (← peek).kind
  match compOp kind with
  | some op =>
    let _ ← advance
    return .comparison left op (← primary)
  | none =>
    match kind with
    | .isKw =>
      let _ ← advance
      if ← eat .notKw then
        let _ ← expect .nullKw
        return .isNotNull left
      else
        let _ ← expect .nullKw
        return .isNull left
    | .inKw =>
      let _ ← advance
      let _ ← expect .lBracket
      let values ← parseArguments .rBracket expr
      let _ ← expect .rBracket
      return .inList left values
    | .containsKw =>
      let _ ← advance
      return .contains left (← parseStringArgument primary .containsNeedsString)
    | .startsWithKw =>
      let _ ← advance
      let _ ← expect .withKw
      return .startsWith left (← parseStringArgument primary .startsWithNeedsString)
    | .endsWithKw =>
      let _ ← advance
      let _ ← expect .withKw
      return .endsWith left (← parseStringArgument primary .endsWithNeedsString)
    | _ => return left

/-- `parse_not_expr` with `depth + left = MAX_EXPRESSION_DEPTH + 1`. -/
def parseNotExpr (T : CharTables) : ℕ → Parser CypherExpr
  | 0 => error .expressionTooDeep
  | left + 1 => do
    if ← eat .notKw then return .not (← parseNotExpr T left)
    else
      parseComparison T
        (if left = 0 then error .expressionTooDeep else parseOrExpr (parseNotExpr T left))

/-- `parse_expression(0)`. -/
def parseExpression (T : CharTables) : Parser CypherExpr :=
  parseOrExpr (parseNotExpr T (maxExpressionDepth + 1))

def parseWhere (T : CharTables) : Parser CypherExpr := do
  let _ ← expect .whereKw
  parseExpression T

/-! ### Projections -/

def parseReturnItem (T : CharTables) : Parser CypherReturnItem := do
  let expr ← parseExpression T
  let name ← if ← eat .asKw then some <$> identifier else pure none
  return .expression expr name

def parseReturnItems (T : CharTables) : Parser (List CypherReturnItem) := do
  if ← eat .star then return [.star] else sepBy .comma (parseReturnItem T)

def parseOrderItem (T : CharTables) : Parser CypherOrderItem := do
  let expr ← parseExpression T
  if ← eat .descKw then return ⟨expr, true⟩
  else
    let _ ← eat .ascKw
    return ⟨expr, false⟩

def parseOrderBy (T : CharTables) : Parser (List CypherOrderItem) := do
  let _ ← expect .orderKw
  let _ ← expect .byKw
  sepBy .comma (parseOrderItem T)

/-- What `RETURN` and `WITH` have in common, after the keyword. -/
def parseProjection (T : CharTables) : Parser CypherReturn := do
  let distinct ← eat .distinctKw
  let items ← parseReturnItems T
  let orderBy := (← ifAt .orderKw (parseOrderBy T)).getD []
  let skip ← if ← eat .skipKw then some <$> parseUsize .afterSkip else pure none
  let limit ← if ← eat .limitKw then some <$> parseUsize .afterLimit else pure none
  return { distinct, items, orderBy, skip, limit }

def parseReturn (T : CharTables) : Parser CypherReturn := do
  let _ ← expect .returnKw
  parseProjection T

def parseWith (T : CharTables) : Parser CypherWith := do
  let _ ← expect .withKw
  let projection ← parseProjection T
  let whereClause ← ifAt .whereKw (parseWhere T)
  return { projection with whereClause }

/-! ### Temporal and namespace clauses -/

def stringLiteral : Parser Text := return (← expect .stringLiteral).text

/-- `AS OF '...'` after the dimension. -/
def parseAsOfString : Parser Text := do
  let _ ← expect .asKw
  let _ ← expect .ofKw
  stringLiteral

/-- `FOR VALID_TIME | SYSTEM_TIME AS OF '...'`. -/
def parseForTime : Parser CypherTemporal := do
  let _ ← advance
  match (← peek).kind with
  | .validTimeKw =>
    let _ ← advance
    return .asOfValidTime (← parseAsOfString)
  | .systemTimeKw =>
    let _ ← advance
    return .asOfSystemTime (← parseAsOfString)
  | _ => error .expectedTimeAfterFor

/-- `BETWEEN '...' AND '...'`. -/
def parseBetween : Parser CypherTemporal := do
  let _ ← advance
  let start ← stringLiteral
  let _ ← expect .andKw
  return .between start (← stringLiteral)

def tryParseTemporal : Parser (Option CypherTemporal) := do
  match (← peek).kind with
  | .asKw =>
    let _ ← advance
    let _ ← expect .ofKw
    let _ ← expect .timestampKw
    return some (.asOfTimestamp (← stringLiteral))
  | .forKw => some <$> parseForTime
  | .betweenKw => some <$> parseBetween
  | _ => return none

/-- `AS OF SYSTEM_TIME '...'` after a valid time; other tokens are given back. -/
def parseSecondTime (validTime : Text) : Parser CypherTemporal := do
  let saved ← get
  if ← eat .asKw then
    if ← eat .ofKw then
      if ← eat .systemTimeKw then return .biTemporal validTime (← stringLiteral)
  set saved
  return .asOfValidTime validTime

def tryParsePostPatternTemporal : Parser (Option CypherTemporal) := do
  match (← peek).kind with
  | .asKw =>
    let _ ← advance
    let _ ← expect .ofKw
    match (← peek).kind with
    | .timestampKw =>
      let _ ← advance
      return some (.asOfTimestamp (← stringLiteral))
    | .validTimeKw =>
      let _ ← advance
      let validTime ← stringLiteral
      some <$> parseSecondTime validTime
    | .systemTimeKw =>
      let _ ← advance
      return some (.asOfSystemTime (← stringLiteral))
    | _ => error .expectedTimeAfterAsOf
  | .forKw => some <$> parseForTime
  | .betweenKw => some <$> parseBetween
  | _ => return none

def parseNamespaceName : Parser Text := do
  match (← peek).kind with
  | .stringLiteral | .identifier => return (← advance).text
  | _ => error .expectedNamespaceName

def parseNamespaceClause : Parser CypherNamespaceClause := do
  if ← atKind .inKw then
    let _ ← advance
  else expectContextualKw "USE"
  if ← checkContextualKw "ALL" then
    let _ ← advance
    expectContextualKw "NAMESPACES"
    return .all
  else
    expectContextualKw "NAMESPACE"
    return .names (← sepBy .comma parseNamespaceName)

def rejectRestrictingNamespaceOnWrite (nspace : Option CypherNamespaceClause) : Parser Unit := do
  if nspace.any CypherNamespaceClause.isRestricting then
    throw (.unsupportedFeature .namespaceOnWrite)

/-! ### Write statements -/

def parseSetItem : Parser CypherSetItem := do
  let var ← identifier
  if ← atKind .colon then throw (.unsupportedFeature .setLabel)
  if ← atKind .eq then throw (.unsupportedFeature .setWholeEntity)
  let _ ← expect .dot
  let property ← identifier
  let _ ← expect .eq
  return { var, property, value := ← parseValue }

def parseSetItems : Parser (List CypherSetItem) := sepBy .comma parseSetItem

def parseMergeActions : Parser (List CypherSetItem × List CypherSetItem) :=
  whileLoop (eat .onKw)
    (fun (onCreate, onMatch) => do
      match (← peek).kind with
      | .createKw =>
        let _ ← advance
        let _ ← expect .setKw
        return (onCreate ++ (← parseSetItems), onMatch)
      | .matchKw =>
        let _ ← advance
        let _ ← expect .setKw
        return (onCreate, onMatch ++ (← parseSetItems))
      | _ => error .expectedCreateOrMatchAfterOn)
    ([], [])

def parseDeleteTargets : Parser (List Text) := sepBy .comma identifier

/-- `at_write_clause`. -/
def isWriteClause : TokenKind → Bool
  | .createKw | .mergeKw | .setKw | .deleteKw | .detachKw => true
  | _ => false

def atWriteClause : Parser Bool := return isWriteClause (← peek).kind

def parseWriteClause : Parser CypherWriteClause := do
  match (← advance).kind with
  | .createKw => return .create (← parsePatternList)
  | .mergeKw =>
    let pattern ← parsePattern
    let (onCreate, onMatch) ← parseMergeActions
    return .merge pattern onCreate onMatch
  | .setKw => return .setItems (← parseSetItems)
  | .detachKw =>
    let _ ← expect .deleteKw
    return .delete true (← parseDeleteTargets)
  | _ => return .delete false (← parseDeleteTargets)

def parseWriteStatement (T : CharTables) (reading : Option CypherReadingClause) :
    Parser CypherStatement := do
  let clauses ← whileLoop atWriteClause (fun clauses => return clauses ++ [← parseWriteClause]) []
  if clauses.isEmpty then error .expectedWriteClause
  let returnClause ← ifAt .returnKw (parseReturn T)
  return .write { reading, clauses, returnClause }

/-! ### Read statements -/

def parseUnwind (T : CharTables) : Parser CypherStatement := do
  let _ ← expect .unwindKw
  let source ← parseExpression T
  let _ ← expect .asKw
  let var ← identifier
  return .unwind source var (← parseReturn T)

def parseOptionalMatch (T : CharTables) (precedingWiths : ℕ) : Parser CypherOptionalMatch := do
  let _ ← expect .optionalMatchKw
  let _ ← expect .matchKw
  let pattern ← parsePatternList
  let whereClause ← ifAt .whereKw (parseWhere T)
  return { pattern, whereClause, precedingWiths }

/-- The `WITH` and `OPTIONAL MATCH` clauses before the `RETURN`, in any order. -/
def parseParts (T : CharTables) : Parser (List CypherWith × List CypherOptionalMatch) :=
  whileLoop (return (← atKind .withKw) || (← atKind .optionalMatchKw))
    (fun (withClauses, optionalMatches) => do
      if ← atKind .withKw then return (withClauses ++ [← parseWith T], optionalMatches)
      else return (withClauses, optionalMatches ++ [← parseOptionalMatch T withClauses.length]))
    ([], [])

def parseMatch (T : CharTables) (temporal : Option CypherTemporal)
    (nspace : Option CypherNamespaceClause) : Parser CypherStatement := do
  let optional ← eat .optionalMatchKw
  let _ ← expect .matchKw
  let pattern ← parsePatternList
  let whereClause ← ifAt .whereKw (parseWhere T)
  if !optional && temporal.isNone && (← atWriteClause) then
    rejectRestrictingNamespaceOnWrite nspace
    parseWriteStatement T (some { pattern, whereClause })
  else
    let temporal ← if temporal.isSome then pure temporal else tryParsePostPatternTemporal
    let (withClauses, optionalMatches) ← parseParts T
    let returnClause ← parseReturn T
    return .matchQuery
      { optional, pattern, whereClause, returnClause, temporal, nspace, withClauses,
        optionalMatches }

/-! ### Statements -/

def atTemporalStart : Parser Bool := do
  match (← peek).kind with
  | .asKw | .forKw | .betweenKw => return true
  | _ => return false

def atNamespaceStart : Parser Bool := return (← atKind .inKw) || (← checkContextualKw "USE")

/-- The temporal and the namespace clause, in either order. -/
def parsePrefixes : Parser (Option CypherTemporal × Option CypherNamespaceClause) :=
  whileLoop (return (← atTemporalStart) || (← atNamespaceStart))
    (fun (temporal, nspace) => do
      if ← atTemporalStart then
        if temporal.isSome then error .duplicateTemporal
        return (← tryParseTemporal, nspace)
      else
        if nspace.isSome then error .duplicateNamespace
        return (temporal, some (← parseNamespaceClause)))
    (none, none)

/-- `parse_statement` where there is no `EXPLAIN` or `PROFILE`. -/
def parsePlainStatement (T : CharTables) : Parser CypherStatement := do
  let (temporal, nspace) ← parsePrefixes
  match (← peek).kind with
  | .unwindKw =>
    if temporal.isSome then error .temporalBeforeUnwind
    if nspace.isSome then error .namespaceBeforeUnwind
    parseUnwind T
  | .createKw | .mergeKw =>
    if temporal.isSome then error .temporalBeforeWrite
    rejectRestrictingNamespaceOnWrite nspace
    parseWriteStatement T none
  | _ => parseMatch T temporal nspace

/-- `leading_explain_profile_prefix`: `true` for `EXPLAIN`. -/
def leadingExplainProfilePrefix : Parser (Option Bool) := do
  if ← checkContextualKw "EXPLAIN" then return some true
  else if ← checkContextualKw "PROFILE" then return some false
  else return none

/-- The statement within a prefix has none of its own. -/
def parseStatement (T : CharTables) : Parser CypherStatement := do
  match ← leadingExplainProfilePrefix with
  | none => parsePlainStatement T
  | some isExplain =>
    let _ ← advance
    if (← leadingExplainProfilePrefix).isSome then error .nestedExplain
    let inner ← parsePlainStatement T
    return if isExplain then .explain inner else .profile inner

/-- The whole token stream is one statement. -/
def parseTokens (T : CharTables) : Parser CypherStatement := do
  let statement ← parseStatement T
  if (← peek).kind ≠ .eof then error .unexpectedTokensAfterEnd
  return statement

end Parser

/-- `CypherParser::parse`. -/
def parse (T : CharTables) (input : Text) : Except CypherError CypherStatement := do
  let tokens ← tokenize T input
  match (Parser.parseTokens T).run tokens with
  | .ok statement _ => return statement
  | .error e _ => throw e

/-- The lexer and the parser accept the text, as a statement with a write clause. -/
def parsesToWrite (T : CharTables) (input : Text) : Bool :=
  match parse T input with
  | .ok statement => statement.isWrite
  | .error _ => false

end Aletheia.Cypher

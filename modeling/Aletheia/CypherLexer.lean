import Mathlib.Algebra.Order.Ring.Nat
import Mathlib.Data.List.Basic

/-!
# The Cypher lexer

`CypherLexer::tokenize`. The state of the lexer is the rest of the text; the position of a token is
what has been read before it, in bytes. The lexer accepts any Unicode letter inside a word, so that
it takes the character tables of the standard library as a parameter.
-/

namespace Aletheia.Cypher

/-- The parts of Rust's `char` that the lexer and the guard use, with what they are on ASCII. -/
structure CharTables where
  isAlphanumeric : Char → Bool
  isWhitespace : Char → Bool
  toUppercase : Char → List Char
  isAlphanumeric_ascii : ∀ c, c.val < 128 → isAlphanumeric c = c.isAlphanum
  isWhitespace_ascii : ∀ c, c.val < 128 →
    isWhitespace c = (decide (c = ' ') || decide (9 ≤ c.val ∧ c.val ≤ 13))
  toUppercase_ascii : ∀ c, c.val < 128 → toUppercase c = [c.toUpper]

def CharTables.ascii : CharTables where
  isAlphanumeric c := c.isAlphanum
  isWhitespace c := decide (c = ' ') || decide (9 ≤ c.val ∧ c.val ≤ 13)
  toUppercase c := [c.toUpper]
  isAlphanumeric_ascii _ _ := rfl
  isWhitespace_ascii _ _ := rfl
  toUppercase_ascii _ _ := rfl

/-- Keywords have the suffix `Kw`. -/
inductive TokenKind where
  | matchKw | optionalMatchKw | whereKw | returnKw | withKw | unwindKw
  | createKw | setKw | deleteKw | detachKw | mergeKw | onKw
  | orderKw | byKw | limitKw | skipKw | asKw | distinctKw
  | andKw | orKw | notKw | inKw | isKw
  | ascKw | descKw
  | trueKw | falseKw | nullKw
  | containsKw | startsWithKw | endsWithKw
  | countKw | collectKw | avgKw | sumKw | minKw | maxKw
  | ofKw | timestampKw | betweenKw | forKw | systemTimeKw | validTimeKw
  | eq | ne | lt | le | gt | ge
  | lParen | rParen | lBracket | rBracket | lBrace | rBrace
  | colon | dot | dotDot | comma | pipe | dash | arrow | leftArrow | star | plus | slash | percent
  | integerLiteral | floatLiteral | stringLiteral | parameter | identifier
  | eof
deriving DecidableEq, Repr

/-- The characters of a `String`. -/
abbrev Text := List Char

/-- For a string literal the text is the unescaped content, for a parameter the name without the
dollar sign. -/
structure Token where
  kind : TokenKind
  text : Text
  position : ℕ
deriving DecidableEq, Repr

inductive LexMessage where
  | unexpectedCharacter (c : Char)
  | expectedEqAfterBang
  | unterminatedString
  | expectedParameterName
deriving DecidableEq, Repr

inductive UsizeRole where
  | afterDots
  | depth
  | afterSkip
  | afterLimit
deriving DecidableEq, Repr

inductive ParseMessage where
  | expected (kind found : TokenKind)
  | expectedContextual (keyword : Text) (found : TokenKind)
  | unexpectedTokensAfterEnd
  | nestedExplain
  | duplicateTemporal
  | duplicateNamespace
  | temporalBeforeUnwind
  | namespaceBeforeUnwind
  | temporalBeforeWrite
  | expectedWriteClause
  | expectedCreateOrMatchAfterOn
  | expectedNamespaceName
  | expressionTooDeep
  | tooManyTerms
  | tooManyElements
  | containsNeedsString
  | startsWithNeedsString
  | endsWithNeedsString
  | distinctStar
  | expectedExpression (found : TokenKind)
  | expectedValue (found : TokenKind)
  | invalidInteger
  | invalidDepthRange (min max : ℕ)
  | invalidUsize (role : UsizeRole) (text : Text)
  | expectedTimeAfterFor
  | expectedTimeAfterAsOf
deriving DecidableEq, Repr

inductive Unsupported where
  | setLabel
  | setWholeEntity
  | namespaceOnWrite
deriving DecidableEq, Repr

inductive CypherError where
  | lexError (position : ℕ) (message : LexMessage)
  | parseError (position : ℕ) (message : ParseMessage)
  | unsupportedFeature (feature : Unsupported)
deriving DecidableEq, Repr

/-! ### Words -/

def keywords : List (String × TokenKind) :=
  [("MATCH", .matchKw), ("OPTIONAL", .optionalMatchKw), ("WHERE", .whereKw), ("RETURN", .returnKw),
   ("WITH", .withKw), ("UNWIND", .unwindKw),
   ("CREATE", .createKw), ("SET", .setKw), ("DELETE", .deleteKw), ("DETACH", .detachKw),
   ("MERGE", .mergeKw), ("ON", .onKw),
   ("ORDER", .orderKw), ("BY", .byKw), ("LIMIT", .limitKw), ("SKIP", .skipKw), ("AS", .asKw),
   ("DISTINCT", .distinctKw),
   ("AND", .andKw), ("OR", .orKw), ("NOT", .notKw), ("IN", .inKw), ("IS", .isKw),
   ("ASC", .ascKw), ("DESC", .descKw),
   ("TRUE", .trueKw), ("FALSE", .falseKw), ("NULL", .nullKw),
   ("CONTAINS", .containsKw), ("STARTS", .startsWithKw), ("ENDS", .endsWithKw),
   ("COUNT", .countKw), ("COLLECT", .collectKw), ("AVG", .avgKw), ("SUM", .sumKw),
   ("MIN", .minKw), ("MAX", .maxKw),
   ("OF", .ofKw), ("TIMESTAMP", .timestampKw), ("BETWEEN", .betweenKw), ("FOR", .forKw),
   ("SYSTEM_TIME", .systemTimeKw), ("VALID_TIME", .validTimeKw)]

section Lexer

variable (T : CharTables)

def isWordChar (c : Char) : Bool := T.isAlphanumeric c || decide (c = '_')

/-- `str::to_uppercase`. -/
def toUppercase (text : Text) : Text := text.flatMap T.toUppercase

def wordKind (text : Text) : TokenKind :=
  let upper := toUppercase T text
  match keywords.find? fun e => e.1.toList = upper with
  | some e => e.2
  | none => .identifier

/-! ### Blanks and comments -/

mutual

def skipWhitespaceAndComments : Text → Text
  | [] => []
  | c :: cs =>
    if T.isWhitespace c then skipWhitespaceAndComments cs
    else if c = '/' ∧ cs.head? = some '/' then skipLine cs
    else c :: cs

/-- To the end of the line, from the second slash on. -/
def skipLine : Text → Text
  | [] => []
  | c :: cs => if c = '\n' then skipWhitespaceAndComments cs else skipLine cs

end

/-! ### Literals -/

/-- What an escape stands for in a string with this quote. -/
def unescape (quote c : Char) : Text :=
  if c = quote then [c]
  else if c = '\\' then ['\\']
  else if c = 'n' then ['\n']
  else if c = 't' then ['\t']
  else if c = 'r' then ['\r']
  else ['\\', c]

/-- The value of a string whose opening quote has been read, and the text after it. -/
def readString (quote : Char) : Text → Option (Text × Text)
  | [] => none
  | c :: cs =>
    if c = quote then some ([], cs)
    else if c = '\\' then
      match cs with
      | [] => none
      | e :: cs => (readString quote cs).map fun r => (unescape quote e ++ r.1, r.2)
    else (readString quote cs).map fun r => (c :: r.1, r.2)

/-- The digits of a number, and those after a point that a digit follows. -/
def readNumber (cs : Text) : TokenKind × Text × Text :=
  let digits := cs.takeWhile Char.isDigit
  match cs.dropWhile Char.isDigit with
  | '.' :: d :: rest =>
    if d.isDigit then
      (.floatLiteral, digits ++ '.' :: (d :: rest).takeWhile Char.isDigit,
        (d :: rest).dropWhile Char.isDigit)
    else (.integerLiteral, digits, '.' :: d :: rest)
  | rest => (.integerLiteral, digits, rest)

/-! ### Tokens -/

def utf8Len (cs : Text) : ℕ := (cs.map Char.utf8Size).sum

/-- The symbols of one character that start no longer one. -/
def singleSymbol (c : Char) : Option TokenKind :=
  match c with
  | '(' => some .lParen
  | ')' => some .rParen
  | '[' => some .lBracket
  | ']' => some .rBracket
  | '{' => some .lBrace
  | '}' => some .rBrace
  | ':' => some .colon
  | ',' => some .comma
  | '*' => some .star
  | '+' => some .plus
  | '%' => some .percent
  | '|' => some .pipe
  | '=' => some .eq
  | '/' => some .slash
  | _ => none

/-- The symbols of two characters, by both. -/
def doubleSymbol (c d : Char) : Option TokenKind :=
  match c, d with
  | '.', '.' => some .dotDot
  | '-', '>' => some .arrow
  | '<', '=' => some .le
  | '<', '>' => some .ne
  | '<', '-' => some .leftArrow
  | '>', '=' => some .ge
  | '!', '=' => some .ne
  | _, _ => none

/-- What the first character of a longer symbol is alone; nothing for the exclamation mark. -/
def shortSymbol (c : Char) : Option TokenKind :=
  match c with
  | '.' => some .dot
  | '-' => some .dash
  | '<' => some .lt
  | '>' => some .gt
  | _ => none

/-- `next_token` on a text of `total` bytes that has come to `cs`. -/
def nextToken (total : ℕ) (cs : Text) : Except CypherError (Token × Text) :=
  match skipWhitespaceAndComments T cs with
  | [] => .ok (⟨.eof, [], total⟩, [])
  | c :: cs =>
    let pos := total - utf8Len (c :: cs)
    let double := cs.head?.bind (doubleSymbol c)
    match singleSymbol c, double, shortSymbol c with
    | some kind, _, _ => .ok (⟨kind, [c], pos⟩, cs)
    | none, some kind, _ => .ok (⟨kind, c :: cs.take 1, pos⟩, cs.tail)
    | none, none, some kind => .ok (⟨kind, [c], pos⟩, cs)
    | none, none, none =>
      if c = '!' then .error (.lexError pos .expectedEqAfterBang)
      else if c = '\'' ∨ c = '"' then
        match readString c cs with
        | some (value, rest) => .ok (⟨.stringLiteral, value, pos⟩, rest)
        | none => .error (.lexError pos .unterminatedString)
      else if c = '$' then
        let name := cs.takeWhile (isWordChar T)
        if name = [] then .error (.lexError pos .expectedParameterName)
        else .ok (⟨.parameter, name, pos⟩, cs.dropWhile (isWordChar T))
      else if c.isDigit then
        let (kind, text, rest) := readNumber (c :: cs)
        .ok (⟨kind, text, pos⟩, rest)
      else if c.isAlpha ∨ c = '_' then
        let text := (c :: cs).takeWhile (isWordChar T)
        .ok (⟨wordKind T text, text, pos⟩, (c :: cs).dropWhile (isWordChar T))
      else .error (.lexError pos (.unexpectedCharacter c))

/-- The loop of `tokenize`. A token has a character at least, so that one more round than there are
characters is enough. -/
def tokenizeFrom (total : ℕ) : ℕ → Text → Except CypherError (List Token)
  | 0, _ => .ok []
  | n + 1, cs => do
    let (tok, rest) ← nextToken T total cs
    if tok.kind = .eof then return [tok]
    return tok :: (← tokenizeFrom total n rest)

def tokenize (input : Text) : Except CypherError (List Token) :=
  tokenizeFrom T (utf8Len input) (input.length + 1) input

end Lexer

end Aletheia.Cypher

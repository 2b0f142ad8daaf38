import Aletheia.CypherParser
import Mathlib.Data.List.TakeWhile

/-!
# The read-only guard

`detect_mutating_clause` is a second scanner: it deletes string literals and comments and looks for
a mutating keyword among the words of what is left. On every text that the lexer accepts, it deletes
what the lexer reads as strings and comments. It deletes them without a trace, so that the words on
both sides become one, and it takes a word for a label or a property key when the last symbol before
it is a colon or a dot, however many words stand between.
-/

namespace Aletheia.Cypher

open List Option

/-! ### The guard -/

/-- `MUTATING_KEYWORDS`. -/
def mutatingKeywords : List String :=
  ["CREATE", "MERGE", "SET", "DELETE", "REMOVE", "DETACH", "DROP", "CALL", "FOREACH", "LOAD"]

mutual

/-- The first pass. `quote` is the quote of the string it is in. -/
def sanitize (quote : Option Char) (escaped : Bool) : Text → Text
  | [] => []
  | c :: cs =>
    if escaped then sanitize quote false cs
    else
      match quote with
      | some q =>
        if c = '\\' then sanitize (some q) true cs
        else if c = q then sanitize none false cs
        else sanitize (some q) false cs
      | none =>
        if c = '\'' ∨ c = '"' then sanitize (some c) false cs
        else if c = '/' ∧ cs.head? = some '/' then sanitizeComment cs
        else c :: sanitize none false cs

/-- To the end of the line, from the second slash on. -/
def sanitizeComment : Text → Text
  | [] => []
  | c :: cs => if c = '\n' then sanitize none false cs else sanitizeComment cs

end

section Guard

variable (T : CharTables) {kind : TokenKind} {pre word post : Text} {tokens : List Token}

/-- The test that a word is put to, with the last symbol before it. -/
def mutatingWord (last : Option Char) (word : Text) : Option String :=
  if word = [] ∨ last = some ':' ∨ last = some '.' then none
  else mutatingKeywords.find? fun keyword => Parser.eqIgnoreAsciiCase keyword.toList word

/-- The second pass: `last_non_ws`, `current_token` and the rest of the text. -/
def scanWords (last : Option Char) (current : Text) : Text → Option String
  | [] => none
  | c :: cs =>
    if isWordChar T c then scanWords last (current ++ [c]) cs
    else
      match mutatingWord last current with
      | some keyword => some keyword
      | none => scanWords (if T.isWhitespace c then last else some c) [] cs

def detectMutatingClause (query : Text) : Option String :=
  scanWords T none [] (sanitize none false query ++ [' '])

/-! ### The text as the lexer divides it -/

mutual

/-- The blanks before the next token, without comments. -/
def blanks : Text → Text
  | [] => []
  | c :: cs =>
    if T.isWhitespace c then c :: blanks cs
    else if c = '/' ∧ cs.head? = some '/' then blanksAfterLine cs
    else []

def blanksAfterLine : Text → Text
  | [] => []
  | c :: cs => if c = '\n' then blanks cs else blanksAfterLine cs

end

/-- The characters of the token that ends where `rest` begins. -/
def rawText (cs rest : Text) : Text :=
  (skipWhitespaceAndComments T cs).take ((skipWhitespaceAndComments T cs).length - rest.length)

/-- What the lexer reads outside of string literals and comments. -/
def visibleFrom (total : ℕ) : ℕ → Text → Text
  | 0, _ => []
  | n + 1, cs =>
    blanks T cs ++
      match nextToken T total cs with
      | .error _ => []
      | .ok (tok, rest) =>
        if tok.kind = .eof then []
        else (if tok.kind = .stringLiteral then [] else rawText T cs rest) ++ visibleFrom total n rest

def visibleText (input : Text) : Text := visibleFrom T (utf8Len input) (input.length + 1) input

/-! ### Characters -/

/-- A character that the first pass copies wherever it stands. -/
def IsPlain (c : Char) : Prop := c ≠ '\'' ∧ c ≠ '"' ∧ c ≠ '/'

instance (c : Char) : Decidable (IsPlain c) := inferInstanceAs (Decidable (_ ∧ _))

variable {c : Char}

lemma isPlain_of_isWordChar (h : isWordChar T c = true) : IsPlain c := by
  have hnot : ∀ d : Char, d.val < 128 → d.isAlphanum = false → d ≠ '_' → c ≠ d := by
    rintro d hd hno hne rfl
    rw [isWordChar, T.isAlphanumeric_ascii c hd, hno] at h
    simp [hne] at h
  exact ⟨hnot _ (by decide) (by decide) (by decide), hnot _ (by decide) (by decide) (by decide),
    hnot _ (by decide) (by decide) (by decide)⟩

lemma isPlain_of_isWhitespace (h : T.isWhitespace c = true) : IsPlain c := by
  have hnot : ∀ d : Char, d.val < 128 → CharTables.ascii.isWhitespace d = false → c ≠ d := by
    rintro d hd hno rfl
    rw [T.isWhitespace_ascii c hd] at h
    exact absurd (h.symm.trans hno) (by decide)
  exact ⟨hnot _ (by decide) (by decide), hnot _ (by decide) (by decide),
    hnot _ (by decide) (by decide)⟩

lemma isPlain_of_isDigit (h : c.isDigit = true) : IsPlain c := by
  refine ⟨?_, ?_, ?_⟩ <;>
  · rintro rfl
    exact absurd h (by decide)

lemma isWordChar_of_isAlpha (h : c.isAlpha = true ∨ c = '_') : isWordChar T c = true := by
  obtain h | rfl := h
  · have hascii : c.val < 128 := by
      delta Char.isAlpha Char.isUpper Char.isLower at h
      simp only [Bool.or_eq_true, Bool.and_eq_true, decide_eq_true_eq] at h
      obtain ⟨-, h⟩ | ⟨-, h⟩ := h
      · exact UInt32.lt_of_le_of_lt h (by decide)
      · exact UInt32.lt_of_le_of_lt h (by decide)
    rw [isWordChar, T.isAlphanumeric_ascii c hascii, Char.isAlphanum, h]
    rfl
  · simp [isWordChar]

/-! ### What the first pass does with each piece -/

lemma sanitize_cons_of_isPlain (h : IsPlain c) (cs : Text) :
    sanitize none false (c :: cs) = c :: sanitize none false cs := by
  obtain ⟨h₁, h₂, h₃⟩ := h
  simp [sanitize, h₁, h₂, h₃]

lemma sanitize_append {raw : Text} (h : ∀ c ∈ raw, IsPlain c) (rest : Text) :
    sanitize none false (raw ++ rest) = raw ++ sanitize none false rest := by
  induction raw with
  | nil => rfl
  | cons c raw ih =>
    obtain ⟨hc, hraw⟩ := forall_mem_cons.mp h
    rw [cons_append, sanitize_cons_of_isPlain hc, ih hraw, cons_append]

lemma sanitize_readString {quote : Char} {cs value rest : Text} (hquote : quote ≠ '\\')
    (h : readString quote cs = some (value, rest)) :
    sanitize (some quote) false cs = sanitize none false rest := by
  fun_induction readString quote cs generalizing value with
  | case1 => simp at h
  | case2 cs =>
    cases h
    simp [sanitize, hquote]
  | case3 => simp at h
  | case4 hne e cs ih =>
    obtain ⟨⟨value', rest'⟩, hread, heq⟩ := map_eq_some_iff.mp h
    cases heq
    simp [sanitize, ih hread]
  | case5 c cs hne hback ih =>
    obtain ⟨⟨value', rest'⟩, hread, heq⟩ := map_eq_some_iff.mp h
    cases heq
    simp [sanitize, hne, hback, ih hread]

mutual

lemma sanitize_skip (cs : Text) : sanitize none false cs =
      blanks T cs ++ sanitize none false (skipWhitespaceAndComments T cs) := by
  match cs with
  | [] => simp [blanks, skipWhitespaceAndComments]
  | c :: cs =>
    rw [blanks, skipWhitespaceAndComments]
    by_cases hblank : T.isWhitespace c = true
    · rw [if_pos hblank, if_pos hblank, sanitize_cons_of_isPlain (isPlain_of_isWhitespace T hblank),
        sanitize_skip cs, cons_append]
    · rw [if_neg hblank, if_neg hblank]
      by_cases hcomment : c = '/' ∧ cs.head? = some '/'
      · rw [if_pos hcomment, if_pos hcomment, ← sanitizeComment_skip cs]
        simp [sanitize, hcomment.1, hcomment.2]
      · rw [if_neg hcomment, if_neg hcomment, nil_append]

lemma sanitizeComment_skip (cs : Text) :
    sanitizeComment cs = blanksAfterLine T cs ++ sanitize none false (skipLine T cs) := by
  match cs with
  | [] => simp [sanitizeComment, blanksAfterLine, skipLine, sanitize]
  | c :: cs =>
    rw [sanitizeComment, blanksAfterLine, skipLine]
    by_cases hend : c = '\n'
    · rw [if_pos hend, if_pos hend, if_pos hend, sanitize_skip cs]
    · rw [if_neg hend, if_neg hend, if_neg hend, sanitizeComment_skip cs]

end

mutual

lemma skip_not_comment (cs rest : Text) : skipWhitespaceAndComments T cs ≠ '/' :: '/' :: rest := by
  match cs with
  | [] => simp [skipWhitespaceAndComments]
  | c :: cs =>
    rw [skipWhitespaceAndComments]
    split
    · exact skip_not_comment cs rest
    · split
      · exact skipLine_not_comment cs rest
      · rename_i hcomment
        intro h
        injection h with hc hcs
        exact hcomment ⟨hc, by rw [hcs]; rfl⟩

lemma skipLine_not_comment (cs rest : Text) : skipLine T cs ≠ '/' :: '/' :: rest := by
  match cs with
  | [] => simp [skipLine]
  | c :: cs =>
    rw [skipLine]
    split
    · exact skip_not_comment cs rest
    · exact skipLine_not_comment cs rest

end

mutual

lemma length_skip_le (cs : Text) : (skipWhitespaceAndComments T cs).length ≤ cs.length := by
  match cs with
  | [] => simp [skipWhitespaceAndComments]
  | c :: cs =>
    rw [skipWhitespaceAndComments]
    split
    · exact Nat.le_succ_of_le (length_skip_le cs)
    · split
      · exact Nat.le_succ_of_le (length_skipLine_le cs)
      · exact le_rfl

lemma length_skipLine_le (cs : Text) : (skipLine T cs).length ≤ cs.length := by
  match cs with
  | [] => simp [skipLine]
  | c :: cs =>
    rw [skipLine]
    split
    · exact Nat.le_succ_of_le (length_skip_le cs)
    · exact Nat.le_succ_of_le (length_skipLine_le cs)

end

/-! ### Tokens -/

/-- What the lexer has read: the end of the text, a string, or characters that the first pass
copies. -/
inductive ReadsAs (body : Text) : Token → Text → Prop
  | eof {tok : Token} (hkind : tok.kind = .eof) (hbody : body = []) : ReadsAs body tok []
  | string {tok : Token} {quote : Char} {cs value rest : Text} (hkind : tok.kind = .stringLiteral)
      (hquote : quote = '\'' ∨ quote = '"') (hbody : body = quote :: cs)
      (hread : readString quote cs = some (value, rest)) : ReadsAs body tok rest
  | plain {tok : Token} {raw rest : Text} (heof : tok.kind ≠ .eof)
      (hstring : tok.kind ≠ .stringLiteral) (hbody : body = raw ++ rest) (hraw : raw ≠ [])
      (hcopied : sanitize none false body = raw ++ sanitize none false rest) :
      ReadsAs body tok rest

lemma readsAs_of_isPlain {body rest : Text} {tok : Token} (raw : Text) (hbody : body = raw ++ rest)
    (hraw : raw ≠ []) (hplain : ∀ c ∈ raw, IsPlain c)
    (hkind : tok.kind ≠ .eof ∧ tok.kind ≠ .stringLiteral) : ReadsAs body tok rest :=
  .plain hkind.1 hkind.2 hbody hraw (hbody ▸ sanitize_append hplain rest)

lemma wordKind_ne (text : Text) : wordKind T text ≠ .eof ∧ wordKind T text ≠ .stringLiteral := by
  have htable : ∀ e ∈ keywords, e.2 ≠ .eof ∧ e.2 ≠ .stringLiteral := by decide
  rw [wordKind]
  split
  · rename_i e hfind
    exact htable e (mem_of_find?_eq_some hfind)
  · exact ⟨by decide, by decide⟩

lemma singleSymbol_ne (h : singleSymbol c = some kind) :
    (kind ≠ .eof ∧ kind ≠ .stringLiteral) ∧ (IsPlain c ∨ c = '/') := by
  unfold singleSymbol at h
  split at h <;> cases h <;> decide

lemma doubleSymbol_ne {c d : Char} (h : doubleSymbol c d = some kind) :
    (kind ≠ .eof ∧ kind ≠ .stringLiteral) ∧ IsPlain c ∧ IsPlain d := by
  unfold doubleSymbol at h
  split at h <;> cases h <;> decide

lemma shortSymbol_ne (h : shortSymbol c = some kind) :
    (kind ≠ .eof ∧ kind ≠ .stringLiteral) ∧ IsPlain c := by
  unfold shortSymbol at h
  split at h <;> cases h <;> decide

lemma readNumber_spec {cs : Text} (hc : c.isDigit = true) :
    ∃ raw, raw ≠ [] ∧ c :: cs = raw ++ (readNumber (c :: cs)).2.2 ∧ (∀ d ∈ raw, IsPlain d) ∧
      (readNumber (c :: cs)).1 ≠ .eof ∧ (readNumber (c :: cs)).1 ≠ .stringLiteral := by
  have hdigits : ∀ cs : Text, ∀ d ∈ cs.takeWhile Char.isDigit, IsPlain d :=
    fun cs d hd => isPlain_of_isDigit (mem_takeWhile_imp hd)
  have hne : (c :: cs).takeWhile Char.isDigit ≠ [] := by simp [hc]
  have hsplit : (c :: cs).takeWhile Char.isDigit ++ (c :: cs).dropWhile Char.isDigit = c :: cs :=
    takeWhile_append_dropWhile
  rw [readNumber]
  split
  · rename_i d rest hdrop
    rw [hdrop] at hsplit
    split
    · refine ⟨(c :: cs).takeWhile Char.isDigit ++ '.' :: (d :: rest).takeWhile Char.isDigit,
        by simp, ?_, ?_, by simp, by simp⟩
      · rw [append_assoc, cons_append, takeWhile_append_dropWhile, hsplit]
      · intro e he
        obtain he | he := mem_append.mp he
        · exact hdigits _ e he
        · obtain rfl | he := mem_cons.mp he
          · decide
          · exact hdigits _ e he
    · exact ⟨_, hne, hsplit.symm, hdigits _, by simp, by simp⟩
  · exact ⟨_, hne, hsplit.symm, hdigits _, by simp, by simp⟩

/-- **Every token is the end, a string, or copied by the first pass.** -/
lemma readsAs_nextToken {total : ℕ} {cs rest : Text} {tok : Token}
    (h : nextToken T total cs = .ok (tok, rest)) :
    ReadsAs (skipWhitespaceAndComments T cs) tok rest := by
  have hcomment := skip_not_comment T cs
  rw [nextToken] at h
  generalize hbody : skipWhitespaceAndComments T cs = body at h hcomment ⊢
  cases body with
  | nil =>
    cases h
    exact .eof rfl rfl
  | cons c cs =>
    dsimp only at h
    split at h
    · -- a symbol of one character
      rename_i kind hkind
      obtain ⟨rfl, rfl⟩ := Prod.mk.inj (Except.ok.inj h)
      obtain ⟨hne, hplain | rfl⟩ := singleSymbol_ne hkind
      · exact readsAs_of_isPlain [c] rfl (by simp) (by simpa using hplain) hne
      · have hnext : ¬ cs.head? = some '/' := by
          intro hhead
          obtain ⟨cs', rfl⟩ := List.head?_eq_some_iff.mp hhead
          exact hcomment cs' rfl
        have hcopied : sanitize none false ('/' :: cs) = ['/'] ++ sanitize none false cs := by
          simp [sanitize, hnext]
        exact .plain hne.1 hne.2 rfl (by simp) hcopied
    · -- a symbol of two characters
      rename_i kind _ hkind
      cases h
      obtain ⟨d, hd, hdouble⟩ := bind_eq_some_iff.mp hkind
      obtain ⟨cs', rfl⟩ := List.head?_eq_some_iff.mp hd
      obtain ⟨hkind, hc, hd⟩ := doubleSymbol_ne hdouble
      exact readsAs_of_isPlain [c, d] rfl (by simp) (by simpa using ⟨hc, hd⟩) hkind
    · rename_i kind _ _ hkind
      cases h
      obtain ⟨hkind, hplain⟩ := shortSymbol_ne hkind
      exact readsAs_of_isPlain [c] rfl (by simp) (by simpa using hplain) hkind
    · split at h
      · simp at h
      split at h
      · rename_i hquote
        split at h
        · rename_i value rest' hread
          cases h
          exact .string rfl hquote rfl hread
        · simp at h
      split at h
      · -- a parameter
        rename_i hdollar
        split at h
        · simp at h
        · cases h
          refine readsAs_of_isPlain (c :: cs.takeWhile (isWordChar T)) ?_ (by simp) ?_ (by simp)
          · rw [cons_append, takeWhile_append_dropWhile]
          · intro d hd
            obtain rfl | hd := mem_cons.mp hd
            · rw [hdollar]
              decide
            · exact isPlain_of_isWordChar T (mem_takeWhile_imp hd)
      split at h
      · rename_i hdigit
        cases h
        obtain ⟨raw, hne, hsplit, hplain, hkind⟩ := readNumber_spec hdigit
        exact readsAs_of_isPlain raw hsplit hne hplain hkind
      split at h
      · -- a word
        rename_i hword
        cases h
        have hfirst : isWordChar T c = true := isWordChar_of_isAlpha T hword
        refine readsAs_of_isPlain ((c :: cs).takeWhile (isWordChar T))
          takeWhile_append_dropWhile.symm (by simp [hfirst]) ?_ (wordKind_ne T _)
        exact fun d hd => isPlain_of_isWordChar T (mem_takeWhile_imp hd)
      · simp at h

lemma length_readString {quote : Char} {cs value rest : Text}
    (h : readString quote cs = some (value, rest)) : rest.length < cs.length := by
  fun_induction readString quote cs generalizing value with
  | case1 => simp at h
  | case2 cs =>
    cases h
    exact Nat.lt_succ_self _
  | case3 => simp at h
  | case4 hne e cs ih =>
    obtain ⟨⟨value', rest'⟩, hread, heq⟩ := map_eq_some_iff.mp h
    cases heq
    exact (ih hread).trans ((Nat.lt_succ_self _).trans (Nat.lt_succ_self _))
  | case5 c cs hne hback ih =>
    obtain ⟨⟨value', rest'⟩, hread, heq⟩ := map_eq_some_iff.mp h
    cases heq
    exact (ih hread).trans (Nat.lt_succ_self _)

/-- **The first pass leaves what the lexer reads outside of strings and comments.** -/
lemma sanitize_eq_visibleFrom {total n : ℕ} {cs : Text} (h : tokenizeFrom T total n cs = .ok tokens)
    (hn : cs.length < n) : sanitize none false cs = visibleFrom T total n cs := by
  induction n generalizing cs tokens with
  | zero => omega
  | succ n ih =>
    rw [tokenizeFrom] at h
    cases hnext : nextToken T total cs with
    | error e => simp [hnext, bind, Except.bind] at h
    | ok r =>
      obtain ⟨tok, rest⟩ := r
      have hrest : tok.kind ≠ .eof → ∃ tokens, tokenizeFrom T total n rest = .ok tokens := by
        intro heof
        cases htail : tokenizeFrom T total n rest with
        | ok tokens => exact ⟨tokens, rfl⟩
        | error e => simp [hnext, bind, Except.bind, heof, htail] at h
      have hle := length_skip_le T cs
      rw [visibleFrom, hnext, sanitize_skip T cs]
      refine congrArg (blanks T cs ++ ·) ?_
      dsimp only
      cases readsAs_nextToken T hnext with
      | eof hkind hbody => rw [if_pos hkind, hbody, sanitize]
      | @string quote body value _ hkind hquote hbody hread =>
        have heof : tok.kind ≠ .eof := by simp [hkind]
        obtain ⟨tokens, htail⟩ := hrest heof
        have hlt := length_readString hread
        rw [hbody, length_cons] at hle
        have hskip : sanitize none false (quote :: body) = sanitize (some quote) false body := by
          simp [sanitize, hquote]
        have hback : quote ≠ '\\' := by
          obtain rfl | rfl := hquote <;> decide
        rw [if_neg heof, if_pos hkind, hbody, hskip, sanitize_readString hback hread,
          nil_append, ih htail (by omega)]
      | @plain raw _ heof hstring hbody hraw hcopied =>
        obtain ⟨tokens, htail⟩ := hrest heof
        have htake : rawText T cs rest = raw := by
          rw [rawText, hbody, length_append, Nat.add_sub_cancel, take_left']
          rfl
        have hpos := length_pos_iff.mpr hraw
        rw [hbody, length_append] at hle
        rw [if_neg heof, if_neg hstring, hcopied, htake, ih htail (by omega)]

lemma sanitize_eq_visibleText {input : Text} (h : tokenize T input = .ok tokens) :
    sanitize none false input = visibleText T input :=
  sanitize_eq_visibleFrom T h (Nat.lt_succ_self _)

/-! ### Words of a text -/

/-- `word` stands in the text between `pre` and `post`, as long as it can be. -/
structure IsWordAt (text pre word post : Text) : Prop where
  eq : text = pre ++ (word ++ post)
  ne_nil : word ≠ []
  word : ∀ c ∈ word, isWordChar T c = true
  pre : ∀ c ∈ pre.getLast?, isWordChar T c = false
  post : ∀ c ∈ post.head?, isWordChar T c = false

/-- The last character that is neither blank nor part of a word. -/
def lastSymbol (text : Text) : Option Char :=
  (text.filter fun c => !isWordChar T c && !T.isWhitespace c).getLast?

/-- A mutating keyword is a word of the text, and the last symbol before it, `last` where the text
has none, is neither a colon nor a dot. -/
def HasMutatingWord (last : Option Char) (text : Text) : Prop :=
  ∃ pre word post, IsWordAt T text pre word post ∧
    (lastSymbol T pre).or last ≠ some ':' ∧ (lastSymbol T pre).or last ≠ some '.' ∧
    ∃ keyword ∈ mutatingKeywords, Parser.eqIgnoreAsciiCase keyword.toList word = true

lemma isSome_mutatingWord {last : Option Char} {word : Text} :
    (mutatingWord last word).isSome = true ↔ word ≠ [] ∧ last ≠ some ':' ∧ last ≠ some '.' ∧
      ∃ keyword ∈ mutatingKeywords, Parser.eqIgnoreAsciiCase keyword.toList word = true := by
  rw [mutatingWord]
  split
  · rename_i h
    simp only [isSome_none, Bool.false_eq_true, false_iff]
    tauto
  · rename_i h
    rw [List.find?_isSome]
    tauto

variable {T} {current cs : Text} {c : Char} {last : Option Char}

variable (hcurrent : ∀ d ∈ current, isWordChar T d = true)

include hcurrent

lemma lastSymbol_append (hc : isWordChar T c = false) (pre : Text) :
    (lastSymbol T (current ++ c :: pre)).or last =
      (lastSymbol T pre).or (if T.isWhitespace c then last else some c) := by
  have hnil : current.filter (fun d => !isWordChar T d && !T.isWhitespace d) = [] := by
    rw [filter_eq_nil_iff]
    intro d hd
    simp [hcurrent d hd]
  rw [lastSymbol, filter_append, hnil, nil_append, filter_cons, hc]
  cases hblank : T.isWhitespace c with
  | true => simp [lastSymbol]
  | false =>
    simp only [Bool.not_false, Bool.and_self, if_true, List.getLast?_cons, lastSymbol]
    cases (pre.filter fun d => !isWordChar T d && !T.isWhitespace d).getLast? <;> rfl

/-- The words of a text that begins with the word `current`: that one, and those after it. -/
lemma isWordAt_append (hc : isWordChar T c = false) :
    IsWordAt T (current ++ c :: cs) pre word post ↔
      (current ≠ [] ∧ pre = [] ∧ word = current ∧ post = c :: cs) ∨
      ∃ pre', pre = current ++ c :: pre' ∧ IsWordAt T cs pre' word post := by
  have hclash : ∀ {d : Char}, isWordChar T d = false → d ∉ current :=
    fun hd hmem => absurd ((hcurrent _ hmem).symm.trans hd) (by decide)
  constructor
  · intro h
    obtain ⟨rest, hpre, hrest⟩ | ⟨rest, hcur, hrest⟩ := append_eq_append_iff.mp h.eq
    · -- the word stands after `current`, and `c` is not in it
      right
      cases rest with
      | nil =>
        obtain ⟨d, word, rfl⟩ := exists_cons_of_ne_nil h.ne_nil
        injection hrest with hd
        exact absurd ((h.word d mem_cons_self).symm.trans (hd ▸ hc)) (by decide)
      | cons d pre' =>
        injection hrest with hd hcs
        subst hd hpre
        refine ⟨pre', rfl, hcs, h.ne_nil, h.word, fun d hd => h.pre d ?_, h.post⟩
        rw [List.getLast?_append, List.getLast?_cons, mem_def.mp hd]
        rfl
    · -- the word begins in `current`, so that it is all of it
      left
      obtain rfl : pre = [] := by
        by_contra hne
        refine hclash (h.pre _ (List.getLast?_eq_some_getLast hne)) ?_
        rw [hcur]
        exact mem_append_left _ (getLast_mem hne)
      obtain rfl : current = rest := hcur
      obtain ⟨rest, hword, hpost⟩ | ⟨rest, hcur, hpost⟩ := append_eq_append_iff.mp hrest
      · cases rest with
        | nil =>
          obtain rfl : word = current := by simpa using hword.symm
          exact ⟨h.ne_nil, rfl, rfl, hpost⟩
        | cons d rest =>
          have hd : d ∈ current := by simp [hword]
          exact absurd hd (hclash (h.post d (by simp [hpost])))
      · cases rest with
        | nil =>
          obtain rfl : word = current := by simpa using hcur
          exact ⟨h.ne_nil, rfl, rfl, hpost.symm⟩
        | cons d rest =>
          injection hpost with hd
          have hmem : d ∈ word := by simp [hcur]
          exact absurd ((h.word d hmem).symm.trans (hd ▸ hc)) (by decide)
  · rintro (⟨hne, rfl, rfl, rfl⟩ | ⟨pre', rfl, h⟩)
    · exact ⟨rfl, hne, hcurrent, by simp, by simpa using hc⟩
    · refine ⟨by rw [h.eq, append_assoc, cons_append], h.ne_nil, h.word, ?_, h.post⟩
      intro d hd
      rw [List.getLast?_append, List.getLast?_cons] at hd
      cases hlast : pre'.getLast? with
      | none => simpa [hlast, ← show c = d by simpa [hlast] using hd] using hc
      | some e =>
        have : e = d := by simpa [hlast] using hd
        exact this ▸ h.pre e hlast

lemma isWordAt_word :
    IsWordAt T current pre word post ↔ current ≠ [] ∧ pre = [] ∧ word = current ∧ post = [] := by
  constructor
  · intro h
    obtain rfl : pre = [] := by
      by_contra hne
      have hlast := h.pre _ (List.getLast?_eq_some_getLast hne)
      have hmem : pre.getLast hne ∈ current := by simp [h.eq]
      exact absurd ((hcurrent _ hmem).symm.trans hlast) (by decide)
    obtain rfl : post = [] := by
      cases post with
      | nil => rfl
      | cons d post =>
        have hmem : d ∈ current := by simp [h.eq]
        exact absurd ((hcurrent _ hmem).symm.trans (h.post d rfl)) (by decide)
    obtain rfl : current = word := by simpa using h.eq
    exact ⟨h.ne_nil, rfl, rfl, rfl⟩
  · rintro ⟨hne, rfl, rfl, rfl⟩
    exact ⟨by simp, hne, hcurrent, by simp, by simp⟩

lemma hasMutatingWord_word :
    HasMutatingWord T last current ↔ (mutatingWord last current).isSome = true := by
  rw [isSome_mutatingWord]
  constructor
  · rintro ⟨pre, word, post, hat, hcolon, hdot, hkeyword⟩
    obtain ⟨hne, rfl, rfl, rfl⟩ := (isWordAt_word hcurrent).mp hat
    exact ⟨hne, hcolon, hdot, hkeyword⟩
  · rintro ⟨hne, hcolon, hdot, hkeyword⟩
    exact ⟨[], current, [], (isWordAt_word hcurrent).mpr ⟨hne, rfl, rfl, rfl⟩, hcolon, hdot, hkeyword⟩

lemma hasMutatingWord_append (hc : isWordChar T c = false) :
    HasMutatingWord T last (current ++ c :: cs) ↔ (mutatingWord last current).isSome = true ∨
      HasMutatingWord T (if T.isWhitespace c then last else some c) cs := by
  rw [isSome_mutatingWord]
  constructor
  · rintro ⟨pre, word, post, hat, hcolon, hdot, hkeyword⟩
    obtain ⟨hne, rfl, rfl, rfl⟩ | ⟨pre', rfl, hat'⟩ := (isWordAt_append hcurrent hc).mp hat
    · exact .inl ⟨hne, hcolon, hdot, hkeyword⟩
    · rw [lastSymbol_append hcurrent hc] at hcolon hdot
      exact .inr ⟨pre', word, post, hat', hcolon, hdot, hkeyword⟩
  · rintro (⟨hne, hcolon, hdot, hkeyword⟩ | ⟨pre', word, post, hat, hcolon, hdot, hkeyword⟩)
    · exact ⟨[], current, c :: cs, (isWordAt_append hcurrent hc).mpr (.inl ⟨hne, rfl, rfl, rfl⟩),
        hcolon, hdot, hkeyword⟩
    · rw [← lastSymbol_append hcurrent hc] at hcolon hdot
      exact ⟨current ++ c :: pre', word, post,
        (isWordAt_append hcurrent hc).mpr (.inr ⟨pre', rfl, hat⟩), hcolon, hdot, hkeyword⟩

omit hcurrent

lemma isWordChar_space : isWordChar T ' ' = false := by
  rw [isWordChar, T.isAlphanumeric_ascii ' ' (by decide)]
  decide

/-- **The second pass finds a mutating word where there is one.** -/
lemma isSome_scanWords (hcurrent : ∀ d ∈ current, isWordChar T d = true) :
    (scanWords T last current (cs ++ [' '])).isSome = true ↔
      HasMutatingWord T last (current ++ cs) := by
  induction cs generalizing last current with
  | nil =>
    rw [append_nil, hasMutatingWord_word hcurrent, nil_append, scanWords,
      if_neg (by simp [isWordChar_space])]
    cases mutatingWord last current <;> simp [scanWords]
  | cons c cs ih =>
    rw [cons_append, scanWords]
    cases hc : isWordChar T c with
    | true =>
      have hcurrent' : ∀ d ∈ current ++ [c], isWordChar T d = true := by
        intro d hd
        obtain hd | hd := mem_append.mp hd
        · exact hcurrent d hd
        · rw [mem_singleton.mp hd, hc]
      rw [if_pos rfl, ih hcurrent', append_assoc, singleton_append]
    | false =>
      rw [if_neg (by decide), hasMutatingWord_append hcurrent hc]
      cases hword : mutatingWord last current with
      | some keyword => simp
      | none =>
        have htail : (scanWords T (if T.isWhitespace c then last else some c) [] (cs ++ [' '])).isSome
            = true ↔ HasMutatingWord T (if T.isWhitespace c then last else some c) cs :=
          ih (by simp)
        simpa using htail

end Guard

/-- A mutating keyword stands free: it is a word of the text without its string literals and
comments, and the last symbol before it is neither a colon nor a dot. -/
def Exposed (T : CharTables) (query : Text) : Prop := HasMutatingWord T none (visibleText T query)

/-- **What the guard catches.** Of the statements with a write clause that the lexer and the parser
accept, the guard rejects exactly those in which a mutating keyword stands free. -/
theorem detectMutatingClause_isSome_iff (T : CharTables) (query : Text)
    (h : parsesToWrite T query = true) :
    (detectMutatingClause T query).isSome = true ↔ Exposed T query := by
  cases htokens : tokenize T query with
  | error e => simp [parsesToWrite, parse, htokens, bind, Except.bind] at h
  | ok tokens =>
    rw [detectMutatingClause, sanitize_eq_visibleText T htokens, isSome_scanWords (by simp), Exposed,
      nil_append]

theorem detectMutatingClause_isSome_create :
    parsesToWrite .ascii "USE ALL NAMESPACES CREATE (n:Person)".toList = true ∧
      Exposed .ascii "USE ALL NAMESPACES CREATE (n:Person)".toList :=
  ⟨by decide +kernel,
    (detectMutatingClause_isSome_iff .ascii _ (by decide +kernel)).mp (by decide +kernel)⟩

/-- Writes that pass the guard: a property access, a decimal number or a comment stands before the
keyword, or a comment after it. -/
theorem detectMutatingClause_misses :
    (parsesToWrite .ascii "MATCH (n) WHERE n.active SET n.x = 1".toList = true ∧
      detectMutatingClause .ascii "MATCH (n) WHERE n.active SET n.x = 1".toList = none) ∧
    (parsesToWrite .ascii "MATCH (n) WHERE n.score > 1.5 DETACH DELETE n".toList = true ∧
      detectMutatingClause .ascii "MATCH (n) WHERE n.score > 1.5 DETACH DELETE n".toList = none) ∧
    (parsesToWrite .ascii "MATCH (n) WHERE n.a = 1// one\nSET n.b = 2".toList = true ∧
      detectMutatingClause .ascii "MATCH (n) WHERE n.a = 1// one\nSET n.b = 2".toList = none) ∧
    (parsesToWrite .ascii "MATCH (n) DELETE// it\nn".toList = true ∧
      detectMutatingClause .ascii "MATCH (n) DELETE// it\nn".toList = none) := by
  decide +kernel

end Aletheia.Cypher

import Nodus.AssocList
import Nodus.StringEscapes

/-! String literals as the formatter writes them, and the lexer on a whole literal, with its interpolations. -/

namespace Nodus.Frontend.StringLiterals

inductive Tok where
  | str (val : Points)
  | stringStart
  | stringLiteral (val : Points)
  | interpStart
  | interpEnd
  | stringEnd
  | lparen
  | rparen
  | sep
  | eof
  /-- A token that `TOKEN_RE` finds. -/
  | found (kind : String) (val : Points)
  deriving DecidableEq, Repr

/-- What is done with the matches of `TOKEN_RE`: outside literals, where the number of open parentheses and brackets is kept, and in an
interpolation. -/
structure Scanner where
  outside : Nat → Points → Option (List Tok × Nat × Points)
  inside : Points → Option (List Tok × Points)

inductive LexError where
  | escape (e : EscapeError)
  | unterminatedLiteral
  | nestingDepth
  | formatSpecifier
  | unexpectedCharacter
  | unclosedInterpolation
  | outOfFuel
  deriving DecidableEq, Repr

/-- What a backslash starts, for the lexer. -/
def readEscape (u : UnicodeTables) : Points → Except EscapeError (Nat × Points)
  | [] => .error .unterminatedLiteral
  | next :: rest =>
      match escapeOf next with
      | some c => .ok (c, rest)
      | none =>
          if next = 'x'.toNat then
            match rest with
            | a :: b :: rest =>
                match readHex u [a, b] with
                | some c => .ok (c, rest)
                | none => .error (.invalid [a, b])
            | _ => .error (.incomplete 2)
          else if next = 'u'.toNat then
            match rest with
            | a :: b :: c :: d :: rest =>
                match readHex u [a, b, c, d] with
                | some c => .ok (c, rest)
                | none => .error (.invalid [a, b, c, d])
            | _ => .error (.incomplete 4)
          else .error (.unsupported next)

/-- `_flush_literal`. -/
def flushed (literalBuf : Points) : List Tok := if literalBuf = [] then [] else [.stringLiteral literalBuf]

section Lexing

variable (u : UnicodeTables) (scanner : Scanner)

def closeParen : Nat := ')'.toNat

mutual

/-- The loop of `_lex_string`. -/
def lexString : Nat → Nat → Points → Points → List Tok → Bool → Except LexError (List Tok × Points)
  | 0, _, _, _, _, _ => .error .outOfFuel
  | _ + 1, _, [], _, _, _ => .error .unterminatedLiteral
  | fuel + 1, depth, ch :: rest, literalBuf, localTokens, hasInterpolation =>
      if ch = quote then
        .ok (if hasInterpolation then [.stringStart] ++ localTokens ++ flushed literalBuf ++ [.stringEnd] else [.str literalBuf], rest)
      else if ch = backslash ∧ rest ≠ [] then
        if rest.head? = some openParen then
          (lexInterp fuel depth 0 rest.tail).bind fun p =>
            lexString fuel depth p.2 [] (localTokens ++ flushed literalBuf ++ [.interpStart] ++ p.1) true
        else match readEscape u rest with
          | .ok p => lexString fuel depth p.2 (literalBuf ++ [p.1]) localTokens hasInterpolation
          | .error e => .error (.escape e)
      else if ch = newline then .error .unterminatedLiteral
      else lexString fuel depth rest (literalBuf ++ [ch]) localTokens hasInterpolation

/-- The loop of `_lex_interp`. -/
def lexInterp : Nat → Nat → Nat → Points → Except LexError (List Tok × Points)
  | 0, _, _, _ => .error .outOfFuel
  | _ + 1, _, _, [] => .error .unclosedInterpolation
  | fuel + 1, depth, parenDepth, ch :: rest =>
      if ch = quote then
        if depth + 1 > maxInterpDepth then .error .nestingDepth
        else (lexString fuel (depth + 1) rest [] [] false).bind fun p =>
          (lexInterp fuel depth parenDepth p.2).map fun q => (p.1 ++ q.1, q.2)
      else if ch = closeParen then
        if parenDepth = 0 then .ok ([.interpEnd], rest)
        else (lexInterp fuel depth (parenDepth - 1) rest).map fun q => (.rparen :: q.1, q.2)
      else if ch = openParen then (lexInterp fuel depth (parenDepth + 1) rest).map fun q => (.lparen :: q.1, q.2)
      else if ch = ':'.toNat ∧ parenDepth = 0 then .error .formatSpecifier
      else if ch = ' '.toNat ∨ ch = '\t'.toNat then lexInterp fuel depth parenDepth rest
      else if ch = newline then (lexInterp fuel depth parenDepth rest).map fun q => (.sep :: q.1, q.2)
      else match scanner.inside (ch :: rest) with
        | some p => (lexInterp fuel depth parenDepth p.2).map fun q => (p.1 ++ q.1, q.2)
        | none => .error .unexpectedCharacter

end

/-- The loop of `tokenize`. -/
def tokensFrom : Nat → Nat → Points → Except LexError (List Tok)
  | 0, _, _ => .error .outOfFuel
  | _ + 1, _, [] => .ok [.eof]
  | fuel + 1, openDepth, ch :: rest =>
      if ch = quote then (lexString u scanner fuel 0 rest [] [] false).bind fun p => (tokensFrom fuel openDepth p.2).map (p.1 ++ ·)
      else match scanner.outside openDepth (ch :: rest) with
        | some p => (tokensFrom fuel p.2.1 p.2.2).map (p.1 ++ ·)
        | none => .error .unexpectedCharacter

def carriageReturn : Nat := '\r'.toNat

/-- Every line break is a line feed. -/
def unixBreaks : Points → Points
  | [] => []
  | [c] => [if c = carriageReturn then newline else c]
  | c :: d :: rest =>
      if c = carriageReturn then if d = newline then newline :: unixBreaks rest else newline :: unixBreaks (d :: rest)
      else c :: unixBreaks (d :: rest)

/-- Without the byte order mark. -/
def withoutMark : Points → Points
  | [] => []
  | c :: cs => if c = 0xfeff then cs else c :: cs

/-- `tokenize`. -/
def tokenize (src : Points) : Except LexError (List Tok) :=
  let src := unixBreaks (withoutMark src)
  tokensFrom u scanner (src.length + 1) 0 src

end Lexing

/-! ### The formatter -/

/-- `_STRING_ESCAPES`, by the character after the backslash. -/
def stringEscapes : List (Nat × Nat) :=
  [(backslash, backslash), (quote, quote), (newline, 'n'.toNat), ('\t'.toNat, 't'.toNat), (carriageReturn, 'r'.toNat), (0, '0'.toNat)]

/-- An upper-case hexadecimal digit. -/
def hexDigit (d : Nat) : Nat := if d < 10 then 48 + d else 55 + d

section Formatting

variable (isPrintable : Nat → Bool)

/-- A character as `escape_string_body` writes it. -/
def escapeChar (ch : Nat) : Points :=
  match stringEscapes.lookup ch with
  | some named => [backslash, named]
  | none =>
      if isPrintable ch then [ch]
      else if ch ≤ 0xFF then [backslash, 'x'.toNat, hexDigit (ch / 16), hexDigit (ch % 16)]
      else if ch ≤ 0xFFFF then
        [backslash, 'u'.toNat, hexDigit (ch / 4096), hexDigit (ch / 256 % 16), hexDigit (ch / 16 % 16), hexDigit (ch % 16)]
      else [ch]

/-- `escape_string_body`. -/
def escapeStringBody (value : Points) : Points := value.flatMap (escapeChar isPrintable)

/-- `format_string`. -/
def formatString (value : Points) : Points := quote :: escapeStringBody isPrintable value ++ [quote]

/-- A part of an interpolated string: the text before an interpolation, the text of the expression and its tokens. -/
structure Part where
  text : Points
  expr : Points
  tokens : List Tok

def formatPart (p : Part) : Points := escapeStringBody isPrintable p.text ++ backslash :: openParen :: p.expr ++ [closeParen]

/-- An interpolated string as `format_expr` writes it. -/
def formatInterpolated (parts : List Part) (last : Points) : Points :=
  quote :: parts.flatMap (formatPart isPrintable) ++ escapeStringBody isPrintable last ++ [quote]

end Formatting

/-! ### What is written is read -/

section RoundTrip

variable {u : UnicodeTables} {scanner : Scanner} {isPrintable : Nat → Bool}

theorem readEscape_text {text rest : Points} {c : Nat} (h : EscapeText u text c) : readEscape u (text ++ rest) = .ok (c, rest) := by
  have hne : 'u'.toNat ≠ 'x'.toNat := by decide
  cases h with
  | @plain e c he =>
      rw [List.singleton_append, readEscape.eq_def]
      simp only [he]
  | byte h =>
      simp only [List.cons_append, List.nil_append]
      rw [readEscape.eq_def]
      simp only [escapeOf_x, if_true, h]
  | point h =>
      simp only [List.cons_append, List.nil_append]
      rw [readEscape.eq_def]
      simp only [escapeOf_u, if_neg hne, if_true, h]

theorem hexValue_hexDigit {d : Nat} (h : d < 16) : hexValue (hexDigit d) = some d := by
  have hall : ∀ d < 16, hexValue (hexDigit d) = some d := by decide
  exact hall d h

theorem readHex_two {n : Nat} (h : n ≤ 0xFF) : readHex u [hexDigit (n / 16), hexDigit (n % 16)] = some n := by
  refine readHex_of_hexNumber (List.cons_ne_nil _ _) (by simp) ?_
  rw [hexNumber, List.mapM_cons, List.mapM_cons, List.mapM_nil, hexValue_hexDigit (by omega), hexValue_hexDigit (by omega)]
  refine congrArg some ?_
  simp only [List.foldl_cons, List.foldl_nil]
  omega

theorem readHex_four {n : Nat} (h : n ≤ 0xFFFF) :
    readHex u [hexDigit (n / 4096), hexDigit (n / 256 % 16), hexDigit (n / 16 % 16), hexDigit (n % 16)] = some n := by
  refine readHex_of_hexNumber (List.cons_ne_nil _ _) (by simp) ?_
  rw [hexNumber, List.mapM_cons, List.mapM_cons, List.mapM_cons, List.mapM_cons, List.mapM_nil, hexValue_hexDigit (by omega),
    hexValue_hexDigit (by omega), hexValue_hexDigit (by omega), hexValue_hexDigit (by omega)]
  refine congrArg some ?_
  simp only [List.foldl_cons, List.foldl_nil]
  omega

theorem stringEscapes_escapeOf : ∀ p ∈ stringEscapes, escapeOf p.2 = some p.1 := by decide

theorem hexDigit_ne {d : Nat} (h : d < 16) : hexDigit d ≠ carriageReturn := by
  have hall : ∀ d < 16, hexDigit d ≠ carriageReturn := by decide
  exact hall d h

theorem escapeChar_cases (u : UnicodeTables) (isPrintable : Nat → Bool) (c : Nat) :
    (escapeChar isPrintable c = [c] ∧ c ≠ quote ∧ c ≠ backslash ∧ c ≠ newline ∧ c ≠ carriageReturn) ∨
      ∃ text, escapeChar isPrintable c = backslash :: text ∧ EscapeText u text c ∧ ∀ d ∈ text, d ≠ carriageReturn := by
  rw [escapeChar]
  cases hnamed : stringEscapes.lookup c with
  | some named =>
      have hmem := AssocList.mem_of_lookup hnamed
      have hall : ∀ p ∈ stringEscapes, p.2 ≠ carriageReturn := by decide
      refine .inr ⟨[named], rfl, .plain (stringEscapes_escapeOf _ hmem), fun d hd => ?_⟩
      rw [List.mem_singleton.mp hd]
      exact hall _ hmem
  | none =>
      have hraw : c ≠ quote ∧ c ≠ backslash ∧ c ≠ newline ∧ c ≠ carriageReturn := by
        have hne : ∀ p ∈ stringEscapes, c ≠ p.1 := fun p hp => bne_iff_ne.mp (List.lookup_eq_none_iff.mp hnamed p hp)
        exact ⟨hne _ (by decide : (quote, quote) ∈ stringEscapes), hne _ (by decide : (backslash, backslash) ∈ stringEscapes),
          hne _ (by decide : (newline, 'n'.toNat) ∈ stringEscapes), hne _ (by decide : (carriageReturn, 'r'.toNat) ∈ stringEscapes)⟩
      dsimp only
      split
      · exact .inl ⟨rfl, hraw⟩
      · split
        · rename_i hbyte
          refine .inr ⟨_, rfl, .byte (readHex_two hbyte), ?_⟩
          simp only [List.forall_mem_cons]
          exact ⟨by decide, hexDigit_ne (by omega), hexDigit_ne (by omega), fun d hd => absurd hd List.not_mem_nil⟩
        · split
          · rename_i hpoint
            refine .inr ⟨_, rfl, .point (readHex_four hpoint), ?_⟩
            simp only [List.forall_mem_cons]
            exact ⟨by decide, hexDigit_ne (by omega), hexDigit_ne (by omega), hexDigit_ne (by omega), hexDigit_ne (by omega),
              fun d hd => absurd hd List.not_mem_nil⟩
          · exact .inl ⟨rfl, hraw⟩

theorem escape_not_paren {text : Points} {c : Nat} (h : EscapeText u text c) (rest : Points) :
    text ++ rest ≠ [] ∧ (text ++ rest).head? ≠ some openParen := by
  cases h with
  | @plain e c he =>
      refine ⟨List.cons_ne_nil _ _, fun h => ?_⟩
      obtain rfl := Option.some.inj h
      exact absurd (he.symm.trans escapeOf_paren) nofun
  | byte _ => exact ⟨List.cons_ne_nil _ _, fun h => absurd (Option.some.inj h) (by decide)⟩
  | point _ => exact ⟨List.cons_ne_nil _ _, fun h => absurd (Option.some.inj h) (by decide)⟩

theorem lexString_char (c fuel depth : Nat) (rest literalBuf : Points) (localTokens : List Tok) (hasInterpolation : Bool) :
    lexString u scanner (fuel + 1) depth (escapeChar isPrintable c ++ rest) literalBuf localTokens hasInterpolation =
      lexString u scanner fuel depth rest (literalBuf ++ [c]) localTokens hasInterpolation := by
  rcases escapeChar_cases u isPrintable c with ⟨hchar, hquote, hback, hline, -⟩ | ⟨text, hchar, htext, -⟩
  · rw [hchar, List.singleton_append, lexString, if_neg hquote, if_neg fun h => hback h.1, if_neg hline]
  · obtain ⟨hne, hparen⟩ := escape_not_paren htext rest
    rw [hchar, List.cons_append, lexString, if_neg backslash_ne_quote, if_pos ⟨rfl, hne⟩, if_neg hparen, readEscape_text htext]

/-- Nothing that the formatter has written ends a literal or opens an interpolation: the lexer goes on after it, with its value. -/
theorem lexString_escaped (value : Points) (fuel depth : Nat) (rest literalBuf : Points) (localTokens : List Tok) (hasInterpolation : Bool) :
    lexString u scanner (value.length + fuel) depth (escapeStringBody isPrintable value ++ rest) literalBuf localTokens hasInterpolation =
      lexString u scanner fuel depth rest (literalBuf ++ value) localTokens hasInterpolation := by
  induction value generalizing literalBuf with
  | nil => rw [List.length_nil, Nat.zero_add, List.append_nil]; rfl
  | cons c value ih =>
      have hfuel : (c :: value).length + fuel = value.length + fuel + 1 := by
        rw [List.length_cons]
        omega
      rw [hfuel, escapeStringBody, List.flatMap_cons, List.append_assoc, lexString_char, ← escapeStringBody, ih, List.append_assoc]
      rfl

theorem length_escapeChar (isPrintable : Nat → Bool) (c : Nat) : 1 ≤ (escapeChar isPrintable c).length := by
  rcases escapeChar_cases asciiOnly isPrintable c with ⟨hchar, -⟩ | ⟨text, hchar, -⟩
  · rw [hchar]
    exact Nat.le_refl 1
  · rw [hchar, List.length_cons]
    omega

theorem length_escaped (isPrintable : Nat → Bool) (value : Points) : value.length ≤ (escapeStringBody isPrintable value).length := by
  induction value with
  | nil => exact Nat.zero_le _
  | cons c value ih =>
      have hchar := length_escapeChar isPrintable c
      rw [escapeStringBody] at ih ⊢
      rw [List.flatMap_cons, List.length_append, List.length_cons]
      omega

theorem escaped_no_return {value : Points} : ∀ d ∈ escapeStringBody isPrintable value, d ≠ carriageReturn := by
  intro d hd
  obtain ⟨c, -, hc⟩ := List.mem_flatMap.mp hd
  rcases escapeChar_cases asciiOnly isPrintable c with ⟨hchar, -, -, -, hreturn⟩ | ⟨text, hchar, -, htext⟩
  · rw [hchar, List.mem_singleton] at hc
    exact hc ▸ hreturn
  · rw [hchar] at hc
    rcases List.mem_cons.mp hc with rfl | hc
    · decide
    · exact htext d hc

theorem unixBreaks_id {src : Points} (h : ∀ d ∈ src, d ≠ carriageReturn) : unixBreaks src = src := by
  induction src with
  | nil => rfl
  | cons c src ih =>
      have hc := h c List.mem_cons_self
      have hrest := ih fun d hd => h d (List.mem_cons_of_mem _ hd)
      cases src with
      | nil => rw [unixBreaks, if_neg hc]
      | cons d src => rw [unixBreaks, if_neg hc, hrest]

/-- A text whose characters are read, as an expression in an interpolation, as these tokens and the end of the interpolation. -/
def ReadsAs (u : UnicodeTables) (scanner : Scanner) (expr : Points) (tokens : List Tok) : Prop :=
  ∀ fuel rest, expr.length < fuel → lexInterp u scanner fuel 0 0 (expr ++ closeParen :: rest) = .ok (tokens, rest)

/-- The tokens of an interpolated string before its last text. -/
def partTokens (parts : List Part) : List Tok := parts.flatMap fun p => flushed p.text ++ [.interpStart] ++ p.tokens

theorem lexString_parts {parts : List Part} (hparts : ∀ p ∈ parts, ReadsAs u scanner p.expr p.tokens) {fuel : Nat} {rest : Points}
    {last : Points} (localTokens : List Tok)
    (hfuel : (parts.flatMap (formatPart isPrintable) ++ escapeStringBody isPrintable last ++ quote :: rest).length < fuel)
    {hasInterpolation : Bool} (hflag : parts = [] → hasInterpolation = true) :
    lexString u scanner fuel 0 (parts.flatMap (formatPart isPrintable) ++ escapeStringBody isPrintable last ++ quote :: rest) [] localTokens
      hasInterpolation = .ok ([.stringStart] ++ (localTokens ++ partTokens parts) ++ flushed last ++ [.stringEnd], rest) := by
  induction parts generalizing fuel localTokens hasInterpolation with
  | nil =>
      have hlength := length_escaped isPrintable last
      obtain ⟨more, rfl⟩ : ∃ more, fuel = last.length + (more + 1) := ⟨fuel - last.length - 1, by
        simp only [List.flatMap_nil, List.nil_append, List.length_append, List.length_cons] at hfuel
        omega⟩
      rw [List.flatMap_nil, List.nil_append, lexString_escaped, lexString, if_pos rfl, hflag rfl, List.nil_append]
      simp only [if_true, partTokens, List.flatMap_nil, List.append_nil]
  | cons p parts ih =>
      have hlength := length_escaped isPrintable p.text
      simp only [List.flatMap_cons, formatPart, List.append_assoc, List.cons_append, List.nil_append, List.length_append,
        List.length_cons] at hfuel ⊢
      obtain ⟨more, rfl⟩ : ∃ more, fuel = p.text.length + (more + 1) := ⟨fuel - p.text.length - 1, by omega⟩
      rw [lexString_escaped, lexString, if_neg backslash_ne_quote, if_pos ⟨rfl, List.cons_ne_nil _ _⟩, List.head?_cons, if_pos rfl, List.tail_cons,
        hparts p List.mem_cons_self more _ (by omega)]
      have hrest : lexString u scanner more 0 (parts.flatMap (formatPart isPrintable) ++ escapeStringBody isPrintable last ++ quote :: rest) []
          (localTokens ++ flushed p.text ++ [.interpStart] ++ p.tokens) true =
          .ok ([.stringStart] ++ (localTokens ++ flushed p.text ++ [.interpStart] ++ p.tokens ++ partTokens parts) ++ flushed last ++
            [.stringEnd], rest) := by
        refine ih (fun q hq => hparts q (List.mem_cons_of_mem _ hq)) _ ?_ fun _ => rfl
        simp only [List.append_assoc, List.length_append, List.length_cons]
        omega
      simp only [List.append_assoc] at hrest
      simp only [Except.bind, List.nil_append, List.append_assoc]
      rw [hrest]
      simp only [partTokens, List.flatMap_cons, List.append_assoc]
      rfl
theorem tokenize_quoted (body : Points) (h : ∀ d ∈ body, d ≠ carriageReturn) (tokens : List Tok)
    (hlex : lexString u scanner (body.length + 2) 0 (body ++ [quote]) [] [] false = .ok (tokens, [])) :
    tokenize u scanner (quote :: body ++ [quote]) = .ok (tokens ++ [.eof]) := by
  have hbreaks : unixBreaks (withoutMark (quote :: body ++ [quote])) = quote :: (body ++ [quote]) := by
    refine unixBreaks_id fun d hd => ?_
    rcases List.mem_cons.mp hd with rfl | hd
    · decide
    · rcases List.mem_append.mp hd with hd | hd
      · exact h d hd
      · rw [List.mem_singleton.mp hd]
        decide
  have hlength : (quote :: (body ++ [quote])).length + 1 = body.length + 2 + 1 := by
    rw [List.length_cons, List.length_append, List.length_singleton]
  rw [tokenize, hbreaks, hlength, tokensFrom, if_pos rfl, hlex]
  rfl

/-- A string that the formatter writes is read as one token with its value, and the texts of an interpolated string as theirs. -/
theorem format_roundTrips (u : UnicodeTables) (scanner : Scanner) (isPrintable : Nat → Bool) :
    (∀ value, tokenize u scanner (formatString isPrintable value) = .ok [.str value, .eof]) ∧
    ∀ (parts : List Part) (last : Points), parts ≠ [] → (∀ p ∈ parts, ReadsAs u scanner p.expr p.tokens ∧ ∀ c ∈ p.expr, c ≠ carriageReturn) →
      tokenize u scanner (formatInterpolated isPrintable parts last) =
        .ok ([.stringStart] ++ (parts.flatMap fun p => flushed p.text ++ [.interpStart] ++ p.tokens) ++ flushed last ++ [.stringEnd, .eof]) := by
  constructor
  · intro value
    refine tokenize_quoted (escapeStringBody isPrintable value) escaped_no_return [.str value] ?_
    have hlength := length_escaped isPrintable value
    obtain ⟨more, hmore⟩ : ∃ more, (escapeStringBody isPrintable value).length + 2 = value.length + (more + 1) :=
      ⟨(escapeStringBody isPrintable value).length + 1 - value.length, by omega⟩
    rw [hmore, lexString_escaped, lexString, if_pos rfl]
    rfl
  · intro parts last hne hparts
    have hreturn : ∀ d ∈ parts.flatMap (formatPart isPrintable) ++ escapeStringBody isPrintable last, d ≠ carriageReturn := by
      intro d hd
      rcases List.mem_append.mp hd with hd | hd
      · obtain ⟨p, hp, hd⟩ := List.mem_flatMap.mp hd
        simp only [formatPart, List.mem_append, List.mem_cons, List.not_mem_nil, or_false] at hd
        rcases hd with (hd | rfl | rfl | hd) | rfl
        · exact escaped_no_return d hd
        · decide
        · decide
        · exact (hparts p hp).2 d hd
        · decide
      · exact escaped_no_return d hd
    have htokens := tokenize_quoted _ hreturn _ (lexString_parts (fun p hp => (hparts p hp).1) [] (by
      rw [List.length_append, List.length_singleton]
      omega) fun h => absurd h hne)
    rw [formatInterpolated, List.cons_append, htokens]
    simp only [partTokens, List.nil_append, List.append_assoc, List.cons_append]

end RoundTrip

/-- A scanner of names of one letter. -/
def letterScanner : Scanner where
  outside _ _ := none
  inside
    | c :: rest => if 97 ≤ c ∧ c ≤ 122 then some ([.found "ID" [c]], rest) else none
    | [] => none

/-- A string with a quote and a line break before the interpolation of a name, and a backslash and a parenthesis after it. -/
theorem quoted_interpolation : tokenize asciiOnly letterScanner
    (formatInterpolated (fun c => 32 ≤ c && c ≤ 126) [⟨[quote, newline], ['x'.toNat], [.found "ID" ['x'.toNat], .interpEnd]⟩] [backslash, openParen]) =
      .ok [.stringStart, .stringLiteral [quote, newline], .interpStart, .found "ID" ['x'.toNat], .interpEnd, .stringLiteral [backslash, openParen],
        .stringEnd, .eof] := by
  refine (format_roundTrips asciiOnly letterScanner _).2 _ _ (List.cons_ne_nil _ _) fun p hp => ?_
  rw [List.mem_singleton.mp hp]
  refine ⟨fun fuel rest hfuel => ?_, by decide⟩
  obtain ⟨more, rfl⟩ : ∃ more, fuel = more + 2 := ⟨fuel - 2, by
    have : 1 < fuel := hfuel
    omega⟩
  rfl

end Nodus.Frontend.StringLiterals

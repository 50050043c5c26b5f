import Nodus.Syntax

/-! The lexer: a source text becomes lexemes, and these become the tokens that the parser reads. Lines and columns of tokens and
the texts of errors are left out. -/

namespace Nodus.Frontend

/-- The kinds of tokens, but for separators and comments. -/
inductive Kind where
  | eof | id | str | num | numInt
  | stringStart | stringLiteral | stringEnd | interpStart | interpEnd
  | kwLet | kwPrint | kwIf | kwElse | kwWhile | kwFor | kwTrue | kwFalse | kwFn | kwReturn | kwNil | kwImport | kwAs | kwExport
  | kwFrom | kwTry | kwCatch | kwFinally | kwThrow | kwRecord | kwIn | kwYield | kwWorkflow | kwGoal | kwStep | kwAfter | kwWith
  | kwAction
  | andAnd | orOr | eqEq | notEq | lessEq | greaterEq | arrow | fatArrow | plusEq | minusEq | timesEq | divEq
  | plus | minus | times | div | assign | percent | lparen | rparen | lbrace | rbrace | lbracket | rbracket
  | comma | colon | dot | less | greater | bang | ats
  deriving DecidableEq, Repr

/-- A token. A separator is a line break or a semicolon. -/
inductive Item where
  | sep
  | comment (val : String)
  | tok (kind : Kind) (val : String)
  deriving DecidableEq, Repr

def keywords : List (String × Kind) :=
  [("let", .kwLet), ("print", .kwPrint), ("if", .kwIf), ("else", .kwElse), ("while", .kwWhile), ("for", .kwFor),
    ("true", .kwTrue), ("false", .kwFalse), ("fn", .kwFn), ("return", .kwReturn), ("nil", .kwNil), ("import", .kwImport),
    ("as", .kwAs), ("export", .kwExport), ("from", .kwFrom), ("try", .kwTry), ("catch", .kwCatch), ("finally", .kwFinally),
    ("throw", .kwThrow), ("record", .kwRecord), ("in", .kwIn), ("yield", .kwYield), ("workflow", .kwWorkflow),
    ("goal", .kwGoal), ("step", .kwStep), ("after", .kwAfter), ("with", .kwWith), ("action", .kwAction)]

/-- The operators, in the order in which they are tried. -/
def operators : List (List Char × Kind) :=
  [("&&".toList, .andAnd), ("||".toList, .orOr), ("==".toList, .eqEq), ("!=".toList, .notEq), ("<=".toList, .lessEq),
    (">=".toList, .greaterEq), ("->".toList, .arrow), ("=>".toList, .fatArrow), ("+=".toList, .plusEq), ("-=".toList, .minusEq),
    ("*=".toList, .timesEq), ("/=".toList, .divEq), ("+".toList, .plus), ("-".toList, .minus), ("*".toList, .times),
    ("/".toList, .div), ("=".toList, .assign), ("%".toList, .percent), ("(".toList, .lparen), (")".toList, .rparen),
    ("\x7b".toList, .lbrace), ("\x7d".toList, .rbrace), ("[".toList, .lbracket), ("]".toList, .rbracket), (",".toList, .comma),
    (":".toList, .colon), (".".toList, .dot), ("<".toList, .less), (">".toList, .greater), ("!".toList, .bang),
    ("@".toList, .ats)]

/-- The kind of a word. -/
def wordKind (text : String) : Kind := (keywords.lookup text).getD .id

def isBlank (c : Char) : Bool := c = ' ' || c = '\t'

def isLetter (c : Char) : Bool := c.isAlpha || c = '_'

def isWordChar (c : Char) : Bool := c.isAlphanum || c = '_'

/-- What the lexer reads at a place. -/
inductive Lexeme where
  /-- A run of line breaks. -/
  | newlines (count : Nat)
  | comment (val : String)
  | semicolon
  | word (kind : Kind) (val : String)
  /-- A string literal, with the tokens of its interpolations. -/
  | literal (tokens : List Item)
  deriving DecidableEq, Repr

/-- The digits of `re` and what a hexadecimal escape stands for are those of the standard library. -/
structure CharTables where
  isDigit : Char → Bool
  hexChar : List Char → Option Char

section Lexing

variable (tables : CharTables)

/-- The end of a number: a fraction and an exponent, if there are any. -/
def exponentEnd (cs : List Char) : List Char :=
  match cs with
  | e :: rest =>
      if e = 'e' || e = 'E' then
        let digits := match rest with
          | sign :: rest' => if sign = '+' || sign = '-' then rest' else rest
          | [] => rest
        if (digits.takeWhile tables.isDigit).isEmpty then cs else digits.dropWhile tables.isDigit
      else cs
  | [] => []

def fractionEnd (cs : List Char) : List Char :=
  match cs with
  | '.' :: rest => if (rest.takeWhile tables.isDigit).isEmpty then cs else rest.dropWhile tables.isDigit
  | _ => cs

/-- A number, `digits` being what it starts with. -/
def lexNumber (cs : List Char) : Option (Lexeme × List Char) :=
  let digits := cs.takeWhile tables.isDigit
  match cs.dropWhile tables.isDigit with
  -- the suffix of an integer is a lower-case `i`, and ends the word
  | 'I' :: _ => none
  | 'i' :: c :: rest => if isLetter c then none else some (.word .numInt (String.ofList digits), c :: rest)
  | 'i' :: [] => some (.word .numInt (String.ofList digits), [])
  | rest =>
      let rest' := exponentEnd tables (fractionEnd tables rest)
      some (.word .num (String.ofList (cs.take (cs.length - rest'.length))), rest')

def lexOperator (cs : List Char) : Option (Lexeme × List Char) :=
  match cs with
  | ';' :: rest => some (.semicolon, rest)
  | _ => (operators.find? fun op => op.1.isPrefixOf cs).map fun op =>
      (.word op.2 (String.ofList op.1), cs.drop op.1.length)

/-- `TOKEN_RE.match`, for what is not blank. -/
def matchToken (cs : List Char) : Option (Lexeme × List Char) :=
  match cs with
  | [] => none
  | '#' :: _ | '/' :: '/' :: _ => some (.comment (String.ofList (cs.takeWhile (· ≠ '\n'))), cs.dropWhile (· ≠ '\n'))
  | '\n' :: _ => some (.newlines (cs.takeWhile (· = '\n')).length, cs.dropWhile (· = '\n'))
  | c :: _ =>
      if tables.isDigit c then lexNumber tables cs
      else if isLetter c then
        let text := String.ofList (cs.takeWhile isWordChar)
        some (.word (wordKind text) text, cs.dropWhile isWordChar)
      else lexOperator cs

def maxInterpDepth : Nat := 32

/-- The tokens of the text that has been read of a string literal. -/
def flushLiteral (text : List Char) : List Item := if text.isEmpty then [] else [.tok .stringLiteral (String.ofList text)]

/-- The tokens of a lexeme in an interpolation, where every line break is a separator. -/
def Lexeme.items : Lexeme → List Item
  | .newlines count => List.replicate count .sep
  | .comment val => [.comment val]
  | .semicolon => [.sep]
  | .word kind val => [.tok kind val]
  | .literal tokens => tokens

/-- A plain escape. -/
def escapeMap : List (Char × Char) :=
  [('n', '\n'), ('t', '\t'), ('r', '\r'), ('0', '\x00'), ('\x22', '\x22'), ('\x5c', '\x5c')]

mutual

/-- `_lex_string` after the opening quote. `text` is the literal text since the last interpolation and `parts` the tokens before it;
there are none as long as there was no interpolation. -/
def lexString : Nat → Nat → List Char → List Char → List Item → Option (List Item × List Char)
  | 0, _, _, _, _ => none
  | _ + 1, _, [], _, _ => none
  | _ + 1, _, '\x22' :: rest, text, parts =>
      if parts.isEmpty then some ([.tok .str (String.ofList text)], rest)
      else some ([.tok .stringStart "\x22"] ++ parts ++ flushLiteral text ++ [.tok .stringEnd "\x22"], rest)
  | fuel + 1, depth, '\x5c' :: '(' :: rest, text, parts =>
      (lexInterp fuel depth 0 rest).bind fun (tokens, rest') =>
        lexString fuel depth rest' [] (parts ++ flushLiteral text ++ [.tok .interpStart "\x5c("] ++ tokens)
  | fuel + 1, depth, '\x5c' :: 'x' :: rest, text, parts =>
      if rest.length < 2 then none
      else (tables.hexChar (rest.take 2)).bind fun c => lexString fuel depth (rest.drop 2) (text ++ [c]) parts
  | fuel + 1, depth, '\x5c' :: 'u' :: rest, text, parts =>
      if rest.length < 4 then none
      else (tables.hexChar (rest.take 4)).bind fun c => lexString fuel depth (rest.drop 4) (text ++ [c]) parts
  | fuel + 1, depth, '\x5c' :: e :: rest, text, parts =>
      (escapeMap.lookup e).bind fun c => lexString fuel depth rest (text ++ [c]) parts
  | _ + 1, _, '\n' :: _, _, _ => none
  | fuel + 1, depth, c :: rest, text, parts => lexString fuel depth rest (text ++ [c]) parts

/-- `_lex_interp`: the tokens up to the parenthesis that closes the interpolation. -/
def lexInterp : Nat → Nat → Nat → List Char → Option (List Item × List Char)
  | 0, _, _, _ => none
  | _ + 1, _, _, [] => none
  | fuel + 1, depth, parenDepth, '\x22' :: rest =>
      if depth + 1 > maxInterpDepth then none
      else (lexString fuel (depth + 1) rest [] []).bind fun (tokens, rest') =>
        (lexInterp fuel depth parenDepth rest').map fun (more, rest'') => (tokens ++ more, rest'')
  | _ + 1, _, 0, ')' :: rest => some ([.tok .interpEnd ")"], rest)
  | fuel + 1, depth, parenDepth + 1, ')' :: rest =>
      (lexInterp fuel depth parenDepth rest).map fun (more, rest') => (.tok .rparen ")" :: more, rest')
  | fuel + 1, depth, parenDepth, '(' :: rest =>
      (lexInterp fuel depth (parenDepth + 1) rest).map fun (more, rest') => (.tok .lparen "(" :: more, rest')
  | fuel + 1, depth, parenDepth, c :: rest =>
      if c = ':' && parenDepth = 0 then none
      else if isBlank c then lexInterp fuel depth parenDepth rest
      else (matchToken tables (c :: rest)).bind fun (lexeme, rest') =>
        (lexInterp fuel depth parenDepth rest').map fun (more, rest'') => (lexeme.items ++ more, rest'')

end

/-- The lexemes of a text. -/
def lexemes : Nat → List Char → Option (List Lexeme)
  | _, [] => some []
  | 0, _ => none
  | fuel + 1, '\x22' :: rest =>
      (lexString tables fuel 0 rest [] []).bind fun (tokens, rest') => (lexemes fuel rest').map (.literal tokens :: ·)
  | fuel + 1, c :: rest =>
      if isBlank c then lexemes fuel rest
      else (matchToken tables (c :: rest)).bind fun (lexeme, rest') => (lexemes fuel rest').map (lexeme :: ·)

/-- The byte order mark is dropped, and every line break is a line feed. -/
def normalizeBreaks : List Char → List Char
  | '\r' :: '\n' :: rest => '\n' :: normalizeBreaks rest
  | '\r' :: rest => '\n' :: normalizeBreaks rest
  | c :: rest => c :: normalizeBreaks rest
  | [] => []

def dropMark : List Char → List Char
  | '\ufeff' :: rest => rest
  | cs => cs

def scan (src : String) : Option (List Lexeme) :=
  let cs := normalizeBreaks (dropMark src.toList)
  lexemes tables (cs.length + 1) cs

end Lexing

/-- `_open_depth` after a token. -/
def depthAfter (openDepth : Nat) : Kind → Nat
  | .lparen | .lbracket => openDepth + 1
  | .rparen | .rbracket => openDepth - 1
  | _ => openDepth

/-- The tokens of a text: a line break is a separator where no parenthesis and no bracket is open. -/
def layout : Nat → List Lexeme → List Item
  | _, [] => [.tok .eof ""]
  | openDepth, .newlines _ :: rest => if openDepth = 0 then .sep :: layout openDepth rest else layout openDepth rest
  | openDepth, .comment val :: rest => .comment val :: layout openDepth rest
  | openDepth, .semicolon :: rest => .sep :: layout openDepth rest
  | openDepth, .word kind val :: rest => .tok kind val :: layout (depthAfter openDepth kind) rest
  | openDepth, .literal tokens :: rest => tokens ++ layout openDepth rest

def tokenize (tables : CharTables) (src : String) : Option (List Item) := (scan tables src).map (layout 0)

end Nodus.Frontend

import Mathlib.Logic.Function.Basic
import Mathlib.Data.List.Nodup
import Nodus.GoalValidation
import Nodus.Lexer
import Nodus.Programs

/-! The parser, as programs that read tokens through the helpers of the class `Parser` and call one another by name. Comments are
skipped on the way and belong to no statement here; positions, the texts of errors and the list of unknown type names are left
out. -/

namespace Nodus.Frontend

open Programs

/-! ### The state of a parser -/

inductive Counter where
  | parse | block | workflow | goal | step
  deriving DecidableEq, Repr

structure ParserState where
  toks : List Item
  counts : Counter → Nat

def Item.isSep : Item → Bool
  | .sep => true
  | _ => false

def Item.isComment : Item → Bool
  | .comment _ => true
  | _ => false

def Item.isKind (kind : Kind) : Item → Bool
  | .tok k _ => k = kind
  | _ => false

/-- `skip_seps`, and the comments on the way. -/
def skipLayout (toks : List Item) : List Item := toks.dropWhile fun item => item.isSep || item.isComment

def skipComments (toks : List Item) : List Item := toks.dropWhile Item.isComment

/-- `peek`; after the last token nothing is read. -/
def peek (toks : List Item) : Item := (skipComments toks).headD (.tok .eof "")

/-- `peek_ahead(1)`. -/
def peekAhead (toks : List Item) : Item := ((toks.filter fun item => !item.isComment).drop 1).headD (.tok .eof "")

def maxParseDepth : Nat := 50

/-- What a production can ask or do. -/
inductive Question : Type → Type 1 where
  /-- Something about the next token. -/
  | look {β : Type} (f : Item → β) : Question β
  /-- Something about the next token and the one after it; `otherwise` is the answer at a separator, where `peek_ahead` is never
  used. -/
  | lookAhead {β : Type} (f : Kind → String → Item → β) (otherwise : β) : Question β
  | eat (kind : Kind) : Question String
  | skipSeps : Question Unit
  /-- `eat_required_sep`. -/
  | eatRequiredSep : Question Unit
  | enter (counter : Counter) : Question Unit
  | leave (counter : Counter) : Question Unit
  | inside (counter : Counter) : Question Bool

namespace ParserState

variable (s : ParserState)

def enter (counter : Counter) : ParserState := { s with counts := Function.update s.counts counter (s.counts counter + 1) }

def leave (counter : Counter) : ParserState := { s with counts := Function.update s.counts counter (s.counts counter - 1) }

def eat (kind : Kind) : Option (String × ParserState) :=
  match skipComments s.toks with
  | .tok k val :: rest => if k = kind then some (val, { s with toks := rest }) else none
  | _ => none

/-- An expression is at most `maxParseDepth` deep in others. -/
def mayEnter : Counter → Bool
  | .parse => s.counts .parse + 1 ≤ maxParseDepth
  | _ => true

def answer {β : Type} : Question β → Option (β × ParserState)
  | .look f => some (f (peek s.toks), { s with toks := skipComments s.toks })
  | .lookAhead f otherwise => match peek s.toks with
      | .tok kind val => some (f kind val (peekAhead s.toks), { s with toks := skipComments s.toks })
      | _ => some (otherwise, { s with toks := skipComments s.toks })
  | .eat kind => s.eat kind
  | .skipSeps => some ((), { s with toks := skipLayout s.toks })
  | .eatRequiredSep => if (peek s.toks).isSep then some ((), { s with toks := skipLayout s.toks }) else none
  | .enter counter => if s.mayEnter counter then some ((), s.enter counter) else none
  | .leave counter => some ((), s.leave counter)
  | .inside counter => some (decide (0 < s.counts counter), s)

end ParserState

/-! ### The productions -/

/-- The clauses of `goal … over …`. -/
structure Pursuit where
  untilClause : Option Predicate := none
  budget : Option (Option Expr × Option Expr × Option Expr) := none
  retryFrom : Option String := none

/-- The loops and the recursive methods of the parser; the others are plain programs. -/
inductive Production : Type → Type 1 where
  | topLevel : Production (List Stmt)
  | stmt : Production Stmt
  | blockRest : Production (List Stmt)
  | ifStmt : Production Stmt
  | moreNames : Production (List Name)
  | moreParams : Production (List Param)
  | annotations : Production (List Annotation)
  | annotationArgs : Production (List (Name × Expr))
  | externParams (seen : List Name) : Production (List Param)
  | pursuitClauses (found : Pursuit) : Production Pursuit
  | predicate : Production Predicate
  | orPredicates (node : Predicate) : Production Predicate
  | andPredicates (node : Predicate) : Production Predicate
  | unaryPredicate : Production Predicate
  | flowBody (kind : FlowKind) : Production (List StateDecl × List FlowStep)
  | assignment : Production Expr
  | orRest (node : Expr) : Production Expr
  | andRest (node : Expr) : Production Expr
  | comparisonRest (node : Expr) : Production Expr
  | addRest (node : Expr) : Production Expr
  | mulRest (node : Expr) : Production Expr
  | unary : Production Expr
  | postfixRest (node : Expr) : Production Expr
  | moreItems (close : Kind) : Production (List Expr)
  | mapItems : Production (List (Expr × Expr))
  | recordFields : Production (List (Name × Expr))
  | namedItems (keys : Option (List String)) : Production (List (Name × Expr))
  | pattern : Production Pattern
  | morePatterns : Production (List Pattern)
  | patternFields : Production (List (Name × Pattern))
  /-- The branch of `parse_primary` that has met a brace. -/
  | braceLiteral : Production Expr
  | arms (seenWildcard : Bool) : Production (List MatchArm)
  | parts : Production (List StringPart)

abbrev Reads := Procedure Question Production

def ask {β : Type} (q : Question β) : Reads β := .ask q .done

def call {β : Type} (n : Production β) : Reads β := .call n .done

def reject {β : Type} : Reads β := .fail

def atKind (kind : Kind) : Reads Bool := ask (.look (Item.isKind kind))

/-- At a separator, or at one of some tokens. -/
def atSepOr (kinds : List Kind) : Reads Bool := ask (.look fun item => item.isSep || kinds.any item.isKind)

/-- At one of some words that are no keywords. -/
def atName (names : List String) : Reads Bool := ask (.look fun item => match item with
  | .tok .id val => val ∈ names
  | _ => false)

def eat (kind : Kind) : Reads String := ask (.eat kind)

def skipSeps : Reads Unit := ask .skipSeps

def loopControlKeywords : List String := ["break", "continue"]
def expressionKeywords : List String := ["match"]
def stepMapKeywords : List String := ["each"]
def compensationKeywords : List String := ["compensates"]
def externKeywords : List String := ["extern"]

def typeNames : List String := ["any", "int", "float", "string", "bool", "list", "map", "record", "function", "nil"]

def stateOptionKeys : List String := ["merge", "durable", "barrier"]

def stepOptionKeys : List String :=
  ["returns", "timeout_ms", "retries", "retry_delay_ms", "cache", "cache_key", "worker", "worker_timeout_ms", "on",
    "allow_failure"]

def budgetKeys : List String := ["max_iterations", "deadline_ms", "limits"]

/-- `_VALUE_FOLLOWERS`. -/
def valueFollowers : List Kind :=
  [.rparen, .rbracket, .rbrace, .comma, .colon, .eof, .interpEnd, .dot, .assign, .fatArrow, .arrow, .plus, .times, .div, .percent,
    .eqEq, .notEq, .less, .greater, .lessEq, .greaterEq, .andAnd, .orOr, .plusEq, .minusEq, .timesEq, .divEq]

def Item.followsValue (item : Item) : Bool := item.isSep || valueFollowers.any item.isKind

/-- The brace look-ahead of `parse_primary`, which reads the tokens as they stand: whether the first key is a name and a colon. -/
def startsRecord (toks : List Item) : Bool :=
  match ((skipComments toks).drop 1).dropWhile Item.isSep with
  | .tok .id _ :: rest => ((rest.dropWhile Item.isSep).headD (.tok .eof "")).isKind .colon
  | _ => false

/-! #### Expressions -/

def expr : Reads Expr := do
  ask (.enter .parse)
  let e ← call .assignment
  ask (.leave .parse)
  return e

def parseTypeName : Reads String := do
  if ← atKind .kwRecord then eat .kwRecord
  else if ← atKind .kwNil then eat .kwNil
  else eat .id

def parseParam : Reads Param := do
  let name ← eat .id
  if ← atKind .colon then
    let _ ← eat .colon
    let hint ← parseTypeName
    return { name, typeHint := some hint }
  else return { name }

/-- The parameters up to the closing parenthesis. -/
def parseParams : Reads (List Param) := do
  let _ ← eat .lparen
  if ← atKind .rparen then
    let _ ← eat .rparen
    return []
  else
    let first ← parseParam
    let rest ← call .moreParams
    let _ ← eat .rparen
    return first :: rest

def returnType : Reads (Option String) := do
  if ← atKind .arrow then
    let _ ← eat .arrow
    let name ← parseTypeName
    return some name
  else return none

def block : Reads (List Stmt) := do
  let _ ← eat .lbrace
  skipSeps
  ask (.enter .block)
  let stmts ← call .blockRest
  ask (.leave .block)
  let _ ← eat .rbrace
  return stmts

def parseMapLiteral : Reads Expr := do
  let _ ← eat .lbrace
  skipSeps
  if ← atKind .rbrace then
    let _ ← eat .rbrace
    return .mapLit []
  else
    let items ← call .mapItems
    let _ ← eat .rbrace
    return .mapLit items

def parseRecordLiteral : Reads Expr := do
  let _ ← eat .lbrace
  skipSeps
  if ← atKind .rbrace then
    let _ ← eat .rbrace
    return .recordLiteral []
  else
    let fields ← call .recordFields
    let _ ← eat .rbrace
    return .recordLiteral fields

/-- `parse_named_map_literal`; its keys are those given, if there are any. -/
def parseNamedMapLiteral (keys : Option (List String)) : Reads (List (Name × Expr)) := do
  let _ ← eat .lbrace
  skipSeps
  if ← atKind .rbrace then
    let _ ← eat .rbrace
    return []
  else
    let items ← call (.namedItems keys)
    let _ ← eat .rbrace
    return items

def namedMap (items : List (Name × Expr)) : Expr := .mapLit (items.map fun item => (.str item.1, item.2))

def parseActionExpr : Reads Expr := do
  let _ ← eat .kwAction
  let kind ← eat .id
  if kind = "tool" then payloadOf .tool
  else if kind = "agent" then payloadOf .agent
  else if kind = "memory_put" then
    let target ← eat .str
    let value ← expr
    return .actionStmt .memoryPut target (some value)
  else if kind = "memory_get" then
    let target ← eat .str
    return .actionStmt .memoryGet target none
  else if kind = "emit" then payloadOf .emit
  else reject
where
  payloadOf (kind : ActionKind) : Reads Expr := do
    let target ← eat .str
    let _ ← eat .kwWith
    let items ← parseNamedMapLiteral none
    return .actionStmt kind target (some (namedMap items))

def parseMatch : Reads Expr := do
  let _ ← eat .id
  let scrutinee ← expr
  let _ ← eat .lbrace
  skipSeps
  let arms ← call (.arms false)
  let _ ← eat .rbrace
  if arms.isEmpty then reject else return .matchOn scrutinee arms

def fnExpr : Reads Expr := do
  let _ ← eat .kwFn
  let params ← parseParams
  let type ← returnType
  let body ← block
  return .fnExpr params body type

def listLit : Reads Expr := do
  let _ ← eat .lbracket
  if ← atKind .rbracket then
    let _ ← eat .rbracket
    return .listLit []
  else
    let first ← expr
    let rest ← call (.moreItems .rbracket)
    let _ ← eat .rbracket
    return .listLit (first :: rest)

def parsePrimary : Reads Expr := do
  if ← atKind .kwAction then
    if ← ask (.inside .step) then parseActionExpr else reject
  else if ← atKind .numInt then
    let raw ← eat .numInt
    return .int raw
  else if ← atKind .num then
    let raw ← eat .num
    return .num raw
  else if ← atKind .kwTrue then
    let _ ← eat .kwTrue
    return .bool true
  else if ← atKind .kwFalse then
    let _ ← eat .kwFalse
    return .bool false
  else if ← atKind .kwNil then
    let _ ← eat .kwNil
    return .nil
  else if ← atKind .str then
    let v ← eat .str
    return .str v
  else if ← atKind .stringStart then
    let _ ← eat .stringStart
    let parts ← call .parts
    let _ ← eat .stringEnd
    return .interpolatedString parts
  else if ← ask (.lookAhead (fun kind val after => kind = .id && decide (val ∈ expressionKeywords) && !after.followsValue) false) then
    parseMatch
  else if ← atKind .id then
    let name ← eat .id
    return .var name
  else if ← atKind .kwPrint then
    let _ ← eat .kwPrint
    return .var "print"
  else if ← atKind .kwFn then fnExpr
  else if ← atKind .lbracket then listLit
  else if ← atKind .lbrace then call .braceLiteral
  else if ← atKind .kwRecord then
    let _ ← eat .kwRecord
    if ← atKind .lbrace then parseRecordLiteral else reject
  else if ← atKind .lparen then
    let _ ← eat .lparen
    let e ← expr
    let _ ← eat .rparen
    return e
  else reject

def parsePostfix : Reads Expr := do
  let node ← parsePrimary
  call (.postfixRest node)

/-- The next token as one of some operators. -/
def atOperator {β : Type} (ops : List (Kind × β)) : Reads (Option (Kind × β)) :=
  ask (.look fun item => ops.find? fun op => item.isKind op.1)

def mulOps : List (Kind × BinOp) := [(.times, .mul), (.div, .div), (.percent, .mod)]

def addOps : List (Kind × BinOp) := [(.plus, .add), (.minus, .sub)]

def comparisonOps : List (Kind × BinOp) :=
  [(.eqEq, .eq), (.notEq, .ne), (.less, .lt), (.greater, .gt), (.lessEq, .le), (.greaterEq, .ge)]

/-- `_COMPOUND_OPS`. -/
def compoundOps : List (Kind × BinOp) := [(.plusEq, .add), (.minusEq, .sub), (.timesEq, .mul), (.divEq, .div)]

def parseMul : Reads Expr := do
  let node ← call .unary
  call (.mulRest node)

def parseAdd : Reads Expr := do
  let node ← parseMul
  call (.addRest node)

def parseComparison : Reads Expr := do
  let node ← parseAdd
  call (.comparisonRest node)

def parseAnd : Reads Expr := do
  let node ← parseComparison
  call (.andRest node)

def parseOr : Reads Expr := do
  let node ← parseAnd
  call (.orRest node)

/-- What an assignment to an expression is. -/
def assignTo (rhs : Expr) : Expr → Reads Expr
  | .var name => return .assign name rhs
  | .index seq index => return .indexAssign seq index rhs
  | .attr obj name => return .fieldAssign obj name rhs
  | _ => reject

def compoundAssignTo (op : BinOp) (rhs : Expr) : Expr → Reads Expr
  | .var name => return .compoundAssign name op rhs
  | .index seq index => return .indexAssign seq index (.bin op (.index seq index) rhs)
  | .attr obj name => return .fieldAssign obj name (.bin op (.attr obj name) rhs)
  | _ => reject

def parseAssignment : Reads Expr := do
  let node ← parseOr
  if ← atKind .assign then
    let _ ← eat .assign
    let rhs ← call .assignment
    assignTo rhs node
  else match ← atOperator compoundOps with
    | some (kind, op) => do
        let _ ← eat kind
        let rhs ← call .assignment
        compoundAssignTo op rhs node
    | none => return node

/-! #### Statements -/

def letStmt (exported : Bool) : Reads Stmt := do
  let _ ← eat .kwLet
  if ← ask (.look fun item => item.isKind .lbracket || item.isKind .lbrace) then
    let pattern ← call .pattern
    let _ ← eat .assign
    let e ← expr
    if exported then reject else return .destructureLet pattern e
  else
    let name ← eat .id
    if ← atKind .colon then
      let _ ← eat .colon
      let hint ← parseTypeName
      let _ ← eat .assign
      let e ← expr
      return .letDecl name e (some hint) exported
    else
      let _ ← eat .assign
      let e ← expr
      return .letDecl name e none exported

def fnDef (exported : Bool) (annotations : List Annotation) : Reads Stmt := do
  let _ ← eat .kwFn
  let name ← eat .id
  let params ← parseParams
  let type ← returnType
  let body ← block
  return .fnDef name params body type exported annotations

def annotatedFnDef (exported : Bool) : Reads Stmt := do
  let annotations ← call .annotations
  fnDef exported annotations

/-- The names in braces of an `import` or `export`. -/
def nameList : Reads (List Name) := do
  let _ ← eat .lbrace
  if ← atKind .rbrace then
    let _ ← eat .rbrace
    return []
  else
    let first ← eat .id
    let rest ← call .moreNames
    let _ ← eat .rbrace
    return first :: rest

def exportStmt : Reads Stmt := do
  let _ ← eat .kwExport
  if ← atKind .kwLet then letStmt true
  else if ← atKind .ats then annotatedFnDef true
  else if ← atKind .kwFn then fnDef true []
  else if ← atKind .lbrace then
    let names ← nameList
    if ← atKind .kwFrom then
      let _ ← eat .kwFrom
      let path ← eat .str
      return .exportFrom names path
    else return .exportList names
  else reject

def importStmt : Reads Stmt := do
  let _ ← eat .kwImport
  if ← atKind .lbrace then
    let names ← nameList
    let _ ← eat .kwFrom
    let path ← eat .str
    return .importStmt path none (some names)
  else
    let path ← eat .str
    if ← atKind .kwAs then
      let _ ← eat .kwAs
      let importAs ← eat .id
      return .importStmt path (some importAs) none
    else return .importStmt path none none

def whileStmt : Reads Stmt := do
  let _ ← eat .kwWhile
  let _ ← eat .lparen
  let cond ← expr
  let _ ← eat .rparen
  let body ← block
  return .whileLoop cond body

def forStmt : Reads Stmt := do
  let _ ← eat .kwFor
  let _ ← eat .lparen
  let init ← (do
    if ← atSepOr [] then return none
    else if ← atKind .kwLet then
      let s ← letStmt false
      return some s
    else
      let e ← expr
      return some (.exprStmt e))
  ask .eatRequiredSep
  let cond ← (do
    if ← atSepOr [] then return none
    else
      let e ← expr
      return some e)
  ask .eatRequiredSep
  let inc ← (do
    if ← atKind .rparen then return none
    else
      let e ← expr
      return some e)
  let _ ← eat .rparen
  let body ← block
  return .forLoop init cond inc body

def forEachStmt : Reads Stmt := do
  let _ ← eat .kwFor
  let name ← eat .id
  let _ ← eat .kwIn
  let iterable ← expr
  let body ← block
  return .forEach name iterable body

def ifStmt : Reads Stmt := do
  let _ ← eat .kwIf
  let _ ← eat .lparen
  let cond ← expr
  let _ ← eat .rparen
  let thenBranch ← block
  skipSeps
  if ← atKind .kwElse then
    let _ ← eat .kwElse
    skipSeps
    if ← atKind .kwIf then
      let elseBranch ← call .ifStmt
      return .ifElse cond thenBranch (some elseBranch)
    else
      let elseBranch ← block
      return .ifElse cond thenBranch (some (.block elseBranch))
  else return .ifElse cond thenBranch none

/-- The expression of a `return` or `yield`, if there is one. -/
def optionalExpr (ends : List Kind) : Reads (Option Expr) := do
  if ← atSepOr ends then return none
  else
    let e ← expr
    return some e

def tryStmt : Reads Stmt := do
  let _ ← eat .kwTry
  let tryBlock ← block
  skipSeps
  let handler ← (do
    if ← atKind .kwCatch then
      let _ ← eat .kwCatch
      let name ← (do
        if ← atKind .lparen then
          let _ ← eat .lparen
          let name ← eat .id
          let _ ← eat .rparen
          return name
        else eat .id)
      let handlerBlock ← block
      skipSeps
      return some (name, handlerBlock)
    else return none)
  let finallyBlock ← (do
    if ← atKind .kwFinally then
      let _ ← eat .kwFinally
      let stmts ← block
      return some stmts
    else return none)
  if handler.isNone && finallyBlock.isNone then reject else return .tryCatch tryBlock handler finallyBlock

def externTypeName : Reads String := do
  let name ← parseTypeName
  if name ∈ typeNames then return name else reject

def externDecl : Reads Stmt := do
  let _ ← eat .id
  if ← ask (.inside .block) then reject
  else
    let name ← eat .id
    let _ ← eat .lparen
    let params ← (do
      if ← atKind .rparen then return []
      else call (.externParams []))
    let _ ← eat .rparen
    if ← atKind .arrow then
      let _ ← eat .arrow
      let type ← externTypeName
      return .externDecl name params (some type)
    else return .externDecl name params none

/-! #### Flows -/

/-- The meters of a budget, whose keys may be written with or without quotes. -/
def limitsMap : Option Expr → Reads (Option Expr)
  | none => return none
  | some (.recordLiteral fields) => if fields.isEmpty then reject else return some (namedMap fields)
  | some (.mapLit items) => if items.isEmpty then reject else return some (.mapLit items)
  | some _ => reject

/-- `found.get`: the value that was given last. -/
def found (items : List (Name × Expr)) (key : Name) : Option Expr := items.reverse.lookup key

def goalBudget : Reads (Option Expr × Option Expr × Option Expr) := do
  let items ← parseNamedMapLiteral (some budgetKeys)
  let limits ← limitsMap (found items "limits")
  if (found items "max_iterations").isNone && (found items "deadline_ms").isNone && limits.isNone then reject
  else return (found items "max_iterations", found items "deadline_ms", limits)

def goalPredicate : Reads Predicate := call .predicate

def goalPursuit : Reads Stmt := do
  let name ← eat .id
  let _ ← eat .id
  let workflowName ← eat .id
  let _ ← eat .lbrace
  skipSeps
  let clauses ← call (.pursuitClauses {})
  let _ ← eat .rbrace
  match clauses.untilClause, clauses.budget with
  | some untilClause, some (maxIterations, deadlineMs, limits) =>
      return .goalPursuit name workflowName untilClause maxIterations deadlineMs limits clauses.retryFrom
  | _, _ => reject

def flowCounter : FlowKind → Counter
  | .workflow => .workflow
  | .goal => .goal

def flowStateDecl : Reads StateDecl := do
  let _ ← eat .id
  if (← ask (.inside .workflow)) || (← ask (.inside .goal)) then
    let name ← eat .id
    let _ ← eat .assign
    let value ← expr
    if ← atKind .kwWith then
      let _ ← eat .kwWith
      let options ← parseNamedMapLiteral (some stateOptionKeys)
      return .mk name value (some (namedMap options))
    else return .mk name value none
  else reject

/-- `returns:` names a type. -/
def returnsKnown (options : List (Name × Expr)) : Bool :=
  options.all fun option => option.1 ≠ "returns" || match option.2 with
    | .str declared => declared ∈ typeNames
    | _ => false

def parseWorkflowOptions : Reads Expr := do
  let options ← parseNamedMapLiteral (some stepOptionKeys)
  if returnsKnown options then return namedMap options else reject

def flowStep : Reads FlowStep := do
  let _ ← eat .kwStep
  let name ← eat .id
  let compensates ← (do
    if ← atName compensationKeywords then
      let _ ← eat .id
      let target ← eat .id
      if target = name then reject else return some target
    else return none)
  let each ← (do
    if ← atName stepMapKeywords then
      let _ ← eat .id
      let eachVar ← eat .id
      let _ ← eat .kwIn
      let source ← eat .id
      if eachVar = source then reject else return some (eachVar, source)
    else return none)
  let after ← (do
    if ← atKind .kwAfter then
      let _ ← eat .kwAfter
      let first ← eat .id
      let rest ← call .moreNames
      return first :: rest
    else return [])
  let whenClause ← (do
    if ← atName ["when"] then
      let _ ← eat .id
      let predicate ← goalPredicate
      return some predicate
    else return none)
  let options ← (do
    if ← atKind .kwWith then
      let _ ← eat .kwWith
      let options ← parseWorkflowOptions
      return some options
    else return none)
  ask (.enter .step)
  let body ← block
  ask (.leave .step)
  match compensates with
  | none => return .mk name (each.toList.map Prod.snd ++ after) body options whenClause each none
  | some target =>
      if each.isSome || !after.isEmpty || whenClause.isSome then reject
      else return .mk name [target] body options none none (some target)

/-- The parameter list of a flow, which is not empty where it is written. -/
def flowParams : Reads (List Param) := do
  if ← atKind .lparen then
    let _ ← eat .lparen
    let first ← parseParam
    let rest ← call .moreParams
    let _ ← eat .rparen
    if ((first :: rest).map Param.name).Nodup then return first :: rest else reject
  else return []

def flowDef (kind : FlowKind) : Reads Stmt := do
  let name ← eat .id
  let params ← flowParams
  let _ ← eat .lbrace
  ask (.enter (flowCounter kind))
  skipSeps
  let (states, steps) ← call (.flowBody kind)
  let _ ← eat .rbrace
  ask (.leave (flowCounter kind))
  let names := steps.map FlowStep.name
  if steps.isEmpty || !decide names.Nodup || !steps.all (fun step => step.deps.all (· ∈ names)) then reject
  else if params.any fun param => decide (param.name ∈ names) || decide (param.name ∈ states.map StateDecl.name) then reject
  else return .flowDef kind name params states steps

def goalDef : Reads Stmt := do
  let _ ← eat .kwGoal
  if ← ask (.lookAhead (fun kind _ after => kind = .id && after = .tok .id "over") false) then goalPursuit
  else flowDef .goal

def stmt : Reads Stmt := do
  skipSeps
  if ← ask (.lookAhead (fun kind val after => kind = .id && decide (val ∈ externKeywords) && after.isKind .id) false) then externDecl
  else if ← atKind .kwExport then exportStmt
  else if ← atKind .kwLet then letStmt false
  else if ← atKind .kwPrint then
    let _ ← eat .kwPrint
    let _ ← eat .lparen
    let e ← expr
    let _ ← eat .rparen
    return .print e
  else if ← atKind .kwImport then importStmt
  else if ← atKind .kwIf then call .ifStmt
  else if ← atKind .kwWhile then whileStmt
  else if ← atKind .kwFor then
    if ← ask (.lookAhead (fun _ _ after => after.isKind .lparen) false) then forStmt else forEachStmt
  else if ← atKind .ats then annotatedFnDef false
  else if ← atKind .kwFn then fnDef false []
  else if ← atKind .kwWorkflow then
    let _ ← eat .kwWorkflow
    flowDef .workflow
  else if ← atKind .kwGoal then goalDef
  else if ← atKind .kwReturn then
    let _ ← eat .kwReturn
    let e ← optionalExpr [.rbrace, .eof]
    return .returnStmt e
  else if ← atKind .kwYield then
    let _ ← eat .kwYield
    let e ← optionalExpr [.rbrace, .eof]
    return .yieldStmt e
  else if ← atKind .kwTry then tryStmt
  else if ← atKind .kwThrow then
    let _ ← eat .kwThrow
    let e ← expr
    return .throw e
  else if (← ask (.inside .step)) && (← atName ["checkpoint"]) then
    let _ ← eat .id
    let label ← eat .str
    return .checkpoint label
  else if ← atKind .lbrace then
    let stmts ← block
    return .block stmts
  else if ← atName loopControlKeywords then
    let word ← eat .id
    if word = "break" then return .breakLoop else return .continueLoop
  else
    let e ← expr
    return .exprStmt e

/-- `parse`: the statements up to the end of the text. -/
def program : Reads (List Stmt) := do
  skipSeps
  let stmts ← call .topLevel
  if GoalValidation.validateGoalPursuits stmts && GoalValidation.validateStepGuards stmts then return stmts else reject

/-! #### Loops -/

/-- What follows an item of a braced list: a comma and, unless the brace is closed, another item. -/
def moreAfter {β : Type} (close : Kind) (again : Reads (List β)) : Reads (List β) := do
  skipSeps
  if ← atKind .comma then
    let _ ← eat .comma
    skipSeps
    if ← atKind close then return [] else again
  else return []

def armBody : Reads ArmBody := do
  if ← atKind .lbrace then
    let stmts ← block
    return .stmt (.block stmts)
  else if ← atKind .kwThrow then
    let _ ← eat .kwThrow
    let e ← expr
    return .stmt (.throw e)
  else if ← atKind .kwReturn then
    let _ ← eat .kwReturn
    let e ← optionalExpr [.rbrace, .comma, .eof]
    return .stmt (.returnStmt e)
  else
    let e ← expr
    return .expr e

/-- The left-associative operators of one level. -/
def operatorRest (ops : List (Kind × BinOp)) (operand : Reads Expr) (again : Expr → Production Expr) (node : Expr) : Reads Expr := do
  match ← atOperator ops with
  | some (kind, op) => do
      let _ ← eat kind
      let rhs ← operand
      call (again (.bin op node rhs))
  | none => return node

/-- The next key of a map. A bare name is none: it would read as the key of a record. -/
def mapKey : Reads Expr := do
  let startsName ← atKind .id
  let key ← expr
  match key with
  | .var _ => if startsName then reject else return key
  | _ => return key

variable (looksLikeRecord : List Item → Bool)

/-- What a production stands for. -/
def production {β : Type} : Production β → ParserState → Reads β
  | .topLevel, _ => do
      if ← atKind .eof then return []
      else
        let first ← call .stmt
        skipSeps
        let rest ← call .topLevel
        return first :: rest
  | .stmt, _ => stmt
  | .blockRest, _ => do
      if ← atKind .rbrace then return []
      else if ← atKind .eof then reject
      else
        let first ← call .stmt
        skipSeps
        let rest ← call .blockRest
        return first :: rest
  | .ifStmt, _ => ifStmt
  | .moreNames, _ => do
      if ← atKind .comma then
        let _ ← eat .comma
        let name ← eat .id
        let rest ← call .moreNames
        return name :: rest
      else return []
  | .moreParams, _ => do
      if ← atKind .comma then
        let _ ← eat .comma
        let param ← parseParam
        let rest ← call .moreParams
        return param :: rest
      else return []
  | .annotations, _ => do
      if ← atKind .ats then
        let _ ← eat .ats
        let name ← eat .id
        let args ← (do
          if ← atKind .lparen then
            let _ ← eat .lparen
            let args ← (do
              if ← atKind .rparen then return []
              else call .annotationArgs)
            let _ ← eat .rparen
            return some args
          else return none)
        skipSeps
        let rest ← call .annotations
        return .mk name args :: rest
      else return []
  | .annotationArgs, _ => do
      let key ← eat .id
      let _ ← eat .colon
      let value ← expr
      if ← atKind .comma then
        let _ ← eat .comma
        let rest ← call .annotationArgs
        return (key, value) :: rest
      else return [(key, value)]
  | .externParams seen, _ => do
      let name ← eat .id
      if name ∈ seen then reject
      else
        let typeHint ← (do
          if ← atKind .colon then
            let _ ← eat .colon
            let type ← externTypeName
            return some type
          else return none)
        if ← atKind .comma then
          let _ ← eat .comma
          let rest ← call (.externParams (name :: seen))
          return { name, typeHint } :: rest
        else return [{ name, typeHint }]
  | .pursuitClauses clauses, _ => do
      if ← atKind .rbrace then return clauses
      else
        let clause ← eat .id
        let clauses' ← (do
          if clause = "until" then
            if clauses.untilClause.isSome then reject
            else
              let predicate ← goalPredicate
              return { clauses with untilClause := some predicate }
          else if clause = "budget" then
            if clauses.budget.isSome then reject
            else
              let budget ← goalBudget
              return { clauses with budget := some budget }
          else if clause = "retry" then
            if clauses.retryFrom.isSome then reject
            else
              let _ ← eat .kwFrom
              let label ← eat .str
              return { clauses with retryFrom := some label }
          else reject)
        skipSeps
        call (.pursuitClauses clauses')
  | .predicate, _ => do
      let first ← call .unaryPredicate
      let node ← call (.andPredicates first)
      call (.orPredicates node)
  | .orPredicates node, _ => do
      if ← atKind .orOr then
        let _ ← eat .orOr
        let first ← call .unaryPredicate
        let rhs ← call (.andPredicates first)
        call (.orPredicates (.or node rhs))
      else return node
  | .andPredicates node, _ => do
      if ← atKind .andAnd then
        let _ ← eat .andAnd
        let rhs ← call .unaryPredicate
        call (.andPredicates (.and node rhs))
      else return node
  | .unaryPredicate, _ => do
      if ← atKind .bang then
        let _ ← eat .bang
        let operand ← call .unaryPredicate
        return .not operand
      else if ← atKind .lparen then
        let _ ← eat .lparen
        let node ← call .predicate
        let _ ← eat .rparen
        return node
      else if ← atName ["reached"] then
        let _ ← eat .id
        let _ ← eat .lparen
        let label ← eat .str
        let _ ← eat .rparen
        return .reached label
      else reject
  | .flowBody kind, _ => do
      if ← atKind .rbrace then return ([], [])
      else if ← atName ["state"] then
        let state ← flowStateDecl
        skipSeps
        let (states, steps) ← call (.flowBody kind)
        return (state :: states, steps)
      else if ← atKind .kwStep then
        let step ← flowStep
        skipSeps
        let (states, steps) ← call (.flowBody kind)
        return (states, step :: steps)
      else reject
  | .assignment, _ => parseAssignment
  | .orRest node, _ => do
      if ← atKind .orOr then
        let _ ← eat .orOr
        let rhs ← parseAnd
        call (.orRest (.logic .or node rhs))
      else return node
  | .andRest node, _ => do
      if ← atKind .andAnd then
        let _ ← eat .andAnd
        let rhs ← parseComparison
        call (.andRest (.logic .and node rhs))
      else return node
  | .comparisonRest node, _ => operatorRest comparisonOps parseAdd .comparisonRest node
  | .addRest node, _ => operatorRest addOps parseMul .addRest node
  | .mulRest node, _ => operatorRest mulOps (call .unary) .mulRest node
  | .unary, _ => do
      if ← atKind .bang then
        let _ ← eat .bang
        let operand ← call .unary
        return .unary .bang operand
      else if ← atKind .minus then
        let _ ← eat .minus
        let operand ← call .unary
        return .unary .minus operand
      else parsePostfix
  | .postfixRest node, _ => do
      if ← atKind .lparen then
        let _ ← eat .lparen
        let args ← (do
          if ← atKind .rparen then return []
          else
            let first ← expr
            let rest ← call (.moreItems .rparen)
            return first :: rest)
        let _ ← eat .rparen
        call (.postfixRest (.call node args))
      else if ← atKind .lbracket then
        let _ ← eat .lbracket
        let index ← expr
        let _ ← eat .rbracket
        call (.postfixRest (.index node index))
      else if ← atKind .dot then
        let _ ← eat .dot
        let name ← eat .id
        call (.postfixRest (.attr node name))
      else return node
  | .moreItems close, _ => do
      if ← atKind .comma then
        let _ ← eat .comma
        skipSeps
        if ← atKind close then return []
        else
          let item ← expr
          let rest ← call (.moreItems close)
          return item :: rest
      else return []
  | .mapItems, _ => do
      let key ← mapKey
      let _ ← eat .colon
      skipSeps
      let value ← expr
      let rest ← moreAfter .rbrace (call .mapItems)
      return (key, value) :: rest
  | .recordFields, _ => do
      let key ← eat .id
      let _ ← eat .colon
      skipSeps
      let value ← expr
      let rest ← moreAfter .rbrace (call .recordFields)
      return (key, value) :: rest
  | .namedItems keys, _ => do
      let key ← eat .id
      if keys.any (key ∉ ·) then reject
      else
        let _ ← eat .colon
        skipSeps
        let value ← expr
        let rest ← moreAfter .rbrace (call (.namedItems keys))
        return (key, value) :: rest
  | .pattern, _ => do
      if ← atKind .lbracket then
        let _ ← eat .lbracket
        if ← atKind .rbracket then
          let _ ← eat .rbracket
          return .list []
        else
          let first ← call .pattern
          let rest ← call .morePatterns
          let _ ← eat .rbracket
          return .list (first :: rest)
      else if ← atKind .lbrace then
        let _ ← eat .lbrace
        skipSeps
        if ← atKind .rbrace then
          let _ ← eat .rbrace
          return .record []
        else
          let fields ← call .patternFields
          let _ ← eat .rbrace
          return .record fields
      else
        let name ← eat .id
        return .var name
  | .morePatterns, _ => do
      if ← atKind .comma then
        let _ ← eat .comma
        if ← atKind .rbracket then return []
        else
          let item ← call .pattern
          let rest ← call .morePatterns
          return item :: rest
      else return []
  | .patternFields, _ => do
      let key ← eat .id
      let value ← (do
        if ← atKind .colon then
          let _ ← eat .colon
          call .pattern
        else return .var key)
      let rest ← moreAfter .rbrace (call .patternFields)
      return (key, value) :: rest
  | .braceLiteral, s => if looksLikeRecord s.toks then parseRecordLiteral else parseMapLiteral
  | .arms seenWildcard, _ => do
      if ← atKind .rbrace then return []
      else if seenWildcard then reject
      else
        let wildcard ← atName ["_"]
        let pattern ← (do
          if wildcard then
            let _ ← eat .id
            return none
          else
            let e ← expr
            return some e)
        let _ ← eat .fatArrow
        let body ← armBody
        skipSeps
        if ← atKind .comma then
          let _ ← eat .comma
          skipSeps
          let rest ← call (.arms wildcard)
          return .mk pattern body :: rest
        else
          let rest ← call (.arms wildcard)
          return .mk pattern body :: rest
  | .parts, _ => do
      if ← atKind .stringEnd then return []
      else if ← atKind .stringLiteral then
        let text ← eat .stringLiteral
        let rest ← call .parts
        return .literal text :: rest
      else
        let _ ← eat .interpStart
        if ← atKind .interpEnd then reject
        else
          skipSeps
          let e ← expr
          skipSeps
          let _ ← eat .interpEnd
          let rest ← call .parts
          return .interpolation e :: rest

/-- The language of the parser, the look-ahead at a brace as given. -/
def grammar : Language Question Production ParserState where
  answer q s := s.answer q
  body n s := production looksLikeRecord n s

end Nodus.Frontend

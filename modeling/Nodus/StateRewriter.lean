import Nodus.Ast
import Nodus.Compiler

/-! The rewriter that the lowering of a flow runs over the body of each step: references to the state cells of the flow become
operations on the map of the state. It keeps the names that are in scope on a stack, and notes what the body does with the cells
that are folded or that are barriers. -/

namespace Nodus.Frontend

/-- The cells of a flow. -/
structure Cells where
  stateNames : List Name
  stateVar : Name := "__workflow_state"
  /-- The policy of each cell that is folded. -/
  foldCells : List (Name × String) := []
  trackedCells : List Name := []

/-- The scopes, the innermost one first, and the accesses to tracked cells. -/
structure StateRewriter where
  scopes : List (List Name)
  cellReads : List Name := []
  cellWrites : List Name := []

abbrev Rewrite := StateT StateRewriter (Except String)

def builtinCall (name : Name) (args : List Expr) : Expr := .call (.var (builtinCallPrefix ++ name)) args

namespace StateRewriter

def isLocal (s : StateRewriter) (name : Name) : Bool := s.scopes.any (name ∈ ·)

/-- A name is added to the innermost scope. -/
def define (s : StateRewriter) (name : Name) : StateRewriter :=
  { s with scopes := (name :: s.scopes.headD []) :: s.scopes.tail }

def enterScope (s : StateRewriter) : StateRewriter := { s with scopes := [] :: s.scopes }

def exitScope (s : StateRewriter) : StateRewriter := { s with scopes := s.scopes.tail }

/-- A cell that no local hides. -/
def isCell (s : StateRewriter) (cells : Cells) (name : Name) : Bool := name ∈ cells.stateNames && !s.isLocal name

def isFold (s : StateRewriter) (cells : Cells) (name : Name) : Bool :=
  (cells.foldCells.lookup name).isSome && !s.isLocal name

def isTracked (s : StateRewriter) (cells : Cells) (name : Name) : Bool :=
  (decide (name ∈ cells.trackedCells) || (cells.foldCells.lookup name).isSome) && !s.isLocal name

def noteRead (s : StateRewriter) (cells : Cells) (name : Name) : StateRewriter :=
  if s.isTracked cells name then { s with cellReads := name :: s.cellReads } else s

def noteWrite (s : StateRewriter) (cells : Cells) (name : Name) : StateRewriter :=
  if s.isTracked cells name then { s with cellWrites := name :: s.cellWrites } else s

end StateRewriter

/-- The variable that a chain of index and attribute accesses starts from. -/
def rootVar : Expr → Option Name
  | .var name => some name
  | .index seq _ => rootVar seq
  | .attr obj _ => rootVar obj
  | _ => none

/-- Whether an expression is rewritten for its value, or as the base of `cell[i] = v` or `cell.f = v`. -/
inductive Position where
  | value
  | mutationTarget
  deriving DecidableEq

variable (cells : Cells)

/-- The policy of a folded cell, as the messages name it. -/
def policyOf (name : Name) : String := (cells.foldCells.lookup name).getD ""

/-- The operation on the map of the state that stands for a cell. -/
def cellAccess (position : Position) (name : Name) : Expr :=
  match position with
  | .value => .index (.var cells.stateVar) (.str name)
  | .mutationTarget => builtinCall "state_open_for_write" [.str name]

def rewriteVar (position : Position) (name : Name) : Rewrite Expr := do
  let s ← get
  if s.isCell cells name then
    if position = .value then set (s.noteRead cells name)
    return cellAccess cells position name
  else return .var name

/-- A plain assignment, when its value has been rewritten. -/
def rewriteAssign (name : Name) (value : Expr) : Rewrite Expr := do
  let s ← get
  if s.isCell cells name then
    if s.isFold cells name then
      throw s!"state '{name}' is declared merge: \"{policyOf cells name}\", so it is written with '{name} += ...' which contributes a value to be folded at the join. A plain '{name} = ...' sets a final value, which cannot be combined with another branch's."
    else
      set (s.noteWrite cells name)
      return .indexAssign (.var cells.stateVar) (.str name) value
  else return .assign name value

def compoundOp : BinOp → String
  | .add => "+"
  | .sub => "-"
  | .mul => "*"
  | .div => "/"
  | _ => ""

def rewriteCompoundAssign (name : Name) (op : BinOp) (value : Expr) : Rewrite Expr := do
  let s ← get
  if s.isCell cells name then
    if s.isFold cells name then
      if op ≠ .add then
        throw s!"state '{name}' is declared merge: \"{policyOf cells name}\", which folds with '+'. '{compoundOp op}=' has no meaning as a contribution."
      else
        set { s with cellWrites := name :: s.cellWrites }
        return builtinCall "state_contribute" [.str name, value]
    else
      set ((s.noteWrite cells name).noteRead cells name)
      return .indexAssign (.var cells.stateVar) (.str name) (.bin op (cellAccess cells .value name) value)
  else return .compoundAssign name op value

/-- `_refuse_container_write_to_fold_cell` and `_record_container_write`. -/
def enterContainerWrite (target : Expr) : Rewrite Unit := do
  let s ← get
  match rootVar target with
  | none => pure ()
  | some name =>
      if s.isCell cells name && s.isFold cells name then
        throw s!"state '{name}' is declared merge: \"{policyOf cells name}\", so it is written by contribution, not by mutation. '{name}[...] = ...' would set the cell behind the fold; use '{name} += ...' to contribute a value that is combined at the join."
      else set (s.noteWrite cells name)

/-- The builtin that performs an action. -/
def actionBuiltin : ActionKind → Name
  | .tool => "__action_tool"
  | .agent => "__action_agent"
  | .memoryPut => "__action_memory_put"
  | .memoryGet => "__action_memory_get"
  | .emit => "__action_emit"

/-- What the builtin is given. -/
def actionArgs (kind : ActionKind) (target : String) (payload : Option Expr) : List Expr :=
  match kind with
  | .memoryPut => [.str target, payload.getD .nil]
  | .memoryGet => [.str target]
  | _ => [.str target, payload.getD (.mapLit [])]

/-- `_lower_action_expr`. -/
def lowerActionExpr (kind : ActionKind) (target : String) (payload : Option Expr) : Expr :=
  builtinCall (actionBuiltin kind) (actionArgs kind target payload)

/-- A scope of its own around a rewriting. -/
def inScope {α : Type} (names : List Name) (body : Rewrite α) : Rewrite α := do
  modify fun s => names.foldl StateRewriter.define s.enterScope
  let result ← body
  modify StateRewriter.exitScope
  return result

mutual

/-- `rewrite_expr`, and `_rewrite_mutation_target` for the base of a mutation. -/
def rewriteExpr (position : Position) : Expr → Rewrite Expr
  | .num raw => return .num raw
  | .int raw => return .int raw
  | .bool v => return .bool v
  | .str v => return .str v
  | .nil => return .nil
  | .interpolatedString parts => return .interpolatedString (← rewriteParts parts)
  | .var name => rewriteVar cells position name
  | .unary op expr => return .unary op (← rewriteExpr .value expr)
  | .bin op a b => return .bin op (← rewriteExpr .value a) (← rewriteExpr .value b)
  | .logic op a b => return .logic op (← rewriteExpr .value a) (← rewriteExpr .value b)
  | .assign name expr => do rewriteAssign cells name (← rewriteExpr .value expr)
  | .compoundAssign name op expr => do rewriteCompoundAssign cells name op (← rewriteExpr .value expr)
  | .listLit items => return .listLit (← rewriteExprs items)
  | .mapLit items => return .mapLit (← rewritePairs items)
  | .recordLiteral fields => return .recordLiteral (← rewriteFields fields)
  | .index seq index => return .index (← rewriteExpr position seq) (← rewriteExpr .value index)
  | .indexAssign seq index value => do
      enterContainerWrite cells seq
      return .indexAssign (← rewriteExpr .mutationTarget seq) (← rewriteExpr .value index) (← rewriteExpr .value value)
  | .attr obj name => return .attr (← rewriteExpr position obj) name
  | .fieldAssign obj name value => do
      enterContainerWrite cells obj
      return .fieldAssign (← rewriteExpr .mutationTarget obj) name (← rewriteExpr .value value)
  | .actionStmt kind target payload => do
      let callee ← rewriteVar cells .value (builtinCallPrefix ++ actionBuiltin kind)
      if kind = .memoryGet then return .call callee [.str target]
      else return .call callee (actionArgs kind target (← rewriteOpt payload))
  | .call callee args => return .call (← rewriteExpr .value callee) (← rewriteExprs args)
  | .fnExpr params body returnType =>
      return .fnExpr params (← inScope (params.map Param.name) (inScope [] (rewriteStmts body))) returnType
  -- there is no case for `Match`
  | .matchOn scrutinee arms => return .matchOn scrutinee arms

def rewriteExprs : List Expr → Rewrite (List Expr)
  | [] => return []
  | e :: es => return (← rewriteExpr .value e) :: (← rewriteExprs es)

def rewritePairs : List (Expr × Expr) → Rewrite (List (Expr × Expr))
  | [] => return []
  | (key, value) :: rest => return (← rewriteExpr .value key, ← rewriteExpr .value value) :: (← rewritePairs rest)

def rewriteFields : List (Name × Expr) → Rewrite (List (Name × Expr))
  | [] => return []
  | (key, value) :: rest => return (key, ← rewriteExpr .value value) :: (← rewriteFields rest)

def rewriteParts : List StringPart → Rewrite (List StringPart)
  | [] => return []
  | .literal text :: rest => return .literal text :: (← rewriteParts rest)
  | .interpolation e :: rest => return .interpolation (← rewriteExpr .value e) :: (← rewriteParts rest)

def rewriteOpt : Option Expr → Rewrite (Option Expr)
  | none => return none
  | some e => return some (← rewriteExpr .value e)

def rewriteStmt : Stmt → Rewrite Stmt
  | .block stmts => return .block (← inScope [] (rewriteStmts stmts))
  | .comment text => return .comment text
  | .exprStmt expr => return .exprStmt (← rewriteExpr .value expr)
  | .letDecl name expr typeHint exported => do
      let expr ← rewriteExpr .value expr
      modify (·.define name)
      return .letDecl name expr typeHint exported
  | .destructureLet pattern expr => do
      let expr ← rewriteExpr .value expr
      modify fun s => pattern.names.foldl StateRewriter.define s
      return .destructureLet pattern expr
  | .print expr => return .print (← rewriteExpr .value expr)
  | .ifElse cond thenBranch elseBranch =>
      return .ifElse (← rewriteExpr .value cond) (← inScope [] (rewriteStmts thenBranch)) (← rewriteOptStmt elseBranch)
  | .whileLoop cond body => return .whileLoop (← rewriteExpr .value cond) (← inScope [] (rewriteStmts body))
  | .forLoop init cond inc body => inScope [] do
      return .forLoop (← rewriteOptStmt init) (← rewriteOpt cond) (← rewriteOpt inc) (← inScope [] (rewriteStmts body))
  | .forEach name iterable body =>
      return .forEach name (← rewriteExpr .value iterable) (← inScope [name] (inScope [] (rewriteStmts body)))
  | .returnStmt expr => return .returnStmt (← rewriteOpt expr)
  | .tryCatch tryBlock handler finallyBlock =>
      return .tryCatch (← inScope [] (rewriteStmts tryBlock)) (← rewriteHandler handler) (← rewriteOptBlock finallyBlock)
  | .throw expr => return .throw (← rewriteExpr .value expr)
  | .fnDef name params body returnType exported _ => do
      modify (·.define name)
      -- the node is built anew, without the annotations
      return .fnDef name params (← inScope (params.map Param.name) (inScope [] (rewriteStmts body))) returnType exported []
  -- what has no case of its own is returned as it is, `Yield` among it
  | stmt => return stmt

def rewriteStmts : List Stmt → Rewrite (List Stmt)
  | [] => return []
  | s :: ss => return (← rewriteStmt s) :: (← rewriteStmts ss)

def rewriteOptStmt : Option Stmt → Rewrite (Option Stmt)
  | none => return none
  | some s => return some (← rewriteStmt s)

def rewriteOptBlock : Option (List Stmt) → Rewrite (Option (List Stmt))
  | none => return none
  | some stmts => return some (← inScope [] (rewriteStmts stmts))

def rewriteHandler : Option (Name × List Stmt) → Rewrite (Option (Name × List Stmt))
  | none => return none
  | some (name, stmts) => return some (name, ← inScope [name] (inScope [] (rewriteStmts stmts)))

end

/-! ### Steps -/

/-- The names that are local from the first line of the body of a step. -/
def stepLocals (params : List Name) (step : FlowStep) : List Name :=
  step.deps ++ params ++ step.eachVar.toList ++ if cells.stateNames = [] then [] else [cells.stateVar]

/-- The rewriter is run over the body of a step. -/
def rewriteStepBody (params : List Name) (step : FlowStep) : Except String (Stmt × StateRewriter) :=
  rewriteStmt cells (.block step.body) { scopes := [stepLocals cells params step] }

end Nodus.Frontend

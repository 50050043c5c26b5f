import Nodus.StateRewriter

/-! What the rewriting of a body is meant to do, and when it does. -/

namespace Nodus.Frontend

/-! ### What the body is meant to become -/

/-- The names that a statement declares for the statements after it. -/
def Stmt.declares : Stmt → List Name
  | .letDecl name _ _ _ => [name]
  | .destructureLet pattern _ => pattern.names
  | .fnDef name _ _ _ _ _ => [name]
  | .ifElse _ _ (some s) => s.declares
  | _ => []

section Intended

variable (cells : Cells) (locals : List Name)

/-- A name stands for a cell where neither the body nor the step binds it. -/
def Resolves (bound : List Name) (name : Name) : Prop := name ∈ cells.stateNames ∧ name ∉ bound ∧ name ∉ locals

instance (bound : List Name) (name : Name) : Decidable (Resolves cells locals bound name) := inferInstanceAs (Decidable (_ ∧ _))

/-- What a plain assignment becomes. -/
def intendedAssign (bound : List Name) (name : Name) (value : Expr) : Expr :=
  if Resolves cells locals bound name then .indexAssign (.var cells.stateVar) (.str name) value else .assign name value

/-- What a compound assignment becomes: a contribution to a folded cell. -/
def intendedCompoundAssign (bound : List Name) (name : Name) (op : BinOp) (value : Expr) : Expr :=
  if Resolves cells locals bound name then
    if (cells.foldCells.lookup name).isSome then builtinCall "state_contribute" [.str name, value]
    else .indexAssign (.var cells.stateVar) (.str name) (.bin op (cellAccess cells .value name) value)
  else .compoundAssign name op value

mutual

def intendedExpr (position : Position) (bound : List Name) : Expr → Expr
  | .num raw => .num raw
  | .int raw => .int raw
  | .bool v => .bool v
  | .str v => .str v
  | .nil => .nil
  | .interpolatedString parts => .interpolatedString (intendedParts bound parts)
  | .var name => if Resolves cells locals bound name then cellAccess cells position name else .var name
  | .unary op expr => .unary op (intendedExpr .value bound expr)
  | .bin op a b => .bin op (intendedExpr .value bound a) (intendedExpr .value bound b)
  | .logic op a b => .logic op (intendedExpr .value bound a) (intendedExpr .value bound b)
  | .assign name expr => intendedAssign cells locals bound name (intendedExpr .value bound expr)
  | .compoundAssign name op expr => intendedCompoundAssign cells locals bound name op (intendedExpr .value bound expr)
  | .listLit items => .listLit (intendedExprs bound items)
  | .mapLit items => .mapLit (intendedPairs bound items)
  | .recordLiteral fields => .recordLiteral (intendedFields bound fields)
  | .index seq index => .index (intendedExpr position bound seq) (intendedExpr .value bound index)
  | .indexAssign seq index value =>
      .indexAssign (intendedExpr .mutationTarget bound seq) (intendedExpr .value bound index) (intendedExpr .value bound value)
  | .attr obj name => .attr (intendedExpr position bound obj) name
  | .fieldAssign obj name value =>
      .fieldAssign (intendedExpr .mutationTarget bound obj) name (intendedExpr .value bound value)
  | .actionStmt kind target payload => lowerActionExpr kind target (intendedOpt bound payload)
  | .call callee args => .call (intendedExpr .value bound callee) (intendedExprs bound args)
  | .fnExpr params body returnType => .fnExpr params (intendedStmts ((params.map Param.name).reverse ++ bound) body) returnType
  | .matchOn scrutinee arms => .matchOn (intendedExpr .value bound scrutinee) (intendedArms bound arms)

def intendedExprs (bound : List Name) : List Expr → List Expr
  | [] => []
  | e :: es => intendedExpr .value bound e :: intendedExprs bound es

def intendedPairs (bound : List Name) : List (Expr × Expr) → List (Expr × Expr)
  | [] => []
  | (key, value) :: rest => (intendedExpr .value bound key, intendedExpr .value bound value) :: intendedPairs bound rest

def intendedFields (bound : List Name) : List (Name × Expr) → List (Name × Expr)
  | [] => []
  | (key, value) :: rest => (key, intendedExpr .value bound value) :: intendedFields bound rest

def intendedParts (bound : List Name) : List StringPart → List StringPart
  | [] => []
  | .literal text :: rest => .literal text :: intendedParts bound rest
  | .interpolation e :: rest => .interpolation (intendedExpr .value bound e) :: intendedParts bound rest

def intendedArms (bound : List Name) : List MatchArm → List MatchArm
  | [] => []
  | .mk pattern body :: rest => .mk (intendedOpt bound pattern) (intendedBody bound body) :: intendedArms bound rest

def intendedBody (bound : List Name) : ArmBody → ArmBody
  | .expr e => .expr (intendedExpr .value bound e)
  | .stmt s => .stmt (intendedStmt bound s)

def intendedOpt (bound : List Name) : Option Expr → Option Expr
  | none => none
  | some e => some (intendedExpr .value bound e)

def intendedStmt (bound : List Name) : Stmt → Stmt
  | .letDecl name expr typeHint exported => .letDecl name (intendedExpr .value bound expr) typeHint exported
  | .destructureLet pattern expr => .destructureLet pattern (intendedExpr .value bound expr)
  | .print expr => .print (intendedExpr .value bound expr)
  | .exprStmt expr => .exprStmt (intendedExpr .value bound expr)
  | .block stmts => .block (intendedStmts bound stmts)
  | .ifElse cond thenBranch elseBranch =>
      .ifElse (intendedExpr .value bound cond) (intendedStmts bound thenBranch) (intendedOptStmt bound elseBranch)
  | .whileLoop cond body => .whileLoop (intendedExpr .value bound cond) (intendedStmts bound body)
  | .forLoop init cond inc body =>
      let inner := (init.elim [] Stmt.declares).reverse ++ bound
      .forLoop (intendedOptStmt bound init) (intendedOpt inner cond) (intendedOpt inner inc) (intendedStmts inner body)
  | .forEach name iterable body =>
      .forEach name (intendedExpr .value bound iterable) (intendedStmts (name :: bound) body)
  | .fnDef name params body returnType exported annotations =>
      .fnDef name params (intendedStmts ((params.map Param.name).reverse ++ name :: bound) body) returnType exported
        (intendedAnnotations bound annotations)
  | .returnStmt expr => .returnStmt (intendedOpt bound expr)
  | .yieldStmt expr => .yieldStmt (intendedOpt bound expr)
  | .tryCatch tryBlock handler finallyBlock =>
      .tryCatch (intendedStmts bound tryBlock) (intendedHandler bound handler) (intendedOptBlock bound finallyBlock)
  | .throw expr => .throw (intendedExpr .value bound expr)
  -- a flow that is declared in a body has cells of its own, and is lowered on its own
  | stmt => stmt

def intendedStmts (bound : List Name) : List Stmt → List Stmt
  | [] => []
  | s :: ss => intendedStmt bound s :: intendedStmts (s.declares.reverse ++ bound) ss

def intendedOptStmt (bound : List Name) : Option Stmt → Option Stmt
  | none => none
  | some s => some (intendedStmt bound s)

def intendedOptBlock (bound : List Name) : Option (List Stmt) → Option (List Stmt)
  | none => none
  | some stmts => some (intendedStmts bound stmts)

def intendedHandler (bound : List Name) : Option (Name × List Stmt) → Option (Name × List Stmt)
  | none => none
  | some (name, stmts) => some (name, intendedStmts (name :: bound) stmts)

def intendedAnnotations (bound : List Name) : List Annotation → List Annotation
  | [] => []
  | .mk name none :: rest => .mk name none :: intendedAnnotations bound rest
  | .mk name (some args) :: rest => .mk name (some (intendedFields bound args)) :: intendedAnnotations bound rest

end

/-! ### Where something is to be done -/

/-- A place in a body at which something is to be done. -/
inductive Site where
  /-- A reference to a cell; the body may have bound the variable of the state itself there. -/
  | access (captured : Bool)
  /-- An action; its builtin may have the name of a cell. -/
  | action (reserved : Bool)
  /-- A function with annotations. -/
  | annotated
  /-- A `match` or `yield` with a reference to a cell or an action in it. -/
  | unseen
  deriving DecidableEq

/-- Nothing is to be done: a function may have annotations. -/
def Idle (sites : List Site) : Prop := ∀ site ∈ sites, site = .annotated

instance (sites : List Site) : Decidable (Idle sites) := inferInstanceAs (Decidable (∀ site ∈ sites, _))

/-- The places of a `match` or `yield` as the rewriter sees them. -/
def hidden (sites : List Site) : List Site := if Idle sites then [] else [.unseen]

def accessSite (bound : List Name) (name : Name) : List Site :=
  if Resolves cells locals bound name then [.access (cells.stateVar ∈ bound)] else []

mutual

def exprSites (bound : List Name) : Expr → List Site
  | .num _ | .int _ | .bool _ | .str _ | .nil => []
  | .interpolatedString parts => partsSites bound parts
  | .var name => accessSite cells locals bound name
  | .unary _ expr => exprSites bound expr
  | .bin _ a b | .logic _ a b => exprSites bound a ++ exprSites bound b
  | .assign name expr | .compoundAssign name _ expr => exprSites bound expr ++ accessSite cells locals bound name
  | .listLit items => exprsSites bound items
  | .mapLit items => pairsSites bound items
  | .recordLiteral fields => fieldsSites bound fields
  | .index seq index => exprSites bound seq ++ exprSites bound index
  | .indexAssign seq index value => exprSites bound seq ++ (exprSites bound index ++ exprSites bound value)
  | .attr obj _ => exprSites bound obj
  | .fieldAssign obj _ value => exprSites bound obj ++ exprSites bound value
  | .actionStmt kind _ payload =>
      .action (Resolves cells locals bound (builtinCallPrefix ++ actionBuiltin kind)) ::
        if kind = .memoryGet then [] else optSites bound payload
  | .call callee args => exprSites bound callee ++ exprsSites bound args
  | .fnExpr params body _ => stmtsSites ((params.map Param.name).reverse ++ bound) body
  | .matchOn scrutinee arms => hidden (exprSites bound scrutinee ++ armsSites bound arms)

def exprsSites (bound : List Name) : List Expr → List Site
  | [] => []
  | e :: es => exprSites bound e ++ exprsSites bound es

def pairsSites (bound : List Name) : List (Expr × Expr) → List Site
  | [] => []
  | (key, value) :: rest => exprSites bound key ++ (exprSites bound value ++ pairsSites bound rest)

def fieldsSites (bound : List Name) : List (Name × Expr) → List Site
  | [] => []
  | (_, value) :: rest => exprSites bound value ++ fieldsSites bound rest

def partsSites (bound : List Name) : List StringPart → List Site
  | [] => []
  | .literal _ :: rest => partsSites bound rest
  | .interpolation e :: rest => exprSites bound e ++ partsSites bound rest

def armsSites (bound : List Name) : List MatchArm → List Site
  | [] => []
  | .mk pattern body :: rest => optSites bound pattern ++ (bodySites bound body ++ armsSites bound rest)

def bodySites (bound : List Name) : ArmBody → List Site
  | .expr e => exprSites bound e
  | .stmt s => stmtSites bound s

def optSites (bound : List Name) : Option Expr → List Site
  | none => []
  | some e => exprSites bound e

def stmtSites (bound : List Name) : Stmt → List Site
  | .letDecl _ expr _ _ | .destructureLet _ expr | .print expr | .exprStmt expr | .throw expr => exprSites bound expr
  | .block stmts => stmtsSites bound stmts
  | .ifElse cond thenBranch elseBranch =>
      exprSites bound cond ++ (stmtsSites bound thenBranch ++ optStmtSites bound elseBranch)
  | .whileLoop cond body => exprSites bound cond ++ stmtsSites bound body
  | .forLoop init cond inc body =>
      let inner := (init.elim [] Stmt.declares).reverse ++ bound
      optStmtSites bound init ++ (optSites inner cond ++ (optSites inner inc ++ stmtsSites inner body))
  | .forEach name iterable body => exprSites bound iterable ++ stmtsSites (name :: bound) body
  | .fnDef name params body _ _ annotations =>
      stmtsSites ((params.map Param.name).reverse ++ name :: bound) body ++ annotationsSites bound annotations
  | .returnStmt expr => optSites bound expr
  | .yieldStmt expr => hidden (optSites bound expr)
  | .tryCatch tryBlock handler finallyBlock =>
      stmtsSites bound tryBlock ++ (handlerSites bound handler ++ optBlockSites bound finallyBlock)
  | _ => []

def stmtsSites (bound : List Name) : List Stmt → List Site
  | [] => []
  | s :: ss => stmtSites bound s ++ stmtsSites (s.declares.reverse ++ bound) ss

def optStmtSites (bound : List Name) : Option Stmt → List Site
  | none => []
  | some s => stmtSites bound s

def optBlockSites (bound : List Name) : Option (List Stmt) → List Site
  | none => []
  | some stmts => stmtsSites bound stmts

def handlerSites (bound : List Name) : Option (Name × List Stmt) → List Site
  | none => []
  | some (name, stmts) => stmtsSites (name :: bound) stmts

def annotationsSites (bound : List Name) : List Annotation → List Site
  | [] => []
  | .mk _ none :: rest => .annotated :: annotationsSites bound rest
  | .mk _ (some args) :: rest => .annotated :: (fieldsSites bound args ++ annotationsSites bound rest)

end

@[simp] theorem idle_nil : Idle [] := fun _ h => nomatch h

@[simp] theorem idle_cons {site : Site} {sites : List Site} : Idle (site :: sites) ↔ site = .annotated ∧ Idle sites :=
  List.forall_mem_cons

@[simp] theorem idle_append {sites sites' : List Site} : Idle (sites ++ sites') ↔ Idle sites ∧ Idle sites' :=
  List.forall_mem_append

@[simp] theorem idle_hidden {sites : List Site} : Idle (hidden sites) ↔ Idle sites := by
  unfold hidden
  split
  · next h => exact iff_of_true idle_nil h
  · next h => exact iff_of_false (fun hall => Site.noConfusion (hall .unseen List.mem_cons_self)) h

@[simp] theorem idle_accessSite {bound : List Name} {name : Name} :
    Idle (accessSite cells locals bound name) ↔ ¬ Resolves cells locals bound name := by
  unfold accessSite
  split
  · next h => exact iff_of_false (fun hall => Site.noConfusion (hall _ List.mem_cons_self)) (not_not_intro h)
  · next h => exact iff_of_true idle_nil h

theorem cellAccess_ne_var (position : Position) (name name' : Name) : cellAccess cells position name ≠ .var name' := by
  cases position
  · exact Expr.noConfusion
  · exact Expr.noConfusion

/-! ### Expressions in which nothing is to be done -/

variable {cells locals}

mutual

theorem intendedExpr_eq_iff (position : Position) (bound : List Name) : ∀ e : Expr,
    intendedExpr cells locals position bound e = e ↔ Idle (exprSites cells locals bound e)
  | .num _ | .int _ | .bool _ | .str _ | .nil => iff_of_true rfl idle_nil
  | .interpolatedString parts => by
      simp [intendedExpr, exprSites, intendedParts_eq_iff bound parts]
  | .var name => by
      simp only [intendedExpr, exprSites, idle_accessSite]
      split
      · next h => exact ⟨fun heq => absurd heq (cellAccess_ne_var cells position name name), fun hnot => absurd h hnot⟩
      · next h => exact ⟨fun _ => h, fun _ => rfl⟩
  | .unary _ expr => by simp [intendedExpr, exprSites, intendedExpr_eq_iff .value bound expr]
  | .bin _ a b => by
      simp [intendedExpr, exprSites, intendedExpr_eq_iff .value bound a, intendedExpr_eq_iff .value bound b]
  | .logic _ a b => by
      simp [intendedExpr, exprSites, intendedExpr_eq_iff .value bound a, intendedExpr_eq_iff .value bound b]
  | .assign name expr => by
      simp only [intendedExpr, exprSites, idle_append, idle_accessSite, intendedAssign]
      split
      · next h => exact ⟨fun heq => Expr.noConfusion heq, fun hboth => absurd h hboth.2⟩
      · next h => simp [intendedExpr_eq_iff .value bound expr, h]
  | .compoundAssign name op expr => by
      simp only [intendedExpr, exprSites, idle_append, idle_accessSite, intendedCompoundAssign]
      split
      · next h =>
          refine ⟨fun heq => ?_, fun hboth => absurd h hboth.2⟩
          split at heq
          · exact Expr.noConfusion heq
          · exact Expr.noConfusion heq
      · next h => simp [intendedExpr_eq_iff .value bound expr, h]
  | .listLit items => by simp [intendedExpr, exprSites, intendedExprs_eq_iff bound items]
  | .mapLit items => by simp [intendedExpr, exprSites, intendedPairs_eq_iff bound items]
  | .recordLiteral fields => by simp [intendedExpr, exprSites, intendedFields_eq_iff bound fields]
  | .index seq index => by
      simp [intendedExpr, exprSites, intendedExpr_eq_iff position bound seq, intendedExpr_eq_iff .value bound index]
  | .indexAssign seq index value => by
      simp [intendedExpr, exprSites, intendedExpr_eq_iff .mutationTarget bound seq, intendedExpr_eq_iff .value bound index,
        intendedExpr_eq_iff .value bound value]
  | .attr obj _ => by simp [intendedExpr, exprSites, intendedExpr_eq_iff position bound obj]
  | .fieldAssign obj _ value => by
      simp [intendedExpr, exprSites, intendedExpr_eq_iff .mutationTarget bound obj, intendedExpr_eq_iff .value bound value]
  | .actionStmt kind target payload => by simp [intendedExpr, exprSites, lowerActionExpr, builtinCall]
  | .call callee args => by
      simp [intendedExpr, exprSites, intendedExpr_eq_iff .value bound callee, intendedExprs_eq_iff bound args]
  | .fnExpr params body _ => by simp [intendedExpr, exprSites, intendedStmts_eq_iff _ body]
  | .matchOn scrutinee arms => by
      simp [intendedExpr, exprSites, intendedExpr_eq_iff .value bound scrutinee, intendedArms_eq_iff bound arms]

theorem intendedExprs_eq_iff (bound : List Name) : ∀ es : List Expr,
    intendedExprs cells locals bound es = es ↔ Idle (exprsSites cells locals bound es)
  | [] => iff_of_true rfl idle_nil
  | e :: es => by simp [intendedExprs, exprsSites, intendedExpr_eq_iff .value bound e, intendedExprs_eq_iff bound es]

theorem intendedPairs_eq_iff (bound : List Name) : ∀ items : List (Expr × Expr),
    intendedPairs cells locals bound items = items ↔ Idle (pairsSites cells locals bound items)
  | [] => iff_of_true rfl idle_nil
  | (key, value) :: rest => by
      simp [intendedPairs, pairsSites, intendedExpr_eq_iff .value bound key, intendedExpr_eq_iff .value bound value,
        intendedPairs_eq_iff bound rest, and_assoc]

theorem intendedFields_eq_iff (bound : List Name) : ∀ fields : List (Name × Expr),
    intendedFields cells locals bound fields = fields ↔ Idle (fieldsSites cells locals bound fields)
  | [] => iff_of_true rfl idle_nil
  | (_, value) :: rest => by
      simp [intendedFields, fieldsSites, intendedExpr_eq_iff .value bound value, intendedFields_eq_iff bound rest]

theorem intendedParts_eq_iff (bound : List Name) : ∀ parts : List StringPart,
    intendedParts cells locals bound parts = parts ↔ Idle (partsSites cells locals bound parts)
  | [] => iff_of_true rfl idle_nil
  | .literal _ :: rest => by simp [intendedParts, partsSites, intendedParts_eq_iff bound rest]
  | .interpolation e :: rest => by
      simp [intendedParts, partsSites, intendedExpr_eq_iff .value bound e, intendedParts_eq_iff bound rest]

theorem intendedArms_eq_iff (bound : List Name) : ∀ arms : List MatchArm,
    intendedArms cells locals bound arms = arms ↔ Idle (armsSites cells locals bound arms)
  | [] => iff_of_true rfl idle_nil
  | .mk pattern body :: rest => by
      simp [intendedArms, armsSites, intendedOpt_eq_iff bound pattern, intendedBody_eq_iff bound body,
        intendedArms_eq_iff bound rest, and_assoc]

theorem intendedBody_eq_iff (bound : List Name) : ∀ body : ArmBody,
    intendedBody cells locals bound body = body ↔ Idle (bodySites cells locals bound body)
  | .expr e => by simp [intendedBody, bodySites, intendedExpr_eq_iff .value bound e]
  | .stmt s => by simp [intendedBody, bodySites, intendedStmt_eq_iff bound s]

theorem intendedOpt_eq_iff (bound : List Name) : ∀ e : Option Expr,
    intendedOpt cells locals bound e = e ↔ Idle (optSites cells locals bound e)
  | none => iff_of_true rfl idle_nil
  | some e => by simp [intendedOpt, optSites, intendedExpr_eq_iff .value bound e]

theorem intendedStmt_eq_iff (bound : List Name) : ∀ s : Stmt,
    intendedStmt cells locals bound s = s ↔ Idle (stmtSites cells locals bound s)
  | .letDecl _ expr _ _ => by simp [intendedStmt, stmtSites, intendedExpr_eq_iff .value bound expr]
  | .destructureLet _ expr => by simp [intendedStmt, stmtSites, intendedExpr_eq_iff .value bound expr]
  | .print expr => by simp [intendedStmt, stmtSites, intendedExpr_eq_iff .value bound expr]
  | .exprStmt expr => by simp [intendedStmt, stmtSites, intendedExpr_eq_iff .value bound expr]
  | .block stmts => by simp [intendedStmt, stmtSites, intendedStmts_eq_iff bound stmts]
  | .ifElse cond thenBranch elseBranch => by
      simp [intendedStmt, stmtSites, intendedExpr_eq_iff .value bound cond, intendedStmts_eq_iff bound thenBranch,
        intendedOptStmt_eq_iff bound elseBranch]
  | .whileLoop cond body => by
      simp [intendedStmt, stmtSites, intendedExpr_eq_iff .value bound cond, intendedStmts_eq_iff bound body]
  | .forLoop init cond inc body => by
      simp [intendedStmt, stmtSites, intendedOptStmt_eq_iff bound init, intendedOpt_eq_iff _ cond, intendedOpt_eq_iff _ inc,
        intendedStmts_eq_iff _ body]
  | .forEach name iterable body => by
      simp [intendedStmt, stmtSites, intendedExpr_eq_iff .value bound iterable, intendedStmts_eq_iff _ body]
  | .fnDef _ _ body _ _ annotations => by
      simp [intendedStmt, stmtSites, intendedStmts_eq_iff _ body, intendedAnnotations_eq_iff bound annotations]
  | .returnStmt expr => by simp [intendedStmt, stmtSites, intendedOpt_eq_iff bound expr]
  | .yieldStmt expr => by simp [intendedStmt, stmtSites, intendedOpt_eq_iff bound expr]
  | .tryCatch tryBlock handler finallyBlock => by
      simp [intendedStmt, stmtSites, intendedStmts_eq_iff bound tryBlock, intendedHandler_eq_iff bound handler,
        intendedOptBlock_eq_iff bound finallyBlock]
  | .throw expr => by simp [intendedStmt, stmtSites, intendedExpr_eq_iff .value bound expr]
  | .comment _ | .breakLoop | .continueLoop | .externDecl _ _ _ | .importStmt _ _ _ | .exportList _ | .exportFrom _ _
  | .checkpoint _ | .flowDef _ _ _ _ _ | .goalPursuit _ _ _ _ _ _ _ => iff_of_true rfl idle_nil

theorem intendedStmts_eq_iff (bound : List Name) : ∀ stmts : List Stmt,
    intendedStmts cells locals bound stmts = stmts ↔ Idle (stmtsSites cells locals bound stmts)
  | [] => iff_of_true rfl idle_nil
  | s :: ss => by simp [intendedStmts, stmtsSites, intendedStmt_eq_iff bound s, intendedStmts_eq_iff _ ss]

theorem intendedOptStmt_eq_iff (bound : List Name) : ∀ s : Option Stmt,
    intendedOptStmt cells locals bound s = s ↔ Idle (optStmtSites cells locals bound s)
  | none => iff_of_true rfl idle_nil
  | some s => by simp [intendedOptStmt, optStmtSites, intendedStmt_eq_iff bound s]

theorem intendedOptBlock_eq_iff (bound : List Name) : ∀ stmts : Option (List Stmt),
    intendedOptBlock cells locals bound stmts = stmts ↔ Idle (optBlockSites cells locals bound stmts)
  | none => iff_of_true rfl idle_nil
  | some stmts => by simp [intendedOptBlock, optBlockSites, intendedStmts_eq_iff bound stmts]

theorem intendedHandler_eq_iff (bound : List Name) : ∀ handler : Option (Name × List Stmt),
    intendedHandler cells locals bound handler = handler ↔
      Idle (handlerSites cells locals bound handler)
  | none => iff_of_true rfl idle_nil
  | some (_, stmts) => by simp [intendedHandler, handlerSites, intendedStmts_eq_iff _ stmts]

theorem intendedAnnotations_eq_iff (bound : List Name) : ∀ annotations : List Annotation,
    intendedAnnotations cells locals bound annotations = annotations ↔
      Idle (annotationsSites cells locals bound annotations)
  | [] => iff_of_true rfl idle_nil
  | .mk _ none :: rest => by simp [intendedAnnotations, annotationsSites, intendedAnnotations_eq_iff bound rest]
  | .mk _ (some args) :: rest => by
      simp [intendedAnnotations, annotationsSites, intendedFields_eq_iff bound args, intendedAnnotations_eq_iff bound rest]

end

end Intended

/-! ### What a rewriting yields -/

/-- The scopes when names have been added to the innermost one. -/
def declared (names : List Name) (scopes : List (List Name)) : List (List Name) :=
  names.foldl (fun scopes name => (name :: scopes.headD []) :: scopes.tail) scopes

theorem foldl_define_scopes (names : List Name) (s : StateRewriter) :
    (names.foldl StateRewriter.define s).scopes = declared names s.scopes := by
  induction names generalizing s with
  | nil => rfl
  | cons name names ih => exact ih (s.define name)

theorem declared_append (names names' : List Name) (scopes : List (List Name)) :
    declared (names ++ names') scopes = declared names' (declared names scopes) := List.foldl_append

theorem flatten_declared (names : List Name) (scopes : List (List Name)) :
    (declared names scopes).flatten = names.reverse ++ scopes.flatten := by
  induction names generalizing scopes with
  | nil => rfl
  | cons name names ih =>
      have hpush : ((name :: scopes.headD []) :: scopes.tail).flatten = name :: scopes.flatten := by
        cases scopes <;> rfl
      calc (declared (name :: names) scopes).flatten
          = names.reverse ++ ((name :: scopes.headD []) :: scopes.tail).flatten := ih _
        _ = (name :: names).reverse ++ scopes.flatten := by
            rw [hpush, List.reverse_cons, List.append_assoc, List.singleton_append]

theorem tail_declared (names : List Name) (scopes : List (List Name)) : (declared names scopes).tail = scopes.tail := by
  induction names generalizing scopes with
  | nil => rfl
  | cons name names ih => exact ih _

/-- Where the names `bound` are bound in the body, a rewriting that succeeds adds `names` to the innermost scope and returns
a result with `P`. -/
def Yields {α : Type} (locals bound names : List Name) (m : Rewrite α) (P : α → Prop) : Prop :=
  ∀ s r s', s.scopes.flatten = bound ++ locals → m s = .ok (r, s') → s'.scopes = declared names s.scopes ∧ P r

section Rules

variable {α β : Type} {locals bound names names' : List Name} {m : Rewrite α} {f : α → Rewrite β} {P : α → Prop} {Q : β → Prop}

theorem Yields.pure {a : α} (h : P a) : Yields locals bound [] (Pure.pure a) P := by
  intro s r s' _ hrun
  cases hrun
  exact ⟨rfl, h⟩

theorem Yields.bind (hm : Yields locals bound names m P)
    (hf : ∀ a, P a → Yields locals (names.reverse ++ bound) names' (f a) Q) :
    Yields locals bound (names ++ names') (m >>= f) Q := by
  intro s r s' hs hrun
  have hrun : (m s >>= fun p => f p.1 p.2) = .ok (r, s') := hrun
  cases hfirst : m s with
  | error e =>
      rw [hfirst] at hrun
      cases hrun
  | ok p =>
      rw [hfirst] at hrun
      obtain ⟨hscopes, hp⟩ := hm s p.1 p.2 hs hfirst
      have hinner : p.2.scopes.flatten = (names.reverse ++ bound) ++ locals := by
        rw [hscopes, flatten_declared, hs, List.append_assoc]
      obtain ⟨hscopes', hq⟩ := hf p.1 hp p.2 r s' hinner hrun
      exact ⟨by rw [hscopes', hscopes, declared_append], hq⟩

theorem Yields.seq (hm : Yields locals bound [] m P) (hf : ∀ a, P a → Yields locals bound names' (f a) Q) :
    Yields locals bound names' (m >>= f) Q := hm.bind hf

theorem Yields.map {g : α → β} (hm : Yields locals bound names m P) (hg : ∀ a, P a → Q (g a)) :
    Yields locals bound names (do return g (← m)) Q := by
  have hboth := hm.bind fun a ha => (Yields.pure (hg a ha) : Yields locals (names.reverse ++ bound) [] (Pure.pure (g a)) Q)
  rwa [List.append_nil] at hboth

theorem Yields.inScope {body : Rewrite α} (h : Yields locals (names.reverse ++ bound) names' body P) :
    Yields locals bound [] (inScope names body) P := by
  intro s r s' hs hrun
  have hrun : (body (names.foldl StateRewriter.define s.enterScope) >>= fun p => .ok (p.1, p.2.exitScope)) = .ok (r, s') := hrun
  have hflat : (names.foldl StateRewriter.define s.enterScope).scopes.flatten = (names.reverse ++ bound) ++ locals := by
    rw [foldl_define_scopes, flatten_declared, List.append_assoc, ← hs]
    rfl
  cases hbody : body (names.foldl StateRewriter.define s.enterScope) with
  | error e =>
      rw [hbody] at hrun
      cases hrun
  | ok p =>
      rw [hbody] at hrun
      cases hrun
      obtain ⟨hscopes, hp⟩ := h _ p.1 p.2 hflat hbody
      refine ⟨?_, hp⟩
      show p.2.scopes.tail = s.scopes
      rw [hscopes, tail_declared, foldl_define_scopes, tail_declared]
      rfl

theorem Yields.inBlock {body : Rewrite α} (h : Yields locals bound names' body P) :
    Yields locals bound [] (Frontend.inScope [] body) P := Yields.inScope h

theorem yields_define (declares : List Name) :
    Yields locals bound declares (modify fun s => declares.foldl StateRewriter.define s) fun _ => True := by
  intro s r s' _ hrun
  cases hrun
  exact ⟨foldl_define_scopes declares s, trivial⟩

end Rules

/-! ### The rewriter does what it is meant to where it sees something to do -/

/-- What is to be done at a place is done. -/
def Site.Handled : Site → Prop
  | .access _ => True
  | .action reserved => reserved = false
  | .annotated => False
  | .unseen => False

def Handled (sites : List Site) : Prop := ∀ site ∈ sites, site.Handled

@[simp] theorem handled_nil : Handled [] := fun _ h => nomatch h

@[simp] theorem handled_cons {site : Site} {sites : List Site} : Handled (site :: sites) ↔ site.Handled ∧ Handled sites :=
  List.forall_mem_cons

@[simp] theorem handled_append {sites sites' : List Site} : Handled (sites ++ sites') ↔ Handled sites ∧ Handled sites' :=
  List.forall_mem_append

@[simp] theorem handled_hidden {sites : List Site} : Handled (hidden sites) ↔ Idle sites := by
  unfold hidden
  split
  · next h => exact iff_of_true handled_nil h
  · next h => exact iff_of_false (fun hall => hall .unseen List.mem_cons_self) h

@[simp] theorem handled_accessSite {cells : Cells} {locals bound : List Name} {name : Name} :
    Handled (accessSite cells locals bound name) := by
  unfold accessSite
  split
  · exact handled_cons.mpr ⟨trivial, handled_nil⟩
  · exact handled_nil

section Rewriting

theorem noteRead_scopes (cells : Cells) (s : StateRewriter) (name : Name) : (s.noteRead cells name).scopes = s.scopes := by
  unfold StateRewriter.noteRead
  split <;> rfl

theorem noteWrite_scopes (cells : Cells) (s : StateRewriter) (name : Name) : (s.noteWrite cells name).scopes = s.scopes := by
  unfold StateRewriter.noteWrite
  split <;> rfl

variable {cells : Cells} {locals : List Name}

theorem isLocal_iff {s : StateRewriter} {name : Name} : s.isLocal name = true ↔ name ∈ s.scopes.flatten := by
  simp [StateRewriter.isLocal]

theorem isCell_iff {s : StateRewriter} {bound : List Name} (hs : s.scopes.flatten = bound ++ locals) (name : Name) :
    s.isCell cells name = true ↔ Resolves cells locals bound name := by
  have hlocal : s.isLocal name = true ↔ name ∈ bound ∨ name ∈ locals := by
    rw [isLocal_iff, hs, List.mem_append]
  unfold StateRewriter.isCell Resolves
  rw [Bool.and_eq_true, decide_eq_true_iff, Bool.not_eq_true', Bool.eq_false_iff, ne_eq, hlocal, not_or]

theorem rewriteVar_yields (position : Position) (bound : List Name) (name : Name) :
    Yields locals bound [] (rewriteVar cells position name) fun e =>
      e = intendedExpr cells locals position bound (.var name) := by
  intro s r s' hs hrun
  have hcell : s.isCell cells name = true ↔ Resolves cells locals bound name := isCell_iff hs name
  unfold intendedExpr
  have hrun : (if s.isCell cells name then do
      if position = .value then set (s.noteRead cells name)
      return cellAccess cells position name
    else return .var name : Rewrite Expr) s = .ok (r, s') := hrun
  by_cases h : Resolves cells locals bound name
  · rw [if_pos (hcell.mpr h)] at hrun
    rw [if_pos h]
    cases position with
    | value =>
        have hrun : Except.ok (cellAccess cells .value name, s.noteRead cells name) = Except.ok (r, s') := hrun
        cases hrun
        exact ⟨noteRead_scopes cells s name, rfl⟩
    | mutationTarget =>
        have hrun : Except.ok (cellAccess cells .mutationTarget name, s) = Except.ok (r, s') := hrun
        cases hrun
        exact ⟨rfl, rfl⟩
  · rw [if_neg (fun hc => h (hcell.mp hc))] at hrun
    rw [if_neg h]
    cases hrun
    exact ⟨rfl, rfl⟩

theorem rewriteAssign_yields (bound : List Name) (name : Name) (value : Expr) :
    Yields locals bound [] (rewriteAssign cells name value) (· = intendedAssign cells locals bound name value) := by
  intro s r s' hs hrun
  have hcell : s.isCell cells name = true ↔ Resolves cells locals bound name := isCell_iff hs name
  unfold intendedAssign
  have hrun : (if s.isCell cells name then
      if s.isFold cells name then throw _
      else do
        set (s.noteWrite cells name)
        return .indexAssign (.var cells.stateVar) (.str name) value
    else return .assign name value : Rewrite Expr) s = .ok (r, s') := hrun
  by_cases h : Resolves cells locals bound name
  · rw [if_pos (hcell.mpr h)] at hrun
    rw [if_pos h]
    split at hrun
    · cases hrun
    · cases hrun
      exact ⟨noteWrite_scopes cells s name, rfl⟩
  · rw [if_neg (fun hc => h (hcell.mp hc))] at hrun
    rw [if_neg h]
    cases hrun
    exact ⟨rfl, rfl⟩

theorem rewriteCompoundAssign_yields (bound : List Name) (name : Name) (op : BinOp) (value : Expr) :
    Yields locals bound [] (rewriteCompoundAssign cells name op value)
      (· = intendedCompoundAssign cells locals bound name op value) := by
  intro s r s' hs hrun
  have hcell : s.isCell cells name = true ↔ Resolves cells locals bound name := isCell_iff hs name
  unfold intendedCompoundAssign
  have hrun : (if s.isCell cells name then
      if s.isFold cells name then
        if op ≠ .add then throw _
        else do
          set { s with cellWrites := name :: s.cellWrites }
          return builtinCall "state_contribute" [.str name, value]
      else do
        set ((s.noteWrite cells name).noteRead cells name)
        return .indexAssign (.var cells.stateVar) (.str name) (.bin op (cellAccess cells .value name) value)
    else return .compoundAssign name op value : Rewrite Expr) s = .ok (r, s') := hrun
  by_cases h : Resolves cells locals bound name
  · have hlocal : s.isLocal name = false := by
      simpa using (Bool.and_eq_true_iff.mp (hcell.mpr h)).2
    have hfold : s.isFold cells name = (cells.foldCells.lookup name).isSome := by
      unfold StateRewriter.isFold
      rw [hlocal, Bool.not_false, Bool.and_true]
    rw [if_pos (hcell.mpr h), hfold] at hrun
    rw [if_pos h]
    split at hrun
    · next hsome =>
        rw [if_pos hsome]
        split at hrun
        · cases hrun
        · cases hrun
          exact ⟨rfl, rfl⟩
    · next hsome =>
        rw [if_neg hsome]
        cases hrun
        exact ⟨(noteRead_scopes cells _ name).trans (noteWrite_scopes cells s name), rfl⟩
  · rw [if_neg (fun hc => h (hcell.mp hc))] at hrun
    rw [if_neg h]
    cases hrun
    exact ⟨rfl, rfl⟩

theorem enterContainerWrite_yields (bound : List Name) (target : Expr) :
    Yields locals bound [] (enterContainerWrite cells target) fun _ => True := by
  intro s r s' hs hrun
  unfold enterContainerWrite at hrun
  cases hroot : rootVar target with
  | none =>
      rw [hroot] at hrun
      cases hrun
      exact ⟨rfl, trivial⟩
  | some name =>
      rw [hroot] at hrun
      have hrun : (if s.isCell cells name && s.isFold cells name then throw _ else set (s.noteWrite cells name) : Rewrite Unit) s =
          .ok (r, s') := hrun
      split at hrun
      · cases hrun
      · cases hrun
        exact ⟨noteWrite_scopes cells s name, trivial⟩

theorem intendedAssign_eq {bound : List Name} {name : Name} {value value' : Expr} :
    intendedAssign cells locals bound name value = intendedAssign cells locals bound name value' ↔ value = value' := by
  unfold intendedAssign
  split <;> simp

theorem intendedCompoundAssign_eq {bound : List Name} {name : Name} {op : BinOp} {value value' : Expr} :
    intendedCompoundAssign cells locals bound name op value = intendedCompoundAssign cells locals bound name op value' ↔
      value = value' := by
  unfold intendedCompoundAssign
  split
  · split <;> simp [builtinCall]
  · simp

theorem callee_iff {bound : List Name} {name : Name} {callee : Expr}
    (h : callee = intendedExpr cells locals .value bound (.var name)) :
    callee = .var name ↔ ¬ Resolves cells locals bound name := by
  rw [h, intendedExpr_eq_iff, exprSites, idle_accessSite]

mutual

theorem rewriteExpr_yields (position : Position) (bound : List Name) : ∀ e : Expr,
    Yields locals bound [] (rewriteExpr cells position e) fun r =>
      r = intendedExpr cells locals position bound e ↔ Handled (exprSites cells locals bound e)
  | .num _ | .int _ | .bool _ | .str _ | .nil => .pure (iff_of_true rfl handled_nil)
  | .interpolatedString parts => (rewriteParts_yields bound parts).seq fun parts' hparts =>
      .pure (by simp [intendedExpr, exprSites, hparts])
  | .var name => by
      intro s r s' hs hrun
      obtain ⟨hscopes, hr⟩ := rewriteVar_yields position bound name s r s' hs hrun
      exact ⟨hscopes, iff_of_true hr handled_accessSite⟩
  | .unary _ expr => (rewriteExpr_yields .value bound expr).seq fun expr' hexpr =>
      .pure (by simp [intendedExpr, exprSites, hexpr])
  | .bin _ a b => (rewriteExpr_yields .value bound a).seq fun a' ha => (rewriteExpr_yields .value bound b).seq fun b' hb =>
      .pure (by simp [intendedExpr, exprSites, ha, hb])
  | .logic _ a b => (rewriteExpr_yields .value bound a).seq fun a' ha => (rewriteExpr_yields .value bound b).map fun b' hb => by
      simp [intendedExpr, exprSites, ha, hb]
  | .assign name expr => (rewriteExpr_yields .value bound expr).seq fun expr' hexpr => by
      intro s r s' hs hrun
      obtain ⟨hscopes, rfl⟩ := rewriteAssign_yields bound name expr' s r s' hs hrun
      refine ⟨hscopes, ?_⟩
      simp [intendedExpr, exprSites, intendedAssign_eq, hexpr]
  | .compoundAssign name op expr => (rewriteExpr_yields .value bound expr).seq fun expr' hexpr => by
      intro s r s' hs hrun
      obtain ⟨hscopes, rfl⟩ := rewriteCompoundAssign_yields bound name op expr' s r s' hs hrun
      refine ⟨hscopes, ?_⟩
      simp [intendedExpr, exprSites, intendedCompoundAssign_eq, hexpr]
  | .listLit items => (rewriteExprs_yields bound items).map fun items' hitems => by
      simp [intendedExpr, exprSites, hitems]
  | .mapLit items => (rewritePairs_yields bound items).map fun items' hitems => by
      simp [intendedExpr, exprSites, hitems]
  | .recordLiteral fields => (rewriteFields_yields bound fields).map fun fields' hfields => by
      simp [intendedExpr, exprSites, hfields]
  | .index seq index => (rewriteExpr_yields position bound seq).seq fun seq' hseq =>
      (rewriteExpr_yields .value bound index).map fun index' hindex => by
        simp [intendedExpr, exprSites, hseq, hindex]
  | .indexAssign seq index value => (enterContainerWrite_yields bound seq).seq fun _ _ =>
      (rewriteExpr_yields .mutationTarget bound seq).seq fun seq' hseq =>
        (rewriteExpr_yields .value bound index).seq fun index' hindex =>
          (rewriteExpr_yields .value bound value).map fun value' hvalue => by
            simp [intendedExpr, exprSites, hseq, hindex, hvalue]
  | .attr obj _ => (rewriteExpr_yields position bound obj).map fun obj' hobj => by
      simp [intendedExpr, exprSites, hobj]
  | .fieldAssign obj _ value => (enterContainerWrite_yields bound obj).seq fun _ _ =>
      (rewriteExpr_yields .mutationTarget bound obj).seq fun obj' hobj =>
        (rewriteExpr_yields .value bound value).map fun value' hvalue => by
          simp [intendedExpr, exprSites, hobj, hvalue]
  | .actionStmt kind target none => (rewriteVar_yields .value bound (builtinCallPrefix ++ actionBuiltin kind)).seq
      fun callee hcallee => by
        have hcallee := callee_iff hcallee
        cases kind <;> exact .pure (by simp [intendedExpr, exprSites, lowerActionExpr, builtinCall, actionArgs, intendedOpt,
          optSites, Site.Handled, hcallee])
  | .actionStmt kind target (some payload) => (rewriteVar_yields .value bound (builtinCallPrefix ++ actionBuiltin kind)).seq
      fun callee hcallee => by
        have hcallee := callee_iff hcallee
        have hpayload : Yields locals bound [] (rewriteOpt cells (some payload)) fun r => ∃ payload', r = some payload' ∧
            (payload' = intendedExpr cells locals .value bound payload ↔ Handled (exprSites cells locals bound payload)) :=
          (rewriteExpr_yields .value bound payload).map fun payload' h => ⟨payload', rfl, h⟩
        cases kind with
        | memoryGet => exact .pure (by simp [intendedExpr, exprSites, lowerActionExpr, builtinCall, actionArgs, Site.Handled, hcallee])
        | _ =>
            refine hpayload.map fun r hr => ?_
            obtain ⟨payload', rfl, h⟩ := hr
            simp [intendedExpr, exprSites, lowerActionExpr, builtinCall, actionArgs, intendedOpt, optSites, Site.Handled, hcallee, h]
  | .call callee args => (rewriteExpr_yields .value bound callee).seq fun callee' hcallee =>
      (rewriteExprs_yields bound args).map fun args' hargs => by
        simp [intendedExpr, exprSites, hcallee, hargs]
  | .fnExpr params body _ => (Yields.inScope (rewriteStmts_yields _ body).inBlock).map fun body' hbody => by
      simp [intendedExpr, exprSites, hbody]
  | .matchOn scrutinee arms => .pure <| by
      rw [eq_comm, intendedExpr_eq_iff, exprSites, handled_hidden, idle_hidden]

theorem rewriteExprs_yields (bound : List Name) : ∀ es : List Expr,
    Yields locals bound [] (rewriteExprs cells es) fun r =>
      r = intendedExprs cells locals bound es ↔ Handled (exprsSites cells locals bound es)
  | [] => .pure (iff_of_true rfl handled_nil)
  | e :: es => (rewriteExpr_yields .value bound e).seq fun e' he => (rewriteExprs_yields bound es).map fun es' hes => by
      simp [intendedExprs, exprsSites, he, hes]

theorem rewritePairs_yields (bound : List Name) : ∀ items : List (Expr × Expr),
    Yields locals bound [] (rewritePairs cells items) fun r =>
      r = intendedPairs cells locals bound items ↔ Handled (pairsSites cells locals bound items)
  | [] => .pure (iff_of_true rfl handled_nil)
  | (key, value) :: rest => (rewriteExpr_yields .value bound key).seq fun key' hkey =>
      (rewriteExpr_yields .value bound value).seq fun value' hvalue => (rewritePairs_yields bound rest).map fun rest' hrest => by
        simp [intendedPairs, pairsSites, hkey, hvalue, hrest, and_assoc]

theorem rewriteFields_yields (bound : List Name) : ∀ fields : List (Name × Expr),
    Yields locals bound [] (rewriteFields cells fields) fun r =>
      r = intendedFields cells locals bound fields ↔ Handled (fieldsSites cells locals bound fields)
  | [] => .pure (iff_of_true rfl handled_nil)
  | (_, value) :: rest => (rewriteExpr_yields .value bound value).seq fun value' hvalue =>
      (rewriteFields_yields bound rest).map fun rest' hrest => by
        simp [intendedFields, fieldsSites, hvalue, hrest]

theorem rewriteParts_yields (bound : List Name) : ∀ parts : List StringPart,
    Yields locals bound [] (rewriteParts cells parts) fun r =>
      r = intendedParts cells locals bound parts ↔ Handled (partsSites cells locals bound parts)
  | [] => .pure (iff_of_true rfl handled_nil)
  | .literal _ :: rest => (rewriteParts_yields bound rest).map fun rest' hrest => by
      simp [intendedParts, partsSites, hrest]
  | .interpolation e :: rest => (rewriteExpr_yields .value bound e).seq fun e' he =>
      (rewriteParts_yields bound rest).map fun rest' hrest => by
        simp [intendedParts, partsSites, he, hrest]

theorem rewriteOpt_yields (bound : List Name) : ∀ e : Option Expr,
    Yields locals bound [] (rewriteOpt cells e) fun r =>
      r = intendedOpt cells locals bound e ↔ Handled (optSites cells locals bound e)
  | none => .pure (iff_of_true rfl handled_nil)
  | some e => (rewriteExpr_yields .value bound e).map fun e' he => by
      simp [intendedOpt, optSites, he]

theorem rewriteStmt_yields (bound : List Name) : ∀ s : Stmt,
    Yields locals bound s.declares (rewriteStmt cells s) fun r =>
      r = intendedStmt cells locals bound s ↔ Handled (stmtSites cells locals bound s)
  | .letDecl name expr _ _ => (rewriteExpr_yields .value bound expr).seq fun expr' hexpr =>
      (yields_define [name]).map fun _ _ => by
        simp [intendedStmt, stmtSites, hexpr]
  | .destructureLet pattern expr => (rewriteExpr_yields .value bound expr).seq fun expr' hexpr =>
      (yields_define pattern.names).map fun _ _ => by
        simp [intendedStmt, stmtSites, hexpr]
  | .print expr => (rewriteExpr_yields .value bound expr).map fun expr' hexpr => by
      simp [intendedStmt, stmtSites, hexpr]
  | .exprStmt expr => (rewriteExpr_yields .value bound expr).map fun expr' hexpr => by
      simp [intendedStmt, stmtSites, hexpr]
  | .block stmts => (rewriteStmts_yields bound stmts).inBlock.map fun stmts' hstmts => by
      simp [intendedStmt, stmtSites, hstmts]
  | .ifElse cond thenBranch none => (rewriteExpr_yields .value bound cond).seq fun cond' hcond =>
      (rewriteStmts_yields bound thenBranch).inBlock.seq fun then' hthen =>
        (rewriteOptStmt_yields bound none).map fun else' helse => by
          simp [intendedStmt, stmtSites, hcond, hthen, helse]
  | .ifElse cond thenBranch (some elseBranch) => (rewriteExpr_yields .value bound cond).seq fun cond' hcond =>
      (rewriteStmts_yields bound thenBranch).inBlock.seq fun then' hthen =>
        (rewriteOptStmt_yields bound (some elseBranch)).map fun else' helse => by
          simp [intendedStmt, stmtSites, hcond, hthen, helse]
  | .whileLoop cond body => (rewriteExpr_yields .value bound cond).seq fun cond' hcond =>
      (rewriteStmts_yields bound body).inBlock.map fun body' hbody => by
        simp [intendedStmt, stmtSites, hcond, hbody]
  | .forLoop init cond inc body => Yields.inScope <| (rewriteOptStmt_yields bound init).bind fun init' hinit =>
      (rewriteOpt_yields _ cond).seq fun cond' hcond => (rewriteOpt_yields _ inc).seq fun inc' hinc =>
        (rewriteStmts_yields _ body).inBlock.map fun body' hbody => by
          simp [intendedStmt, stmtSites, hinit, hcond, hinc, hbody]
  | .forEach name iterable body => (rewriteExpr_yields .value bound iterable).seq fun iterable' hiterable =>
      (Yields.inScope (rewriteStmts_yields (name :: bound) body).inBlock).map fun body' hbody => by
        simp [intendedStmt, stmtSites, hiterable, hbody]
  | .fnDef name params body _ _ annotations => (yields_define [name]).bind fun _ _ =>
      (Yields.inScope (rewriteStmts_yields ((params.map Param.name).reverse ++ name :: bound) body).inBlock).map
        fun body' hbody => by
          cases annotations with
          | nil => simp [intendedStmt, stmtSites, intendedAnnotations, annotationsSites, hbody]
          | cons annotation annotations =>
              obtain ⟨annotationName, args⟩ := annotation
              cases args <;> simp [intendedStmt, stmtSites, intendedAnnotations, annotationsSites, Site.Handled]
  | .returnStmt expr => (rewriteOpt_yields bound expr).map fun expr' hexpr => by
      simp [intendedStmt, stmtSites, hexpr]
  | .yieldStmt expr => .pure <| by
      rw [eq_comm, intendedStmt_eq_iff, stmtSites, handled_hidden, idle_hidden]
  | .tryCatch tryBlock handler finallyBlock => (rewriteStmts_yields bound tryBlock).inBlock.seq fun try' htry =>
      (rewriteHandler_yields bound handler).seq fun handler' hhandler =>
        (rewriteOptBlock_yields bound finallyBlock).map fun finally' hfinally => by
          simp [intendedStmt, stmtSites, htry, hhandler, hfinally]
  | .throw expr => (rewriteExpr_yields .value bound expr).map fun expr' hexpr => by
      simp [intendedStmt, stmtSites, hexpr]
  | .comment _ | .breakLoop | .continueLoop | .externDecl _ _ _ | .importStmt _ _ _ | .exportList _ | .exportFrom _ _
  | .checkpoint _ | .flowDef _ _ _ _ _ | .goalPursuit _ _ _ _ _ _ _ => .pure (iff_of_true rfl handled_nil)

theorem rewriteStmts_yields (bound : List Name) : ∀ stmts : List Stmt,
    Yields locals bound (stmts.flatMap Stmt.declares) (rewriteStmts cells stmts) fun r =>
      r = intendedStmts cells locals bound stmts ↔ Handled (stmtsSites cells locals bound stmts)
  | [] => .pure (iff_of_true rfl handled_nil)
  | s :: ss => (rewriteStmt_yields bound s).bind fun s' hs => (rewriteStmts_yields _ ss).map fun ss' hss => by
      simp [intendedStmts, stmtsSites, hs, hss]

theorem rewriteOptStmt_yields (bound : List Name) : ∀ s : Option Stmt,
    Yields locals bound (s.elim [] Stmt.declares) (rewriteOptStmt cells s) fun r =>
      r = intendedOptStmt cells locals bound s ↔ Handled (optStmtSites cells locals bound s)
  | none => .pure (iff_of_true rfl handled_nil)
  | some s => (rewriteStmt_yields bound s).map fun s' hs => by
      simp [intendedOptStmt, optStmtSites, hs]

theorem rewriteOptBlock_yields (bound : List Name) : ∀ stmts : Option (List Stmt),
    Yields locals bound [] (rewriteOptBlock cells stmts) fun r =>
      r = intendedOptBlock cells locals bound stmts ↔ Handled (optBlockSites cells locals bound stmts)
  | none => .pure (iff_of_true rfl handled_nil)
  | some stmts => (rewriteStmts_yields bound stmts).inBlock.map fun stmts' hstmts => by
      simp [intendedOptBlock, optBlockSites, hstmts]

theorem rewriteHandler_yields (bound : List Name) : ∀ handler : Option (Name × List Stmt),
    Yields locals bound [] (rewriteHandler cells handler) fun r =>
      r = intendedHandler cells locals bound handler ↔ Handled (handlerSites cells locals bound handler)
  | none => .pure (iff_of_true rfl handled_nil)
  | some (name, stmts) => (Yields.inScope (rewriteStmts_yields (name :: bound) stmts).inBlock).map fun stmts' hstmts => by
      simp [intendedHandler, handlerSites, hstmts]

end

/-- The body of a step is lowered exactly: it has become what it is meant to become, and the variable of the state is what the
step has been given where a cell is accessed. -/
def LoweredExactly (cells : Cells) (params : List Name) (step : FlowStep) (lowered : Stmt) : Prop :=
  lowered = intendedStmt cells (stepLocals cells params step) [] (.block step.body) ∧
    .access true ∉ stmtSites cells (stepLocals cells params step) [] (.block step.body)

/-- A place that the rewriter sees, at which no name is in its way. -/
def Site.Clear : Site → Prop
  | .access captured => captured = false
  | .action reserved => reserved = false
  | .annotated => False
  | .unseen => False

theorem clear_iff {site : Site} : site.Clear ↔ site.Handled ∧ site ≠ .access true := by
  cases site with
  | access captured => cases captured <;> simp [Site.Clear, Site.Handled]
  | action reserved => simp [Site.Clear, Site.Handled]
  | annotated => simp [Site.Clear, Site.Handled]
  | unseen => simp [Site.Clear, Site.Handled]

/-- A flow with one cell. -/
def totalCells : Cells := { stateNames := ["total"] }

def stepOf (body : List Stmt) : FlowStep := .mk "count" [] body none none none none

end Rewriting

end Nodus.Frontend

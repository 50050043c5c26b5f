import Nodus.Ast

/-! The checks on a parsed module: a goal that pursues a workflow, and the guard of a step, wait for checkpoints that exist. -/

namespace Nodus.Frontend

namespace GoalValidation

mutual

/-- The statements of a tree, in the order in which `walk` yields them. -/
def walkStmt : Stmt → List Stmt
  | .letDecl name e typeHint exported => .letDecl name e typeHint exported :: walkExpr e
  | .destructureLet pattern e => .destructureLet pattern e :: walkExpr e
  | .print e => .print e :: walkExpr e
  | .exprStmt e => .exprStmt e :: walkExpr e
  | .block stmts => .block stmts :: walkStmts stmts
  | .ifElse cond thenBranch elseBranch =>
      .ifElse cond thenBranch elseBranch :: (walkExpr cond ++ walkStmts thenBranch ++ walkOptStmt elseBranch)
  | .whileLoop cond body => .whileLoop cond body :: (walkExpr cond ++ walkStmts body)
  | .forLoop init cond inc body =>
      .forLoop init cond inc body :: (walkOptStmt init ++ walkOpt cond ++ walkOpt inc ++ walkStmts body)
  | .forEach name iterable body => .forEach name iterable body :: (walkExpr iterable ++ walkStmts body)
  | .fnDef name params body returnType exported annotations =>
      .fnDef name params body returnType exported annotations :: (walkStmts body ++ walkAnnotations annotations)
  | .returnStmt e => .returnStmt e :: walkOpt e
  | .yieldStmt e => .yieldStmt e :: walkOpt e
  | .tryCatch tryBlock handler finallyBlock =>
      .tryCatch tryBlock handler finallyBlock :: (walkStmts tryBlock ++ walkHandler handler ++ walkOptStmts finallyBlock)
  | .throw e => .throw e :: walkExpr e
  | .flowDef kind name params states steps =>
      .flowDef kind name params states steps :: (walkStates states ++ walkSteps steps)
  | .goalPursuit name workflowName untilClause maxIterations deadlineMs limits retryFrom =>
      .goalPursuit name workflowName untilClause maxIterations deadlineMs limits retryFrom ::
        (walkOpt maxIterations ++ walkOpt deadlineMs ++ walkOpt limits)
  | stmt => [stmt]

def walkStmts : List Stmt → List Stmt
  | [] => []
  | s :: ss => walkStmt s ++ walkStmts ss

def walkOptStmt : Option Stmt → List Stmt
  | none => []
  | some s => walkStmt s

def walkOptStmts : Option (List Stmt) → List Stmt
  | none => []
  | some stmts => walkStmts stmts

def walkHandler : Option (Name × List Stmt) → List Stmt
  | none => []
  | some (_, stmts) => walkStmts stmts

def walkAnnotations : List Annotation → List Stmt
  | [] => []
  | .mk _ none :: rest => walkAnnotations rest
  | .mk _ (some args) :: rest => walkFields args ++ walkAnnotations rest

def walkStates : List StateDecl → List Stmt
  | [] => []
  | .mk _ value options :: rest => walkExpr value ++ walkOpt options ++ walkStates rest

def walkSteps : List FlowStep → List Stmt
  | [] => []
  | .mk _ _ body options _ _ _ :: rest => walkStmts body ++ walkOpt options ++ walkSteps rest

def walkExpr : Expr → List Stmt
  | .num _ | .int _ | .bool _ | .str _ | .nil | .var _ => []
  | .interpolatedString parts => walkParts parts
  | .unary _ e | .assign _ e | .compoundAssign _ _ e | .attr e _ => walkExpr e
  | .bin _ a b | .logic _ a b | .index a b | .fieldAssign a _ b => walkExpr a ++ walkExpr b
  | .listLit items => walkExprs items
  | .mapLit items => walkPairs items
  | .recordLiteral fields => walkFields fields
  | .indexAssign seq index value => walkExpr seq ++ walkExpr index ++ walkExpr value
  | .actionStmt _ _ payload => walkOpt payload
  | .call callee args => walkExpr callee ++ walkExprs args
  | .fnExpr _ body _ => walkStmts body
  | .matchOn scrutinee arms => walkExpr scrutinee ++ walkArms arms

def walkExprs : List Expr → List Stmt
  | [] => []
  | e :: es => walkExpr e ++ walkExprs es

def walkOpt : Option Expr → List Stmt
  | none => []
  | some e => walkExpr e

def walkPairs : List (Expr × Expr) → List Stmt
  | [] => []
  | (key, value) :: rest => walkExpr key ++ walkExpr value ++ walkPairs rest

def walkFields : List (Name × Expr) → List Stmt
  | [] => []
  | (_, value) :: rest => walkExpr value ++ walkFields rest

def walkParts : List StringPart → List Stmt
  | [] => []
  | .literal _ :: rest => walkParts rest
  | .interpolation e :: rest => walkExpr e ++ walkParts rest

def walkArms : List MatchArm → List Stmt
  | [] => []
  | .mk pattern body :: rest => walkOpt pattern ++ walkArmBody body ++ walkArms rest

def walkArmBody : ArmBody → List Stmt
  | .expr e => walkExpr e
  | .stmt s => walkStmt s

end

/-- Every label that is recorded somewhere in a flow. -/
def checkpointLabels (flow : Stmt) : List String :=
  (walkStmt flow).filterMap fun stmt => match stmt with
    | .checkpoint label => some label
    | _ => none

def reachedLabels : Predicate → List String
  | .reached label => [label]
  | .not operand => reachedLabels operand
  | .and left right | .or left right => reachedLabels left ++ reachedLabels right

/-- A step without a guard records a checkpoint in a statement of its body. -/
def hasUnconditionalCheckpoint : Stmt → Bool
  | .flowDef _ _ _ _ steps => steps.any fun step => match step with
      | .mk _ _ body _ none _ _ => body.any fun stmt => match stmt with
          | .checkpoint _ => true
          | _ => false
      | _ => false
  | _ => false

/-- Whether a flow of the module has the name that a goal pursues, and has the checkpoints that the goal waits for. -/
def validPursuit (nodes : List Stmt) : Stmt → Bool
  | .goalPursuit _ workflowName untilClause _ _ _ retryFrom =>
      let target := nodes.find? fun stmt => match stmt with
        | .flowDef _ name _ _ _ => decide (name = workflowName)
        | _ => false
      match target with
      | none => false
      | some flow =>
          (reachedLabels untilClause ++ retryFrom.toList).all (fun label => decide (label ∈ checkpointLabels flow)) &&
            !(reachedLabels untilClause).isEmpty && hasUnconditionalCheckpoint flow
  | _ => true

def validateGoalPursuits (stmts : List Stmt) : Bool := (walkStmts stmts).all (validPursuit (walkStmts stmts))

/-- The guards of a flow wait for checkpoints of the flow. -/
def validGuards (flow : Stmt) : Bool :=
  match flow with
  | .flowDef _ _ _ _ steps => steps.all fun step => match step with
      | .mk _ _ _ _ (some guard) _ _ => (reachedLabels guard).all fun label => decide (label ∈ checkpointLabels flow)
      | _ => true
  | _ => true

def validateStepGuards (stmts : List Stmt) : Bool := (walkStmts stmts).all validGuards

end GoalValidation

end Nodus.Frontend

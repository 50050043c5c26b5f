import Nodus.Syntax

/-! The trees that the parser builds. Names, parameters, patterns and operators are those of the trees that the compiler consumes.
A body is the list of the statements of its block. Positions and comment attributes of nodes are left out. -/

namespace Nodus.Frontend

/-- The actions that a step can perform. -/
inductive ActionKind where
  | tool
  | agent
  | memoryPut
  | memoryGet
  | emit
  deriving DecidableEq, Repr

inductive FlowKind where
  | workflow
  | goal
  deriving DecidableEq, Repr

/-- What `until` and `when` are made of. -/
inductive Predicate where
  | reached (label : String)
  | not (operand : Predicate)
  | and (left right : Predicate)
  | or (left right : Predicate)
  deriving DecidableEq, Repr

mutual

/-- A number is given by its text. -/
inductive Expr where
  | num (raw : String)
  | int (raw : String)
  | bool (v : Bool)
  | str (v : String)
  | nil
  | interpolatedString (parts : List StringPart)
  | var (name : Name)
  | unary (op : UnaryOp) (expr : Expr)
  | bin (op : BinOp) (a b : Expr)
  | logic (op : LogicOp) (a b : Expr)
  | assign (name : Name) (expr : Expr)
  | compoundAssign (name : Name) (op : BinOp) (expr : Expr)
  | listLit (items : List Expr)
  | mapLit (items : List (Expr × Expr))
  | recordLiteral (fields : List (Name × Expr))
  | index (seq index : Expr)
  | indexAssign (seq index value : Expr)
  | attr (obj : Expr) (name : Name)
  | fieldAssign (obj : Expr) (name : Name) (value : Expr)
  | actionStmt (kind : ActionKind) (target : String) (payload : Option Expr)
  | call (callee : Expr) (args : List Expr)
  | fnExpr (params : List Param) (body : List Stmt) (returnType : Option String)
  | matchOn (scrutinee : Expr) (arms : List MatchArm)

inductive StringPart where
  | literal (text : String)
  | interpolation (expression : Expr)

/-- `pattern` is `none` for the wildcard arm. -/
inductive MatchArm where
  | mk (pattern : Option Expr) (body : ArmBody)

/-- An expression, or a statement: a block, a `throw` or a `return`. -/
inductive ArmBody where
  | expr (e : Expr)
  | stmt (s : Stmt)

inductive Annotation where
  | mk (name : Name) (args : Option (List (Name × Expr)))

inductive StateDecl where
  | mk (name : Name) (value : Expr) (options : Option Expr)

inductive FlowStep where
  | mk (name : Name) (deps : List Name) (body : List Stmt) (options : Option Expr) (whenClause : Option Predicate)
      (each : Option (Name × Name)) (compensates : Option Name)

inductive Stmt where
  | letDecl (name : Name) (expr : Expr) (typeHint : Option String) (exported : Bool)
  | destructureLet (pattern : Pattern) (expr : Expr)
  | print (expr : Expr)
  | exprStmt (expr : Expr)
  | block (stmts : List Stmt)
  | comment (text : String)
  /-- An `else` branch is a block or another conditional. -/
  | ifElse (cond : Expr) (thenBranch : List Stmt) (elseBranch : Option Stmt)
  | whileLoop (cond : Expr) (body : List Stmt)
  | forLoop (init : Option Stmt) (cond inc : Option Expr) (body : List Stmt)
  | forEach (name : Name) (iterable : Expr) (body : List Stmt)
  | breakLoop
  | continueLoop
  | fnDef (name : Name) (params : List Param) (body : List Stmt) (returnType : Option String) (exported : Bool)
      (annotations : List Annotation)
  | externDecl (name : Name) (params : List Param) (returnType : Option String)
  | returnStmt (expr : Option Expr)
  | yieldStmt (expr : Option Expr)
  | importStmt (path : String) (importAs : Option Name) (names : Option (List Name))
  | exportList (names : List Name)
  | exportFrom (names : List Name) (path : String)
  /-- A catch-less `try` has `none` for its handler. -/
  | tryCatch (tryBlock : List Stmt) (handler : Option (Name × List Stmt)) (finallyBlock : Option (List Stmt))
  | throw (expr : Expr)
  | checkpoint (label : String)
  | flowDef (kind : FlowKind) (name : Name) (params : List Param) (states : List StateDecl) (steps : List FlowStep)
  | goalPursuit (name workflowName : Name) (untilClause : Predicate) (maxIterations deadlineMs limits : Option Expr)
      (retryFrom : Option String)

end

namespace FlowStep

def name : FlowStep → Name
  | .mk name _ _ _ _ _ _ => name

def deps : FlowStep → List Name
  | .mk _ deps _ _ _ _ _ => deps

def body : FlowStep → List Stmt
  | .mk _ _ body _ _ _ _ => body

def whenClause : FlowStep → Option Predicate
  | .mk _ _ _ _ whenClause _ _ => whenClause

def eachVar : FlowStep → Option Name
  | .mk _ _ _ _ _ each _ => each.map Prod.fst

def compensates : FlowStep → Option Name
  | .mk _ _ _ _ _ _ compensates => compensates

end FlowStep

def StateDecl.name : StateDecl → Name
  | .mk name _ _ => name

end Nodus.Frontend

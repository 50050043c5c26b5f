/-! The syntax trees the compiler consumes. The trees are those the parser hands over after two
source-to-source passes that run when a statement is compiled: a function definition stands here
with its annotations already lowered, and a `workflow` or `goal` declaration stands here with the
expression its lowering returned. Source positions and module tags of nodes are left out: they
only feed diagnostics, and one compiler instance compiles one module. -/

namespace Nodus

abbrev Name := String

/-- The two prefix operators, `!` and `-`. -/
inductive UnaryOp where
  | bang
  | minus
  deriving DecidableEq, Repr

/-- The binary operators that evaluate both operands. -/
inductive BinOp where
  | add | sub | mul | div | mod
  | eq | ne | lt | gt | le | ge
  deriving DecidableEq, Repr

/-- The binary operators that may skip their right operand. -/
inductive LogicOp where
  | and | or
  deriving DecidableEq, Repr

structure Param where
  name : Name
  typeHint : Option String := none
  deriving DecidableEq, Repr

/-- A destructuring pattern of `let [a, {x: b}] = …`. -/
inductive Pattern where
  | var (name : Name)
  | list (elements : List Pattern)
  | record (fields : List (Name × Pattern))

mutual

inductive Expr where
  | int (v : Int)
  | num (v : Float)
  | bool (v : Bool)
  | str (v : String)
  | nil
  /-- The lexer opens an interpolated literal only at an interpolation, so there is a first part. -/
  | interpolatedString (first : StringPart) (rest : List StringPart)
  | matchOn (scrutinee : Expr) (arms : List MatchArm)
  | var (name : Name)
  | attr (obj : Expr) (name : Name)
  | assign (name : Name) (value : Expr)
  | compoundAssign (name : Name) (op : BinOp) (value : Expr)
  | unary (op : UnaryOp) (operand : Expr)
  | bin (op : BinOp) (a b : Expr)
  | logic (op : LogicOp) (a b : Expr)
  | listLit (items : List Expr)
  | mapLit (items : List (Expr × Expr))
  | index (seq idx : Expr)
  | indexAssign (seq idx value : Expr)
  | fieldAssign (obj : Expr) (name : Name) (value : Expr)
  | recordLiteral (fields : List (Name × Expr))
  | call (callee : Expr) (args : List Expr)
  | fnExpr (params : List Param) (body : Stmt) (returnType stepOwner : Option String)

inductive StringPart where
  | literal (text : String)
  | interpolation (expression : Expr)

/-- `pattern` is `none` for the wildcard arm `_`. -/
inductive MatchArm where
  | mk (pattern : Option Expr) (body : ArmBody)

inductive ArmBody where
  | throwing (e : Expr)
  | returning (e : Option Expr)
  | block (stmts : List Stmt)
  | expr (e : Expr)

inductive Stmt where
  | letDecl (name : Name) (value : Expr)
  /-- `WorkflowDef`, `GoalDef` and `GoalPursuit`, with the expression their lowering returned. -/
  | flowDef (name : Name) (lowered : Expr)
  | destructureLet (pattern : Pattern) (value : Expr)
  | print (e : Expr)
  | exprStmt (e : Expr)
  | checkpoint (label : Expr)
  | block (stmts : List Stmt)
  | ifElse (cond : Expr) (thenBranch : Stmt) (elseBranch : Option Stmt)
  | whileLoop (cond : Expr) (body : Stmt)
  | forLoop (init : Option Stmt) (cond inc : Option Expr) (body : Stmt)
  | forEach (name : Name) (iterable : Expr) (body : Stmt)
  | breakLoop
  | continueLoop
  | returnStmt (e : Option Expr)
  | yieldStmt (e : Option Expr)
  /-- A catch-less `try … finally` has `none` for its catch. -/
  | tryCatch (tryBlock : Stmt) (handler : Option (Name × Stmt)) (finallyBlock : Option Stmt)
  | throw (e : Expr)
  | importStmt
  /-- `Comment`, `ExportList`, `ExportFrom` and `ExternDecl`: nothing is emitted for them. -/
  | noCode
  | moduleAlias (aliasName : Name) (exports : List (Name × Name))
  | fnDef (name : Name) (params : List Param) (body : Stmt) (returnType stepOwner : Option String)

end

/-- Every name a destructuring pattern binds, in order. -/
def Pattern.names : Pattern → List Name
  | .var name => [name]
  | .list elements => listNames elements
  | .record fields => fieldNames fields
where
  listNames : List Pattern → List Name
    | [] => []
    | p :: ps => p.names ++ listNames ps
  fieldNames : List (Name × Pattern) → List Name
    | [] => []
    | (_, p) :: ps => p.names ++ fieldNames ps

/-- What a module knows about itself when it is compiled. -/
structure ModuleInfo where
  path : String
  defs : List Name
  imports : List (Name × Name)
  qualified : List (Name × Name)

/-- The statements of one module; `module` is the path tagged on its nodes, absent in the REPL. -/
structure Program where
  module : Option String
  stmts : List Stmt

end Nodus

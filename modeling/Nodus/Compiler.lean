import Nodus.SymbolTable

/-! The bytecode compiler. It appends instructions to one code list, leaves jump operands open and
patches them when the address is known, and keeps the symbol table, the stack of loop frames and the
nesting depth of `try` regions on the side. The functions below follow `Compiler`; its methods are
state transformers on a `Compiler` value that may fail with a syntax error. A method that recurses
on a sub-tree through another method takes the compilation of that sub-tree as an argument. -/

namespace Nodus

/-- A `LangSyntaxError`, or an internal error of the compiler, by its message. -/
structure SyntaxError where
  message : String
  deriving DecidableEq, Repr

/-- One frame of `loop_stack`. -/
structure LoopFrame where
  breaks : List Nat := []
  continues : List Nat := []
  breakPops : Bool
  tryDepth : Nat
  deriving DecidableEq, Repr

structure Compiler where
  code : List Instr := []
  functions : List (Name × FunctionInfo) := []
  moduleAliases : List (Name × List (Name × Name)) := []
  moduleInfo : Option ModuleInfo := none
  moduleDefsIndex : List (Name × List String) := []
  builtinNames : List Name := []
  currentModule : Option String := none
  symbols : Option SymbolTable := none
  fnCounter : Nat := 0
  tempCounter : Nat := 0
  loopStack : List LoopFrame := []
  tryDepth : Nat := 0

/-- The effect of a compiler method that returns nothing. -/
abbrev Compile := Compiler → Except SyntaxError Compiler

def builtinCallPrefix : String := "__nodus_builtin__"

/-- Whether `name` lies in the namespace of compiler-emitted builtin calls. -/
def isReserved (name : Name) : Bool := builtinCallPrefix.toList.isPrefixOf name.toList

namespace Compiler

def raiseSyntax {α : Type} (message : String) : Except SyntaxError α := .error ⟨message⟩

/-- The address of the next instruction. -/
def here (c : Compiler) : Nat := c.code.length

def emit (c : Compiler) (instr : Instr) : Compiler := { c with code := c.code ++ [instr] }

def patch (c : Compiler) (index : Nat) (instr : Instr) : Compiler :=
  { c with code := c.code.set index instr }

/-- Applies an operation to the symbol table, when there is one. -/
def withSymbols (c : Compiler) (f : SymbolTable → SymbolTable) : Compiler :=
  { c with symbols := c.symbols.map f }

def define (c : Compiler) (name : Name) : Compiler := c.withSymbols (·.define name false)

def enterScope (c : Compiler) (kind : ScopeKind) : Compiler := c.withSymbols (·.enterScope kind)

def exitScope (c : Compiler) : Compiler := c.withSymbols (·.exitScope)

def resolveSymbol (c : Compiler) (name : Name) : Option Symbol × Compiler :=
  match c.symbols with
  | none => (none, c)
  | some table =>
      let (symbol, table) := table.resolve name
      (symbol, { c with symbols := some table })

def inFunctionScope (c : Compiler) : Bool := c.symbols.any (·.inFunctionScope)

def inNestedScope (c : Compiler) : Bool := c.symbols.any (·.inNestedScope)

def rejectReservedName (name : Name) : Compile := fun c =>
  if isReserved name then
    raiseSyntax s!"'{name}' is reserved: names beginning with '{builtinCallPrefix}' belong to the compiler and cannot be defined."
  else pure c

/-- The slot a resolved symbol is accessed through when it is a local of the current function. -/
def localSlot (c : Compiler) (symbol : Option Symbol) : Option Nat :=
  match symbol with
  | some s => if s.scope = .local && c.inFunctionScope then s.index else none
  | none => none

def newTemp (c : Compiler) : Name × Compiler :=
  (s!"__destruct{c.tempCounter + 1}", { c with tempCounter := c.tempCounter + 1 })

/-- Pops into `name`: by slot if it is a local of the current function, else by `STORE fallback`. -/
def storeName (c : Compiler) (name fallback : Name) : Compiler :=
  let (symbol, c) := c.resolveSymbol name
  match c.localSlot symbol with
  | some slot => c.emit (.storeLocalIdx slot)
  | none => c.emit (.store fallback)

/-- `_store_temp`. -/
def storeTemp (c : Compiler) (name : Name) : Compiler := (c.define name).storeName name name

/-- `_load_temp`. -/
def loadTemp (c : Compiler) (name : Name) : Compiler :=
  let (symbol, c) := c.resolveSymbol name
  match c.localSlot symbol with
  | some slot => c.emit (.loadLocalIdx slot)
  | none => c.emit (.load name)

/-- The store that starts a for-each iteration: a local slot is reset first, so that a closure made in
this iteration captures a cell of its own. -/
def storeFresh (c : Compiler) (name : Name) : Compiler :=
  let (symbol, c) := c.resolveSymbol name
  match c.localSlot symbol with
  | some slot => (c.emit (.resetLocalIdx slot)).emit (.storeLocalIdx slot)
  | none => c.emit (.store name)

/-- Whether a name stays as written: it names a local or an upvalue, or the module is unknown. -/
def resolveNameIn (c : Compiler) (name : Name) (tables : ModuleInfo → List (List (Name × Name))) :
    Name × Compiler :=
  let (symbol, c) := c.resolveSymbol name
  match symbol, c.moduleInfo with
  | some s, some info =>
      if s.scope = .local || s.scope = .upvalue then (name, c)
      else (((tables info).findSome? (·.lookup name)).getD name, c)
  | none, some info => (((tables info).findSome? (·.lookup name)).getD name, c)
  | _, none => (name, c)

def resolveName (c : Compiler) (name : Name) : Name × Compiler :=
  c.resolveNameIn name fun info => [info.imports, info.qualified]

def resolveStoreName (c : Compiler) (name : Name) : Name × Compiler :=
  c.resolveNameIn name fun info => [info.qualified]

/-- Pops into the module-qualified name of `name`. -/
def storeQualified (c : Compiler) (name : Name) : Compiler :=
  let (qualified, c) := c.resolveStoreName name
  c.emit (.store qualified)

/-- The store that ends a `let`; a local slot is reset first, as in a for-each. -/
def storeLet (c : Compiler) (name : Name) : Compiler :=
  let (symbol, c) := c.resolveSymbol name
  match c.localSlot symbol with
  | some slot => (c.emit (.resetLocalIdx slot)).emit (.storeLocalIdx slot)
  | none => c.storeQualified name

def resolveDefName (c : Compiler) (name : Name) : Name :=
  (c.moduleInfo.bind (·.qualified.lookup name)).getD name

def resolveModuleName (c : Compiler) (aliasName name : Name) : Except SyntaxError Name :=
  match c.moduleAliases.lookup aliasName with
  | none => raiseSyntax s!"Unknown module alias: {aliasName}"
  | some exports =>
      match exports.lookup name with
      | none => raiseSyntax s!"Module '{aliasName}' has no member '{name}'"
      | some resolved => pure resolved

/-- `ensure_name_access`: refuses a name that is private to another module, or not in scope. -/
def ensureNameAccess (name : Name) : Compile := fun c =>
  if isReserved name then pure c
  else
    let (symbol, c) := c.resolveSymbol name
    if symbol.isSome then pure c
    else
      match c.moduleInfo with
      | none => pure c
      | some info =>
          if c.currentModule = some "<repl>" then pure c
          else if info.defs.contains name && c.symbols.all (·.isDefinedInModule name) then pure c
          else if (info.imports.lookup name).isSome then pure c
          else if c.builtinNames.contains name then pure c
          else if (c.moduleDefsIndex.lookup name).any (!·.contains info.path) then
            let owners := ", ".intercalate ((c.moduleDefsIndex.lookup name).getD [])
            raiseSyntax s!"Symbol '{name}' is private to module(s): {owners}. Import it to use it here."
          else if c.symbols.any (·.isDefinedAnywhere name) then
            if c.symbols.any (·.isUncapturableTopLevelLocal name) then
              raiseSyntax s!"Cannot capture '{name}': it is declared inside a top-level loop or block body, which a closure cannot capture from. Move the loop into a function, or declare '{name}' at module top level."
            else raiseSyntax s!"Undefined variable: {name}"
          else pure c

/-- The loop frame pushed by `_push_loop`. -/
def pushLoop (c : Compiler) (breakPops : Bool) : Compiler :=
  { c with loopStack := { breakPops, tryDepth := c.tryDepth } :: c.loopStack }

/-- The frame of the innermost loop. -/
def topLoop (c : Compiler) : Option LoopFrame := c.loopStack.head?

/-- Drops the frame of the innermost loop, whose body is finished. -/
def popLoop (c : Compiler) : Compiler := { c with loopStack := c.loopStack.tail }

/-- `_patch_loop`: sends the recorded jumps of a loop frame to their targets. -/
def patchLoop (c : Compiler) (frame : Option LoopFrame) (breakTarget continueTarget : Nat) :
    Compiler :=
  match frame with
  | none => c
  | some f =>
      let c := f.breaks.foldl (fun c idx => c.patch idx (.jump (some breakTarget))) c
      f.continues.foldl (fun c idx => c.patch idx (.jump (some continueTarget))) c

/-- `predeclare_block`: the `let` names of a block are in scope from its start. -/
def predeclareBlock (c : Compiler) (stmts : List Stmt) : Compiler :=
  stmts.foldl (fun c s => match s with
    | .letDecl name _ => c.define name
    | _ => c) c

/-- Compiles a statement list inside a block scope of its own. -/
def inBlock (stmts : List Stmt) (body : Compile) : Compile := fun c => do
  let c ← body ((c.enterScope .block).predeclareBlock stmts)
  pure c.exitScope

/-- `Var` in value position. -/
def compileVar (name : Name) : Compile := fun c =>
  let (symbol, c) := c.resolveSymbol name
  match symbol with
  | some s =>
      if s.scope = .upvalue then pure (c.emit (.loadUpvalue s.index))
      else if s.scope = .local && c.inFunctionScope then
        match s.index with
        | some slot => pure (c.emit (.loadLocalIdx slot))
        | none => raiseSyntax s!"Internal compiler error: local symbol '{name}' has no slot index."
      else loadByName c
  | none => loadByName c
where
  loadByName : Compile := fun c => do
    let c ← ensureNameAccess name c
    let (resolved, c) := c.resolveName name
    pure (c.emit (.load resolved))

/-- The symbol an assignment writes: an unknown name is defined where it is assigned. -/
def assignTarget (c : Compiler) (name : Name) : Option Symbol × Compiler :=
  let (known, c) := c.resolveSymbol name
  if known.isNone && c.symbols.isSome then (c.define name).resolveSymbol name else (known, c)

/-- `Assign`; the value stays on the stack. -/
def compileAssign (name : Name) (value : Compile) : Compile := fun c => do
  let (symbol, c) := c.assignTarget name
  let c ← value c
  match symbol with
  | some s =>
      if s.scope = .upvalue then
        pure ((c.emit (.storeUpvalue s.index)).emit (.loadUpvalue s.index))
      else
        let (storeName, c) := c.resolveStoreName name
        if s.scope = .local && c.inFunctionScope then
          match s.index with
          | some slot => pure ((c.emit (.storeLocalIdx slot)).emit (.loadLocalIdx slot))
          | none => raiseSyntax s!"Internal compiler error: local symbol '{name}' has no slot index in Assign expression."
        else pure ((c.emit (.store storeName)).emit (.load storeName))
  | none =>
      let (storeName, c) := c.resolveStoreName name
      pure ((c.emit (.store storeName)).emit (.load storeName))

/-- The jump that skips the right operand of a logical operator. -/
def skipJump : LogicOp → Target → Instr
  | .and, target => .jumpIfFalse target
  | .or, target => .jumpIfTrue target

/-- `&&` and `||`: the skipped branch pushes the operator's short-circuit value. -/
def compileLogic (op : LogicOp) (a b : Compile) : Compile := fun c => do
  let c ← a c
  let skip := c.here
  let c := c.emit (skipJump op none)
  let c ← b c
  let c := c.emit (.data .toBool)
  let jmpEnd := c.here
  let c := c.emit (.jump none)
  let shortAddr := c.here
  let c := c.emit (.pushConst (.bool (op = .or)))
  let c := c.patch skip (skipJump op (some shortAddr))
  pure (c.patch jmpEnd (.jump (some c.here)))

/-- How a plain identifier is called: the instruction that loads it when it resolves to a variable,
`none` when it is called by name. -/
def calleeLoad (name : Name) (c : Compiler) : Except SyntaxError (Option Instr × Compiler) :=
  let (symbol, c) := c.resolveSymbol name
  match symbol with
  | some s =>
      if s.scope = .upvalue then pure (some (.loadUpvalue s.index), c)
      else if s.scope = .local && c.inFunctionScope then
        match s.index with
        | some slot => pure (some (.loadLocalIdx slot), c)
        | none => raiseSyntax s!"Internal compiler error: local symbol '{name}' has no slot index in Call expression."
      else if s.scope = .global && s.isFunction then pure (none, c)
      else
        let (resolved, c) := c.resolveName name
        pure (some (.load resolved), c)
  | none => pure (none, c)

/-- A call of a plain identifier. -/
def compileCallByName (name : Name) (args : Compile) (argCount : Nat) : Compile := fun c => do
  let (load, c) ← calleeLoad name c
  match load with
  | some load =>
      let c ← args (c.emit load)
      pure (c.emit (.callValue argCount))
  | none =>
      let c ← args c
      let c ← ensureNameAccess name c
      let (resolved, c) := c.resolveName name
      pure (c.emit (.call resolved argCount))

/-- The name a function is registered under; nested ones are numbered. -/
def nameFn (c : Compiler) (name : Name) (isNested : Bool) : Name × Compiler :=
  if isNested then
    let c := { c with fnCounter := c.fnCounter + 1 }
    (s!"{c.resolveDefName name}__fn{c.fnCounter}", c)
  else (c.resolveDefName name, c)

/-- Registers a function, enters its scope and emits its prologue. -/
def beginFn (c : Compiler) (info : FunctionInfo) : Compiler :=
  let c := { c with functions := dictSet info.name info c.functions
                    symbols := some (c.symbols.getD {}) }
  let c := c.enterScope .function
  let c := info.params.foldl define c
  let c := c.emit (.frameSize 0)
  info.params.reverse.foldl (fun c p => c.emit (.storeArg p)) c

/-- `compile_fn_def` up to the body. The frame size is not known yet; the `FRAME_SIZE` to patch stands
at the function's address. -/
def openFn (name : Name) (params : List Param) (returnType stepOwner : Option String)
    (isNested : Bool) (c : Compiler) : Except SyntaxError (FunctionInfo × Compiler) := do
  let c ← rejectReservedName name c
  let c ← params.foldlM (fun c p => rejectReservedName p.name c) c
  let (fnName, c) := c.nameFn name isNested
  if (c.functions.lookup fnName).isSome then raiseSyntax s!"Function already defined: {name}"
  else
    let info : FunctionInfo :=
      { name := fnName, params := params.map (·.name), addr := c.here, upvalues := [],
        displayName := name, stepOwner, paramTypes := params.map (·.typeHint), returnType }
    pure (info, c.beginFn info)

/-- `compile_fn_def` after the body: records what the body captured and allocated, and ends the
function with a `return nil`. -/
def closeFn (info : FunctionInfo) (c : Compiler) : Compiler :=
  let funcScope : Option Scope := c.symbols.bind fun t => currentFunctionScope t.scopes
  let info := { info with
    upvalues := (funcScope.map Scope.upvalues).getD []
    localSlots := (funcScope.map Scope.allLocalSlots).getD [] }
  let c := { c with functions := dictSet info.name info c.functions }
  let c := match funcScope with
    | some f => c.patch info.addr (.frameSize f.localSlotCounter)
    | none => c
  let c := c.exitScope
  (c.emit (.pushConst .nil)).emit .ret

/-- `compile_fn_def`, with the compilation of the body as an argument. Returns the internal name. -/
def compileFnDef (name : Name) (params : List Param) (returnType stepOwner : Option String)
    (isNested : Bool) (body : Compile) (c : Compiler) : Except SyntaxError (Name × Compiler) := do
  let (info, c) ← openFn name params returnType stepOwner isNested c
  let c ← body c
  pure (info.name, closeFn info c)

/-- A function literal or nested definition: the body is laid out in line and jumped over. -/
def compileClosure (name : Name) (params : List Param) (returnType stepOwner : Option String)
    (body : Compile) : Compile := fun c => do
  let jumpOver := c.here
  let c := c.emit (.jump none)
  let (internalName, c) ← compileFnDef name params returnType stepOwner true body c
  let c := c.patch jumpOver (.jump (some c.here))
  pure (c.emit (.makeClosure internalName))

/-- `destructure_from_stack`: takes a value apart through hidden temporaries. -/
def destructureFromStack : Pattern → Compiler → Compiler
  | .var name, c => c.storeName name name
  | .list elements, c =>
      let (temp, c) := c.newTemp
      elementsFrom temp 0 elements (c.storeTemp temp)
  | .record fields, c =>
      let (temp, c) := c.newTemp
      fieldsFrom temp fields (c.storeTemp temp)
where
  elementsFrom (temp : Name) (idx : Nat) : List Pattern → Compiler → Compiler
    | [], c => c
    | p :: ps, c =>
        let c := (c.loadTemp temp).emit (.pushConst (.num (Float.ofNat idx)))
        elementsFrom temp (idx + 1) ps (destructureFromStack p (c.emit (.data .index)))
  fieldsFrom (temp : Name) : List (Name × Pattern) → Compiler → Compiler
    | [], c => c
    | (key, p) :: ps, c =>
        fieldsFrom temp ps (destructureFromStack p ((c.loadTemp temp).emit (.data (.loadField key))))

/-- What follows the last arm of a `match` without a wildcard arm. -/
def compileNoArm (c : Compiler) : Compiler :=
  (c.emit (.pushConst (.str "match: no arm matched the value"))).emit .throw

/-- Sends the collected end jumps of the arms of a `match` here. -/
def patchEnd (endJumps : List Nat) (c : Compiler) : Compiler :=
  endJumps.foldl (fun d idx => d.patch idx (.jump (some c.here))) c

/-- `while`, with the code of condition and body as arguments. -/
def compileWhile (cond body : Compile) : Compile := fun c => do
  let loopStart := c.here
  let c ← cond c
  let jmpFalse := c.here
  let c := c.emit (.jumpIfFalse none)
  let c ← body (c.pushLoop false)
  let frame := c.topLoop
  let c := c.popLoop
  let c := c.emit (.jump (some loopStart))
  let c := c.patch jmpFalse (.jumpIfFalse (some c.here))
  pure (c.patchLoop frame c.here loopStart)

/-- The C-style `for`, inside its own block scope; `continue` runs the increment. -/
def compileFor (init cond inc body : Compile) : Compile := fun c => do
  let c := c.enterScope .block
  let c ← init c
  let loopStart := c.here
  let c ← cond c
  let jmpFalse := c.here
  let c := c.emit (.jumpIfFalse none)
  let c ← body (c.pushLoop false)
  let frame := c.topLoop
  let c := c.popLoop
  let continueTarget := c.here
  let c ← inc c
  let c := c.emit (.jump (some loopStart))
  let c := c.patch jmpFalse (.jumpIfFalse (some c.here))
  let c := c.patchLoop frame c.here continueTarget
  pure c.exitScope

/-- `for x in …`: the iterator stays on the stack, and `break` pops it. -/
def compileForEach (name : Name) (iterable body : Compile) : Compile := fun c => do
  let c := (c.enterScope .block).define name
  let c ← iterable c
  let c := c.emit .getIter
  let loopStart := c.here
  let c := c.emit (.iterNext none)
  let c := c.storeFresh name
  let c ← body (c.pushLoop true)
  let frame := c.topLoop
  let c := c.popLoop
  let c := c.emit (.jump (some loopStart))
  let c := c.patch loopStart (.iterNext (some c.here))
  let c := c.patchLoop frame c.here loopStart
  pure c.exitScope

/-- `break` and `continue`: only inside a loop, and not out of a `try` region. -/
def compileLoopExit (isBreak : Bool) : Compile := fun c =>
  let kw := if isBreak then "break" else "continue"
  match c.loopStack with
  | [] => raiseSyntax s!"'{kw}' outside a loop"
  | frame :: outer =>
      if c.tryDepth > frame.tryDepth then
        raiseSyntax s!"'{kw}' cannot cross a try/catch/finally boundary"
      else if isBreak then
        let c := if frame.breakPops then c.emit .pop else c
        pure { c.emit (.jump none) with
          loopStack := { frame with breaks := frame.breaks ++ [c.here] } :: outer }
      else
        pure { c.emit (.jump none) with
          loopStack := { frame with continues := frame.continues ++ [c.here] } :: outer }

/-- The name a catch-less `try … finally` catches into before it throws again. -/
def rethrowVar : Name := "__finally_rethrow"

/-- The catch part of a `try`: a scope with the catch variable, and the handler block in it. -/
def compileCatch (catchVar : Name) (block : Compile) : Compile := fun c => do
  let c := ((c.enterScope .block).define catchVar).storeName catchVar catchVar
  let c ← block c
  pure c.exitScope

/-- The block `{ throw __finally_rethrow }` a catch-less `try … finally` is lowered with. -/
def compileRethrow : Compile := inBlock [] fun c => do
  let c ← compileVar rethrowVar c
  pure (c.emit .throw)

def enterTry (c : Compiler) : Compiler := { c with tryDepth := c.tryDepth + 1 }

def leaveTry (c : Compiler) : Compiler := { c with tryDepth := c.tryDepth - 1 }

/-- `try … catch` without `finally`. -/
def compileTryCatch (tryBlock handler : Compile) : Compile := fun c => do
  let c := c.enterTry
  let setupIdx := c.here
  let c := c.emit (.setupTry none none)
  let c ← tryBlock c
  let c := c.emit .popTry
  let jmpEnd := c.here
  let c := c.emit (.jump none)
  let c := c.patch setupIdx (.setupTry (some c.here) none)
  let c ← handler c
  let c := c.patch jmpEnd (.jump (some c.here))
  pure c.leaveTry

/-- `try … catch … finally`. -/
def compileTryFinally (tryBlock handler finallyBlock : Compile) : Compile := fun c => do
  let c := c.enterTry
  let setupIdx := c.here
  let c := c.emit (.setupTry none (some none))
  let c ← tryBlock c
  let c := c.emit .popTry
  let handlerIp := c.here
  let c := c.patch setupIdx (.setupTry (some handlerIp) (some none))
  let c ← handler c
  let jmpFinally := c.here
  let c := c.emit (.jump none)
  let finallyIp := c.here
  let c := c.patch setupIdx (.setupTry (some handlerIp) (some (some finallyIp)))
  let c := c.patch jmpFinally (.jump (some finallyIp))
  let c ← finallyBlock c
  let c := c.emit .finallyEnd
  pure c.leaveTry

/-- `ModuleAlias`: registers the alias and builds the module record from the qualified names. -/
def compileModuleAlias (aliasName : Name) (exports : List (Name × Name)) (c : Compiler) : Compiler :=
  let c := { c with moduleAliases := dictSet aliasName exports c.moduleAliases }
  let c := exports.foldl
    (fun c e => (c.emit (.pushConst (.str e.1))).emit (.load e.2)) c
  (c.emit (.data (.buildModule exports.length))).emit (.store aliasName)

def compileReturn (value : Compile) : Compile := fun c => do
  let c ← value c
  pure (c.emit .ret)

mutual

def compileExpr : Expr → Compile
  | .int v, c => pure (c.emit (.pushConst (.int v)))
  | .num v, c => pure (c.emit (.pushConst (.num v)))
  | .bool v, c => pure (c.emit (.pushConst (.bool v)))
  | .str v, c => pure (c.emit (.pushConst (.str v)))
  | .nil, c => pure (c.emit (.pushConst .nil))
  | .interpolatedString first rest, c => do
      let c ← compilePart first c
      let c ← compileParts rest c
      pure (rest.foldl (fun c _ => c.emit (.data (.binary .add))) c)
  | .matchOn scrutinee arms, c => do
      let c ← compileExpr scrutinee c
      let (temp, c) := c.newTemp
      let (endJumps, c) ← compileArms temp arms [] (c.storeTemp temp)
      pure (patchEnd endJumps c)
  | .var name, c => compileVar name c
  | .attr obj name, c =>
      match obj with
      | .var aliasName =>
          if (c.moduleAliases.lookup aliasName).isSome then do
            let resolved ← c.resolveModuleName aliasName name
            pure (c.emit (.load resolved))
          else do
            let c ← compileVar aliasName c
            pure (c.emit (.data (.loadField name)))
      | _ => do
          let c ← compileExpr obj c
          pure (c.emit (.data (.loadField name)))
  | .assign name value, c => compileAssign name (compileExpr value) c
  | .compoundAssign name op value, c =>
      compileAssign name (fun c => do
        let c ← compileVar name c
        let c ← compileExpr value c
        pure (c.emit (.data (.binary op)))) c
  | .unary op operand, c => do
      let c ← compileExpr operand c
      pure (c.emit (.data (match op with | .bang => .not | .minus => .neg)))
  | .logic op a b, c => compileLogic op (compileExpr a) (compileExpr b) c
  | .bin op a b, c => do
      let c ← compileExpr a c
      let c ← compileExpr b c
      pure (c.emit (.data (.binary op)))
  | .listLit items, c => do
      let c ← compileExprs items c
      pure (c.emit (.data (.buildList items.length)))
  | .mapLit items, c => do
      let c ← compilePairs items c
      pure (c.emit (.data (.buildMap items.length)))
  | .index seq idx, c => do
      let c ← compileExpr seq c
      let c ← compileExpr idx c
      pure (c.emit (.data .index))
  | .indexAssign seq idx value, c => do
      let c ← compileExpr seq c
      let c ← compileExpr idx c
      let c ← compileExpr value c
      pure (c.emit (.data .indexSet))
  | .fieldAssign obj name value, c => do
      let c ← compileExpr obj c
      let c ← compileExpr value c
      pure (c.emit (.data (.storeField name)))
  | .recordLiteral fields, c => do
      let c ← compileFields fields c
      pure (c.emit (.data (.buildRecord fields.length)))
  | .call callee args, c =>
      match callee with
      | .var name => compileCallByName name (compileExprs args) args.length c
      | .attr (.var aliasName) name =>
          if (c.moduleAliases.lookup aliasName).isSome then do
            let c ← compileExprs args c
            let resolved ← c.resolveModuleName aliasName name
            pure (c.emit (.call resolved args.length))
          else do
            let c ← compileVar aliasName c
            let c ← compileExprs args c
            pure (c.emit (.callMethod name args.length))
      | .attr obj name => do
          let c ← compileExpr obj c
          let c ← compileExprs args c
          pure (c.emit (.callMethod name args.length))
      | callee => do
          let c ← compileExpr callee c
          let c ← compileExprs args c
          pure (c.emit (.callValue args.length))
  | .fnExpr params body returnType stepOwner, c =>
      let c := { c with fnCounter := c.fnCounter + 1 }
      compileClosure s!"__anon_{c.fnCounter}" params returnType stepOwner (compileStmt body) c

/-- An optional operand, `nil` where it is absent. -/
def compileOrNil : Option Expr → Compile
  | some e, c => compileExpr e c
  | none, c => pure (c.emit (.pushConst .nil))

def compileExprs : List Expr → Compile
  | [], c => pure c
  | e :: es, c => do
      let c ← compileExpr e c
      compileExprs es c

def compilePairs : List (Expr × Expr) → Compile
  | [], c => pure c
  | (key, value) :: rest, c => do
      let c ← compileExpr key c
      let c ← compileExpr value c
      compilePairs rest c

def compileFields : List (Name × Expr) → Compile
  | [], c => pure c
  | (key, value) :: rest, c => do
      let c ← compileExpr value (c.emit (.pushConst (.str key)))
      compileFields rest c

def compilePart : StringPart → Compile
  | .literal text, c => pure (c.emit (.pushConst (.str text)))
  | .interpolation e, c => do
      let c ← compileExpr e c
      pure (c.emit (.call "str" 1))

def compileParts : List StringPart → Compile
  | [], c => pure c
  | p :: ps, c => do
      let c ← compilePart p c
      compileParts ps c

/-- The arms of a `match`: a miss falls to the next arm, and a wildcard arm ends the list. The jumps
to the end are collected in `endJumps` and patched once it is known. -/
def compileArms (temp : Name) : List MatchArm → List Nat → Compiler →
    Except SyntaxError (List Nat × Compiler)
  | [], endJumps, c => pure (endJumps, c.compileNoArm)
  | .mk none body :: _, endJumps, c => do
      let c ← compileMatchBody body c
      pure (endJumps ++ [c.here], c.emit (.jump none))
  | .mk (some pattern) body :: arms, endJumps, c => do
      let c ← compileExpr pattern (c.loadTemp temp)
      let c := c.emit (.data (.binary .eq))
      let skip := c.here
      let c ← compileMatchBody body (c.emit (.jumpIfFalse none))
      let jmpEnd := c.here
      let c := c.emit (.jump none)
      let c := c.patch skip (.jumpIfFalse (some c.here))
      compileArms temp arms (endJumps ++ [jmpEnd]) c

def compileMatchBody : ArmBody → Compile
  | .throwing e, c => do
      let c ← compileExpr e c
      pure (c.emit .throw)
  | .returning e, c => compileReturn (compileOrNil e) c
  | .block [], c => pure (c.emit (.pushConst .nil))
  | .block stmts, c => inBlock stmts (compileArmStmts stmts) c
  | .expr e, c => compileExpr e c

/-- The statements of an arm block; the last one leaves the arm's value. -/
def compileArmStmts : List Stmt → Compile
  | [], c => pure c
  | [.exprStmt e], c => compileExpr e c
  | [.throw e], c => do
      let c ← compileExpr e c
      pure (c.emit .throw)
  | [.returnStmt e], c => compileReturn (compileOrNil e) c
  | [s], c => do
      let c ← compileStmt s c
      pure (c.emit (.pushConst .nil))
  | s :: ss, c => do
      let c ← compileStmt s c
      compileArmStmts ss c

def compileStmt : Stmt → Compile
  | .letDecl name value, c => do
      let c ← rejectReservedName name c
      let c ← compileExpr value (c.define name)
      pure (c.storeLet name)
  | .flowDef name lowered, c => do
      let c ← compileExpr lowered (c.define name)
      pure (c.storeQualified name)
  | .destructureLet pattern value, c => do
      let c := pattern.names.foldl define c
      let (temp, c) := c.newTemp
      let c ← compileExpr value (c.define temp)
      pure (destructureFromStack pattern ((c.storeName temp temp).loadTemp temp))
  | .print e, c => do
      let c ← compileExpr e c
      pure ((c.emit (.call "print" 1)).emit .pop)
  | .exprStmt e, c => do
      let c ← compileExpr e c
      pure (c.emit .pop)
  | .checkpoint label, c => do
      let c ← compileExpr label c
      pure ((c.emit (.call "__workflow_checkpoint" 1)).emit .pop)
  | .block stmts, c => inBlock stmts (compileStmts stmts) c
  | .ifElse cond thenBranch none, c => do
      let c ← compileExpr cond c
      let jmpFalse := c.here
      let c ← compileStmt thenBranch (c.emit (.jumpIfFalse none))
      pure (c.patch jmpFalse (.jumpIfFalse (some c.here)))
  | .ifElse cond thenBranch (some elseBranch), c => do
      let c ← compileExpr cond c
      let jmpFalse := c.here
      let c ← compileStmt thenBranch (c.emit (.jumpIfFalse none))
      let jmpEnd := c.here
      let c := c.emit (.jump none)
      let c := c.patch jmpFalse (.jumpIfFalse (some c.here))
      let c ← compileStmt elseBranch c
      pure (c.patch jmpEnd (.jump (some c.here)))
  | .whileLoop cond body, c => compileWhile (compileExpr cond) (compileStmt body) c
  | .forLoop init cond inc body, c =>
      compileFor (compileInit init) (compileCond cond) (compileInc inc) (compileStmt body) c
  | .forEach name iterable body, c => compileForEach name (compileExpr iterable) (compileStmt body) c
  | .breakLoop, c => compileLoopExit true c
  | .continueLoop, c => compileLoopExit false c
  | .returnStmt e, c => compileReturn (compileOrNil e) c
  | .yieldStmt e, c =>
      if c.inFunctionScope then do
        let c ← compileOrNil e c
        pure (c.emit .yield)
      else raiseSyntax "yield outside function"
  | .tryCatch tryBlock handler none, c =>
      compileTryCatch (compileStmt tryBlock) (compileHandler handler) c
  | .tryCatch tryBlock handler (some finallyBlock), c =>
      compileTryFinally (compileStmt tryBlock) (compileHandler handler) (compileStmt finallyBlock) c
  | .throw e, c => do
      let c ← compileExpr e c
      pure (c.emit .throw)
  | .importStmt, c =>
      if c.inNestedScope then
        raiseSyntax "import statements must be at the top level of a module; move this import to the top of the file"
      else pure c
  | .noCode, c => pure c
  | .moduleAlias aliasName exports, c => pure (c.compileModuleAlias aliasName exports)
  | .fnDef name params body returnType stepOwner, c => do
      let c ← compileClosure name params returnType stepOwner (compileStmt body)
        (c.withSymbols (·.defineFunction name))
      pure (c.storeName name name)

def compileInit : Option Stmt → Compile
  | some s, c => compileStmt s c
  | none, c => pure c

def compileCond : Option Expr → Compile
  | some e, c => compileExpr e c
  | none, c => pure (c.emit (.pushConst (.bool true)))

def compileInc : Option Expr → Compile
  | some e, c => do
      let c ← compileExpr e c
      pure (c.emit .pop)
  | none, c => pure c

/-- The catch part of a `try`; without one the error is thrown again. -/
def compileHandler : Option (Name × Stmt) → Compile
  | some (catchVar, block), c => compileCatch catchVar (compileStmt block) c
  | none, c => compileCatch rethrowVar compileRethrow c

def compileStmts : List Stmt → Compile
  | [], c => pure c
  | s :: ss, c => do
      let c ← compileStmt s c
      compileStmts ss c

end

/-- `predeclare_module_scopes`: top-level names are globals before anything is compiled. -/
def predeclareModuleScopes (c : Compiler) (stmts : List Stmt) : Compiler :=
  stmts.foldl (fun c s => match s with
    | .letDecl name _ => c.define name
    | .fnDef name _ _ _ _ => c.withSymbols (·.defineFunction name)
    | .flowDef name _ => c.define name
    | .exprStmt (.assign name _) => c.define name
    | _ => c) c

def registerAliases (c : Compiler) (stmts : List Stmt) : Compiler :=
  stmts.foldl (fun c s => match s with
    | .moduleAlias aliasName exports => { c with moduleAliases := dictSet aliasName exports c.moduleAliases }
    | _ => c) c

/-- The first pass over the statements: the top-level functions. -/
def compileTopFns : List Stmt → Compile
  | [], c => pure c
  | .fnDef name params body returnType stepOwner :: rest, c => do
      let (_, c) ← compileFnDef name params returnType stepOwner false (compileStmt body) c
      compileTopFns rest c
  | _ :: rest, c => compileTopFns rest c

/-- The second pass: everything else. -/
def compileTopStmts : List Stmt → Compile
  | [], c => pure c
  | .fnDef _ _ _ _ _ :: rest, c => compileTopStmts rest c
  | s :: rest, c => do
      let c ← compileStmt s c
      compileTopStmts rest c

/-- A compiler for one module, before it has emitted anything. -/
def start (program : Program) (info : Option ModuleInfo) (defsIndex : List (Name × List String))
    (builtinNames : List Name) : Compiler :=
  { moduleInfo := info, moduleDefsIndex := defsIndex, builtinNames,
    currentModule := program.module, symbols := program.module.map fun _ => {} }

/-- `compile_program`. -/
def compileProgram (program : Program) : Compile := fun c => do
  let jumpToMain := c.here
  let c := c.emit (.jump none)
  let c := (c.predeclareModuleScopes program.stmts).registerAliases program.stmts
  let c ← compileTopFns program.stmts c
  let c := c.patch jumpToMain (.jump (some c.here))
  let c ← compileTopStmts program.stmts c
  pure (c.emit .halt)

@[simp] theorem code_emit (c : Compiler) (i : Instr) : (c.emit i).code = c.code ++ [i] := rfl

/-- Steps of the compiler that leave the code, the open loops and the functions as they are. -/
structure Quiet (c c' : Compiler) : Prop where
  code : c'.code = c.code
  tryDepth : c'.tryDepth = c.tryDepth
  loopStack : c'.loopStack = c.loopStack
  functions : c'.functions = c.functions

theorem Quiet.refl (c : Compiler) : Quiet c c := ⟨rfl, rfl, rfl, rfl⟩

theorem quiet_resolveSymbol (c : Compiler) (name : Name) : Quiet c (c.resolveSymbol name).2 := by
  unfold resolveSymbol
  split <;> exact ⟨rfl, rfl, rfl, rfl⟩

theorem quiet_resolveNameIn (c : Compiler) (name : Name)
    (tables : ModuleInfo → List (List (Name × Name))) :
    Quiet c (c.resolveNameIn name tables).2 := by
  have h := quiet_resolveSymbol c name
  rcases hs : c.resolveSymbol name with ⟨symbol, c₁⟩
  rw [hs] at h
  simp only [resolveNameIn, hs]
  repeat' split
  all_goals exact h

theorem bind_ok {ε α β : Type} {x : Except ε α} {f : α → Except ε β} {r : β}
    (h : (x >>= f) = .ok r) : ∃ a, x = .ok a ∧ f a = .ok r := by
  cases x with
  | error e => cases h
  | ok a => exact ⟨a, rfl, h⟩

end Compiler
end Nodus

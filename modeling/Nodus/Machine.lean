import Nodus.Compiler

/-! The virtual machine: one execution context of a VM, that is the main program, a coroutine, or a
closure a builtin runs, and the instructions it executes. What the VM calls outside its loop (the
data structures, the builtins, the modules, other VMs) is a `Host`. Source locations, tracing,
profiling and event counters are left out. -/

namespace Nodus

/-- A compiled module or program. -/
structure Chunk where
  code : List Instr
  functions : List (Name × FunctionInfo)

/-- A `FunctionInfo` object: the chunk whose table holds it, and its name there. -/
structure FnRef where
  chunk : Nat
  name : Name
  deriving DecidableEq, Repr

inductive Value (Obj : Type) where
  | const (c : Const)
  | closure (fn : FnRef) (upvalues : List Nat)
  | obj (o : Obj)

/-- An entry of a frame's locals: a value, or a `Cell` that closures share. -/
inductive Slot (Obj : Type) where
  | val (v : Value Obj)
  | cell (id : Nat)

/-- What `_capture_module_ctx` snapshots. The code, the function table, the locations and the bytecode
version come with the chunk; the namespaces and the builtin table are objects. -/
structure ModuleCtx where
  chunk : Nat
  moduleGlobals : Nat
  globals : Nat
  sourcePath : Option String
  builtins : Nat
  hostGlobals : Nat
  deriving DecidableEq, Repr

structure Frame (Obj : Type) where
  /-- `none` in the entry frame of a coroutine. -/
  returnIp : Option Nat
  fnName : Name
  locals : List (Name × Slot Obj) := []
  closure : Option (FnRef × List Nat) := none
  localsArray : Option (List (Slot Obj)) := none
  localsNameToSlot : List (Name × Nat) := []
  crossModuleCtx : Option ModuleCtx := none

/-- An entry of the handler stack. `handlerIp` is `none` for a finally gate, and `finallyIp` is 0 for
a `try` without `finally`. -/
structure Handler where
  handlerIp : Option Nat
  finallyIp : Nat
  stackDepth : Nat
  frameDepth : Nat
  deriving DecidableEq, Repr

structure RuntimeError (Obj : Type) where
  kind : String
  message : String
  payload : Value Obj := .const .nil
  origin : String := "vm"

/-- The memory all execution contexts share. -/
structure Store (Obj World : Type) where
  cells : List (Value Obj) := []
  world : World

/-- How Python code the VM calls ends: with a value, with an error that guest code can catch, or with
one that passes the VM loop by (`HostFunctionError`). -/
inductive Result (Obj : Type) where
  | value (v : Value Obj)
  | raise (e : RuntimeError Obj)
  | abort

/-- How a builtin ends: like any Python code, or by suspending the coroutine with a placeholder on the
stack (`SleepRequest`, `ChannelRecvRequest`). -/
inductive BuiltinResult (Obj : Type) where
  | ends (r : Result Obj)
  | sleep
  | wait

inductive IterResult (Obj : Type) where
  | item (v : Value Obj)
  | exhausted
  | notIterator
  | raise (e : RuntimeError Obj)
  | abort

/-- What a call of Python code that may run guest code leaves: how it ended, the memory, and the module
context that is loaded. A nested run that is abandoned inside a cross-module call leaves another one
than it found. -/
structure Effect (R Obj World : Type) where
  result : R
  store : Store Obj World
  ctx : ModuleCtx

/-- The object of a method call: a module or a record, with the export or field of that name. -/
inductive Receiver (Obj : Type) where
  | module (member : Option (Value Obj))
  | record (isModule : Bool) (member : Option (Value Obj))
  | other

/-- Objects that can be called. A `_ClosureProxy` carries the context its closure was compiled in. -/
inductive Callable where
  | moduleFunction (module : Nat) (name : Name)
  | builtinMethod
  | proxy (origin : Option ModuleCtx) (fn : FnRef) (upvalues : List Nat)
  | other

/-- What the VM loop calls and does not itself define. -/
structure Host where
  Obj : Type
  World : Type
  chunks : Nat → Chunk
  maxFrames : Option Nat := none
  truthy : World → Obj → Bool
  valueToString : World → Value Obj → String
  displayName : Name → Name := id
  /-- A data opcode on its operands. When it raises, the first `kept` of them were not yet popped. -/
  data : DataOp → List (Value Obj) → Store Obj World →
    (Value Obj ⊕ RuntimeError Obj × Nat) × Store Obj World
  getIter : Value Obj → ModuleCtx → Store Obj World → Effect (Result Obj) Obj World
  iterNext : Value Obj → ModuleCtx → Store Obj World → Effect (IterResult Obj) Obj World
  /-- The namespaces, by object. -/
  lookup : World → Nat → Name → Option (Value Obj)
  assign : World → Nat → Name → Value Obj → World
  externHint : World → Name → String := fun _ _ => ""
  bareImportHint : World → Name → Option String := fun _ _ => none
  /-- The arities of a builtin, if the table has it. -/
  builtinArity : Nat → Name → Option (List Nat)
  builtin : Name → List (Value Obj) → ModuleCtx → Store Obj World →
    Effect (BuiltinResult Obj) Obj World
  builtinMethod : Obj → List (Value Obj) → ModuleCtx → Store Obj World →
    Effect (BuiltinResult Obj) Obj World
  receiver : World → Value Obj → Name → Receiver Obj
  callable : World → Obj → Callable
  /-- `invoke_function` and `__call__` of a module function: it runs in a VM of its own. -/
  invoke : Nat → Name → List (Value Obj) → ModuleCtx → Store Obj World →
    Effect (Result Obj) Obj World
  /-- `run_closure` of the caller's VM. -/
  runOnCaller : FnRef → List Nat → List (Value Obj) → ModuleCtx → Store Obj World →
    Effect (Result Obj) Obj World
  /-- `module_ctx` of a module. -/
  moduleCtx : World → ModuleCtx → Nat → ModuleCtx
  /-- The context of the VM that called into this one, adopted. -/
  callerCtx : World → Option ModuleCtx := fun _ => none
  /-- The context of a reachable module, or of the VM's own program, whose table holds the function. -/
  owner : World → ModuleCtx → FnRef → Option ModuleCtx := fun _ _ _ => none
  /-- Whether the current coroutine is the task the scheduler is running. -/
  inTask : World → Bool := fun _ => false
  /-- The record a `catch` receives. -/
  errRecord : RuntimeError Obj → World → Obj × World

/-- What an execution context is doing. A suspended one may wait for a value that replaces the
placeholder on top of its stack. -/
inductive Phase (Obj : Type) where
  | running
  | suspended (slot : Bool)
  | halted
  | returned (v : Value Obj)
  | uncaught (e : RuntimeError Obj)
  | aborted

/-- An execution context. The stacks have their top at the head. -/
structure State (h : Host) where
  ip : Nat
  stack : List (Value h.Obj) := []
  frames : List (Frame h.Obj) := []
  handlerStack : List Handler := []
  deferredReturn : Option (Value h.Obj) := none
  deferredReturnDepth : Nat := 0
  deferredError : Option (RuntimeError h.Obj) := none
  deferredErrorDepth : Nat := 0
  isCoroutine : Bool := false
  cancelling : Bool := false
  ctx : ModuleCtx
  store : Store h.Obj h.World
  phase : Phase h.Obj := .running

/-- How an instruction ends. -/
inductive Outcome (h : Host) where
  | next (s : State h)
  | raise (e : RuntimeError h.Obj) (s : State h)
  | stop (p : Phase h.Obj) (s : State h)

variable {h : Host}

namespace State

def code (s : State h) : List Instr := (h.chunks s.ctx.chunk).code

def functions (s : State h) : List (Name × FunctionInfo) := (h.chunks s.ctx.chunk).functions

def push (s : State h) (v : Value h.Obj) : State h := { s with stack := v :: s.stack }

def advance (s : State h) : State h := { s with ip := s.ip + 1 }

/-- `runtime_error`. -/
def fail (s : State h) (kind message : String) : Outcome h := .raise { kind, message } s

/-- `pop`, and what is done with the value. -/
def withPop (s : State h) (k : Value h.Obj → State h → Outcome h) : Outcome h :=
  match s.stack with
  | [] => s.fail "runtime" "Stack underflow"
  | v :: rest => k v { s with stack := rest }

/-- Pops `n` arguments, the last one first. -/
def withArgs (n : Nat) (s : State h) (k : List (Value h.Obj) → State h → Outcome h) : Outcome h :=
  if s.stack.length < n then { s with stack := [] }.fail "runtime" "Stack underflow"
  else k (s.stack.take n).reverse { s with stack := s.stack.drop n }

/-- The errors of Python's own list and attribute accesses, which the loop wraps. -/
def indexError (s : State h) : Outcome h := s.fail "runtime" "list index out of range"

def noneError (s : State h) : Outcome h := s.fail "runtime" "'NoneType' object is not subscriptable"

/-- Does something with the top frame. -/
def withFrame (s : State h) (k : Frame h.Obj → List (Frame h.Obj) → Outcome h) : Outcome h :=
  match s.frames with
  | [] => s.indexError
  | f :: fs => k f fs

/-- Goes to a jump operand; one that is not patched ends the loop with a Python error. -/
def goto (s : State h) (target : Target) : Outcome h :=
  match target with
  | some t => .next { s with ip := t }
  | none => .stop .aborted s

def read (s : State h) : Slot h.Obj → Value h.Obj
  | .val v => v
  | .cell id => s.store.cells.getD id (.const .nil)

def setCell (s : State h) (id : Nat) (v : Value h.Obj) : State h :=
  { s with store := { s.store with cells := s.store.cells.set id v } }

/-- What an entry holds after a store: a cell stays, and its contents change. -/
def assignSlot (s : State h) (old : Slot h.Obj) (v : Value h.Obj) : Slot h.Obj × State h :=
  match old with
  | .cell id => (.cell id, s.setCell id v)
  | .val _ => (.val v, s)

end State

def isTruthy (s : State h) : Value h.Obj → Bool
  | .const .nil => false
  | .const (.bool b) => b
  | .const (.int n) => n != 0
  | .const (.num f) => f != 0
  | .const (.str t) => t != ""
  | .closure _ _ => true
  | .obj o => h.truthy s.store.world o

/-! Exceptions. -/

/-- Pops frames down to a depth, with the module context each of them saved. -/
def unwindFrames (depth : Nat) : List (Frame h.Obj) → ModuleCtx → List (Frame h.Obj) × ModuleCtx
  | [], ctx => ([], ctx)
  | f :: fs, ctx =>
      if depth < (f :: fs).length then unwindFrames depth fs (f.crossModuleCtx.getD ctx)
      else (f :: fs, ctx)

/-- Pops the handlers of frames that are gone. -/
def dropHandlers (depth : Nat) (hs : List Handler) : List Handler :=
  hs.dropWhile fun e => depth < e.frameDepth

/-- The lowest entries of a stack. -/
def truncate {α : Type} (depth : Nat) (stack : List α) : List α := stack.drop (stack.length - depth)

def unwindTo (frameDepth stackDepth : Nat) (s : State h) : State h :=
  let unwound := unwindFrames frameDepth s.frames s.ctx
  { s with
    frames := unwound.1
    ctx := unwound.2
    handlerStack := dropHandlers unwound.1.length s.handlerStack
    stack := truncate stackDepth s.stack }

def discardStaleDeferrals (s : State h) : State h :=
  let depth := s.handlerStack.length
  { s with
    deferredError := if depth < s.deferredErrorDepth then none else s.deferredError
    deferredReturn := if depth < s.deferredReturnDepth then none else s.deferredReturn }

/-- Enters a `finally` block with the error to raise at its end. -/
def enterFinally (e : RuntimeError h.Obj) (handler : Handler) (s : State h) : State h :=
  let s := unwindTo handler.frameDepth handler.stackDepth s
  { s with
    deferredError := some e
    deferredErrorDepth := s.handlerStack.length
    ip := handler.finallyIp }

/-- Enters a `catch` block; one with a `finally` leaves a gate. -/
def enterCatch (e : RuntimeError h.Obj) (handler : Handler) (handlerIp : Nat) (s : State h) :
    State h :=
  let s := discardStaleDeferrals (unwindTo handler.frameDepth handler.stackDepth s)
  let record := h.errRecord e s.store.world
  let s := { s.push (.obj record.1) with store := { s.store with world := record.2 } }
  let gate : Handler :=
    { handlerIp := none, finallyIp := handler.finallyIp, stackDepth := s.stack.length - 1,
      frameDepth := s.frames.length }
  { s with
    handlerStack := if handler.finallyIp ≠ 0 then gate :: s.handlerStack else s.handlerStack
    ip := handlerIp }

/-- Delivers an error to the handlers, innermost first. -/
def handleExceptionAt (e : RuntimeError h.Obj) (s : State h) : List Handler → State h
  | [] => { s with handlerStack := [], phase := .uncaught e }
  | handler :: rest =>
      match handler.handlerIp with
      | none => enterFinally e handler { s with handlerStack := rest }
      | some handlerIp =>
          if s.cancelling then
            if handler.finallyIp = 0 then handleExceptionAt e s rest
            else enterFinally e handler { s with handlerStack := rest }
          else enterCatch e handler handlerIp { s with handlerStack := rest }

/-- `handle_exception`; an error no handler takes leaves the loop. -/
def handleException (e : RuntimeError h.Obj) (s : State h) : State h :=
  handleExceptionAt e s s.handlerStack

/-! Names. -/

/-- Where a name is bound, without the locals. -/
def lookupName (s : State h) (name : Name) : Option (Value h.Obj) :=
  h.lookup s.store.world s.ctx.moduleGlobals name <|>
    ((s.functions.lookup name).map fun _ => .closure ⟨s.ctx.chunk, name⟩ []) <|>
    h.lookup s.store.world s.ctx.hostGlobals name

def undefinedName (s : State h) (name : Name) : String :=
  if name = "await" ∨ name = "async" then
    s!"\"{name}\" is not a keyword in Nodus; async builtins (http_get_async, subprocess_run_async) return their result directly — no await needed"
  else match h.bareImportHint s.store.world name with
    | some path =>
        s!"Undefined variable: '{name}'. Module '{path}' was imported without an alias — add 'as {name}' to the import to use '{name}.method()' syntax"
    | none => s!"Undefined variable: {name}" ++ h.externHint s.store.world name

def localSlot (s : State h) (name : Name) : Option (Slot h.Obj) :=
  s.frames.head?.bind fun f => f.locals.lookup name

def loadName (s : State h) (name : Name) : Option (Value h.Obj) :=
  match localSlot s name with
  | some slot => some (s.read slot)
  | none => lookupName s name

/-- `store_name`. -/
def storeName (s : State h) (name : Name) (v : Value h.Obj) : State h :=
  let setGlobal (s : State h) : State h :=
    { s with store := { s.store with world := h.assign s.store.world s.ctx.moduleGlobals name v } }
  match s.frames with
  | [] => setGlobal s
  | f :: fs =>
      match f.locals.lookup name with
      | some old =>
          { (s.assignSlot old v).2 with
            frames := { f with locals := dictSet name (s.assignSlot old v).1 f.locals } :: fs }
      | none =>
          if (h.lookup s.store.world s.ctx.moduleGlobals name).isSome then setGlobal s
          else { s with frames := { f with locals := dictSet name (.val v) f.locals } :: fs }

/-! Calls. -/

/-- The `FunctionInfo` a reference stands for. -/
def FnRef.info (fn : FnRef) (h : Host) : Option FunctionInfo :=
  (h.chunks fn.chunk).functions.lookup fn.name

/-- A `Closure` object; `origin` is the context a `_ClosureProxy` carries. -/
structure Closure where
  fn : FnRef
  upvalues : List Nat
  origin : Option ModuleCtx := none

/-- A value as a `Closure`, proxies included. -/
def asClosure (s : State h) : Value h.Obj → Option Closure
  | .closure fn upvalues => some { fn, upvalues }
  | .obj o =>
      match h.callable s.store.world o with
      | .proxy origin fn upvalues => some { fn, upvalues, origin }
      | _ => none
  | .const _ => none

def isForeign (s : State h) (fn : FnRef) : Bool := fn.chunk ≠ s.ctx.chunk

/-- The innermost context a frame saved whose chunk holds the function. -/
def savedOwner (fn : FnRef) (frames : List (Frame h.Obj)) : Option ModuleCtx :=
  frames.findSome? fun f => f.crossModuleCtx.filter (·.chunk = fn.chunk)

/-- `_foreign_closure_origin`. -/
def foreignClosureOrigin (s : State h) (callee : Closure) : Option ModuleCtx :=
  if isForeign s callee.fn then
    callee.origin <|> savedOwner callee.fn s.frames <|> h.callerCtx s.store.world <|>
      h.owner s.store.world s.ctx callee.fn
  else none

def frameLimit (s : State h) : Bool := h.maxFrames.any (· < s.frames.length + 1)

def stackOverflow (s : State h) : Outcome h := s.fail "sandbox" "Call stack overflow"

/-- Pushes a frame and goes to the function's first instruction. -/
def pushFrame (s : State h) (info : FunctionInfo) (closure : Option (FnRef × List Nat))
    (cross : Option ModuleCtx) : State h :=
  { s with
    ip := info.addr
    frames :=
      { returnIp := some (s.ip + 1), fnName := info.name, closure, localsNameToSlot := info.localSlots,
        crossModuleCtx := cross } :: s.frames }

/-- `guard_step_entry`. -/
def guardStepEntry (s : State h) (info : FunctionInfo) (k : Outcome h) : Outcome h :=
  match info.stepOwner with
  | none => k
  | some owner =>
      s.fail "runtime" s!"Workflow step '{owner}' cannot be called directly — a step body runs only as part of its workflow, in dependency order. Use run_workflow() (or run_goal()) to execute the flow."

def arityError (s : State h) (name : Name) (expected got : String) : Outcome h :=
  s.fail "call" s!"{name} expected {expected} args, got {got}"

/-- `call_closure`: the arguments are on the stack. -/
def callClosure (s : State h) (callee : Value h.Obj) (argCount : Nat) : Outcome h :=
  match asClosure s callee with
  | none => s.fail "call" ("Cannot call non-function: " ++ h.valueToString s.store.world callee)
  | some closure =>
      match closure.fn.info h with
      | none => .stop .aborted s
      | some info =>
          if argCount ≠ info.params.length then
            arityError s (h.displayName info.name) (toString info.params.length) (toString argCount)
          else guardStepEntry s info <|
            if frameLimit s then stackOverflow s
            else match foreignClosureOrigin s closure with
              | none => .next (pushFrame s info (some (closure.fn, closure.upvalues)) none)
              | some origin =>
                  .next { pushFrame s info (some (closure.fn, closure.upvalues)) (some s.ctx) with
                    ctx := origin }

/-- Runs a function of another chunk in this loop: pushes a frame that saves the context, and the
arguments. -/
def enterForeign (s : State h) (fn : FnRef) (info : FunctionInfo) (upvalues : List Nat)
    (ctx : ModuleCtx) (args : List (Value h.Obj)) : Outcome h :=
  if frameLimit s then stackOverflow s
  else
    let s' := pushFrame s info (some (fn, upvalues)) (some s.ctx)
    .next { s' with ctx := ctx, stack := args.reverse ++ s.stack }

/-- `_try_enter_foreign_closure`; `none` means to fall back on a nested run. -/
def tryEnterForeignClosure (s : State h) (origin : Option ModuleCtx) (fn : FnRef)
    (upvalues : List Nat) (args : List (Value h.Obj)) : Option (Outcome h) :=
  match origin, fn.info h with
  | some ctx, some info =>
      if (s.isCoroutine && h.inTask s.store.world && args.length == info.params.length) = true then
        some (guardStepEntry s info (enterForeign s fn info upvalues ctx args))
      else none
  | _, _ => none

/-- `_try_enter_module_call`: missing arguments are nil. -/
def tryEnterModuleCall (s : State h) (module : Nat) (name : Name) (args : List (Value h.Obj)) :
    Option (Outcome h) :=
  let ctx := h.moduleCtx s.store.world s.ctx module
  let fn : FnRef := ⟨ctx.chunk, name⟩
  if (s.isCoroutine && h.inTask s.store.world) = true then
    match fn.info h with
    | none => none
    | some info =>
        if info.params.length < args.length then none
        else
          let padding := List.replicate (info.params.length - args.length) (.const .nil)
          some (enterForeign s fn info [] ctx (args ++ padding))
  else none

/-- Pushes what Python code returned, and goes on. -/
def finish (s : State h) (r : Effect (Result h.Obj) h.Obj h.World) : Outcome h :=
  let s := { s with store := r.store, ctx := r.ctx }
  match r.result with
  | .value v => .next (s.push v).advance
  | .raise e => .raise e s
  | .abort => .stop .aborted s

/-- Pushes what a builtin returned, or suspends with a placeholder. -/
def finishBuiltin (s : State h) (r : Effect (BuiltinResult h.Obj) h.Obj h.World) : Outcome h :=
  let s := { s with store := r.store, ctx := r.ctx }
  match r.result with
  | .ends result => finish s { r with result }
  | .sleep =>
      let s := s.push (.const .nil)
      if s.isCoroutine then .stop (.suspended true) s.advance
      else s.fail "runtime" "sleep(ms) outside coroutine — wrap your code in spawn(coroutine(fn() \x7b ... \x7d)) and call run_loop()"
  | .wait => .stop (.suspended true) (s.push (.const .nil)).advance

/-- `call_builtin`. -/
def callBuiltin (s : State h) (name : Name) (arities : List Nat) (argCount : Nat) : Outcome h :=
  if argCount ∈ arities then
    s.withArgs argCount fun args s => finishBuiltin s (h.builtin name args s.ctx s.store)
  else arityError s name (", ".intercalate (arities.map toString)) (toString argCount)

def opCall (s : State h) (name : Name) (argCount : Nat) : Outcome h :=
  if isReserved name then
    let name := String.ofList (name.toList.drop builtinCallPrefix.length)
    match h.builtinArity s.ctx.builtins name with
    | some arities => callBuiltin s name arities argCount
    | none => s.fail "name" s!"Undefined function: {name} (required by a compiler-generated call)"
  else match s.functions.lookup name with
    | some info =>
        if argCount ≠ info.params.length then
          arityError s name (toString info.params.length) (toString argCount)
        else if info.upvalues ≠ [] then s.fail "call" s!"{h.displayName name} requires a closure"
        else if frameLimit s then stackOverflow s
        else .next (pushFrame s { info with name } none none)
    | none =>
        match h.builtinArity s.ctx.builtins name with
        | some arities => callBuiltin s name arities argCount
        | none =>
            if (localSlot s name).isSome ∨ (h.lookup s.store.world s.ctx.globals name).isSome then
              match loadName s name with
              | none => s.fail "name" (undefinedName s name)
              | some callee =>
                  match callee with
                  | .obj o =>
                      match h.callable s.store.world o with
                      | .moduleFunction module fn =>
                          s.withArgs argCount fun args s => finish s (h.invoke module fn args s.ctx s.store)
                      | _ => callClosure s callee argCount
                  | _ => callClosure s callee argCount
            else s.fail "name" (s!"Undefined function: {name}" ++ h.externHint s.store.world name)

/-- A closure of the calling VM: in this loop if it can be, else there. -/
def callForeign (s : State h) (origin : Option ModuleCtx) (fn : FnRef) (upvalues : List Nat)
    (args : List (Value h.Obj)) : Outcome h :=
  match tryEnterForeignClosure s origin fn upvalues args with
  | some outcome => outcome
  | none => finish s (h.runOnCaller fn upvalues args s.ctx s.store)

/-- The end of a value call: the arguments go back on the stack. -/
def callWith (s : State h) (callee : Value h.Obj) (args : List (Value h.Obj)) : Outcome h :=
  callClosure { s with stack := args.reverse ++ s.stack } callee args.length

def opCallValue (s : State h) (argCount : Nat) : Outcome h :=
  s.withArgs argCount fun args s => s.withPop fun callee s =>
    match callee with
    | .obj o =>
        match h.callable s.store.world o with
        | .moduleFunction module name => finish s (h.invoke module name args s.ctx s.store)
        | .proxy origin fn upvalues => callForeign s origin fn upvalues args
        | _ => callWith s callee args
    | .closure fn upvalues =>
        match h.callerCtx s.store.world with
        | some ctx =>
            if isForeign s fn then callForeign s (some ctx) fn upvalues args
            else callWith s callee args
        | none => callWith s callee args
    | .const _ => callWith s callee args

/-- A module function reached as a member: in this loop if it can be, else in a VM of its own. -/
def callModuleFunction (s : State h) (module : Nat) (name : Name) (args : List (Value h.Obj)) :
    Outcome h :=
  match tryEnterModuleCall s module name args with
  | some outcome => outcome
  | none => finish s (h.invoke module name args s.ctx s.store)

def opCallMethod (s : State h) (name : Name) (argCount : Nat) : Outcome h :=
  s.withArgs argCount fun args s => s.withPop fun obj s =>
    match h.receiver s.store.world obj name with
    | .other => s.fail "type" "Method calls are only supported on records"
    | .module none => s.fail "key" s!"Missing module export: {name}"
    | .record _ none => s.fail "key" s!"Missing record field: {name}"
    | .module (some method) =>
        match method with
        | .obj o =>
            match h.callable s.store.world o with
            | .moduleFunction module fn => callModuleFunction s module fn args
            | _ => callWith s method args
        | _ => callWith s method args
    | .record isModule (some method) =>
        let direct := if isModule then callWith s method args else callWith s method (obj :: args)
        match method with
        | .obj o =>
            match h.callable s.store.world o with
            | .builtinMethod => finishBuiltin s (h.builtinMethod o args s.ctx s.store)
            | .moduleFunction module fn => callModuleFunction s module fn args
            | _ => direct
        | _ => direct

/-! Locals and closures. -/

/-- Replaces an entry of the top frame's array. -/
def setSlot (f : Frame h.Obj) (slot : Nat) (entry : Slot h.Obj) : Frame h.Obj :=
  { f with localsArray := f.localsArray.map fun arr => arr.set slot entry }

/-- Does something with an entry of the top frame's array. -/
def withSlot (s : State h) (slot : Nat)
    (k : Frame h.Obj → List (Frame h.Obj) → Slot h.Obj → Outcome h) : Outcome h :=
  s.withFrame fun f fs =>
    match f.localsArray with
    | none => s.noneError
    | some arr =>
        match arr[slot]? with
        | none => s.indexError
        | some entry => k f fs entry

def opStoreLocalIdx (s : State h) (slot : Nat) : Outcome h :=
  s.withPop fun v s => withSlot s slot fun f fs old =>
    .next { (s.assignSlot old v).2 with
      frames := setSlot f slot (s.assignSlot old v).1 :: fs }.advance

/-- `STORE_ARG`: stores into the dictionary, and into the array at the slot the name has there. -/
def opStoreArg (s : State h) (name : Name) : Outcome h :=
  s.withPop fun v s =>
    match s.frames with
    | [] => s.fail "runtime" "STORE_ARG used without a call frame"
    | f :: fs =>
        let stored := s.assignSlot ((f.locals.lookup name).getD (.val v)) v
        let f := { f with locals := dictSet name stored.1 f.locals }
        match f.localsArray, f.localsNameToSlot.lookup name with
        | some arr, some slot =>
            if slot < arr.length then .next { stored.2 with frames := setSlot f slot (.val v) :: fs }.advance
            else { stored.2 with frames := f :: fs }.indexError
        | _, _ => .next { stored.2 with frames := f :: fs }.advance

/-- The cell of an upvalue of the running closure. -/
def upvalueCell (s : State h) (index : Option Nat) (what : String) : Nat ⊕ Outcome h :=
  match s.frames with
  | [] => .inr (s.fail "runtime" s!"{what} used without a call frame")
  | f :: _ =>
      match f.closure, index with
      | some (_, upvalues), some i =>
          match upvalues[i]? with
          | some cell => .inl cell
          | none => .inr (s.fail "runtime" "Invalid upvalue access")
      | _, _ => .inr (s.fail "runtime" "Invalid upvalue access")

/-- The cell of an entry: the one it is, or a new one with its value. -/
def cellOf (store : Store h.Obj h.World) : Slot h.Obj → Nat × Store h.Obj h.World
  | .cell id => (id, store)
  | .val v => (store.cells.length, { store with cells := store.cells ++ [v] })

/-- `capture_local`: by the slot the name has in the frame's table, or by the name in the
dictionary. -/
def captureLocal (f : Frame h.Obj) (store : Store h.Obj h.World) (name : Name) :
    Option (Nat × Frame h.Obj × Store h.Obj h.World) :=
  match f.localsArray, f.localsNameToSlot.lookup name with
  | some arr, some slot =>
      match arr[slot]? with
      | none => none
      | some (.cell id) => some (id, f, store)
      | some entry =>
          let made := cellOf store entry
          let f := { setSlot f slot (.cell made.1) with locals := dictSet name (.cell made.1) f.locals }
          some (made.1, f, made.2)
  | _, _ =>
      let made := cellOf store ((f.locals.lookup name).getD (.val (.const .nil)))
      some (made.1, { f with locals := dictSet name (.cell made.1) f.locals }, made.2)

/-- The cells of a new closure, captured in the order of its upvalues. -/
def captureUpvalues : List Upvalue → List Nat → State h → (List Nat → State h → Outcome h) → Outcome h
  | [], cells, s, k => k cells s
  | u :: us, cells, s, k =>
      if u.isLocal then
        match s.frames with
        | [] => s.fail "runtime" "Closure capture without frame"
        | f :: fs =>
            match captureLocal f s.store u.name with
            | none => s.indexError
            | some (cell, f, store) =>
                captureUpvalues us (cells ++ [cell]) { s with frames := f :: fs, store } k
      else
        match s.frames.head?.bind (·.closure), u.index with
        | none, _ => s.fail "runtime" "Closure capture missing outer closure"
        | some (_, outer), some i =>
            match outer[i]? with
            | some cell => captureUpvalues us (cells ++ [cell]) s k
            | none => s.indexError
        | some _, none => s.indexError

def opMakeClosure (s : State h) (name : Name) : Outcome h :=
  match s.functions.lookup name with
  | none => s.fail "runtime" s!"Unknown function for closure: {name}"
  | some info => captureUpvalues info.upvalues [] s fun cells s =>
      .next (s.push (.closure ⟨s.ctx.chunk, name⟩ cells)).advance

/-! Control. -/

def opIterNext (s : State h) (target : Target) : Outcome h :=
  match s.stack with
  | [] => s.fail "runtime" "ITER_NEXT without iterator"
  | iterator :: rest =>
      let r := h.iterNext iterator s.ctx s.store
      let s := { s with store := r.store, ctx := r.ctx }
      match r.result with
      | .item v => .next (s.push v).advance
      | .exhausted => { s with stack := rest }.goto target
      | .notIterator => s.fail "type" "Iterator is not supported"
      | .raise e => .raise e s
      | .abort => .stop .aborted s

def opSetupTry (s : State h) (handler : Target) (fin : Option Target) : Outcome h :=
  match handler, fin with
  | some handlerIp, none => push handlerIp 0
  | some handlerIp, some (some finallyIp) => push handlerIp finallyIp
  | _, _ => .stop .aborted s
where
  push (handlerIp finallyIp : Nat) : Outcome h :=
    let entry : Handler :=
      { handlerIp := some handlerIp, finallyIp, stackDepth := s.stack.length,
        frameDepth := s.frames.length }
    .next { s with handlerStack := entry :: s.handlerStack }.advance

def opPopTry (s : State h) : Outcome h :=
  match s.handlerStack with
  | [] => s.fail "runtime" "POP_TRY without handler"
  | handler :: rest =>
      let s := { s with handlerStack := rest }
      if handler.finallyIp ≠ 0 then .next { s with ip := handler.finallyIp } else .next s.advance

/-- Ends a call whose frame is popped: pops its handlers, and goes back with the value. -/
def leaveFrame (s : State h) (frame : Frame h.Obj) (v : Value h.Obj) : Outcome h :=
  let s := { s with handlerStack := dropHandlers s.frames.length s.handlerStack }
  match frame.returnIp with
  | some ip => .next { s.push v with ip := ip }
  | none => .stop (.returned v) s

def opReturn (s : State h) : Outcome h :=
  s.withPop fun v s =>
    match s.frames with
    | [] => s.fail "runtime" "RETURN outside function"
    | frame :: frames =>
        match s.handlerStack with
        | handler :: rest =>
            if handler.frameDepth = s.frames.length ∧ handler.finallyIp ≠ 0 then
              .next { s with
                handlerStack := rest
                deferredReturn := some v
                deferredReturnDepth := rest.length
                ip := handler.finallyIp }
            else leaveFrame { s with frames, ctx := frame.crossModuleCtx.getD s.ctx } frame v
        | [] => leaveFrame { s with frames, ctx := frame.crossModuleCtx.getD s.ctx } frame v

/-- Pops a finally gate that is on top of the handlers. -/
def popGate : List Handler → List Handler
  | handler :: rest => if handler.handlerIp = none then rest else handler :: rest
  | [] => []

/-- `FINALLY_END`: an error that waits is raised again, else a return that waits is performed. -/
def opFinallyEnd (s : State h) : Outcome h :=
  match s.deferredError with
  | some e => .raise e { s with deferredError := none }
  | none =>
      let s := { s with handlerStack := popGate s.handlerStack }
      match s.deferredReturn with
      | none => .next s.advance
      | some v =>
          let s := { s with deferredReturn := none }
          match s.frames with
          | [] => s.fail "runtime" "FINALLY_END deferred return outside function"
          | frame :: frames => leaveFrame { s with frames } frame v

/-- `THROW`: strings are the message, other constants are printed, the rest is the payload. -/
def thrown (s : State h) (v : Value h.Obj) : RuntimeError h.Obj :=
  match v with
  | .const (.str message) => { kind := "thrown", message, origin := "user" }
  | .const (.bool _) | .const (.int _) | .const (.num _) =>
      { kind := "thrown", message := h.valueToString s.store.world v, origin := "user" }
  | _ => { kind := "thrown", message := h.valueToString s.store.world v, payload := v, origin := "user" }

def opData (s : State h) (op : DataOp) : Outcome h :=
  s.withArgs op.arity fun args s =>
    let r := h.data op args s.store
    let s := { s with store := r.2 }
    match r.1 with
    | .inl v => .next (s.push v).advance
    | .inr (e, kept) => .raise e { s with stack := (args.take kept).reverse ++ s.stack }

/-- One instruction. -/
def exec (s : State h) : Instr → Outcome h
  | .pushConst c => .next (s.push (.const c)).advance
  | .frameSize n => s.withFrame fun f fs =>
      let arr := List.replicate n (Slot.val (.const .nil))
      .next { s with frames := { f with localsArray := some arr } :: fs }.advance
  | .load name =>
      match loadName s name with
      | some v => .next (s.push v).advance
      | none => s.fail "name" (undefinedName s name)
  | .loadLocalIdx slot => withSlot s slot fun _ _ entry => .next (s.push (s.read entry)).advance
  | .loadUpvalue index =>
      match upvalueCell s index "LOAD_UPVALUE" with
      | .inl cell => .next (s.push (s.read (.cell cell))).advance
      | .inr outcome => outcome
  | .store name => s.withPop fun v s => .next (storeName s name v).advance
  | .storeLocalIdx slot => opStoreLocalIdx s slot
  | .resetLocalIdx slot => withSlot s slot fun f fs _ =>
      .next { s with frames := setSlot f slot (.val (.const .nil)) :: fs }.advance
  | .storeUpvalue index => s.withPop fun v s =>
      match upvalueCell s index "STORE_UPVALUE" with
      | .inl cell => .next (s.setCell cell v).advance
      | .inr outcome => outcome
  | .storeArg name => opStoreArg s name
  | .pop => s.withPop fun _ s => .next s.advance
  | .data op => opData s op
  | .jump target => s.goto target
  | .jumpIfFalse target => s.withPop fun v s =>
      if isTruthy s v then .next s.advance else s.goto target
  | .jumpIfTrue target => s.withPop fun v s =>
      if isTruthy s v then s.goto target else .next s.advance
  | .getIter => s.withPop fun v s => finish s (h.getIter v s.ctx s.store)
  | .iterNext target => opIterNext s target
  | .setupTry handler fin => opSetupTry s handler fin
  | .popTry => opPopTry s
  | .finallyEnd => opFinallyEnd s
  | .call name argCount => opCall s name argCount
  | .callValue argCount => opCallValue s argCount
  | .makeClosure name => opMakeClosure s name
  | .callMethod name argCount => opCallMethod s name argCount
  | .throw => s.withPop fun v s => .raise (thrown s v) s
  | .yield => s.withPop fun _ s =>
      if s.isCoroutine then .stop (.suspended false) s.advance
      else s.fail "runtime" "yield outside coroutine"
  | .ret => opReturn s
  | .halt => .stop .halted s

/-- One round of the loop in `execute`. -/
def execute (s : State h) : State h :=
  match s.code[s.ip]? with
  | none => { s with phase := .halted }
  | some i =>
      match exec s i with
      | .next s' => s'
      | .raise e s' => handleException e s'
      | .stop p s' => { s' with phase := p }

/-- What happens to an execution context: it runs an instruction; the scheduler preempts it, or resumes
it, with a memory that others changed, with a value for the placeholder, or with an error it waited
for; or a timeout cancels it. -/
inductive Step : State h → State h → Prop
  | run {s : State h} (hp : s.phase = .running) : Step s (execute s)
  | preempt {s : State h} (hp : s.phase = .running) (hc : s.isCoroutine = true) :
      Step s { s with phase := .suspended false }
  | resume {s : State h} {slot : Bool} (hp : s.phase = .suspended slot) (hc : s.cancelling = false)
      (store : Store h.Obj h.World) : Step s { s with phase := .running, store := store }
  | deliver {s : State h} {v : Value h.Obj} {rest : List (Value h.Obj)}
      (hp : s.phase = .suspended true) (hc : s.cancelling = false) (hs : s.stack = v :: rest)
      (store : Store h.Obj h.World) (w : Value h.Obj) :
      Step s { s with phase := .running, store := store, stack := w :: rest }
  | fail {s : State h} {slot : Bool} (hp : s.phase = .suspended slot) (hc : s.cancelling = false)
      (store : Store h.Obj h.World) (e : RuntimeError h.Obj) :
      Step s (handleException e { s with phase := .running, store := store })
  | cancel {s : State h} {slot : Bool} (hp : s.phase = .suspended slot) (hc : s.cancelling = false)
      (store : Store h.Obj h.World) (e : RuntimeError h.Obj) :
      Step s (handleException e { s with phase := .running, store := store, cancelling := true })

/-- Where the main program of a chunk starts. -/
def State.main (ctx : ModuleCtx) (store : Store h.Obj h.World) : State h := { ip := 0, ctx, store }

/-- Where a coroutine starts, and a closure that a builtin runs: in an entry frame of its own. -/
def State.entry (ctx : ModuleCtx) (store : Store h.Obj h.World) (fn : FnRef) (upvalues : List Nat)
    (info : FunctionInfo) (args : List (Value h.Obj)) : State h :=
  { ip := info.addr
    stack := args.reverse
    frames := [{ returnIp := none, fnName := info.name, closure := some (fn, upvalues),
                 localsNameToSlot := info.localSlots }]
    isCoroutine := true
    ctx, store }

/-! A small host, to run programs on: there are no data but modules and iterators, no builtins, and the
variable `m` is the module compiled to chunk 1. -/

/-- The chunk a program compiles to, empty if it is rejected. -/
def Chunk.ofProgram (program : Program) : Chunk :=
  match Compiler.compileProgram program (Compiler.start program none [] []) with
  | .ok c => ⟨c.code, c.functions⟩
  | .error _ => ⟨[], []⟩

def ModuleCtx.ofChunk (chunk : Nat) : ModuleCtx := ⟨chunk, chunk, chunk, none, 0, 0⟩

def Host.modules (chunks : Nat → Chunk) : Host where
  Obj := Nat × Option Name
  World := Unit
  chunks := chunks
  truthy _ _ := true
  valueToString _ _ := ""
  data _ _ store := (.inr ({ kind := "type", message := "no data" }, 0), store)
  getIter v ctx store := ⟨.value v, store, ctx⟩
  iterNext _ ctx store := ⟨.item (.const .nil), store, ctx⟩
  lookup _ _ name := if name = "m" then some (.obj (1, none)) else none
  assign _ _ _ _ := ()
  builtinArity _ _ := none
  builtin _ _ ctx store := ⟨.ends .abort, store, ctx⟩
  builtinMethod _ _ ctx store := ⟨.ends .abort, store, ctx⟩
  receiver _ v name :=
    match v with
    | .obj (k, none) => .module (((chunks k).functions.lookup name).map fun _ => .obj (k, some name))
    | _ => .other
  callable _ o :=
    match o with
    | (k, some name) => .moduleFunction k name
    | _ => .other
  invoke _ _ _ ctx store := ⟨.abort, store, ctx⟩
  runOnCaller _ _ _ ctx store := ⟨.abort, store, ctx⟩
  moduleCtx _ _ k := .ofChunk k
  inTask _ := true
  errRecord _ _ := ((0, none), ())

/-- A coroutine that runs a function of chunk 0 without arguments. -/
def startFn (chunks : Nat → Chunk) (name : Name) : State (Host.modules chunks) :=
  match (chunks 0).functions.lookup name with
  | some info => State.entry (.ofChunk 0) ⟨[], ()⟩ ⟨0, name⟩ [] info []
  | none => State.main (.ofChunk 0) ⟨[], ()⟩

def Phase.isRunning {Obj : Type} : Phase Obj → Bool
  | .running => true
  | _ => false

theorem Phase.eq_running {Obj : Type} {p : Phase Obj} (hp : p.isRunning = true) : p = .running := by
  cases p <;> first | rfl | cases hp

end Nodus

import Nodus.Doors

/-! Names in call position. A call of an identifier is compiled to a load and a call of the value, or to a
call by name, which asks the function table and the builtins before the variables. Calls that the
compiler generates itself are calls by name too. -/

namespace Nodus

open Trace

variable {h : Host}

/-- What a call by name invokes. -/
inductive CallTarget (Obj : Type) where
  | builtin (name : Name)
  | function (fn : FnRef)
  | value (v : Value Obj)
  | unbound

/-- The value that is invoked; a function of the table is a closure without cells. -/
def CallTarget.invoked {Obj : Type} : CallTarget Obj → Option (Value Obj)
  | .function fn => some (.closure fn [])
  | .value v => some v
  | .builtin _ | .unbound => none

/-- The name without the prefix of compiler-generated calls. -/
def stripReserved (name : Name) : Name := String.ofList (name.toList.drop builtinCallPrefix.length)

def callTarget (s : State h) (name : Name) : CallTarget h.Obj :=
  if isReserved name then
    if (h.builtinArity s.ctx.builtins (stripReserved name)).isSome then .builtin (stripReserved name)
    else .unbound
  else if (s.functions.lookup name).isSome then .function ⟨s.ctx.chunk, name⟩
  else if (h.builtinArity s.ctx.builtins name).isSome then .builtin name
  else if (localSlot s name).isSome ∨ (h.lookup s.store.world s.ctx.globals name).isSome then
    match loadName s name with
    | some v => .value v
    | none => .unbound
  else .unbound

/-- What `CALL` does with its target. -/
inductive OpensTarget (s : State h) (argCount : Nat) : CallTarget h.Obj → Outcome h → Prop
  | builtin {name : Name} {arities : List Nat} (ha : h.builtinArity s.ctx.builtins name = some arities) :
      OpensTarget s argCount (.builtin name) (callBuiltin s name arities argCount)
  | function {fn : FnRef} {info : FunctionInfo} (hf : fn.info h = some info) :
      OpensTarget s argCount (.function fn) (.next (pushFrame s { info with name := fn.name } none none))
  | refused {fn : FnRef} {kind message : String} : OpensTarget s argCount (.function fn) (s.fail kind message)
  | moduleFunction {o : h.Obj} {module : Nat} {name : Name}
      (hc : h.callable s.store.world o = .moduleFunction module name) :
      OpensTarget s argCount (.value (.obj o))
        (s.withArgs argCount fun args s => finish s (h.invoke module name args s.ctx s.store))
  | value {v : Value h.Obj} : OpensTarget s argCount (.value v) (callClosure s v argCount)
  | unbound {kind message : String} : OpensTarget s argCount .unbound (s.fail kind message)

theorem opCall_target (s : State h) (name : Name) (n : Nat) :
    OpensTarget s n (callTarget s name) (opCall s name n) := by
  by_cases hr : isReserved name = true
  · simp only [opCall, callTarget, hr, if_true]
    cases ha : h.builtinArity s.ctx.builtins (stripReserved name) with
    | some arities =>
        have hb : h.builtinArity s.ctx.builtins
            (String.ofList (name.toList.drop builtinCallPrefix.length)) = some arities := ha
        rw [hb]
        exact .builtin ha
    | none =>
        have hb : h.builtinArity s.ctx.builtins
            (String.ofList (name.toList.drop builtinCallPrefix.length)) = none := ha
        rw [hb]
        exact .unbound
  · simp only [opCall, callTarget, if_neg hr]
    cases hinfo : s.functions.lookup name with
    | some info =>
        have hf : FnRef.info ⟨s.ctx.chunk, name⟩ h = some info := hinfo
        simp only [Option.isSome_some, if_true]
        split
        · exact .refused
        · split
          · exact .refused
          · split
            · exact .refused
            · exact .function hf
    | none =>
        cases ha : h.builtinArity s.ctx.builtins name with
        | some arities => exact .builtin ha
        | none =>
            simp only [Option.isSome_none, Bool.false_eq_true, if_false]
            split
            · cases hload : loadName s name with
              | none => exact .unbound
              | some callee =>
                  dsimp only
                  split
                  · split
                    · rename_i hmf
                      exact .moduleFunction hmf
                    · exact .value
                  · exact .value
            · exact .unbound

/-! ### Resolution -/

theorem resolveOuter_walk_kept (name : Name) (chain : List Scope)
    (hc : ∀ symbol isLocal, (resolveOuter.walk name chain).1 ≠ some (.capture symbol isLocal)) :
    (resolveOuter.walk name chain).2 = chain := by
  induction chain with
  | nil => rfl
  | cons scope rest ih =>
      unfold resolveOuter.walk at hc ⊢
      cases hlookup : scope.symbols.lookup name with
      | some symbol =>
          simp only [hlookup] at hc ⊢
          split
          · rfl
          · rfl
      | none =>
          simp only [hlookup] at hc ⊢
          by_cases hfn : scope.kind = .function
          · simp only [if_pos hfn] at hc ⊢
            generalize hg : (if (currentFunctionScope rest).isSome = true then resolveOuter.walk name rest
              else ((findGlobal name rest).map .global, rest)) = found at hc ⊢
            have hkept : (∀ symbol isLocal, found.1 ≠ some (.capture symbol isLocal)) → found.2 = rest := by
              intro hf
              subst hg
              split at hf
              · rename_i hout
                rw [if_pos hout]
                exact ih hf
              · rename_i hout
                rw [if_neg hout]
            obtain ⟨outer, rest'⟩ := found
            cases outer with
            | none =>
                have := hkept (by simp)
                simp_all
            | some outer =>
                cases outer with
                | global symbol =>
                    have := hkept (by simp)
                    simp_all
                | capture symbol isLocal => exact absurd rfl (hc _ _)
          · simp only [if_neg hfn] at hc ⊢
            rw [ih hc]

theorem resolveOuter_kept (name : Name) (chain : List Scope)
    (hc : ∀ symbol isLocal, (resolveOuter name chain).1 ≠ some (.capture symbol isLocal)) :
    (resolveOuter name chain).2 = chain := by
  unfold resolveOuter at hc ⊢
  split
  · rename_i hout
    rw [if_pos hout] at hc
    exact resolveOuter_walk_kept name chain hc
  · rfl

theorem Scope.addUpvalue_scope (s : Scope) (symbol : Symbol) (isLocal : Bool) :
    (s.addUpvalue symbol isLocal).1.scope = .upvalue := by
  unfold Scope.addUpvalue
  split
  · split
    · assumption
    · rfl
  · rfl

theorem resolveUpvalue_kept (name : Name) (scopes : List Scope)
    (hc : ∀ symbol, (resolveUpvalue name scopes).1 = some symbol → symbol.scope ≠ .upvalue) :
    (resolveUpvalue name scopes).2 = scopes := by
  induction scopes with
  | nil => rfl
  | cons scope rest ih =>
      unfold resolveUpvalue at hc ⊢
      by_cases hfn : scope.kind = .function
      · simp only [if_pos hfn] at hc ⊢
        have hkept := resolveOuter_kept name rest
        generalize resolveOuter name rest = found at hc hkept ⊢
        obtain ⟨outer, rest'⟩ := found
        cases outer with
        | none =>
            have := hkept (by simp)
            simp_all
        | some outer =>
            cases outer with
            | global symbol =>
                have := hkept (by simp)
                simp_all
            | capture symbol isLocal => exact absurd (scope.addUpvalue_scope symbol isLocal) (hc _ rfl)
      · simp only [if_neg hfn] at hc ⊢
        rw [ih hc]

theorem SymbolTable.resolve_kept (t : SymbolTable) (name : Name)
    (hc : ∀ symbol, (t.resolve name).1 = some symbol → symbol.scope ≠ .upvalue) : (t.resolve name).2 = t := by
  unfold SymbolTable.resolve at hc ⊢
  cases hl : resolveLocal name t.scopes with
  | some symbol => rfl
  | none =>
      simp only [hl] at hc ⊢
      have hscopes := resolveUpvalue_kept name t.scopes hc
      have hnew : (resolveUpvalue name t.scopes).1.any (fun s => decide (s.scope = .upvalue)) = false := by
        cases hs : (resolveUpvalue name t.scopes).1 with
        | none => rfl
        | some symbol => simpa using hc symbol hs
      simp only [hscopes, hnew, Bool.false_eq_true, if_false]

theorem Compiler.resolveSymbol_kept (c : Compiler) (name : Name)
    (hc : ∀ symbol, (c.resolveSymbol name).1 = some symbol → symbol.scope ≠ .upvalue) :
    (c.resolveSymbol name).2 = c := by
  unfold Compiler.resolveSymbol at hc ⊢
  cases hs : c.symbols with
  | none => rfl
  | some table =>
      simp only [hs] at hc ⊢
      rw [table.resolve_kept name hc, ← hs]

/-! ### Calls of identifiers -/

/-- How a call of an identifier was compiled: with the instruction that loads the callee, or by name. -/
inductive CallSite where
  | byValue (load : Instr)
  | byName (name : Name)

/-- Going from `c` to `c'` the compiler emitted a call of `f` in this way. What it loads, or the name it
calls, is what `f` is compiled to in value position: before the arguments, or after them if these do not
make a variable of it. -/
inductive Compiler.CallsAs (f : Name) (argCount : Nat) (c c' : Compiler) : CallSite → Prop
  | byValue {load : Instr} {c₁ c₂ : Compiler} (hv : compileVar f c = .ok (c₁.emit load))
      (hc : c' = c₂.emit (.callValue argCount)) : CallsAs f argCount c c' (.byValue load)
  | byName {name : Name} {c₁ c₂ : Compiler} (hc : c' = c₂.emit (.call name argCount))
      (hv : (∀ symbol, (c₁.resolveSymbol f).1 = some symbol → symbol.scope = .global) →
        ∃ c₃ : Compiler, compileVar f c₁ = .ok (c₃.emit (.load name))) : CallsAs f argCount c c' (.byName name)

namespace Compiler

variable {c c' : Compiler} {f : Name} {args : Compile} {n : Nat}

theorem ensureNameAccess_resolved {symbol : Symbol} (hs : (c.resolveSymbol f).1 = some symbol)
    (hup : symbol.scope ≠ .upvalue) : ensureNameAccess f c = .ok c := by
  have hkept : (c.resolveSymbol f).2 = c := by
    refine c.resolveSymbol_kept f fun symbol' hs' => ?_
    rw [hs] at hs'
    cases hs'
    exact hup
  unfold ensureNameAccess
  split
  · rfl
  · simp only [hs, hkept, Option.isSome_some, if_true]
    rfl

theorem compileVar_byName (hg : ∀ symbol, (c.resolveSymbol f).1 = some symbol → symbol.scope = .global) :
    compileVar f c = compileVar.loadByName f c := by
  have hkept : (c.resolveSymbol f).2 = c := by
    refine c.resolveSymbol_kept f fun symbol hs => ?_
    rw [hg symbol hs]
    decide
  unfold compileVar
  simp only [hkept]
  cases hs : (c.resolveSymbol f).1 with
  | none => rfl
  | some symbol => simp [hg symbol hs]

theorem calleeLoad_value {load : Instr} {c₁ : Compiler} (hl : calleeLoad f c = .ok (some load, c₁)) :
    compileVar f c = .ok (c₁.emit load) := by
  unfold calleeLoad at hl
  unfold compileVar
  cases hs : (c.resolveSymbol f).1 with
  | none =>
      simp only [hs] at hl
      cases hl
  | some symbol =>
      simp only [hs] at hl ⊢
      by_cases hup : symbol.scope = .upvalue
      · simp only [if_pos hup] at hl ⊢
        cases hl
        rfl
      · simp only [if_neg hup] at hl ⊢
        have hkept : (c.resolveSymbol f).2 = c := by
          refine c.resolveSymbol_kept f fun symbol' hs' => ?_
          rw [hs] at hs'
          cases hs'
          exact hup
        rw [hkept] at hl ⊢
        split at hl
        · rename_i hlocal
          rw [if_pos hlocal]
          cases hi : symbol.index with
          | none =>
              rw [hi] at hl
              cases hl
          | some slot =>
              rw [hi] at hl
              cases hl
              rfl
        · rename_i hlocal
          rw [if_neg hlocal]
          split at hl
          · cases hl
          · cases hl
            unfold compileVar.loadByName
            rw [ensureNameAccess_resolved hs hup]
            rfl

theorem callsAs_of_compileCallByName (hc : compileCallByName f args n c = .ok c') :
    ∃ site, CallsAs f n c c' site := by
  obtain ⟨⟨load, c₁⟩, hl, hc⟩ := bind_ok hc
  cases load with
  | some load =>
      obtain ⟨c₂, hargs, hc⟩ := bind_ok hc
      cases hc
      exact ⟨.byValue load, .byValue (calleeLoad_value hl) rfl⟩
  | none =>
      obtain ⟨c₂, hargs, hc⟩ := bind_ok hc
      obtain ⟨c₃, ha, hc⟩ := bind_ok hc
      cases hc
      have hv : (∀ symbol, (c₂.resolveSymbol f).1 = some symbol → symbol.scope = .global) →
          ∃ c₄ : Compiler, compileVar f c₂ = .ok (c₄.emit (.load (c₃.resolveName f).1)) := by
        intro hg
        refine ⟨(c₃.resolveName f).2, ?_⟩
        rw [compileVar_byName hg]
        unfold compileVar.loadByName
        rw [ha]
        rfl
      exact ⟨.byName (c₃.resolveName f).1, .byName rfl hv⟩

end Compiler

/-- What `CALL_VALUE` does with the value it pops. -/
inductive OpensValue (s : State h) (args : List (Value h.Obj)) : Value h.Obj → Outcome h → Prop
  | moduleFunction {o : h.Obj} {module : Nat} {name : Name}
      (hc : h.callable s.store.world o = .moduleFunction module name) :
      OpensValue s args (.obj o) (finish s (h.invoke module name args s.ctx s.store))
  | proxy {o : h.Obj} {origin : Option ModuleCtx} {fn : FnRef} {upvalues : List Nat}
      (hc : h.callable s.store.world o = .proxy origin fn upvalues) :
      OpensValue s args (.obj o) (callForeign s origin fn upvalues args)
  | foreign {ctx : ModuleCtx} {fn : FnRef} {upvalues : List Nat} (hc : h.callerCtx s.store.world = some ctx) :
      OpensValue s args (.closure fn upvalues) (callForeign s (some ctx) fn upvalues args)
  | direct {v : Value h.Obj} : OpensValue s args v (callWith s v args)

theorem opCallValue_opens {s : State h} {v : Value h.Obj} {n : Nat} (hv : s.stack[n]? = some v) :
    OpensValue { s with stack := s.stack.drop (n + 1) } (s.stack.take n).reverse v (opCallValue s n) := by
  obtain ⟨hlt, he⟩ := List.getElem?_eq_some_iff.mp hv
  have hdrop : s.stack.drop n = v :: s.stack.drop (n + 1) := by
    rw [List.drop_eq_getElem_cons hlt, he]
  unfold opCallValue State.withArgs State.withPop
  rw [if_neg (by omega)]
  simp only [hdrop]
  cases v with
  | const c => exact .direct
  | obj o =>
      dsimp only
      split
      · exact .moduleFunction (by assumption)
      · exact .proxy (by assumption)
      · exact .direct
  | closure fn upvalues =>
      dsimp only
      split
      · split
        · exact .foreign (by assumption)
        · exact .direct
      · exact .direct

namespace CallSite

/-- What the identifier stands for where it is called: the value it left below the arguments, or what `LOAD`
finds. -/
def yields (s : State h) (n : Nat) : CallSite → Option (Value h.Obj)
  | .byValue _ => s.stack[n]?
  | .byName name => loadName s name

/-- The call goes to `v`. -/
def Invokes (s : State h) (n : Nat) (v : Value h.Obj) : CallSite → Prop
  | .byValue _ =>
      OpensValue { s with stack := s.stack.drop (n + 1) } (s.stack.take n).reverse v (opCallValue s n)
  | .byName name => (callTarget s name).invoked = some v ∧ OpensTarget s n (callTarget s name) (opCall s name n)

/-- No other meaning of the name comes first: a function of that name is not covered by a variable that holds
something else, and a variable's name is neither reserved nor that of a builtin. -/
def Unshadowed (s : State h) : CallSite → Prop
  | .byValue _ => True
  | .byName name =>
      isReserved name = false ∧
        if (s.functions.lookup name).isSome then
          (∀ slot, localSlot s name = some slot → s.read slot = .closure ⟨s.ctx.chunk, name⟩ []) ∧
          (localSlot s name = none → ∀ v, h.lookup s.store.world s.ctx.moduleGlobals name = some v →
            v = .closure ⟨s.ctx.chunk, name⟩ [])
        else
          h.builtinArity s.ctx.builtins name = none ∧
            ((localSlot s name).isSome ∨ (h.lookup s.store.world s.ctx.globals name).isSome)

end CallSite

theorem loadName_function {s : State h} {name : Name} {v : Value h.Obj}
    (hf : (s.functions.lookup name).isSome) (hv : loadName s name = some v) :
    v = .closure ⟨s.ctx.chunk, name⟩ [] ↔
      (∀ slot, localSlot s name = some slot → s.read slot = .closure ⟨s.ctx.chunk, name⟩ []) ∧
      (localSlot s name = none → ∀ v, h.lookup s.store.world s.ctx.moduleGlobals name = some v →
        v = .closure ⟨s.ctx.chunk, name⟩ []) := by
  obtain ⟨info, hinfo⟩ := Option.isSome_iff_exists.mp hf
  unfold loadName at hv
  cases hs : localSlot s name with
  | some slot =>
      simp only [hs, Option.some.injEq] at hv
      simp [hv]
  | none =>
      simp only [hs, lookupName, hinfo] at hv
      cases hg : h.lookup s.store.world s.ctx.moduleGlobals name with
      | some w =>
          simp [hg] at hv
          simp [hv]
      | none =>
          simp [hg] at hv
          simp [hv]

theorem callTarget_invoked_iff {s : State h} {name : Name} {v : Value h.Obj} (hv : loadName s name = some v) :
    (callTarget s name).invoked = some v ↔ CallSite.Unshadowed s (.byName name) := by
  unfold callTarget CallSite.Unshadowed
  by_cases hr : isReserved name = true
  · simp only [if_pos hr]
    constructor
    · intro h'
      split at h'
      · cases h'
      · cases h'
    · rintro ⟨h', -⟩
      rw [hr] at h'
      cases h'
  · have hr' : isReserved name = false := by simpa using hr
    simp only [hr', Bool.false_eq_true, if_false, true_and]
    by_cases hf : (s.functions.lookup name).isSome = true
    · rw [if_pos hf, if_pos hf, ← loadName_function hf hv]
      simp only [CallTarget.invoked, Option.some.injEq]
      exact eq_comm
    · rw [if_neg hf, if_neg hf]
      cases hb : h.builtinArity s.ctx.builtins name with
      | some arities => simp [CallTarget.invoked]
      | none =>
          simp only [Option.isSome_none, Bool.false_eq_true, if_false, true_and]
          split
          · rename_i hbound
            simp [hv, CallTarget.invoked, hbound]
          · rename_i hbound
            simp [CallTarget.invoked, hbound]

/-- A call of an identifier invokes what the identifier stands for exactly if nothing shadows it. -/
theorem call_invokes_value_iff {f : Name} {args : List Expr} {c c' : Compiler}
    (hc : Compiler.compileExpr (.call (.var f) args) c = .ok c') :
    ∃ site, Compiler.CallsAs f args.length c c' site ∧ ∀ (s : State h) (v : Value h.Obj),
      site.yields s args.length = some v → (site.Invokes s args.length v ↔ site.Unshadowed s) := by
  rw [Compiler.compileExpr] at hc
  obtain ⟨site, hsite⟩ := Compiler.callsAs_of_compileCallByName hc
  refine ⟨site, hsite, fun s v hv => ?_⟩
  cases site with
  | byValue load =>
      simp only [CallSite.Unshadowed, iff_true]
      exact opCallValue_opens hv
  | byName name =>
      rw [← callTarget_invoked_iff hv]
      exact and_iff_left (opCall_target s name args.length)

/-- A program among namespaces that can be written to, with these builtins. -/
def Host.names (chunk : Chunk) (builtins : List (Name × List Nat)) : Host where
  Obj := Unit
  World := List ((Nat × Name) × Value Unit)
  chunks _ := chunk
  truthy _ _ := true
  valueToString _ _ := ""
  data _ _ store := (.inr ({ kind := "type", message := "no data" }, 0), store)
  getIter v ctx store := ⟨.value v, store, ctx⟩
  iterNext _ ctx store := ⟨.exhausted, store, ctx⟩
  lookup world space name := world.lookup (space, name)
  assign world space name v := ((space, name), v) :: world
  builtinArity _ name := builtins.lookup name
  builtin _ _ ctx store := ⟨.ends (.value (.const .nil)), store, ctx⟩
  builtinMethod _ _ ctx store := ⟨.ends .abort, store, ctx⟩
  receiver _ _ _ := .other
  callable _ _ := .other
  invoke _ _ _ ctx store := ⟨.abort, store, ctx⟩
  runOnCaller _ _ _ ctx store := ⟨.abort, store, ctx⟩
  moduleCtx _ _ k := .ofChunk k
  errRecord _ world := ((), world)

/-- `fn f() { return 1 }  if (true) { f = fn() { return 2 } }  f()`. -/
def reassigned : Program where
  module := some "main.nd"
  stmts := [
    .fnDef "f" [] (.block [.returnStmt (some (.int 1))]) none none,
    .ifElse (.bool true) (.block [.exprStmt (.assign "f" (.fnExpr [] (.block [.returnStmt (some (.int 2))]) none none))]) none,
    .exprStmt (.call (.var "f") [])]

/-- Its run. -/
def reassignedRun : Nat → State (Host.names (.ofProgram reassigned) []) :=
  iterate execute (.main (.ofChunk 0) ⟨[], []⟩)

theorem reassigned_call_compiled : ∃ site, Compiler.CallsAs "f" 0 (Compiler.start reassigned none [] [])
    ((Compiler.start reassigned none [] []).emit (.call "f" 0)) site ∧
      ∀ (s : State (Host.names (.ofProgram reassigned) [])) (v : Value Unit),
        site.yields s 0 = some v → (site.Invokes s 0 v ↔ site.Unshadowed s) := by
  have hc : Compiler.compileExpr (.call (.var "f") []) (Compiler.start reassigned none [] []) =
      .ok ((Compiler.start reassigned none [] []).emit (.call "f" 0)) := rfl
  exact call_invokes_value_iff hc

/-- The last call of the program runs the function, not the closure that was assigned to its name. -/
theorem reassigned_call_shadowed : Run Step reassignedRun 8 ∧
    (reassignedRun 8).code[(reassignedRun 8).ip]? = some (.call "f" 0) ∧
    CallSite.yields (reassignedRun 8) 0 (.byName "f") = some (.closure ⟨0, "__anon_1__fn2"⟩ []) ∧
    ¬ CallSite.Invokes (reassignedRun 8) 0 (.closure ⟨0, "__anon_1__fn2"⟩ []) (.byName "f") := by
  refine ⟨run_execute (by decide), rfl, rfl, ?_⟩
  rintro ⟨hv, -⟩
  have hf : (callTarget (reassignedRun 8) "f").invoked = some (.closure ⟨0, "f"⟩ []) := rfl
  rw [hf] at hv
  injection hv with hv
  injection hv with hfn
  exact absurd hfn (by decide)

/-! ### Calls the compiler generates -/

/-- The call of a builtin that a lowering emits. -/
def builtinCall (name : Name) (args : List Expr) : Expr := .call (.var (builtinCallPrefix ++ name)) args

/-- Where the compiler puts in a call of its own. -/
inductive Generator where
  | interpolation
  | print
  | checkpoint
  | lowered (name : Name)

namespace Generator

/-- The builtin that is meant. -/
def builtin : Generator → Name
  | .interpolation => "str"
  | .print => "print"
  | .checkpoint => "__workflow_checkpoint"
  | .lowered name => name

/-- Going from `c` to `c'` the compiler put in the call `i`. -/
inductive Generates (c c' : Compiler) (i : Instr) : Generator → Prop
  | interpolation {e : Expr} {c₁ : Compiler} (hc : Compiler.compilePart (.interpolation e) c = .ok c')
      (hi : c' = c₁.emit i) : Generates c c' i .interpolation
  | print {e : Expr} {c₁ : Compiler} (hc : Compiler.compileStmt (.print e) c = .ok c')
      (hi : c' = (c₁.emit i).emit .pop) : Generates c c' i .print
  | checkpoint {label : Expr} {c₁ : Compiler} (hc : Compiler.compileStmt (.checkpoint label) c = .ok c')
      (hi : c' = (c₁.emit i).emit .pop) : Generates c c' i .checkpoint
  | lowered {name : Name} {args : List Expr} {c₁ : Compiler}
      (hc : Compiler.compileExpr (builtinCall name args) c = .ok c') (hi : c' = c₁.emit i) :
      Generates c c' i (.lowered name)

/-- The program does not define what the call would find before the builtin: a function of that name, or, for
the reserved names of lowered code, a variable. -/
def Unforged (c : Compiler) (s : State h) : Generator → Prop
  | .lowered name =>
      ∀ symbol, (c.resolveSymbol (builtinCallPrefix ++ name)).1 = some symbol →
        symbol.scope = .global ∧ symbol.isFunction = true
  | g => s.functions.lookup g.builtin = none

end Generator

/-- The instruction calls the builtin `name`. -/
def ReachesBuiltin (s : State h) (name : Name) : Instr → Prop
  | .call r n => callTarget s r = .builtin name ∧ OpensTarget s n (.builtin name) (opCall s r n)
  | _ => False

theorem isReserved_prefixed (name : Name) : isReserved (builtinCallPrefix ++ name) = true := by
  simp [isReserved]

theorem stripReserved_prefixed (name : Name) : stripReserved (builtinCallPrefix ++ name) = name := by
  have hl : builtinCallPrefix.length = builtinCallPrefix.toList.length := rfl
  rw [stripReserved, String.toList_append, hl, List.drop_left, String.ofList_toList]

theorem callTarget_reserved {s : State h} {name : Name} (hb : (h.builtinArity s.ctx.builtins name).isSome) :
    callTarget s (builtinCallPrefix ++ name) = .builtin name := by
  simp only [callTarget, isReserved_prefixed, stripReserved_prefixed, hb, if_true]

theorem callTarget_plain {s : State h} {name : Name} (hr : isReserved name = false)
    (hb : (h.builtinArity s.ctx.builtins name).isSome) :
    callTarget s name = .builtin name ↔ s.functions.lookup name = none := by
  simp only [callTarget, hr, Bool.false_eq_true, if_false, hb, if_true]
  cases s.functions.lookup name with
  | none => simp
  | some info => simp

theorem reachesBuiltin_call {s : State h} {r name : Name} {n : Nat} :
    ReachesBuiltin s name (.call r n) ↔ callTarget s r = .builtin name := by
  refine ⟨fun hr => hr.1, fun ht => ⟨ht, ?_⟩⟩
  rw [← ht]
  exact opCall_target s r n

namespace Compiler

variable {c c' : Compiler} {f : Name}

/-- The tables of the module map names to themselves, as the loader sets them. -/
def KeepsNames (c : Compiler) : Prop :=
  ∀ info, c.moduleInfo = some info → ∀ table ∈ [info.imports, info.qualified], ∀ name q,
    table.lookup name = some q → q = name

theorem resolveSymbol_moduleInfo (c : Compiler) (name : Name) : (c.resolveSymbol name).2.moduleInfo = c.moduleInfo := by
  unfold resolveSymbol
  split
  · rfl
  · rfl

theorem resolveNameIn_moduleInfo (c : Compiler) (name : Name)
    (tables : ModuleInfo → List (List (Name × Name))) :
    (c.resolveNameIn name tables).2.moduleInfo = c.moduleInfo := by
  have hm := c.resolveSymbol_moduleInfo name
  unfold resolveNameIn
  dsimp only
  split
  · split
    · exact hm
    · exact hm
  · exact hm
  · exact hm

theorem resolveName_of_keepsNames (hk : c.KeepsNames) : (c.resolveName f).1 = f := by
  have hm := c.resolveSymbol_moduleInfo f
  have htables : ∀ info, c.moduleInfo = some info →
      (([info.imports, info.qualified]).findSome? (·.lookup f)).getD f = f := by
    intro info hinfo
    cases hfound : ([info.imports, info.qualified]).findSome? (·.lookup f) with
    | none => rfl
    | some q =>
        obtain ⟨table, ht, hq⟩ := List.exists_of_findSome?_eq_some hfound
        exact hk info hinfo table ht f q hq
  unfold resolveName resolveNameIn
  dsimp only
  split
  · rename_i info _ hinfo
    split
    · rfl
    · exact htables info (hm ▸ hinfo)
  · rename_i info _ hinfo
    exact htables info (hm ▸ hinfo)
  · rfl

theorem emit_inj {c₁ c₂ : Compiler} {i j : Instr} (he : c₁.emit i = c₂.emit j) : i = j := by
  have hcode : c₁.code ++ [i] = c₂.code ++ [j] := congrArg Compiler.code he
  have := List.append_inj_right' hcode rfl
  simpa using this

theorem emit_emit_inj {c₁ c₂ : Compiler} {i j k : Instr} (he : (c₁.emit i).emit k = (c₂.emit j).emit k) :
    i = j := by
  have hcode : (c₁.code ++ [i]) ++ [k] = (c₂.code ++ [j]) ++ [k] := congrArg Compiler.code he
  have := List.append_inj_right' (List.append_inj_left' hcode rfl) rfl
  simpa using this

theorem calleeLoad_none_iff {load : Option Instr} {c₁ : Compiler} (hl : calleeLoad f c = .ok (load, c₁)) :
    load = none ↔
      ∀ symbol, (c.resolveSymbol f).1 = some symbol → symbol.scope = .global ∧ symbol.isFunction = true := by
  unfold calleeLoad at hl
  cases hs : (c.resolveSymbol f).1 with
  | none =>
      simp only [hs] at hl
      cases hl
      simp
  | some symbol =>
      simp only [hs] at hl
      simp only [Option.some.injEq, forall_eq']
      split at hl
      · rename_i hup
        cases hl
        simp [hup]
      · split at hl
        · rename_i hlocal
          split at hl
          · cases hl
            simp only [Bool.and_eq_true, decide_eq_true_eq] at hlocal
            simp [hlocal.1]
          · cases hl
        · split at hl
          · rename_i hfn
            cases hl
            simpa using hfn
          · rename_i hfn
            cases hl
            simpa using hfn

theorem lowered_call {args : List Expr} {c₁ : Compiler} {name : Name} {i : Instr} (hk : c'.KeepsNames)
    (hc : compileExpr (builtinCall name args) c = .ok c') (hi : c' = c₁.emit i) :
    (i = .call (builtinCallPrefix ++ name) args.length ∧
      ∀ symbol, (c.resolveSymbol (builtinCallPrefix ++ name)).1 = some symbol →
        symbol.scope = .global ∧ symbol.isFunction = true) ∨
    (i = .callValue args.length ∧
      ¬ ∀ symbol, (c.resolveSymbol (builtinCallPrefix ++ name)).1 = some symbol →
        symbol.scope = .global ∧ symbol.isFunction = true) := by
  rw [builtinCall, compileExpr] at hc
  obtain ⟨⟨load, c₂⟩, hl, hc⟩ := bind_ok hc
  have hnone := calleeLoad_none_iff hl
  cases load with
  | some load =>
      obtain ⟨c₃, hargs, hc⟩ := bind_ok hc
      cases hc
      exact .inr ⟨(emit_inj hi).symm, fun hv => absurd (hnone.mpr hv) (Option.some_ne_none load)⟩
  | none =>
      obtain ⟨c₃, hargs, hc⟩ := bind_ok hc
      obtain ⟨c₄, ha, hc⟩ := bind_ok hc
      cases hc
      have hk₄ : c₄.KeepsNames := by
        intro info hinfo
        refine hk info ?_
        exact (resolveNameIn_moduleInfo c₄ _ _).trans hinfo
      have hname : Instr.call (c₄.resolveName (builtinCallPrefix ++ name)).1 args.length = i := emit_inj hi
      rw [resolveName_of_keepsNames hk₄] at hname
      exact .inl ⟨hname.symm, hnone.mp rfl⟩

end Compiler

/-- `fn str(x) { return x }  "\(2)"`. -/
def definesStr : Program where
  module := some "main.nd"
  stmts := [
    .fnDef "str" [⟨"x", none⟩] (.block [.returnStmt (some (.var "x"))]) none none,
    .exprStmt (.interpolatedString (.interpolation (.int 2)) [])]

/-- Its run. -/
def definesStrRun : Nat → State (Host.names (.ofProgram definesStr) [("str", [1]), ("print", [1])]) :=
  iterate execute (.main (.ofChunk 0) ⟨[], []⟩)

end Nodus

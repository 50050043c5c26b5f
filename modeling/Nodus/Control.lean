import Nodus.Machine

/-! What an execution context does to its own control state: the instruction pointer, the operand
stack, the calls, the handlers, the deferred actions and the module context. Locals, cells and the
world are forgotten, and with them what the host decides; what is left of an instruction is one of a
few moves. -/

namespace Nodus

variable {h : Host}

/-- A frame as control sees it. -/
structure Call where
  returnIp : Option Nat
  cross : Option ModuleCtx
  fn : Option FnRef
  deriving DecidableEq, Repr

def Frame.call {Obj : Type} (f : Frame Obj) : Call :=
  ⟨f.returnIp, f.crossModuleCtx, f.closure.map (·.1)⟩

@[ext] structure Ctl (h : Host) where
  ip : Nat
  stack : List (Value h.Obj)
  calls : List Call
  handlers : List Handler
  deferredReturn : Option (Value h.Obj)
  deferredReturnDepth : Nat
  deferredError : Option (RuntimeError h.Obj)
  deferredErrorDepth : Nat
  cancelling : Bool
  ctx : ModuleCtx
  phase : Phase h.Obj

/-- The control state of an execution context. -/
def State.ctl (s : State h) : Ctl h where
  ip := s.ip
  stack := s.stack
  calls := s.frames.map Frame.call
  handlers := s.handlerStack
  deferredReturn := s.deferredReturn
  deferredReturnDepth := s.deferredReturnDepth
  deferredError := s.deferredError
  deferredErrorDepth := s.deferredErrorDepth
  cancelling := s.cancelling
  ctx := s.ctx
  phase := s.phase

namespace Ctl

def code (c : Ctl h) : List Instr := (h.chunks c.ctx.chunk).code

/-! Exceptions, on control states. -/

/-- Pops calls down to a depth, with the module context each of them saved. -/
def unwindCalls (depth : Nat) : List Call → ModuleCtx → List Call × ModuleCtx
  | [], ctx => ([], ctx)
  | f :: fs, ctx =>
      if depth < (f :: fs).length then unwindCalls depth fs (f.cross.getD ctx) else (f :: fs, ctx)

def unwindTo (frameDepth stackDepth : Nat) (c : Ctl h) : Ctl h :=
  let unwound := unwindCalls frameDepth c.calls c.ctx
  { c with
    calls := unwound.1
    ctx := unwound.2
    handlers := dropHandlers unwound.1.length c.handlers
    stack := truncate stackDepth c.stack }

def discardStaleDeferrals (c : Ctl h) : Ctl h :=
  { c with
    deferredError := if c.handlers.length < c.deferredErrorDepth then none else c.deferredError
    deferredReturn := if c.handlers.length < c.deferredReturnDepth then none else c.deferredReturn }

def enterFinally (e : RuntimeError h.Obj) (handler : Handler) (c : Ctl h) : Ctl h :=
  let c := unwindTo handler.frameDepth handler.stackDepth c
  { c with
    deferredError := some e
    deferredErrorDepth := c.handlers.length
    ip := handler.finallyIp }

/-- `record` is what the `catch` receives. -/
def enterCatch (record : Value h.Obj) (handler : Handler) (handlerIp : Nat) (c : Ctl h) : Ctl h :=
  let c := discardStaleDeferrals (unwindTo handler.frameDepth handler.stackDepth c)
  let gate : Handler :=
    { handlerIp := none, finallyIp := handler.finallyIp, stackDepth := c.stack.length,
      frameDepth := c.calls.length }
  { c with
    stack := record :: c.stack
    handlers := if handler.finallyIp ≠ 0 then gate :: c.handlers else c.handlers
    ip := handlerIp }

def handleAt (e : RuntimeError h.Obj) (record : Value h.Obj) (c : Ctl h) : List Handler → Ctl h
  | [] => { c with handlers := [], phase := .uncaught e }
  | handler :: rest =>
      match handler.handlerIp with
      | none => enterFinally e handler { c with handlers := rest }
      | some handlerIp =>
          if c.cancelling then
            if handler.finallyIp = 0 then handleAt e record c rest
            else enterFinally e handler { c with handlers := rest }
          else enterCatch record handler handlerIp { c with handlers := rest }

def handle (e : RuntimeError h.Obj) (record : Value h.Obj) (c : Ctl h) : Ctl h :=
  handleAt e record c c.handlers

end Ctl

theorem unwindFrames_call (depth : Nat) (frames : List (Frame h.Obj)) (ctx : ModuleCtx) :
    ((unwindFrames depth frames ctx).1.map Frame.call, (unwindFrames depth frames ctx).2) =
      Ctl.unwindCalls depth (frames.map Frame.call) ctx := by
  induction frames generalizing ctx with
  | nil => rfl
  | cons f fs ih =>
      simp only [unwindFrames, List.map_cons, Ctl.unwindCalls, List.length_cons, List.length_map]
      split
      · exact ih _
      · rfl

theorem unwindTo_ctl (frameDepth stackDepth : Nat) (s : State h) :
    (unwindTo frameDepth stackDepth s).ctl = s.ctl.unwindTo frameDepth stackDepth := by
  have hu := unwindFrames_call frameDepth s.frames s.ctx
  simp only [Prod.ext_iff] at hu
  have hl : (unwindFrames frameDepth s.frames s.ctx).1.length =
      (Ctl.unwindCalls frameDepth (s.frames.map Frame.call) s.ctx).1.length := by
    rw [← hu.1, List.length_map]
  simp only [unwindTo, State.ctl, Ctl.unwindTo, hu.1, hu.2, hl]

theorem enterFinally_ctl (e : RuntimeError h.Obj) (handler : Handler) (s : State h) :
    (enterFinally e handler s).ctl = s.ctl.enterFinally e handler := by
  simp only [Ctl.enterFinally, ← unwindTo_ctl]
  rfl

theorem enterCatch_ctl (e : RuntimeError h.Obj) (handler : Handler) (handlerIp : Nat) (s : State h) :
    (enterCatch e handler handlerIp s).ctl =
      s.ctl.enterCatch (.obj (h.errRecord e s.store.world).1) handler handlerIp := by
  simp only [Ctl.enterCatch, ← unwindTo_ctl]
  simp only [enterCatch, State.ctl, State.push, List.length_cons, Nat.add_sub_cancel, List.length_map,
    Ctl.discardStaleDeferrals, discardStaleDeferrals]
  rfl

theorem handleException_ctl (e : RuntimeError h.Obj) (s : State h) :
    ∃ record, (handleException e s).ctl = s.ctl.handle e record := by
  refine ⟨.obj (h.errRecord e s.store.world).1, ?_⟩
  suffices hs : ∀ hs : List Handler, (handleExceptionAt e s hs).ctl =
      s.ctl.handleAt e (.obj (h.errRecord e s.store.world).1) hs from hs s.handlerStack
  intro hs
  induction hs with
  | nil => rfl
  | cons handler rest ih =>
      obtain ⟨handlerIp, finallyIp, stackDepth, frameDepth⟩ := handler
      cases handlerIp with
      | none => exact enterFinally_ctl e _ _
      | some handlerIp =>
          simp only [handleExceptionAt, Ctl.handleAt, show s.ctl.cancelling = s.cancelling from rfl]
          by_cases hc : s.cancelling = true
          · by_cases hf : finallyIp = 0
            · simpa only [if_pos hc, if_pos hf] using ih
            · simp only [if_pos hc, if_neg hf]
              exact enterFinally_ctl e _ _
          · simp only [if_neg hc]
            exact enterCatch_ctl e _ handlerIp _

/-! Instructions, on control states. -/

/-- Instructions that leave calls, handlers and deferred actions alone if they are not a call. -/
def Instr.isFlow : Instr → Bool
  | .setupTry _ _ | .popTry | .finallyEnd | .throw | .ret | .halt => false
  | _ => true

def Instr.isCall : Instr → Bool
  | .call _ _ | .callValue _ | .callMethod _ _ => true
  | _ => false

/-- No call out of the loop leaves another module context than it found: the nested runs of guest code
in it are not abandoned inside a cross-module call. -/
structure Host.KeepsCtx (h : Host) : Prop where
  getIter : ∀ v ctx store, (h.getIter v ctx store).ctx = ctx
  iterNext : ∀ v ctx store, (h.iterNext v ctx store).ctx = ctx
  builtin : ∀ name args ctx store, (h.builtin name args ctx store).ctx = ctx
  builtinMethod : ∀ o args ctx store, (h.builtinMethod o args ctx store).ctx = ctx
  invoke : ∀ module name args ctx store, (h.invoke module name args ctx store).ctx = ctx
  runOnCaller : ∀ fn upvalues args ctx store, (h.runOnCaller fn upvalues args ctx store).ctx = ctx

/-- How an instruction goes on. -/
inductive Next (c : Ctl h) : Instr → Ctl h → Prop
  /-- It takes its operands, leaves others in their place and goes along an edge. -/
  | flow {i : Instr} {pushed : List (Value h.Obj)} {t : Nat} {ctx : ModuleCtx} (hi : i.isFlow = true)
      (hp : i.pops ≤ c.stack.length) (he : (pushed.length, t) ∈ edges c.code c.ip i)
      (hk : h.KeepsCtx → ctx = c.ctx) :
      Next c i { c with ip := t, stack := pushed ++ c.stack.drop i.pops, ctx := ctx }
  /-- It pushes a frame for a function, with its arguments on the stack. A frame for a function of
  another module saves the context. -/
  | call {i : Instr} {fn : FnRef} {info : FunctionInfo} {stack : List (Value h.Obj)}
      {cross : Option ModuleCtx} {ctx : ModuleCtx} {held : Option FnRef} (hi : i.isCall = true)
      (hf : fn.info h = some info) (hs : cross = none ∧ ctx = c.ctx ∨ cross = some c.ctx)
      (hh : held = none ∧ fn.chunk = ctx.chunk ∨ held = some fn)
      (ha : i.pops ≤ c.stack.length → ∃ args : List (Value h.Obj),
        args.length = info.params.length ∧ stack = args ++ c.stack.drop i.pops) :
      Next c i { c with
        ip := info.addr, stack := stack, calls := ⟨some (c.ip + 1), cross, held⟩ :: c.calls, ctx := ctx }
  | setupTry {handlerIp finallyIp : Nat} {fin : Option Target}
      (hf : fin = none ∧ finallyIp = 0 ∨ fin = some (some finallyIp)) :
      Next c (.setupTry (some handlerIp) fin) { c with
        ip := c.ip + 1
        handlers := ⟨some handlerIp, finallyIp, c.stack.length, c.calls.length⟩ :: c.handlers }
  | popTry {handler : Handler} {rest : List Handler} (hh : c.handlers = handler :: rest) :
      Next c .popTry { c with
        ip := if handler.finallyIp ≠ 0 then handler.finallyIp else c.ip + 1, handlers := rest }
  | deferReturn {v : Value h.Obj} {stack : List (Value h.Obj)} {handler : Handler}
      {rest : List Handler} (hs : c.stack = v :: stack) (hc : c.calls ≠ [])
      (hh : c.handlers = handler :: rest) (hd : handler.frameDepth = c.calls.length)
      (hf : handler.finallyIp ≠ 0) :
      Next c .ret { c with
        ip := handler.finallyIp, stack := stack, handlers := rest, deferredReturn := some v
        deferredReturnDepth := rest.length }
  | ret {v : Value h.Obj} {stack : List (Value h.Obj)} {ip : Nat} {cross : Option ModuleCtx}
      {held : Option FnRef} {calls : List Call} (hs : c.stack = v :: stack)
      (hc : c.calls = ⟨some ip, cross, held⟩ :: calls)
      (hh : ∀ handler ∈ c.handlers.head?, handler.frameDepth = c.calls.length → handler.finallyIp = 0) :
      Next c .ret { c with
        ip := ip, stack := v :: stack, calls := calls, ctx := cross.getD c.ctx
        handlers := dropHandlers calls.length c.handlers }
  | finallyEnd (he : c.deferredError = none) (hr : c.deferredReturn = none) :
      Next c .finallyEnd { c with ip := c.ip + 1, handlers := popGate c.handlers }
  | performReturn {v : Value h.Obj} {ip : Nat} {cross : Option ModuleCtx} {held : Option FnRef}
      {calls : List Call} (he : c.deferredError = none) (hr : c.deferredReturn = some v)
      (hc : c.calls = ⟨some ip, cross, held⟩ :: calls) :
      Next c .finallyEnd { c with
        ip := ip, stack := v :: c.stack, calls := calls, deferredReturn := none
        handlers := dropHandlers calls.length (popGate c.handlers) }

/-- How an instruction raises an error. -/
inductive Raises (c : Ctl h) : Instr → RuntimeError h.Obj → Ctl h → Prop
  /-- What lies below its operands is left. -/
  | operands {i : Instr} {e : RuntimeError h.Obj} {stack : List (Value h.Obj)} {ctx : ModuleCtx}
      (hi : i.isFlow = true ∨ i = .throw ∨ i = .popTry ∧ c.handlers = [] ∨
        i = .ret ∧ (c.stack = [] ∨ c.calls = []))
      (hs : c.stack.drop i.pops <:+ stack) (hk : h.KeepsCtx → ctx = c.ctx) :
      Raises c i e { c with stack := stack, ctx := ctx }
  | again {e : RuntimeError h.Obj} (he : c.deferredError = some e) :
      Raises c .finallyEnd e { c with deferredError := none }
  | noFrame {e : RuntimeError h.Obj} (he : c.deferredError = none)
      (hr : c.deferredReturn.isSome = true) (hc : c.calls = []) :
      Raises c .finallyEnd e { c with deferredReturn := none, handlers := popGate c.handlers }

/-- How an instruction leaves the loop. -/
inductive Stops (c : Ctl h) : Instr → Phase h.Obj → Ctl h → Prop
  | suspend {i : Instr} {slot : Bool} {pushed : List (Value h.Obj)} {t : Nat} {ctx : ModuleCtx}
      (hi : i.isFlow = true) (hp : i.pops ≤ c.stack.length)
      (he : (pushed.length, t) ∈ edges c.code c.ip i) (hk : h.KeepsCtx → ctx = c.ctx)
      (hv : slot = true → pushed ≠ []) :
      Stops c i (.suspended slot) { c with
        ip := t, stack := pushed ++ c.stack.drop i.pops, ctx := ctx }
  | halt : Stops c .halt .halted c
  | abort {i : Instr} {c' : Ctl h} (hc : c'.calls = c.calls) (hk : h.KeepsCtx → c'.ctx = c.ctx) :
      Stops c i .aborted c'
  | ret {v : Value h.Obj} {stack : List (Value h.Obj)} {cross : Option ModuleCtx}
      {held : Option FnRef} {calls : List Call} (hs : c.stack = v :: stack)
      (hc : c.calls = ⟨none, cross, held⟩ :: calls)
      (hh : ∀ handler ∈ c.handlers.head?, handler.frameDepth = c.calls.length → handler.finallyIp = 0) :
      Stops c .ret (.returned v) { c with
        stack := stack, calls := calls, ctx := cross.getD c.ctx
        handlers := dropHandlers calls.length c.handlers }
  | performReturn {v : Value h.Obj} {cross : Option ModuleCtx} {held : Option FnRef}
      {calls : List Call} (he : c.deferredError = none) (hr : c.deferredReturn = some v)
      (hc : c.calls = ⟨none, cross, held⟩ :: calls) :
      Stops c .finallyEnd (.returned v) { c with
        calls := calls, deferredReturn := none
        handlers := dropHandlers calls.length (popGate c.handlers) }

/-- What an instruction does. -/
def Does (c : Ctl h) (i : Instr) : Outcome h → Prop
  | .next s => Next c i s.ctl
  | .raise e s => Raises c i e s.ctl
  | .stop p s => Stops c i p s.ctl

section does

variable {c : Ctl h} {i : Instr} {s : State h}

/-- The state in which the instruction has taken all its operands. -/
structure Spent (c : Ctl h) (i : Instr) (s : State h) : Prop where
  operands : i.pops ≤ c.stack.length
  eq : s.ctl = { c with stack := c.stack.drop i.pops }

theorem does_fail {kind message : String} {stack : List (Value h.Obj)} (hi : i.isFlow = true)
    (hs : s.ctl = { c with stack := stack }) (hst : c.stack.drop i.pops <:+ stack) :
    Does c i (s.fail kind message) := by
  simp only [Does, State.fail, hs]
  exact .operands (.inl hi) hst fun _ => rfl

theorem Spent.fail {kind message : String} (hs : Spent c i s) (hi : i.isFlow = true) :
    Does c i (s.fail kind message) :=
  does_fail hi hs.eq List.suffix_rfl

theorem does_fail_self {kind message : String} (hi : i.isFlow = true) :
    Does s.ctl i (s.fail kind message) :=
  does_fail hi rfl (List.drop_suffix _ _)

theorem does_withPop {k : Value h.Obj → State h → Outcome h} (hi : i.isFlow = true)
    (hp : i.pops = 1) (hk : ∀ v s', Spent s.ctl i s' → Does s.ctl i (k v s')) :
    Does s.ctl i (s.withPop k) := by
  unfold State.withPop
  split
  · exact does_fail_self hi
  · rename_i v rest hst
    refine hk v _ ⟨?_, ?_⟩
    · simp [hp, State.ctl, hst]
    · simp [hp, State.ctl, hst]

theorem does_withArgs {n : Nat} {k : List (Value h.Obj) → State h → Outcome h} (hi : i.isFlow = true)
    (hn : n ≤ i.pops)
    (hk : n ≤ s.stack.length →
      Does s.ctl i (k (s.stack.take n).reverse { s with stack := s.stack.drop n })) :
    Does s.ctl i (s.withArgs n k) := by
  unfold State.withArgs
  split
  · have he : ({ s with stack := [] } : State h).ctl = { s.ctl with stack := [] } := rfl
    refine does_fail hi he ?_
    rewrite [List.drop_eq_nil_of_le (by simp only [State.ctl]; omega)]
    exact List.nil_suffix
  · exact hk (by omega)

theorem Spent.push {v : Value h.Obj} (hs : Spent c i s) (hi : i.isFlow = true)
    (he : (1, c.ip + 1) ∈ edges c.code c.ip i) : Does c i (.next (s.push v).advance) := by
  have hc : (s.push v).advance.ctl =
      { c with ip := c.ip + 1, stack := [v] ++ c.stack.drop i.pops, ctx := c.ctx } := by
    have := hs.eq
    simp only [State.ctl, Ctl.ext_iff, State.push, State.advance] at this ⊢
    simp [this]
  simp only [Does, hc]
  exact .flow hi hs.operands he fun _ => rfl

theorem Spent.out (hs : Spent c i s) (store : Store h.Obj h.World) (ctx : ModuleCtx) :
    ({ s with store := store, ctx := ctx } : State h).ctl =
      { c with stack := c.stack.drop i.pops, ctx := ctx } := by
  have := hs.eq
  simp only [State.ctl, Ctl.ext_iff] at this ⊢
  simp [this]

theorem does_finish {r : Effect (Result h.Obj) h.Obj h.World} (hs : Spent c i s)
    (hi : i.isFlow = true) (he : (1, c.ip + 1) ∈ edges c.code c.ip i)
    (hk : h.KeepsCtx → r.ctx = c.ctx) : Does c i (finish s r) := by
  obtain ⟨result, store, ctx⟩ := r
  have ho := hs.out store ctx
  cases result with
  | value v =>
      have hc : ({ s with store := store, ctx := ctx }.push v).advance.ctl =
          { c with ip := c.ip + 1, stack := [v] ++ c.stack.drop i.pops, ctx := ctx } := by
        simp only [State.ctl, Ctl.ext_iff, State.push, State.advance] at ho ⊢
        simp [ho]
      simp only [finish, Does, hc]
      exact .flow hi hs.operands he hk
  | raise e =>
      simp only [finish, Does, ho]
      exact .operands (.inl hi) List.suffix_rfl hk
  | abort =>
      have hcalls := congrArg Ctl.calls ho
      exact .abort hcalls hk

theorem does_finishBuiltin {r : Effect (BuiltinResult h.Obj) h.Obj h.World} (hs : Spent c i s)
    (hi : i.isFlow = true) (he : (1, c.ip + 1) ∈ edges c.code c.ip i)
    (hk : h.KeepsCtx → r.ctx = c.ctx) : Does c i (finishBuiltin s r) := by
  obtain ⟨result, store, ctx⟩ := r
  have ho := hs.out store ctx
  have hpark : Does c i (.stop (.suspended true)
      ({ s with store := store, ctx := ctx }.push (.const .nil)).advance) := by
    have hc : ({ s with store := store, ctx := ctx }.push (.const .nil)).advance.ctl =
        { c with ip := c.ip + 1, stack := [.const .nil] ++ c.stack.drop i.pops, ctx := ctx } := by
      simp only [State.ctl, Ctl.ext_iff, State.push, State.advance] at ho ⊢
      simp [ho]
    simp only [Does, hc]
    exact .suspend hi hs.operands he hk (by simp)
  cases result with
  | ends result =>
      have := does_finish (r := ⟨result, store, ctx⟩) hs hi he hk
      simpa only [finishBuiltin, finish] using this
  | sleep =>
      simp only [finishBuiltin]
      split
      · exact hpark
      · have hc : ({ s with store := store, ctx := ctx }.push (.const .nil)).ctl =
            { c with stack := .const .nil :: c.stack.drop i.pops, ctx := ctx } := by
          simp only [State.ctl, Ctl.ext_iff, State.push] at ho ⊢
          simp [ho]
        simp only [Does, State.fail, hc]
        exact .operands (.inl hi) (List.suffix_cons _ _) hk
  | wait => exact hpark

theorem Instr.isFlow_of_isCall (hi : i.isCall = true) : i.isFlow = true := by
  cases i <;> simp_all [Instr.isCall, Instr.isFlow]

/-- A state in which the operands of a call are replaced by `n` arguments. -/
structure Passed (c : Ctl h) (i : Instr) (s : State h) (n : Nat) : Prop where
  isCall : i.isCall = true
  rest : c.stack.drop i.pops <:+ s.stack
  args : i.pops ≤ c.stack.length → ∃ args : List (Value h.Obj),
    args.length = n ∧ s.stack = args ++ c.stack.drop i.pops
  eq : s.ctl = { c with stack := s.stack }

theorem Passed.fail {n : Nat} {kind message : String} (hs : Passed c i s n) :
    Does c i (s.fail kind message) :=
  does_fail (Instr.isFlow_of_isCall hs.isCall) hs.eq hs.rest

theorem Passed.enter {n : Nat} {fn : FnRef} {info : FunctionInfo} {cross : Option ModuleCtx}
    {ctx : ModuleCtx} {closure : Option (FnRef × List Nat)} (hs : Passed c i s n)
    (hn : n = info.params.length) (hf : fn.info h = some info)
    (hx : cross = none ∧ ctx = s.ctx ∨ cross = some s.ctx)
    (hh : closure.map (·.1) = none ∧ fn.chunk = ctx.chunk ∨ closure.map (·.1) = some fn) :
    Does c i (.next { pushFrame s info closure cross with ctx := ctx }) := by
  have he := hs.eq
  simp only [State.ctl, Ctl.ext_iff, true_and] at he
  have hc : ({ pushFrame s info closure cross with ctx := ctx } : State h).ctl = { c with
      ip := info.addr, stack := s.stack
      calls := ⟨some (c.ip + 1), cross, closure.map (·.1)⟩ :: c.calls, ctx := ctx } := by
    simp only [State.ctl, pushFrame, List.map_cons, Frame.call, he]
  simp only [Does, hc]
  refine .call hs.isCall hf ?_ hh (by rw [← hn]; exact hs.args)
  simpa only [he] using hx

theorem does_guardStepEntry {n : Nat} {info : FunctionInfo} {k : Outcome h} (hs : Passed c i s n)
    (hk : Does c i k) : Does c i (guardStepEntry s info k) := by
  unfold guardStepEntry
  split
  · exact hk
  · exact hs.fail

theorem does_callClosure {n : Nat} {callee : Value h.Obj} (hs : Passed c i s n) :
    Does c i (callClosure s callee n) := by
  unfold callClosure
  split
  · exact hs.fail
  · rename_i closure hcl
    split
    · have hcalls := congrArg Ctl.calls hs.eq
      have hctx := congrArg Ctl.ctx hs.eq
      exact .abort hcalls fun _ => hctx
    · rename_i info hinfo
      split
      · exact hs.fail
      · rename_i hn
        refine does_guardStepEntry hs ?_
        split
        · exact hs.fail
        · split
          · exact hs.enter (by omega) hinfo (.inl ⟨rfl, rfl⟩) (.inr rfl)
          · exact hs.enter (by omega) hinfo (.inr rfl) (.inr rfl)

theorem Spent.passed (hs : Spent c i s) (hi : i.isCall = true) (args : List (Value h.Obj)) :
    Passed c i { s with stack := args.reverse ++ s.stack } args.length := by
  have he := hs.eq
  simp only [State.ctl, Ctl.ext_iff] at he
  refine ⟨hi, ?_, fun _ => ⟨args.reverse, List.length_reverse, ?_⟩, ?_⟩
  · simp only [he]
    exact List.suffix_append _ _
  · simp only [he]
  · simp only [State.ctl, Ctl.ext_iff]
    simp [he]

theorem does_callWith {callee : Value h.Obj} {args : List (Value h.Obj)} (hs : Spent c i s)
    (hi : i.isCall = true) : Does c i (callWith s callee args) :=
  does_callClosure (hs.passed hi args)

theorem does_enterForeign {fn : FnRef} {info : FunctionInfo} {upvalues : List Nat} {ctx : ModuleCtx}
    {args : List (Value h.Obj)} (hs : Spent c i s) (hi : i.isCall = true)
    (hf : fn.info h = some info) (hn : args.length = info.params.length) :
    Does c i (enterForeign s fn info upvalues ctx args) := by
  unfold enterForeign
  split
  · exact hs.fail (Instr.isFlow_of_isCall hi)
  · exact (hs.passed hi args).enter hn hf (.inr rfl) (.inr rfl)

theorem edge_of_isCall (hi : i.isCall = true) : (1, c.ip + 1) ∈ edges c.code c.ip i := by
  cases i <;> simp_all [Instr.isCall, edges, Instr.pushes]

theorem does_callForeign {origin : Option ModuleCtx} {fn : FnRef} {upvalues : List Nat}
    {args : List (Value h.Obj)} (hs : Spent c i s) (hi : i.isCall = true) :
    Does c i (callForeign s origin fn upvalues args) := by
  have hflow := Instr.isFlow_of_isCall hi
  have hctx : s.ctx = c.ctx := congrArg Ctl.ctx hs.eq
  unfold callForeign tryEnterForeignClosure
  split
  · rename_i outcome ho
    split at ho
    · rename_i ctx info hinfo
      split at ho
      · rename_i hcond
        obtain rfl := Option.some.inj ho
        simp only [Bool.and_eq_true, beq_iff_eq] at hcond
        unfold guardStepEntry
        split
        · exact does_enterForeign hs hi hinfo hcond.2
        · exact hs.fail hflow
      · cases ho
    · cases ho
  · exact does_finish hs hflow (edge_of_isCall hi) fun hk => (hk.runOnCaller ..).trans hctx

theorem does_callModuleFunction {module : Nat} {name : Name} {args : List (Value h.Obj)}
    (hs : Spent c i s) (hi : i.isCall = true) : Does c i (callModuleFunction s module name args) := by
  have hctx : s.ctx = c.ctx := congrArg Ctl.ctx hs.eq
  unfold callModuleFunction tryEnterModuleCall
  split
  · rename_i outcome ho
    dsimp only at ho
    split at ho
    · split at ho
      · cases ho
      · rename_i info hinfo
        split at ho
        · cases ho
        · obtain rfl := Option.some.inj ho
          refine does_enterForeign hs hi hinfo ?_
          simp only [List.length_append, List.length_replicate]
          omega
    · cases ho
  · exact does_finish hs (Instr.isFlow_of_isCall hi) (edge_of_isCall hi) fun hk =>
      (hk.invoke ..).trans hctx

theorem spent_withArgs {n : Nat} (hn : i.pops = n) (hle : n ≤ s.stack.length) :
    Spent s.ctl i { s with stack := s.stack.drop n } :=
  ⟨by rw [hn]; exact hle, by rw [hn]; rfl⟩

theorem does_withArgs_withPop {n : Nat} {k : List (Value h.Obj) → Value h.Obj → State h → Outcome h}
    (hi : i.isFlow = true) (hn : i.pops = n + 1)
    (hk : ∀ args v s', Spent s.ctl i s' → Does s.ctl i (k args v s')) :
    Does s.ctl i (s.withArgs n fun args s' => s'.withPop (k args)) := by
  refine does_withArgs hi (by omega) fun hle => ?_
  unfold State.withPop
  split
  · rename_i hst
    have he : ({ s with stack := s.stack.drop n } : State h).ctl =
        { s.ctl with stack := s.stack.drop n } := rfl
    refine does_fail hi he ?_
    rw [hn, ← List.drop_drop]
    exact List.drop_suffix _ _
  · rename_i v rest hst
    have hrest : s.stack.drop (n + 1) = rest := by
      rw [← List.drop_drop, show s.stack.drop n = v :: rest from hst]
      rfl
    have hlen : n + 1 ≤ s.stack.length := by
      have := congrArg List.length (show s.stack.drop n = v :: rest from hst)
      simp only [List.length_drop, List.length_cons] at this
      omega
    refine hk _ v _ ⟨?_, ?_⟩
    · rw [hn]
      exact hlen
    · rw [hn]
      simp only [State.ctl, hrest]

theorem does_opCallValue {n : Nat} : Does s.ctl (.callValue n) (opCallValue s n) := by
  have hi : (Instr.callValue n).isCall = true := rfl
  have hflow : (Instr.callValue n).isFlow = true := rfl
  refine does_withArgs_withPop hflow rfl fun args callee s' hs => ?_
  have hctx : s'.ctx = s.ctx := congrArg Ctl.ctx hs.eq
  split
  · split
    · exact does_finish hs hflow (edge_of_isCall hi) fun hk => (hk.invoke ..).trans hctx
    · exact does_callForeign hs hi
    · exact does_callWith hs hi
  · split
    · split
      · exact does_callForeign hs hi
      · exact does_callWith hs hi
    · exact does_callWith hs hi
  · exact does_callWith hs hi

theorem does_opCallMethod {name : Name} {n : Nat} :
    Does s.ctl (.callMethod name n) (opCallMethod s name n) := by
  have hi : (Instr.callMethod name n).isCall = true := rfl
  have hflow : (Instr.callMethod name n).isFlow = true := rfl
  refine does_withArgs_withPop hflow rfl fun args obj s' hs => ?_
  have hctx : s'.ctx = s.ctx := congrArg Ctl.ctx hs.eq
  split
  · exact hs.fail hflow
  · exact hs.fail hflow
  · exact hs.fail hflow
  · split
    · split
      · exact does_callModuleFunction hs hi
      · exact does_callWith hs hi
    · exact does_callWith hs hi
  · rename_i isModule method hr
    have hdirect : Does s.ctl (.callMethod name n)
        (if isModule then callWith s' method args else callWith s' method (obj :: args)) := by
      split
      · exact does_callWith hs hi
      · exact does_callWith hs hi
    dsimp only
    split
    · split
      · exact does_finishBuiltin hs hflow (edge_of_isCall hi) fun hk =>
          (hk.builtinMethod ..).trans hctx
      · exact does_callModuleFunction hs hi
      · exact hdirect
    · exact hdirect

theorem does_callBuiltin {name name' : Name} {arities : List Nat} {n : Nat} :
    Does s.ctl (.call name n) (callBuiltin s name' arities n) := by
  have hi : (Instr.call name n).isCall = true := rfl
  have hflow : (Instr.call name n).isFlow = true := rfl
  unfold callBuiltin
  split
  · exact does_withArgs hflow (Nat.le_refl n) fun hle =>
      does_finishBuiltin (spent_withArgs rfl hle) hflow (edge_of_isCall hi) fun hk => hk.builtin ..
  · exact does_fail_self hflow

theorem passed_call {name : Name} {n : Nat} : Passed s.ctl (.call name n) s n where
  isCall := rfl
  rest := List.drop_suffix _ _
  args hle := ⟨s.stack.take n, List.length_take_of_le hle, (List.take_append_drop n s.stack).symm⟩
  eq := rfl

theorem does_opCall {name : Name} {n : Nat} : Does s.ctl (.call name n) (opCall s name n) := by
  have hi : (Instr.call name n).isCall = true := rfl
  have hflow : (Instr.call name n).isFlow = true := rfl
  unfold opCall
  split
  · dsimp only
    split
    · exact does_callBuiltin
    · exact does_fail_self hflow
  · split
    · rename_i info hinfo
      split
      · exact does_fail_self hflow
      · rename_i hn
        split
        · exact does_fail_self hflow
        · split
          · exact does_fail_self hflow
          · -- The function is one of the chunk that is loaded.
            have hf : FnRef.info ⟨s.ctx.chunk, name⟩ h = some info := hinfo
            exact passed_call.enter (by omega) hf (.inl ⟨rfl, rfl⟩) (.inl ⟨rfl, rfl⟩)
    · split
      · exact does_callBuiltin
      · split
        · split
          · exact does_fail_self hflow
          · split
            · split
              · exact does_withArgs hflow (Nat.le_refl n) fun hle =>
                  does_finish (spent_withArgs rfl hle) hflow (edge_of_isCall hi) fun hk => hk.invoke ..
              · exact does_callClosure passed_call
            · exact does_callClosure passed_call
        · exact does_fail_self hflow

theorem Spent.advance {s' : State h} (hs : Spent c i s) (hi : i.isFlow = true)
    (he : (0, c.ip + 1) ∈ edges c.code c.ip i) (hc : s'.ctl = s.ctl) : Does c i (.next s'.advance) := by
  have hc' : s'.advance.ctl = { c with ip := c.ip + 1, stack := [] ++ c.stack.drop i.pops, ctx := c.ctx } := by
    have := hc.trans hs.eq
    simp only [State.ctl, Ctl.ext_iff, State.advance] at this ⊢
    simp [this]
  simp only [Does, hc']
  exact .flow hi hs.operands he fun _ => rfl

theorem spent_self (hp : i.pops = 0) : Spent s.ctl i s :=
  ⟨by omega, by rw [hp]; rfl⟩

theorem does_goto {target : Target} (hs : Spent c i s) (hi : i.isFlow = true)
    (he : ∀ t ∈ target, (0, t) ∈ edges c.code c.ip i) : Does c i (s.goto target) := by
  cases target with
  | none =>
      have hcalls := congrArg Ctl.calls hs.eq
      have hctx := congrArg Ctl.ctx hs.eq
      exact .abort hcalls fun _ => hctx
  | some t =>
      have hc : ({ s with ip := t } : State h).ctl =
          { c with ip := t, stack := [] ++ c.stack.drop i.pops, ctx := c.ctx } := by
        have := hs.eq
        simp only [State.ctl, Ctl.ext_iff] at this ⊢
        simp [this]
      simp only [State.goto, Does, hc]
      exact .flow hi hs.operands (he t rfl) fun _ => rfl

@[simp] theorem setCell_ctl {id : Nat} {v : Value h.Obj} : (s.setCell id v).ctl = s.ctl := rfl

@[simp] theorem assignSlot_ctl {old : Slot h.Obj} {v : Value h.Obj} :
    (s.assignSlot old v).2.ctl = s.ctl := by
  cases old <;> rfl

theorem setFrame_ctl {f f' : Frame h.Obj} {fs : List (Frame h.Obj)} {s' : State h}
    (hs : s'.ctl = s.ctl) (hf : s.frames = f :: fs) (hc : f'.call = f.call) :
    ({ s' with frames := f' :: fs } : State h).ctl = s.ctl := by
  simp only [State.ctl, Ctl.ext_iff, hf, List.map_cons, hc] at hs ⊢
  simp [hs]

theorem does_withFrame {k : Frame h.Obj → List (Frame h.Obj) → Outcome h} (hs : Spent c i s)
    (hi : i.isFlow = true) (hk : ∀ f fs, s.frames = f :: fs → Does c i (k f fs)) :
    Does c i (s.withFrame k) := by
  unfold State.withFrame
  split
  · exact hs.fail hi
  · rename_i f fs hf
    exact hk f fs hf

theorem does_withSlot {slot : Nat} {k : Frame h.Obj → List (Frame h.Obj) → Slot h.Obj → Outcome h}
    (hs : Spent c i s) (hi : i.isFlow = true)
    (hk : ∀ f fs entry, s.frames = f :: fs → Does c i (k f fs entry)) :
    Does c i (withSlot s slot k) := by
  refine does_withFrame hs hi fun f fs hf => ?_
  split
  · exact hs.fail hi
  · split
    · exact hs.fail hi
    · exact hk f fs _ hf

theorem storeName_ctl {name : Name} {v : Value h.Obj} : (storeName s name v).ctl = s.ctl := by
  unfold storeName
  split
  · rfl
  · rename_i f fs hf
    split
    · exact setFrame_ctl assignSlot_ctl hf rfl
    · split
      · rfl
      · exact setFrame_ctl rfl hf rfl

theorem upvalueCell_inr {index : Option Nat} {what : String} {outcome : Outcome h}
    (ho : upvalueCell s index what = .inr outcome) : ∃ kind message, outcome = s.fail kind message := by
  unfold upvalueCell at ho
  split at ho
  · exact ⟨_, _, (Sum.inr.inj ho).symm⟩
  · split at ho
    · split at ho
      · cases ho
      · exact ⟨_, _, (Sum.inr.inj ho).symm⟩
    · exact ⟨_, _, (Sum.inr.inj ho).symm⟩

theorem does_opStoreArg {name : Name} : Does s.ctl (.storeArg name) (opStoreArg s name) := by
  have hflow : (Instr.storeArg name).isFlow = true := rfl
  have he : (0, s.ctl.ip + 1) ∈ edges s.ctl.code s.ctl.ip (.storeArg name) := by simp [edges, Instr.pushes]
  refine does_withPop hflow rfl fun v s' hs => ?_
  split
  · exact hs.fail hflow
  · rename_i f fs hf
    dsimp only
    split
    · split
      · exact hs.advance hflow he (setFrame_ctl assignSlot_ctl hf rfl)
      · refine does_fail hflow ?_ List.suffix_rfl
        rw [← hs.eq]
        exact setFrame_ctl assignSlot_ctl hf rfl
    · exact hs.advance hflow he (setFrame_ctl assignSlot_ctl hf rfl)

theorem captureLocal_call {f f' : Frame h.Obj} {store store' : Store h.Obj h.World} {name : Name}
    {cell : Nat} (hc : captureLocal f store name = some (cell, f', store')) : f'.call = f.call := by
  unfold captureLocal at hc
  split at hc
  · split at hc
    · cases hc
    · cases hc
      rfl
    · cases hc
      rfl
  · cases hc
    rfl

theorem does_captureUpvalues {us : List Upvalue} {cells : List Nat} {s' : State h}
    {k : List Nat → State h → Outcome h} (hi : i.isFlow = true)
    (hs : s'.ctl = s.ctl) (hk : ∀ cells s'', s''.ctl = s.ctl → Does s.ctl i (k cells s'')) :
    Does s.ctl i (captureUpvalues us cells s' k) := by
  have hfail : ∀ {s'' : State h} {kind message}, s''.ctl = s.ctl →
      Does s.ctl i (s''.fail kind message) := fun he => does_fail hi he (List.drop_suffix _ _)
  induction us generalizing cells s' with
  | nil => exact hk cells s' hs
  | cons u us ih =>
      unfold captureUpvalues
      split
      · split
        · exact hfail hs
        · rename_i f fs hf
          split
          · exact hfail hs
          · rename_i cell f' store hcap
            refine ih ?_
            have hset : ({ s' with frames := f' :: fs, store := store } : State h).ctl = s'.ctl := by
              simp only [State.ctl, hf, List.map_cons, captureLocal_call hcap]
            exact hset.trans hs
      · split
        · exact hfail hs
        · split
          · exact ih hs
          · exact hfail hs
        · exact hfail hs

theorem does_opMakeClosure {name : Name} : Does s.ctl (.makeClosure name) (opMakeClosure s name) := by
  unfold opMakeClosure
  split
  · exact does_fail_self rfl
  · refine does_captureUpvalues rfl rfl fun cells s' hs => ?_
    have hs' : Spent s.ctl (.makeClosure name) s' := ⟨Nat.zero_le _, by rw [hs]; rfl⟩
    exact hs'.push rfl (by simp [edges, Instr.pushes])

theorem does_opIterNext {target : Target} : Does s.ctl (.iterNext target) (opIterNext s target) := by
  have hflow : (Instr.iterNext target).isFlow = true := rfl
  unfold opIterNext
  split
  · exact does_fail_self hflow
  · rename_i iterator rest hst
    have hctx : h.KeepsCtx → (h.iterNext iterator s.ctx s.store).ctx = s.ctl.ctx :=
      fun hk => hk.iterNext ..
    generalize h.iterNext iterator s.ctx s.store = r at hctx
    obtain ⟨result, store, ctx⟩ := r
    have hp : (Instr.iterNext target).pops ≤ s.ctl.stack.length := by
      simp [Instr.pops, State.ctl, hst]
    have hdrop : s.ctl.stack.drop (Instr.iterNext target).pops = rest := by
      simp [Instr.pops, State.ctl, hst]
    have hraise : ∀ e, Does s.ctl (.iterNext target) (.raise e { s with store := store, ctx := ctx }) := by
      intro e
      have hc : ({ s with store := store, ctx := ctx } : State h).ctl =
          { s.ctl with stack := s.stack, ctx := ctx } := rfl
      simp only [Does, hc]
      exact .operands (.inl hflow) (List.drop_suffix _ _) hctx
    cases result with
    | item v =>
        have hc : ({ s with store := store, ctx := ctx }.push v).advance.ctl =
            { s.ctl with
              ip := s.ctl.ip + 1
              stack := [v, iterator] ++ s.ctl.stack.drop (Instr.iterNext target).pops, ctx := ctx } := by
          rw [hdrop]
          simp [State.ctl, State.push, State.advance, hst]
        simp only [Does, hc]
        exact .flow hflow hp (by simp [edges]) hctx
    | exhausted =>
        cases target with
        | none => exact .abort rfl hctx
        | some t =>
            have hc : ({ s with store := store, ctx := ctx, stack := rest, ip := t } : State h).ctl =
                { s.ctl with
                  ip := t
                  stack := [] ++ s.ctl.stack.drop (Instr.iterNext (some t)).pops, ctx := ctx } := by
              rw [show s.ctl.stack.drop (Instr.iterNext (some t)).pops = rest from hdrop]
              rfl
            simp only [State.goto, Does, hc]
            exact .flow hflow hp (by simp [edges]) hctx
    | notIterator => exact hraise _
    | raise e => exact hraise e
    | abort => exact .abort rfl hctx

theorem does_opData {op : DataOp} : Does s.ctl (.data op) (opData s op) := by
  have hflow : (Instr.data op).isFlow = true := rfl
  refine does_withArgs hflow (Nat.le_refl _) fun hle => ?_
  have hs : Spent s.ctl (.data op) { s with stack := s.stack.drop op.arity } := spent_withArgs rfl hle
  dsimp only
  split
  · have hs' : Spent s.ctl (.data op)
        { s with stack := s.stack.drop op.arity
                 store := (h.data op (s.stack.take op.arity).reverse s.store).2 } :=
      ⟨hs.operands, hs.eq⟩
    exact hs'.push hflow (by simp [edges, Instr.pushes])
  · simp only [Does]
    exact .operands (.inl hflow) (List.suffix_append _ _) fun _ => rfl

theorem does_opSetupTry {handler : Target} {fin : Option Target} :
    Does s.ctl (.setupTry handler fin) (opSetupTry s handler fin) := by
  have hpush : ∀ {handlerIp finallyIp : Nat} {fin : Option Target},
      fin = none ∧ finallyIp = 0 ∨ fin = some (some finallyIp) →
      Does s.ctl (.setupTry (some handlerIp) fin) (opSetupTry.push s handlerIp finallyIp) := by
    intro handlerIp finallyIp fin hf
    have hn : Next s.ctl (.setupTry (some handlerIp) fin) _ := .setupTry hf
    rw [show s.ctl.calls.length = s.frames.length from List.length_map _] at hn
    exact hn
  unfold opSetupTry
  split
  · exact hpush (.inl ⟨rfl, rfl⟩)
  · exact hpush (.inr rfl)
  · exact .abort rfl fun _ => rfl

theorem does_opPopTry : Does s.ctl .popTry (opPopTry s) := by
  unfold opPopTry
  split
  · rename_i hh
    exact .operands (.inr (.inr (.inl ⟨rfl, hh⟩))) (List.drop_suffix _ _) fun _ => rfl
  · rename_i handler rest hh
    have hn := Next.popTry (c := s.ctl) hh
    dsimp only
    split
    · rename_i hf
      rw [if_pos hf] at hn
      exact hn
    · rename_i hf
      rw [if_neg hf] at hn
      exact hn

theorem does_opReturn : Does s.ctl .ret (opReturn s) := by
  unfold opReturn State.withPop
  split
  · rename_i hst
    exact .operands (.inr (.inr (.inr ⟨rfl, .inl hst⟩))) (List.drop_suffix _ _) fun _ => rfl
  · rename_i v rest hst
    dsimp only
    split
    · rename_i hf
      have hc : s.ctl.calls = [] := by simp [State.ctl, hf]
      refine .operands (.inr (.inr (.inr ⟨rfl, .inr hc⟩))) ?_ fun _ => rfl
      simp [State.ctl, hst, Instr.pops]
    · rename_i frame frames hf
      have hlen : s.ctl.calls.length = s.frames.length := List.length_map _
      have hcalls : s.ctl.calls = frame.call :: frames.map Frame.call := by simp [State.ctl, hf]
      -- The frame is popped at once if the top handler is not one of it with a `finally`.
      have hleave : (∀ handler ∈ s.ctl.handlers.head?, handler.frameDepth = s.ctl.calls.length →
          handler.finallyIp = 0) →
          Does s.ctl .ret (leaveFrame { s with
            stack := rest, frames := frames, ctx := frame.crossModuleCtx.getD s.ctx } frame v) := by
        intro hh
        obtain ⟨returnIp, fnName, locals, closure, localsArray, localsNameToSlot, cross⟩ := frame
        cases returnIp with
        | none =>
            have hst := Stops.ret (c := s.ctl) hst hcalls hh
            simp only [List.length_map] at hst
            exact hst
        | some ip =>
            have hn := Next.ret (c := s.ctl) hst hcalls hh
            simp only [List.length_map] at hn
            exact hn
      split
      · rename_i handler hs hh
        split
        · rename_i hcond
          exact .deferReturn hst (by simp [hcalls]) hh (hcond.1.trans hlen.symm) hcond.2
        · rename_i hcond
          refine hleave ?_
          simp only [State.ctl, hh, List.head?_cons, Option.mem_some_iff, forall_eq']
          intro hd
          exact Decidable.not_not.mp fun hf' => hcond ⟨hd.trans hlen, hf'⟩
      · rename_i hh
        exact hleave (by simp [State.ctl, hh])

theorem does_opFinallyEnd : Does s.ctl .finallyEnd (opFinallyEnd s) := by
  unfold opFinallyEnd
  split
  · rename_i e he
    exact .again he
  · rename_i he
    dsimp only
    split
    · rename_i hr
      exact .finallyEnd he hr
    · rename_i v hr
      split
      · rename_i hf
        exact .noFrame he (by simp [State.ctl, hr]) (by simp [State.ctl, hf])
      · rename_i frame frames hf
        have hcalls : s.ctl.calls = frame.call :: frames.map Frame.call := by simp [State.ctl, hf]
        obtain ⟨returnIp, fnName, locals, closure, localsArray, localsNameToSlot, cross⟩ := frame
        cases returnIp with
        | none =>
            have hst := Stops.performReturn (c := s.ctl) he hr hcalls
            simp only [List.length_map] at hst
            exact hst
        | some ip =>
            have hn := Next.performReturn (c := s.ctl) he hr hcalls
            simp only [List.length_map] at hn
            exact hn

theorem exec_does (s : State h) (i : Instr) : Does s.ctl i (exec s i) := by
  cases i with
  | pushConst c => exact (spent_self rfl).push rfl (by simp [edges, Instr.pushes])
  | frameSize n =>
      refine does_withFrame (spent_self rfl) rfl fun f fs hf => ?_
      exact (spent_self rfl).advance rfl (by simp [edges, Instr.pushes]) (setFrame_ctl rfl hf rfl)
  | load name =>
      simp only [exec]
      split
      · exact (spent_self rfl).push rfl (by simp [edges, Instr.pushes])
      · exact does_fail_self rfl
  | loadLocalIdx slot =>
      exact does_withSlot (spent_self rfl) rfl fun f fs entry hf =>
        (spent_self rfl).push rfl (by simp [edges, Instr.pushes])
  | loadUpvalue index =>
      simp only [exec]
      split
      · exact (spent_self rfl).push rfl (by simp [edges, Instr.pushes])
      · rename_i outcome ho
        obtain ⟨kind, message, rfl⟩ := upvalueCell_inr ho
        exact does_fail_self rfl
  | store name =>
      rw [exec]
      refine does_withPop rfl rfl fun v s' hs => ?_
      exact hs.advance rfl (by simp [edges, Instr.pushes]) storeName_ctl
  | storeLocalIdx slot =>
      rw [exec]
      refine does_withPop rfl rfl fun v s' hs => ?_
      refine does_withSlot hs rfl fun f fs old hf => ?_
      exact hs.advance rfl (by simp [edges, Instr.pushes]) (setFrame_ctl assignSlot_ctl hf rfl)
  | resetLocalIdx slot =>
      refine does_withSlot (spent_self rfl) rfl fun f fs old hf => ?_
      exact (spent_self rfl).advance rfl (by simp [edges, Instr.pushes]) (setFrame_ctl rfl hf rfl)
  | storeUpvalue index =>
      rw [exec]
      refine does_withPop rfl rfl fun v s' hs => ?_
      split
      · exact hs.advance rfl (by simp [edges, Instr.pushes]) setCell_ctl
      · rename_i outcome ho
        obtain ⟨kind, message, rfl⟩ := upvalueCell_inr ho
        exact hs.fail rfl
  | storeArg name => exact does_opStoreArg
  | pop => exact does_withPop rfl rfl fun v s' hs => hs.advance rfl (by simp [edges, Instr.pushes]) rfl
  | data op => exact does_opData
  | jump target => exact does_goto (spent_self rfl) rfl (by simp +contextual [edges])
  | jumpIfFalse target =>
      rw [exec]
      refine does_withPop rfl rfl fun v s' hs => ?_
      split
      · exact hs.advance rfl (by simp [edges]) rfl
      · exact does_goto hs rfl (by simp +contextual [edges])
  | jumpIfTrue target =>
      rw [exec]
      refine does_withPop rfl rfl fun v s' hs => ?_
      split
      · exact does_goto hs rfl (by simp +contextual [edges])
      · exact hs.advance rfl (by simp [edges]) rfl
  | getIter =>
      rw [exec]
      refine does_withPop rfl rfl fun v s' hs => ?_
      have hctx : s'.ctx = s.ctx := congrArg Ctl.ctx hs.eq
      exact does_finish hs rfl (by simp [edges, Instr.pushes]) fun hk => (hk.getIter ..).trans hctx
  | iterNext target => exact does_opIterNext
  | setupTry handler fin => exact does_opSetupTry
  | popTry => exact does_opPopTry
  | finallyEnd => exact does_opFinallyEnd
  | call name n => exact does_opCall
  | callValue n => exact does_opCallValue
  | makeClosure name => exact does_opMakeClosure
  | callMethod name n => exact does_opCallMethod
  | throw =>
      simp only [exec, State.withPop]
      split
      · exact .operands (.inr (.inl rfl)) (List.drop_suffix _ _) fun _ => rfl
      · rename_i v rest hst
        refine .operands (.inr (.inl rfl)) ?_ fun _ => rfl
        simp [State.ctl, hst, Instr.pops]
  | yield =>
      rw [exec]
      refine does_withPop rfl rfl fun v s' hs => ?_
      split
      · have hc : s'.advance.ctl = { s.ctl with
            ip := s.ctl.ip + 1, stack := [] ++ s.ctl.stack.drop Instr.yield.pops, ctx := s.ctl.ctx } := by
          have := hs.eq
          simp only [State.ctl, Ctl.ext_iff, State.advance] at this ⊢
          simp [this]
        simp only [Does, hc]
        exact .suspend rfl hs.operands (by simp [edges, Instr.pushes]) (fun _ => rfl) (by simp)
      · exact hs.fail rfl
  | ret => exact does_opReturn
  | halt => exact .halt

end does

/-- What happens to the control state of an execution context. -/
inductive Moves : Ctl h → Ctl h → Prop
  | next {c c' : Ctl h} {i : Instr} (hp : c.phase = .running) (hi : c.code[c.ip]? = some i)
      (hn : Next c i c') : Moves c c'
  | raise {c c' : Ctl h} {i : Instr} {e : RuntimeError h.Obj} (hp : c.phase = .running)
      (hi : c.code[c.ip]? = some i) (hr : Raises c i e c') (record : Value h.Obj) :
      Moves c (c'.handle e record)
  | stop {c c' : Ctl h} {i : Instr} {p : Phase h.Obj} (hp : c.phase = .running)
      (hi : c.code[c.ip]? = some i) (hs : Stops c i p c') : Moves c { c' with phase := p }
  | offEnd {c : Ctl h} (hp : c.phase = .running) (hi : c.code[c.ip]? = none) :
      Moves c { c with phase := .halted }
  | preempt {c : Ctl h} (hp : c.phase = .running) : Moves c { c with phase := .suspended false }
  | resume {c : Ctl h} {slot : Bool} (hp : c.phase = .suspended slot) :
      Moves c { c with phase := .running }
  | deliver {c : Ctl h} {v : Value h.Obj} {rest : List (Value h.Obj)} (hp : c.phase = .suspended true)
      (hs : c.stack = v :: rest) (w : Value h.Obj) :
      Moves c { c with phase := .running, stack := w :: rest }
  | fail {c : Ctl h} {slot : Bool} (hp : c.phase = .suspended slot) (e : RuntimeError h.Obj)
      (record : Value h.Obj) : Moves c ({ c with phase := .running }.handle e record)
  | cancel {c : Ctl h} {slot : Bool} (hp : c.phase = .suspended slot) (hc : c.cancelling = false)
      (e : RuntimeError h.Obj) (record : Value h.Obj) :
      Moves c ({ c with phase := .running, cancelling := true }.handle e record)

theorem Step.moves {s s' : State h} (hs : Step s s') : Moves s.ctl s'.ctl := by
  cases hs with
  | run hp =>
      unfold execute
      split
      · rename_i hi
        exact .offEnd hp hi
      · rename_i i hi
        have hd := exec_does s i
        split
        · rename_i s' ho
          rw [ho] at hd
          exact .next hp hi hd
        · rename_i e s' ho
          rw [ho] at hd
          obtain ⟨record, hr⟩ := handleException_ctl e s'
          rw [hr]
          exact .raise (c := s.ctl) hp hi hd record
        · rename_i p s' ho
          rw [ho] at hd
          exact .stop (c := s.ctl) hp hi hd
  | preempt hp hc => exact .preempt hp
  | resume hp hc store => exact .resume hp
  | deliver hp hc hs store w => exact .deliver hp hs w
  | fail hp hc store e =>
      obtain ⟨record, hr⟩ := handleException_ctl e { s with phase := .running, store := store }
      rw [hr]
      exact .fail hp e record
  | cancel hp hc store e =>
      obtain ⟨record, hr⟩ :=
        handleException_ctl e { s with phase := .running, store := store, cancelling := true }
      rw [hr]
      exact .cancel hp hc e record

end Nodus

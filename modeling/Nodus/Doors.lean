import Nodus.ModuleContext

/-! The ways an instruction enters a function body: a call by name, a call of a closure, a closure of
another chunk that is run in this loop, and a function of a module that is. -/

namespace Nodus

open Trace

variable {h : Host}

inductive Door where
  | byName (name : Name)
  | closure (callee : Closure)
  | foreign (origin : ModuleCtx) (fn : FnRef)
  | member (module : Nat) (name : Name)

namespace Door

/-- The function whose body lies behind the door. -/
def fn (s : State h) : Door → FnRef
  | .byName name => ⟨s.ctx.chunk, name⟩
  | .closure callee => callee.fn
  | .foreign _ fn => fn
  | .member module name => ⟨(h.moduleCtx s.store.world s.ctx module).chunk, name⟩

/-- The module context the body runs in. -/
def ctx (s : State h) : Door → ModuleCtx
  | .byName _ => s.ctx
  | .closure callee => (foreignClosureOrigin s callee).getD s.ctx
  | .foreign origin _ => origin
  | .member module _ => h.moduleCtx s.store.world s.ctx module

/-- Whether `guard_step_entry` is asked. -/
def guarded : Door → Bool
  | .closure _ | .foreign _ _ => true
  | .byName _ | .member _ _ => false

end Door

/-- The value an instruction calls. -/
def Callee (s : State h) (v : Value h.Obj) : Instr → Prop
  | .call name _ => loadName s name = some v
  | .callValue n => s.stack[n]? = some v
  | .callMethod name n => ∃ obj, s.stack[n]? = some obj ∧
      (h.receiver s.store.world obj name = .module (some v) ∨
        ∃ isModule, h.receiver s.store.world obj name = .record isModule (some v))
  | _ => False

/-- The doors an instruction may go through. -/
def Door.Opens (s : State h) (i : Instr) : Door → Prop
  | .byName name => ∃ n, i = .call name n
  | .closure callee => ∃ v, Callee s v i ∧ asClosure s v = some callee
  | .foreign origin fn => ∃ n v upvalues, i = .callValue n ∧ Callee s v i ∧
      ((∃ o, v = .obj o ∧ h.callable s.store.world o = .proxy (some origin) fn upvalues) ∨
        v = .closure fn upvalues ∧ h.callerCtx s.store.world = some origin ∧ isForeign s fn = true)
  | .member module name => ∃ method n o, i = .callMethod method n ∧ Callee s (.obj o) i ∧
      h.callable s.store.world o = .moduleFunction module name

/-- The function a frame runs; a call by name leaves no closure in it. -/
def Frame.function {Obj : Type} (chunk : Nat) (f : Frame Obj) : FnRef :=
  match f.closure with
  | some (fn, _) => fn
  | none => ⟨chunk, f.fnName⟩

/-- A step pushed a frame, through a door that was open. -/
structure Entered (s : State h) (i : Instr) (s' : State h) (door : Door) (info : FunctionInfo) : Prop where
  opens : door.Opens s i
  found : (door.fn s).info h = some info
  guard : door.guarded = true → info.stepOwner = none
  ip : s'.ip = info.addr
  ctx : s'.ctx = door.ctx s
  frame : ∃ f, s'.frames = f :: s.frames ∧ f.function s'.ctx.chunk = door.fn s ∧
    (f.crossModuleCtx = none ∨ f.crossModuleCtx = some s.ctx)

/-- If the outcome pushes a frame, it does so through a door. -/
def ByDoor (s : State h) (i : Instr) (o : Outcome h) : Prop :=
  ∀ s', o = .next s' → s.frames.length < s'.frames.length → ∃ door info, Entered s i s' door info

section byDoor

variable {s t : State h} {i : Instr}

theorem byDoor_fail {kind message : String} : ByDoor s i (t.fail kind message) := by
  intro s' ho
  cases ho

theorem byDoor_stop {p : Phase h.Obj} : ByDoor s i (.stop p t) := by
  intro s' ho
  cases ho

theorem byDoor_kept (hf : t.frames = s.frames) : ByDoor s i (.next t) := by
  intro s' ho hlen
  cases ho
  rw [hf] at hlen
  omega

theorem byDoor_finish {r : Effect (Result h.Obj) h.Obj h.World} (hf : t.frames = s.frames) :
    ByDoor s i (finish t r) := by
  obtain ⟨result, store, ctx⟩ := r
  cases result with
  | value v => exact byDoor_kept hf
  | raise e =>
      intro s' ho
      cases ho
  | abort => exact byDoor_stop

theorem byDoor_finishBuiltin {r : Effect (BuiltinResult h.Obj) h.Obj h.World} (hf : t.frames = s.frames) :
    ByDoor s i (finishBuiltin t r) := by
  obtain ⟨result, store, ctx⟩ := r
  cases result with
  | ends result =>
      have hfin := @byDoor_finish h s { t with store := store, ctx := ctx } i ⟨result, store, ctx⟩ hf
      simpa only [finishBuiltin] using hfin
  | sleep =>
      simp only [finishBuiltin]
      split
      · exact byDoor_stop
      · exact byDoor_fail
  | wait => exact byDoor_stop

theorem byDoor_withArgs {n : Nat} {k : List (Value h.Obj) → State h → Outcome h}
    (hk : n ≤ s.stack.length →
      ByDoor s i (k (s.stack.take n).reverse { s with stack := s.stack.drop n })) :
    ByDoor s i (s.withArgs n k) := by
  unfold State.withArgs
  split
  · exact byDoor_fail
  · exact hk (by omega)

theorem byDoor_callClosure {v : Value h.Obj} {n : Nat} (hv : Callee s v i) (stack : List (Value h.Obj)) :
    ByDoor s i (callClosure { s with stack := stack } v n) := by
  unfold callClosure
  split
  · exact byDoor_fail
  · rename_i closure hclosure
    split
    · exact byDoor_stop
    · rename_i info hinfo
      split
      · exact byDoor_fail
      · unfold guardStepEntry
        split
        · rename_i hguard
          split
          · exact byDoor_fail
          · split
            · rename_i horigin
              intro s' ho _
              cases ho
              refine ⟨.closure closure, info, ⟨v, hv, hclosure⟩, hinfo, fun _ => hguard, rfl, ?_,
                _, rfl, rfl, .inl rfl⟩
              change s.ctx = (foreignClosureOrigin s closure).getD s.ctx
              rw [show foreignClosureOrigin s closure = none from horigin]
              rfl
            · rename_i origin horigin
              intro s' ho _
              cases ho
              refine ⟨.closure closure, info, ⟨v, hv, hclosure⟩, hinfo, fun _ => hguard, rfl, ?_,
                _, rfl, rfl, .inr rfl⟩
              change origin = (foreignClosureOrigin s closure).getD s.ctx
              rw [show foreignClosureOrigin s closure = some origin from horigin]
              rfl
        · exact byDoor_fail

theorem byDoor_enterForeign {door : Door} {fn : FnRef} {info : FunctionInfo} {upvalues : List Nat}
    {ctx : ModuleCtx} {args stack : List (Value h.Obj)} (hopens : door.Opens s i) (hfn : door.fn s = fn)
    (hctx : door.ctx s = ctx) (hinfo : fn.info h = some info)
    (hguard : door.guarded = true → info.stepOwner = none) :
    ByDoor s i (enterForeign { s with stack := stack } fn info upvalues ctx args) := by
  unfold enterForeign
  split
  · exact byDoor_fail
  · intro s' ho _
    cases ho
    refine ⟨door, info, hopens, ?_, hguard, rfl, hctx.symm, _, rfl, hfn.symm, .inr rfl⟩
    rw [hfn]
    exact hinfo

theorem byDoor_callForeign {origin : Option ModuleCtx} {fn : FnRef} {upvalues : List Nat}
    {args stack : List (Value h.Obj)} (hopens : ∀ ctx, origin = some ctx → (Door.foreign ctx fn).Opens s i) :
    ByDoor s i (callForeign { s with stack := stack } origin fn upvalues args) := by
  unfold callForeign tryEnterForeignClosure
  split
  · rename_i outcome ho
    split at ho
    · rename_i ctx info hinfo
      split at ho
      · obtain rfl := Option.some.inj ho
        unfold guardStepEntry
        split
        · rename_i hguard
          exact byDoor_enterForeign (hopens ctx rfl) rfl rfl hinfo fun _ => hguard
        · exact byDoor_fail
      · cases ho
    · cases ho
  · exact byDoor_finish rfl

theorem byDoor_callModuleFunction {module : Nat} {name : Name} {args stack : List (Value h.Obj)}
    (hopens : (Door.member module name).Opens s i) :
    ByDoor s i (callModuleFunction { s with stack := stack } module name args) := by
  unfold callModuleFunction tryEnterModuleCall
  split
  · rename_i outcome ho
    dsimp only at ho
    split at ho
    · split at ho
      · cases ho
      · rename_i info hinfo
        split at ho
        · cases ho
        · obtain rfl := Option.some.inj ho
          exact byDoor_enterForeign hopens rfl rfl hinfo fun hg => nomatch hg
    · cases ho
  · exact byDoor_finish rfl

theorem byDoor_withArgs_withPop {n : Nat} {k : List (Value h.Obj) → Value h.Obj → State h → Outcome h}
    (hk : ∀ args v rest, s.stack[n]? = some v → ByDoor s i (k args v { s with stack := rest })) :
    ByDoor s i (s.withArgs n fun args s' => s'.withPop (k args)) := by
  refine byDoor_withArgs fun hle => ?_
  unfold State.withPop
  split
  · exact byDoor_fail
  · rename_i v rest hst
    refine hk _ v rest ?_
    have hdrop : s.stack.drop n = v :: rest := hst
    rw [← List.head?_drop, hdrop]
    rfl

theorem byDoor_opCallValue {n : Nat} : ByDoor s (.callValue n) (opCallValue s n) := by
  refine byDoor_withArgs_withPop fun args v rest hv => ?_
  have hcallee : Callee s v (.callValue n) := hv
  split
  · rename_i o
    split
    · exact byDoor_finish rfl
    · rename_i origin fn upvalues hproxy
      refine byDoor_callForeign fun ctx hctx => ?_
      subst hctx
      exact ⟨n, .obj o, upvalues, rfl, hcallee, .inl ⟨o, rfl, hproxy⟩⟩
    · exact byDoor_callClosure hcallee _
  · rename_i fn upvalues
    split
    · rename_i ctx hctx
      split
      · rename_i hforeign
        refine byDoor_callForeign fun ctx' hctx' => ?_
        cases hctx'
        exact ⟨n, _, upvalues, rfl, hcallee, .inr ⟨rfl, hctx, hforeign⟩⟩
      · exact byDoor_callClosure hcallee _
    · exact byDoor_callClosure hcallee _
  · exact byDoor_callClosure hcallee _

theorem byDoor_opCallMethod {name : Name} {n : Nat} :
    ByDoor s (.callMethod name n) (opCallMethod s name n) := by
  refine byDoor_withArgs_withPop fun args obj rest hobj => ?_
  split
  · exact byDoor_fail
  · exact byDoor_fail
  · exact byDoor_fail
  · rename_i method hr
    have hcallee : Callee s method (.callMethod name n) := ⟨obj, hobj, .inl hr⟩
    split
    · rename_i o
      split
      · rename_i module fn hfn
        exact byDoor_callModuleFunction ⟨name, n, o, rfl, hcallee, hfn⟩
      · exact byDoor_callClosure hcallee _
    · exact byDoor_callClosure hcallee _
  · rename_i isModule method hr
    have hcallee : Callee s method (.callMethod name n) := ⟨obj, hobj, .inr ⟨isModule, hr⟩⟩
    have hdirect : ByDoor s (.callMethod name n)
        (if isModule then callWith { s with stack := rest } method args
          else callWith { s with stack := rest } method (obj :: args)) := by
      split
      · exact byDoor_callClosure hcallee _
      · exact byDoor_callClosure hcallee _
    dsimp only
    split
    · rename_i o
      split
      · exact byDoor_finishBuiltin rfl
      · rename_i module fn hfn
        exact byDoor_callModuleFunction ⟨name, n, o, rfl, hcallee, hfn⟩
      · exact hdirect
    · exact hdirect

theorem byDoor_callBuiltin {name : Name} {arities : List Nat} {n : Nat} :
    ByDoor s i (callBuiltin s name arities n) := by
  unfold callBuiltin
  split
  · exact byDoor_withArgs fun _ => byDoor_finishBuiltin rfl
  · exact byDoor_fail

theorem byDoor_opCall {name : Name} {n : Nat} : ByDoor s (.call name n) (opCall s name n) := by
  unfold opCall
  split
  · dsimp only
    split
    · exact byDoor_callBuiltin
    · exact byDoor_fail
  · split
    · rename_i info hinfo
      split
      · exact byDoor_fail
      · split
        · exact byDoor_fail
        · split
          · exact byDoor_fail
          · intro s' ho _
            cases ho
            have hguard : (Door.byName name).guarded = true → info.stepOwner = none := fun hg => nomatch hg
            exact ⟨.byName name, info, ⟨n, rfl⟩, hinfo, hguard, rfl, rfl, _, rfl, rfl, .inl rfl⟩
    · split
      · exact byDoor_callBuiltin
      · split
        · split
          · exact byDoor_fail
          · rename_i callee hload
            have hcallee : Callee s callee (.call name n) := hload
            split
            · split
              · exact byDoor_withArgs fun _ => byDoor_finish rfl
              · exact byDoor_callClosure hcallee s.stack
            · exact byDoor_callClosure hcallee s.stack
        · exact byDoor_fail

theorem exec_byDoor : ByDoor s i (exec s i) := by
  intro s' hx hlen
  have hdoes := exec_does s i
  rw [hx] at hdoes
  change Next s.ctl i s'.ctl at hdoes
  have hcall : i.isCall = true := by
    have hcalls : s'.ctl.calls.length = s'.frames.length := by simp [State.ctl]
    have hcalls₀ : s.ctl.calls.length = s.frames.length := by simp [State.ctl]
    generalize s'.ctl = c' at hdoes hcalls
    cases hdoes with
    | call hi => exact hi
    | ret _ hc =>
        rw [hc, List.length_cons] at hcalls₀
        simp only at hcalls
        omega
    | performReturn _ _ hc =>
        rw [hc, List.length_cons] at hcalls₀
        simp only at hcalls
        omega
    | _ =>
        simp only at hcalls
        omega
  cases i with
  | call name n =>
      rw [exec] at hx
      exact byDoor_opCall s' hx hlen
  | callValue n =>
      rw [exec] at hx
      exact byDoor_opCallValue s' hx hlen
  | callMethod name n =>
      rw [exec] at hx
      exact byDoor_opCallMethod s' hx hlen
  | _ => cases hcall

end byDoor

theorem handleException_frames (e : RuntimeError h.Obj) (s : State h) :
    (handleException e s).frames.length ≤ s.frames.length := by
  obtain ⟨record, hr⟩ := handleException_ctl e s
  have hnew : (handleException e s).frames.length = (s.ctl.handle e record).calls.length := by
    rw [← hr]
    simp [State.ctl]
  have hold : s.frames.length = s.ctl.calls.length := by simp [State.ctl]
  rw [hnew, hold]
  rcases s.ctl.handle_calls e record with ⟨hsame, -⟩ | ⟨depth, hunwound⟩
  · rewrite [hsame]
    exact Nat.le_refl _
  · have hcalls : (s.ctl.handle e record).calls = (Ctl.unwindCalls depth s.ctl.calls s.ctl.ctx).1 :=
      congrArg Prod.fst hunwound
    rw [hcalls]
    exact unwindCalls_around.unwindCalls_length _ _

theorem Step.entered {s s' : State h} (hs : Step s s') (hlen : s.frames.length < s'.frames.length) :
    ∃ i door info, s.code[s.ip]? = some i ∧ Entered s i s' door info := by
  cases hs with
  | run hp =>
      unfold execute at hlen ⊢
      split at hlen
      · exact absurd hlen (Nat.lt_irrefl _)
      · rename_i i hi
        simp only [hi]
        split at hlen
        · rename_i t ht
          obtain ⟨door, info, hentered⟩ := exec_byDoor t ht hlen
          exact ⟨i, door, info, rfl, hentered⟩
        · rename_i e t ht
          have hdoes := exec_does s i
          rw [ht] at hdoes
          have hcalls := congrArg List.length (Raises.calls hdoes).1
          simp only [State.ctl, List.length_map] at hcalls
          have hle := handleException_frames e t
          omega
        · rename_i p t ht
          have hdoes := exec_does s i
          rw [ht] at hdoes
          change Stops s.ctl i p t.ctl at hdoes
          have hcalls : t.ctl.calls.length = t.frames.length := by simp [State.ctl]
          have hcalls₀ : s.ctl.calls.length = s.frames.length := by simp [State.ctl]
          generalize t.ctl = c at hdoes hcalls
          dsimp only at hlen
          cases hdoes with
          | suspend =>
              simp only at hcalls
              omega
          | halt => omega
          | abort hc =>
              rw [hc] at hcalls
              omega
          | ret _ hc | performReturn _ _ hc =>
              rw [hc, List.length_cons] at hcalls₀
              simp only at hcalls
              omega
  | preempt | resume | deliver => exact absurd hlen (Nat.lt_irrefl _)
  | fail hp hc store e =>
      have hle := handleException_frames e { s with phase := .running, store := store }
      dsimp only at hle
      omega
  | cancel hp hc store e =>
      have hle := handleException_frames e { s with phase := .running, store := store, cancelling := true }
      dsimp only at hle
      omega

end Nodus

import Nodus.Control
import Nodus.Trace

/-! The module context over a run. A frame for a function of another module saves the context of its
caller; this module says when the caller gets it back. -/

namespace Nodus

open Trace

variable {h : Host}

/-- The next step performs a return that waited for a `finally` block, and the frame it pops saved a
module context. -/
def ForgetsCtx (s : State h) : Prop :=
  s.phase = .running ∧ s.code[s.ip]? = some .finallyEnd ∧ s.deferredError = none ∧
    s.deferredReturn.isSome = true ∧ ∃ f fs, s.frames = f :: fs ∧ f.crossModuleCtx.isSome = true

/-- Whenever a step pushes a frame with a saved context, and later control is back at the depth it was
pushed from, the context is the one of then. -/
def CtxRestored (tr : Nat → State h) (n : Nat) : Prop :=
  ∀ i j, i < j → j ≤ n → (tr (i + 1)).frames.length = (tr i).frames.length + 1 →
    (∃ f fs, (tr (i + 1)).frames = f :: fs ∧ f.crossModuleCtx.isSome = true) →
    (∀ k, i < k → k < j → (tr i).frames.length < (tr k).frames.length) →
    (tr j).frames.length = (tr i).frames.length → (tr j).ctx = (tr i).ctx

/-- What a step can do to the calls. -/
inductive CallsMove (c c' : Ctl h) : Prop
  | same (hc : c'.calls = c.calls) (hk : h.KeepsCtx → c'.ctx = c.ctx)
  | enter {f : Call} (hc : c'.calls = f :: c.calls)
      (hx : f.cross = none ∧ c'.ctx = c.ctx ∨ f.cross = some c.ctx)
  | leave {f : Call} (hc : c.calls = f :: c'.calls) (hx : c'.ctx = f.cross.getD c.ctx)
  | unwind {depth : Nat} {ctx : ModuleCtx} (hc : (c'.calls, c'.ctx) = Ctl.unwindCalls depth c.calls ctx)
      (hk : h.KeepsCtx → ctx = c.ctx)

theorem Ctl.handle_calls (e : RuntimeError h.Obj) (record : Value h.Obj) (c : Ctl h) :
    (c.handle e record).calls = c.calls ∧ (c.handle e record).ctx = c.ctx ∨
      ∃ depth, ((c.handle e record).calls, (c.handle e record).ctx) =
        unwindCalls depth c.calls c.ctx := by
  unfold handle
  generalize c.handlers = hs
  induction hs with
  | nil => exact .inl ⟨rfl, rfl⟩
  | cons handler rest ih =>
      obtain ⟨handlerIp, finallyIp, stackDepth, frameDepth⟩ := handler
      cases handlerIp with
      | none => exact .inr ⟨frameDepth, rfl⟩
      | some handlerIp =>
          simp only [handleAt]
          split
          · split
            · exact ih
            · exact .inr ⟨frameDepth, rfl⟩
          · exact .inr ⟨frameDepth, rfl⟩

theorem Raises.calls {c c' : Ctl h} {i : Instr} {e : RuntimeError h.Obj} (hr : Raises c i e c') :
    c'.calls = c.calls ∧ (h.KeepsCtx → c'.ctx = c.ctx) := by
  cases hr with
  | operands _ _ hk => exact ⟨rfl, hk⟩
  | again => exact ⟨rfl, fun _ => rfl⟩
  | noFrame => exact ⟨rfl, fun _ => rfl⟩

theorem callsMove_handle {c c' : Ctl h} (e : RuntimeError h.Obj) (record : Value h.Obj)
    (hc : c'.calls = c.calls) (hk : h.KeepsCtx → c'.ctx = c.ctx) :
    CallsMove c (c'.handle e record) := by
  rcases c'.handle_calls e record with ⟨hs, hx⟩ | ⟨depth, hu⟩
  · exact .same (hs.trans hc) fun h' => hx.trans (hk h')
  · rw [hc] at hu
    exact .unwind hu hk

theorem Moves.calls {c c' : Ctl h} (hm : Moves c c')
    (hf : ∀ v f fs, c.phase = .running → c.code[c.ip]? = some .finallyEnd → c.deferredError = none →
      c.deferredReturn = some v → c.calls = f :: fs → f.cross = none) : CallsMove c c' := by
  cases hm with
  | next hp hi hn =>
      cases hn with
      | flow _ _ _ hk => exact .same rfl hk
      | call _ _ hs =>
          rcases hs with ⟨rfl, hctx⟩ | rfl
          · exact .enter rfl (.inl ⟨rfl, hctx⟩)
          · exact .enter rfl (.inr rfl)
      | setupTry => exact .same rfl fun _ => rfl
      | popTry => exact .same rfl fun _ => rfl
      | deferReturn => exact .same rfl fun _ => rfl
      | ret _ hc => exact .leave hc rfl
      | finallyEnd => exact .same rfl fun _ => rfl
      | performReturn he hr hc =>
          have hx := hf _ _ _ hp hi he hr hc
          refine .leave hc ?_
          rw [hx]
          rfl
  | raise hp hi hr record => exact callsMove_handle _ record hr.calls.1 hr.calls.2
  | stop hp hi hs =>
      cases hs with
      | suspend _ _ _ hk => exact .same rfl hk
      | halt => exact .same rfl fun _ => rfl
      | abort hc hk => exact .same hc hk
      | ret _ hc => exact .leave hc rfl
      | performReturn he hr hc =>
          have hx := hf _ _ _ hp hi he hr hc
          refine .leave hc ?_
          rw [hx]
          rfl
  | offEnd => exact .same rfl fun _ => rfl
  | preempt => exact .same rfl fun _ => rfl
  | resume => exact .same rfl fun _ => rfl
  | deliver => exact .same rfl fun _ => rfl
  | fail hp e record => exact callsMove_handle e record rfl fun _ => rfl
  | cancel hp hc e record => exact callsMove_handle e record rfl fun _ => rfl

theorem unwindCalls_around {depth : Nat} {upper lower : List Call} {f : Call} {x ctx : ModuleCtx}
    (hx : f.cross = some x) :
    (∃ upper', (Ctl.unwindCalls depth (upper ++ f :: lower) ctx).1 = upper' ++ f :: lower) ∨
      Ctl.unwindCalls depth (upper ++ f :: lower) ctx = (lower, x) ∨
      (Ctl.unwindCalls depth (upper ++ f :: lower) ctx).1.length < lower.length := by
  induction upper generalizing ctx with
  | nil =>
      simp only [List.nil_append, Ctl.unwindCalls]
      split
      · rw [hx, Option.getD_some]
        cases lower with
        | nil => exact .inr (.inl rfl)
        | cons g gs =>
            simp only [Ctl.unwindCalls]
            split
            · refine .inr (.inr ?_)
              exact Nat.lt_of_le_of_lt (unwindCalls_length gs _) (Nat.lt_succ_self _)
            · exact .inr (.inl rfl)
      · exact .inl ⟨[], rfl⟩
  | cons g upper ih =>
      simp only [List.cons_append, Ctl.unwindCalls]
      split
      · exact ih
      · exact .inl ⟨g :: upper, rfl⟩
where
  unwindCalls_length {depth : Nat} (calls : List Call) (ctx : ModuleCtx) :
      (Ctl.unwindCalls depth calls ctx).1.length ≤ calls.length := by
    induction calls generalizing ctx with
    | nil => exact Nat.le_refl _
    | cons g gs ih =>
        simp only [Ctl.unwindCalls]
        split
        · exact Nat.le_succ_of_le (ih _)
        · exact Nat.le_refl _

/-- While a call with a saved context is not popped it stays where it is, and when control is back
below it the context is the saved one. -/
theorem CallsMove.around {c c' : Ctl h} (hm : CallsMove c c') {upper lower : List Call} {f : Call}
    {x : ModuleCtx} (hx : f.cross = some x) (hc : c.calls = upper ++ f :: lower) :
    (∃ upper', c'.calls = upper' ++ f :: lower) ∨ c'.calls.length = lower.length ∧ c'.ctx = x ∨
      c'.calls.length < lower.length := by
  cases hm with
  | same hs _ => exact .inl ⟨upper, hs.trans hc⟩
  | @enter g hs _ => exact .inl ⟨g :: upper, by rw [hs, hc, List.cons_append]⟩
  | leave hs hctx =>
      rw [hc] at hs
      cases upper with
      | nil =>
          obtain ⟨rfl, hl⟩ := List.cons.inj hs
          refine .inr (.inl ⟨by rw [hl], ?_⟩)
          rw [hctx, hx, Option.getD_some]
      | cons g upper => exact .inl ⟨upper, (List.cons.inj hs).2.symm⟩
  | @unwind depth ctx hu _ =>
      rw [hc] at hu
      have h₁ : c'.calls = (Ctl.unwindCalls depth (upper ++ f :: lower) ctx).1 := congrArg Prod.fst hu
      have h₂ : c'.ctx = (Ctl.unwindCalls depth (upper ++ f :: lower) ctx).2 := congrArg Prod.snd hu
      rcases @unwindCalls_around depth upper lower f x ctx hx with ⟨upper', h'⟩ | h' | h'
      · exact .inl ⟨upper', h₁.trans h'⟩
      · rw [h'] at h₁ h₂
        exact .inr (.inl ⟨by rw [h₁], h₂⟩)
      · exact .inr (.inr (by rw [h₁]; exact h'))

theorem not_forgetsCtx {s : State h} (hf : ¬ ForgetsCtx s) :
    ∀ v f fs, s.ctl.phase = .running → s.ctl.code[s.ctl.ip]? = some .finallyEnd →
      s.ctl.deferredError = none → s.ctl.deferredReturn = some v → s.ctl.calls = f :: fs →
      f.cross = none := by
  intro v f fs hp hi he hr hc
  obtain ⟨g, gs, hg, hcall, -⟩ := List.map_eq_cons_iff.mp hc
  cases hx : f.cross with
  | none => rfl
  | some x =>
      refine absurd ⟨hp, hi, he, ?_, g, gs, hg, ?_⟩ hf
      · rw [show s.deferredReturn = some v from hr]
        rfl
      · rw [show g.crossModuleCtx = f.cross from congrArg Call.cross hcall, hx]
        rfl

theorem ctxRestored_of_run {tr : Nat → State h} {n : Nat} (hr : Run Step tr n)
    (hf : ∀ i, i < n → ¬ ForgetsCtx (tr i)) : CtxRestored tr n := by
  intro i j hij hj hpush hcross hover hback
  have hmove : ∀ k, k < n → CallsMove (tr k).ctl (tr (k + 1)).ctl :=
    fun k hk => (hr k hk).moves.calls (not_forgetsCtx (hf k hk))
  have hlen : ∀ k, (tr k).ctl.calls.length = (tr k).frames.length := fun k => List.length_map _
  -- The step that pushes the frame saves the context in it.
  obtain ⟨f, hcalls, hx⟩ : ∃ f, (tr (i + 1)).ctl.calls = f :: (tr i).ctl.calls ∧
      f.cross = some (tr i).ctx := by
    obtain ⟨g, gs, hg, hgx⟩ := hcross
    have hi1 := hlen i
    have hi2 := hlen (i + 1)
    cases hmove i (by omega) with
    | same hs _ =>
        rw [hs] at hi2
        omega
    | @enter f hs hx =>
        refine ⟨f, hs, hx.resolve_left ?_⟩
        rintro ⟨hnone, -⟩
        have hgf : g.call = f := by
          have : (tr (i + 1)).ctl.calls = g.call :: gs.map Frame.call := by simp [State.ctl, hg]
          exact (List.cons.inj (this.symm.trans hs)).1
        rw [← hgf] at hnone
        rw [show g.crossModuleCtx = none from hnone] at hgx
        cases hgx
    | leave hs _ =>
        have := congrArg List.length hs
        simp only [List.length_cons] at this
        omega
    | @unwind depth ctx hu _ =>
        have h₁ : (tr (i + 1)).ctl.calls = (Ctl.unwindCalls depth (tr i).ctl.calls ctx).1 :=
          congrArg Prod.fst hu
        have hle : (Ctl.unwindCalls depth (tr i).ctl.calls ctx).1.length ≤ _ :=
          unwindCalls_around.unwindCalls_length _ _
        rw [← h₁] at hle
        omega
  -- Until control is back, the frame stays on.
  have hon : ∀ k, i + 1 ≤ k → k < j → ∃ upper, (tr k).ctl.calls = upper ++ f :: (tr i).ctl.calls := by
    intro k hk hkj
    refine (hr.keeps (P := fun k s => k < j → ∃ upper, s.ctl.calls = upper ++ f :: (tr i).ctl.calls)
      (fun _ => ⟨[], hcalls⟩) ?_) k hk (by omega) hkj
    intro k hk hkn ih _ hk1
    obtain ⟨upper, hu⟩ := ih (by omega)
    have hgt := hover (k + 1) (by omega) hk1
    have h1 := hlen (k + 1)
    have h2 := hlen i
    rcases (hmove k hkn).around hx hu with h' | ⟨h', -⟩ | h'
    · exact h'
    · omega
    · omega
  obtain ⟨m, rfl⟩ : ∃ m, j = m + 1 := ⟨j - 1, by omega⟩
  have hne : i ≠ m := by
    rintro rfl
    omega
  obtain ⟨upper, hu⟩ := hon m (by omega) (by omega)
  have h1 := hlen (m + 1)
  have h2 := hlen i
  rcases (hmove m (by omega)).around hx hu with ⟨upper', h'⟩ | ⟨-, h'⟩ | h'
  · have := congrArg List.length h'
    simp only [List.length_append, List.length_cons] at this
    omega
  · exact h'
  · omega

/-! Nested runs. -/

/-- Where `run_closure` starts the closure: in an execution context of its own, with the module context
of the chunk it comes from. -/
def runClosure (s : State h) (closure : Closure) (info : FunctionInfo) (args : List (Value h.Obj)) :
    State h :=
  State.entry ((foreignClosureOrigin s closure).getD s.ctx) s.store closure.fn closure.upvalues info args

/-- The module context after `run_closure`, whatever ended the run: it is put back only if it was
replaced. -/
def ctxAfterRunClosure (s : State h) (closure : Closure) (last : State h) : ModuleCtx :=
  match foreignClosureOrigin s closure with
  | some _ => s.ctx
  | none => last.ctx

/-- The context below all calls. -/
def bottomCtx : List Call → ModuleCtx → ModuleCtx
  | [], ctx => ctx
  | f :: fs, ctx => bottomCtx fs (f.cross.getD ctx)

theorem bottomCtx_unwindCalls (depth : Nat) (calls : List Call) (ctx : ModuleCtx) :
    bottomCtx (Ctl.unwindCalls depth calls ctx).1 (Ctl.unwindCalls depth calls ctx).2 =
      bottomCtx calls ctx := by
  induction calls generalizing ctx with
  | nil => rfl
  | cons f fs ih =>
      simp only [Ctl.unwindCalls]
      split
      · exact ih _
      · rfl

theorem CallsMove.bottomCtx {c c' : Ctl h} (hm : CallsMove c c') (hk : h.KeepsCtx) :
    bottomCtx c'.calls c'.ctx = bottomCtx c.calls c.ctx := by
  cases hm with
  | same hs hx => rw [hs, hx hk]
  | enter hs hx =>
      rw [hs]
      rcases hx with ⟨hx, hctx⟩ | hx
      · simp only [Nodus.bottomCtx, hx, hctx, Option.getD_none]
      · simp only [Nodus.bottomCtx, hx, Option.getD_some]
  | leave hs hx => rw [hs, hx, Nodus.bottomCtx]
  | @unwind depth ctx hu hx =>
      have hb := bottomCtx_unwindCalls depth c.calls ctx
      rw [← hu, hx hk] at hb
      exact hb

/-- A nested run that ends with no frame of another module on it leaves the context it found. -/
theorem ctx_runClosure (hk : h.KeepsCtx) {s : State h} {closure : Closure} {info : FunctionInfo}
    {args : List (Value h.Obj)} {tr : Nat → State h} {n : Nat}
    (h0 : tr 0 = runClosure s closure info args) (hr : Run Step tr n)
    (hf : ∀ i, i < n → ¬ ForgetsCtx (tr i))
    (hlast : ∀ f ∈ (tr n).frames, f.crossModuleCtx = none) :
    ctxAfterRunClosure s closure (tr n) = s.ctx := by
  unfold ctxAfterRunClosure
  split
  · rfl
  · rename_i horigin
    have hinv := hr.keeps (i := 0) (P := fun _ s' => bottomCtx s'.ctl.calls s'.ctl.ctx = s.ctx) (by
        rw [h0, runClosure, horigin]
        rfl) (fun k _ hkn ih hs => by
        rw [(hs.moves.calls (not_forgetsCtx (hf k hkn))).bottomCtx hk]
        exact ih) n (Nat.zero_le n) (Nat.le_refl n)
    have hnone : ∀ (calls : List Call) (ctx : ModuleCtx), (∀ f ∈ calls, f.cross = none) →
        bottomCtx calls ctx = ctx := by
      intro calls
      induction calls with
      | nil => exact fun _ _ => rfl
      | cons f fs ih =>
          intro ctx hall
          simp only [bottomCtx, hall f List.mem_cons_self, Option.getD_none]
          exact ih ctx fun g hg => hall g (List.mem_cons_of_mem f hg)
    rw [hnone _ _ ?_] at hinv
    · exact hinv
    · intro f hfm
      obtain ⟨g, hg, rfl⟩ := List.mem_map.mp hfm
      exact hlast g hg

/-- Every frame that saved its caller's module context gives it back, in a run that forgets none; and
a nested run that is not abandoned inside a cross-module call gives it back too. -/
theorem context_restored :
    (∀ (tr : Nat → State h) (n : Nat), Run Step tr n → (∀ i, i < n → ¬ ForgetsCtx (tr i)) →
      CtxRestored tr n) ∧
    (h.KeepsCtx → ∀ (s : State h) (closure : Closure) (info : FunctionInfo)
      (args : List (Value h.Obj)) (tr : Nat → State h) (n : Nat),
      tr 0 = runClosure s closure info args → Run Step tr n → (∀ i, i < n → ¬ ForgetsCtx (tr i)) →
      (∀ f ∈ (tr n).frames, f.crossModuleCtx = none) →
      ctxAfterRunClosure s closure (tr n) = s.ctx) :=
  ⟨fun _ _ hr hf => ctxRestored_of_run hr hf,
    fun hk _ _ _ _ _ _ h0 hr hf hlast => ctx_runClosure hk h0 hr hf hlast⟩

theorem run_execute {s : State h} {n : Nat}
    (hr : ∀ i, i < n → (iterate execute s i).phase.isRunning = true) :
    Run Step (iterate execute s) n :=
  run_iterate (fun _ ha => .run (Phase.eq_running ha)) hr

/-- `fn f() { return m.g() }`. -/
def callsModule : Program where
  module := some "main.nd"
  stmts := [.fnDef "f" [] (.block [.returnStmt (some (.call (.attr (.var "m") "g") []))]) none none]

/-- `fn g() { return 1 }`. -/
def returnsPlainly : Program where
  module := some "m.nd"
  stmts := [.fnDef "g" [] (.block [.returnStmt (some (.int 1))]) none none]

/-- `fn g() { try { return 1 } finally { } }`. -/
def returnsThroughFinally : Program where
  module := some "m.nd"
  stmts := [.fnDef "g" [] (.block [.tryCatch (.block [.returnStmt (some (.int 1))]) none
    (some (.block []))]) none none]

/-- A program and a module. -/
def twoChunks (main module : Program) (k : Nat) : Chunk := .ofProgram (if k = 0 then main else module)

def plainCall : Nat → State (Host.modules (twoChunks callsModule returnsPlainly)) :=
  iterate execute (startFn _ "f")

def finallyCall : Nat → State (Host.modules (twoChunks callsModule returnsThroughFinally)) :=
  iterate execute (startFn _ "f")

theorem keepsCtx_modules (chunks : Nat → Chunk) : (Host.modules chunks).KeepsCtx where
  getIter _ _ _ := rfl
  iterNext _ _ _ := rfl
  builtin _ _ _ _ := rfl
  builtinMethod _ _ _ _ := rfl
  invoke _ _ _ _ _ := rfl
  runOnCaller _ _ _ _ _ := rfl

/-- The run of `f` restores the context after the call of the module, also as a nested run. -/
theorem plainCall_restored : Run Step plainCall 7 ∧ CtxRestored plainCall 7 ∧
    ctxAfterRunClosure (plainCall 0) ⟨⟨0, "f"⟩, [], none⟩ (plainCall 7) = .ofChunk 0 := by
  have hr : Run Step plainCall 7 := run_execute (by decide)
  have hnone : ∀ i, i < 7 → (plainCall i).deferredReturn.isSome = false := by decide
  have hf : ∀ i, i < 7 → ¬ ForgetsCtx (plainCall i) := by
    rintro i hi ⟨-, -, -, hret, -⟩
    rw [hnone i hi] at hret
    cases hret
  obtain ⟨info, h0⟩ : ∃ info, plainCall 0 = runClosure (plainCall 0) ⟨⟨0, "f"⟩, [], none⟩ info [] :=
    ⟨_, rfl⟩
  have hlast : ∀ f ∈ (plainCall 7).frames, f.crossModuleCtx = none := by
    rw [show (plainCall 7).frames = [] from rfl]
    simp
  exact ⟨hr, context_restored.1 plainCall 7 hr hf,
    context_restored.2 (keepsCtx_modules _) _ _ info [] plainCall 7 h0 hr hf hlast⟩

/-- The function of the module is entered at step 2, and the return its `finally` block ends with, at
step 7, leaves its caller in the context of the module. -/
theorem finallyCall_not_restored : Run Step finallyCall 8 ∧ ¬ CtxRestored finallyCall 8 := by
  refine ⟨run_execute (by decide), fun hr => ?_⟩
  have hover : ∀ k, k < 8 → 2 < k → (finallyCall 2).frames.length < (finallyCall k).frames.length := by
    decide
  have hctx := hr 2 8 (by decide) (by decide) rfl ⟨_, _, rfl, rfl⟩ (fun k hk hk' => hover k hk' hk) rfl
  exact absurd hctx (by decide)

end Nodus

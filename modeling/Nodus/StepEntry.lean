import Nodus.Doors

/-! The bodies of workflow and goal steps. The lowering marks them with the step they belong to; they are
to run only when the graph runner dispatches the step. -/

namespace Nodus

open Trace

variable {h : Host}

/-! The graph runner, as far as it decides what is dispatched. -/

inductive JoinState where
  | completed
  | failed
  | skipped
  deriving DecidableEq, Repr

structure TaskNode where
  taskId : Nat
  function : Closure
  dependencies : List Nat
  onStates : List JoinState := [.completed]

/-- The bookkeeping of one run of a task graph, by task ids. -/
structure GraphRun where
  tasks : List TaskNode
  pending : List Nat
  results : List Nat := []
  failed : List Nat := []
  skipped : List Nat := []

/-- `_dep_satisfied`. -/
def GraphRun.depSatisfied (g : GraphRun) (task : TaskNode) (dep : Nat) : Bool :=
  if dep ∈ g.results then .completed ∈ task.onStates
  else if dep ∈ g.failed then .failed ∈ task.onStates
  else if dep ∈ g.skipped then .skipped ∈ task.onStates
  else false

/-- `ready_tasks`. -/
def GraphRun.readyTasks (g : GraphRun) : List TaskNode :=
  g.tasks.filter fun task => task.taskId ∈ g.pending && task.dependencies.all (g.depSatisfied task)

/-- A task that `ready_tasks` has cleared. -/
structure Dispatch where
  graph : GraphRun
  task : TaskNode
  ready : task ∈ graph.readyTasks

/-- Who starts a closure in an execution context of its own: the program (through a builtin, the iterator
protocol, or a coroutine it made), or the runner, for a dispatch or for the compensation handler of a
step that completed. -/
inductive Starter where
  | program (callee : Closure)
  | dispatch (d : Dispatch)
  | compensation (handler : Closure)

namespace Starter

def closure : Starter → Closure
  | .program callee => callee
  | .dispatch d => d.task.function
  | .compensation handler => handler

/-- `step_authorized`. -/
def authorized : Starter → Bool
  | .program _ => false
  | .dispatch _ | .compensation _ => true

end Starter

def FunctionInfo.isStep (info : FunctionInfo) : Bool := info.stepOwner.isSome

/-- `run_closure` and the first resume of a coroutine, up to the first instruction; `none` if the guard
refuses. -/
def startBody (s : State h) (starter : Starter) (args : List (Value h.Obj)) : Option (State h) :=
  match starter.closure.fn.info h with
  | none => none
  | some info =>
      if info.isStep && !starter.authorized then none
      else some (runClosure s starter.closure info args)

/-- The innermost frame runs the body of a step. -/
def RunsStep (s : State h) : Prop :=
  ∃ f info, s.frames.head? = some f ∧ (f.function s.ctx.chunk).info h = some info ∧ info.isStep = true

/-- A step of the machine enters the body of a workflow step. -/
def EntersStep (s s' : State h) : Prop := s.frames.length < s'.frames.length ∧ RunsStep s'

/-- The next instruction is a call by name, or of a function of a module, of the body of a step. -/
def CallsStep (s : State h) : Prop :=
  ∃ (i : Instr) (door : Door) (info : FunctionInfo), s.code[s.ip]? = some i ∧ door.guarded = false ∧
    door.Opens s i ∧ (door.fn s).info h = some info ∧ info.isStep = true

theorem callsStep_of_enters {s s' : State h} (hs : Step s s') (he : EntersStep s s') : CallsStep s := by
  obtain ⟨hlen, f, info, hf, hinfo, hstep⟩ := he
  obtain ⟨i, door, info', hi, hentered⟩ := hs.entered hlen
  obtain ⟨f', hframes, hfn, -⟩ := hentered.frame
  have hff : f' = f := by
    rw [hframes] at hf
    exact Option.some.inj hf
  have hsame : info' = info := by
    have hfound := hentered.found
    rw [← hfn, hff, hinfo] at hfound
    exact (Option.some.inj hfound).symm
  subst hsame
  refine ⟨i, door, info', hi, ?_, hentered.opens, hentered.found, hstep⟩
  cases hg : door.guarded with
  | false => rfl
  | true =>
      have hnone := hentered.guard hg
      rw [FunctionInfo.isStep, hnone] at hstep
      cases hstep

/-- A closure that is not a compensation handler is started in the body of a step only by a dispatch. -/
theorem dispatch_of_startBody {s s₀ : State h} {starter : Starter} {args : List (Value h.Obj)}
    (h0 : startBody s starter args = some s₀) (hc : ∀ handler, starter ≠ .compensation handler)
    (hrun : RunsStep s₀) : ∃ d : Dispatch, starter = .dispatch d ∧ d.task ∈ d.graph.readyTasks := by
  cases starter with
  | dispatch d => exact ⟨d, rfl, d.ready⟩
  | compensation handler => exact absurd rfl (hc handler)
  | program callee =>
      unfold startBody at h0
      split at h0
      · cases h0
      · rename_i info hinfo
        split at h0
        · cases h0
        · rename_i hnot
          cases h0
          obtain ⟨f, info', hf, hinfo', hstep⟩ := hrun
          cases hf
          have hsame : info = info' := Option.some.inj (hinfo.symm.trans hinfo')
          simp [hsame, hstep, Starter.authorized] at hnot

theorem not_callsStep {s : State h} (hi : (s.code[s.ip]?).any Instr.isCall = false) : ¬ CallsStep s := by
  rintro ⟨i, door, info, hcode, hguard, hopens, -⟩
  rw [hcode] at hi
  cases door with
  | byName name =>
      obtain ⟨n, rfl⟩ := hopens
      cases hi
  | member module name =>
      obtain ⟨method, n, o, rfl, -⟩ := hopens
      cases hi
  | closure callee => cases hguard
  | foreign origin fn => cases hguard

/-- `__anon_1__fn2()`, then `workflow build { step lint { } }` as it is lowered. -/
def callsGeneratedName : Program where
  module := some "main.nd"
  stmts := [
    .exprStmt (.call (.var "__anon_1__fn2") []),
    .flowDef "build" (.mapLit [(.str "steps", .listLit [.mapLit [(.str "name", .str "lint"),
      (.str "fn", .fnExpr [] (.block []) none (some "build.lint"))]])])]

def flowChunks : Nat → Chunk := fun _ => Chunk.ofProgram callsGeneratedName

/-- The program before its first instruction. -/
def flowMain : State (Host.modules flowChunks) := .main (.ofChunk 0) ⟨[], ()⟩

/-- The only step of the workflow, ready from the start. -/
def lintDispatch : Dispatch where
  graph := { tasks := [⟨0, ⟨⟨0, "__anon_1__fn2"⟩, [], none⟩, [], [.completed]⟩], pending := [0] }
  task := ⟨0, ⟨⟨0, "__anon_1__fn2"⟩, [], none⟩, [], [.completed]⟩
  ready := by simp [GraphRun.readyTasks]

/-- What the dispatch starts. -/
def lintRun : Nat → State (Host.modules flowChunks) :=
  iterate execute ((startBody flowMain (.dispatch lintDispatch) []).getD flowMain)

end Nodus

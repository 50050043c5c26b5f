import Nodus.Doors

/-! The chunk a closure runs in. A closure is an address and its cells; the module context its address
belongs to is looked for at each call, in the frames, in the caller's VM and among the modules. -/

namespace Nodus

open Trace

variable {h : Host}

/-- A context is that of the module compiled to its chunk: `home` gives the namespace of each module. -/
structure ModuleCtx.Whole (home : Nat → Nat) (ctx : ModuleCtx) : Prop where
  moduleGlobals : ctx.moduleGlobals = home ctx.chunk
  globals : ctx.globals = home ctx.chunk

/-- The code, the function table and the globals are those of the chunk the function was compiled in. -/
def ModuleCtx.Owns (home : Nat → Nat) (ctx : ModuleCtx) (fn : FnRef) : Prop :=
  ctx.chunk = fn.chunk ∧ ctx.Whole home

/-- Contexts are captured as a whole, and a module or program is asked for only the functions its table
holds. -/
structure Host.Supplies (h : Host) (home : Nat → Nat) : Prop where
  moduleCtx : ∀ w ctx module, (h.moduleCtx w ctx module).Whole home
  callerCtx : ∀ w ctx, h.callerCtx w = some ctx → ctx.Whole home
  proxy : ∀ w o ctx fn upvalues, h.callable w o = .proxy (some ctx) fn upvalues → ctx.Whole home
  owner : ∀ w here fn ctx, h.owner w here fn = some ctx → ctx.Owns home fn

/-- The contexts an execution context holds are whole. -/
structure Coherent (home : Nat → Nat) (s : State h) : Prop where
  ctx : s.ctx.Whole home
  saved : ∀ f ∈ s.frames, ∀ x, f.crossModuleCtx = some x → x.Whole home

/-- The source that answers first for a closure of another chunk owns it. The proxy and the calling VM are
taken at their word; a frame and a module answer only for functions of theirs. -/
def SourceOwns (s : State h) (callee : Closure) : Prop :=
  isForeign s callee.fn = true →
    match callee.origin with
    | some origin => origin.chunk = callee.fn.chunk
    | none => (savedOwner callee.fn s.frames).isSome = true ∨
        match h.callerCtx s.store.world with
        | some ctx => ctx.chunk = callee.fn.chunk
        | none => (h.owner s.store.world s.ctx callee.fn).isSome = true

/-- The door of a closure that leads to a context that owns it. -/
def Door.SourceOwns (s : State h) : Door → Prop
  | .closure callee => Nodus.SourceOwns s callee
  | .foreign origin fn => origin.chunk = fn.chunk
  | .byName _ | .member _ _ => True

theorem savedOwner_spec {fn : FnRef} {frames : List (Frame h.Obj)} {ctx : ModuleCtx}
    (hs : savedOwner fn frames = some ctx) :
    ctx.chunk = fn.chunk ∧ ∃ f ∈ frames, f.crossModuleCtx = some ctx := by
  obtain ⟨f, hf, hctx⟩ := List.exists_of_findSome?_eq_some hs
  obtain ⟨hsome, hchunk⟩ := Option.filter_eq_some_iff.mp hctx
  exact ⟨by simpa using hchunk, f, hf, hsome⟩

section

variable {home : Nat → Nat} {s : State h}

theorem foreignClosureOrigin_whole (hh : h.Supplies home) (hs : Coherent home s) {callee : Closure}
    (hp : ∀ x, callee.origin = some x → x.Whole home) {ctx : ModuleCtx}
    (ho : foreignClosureOrigin s callee = some ctx) : ctx.Whole home := by
  unfold foreignClosureOrigin at ho
  split at ho
  · cases horigin : callee.origin with
    | some x =>
        rw [horigin] at ho
        cases ho
        exact hp ctx horigin
    | none =>
        rw [horigin] at ho
        cases hsaved : savedOwner callee.fn s.frames with
        | some x =>
            rw [hsaved] at ho
            cases ho
            obtain ⟨-, f, hf, hx⟩ := savedOwner_spec hsaved
            exact hs.saved f hf ctx hx
        | none =>
            rw [hsaved] at ho
            cases hcaller : h.callerCtx s.store.world with
            | some x =>
                rw [hcaller] at ho
                cases ho
                exact hh.callerCtx _ ctx hcaller
            | none =>
                rw [hcaller] at ho
                exact (hh.owner _ _ _ ctx ho).2
  · cases ho

/-- The context a closure is entered in owns it exactly if the source that answers first does. -/
theorem closure_owned_iff (hh : h.Supplies home) {callee : Closure} :
    ((foreignClosureOrigin s callee).getD s.ctx).chunk = callee.fn.chunk ↔ SourceOwns s callee := by
  unfold foreignClosureOrigin SourceOwns
  cases hforeign : isForeign s callee.fn with
  | false =>
      have hchunk : callee.fn.chunk = s.ctx.chunk := by simpa [isForeign] using hforeign
      simp [hchunk]
  | true =>
      have hchunk : callee.fn.chunk ≠ s.ctx.chunk := by simpa [isForeign] using hforeign
      simp only [if_true, true_implies]
      cases horigin : callee.origin with
      | some x => simp
      | none =>
          cases hsaved : savedOwner callee.fn s.frames with
          | some x => simp [(savedOwner_spec hsaved).1]
          | none =>
              cases hcaller : h.callerCtx s.store.world with
              | some x => simp
              | none =>
                  cases howner : h.owner s.store.world s.ctx callee.fn with
                  | some x => simp [(hh.owner _ _ _ x howner).1]
                  | none => simpa using hchunk.symm

theorem Door.ctx_whole (hh : h.Supplies home) (hs : Coherent home s) {i : Instr} {door : Door}
    (ho : door.Opens s i) : (door.ctx s).Whole home := by
  cases door with
  | byName name => exact hs.ctx
  | member module name => exact hh.moduleCtx _ _ _
  | foreign origin fn =>
      obtain ⟨n, v, upvalues, -, -, ⟨o, -, hproxy⟩ | ⟨-, hcaller, -⟩⟩ := ho
      · exact hh.proxy _ _ _ _ _ hproxy
      · exact hh.callerCtx _ _ hcaller
  | closure callee =>
      obtain ⟨v, -, hv⟩ := ho
      have hp : ∀ x, callee.origin = some x → x.Whole home := by
        intro x hx
        unfold asClosure at hv
        split at hv
        · cases hv
          cases hx
        · split at hv
          · rename_i hproxy
            cases hv
            cases hx
            exact hh.proxy _ _ _ _ _ hproxy
          · cases hv
        · cases hv
      change ((foreignClosureOrigin s callee).getD s.ctx).Whole home
      cases hc : foreignClosureOrigin s callee with
      | none => exact hs.ctx
      | some ctx => exact foreignClosureOrigin_whole hh hs hp hc

/-- A closure's body is entered in a context that owns it exactly if the source that answers first does. -/
theorem Entered.owned_iff (hh : h.Supplies home) (hs : Coherent home s) {s' : State h} {i : Instr}
    {door : Door} {info : FunctionInfo} (he : Entered s i s' door info) (hg : door.guarded = true) :
    s'.ctx.Owns home (door.fn s) ↔ door.SourceOwns s := by
  have hwhole := Door.ctx_whole hh hs he.opens
  rw [ModuleCtx.Owns, he.ctx, and_iff_left hwhole]
  cases door with
  | byName name => cases hg
  | member module name => cases hg
  | foreign origin fn => exact Iff.rfl
  | closure callee => exact closure_owned_iff hh

theorem unwindCalls_kept (depth : Nat) (calls : List Call) (ctx : ModuleCtx) :
    (∀ f ∈ (Ctl.unwindCalls depth calls ctx).1, f ∈ calls) ∧
      ((Ctl.unwindCalls depth calls ctx).2 = ctx ∨
        ∃ f ∈ calls, f.cross = some (Ctl.unwindCalls depth calls ctx).2) := by
  induction calls generalizing ctx with
  | nil => exact ⟨fun _ hf => hf, .inl rfl⟩
  | cons f fs ih =>
      simp only [Ctl.unwindCalls]
      split
      · obtain ⟨hcalls, hctx⟩ := ih (f.cross.getD ctx)
        refine ⟨fun g hg => List.mem_cons_of_mem f (hcalls g hg), ?_⟩
        rcases hctx with hctx | ⟨g, hg, hx⟩
        · rw [hctx]
          cases hcross : f.cross with
          | none => exact .inl rfl
          | some x => exact .inr ⟨f, List.mem_cons_self, hcross⟩
        · exact .inr ⟨g, List.mem_cons_of_mem f hg, hx⟩
      · exact ⟨fun _ hg => hg, .inl rfl⟩

/-- What a control state keeps of another: calls of it, and its context or one that a call of it saved. -/
structure CtlKept (c c' : Ctl h) : Prop where
  calls : ∀ f ∈ c'.calls, f ∈ c.calls
  ctx : c'.ctx = c.ctx ∨ ∃ f ∈ c.calls, f.cross = some c'.ctx

theorem ctlKept_same {c c' : Ctl h} (hcalls : c'.calls = c.calls) (hctx : c'.ctx = c.ctx) : CtlKept c c' :=
  ⟨fun _ hf => hcalls ▸ hf, .inl hctx⟩

theorem ctlKept_leave {c c' : Ctl h} {f : Call} (hcalls : c.calls = f :: c'.calls)
    (hctx : c'.ctx = c.ctx ∨ c'.ctx = f.cross.getD c.ctx) : CtlKept c c' := by
  refine ⟨fun g hg => hcalls ▸ List.mem_cons_of_mem f hg, ?_⟩
  rcases hctx with hctx | hctx
  · exact .inl hctx
  · cases hcross : f.cross with
    | none =>
        rw [hcross] at hctx
        exact .inl hctx
    | some x =>
        rw [hcross] at hctx
        refine .inr ⟨f, hcalls ▸ List.mem_cons_self, ?_⟩
        rw [hcross, hctx]
        rfl

theorem ctlKept_handle {c c' : Ctl h} (e : RuntimeError h.Obj) (record : Value h.Obj)
    (hcalls : c'.calls = c.calls) (hctx : c'.ctx = c.ctx) : CtlKept c (c'.handle e record) := by
  rcases c'.handle_calls e record with ⟨hs, hx⟩ | ⟨depth, hu⟩
  · exact ctlKept_same (hs.trans hcalls) (hx.trans hctx)
  · rw [hcalls, hctx] at hu
    have hk := unwindCalls_kept depth c.calls c.ctx
    rw [← hu] at hk
    exact ⟨hk.1, hk.2⟩

theorem Moves.kept {c c' : Ctl h} (hk : h.KeepsCtx) (hm : Moves c c')
    (hlen : c'.calls.length ≤ c.calls.length) : CtlKept c c' := by
  cases hm with
  | next hp hi hn =>
      cases hn with
      | flow _ _ _ hkept => exact ctlKept_same rfl (hkept hk)
      | call =>
          simp only [List.length_cons] at hlen
          omega
      | setupTry | popTry | deferReturn | finallyEnd => exact ctlKept_same rfl rfl
      | ret _ hc => exact ctlKept_leave hc (.inr rfl)
      | performReturn _ _ hc => exact ctlKept_leave hc (.inl rfl)
  | raise hp hi hr record => exact ctlKept_handle _ record hr.calls.1 (hr.calls.2 hk)
  | stop hp hi hs =>
      cases hs with
      | suspend _ _ _ hkept => exact ctlKept_same rfl (hkept hk)
      | halt => exact ctlKept_same rfl rfl
      | abort hc hkept => exact ctlKept_same hc (hkept hk)
      | ret _ hc => exact ctlKept_leave hc (.inr rfl)
      | performReturn _ _ hc => exact ctlKept_leave hc (.inl rfl)
  | offEnd | preempt | resume | deliver => exact ctlKept_same rfl rfl
  | fail hp e record => exact ctlKept_handle e record rfl rfl
  | cancel hp hc e record => exact ctlKept_handle e record rfl rfl

theorem coherent_step (hh : h.Supplies home) (hk : h.KeepsCtx) {s' : State h} (hs : Coherent home s)
    (hstep : Step s s') : Coherent home s' := by
  by_cases hlen : s.frames.length < s'.frames.length
  · obtain ⟨i, door, info, -, he⟩ := hstep.entered hlen
    obtain ⟨f, hframes, -, hcross⟩ := he.frame
    constructor
    · rw [he.ctx]
      exact Door.ctx_whole hh hs he.opens
    · intro g hg x hx
      rw [hframes] at hg
      rcases List.mem_cons.mp hg with rfl | hg
      · rcases hcross with hnone | hsome
        · rw [hnone] at hx
          cases hx
        · rw [hsome] at hx
          cases hx
          exact hs.ctx
      · exact hs.saved g hg x hx
  · have hkept := hstep.moves.kept hk (by simpa [State.ctl] using hlen)
    have hsaved : ∀ f ∈ s.ctl.calls, ∀ x, f.cross = some x → x.Whole home := by
      intro f hf x hx
      obtain ⟨g, hg, rfl⟩ := List.mem_map.mp hf
      exact hs.saved g hg x hx
    constructor
    · rcases hkept.ctx with hctx | ⟨f, hf, hx⟩
      · have hsame : s'.ctx = s.ctx := hctx
        rw [hsame]
        exact hs.ctx
      · exact hsaved f hf _ hx
    · intro g hg x hx
      exact hsaved g.call (hkept.calls _ (List.mem_map_of_mem hg)) x hx

end

theorem whole_ofChunk (k : Nat) : (ModuleCtx.ofChunk k).Whole id := ⟨rfl, rfl⟩

/-- `fn f() { let g = fn() { return 1 }  return g() }`. -/
def callsOwnClosure : Program where
  module := some "main.nd"
  stmts := [.fnDef "f" [] (.block [
    .letDecl "g" (.fnExpr [] (.block [.returnStmt (some (.int 1))]) none none),
    .returnStmt (some (.call (.var "g") []))]) none none]

def ownCall : Nat → State (Host.modules fun _ => .ofProgram callsOwnClosure) := iterate execute (startFn _ "f")

theorem supplies_modules (chunks : Nat → Chunk) : (Host.modules chunks).Supplies id where
  moduleCtx _ _ k := whole_ofChunk k
  callerCtx _ _ hc := by cases hc
  owner _ _ _ _ ho := by cases ho
  proxy _ o _ _ _ hp := by
    obtain ⟨k, _ | name⟩ := o
    · cases hp
    · cases hp

def ownClosure : Closure := ⟨⟨0, "__anon_1__fn2"⟩, [], none⟩

/-- The VM of a module function that a program called: its caller's context is that of chunk 0. -/
def Host.detached (chunks : Nat → Chunk) : Host :=
  { Host.modules chunks with callerCtx := fun _ => some (.ofChunk 0) }

/-- `fn g(f) { return f() }`. -/
def callsArgument : Program where
  module := some "m.nd"
  stmts := [.fnDef "g" [⟨"f", none⟩] (.block [.returnStmt (some (.call (.var "f") []))]) none none]

/-- A program, the module `m.nd` and a module it imports. -/
def threeChunks (k : Nat) : Chunk := .ofProgram (if k = 1 then callsArgument else returnsPlainly)

/-- A coroutine of the module that calls a closure the third module returned. -/
def importedCall : Nat → State (Host.detached threeChunks) :=
  iterate execute <|
    match (threeChunks 1).functions.lookup "g" with
    | some info => State.entry (.ofChunk 1) ⟨[], ()⟩ ⟨1, "g"⟩ [] info [.closure ⟨2, "g"⟩ []]
    | none => .main (.ofChunk 1) ⟨[], ()⟩

end Nodus

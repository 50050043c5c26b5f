import Nodus.InitOrder

/-! The program and the scheduler the VM is left with when a program has been loaded. Every module is executed on the
same VM, which is given the module's program and a new scheduler first. -/

namespace Nodus.Loading

open PosixPath Walks Paired Loader

variable {Ast Code W : Type}

/-- What `reset_program` installs: the code with its function table, the module whose globals are active, and the
source path. -/
structure Program (Code : Type) where
  code : Code
  globals : Path
  sourcePath : Path
  deriving DecidableEq, Repr

/-- What the top level of a module does to the VM. -/
inductive VmAct (Code : Type) where
  /-- `Scheduler.spawn` and `Scheduler.schedule_delay`. -/
  | spawn (coroutine : Nat)
  /-- `Scheduler.schedule`: a coroutine that was parked is ready again. -/
  | schedule (coroutine : Nat)
  /-- A coroutine returns, fails or is cancelled. -/
  | finish (coroutine : Nat)
  /-- The context of a module is made the active one, by a call into the module or the return from one. -/
  | activate (program : Program Code)

/-- The VM all modules of a program are executed on. -/
structure ProgramVm (Code W : Type) where
  /-- Missing before the first module is executed. -/
  program : Option (Program Code) := none
  /-- The coroutines registered with the scheduler the VM has now. -/
  scheduled : List Nat := []
  /-- The coroutines that were spawned, on any scheduler, and are not finished. -/
  unfinished : List Nat := []
  finished : List Nat := []
  world : W
  deriving DecidableEq, Repr

namespace ProgramVm

/-- `reset_program`. -/
def resetProgram (vm : ProgramVm Code W) (program : Program Code) : ProgramVm Code W :=
  { vm with program := some program, scheduled := [] }

def act (vm : ProgramVm Code W) : VmAct Code → ProgramVm Code W
  | .spawn c =>
      if c ∈ vm.finished then vm
      else { vm with scheduled := c :: vm.scheduled, unfinished := c :: vm.unfinished }
  | .schedule c => if c ∈ vm.finished then vm else { vm with scheduled := c :: vm.scheduled }
  | .finish c =>
      { vm with
        scheduled := vm.scheduled.filter (· ≠ c)
        unfinished := vm.unfinished.filter (· ≠ c)
        finished := c :: vm.finished }
  | .activate program => { vm with program := some program }

def acts (vm : ProgramVm Code W) (l : List (VmAct Code)) : ProgramVm Code W := l.foldl act vm

end ProgramVm

/-- The top levels of the modules: what one does to the VM, and the state of the program it leaves or the error it
raises. -/
structure TopLevels (Code W : Type) where
  start : W
  run : Path → Code → Bool → List Name → W → List (VmAct Code) × Except String W
  hasGlobal : W → Path → Name → Bool
  bindImport : Path → ImportSpec → W → Except String W
  bindExport : Path → Name → Option Path → W → Except String W

namespace TopLevels

variable (T : TopLevels Code W)

/-- Module objects are not on the VM. -/
def onWorld (f : W → Except String W) : EStateM String (ProgramVm Code W) PUnit := fun vm =>
  match f vm.world with
  | .ok w => .ok () { vm with world := w }
  | .error message => .error message vm

/-- `_execute_module`. -/
def execute (p : Path) (code : Code) (autoRunMain : Bool) (externs : List Name) :
    EStateM String (ProgramVm Code W) PUnit := fun vm =>
  let (acts, outcome) := T.run p code autoRunMain externs vm.world
  let vm' := (vm.resetProgram ⟨code, p, p⟩).acts acts
  match outcome with
  | .ok w => .ok () { vm' with world := w }
  | .error message => .error message vm'

def runtime : Runtime Code (ProgramVm Code W) where
  start := { world := T.start }
  bindImport p spec := onWorld (T.bindImport p spec)
  execute := T.execute
  hasGlobal vm := T.hasGlobal vm.world
  bindExport p name source := onWorld (T.bindExport p name source)

end TopLevels

/-- The code of a module: that of its cache entry when the load begins, or what the compiler makes of it. -/
def Front.CodeOf (F : Front Ast Code) (site : Site Ast) (store : Option (Store Code)) (p : Path) (code : Code) : Prop :=
  (∃ start entry, store = some start ∧ startEntry F site start p = some entry ∧ entry.code = code) ∨
  ∃ parsed names, F.compile p parsed names = .ok code

/-- The active program is the root's own, and every coroutine that was spawned and is not finished is registered with
the scheduler. -/
structure Undisturbed (F : Front Ast Code) (site : Site Ast) (store : Option (Store Code)) (vm : ProgramVm Code W) :
    Prop where
  program : ∃ code, F.CodeOf site store site.root code ∧ vm.program = some ⟨code, site.root, site.root⟩
  registered : ∀ c ∈ vm.unfinished, c ∈ vm.scheduled

/-- Every coroutine that is spawned is finished later on. -/
def Settles : List (VmAct Code) → Prop
  | [] => True
  | .spawn c :: l => .finish c ∈ l ∧ Settles l
  | _ :: l => Settles l

/-- The context that is active in the end, if one was made active. -/
def lastActivated : List (VmAct Code) → Option (Program Code)
  | [] => none
  | .activate program :: l => some ((lastActivated l).getD program)
  | _ :: l => lastActivated l

/-- What a program has to meet. Everything the root re-exports from is reached through its imports; the top levels
of the other modules leave no coroutine unfinished; and the root's own ends in the context it started in. -/
structure LoadsCleanly (F : Front Ast Code) (site : Site Ast) (T : TopLevels Code W) (store : Option (Store Code)) :
    Prop where
  reexports : ∀ reads, F.Reading site { store := store, vm := T.runtime.start } reads →
    ∀ d ∈ reexportsRead reads site.root, ∃ i ∈ importsRead reads site.root, Reaches (importsRead reads) i d
  settles : ∀ reads, F.Reading site { store := store, vm := T.runtime.start } reads → ∀ p, p ≠ site.root →
    Reaches (fun q => importsRead reads q ++ reexportsRead reads q) site.root p →
    ∀ code auto externs w, Settles (T.run p code auto externs w).1
  returns : ∀ code auto externs w program,
    lastActivated (T.run site.root code auto externs w).1 = some program → program = ⟨code, site.root, site.root⟩

namespace ProgramVm

variable {vm : ProgramVm Code W} {d : Nat}

theorem act_spawn_finished (h : d ∈ vm.finished) : vm.act (.spawn d) = vm := if_pos h

theorem act_spawn_new (h : d ∉ vm.finished) :
    vm.act (.spawn d) = { vm with scheduled := d :: vm.scheduled, unfinished := d :: vm.unfinished } := if_neg h

theorem act_schedule_finished (h : d ∈ vm.finished) : vm.act (.schedule d) = vm := if_pos h

theorem act_schedule_new (h : d ∉ vm.finished) :
    vm.act (.schedule d) = { vm with scheduled := d :: vm.scheduled } := if_neg h

theorem unfinished_act (a : VmAct Code) (h : ∀ c ∈ vm.unfinished, c ∈ vm.scheduled) :
    ∀ c ∈ (vm.act a).unfinished, c ∈ (vm.act a).scheduled := by
  intro c hc
  cases a with
  | spawn d =>
      by_cases hd : d ∈ vm.finished
      · rw [act_spawn_finished hd] at hc ⊢
        exact h c hc
      · rw [act_spawn_new hd] at hc ⊢
        rcases List.mem_cons.mp hc with rfl | hc
        · exact List.mem_cons_self
        · exact List.mem_cons_of_mem _ (h c hc)
  | schedule d =>
      by_cases hd : d ∈ vm.finished
      · rw [act_schedule_finished hd] at hc ⊢
        exact h c hc
      · rw [act_schedule_new hd] at hc ⊢
        exact List.mem_cons_of_mem _ (h c hc)
  | finish d =>
      obtain ⟨hc, hd⟩ := List.mem_filter.mp hc
      exact List.mem_filter.mpr ⟨h c hc, hd⟩
  | activate program => exact h c hc

theorem unfinished_acts (l : List (VmAct Code)) (h : ∀ c ∈ vm.unfinished, c ∈ vm.scheduled) :
    ∀ c ∈ (vm.acts l).unfinished, c ∈ (vm.acts l).scheduled := by
  induction l generalizing vm with
  | nil => exact h
  | cons a l ih => exact ih (unfinished_act a h)

theorem mem_unfinished_act {a : VmAct Code} {c : Nat} (h : c ∈ (vm.act a).unfinished) :
    a = .spawn c ∨ c ∈ vm.unfinished ∧ a ≠ .finish c := by
  cases a with
  | spawn d =>
      by_cases hd : d ∈ vm.finished
      · rw [act_spawn_finished hd] at h
        exact .inr ⟨h, fun he => nomatch he⟩
      · rw [act_spawn_new hd] at h
        rcases List.mem_cons.mp h with rfl | h
        · exact .inl rfl
        · exact .inr ⟨h, fun he => nomatch he⟩
  | schedule d =>
      by_cases hd : d ∈ vm.finished
      · rw [act_schedule_finished hd] at h
        exact .inr ⟨h, fun he => nomatch he⟩
      · rw [act_schedule_new hd] at h
        exact .inr ⟨h, fun he => nomatch he⟩
  | finish d =>
      obtain ⟨h, hd⟩ := List.mem_filter.mp h
      refine .inr ⟨h, fun he => ?_⟩
      cases he
      simp at hd
  | activate program => exact .inr ⟨h, fun he => nomatch he⟩

theorem Settles.tail {a : VmAct Code} {l : List (VmAct Code)} (h : Settles (a :: l)) : Settles l := by
  cases a with
  | spawn d => exact h.2
  | schedule d => exact h
  | finish d => exact h
  | activate program => exact h

theorem settled_acts (l : List (VmAct Code)) (hl : Settles l) (h : ∀ c ∈ vm.unfinished, .finish c ∈ l) :
    (vm.acts l).unfinished = [] := by
  induction l generalizing vm with
  | nil =>
      apply List.eq_nil_iff_forall_not_mem.mpr
      intro c hc
      cases h c hc
  | cons a l ih =>
      refine ih (Settles.tail hl) fun c hc => ?_
      rcases mem_unfinished_act hc with rfl | ⟨hin, hne⟩
      · exact hl.1
      · exact (List.mem_cons.mp (h c hin)).resolve_left (Ne.symm hne)

theorem program_act (a : VmAct Code) : (vm.act a).program = (lastActivated [a]).or vm.program := by
  cases a with
  | spawn d =>
      by_cases hd : d ∈ vm.finished
      · rw [act_spawn_finished hd]
        rfl
      · rw [act_spawn_new hd]
        rfl
  | schedule d =>
      by_cases hd : d ∈ vm.finished
      · rw [act_schedule_finished hd]
        rfl
      · rw [act_schedule_new hd]
        rfl
  | finish d => rfl
  | activate program => rfl

theorem lastActivated_cons (a : VmAct Code) (l : List (VmAct Code)) :
    lastActivated (a :: l) = (lastActivated l).or (lastActivated [a]) := by
  cases a with
  | activate program =>
      simp only [lastActivated]
      cases lastActivated l with
      | none => rfl
      | some last => rfl
  | spawn d => exact (Option.or_none).symm
  | schedule d => exact (Option.or_none).symm
  | finish d => exact (Option.or_none).symm

theorem program_acts (l : List (VmAct Code)) : (vm.acts l).program = (lastActivated l).or vm.program := by
  induction l generalizing vm with
  | nil => rfl
  | cons a l ih =>
      calc (vm.acts (a :: l)).program = (lastActivated l).or (vm.act a).program := ih
        _ = (lastActivated l).or ((lastActivated [a]).or vm.program) := by rw [program_act]
        _ = (lastActivated (a :: l)).or vm.program := by rw [lastActivated_cons a l, Option.or_assoc]

end ProgramVm

section Loading

variable {F : Front Ast Code} {site : Site Ast} {T : TopLevels Code W} {imports reexports : Path → List Path}
  {root : Path}

/-- The modules' top levels that are executed before the root's leave no coroutine unfinished. -/
def SettlesBelow (T : TopLevels Code W) (deps : Path → List Path) (root : Path) : Prop :=
  ∀ p, p ≠ root → Reaches deps root p → ∀ code auto externs w, Settles (T.run p code auto externs w).1

/-- While the root's imports are loaded: the imports of every module are registered unless it is being loaded, and
no coroutine is left. -/
structure Early (imports : Path → List Path) (root : Path) (st : LoaderState Ast Code (ProgramVm Code W)) : Prop where
  root : root ∈ st.modules
  closed : ∀ q ∈ st.modules, q ∉ st.loadingStack → ∀ d ∈ imports q, d ∈ st.modules
  settled : st.vm.unfinished = []

theorem Early.congr {st st' : LoaderState Ast Code (ProgramVm Code W)} (h : Early imports root st)
    (hm : st'.modules = st.modules) (hl : st'.loadingStack = st.loadingStack)
    (hv : st'.vm.unfinished = st.vm.unfinished) : Early imports root st' := by
  refine ⟨?_, ?_, hv.trans h.settled⟩
  · rw [hm]
    exact h.root
  · rw [hm, hl]
    exact h.closed

theorem onVm_onWorld {f : W → Except String W} {st st' : LoaderState Ast Code (ProgramVm Code W)}
    (h : onVm (TopLevels.onWorld f) st = .ok () st') : ∃ w, st' = { st with vm := { st.vm with world := w } } := by
  unfold onVm TopLevels.onWorld at h
  cases hf : f st.vm.world with
  | ok w =>
      rw [hf] at h
      cases h
      exact ⟨w, rfl⟩
  | error message =>
      rw [hf] at h
      cases h

/-- What the loads of the modules below the root do, as long as nothing fails. -/
def LoadsEarly (imports reexports : Path → List Path) (root : Path)
    (sub : Path → Loader Ast Code (ProgramVm Code W) PUnit) : Prop :=
  ∀ d st st', Reaches (fun q => imports q ++ reexports q) root d → Early imports root st → sub d st = .ok () st' →
    Reads imports reexports st' → Early imports root st' ∧ d ∈ st'.modules

section Subs

variable {sub : Path → Loader Ast Code (ProgramVm Code W) PUnit}

theorem resolveImportBindings_early (hsub : LoadsEarly imports reexports root sub) (hlater : ∀ d, Respects Later (sub d))
    (hgrows : ∀ d, Grows (sub d)) {p : Path} {specs : List ImportSpec}
    {st st' : LoaderState Ast Code (ProgramVm Code W)}
    (hreach : ∀ spec ∈ specs, Reaches (fun q => imports q ++ reexports q) root spec.resolvedPath)
    (h : Early imports root st) (hr : resolveImportBindings T.runtime sub p specs st = .ok () st')
    (hreads : Reads imports reexports st') :
    Early imports root st' ∧ ∀ spec ∈ specs, spec.resolvedPath ∈ st'.modules := by
  induction specs generalizing st with
  | nil =>
      cases hr
      exact ⟨h, fun _ hs => nomatch hs⟩
  | cons spec specs ih =>
      have hrest : Respects Later (resolveImportBindings T.runtime sub p specs) :=
        carried_later.resolveImportBindings hlater p specs
      have hgrow := carried_modules.resolveImportBindings (R := T.runtime) hgrows p specs
      cases h₁ : sub spec.resolvedPath st with
      | error e st₁ =>
          rw [resolveImportBindings, bind_error h₁] at hr
          cases hr
      | ok a st₁ =>
          rw [resolveImportBindings, bind_ok h₁] at hr
          cases h₂ : onVm (T.runtime.bindImport p spec) st₁ with
          | error e st₂ =>
              rw [bind_error h₂] at hr
              cases hr
          | ok b st₂ =>
              rw [bind_ok h₂] at hr
              obtain ⟨w, rfl⟩ := onVm_onWorld h₂
              have hlast := hrest { st₁ with vm := { st₁.vm with world := w } }
              rw [last_of_ok hr] at hlast
              have hreads₁ : Reads imports reexports st₁ := fun q md hq => hreads q md (hlast.memo q md hq)
              obtain ⟨hearly, hd⟩ := hsub _ st st₁ (hreach spec List.mem_cons_self) h h₁ hreads₁
              have hnext : Early imports root { st₁ with vm := { st₁.vm with world := w } } := hearly.congr rfl rfl rfl
              obtain ⟨hearly', hds⟩ := ih (fun s hs => hreach s (List.mem_cons_of_mem _ hs)) hnext hr
              have hg := hgrow { st₁ with vm := { st₁.vm with world := w } }
              rw [last_of_ok hr] at hg
              exact ⟨hearly', List.forall_mem_cons.mpr ⟨hg.subset hd, hds⟩⟩

theorem buildExport_early (hsub : LoadsEarly imports reexports root sub) {p : Path} {record : MetadataRecord}
    {name : Name} {st st' : LoaderState Ast Code (ProgramVm Code W)}
    (hreach : ∀ d ∈ record.reexports, Reaches (fun q => imports q ++ reexports q) root d)
    (h : Early imports root st) (hr : buildExport T.runtime sub p record name st = .ok () st')
    (hreads : Reads imports reexports st') : Early imports root st' := by
  by_cases hg : (T.runtime.hasGlobal st.vm p name || record.defs.contains name) = true
  · rw [buildExport_own hg] at hr
    obtain ⟨w, rfl⟩ := onVm_onWorld hr
    exact h.congr rfl rfl rfl
  cases hf : record.exportFromSpecs.find? fun spec => spec.names.contains name with
  | none =>
      rw [buildExport_absent hg hf] at hr
      cases hr
      exact h
  | some spec =>
      by_cases hs : (record.importSpecs.map ImportSpec.resolvedPath).contains spec.resolvedPath = true
      · rw [buildExport_imported hg hf hs] at hr
        obtain ⟨w, rfl⟩ := onVm_onWorld hr
        exact h.congr rfl rfl rfl
      · rw [buildExport_loaded hg hf hs] at hr
        cases h₁ : sub spec.resolvedPath st with
        | error e st₁ =>
            rw [bind_error h₁] at hr
            cases hr
        | ok a st₁ =>
            rw [bind_ok h₁] at hr
            obtain ⟨w, rfl⟩ := onVm_onWorld hr
            have hd := hreach _ (List.mem_map_of_mem (List.mem_of_find?_eq_some hf))
            exact (hsub _ st st₁ hd h h₁ hreads).1.congr rfl rfl rfl

theorem buildExports_early (hsub : LoadsEarly imports reexports root sub) (hlater : ∀ d, Respects Later (sub d))
    {p : Path} {record : MetadataRecord} {names : List Name} {st st' : LoaderState Ast Code (ProgramVm Code W)}
    (hreach : ∀ d ∈ record.reexports, Reaches (fun q => imports q ++ reexports q) root d)
    (h : Early imports root st) (hr : buildExports T.runtime sub p record names st = .ok () st')
    (hreads : Reads imports reexports st') : Early imports root st' := by
  induction names generalizing st with
  | nil =>
      cases hr
      exact h
  | cons name names ih =>
      have hrest : Respects Later (buildExports T.runtime sub p record names) :=
        carried_later.buildExports hlater p record names
      cases h₁ : buildExport T.runtime sub p record name st with
      | error e st₁ =>
          rw [buildExports, bind_error h₁] at hr
          cases hr
      | ok a st₁ =>
          rw [buildExports, bind_ok h₁] at hr
          have hlast := hrest st₁
          rw [last_of_ok hr] at hlast
          exact ih (buildExport_early hsub hreach h h₁ fun q md hq => hreads q md (hlast.memo q md hq)) hr

end Subs

theorem bind_eq_ok {α β : Type} {c : Loader Ast Code (ProgramVm Code W) α}
    {k : α → Loader Ast Code (ProgramVm Code W) β} {st st' : LoaderState Ast Code (ProgramVm Code W)} {b : β}
    (h : (c >>= k) st = .ok b st') : ∃ a st₁, c st = .ok a st₁ ∧ k a st₁ = .ok b st' := by
  cases hc : c st with
  | ok a st₁ =>
      rw [bind_ok hc] at h
      exact ⟨a, st₁, rfl, h⟩
  | error e st₁ =>
      rw [bind_error hc] at h
      cases h

/-- The steps of a load that succeeds. -/
structure LoadSteps (F : Front Ast Code) (site : Site Ast) (T : TopLevels Code W)
    (sub : Path → Loader Ast Code (ProgramVm Code W) PUnit) (p : Path) (auto : Bool)
    (st st' : LoaderState Ast Code (ProgramVm Code W)) where
  metadata : ModuleMetadata Ast
  code : Code
  built : LoaderState Ast Code (ProgramVm Code W)
  compiled : LoaderState Ast Code (ProgramVm Code W)
  imported : LoaderState Ast Code (ProgramVm Code W)
  executed : LoaderState Ast Code (ProgramVm Code W)
  build : buildMetadata F site (site.paths.length + 1) p st = .ok metadata built
  compile : loadOrCompile F site p metadata built = .ok code compiled
  resolve : resolveImportBindings T.runtime sub p metadata.importSpecs
    { compiled with modules := p :: compiled.modules } = .ok () imported
  execute : onVm (T.runtime.execute p code (auto && !metadata.topLevelMainCall) metadata.externs) imported =
    .ok () executed
  exports : buildExports T.runtime sub p metadata.toMetadataRecord metadata.exports executed = .ok () st'

theorem loadNew_steps {sub : Path → Loader Ast Code (ProgramVm Code W) PUnit} {p : Path} {auto : Bool}
    {st st' : LoaderState Ast Code (ProgramVm Code W)} (h : loadNew F site T.runtime sub p auto st = .ok () st') :
    Nonempty (LoadSteps F site T sub p auto st st') := by
  unfold loadNew at h
  obtain ⟨metadata, built, hbuild, h⟩ := bind_eq_ok h
  obtain ⟨code, compiled, hcompile, h⟩ := bind_eq_ok h
  obtain ⟨_, registered, hregister, h⟩ := bind_eq_ok h
  rw [register_apply] at hregister
  cases hregister
  obtain ⟨_, imported, hresolve, h⟩ := bind_eq_ok h
  obtain ⟨_, executed, hexecute, h⟩ := bind_eq_ok h
  exact ⟨⟨metadata, code, built, compiled, imported, executed, hbuild, hcompile, hresolve, hexecute, h⟩⟩

theorem onVm_execute {p : Path} {code : Code} {auto : Bool} {externs : List Name}
    {st st' : LoaderState Ast Code (ProgramVm Code W)}
    (h : onVm (T.runtime.execute p code auto externs) st = .ok () st') :
    ∃ w, st' = { st with vm := { (st.vm.resetProgram ⟨code, p, p⟩).acts (T.run p code auto externs st.vm.world).1 with
      world := w } } := by
  unfold onVm at h
  have hexecute : T.runtime.execute p code auto externs st.vm =
      match (T.run p code auto externs st.vm.world).2 with
      | .ok w => .ok () { (st.vm.resetProgram ⟨code, p, p⟩).acts (T.run p code auto externs st.vm.world).1 with
          world := w }
      | .error message => .error message
          ((st.vm.resetProgram ⟨code, p, p⟩).acts (T.run p code auto externs st.vm.world).1) := rfl
  rw [hexecute] at h
  cases hr : (T.run p code auto externs st.vm.world).2 with
  | ok w =>
      rw [hr] at h
      cases h
      exact ⟨w, rfl⟩
  | error message =>
      rw [hr] at h
      cases h

section Steps

variable {fuel : Nat} {p : Path} {auto : Bool} {st st' : LoaderState Ast Code (ProgramVm Code W)}

theorem LoadSteps.later (s : LoadSteps F site T (fun d => loadModule F site T.runtime fuel d false) p auto st st') :
    Later st s.built ∧ Later s.built s.compiled ∧ Later s.compiled s.imported ∧ Later s.imported s.executed ∧
      Later s.executed st' := by
  have hbuild : Later st (last (buildMetadata F site (site.paths.length + 1) p) st) := later_buildMetadata _ p st
  have hsub : ∀ d, Respects Later (loadModule F site T.runtime fuel d false) := fun d => later_loadModule fuel d false
  have hcompile : Later s.built (last (loadOrCompile F site p s.metadata) s.built) := later_loadOrCompile p s.metadata s.built
  have hresolve := carried_later.resolveImportBindings (R := T.runtime) hsub p s.metadata.importSpecs
    { s.compiled with modules := p :: s.compiled.modules }
  have hexecute := carried_later.onVm
    (T.runtime.execute p s.code (auto && !s.metadata.topLevelMainCall) s.metadata.externs) s.imported
  have hexports := carried_later.buildExports (R := T.runtime) hsub p s.metadata.toMetadataRecord s.metadata.exports
    s.executed
  rw [last_of_ok s.build] at hbuild
  rw [last_of_ok s.compile] at hcompile
  rw [last_of_ok s.resolve] at hresolve
  rw [last_of_ok s.execute] at hexecute
  rw [last_of_ok s.exports] at hexports
  exact ⟨hbuild, hcompile, ⟨hresolve.metadataStack, hresolve.loadingStack, hresolve.memo, hresolve.pending⟩, hexecute, hexports⟩

theorem LoadSteps.read (s : LoadSteps F site T (fun d => loadModule F site T.runtime fuel d false) p auto st st')
    (hreads : Reads imports reexports st') :
    s.metadata.imports = imports p ∧ s.metadata.reexports = reexports p := by
  obtain ⟨-, h₁, h₂, h₃, h₄⟩ := s.later
  have hlookup := lookup_of_buildMetadata s.build
  exact hreads p s.metadata (h₄.memo _ _ (h₃.memo _ _ (h₂.memo _ _ (h₁.memo _ _ hlookup))))

theorem LoadSteps.early_imported
    (s : LoadSteps F site T (fun d => loadModule F site T.runtime fuel d false) p auto st st')
    (hsub : LoadsEarly imports reexports root fun d => loadModule F site T.runtime fuel d false)
    (hreach : Reaches (fun q => imports q ++ reexports q) root p) (hloading : p ∈ st.loadingStack)
    (hroot : root ∈ p :: st.modules) (hclosed : ∀ q ∈ st.modules, q ∉ st.loadingStack → ∀ d ∈ imports q, d ∈ st.modules)
    (hsettled : st.vm.unfinished = []) (hreads : Reads imports reexports st') :
    Early imports root s.imported ∧ ∀ d ∈ imports p, d ∈ s.imported.modules := by
  obtain ⟨hl₀, h₁, h₂, h₃, h₄⟩ := s.later
  obtain ⟨himports, -⟩ := s.read hreads
  have hq₀ : Quiet st s.built := by
    have h : Quiet st (last (buildMetadata F site (site.paths.length + 1) p) st) := building_quiet.buildMetadata _ p st
    rw [last_of_ok s.build] at h
    exact h
  have hq₁ : Quiet s.built s.compiled := by
    have h : Quiet s.built (last (loadOrCompile F site p s.metadata) s.built) := loadOrCompile_quiet p s.metadata s.built
    rw [last_of_ok s.compile] at h
    exact h
  have hmodules : s.compiled.modules = st.modules := hq₁.1.trans hq₀.1
  have hstack : s.compiled.loadingStack = st.loadingStack := h₁.loadingStack.trans hl₀.loadingStack
  have hregistered : Early imports root { s.compiled with modules := p :: s.compiled.modules } := by
    refine ⟨?_, fun q hq hnot d hd => ?_, ?_⟩
    · simp only [hmodules]
      exact hroot
    · simp only [hmodules, hstack] at hq hnot ⊢
      rcases List.mem_cons.mp hq with rfl | hq
      · exact absurd hloading hnot
      · exact List.mem_cons_of_mem _ (hclosed q hq hnot d hd)
    · exact (congrArg ProgramVm.unfinished (hq₁.2.trans hq₀.2)).trans hsettled
  obtain ⟨hearly, hall⟩ := resolveImportBindings_early hsub (fun d => later_loadModule fuel d false)
    (fun d => grows_loadModule fuel d false)
    (fun spec hs => hreach.trans (Reaches.edge (List.mem_append_left _ (himports ▸ List.mem_map_of_mem hs))))
    hregistered s.resolve fun q md hq => hreads q md (h₄.memo q md (h₃.memo q md hq))
  refine ⟨hearly, fun d hd => ?_⟩
  rw [← himports] at hd
  obtain ⟨spec, hs, rfl⟩ := List.mem_map.mp hd
  exact hall spec hs

end Steps

theorem loadModule_early (hsettles : SettlesBelow T (fun q => imports q ++ reexports q) root) (fuel : Nat) :
    LoadsEarly imports reexports root fun d => loadModule F site T.runtime fuel d false := by
  induction fuel with
  | zero => exact fun d st st' _ _ h => nomatch h
  | succ fuel ih =>
      intro p st st' hreach h hr hreads
      by_cases hp : p ∈ st.modules
      · simp only [loadModule_loaded hp] at hr
        cases hr
        exact ⟨h, hp⟩
      by_cases hl : p ∈ st.loadingStack
      · simp only [loadModule_circular hp hl] at hr
        cases hr
      simp only [loadModule_new hp hl] at hr
      unfold onLoadingStack at hr
      cases hn : loadNew F site T.runtime (fun d => loadModule F site T.runtime fuel d false) p false
          { st with loadingStack := p :: st.loadingStack } with
      | error e st₁ =>
          rw [hn] at hr
          cases hr
      | ok a st₁ =>
          rw [hn] at hr
          cases hr
          obtain ⟨s⟩ := loadNew_steps hn
          have hreads₁ : Reads imports reexports st₁ := hreads
          obtain ⟨himports, hre⟩ := s.read hreads₁
          obtain ⟨h₀, h₁, h₂, h₃, h₄⟩ := s.later
          have hsub : ∀ d, Respects Later (loadModule F site T.runtime fuel d false) := fun d => later_loadModule fuel d false
          obtain ⟨hearly, hdone⟩ := s.early_imported ih hreach List.mem_cons_self (List.mem_cons_of_mem _ h.root)
            (fun q hq hnot => h.closed q hq fun hm => hnot (List.mem_cons_of_mem _ hm)) h.settled hreads₁
          have hne : p ≠ root := fun he => hp (he ▸ h.root)
          obtain ⟨w, hw⟩ := onVm_execute s.execute
          have hexecuted : Early imports root s.executed := by
            rw [hw]
            refine ⟨hearly.root, hearly.closed, ?_⟩
            refine ProgramVm.settled_acts _ (hsettles p hne hreach _ _ _ _) fun c hc => ?_
            have hnone : c ∈ s.imported.vm.unfinished := hc
            rw [hearly.settled] at hnone
            cases hnone
          have hfinal := buildExports_early ih hsub
            (fun d hd => hreach.trans (Reaches.edge (List.mem_append_right _ (hre ▸ hd)))) hexecuted s.exports hreads₁
          have hgrows : ∀ d, Grows (loadModule F site T.runtime fuel d false) := fun d => grows_loadModule fuel d false
          have hmodules : s.imported.modules <:+ st₁.modules := by
            have hg := carried_modules.buildExports (R := T.runtime) hgrows p s.metadata.toMetadataRecord
              s.metadata.exports s.executed
            rw [last_of_ok s.exports, hw] at hg
            exact hg
          have hregistered : p ∈ s.imported.modules := by
            have hg := carried_modules.resolveImportBindings (R := T.runtime) hgrows p s.metadata.importSpecs
              { s.compiled with modules := p :: s.compiled.modules }
            rw [last_of_ok s.resolve] at hg
            exact hg.subset List.mem_cons_self
          have hstack : st₁.loadingStack = p :: st.loadingStack :=
            h₄.loadingStack.trans (h₃.loadingStack.trans (h₂.loadingStack.trans (h₁.loadingStack.trans h₀.loadingStack)))
          refine ⟨⟨hfinal.root, fun q hq hnot d hd => ?_, hfinal.settled⟩, hmodules.subset hregistered⟩
          by_cases hqp : q = p
          · subst hqp
            exact hmodules.subset (hdone d hd)
          · refine hfinal.closed q hq (fun hm => ?_) d hd
            simp only [hstack, List.erase_cons_head] at hm hnot
            exact (List.mem_cons.mp hm).elim hqp hnot

theorem buildExports_loaded {fuel : Nat} {p : Path} {record : MetadataRecord} {names : List Name}
    {st st' : LoaderState Ast Code (ProgramVm Code W)}
    (hr : buildExports T.runtime (fun d => loadModule F site T.runtime fuel d false) p record names st = .ok () st')
    (hloaded : ∀ d ∈ record.reexports, d ∈ st.modules) :
    ∃ w, st' = { st with vm := { st.vm with world := w } } := by
  induction names generalizing st with
  | nil =>
      cases hr
      exact ⟨_, rfl⟩
  | cons name names ih =>
      obtain ⟨_, st₁, hone, hrest⟩ := bind_eq_ok hr
      have hstep : ∃ w, st₁ = { st with vm := { st.vm with world := w } } := by
        by_cases hg : (T.runtime.hasGlobal st.vm p name || record.defs.contains name) = true
        · rw [buildExport_own hg] at hone
          exact onVm_onWorld hone
        cases hf : record.exportFromSpecs.find? fun spec => spec.names.contains name with
        | none =>
            rw [buildExport_absent hg hf] at hone
            cases hone
            exact ⟨st.vm.world, rfl⟩
        | some spec =>
            by_cases hs : (record.importSpecs.map ImportSpec.resolvedPath).contains spec.resolvedPath = true
            · rw [buildExport_imported hg hf hs] at hone
              exact onVm_onWorld hone
            · rw [buildExport_loaded hg hf hs] at hone
              obtain ⟨_, st₂, hload, hbind⟩ := bind_eq_ok hone
              have hspec : spec.resolvedPath ∈ st.modules :=
                hloaded _ (List.mem_map_of_mem (List.mem_of_find?_eq_some hf))
              cases fuel with
              | zero => cases hload
              | succ fuel =>
                  rw [loadModule_loaded hspec] at hload
                  cases hload
                  exact onVm_onWorld hbind
      obtain ⟨w, rfl⟩ := hstep
      obtain ⟨w', rfl⟩ := ih hrest hloaded
      exact ⟨w', rfl⟩

theorem codeOf_loadOrCompile {store : Option (Store Code)} {p : Path} {metadata : ModuleMetadata Ast} {code : Code}
    {before st st' : LoaderState Ast Code (ProgramVm Code W)} (h : Honest F site before st)
    (hc : loadOrCompile F site p metadata st = .ok code st') (hstore : before.store = store) :
    F.CodeOf site store p code := by
  subst hstore
  cases hu : F.usable site st p with
  | some entry =>
      rw [loadOrCompile_cached hu] at hc
      cases hc
      cases hs : before.store with
      | none =>
          rw [usable_cold (h.noStore hs)] at hu
          cases hu
      | some start =>
          obtain ⟨store, hst, hdrift⟩ := h.drift start hs
          exact .inl ⟨start, entry, rfl, startEntry_of_usable hst hdrift hu, rfl⟩
  | none =>
      cases hp : metadata.parsed with
      | none =>
          rw [loadOrCompile_unparsed hu hp] at hc
          cases hc
      | some parsed =>
          cases hcomp : F.compile p parsed metadata.importNames with
          | error message =>
              rw [loadOrCompile_error hu hp hcomp] at hc
              cases hc
          | ok code' =>
              rw [loadOrCompile_compiled hu hp hcomp] at hc
              cases hc
              exact .inr ⟨parsed, metadata.importNames, hcomp⟩

end Loading

open Session

/-- In the example project `main` spawns a coroutine and leaves it, and `util` runs the one it spawns. -/
def exampleLevels : TopLevels String Unit where
  start := ()
  run p _ _ _ _ :=
    if p = mainPath then ([.spawn 2], .ok ()) else if p = utilPath then ([.spawn 1, .finish 1], .ok ()) else ([], .ok ())
  hasGlobal _ _ _ := false
  bindImport _ _ w := .ok w
  bindExport _ _ _ w := .ok w

theorem main_loadsCleanly : LoadsCleanly textFront (textSite mainPath) exampleLevels none := by
  have hmain : textFront.prepare (textSite mainPath) mainPath =
      .ok ⟨⟨"import \"util\"", [⟨"util".toList, [], none⟩], [], [], [], false, []⟩,
        [⟨⟨"util".toList, [], none⟩, utilPath⟩], []⟩ := rfl
  refine ⟨fun reads hreads d hd => ?_, fun _ _ p hp _ _ _ _ _ => ?_, fun _ _ _ _ program hlast => ?_⟩
  · obtain ⟨-, hreexports⟩ := reads_source hreads rfl rfl hmain
    have hd' : d ∈ reexportsRead reads mainPath := hd
    rw [hreexports] at hd'
    cases hd'
  · have hne : p ≠ mainPath := hp
    simp only [exampleLevels, if_neg hne]
    by_cases hutil : p = utilPath
    · rw [if_pos hutil]
      exact ⟨List.mem_singleton.mpr rfl, trivial⟩
    · rw [if_neg hutil]
      trivial
  · cases hlast

def vmAfter (result : EStateM.Result LoadError (LoaderState Ast Code (ProgramVm Code W)) PUnit) :
    Option (ProgramVm Code W) :=
  match result with
  | .ok _ st => some st.vm
  | .error _ _ => none

theorem ok_of_vmAfter {result : EStateM.Result LoadError (LoaderState Ast Code (ProgramVm Code W)) PUnit}
    {vm : ProgramVm Code W} (h : vmAfter result = some vm) : ∃ st, result = .ok () st ∧ st.vm = vm := by
  cases result with
  | ok a st =>
      cases h
      exact ⟨st, rfl, rfl⟩
  | error e st => cases h

theorem main_vm : vmAfter (load textFront (textSite mainPath) exampleLevels.runtime none) =
    some ⟨some ⟨"import \"util\"", mainPath, mainPath⟩, [2], [2], [1], ()⟩ := by
  decide +kernel

/-- The same project, with `util` leaving the coroutine it spawns to a later `run_loop`. -/
def spawningLevels : TopLevels String Unit :=
  { exampleLevels with run := fun p _ _ _ _ => if p = utilPath then ([.spawn 1], .ok ()) else ([], .ok ()) }

theorem spawning_vm : vmAfter (load textFront (textSite mainPath) spawningLevels.runtime none) =
    some ⟨some ⟨"import \"util\"", mainPath, mainPath⟩, [], [1], [], ()⟩ := by
  decide +kernel

theorem facade_vm : vmAfter (load textFront (textSite facadePath) exampleLevels.runtime none) =
    some ⟨some ⟨"let a = 1", utilPath, utilPath⟩, [], [], [1], ()⟩ := by
  decide +kernel

end Nodus.Loading

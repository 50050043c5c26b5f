import Nodus.LoadBound

/-! Module initialisation over the loads of one loader: which top levels start and complete, which modules are
handed to importers, re-exporters and the caller, and in which order. -/

namespace Nodus.Loading

open PosixPath Walks Paired Loader

inductive InitEvent where
  | started (p : Path)
  | completed (p : Path)
  /-- A module is handed to the one that imports it or re-exports from it, or to the caller. -/
  | handed (p : Path) (taker : Option Path)
  deriving DecidableEq, Repr

variable {Ast Code X : Type}

/-- An action on the VM that is logged when it begins and when it returns. -/
def logged (begins returns : List InitEvent) (act : EStateM String X PUnit) :
    EStateM String (X × List InitEvent) PUnit := fun vm =>
  match act vm.1 with
  | .ok _ x => .ok () (x, returns ++ begins ++ vm.2)
  | .error message x => .error message (x, begins ++ vm.2)

/-- The runtime with a log, the latest event first. -/
def Runtime.traced (R : Runtime Code X) : Runtime Code (X × List InitEvent) where
  start := (R.start, [])
  bindImport p spec := logged [.handed spec.resolvedPath (some p)] [] (R.bindImport p spec)
  execute p code auto externs := logged [.started p] [.completed p] (R.execute p code auto externs)
  hasGlobal vm := R.hasGlobal vm.1
  bindExport p name source :=
    logged (source.toList.map fun d => .handed d (some p)) [] (R.bindExport p name source)

/-- A module starts once and after everything it depends on has completed, and is handed on only after it has
completed. -/
def Sound (deps : Path → List Path) : List InitEvent → Prop
  | [] => True
  | .started p :: earlier =>
      (.started p ∉ earlier ∧ ∀ d ∈ deps p, .completed d ∈ earlier) ∧ Sound deps earlier
  | .completed p :: earlier => .started p ∈ earlier ∧ Sound deps earlier
  | .handed p _ :: earlier => .completed p ∈ earlier ∧ Sound deps earlier

def MetadataRecord.imports (record : MetadataRecord) : List Path := record.importSpecs.map (·.resolvedPath)

def MetadataRecord.reexports (record : MetadataRecord) : List Path := record.exportFromSpecs.map (·.resolvedPath)

/-- A load on a loader: what it reads, and whether the source that is handed over is refused because the module
was compiled from another one before. -/
structure LoadCall (Ast Code : Type) where
  site : Site Ast
  store : Option (Store Code)
  refused : Bool := false

/-- The state of a loader with a traced runtime. -/
abbrev Session (Ast Code X : Type) := LoaderState Ast Code (X × List InitEvent)

namespace Session

variable (F : Front Ast Code) (R : Runtime Code X)

def log (st : Session Ast Code X) : List InitEvent := st.vm.2

/-- The caller gets the root. -/
def deliver (root : Path) (st : Session Ast Code X) : Session Ast Code X :=
  { st with vm := (st.vm.1, .handed root none :: st.vm.2) }

/-- One load. `_refuse_source_mismatch` looks at modules the loader knows. -/
def load (st : Session Ast Code X) (c : LoadCall Ast Code) : EStateM.Result LoadError (Session Ast Code X) PUnit :=
  if c.refused ∧ (c.site.root ∈ st.modules ∨ (st.metadata.lookup c.site.root).isSome) then
    .error (.compileError "module was already compiled from different source by this loader") st
  else
    match loadModule F c.site R.traced (c.site.paths.length + 1) c.site.root c.site.autoRunMain
        { st with store := c.store } with
    | .ok _ st' => .ok () (deliver c.site.root st')
    | .error e st' => .error e st'

def next (st : Session Ast Code X) (c : LoadCall Ast Code) : Session Ast Code X :=
  match load F R st c with
  | .ok _ st' => st'
  | .error _ st' => st'

def run (st : Session Ast Code X) (calls : List (LoadCall Ast Code)) : Session Ast Code X := calls.foldl (next F R) st

def start : Session Ast Code X := { store := none, vm := R.traced.start }

/-- What the loader has read of a module's imports and re-exports. -/
def imports (st : Session Ast Code X) (p : Path) : List Path :=
  match st.metadata.lookup p with
  | some metadata => metadata.imports
  | none => []

def reexports (st : Session Ast Code X) (p : Path) : List Path :=
  match st.metadata.lookup p with
  | some metadata => metadata.reexports
  | none => []

def deps (st : Session Ast Code X) (p : Path) : List Path := st.imports p ++ st.reexports p

/-- The modules that are initialised. -/
def completedModules (st : Session Ast Code X) : List Path :=
  st.log.filterMap fun
    | .completed p => some p
    | _ => none

/-- Registered by a load that failed before the module was initialised. -/
def Stuck (st : Session Ast Code X) (p : Path) : Prop := p ∈ st.modules ∧ .completed p ∉ st.log

end Session

/-- Modules visited depth first along their imports. The walk meets no module that it is in the middle of, and none
that is stuck, and what a module re-exports from has been left before the module is. -/
inductive InOrder (imports reexports : Path → List Path) (stuck : Path → Prop) :
    List Path → List Path → List Path → List Path → Prop
  | nil {opened left : List Path} : InOrder imports reexports stuck opened left [] left
  | seen {opened left left' ps : List Path} {p : Path} (hp : p ∈ left)
      (hrest : InOrder imports reexports stuck opened left ps left') :
      InOrder imports reexports stuck opened left (p :: ps) left'
  | visit {opened left mid left' ps : List Path} {p : Path} (hleft : p ∉ left) (hopened : p ∉ opened)
      (hstuck : ¬ stuck p) (hinside : InOrder imports reexports stuck (p :: opened) left (imports p) mid)
      (hreexports : ∀ d ∈ reexports p, d ∈ mid)
      (hrest : InOrder imports reexports stuck opened (p :: mid) ps left') :
      InOrder imports reexports stuck opened left (p :: ps) left'

namespace Front

variable (F : Front Ast Code) (site : Site Ast)

/-- The module's imports and re-exports lead into a cycle. -/
def LeadsToCycle (p : Path) : Prop :=
  ∃ q d, Reaches (F.importsOf site) p q ∧ d ∈ F.importsOf site q ∧ Reaches (F.importsOf site) d q

/-- The exports a module can be known by: those kept by the loader, recorded in a cache entry that stands in for it,
or read off its source. -/
def KnownExports (st : LoaderState Ast Code X) (d : Path) (exports : List Name) : Prop :=
  (∃ metadata, st.metadata.lookup d = some metadata ∧ metadata.exports = exports) ∨
  (∃ entry, F.usable site st d = some entry ∧ entry.metadata.exports = exports) ∨
  (∃ parsed, F.parseModule site d = .ok parsed ∧ parsed.exports = exports)

/-- Nothing is wrong with the imports of a module by itself: it parses, its imports are found, and what it imports
or re-exports by name is exported. -/
def Faultless (st : LoaderState Ast Code X) (p : Path) : Prop :=
  ∃ pr, F.prepare site p = .ok pr ∧
    (∀ spec ∈ pr.importSpecs, ∀ exports, F.KnownExports site st spec.resolvedPath exports →
      ∃ names, spec.bound F.builtin exports = .ok names) ∧
    (∀ spec ∈ pr.exportFromSpecs, ∀ exports, F.KnownExports site st spec.resolvedPath exports →
      spec.check exports = .ok ())

/-- Neither the loader nor the cache stands in for the module. -/
structure Cold (st : LoaderState Ast Code X) (p : Path) : Prop where
  notLoaded : p ∉ st.modules
  notRead : st.metadata.lookup p = none
  notCached : F.usable site st p = none

/-- What a load may read of a module: what the loader has kept of it, or else what a cache entry records or the
source says. -/
def MayRead (st : LoaderState Ast Code X) (p : Path) (record : MetadataRecord) : Prop :=
  match st.metadata.lookup p with
  | some metadata => record = metadata.toMetadataRecord
  | none =>
      (∃ store entry, st.store = some store ∧ startEntry F site store p = some entry ∧ record = entry.metadata) ∨
      (∃ pr names, F.prepare site p = .ok pr ∧ record = pr.record names)

/-- One way to read all modules. -/
def Reading (st : LoaderState Ast Code X) (reads : Path → Option MetadataRecord) : Prop :=
  ∀ p, match reads p with
    | some record => F.MayRead site st p record
    | none => ∀ record, ¬ F.MayRead site st p record

end Front

/-- The imports and re-exports of the modules as they are read. -/
def importsRead (reads : Path → Option MetadataRecord) (p : Path) : List Path :=
  match reads p with
  | some record => record.imports
  | none => []

def reexportsRead (reads : Path → Option MetadataRecord) (p : Path) : List Path :=
  match reads p with
  | some record => record.reexports
  | none => []

/-- What a load has to meet. If the sources contain a cycle, every module that leads to one is read from its source,
and no other import error comes first. Otherwise the modules are in order, however they are read. -/
def LoadCall.Meets (F : Front Ast Code) (st : Session Ast Code X) (c : LoadCall Ast Code) : Prop :=
  let before : Session Ast Code X := { st with store := c.store }
  (F.LeadsToCycle c.site c.site.root →
    (∀ p, F.LeadsToCycle c.site p → F.Cold c.site before p) ∧
    ∀ p, Reaches (F.importsOf c.site) c.site.root p → F.Faultless c.site before p) ∧
  (¬ F.LeadsToCycle c.site c.site.root → ∀ reads, F.Reading c.site before reads →
    ∃ left, InOrder (importsRead reads) (reexportsRead reads) st.Stuck [] st.completedModules [c.site.root] left)

/-- Every load of a session meets the condition in the state it finds. -/
def Session.Meets (F : Front Ast Code) (R : Runtime Code X) : Session Ast Code X → List (LoadCall Ast Code) → Prop
  | _, [] => True
  | st, c :: calls => c.Meets F st ∧ Session.Meets F R (Session.next F R st c) calls

/-! ### What a load leaves alone -/

namespace Loader

variable {F : Front Ast Code} {site : Site Ast} {R : Runtime Code X} {p : Path}

/-- The stacks are back as they were, metadata is kept for good, and metadata that is being built is not kept
yet. -/
structure Later (st st' : LoaderState Ast Code X) : Prop where
  metadataStack : st'.metadataStack = st.metadataStack
  loadingStack : st'.loadingStack = st.loadingStack
  memo : ∀ q metadata, st.metadata.lookup q = some metadata → st'.metadata.lookup q = some metadata
  pending : ∀ q ∈ st.metadataStack, st'.metadata.lookup q = st.metadata.lookup q

/-- The same, apart from the metadata of one module. -/
structure LaterExcept (p : Path) (st st' : LoaderState Ast Code X) : Prop where
  metadataStack : st'.metadataStack = st.metadataStack
  loadingStack : st'.loadingStack = st.loadingStack
  memo : ∀ q metadata, q ≠ p → st.metadata.lookup q = some metadata → st'.metadata.lookup q = some metadata
  pending : ∀ q ∈ st.metadataStack, q ≠ p → st'.metadata.lookup q = st.metadata.lookup q

theorem carried_later : Carried fun st st' : LoaderState Ast Code X => Later st st' where
  refl _ := ⟨rfl, rfl, fun _ _ h => h, fun _ _ => rfl⟩
  trans h h' :=
    ⟨h'.metadataStack.trans h.metadataStack, h'.loadingStack.trans h.loadingStack,
      fun q metadata hq => h'.memo q metadata (h.memo q metadata hq),
      fun q hq => (h'.pending q (h.metadataStack ▸ hq)).trans (h.pending q hq)⟩
  vm _ _ := ⟨rfl, rfl, fun _ _ h => h, fun _ _ => rfl⟩

theorem Later.except {st st' : LoaderState Ast Code X} (h : Later st st') : LaterExcept p st st' :=
  ⟨h.metadataStack, h.loadingStack, fun q metadata _ => h.memo q metadata, fun q hq _ => h.pending q hq⟩

theorem laterExcept_keep (metadata : ModuleMetadata Ast) (st : LoaderState Ast Code X) :
    LaterExcept p st { st with metadata := (p, metadata) :: st.metadata } := by
  have hlookup : ∀ q, q ≠ p → ((p, metadata) :: st.metadata).lookup q = st.metadata.lookup q := by
    intro q hq
    rw [List.lookup_cons, show (q == p) = false by simpa using hq]
  refine ⟨rfl, rfl, fun q md hq h => ?_, fun q _ hq => hlookup q hq⟩
  exact (hlookup q hq).trans h

/-- What is done with a new module on the metadata stack changes nothing else, once it is off the stack. -/
theorem LaterExcept.leave {st st' : LoaderState Ast Code X} (hnone : st.metadata.lookup p = none)
    (hp : p ∉ st.metadataStack) (h : LaterExcept p { st with metadataStack := p :: st.metadataStack } st') :
    Later st { st' with metadataStack := st'.metadataStack.erase p } := by
  refine ⟨?_, h.loadingStack, fun q md hq => ?_, fun q hq => ?_⟩
  · simp only [h.metadataStack]
    exact List.erase_cons_head _ _
  · refine h.memo q md ?_ hq
    rintro rfl
    rw [hnone] at hq
    cases hq
  · refine h.pending q (List.mem_cons_of_mem p hq) ?_
    rintro rfl
    exact hp hq

theorem building_later :
    Building F site (fun st st' : LoaderState Ast Code X => Later st st') fun p st st' => LaterExcept p st st' where
  refl := carried_later.refl
  trans := carried_later.trans
  innerTrans h h' :=
    ⟨h'.metadataStack.trans h.metadataStack, h'.loadingStack.trans h.loadingStack,
      fun q metadata hp hq => h'.memo q metadata hp (h.memo q metadata hp hq),
      fun q hq hp => (h'.pending q (h.metadataStack ▸ hq) hp).trans (h.pending q hq hp)⟩
  inside := Later.except
  cached _ := laterExcept_keep _ _
  parsed _ _ _ := laterExcept_keep _ _
  leave := LaterExcept.leave

theorem later_buildMetadata (fuel : Nat) (p : Path) :
    Respects Later (buildMetadata F site fuel p : Loader Ast Code X (ModuleMetadata Ast)) :=
  building_later.buildMetadata fuel p

theorem later_loadOrCompile (p : Path) (metadata : ModuleMetadata Ast) :
    Respects Later (loadOrCompile F site p metadata : Loader Ast Code X Code) := by
  refine respects_loadOrCompile carried_later.refl ?_ p metadata
  intro q code record st
  obtain ⟨store, recompiled, heq, -, -⟩ := recordCompiled_cases F site q code record st
  rw [heq]
  exact ⟨rfl, rfl, fun _ _ h => h, fun _ _ => rfl⟩

theorem later_onLoadingStack {p : Path} {c : Loader Ast Code X PUnit} (hc : Respects Later c) :
    Respects Later (onLoadingStack p c) := by
  intro st
  have h := hc { st with loadingStack := p :: st.loadingStack }
  have hlater : ∀ st' : LoaderState Ast Code X, Later { st with loadingStack := p :: st.loadingStack } st' →
      Later st { st' with loadingStack := st'.loadingStack.erase p } := by
    intro st' h'
    refine ⟨h'.metadataStack, ?_, h'.memo, h'.pending⟩
    simp only [h'.loadingStack]
    exact List.erase_cons_head _ _
  unfold last at h ⊢
  unfold onLoadingStack
  cases hr : c { st with loadingStack := p :: st.loadingStack } with
  | ok a st' => rw [hr] at h; exact hlater st' h
  | error e st' => rw [hr] at h; exact hlater st' h

theorem later_register (p : Path) : Respects Later (register p : Loader Ast Code X PUnit) :=
  fun _ => ⟨rfl, rfl, fun _ _ h => h, fun _ _ => rfl⟩

theorem later_loadModule (fuel : Nat) (p : Path) (auto : Bool) : Respects Later (loadModule F site R fuel p auto) :=
  carried_later.loadModule (later_buildMetadata _) later_loadOrCompile later_register later_onLoadingStack fuel p auto

theorem lookup_of_buildMetadata {fuel : Nat} {metadata : ModuleMetadata Ast} {st st' : LoaderState Ast Code X}
    (h : buildMetadata F site fuel p st = .ok metadata st') : st'.metadata.lookup p = some metadata := by
  have hkept : ∀ {c : Loader Ast Code X (ModuleMetadata Ast)} {s : LoaderState Ast Code X},
      (∀ md s₁, c { s with metadataStack := p :: s.metadataStack } = .ok md s₁ → s₁.metadata.lookup p = some md) →
      onMetadataStack p c s = .ok metadata st' → st'.metadata.lookup p = some metadata := by
    intro c s hc hr
    unfold onMetadataStack at hr
    cases hcs : c { s with metadataStack := p :: s.metadataStack } with
    | ok md s₁ =>
        rw [hcs] at hr
        cases hr
        exact hc metadata s₁ hcs
    | error e s₁ =>
        rw [hcs] at hr
        cases hr
  have hhead : ∀ (md : ModuleMetadata Ast) (l : List (Path × ModuleMetadata Ast)), ((p, md) :: l).lookup p = some md := by
    intro md l
    rw [List.lookup_cons, beq_self_eq_true]
  cases fuel with
  | zero => cases h
  | succ fuel =>
      cases hl : st.metadata.lookup p with
      | some md =>
          rw [buildMetadata_memo hl] at h
          cases h
          exact hl
      | none =>
          by_cases hp : p ∈ st.metadataStack
          · rw [buildMetadata_circular hl hp] at h
            cases h
          cases hu : F.usable site st p with
          | some entry =>
              rw [buildMetadata_cached hl hp hu] at h
              refine hkept (fun md s₁ hk => ?_) h
              cases hk
              exact hhead _ _
          | none =>
              rw [buildMetadata_parsed hl hp hu] at h
              refine hkept (fun md s₁ hk => ?_) h
              -- the last thing that is done is to keep the metadata
              unfold parsedMetadata at hk
              rw [bind_apply] at hk
              split at hk
              · rw [bind_apply] at hk
                split at hk
                · cases hk
                  exact hhead _ _
                · cases hk
              · cases hk

end Loader

/-! ### The order of a load -/

theorem InOrder.mono {imports reexports : Path → List Path} {stuck : Path → Prop} {opened left ps left' : List Path}
    (h : InOrder imports reexports stuck opened left ps left') : ∀ p ∈ left, p ∈ left' := by
  induction h with
  | nil => exact fun _ hp => hp
  | seen _ _ ih => exact ih
  | visit _ _ _ _ _ _ ih₁ ih₂ => exact fun q hq => ih₂ q (List.mem_cons_of_mem _ (ih₁ q hq))

theorem InOrder.left_of_mem {imports reexports : Path → List Path} {stuck : Path → Prop}
    {opened left ps left' : List Path} (h : InOrder imports reexports stuck opened left ps left') :
    ∀ p ∈ ps, p ∈ left' := by
  induction h with
  | nil => simp
  | seen hp hrest ih =>
      intro q hq
      rcases List.mem_cons.mp hq with rfl | hq
      · exact hrest.mono q hp
      · exact ih q hq
  | visit _ _ _ _ _ hrest _ ih =>
      intro q hq
      rcases List.mem_cons.mp hq with rfl | hq
      · exact hrest.mono q List.mem_cons_self
      · exact ih q hq

section Order

variable {Y : Type} {F : Front Ast Code} {site : Site Ast} {R : Runtime Code X} {imports reexports : Path → List Path}
  {stuck : Path → Prop} {deps : Path → List Path}

/-- The log is sound, and only registered modules whose metadata is kept have started. -/
structure Fine (deps : Path → List Path) (st : Session Ast Code X) : Prop where
  sound : Sound deps st.log
  registered : ∀ p, .started p ∈ st.log → p ∈ st.modules
  read : ∀ p, .started p ∈ st.log → ∃ metadata, st.metadata.lookup p = some metadata

/-- In the middle of a load: every registered module is opened, left or stuck, those that are opened wait to be
executed and those that are left have completed. -/
structure Underway (deps : Path → List Path) (stuck : Path → Prop) (opened left : List Path)
    (st : Session Ast Code X) : Prop extends Fine deps st where
  known : ∀ p ∈ st.modules, p ∈ opened ∨ p ∈ left ∨ stuck p
  waiting : ∀ p ∈ opened, .started p ∉ st.log
  present : ∀ p ∈ left, p ∈ st.modules
  completed : ∀ p ∈ left, .completed p ∈ st.log

/-- The metadata the loader has is as given. -/
def Reads (imports reexports : Path → List Path) (st : LoaderState Ast Code Y) : Prop :=
  ∀ p metadata, st.metadata.lookup p = some metadata → metadata.imports = imports p ∧ metadata.reexports = reexports p

theorem Reads.earlier {st st' : LoaderState Ast Code Y} (h : Reads imports reexports st') (hl : Later st st') :
    Reads imports reexports st :=
  fun p metadata hp => h p metadata (hl.memo p metadata hp)

theorem Reads.first {α β : Type} {c : Loader Ast Code Y α}
    {k : α → Loader Ast Code Y β} {st st' : LoaderState Ast Code Y} {a : α}
    (h : Reads imports reexports (last (c >>= k) st)) (hk : ∀ a, Respects Later (k a)) (hc : c st = .ok a st') :
    Reads imports reexports st' ∧ Reads imports reexports (last (k a) st') := by
  rw [last_bind_ok hc] at h
  exact ⟨h.earlier (hk a st'), h⟩

theorem Reads.part {α β : Type} {c : Loader Ast Code Y α}
    {k : α → Loader Ast Code Y β} {st : LoaderState Ast Code Y}
    (h : Reads imports reexports (last (c >>= k) st)) (hk : ∀ a, Respects Later (k a)) :
    Reads imports reexports (last c st) := by
  cases hc : c st with
  | ok a st' =>
      rw [last_of_ok hc]
      exact (h.first hk hc).1
  | error e st' =>
      unfold last at h ⊢
      rw [bind_error hc] at h
      rw [hc]
      exact h

theorem Underway.congr {opened left : List Path} {st st' : Session Ast Code X} (h : Underway deps stuck opened left st)
    (hm : st'.modules = st.modules) (hv : st'.vm.2 = st.vm.2)
    (hmemo : ∀ q metadata, st.metadata.lookup q = some metadata → st'.metadata.lookup q = some metadata) :
    Underway deps stuck opened left st' := by
  have hlog : st'.log = st.log := hv
  refine ⟨⟨?_, ?_, ?_⟩, ?_, ?_, ?_, ?_⟩
  · rw [hlog]; exact h.sound
  · rw [hlog, hm]; exact h.registered
  · intro p hp
    rw [hlog] at hp
    obtain ⟨metadata, hread⟩ := h.read p hp
    exact ⟨metadata, hmemo p metadata hread⟩
  · rw [hm]; exact h.known
  · rw [hlog]; exact h.waiting
  · rw [hm]; exact h.present
  · rw [hlog]; exact h.completed

theorem Underway.hand {opened left : List Path} {st : Session Ast Code X} (h : Underway deps stuck opened left st)
    {d : Path} (hd : d ∈ left) (taker : Option Path) (x : X) :
    Underway deps stuck opened left { st with vm := (x, .handed d taker :: st.vm.2) } where
  sound := ⟨h.completed d hd, h.sound⟩
  registered p hp := h.registered p (by simpa [Session.log] using hp)
  read p hp := h.read p (by simpa [Session.log] using hp)
  known := h.known
  waiting p hp hs := h.waiting p hp (by simpa [Session.log] using hs)
  present := h.present
  completed p hp := List.mem_cons_of_mem _ (h.completed p hp)

theorem onVm_handed {opened left : List Path} {st : Session Ast Code X} (h : Underway deps stuck opened left st)
    (act : EStateM String X PUnit) {d : Option Path} (hd : ∀ q, d = some q → q ∈ left) (taker : Option Path) :
    Sat (fun _ st' => Underway deps stuck opened left st') (fun _ st' => Fine deps st')
      (onVm (logged (d.toList.map fun q => .handed q taker) [] act) : Loader Ast Code (X × List InitEvent) PUnit) st := by
  have hall : ∀ x : X, Underway deps stuck opened left
      { st with vm := (x, (d.toList.map fun q => .handed q taker) ++ st.vm.2) } := by
    intro x
    cases d with
    | none => exact h.congr rfl rfl fun _ _ hq => hq
    | some q => exact h.hand (hd q rfl) taker x
  unfold Sat onVm logged
  cases act st.vm.1 with
  | ok a x => exact hall x
  | error message x => exact (hall x).toFine

theorem onVm_executed {opened mid : List Path} {p : Path} {st : Session Ast Code X}
    (h : Underway deps stuck (p :: opened) mid st) (hp : p ∈ st.modules) (hopened : p ∉ opened)
    (hread : ∃ metadata, st.metadata.lookup p = some metadata) (hdeps : ∀ d ∈ deps p, d ∈ mid)
    (act : EStateM String X PUnit) :
    Sat (fun _ st' => Underway deps stuck opened (p :: mid) st') (fun _ st' => Fine deps st')
      (onVm (logged [.started p] [.completed p] act) : Loader Ast Code (X × List InitEvent) PUnit) st := by
  have hsound : Sound deps (.started p :: st.vm.2) :=
    ⟨⟨h.waiting p List.mem_cons_self, fun d hd => h.completed d (hdeps d hd)⟩, h.sound⟩
  have hregistered : ∀ q, .started q ∈ (InitEvent.started p :: st.vm.2) → q ∈ st.modules := by
    intro q hq
    rcases List.mem_cons.mp hq with hq | hq
    · cases hq
      exact hp
    · exact h.registered q hq
  have hallRead : ∀ q, .started q ∈ (InitEvent.started p :: st.vm.2) → ∃ metadata, st.metadata.lookup q = some metadata := by
    intro q hq
    rcases List.mem_cons.mp hq with hq | hq
    · cases hq
      exact hread
    · exact h.read q hq
  unfold Sat onVm logged
  cases act st.vm.1 with
  | error message x => exact ⟨hsound, hregistered, hallRead⟩
  | ok a x =>
      refine ⟨⟨⟨List.mem_cons_self, hsound⟩, ?_, ?_⟩, ?_, ?_, ?_, ?_⟩
      · intro q hq
        exact hregistered q (by simpa [Session.log] using hq)
      · intro q hq
        exact hallRead q (by simpa [Session.log] using hq)
      · intro q hq
        rcases h.known q hq with hq | hq | hq
        · rcases List.mem_cons.mp hq with rfl | hq
          · exact .inr (.inl List.mem_cons_self)
          · exact .inl hq
        · exact .inr (.inl (List.mem_cons_of_mem _ hq))
        · exact .inr (.inr hq)
      · intro q hq hs
        rcases List.mem_cons.mp hs with hs | hs
        · cases hs
        rcases List.mem_cons.mp hs with hs | hs
        · cases hs
          exact hopened hq
        · exact h.waiting q (List.mem_cons_of_mem _ hq) hs
      · intro q hq
        rcases List.mem_cons.mp hq with rfl | hq
        · exact hp
        · exact h.present q hq
      · intro q hq
        rcases List.mem_cons.mp hq with rfl | hq
        · exact List.mem_cons_self
        · exact List.mem_cons_of_mem _ (List.mem_cons_of_mem _ (h.completed q hq))

/-- Neither the registered modules nor the VM change. -/
def Quiet (st st' : LoaderState Ast Code X) : Prop := st'.modules = st.modules ∧ st'.vm = st.vm

theorem building_quiet :
    Building F site (fun st st' : LoaderState Ast Code X => Quiet st st') fun _ st st' => Quiet st st' where
  refl _ := ⟨rfl, rfl⟩
  trans h h' := ⟨h'.1.trans h.1, h'.2.trans h.2⟩
  innerTrans h h' := ⟨h'.1.trans h.1, h'.2.trans h.2⟩
  inside h := h
  cached _ := ⟨rfl, rfl⟩
  parsed _ _ _ := ⟨rfl, rfl⟩
  leave _ _ h := h

theorem loadOrCompile_quiet (p : Path) (metadata : ModuleMetadata Ast) :
    Respects Quiet (loadOrCompile F site p metadata : Loader Ast Code X Code) := by
  refine respects_loadOrCompile (r := Quiet) (fun _ => ⟨rfl, rfl⟩) ?_ p metadata
  intro q code record st
  obtain ⟨store, recompiled, heq, -, -⟩ := recordCompiled_cases F site q code record st
  rw [heq]
  exact ⟨rfl, rfl⟩

theorem Underway.quiet {α : Type} {opened left : List Path} {st : Session Ast Code X}
    {c : Loader Ast Code (X × List InitEvent) α} (h : Underway deps stuck opened left st) (hc : Respects Quiet c)
    (hl : Respects Later c) :
    Sat (fun _ st' => Underway deps stuck opened left st') (fun _ st' => Fine deps st') c st := by
  have hq := hc st
  have hlater := hl st
  unfold Sat
  cases hr : c st with
  | ok a st' =>
      rw [last_of_ok hr] at hq hlater
      exact h.congr hq.1 (congrArg Prod.snd hq.2) hlater.memo
  | error e st' =>
      unfold last at hq hlater
      rw [hr] at hq hlater
      exact (h.congr hq.1 (congrArg Prod.snd hq.2) hlater.memo).toFine

theorem Underway.register {opened left : List Path} {st : Session Ast Code X} (h : Underway deps stuck opened left st)
    {p : Path} (hp : p ∉ st.modules) :
    Underway deps stuck (p :: opened) left { st with modules := p :: st.modules } where
  sound := h.sound
  registered q hq := List.mem_cons_of_mem _ (h.registered q hq)
  read := h.read
  known q hq := by
    rcases List.mem_cons.mp hq with rfl | hq
    · exact .inl List.mem_cons_self
    · exact (h.known q hq).imp_left (List.mem_cons_of_mem _)
  waiting q hq hs := by
    rcases List.mem_cons.mp hq with rfl | hq
    · exact hp (h.registered q hs)
    · exact h.waiting q hq hs
  present q hq := List.mem_cons_of_mem _ (h.present q hq)
  completed := h.completed

theorem buildExports_handed {opened left : List Path} {fuel : Nat} {p : Path} {record : MetadataRecord}
    (hdeps : ∀ d ∈ record.reexports, d ∈ left) (names : List Name) {st : Session Ast Code X}
    (h : Underway deps stuck opened left st) :
    Sat (fun _ st' => Underway deps stuck opened left st') (fun _ st' => Fine deps st')
      (buildExports R.traced (fun d => loadModule F site R.traced fuel d false) p record names) st := by
  induction names generalizing st with
  | nil => exact h
  | cons name names ih =>
      have hone : Sat (fun _ st' => Underway deps stuck opened left st') (fun _ st' => Fine deps st')
          (buildExport R.traced (fun d => loadModule F site R.traced fuel d false) p record name) st := by
        unfold Sat
        by_cases hg : (R.traced.hasGlobal st.vm p name || record.defs.contains name) = true
        · rw [buildExport_own hg]
          exact onVm_handed (d := none) h _ (fun _ hq => nomatch hq) (some p)
        cases hf : record.exportFromSpecs.find? fun spec => spec.names.contains name with
        | none =>
            rw [buildExport_absent hg hf]
            exact h
        | some spec =>
            have hspec : spec.resolvedPath ∈ left :=
              hdeps _ (List.mem_map_of_mem (List.mem_of_find?_eq_some hf))
            have hbind : ∀ st' : Session Ast Code X, Underway deps stuck opened left st' →
                Sat (fun _ st' => Underway deps stuck opened left st') (fun _ st' => Fine deps st')
                  (onVm (R.traced.bindExport p name (some spec.resolvedPath))) st' := by
              intro st' h'
              apply onVm_handed h'
              intro q hq
              cases hq
              exact hspec
            by_cases hs : (record.importSpecs.map ImportSpec.resolvedPath).contains spec.resolvedPath = true
            · rw [buildExport_imported hg hf hs]
              exact hbind st h
            · rw [buildExport_loaded hg hf hs]
              -- the module is there already, and is not loaded again
              have hload : Sat (fun _ st' => Underway deps stuck opened left st') (fun _ st' => Fine deps st')
                  (loadModule F site R.traced fuel spec.resolvedPath false) st := by
                cases fuel with
                | zero => exact h.toFine
                | succ fuel =>
                    unfold Sat
                    rw [loadModule_loaded (h.present _ hspec)]
                    exact h
              exact hload.bind fun _ st' _ h' => hbind st' h'
      exact hone.bind fun _ st' _ h' => ih h'

/-- What loading the imports of a module does, when they are in order. -/
def ImportsDone (F : Front Ast Code) (site : Site Ast) (R : Runtime Code X) (deps imports reexports : Path → List Path)
    (stuck : Path → Prop) (opened left ps left' : List Path) : Prop :=
  ∀ (fuel : Nat) (p : Path) (specs : List ImportSpec) (st : Session Ast Code X),
    specs.map (·.resolvedPath) = ps → Underway deps stuck opened left st →
    Reads imports reexports
      (last (resolveImportBindings R.traced (fun d => loadModule F site R.traced fuel d false) p specs) st) →
    Sat (fun _ st' => Underway deps stuck opened left' st') (fun _ st' => Fine deps st')
      (resolveImportBindings R.traced (fun d => loadModule F site R.traced fuel d false) p specs) st

theorem loadNew_inOrder {opened left mid : List Path} {p : Path} (fuel : Nat) (auto : Bool)
    {st : Session Ast Code X} (hdeps : ∀ q, deps q = imports q ++ reexports q) (h : Underway deps stuck opened left st)
    (hp : p ∉ st.modules) (hopened : p ∉ opened)
    (hinside : ImportsDone F site R deps imports reexports stuck (p :: opened) left (imports p) mid)
    (himports : ∀ d ∈ imports p, d ∈ mid) (hreexports : ∀ d ∈ reexports p, d ∈ mid)
    (hreads : Reads imports reexports
      (last (loadNew F site R.traced (fun d => loadModule F site R.traced fuel d false) p auto) st)) :
    Sat (fun _ st' => Underway deps stuck opened (p :: mid) st') (fun _ st' => Fine deps st')
      (loadNew F site R.traced (fun d => loadModule F site R.traced fuel d false) p auto) st := by
  have hsub : ∀ d, Respects Later (loadModule F site R.traced fuel d false) := fun d => later_loadModule fuel d false
  have hexports : ∀ record names, Respects Later
      (buildExports R.traced (fun d => loadModule F site R.traced fuel d false) p record names) :=
    fun record names => carried_later.buildExports hsub p record names
  have hrun : ∀ act record names, Respects Later (onVm act >>= fun _ =>
      buildExports R.traced (fun d => loadModule F site R.traced fuel d false) p record names) :=
    fun act record names => carried_later.bind (carried_later.onVm _) fun _ => hexports record names
  have hrest : ∀ code (metadata : ModuleMetadata Ast) auto, Respects Later (do
      resolveImportBindings R.traced (fun d => loadModule F site R.traced fuel d false) p metadata.importSpecs
      onVm (R.traced.execute p code auto metadata.externs)
      buildExports R.traced (fun d => loadModule F site R.traced fuel d false) p metadata.toMetadataRecord
        metadata.exports) := fun code metadata auto => carried_later.rest hsub p code metadata auto
  unfold loadNew at hreads ⊢
  refine (h.quiet (building_quiet.buildMetadata _ p) (later_buildMetadata _ p)).bind fun metadata st₁ h₁ hu₁ => ?_
  have hm₁ : p ∉ st₁.modules := by
    have hq : Quiet st (last (buildMetadata F site (site.paths.length + 1) p) st) := building_quiet.buildMetadata _ p st
    rw [last_of_ok h₁] at hq
    rw [hq.1]
    exact hp
  obtain ⟨hr₁, hreads⟩ := hreads.first (fun md => carried_later.bind (later_loadOrCompile p md) fun code =>
    carried_later.bind (later_register p) fun _ => hrest code md _) h₁
  obtain ⟨himp, hre⟩ := hr₁ p metadata (lookup_of_buildMetadata h₁)
  refine (hu₁.quiet (loadOrCompile_quiet p metadata) (later_loadOrCompile p metadata)).bind fun code st₂ h₂ hu₂ => ?_
  have hm₂ : p ∉ st₂.modules := by
    have hq : Quiet st₁ (last (loadOrCompile F site p metadata) st₁) := loadOrCompile_quiet p metadata st₁
    rw [last_of_ok h₂] at hq
    rw [hq.1]
    exact hm₁
  obtain ⟨-, hreads⟩ := hreads.first (fun code => carried_later.bind (later_register p) fun _ => hrest code metadata _) h₂
  rw [last_bind_ok (register_apply p st₂)] at hreads
  rw [Sat, bind_ok (register_apply p st₂)]
  have hu₃ := hu₂.register hm₂
  have hresolve := hinside fuel p metadata.importSpecs _ himp hu₃ (hreads.part fun _ => hrun _ _ _)
  refine hresolve.bind fun _ st₄ h₄ hu₄ => ?_
  have hm₄ : p ∈ st₄.modules := by
    have hgrows : ∀ d, Grows (loadModule F site R.traced fuel d false) := fun d => grows_loadModule fuel d false
    have hg := carried_modules.resolveImportBindings (R := R.traced) hgrows p metadata.importSpecs
      { st₂ with modules := p :: st₂.modules }
    rw [last_of_ok h₄] at hg
    exact hg.subset List.mem_cons_self
  have hdone : ∀ d ∈ deps p, d ∈ mid := by
    intro d hd
    rw [hdeps] at hd
    rcases List.mem_append.mp hd with hd | hd
    · exact himports d hd
    · exact hreexports d hd
  have hread₄ : ∃ metadata, st₄.metadata.lookup p = some metadata := by
    have hl₂ : Later st₁ (last (loadOrCompile F site p metadata) st₁) := later_loadOrCompile p metadata st₁
    have hl₄ : Later _ (last (resolveImportBindings R.traced (fun d => loadModule F site R.traced fuel d false) p
      metadata.importSpecs) _) := carried_later.resolveImportBindings hsub p metadata.importSpecs
        { st₂ with modules := p :: st₂.modules }
    rw [last_of_ok h₂] at hl₂
    rw [last_of_ok h₄] at hl₄
    exact ⟨metadata, hl₄.memo p metadata (hl₂.memo p metadata (lookup_of_buildMetadata h₁))⟩
  refine (onVm_executed hu₄ hm₄ hopened hread₄ hdone _).bind fun _ st₅ _ hu₅ => ?_
  apply buildExports_handed _ _ hu₅
  intro d hd
  rw [hre] at hd
  exact List.mem_cons_of_mem _ (hreexports d hd)

theorem loadModule_inOrder {opened left mid : List Path} {p : Path} (fuel : Nat) (auto : Bool)
    {st : Session Ast Code X} (hdeps : ∀ q, deps q = imports q ++ reexports q)
    (h : Underway deps stuck opened left st) (hleft : p ∉ left) (hopened : p ∉ opened) (hstuck : ¬ stuck p)
    (hinside : ImportsDone F site R deps imports reexports stuck (p :: opened) left (imports p) mid)
    (himports : ∀ d ∈ imports p, d ∈ mid) (hreexports : ∀ d ∈ reexports p, d ∈ mid)
    (hreads : Reads imports reexports (last (loadModule F site R.traced fuel p auto) st)) :
    Sat (fun _ st' => Underway deps stuck opened (p :: mid) st') (fun _ st' => Fine deps st')
      (loadModule F site R.traced fuel p auto) st := by
  have hp : p ∉ st.modules := by
    intro hm
    rcases h.known p hm with hm | hm | hm
    · exact hopened hm
    · exact hleft hm
    · exact hstuck hm
  cases fuel with
  | zero => exact h.toFine
  | succ fuel =>
      unfold Sat last at *
      by_cases hl : p ∈ st.loadingStack
      · rw [loadModule_circular hp hl]
        exact h.toFine
      rw [loadModule_new hp hl] at hreads ⊢
      have hpushed : Underway deps stuck opened left { st with loadingStack := p :: st.loadingStack } :=
        h.congr rfl rfl fun _ _ hq => hq
      have hnew := loadNew_inOrder fuel auto hdeps hpushed hp hopened hinside himports hreexports
      unfold Sat last at hnew
      unfold onLoadingStack at hreads ⊢
      cases hr : loadNew F site R.traced (fun d => loadModule F site R.traced fuel d false) p auto
          { st with loadingStack := p :: st.loadingStack } with
      | ok a st' =>
          rw [hr] at hreads hnew
          exact (hnew hreads).congr rfl rfl fun _ _ hq => hq
      | error e st' =>
          rw [hr] at hreads hnew
          have hfine := hnew hreads
          exact ⟨hfine.sound, hfine.registered, hfine.read⟩

theorem ImportsDone.next {opened mid left' : List Path} {fuel : Nat} {p : Path} {spec : ImportSpec}
    {specs : List ImportSpec} {st : Session Ast Code X}
    (hrest : ImportsDone F site R deps imports reexports stuck opened mid (specs.map (·.resolvedPath)) left')
    (hload : Reads imports reexports (last (loadModule F site R.traced fuel spec.resolvedPath false) st) →
      Sat (fun _ st' => Underway deps stuck opened mid st') (fun _ st' => Fine deps st')
        (loadModule F site R.traced fuel spec.resolvedPath false) st)
    (hmid : spec.resolvedPath ∈ mid)
    (hreads : Reads imports reexports (last (resolveImportBindings R.traced
      (fun d => loadModule F site R.traced fuel d false) p (spec :: specs)) st)) :
    Sat (fun _ st' => Underway deps stuck opened left' st') (fun _ st' => Fine deps st')
      (resolveImportBindings R.traced (fun d => loadModule F site R.traced fuel d false) p (spec :: specs)) st := by
  have hlater : Respects Later
      (resolveImportBindings R.traced (fun d => loadModule F site R.traced fuel d false) p specs) :=
    carried_later.resolveImportBindings (fun d => later_loadModule fuel d false) p specs
  have htail : ∀ _ : PUnit, Respects Later (onVm (R.traced.bindImport p spec) >>= fun _ =>
      resolveImportBindings R.traced (fun d => loadModule F site R.traced fuel d false) p specs) :=
    fun _ => carried_later.bind (carried_later.onVm _) fun _ => hlater
  refine (hload (hreads.part htail)).bind fun _ st₁ h₁ hu₁ => ?_
  have hreads₁ := (hreads.first htail h₁).2
  have hhand : Sat (fun _ st' => Underway deps stuck opened mid st') (fun _ st' => Fine deps st')
      (onVm (R.traced.bindImport p spec)) st₁ := by
    apply onVm_handed (d := some spec.resolvedPath) hu₁
    intro q hq
    cases hq
    exact hmid
  refine hhand.bind fun _ st₂ h₂ hu₂ => ?_
  exact hrest fuel p specs st₂ rfl hu₂ (hreads₁.first (fun _ => hlater) h₂).2

theorem InOrder.importsDone {opened left ps left' : List Path} (hdeps : ∀ q, deps q = imports q ++ reexports q)
    (h : InOrder imports reexports stuck opened left ps left') :
    ImportsDone F site R deps imports reexports stuck opened left ps left' := by
  induction h with
  | nil =>
      intro fuel p specs st hspecs hu _
      rw [List.map_eq_nil_iff.mp hspecs]
      exact hu
  | seen hq hrest ih =>
      intro fuel p specs st hspecs hu hreads
      obtain ⟨spec, specs, rfl, rfl, rfl⟩ := List.map_eq_cons_iff.mp hspecs
      refine ih.next (fun _ => ?_) hq hreads
      cases fuel with
      | zero => exact hu.toFine
      | succ fuel =>
          unfold Sat
          rw [loadModule_loaded (hu.present _ hq)]
          exact hu
  | visit hleft hopened hstuck hin hre hrest ihin ihrest =>
      intro fuel p specs st hspecs hu hreads
      obtain ⟨spec, specs, rfl, rfl, rfl⟩ := List.map_eq_cons_iff.mp hspecs
      exact ihrest.next
        (loadModule_inOrder fuel false hdeps hu hleft hopened hstuck ihin (fun d hd => hin.left_of_mem d hd) hre)
        List.mem_cons_self hreads

end Order

/-! ### What a load reads -/

section Reading

variable {F : Front Ast Code} {site : Site Ast} {R : Runtime Code X} {before : LoaderState Ast Code X}

/-- The loader has kept only metadata that the load may read. -/
structure Honest (F : Front Ast Code) (site : Site Ast) (before st : LoaderState Ast Code X) : Prop where
  drift : ∀ start, before.store = some start → ∃ store, st.store = some store ∧ Drift start st.recompiled store
  noStore : before.store = none → st.store = none
  kept : ∀ p metadata, before.metadata.lookup p = some metadata → st.metadata.lookup p = some metadata
  memo : ∀ p metadata, st.metadata.lookup p = some metadata → F.MayRead site before p metadata.toMetadataRecord

theorem honest_start (before : LoaderState Ast Code X) : Honest F site before before where
  drift start h := ⟨start, h, fun _ _ => rfl, fun _ _ => rfl⟩
  noStore h := h
  kept _ _ h := h
  memo p metadata h := by
    unfold Front.MayRead
    rw [h]

theorem Honest.keep {st : LoaderState Ast Code X} (h : Honest F site before st) {p : Path}
    (hp : before.metadata.lookup p = none) {metadata : ModuleMetadata Ast}
    (hmay : F.MayRead site before p metadata.toMetadataRecord) :
    Honest F site before { st with metadata := (p, metadata) :: st.metadata } := by
  refine ⟨h.drift, h.noStore, fun q md hq => ?_, fun q md hq => ?_⟩
  · have hqp : q ≠ p := by
      rintro rfl
      rw [hp] at hq
      cases hq
    rw [List.lookup_cons, show (q == p) = false by simpa using hqp]
    exact h.kept q md hq
  · rw [List.lookup_cons] at hq
    by_cases hqp : q = p
    · subst hqp
      rw [beq_self_eq_true] at hq
      cases hq
      exact hmay
    · rw [show (q == p) = false by simpa using hqp] at hq
      exact h.memo q md hq

theorem Honest.mayRead_cached {st : LoaderState Ast Code X} (h : Honest F site before st) {p : Path}
    (hp : before.metadata.lookup p = none) {entry : CacheEntry Code} (hu : F.usable site st p = some entry) :
    F.MayRead site before p entry.metadata := by
  unfold Front.MayRead
  rw [hp]
  cases hstore : before.store with
  | none =>
      rw [usable_cold (h.noStore hstore)] at hu
      cases hu
  | some start =>
      obtain ⟨store, hst, hdrift⟩ := h.drift start hstore
      exact .inl ⟨start, entry, rfl, startEntry_of_usable hst hdrift hu, rfl⟩

theorem building_honest : Building F site (fun st st' => Honest F site before st → Honest F site before st')
    fun p st st' => before.metadata.lookup p = none → Honest F site before st → Honest F site before st' where
  refl _ h := h
  trans h h' hst := h' (h hst)
  innerTrans h h' hp hst := h' hp (h hp hst)
  inside h _ := h
  cached hu hp h := h.keep hp (h.mayRead_cached hp hu)
  parsed {p _ pr} hpr names _ hp h := by
    refine h.keep hp ?_
    unfold Front.MayRead
    rw [hp]
    exact .inr ⟨pr, names, hpr, rfl⟩
  leave {p st st'} hl _ h hst := by
    have hp : before.metadata.lookup p = none := by
      cases hq : before.metadata.lookup p with
      | none => rfl
      | some metadata =>
          rw [hst.kept p metadata hq] at hl
          cases hl
    have hin := h hp ⟨hst.drift, hst.noStore, hst.kept, hst.memo⟩
    exact ⟨hin.drift, hin.noStore, hin.kept, hin.memo⟩

theorem carried_honest : Carried fun st st' => Honest F site before st → Honest F site before st' where
  refl _ h := h
  trans h h' hst := h' (h hst)
  vm _ _ h := ⟨h.drift, h.noStore, h.kept, h.memo⟩

theorem honest_loadModule (fuel : Nat) (p : Path) (auto : Bool) {st : LoaderState Ast Code X}
    (h : Honest F site before st) : Honest F site before (last (loadModule F site R fuel p auto) st) := by
  have hcompile : ∀ p metadata, Respects (fun st st' => Honest F site before st → Honest F site before st')
      (loadOrCompile F site p metadata) := by
    refine respects_loadOrCompile (fun _ h => h) fun q code record st hst => ?_
    obtain ⟨store, recompiled, heq, -, hnone⟩ := recordCompiled_cases F site q code record st
    refine ⟨fun start hstart => ?_, fun hstore => ?_, ?_, ?_⟩
    · obtain ⟨store, hs, hd⟩ := hst.drift start hstart
      exact drift_recordCompiled F site q hs hd code record
    · rw [heq]
      exact hnone (hst.noStore hstore)
    · rw [heq]
      exact hst.kept
    · rw [heq]
      exact hst.memo
  have hstack : ∀ {p : Path} {c : Loader Ast Code X PUnit},
      Respects (fun st st' => Honest F site before st → Honest F site before st') c →
      Respects (fun st st' => Honest F site before st → Honest F site before st') (onLoadingStack p c) := by
    intro p c hc st hst
    have hin := hc { st with loadingStack := p :: st.loadingStack } ⟨hst.drift, hst.noStore, hst.kept, hst.memo⟩
    unfold last at hin ⊢
    unfold onLoadingStack
    cases hr : c { st with loadingStack := p :: st.loadingStack } with
    | ok a st' => rw [hr] at hin; exact ⟨hin.drift, hin.noStore, hin.kept, hin.memo⟩
    | error e st' => rw [hr] at hin; exact ⟨hin.drift, hin.noStore, hin.kept, hin.memo⟩
  exact carried_honest.loadModule (building_honest.buildMetadata _) hcompile
    (fun _ _ hst => ⟨hst.drift, hst.noStore, hst.kept, hst.memo⟩) hstack fuel p auto st h

theorem Honest.reading {st : LoaderState Ast Code X} (h : Honest F site before st) :
    ∃ reads, F.Reading site before reads ∧
      ∀ p metadata, st.metadata.lookup p = some metadata → reads p = some metadata.toMetadataRecord := by
  classical
  let reads : Path → Option MetadataRecord := fun p =>
    match st.metadata.lookup p with
    | some metadata => some metadata.toMetadataRecord
    | none => if hp : ∃ record, F.MayRead site before p record then some hp.choose else none
  refine ⟨reads, fun p => ?_, fun p metadata hp => by simp only [reads, hp]⟩
  cases hl : st.metadata.lookup p with
  | some metadata =>
      simp only [reads, hl]
      exact h.memo p metadata hl
  | none =>
      by_cases hp : ∃ record, F.MayRead site before p record
      · simp only [reads, hl, dif_pos hp]
        exact hp.choose_spec
      · simp only [reads, hl, dif_neg hp]
        exact not_exists.mp hp

end Reading

/-! ### Cycles -/

section Cycles

variable {F : Front Ast Code} {site : Site Ast} {before : LoaderState Ast Code X}

section Collect

variable {G : Path → Prop} {K : Path → List Name → Prop} {J : LoaderState Ast Code X → Prop}
  {E : LoadError → LoaderState Ast Code X → Prop} {f : Path → Loader Ast Code X (List Name)}

theorem bindImports_collect {specs : List ImportSpec}
    (hf : ∀ spec ∈ specs, ∀ st, J st → Sat (fun exports st' => (G spec.resolvedPath ∧ K spec.resolvedPath exports) ∧
      J st') E (f spec.resolvedPath) st)
    (hbound : ∀ spec ∈ specs, ∀ exports, K spec.resolvedPath exports → ∃ names, spec.bound F.builtin exports = .ok names)
    (acc : List Name) {st : LoaderState Ast Code X} (h : J st) :
    Sat (fun _ st' => (∀ spec ∈ specs, G spec.resolvedPath) ∧ J st') E (bindImports F.builtin f specs acc) st := by
  induction specs generalizing acc st with
  | nil => exact ⟨fun _ hs => (nomatch hs), h⟩
  | cons spec specs ih =>
      refine (hf spec List.mem_cons_self st h).bind fun exports st₁ _ h₁ => ?_
      obtain ⟨names, hnames⟩ := hbound spec List.mem_cons_self exports h₁.1.2
      rw [hnames]
      refine (ih (fun s hs => hf s (List.mem_cons_of_mem _ hs)) (fun s hs => hbound s (List.mem_cons_of_mem _ hs))
        (acc ++ names) h₁.2).mono (fun _ st' h' => ⟨?_, h'.2⟩) fun _ _ he => he
      exact List.forall_mem_cons.mpr ⟨h₁.1.1, h'.1⟩

theorem checkReexports_collect {specs : List ExportFromSpec}
    (hf : ∀ spec ∈ specs, ∀ st, J st → Sat (fun exports st' => (G spec.resolvedPath ∧ K spec.resolvedPath exports) ∧
      J st') E (f spec.resolvedPath) st)
    (hcheck : ∀ spec ∈ specs, ∀ exports, K spec.resolvedPath exports → spec.check exports = .ok ())
    {st : LoaderState Ast Code X} (h : J st) :
    Sat (fun _ st' => (∀ spec ∈ specs, G spec.resolvedPath) ∧ J st') E (checkReexports f specs) st := by
  induction specs generalizing st with
  | nil => exact ⟨fun _ hs => (nomatch hs), h⟩
  | cons spec specs ih =>
      refine (hf spec List.mem_cons_self st h).bind fun exports st₁ _ h₁ => ?_
      rw [hcheck spec List.mem_cons_self exports h₁.1.2]
      refine (ih (fun s hs => hf s (List.mem_cons_of_mem _ hs)) (fun s hs => hcheck s (List.mem_cons_of_mem _ hs))
        h₁.2).mono (fun _ st' h' => ⟨?_, h'.2⟩) fun _ _ he => he
      exact List.forall_mem_cons.mpr ⟨h₁.1.1, h'.1⟩

end Collect

theorem Front.LeadsToCycle.dependency {p : Path} (h : F.LeadsToCycle site p) :
    ∃ d ∈ F.importsOf site p, F.LeadsToCycle site d := by
  obtain ⟨q, d, hpq, hd, hdq⟩ := h
  cases hpq with
  | refl _ => exact ⟨d, hd, p, d, hdq, hd, hdq⟩
  | @step _ e _ _ he heq => exact ⟨e, he, q, d, heq, hd, hdq⟩

/-- While metadata is built, the loader keeps that of modules without a cycle. -/
structure Acyclic (F : Front Ast Code) (site : Site Ast) (before st : LoaderState Ast Code X) : Prop where
  usable : ∀ p, F.usable site st p = F.usable site before p
  memo : ∀ p metadata, st.metadata.lookup p = some metadata →
    ¬ F.LeadsToCycle site p ∧ F.KnownExports site before p metadata.exports

theorem Acyclic.keep {st : LoaderState Ast Code X} (h : Acyclic F site before st) {p : Path}
    {metadata : ModuleMetadata Ast} (hp : ¬ F.LeadsToCycle site p)
    (hk : F.KnownExports site before p metadata.exports) (stack : List Path) :
    Acyclic F site before { st with metadata := (p, metadata) :: st.metadata, metadataStack := stack } := by
  refine ⟨h.usable, fun q md hq => ?_⟩
  rw [List.lookup_cons] at hq
  by_cases hqp : q = p
  · subst hqp
    rw [beq_self_eq_true] at hq
    cases hq
    exact ⟨hp, hk⟩
  · rw [show (q == p) = false by simpa using hqp] at hq
    exact h.memo q md hq

/-- Building the metadata of a module that leads to a cycle ends in the circular import error. -/
theorem buildMetadata_cyclic (hcold : ∀ p, F.LeadsToCycle site p → F.Cold site before p) (fuel : Nat) {p : Path}
    {st : LoaderState Ast Code X} (hfaultless : ∀ q, Reaches (F.importsOf site) p q → F.Faultless site before q)
    (hroom : room site.paths st.metadataStack < fuel) (h : Acyclic F site before st) :
    Sat (fun metadata st' => (¬ F.LeadsToCycle site p ∧ F.KnownExports site before p metadata.exports) ∧
        Acyclic F site before st' ∧ st'.metadataStack = st.metadataStack)
      (fun e _ => ∃ cycle, e = .circularImport cycle) (buildMetadata F site fuel p) st := by
  induction fuel generalizing p st with
  | zero => omega
  | succ fuel ih =>
      unfold Sat
      cases hl : st.metadata.lookup p with
      | some metadata =>
          rw [buildMetadata_memo hl]
          exact ⟨h.memo p metadata hl, h, rfl⟩
      | none =>
          by_cases hp : p ∈ st.metadataStack
          · rw [buildMetadata_circular hl hp]
            exact ⟨_, rfl⟩
          cases hu : F.usable site st p with
          | some entry =>
              rw [buildMetadata_cached hl hp hu]
              rw [h.usable p] at hu
              have hacyclic : ¬ F.LeadsToCycle site p := by
                intro hc
                rw [(hcold p hc).notCached] at hu
                cases hu
              have hk : F.KnownExports site before p entry.metadata.exports := .inr (.inl ⟨entry, hu, rfl⟩)
              exact ⟨⟨hacyclic, hk⟩, h.keep hacyclic hk _, List.erase_cons_head _ _⟩
          | none =>
              rw [buildMetadata_parsed hl hp hu]
              obtain ⟨pr, hpr, himports, hreexports⟩ := hfaultless p (Reaches.refl p)
              have hparsed := Front.prepare_parsed hpr
              have hlt := room_cons_lt (Front.mem_paths_of_parsed hparsed) hp
              have hdeps : F.importsOf site p = pr.dependencies := by rw [Front.importsOf, hpr]
              have hsub : ∀ d ∈ pr.dependencies, ∀ s, (Acyclic F site before s ∧
                    s.metadataStack = p :: st.metadataStack) →
                  Sat (fun exports s' => (¬ F.LeadsToCycle site d ∧ F.KnownExports site before d exports) ∧
                      Acyclic F site before s' ∧ s'.metadataStack = p :: st.metadataStack)
                    (fun e _ => ∃ cycle, e = .circularImport cycle)
                    (do
                      let metadata ← buildMetadata F site fuel d
                      pure metadata.exports) s := by
                intro d hd s hs
                rw [← hdeps] at hd
                refine (ih (fun q hq => hfaultless q ((Reaches.edge hd).trans hq)) ?_ hs.1).bind
                  fun metadata s₁ _ h₁ => ⟨h₁.1, h₁.2.1, h₁.2.2.trans hs.2⟩
                rw [hs.2]
                omega
              have hassemble : Sat (fun record s' => (¬ F.LeadsToCycle site p ∧
                      F.KnownExports site before p record.exports) ∧
                    Acyclic F site before s' ∧ s'.metadataStack = p :: st.metadataStack)
                  (fun e _ => ∃ cycle, e = .circularImport cycle)
                  (pr.assemble F.builtin fun d => do
                    let metadata ← buildMetadata F site fuel d
                    pure metadata.exports)
                  { st with metadataStack := p :: st.metadataStack } := by
                have hstart : Acyclic F site before { st with metadataStack := p :: st.metadataStack } :=
                  ⟨h.usable, h.memo⟩
                unfold Prepared.assemble
                refine (bindImports_collect (G := fun d => ¬ F.LeadsToCycle site d)
                  (J := fun s => Acyclic F site before s ∧ s.metadataStack = p :: st.metadataStack)
                  (fun spec hs => hsub _ (List.mem_append_left _ (List.mem_map_of_mem hs))) himports []
                  ⟨hstart, rfl⟩).bind fun names s₁ _ h₁ => ?_
                refine (checkReexports_collect (G := fun d => ¬ F.LeadsToCycle site d)
                  (J := fun s => Acyclic F site before s ∧ s.metadataStack = p :: st.metadataStack)
                  (fun spec hs => hsub _ (List.mem_append_right _ (List.mem_map_of_mem hs))) hreexports
                  h₁.2).bind fun _ s₂ _ h₂ => ?_
                refine ⟨⟨fun hc => ?_, .inr (.inr ⟨pr.parsed, hparsed, rfl⟩)⟩, h₂.2⟩
                -- one of the dependencies would lead to the cycle as well
                obtain ⟨d, hd, hcycle⟩ := hc.dependency
                rw [hdeps] at hd
                rcases List.mem_append.mp hd with hd | hd
                · obtain ⟨spec, hs, rfl⟩ := List.mem_map.mp hd
                  exact h₁.1 spec hs hcycle
                · obtain ⟨spec, hs, rfl⟩ := List.mem_map.mp hd
                  exact h₂.1 spec hs hcycle
              have hinner : Sat (fun metadata s' => (¬ F.LeadsToCycle site p ∧
                      F.KnownExports site before p metadata.exports) ∧
                    Acyclic F site before s' ∧ s'.metadataStack = p :: st.metadataStack)
                  (fun e _ => ∃ cycle, e = .circularImport cycle)
                  (parsedMetadata F site (buildMetadata F site fuel) p)
                  { st with metadataStack := p :: st.metadataStack } := by
                unfold parsedMetadata
                rw [hpr]
                exact hassemble.bind fun record s' _ hs' => ⟨hs'.1, hs'.2.1.keep hs'.1.1 hs'.1.2 _, hs'.2.2⟩
              unfold Sat at hinner
              unfold onMetadataStack
              cases hc : parsedMetadata F site (buildMetadata F site fuel) p
                  { st with metadataStack := p :: st.metadataStack } with
              | ok metadata s' =>
                  rw [hc] at hinner
                  obtain ⟨hknown, hacyclic, hstack⟩ := hinner
                  refine ⟨hknown, ⟨hacyclic.usable, hacyclic.memo⟩, ?_⟩
                  simp only [hstack]
                  exact List.erase_cons_head _ _
              | error e s' =>
                  rw [hc] at hinner
                  exact hinner

end Cycles

/-! ### Sessions -/

section Logs

theorem Sound.congr {deps deps' : Path → List Path} {log : List InitEvent} (h : Sound deps log)
    (hd : ∀ p, .started p ∈ log → deps' p = deps p) : Sound deps' log := by
  induction log with
  | nil => trivial
  | cons event earlier ih =>
      have hearlier : Sound deps earlier → Sound deps' earlier :=
        fun he => ih he fun p hp => hd p (List.mem_cons_of_mem _ hp)
      cases event with
      | started p =>
          refine ⟨⟨h.1.1, fun d hdep => h.1.2 d ?_⟩, hearlier h.2⟩
          rw [← hd p List.mem_cons_self]
          exact hdep
      | completed p => exact ⟨h.1, hearlier h.2⟩
      | handed p taker => exact ⟨h.1, hearlier h.2⟩

theorem Sound.started_of_completed {deps : Path → List Path} {log : List InitEvent} (h : Sound deps log) {p : Path}
    (hp : .completed p ∈ log) : .started p ∈ log := by
  induction log with
  | nil => cases hp
  | cons event earlier ih =>
      have hearlier : Sound deps earlier := by
        cases event with
        | started q => exact h.2
        | completed q => exact h.2
        | handed q taker => exact h.2
      rcases List.mem_cons.mp hp with rfl | hp
      · exact List.mem_cons_of_mem _ h.1
      · exact List.mem_cons_of_mem _ (ih hearlier hp)

end Logs

namespace Session

variable {F : Front Ast Code} {R : Runtime Code X} {st : Session Ast Code X} {c : LoadCall Ast Code}

theorem mem_completedModules {p : Path} : p ∈ st.completedModules ↔ .completed p ∈ st.log := by
  unfold completedModules
  rw [List.mem_filterMap]
  constructor
  · rintro ⟨event, he, hp⟩
    cases event with
    | completed q => cases hp; exact he
    | started q => cases hp
    | handed q taker => cases hp
  · intro hp
    exact ⟨.completed p, hp, rfl⟩

theorem deps_of_lookup {p : Path} {metadata : ModuleMetadata Ast} (h : st.metadata.lookup p = some metadata) :
    st.deps p = metadata.imports ++ metadata.reexports := by
  unfold deps imports reexports
  rw [h]

/-- Between loads, nothing is under construction and the log is sound for what the loader has read. -/
structure Settled (st : Session Ast Code X) : Prop where
  fine : Fine st.deps st
  idle : st.metadataStack = []

theorem settled_start : Settled (start R : Session Ast Code X) where
  fine := ⟨trivial, fun _ hp => (nomatch hp), fun _ hp => nomatch hp⟩
  idle := rfl

theorem Settled.quiet {st' : Session Ast Code X} (h : Settled st) (hq : st'.modules = st.modules ∧ st'.vm = st.vm)
    (hmemo : ∀ q metadata, st.metadata.lookup q = some metadata → st'.metadata.lookup q = some metadata)
    (hidle : st'.metadataStack = st.metadataStack) : Settled st' := by
  have hlog : st'.log = st.log := congrArg Prod.snd hq.2
  have hread : ∀ p, .started p ∈ st'.log → ∃ metadata, st.metadata.lookup p = some metadata := by
    intro p hp
    rw [hlog] at hp
    exact h.fine.read p hp
  refine ⟨⟨?_, ?_, ?_⟩, hidle.trans h.idle⟩
  · rw [hlog]
    apply h.fine.sound.congr
    intro p hp
    rw [← hlog] at hp
    obtain ⟨metadata, hl⟩ := hread p hp
    rw [deps_of_lookup hl, deps_of_lookup (hmemo p metadata hl)]
  · rw [hlog, hq.1]
    exact h.fine.registered
  · intro p hp
    obtain ⟨metadata, hl⟩ := hread p hp
    exact ⟨metadata, hmemo p metadata hl⟩

theorem load_cyclic (h : Settled st) (hmeets : c.Meets F st) (hcycle : F.LeadsToCycle c.site c.site.root) :
    ∃ cycle st', load F R st c = .error (.circularImport cycle) st' ∧ Settled st' := by
  obtain ⟨hcold, hfaultless⟩ := hmeets.1 hcycle
  have hroot := hcold c.site.root hcycle
  have hload : load F R st c = match loadModule F c.site R.traced (c.site.paths.length + 1) c.site.root
      c.site.autoRunMain { st with store := c.store } with
    | .ok _ st' => .ok () (deliver c.site.root st')
    | .error e st' => .error e st' := by
    unfold load
    rw [if_neg]
    rintro ⟨-, hm | hm⟩
    · exact hroot.notLoaded hm
    · have hnone : st.metadata.lookup c.site.root = none := hroot.notRead
      rw [hnone] at hm
      cases hm
  rw [hload]
  by_cases hl : c.site.root ∈ st.loadingStack
  · rw [loadModule_circular hroot.notLoaded hl]
    exact ⟨_, _, rfl, h.quiet ⟨rfl, rfl⟩ (fun _ _ hq => hq) rfl⟩
  rw [loadModule_new hroot.notLoaded hl]
  have hacyclic : Acyclic F c.site { st with store := c.store }
      { st with store := c.store, loadingStack := c.site.root :: st.loadingStack } := by
    refine ⟨fun _ => rfl, fun p metadata hp => ⟨fun hc => ?_, .inl ⟨metadata, hp, rfl⟩⟩⟩
    have hnone : st.metadata.lookup p = none := (hcold p hc).notRead
    have hsome : st.metadata.lookup p = some metadata := hp
    rw [hnone] at hsome
    cases hsome
  have hroom := room_le_length c.site.paths []
  have hmetadata := buildMetadata_cyclic hcold (c.site.paths.length + 1) hfaultless
    (by simp only [h.idle]; omega) hacyclic
  have hquiet : Quiet _ (last (buildMetadata F c.site (c.site.paths.length + 1) c.site.root) _) :=
    building_quiet.buildMetadata _ c.site.root
      { st with store := c.store, loadingStack := c.site.root :: st.loadingStack }
  have hlater : Later _ (last (buildMetadata F c.site (c.site.paths.length + 1) c.site.root) _) :=
    later_buildMetadata _ c.site.root
      { st with store := c.store, loadingStack := c.site.root :: st.loadingStack }
  unfold Sat at hmetadata
  unfold last at hquiet hlater
  cases hr : buildMetadata F c.site (c.site.paths.length + 1) c.site.root
      ({ st with store := c.store, loadingStack := c.site.root :: st.loadingStack } : Session Ast Code X) with
  | ok metadata st' =>
      rw [hr] at hmetadata
      exact absurd hcycle hmetadata.1.1
  | error e st' =>
      rw [hr] at hmetadata hquiet hlater
      obtain ⟨cycle, rfl⟩ := hmetadata
      unfold onLoadingStack loadNew
      rw [bind_error hr]
      exact ⟨cycle, _, rfl, h.quiet ⟨hquiet.1, hquiet.2⟩ hlater.memo hlater.metadataStack⟩

/-- The log of a settled loader is sound for every way to read the modules that agrees with the loader's. -/
theorem Settled.underway (h : Settled st) (deps : Path → List Path) (store : Option (Store Code))
    (hdeps : ∀ p metadata, st.metadata.lookup p = some metadata → deps p = metadata.imports ++ metadata.reexports) :
    Underway deps st.Stuck [] st.completedModules ({ st with store := store } : Session Ast Code X) where
  sound := by
    refine h.fine.sound.congr fun p hp => ?_
    obtain ⟨metadata, hl⟩ := h.fine.read p hp
    rw [hdeps p metadata hl, deps_of_lookup hl]
  registered := h.fine.registered
  read := h.fine.read
  known p hp := by
    by_cases hc : .completed p ∈ st.log
    · exact .inr (.inl (mem_completedModules.mpr hc))
    · exact .inr (.inr ⟨hp, hc⟩)
  waiting _ hp := nomatch hp
  present p hp := h.fine.registered p (h.fine.sound.started_of_completed (mem_completedModules.mp hp))
  completed p hp := mem_completedModules.mp hp

/-- A state whose log is sound for a way to read the modules that agrees with the loader's is settled. -/
theorem settled_of_fine {deps : Path → List Path} (h : Fine deps st) (hidle : st.metadataStack = [])
    (hdeps : ∀ p metadata, st.metadata.lookup p = some metadata → deps p = metadata.imports ++ metadata.reexports) :
    Settled st := by
  refine ⟨⟨h.sound.congr fun p hp => ?_, h.registered, h.read⟩, hidle⟩
  obtain ⟨metadata, hl⟩ := h.read p hp
  rw [hdeps p metadata hl, deps_of_lookup hl]

theorem loadModule_root {imports reexports deps : Path → List Path} {stuck : Path → Prop} (site : Site Ast)
    {left left' : List Path} {p : Path} (fuel : Nat) (auto : Bool) (hdeps : ∀ q, deps q = imports q ++ reexports q)
    (h : Underway deps stuck [] left st) (horder : InOrder imports reexports stuck [] left [p] left')
    (hreads : Reads imports reexports (last (loadModule F site R.traced fuel p auto) st)) :
    Sat (fun _ st' => ∃ left', Underway deps stuck [] left' st' ∧ p ∈ left') (fun _ st' => Fine deps st')
      (loadModule F site R.traced fuel p auto) st := by
  cases horder with
  | seen hp _ =>
      cases fuel with
      | zero => exact h.toFine
      | succ fuel =>
          unfold Sat
          rw [loadModule_loaded (h.present p hp)]
          exact ⟨left, h, hp⟩
  | visit hleft hopened hstuck hin hre _ =>
      refine (loadModule_inOrder fuel auto hdeps h hleft hopened hstuck (hin.importsDone hdeps)
        (fun d hd => hin.left_of_mem d hd) hre hreads).mono (fun _ st' h' => ?_) fun _ _ he => he
      exact ⟨_, h', List.mem_cons_self⟩

theorem load_inOrder (h : Settled st) (hmeets : c.Meets F st) (hcycle : ¬ F.LeadsToCycle c.site c.site.root) :
    Settled (next F R st c) := by
  unfold next load
  by_cases hrefused : c.refused ∧ (c.site.root ∈ st.modules ∨ (st.metadata.lookup c.site.root).isSome)
  · rw [if_pos hrefused]
    exact h
  rw [if_neg hrefused]
  have hstart : Honest F c.site { st with store := c.store } { st with store := c.store } := honest_start _
  have hhonest := honest_loadModule (R := R.traced) (c.site.paths.length + 1) c.site.root c.site.autoRunMain hstart
  have hlater : Later _ (last (loadModule F c.site R.traced (c.site.paths.length + 1) c.site.root c.site.autoRunMain)
    _) := later_loadModule _ c.site.root c.site.autoRunMain { st with store := c.store }
  obtain ⟨reads, hreading, hagree⟩ := hhonest.reading
  obtain ⟨left, horder⟩ := hmeets.2 hcycle reads hreading
  have hdeps : ∀ p metadata, (last (loadModule F c.site R.traced (c.site.paths.length + 1) c.site.root
      c.site.autoRunMain) { st with store := c.store }).metadata.lookup p = some metadata →
      importsRead reads p = metadata.imports ∧ reexportsRead reads p = metadata.reexports := by
    intro p metadata hp
    unfold importsRead reexportsRead
    rw [hagree p metadata hp]
    exact ⟨rfl, rfl⟩
  have hunderway := h.underway (fun p => importsRead reads p ++ reexportsRead reads p) c.store fun p metadata hp => by
    obtain ⟨himports, hreexports⟩ := hdeps p metadata (hlater.memo p metadata hp)
    rw [himports, hreexports]
  have hloaded := loadModule_root (F := F) (R := R) c.site (c.site.paths.length + 1) c.site.autoRunMain
    (fun _ => rfl) hunderway horder fun p metadata hp =>
      ⟨(hdeps p metadata hp).1.symm, (hdeps p metadata hp).2.symm⟩
  have hidle := hlater.metadataStack.trans h.idle
  unfold Sat at hloaded
  unfold last at hdeps hidle
  cases hr : loadModule F c.site R.traced (c.site.paths.length + 1) c.site.root c.site.autoRunMain
      ({ st with store := c.store } : Session Ast Code X) with
  | ok a st' =>
      rw [hr] at hloaded hdeps hidle
      obtain ⟨left', hu, hroot⟩ := hloaded
      refine settled_of_fine (hu.hand hroot none st'.vm.1).toFine hidle fun p metadata hp => ?_
      rw [(hdeps p metadata hp).1, (hdeps p metadata hp).2]
  | error e st' =>
      rw [hr] at hloaded hdeps hidle
      refine settled_of_fine hloaded hidle fun p metadata hp => ?_
      rw [(hdeps p metadata hp).1, (hdeps p metadata hp).2]

theorem next_settled (h : Settled st) (hmeets : c.Meets F st) : Settled (next F R st c) := by
  by_cases hcycle : F.LeadsToCycle c.site c.site.root
  · obtain ⟨cycle, st', hload, hsettled⟩ := load_cyclic (R := R) h hmeets hcycle
    unfold next
    rw [hload]
    exact hsettled
  · exact load_inOrder h hmeets hcycle

theorem run_settled (calls : List (LoadCall Ast Code)) (h : Settled st) (hmeets : Session.Meets F R st calls) :
    Settled (run F R st calls) := by
  induction calls generalizing st with
  | nil => exact h
  | cons c calls ih => exact ih (next_settled h hmeets.1) hmeets.2

theorem Meets.split {done rest : List (LoadCall Ast Code)} (h : Session.Meets F R st (done ++ rest)) :
    Session.Meets F R st done ∧ Session.Meets F R (run F R st done) rest := by
  induction done generalizing st with
  | nil => exact ⟨trivial, h⟩
  | cons c done ih => exact ⟨⟨h.1, (ih h.2).1⟩, (ih h.2).2⟩

def parseText (text : String) : Except String (ParsedModule String) :=
  if text = "import \"util\"" then .ok ⟨text, [⟨"util".toList, [], none⟩], [], [], [], false, []⟩
  else if text = "export \x7b a \x7d from \"util\"" then .ok ⟨text, [], [⟨"util".toList, ["a"]⟩], ["a"], [], false, []⟩
  else if text = "import \"loop\"" then .ok ⟨text, [⟨"loop".toList, [], none⟩], [], [], [], false, []⟩
  else .ok ⟨text, [], [], ["a"], ["a"], false, []⟩

def textFront : Front String String where
  importEnv := ImportEnv.project
  projectRoot := "/p".toList
  sha256 := id
  parse _ := parseText
  compile _ parsed _ := .ok parsed.ast
  builtin _ := false

def idleRuntime : Runtime String Unit where
  start := ()
  bindImport _ _ := pure ()
  execute _ _ _ _ := pure ()
  hasGlobal _ _ _ := false
  bindExport _ _ _ := pure ()

def mainPath : Path := "/p/main.nd".toList
def utilPath : Path := "/p/util.nd".toList
def loopPath : Path := "/p/loop.nd".toList
def facadePath : Path := "/p/facade.nd".toList

def textSite (root : Path) : Site String where
  files := [(mainPath, ⟨"import \"util\"", 1⟩), (utilPath, ⟨"let a = 1", 1⟩), (loopPath, ⟨"import \"loop\"", 1⟩),
    (facadePath, ⟨"export \x7b a \x7d from \"util\"", 1⟩)]
  root := root

def loadOf (root : Path) : LoadCall String String where
  site := textSite root
  store := none

theorem facade_log : (run textFront idleRuntime (start idleRuntime) [loadOf facadePath]).log =
    [.handed facadePath none, .handed utilPath (some facadePath), .completed utilPath, .started utilPath,
      .completed facadePath, .started facadePath] := by
  decide +kernel

theorem text_textSite (root x : Path) : (textSite root).text x = ((textSite root).file x).map (·.text) := by
  unfold Site.text
  split
  · rfl
  · rfl

theorem importsOf_root (root : Path) :
    textFront.importsOf (textSite root) = textFront.importsOf (textSite loopPath) := by
  funext x
  unfold Front.importsOf Front.prepare Front.parseModule
  rw [text_textSite, text_textSite]
  rfl

theorem importsOf_other {x : Path} (hmain : x ≠ mainPath) (hutil : x ≠ utilPath) (hloop : x ≠ loopPath)
    (hfacade : x ≠ facadePath) : textFront.importsOf (textSite loopPath) x = [] := by
  have hfile : (textSite loopPath).file x = none := by
    unfold Site.file textSite
    simp only [List.lookup_cons, List.lookup_nil, beq_eq_false_iff_ne.mpr hmain, beq_eq_false_iff_ne.mpr hutil,
      beq_eq_false_iff_ne.mpr hloop, beq_eq_false_iff_ne.mpr hfacade]
  unfold Front.importsOf Front.prepare Front.parseModule
  rw [text_textSite, hfile]
  rfl

theorem importsOf_textSite (x y : Path) (hy : y ∈ textFront.importsOf (textSite loopPath) x) :
    x ≠ utilPath ∧ (x = loopPath ∨ y = utilPath) := by
  by_cases hmain : x = mainPath
  · subst hmain
    have himports : textFront.importsOf (textSite loopPath) mainPath = [utilPath] := rfl
    rw [himports, List.mem_singleton] at hy
    exact ⟨by decide, .inr hy⟩
  by_cases hutil : x = utilPath
  · subst hutil
    have himports : textFront.importsOf (textSite loopPath) utilPath = [] := rfl
    rw [himports] at hy
    cases hy
  by_cases hloop : x = loopPath
  · exact ⟨hutil, .inl hloop⟩
  by_cases hfacade : x = facadePath
  · subst hfacade
    have himports : textFront.importsOf (textSite loopPath) facadePath = [utilPath] := rfl
    rw [himports, List.mem_singleton] at hy
    exact ⟨by decide, .inr hy⟩
  rw [importsOf_other hmain hutil hloop hfacade] at hy
  cases hy

theorem loop_of_leadsToCycle {p : Path} (h : textFront.LeadsToCycle (textSite loopPath) p) : p = loopPath := by
  obtain ⟨q, d, hpq, hd, hdq⟩ := h
  apply Classical.byContradiction
  intro hp
  have hq : q ≠ loopPath := by
    refine hpq.closed (P := (· ≠ loopPath)) (fun x y hx hy => ?_) hp
    rcases (importsOf_textSite x y hy).2 with hxl | rfl
    · exact absurd hxl hx
    · decide
  obtain ⟨hutil, hd' | rfl⟩ := importsOf_textSite q d hd
  · exact hq hd'
  · have hqu : q = utilPath := by
      refine hdq.closed (P := (· = utilPath)) (fun x y hx hy => ?_) rfl
      exact absurd hx (importsOf_textSite x y hy).1
    exact hutil hqu

theorem reads_source {site : Site Ast} {before : LoaderState Ast Code X} {reads : Path → Option MetadataRecord}
    (h : F.Reading site before reads) {p : Path} (hp : before.metadata.lookup p = none) (hs : before.store = none)
    {pr : Prepared Ast} (hpr : F.prepare site p = .ok pr) :
    importsRead reads p = pr.importSpecs.map (·.resolvedPath) ∧
      reexportsRead reads p = pr.exportFromSpecs.map (·.resolvedPath) := by
  have hread := h p
  unfold importsRead reexportsRead
  cases hr : reads p with
  | none =>
      rw [hr] at hread
      refine absurd ?_ (hread (pr.record []))
      unfold Front.MayRead
      rw [hp]
      exact .inr ⟨pr, [], hpr, rfl⟩
  | some record =>
      rw [hr] at hread
      unfold Front.MayRead at hread
      rw [hp, hs] at hread
      rcases hread with ⟨_, _, hstore, _⟩ | ⟨pr', names, hpr', rfl⟩
      · cases hstore
      · rw [hpr] at hpr'
        cases hpr'
        exact ⟨rfl, rfl⟩

theorem main_meets : (loadOf mainPath).Meets textFront (start idleRuntime : Session String String Unit) := by
  have hmain : textFront.prepare (textSite mainPath) mainPath =
      .ok ⟨⟨"import \"util\"", [⟨"util".toList, [], none⟩], [], [], [], false, []⟩,
        [⟨⟨"util".toList, [], none⟩, utilPath⟩], []⟩ := rfl
  have hutil : textFront.prepare (textSite mainPath) utilPath =
      .ok ⟨⟨"let a = 1", [], [], ["a"], ["a"], false, []⟩, [], []⟩ := rfl
  refine ⟨fun hc => ?_, fun _ reads hreads => ?_⟩
  · have hcycle : textFront.LeadsToCycle (textSite loopPath) mainPath := by
      have hc' : textFront.LeadsToCycle (textSite mainPath) mainPath := hc
      unfold Front.LeadsToCycle at hc' ⊢
      rw [importsOf_root] at hc'
      exact hc'
    exact absurd (loop_of_leadsToCycle hcycle) (by decide)
  obtain ⟨himports, hreexports⟩ := reads_source hreads rfl rfl hmain
  obtain ⟨himports', hreexports'⟩ := reads_source hreads rfl rfl hutil
  have hfree : ∀ p, ¬ (start idleRuntime : Session String String Unit).Stuck p := fun p hp => nomatch hp.1
  have hinside : InOrder (importsRead reads) (reexportsRead reads) (start idleRuntime : Session String String Unit).Stuck
      [utilPath, mainPath] [] (importsRead reads utilPath) [] := by
    rw [himports']
    exact .nil
  have hvisit : InOrder (importsRead reads) (reexportsRead reads) (start idleRuntime : Session String String Unit).Stuck
      [mainPath] [] (importsRead reads mainPath) [utilPath] := by
    rw [himports]
    refine .visit (by decide) (by decide) (hfree _) hinside ?_ .nil
    rw [hreexports']
    exact fun d hd => nomatch hd
  refine ⟨[mainPath, utilPath], .visit (p := mainPath) (by decide) (by decide) (hfree _) hvisit ?_ .nil⟩
  rw [hreexports]
  exact fun d hd => nomatch hd

theorem loop_meets {st : Session String String Unit} (hmodules : st.modules = [utilPath, mainPath])
    (hread : st.metadata.map Prod.fst = [mainPath, utilPath]) : (loadOf loopPath).Meets textFront st := by
  have hself : textFront.importsOf (textSite loopPath) loopPath = [loopPath] := rfl
  have hedge : loopPath ∈ textFront.importsOf (textSite loopPath) loopPath := by
    rw [hself]
    exact List.mem_singleton.mpr rfl
  have hcycle : textFront.LeadsToCycle (textSite loopPath) loopPath :=
    ⟨loopPath, loopPath, Reaches.refl _, hedge, Reaches.refl _⟩
  refine ⟨fun _ => ⟨fun p hp => ?_, fun p hp => ?_⟩, fun hc => absurd hcycle hc⟩
  · rw [loop_of_leadsToCycle hp]
    refine ⟨?_, ?_, usable_cold rfl⟩
    · simp only [hmodules]
      decide
    · cases hl : st.metadata.lookup loopPath with
      | none => rfl
      | some metadata =>
          have hmem := Front.mem_keys_of_lookup hl
          rw [hread] at hmem
          exact absurd hmem (by decide)
  · have hloop : p = loopPath := by
      refine hp.closed (P := (· = loopPath)) (fun x y hx hy => ?_) rfl
      have hy' : y ∈ textFront.importsOf (textSite loopPath) x := hy
      rw [hx, hself] at hy'
      exact List.mem_singleton.mp hy'
    subst hloop
    have hprepare : textFront.prepare (textSite loopPath) loopPath =
        .ok ⟨⟨"import \"loop\"", [⟨"loop".toList, [], none⟩], [], [], [], false, []⟩,
          [⟨⟨"loop".toList, [], none⟩, loopPath⟩], []⟩ := rfl
    refine ⟨_, hprepare, fun spec hs exports _ => ?_, fun spec hs => nomatch hs⟩
    rw [List.mem_singleton] at hs
    subst hs
    exact ⟨exports, rfl⟩

end Session

end Nodus.Loading

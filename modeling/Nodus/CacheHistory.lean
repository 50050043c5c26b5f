import Nodus.LoadBound

/-! A project over time: edits of its files, losses in its cache, and loads. Every entry of the cache is what
its module was compiled to from the files the compiling load read. -/

namespace Nodus.Loading

open PosixPath Walks Paired

variable {Ast Code X : Type}

/-- What a load is asked for. -/
structure Request (Ast : Type) where
  root : Path
  source : Option String := none
  statementFilter : Option (ParsedModule Ast → ParsedModule Ast) := none
  autoRunMain : Bool := false

/-- A project with its store, and for the record what the load that compiled a module last had read. -/
structure Project (Ast Code : Type) where
  files : List (Path × SourceFile)
  store : Store Code
  compiledFrom : Path → Option (Site Ast)

inductive Action (Ast Code X : Type) where
  /-- Creates a file, edits it or sets its modification time. -/
  | write (p : Path) (file : SourceFile)
  | remove (p : Path)
  /-- Deletes or damages a cache file. -/
  | dropEntry (p : Path) (mtime : Nat)
  | dropGraph
  | load (R : Runtime Code X) (request : Request Ast)

/-- The outcome of a load: its error, if it fails, and what it has done on the machine. -/
def outcome (result : EStateM.Result LoadError (LoaderState Ast Code X) PUnit) : Option LoadError × X :=
  match result with
  | .ok _ st => (none, st.vm)
  | .error e st => (some e, st.vm)

namespace Project

variable (F : Front Ast Code) (P : Project Ast Code)

/-- A project before its first load. -/
def fresh (files : List (Path × SourceFile)) : Project Ast Code :=
  ⟨files, ⟨fun _ _ => none, []⟩, fun _ => none⟩

def site (request : Request Ast) : Site Ast :=
  ⟨P.files, request.root, request.source, request.statementFilter, request.autoRunMain⟩

/-- The load as it is. -/
def warmLoad (R : Runtime Code X) (request : Request Ast) :=
  Loader.load F (P.site request) R (some P.store)

/-- The load without a bytecode cache and a dependency graph. -/
def coldLoad (R : Runtime Code X) (request : Request Ast) :=
  Loader.load F (P.site request) R none

def stateOf {α : Type} (result : EStateM.Result LoadError (LoaderState Ast Code X) α) :
    LoaderState Ast Code X :=
  match result with
  | .ok _ st => st
  | .error _ st => st

def after : Action Ast Code X → Project Ast Code
  | .write p file => { P with files := (p, file) :: P.files.filter (·.1 ≠ p) }
  | .remove p => { P with files := P.files.filter (·.1 ≠ p) }
  | .dropEntry p mtime =>
      { P with store.cache := fun q t => if q = p ∧ t = mtime then none else P.store.cache q t }
  | .dropGraph => { P with store.graph := [] }
  | .load R request =>
      let st := stateOf (P.warmLoad F R request)
      { P with
        store := st.store.getD P.store
        compiledFrom := fun p => if p ∈ st.recompiled then some (P.site request) else P.compiledFrom p }

def run (acts : List (Action Ast Code X)) : Project Ast Code := acts.foldl (fun P act => P.after F act) P

end Project

namespace Front

/-- A cache entry is what the module was compiled to from the files of `site`. -/
structure EntryRight (F : Front Ast Code) (site : Site Ast) (p : Path) (entry : CacheEntry Code) : Prop where
  source : sourceIsTheFile site p = true
  file : ∃ file, site.file p = some file ∧ entry.sourceSha256 = F.sha256 file.text
  record : F.localRecord site p = .ok entry.metadata
  compiled : ∀ parsed, F.parseModule site p = .ok parsed →
    F.compile p parsed entry.metadata.importNames = .ok entry.code

/-- The entry a node of the graph stands for is right by the load that compiled the module. -/
def StoreRight (F : Front Ast Code) (compiledFrom : Path → Option (Site Ast)) (store : Store Code) : Prop :=
  ∀ p node entry, store.graph.lookup p = some node → store.cache p node.lastCompiledMtime = some entry →
    ∃ site, compiledFrom p = some site ∧ F.EntryRight site p entry

variable {F : Front Ast Code} {site : Site Ast} {p : Path}

theorem text_of_sourceIsTheFile {file : SourceFile} (h : sourceIsTheFile site p = true)
    (hf : site.file p = some file) : site.statementFilter = none ∧ site.text p = some file.text := by
  unfold sourceIsTheFile at h
  rw [Bool.and_eq_true, Option.isNone_iff_eq_none] at h
  refine ⟨h.1, ?_⟩
  unfold Site.text
  by_cases hp : p = site.root
  · rw [if_pos hp]
    have h' := h.2
    rw [if_pos hp, hf] at h'
    cases hs : site.source with
    | none => rw [hf]; rfl
    | some source =>
        rw [hs] at h'
        simp only [Option.map_some, Option.some.injEq, decide_eq_true_eq] at h'
        rw [h']
        rfl
  · rw [if_neg hp, hf]
    rfl

theorem parseModule_congr {site' : Site Ast} {file file' : SourceFile} (h : sourceIsTheFile site p = true)
    (h' : sourceIsTheFile site' p = true) (hf : site.file p = some file) (hf' : site'.file p = some file')
    (ht : file.text = file'.text) : F.parseModule site p = F.parseModule site' p := by
  obtain ⟨hn, htext⟩ := text_of_sourceIsTheFile h hf
  obtain ⟨hn', htext'⟩ := text_of_sourceIsTheFile h' hf'
  unfold parseModule
  rw [htext, htext', hn, hn', ht]

end Front

namespace Loader

section Invariant

variable {F : Front Ast Code} {site : Site Ast} {R : Runtime Code X} {I : LoaderState Ast Code X → Prop}
  {J : Path → ModuleMetadata Ast → Prop}

/-- Ends in a state with `I`, whether it returns or fails. -/
abbrev Always {α : Type} (I : LoaderState Ast Code X → Prop) (c : Loader Ast Code X α)
    (st : LoaderState Ast Code X) : Prop :=
  Sat (fun _ st' => I st') (fun _ st' => I st') c st

/-- What the steps of a load have to keep. -/
structure Invariant (F : Front Ast Code) (site : Site Ast) (I : LoaderState Ast Code X → Prop)
    (J : Path → ModuleMetadata Ast → Prop) : Prop where
  loadingStack : ∀ st stack, I st → I { st with loadingStack := stack }
  vm : ∀ st vm, I st → I { st with vm := vm }
  modules : ∀ st modules, I st → I { st with modules := modules }
  metadata : ∀ p st, I st → Sat (fun metadata st' => J p metadata ∧ I st') (fun _ st' => I st')
    (buildMetadata F site (site.paths.length + 1) p) st
  compile : ∀ p metadata st, J p metadata → I st → Always I (loadOrCompile F site p metadata) st

theorem Invariant.onVm (h : Invariant F site I J) (act : EStateM String X PUnit)
    {st : LoaderState Ast Code X} (hi : I st) : Always I (onVm act) st := by
  unfold Always Sat Loader.onVm
  cases act st.vm with
  | ok a vm => exact h.vm st vm hi
  | error message vm => exact h.vm st vm hi

variable {sub : Path → Loader Ast Code X PUnit} {p : Path}

theorem Invariant.resolveImportBindings (h : Invariant F site I J)
    (hsub : ∀ d st, I st → Always I (sub d) st) (specs : List ImportSpec) {st : LoaderState Ast Code X}
    (hi : I st) : Always I (resolveImportBindings R sub p specs) st := by
  induction specs generalizing st with
  | nil => exact hi
  | cons spec specs ih =>
      exact (hsub _ st hi).bind fun _ st₁ _ h₁ => (h.onVm _ h₁).bind fun _ st₂ _ h₂ => ih h₂

theorem Invariant.buildExport (h : Invariant F site I J) (hsub : ∀ d st, I st → Always I (sub d) st)
    (record : MetadataRecord) (name : Name) {st : LoaderState Ast Code X} (hi : I st) :
    Always I (buildExport R sub p record name) st := by
  unfold Always Sat
  by_cases hg : (R.hasGlobal st.vm p name || record.defs.contains name) = true
  · rw [buildExport_own hg]
    exact h.onVm _ hi
  cases hf : record.exportFromSpecs.find? fun spec => spec.names.contains name with
  | none => rw [buildExport_absent hg hf]; exact hi
  | some spec =>
      by_cases hs : (record.importSpecs.map ImportSpec.resolvedPath).contains spec.resolvedPath = true
      · rw [buildExport_imported hg hf hs]
        exact h.onVm _ hi
      · rw [buildExport_loaded hg hf hs]
        exact (hsub _ st hi).bind fun _ st₁ _ h₁ => h.onVm _ h₁

theorem Invariant.buildExports (h : Invariant F site I J) (hsub : ∀ d st, I st → Always I (sub d) st)
    (record : MetadataRecord) (names : List Name) {st : LoaderState Ast Code X} (hi : I st) :
    Always I (buildExports R sub p record names) st := by
  induction names generalizing st with
  | nil => exact hi
  | cons name names ih => exact (h.buildExport hsub record name hi).bind fun _ st₁ _ h₁ => ih h₁

theorem Invariant.loadModule (h : Invariant F site I J) (fuel : Nat) (p : Path) (auto : Bool)
    {st : LoaderState Ast Code X} (hi : I st) : Always I (loadModule F site R fuel p auto) st := by
  induction fuel generalizing p auto st with
  | zero => exact hi
  | succ fuel ih =>
      unfold Always Sat
      by_cases hp : p ∈ st.modules
      · rw [loadModule_loaded hp]
        exact hi
      by_cases hl : p ∈ st.loadingStack
      · rw [loadModule_circular hp hl]
        exact hi
      rw [loadModule_new hp hl]
      have hsub : ∀ d st, I st → Always I (Loader.loadModule F site R fuel d false) st :=
        fun d st hst => ih d false hst
      have hnew : Always I (loadNew F site R (fun d => Loader.loadModule F site R fuel d false) p auto)
          { st with loadingStack := p :: st.loadingStack } := by
        refine (h.metadata p _ (h.loadingStack st _ hi)).bind fun metadata st₁ _ h₁ => ?_
        refine (h.compile p metadata st₁ h₁.1 h₁.2).bind fun code st₂ _ h₂ => ?_
        have hreg : Always I (register p) st₂ := h.modules st₂ _ h₂
        refine hreg.bind fun _ st₃ _ h₃ => ?_
        refine (h.resolveImportBindings hsub _ h₃).bind fun _ st₄ _ h₄ => ?_
        exact (h.onVm _ h₄).bind fun _ st₅ _ h₅ => h.buildExports hsub _ _ h₅
      unfold Always Sat at hnew
      unfold onLoadingStack
      cases hc : loadNew F site R (fun d => Loader.loadModule F site R fuel d false) p auto
          { st with loadingStack := p :: st.loadingStack } with
      | ok a st' => rw [hc] at hnew; exact h.loadingStack st' _ hnew
      | error e st' => rw [hc] at hnew; exact h.loadingStack st' _ hnew

end Invariant

section Right

variable {F : Front Ast Code} {site : Site Ast} {R : Runtime Code X} {origin : Path → Option (Site Ast)}
  {st : LoaderState Ast Code X} {p : Path}

/-- The load that compiled a module last, during a load of `site`. -/
def owner (site : Site Ast) (recompiled : List Path) (origin : Path → Option (Site Ast)) (p : Path) :
    Option (Site Ast) :=
  if p ∈ recompiled then some site else origin p

/-- The exports of a module's metadata are right, and metadata that was not cached is right in full. -/
structure MemoRight (F : Front Ast Code) (site : Site Ast) (p : Path) (metadata : ModuleMetadata Ast) :
    Prop where
  exports : F.exportsOf site p = .ok metadata.exports
  parsed : ∀ parsed, metadata.parsed = some parsed →
    F.parseModule site p = .ok parsed ∧ F.localRecord site p = .ok metadata.toMetadataRecord

structure Right (F : Front Ast Code) (site : Site Ast) (origin : Path → Option (Site Ast))
    (st : LoaderState Ast Code X) : Prop where
  memo : ∀ p metadata, st.metadata.lookup p = some metadata → MemoRight F site p metadata
  store : ∃ store, st.store = some store ∧ F.StoreRight (owner site st.recompiled origin) store

theorem loadCached_eq_some {store : Store Code} {entry : CacheEntry Code}
    (h : F.loadCachedBytecode site (some store) p = some entry) :
    ∃ file, site.file p = some file ∧ store.cache p file.mtime = some entry ∧
      entry.sourceSha256 = F.sha256 file.text := by
  unfold Front.loadCachedBytecode at h
  simp only [Option.bind_eq_bind, Option.bind_some, Option.bind_eq_some_iff] at h
  obtain ⟨file, hfile, e, he, h⟩ := h
  split at h
  · next hsha =>
      cases h
      exact ⟨file, hfile, he, hsha⟩
  · exact nomatch h

theorem entry_of_usable (hsha : Function.Injective F.sha256) {store : Store Code}
    (hs : st.store = some store) (hr : F.StoreRight (owner site st.recompiled origin) store)
    {entry : CacheEntry Code} (hu : F.usable site st p = some entry) :
    ∃ s, origin p = some s ∧ F.EntryRight s p entry ∧ F.parseModule s p = F.parseModule site p := by
  obtain ⟨hsource, hfresh, hload⟩ := (usable_eq_some hs).mp hu
  obtain ⟨file, hfile, hcache, hdigest⟩ := loadCached_eq_some hload
  have hself := hfresh p (Reaches.refl p)
  obtain ⟨node, file', hnode, hfile', hmtime⟩ := hself.mtimeRecorded
  have heq : file' = file := Option.some.inj (hfile'.symm.trans hfile)
  rw [← heq, hmtime] at hcache
  obtain ⟨s, hs', hright⟩ := hr p node entry hnode hcache
  rw [owner, if_neg hself.notRecompiled] at hs'
  obtain ⟨old, hold, hdigest'⟩ := hright.file
  exact ⟨s, hs', hright, Front.parseModule_congr hright.source hsource hold hfile
    (hsha (hdigest'.symm.trans hdigest))⟩

theorem Right.exports_of_usable (hsha : Function.Injective F.sha256) (h : Right F site origin st)
    {entry : CacheEntry Code} (hu : F.usable site st p = some entry) :
    F.exportsOf site p = .ok entry.metadata.exports := by
  obtain ⟨store, hs, hr⟩ := h.store
  obtain ⟨s, _, hright, hparse⟩ := entry_of_usable hsha hs hr hu
  obtain ⟨_, _, _, _, hexports, _⟩ := Front.localRecord_eq_ok hright.record
  rw [Front.exportsOf, ← hparse]
  exact hexports

theorem Right.keep (h : Right F site origin st) {metadata : ModuleMetadata Ast}
    (hm : MemoRight F site p metadata) :
    Right F site origin { st with metadata := (p, metadata) :: st.metadata } := by
  refine { h with memo := fun q md hq => ?_ }
  rw [List.lookup_cons] at hq
  by_cases he : q = p
  · subst he
    simp only [beq_self_eq_true, Option.some.injEq] at hq
    exact hq ▸ hm
  · rw [show (q == p) = false by simpa using he] at hq
    exact h.memo q md hq

section Assemble

variable {I : LoaderState Ast Code X → Prop} {f : Path → Loader Ast Code X (List Name)}

theorem bindImports_sat {specs : List ImportSpec} (acc : List Name)
    (h : ∀ d st, I st → Sat (fun exports st' => F.exportsOf site d = .ok exports ∧ I st') (fun _ => I) (f d) st)
    (hi : I st) :
    Sat (fun names st' => bindImports F.builtin (F.exportsOf site) specs acc = .ok names ∧ I st') (fun _ => I)
      (bindImports F.builtin f specs acc) st := by
  induction specs generalizing acc st with
  | nil => exact ⟨rfl, hi⟩
  | cons spec specs ih =>
      refine (h _ st hi).bind fun exports st₁ _ h₁ => ?_
      have hbound : Sat (fun names st' => spec.bound F.builtin exports = .ok names ∧ I st') (fun _ => I)
          (MonadExcept.ofExcept (spec.bound F.builtin exports) : Loader Ast Code X (List Name)) st₁ :=
        sat_ofExcept (fun _ hn => ⟨hn, h₁.2⟩) fun _ _ => h₁.2
      refine hbound.bind fun names st₂ _ h₂ => (ih _ h₂.2).mono (fun all st₃ h₃ => ⟨?_, h₃.2⟩) fun _ _ h => h
      rw [bindImports, h₁.1]
      show (MonadExcept.ofExcept (spec.bound F.builtin exports) >>= fun names =>
        bindImports F.builtin (F.exportsOf site) specs (acc ++ names)) = .ok all
      rw [h₂.1]
      exact h₃.1

theorem checkReexports_sat {specs : List ExportFromSpec}
    (h : ∀ d st, I st → Sat (fun exports st' => F.exportsOf site d = .ok exports ∧ I st') (fun _ => I) (f d) st)
    (hi : I st) :
    Sat (fun _ st' => checkReexports (F.exportsOf site) specs = .ok () ∧ I st') (fun _ => I)
      (checkReexports f specs) st := by
  induction specs generalizing st with
  | nil => exact ⟨rfl, hi⟩
  | cons spec specs ih =>
      refine (h _ st hi).bind fun exports st₁ _ h₁ => ?_
      have hcheck : Sat (fun _ st' => spec.check exports = .ok () ∧ I st') (fun _ => I)
          (MonadExcept.ofExcept (spec.check exports) : Loader Ast Code X PUnit) st₁ :=
        sat_ofExcept (fun _ hn => ⟨hn, h₁.2⟩) fun _ _ => h₁.2
      refine hcheck.bind fun _ st₂ _ h₂ => (ih h₂.2).mono (fun _ st₃ h₃ => ⟨?_, h₃.2⟩) fun _ _ h => h
      rw [checkReexports, h₁.1]
      show (MonadExcept.ofExcept (spec.check exports) >>= fun _ =>
        checkReexports (F.exportsOf site) specs) = .ok ()
      rw [h₂.1]
      exact h₃.1

theorem assemble_sat (F : Front Ast Code) (site : Site Ast) {pr : Prepared Ast}
    (h : ∀ d st, I st → Sat (fun exports st' => F.exportsOf site d = .ok exports ∧ I st') (fun _ => I) (f d) st)
    (hi : I st) :
    Sat (fun record st' => pr.assemble F.builtin (F.exportsOf site) = .ok record ∧ I st') (fun _ => I)
      (pr.assemble F.builtin f) st := by
  refine (bindImports_sat [] h hi).bind fun names st₁ _ h₁ => ?_
  refine (checkReexports_sat h h₁.2).bind fun _ st₂ _ h₂ => ⟨?_, h₂.2⟩
  unfold Prepared.assemble
  exact Front.bind_eq_ok.mpr ⟨names, h₁.1, Front.bind_eq_ok.mpr ⟨(), h₂.1, rfl⟩⟩

end Assemble

theorem buildMetadata_right (hsha : Function.Injective F.sha256) (fuel : Nat) (h : Right F site origin st) :
    Sat (fun metadata st' => MemoRight F site p metadata ∧ Right F site origin st')
      (fun _ st' => Right F site origin st') (buildMetadata F site fuel p) st := by
  induction fuel generalizing p st with
  | zero => exact h
  | succ fuel ih =>
      unfold Sat
      cases hl : st.metadata.lookup p with
      | some metadata =>
          rw [buildMetadata_memo hl]
          exact ⟨h.memo p metadata hl, h⟩
      | none =>
          by_cases hp : p ∈ st.metadataStack
          · rw [buildMetadata_circular hl hp]
            exact h
          cases hu : F.usable site st p with
          | some entry =>
              rw [buildMetadata_cached hl hp hu]
              have hm : MemoRight F site p { entry.metadata with parsed := none } :=
                ⟨h.exports_of_usable hsha hu, fun _ h => nomatch h⟩
              have hkeep := h.keep hm
              exact ⟨hm, hkeep.memo, hkeep.store⟩
          | none =>
              rw [buildMetadata_parsed hl hp hu]
              have hparsed : Sat (fun metadata st' => MemoRight F site p metadata ∧ Right F site origin st')
                  (fun _ st' => Right F site origin st') (parsedMetadata F site (buildMetadata F site fuel) p)
                  { st with metadataStack := p :: st.metadataStack } := by
                have hprepare : Sat (fun pr st' => F.prepare site p = .ok pr ∧ Right F site origin st')
                    (fun _ st' => Right F site origin st')
                    (MonadExcept.ofExcept (F.prepare site p) : Loader Ast Code X (Prepared Ast))
                    { st with metadataStack := p :: st.metadataStack } :=
                  sat_ofExcept (fun pr hpr => ⟨hpr, h.memo, h.store⟩) fun _ _ => ⟨h.memo, h.store⟩
                refine hprepare.bind fun pr st₁ _ h₁ => ?_
                refine (assemble_sat F site (I := Right F site origin) (fun d st₂ h₂ => ?_) h₁.2).bind
                  fun record st₃ _ h₃ => ?_
                · exact (ih (p := d) h₂).bind fun metadata st₃ _ h₃ => ⟨h₃.1.exports, h₃.2⟩
                · have hlocal : F.localRecord site p = .ok record := by
                    rw [Front.localRecord, h₁.1]
                    exact h₃.1
                  obtain ⟨_, _, _, _, hexports, _⟩ := Front.localRecord_eq_ok hlocal
                  have hm : MemoRight F site p { record with parsed := some pr.parsed } := by
                    refine ⟨hexports, fun parsed hpd => ⟨?_, hlocal⟩⟩
                    cases hpd
                    exact Front.prepare_parsed h₁.1
                  exact ⟨hm, h₃.2.keep hm⟩
              unfold Sat at hparsed
              unfold onMetadataStack
              cases hc : parsedMetadata F site (buildMetadata F site fuel) p
                  { st with metadataStack := p :: st.metadataStack } with
              | ok metadata st' => rw [hc] at hparsed; exact ⟨hparsed.1, hparsed.2.memo, hparsed.2.store⟩
              | error e st' => rw [hc] at hparsed; exact ⟨hparsed.memo, hparsed.store⟩

theorem file_of_parsed {parsed : ParsedModule Ast} (h : Front.sourceIsTheFile site p = true)
    (hp : F.parseModule site p = .ok parsed) : ∃ file, site.file p = some file := by
  cases hf : site.file p with
  | some file => exact ⟨file, rfl⟩
  | none =>
      unfold Front.parseModule Site.text at hp
      by_cases hr : p = site.root
      · unfold Front.sourceIsTheFile at h
        rw [Bool.and_eq_true, if_pos hr] at h
        have h' := h.2
        rw [if_pos hr, hf] at hp
        cases hs : site.source with
        | none => rw [hs] at hp; exact nomatch hp
        | some source => rw [hs, hf] at h'; exact nomatch h'
      · rw [if_neg hr, hf] at hp
        exact nomatch hp

theorem storeRight_written {store : Store Code} {recompiled : List Path} {file : SourceFile} {code : Code}
    {record : MetadataRecord} (hr : F.StoreRight (owner site recompiled origin) store)
    (he : F.EntryRight site p ⟨F.sha256 file.text, code, record⟩) :
    F.StoreRight (owner site (p :: recompiled) origin) (written F store p file code record) := by
  intro q node entry hnode hentry
  by_cases hq : q = p
  · subst hq
    simp only [written, List.lookup_cons, beq_self_eq_true, Option.some.injEq] at hnode
    rw [← hnode] at hentry
    simp only [written, and_self, if_true, Option.some.injEq] at hentry
    rw [← hentry]
    exact ⟨site, by simp [owner], he⟩
  · simp only [written, List.lookup_cons, show (q == p) = false by simpa using hq] at hnode
    rw [lookup_filter_ne hq] at hnode
    simp only [written, hq, false_and, if_false] at hentry
    obtain ⟨s, hs, hright⟩ := hr q node entry hnode hentry
    refine ⟨s, ?_, hright⟩
    unfold owner at hs ⊢
    simp only [List.mem_cons, hq, false_or]
    exact hs

theorem loadOrCompile_right {metadata : ModuleMetadata Ast} (hm : MemoRight F site p metadata)
    (h : Right F site origin st) : Always (Right F site origin) (loadOrCompile F site p metadata) st := by
  unfold Always Sat
  cases hu : F.usable site st p with
  | some entry => rw [loadOrCompile_cached hu]; exact h
  | none =>
      cases hp : metadata.parsed with
      | none => rw [loadOrCompile_unparsed hu hp]; exact h
      | some parsed =>
          cases hc : F.compile p parsed metadata.importNames with
          | error message => rw [loadOrCompile_error hu hp hc]; exact h
          | ok code =>
              rw [loadOrCompile_compiled hu hp hc]
              obtain ⟨hparsed, hlocal⟩ := hm.parsed parsed hp
              unfold recordCompiled
              by_cases hsource : Front.sourceIsTheFile site p = true
              · rw [if_pos hsource]
                obtain ⟨store, hs, hr⟩ := h.store
                obtain ⟨file, hfile⟩ := file_of_parsed hsource hparsed
                refine ⟨h.memo, written F store p file code metadata.toMetadataRecord, ?_, ?_⟩
                · simp only [hs, hfile]
                · refine storeRight_written hr ⟨hsource, ⟨file, hfile, rfl⟩, hlocal, fun ps hps => ?_⟩
                  have heq : ps = parsed := Except.ok.inj (hps.symm.trans hparsed)
                  rw [heq]
                  exact hc
              · rw [if_neg hsource]
                exact h

theorem right_invariant (hsha : Function.Injective F.sha256) :
    Invariant F site (Right F site origin : LoaderState Ast Code X → Prop) (MemoRight F site) where
  loadingStack _ _ h := ⟨h.memo, h.store⟩
  vm _ _ h := ⟨h.memo, h.store⟩
  modules _ _ h := ⟨h.memo, h.store⟩
  metadata _ _ h := buildMetadata_right hsha _ h
  compile _ _ _ hm h := loadOrCompile_right hm h

end Right

end Loader

namespace Project

variable {F : Front Ast Code} {P : Project Ast Code}

/-- The store of a project is right by its record. -/
def Right (F : Front Ast Code) (P : Project Ast Code) : Prop := F.StoreRight P.compiledFrom P.store

theorem right_fresh (files : List (Path × SourceFile)) : Right F (fresh files) :=
  fun _ _ _ h => nomatch h

theorem stateOf_eq_last {α : Type} (c : Loader Ast Code X α) (st : LoaderState Ast Code X) :
    stateOf (c st) = last c st := by
  unfold stateOf last
  cases c st with
  | ok a st' => rfl
  | error e st' => rfl

theorem right_after (hsha : Function.Injective F.sha256) (h : P.Right F) (act : Action Ast Code X) :
    (P.after F act).Right F := by
  cases act with
  | write p file => exact h
  | remove p => exact h
  | dropEntry p mtime =>
      intro q node entry hnode hentry
      simp only [after] at hnode hentry
      split at hentry
      · exact nomatch hentry
      · exact h q node entry hnode hentry
  | dropGraph => exact fun _ _ _ hnode _ => nomatch hnode
  | load R request =>
      have hstart : Loader.Right F (P.site request) P.compiledFrom
          ({ store := some P.store, vm := R.start } : LoaderState Ast Code X) := by
        refine ⟨fun _ _ h => (nomatch h), P.store, rfl, fun p node entry hnode hentry => ?_⟩
        obtain ⟨s, hs, hright⟩ := h p node entry hnode hentry
        exact ⟨s, by simpa [Loader.owner] using hs, hright⟩
      have hload : Loader.Always (Loader.Right F (P.site request) P.compiledFrom)
          (Loader.loadModule F (P.site request) R ((P.site request).paths.length + 1) (P.site request).root
            (P.site request).autoRunMain) { store := some P.store, vm := R.start } :=
        (Loader.right_invariant hsha).loadModule _ _ _ hstart
      have hend : Loader.Right F (P.site request) P.compiledFrom (stateOf (P.warmLoad F R request)) := by
        rw [warmLoad, Loader.load, stateOf_eq_last]
        exact hload.last
      obtain ⟨store, hs, hr⟩ := hend.store
      have hstore : (P.after F (.load R request)).store = store := by
        simp only [after, hs, Option.getD_some]
      rw [Right, hstore]
      exact hr

theorem right_run (hsha : Function.Injective F.sha256) (files : List (Path × SourceFile))
    (acts : List (Action Ast Code X)) : ((fresh files).run F acts).Right F := by
  have hrun : ∀ (acts : List (Action Ast Code X)) (P : Project Ast Code), P.Right F → (P.run F acts).Right F := by
    intro acts
    induction acts with
    | nil => exact fun P h => h
    | cons act acts ih => exact fun P h => ih _ (right_after hsha h act)
  exact hrun acts _ (right_fresh files)

end Project

end Nodus.Loading

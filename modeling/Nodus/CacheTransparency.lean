import Nodus.CacheHistory

/-! When a load executes the program a load without cache and dependency graph would execute. -/

namespace Nodus.Loading

open PosixPath Walks Paired

variable {Ast Code X : Type}

namespace Front

/-- The imports of `p` lead to the same files for both sites and bring in the same names. -/
structure SameImports (F : Front Ast Code) (old new : Site Ast) (p : Path) (parsed : ParsedModule Ast) :
    Prop where
  imports : ∀ stmt ∈ parsed.imports, F.resolveImport old stmt.path p = F.resolveImport new stmt.path p
  exportFrom : ∀ stmt ∈ parsed.exportFrom, F.resolveImport old stmt.path p = F.resolveImport new stmt.path p
  names : ∀ stmt ∈ parsed.imports, ∀ d, F.resolveImport new stmt.path p = .ok d → ∀ exports exports',
    F.exportsOf old d = .ok exports → F.exportsOf new d = .ok exports' →
      ImportSpec.bound F.builtin ⟨stmt, d⟩ exports = ImportSpec.bound F.builtin ⟨stmt, d⟩ exports'

variable {F : Front Ast Code} {old new : Site Ast} {p : Path}

theorem mapM_congr {α β : Type} {f g : α → Except LoadError β} {l : List α} (h : ∀ a ∈ l, f a = g a) :
    l.mapM f = l.mapM g := by
  induction l with
  | nil => rfl
  | cons a l ih =>
      rw [List.mapM_cons, List.mapM_cons, h a List.mem_cons_self, ih fun b hb => h b (List.mem_cons_of_mem _ hb)]

theorem prepare_congr {parsed : ParsedModule Ast} (hparse : F.parseModule old p = F.parseModule new p)
    (hp : F.parseModule new p = .ok parsed) (h : F.SameImports old new p parsed) :
    F.prepare old p = F.prepare new p := by
  unfold prepare
  rw [hparse, hp]
  show (parsed.imports.mapM (fun stmt => (F.resolveImport old stmt.path p).map fun resolved =>
      (⟨stmt, resolved⟩ : ImportSpec)) >>= fun importSpecs =>
      parsed.exportFrom.mapM (fun stmt => (F.resolveImport old stmt.path p).map fun resolved =>
        (⟨stmt, resolved⟩ : ExportFromSpec)) >>= fun exportFromSpecs =>
      pure (⟨parsed, importSpecs, exportFromSpecs⟩ : Prepared Ast)) = _
  rw [mapM_congr fun stmt hs => congrArg (Except.map _) (h.imports stmt hs),
    mapM_congr fun stmt hs => congrArg (Except.map _) (h.exportFrom stmt hs)]
  rfl

theorem resolved_of_mapM {stmts : List ImportStmt} {specs : List ImportSpec}
    (h : stmts.mapM (fun stmt => (F.resolveImport new stmt.path p).map fun resolved =>
      (⟨stmt, resolved⟩ : ImportSpec)) = .ok specs) :
    ∀ spec ∈ specs, spec.toImportStmt ∈ stmts ∧ F.resolveImport new spec.path p = .ok spec.resolvedPath := by
  induction stmts generalizing specs with
  | nil =>
      cases h
      exact fun spec hs => absurd hs (by simp)
  | cons stmt stmts ih =>
      rw [List.mapM_cons] at h
      obtain ⟨first, hfirst, h⟩ := bind_eq_ok.mp h
      obtain ⟨rest, hrest, h⟩ := bind_eq_ok.mp h
      cases h
      intro spec hs
      rcases List.mem_cons.mp hs with rfl | hs
      · cases hr : F.resolveImport new stmt.path p with
        | error e => rw [hr] at hfirst; exact nomatch hfirst
        | ok d =>
            rw [hr] at hfirst
            cases hfirst
            exact ⟨List.mem_cons_self, hr⟩
      · obtain ⟨hmem, hres⟩ := ih hrest spec hs
        exact ⟨List.mem_cons_of_mem _ hmem, hres⟩

theorem prepare_importSpecs {pr : Prepared Ast} (h : F.prepare new p = .ok pr) :
    ∀ spec ∈ pr.importSpecs, spec.toImportStmt ∈ pr.parsed.imports ∧
      F.resolveImport new spec.path p = .ok spec.resolvedPath := by
  unfold prepare at h
  obtain ⟨parsed, _, h⟩ := bind_eq_ok.mp h
  obtain ⟨specs, hspecs, h⟩ := bind_eq_ok.mp h
  obtain ⟨_, _, h⟩ := bind_eq_ok.mp h
  cases h
  exact resolved_of_mapM hspecs

theorem bindImports_same {builtin : Name → Bool} {f g : Path → Except LoadError (List Name)}
    {specs : List ImportSpec} {acc names names' : List Name}
    (h : ∀ spec ∈ specs, ∀ exports exports', f spec.resolvedPath = .ok exports →
      g spec.resolvedPath = .ok exports' → spec.bound builtin exports = spec.bound builtin exports')
    (hf : bindImports builtin f specs acc = .ok names) (hg : bindImports builtin g specs acc = .ok names') :
    names = names' := by
  induction specs generalizing acc with
  | nil => exact Except.ok.inj (hf.symm.trans hg)
  | cons spec specs ih =>
      rw [bindImports] at hf hg
      obtain ⟨exports, hexports, hf⟩ := bind_eq_ok.mp hf
      obtain ⟨exports', hexports', hg⟩ := bind_eq_ok.mp hg
      obtain ⟨bound, hbound, hf⟩ := bind_eq_ok.mp hf
      obtain ⟨bound', hbound', hg⟩ := bind_eq_ok.mp hg
      rw [h spec List.mem_cons_self exports exports' hexports hexports'] at hbound
      have heq : bound = bound' := Except.ok.inj (hbound.symm.trans hbound')
      rw [heq] at hf
      exact ih (fun s hs => h s (List.mem_cons_of_mem _ hs)) hf hg

theorem localRecord_same {parsed : ParsedModule Ast} {record record' : MetadataRecord}
    (hparse : F.parseModule old p = F.parseModule new p) (hp : F.parseModule new p = .ok parsed)
    (h : F.SameImports old new p parsed) (hold : F.localRecord old p = .ok record)
    (hnew : F.localRecord new p = .ok record') : record = record' := by
  unfold localRecord at hold hnew
  rw [prepare_congr hparse hp h] at hold
  obtain ⟨pr, hpr, hold⟩ := bind_eq_ok.mp hold
  obtain ⟨pr', hpr', hnew⟩ := bind_eq_ok.mp hnew
  have heq : pr = pr' := Except.ok.inj (hpr.symm.trans hpr')
  subst heq
  unfold Prepared.assemble at hold hnew
  obtain ⟨names, hnames, hold⟩ := bind_eq_ok.mp hold
  obtain ⟨names', hnames', hnew⟩ := bind_eq_ok.mp hnew
  obtain ⟨_, _, hold⟩ := bind_eq_ok.mp hold
  obtain ⟨_, _, hnew⟩ := bind_eq_ok.mp hnew
  cases hold
  cases hnew
  have hparsed : pr.parsed = parsed := Except.ok.inj ((prepare_parsed hpr).symm.trans hp)
  have hsame : names = names' := by
    refine bindImports_same (fun spec hs exports exports' he he' => ?_) hnames hnames'
    obtain ⟨hmem, hres⟩ := prepare_importSpecs hpr spec hs
    rw [hparsed] at hmem
    exact h.names spec.toImportStmt hmem spec.resolvedPath hres exports exports' he he'
  rw [hsame]

end Front

namespace Project

open Loader

/-- What a load trusts its store for. Of the modules below the root whose cached entry the dependency graph and
the source digest let it use: the imports lead to the files, and bring in the names, that they did when the module
was compiled; the modules they lead to build, without a circle; and no such module is loaded after a fresh module
that it imports and whose own entry is lacking. -/
structure Trusted (F : Front Ast Code) (P : Project Ast Code) (R : Runtime Code X) (request : Request Ast) :
    Prop where
  imports : ∀ p old parsed, Reaches (F.importsOf (P.site request)) request.root p →
    Cached F (P.site request) P.store p → P.compiledFrom p = some old →
    F.parseModule (P.site request) p = .ok parsed → F.SameImports old (P.site request) p parsed
  builds : ∀ p, Reaches (F.importsOf (P.site request)) request.root p →
    Cached F (P.site request) P.store p → F.Builds (P.site request) p
  order : SafeOrder F (P.site request) P.store (stateOf (P.coldLoad F R request)).modules

variable {F : Front Ast Code} {P : Project Ast Code} {R : Runtime Code X} {request : Request Ast}

theorem Trusted.startSound (hsha : Function.Injective F.sha256) (hr : P.Right F) (h : P.Trusted F R request) :
    StartSound F (P.site request) P.store := by
  intro p entry hroot hentry
  have hright : F.StoreRight (owner (P.site request) [] P.compiledFrom) P.store := by
    intro q node e hnode he
    obtain ⟨s, hs, hright⟩ := hr q node e hnode he
    exact ⟨s, by simpa [owner] using hs, hright⟩
  obtain ⟨old, hold, hentryRight, hparse⟩ := entry_of_usable hsha rfl hright hentry
  have hcached : Cached F (P.site request) P.store p := ⟨entry, hentry⟩
  have hbuilds := h.builds p hroot hcached
  obtain ⟨record, hrecord⟩ := hbuilds.exists_record
  obtain ⟨pr, _, hpr, _, _, _⟩ := Front.localRecord_eq_ok hrecord
  have hparsed := Front.prepare_parsed hpr
  have hsame := Front.localRecord_same hparse hparsed (h.imports p old pr.parsed hroot hcached hold hparsed)
    hentryRight.record hrecord
  refine ⟨hbuilds, ?_, fun parsed hp => ?_, hcached⟩
  · rw [hsame]
    exact hrecord
  · rw [← hparse] at hp
    exact hentryRight.compiled parsed hp

theorem outcome_eq_of_agree {site : Site Ast} {start : Store Code} {c d : Loader Ast Code X PUnit}
    {st t : LoaderState Ast Code X} (h : Agrees F site start c d st t) : outcome (c st) = outcome (d t) := by
  unfold Agrees AgreeAt at h
  unfold outcome
  cases hc : c st with
  | ok a st' =>
      cases hd : d t with
      | ok b t' => rw [hc, hd] at h; exact congrArg (Prod.mk none) h.2.vm
      | error e t' => rw [hc, hd] at h; exact h.elim
  | error e st' =>
      cases hd : d t with
      | ok b t' => rw [hc, hd] at h; exact h.elim
      | error e' t' => rw [hc, hd] at h; exact Prod.ext (congrArg some h.1) h.2

/-- In every run of edits, losses and loads, a load whose trust in its store is justified executes what a load
without cache and dependency graph would execute, whatever the modules do when they are executed. -/
theorem load_transparent (hsha : Function.Injective F.sha256) (files : List (Path × SourceFile))
    (acts : List (Action Ast Code X)) (h : ((fresh files).run F acts).Trusted F R request) :
    outcome (((fresh files).run F acts).warmLoad F R request) =
        outcome (((fresh files).run F acts).coldLoad F R request) ∧
      ∀ st, ((fresh files).run F acts).coldLoad F R request ≠ .error .bound st := by
  refine ⟨?_, fun st => load_ne_bound none st⟩
  generalize hP : (fresh files).run F acts = P at h
  have hright : P.Right F := hP ▸ right_run hsha files acts
  have hsound := h.startSound hsha hright
  have hrel : Rel F (P.site request) P.store ({ store := some P.store, vm := R.start } : LoaderState Ast Code X)
      { store := none, vm := R.start } :=
    { modules := rfl, loadingStack := rfl, vm := rfl, stack := rfl, coldStack := rfl, coldStore := rfl
      memo := memoSound_nil
      coldMemo := memoSound_nil
      drift := ⟨P.store, rfl, fun _ _ => rfl, fun _ _ => rfl⟩
      recompiled := fun _ hq => nomatch hq
      tracked := fun _ hq => nomatch hq }
  have horder := h.order
  rw [coldLoad, load, stateOf_eq_last] at horder
  have hagree := loadModule_agree (R := R) hsound (Reaches.refl request.root) hrel horder
  exact outcome_eq_of_agree hagree

end Project

/-- The parser on the three texts of the example project. -/
def exampleParse (text : String) : Except String (ParsedModule String) :=
  if text = "import \"util\"" then .ok ⟨text, [⟨"util".toList, [], none⟩], [], [], [], false, []⟩
  else if text = "let a = 1" then .ok ⟨text, [], [], ["a"], ["a"], false, []⟩
  else if text = "let b = 2" then .ok ⟨text, [], [], ["b"], ["b"], false, []⟩
  else .error "Unexpected token"

/-- Code that keeps the text and the imported names it was compiled with. -/
def exampleFront : Front String (String × List Name) where
  importEnv := ImportEnv.project
  projectRoot := "/p".toList
  sha256 := id
  parse _ := exampleParse
  compile _ parsed importNames := .ok (parsed.ast, importNames)
  builtin _ := false

/-- A machine that records what it executes. -/
def exampleRuntime : Runtime (String × List Name) (List (Path × String × List Name)) where
  start := []
  bindImport _ _ := pure ()
  execute p code _ _ := fun trace => .ok () (trace ++ [(p, code)])
  hasGlobal _ _ _ := false
  bindExport _ _ _ := pure ()

namespace Project

open Loader

/-- `main.nd` imports `util`, which is `util/index.nd`. -/
def exampleFiles : List (Path × SourceFile) :=
  [("/p/main.nd".toList, ⟨"import \"util\"", 1⟩), ("/p/util/index.nd".toList, ⟨"let a = 1", 1⟩)]

def loadMain : Request String where
  root := "/p/main.nd".toList

/-- After one load of `main.nd`. -/
def loadedOnce : Project String (String × List Name) :=
  (fresh exampleFiles).run exampleFront [.load exampleRuntime loadMain]

theorem site_after_load (F : Front Ast Code) (P : Project Ast Code) (R : Runtime Code X)
    (request request' : Request Ast) : (P.after F (.load R request)).site request' = P.site request' := rfl

theorem compiledFrom_after_load {F : Front Ast Code} {files : List (Path × SourceFile)} {R : Runtime Code X}
    {request : Request Ast} {p : Path} {old : Site Ast}
    (h : ((fresh files).after F (.load R request)).compiledFrom p = some old) :
    old = ((fresh files).after F (.load R request)).site request := by
  rw [site_after_load]
  simp only [after] at h
  split at h
  · exact (Option.some.inj h).symm
  · exact (Option.some_ne_none old h.symm).elim

theorem builds_loadedOnce : exampleFront.Builds (loadedOnce.site loadMain) "/p/main.nd".toList := by
  have hmain : exampleFront.importsOf (loadedOnce.site loadMain) "/p/main.nd".toList =
      ["/p/util/index.nd".toList] := by decide +kernel
  have hutil : exampleFront.importsOf (loadedOnce.site loadMain) "/p/util/index.nd".toList = [] := by
    decide +kernel
  have hmainRecord : exampleFront.localRecord (loadedOnce.site loadMain) "/p/main.nd".toList =
      .ok ⟨[], ["a"], [⟨⟨"util".toList, [], none⟩, "/p/util/index.nd".toList⟩], [], [], false, []⟩ := rfl
  have hutilRecord : exampleFront.localRecord (loadedOnce.site loadMain) "/p/util/index.nd".toList =
      .ok ⟨["a"], [], [], [], ["a"], false, []⟩ := rfl
  refine .intro hmainRecord fun d hd => ?_
  rw [hmain, List.mem_singleton] at hd
  subst hd
  refine .intro hutilRecord fun d hd => ?_
  rw [hutil] at hd
  exact absurd hd (by simp)

/-- A second load of the unchanged project. -/
theorem loadedOnce_transparent :
    outcome (loadedOnce.warmLoad exampleFront exampleRuntime loadMain) =
        outcome (loadedOnce.coldLoad exampleFront exampleRuntime loadMain) ∧
      ∀ st, loadedOnce.coldLoad exampleFront exampleRuntime loadMain ≠ .error .bound st := by
  refine load_transparent Function.injective_id exampleFiles [.load exampleRuntime loadMain] ⟨?_, ?_, ?_⟩
  · intro p old parsed _ _ hold _
    rw [compiledFrom_after_load hold]
    refine ⟨fun _ _ => rfl, fun _ _ => rfl, fun stmt _ d _ exports exports' he he' => ?_⟩
    rw [Except.ok.inj (he.symm.trans he')]
  · exact fun p hp _ => builds_loadedOnce.reaches hp
  · intro p loaded hsuffix _ q hq _ hlack
    have hmodules : (stateOf (loadedOnce.coldLoad exampleFront exampleRuntime loadMain)).modules =
        ["/p/util/index.nd".toList, "/p/main.nd".toList] := by decide +kernel
    have hentries : ∀ x ∈ ["/p/util/index.nd".toList, "/p/main.nd".toList],
        (exampleFront.loadCachedBytecode (loadedOnce.site loadMain) (some loadedOnce.store) x).isSome = true := by
      decide +kernel
    have hmem : q ∈ (stateOf (loadedOnce.coldLoad exampleFront exampleRuntime loadMain)).modules :=
      hsuffix.subset (List.mem_cons_of_mem p hq)
    rw [hmodules] at hmem
    have hentry := hentries q hmem
    have hnone : exampleFront.loadCachedBytecode (loadedOnce.site loadMain) (some loadedOnce.store) q = none :=
      hlack.noEntry
    rw [hnone] at hentry
    exact nomatch hentry

/-- `util.nd` is created beside `util/`, and `import "util"` means the new file. -/
def loadedAndShadowed : Project String (String × List Name) :=
  (fresh exampleFiles).run exampleFront
    [.load exampleRuntime loadMain, .write "/p/util.nd".toList ⟨"let b = 2", 2⟩]

theorem shadowed_warm : outcome (loadedAndShadowed.warmLoad exampleFront exampleRuntime loadMain) =
    (none, [("/p/util/index.nd".toList, "let a = 1", []), ("/p/main.nd".toList, "import \"util\"", ["a"])]) := by
  decide +kernel

theorem shadowed_cold : outcome (loadedAndShadowed.coldLoad exampleFront exampleRuntime loadMain) =
    (none, [("/p/util.nd".toList, "let b = 2", []), ("/p/main.nd".toList, "import \"util\"", ["b"])]) := by
  decide +kernel

/-- The next load still executes `util/index.nd`. -/
theorem shadowed_load_differs :
    outcome (loadedAndShadowed.warmLoad exampleFront exampleRuntime loadMain) ≠
      outcome (loadedAndShadowed.coldLoad exampleFront exampleRuntime loadMain) := by
  rw [shadowed_warm, shadowed_cold]
  decide

end Project

end Nodus.Loading

import Nodus.Syntax
import Nodus.ImportPaths
import Nodus.Walks

/-! Loading a program: the metadata of its modules, their bytecode from the cache or the compiler,
and the order in which they are executed. A load reads the module files and keeps a bytecode cache
and a dependency graph beside them. Sets of names are lists in the order they are iterated. -/

namespace Nodus.Loading

open PosixPath

inductive LoadError where
  | circularImport (cycle : List Path)
  | unreadable (module : Path)
  | syntaxError (message : String)
  | importFailed (reason : ImportError)
  | builtinImport (names : List Name) (module : Path)
  | notExported (names : List Name) (module : Path)
  | reexportFailed (names : List Name) (module : Path)
  | compileError (message : String)
  /-- `Module metadata for … is not available for compilation`. -/
  | notAvailable (module : Path)
  | raised (message : String)
  /-- The model's recursion bound; no load reaches it. -/
  | bound
  deriving DecidableEq, Repr

structure ImportStmt where
  path : Path
  names : List Name
  aliasName : Option Name
  deriving DecidableEq, Repr

structure ExportFromStmt where
  path : Path
  names : List Name
  deriving DecidableEq, Repr

/-- A parsed module and what is read off its tree: its imports, its definitions and exports, the names
it declares `extern`, and whether its top level calls `main()`. -/
structure ParsedModule (Ast : Type) where
  ast : Ast
  imports : List ImportStmt
  exportFrom : List ExportFromStmt
  exports : List Name
  defs : List Name
  topLevelMainCall : Bool
  externs : List Name

structure ImportSpec extends ImportStmt where
  resolvedPath : Path
  deriving DecidableEq, Repr

structure ExportFromSpec extends ExportFromStmt where
  resolvedPath : Path
  deriving DecidableEq, Repr

/-- What `_serialize_module_metadata` keeps of a module's metadata. -/
structure MetadataRecord where
  exports : List Name
  importNames : List Name
  importSpecs : List ImportSpec
  exportFromSpecs : List ExportFromSpec
  defs : List Name
  topLevelMainCall : Bool
  externs : List Name
  deriving DecidableEq, Repr

/-- `parsed` is missing from metadata that came out of the cache. -/
structure ModuleMetadata (Ast : Type) extends MetadataRecord where
  parsed : Option (ParsedModule Ast)

structure DependencyNode where
  importedModules : List Path
  lastCompiledMtime : Nat
  deriving DecidableEq, Repr

structure CacheEntry (Code : Type) where
  sourceSha256 : String
  code : Code
  metadata : MetadataRecord

/-- What a project keeps between loads. The cache holds the files that decode, by path and
modification time; a missing or damaged file is no entry. -/
structure Store (Code : Type) where
  cache : Path → Nat → Option (CacheEntry Code)
  graph : List (Path × DependencyNode)

structure SourceFile where
  text : String
  mtime : Nat
  deriving DecidableEq, Repr

/-- The parts a load uses and does not depend on: import resolution over the files that exist, the
parser and the compiler. -/
structure Front (Ast Code : Type) where
  importEnv : (Path → Bool) → ImportEnv
  projectRoot : Path
  sha256 : String → String
  parse : Path → String → Except String (ParsedModule Ast)
  compile : Path → ParsedModule Ast → List Name → Except String Code
  builtin : Name → Bool

/-- What one load reads: the files, the root module, a text handed over under the root's name, and a
filter on the statements of each module. -/
structure Site (Ast : Type) where
  files : List (Path × SourceFile)
  root : Path
  source : Option String := none
  statementFilter : Option (ParsedModule Ast → ParsedModule Ast) := none
  autoRunMain : Bool := false

/-- The virtual machine the modules are executed on, and the module objects on it. -/
structure Runtime (Code X : Type) where
  start : X
  bindImport : Path → ImportSpec → EStateM String X PUnit
  execute : Path → Code → Bool → List Name → EStateM String X PUnit
  hasGlobal : X → Path → Name → Bool
  bindExport : Path → Name → Option Path → EStateM String X PUnit

structure LoaderState (Ast Code X : Type) where
  /-- Missing when there is no project root. -/
  store : Option (Store Code)
  metadata : List (Path × ModuleMetadata Ast) := []
  metadataStack : List Path := []
  /-- The latest first. -/
  modules : List Path := []
  loadingStack : List Path := []
  recompiled : List Path := []
  vm : X

abbrev Loader (Ast Code X : Type) := EStateM LoadError (LoaderState Ast Code X)

variable {Ast Code X : Type}

namespace Site

variable (site : Site Ast)

def file (p : Path) : Option SourceFile := site.files.lookup p

/-- The text a module is parsed from. -/
def text (p : Path) : Option String :=
  if p = site.root then site.source <|> (site.file p).map (·.text) else (site.file p).map (·.text)

def paths : List Path := site.root :: site.files.map Prod.fst

end Site

section Metadata

variable {m : Type → Type} [Monad m] [MonadExceptOf LoadError m]

/-- The names an import brings in from a module with the given exports. -/
def ImportSpec.bound (builtin : Name → Bool) (spec : ImportSpec) (exports : List Name) :
    Except LoadError (List Name) :=
  if spec.names ≠ [] then
    let shadowed := spec.names.filter builtin
    let missing := spec.names.filter (· ∉ exports)
    if shadowed ≠ [] then .error (.builtinImport shadowed spec.resolvedPath)
    else if missing ≠ [] then .error (.notExported missing spec.resolvedPath)
    else .ok spec.names
  else match spec.aliasName with
    | some aliasName => .ok [aliasName]
    | none => .ok exports

def ExportFromSpec.check (spec : ExportFromSpec) (exports : List Name) : Except LoadError PUnit :=
  let missing := spec.names.filter (· ∉ exports)
  if missing ≠ [] then .error (.reexportFailed missing spec.resolvedPath) else .ok ()

def bindImports (builtin : Name → Bool) (exportsOf : Path → m (List Name)) :
    List ImportSpec → List Name → m (List Name)
  | [], importNames => pure importNames
  | spec :: specs, importNames => do
      let exports ← exportsOf spec.resolvedPath
      let names ← MonadExcept.ofExcept (spec.bound builtin exports)
      bindImports builtin exportsOf specs (importNames ++ names)

def checkReexports (exportsOf : Path → m (List Name)) : List ExportFromSpec → m PUnit
  | [] => pure ()
  | spec :: specs => do
      let exports ← exportsOf spec.resolvedPath
      MonadExcept.ofExcept (spec.check exports)
      checkReexports exportsOf specs

/-- A parsed module with its imports resolved. -/
structure Prepared (Ast : Type) where
  parsed : ParsedModule Ast
  importSpecs : List ImportSpec
  exportFromSpecs : List ExportFromSpec

def Prepared.dependencies (pr : Prepared Ast) : List Path :=
  pr.importSpecs.map (·.resolvedPath) ++ pr.exportFromSpecs.map (·.resolvedPath)

def Prepared.record (pr : Prepared Ast) (importNames : List Name) : MetadataRecord where
  exports := pr.parsed.exports
  importNames := importNames
  importSpecs := pr.importSpecs
  exportFromSpecs := pr.exportFromSpecs
  defs := pr.parsed.defs
  topLevelMainCall := pr.parsed.topLevelMainCall
  externs := pr.parsed.externs

/-- The metadata of a prepared module, from the exports of the modules it imports. -/
def Prepared.assemble (builtin : Name → Bool) (exportsOf : Path → m (List Name)) (pr : Prepared Ast) :
    m MetadataRecord := do
  let importNames ← bindImports builtin exportsOf pr.importSpecs []
  checkReexports exportsOf pr.exportFromSpecs
  pure (pr.record importNames)

end Metadata

namespace Front

variable (F : Front Ast Code) (site : Site Ast)

def resolveImport (importPath module : Path) : Except LoadError Path :=
  match (F.importEnv fun q => (site.file q).isSome).resolveImportPath importPath (dirname module)
      (some F.projectRoot) with
  | .ok p => .ok p
  | .error e => .error (.importFailed e)

def parseModule (p : Path) : Except LoadError (ParsedModule Ast) :=
  match site.text p with
  | none => .error (.unreadable p)
  | some text =>
      match F.parse p text with
      | .ok parsed => .ok (site.statementFilter.getD id parsed)
      | .error message => .error (.syntaxError message)

def prepare (p : Path) : Except LoadError (Prepared Ast) := do
  let parsed ← F.parseModule site p
  let importSpecs ← parsed.imports.mapM fun stmt =>
    (F.resolveImport site stmt.path p).map fun resolved => ⟨stmt, resolved⟩
  let exportFromSpecs ← parsed.exportFrom.mapM fun stmt =>
    (F.resolveImport site stmt.path p).map fun resolved => ⟨stmt, resolved⟩
  pure ⟨parsed, importSpecs, exportFromSpecs⟩

/-- `_source_is_the_file`. -/
def sourceIsTheFile (site : Site Ast) (p : Path) : Bool :=
  site.statementFilter.isNone &&
    if p = site.root then
      match site.source with
      | none => true
      | some source => (site.file p).map (·.text) = some source
    else true

/-- `_is_module_stale`; every step but the last adds a module of the graph to `seen`. -/
def isModuleStale (files : List (Path × SourceFile)) (graph : List (Path × DependencyNode))
    (recompiled : List Path) : Nat → List Path → Path → Bool
  | 0, _, _ => true
  | fuel + 1, seen, p =>
      if p ∈ seen then false
      else if p ∈ recompiled then true
      else match graph.lookup p, files.lookup p with
        | some node, some file =>
            if file.mtime ≠ node.lastCompiledMtime then true
            else node.importedModules.any fun d =>
              decide (d ∈ recompiled) || isModuleStale files graph recompiled fuel (p :: seen) d
        | _, _ => true

/-- `_can_skip_reprocessing`. -/
def canSkipReprocessing (st : LoaderState Ast Code X) (p : Path) : Bool :=
  match st.store with
  | none => false
  | some store => !isModuleStale site.files store.graph st.recompiled (store.graph.length + 1) [] p

/-- `_cache_is_authoritative`. -/
def cacheIsAuthoritative (st : LoaderState Ast Code X) (p : Path) : Bool :=
  sourceIsTheFile site p && canSkipReprocessing site st p

/-- `load_cached_bytecode`. -/
def loadCachedBytecode (store : Option (Store Code)) (p : Path) : Option (CacheEntry Code) := do
  let store ← store
  let file ← site.file p
  let entry ← store.cache p file.mtime
  if entry.sourceSha256 = F.sha256 file.text then some entry else none

/-- The entry that stands in for a module, if the cache may be used and has one. -/
def usable (st : LoaderState Ast Code X) (p : Path) : Option (CacheEntry Code) :=
  if cacheIsAuthoritative site st p then F.loadCachedBytecode site st.store p else none

end Front

namespace Loader

variable (F : Front Ast Code) (site : Site Ast)

/-- Runs with `p` on the metadata stack, and takes it off again whether it returns or fails. -/
def onMetadataStack {α : Type} (p : Path) (c : Loader Ast Code X α) : Loader Ast Code X α := fun st =>
  match c { st with metadataStack := p :: st.metadataStack } with
  | .ok a st' => .ok a { st' with metadataStack := st'.metadataStack.erase p }
  | .error e st' => .error e { st' with metadataStack := st'.metadataStack.erase p }

def onLoadingStack {α : Type} (p : Path) (c : Loader Ast Code X α) : Loader Ast Code X α := fun st =>
  match c { st with loadingStack := p :: st.loadingStack } with
  | .ok a st' => .ok a { st' with loadingStack := st'.loadingStack.erase p }
  | .error e st' => .error e { st' with loadingStack := st'.loadingStack.erase p }

def onVm (act : EStateM String X PUnit) : Loader Ast Code X PUnit := fun st =>
  match act st.vm with
  | .ok _ vm => .ok () { st with vm := vm }
  | .error message vm => .error (.raised message) { st with vm := vm }

/-- The cycle an error names, from the stack with its top first. -/
def cycleOf (stack : List Path) (p : Path) : List Path := stack.reverse.dropWhile (· ≠ p) ++ [p]

def keep (p : Path) (metadata : ModuleMetadata Ast) : Loader Ast Code X (ModuleMetadata Ast) := fun st =>
  .ok metadata { st with metadata := (p, metadata) :: st.metadata }

/-- The metadata of a module that has to be parsed. -/
def parsedMetadata (buildMetadata : Path → Loader Ast Code X (ModuleMetadata Ast)) (p : Path) :
    Loader Ast Code X (ModuleMetadata Ast) := do
  let pr ← MonadExcept.ofExcept (F.prepare site p)
  let record ← pr.assemble F.builtin fun d => do
    let metadata ← buildMetadata d
    pure metadata.exports
  keep p { record with parsed := some pr.parsed }

/-- `_build_metadata`. -/
def buildMetadata : Nat → Path → Loader Ast Code X (ModuleMetadata Ast)
  | 0, _ => throw .bound
  | fuel + 1, p => fun st =>
      match st.metadata.lookup p with
      | some metadata => .ok metadata st
      | none =>
          if p ∈ st.metadataStack then .error (.circularImport (cycleOf st.metadataStack p)) st
          else match F.usable site st p with
            | some entry => onMetadataStack p (keep p { entry.metadata with parsed := none }) st
            | none => onMetadataStack p (parsedMetadata F site (buildMetadata fuel) p) st

/-- `write_cached_bytecode` and `_record_dependency_graph`. -/
def written (store : Store Code) (p : Path) (file : SourceFile) (code : Code) (record : MetadataRecord) :
    Store Code where
  cache q mtime :=
    if q = p ∧ mtime = file.mtime then some ⟨F.sha256 file.text, code, record⟩ else store.cache q mtime
  graph := (p, ⟨record.importSpecs.map (·.resolvedPath) ++ record.exportFromSpecs.map (·.resolvedPath),
    file.mtime⟩) :: store.graph.filter (·.1 ≠ p)

/-- What a compilation leaves behind. -/
def recordCompiled (p : Path) (code : Code) (record : MetadataRecord) (st : LoaderState Ast Code X) :
    LoaderState Ast Code X :=
  if Front.sourceIsTheFile site p then
    { st with
      store := match st.store, site.file p with
        | some store, some file => some (written F store p file code record)
        | store, _ => store
      recompiled := p :: st.recompiled }
  else st

/-- `_load_or_compile_module_bytecode`. -/
def loadOrCompile (p : Path) (metadata : ModuleMetadata Ast) : Loader Ast Code X Code := fun st =>
  match F.usable site st p with
  | some entry => .ok entry.code st
  | none =>
      match metadata.parsed with
      | none => .error (.notAvailable p) st
      | some parsed =>
          match F.compile p parsed metadata.importNames with
          | .error message => .error (.compileError message) st
          | .ok code => .ok code (recordCompiled F site p code metadata.toMetadataRecord st)

variable (R : Runtime Code X)

/-- `_resolve_import_bindings`. -/
def resolveImportBindings (loadModule : Path → Loader Ast Code X PUnit) (p : Path) :
    List ImportSpec → Loader Ast Code X PUnit
  | [] => pure ()
  | spec :: specs => do
      loadModule spec.resolvedPath
      onVm (R.bindImport p spec)
      resolveImportBindings loadModule p specs

/-- `_build_exports` for one name. -/
def buildExport (loadModule : Path → Loader Ast Code X PUnit) (p : Path) (record : MetadataRecord)
    (name : Name) : Loader Ast Code X PUnit := fun st =>
  if R.hasGlobal st.vm p name || record.defs.contains name then onVm (R.bindExport p name none) st
  else match record.exportFromSpecs.find? fun spec => spec.names.contains name with
    | none => .ok () st
    | some spec =>
        (do
          (if (record.importSpecs.map ImportSpec.resolvedPath).contains spec.resolvedPath then pure ()
            else loadModule spec.resolvedPath)
          onVm (R.bindExport p name (some spec.resolvedPath))) st

def buildExports (loadModule : Path → Loader Ast Code X PUnit) (p : Path) (record : MetadataRecord) :
    List Name → Loader Ast Code X PUnit
  | [] => pure ()
  | name :: names => do
      buildExport R loadModule p record name
      buildExports loadModule p record names

def register (p : Path) : Loader Ast Code X PUnit := fun st =>
  .ok () { st with modules := p :: st.modules }

/-- Loading a module that is not there yet: it is registered before its imports are loaded. -/
def loadNew (loadModule : Path → Loader Ast Code X PUnit) (p : Path) (autoRunMain : Bool) :
    Loader Ast Code X PUnit := do
  let metadata ← buildMetadata F site (site.paths.length + 1) p
  let code ← loadOrCompile F site p metadata
  register p
  resolveImportBindings R loadModule p metadata.importSpecs
  onVm (R.execute p code (autoRunMain && !metadata.topLevelMainCall) metadata.externs)
  buildExports R loadModule p metadata.toMetadataRecord metadata.exports

/-- `_load_module`. A module that is loaded already is returned before the circular import check. -/
def loadModule : Nat → Path → Bool → Loader Ast Code X PUnit
  | 0, _, _ => throw .bound
  | fuel + 1, p, autoRunMain => fun st =>
      if p ∈ st.modules then .ok () st
      else if p ∈ st.loadingStack then .error (.circularImport (cycleOf st.loadingStack p)) st
      else onLoadingStack p (loadNew F site R (fun d => loadModule fuel d false) p autoRunMain) st

/-- A load of the root with a fresh loader. -/
def load (store : Option (Store Code)) : EStateM.Result LoadError (LoaderState Ast Code X) PUnit :=
  loadModule F site R (site.paths.length + 1) site.root site.autoRunMain { store := store, vm := R.start }

end Loader

end Nodus.Loading

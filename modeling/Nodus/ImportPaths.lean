import Nodus.PosixPath

/-! Import resolution: which file an import path names, and the directories it may lie in. -/

namespace Nodus

open PosixPath

/-- What import resolution asks the system. -/
structure ImportEnv where
  cwd : Path
  /-- The directory of the loader's own module. -/
  loaderDir : Path
  /-- `_resolve_installed_package`: the root an installed package names for itself. -/
  installed : Path → Option Path
  /-- `os.path.exists`. -/
  existing : Path → Bool

inductive ImportError where
  | builtinNotModule
  | packageSyntax
  | packageName
  | escapesDependency
  | stdMissingName
  | stdLeadingSlash
  | escapesStd
  | escapesProjectRoot
  | notFound (tried : List Path)
  deriving DecidableEq, Repr

namespace ImportEnv

variable (env : ImportEnv)

def stdDir : Path := normpath (join (join env.loaderDir "..".toList) "stdlib".toList)

/-- The extensions a module file may have. -/
def hasExtension (base : Path) : Bool := ".nd".toList.isSuffixOf base || ".tl".toList.isSuffixOf base

/-- The files a base stands for, in the order they are tried. -/
def candidates (base : Path) : List Path :=
  if hasExtension base then [abspath env.cwd base]
  else [abspath env.cwd (base ++ ".nd".toList), abspath env.cwd (base ++ ".tl".toList),
    abspath env.cwd (join base "index.nd".toList), abspath env.cwd (join base "index.tl".toList)]

def tryResolveWithExtensions (base : Path) : Option Path := (env.candidates base).find? env.existing

def resolveWithExtensions (base : Path) : Except ImportError Path :=
  match env.tryResolveWithExtensions base with
  | some found => .ok found
  | none => .error (.notFound (env.candidates base))

def orTry (found : Option Path) (next : Except ImportError Path) : Except ImportError Path :=
  match found with
  | some p => .ok p
  | none => next

/-- `replace("/", os.sep).replace("\\", os.sep)`. -/
def toSep (p : Path) : Path := p.map fun c => if c = '\\' then '/' else c

def startsWithSep (p : Path) : Bool := p.head? = some '/' || p.head? = some '\\'

/-- `_resolve_std_base`. -/
def resolveStdBase (importPath : Path) : Except ImportError Path :=
  if startsWithSep importPath then .error .stdLeadingSlash
  else
    let base := normpath (join env.stdDir (toSep importPath))
    if (normpath env.stdDir).isPrefixOf base then .ok base else .error .escapesStd

/-- The start of the files an error names for a base. -/
def triedFiles (base : Path) : List Path :=
  [abspath env.cwd (base ++ ".nd".toList), abspath env.cwd (base ++ ".tl".toList),
    abspath env.cwd (join base "index.nd".toList)]

def noEntryPoint (name : Path) : Path := "<no nodus.nd entry-point for '".toList ++ name ++ "'>".toList

/-- The `package:module` form. -/
def resolvePackage (modulesDir packageName packagePath : Path) : Except ImportError Path :=
  if packageName = [] ∨ packagePath = [] then .error .packageSyntax
  else if packageName.head? = some '.' ∨ startsWithSep packageName then .error .packageName
  else
    let packageBase := normpath (join (join modulesDir packageName) (toSep packagePath))
    let packageRoot := normpath (join modulesDir packageName)
    if packageRoot.isPrefixOf packageBase then
      orTry (env.tryResolveWithExtensions packageBase) <|
        match env.installed packageName with
        | some epRoot =>
            let epBase := normpath (join epRoot (toSep packagePath))
            let missing := .error (.notFound (env.triedFiles packageBase ++ env.triedFiles epBase))
            if (normpath epRoot).isPrefixOf epBase then orTry (env.tryResolveWithExtensions epBase) missing
            else missing
        | none => .error (.notFound (env.triedFiles packageBase ++ [noEntryPoint packageName]))
    else .error .escapesDependency

/-- The `std:module` form. -/
def resolveStd (name : Path) : Except ImportError Path :=
  if name = [] then .error .stdMissingName
  else if startsWithSep name then .error .stdLeadingSlash
  else
    let base := normpath (join env.stdDir (toSep name))
    if (normpath env.stdDir).isPrefixOf base then env.resolveWithExtensions base else .error .escapesStd

/-- Where a plain import is looked up first; a dotted path must stay in the project. -/
def plainBase (projectRoot importPath baseDir : Path) : Except ImportError Path :=
  if isAbs importPath then .ok (normpath importPath)
  else if importPath.head? = some '.' then
    let base := normpath (join baseDir importPath)
    if commonpath base (normpath projectRoot) = some (normpath projectRoot) then .ok base
    else .error .escapesProjectRoot
  else .ok (normpath (join projectRoot importPath))

/-- A base without the extension it ends with. -/
def noExtension (base : Path) : Path := if hasExtension base then base.take (base.length - 3) else base

/-- The files the error of a plain import names for a base. -/
def triedPlain (base : Path) : List Path :=
  env.triedFiles base ++ [abspath env.cwd (join base "index.tl".toList)]

/-- A relative, bare or absolute import: the project, its modules, the stdlib, an installed package. -/
def resolvePlain (projectRoot modulesDir importPath baseDir : Path) : Except ImportError Path := do
  let base ← plainBase projectRoot importPath baseDir
  let modulesBase := normpath (join modulesDir importPath)
  orTry (env.tryResolveWithExtensions base) <|
    orTry (env.tryResolveWithExtensions modulesBase) <| do
      let stdBase ← env.resolveStdBase importPath
      let tried := env.triedPlain (noExtension base) ++ env.triedPlain (noExtension modulesBase) ++
        (env.triedFiles (noExtension stdBase)).take 2
      orTry (env.tryResolveWithExtensions stdBase) <|
        match env.installed importPath with
        | some epRoot =>
            orTry (env.tryResolveWithExtensions (normpath epRoot))
              (.error (.notFound (tried ++ env.triedPlain (normpath epRoot))))
        | none => .error (.notFound (tried ++ [noEntryPoint importPath]))

/-- The project root of an import; an empty one counts as none. -/
def projectRootOf (baseDir : Path) (projectRoot : Option Path) : Path :=
  abspath env.cwd (match projectRoot with
    | some root => if root = [] then baseDir else root
    | none => baseDir)

def modulesDirOf (projectRoot : Path) : Path :=
  join (join projectRoot ".nodus".toList) "modules".toList

/-- The two halves of `import_path.split(":", 1)`. -/
def splitColon (importPath : Path) : Path × Path :=
  (importPath.takeWhile (· ≠ ':'), (importPath.dropWhile (· ≠ ':')).tail)

inductive ImportForm where
  | package (name path : Path)
  | std (name : Path)
  | plain
  deriving DecidableEq, Repr

def formOf (importPath : Path) : ImportForm :=
  if "std:".toList.isPrefixOf importPath then .std (importPath.drop 4)
  else if ':' ∈ importPath then .package (splitColon importPath).1 (splitColon importPath).2
  else .plain

def resolveImportPath (importPath baseDir : Path) (projectRoot : Option Path) : Except ImportError Path :=
  let root := env.projectRootOf baseDir projectRoot
  if importPath = "std:channel".toList then .error .builtinNotModule
  else match formOf importPath with
    | .package name path => env.resolvePackage (modulesDirOf root) name path
    | .std name => env.resolveStd name
    | .plain => env.resolvePlain root (modulesDirOf root) importPath baseDir

/-! ### Where an import is looked up -/

def packageBases (modulesDir packageName packagePath : Path) : List Path :=
  if packageName = [] ∨ packagePath = [] then []
  else if packageName.head? = some '.' ∨ startsWithSep packageName then []
  else
    let packageBase := normpath (join (join modulesDir packageName) (toSep packagePath))
    if (normpath (join modulesDir packageName)).isPrefixOf packageBase then
      packageBase :: match env.installed packageName with
        | some epRoot =>
            let epBase := normpath (join epRoot (toSep packagePath))
            if (normpath epRoot).isPrefixOf epBase then [epBase] else []
        | none => []
    else []

def stdBases (name : Path) : List Path :=
  if name = [] then []
  else match env.resolveStdBase name with
    | .ok base => [base]
    | .error _ => []

def plainBases (projectRoot modulesDir importPath baseDir : Path) : List Path :=
  match plainBase projectRoot importPath baseDir with
  | .error _ => []
  | .ok base =>
      base :: normpath (join modulesDir importPath) :: match env.resolveStdBase importPath with
        | .error _ => []
        | .ok stdBase => stdBase :: (env.installed importPath).toList.map normpath

/-- The bases that are looked up, in order, until the import is refused. -/
def importBases (importPath baseDir : Path) (projectRoot : Option Path) : List Path :=
  let root := env.projectRootOf baseDir projectRoot
  if importPath = "std:channel".toList then []
  else match formOf importPath with
    | .package name path => env.packageBases (modulesDirOf root) name path
    | .std name => env.stdBases name
    | .plain => env.plainBases root (modulesDirOf root) importPath baseDir

theorem orTry_ok {found : Option Path} {next : Except ImportError Path} {p : Path} :
    orTry found next = .ok p ↔ found = some p ∨ found = none ∧ next = .ok p := by
  cases found with
  | none => simp [orTry]
  | some q => simp [orTry]

theorem resolvePackage_ok {modulesDir packageName packagePath p : Path} :
    env.resolvePackage modulesDir packageName packagePath = .ok p ↔
      (env.packageBases modulesDir packageName packagePath).findSome? env.tryResolveWithExtensions = some p := by
  unfold resolvePackage packageBases
  split
  · simp
  · split
    · simp
    · dsimp only
      split
      · rw [orTry_ok, List.findSome?_cons]
        cases env.tryResolveWithExtensions
            (normpath (join (join modulesDir packageName) (toSep packagePath))) with
        | some q => simp
        | none =>
            cases env.installed packageName with
            | none => simp
            | some epRoot =>
                dsimp only
                split
                · simp [orTry_ok]
                · simp
      · simp

theorem resolveStd_ok {name p : Path} :
    env.resolveStd name = .ok p ↔ (env.stdBases name).findSome? env.tryResolveWithExtensions = some p := by
  unfold resolveStd stdBases resolveStdBase
  split
  · simp
  · split
    · simp
    · dsimp only
      split
      · unfold resolveWithExtensions
        cases hfound : env.tryResolveWithExtensions (normpath (join env.stdDir (toSep name))) with
        | some q => simp [hfound]
        | none => simp [hfound]
      · simp

theorem resolvePlain_ok {projectRoot modulesDir importPath baseDir p : Path} :
    env.resolvePlain projectRoot modulesDir importPath baseDir = .ok p ↔
      (env.plainBases projectRoot modulesDir importPath baseDir).findSome? env.tryResolveWithExtensions =
        some p := by
  unfold resolvePlain plainBases
  cases plainBase projectRoot importPath baseDir with
  | error e => simp [bind, Except.bind]
  | ok base =>
      simp only [bind, Except.bind, orTry_ok, List.findSome?_cons]
      cases env.tryResolveWithExtensions base with
      | some q => simp
      | none =>
          cases env.tryResolveWithExtensions (normpath (join modulesDir importPath)) with
          | some q => simp
          | none =>
              cases env.resolveStdBase importPath with
              | error e => simp
              | ok stdBase =>
                  simp only [orTry_ok, List.findSome?_cons]
                  cases env.tryResolveWithExtensions stdBase with
                  | some q => simp
                  | none =>
                      cases env.installed importPath with
                      | none => simp
                      | some epRoot => simp [orTry_ok]

theorem resolveImportPath_ok {importPath baseDir p : Path} {projectRoot : Option Path} :
    env.resolveImportPath importPath baseDir projectRoot = .ok p ↔
      (env.importBases importPath baseDir projectRoot).findSome? env.tryResolveWithExtensions = some p := by
  unfold resolveImportPath importBases
  dsimp only
  split
  · simp
  · split
    · exact env.resolvePackage_ok
    · exact env.resolveStd_ok
    · exact env.resolvePlain_ok

/-- The system gives absolute paths, as the entry points of packages are required to. -/
structure Absolute (env : ImportEnv) : Prop where
  cwd : isAbs env.cwd = true
  loaderDir : isAbs env.loaderDir = true
  installed : ∀ name root, env.installed name = some root → isAbs root = true

variable {env}

theorem Absolute.stdDir (ha : env.Absolute) : isAbs env.stdDir = true :=
  isAbs_normpath (isAbs_join (isAbs_join ha.loaderDir))

theorem resolveStdBase_normal (ha : env.Absolute) {importPath base : Path}
    (hb : env.resolveStdBase importPath = .ok base) : ∃ q, isAbs q = true ∧ base = normpath q := by
  unfold resolveStdBase at hb
  split at hb
  · cases hb
  · dsimp only at hb
    split at hb
    · cases hb
      exact ⟨_, isAbs_join ha.stdDir, rfl⟩
    · cases hb

theorem packageBases_normal (ha : env.Absolute) {modulesDir packageName packagePath base : Path}
    (hm : isAbs modulesDir = true) (hb : base ∈ env.packageBases modulesDir packageName packagePath) :
    ∃ q, isAbs q = true ∧ base = normpath q := by
  unfold packageBases at hb
  split at hb
  · cases hb
  · split at hb
    · cases hb
    · dsimp only at hb
      split at hb
      · cases hb with
        | head => exact ⟨_, isAbs_join (isAbs_join hm), rfl⟩
        | tail _ hb =>
            split at hb
            · rename_i epRoot hroot
              split at hb
              · cases List.mem_singleton.mp hb
                exact ⟨_, isAbs_join (ha.installed _ _ hroot), rfl⟩
              · cases hb
            · cases hb
      · cases hb

theorem plainBase_normal {projectRoot importPath baseDir base : Path} (hr : isAbs projectRoot = true)
    (hb : plainBase projectRoot importPath baseDir = .ok base) : ∃ q, isAbs q = true ∧ base = normpath q := by
  unfold plainBase at hb
  split at hb
  · rename_i habs
    cases hb
    exact ⟨_, habs, rfl⟩
  · split at hb
    · dsimp only at hb
      split at hb
      · rename_i hcommon
        cases hb
        refine ⟨_, ?_, rfl⟩
        -- `commonpath` raises for a relative base
        have hsame := isAbs_eq_of_commonpath hcommon
        rw [isAbs_normpath hr] at hsame
        exact isAbs_of_isAbs_normpath hsame
      · cases hb
    · cases hb
      exact ⟨_, isAbs_join hr, rfl⟩

theorem importBases_normal (ha : env.Absolute) {importPath baseDir base : Path} {projectRoot : Option Path}
    (hb : base ∈ env.importBases importPath baseDir projectRoot) : ∃ q, isAbs q = true ∧ base = normpath q := by
  have hroot : isAbs (env.projectRootOf baseDir projectRoot) = true := isAbs_abspath ha.cwd
  have hmodules : isAbs (modulesDirOf (env.projectRootOf baseDir projectRoot)) = true :=
    isAbs_join (isAbs_join hroot)
  unfold importBases at hb
  dsimp only at hb
  split at hb
  · cases hb
  · split at hb
    · exact packageBases_normal ha hmodules hb
    · unfold stdBases at hb
      split at hb
      · cases hb
      · split at hb
        · rename_i hstd
          cases List.mem_singleton.mp hb
          exact resolveStdBase_normal ha hstd
        · cases hb
    · unfold plainBases at hb
      split at hb
      · cases hb
      · rename_i hplain
        cases hb with
        | head => exact plainBase_normal hroot hplain
        | tail _ hb =>
            cases hb with
            | head => exact ⟨_, isAbs_join hmodules, rfl⟩
            | tail _ hb =>
                split at hb
                · cases hb
                · rename_i hstd
                  cases hb with
                  | head => exact resolveStdBase_normal ha hstd
                  | tail _ hb =>
                      obtain ⟨epRoot, hep, rfl⟩ := List.mem_map.mp hb
                      exact ⟨epRoot, ha.installed _ _ (Option.mem_toList.mp hep), rfl⟩

/-! ### Containment -/

theorem isEnding_nd : IsEnding ".nd".toList := ⟨by decide, by decide, 'n', by decide, by decide⟩

theorem isEnding_tl : IsEnding ".tl".toList := ⟨by decide, by decide, 't', by decide, by decide⟩

theorem inside_abspath {cwd root p : Path} (hp : isAbs p = true) :
    Inside root (abspath cwd p) ↔ Inside root p := by
  rw [Inside, Inside, parts_abspath hp]

theorem isAbs_append {p q : Path} (hp : isAbs p = true) : isAbs (p ++ q) = true := by
  obtain ⟨r, rfl⟩ := isAbs_iff.mp hp
  rfl

theorem inside_extended {cwd root q ext : Path} (hq : isAbs q = true) (he : IsEnding ext) :
    Inside root (abspath cwd (normpath q ++ ext)) ↔ Inside root (normpath q) := by
  rw [inside_abspath (isAbs_append (isAbs_normpath hq)), inside_append_ending hq he, Inside, Inside,
    parts_normpath hq]

theorem inside_index {cwd root q name : Path} (hq : isAbs q = true) (hn : IsName name)
    (hi : Inside root (normpath q)) : Inside root (abspath cwd (join (normpath q) name)) := by
  have hn' := isAbs_normpath hq
  rw [inside_abspath (isAbs_join hn'), inside_join_name hn' hn]
  exact hi.within

theorem candidates_inside {root q p : Path} (hq : isAbs q = true) (hi : Inside root (normpath q))
    (hp : p ∈ env.candidates (normpath q)) : Inside root p := by
  unfold candidates at hp
  split at hp
  · cases List.mem_singleton.mp hp
    exact (inside_abspath (isAbs_normpath hq)).mpr hi
  · simp only [List.mem_cons, List.not_mem_nil, or_false] at hp
    obtain rfl | rfl | rfl | rfl := hp
    · exact (inside_extended hq isEnding_nd).mpr hi
    · exact (inside_extended hq isEnding_tl).mpr hi
    · exact inside_index hq ⟨by decide, by decide, by decide, by decide⟩ hi
    · exact inside_index hq ⟨by decide, by decide, by decide, by decide⟩ hi

theorem first_candidate (env : ImportEnv) {q : Path} (hq : isAbs q = true) :
    ∃ p ∈ env.candidates (normpath q), ∀ root, Inside root p → Inside root (normpath q) := by
  unfold candidates
  split
  · exact ⟨_, List.mem_singleton.mpr rfl, fun root hi => (inside_abspath (isAbs_normpath hq)).mp hi⟩
  · exact ⟨_, List.mem_cons_self, fun root hi => (inside_extended hq isEnding_nd).mp hi⟩

/-- The directories the form of an import names. The directory of a package is one inside the modules
directory, or the root an installed package names. -/
def Names (env : ImportEnv) (importPath baseDir : Path) (projectRoot : Option Path) (root : Path) : Prop :=
  let project := env.projectRootOf baseDir projectRoot
  match formOf importPath with
  | .package name _ =>
      (root = join (modulesDirOf project) name ∧ Inside (modulesDirOf project) root) ∨
        env.installed name = some root
  | .std _ => root = env.stdDir
  | .plain =>
      root = project ∨ root = modulesDirOf project ∨ root = env.stdDir ∨
        ∃ name, env.installed name = some root

/-- `p` lies inside a directory that the import names. -/
def Contained (env : ImportEnv) (importPath baseDir : Path) (projectRoot : Option Path) (p : Path) : Prop :=
  ∃ root, env.Names importPath baseDir projectRoot root ∧ Inside root p

theorem findSome_only {env : ImportEnv} {p base : Path} {bases : List Path}
    (hp : p ∈ env.candidates base) (hb : base ∈ bases) :
    bases.findSome? ({ env with existing := fun q => q = p } : ImportEnv).tryResolveWithExtensions =
      some p := by
  have honly : ∀ b q, ({ env with existing := fun q => q = p } : ImportEnv).tryResolveWithExtensions b = some q →
      q = p := by
    intro b q hq
    simpa using List.find?_some hq
  cases hfound : bases.findSome? ({ env with existing := fun q => q = p } : ImportEnv).tryResolveWithExtensions with
  | some q =>
      obtain ⟨b, -, hq⟩ := List.exists_of_findSome?_eq_some hfound
      rw [honly b q hq]
  | none =>
      have hnone := List.findSome?_eq_none_iff.mp hfound base hb
      rw [tryResolveWithExtensions, List.find?_eq_none] at hnone
      exact absurd (by simp) (hnone p hp)

/-- A system without installed packages, with the project in `/p`. -/
def project (existing : Path → Bool) : ImportEnv where
  cwd := "/p".toList
  loaderDir := "/lib/nodus/runtime".toList
  installed _ := none
  existing := existing

theorem project_absolute (existing : Path → Bool) : (project existing).Absolute :=
  ⟨rfl, rfl, fun _ _ h => nomatch h⟩

end ImportEnv

end Nodus

import Mathlib.Data.Char
import Mathlib.Data.Int.Order.Basic
import Mathlib.Data.List.Lex
import Mathlib.Logic.Function.Basic
import Nodus.PosixPath
import Nodus.Semver

/-! The resolution of the dependencies of a project: the manifests are followed depth first, and every name is resolved once, by
the requirement it is first met with. -/

namespace Nodus.Packages

open PosixPath

inductive SpecKind where
  | version
  | path
  deriving DecidableEq, Repr

structure DependencySpec where
  name : Text
  kind : SpecKind
  value : Text
  deriving DecidableEq, Repr

structure LockedPackage where
  version : Text
  source : Text
  deriving DecidableEq, Repr

/-- A version of a package in the local registry. -/
structure RegistryPackage where
  version : Text
  path : Path
  deriving DecidableEq, Repr

structure Manifest where
  version : Text
  dependencies : List DependencySpec
  deriving DecidableEq, Repr

/-- What there is in the place of the manifest of a directory. -/
inductive ManifestFile where
  | absent
  | broken
  | valid (manifest : Manifest)
  deriving DecidableEq, Repr

/-- The manifests of the file system, by the names of their directories. -/
abbrev Files := List Path → ManifestFile

/-- A directory is replaced. -/
def Files.place (files : Files) (directory : Path) (tree : Files) : Files := fun names =>
  if parts directory <+: names then tree (names.drop (parts directory).length) else files names

/-- A version in the index of a registry. -/
structure VersionEntry where
  version : Text
  url : Text
  /-- The archive can be fetched, and has the hash that the index says. -/
  fetched : Bool
  /-- The manifests in the archive, if it can be extracted. -/
  archive : Option Files

/-- What is done to the file system. -/
inductive FileOp where
  | rmtree (target : Path)
  | makedirs (target : Path)
  /-- The archive of a package, in a temporary directory. -/
  | download (target : Path)
  /-- Files below a directory. -/
  | extract (target : Path)
  | copytree (target : Path)
  | writeLock (target : Path)
  deriving DecidableEq, Repr

/-- Everything that a resolution reads but the manifests. -/
structure World where
  tables : TextTables
  root : Path
  dependencies : List DependencySpec
  /-- The lock file, or nothing when the lock is updated. -/
  locked : Text → Option LockedPackage
  /-- The local registry. -/
  registry : Text → List RegistryPackage
  /-- The indices that a remote registry answers with, if there is one. -/
  client : Option (Text → Option (List VersionEntry))
  /-- The temporary directory of a download. -/
  tmp : Path

/-- With the requirement it has been met with first, and what its manifest requires. -/
structure ResolvedPackage where
  name : Text
  version : Text
  path : Path
  dependencies : List Text := []
  owner : Path
  spec : DependencySpec
  specs : List DependencySpec := []
  deriving DecidableEq, Repr

structure Resolution where
  files : Files
  packages : Text → Option ResolvedPackage := fun _ => none
  installOrder : List Text := []
  ops : List FileOp := []

inductive ResolveError where
  | unsatisfied (spec : DependencySpec)
  | cyclic (names : List Text)
  | manifest (path : Path)
  /-- No index can be had. -/
  | index (name : Text)
  /-- No version can be selected for a requirement, whatever the reason. -/
  | unselected (spec : DependencySpec)
  /-- The entry of the index has no address, or the package cannot be downloaded. -/
  | download (name : Text)
  | recursion
  deriving DecidableEq, Repr

namespace World

variable (w : World)

def nodusDir : Path := join w.root ".nodus".toList

def modulesDir : Path := join w.nodusDir "modules".toList

def stagingDir : Path := join w.nodusDir "_staging".toList

def lockPath : Path := join w.root "nodus.lock".toList

/-- `_resolve_path`. -/
def resolvePath (ownerRoot value : Path) : Path := normpath (join ownerRoot value)

/-- `_validate_locked_or_resolved`. -/
def validates (spec : DependencySpec) (version : Text) : Bool :=
  spec.kind ≠ .version || matchesRequirement w.tables spec.value version

/-- A part of `_version_sort_key`. -/
def sortPart (part : Text) : Option Int :=
  if part ≠ [] ∧ part.all w.tables.isDigit then (w.tables.int part).map Int.ofNat else some (-1)

/-- `_version_sort_key`. -/
def versionSortKey (text : Text) : Option (Int ×ₗ Int ×ₗ Int ×ₗ Text) := do
  let numeric ← ((text.splitOn '.').take 3).mapM w.sortPart
  pure (toLex (numeric.getD 0 0, toLex (numeric.getD 1 0, toLex (numeric.getD 2 0, text))))

/-- `Registry.available_versions`. -/
def availableVersions (name : Text) : Option (List RegistryPackage) := do
  let keyed ← (w.registry name).mapM fun package => (w.versionSortKey package.version).map (·, package)
  pure ((keyed.insertionSort fun a b => a.1 ≤ b.1).map Prod.snd)

/-- The candidates with their versions; one that is not a version makes the sort raise. -/
def versioned {α : Type} (version : α → Text) (candidates : List α) : Option (List (Version × α)) :=
  candidates.mapM fun candidate => (Version.parse w.tables (version candidate)).map (·, candidate)

/-- `_select_registry_package`, for a requirement without a lock. -/
def selectUnlocked (spec : DependencySpec) : Option RegistryPackage := do
  let candidates ← w.availableVersions spec.name
  let matching ← w.versioned RegistryPackage.version
    (candidates.filter fun candidate => matchesRequirement w.tables spec.value candidate.version)
  (highest matching).map Prod.snd

/-- `_select_registry_package`, for a version that is locked. -/
def selectLocked (spec : DependencySpec) (locked : LockedPackage) : Option RegistryPackage := do
  let candidates ← w.availableVersions spec.name
  let package ← (w.registry spec.name).find? (·.version = locked.version)
  if candidates ≠ [] ∧ w.validates spec package.version then some package else none

/-- `resolve_version`, of the entries of an index. What is not a version is left out. -/
def resolveVersion (entries : List VersionEntry) (constraint : Text) : Option VersionEntry := do
  let range ← VersionRange.parse w.tables constraint
  let matching := (entries.filterMap fun entry => (Version.parse w.tables entry.version).map (·, entry)).filter
    fun candidate => range.matches candidate.1
  (highest matching).map Prod.snd

/-- The constraint that a package is looked for with: what is locked goes before what is required. -/
def constraint (spec : DependencySpec) : Text :=
  match w.locked spec.name with
  | some locked => if locked.source = "registry".toList then locked.version else spec.value
  | none => spec.value

/-- The name of a downloaded archive. -/
def archiveName (name url : Text) : Path :=
  let last := ((url.splitOn '/').getLast?.getD []).takeWhile (· ≠ '?')
  if last = [] then name ++ ".tar.gz".toList else last

/-- `install_package`, and whether it succeeds. A directory is not opened as an archive to be written. -/
def installPackage (name : Text) (entry : VersionEntry) (r : Resolution) : Bool × Resolution :=
  if entry.url = [] then (false, r)
  else
    let dest := join w.stagingDir name
    let archive := archiveName name entry.url
    let r' := { r with ops := r.ops ++ [.rmtree dest, .makedirs dest] }
    if entry.fetched = false ∨ archive = ['.'] ∨ archive = ['.', '.'] then (false, r')
    else
      let r'' := { r' with ops := r'.ops ++ [.download (join w.tmp archive), .extract dest] }
      match entry.archive with
      | none => (false, r'')
      | some tree => (true, { r'' with files := r''.files.place dest tree })

/-- `_resolve_single_dependency`. -/
def resolveSingle (ownerRoot : Path) (spec : DependencySpec) (r : Resolution) :
    Except ResolveError ResolvedPackage × Resolution :=
  match spec.kind, w.client with
  | .path, _ =>
      let path := resolvePath ownerRoot spec.value
      match r.files (parts path) with
      | .valid manifest => (.ok { name := spec.name, version := manifest.version, path := path, owner := ownerRoot, spec := spec }, r)
      | _ => (.error (.manifest path), r)
  | .version, some index =>
      match index spec.name with
      | none => (.error (.index spec.name), r)
      | some entries =>
          match w.resolveVersion entries (w.constraint spec) with
          | none => (.error (.unselected spec), r)
          | some entry =>
              match w.installPackage spec.name entry r with
              | (false, r') => (.error (.download spec.name), r')
              | (true, r') =>
                  (.ok { name := spec.name, version := entry.version, path := join w.stagingDir spec.name, owner := ownerRoot,
                          spec := spec }, r')
  | .version, none =>
      let selected := match w.locked spec.name with
        | some locked => if w.validates spec locked.version then w.selectLocked spec locked else none
        | none => w.selectUnlocked spec
      match selected with
      | none => (.error (.unselected spec), r)
      | some package =>
          (.ok { name := spec.name, version := package.version, path := package.path, owner := ownerRoot, spec := spec }, r)

/-- `_load_dependency_specs`. -/
def loadDependencySpecs (files : Files) (path : Path) : Option (List DependencySpec) :=
  match files (parts path) with
  | .absent => some []
  | .broken => none
  | .valid manifest => some manifest.dependencies

/-- Requirements one after the other. -/
def resolveEach (resolve : DependencySpec → Resolution → Except ResolveError Text × Resolution) :
    List DependencySpec → Resolution → Except ResolveError (List Text) × Resolution
  | [], r => (.ok [], r)
  | spec :: rest, r =>
      match resolve spec r with
      | (.error e, r') => (.error e, r')
      | (.ok name, r') =>
          match resolveEach resolve rest r' with
          | (.error e, r'') => (.error e, r'')
          | (.ok names, r'') => (.ok (name :: names), r'')

/-- `resolve_spec`, under the names that are being resolved. The recursion ends where the interpreter ends it. -/
def resolveSpec : Nat → List Text → Path → DependencySpec → Resolution → Except ResolveError Text × Resolution
  | 0, _, _, _, r => (.error .recursion, r)
  | fuel + 1, visiting, ownerRoot, spec, r =>
      match r.packages spec.name with
      | some package => if w.validates spec package.version then (.ok package.name, r) else (.error (.unsatisfied spec), r)
      | none =>
          if spec.name ∈ visiting then (.error (.cyclic (visiting ++ [spec.name])), r)
          else match w.resolveSingle ownerRoot spec r with
            | (.error e, r') => (.error e, r')
            | (.ok package, r') =>
                match loadDependencySpecs r'.files package.path with
                | none => (.error (.manifest package.path), r')
                | some specs =>
                    match resolveEach (resolveSpec fuel (visiting ++ [spec.name]) package.path) specs r' with
                    | (.error e, r'') => (.error e, r'')
                    | (.ok names, r'') =>
                        (.ok package.name,
                          { r'' with
                            packages := Function.update r''.packages package.name (some
                              { package with dependencies := names.insertionSort (· ≤ ·), specs })
                            installOrder := r''.installOrder ++ [package.name] })

/-- The staging directory is made anew, if a registry is asked. -/
def prepare (files : Files) : Resolution :=
  match w.client with
  | none => { files }
  | some _ =>
      { files := files.place w.stagingDir fun _ => .absent
        ops := [.rmtree w.stagingDir, .makedirs w.stagingDir] }

/-- `resolve_project_dependencies`. -/
def resolveProject (fuel : Nat) (files : Files) : Except ResolveError (List Text) × Resolution :=
  resolveEach (w.resolveSpec fuel [] w.root) w.dependencies (w.prepare files)

end World

end Nodus.Packages

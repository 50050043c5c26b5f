import Nodus.PosixPath

/-! The filesystem jail: what a filesystem builtin is checked against before it touches a file. The floor under
the capability policy refuses writes into the runtime's own state; the path policy of the VM confines reads
and writes to its roots. No capability policy is installed; one can only refuse more. -/

namespace Nodus

open PosixPath

/-- What the checks ask the operating system. The links on disk are whatever `realpath` says. -/
structure Os where
  cwd : Path
  realpath : Path → Path
  /-- `NODUS_RUN_STATE_ROOT` and `NODUS_WORKFLOW_STORE_ROOT`, stripped; empty if not set. -/
  runStateRootEnv : Path
  workflowStoreRootEnv : Path
  realpath_isReal : ∀ p, IsReal (realpath p)

/-! ### The runtime's own state -/

def stateDirname : Path := ".nodus".toList

namespace Os

variable (os : Os)

def runStateRoot : Path := if os.runStateRootEnv = [] then stateDirname else os.runStateRootEnv

def graphRoot : Path := join os.runStateRoot "graphs".toList

def workflowStoreRoot : Path :=
  if os.workflowStoreRootEnv = [] then join os.runStateRoot "workflow_framework".toList
  else os.workflowStoreRootEnv

def runStateRoots : List Path :=
  ([os.runStateRoot, os.graphRoot, os.workflowStoreRoot].map (abspath os.cwd)).eraseDups

/-- `is_inside_run_state`: the root that caught the path. -/
def isInsideRunState (path : Path) : Option Path :=
  let normalised := (normpath path).map fun c => if c = '\\' then '/' else c
  if stateDirname ∈ normalised.splitOn '/' then some stateDirname
  else
    let absolute := abspath os.cwd path
    os.runStateRoots.find? fun root => absolute = root ∨ (root ++ ['/']).isPrefixOf absolute

/-- A file that belongs to the runtime: it lies in a directory `.nodus`, or where one of the roots that are in
use really is. -/
def OwnState (target : Path) : Prop :=
  stateDirname ∈ parts target ∨ ∃ root ∈ os.runStateRoots, Within (os.realpath root) target

end Os

/-! ### The path policy -/

inductive SandboxError where
  | ownState (root : Path) (arg : Path)
  | escapesProjectRoot (op : String) (path : Path)
  | notPermitted (op : String)
  | blocked (op : String) (path : Path)
  | noneWritable (op : String)
  | notWritable (op : String) (path : Path)
  deriving DecidableEq, Repr

/-- The filesystem policy of a VM. The roots are links resolved. -/
structure PathPolicy (os : Os) where
  allowedPaths : Option (List Path)
  writablePaths : Option (List Path)
  fsRoot : Option Path
  allowed_real : ∀ roots, allowedPaths = some roots → ∀ root ∈ roots, IsReal root
  writable_real : ∀ roots, writablePaths = some roots → ∀ root ∈ roots, IsReal root
  fsRoot_real : ∀ root, fsRoot = some root → IsReal root

/-- `_normalize_allowed_paths`. -/
def normalizeAllowedPaths (os : Os) (paths : Option (List Path)) : Option (List Path) :=
  paths.map fun paths => (paths.filter (· ≠ [])).map os.realpath

theorem normalizeAllowedPaths_real {os : Os} {paths : Option (List Path)} {roots : List Path}
    (hr : normalizeAllowedPaths os paths = some roots) : ∀ root ∈ roots, IsReal root := by
  obtain ⟨ps, -, rfl⟩ := Option.map_eq_some_iff.mp hr
  intro root hroot
  obtain ⟨p, -, rfl⟩ := List.mem_map.mp hroot
  exact os.realpath_isReal p

/-- `set_path_policy`, and the project root as the VM's constructor sets it. -/
def setPathPolicy (os : Os) (allowedPaths writablePaths : Option (List Path)) (fsRoot : Option Path) :
    PathPolicy os where
  allowedPaths := normalizeAllowedPaths os allowedPaths
  writablePaths := normalizeAllowedPaths os writablePaths
  fsRoot := (fsRoot.filter (· ≠ [])).map os.realpath
  allowed_real _ hr := normalizeAllowedPaths_real hr
  writable_real _ hr := normalizeAllowedPaths_real hr
  fsRoot_real root hr := by
    obtain ⟨p, -, rfl⟩ := Option.map_eq_some_iff.mp hr
    exact os.realpath_isReal p

/-- `_path_within_root`. -/
def pathWithinRoot (path root : Path) : Bool := commonpath path root = some root

namespace PathPolicy

variable {os : Os} (policy : PathPolicy os)

def ensurePathWritable (normalized path : Path) (op : String) : Except SandboxError Unit :=
  match policy.writablePaths with
  | none => .ok ()
  | some roots =>
      if roots = [] then .error (.noneWritable op)
      else if roots.any (pathWithinRoot normalized) then .ok ()
      else .error (.notWritable op path)

/-- The check `_ensure_path_allowed` makes for reads and writes alike. -/
def ensurePathReadable (normalized path : Path) (op : String) : Except SandboxError Unit :=
  match policy.allowedPaths with
  | none =>
      if policy.fsRoot.any fun root => !pathWithinRoot normalized root then
        .error (.escapesProjectRoot op path)
      else .ok ()
  | some roots =>
      if roots = [] then .error (.notPermitted op)
      else if roots.any (pathWithinRoot normalized) then .ok ()
      else .error (.blocked op path)

def ensurePathAllowed (path : Path) (op : String) (write : Bool) : Except SandboxError Unit := do
  let normalized := os.realpath path
  if write then policy.ensurePathWritable normalized path op
  policy.ensurePathReadable normalized path op

end PathPolicy

/-! ### The builtins -/

inductive Capability where
  | fsRead
  | fsWrite
  deriving DecidableEq, Repr

inductive HashAlgorithm where
  | md5 | sha1 | sha256 | sha512 | blake2b
  deriving DecidableEq, Repr

def HashAlgorithm.name : HashAlgorithm → String
  | .md5 => "md5"
  | .sha1 => "sha1"
  | .sha256 => "sha256"
  | .sha512 => "sha512"
  | .blake2b => "blake2b"

/-- The builtins that reach `_ensure_path_allowed`. -/
inductive FsBuiltin where
  | readFile | readFileBytes | listDir | pathExists | exists
  | hashFile (algorithm : HashAlgorithm)
  | writeFile | writeFileBytes | appendFile | mkdir | fsMkdir | fsEnsureDir | fsDelete
  deriving DecidableEq, Repr

namespace FsBuiltin

/-- The entry of `BUILTIN_CAPABILITIES`. -/
def capability : FsBuiltin → Capability
  | .readFile | .readFileBytes | .listDir | .pathExists | .exists | .hashFile _ => .fsRead
  | .writeFile | .writeFileBytes | .appendFile | .mkdir | .fsMkdir | .fsEnsureDir | .fsDelete => .fsWrite

/-- What the builtin tells `_ensure_path_allowed` about itself. -/
def op : FsBuiltin → String × Bool
  | .readFile => ("read_file(path)", false)
  | .readFileBytes => ("read_file_bytes(path)", false)
  | .listDir => ("list_dir(path)", false)
  | .pathExists | .exists => ("exists(path)", false)
  | .hashFile algorithm => (s!"hash.{algorithm.name}_file", false)
  | .writeFile => ("write_file(path, content)", true)
  | .writeFileBytes => ("write_file_bytes(path, bytes)", true)
  | .appendFile => ("append_file(path, content)", true)
  | .mkdir => ("mkdir(path)", true)
  | .fsMkdir => ("fs.mkdir(path)", true)
  | .fsEnsureDir => ("fs.ensure_dir(path)", true)
  | .fsDelete => ("fs.delete(path)", true)

def writes (b : FsBuiltin) : Bool := b.op.2

theorem capability_eq_fsWrite {b : FsBuiltin} : b.capability = .fsWrite ↔ b.writes = true := by
  cases b <;> simp [capability, writes, op]

end FsBuiltin

/-- An argument, as far as the floor looks at it. -/
inductive Arg where
  | str (text : Path)
  | other
  deriving DecidableEq, Repr

structure FsCall where
  builtin : FsBuiltin
  path : Path
  /-- What is written, if the builtin takes it. -/
  content : Option Arg := none
  deriving DecidableEq, Repr

namespace FsCall

def args (call : FsCall) : List Arg := .str call.path :: call.content.toList

/-- The call with content that is no string. -/
def blank (call : FsCall) : FsCall := { call with content := call.content.map fun _ => .other }

end FsCall

/-- `NodusStateFloor.check`: every string among the arguments is looked at. -/
def floorCheck (os : Os) (capability : Capability) (args : List Arg) : Except SandboxError Unit :=
  if capability = .fsWrite then
    match args.findSome? fun
      | .str text => (os.isInsideRunState text).map fun root => (root, text)
      | .other => none with
    | some (root, text) => .error (.ownState root text)
    | none => .ok ()
  else .ok ()

/-- `call_builtin` up to the builtin's access to the file. -/
def PathPolicy.decide {os : Os} (policy : PathPolicy os) (call : FsCall) : Except SandboxError Unit := do
  floorCheck os call.builtin.capability call.args
  policy.ensurePathAllowed call.path call.builtin.op.1 call.builtin.op.2

/-! ### The jail -/

namespace PathPolicy

variable {os : Os} {policy : PathPolicy os} {call : FsCall}

/-- The call gets to the file. -/
def Proceeds (policy : PathPolicy os) (call : FsCall) : Prop := policy.decide call = .ok ()

/-- The roots of the policy let a builtin have the path. -/
def RootsAllow (policy : PathPolicy os) (call : FsCall) : Prop :=
  policy.ensurePathAllowed call.path call.builtin.op.1 call.builtin.op.2 = .ok ()

/-- `target` lies within an allowed root, or within the project root when no list is set. -/
def Readable (policy : PathPolicy os) (target : Path) : Prop :=
  match policy.allowedPaths with
  | some roots => ∃ root ∈ roots, Within root target
  | none => ∃ root, policy.fsRoot = some root ∧ Within root target

/-- `target` lies within a writable root, if any are declared. -/
def Writable (policy : PathPolicy os) (target : Path) : Prop :=
  ∀ roots, policy.writablePaths = some roots → ∃ root ∈ roots, Within root target

/-- Neither a list of roots nor a project root. -/
def Unconfined (policy : PathPolicy os) : Prop := policy.allowedPaths = none ∧ policy.fsRoot = none

theorem pathWithinRoot_iff {path root : Path} (hr : IsReal root) :
    pathWithinRoot (os.realpath path) root = true ↔ Within root (os.realpath path) := by
  rw [pathWithinRoot, decide_eq_true_eq]
  exact commonpath_eq_root_iff (os.realpath_isReal path) hr

theorem any_pathWithinRoot_iff {path : Path} {roots : List Path} (hr : ∀ root ∈ roots, IsReal root) :
    roots.any (pathWithinRoot (os.realpath path)) = true ↔ ∃ root ∈ roots, Within root (os.realpath path) := by
  rw [List.any_eq_true]
  constructor
  · rintro ⟨root, hroot, hw⟩
    exact ⟨root, hroot, (pathWithinRoot_iff (hr root hroot)).mp hw⟩
  · rintro ⟨root, hroot, hw⟩
    exact ⟨root, hroot, (pathWithinRoot_iff (hr root hroot)).mpr hw⟩

theorem ensurePathWritable_ok {path : Path} {op : String} :
    policy.ensurePathWritable (os.realpath path) path op = .ok () ↔ policy.Writable (os.realpath path) := by
  unfold ensurePathWritable Writable
  cases hw : policy.writablePaths with
  | none => simp
  | some roots =>
      have hany : roots.any (pathWithinRoot (os.realpath path)) = true ↔ _ :=
        any_pathWithinRoot_iff (policy.writable_real roots hw)
      simp only [Option.some.injEq, forall_eq']
      split
      · rename_i hnil
        simp [hnil]
      · split
        · rename_i h
          simpa using hany.mp h
        · rename_i h
          simpa using fun h' => h (hany.mpr h')

theorem ensurePathReadable_ok {path : Path} {op : String} :
    policy.ensurePathReadable (os.realpath path) path op = .ok () ↔
      policy.Unconfined ∨ policy.Readable (os.realpath path) := by
  unfold ensurePathReadable Unconfined Readable
  cases ha : policy.allowedPaths with
  | none =>
      cases hf : policy.fsRoot with
      | none => simp
      | some root =>
          have hroot : pathWithinRoot (os.realpath path) root = true ↔ _ :=
            pathWithinRoot_iff (policy.fsRoot_real root hf)
          simp [← hroot]
  | some roots =>
      have hany : roots.any (pathWithinRoot (os.realpath path)) = true ↔ _ :=
        any_pathWithinRoot_iff (policy.allowed_real roots ha)
      simp only [reduceCtorEq, false_and, false_or, ← hany]
      split
      · rename_i hnil
        simp [hnil]
      · split
        · rename_i h
          simp [h]
        · rename_i h
          simp [h]

theorem rootsAllow_iff : policy.RootsAllow call ↔
    (call.builtin.writes = true → policy.Writable (os.realpath call.path)) ∧
      (policy.Unconfined ∨ policy.Readable (os.realpath call.path)) := by
  have hread : policy.ensurePathReadable (os.realpath call.path) call.path call.builtin.op.1 = .ok () ↔ _ :=
    ensurePathReadable_ok
  have hwrite : policy.ensurePathWritable (os.realpath call.path) call.path call.builtin.op.1 = .ok () ↔ _ :=
    ensurePathWritable_ok
  unfold RootsAllow ensurePathAllowed FsBuiltin.writes
  cases call.builtin.op.2 with
  | false => simpa using hread
  | true =>
      cases hw : policy.ensurePathWritable (os.realpath call.path) call.path call.builtin.op.1 with
      | error e =>
          rw [hw] at hwrite
          simp only [reduceCtorEq, false_iff] at hwrite
          simp [hwrite, hw, bind, Except.bind]
      | ok u =>
          rw [hw] at hwrite
          simp only [true_iff] at hwrite
          simp [hwrite, hw, bind, Except.bind, hread]

theorem floorCheck_ok {capability : Capability} {args : List Arg} :
    floorCheck os capability args = .ok () ↔
      (capability = .fsWrite → ∀ text, Arg.str text ∈ args → os.isInsideRunState text = none) := by
  unfold floorCheck
  split
  · rename_i hc
    simp only [hc, true_implies]
    split
    · rename_i root text hfound
      simp only [reduceCtorEq, false_iff]
      intro hall
      obtain ⟨arg, harg, hsome⟩ := List.exists_of_findSome?_eq_some hfound
      cases arg with
      | other => cases hsome
      | str text' => simp [hall text' harg] at hsome
    · rename_i hfound
      rw [List.findSome?_eq_none_iff] at hfound
      simp only [true_iff]
      intro text htext
      simpa using hfound _ htext
  · rename_i hc
    simp [hc]

/-- The content written is not a string that looks like a path into the runtime's state. -/
def PlainContent (os : Os) (call : FsCall) : Prop :=
  ∀ text, call.content = some (.str text) → os.isInsideRunState text = none

theorem proceeds_iff : policy.Proceeds call ↔
    (call.builtin.writes = true → os.isInsideRunState call.path = none ∧ PlainContent os call) ∧
      policy.RootsAllow call := by
  have hargs : (∀ text, Arg.str text ∈ call.args → os.isInsideRunState text = none) ↔
      os.isInsideRunState call.path = none ∧ PlainContent os call := by
    simp [FsCall.args, PlainContent]
  have hfloor : floorCheck os call.builtin.capability call.args = .ok () ↔ _ := floorCheck_ok
  rw [FsBuiltin.capability_eq_fsWrite, hargs] at hfloor
  rw [← hfloor]
  unfold Proceeds RootsAllow PathPolicy.decide
  cases floorCheck os call.builtin.capability call.args with
  | error e => simp [bind, Except.bind]
  | ok u => simp [bind, Except.bind]

/-- The jail is closed and goes by the path alone: a call that proceeds reaches a file within the roots, a write
reaches a writable one that is not the runtime's own, and what is written makes no difference. -/
structure Jailed (policy : PathPolicy os) (call : FsCall) : Prop where
  readable : policy.Proceeds call → policy.Readable (os.realpath call.path)
  writable : policy.Proceeds call → call.builtin.writes = true →
    policy.Writable (os.realpath call.path) ∧ ¬ os.OwnState (os.realpath call.path)
  byPath : policy.Proceeds call ↔ policy.Proceeds call.blank

/-- Where the roots let a call through and its path does not look like state: there are roots at all, a file
to be written is none of the runtime's, and its content does not look like a path into its state. -/
def Honest (policy : PathPolicy os) (call : FsCall) : Prop :=
  policy.RootsAllow call → (call.builtin.writes = true → os.isInsideRunState call.path = none) →
    ¬ policy.Unconfined ∧
      (call.builtin.writes = true → ¬ os.OwnState (os.realpath call.path) ∧ PlainContent os call)

theorem plainContent_blank (os : Os) (call : FsCall) : PlainContent os call.blank := by
  intro text htext
  cases hc : call.content with
  | none => simp [FsCall.blank, hc] at htext
  | some arg => simp [FsCall.blank, hc] at htext

theorem not_readable_of_unconfined {target : Path} (hu : policy.Unconfined) : ¬ policy.Readable target := by
  unfold Readable
  rw [hu.1]
  rintro ⟨root, hroot, -⟩
  rw [hu.2] at hroot
  cases hroot

/-- The jail holds for a call exactly if the floor, which goes by the text of the arguments, judges it
honestly. -/
theorem jailed_iff (policy : PathPolicy os) (call : FsCall) : policy.Jailed call ↔ policy.Honest call := by
  have hblank : policy.Proceeds call.blank ↔
      (call.builtin.writes = true → os.isInsideRunState call.path = none) ∧ policy.RootsAllow call := by
    rw [proceeds_iff]
    exact and_congr ⟨fun h hw => (h hw).1, fun h hw => ⟨h hw, plainContent_blank os call⟩⟩ Iff.rfl
  constructor
  · intro hj hroots hpath
    have hproceeds : policy.Proceeds call := hj.byPath.mpr (hblank.mpr ⟨hpath, hroots⟩)
    refine ⟨fun hu => not_readable_of_unconfined hu (hj.readable hproceeds), fun hw => ?_⟩
    exact ⟨(hj.writable hproceeds hw).2, ((proceeds_iff.mp hproceeds).1 hw).2⟩
  · intro hh
    have hpassed : policy.Proceeds call → policy.RootsAllow call ∧
        (call.builtin.writes = true → os.isInsideRunState call.path = none) := fun hp =>
      ⟨(proceeds_iff.mp hp).2, fun hw => ((proceeds_iff.mp hp).1 hw).1⟩
    refine ⟨fun hp => ?_, fun hp hw => ?_, ?_⟩
    · obtain ⟨hroots, hpath⟩ := hpassed hp
      exact (rootsAllow_iff.mp hroots).2.resolve_left (hh hroots hpath).1
    · obtain ⟨hroots, hpath⟩ := hpassed hp
      exact ⟨(rootsAllow_iff.mp hroots).1 hw, ((hh hroots hpath).2 hw).1⟩
    · rw [hblank]
      refine ⟨fun hp => (hpassed hp).symm, fun ⟨hpath, hroots⟩ => ?_⟩
      exact proceeds_iff.mpr ⟨fun hw => ⟨hpath hw, ((hh hroots hpath).2 hw).2⟩, hroots⟩

end PathPolicy

/-- The project in `/p`, with a link `link` to its state directory. -/
def linkedProject : Os where
  cwd := "/p".toList
  realpath p :=
    if p = "link/x".toList then "/p/.nodus/x".toList
    else '/' :: ['/'].intercalate (parts (abspath "/p".toList p))
  runStateRootEnv := []
  workflowStoreRootEnv := []
  realpath_isReal p := by
    split
    · have habs : isAbs "/p/.nodus/x".toList = true := by decide
      exact ⟨_, fun w hw => isName_of_mem_parts habs hw, by decide⟩
    · exact ⟨_, fun w hw => isName_of_mem_parts (isAbs_abspath (by decide)) hw, rfl⟩

/-- Confined to the project root. -/
def projectPolicy : PathPolicy linkedProject := setPathPolicy linkedProject none none (some "/p".toList)

/-- A write through the link reaches the state directory, and a note about it cannot be written to a file of
the project. -/
theorem linkedWrite_not_jailed :
    ¬ projectPolicy.Jailed { builtin := .writeFile, path := "link/x".toList, content := some .other } ∧
    ¬ projectPolicy.Jailed
      { builtin := .writeFile, path := "a.txt".toList, content := some (.str ".nodus/x".toList) } := by
  constructor
  · intro hj
    have hp : projectPolicy.Proceeds { builtin := .writeFile, path := "link/x".toList, content := some .other } :=
      rfl
    exact (hj.writable hp rfl).2 (.inl (by decide))
  · intro hj
    have hp := hj.byPath.mpr rfl
    cases hp

end Nodus

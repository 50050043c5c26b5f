import Nodus.Derivation
import Nodus.PosixPath

/-! The allow lists of commands and hosts: what the subprocess builtins start and what the http builtins
contact, over a whole run on the VMs of a process. A call that another check refuses first (the capability
policy, a path, an option) starts and contacts nothing. -/

namespace Nodus

open PosixPath

/-- The list an attribute holds; anything else sets no list. -/
def AttrValue.allowList : AttrValue → Option (List String)
  | .texts items => .some items
  | _ => .none

/-- `text in items`. -/
def Listed (items : List String) (text : List Char) : Prop := String.ofList text ∈ items

instance (items : List String) (text : List Char) : Decidable (Listed items text) :=
  inferInstanceAs (Decidable (_ ∈ items))

/-! ### Processes -/

inductive ArgvItem where
  | str (s : Path)
  | bytes (s : Path)
  | other
  deriving DecidableEq, Repr

/-- An argument of a builtin, as far as the builtins tell arguments apart. -/
inductive CommandArg where
  | list (items : List ArgvItem)
  | str (s : Path)
  | other
  deriving DecidableEq, Repr

inductive SandboxRefusal where
  | shellMode
  | command (binaryName : Path)
  | host (hostname : List Char)
  /-- A Python error inside the check. -/
  | raised
  deriving DecidableEq, Repr

/-- A process that was started: the file it executes, or the shell. -/
inductive Launch where
  | command (path : Path)
  | shell
  deriving DecidableEq, Repr

def Launch.Allowed (commands : List String) : Launch → Prop
  | .command path => Listed commands (basename path) ∨ Listed commands path
  | .shell => False

/-- The file an argument vector executes: none if it is empty or holds what is no path. -/
def argvCommand : List ArgvItem → Option Path
  | [] => none
  | item :: rest =>
      if .other ∈ item :: rest then none
      else match item with
        | .str s | .bytes s => some s
        | .other => none

/-- `subprocess.Popen`; `starts` is whether the system can start what it is told to. -/
def popen (items : List ArgvItem) (starts : Bool) : List Launch :=
  if starts then ((argvCommand items).map Launch.command).toList else []

def popenShell (starts : Bool) : List Launch := if starts then [.shell] else []

/-- The allow list check of `_do_run` without a shell. `str([])` stands in for a missing first entry. -/
def checkCommand (allowed : Option (List String)) (items : List ArgvItem) : Except SandboxRefusal Unit :=
  match allowed with
  | none => .ok ()
  | some commands =>
      match items with
      | [] => check commands "[]".toList
      | .str binary :: _ => check commands binary
      | .bytes binary :: _ => .error (.command (basename binary))
      | .other :: _ => .error .raised
where
  check (commands : List String) (binary : Path) : Except SandboxRefusal Unit :=
    if Listed commands (basename binary) ∨ Listed commands binary then .ok ()
    else .error (.command (basename binary))

/-- `_do_run` without a shell. `atStart` is what the vector holds when the process is started. -/
def doRun (allowed : Option (List String)) (items atStart : List ArgvItem) (starts : Bool) :
    Except SandboxRefusal (List Launch) := do
  checkCommand allowed items
  pure (popen atStart starts)

/-- `_do_run` with a shell. -/
def doRunShell (allowed : Option (List String)) (starts : Bool) : Except SandboxRefusal (List Launch) :=
  if allowed.isSome then .error .shellMode else .ok (popenShell starts)

/-- `_do_spawn`. -/
def doSpawn (items : List ArgvItem) (starts : Bool) : Except SandboxRefusal (List Launch) :=
  .ok (popen items starts)

def doSpawnShell (starts : Bool) : Except SandboxRefusal (List Launch) := .ok (popenShell starts)

/-- `_do_async_run`: in a task of the scheduler a thread makes the check and starts the process, while the
program goes on and may change the vector. -/
def doAsyncRun (allowed : Option (List String)) (inTask : Bool) (items atStart : List ArgvItem) (starts : Bool) :
    Except SandboxRefusal (List Launch) :=
  if inTask then doRun allowed items atStart starts else doRun allowed items items starts

inductive SubprocessBuiltin where
  | run
  | runAsync
  | shell
  | shellAsync
  | spawn
  | spawnShell
  deriving DecidableEq, Repr

structure SubprocessCall where
  builtin : SubprocessBuiltin
  arg : CommandArg
  inTask : Bool := false
  atStart : List ArgvItem := []
  starts : Bool := true

/-- A call of a subprocess builtin; an argument of the wrong type gives an error record. -/
def SubprocessCall.perform (c : SubprocessCall) (allowed : Option (List String)) :
    Except SandboxRefusal (List Launch) :=
  match c.builtin, c.arg with
  | .run, .list items => doRun allowed items items c.starts
  | .runAsync, .list items => doAsyncRun allowed c.inTask items c.atStart c.starts
  | .shell, .str _ | .shellAsync, .str _ => doRunShell allowed c.starts
  | .spawn, .list items => doSpawn items c.starts
  | .spawnShell, .str _ => doSpawnShell c.starts
  | _, _ => .ok []

def SubprocessCall.launches (c : SubprocessCall) (allowed : Option (List String)) : List Launch :=
  (c.perform allowed).toOption.getD []

/-! ### Hosts -/

/-- `urllib.parse.urlsplit(url).netloc`. -/
def netloc (url : List Char) : List Char :=
  let url := (url.dropWhile fun c => c.toNat ≤ 32).filter fun c => c ≠ '\t' ∧ c ≠ '\r' ∧ c ≠ '\n'
  let scheme := url.takeWhile (· ≠ ':')
  let isScheme := scheme.length < url.length && scheme.head?.any Char.isAlpha &&
    scheme.all fun c => c.isAlphanum || c = '+' || c = '-' || c = '.'
  let rest := if isScheme then url.drop (scheme.length + 1) else url
  if ['/', '/'].isPrefixOf rest then
    (rest.drop 2).takeWhile fun c => c ≠ '/' ∧ c ≠ '?' ∧ c ≠ '#'
  else []

/-- The part of a text after the last place a character occurs. -/
def afterLast (c : Char) (text : List Char) : List Char := (text.reverse.takeWhile (· ≠ c)).reverse

/-- What the http builtins use: `str.lower`, whether `urlsplit` refuses a URL, and the host httpx connects to for
one, if it accepts it. -/
structure HttpLibrary where
  lower : List Char → List Char
  unsplittable : List Char → Bool
  host : List Char → Option (List Char)

/-- `urllib.parse.urlsplit(url).hostname or ""`. -/
def HttpLibrary.urlHostname (lib : HttpLibrary) (url : List Char) : List Char :=
  let hostinfo := afterLast '@' (netloc url)
  let host :=
    if '[' ∈ hostinfo then ((hostinfo.dropWhile (· ≠ '[')).drop 1).takeWhile (· ≠ ']')
    else hostinfo.takeWhile (· ≠ ':')
  lib.lower (host.takeWhile (· ≠ '%')) ++ host.dropWhile (· ≠ '%')

/-- The library connects to the host that the URL names. -/
def HttpLibrary.ReadsUrl (lib : HttpLibrary) : Prop := ∀ url host,
  lib.host url = some host → host = lib.urlHostname url

/-- `_check_allowed_host`. -/
def checkAllowedHost (lib : HttpLibrary) (allowed : Option (List String)) (url : List Char) :
    Except SandboxRefusal Unit :=
  match allowed with
  | none => .ok ()
  | some hosts =>
      if lib.unsplittable url then .error .raised
      else if Listed hosts (lib.urlHostname url) then .ok ()
      else .error (.host (lib.urlHostname url))

/-- The verbs by name, `http_request`, and their asynchronous forms differ only in the method they send. -/
inductive HttpBuiltin where
  | sync
  | async (inTask : Bool)
  | stream
  | sse
  deriving DecidableEq, Repr

/-- `locations` are the targets of the redirects that the request and those after it are answered with. -/
structure HttpCall where
  builtin : HttpBuiltin
  url : Option (List Char)
  followRedirects : Option Bool := none
  optionsAccepted : Bool := true
  locations : List (List Char) := []

/-- `max_redirects`. -/
def maxRedirects : Nat := 10

/-- The redirects that are followed. -/
def HttpCall.followed (c : HttpCall) : List (List Char) :=
  if c.followRedirects.getD true then c.locations.take maxRedirects else []

/-- A request that is sent, and the redirects that are followed. -/
def HttpCall.request (c : HttpCall) (lib : HttpLibrary) (url : List Char) : List (List Char) :=
  if c.optionsAccepted then (url :: c.followed).filterMap lib.host else []

/-- `_do_sync_request`, `_do_stream_request` and `_do_sse_request`. -/
def HttpCall.checked (c : HttpCall) (lib : HttpLibrary) (allowed : Option (List String)) (url : List Char) :
    Except SandboxRefusal (List (List Char)) := do
  checkAllowedHost lib allowed url
  pure (c.request lib url)

/-- A call of an http builtin. `_do_async_request` makes the check first, and `_do_sync_request` makes it again,
in a thread if the caller is a task. -/
def HttpCall.perform (c : HttpCall) (lib : HttpLibrary) (allowed : Option (List String)) :
    Except SandboxRefusal (List (List Char)) :=
  match c.url with
  | none => .ok []
  | some url =>
      match c.builtin with
      | .sync | .stream | .sse => c.checked lib allowed url
      | .async _ => do
          checkAllowedHost lib allowed url
          c.checked lib allowed url

def HttpCall.contacts (c : HttpCall) (lib : HttpLibrary) (allowed : Option (List String)) : List (List Char) :=
  (c.perform lib allowed).toOption.getD []

/-! ### Runs -/

/-- A step of a run: something happens to the VMs, or the innermost one runs one of the builtins. -/
inductive Act where
  | process (event : Event)
  | subprocess (c : SubprocessCall)
  | http (c : HttpCall)

/-- A process, what it started and whom it contacted. -/
structure Outside where
  process : Process
  started : List Launch := []
  contacted : List (List Char) := []

/-- The attributes of the VM that runs. -/
def Process.attrs (p : Process) : Option (Attribute → AttrValue) := do
  let e ← p.active.head?
  let vm ← p.vms[e.vm]?
  pure vm.attrs

def Outside.step (lib : HttpLibrary) (w : Outside) : Act → Option Outside
  | .process event => (w.process.step event).map fun p => { w with process := p }
  | .subprocess c => w.process.attrs.map fun attrs =>
      { w with started := w.started ++ c.launches (attrs .allowedCommands).allowList }
  | .http c => w.process.attrs.map fun attrs =>
      { w with contacted := w.contacted ++ c.contacts lib (attrs .allowedHosts).allowList }

def Outside.run (lib : HttpLibrary) (w : Outside) (acts : List Act) : Option Outside := acts.foldlM (Outside.step lib) w

def Outside.start (root : Vm) : Outside := { process := Process.start root }

/-- Everything started or contacted is on the lists of the root VM, where it has them. -/
def Outside.OnLists (root : Vm) (w : Outside) : Prop :=
  (∀ commands, (root.attrs .allowedCommands).allowList = some commands → ∀ l ∈ w.started, l.Allowed commands) ∧
  (∀ hosts, (root.attrs .allowedHosts).allowList = some hosts → ∀ host ∈ w.contacted, Listed hosts host)

def Act.PassesCaller : Act → Prop
  | .process event => event.PassesCaller
  | _ => True

/-- What the process was started with is a command of the list, if it was started. -/
def StartsListed (commands : List String) (items : List ArgvItem) (starts : Bool) : Prop :=
  starts = true → ∀ path, argvCommand items = some path → Listed commands (basename path) ∨ Listed commands path

/-- The calls that stay on the list: `spawn` checks nothing, so its command has to be listed and the shell form
must not start one; the vector of `run_async` has to hold a listed command also when the thread reads it. -/
def SubprocessCall.Stays (commands : List String) (c : SubprocessCall) : Prop :=
  match c.builtin, c.arg with
  | .spawn, .list items => StartsListed commands items c.starts
  | .spawnShell, .str _ => c.starts = false
  | .runAsync, .list items =>
      c.inTask = true → checkCommand (some commands) items = .ok () → StartsListed commands c.atStart c.starts
  | _, _ => True

/-- A request that is let through does not follow a redirect to a host off the list. -/
def HttpCall.Stays (lib : HttpLibrary) (hosts : List String) (c : HttpCall) : Prop :=
  ∀ url, c.url = some url → checkAllowedHost lib (some hosts) url = .ok () → c.optionsAccepted = true →
    ∀ target ∈ c.followed, ∀ host, lib.host target = some host → Listed hosts host

def Act.Stays (lib : HttpLibrary) (root : Vm) : Act → Prop
  | .process _ => True
  | .subprocess c => ∀ commands, (root.attrs .allowedCommands).allowList = some commands → c.Stays commands
  | .http c => ∀ hosts, (root.attrs .allowedHosts).allowList = some hosts → c.Stays lib hosts

theorem popen_allowed_iff {commands : List String} {items : List ArgvItem} {starts : Bool} :
    (∀ l ∈ popen items starts, l.Allowed commands) ↔ StartsListed commands items starts := by
  unfold popen StartsListed
  cases starts with
  | false => simp
  | true =>
      cases argvCommand items with
      | none => simp
      | some path => simp [Launch.Allowed]

theorem argvCommand_cons {item : ArgvItem} {rest : List ArgvItem} {path : Path}
    (h : argvCommand (item :: rest) = some path) : item = .str path ∨ item = .bytes path := by
  simp only [argvCommand] at h
  split at h
  · cases h
  · rename_i hpaths
    cases item with
    | str s => exact .inl (congrArg ArgvItem.str (Option.some.inj h))
    | bytes s => exact .inr (congrArg ArgvItem.bytes (Option.some.inj h))
    | other => exact absurd List.mem_cons_self hpaths

theorem checkCommand_ok {commands : List String} {items : List ArgvItem}
    (h : checkCommand (some commands) items = .ok ()) (starts : Bool) : StartsListed commands items starts := by
  intro _ path hpath
  cases items with
  | nil => cases hpath
  | cons item rest =>
      rcases argvCommand_cons hpath with rfl | rfl
      · simp only [checkCommand, checkCommand.check] at h
        split at h
        · assumption
        · cases h
      · cases h

theorem mem_after_check {ε α : Type} {check : Except ε Unit} {rest : Except ε (List α)} {a : α} :
    a ∈ ((do check; rest : Except ε (List α)).toOption.getD []) ↔ check = .ok () ∧ a ∈ rest.toOption.getD [] := by
  cases check with
  | error e => exact iff_of_false nofun nofun
  | ok _ => exact ⟨fun h => ⟨rfl, h⟩, fun h => h.2⟩

theorem doRun_allowed {commands : List String} {items : List ArgvItem} {starts : Bool} {l : Launch}
    (h : l ∈ (doRun (some commands) items items starts).toOption.getD []) : l.Allowed commands := by
  obtain ⟨hok, hl⟩ := mem_after_check.mp h
  exact popen_allowed_iff.mpr (checkCommand_ok hok starts) l hl

theorem launches_allowed_iff {commands : List String} (c : SubprocessCall) :
    (∀ l ∈ c.launches (some commands), l.Allowed commands) ↔ c.Stays commands := by
  obtain ⟨builtin, arg, inTask, atStart, starts⟩ := c
  have hnothing : ∀ l ∈ (Except.ok (ε := SandboxRefusal) ([] : List Launch)).toOption.getD [], l.Allowed commands := nofun
  cases builtin with
  | run =>
      cases arg with
      | list items => exact iff_of_true (fun _ h => doRun_allowed h) trivial
      | str s => exact iff_of_true hnothing trivial
      | other => exact iff_of_true hnothing trivial
  | runAsync =>
      cases arg with
      | list items =>
          cases inTask with
          | false => exact iff_of_true (fun _ h => doRun_allowed h) nofun
          | true =>
              constructor
              · intro h _ hok
                exact popen_allowed_iff.mp fun l hl => h l (mem_after_check.mpr ⟨hok, hl⟩)
              · intro h l hl
                obtain ⟨hok, hl⟩ := mem_after_check.mp hl
                exact popen_allowed_iff.mpr (h rfl hok) l hl
      | str s => exact iff_of_true hnothing trivial
      | other => exact iff_of_true hnothing trivial
  | shell | shellAsync =>
      cases arg with
      | str s => exact iff_of_true nofun trivial
      | list items => exact iff_of_true hnothing trivial
      | other => exact iff_of_true hnothing trivial
  | spawn =>
      cases arg with
      | list items => exact popen_allowed_iff
      | str s => exact iff_of_true hnothing trivial
      | other => exact iff_of_true hnothing trivial
  | spawnShell =>
      cases arg with
      | str s =>
          cases starts with
          | false => exact iff_of_true hnothing rfl
          | true => exact iff_of_false (fun h => h .shell List.mem_cons_self) nofun
      | list items => exact iff_of_true hnothing trivial
      | other => exact iff_of_true hnothing trivial

theorem checkAllowedHost_ok {lib : HttpLibrary} (hlib : lib.ReadsUrl) {hosts : List String} {url host : List Char}
    (hok : checkAllowedHost lib (some hosts) url = .ok ()) (hhost : lib.host url = some host) : Listed hosts host := by
  rw [hlib url host hhost]
  simp only [checkAllowedHost] at hok
  split at hok
  · cases hok
  · split at hok
    · assumption
    · cases hok

theorem mem_contacts_iff {c : HttpCall} {lib : HttpLibrary} {allowed : Option (List String)} {host : List Char} :
    host ∈ c.contacts lib allowed ↔
      ∃ url, c.url = some url ∧ checkAllowedHost lib allowed url = .ok () ∧ host ∈ c.request lib url := by
  unfold HttpCall.contacts HttpCall.perform
  cases c.url with
  | none => exact iff_of_false nofun nofun
  | some url =>
      have hchecked : host ∈ (c.checked lib allowed url).toOption.getD [] ↔
          checkAllowedHost lib allowed url = .ok () ∧ host ∈ c.request lib url := mem_after_check
      have hone : (∃ u, some url = some u ∧ checkAllowedHost lib allowed u = .ok () ∧ host ∈ c.request lib u) ↔
          checkAllowedHost lib allowed url = .ok () ∧ host ∈ c.request lib url := by simp
      rw [hone]
      cases c.builtin with
      | sync | stream | sse => exact hchecked
      | async inTask =>
          -- the check is made twice, with the same result
          exact mem_after_check.trans (by rw [hchecked, ← and_assoc, and_self])

theorem contacts_listed_iff {lib : HttpLibrary} (hlib : lib.ReadsUrl) {hosts : List String} (c : HttpCall) :
    (∀ host ∈ c.contacts lib (some hosts), Listed hosts host) ↔ c.Stays lib hosts := by
  constructor
  · intro h url hurl hok hopts target ht host hhost
    apply h host
    rw [mem_contacts_iff]
    refine ⟨url, hurl, hok, ?_⟩
    rw [HttpCall.request, if_pos hopts]
    exact List.mem_filterMap.mpr ⟨target, List.mem_cons_of_mem url ht, hhost⟩
  · intro h host hmem
    obtain ⟨url, hurl, hok, hmem⟩ := mem_contacts_iff.mp hmem
    unfold HttpCall.request at hmem
    split at hmem
    · rename_i hopts
      obtain ⟨target, ht, hhost⟩ := List.mem_filterMap.mp hmem
      rcases List.mem_cons.mp ht with rfl | ht
      · exact checkAllowedHost_ok hlib hok hhost
      · exact h url hurl hok hopts target ht host hhost
    · cases hmem

theorem SameAuthority.attrs {auth attrs : Attribute → AttrValue} {p : Process} (h : SameAuthority auth p)
    (hp : p.attrs = some attrs) : attrs = auth := by
  obtain ⟨e, -, hp⟩ := Option.bind_eq_some_iff.mp hp
  obtain ⟨vm, hvm, hp⟩ := Option.bind_eq_some_iff.mp hp
  cases hp
  exact h.vms vm (List.mem_of_getElem? hvm)

/-- What an act starts and contacts on a VM with the root's authority. -/
def Act.launches (root : Vm) : Act → List Launch
  | .subprocess c => c.launches (root.attrs .allowedCommands).allowList
  | _ => []

def Act.contacts (lib : HttpLibrary) (root : Vm) : Act → List (List Char)
  | .http c => c.contacts lib (root.attrs .allowedHosts).allowList
  | _ => []

theorem Outside.step_spec {lib : HttpLibrary} {root : Vm} {w w' : Outside} {act : Act}
    (hauth : SameAuthority root.attrs w.process) (hpass : act.PassesCaller) (hs : w.step lib act = some w') :
    SameAuthority root.attrs w'.process ∧ w'.started = w.started ++ act.launches root ∧
      w'.contacted = w.contacted ++ act.contacts lib root := by
  cases act with
  | process event =>
      obtain ⟨p, hp, rfl⟩ := Option.map_eq_some_iff.mp hs
      exact ⟨hauth.step _ event p hpass hp, (List.append_nil _).symm, (List.append_nil _).symm⟩
  | subprocess c =>
      obtain ⟨attrs, hattrs, rfl⟩ := Option.map_eq_some_iff.mp hs
      rw [hauth.attrs hattrs]
      exact ⟨hauth, rfl, (List.append_nil _).symm⟩
  | http c =>
      obtain ⟨attrs, hattrs, rfl⟩ := Option.map_eq_some_iff.mp hs
      rw [hauth.attrs hattrs]
      exact ⟨hauth, (List.append_nil _).symm, rfl⟩

theorem Outside.run_spec {lib : HttpLibrary} {root : Vm} {acts : List Act} :
    ∀ {w w' : Outside}, SameAuthority root.attrs w.process → (∀ act ∈ acts, act.PassesCaller) →
      w.run lib acts = some w' →
      w'.started = w.started ++ acts.flatMap (Act.launches root) ∧
        w'.contacted = w.contacted ++ acts.flatMap (Act.contacts lib root) := by
  induction acts with
  | nil =>
      intro w w' _ _ hr
      cases hr
      exact ⟨(List.append_nil _).symm, (List.append_nil _).symm⟩
  | cons act rest ih =>
      intro w w' hauth hpass hr
      obtain ⟨v, hv, hr⟩ := Option.bind_eq_some_iff.mp hr
      obtain ⟨hauth', hstarted, hcontacted⟩ := step_spec hauth (hpass act List.mem_cons_self) hv
      obtain ⟨hs, hc⟩ := ih hauth' (fun a ha => hpass a (List.mem_cons_of_mem act ha)) hr
      rw [hs, hc, hstarted, hcontacted, List.flatMap_cons, List.flatMap_cons, List.append_assoc, List.append_assoc]
      exact ⟨rfl, rfl⟩

theorem Act.stays_iff {lib : HttpLibrary} (hlib : lib.ReadsUrl) {root : Vm} (act : Act) :
    act.Stays lib root ↔
      (∀ commands, (root.attrs .allowedCommands).allowList = some commands →
        ∀ l ∈ act.launches root, l.Allowed commands) ∧
      (∀ hosts, (root.attrs .allowedHosts).allowList = some hosts →
        ∀ host ∈ act.contacts lib root, Listed hosts host) := by
  cases act with
  | process event => exact iff_of_true trivial ⟨nofun, nofun⟩
  | subprocess c =>
      constructor
      · refine fun h => ⟨fun commands hc => ?_, nofun⟩
        simp only [Act.launches, hc]
        exact (launches_allowed_iff c).mpr (h commands hc)
      · intro h commands hc
        have hall := h.1 commands hc
        simp only [Act.launches, hc] at hall
        exact (launches_allowed_iff c).mp hall
  | http c =>
      constructor
      · refine fun h => ⟨nofun, fun hosts hc => ?_⟩
        simp only [Act.contacts, hc]
        exact (contacts_listed_iff hlib c).mpr (h hosts hc)
      · intro h hosts hc
        have hall := h.2 hosts hc
        simp only [Act.contacts, hc] at hall
        exact (contacts_listed_iff hlib c).mp hall

/-- As long as every module function runs with its caller's authority, a run stays on the allow lists exactly if
each of its acts does. -/
theorem on_lists_iff {lib : HttpLibrary} (hlib : lib.ReadsUrl) {root : Vm} {acts : List Act} {w : Outside}
    (hpass : ∀ act ∈ acts, act.PassesCaller) (hr : (Outside.start root).run lib acts = some w) :
    w.OnLists root ↔ ∀ act ∈ acts, act.Stays lib root := by
  have hauth : SameAuthority root.attrs (Outside.start root).process := by
    constructor
    · simp [Outside.start, Process.start]
    · simp [Outside.start, Process.start]
  obtain ⟨hstarted, hcontacted⟩ := Outside.run_spec hauth hpass hr
  simp only [Outside.start, List.nil_append] at hstarted hcontacted
  unfold Outside.OnLists
  rw [hstarted, hcontacted]
  simp only [Act.stays_iff hlib, List.mem_flatMap]
  constructor
  · intro h act hact
    exact ⟨fun commands hc l hl => h.1 commands hc l ⟨act, hact, hl⟩,
      fun hosts hc host hh => h.2 hosts hc host ⟨act, hact, hh⟩⟩
  · intro h
    constructor
    · rintro commands hc l ⟨act, hact, hl⟩
      exact (h act hact).1 commands hc l hl
    · rintro hosts hc host ⟨act, hact, hh⟩
      exact (h act hact).2 hosts hc host hh

/-- A VM that may run `git` and talk to `api.example.com`. -/
def listedVm : Vm where
  attrs
    | .allowedCommands => .texts ["git"]
    | .allowedHosts => .texts ["api.example.com"]
    | a => constructorDefault a
  scheduler := 0

/-- An http library that takes every URL and connects to the host it names. -/
def plainHttp : HttpLibrary where
  lower := List.map Char.toLower
  unsplittable _ := false
  host url := some (HttpLibrary.urlHostname ⟨List.map Char.toLower, fun _ => false, fun _ => none⟩ url)

theorem plainHttp_readsUrl : plainHttp.ReadsUrl := by
  intro url host h
  cases h
  rfl

/-- A module function runs `git`, is refused `rm`, and sends a request that is answered by a redirect. -/
def listedActs : List Act :=
  [.process (.moduleCall .call),
    .subprocess ⟨.run, .list [.str "/usr/bin/git".toList, .str "status".toList], false, [], true⟩,
    .subprocess ⟨.run, .list [.str "rm".toList], false, [], true⟩,
    .http ⟨.sync, some "https://api.example.com/v1".toList, none, true, ["https://API.example.com/v2".toList]⟩]

theorem listedActs_on_lists :
    ∃ w, (Outside.start listedVm).run plainHttp listedActs = some w ∧ w.OnLists listedVm := by
  have hrun : ∃ w, (Outside.start listedVm).run plainHttp listedActs = some w := ⟨_, rfl⟩
  obtain ⟨w, hw⟩ := hrun
  refine ⟨w, hw, (on_lists_iff plainHttp_readsUrl ?_ hw).mpr ?_⟩
  · simp [listedActs, Act.PassesCaller, Event.PassesCaller, CallForm.passesCaller]
  · intro act hact
    simp only [listedActs, List.mem_cons, List.not_mem_nil, or_false] at hact
    obtain rfl | rfl | rfl | rfl := hact
    · trivial
    · exact fun _ _ => trivial
    · exact fun _ _ => trivial
    · intro hosts hh url _ _ _ target ht host hhost
      cases hh
      simp only [HttpCall.followed, maxRedirects, Option.getD_none, if_true, List.take_succ_cons, List.take_nil,
        List.mem_cons, List.not_mem_nil, or_false] at ht
      subst ht
      cases hhost
      decide

/-- `spawn(["rm"])` is started, and a redirect to another host is followed. -/
theorem spawn_off_list :
    ∃ w, (Outside.start listedVm).run plainHttp
        [.subprocess ⟨.spawn, .list [.str "rm".toList], false, [], true⟩,
          .http ⟨.sync, some "https://api.example.com/v1".toList, none, true, ["http://169.254.169.254/".toList]⟩] =
        some w ∧
      .command "rm".toList ∈ w.started ∧ "169.254.169.254".toList ∈ w.contacted ∧ ¬ w.OnLists listedVm := by
  refine ⟨_, rfl, by decide, by decide, ?_⟩
  intro h
  have hrm : Launch.Allowed ["git"] (.command "rm".toList) := h.1 _ rfl _ (by decide)
  rcases hrm with hrm | hrm
  · exact absurd hrm (by decide)
  · exact absurd hrm (by decide)

end Nodus

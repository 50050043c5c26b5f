import Nodus.Bytecode

/-! The VMs of one process. A program starts on a root VM; calls of module functions, tool handlers and
resumed workflows run on VMs derived from another one. What a derived VM may do (its authority) and how
much it may consume (its run bounds) is settled at the derivation. -/

namespace Nodus

/-- The attributes of a VM that carry authority. -/
inductive Attribute where
  | allowedPaths
  | writablePaths
  | fsRoot
  | allowSubprocess
  | allowNetwork
  | allowEnv
  | allowedCommands
  | allowedHosts
  | capabilityPolicy
  | capabilityFloor
  | approvalChannel
  | inputFn
  deriving DecidableEq, Repr

/-- `AUTHORITY_ATTRIBUTES`. -/
def authorityAttributes : List Attribute :=
  [.allowedPaths, .writablePaths, .fsRoot, .allowSubprocess, .allowNetwork, .allowEnv, .allowedCommands,
    .allowedHosts, .capabilityPolicy, .capabilityFloor, .approvalChannel, .inputFn]

/-- The value of an attribute. Policies, channels and functions are objects, known by identity. -/
inductive AttrValue where
  | none
  | flag (b : Bool)
  | text (s : String)
  | texts (items : List String)
  | object (id : Nat)
  deriving DecidableEq, Repr

/-- What the constructor sets where its caller passes nothing: no path or command lists, every `allow_*`
flag, no policy, the default floor (object 0), the `input` of the process (object 1). -/
def constructorDefault : Attribute → AttrValue
  | .allowSubprocess | .allowNetwork | .allowEnv => .flag true
  | .capabilityFloor => .object 0
  | .inputFn => .object 1
  | _ => .none

/-- `MAX_STACK_DEPTH`. -/
def maxStackDepth : Nat := 10000

/-- A VM, by what it inherits, counts and checks. Instants are absolute; `callerVm` and `scheduler` name
VMs of the process, a scheduler by the VM it was made for. -/
structure Vm where
  attrs : Attribute → AttrValue
  scheduler : Nat
  callerVm : Option Nat := none
  instructionsExecuted : Nat := 0
  maxSteps : Option Nat := none
  deadline : Option Int := none
  maxFrames : Option Nat := some maxStackDepth
  maxMemoryBytes : Option Nat := none
  lastDeadlineCheck : Nat := 0
  taskStepBudget : Option Int := none
  budgetExceeded : Bool := false
  lastBatchEmit : Nat := 0

/-- `VM(...)`, with the attributes in `handed` passed on from another VM. -/
def Vm.construct (handed : List Attribute) (origin : Option Vm) (scheduler : Nat) : Vm where
  attrs a :=
    match origin with
    | some vm => if a ∈ handed then vm.attrs a else constructorDefault a
    | none => constructorDefault a
  scheduler

/-! What a derived VM is given. -/

def Vm.setattr (vm : Vm) (a : Attribute) (v : AttrValue) : Vm :=
  { vm with attrs := fun b => if b = a then v else vm.attrs b }

def inheritAuthority (child parent : Vm) : Vm :=
  authorityAttributes.foldl (fun vm a => vm.setattr a (parent.attrs a)) child

/-- Ceilings are copied, the step counter is split. -/
def inheritRunBounds (child parent : Vm) : Vm :=
  { child with
    deadline := parent.deadline
    maxFrames := parent.maxFrames
    maxMemoryBytes := parent.maxMemoryBytes
    maxSteps :=
      match parent.maxSteps with
      | some budget => some (budget - parent.instructionsExecuted)
      | none => child.maxSteps }

def chargeRunBounds (child parent : Vm) : Vm :=
  { parent with instructionsExecuted := parent.instructionsExecuted + child.instructionsExecuted }

/-! The sites that derive a VM. -/

/-- How a program reaches a function of a module: by name, as a value, as a method of the module, as a
method of a record that holds it in a field, or as the handler of a tool. -/
inductive CallForm where
  | call
  | callValue
  | callMethodModule
  | callMethodRecord
  | toolHandler
  deriving DecidableEq, Repr

/-- The forms that hand the calling VM to `invoke_function`; the others go through
`ModuleFunction.__call__`. -/
def CallForm.passesCaller : CallForm → Bool
  | .call | .callValue | .callMethodModule => true
  | .callMethodRecord | .toolHandler => false

/-- The VM of `NodusModule.invoke_function`; `own` is its place among the VMs of the process. -/
def moduleVm (caller : Option (Nat × Vm)) (own : Nat) : Vm :=
  let vm := Vm.construct
    [.allowedPaths, .fsRoot, .allowSubprocess, .allowNetwork, .allowEnv, .allowedCommands, .allowedHosts]
    (caller.map Prod.snd) own
  match caller with
  | some (i, parent) => { inheritAuthority vm parent with callerVm := some i, scheduler := parent.scheduler }
  | none => vm

/-- The VM a tool handler compiled in another chunk runs on. -/
def toolVm (root : Nat × Vm) (own : Nat) : Vm :=
  let vm := Vm.construct
    [.allowedPaths, .writablePaths, .fsRoot, .allowSubprocess, .allowNetwork, .allowEnv, .allowedCommands,
      .allowedHosts]
    (some root.2) own
  { inheritAuthority vm root.2 with callerVm := some root.1 }

/-- The child of `_resume_target_vm`. -/
def resumeVm (parent : Vm) (own : Nat) : Vm :=
  inheritRunBounds (inheritAuthority (Vm.construct [] (some parent) own) parent) parent

/-! One instruction. -/

/-- `record_instruction` at an instant, with the memory in use; the flag is whether it raises, which is
before the instruction is dispatched. -/
def recordInstruction (now : Int) (rss : Nat) (vm : Vm) : Bool × Vm :=
  let vm := { vm with instructionsExecuted := vm.instructionsExecuted + 1 }
  let vm :=
    match vm.taskStepBudget with
    | some budget =>
        { vm with taskStepBudget := some (budget - 1), budgetExceeded := vm.budgetExceeded || budget - 1 ≤ 0 }
    | none => vm
  let due := vm.deadline.isSome && 100 ≤ vm.instructionsExecuted - vm.lastDeadlineCheck
  let vm := if due then { vm with lastDeadlineCheck := vm.instructionsExecuted } else vm
  if due && vm.deadline.any (· ≤ now) then (true, vm)
  else if vm.maxSteps.any (· < vm.instructionsExecuted) then (true, vm)
  else if vm.instructionsExecuted % 256 = 0 && vm.maxMemoryBytes.any (· < rss) then (true, vm)
  else if 100 ≤ vm.instructionsExecuted - vm.lastBatchEmit then
    (false, { vm with lastBatchEmit := vm.instructionsExecuted })
  else (false, vm)

/-! The process. -/

/-- A VM that is running, and the VM its instructions are charged to when it is left. -/
structure Entry where
  vm : Nat
  charges : Option Nat := none

/-- The VMs made so far, the running ones innermost first, the instructions dispatched and the time waited
in schedulers so far, and the authority every builtin ran with. -/
structure Process where
  vms : List Vm
  active : List Entry
  dispatched : Nat := 0
  waited : Nat := 0
  builtins : List (Attribute → AttrValue) := []

def Process.start (root : Vm) : Process := ⟨[root], [⟨0, none⟩], 0, 0, []⟩

/-- `root_vm`. A VM is younger than its caller, so the chain is no longer than the list of VMs. -/
def rootVm (vms : List Vm) : Nat → Nat → Nat
  | 0, i => i
  | fuel + 1, i =>
      match (vms[i]?).bind Vm.callerVm with
      | some j => rootVm vms fuel j
      | none => i

inductive Event where
  /-- An instruction is recorded and, if that does not raise, dispatched. -/
  | instruction (now : Int) (rss : Nat)
  | builtin
  /-- A function of a module is called that is not entered in place. -/
  | moduleCall (form : CallForm)
  | toolCall
  | resume
  /-- A closure runs on a VM made before: one that called a module or a tool handler (a proxied or a
  foreign closure), or one that a module or a tool runs on (a coroutine it spawned). -/
  | enter (vm : Nat)
  /-- The innermost VM returns or raises. -/
  | leave
  /-- The scheduler of the innermost VM waits. -/
  | wait (elapsed : Nat)
  deriving DecidableEq, Repr

/-- The VM called a module or a tool handler, or was made for one. -/
def Process.linked (p : Process) (i : Nat) : Bool :=
  p.vms.any (fun vm => vm.callerVm == some i) || ((p.vms[i]?).bind Vm.callerVm).isSome

def Process.push (p : Process) (vm : Vm) (charges : Option Nat) : Process :=
  { p with vms := p.vms ++ [vm], active := ⟨p.vms.length, charges⟩ :: p.active }

def Process.leave (p : Process) (e : Entry) (rest : List Entry) : Process :=
  match e.charges with
  | none => { p with active := rest }
  | some j =>
      match p.vms[e.vm]?, p.vms[j]? with
      | some child, some parent => { p with vms := p.vms.set j (chargeRunBounds child parent), active := rest }
      | _, _ => { p with active := rest }

/-- Time waited does not count against the deadline. -/
def Vm.postpone (vm : Vm) (elapsed : Nat) : Vm := { vm with deadline := vm.deadline.map (· + elapsed) }

def Process.wait (p : Process) (vm : Vm) (elapsed : Nat) : Process :=
  match p.vms[vm.scheduler]? with
  | some owner =>
      { p with
        vms := p.vms.set vm.scheduler (owner.postpone elapsed)
        waited := p.waited + elapsed }
  | none => p

/-- One event; `none` where it cannot happen. -/
def Process.step (p : Process) (event : Event) : Option Process := do
  match p.active with
  | [] => none
  | e :: rest =>
    let vm ← p.vms[e.vm]?
    match event with
    | .instruction now rss =>
        let r := recordInstruction now rss vm
        some { p with
          vms := p.vms.set e.vm r.2
          dispatched := if r.1 then p.dispatched else p.dispatched + 1 }
    | .builtin => some { p with builtins := vm.attrs :: p.builtins }
    | .moduleCall form =>
        let caller := if form.passesCaller then some (e.vm, vm) else none
        some (p.push (moduleVm caller p.vms.length) none)
    | .toolCall =>
        let i := rootVm p.vms p.vms.length e.vm
        let root ← p.vms[i]?
        some (p.push (toolVm (i, root) p.vms.length) none)
    | .resume => some (p.push (resumeVm vm p.vms.length) (some e.vm))
    | .enter i => if p.linked i then some { p with active := ⟨i, none⟩ :: p.active } else none
    | .leave => some (p.leave e rest)
    | .wait elapsed => some (p.wait vm elapsed)

def Process.run (p : Process) (events : List Event) : Option Process := events.foldlM Process.step p

/-! ### Authority -/

theorem setattr_foldl (parent : Vm) (attributes : List Attribute) (child : Vm) :
    attributes.foldl (fun vm a => vm.setattr a (parent.attrs a)) child =
      { child with attrs := fun a => if a ∈ attributes then parent.attrs a else child.attrs a } := by
  induction attributes generalizing child with
  | nil => simp
  | cons b rest ih =>
      rw [List.foldl_cons, ih]
      simp only [Vm.setattr, Vm.mk.injEq, and_self, and_true]
      funext a
      by_cases ha : a ∈ rest
      · simp [ha]
      · by_cases hb : a = b <;> simp [ha, hb]

theorem inheritAuthority_eq (child parent : Vm) :
    inheritAuthority child parent = { child with attrs := parent.attrs } := by
  rw [inheritAuthority, setattr_foldl]
  congr 1
  funext a
  have ha : a ∈ authorityAttributes := by cases a <;> decide
  rw [if_pos ha]

theorem moduleVm_attrs (i : Nat) (parent : Vm) (own : Nat) :
    (moduleVm (some (i, parent)) own).attrs = parent.attrs := by
  simp only [moduleVm, inheritAuthority_eq]

theorem toolVm_attrs (root : Nat × Vm) (own : Nat) : (toolVm root own).attrs = root.2.attrs := by
  simp only [toolVm, inheritAuthority_eq]

theorem resumeVm_attrs (parent : Vm) (own : Nat) : (resumeVm parent own).attrs = parent.attrs := by
  simp only [resumeVm, inheritAuthority_eq, inheritRunBounds]

theorem recordInstruction_eq (now : Int) (rss : Nat) (vm : Vm) :
    ∃ checked budget exceeded emitted,
      (recordInstruction now rss vm).2 =
        { vm with
          instructionsExecuted := vm.instructionsExecuted + 1
          lastDeadlineCheck := checked
          taskStepBudget := budget
          budgetExceeded := exceeded
          lastBatchEmit := emitted } := by
  unfold recordInstruction
  dsimp only
  cases vm.taskStepBudget with
  | none =>
      dsimp only
      repeat' split
      all_goals exact ⟨_, _, _, _, rfl⟩
  | some budget =>
      dsimp only
      repeat' split
      all_goals exact ⟨_, _, _, _, rfl⟩

theorem recordInstruction_within {now : Int} {rss : Nat} {vm : Vm} {budget : Nat}
    (hr : (recordInstruction now rss vm).1 = false) (hb : vm.maxSteps = some budget) :
    vm.instructionsExecuted + 1 ≤ budget := by
  apply Decidable.byContradiction
  intro hlt
  have hover : vm.maxSteps.any (· < vm.instructionsExecuted + 1) = true := by
    rw [hb]
    simpa using hlt
  revert hr
  unfold recordInstruction
  dsimp only
  cases vm.taskStepBudget with
  | none =>
      dsimp only
      repeat' split
      all_goals simp_all
  | some left =>
      dsimp only
      repeat' split
      all_goals simp_all

theorem Process.run_keeps {P : Process → Prop} {ok : Event → Prop}
    (hstep : ∀ p event p', ok event → P p → p.step event = some p' → P p') :
    ∀ (events : List Event) (p p' : Process), (∀ event ∈ events, ok event) → P p →
      p.run events = some p' → P p' := by
  intro events
  induction events with
  | nil =>
      intro p p' _ hp hr
      simp only [Process.run, List.foldlM_nil, Option.pure_def, Option.some.injEq] at hr
      exact hr ▸ hp
  | cons event rest ih =>
      intro p p' hok hp hr
      simp only [Process.run, List.foldlM_cons, Option.bind_eq_bind, Option.bind_eq_some_iff] at hr
      obtain ⟨q, hq, hr⟩ := hr
      have hkept := hstep p event q (hok event List.mem_cons_self) hp hq
      exact ih q p' (fun e he => hok e (List.mem_cons_of_mem event he)) hkept hr

/-- Every VM of the process has the given authority, and every builtin ran with it. -/
structure SameAuthority (auth : Attribute → AttrValue) (p : Process) : Prop where
  vms : ∀ vm ∈ p.vms, vm.attrs = auth
  builtins : ∀ attrs ∈ p.builtins, attrs = auth

/-- The event does not call a function of a module through `ModuleFunction.__call__`. -/
def Event.PassesCaller : Event → Prop
  | .moduleCall form => form.passesCaller = true
  | _ => True

theorem SameAuthority.set {auth : Attribute → AttrValue} {p : Process} (h : SameAuthority auth p) {i : Nat}
    {vm : Vm} (hvm : vm.attrs = auth) {q : Process} (hq : q.vms = p.vms.set i vm)
    (hb : q.builtins = p.builtins) : SameAuthority auth q := by
  constructor
  · intro v hv
    rw [hq] at hv
    rcases List.mem_or_eq_of_mem_set hv with hmem | rfl
    · exact h.vms v hmem
    · exact hvm
  · rw [hb]
    exact h.builtins

theorem SameAuthority.push {auth : Attribute → AttrValue} {p : Process} (h : SameAuthority auth p) {vm : Vm}
    (hvm : vm.attrs = auth) (charges : Option Nat) : SameAuthority auth (p.push vm charges) := by
  constructor
  · intro v hv
    simp only [Process.push, List.mem_append, List.mem_singleton] at hv
    rcases hv with hmem | rfl
    · exact h.vms v hmem
    · exact hvm
  · exact h.builtins

theorem SameAuthority.leave {auth : Attribute → AttrValue} {p : Process} (h : SameAuthority auth p) (e : Entry)
    (rest : List Entry) : SameAuthority auth (p.leave e rest) := by
  unfold Process.leave
  split
  · exact ⟨h.vms, h.builtins⟩
  · split
    · rename_i child parent _ hparent
      have hattrs : (chargeRunBounds child parent).attrs = auth := h.vms parent (List.mem_of_getElem? hparent)
      exact h.set hattrs rfl rfl
    · exact ⟨h.vms, h.builtins⟩

theorem SameAuthority.wait {auth : Attribute → AttrValue} {p : Process} (h : SameAuthority auth p) (vm : Vm)
    (elapsed : Nat) : SameAuthority auth (p.wait vm elapsed) := by
  unfold Process.wait
  split
  · rename_i owner howner
    have hattrs : (owner.postpone elapsed).attrs = auth := h.vms owner (List.mem_of_getElem? howner)
    exact h.set hattrs rfl rfl
  · exact h

theorem Process.step_active {p p' : Process} {event : Event} (hs : p.step event = some p') :
    ∃ e rest vm, p.active = e :: rest ∧ p.vms[e.vm]? = some vm := by
  unfold Process.step at hs
  split at hs
  · cases hs
  · rename_i e rest hact
    obtain ⟨vm, hvm, -⟩ := Option.bind_eq_some_iff.mp hs
    exact ⟨e, rest, vm, hact, hvm⟩

theorem SameAuthority.step {auth : Attribute → AttrValue} (p : Process) (event : Event) (p' : Process)
    (hok : event.PassesCaller) (h : SameAuthority auth p) (hs : p.step event = some p') :
    SameAuthority auth p' := by
  obtain ⟨e, rest, vm, hact, hvm⟩ := Process.step_active hs
  have hauth : vm.attrs = auth := h.vms vm (List.mem_of_getElem? hvm)
  simp only [Process.step, hact, hvm, Option.bind_eq_bind, Option.bind_some] at hs
  cases event with
  | instruction now rss =>
      cases hs
      obtain ⟨checked, budget, exceeded, emitted, hrec⟩ := recordInstruction_eq now rss vm
      exact h.set (by rw [hrec]; exact hauth) rfl rfl
  | builtin =>
      cases hs
      refine ⟨h.vms, ?_⟩
      intro attrs hmem
      rcases List.mem_cons.mp hmem with rfl | hold
      · exact hauth
      · exact h.builtins attrs hold
  | moduleCall form =>
      cases hs
      have hform : form.passesCaller = true := hok
      simp only [hform, if_true]
      exact h.push ((moduleVm_attrs _ _ _).trans hauth) none
  | toolCall =>
      obtain ⟨root, hroot, hp⟩ := Option.bind_eq_some_iff.mp hs
      cases hp
      exact h.push ((toolVm_attrs _ _).trans (h.vms root (List.mem_of_getElem? hroot))) none
  | resume =>
      cases hs
      exact h.push ((resumeVm_attrs _ _).trans hauth) (some e.vm)
  | enter i =>
      dsimp only at hs
      split at hs
      · cases hs
        exact ⟨h.vms, h.builtins⟩
      · cases hs
  | leave =>
      cases hs
      exact h.leave e rest
  | wait elapsed =>
      cases hs
      exact h.wait vm elapsed

/-- As long as no function of a module is called through `ModuleFunction.__call__`, every builtin runs
with exactly the authority of the root VM. -/
theorem authority_kept {root : Vm} {events : List Event} {p : Process}
    (hok : ∀ event ∈ events, event.PassesCaller) (hr : (Process.start root).run events = some p) :
    ∀ attrs ∈ p.builtins, attrs = root.attrs := by
  have hstart : SameAuthority root.attrs (Process.start root) := by
    constructor
    · simp [Process.start]
    · simp [Process.start]
  exact (Process.run_keeps SameAuthority.step events _ p hok hstart hr).builtins

/-- A VM whose program may not start subprocesses. -/
def confinedVm : Vm where
  attrs := fun a => if a = .allowSubprocess then .flag false else constructorDefault a
  scheduler := 0

/-- A module function is called by name, calls a tool handler, and both run builtins. -/
def nestedCalls : List Event := [.moduleCall .call, .builtin, .toolCall, .builtin, .leave, .leave, .builtin]

theorem nestedCalls_authority_kept :
    ∃ p, (Process.start confinedVm).run nestedCalls = some p ∧
      ∀ attrs ∈ p.builtins, attrs = confinedVm.attrs := by
  have hrun : ∃ p, (Process.start confinedVm).run nestedCalls = some p := ⟨_, rfl⟩
  obtain ⟨p, hp⟩ := hrun
  refine ⟨p, hp, authority_kept ?_ hp⟩
  simp [nestedCalls, Event.PassesCaller, CallForm.passesCaller]

/-- `{f: m.run}.f()`: the function of the module runs with the constructor's authority. -/
theorem recordMethod_widens :
    ∃ p, (Process.start confinedVm).run [.moduleCall .callMethodRecord, .builtin] = some p ∧
      ∃ attrs ∈ p.builtins, attrs .allowSubprocess = .flag true ∧
        confinedVm.attrs .allowSubprocess = .flag false :=
  ⟨_, rfl, constructorDefault, List.mem_cons_self, rfl, rfl⟩

/-! ### Run bounds -/

/-- The instructions counted by the running VMs. -/
def spent (vms : List Vm) : List Entry → Nat
  | [] => 0
  | e :: rest => ((vms[e.vm]?).map Vm.instructionsExecuted).getD 0 + spent vms rest

/-- The running VMs: the root, whose limit is the one of the run, and above it resumed ones, each with what
its parent had left. -/
inductive Chain (limit : Nat) (vms : List Vm) : List Entry → Prop
  | nil : Chain limit vms []
  | root {i : Nat} {vm : Vm} (hvm : vms[i]? = some vm) (hmax : vm.maxSteps = some limit) :
      Chain limit vms [⟨i, none⟩]
  | resume {i j budget : Nat} {vm parent : Vm} {charges : Option Nat} {rest : List Entry}
      (hrest : Chain limit vms (⟨j, charges⟩ :: rest)) (hvm : vms[i]? = some vm)
      (hparent : vms[j]? = some parent) (hbudget : parent.maxSteps = some budget)
      (hmax : vm.maxSteps = some (budget - parent.instructionsExecuted))
      (hnew : ∀ e ∈ Entry.mk j charges :: rest, e.vm < i) :
      Chain limit vms (⟨i, some j⟩ :: ⟨j, charges⟩ :: rest)

theorem Chain.budget_le {limit : Nat} {vms : List Vm} {e : Entry} {rest : List Entry}
    (h : Chain limit vms (e :: rest)) {vm : Vm} (hvm : vms[e.vm]? = some vm) :
    ∃ budget, vm.maxSteps = some budget ∧ (budget = 0 ∨ spent vms rest + budget ≤ limit) := by
  generalize hact : e :: rest = active at h
  induction h generalizing e rest vm with
  | nil => cases hact
  | root hroot hmax =>
      cases hact
      cases hroot.symm.trans hvm
      exact ⟨limit, hmax, .inr (by simp [spent])⟩
  | resume hrest hchild hparent hbudget hmax hnew ih =>
      cases hact
      cases hchild.symm.trans hvm
      obtain ⟨left, hleft, hle⟩ := ih hparent rfl
      cases hleft.symm.trans hbudget
      refine ⟨_, hmax, ?_⟩
      simp only [spent, hparent, Option.map_some, Option.getD_some]
      omega

/-- The step limit of a VM and what it has counted. -/
def Vm.meter (vm : Vm) : Option Nat × Nat := (vm.maxSteps, vm.instructionsExecuted)

/-- The chain depends on the limits of its VMs, and on what those below the innermost have counted. -/
theorem Chain.congr {limit : Nat} {vms vms' : List Vm} {e : Entry} {rest : List Entry}
    (h : Chain limit vms (e :: rest))
    (hrest : ∀ x ∈ rest, (vms'[x.vm]?).map Vm.meter = (vms[x.vm]?).map Vm.meter)
    (htop : (vms'[e.vm]?).map Vm.maxSteps = (vms[e.vm]?).map Vm.maxSteps) :
    Chain limit vms' (e :: rest) := by
  generalize hact : e :: rest = active at h
  induction h generalizing e rest with
  | nil => cases hact
  | root hroot hlimit =>
      cases hact
      rw [hroot, Option.map_some, Option.map_eq_some_iff] at htop
      obtain ⟨vm', hvm', hmax⟩ := htop
      exact .root hvm' (hmax.trans hlimit)
  | @resume i j budget child parent charges below hbelow hchild hparent hbudget hleft hnew ih =>
      cases hact
      rw [hchild, Option.map_some, Option.map_eq_some_iff] at htop
      obtain ⟨child', hchild', hmax⟩ := htop
      have hj := hrest ⟨j, charges⟩ List.mem_cons_self
      rw [hparent, Option.map_some, Option.map_eq_some_iff] at hj
      obtain ⟨parent', hparent', hmeter⟩ := hj
      have hsteps : parent'.maxSteps = parent.maxSteps := congrArg Prod.fst hmeter
      have hcount : parent'.instructionsExecuted = parent.instructionsExecuted := congrArg Prod.snd hmeter
      have hbelow' := ih (fun x hx => hrest x (List.mem_cons_of_mem _ hx))
        (by rw [hparent', hparent, Option.map_some, Option.map_some, hsteps]) rfl
      refine .resume hbelow' hchild' hparent' (hsteps.trans hbudget) ?_ hnew
      rw [hmax, hleft, hcount]

theorem Chain.le_of_mem {limit : Nat} {vms : List Vm} {e : Entry} {rest : List Entry}
    (h : Chain limit vms (e :: rest)) : ∀ x ∈ rest, x.vm < e.vm := by
  cases h with
  | root => simp
  | resume _ _ _ _ _ hnew => exact hnew

theorem Chain.lt_length {limit : Nat} {vms : List Vm} {active : List Entry} (h : Chain limit vms active) :
    ∀ x ∈ active, x.vm < vms.length := by
  induction h with
  | nil => simp
  | root hvm =>
      intro x hx
      cases List.mem_singleton.mp hx
      exact (List.getElem?_eq_some_iff.mp hvm).1
  | resume _ hvm _ _ _ _ ih =>
      intro x hx
      rcases List.mem_cons.mp hx with rfl | hx
      · exact (List.getElem?_eq_some_iff.mp hvm).1
      · exact ih x hx

theorem spent_congr {vms vms' : List Vm} {active : List Entry}
    (h : ∀ x ∈ active, (vms'[x.vm]?).map Vm.meter = (vms[x.vm]?).map Vm.meter) :
    spent vms' active = spent vms active := by
  induction active with
  | nil => rfl
  | cons e rest ih =>
      have he := congrArg (Option.map Prod.snd) (h e List.mem_cons_self)
      simp only [Option.map_map] at he
      rw [spent, spent, ih fun x hx => h x (List.mem_cons_of_mem e hx)]
      exact congrArg (·.getD 0 + spent vms rest) he

/-- The run is within its limit: the running VMs form a chain that accounts for every instruction
dispatched. -/
structure WithinLimit (limit : Nat) (p : Process) : Prop where
  chain : Chain limit p.vms p.active
  counted : p.active ≠ [] → p.dispatched ≤ spent p.vms p.active
  within : p.dispatched ≤ limit
  unlinked : ∀ vm ∈ p.vms, vm.callerVm = none

/-- The event derives no VM without handing on the run bounds. -/
def Event.KeepsBounds : Event → Prop
  | .moduleCall _ | .toolCall => False
  | _ => True

theorem WithinLimit.instruction {limit : Nat} {p : Process} (h : WithinLimit limit p) {e : Entry}
    {rest : List Entry} {vm : Vm} (hact : p.active = e :: rest) (hvm : p.vms[e.vm]? = some vm) (now : Int)
    (rss : Nat) :
    WithinLimit limit { p with
      vms := p.vms.set e.vm (recordInstruction now rss vm).2
      dispatched := if (recordInstruction now rss vm).1 then p.dispatched else p.dispatched + 1 } := by
  obtain ⟨checked, left, exceeded, emitted, hrec⟩ := recordInstruction_eq now rss vm
  have hlt : e.vm < p.vms.length := (List.getElem?_eq_some_iff.mp hvm).1
  have hchain : Chain limit p.vms (e :: rest) := hact ▸ h.chain
  have hcounted : p.dispatched ≤ vm.instructionsExecuted + spent p.vms rest := by
    have hle := h.counted (by simp [hact])
    simpa [hact, spent, hvm] using hle
  have hset : (p.vms.set e.vm (recordInstruction now rss vm).2)[e.vm]? =
      some (recordInstruction now rss vm).2 := List.getElem?_set_self hlt
  have hsame : ∀ x ∈ rest, (p.vms.set e.vm (recordInstruction now rss vm).2)[x.vm]? = p.vms[x.vm]? := by
    intro x hx
    have hne := hchain.le_of_mem x hx
    exact List.getElem?_set_ne (by omega)
  have hspent : spent (p.vms.set e.vm (recordInstruction now rss vm).2) (e :: rest) =
      vm.instructionsExecuted + 1 + spent p.vms rest := by
    have hbelow := spent_congr fun x hx => congrArg (Option.map Vm.meter) (hsame x hx)
    rw [spent, hset, hbelow, hrec]
    rfl
  constructor
  · rw [hact]
    refine hchain.congr (fun x hx => by rw [hsame x hx]) ?_
    rw [hset, hvm, hrec]
    rfl
  · intro _
    simp only [hact, hspent]
    split <;> omega
  · dsimp only
    split
    · exact h.within
    · rename_i hraise
      obtain ⟨budget, hbudget, hle⟩ := hchain.budget_le hvm
      have hin := recordInstruction_within (by simpa using hraise) hbudget
      omega
  · intro v hv
    rcases List.mem_or_eq_of_mem_set hv with hmem | rfl
    · exact h.unlinked v hmem
    · rw [hrec]
      exact h.unlinked vm (List.mem_of_getElem? hvm)

theorem WithinLimit.resume {limit : Nat} {p : Process} (h : WithinLimit limit p) {e : Entry}
    {rest : List Entry} {vm : Vm} (hact : p.active = e :: rest) (hvm : p.vms[e.vm]? = some vm) :
    WithinLimit limit (p.push (resumeVm vm p.vms.length) (some e.vm)) := by
  have hchain : Chain limit p.vms (e :: rest) := hact ▸ h.chain
  have hsame : ∀ x ∈ e :: rest, (p.vms ++ [resumeVm vm p.vms.length])[x.vm]? = p.vms[x.vm]? :=
    fun x hx => List.getElem?_append_left (hchain.lt_length x hx)
  have hnew : (p.vms ++ [resumeVm vm p.vms.length])[p.vms.length]? = some (resumeVm vm p.vms.length) := by
    simp
  have hchain' : Chain limit (p.vms ++ [resumeVm vm p.vms.length]) (e :: rest) := by
    refine hchain.congr (fun x hx => by rw [hsame x (List.mem_cons_of_mem e hx)]) ?_
    rw [hsame e List.mem_cons_self]
  have hspent : spent (p.vms ++ [resumeVm vm p.vms.length]) (e :: rest) = spent p.vms (e :: rest) :=
    spent_congr fun x hx => by rw [hsame x hx]
  obtain ⟨budget, hbudget, -⟩ := hchain.budget_le hvm
  constructor
  · simp only [Process.push, hact]
    refine .resume hchain' hnew ((hsame e List.mem_cons_self).trans hvm) hbudget ?_ hchain.lt_length
    simp only [resumeVm, inheritRunBounds, hbudget]
  · intro _
    have hle := h.counted (by simp [hact])
    rw [hact, ← hspent] at hle
    simp only [Process.push, hact]
    rw [spent]
    omega
  · exact h.within
  · intro v hv
    simp only [Process.push, List.mem_append, List.mem_singleton] at hv
    rcases hv with hmem | rfl
    · exact h.unlinked v hmem
    · simp only [resumeVm, inheritAuthority_eq, inheritRunBounds, Vm.construct]

theorem WithinLimit.leave {limit : Nat} {p : Process} (h : WithinLimit limit p) {e : Entry}
    {rest : List Entry} (hact : p.active = e :: rest) : WithinLimit limit (p.leave e rest) := by
  have hchain : Chain limit p.vms (e :: rest) := hact ▸ h.chain
  have hcounted : p.dispatched ≤ spent p.vms (e :: rest) := hact ▸ h.counted (by simp [hact])
  cases hchain with
  | root hvm hmax => exact ⟨.nil, fun hne => absurd rfl hne, h.within, h.unlinked⟩
  | @resume i j budget child parent charges below hbelow hchild hparent hbudget hleft hnew =>
      -- The parent is innermost again, and has counted what the child counted.
      have hlt : j < p.vms.length := (List.getElem?_eq_some_iff.mp hparent).1
      have hset : (p.vms.set j (chargeRunBounds child parent))[j]? = some (chargeRunBounds child parent) :=
        List.getElem?_set_self hlt
      have hsame : ∀ x ∈ below, (p.vms.set j (chargeRunBounds child parent))[x.vm]? = p.vms[x.vm]? := by
        intro x hx
        have hne := hbelow.le_of_mem x hx
        exact List.getElem?_set_ne (by dsimp only at hne; omega)
      have hspent := spent_congr fun x hx => congrArg (Option.map Vm.meter) (hsame x hx)
      simp only [Process.leave, hchild, hparent]
      constructor
      · refine hbelow.congr (fun x hx => by rw [hsame x hx]) ?_
        rw [hset, hparent]
        rfl
      · intro _
        simp only [spent, hchild, hparent, Option.map_some, Option.getD_some] at hcounted
        dsimp only
        rw [spent, hset, hspent]
        simp only [Option.map_some, Option.getD_some, chargeRunBounds]
        omega
      · exact h.within
      · intro v hv
        rcases List.mem_or_eq_of_mem_set hv with hmem | rfl
        · exact h.unlinked v hmem
        · exact h.unlinked parent (List.mem_of_getElem? hparent)

theorem WithinLimit.wait {limit : Nat} {p : Process} (h : WithinLimit limit p) {e : Entry}
    {rest : List Entry} (hact : p.active = e :: rest) (vm : Vm) (elapsed : Nat) :
    WithinLimit limit (p.wait vm elapsed) := by
  unfold Process.wait
  split
  · rename_i owner howner
    have hmeter : ∀ x : Entry, ((p.vms.set vm.scheduler (owner.postpone elapsed))[x.vm]?).map Vm.meter =
        (p.vms[x.vm]?).map Vm.meter := by
      intro x
      by_cases hx : vm.scheduler = x.vm
      · rw [← hx, howner, List.getElem?_set_self (List.getElem?_eq_some_iff.mp howner).1]
        rfl
      · rw [List.getElem?_set_ne hx]
    have hchain : Chain limit p.vms (e :: rest) := hact ▸ h.chain
    constructor
    · dsimp only
      rw [hact]
      refine hchain.congr (fun x _ => hmeter x) ?_
      have hsteps := congrArg (Option.map Prod.fst) (hmeter e)
      rw [Option.map_map, Option.map_map] at hsteps
      exact hsteps
    · intro hne
      dsimp only
      rw [spent_congr fun x _ => hmeter x]
      exact h.counted hne
    · exact h.within
    · intro v hv
      rcases List.mem_or_eq_of_mem_set hv with hmem | rfl
      · exact h.unlinked v hmem
      · exact h.unlinked owner (List.mem_of_getElem? howner)
  · exact h

theorem WithinLimit.not_linked {limit : Nat} {p : Process} (h : WithinLimit limit p) (i : Nat) :
    p.linked i = false := by
  have hcalled : p.vms.any (fun vm => vm.callerVm == some i) = false := by
    rw [List.any_eq_false]
    intro vm hvm
    simp [h.unlinked vm hvm]
  have hmade : (p.vms[i]?).bind Vm.callerVm = none := by
    cases hi : p.vms[i]? with
    | none => rfl
    | some vm => exact h.unlinked vm (List.mem_of_getElem? hi)
  rw [Process.linked, hcalled, hmade]
  rfl

theorem WithinLimit.step {limit : Nat} (p : Process) (event : Event) (p' : Process)
    (hok : event.KeepsBounds) (h : WithinLimit limit p) (hs : p.step event = some p') :
    WithinLimit limit p' := by
  obtain ⟨e, rest, vm, hact, hvm⟩ := Process.step_active hs
  simp only [Process.step, hact, hvm, Option.bind_eq_bind, Option.bind_some] at hs
  cases event with
  | instruction now rss =>
      cases hs
      rw [← hact]
      exact h.instruction hact hvm now rss
  | builtin =>
      cases hs
      rw [← hact]
      exact ⟨h.chain, h.counted, h.within, h.unlinked⟩
  | moduleCall form => exact hok.elim
  | toolCall => exact hok.elim
  | resume =>
      cases hs
      exact h.resume hact hvm
  | enter i =>
      dsimp only at hs
      rw [h.not_linked i] at hs
      cases hs
  | leave =>
      cases hs
      exact h.leave hact
  | wait elapsed =>
      cases hs
      exact h.wait hact vm elapsed

/-- Every VM has the deadline of the run, put off by no more than the time schedulers waited. -/
def DeadlineInForce (deadline : Int) (p : Process) : Prop :=
  ∀ vm ∈ p.vms, ∃ d, vm.deadline = some d ∧ deadline ≤ d ∧ d ≤ deadline + p.waited

theorem DeadlineInForce.set {deadline : Int} {p q : Process} (h : DeadlineInForce deadline p) {i : Nat}
    {vm vm' : Vm} (hvm : p.vms[i]? = some vm) (hd : vm'.deadline = vm.deadline) {j : Nat}
    (hq : q.vms = p.vms.set j vm') (hw : q.waited = p.waited) : DeadlineInForce deadline q := by
  intro v hv
  rw [hq] at hv
  rw [hw]
  rcases List.mem_or_eq_of_mem_set hv with hmem | rfl
  · exact h v hmem
  · rw [hd]
    exact h vm (List.mem_of_getElem? hvm)

theorem DeadlineInForce.wait {deadline : Int} {p : Process} (h : DeadlineInForce deadline p) (vm : Vm)
    (elapsed : Nat) : DeadlineInForce deadline (p.wait vm elapsed) := by
  unfold Process.wait
  split
  · rename_i owner howner
    intro v hv
    rcases List.mem_or_eq_of_mem_set hv with hmem | rfl
    · obtain ⟨d, hd, hlo, hhi⟩ := h v hmem
      exact ⟨d, hd, hlo, by dsimp only; omega⟩
    · obtain ⟨d, hd, hlo, hhi⟩ := h owner (List.mem_of_getElem? howner)
      refine ⟨d + elapsed, ?_, by omega, by dsimp only; omega⟩
      rw [Vm.postpone, hd]
      rfl
  · exact h

theorem DeadlineInForce.step {deadline : Int} (p : Process) (event : Event) (p' : Process)
    (hok : event.KeepsBounds) (h : DeadlineInForce deadline p) (hs : p.step event = some p') :
    DeadlineInForce deadline p' := by
  obtain ⟨e, rest, vm, hact, hvm⟩ := Process.step_active hs
  simp only [Process.step, hact, hvm, Option.bind_eq_bind, Option.bind_some] at hs
  cases event with
  | instruction now rss =>
      cases hs
      obtain ⟨checked, budget, exceeded, emitted, hrec⟩ := recordInstruction_eq now rss vm
      exact h.set hvm (by rw [hrec]) rfl rfl
  | builtin =>
      cases hs
      exact h
  | moduleCall form => exact hok.elim
  | toolCall => exact hok.elim
  | resume =>
      cases hs
      intro v hv
      simp only [Process.push, List.mem_append, List.mem_singleton] at hv
      rcases hv with hmem | rfl
      · exact h v hmem
      · exact h vm (List.mem_of_getElem? hvm)
  | enter i =>
      dsimp only at hs
      split at hs
      · cases hs
        exact h
      · cases hs
  | leave =>
      cases hs
      unfold Process.leave
      split
      · exact h
      · split
        · rename_i child parent _ hparent
          have hd : (chargeRunBounds child parent).deadline = parent.deadline := rfl
          exact h.set hparent hd rfl rfl
        · exact h
  | wait elapsed =>
      cases hs
      exact h.wait vm elapsed

/-- In a run that derives VMs by resuming workflows only, the VMs together dispatch no more instructions
than the root VM may, and its deadline is in force on all of them. -/
theorem run_within_bounds {root : Vm} {events : List Event} {p : Process}
    (hok : ∀ event ∈ events, event.KeepsBounds) (hroot : root.callerVm = none)
    (hr : (Process.start root).run events = some p) :
    (∀ limit, root.maxSteps = some limit → p.dispatched ≤ limit) ∧
      ∀ deadline, root.deadline = some deadline → DeadlineInForce deadline p := by
  constructor
  · intro limit hlimit
    have hstart : WithinLimit limit (Process.start root) := by
      refine ⟨.root rfl hlimit, fun _ => Nat.zero_le _, Nat.zero_le _, ?_⟩
      simpa [Process.start] using hroot
    exact (Process.run_keeps WithinLimit.step events _ p hok hstart hr).within
  · intro deadline hdeadline
    have hstart : DeadlineInForce deadline (Process.start root) := by
      intro vm hvm
      cases List.mem_singleton.mp hvm
      exact ⟨deadline, hdeadline, Int.le_refl _, by simp [Process.start]⟩
    exact Process.run_keeps DeadlineInForce.step events _ p hok hstart hr

/-- A root VM that may dispatch three instructions, until the instant 1000. -/
def boundedVm : Vm where
  attrs := constructorDefault
  scheduler := 0
  maxSteps := some 3
  deadline := some 1000

/-- A workflow is resumed after one instruction and uses up what is left. -/
def resumedRun : List Event :=
  [.instruction 0 0, .resume, .instruction 1 0, .instruction 2 0, .instruction 3 0, .leave, .instruction 4 0]

theorem resumedRun_within_bounds :
    ∃ p, (Process.start boundedVm).run resumedRun = some p ∧ p.dispatched = 3 ∧ p.dispatched ≤ 3 ∧
      DeadlineInForce 1000 p := by
  have hok : ∀ event ∈ resumedRun, event.KeepsBounds := by simp [resumedRun, Event.KeepsBounds]
  obtain ⟨p, hp, hd⟩ : ∃ p, (Process.start boundedVm).run resumedRun = some p ∧ p.dispatched = 3 :=
    ⟨_, rfl, rfl⟩
  have hb := run_within_bounds hok rfl hp
  exact ⟨p, hp, hd, hb.1 3 rfl, hb.2 1000 rfl⟩

/-- A function of a module runs on after the limit of the root VM, and without its deadline. -/
theorem moduleCall_exceeds_bounds :
    ∃ p, (Process.start boundedVm).run [.instruction 0 0, .instruction 1 0, .moduleCall .callMethodModule,
        .instruction 2 0, .instruction 3 0] = some p ∧ 3 < p.dispatched ∧ ¬ DeadlineInForce 1000 p := by
  refine ⟨_, rfl, by decide, ?_⟩
  intro h
  obtain ⟨d, hd, -⟩ := h _ (List.mem_cons_of_mem _ List.mem_cons_self)
  cases hd

end Nodus

import Mathlib.Data.List.Dedup
import Mathlib.Data.List.MinMax
import Mathlib.Data.List.Sort
import Mathlib.Data.Rat.Defs
import Mathlib.Algebra.Order.Ring.Rat
import Mathlib.Logic.Function.Basic

/-! The manager of the workers that execute task bodies, `WorkerManager` of the server. One act is one critical section of its
lock, with the readings of the clock made in it. Times are in milliseconds. -/

namespace Nodus.Serving

/-- The settings of a manager. -/
structure Settings where
  startupGraceMs : ℚ := 250
  timeoutMs : ℚ := 2000
  capabilityWaitMs : ℚ := 2000
  heartbeatTimeoutMs : ℚ := 5000

/-- What `submit` is called with. -/
structure Request (V : Type) where
  taskId : String
  args : List V
  delayMs : ℚ := 0
  requirement : Option String := none
  requirementTimeoutMs : Option ℚ := none
  deriving DecidableEq

structure Job (V : Type) where
  taskId : String := ""
  args : List V := []
  delayUntil : ℚ := 0
  enqueuedAt : ℚ := 0
  requirement : Option String := none
  result : Option V := none
  done : Bool := false
  assignedAt : Option ℚ := none
  assignedWorker : Option Nat := none

/-- An entry of the three tables that are keyed by the id of a worker. -/
structure Worker where
  capabilities : List String := []
  lastSeen : ℚ := 0
  seen : Bool := false

/-- The state of the manager. The worker `w_n` and the job `job_n` are the number `n`; the queue `none` is `_any_jobs`, the
others are those of `_jobs_by_capability`. -/
structure Manager (V : Type) where
  workers : List Nat := []
  worker : Nat → Worker := fun _ => {}
  queues : Option String → List Nat := fun _ => []
  inflight : List Nat := []
  job : Nat → Job V := fun _ => {}
  jobCounter : Nat := 0
  forceDispatch : Bool := false
  /-- The calls of `submit` that wait for a capability, each with its deadline. -/
  waiting : List (Request V × ℚ) := []
  /-- The ids that `register` has returned and that have not been declared dead since. -/
  registered : List Nat := []
  /-- The jobs completed, and those whose `execute_fn` the manager has run, one entry for each time. -/
  completed : List Nat := []
  executed : List Nat := []

def Request.job {V : Type} (r : Request V) (started enqueuedAt : ℚ) : Job V :=
  { taskId := r.taskId, args := r.args, delayUntil := started + r.delayMs, enqueuedAt, requirement := r.requirement }

/-- The queue that a requirement names: an empty one names none. -/
def queueOf (requirement : Option String) : Option String := requirement.filter (· ≠ "")

namespace Manager

variable {V : Type}

def isExpired (cfg : Settings) (lastSeen now graceMs : ℚ) : Bool := now - lastSeen > cfg.heartbeatTimeoutMs + graceMs

def graceMs (cfg : Settings) : ℚ := min 10 (cfg.heartbeatTimeoutMs / 2)

/-- The workers `_expire_workers` gives up. In a poll a worker that was never seen is left alone, except the polling one when it
is the only one. -/
def isDead (cfg : Settings) (s : Manager V) (now : ℚ) (polling : Option Nat) (w : Nat) : Bool :=
  isExpired cfg (s.worker w).lastSeen now (graceMs cfg) &&
    ((s.worker w).seen || match polling with
      | some p => p = w && s.workers.length ≤ 1
      | none => now - (s.worker w).lastSeen > max (cfg.heartbeatTimeoutMs + graceMs cfg) cfg.startupGraceMs)

def requeue (s : Manager V) (jobs : List Nat) : Manager V :=
  { s with queues := fun q => s.queues q ++ jobs.filter fun j => queueOf (s.job j).requirement = q }

/-- The jobs in flight whose worker is among those given up. -/
def orphans (s : Manager V) (dead : List Nat) : List Nat :=
  s.inflight.filter fun j => (s.job j).assignedWorker.any (· ∈ dead)

def expireWorkers (cfg : Settings) (s : Manager V) (now : ℚ) (polling : Option Nat) : Manager V :=
  let dead := s.workers.filter (s.isDead cfg now polling)
  let back := s.orphans dead
  { s with
    workers := s.workers.filter (· ∉ dead)
    registered := s.registered.filter (· ∉ dead)
    inflight := s.inflight.filter (· ∉ back)
    job := fun j => if j ∈ back then { s.job j with assignedAt := none, assignedWorker := none } else s.job j }.requeue back

/-- The id that `register` gives to the next worker. -/
def newId (s : Manager V) : Nat := s.workers.length + 1

def register (s : Manager V) (capabilities : List String) (now : ℚ) : Manager V :=
  { s with
    workers := if s.newId ∈ s.workers then s.workers else s.workers ++ [s.newId]
    worker := Function.update s.worker s.newId ⟨capabilities.dedup.insertionSort (· ≤ ·), now, false⟩
    forceDispatch := true
    registered := s.registered ++ [s.newId] }

def touch (s : Manager V) (w : Nat) (now : ℚ) : Manager V :=
  { s with worker := Function.update s.worker w { s.worker w with lastSeen := now } }

def markSeen (s : Manager V) (w : Nat) (now : ℚ) : Manager V :=
  { s with worker := Function.update s.worker w { s.worker w with lastSeen := now, seen := true } }

def heartbeat (cfg : Settings) (s : Manager V) (w : Nat) (now : ℚ) : Manager V :=
  let s := s.expireWorkers cfg now none
  if w ∈ s.workers then s.markSeen w now else s

def enqueue (s : Manager V) (r : Request V) (started enqueuedAt : ℚ) : Manager V :=
  let id := s.jobCounter + 1
  let q := queueOf r.requirement
  { s with
    jobCounter := id
    job := Function.update s.job id (r.job started enqueuedAt)
    queues := Function.update s.queues q (s.queues q ++ [id]) }

/-- One pass of the loop in which `submit` waits for a worker with the capability. -/
def enrol (s : Manager V) (r : Request V) (deadline now started enqueuedAt : ℚ) : Manager V :=
  match queueOf r.requirement with
  | none => s.enqueue r started enqueuedAt
  | some c =>
      if s.workers.any fun w => c ∈ (s.worker w).capabilities then s.enqueue r started enqueuedAt
      else if deadline - now ≤ 0 then s
      else { s with waiting := s.waiting ++ [(r, deadline)] }

/-- `submit` up to the first time it waits. Without workers and without a requirement the caller's function is run directly, and
there is no job. -/
def submit (cfg : Settings) (s : Manager V) (r : Request V) (now asked checked started enqueuedAt : ℚ) : Manager V :=
  if s.forceDispatch = false ∧ r.requirement = none then s
  else (s.expireWorkers cfg now none).enrol r (asked + r.requirementTimeoutMs.getD cfg.capabilityWaitMs) checked started
    enqueuedAt

/-- A waiting call of `submit` wakes up. -/
def awake (s : Manager V) (i : Nat) (now started enqueuedAt : ℚ) : Manager V :=
  match s.waiting[i]? with
  | none => s
  | some (r, deadline) => { s with waiting := s.waiting.eraseIdx i }.enrol r deadline now started enqueuedAt

def findReady (s : Manager V) (queue : List Nat) (now : ℚ) : Option Nat := queue.find? fun j => (s.job j).delayUntil ≤ now

/-- The first ready job of each queue that a worker may be served from, with its queue. -/
def candidates (s : Manager V) (capabilities : List String) (now : ℚ) : List (Option String × Nat) :=
  (capabilities.map some ++ [none]).filterMap fun q => (s.findReady (s.queues q) now).map (q, ·)

/-- The candidate enqueued first. -/
def nextJob (s : Manager V) (capabilities : List String) (now : ℚ) : Option (Option String × Nat) :=
  (s.candidates capabilities now).argmin fun p => (s.job p.2).enqueuedAt

def assignNext (s : Manager V) (w : Nat) (now : ℚ) : Manager V :=
  match s.nextJob (s.worker w).capabilities now with
  | none => s
  | some (q, j) =>
      { s with
        queues := Function.update s.queues q ((s.queues q).erase j)
        job := Function.update s.job j { s.job j with assignedAt := some now, assignedWorker := some w }
        inflight := if j ∈ s.inflight then s.inflight else s.inflight ++ [j] }

/-- The job in flight under a worker. This is what the answer to a poll names. -/
def held (s : Manager V) (w : Nat) : Option Nat := s.inflight.find? fun j => (s.job j).assignedWorker = some w

/-- The jobs in flight whose assignment has timed out. A time of zero counts as no assignment. -/
def late (cfg : Settings) (s : Manager V) (now : ℚ) : List Nat :=
  s.inflight.filter fun j => (s.job j).assignedAt.any fun t => t ≠ 0 && now - t > cfg.timeoutMs

/-- The jobs that have timed out are queued again. They stay in flight. -/
def timeOut (cfg : Settings) (s : Manager V) (now : ℚ) : Manager V :=
  { s with job := fun j => if j ∈ s.late cfg now then { s.job j with assignedAt := none } else s.job j }.requeue (s.late cfg now)

/-- A poll up to the point at which it is known whether the worker lives. -/
def greet (cfg : Settings) (s : Manager V) (w : Nat) (now : ℚ) : Manager V :=
  (if w ∈ s.workers ∧ isExpired cfg (s.worker w).lastSeen now 0 = false then s.touch w now else s).expireWorkers cfg now (some w)

def poll (cfg : Settings) (s : Manager V) (w : Nat) (now : ℚ) : Manager V :=
  let s := s.greet cfg w now
  if w ∈ s.workers then
    let s := s.markSeen w now
    if (s.held w).isSome then s else (s.timeOut cfg now).assignNext w now
  else s

/-- One pass of the loop of `wait_for_job`. -/
def waitForJob (s : Manager V) (w : Nat) (now : ℚ) : Manager V :=
  if w ∈ s.workers then
    let s := s.markSeen w now
    if (s.held w).isSome then s else s.assignNext w now
  else s

/-- A result may be reported by anyone. With the status `"execute"` it is what the job's function returns or raises. -/
def result (s : Manager V) (w j : Nat) (status : String) (reported outcome : V) (now : ℚ) : Manager V :=
  let s := if w ∈ s.workers then s.touch w now else s
  if j ∈ s.inflight then
    { s with
      inflight := s.inflight.filter (· ≠ j)
      job := Function.update s.job j
        { s.job j with result := some (if status = "execute" then outcome else reported), done := true }
      completed := s.completed ++ [j]
      executed := if status = "execute" then s.executed ++ [j] else s.executed }
  else s

end Manager

/-- The critical sections, with the readings of the clock in the order they are made. -/
inductive Call (V : Type) where
  | register (capabilities : List String) (now : ℚ)
  | heartbeat (w : Nat) (now : ℚ)
  | submit (r : Request V) (now asked checked started enqueuedAt : ℚ)
  | awake (i : Nat) (now started enqueuedAt : ℚ)
  | poll (w : Nat) (now : ℚ)
  | waitForJob (w : Nat) (now : ℚ)
  | result (w j : Nat) (status : String) (reported outcome : V) (now : ℚ)
  | sweep (now : ℚ)
  deriving DecidableEq

namespace Manager

variable {V : Type}

def perform (cfg : Settings) (s : Manager V) : Call V → Manager V
  | .register capabilities now => s.register capabilities now
  | .heartbeat w now => s.heartbeat cfg w now
  | .submit r now asked checked started enqueuedAt => s.submit cfg r now asked checked started enqueuedAt
  | .awake i now started enqueuedAt => s.awake i now started enqueuedAt
  | .poll w now => s.poll cfg w now
  | .waitForJob w now => s.waitForJob w now
  | .result w j status reported outcome now => s.result w j status reported outcome now
  | .sweep now => s.expireWorkers cfg now none

def run (cfg : Settings) (s : Manager V) (calls : List (Call V)) : Manager V := calls.foldl (perform cfg) s

/-- Once in the queue that its requirement names, and nowhere else. -/
def Queued (s : Manager V) (j : Nat) : Prop :=
  (∀ q, (s.queues q).count j = if queueOf (s.job j).requirement = q then 1 else 0) ∧ s.inflight.count j = 0

/-- In flight under one live worker that declared the capability required, and in no queue. -/
def Assigned (s : Manager V) (j : Nat) : Prop :=
  (∀ q, (s.queues q).count j = 0) ∧ s.inflight.count j = 1 ∧
    ∃ w ∈ s.workers, (s.job j).assignedWorker = some w ∧
      ∀ c, queueOf (s.job j).requirement = some c → c ∈ (s.worker w).capabilities

def Gone (s : Manager V) (j : Nat) : Prop := (∀ q, (s.queues q).count j = 0) ∧ s.inflight.count j = 0

def Submitted (s : Manager V) (j : Nat) : Prop := 1 ≤ j ∧ j ≤ s.jobCounter

instance (s : Manager V) (j : Nat) : Decidable (s.Submitted j) := inferInstanceAs (Decidable (_ ∧ _))

/-- The books are in order: a job that is not done is in exactly one place, a job that is done in none, no id in use was given
twice, and no job was completed or executed twice. -/
structure Sound (s : Manager V) : Prop where
  placed : ∀ j, s.Submitted j → (s.job j).done = false → s.Queued j ∨ s.Assigned j
  gone : ∀ j, s.Submitted j → (s.job j).done = true → s.Gone j
  distinct : s.registered.Nodup
  completed : s.completed.Nodup
  executed : s.executed.Nodup

/-- A registration finds its id unused, and where a poll looks for a job no assignment has timed out, or only that of the job
that is then first in line for the polling worker. -/
def InOrder (cfg : Settings) (s : Manager V) : Call V → Prop
  | .register _ _ => s.newId ∉ s.workers
  | .poll w now =>
      let s := (s.greet cfg w now).markSeen w now
      w ∈ s.workers → s.held w = none →
        ∀ j ∈ s.late cfg now, ∃ q, (s.timeOut cfg now).nextJob (s.worker w).capabilities now = some (q, j)
  | _ => True

def AllInOrder (cfg : Settings) : Manager V → List (Call V) → Prop
  | _, [] => True
  | s, call :: calls => InOrder cfg s call ∧ AllInOrder cfg (s.perform cfg call) calls

variable {cfg : Settings} {s s' : Manager V} {j w : Nat}

/-- Where a job is, according to how far it has come. -/
def Stands (s : Manager V) (j : Nat) : Prop :=
  if (s.job j).done = true ∨ ¬ s.Submitted j then s.Gone j else s.Queued j ∨ s.Assigned j

/-- The books, with what is known of the ids not in use. -/
structure Inv (s : Manager V) : Prop where
  stands : ∀ j, s.Stands j
  undone : ∀ j, ¬ s.Submitted j → (s.job j).done = false
  distinct : s.registered.Nodup
  live : ∀ w, w ∈ s.registered ↔ w ∈ s.workers
  completed : s.completed.Nodup
  completed_done : ∀ j ∈ s.completed, (s.job j).done = true
  executed : s.executed.Sublist s.completed

theorem Inv.sound (h : s.Inv) : s.Sound where
  placed j hj hdone := by
    have := h.stands j
    rwa [Stands, if_neg (by simp [hdone, hj])] at this
  gone j _ hdone := by
    have := h.stands j
    rwa [Stands, if_pos (.inl hdone)] at this
  distinct := h.distinct
  completed := h.completed
  executed := h.executed.nodup h.completed

/-- An act does not touch a job: it leaves it where it is, under a worker that lives on. -/
structure SameJob (s s' : Manager V) (j : Nat) : Prop where
  queues : ∀ q, (s'.queues q).count j = (s.queues q).count j
  inflight : s'.inflight.count j = s.inflight.count j
  requirement : (s'.job j).requirement = (s.job j).requirement
  done : (s'.job j).done = (s.job j).done
  worker : ∀ w ∈ s.workers, s.inflight.count j = 1 → (s.job j).assignedWorker = some w →
    (s'.job j).assignedWorker = some w ∧ w ∈ s'.workers ∧ (s'.worker w).capabilities = (s.worker w).capabilities
  submitted : s'.Submitted j ↔ s.Submitted j

theorem Stands.same (hj : s.Stands j) (h : SameJob s s' j) : s'.Stands j := by
  unfold Stands at hj ⊢
  simp only [h.done, h.submitted]
  split at hj
  · next hgone =>
      rw [if_pos hgone]
      exact ⟨fun q => (h.queues q).trans (hj.1 q), h.inflight.trans hj.2⟩
  · next hplaced =>
      rw [if_neg hplaced]
      rcases hj with ⟨hqueues, hinflight⟩ | ⟨hqueues, hinflight, w, hw, hworker, hcap⟩
      · refine .inl ⟨fun q => ?_, h.inflight.trans hinflight⟩
        rw [h.queues, h.requirement, hqueues]
      · obtain ⟨hworker', hw', hcap'⟩ := h.worker w hw hinflight hworker
        refine .inr ⟨fun q => (h.queues q).trans (hqueues q), h.inflight.trans hinflight, w, hw', hworker', fun c hc => ?_⟩
        rw [h.requirement] at hc
        rw [hcap']
        exact hcap c hc

theorem Inv.assigned_of_mem (h : s.Inv) (hj : j ∈ s.inflight) : s.Assigned j ∧ (s.job j).done = false ∧ s.Submitted j := by
  have hstands := h.stands j
  have hcount : s.inflight.count j ≠ 0 := fun h0 => List.count_eq_zero.mp h0 hj
  unfold Stands at hstands
  split at hstands
  · exact absurd hstands.2 hcount
  · next hplaced =>
      have hdone : (s.job j).done = false := by
        cases hd : (s.job j).done with
        | false => rfl
        | true => exact absurd (.inl hd) hplaced
      refine ⟨hstands.resolve_left fun hq => hcount hq.2, hdone, ?_⟩
      by_contra hsub
      exact hplaced (.inr hsub)

theorem Inv.queued_of_mem {q : Option String} (h : s.Inv) (hj : j ∈ s.queues q) :
    s.Queued j ∧ queueOf (s.job j).requirement = q ∧ (s.job j).done = false ∧ s.Submitted j := by
  have hstands := h.stands j
  have hcount : (s.queues q).count j ≠ 0 := fun h0 => List.count_eq_zero.mp h0 hj
  unfold Stands at hstands
  split at hstands
  · exact absurd (hstands.1 q) hcount
  · next hplaced =>
      have hqueued := hstands.resolve_right fun ha => hcount (ha.1 q)
      refine ⟨hqueued, ?_, ?_, ?_⟩
      · by_contra hq
        exact hcount ((hqueued.1 q).trans (if_neg hq))
      · cases hd : (s.job j).done with
        | false => rfl
        | true => exact absurd (.inl hd) hplaced
      · by_contra hsub
        exact hplaced (.inr hsub)

theorem Inv.kept (h : s.Inv) (hstands : ∀ j, s'.Stands j) (hdone : ∀ j, s.Submitted j → (s'.job j).done = (s.job j).done)
    (hundone : ∀ j, ¬ s.Submitted j → (s'.job j).done = false) (hcounter : s.jobCounter ≤ s'.jobCounter)
    (hdistinct : s'.registered.Nodup) (hlive : ∀ w, w ∈ s'.registered ↔ w ∈ s'.workers)
    (hcompleted : s'.completed = s.completed) (hexecuted : s'.executed = s.executed) : s'.Inv where
  stands := hstands
  undone j hj := hundone j fun hs => hj ⟨hs.1, hs.2.trans hcounter⟩
  distinct := hdistinct
  live := hlive
  completed := hcompleted ▸ h.completed
  completed_done j hj := by
    rw [hcompleted] at hj
    have htrue := h.completed_done j hj
    by_cases hsub : s.Submitted j
    · rw [hdone j hsub]
      exact htrue
    · rw [h.undone j hsub] at htrue
      cases htrue
  executed := by
    rw [hcompleted, hexecuted]
    exact h.executed

theorem Inv.noted (h : s.Inv) {worker : Nat → Worker} (hcap : ∀ w, (worker w).capabilities = (s.worker w).capabilities) :
    ({ s with worker } : Manager V).Inv := by
  refine h.kept (fun j => (h.stands j).same ⟨fun _ => rfl, rfl, rfl, rfl, fun w hw _ hj => ⟨hj, hw, hcap w⟩, .rfl⟩)
    (fun _ _ => rfl) h.undone le_rfl h.distinct h.live rfl rfl

theorem update_capabilities (s : Manager V) (w : Nat) (e : Worker) (he : e.capabilities = (s.worker w).capabilities) (v : Nat) :
    (Function.update s.worker w e v).capabilities = (s.worker v).capabilities := by
  by_cases hv : v = w
  · rw [hv, Function.update_self, he]
  · rw [Function.update_of_ne hv]

theorem Inv.touch (h : s.Inv) (w : Nat) (now : ℚ) : (s.touch w now).Inv := h.noted (update_capabilities s w _ rfl)

theorem Inv.markSeen (h : s.Inv) (w : Nat) (now : ℚ) : (s.markSeen w now).Inv := h.noted (update_capabilities s w _ rfl)

theorem Inv.register (h : s.Inv) (hnew : s.newId ∉ s.workers) (capabilities : List String) (now : ℚ) :
    (s.register capabilities now).Inv := by
  have hne : ∀ w ∈ s.workers, w ≠ s.newId := fun w hw heq => hnew (heq ▸ hw)
  have hworkers : (s.register capabilities now).workers = s.workers ++ [s.newId] := if_neg hnew
  refine h.kept (fun j => (h.stands j).same ⟨fun _ => rfl, rfl, rfl, rfl, fun w hw _ hj => ⟨hj, ?_, ?_⟩, .rfl⟩)
    (fun _ _ => rfl) h.undone le_rfl ?_ ?_ rfl rfl
  · rw [hworkers]
    exact List.mem_append_left _ hw
  · exact congrArg Worker.capabilities (Function.update_of_ne (hne w hw) _ _)
  · refine List.Nodup.append h.distinct (List.nodup_singleton _) fun w hw hmem => ?_
    exact hne w ((h.live w).mp hw) (List.mem_singleton.mp hmem)
  · intro w
    rw [hworkers, List.mem_append, ← h.live w, ← List.mem_append]
    rfl

theorem count_requeue (s : Manager V) (jobs : List Nat) (q : Option String) (j : Nat) :
    ((s.requeue jobs).queues q).count j =
      (s.queues q).count j + if queueOf (s.job j).requirement = q then jobs.count j else 0 := by
  show (s.queues q ++ jobs.filter fun j => queueOf (s.job j).requirement = q).count j = _
  rw [List.count_append]
  congr 1
  split
  · next hq => exact List.count_filter (by simpa using hq)
  · next hq => exact List.count_eq_zero.mpr fun hmem => hq (by simpa using (List.mem_filter.mp hmem).2)

theorem mem_orphans {dead : List Nat} :
    j ∈ s.orphans dead ↔ j ∈ s.inflight ∧ ∃ w, (s.job j).assignedWorker = some w ∧ w ∈ dead := by
  simp [orphans, List.mem_filter, Option.any_eq_true]

theorem Stands.of_queued (hdone : (s.job j).done = false) (hj : s.Submitted j) (hq : s.Queued j) : s.Stands j := by
  rw [Stands, if_neg (by simp [hdone, hj])]
  exact .inl hq

theorem Inv.expireWorkers (h : s.Inv) (now : ℚ) (polling : Option Nat) : (s.expireWorkers cfg now polling).Inv := by
  set dead := s.workers.filter (s.isDead cfg now polling) with hdead
  set back := s.orphans dead with hback
  have hjob : ∀ j, (s.expireWorkers cfg now polling).job j =
      if j ∈ back then { s.job j with assignedAt := none, assignedWorker := none } else s.job j := fun _ => rfl
  have hrequirement : ∀ j, ((s.expireWorkers cfg now polling).job j).requirement = (s.job j).requirement := by
    intro j
    rw [hjob]
    split <;> rfl
  have hdone : ∀ j, ((s.expireWorkers cfg now polling).job j).done = (s.job j).done := by
    intro j
    rw [hjob]
    split <;> rfl
  have hqueues : ∀ q j, ((s.expireWorkers cfg now polling).queues q).count j =
      (s.queues q).count j + if queueOf (s.job j).requirement = q then back.count j else 0 := by
    intro q j
    refine (count_requeue _ back q j).trans ?_
    rw [← hrequirement j]
    rfl
  have hinflight : (s.expireWorkers cfg now polling).inflight = s.inflight.filter (· ∉ back) := rfl
  refine h.kept (fun j => ?_) (fun j _ => hdone j) (fun j hj => (hdone j).trans (h.undone j hj)) le_rfl (h.distinct.filter _)
    (fun w => ?_) rfl rfl
  · by_cases hj : j ∈ back
    · -- the job comes back from a worker given up
      obtain ⟨hmem, w, hworker, hw⟩ := mem_orphans.mp hj
      obtain ⟨hassigned, hjdone, hsub⟩ := h.assigned_of_mem hmem
      have hone : back.count j = 1 := by
        rw [hback, orphans, List.count_filter (by simp [hworker, hw])]
        exact hassigned.2.1
      refine Stands.of_queued ((hdone j).trans hjdone) hsub ⟨fun q => ?_, ?_⟩
      · rw [hqueues, hassigned.1, hone, hrequirement, Nat.zero_add]
      · rw [hinflight, List.count_eq_zero]
        intro hm
        simpa [hj] using (List.mem_filter.mp hm).2
    · have hzero : back.count j = 0 := List.count_eq_zero.mpr hj
      refine (h.stands j).same ⟨fun q => ?_, ?_, hrequirement j, hdone j, fun w hw hone hworker => ?_, .rfl⟩
      · rw [hqueues, hzero, ite_self, Nat.add_zero]
      · rw [hinflight, List.count_filter (by simpa using hj)]
      · have hmem : j ∈ s.inflight := List.count_pos_iff.mp (by omega)
        have hlives : w ∉ dead := fun hd => hj (mem_orphans.mpr ⟨hmem, w, hworker, hd⟩)
        refine ⟨?_, List.mem_filter.mpr ⟨hw, decide_eq_true hlives⟩, rfl⟩
        rw [hjob, if_neg hj]
        exact hworker
  · show w ∈ s.registered.filter (· ∉ dead) ↔ w ∈ s.workers.filter (· ∉ dead)
    simp only [List.mem_filter, h.live]

theorem Inv.heartbeat (h : s.Inv) (w : Nat) (now : ℚ) : (s.heartbeat cfg w now).Inv := by
  unfold Manager.heartbeat
  simp only []
  split
  · exact (h.expireWorkers now none).markSeen w now
  · exact h.expireWorkers now none

theorem Inv.enqueue (h : s.Inv) (r : Request V) (started enqueuedAt : ℚ) : (s.enqueue r started enqueuedAt).Inv := by
  set id := s.jobCounter + 1 with hid
  set q := queueOf r.requirement with hq
  have hfree : ¬ s.Submitted id := fun hsub => by
    have := hsub.2
    omega
  have hgone : s.Gone id := by
    have := h.stands id
    rwa [Stands, if_pos (.inr hfree)] at this
  have hother : ∀ {j}, j ≠ id → (s.enqueue r started enqueuedAt).job j = s.job j := fun hj => Function.update_of_ne hj _ _
  have hself : (s.enqueue r started enqueuedAt).job id = r.job started enqueuedAt := Function.update_self ..
  have hdone : ∀ j, ((s.enqueue r started enqueuedAt).job j).done = (s.job j).done := by
    intro j
    by_cases hj : j = id
    · rw [hj, hself, h.undone _ hfree]
      rfl
    · rw [hother hj]
  have hqueues : ∀ q', (s.enqueue r started enqueuedAt).queues q' = if q' = q then s.queues q ++ [id] else s.queues q' :=
    fun q' => Function.update_apply ..
  refine h.kept (fun j => ?_) (fun j _ => hdone j) (fun j hj => (hdone j).trans (h.undone j hj)) (Nat.le_succ _) h.distinct
    h.live rfl rfl
  by_cases hj : j = id
  · rw [hj]
    refine Stands.of_queued ((hdone _).trans (h.undone _ hfree)) ⟨Nat.le_add_left .., Nat.le_refl _⟩ ⟨fun q' => ?_, hgone.2⟩
    rw [hqueues, hself, show queueOf (r.job started enqueuedAt).requirement = q from rfl]
    by_cases heq : q' = q
    · rw [if_pos heq, if_pos heq.symm, List.count_append, hgone.1, List.count_singleton_self]
    · rw [if_neg heq, if_neg (Ne.symm heq)]
      exact hgone.1 q'
  · refine (h.stands j).same ⟨fun q' => ?_, rfl, congrArg Job.requirement (hother hj), hdone j, fun w hw _ hworker => ?_, ?_⟩
    · rw [hqueues]
      split
      · next heq => rw [heq, List.count_append, List.count_singleton, beq_false_of_ne (Ne.symm hj), if_neg (by simp), Nat.add_zero]
      · rfl
    · rw [hother hj]
      exact ⟨hworker, hw, rfl⟩
    · constructor
      · intro hsub
        have hle : j ≤ id := hsub.2
        exact ⟨hsub.1, by omega⟩
      · intro hsub
        exact ⟨hsub.1, hsub.2.trans (Nat.le_succ _)⟩

theorem Inv.waits (h : s.Inv) (waiting : List (Request V × ℚ)) : ({ s with waiting } : Manager V).Inv :=
  h.kept (fun j => (h.stands j).same ⟨fun _ => rfl, rfl, rfl, rfl, fun _ hw _ hj => ⟨hj, hw, rfl⟩, .rfl⟩)
    (fun _ _ => rfl) h.undone le_rfl h.distinct h.live rfl rfl

theorem Inv.enrol (h : s.Inv) (r : Request V) (deadline now started enqueuedAt : ℚ) :
    (s.enrol r deadline now started enqueuedAt).Inv := by
  unfold Manager.enrol
  split
  · exact h.enqueue r started enqueuedAt
  · split
    · exact h.enqueue r started enqueuedAt
    · split
      · exact h
      · exact h.waits _

theorem Inv.submit (h : s.Inv) (r : Request V) (now asked checked started enqueuedAt : ℚ) :
    (s.submit cfg r now asked checked started enqueuedAt).Inv := by
  unfold Manager.submit
  split
  · exact h
  · exact (h.expireWorkers now none).enrol r _ checked started enqueuedAt

theorem Inv.awake (h : s.Inv) (i : Nat) (now started enqueuedAt : ℚ) : (s.awake i now started enqueuedAt).Inv := by
  unfold Manager.awake
  split
  · exact h
  · exact (h.waits _).enrol _ _ now started enqueuedAt

/-- The job that is picked is in the queue it is picked from, and that queue is one of the worker's. -/
theorem mem_of_nextJob {capabilities : List String} {now : ℚ} {q : Option String}
    (hpick : s.nextJob capabilities now = some (q, j)) : j ∈ s.queues q ∧ ∀ c, q = some c → c ∈ capabilities := by
  obtain ⟨q', hq', hready⟩ := List.mem_filterMap.mp (List.argmin_mem hpick)
  obtain ⟨j', hfind, heq⟩ := Option.map_eq_some_iff.mp hready
  cases heq
  refine ⟨List.mem_of_find?_eq_some hfind, fun c hc => ?_⟩
  subst hc
  simpa using hq'

theorem Inv.assignNext (h : s.Inv) (hw : w ∈ s.workers) (now : ℚ) : (s.assignNext w now).Inv := by
  unfold Manager.assignNext
  split
  · exact h
  · next q i hpick =>
      obtain ⟨hmem, hcap⟩ := mem_of_nextJob hpick
      obtain ⟨hqueued, hq, hidone, hsub⟩ := h.queued_of_mem hmem
      have hnew : i ∉ s.inflight := List.count_eq_zero.mp hqueued.2
      rw [if_neg hnew]
      have hdone : ∀ j, (Function.update s.job i { s.job i with assignedAt := some now, assignedWorker := some w } j).done =
          (s.job j).done := by
        intro j
        by_cases hj : j = i
        · rw [hj, Function.update_self]
        · rw [Function.update_of_ne hj]
      refine h.kept (fun j => ?_) (fun j _ => hdone j) (fun j hj => (hdone j).trans (h.undone j hj)) le_rfl h.distinct h.live
        rfl rfl
      by_cases hj : j = i
      · subst hj
        rw [Stands, if_neg (by simp [hidone, Submitted, hsub.1, hsub.2])]
        refine .inr ⟨fun q' => ?_, ?_, w, hw, by simp, fun c hc => ?_⟩
        · by_cases heq : q' = q
          · subst heq
            simp only [Function.update_self, List.count_erase_self]
            rw [hqueued.1, if_pos hq]
          · simp only [Function.update_of_ne heq]
            rw [hqueued.1, if_neg (fun h' => heq (h'.symm.trans hq))]
        · simp [hqueued.2]
        · simp only [Function.update_self] at hc
          exact hcap c (hq.symm.trans hc)
      · refine (h.stands j).same ⟨fun q' => ?_, ?_, ?_, hdone j, fun v hv _ hworker => ⟨?_, hv, rfl⟩, .rfl⟩
        · by_cases heq : q' = q
          · subst heq
            simp only [Function.update_self]
            exact List.count_erase_of_ne hj
          · simp only [Function.update_of_ne heq]
        · simp [Ne.symm hj]
        · simp only [Function.update_of_ne hj]
        · simp only [Function.update_of_ne hj]
          exact hworker

theorem timeOut_of_none {now : ℚ} (h : s.late cfg now = []) : s.timeOut cfg now = s := by
  simp [timeOut, requeue, h]

theorem timeOut_requirement (cfg : Settings) (s : Manager V) (now : ℚ) (j : Nat) :
    ((s.timeOut cfg now).job j).requirement = (s.job j).requirement := by
  show (if j ∈ s.late cfg now then { s.job j with assignedAt := none } else s.job j).requirement = _
  split <;> rfl

theorem timeOut_done (cfg : Settings) (s : Manager V) (now : ℚ) (j : Nat) : ((s.timeOut cfg now).job j).done = (s.job j).done := by
  show (if j ∈ s.late cfg now then { s.job j with assignedAt := none } else s.job j).done = _
  split <;> rfl

theorem timeOut_other {now : ℚ} (hj : j ∉ s.late cfg now) : (s.timeOut cfg now).job j = s.job j := if_neg hj

theorem count_timeOut (cfg : Settings) (s : Manager V) (now : ℚ) (q : Option String) (j : Nat) :
    ((s.timeOut cfg now).queues q).count j =
      (s.queues q).count j + if queueOf (s.job j).requirement = q then (s.late cfg now).count j else 0 := by
  refine (count_requeue _ (s.late cfg now) q j).trans ?_
  rw [← timeOut_requirement cfg s now j]
  rfl

theorem Inv.retaken (h : s.Inv) (hw : w ∈ s.workers) {now : ℚ}
    (hlate : ∀ j ∈ s.late cfg now, ∃ q, (s.timeOut cfg now).nextJob (s.worker w).capabilities now = some (q, j)) :
    ((s.timeOut cfg now).assignNext w now).Inv := by
  by_cases hnone : s.late cfg now = []
  · rw [timeOut_of_none hnone]
    exact h.assignNext hw now
  obtain ⟨i, hi⟩ := List.exists_mem_of_ne_nil _ hnone
  obtain ⟨q, hpick⟩ := hlate i hi
  obtain ⟨hmem, htime⟩ := List.mem_filter.mp hi
  obtain ⟨hassigned, hidone, hsub⟩ := h.assigned_of_mem hmem
  obtain ⟨hqueue, hcap⟩ := mem_of_nextJob hpick
  have honly : ∀ j ≠ i, j ∉ s.late cfg now := by
    intro j hj hmem
    obtain ⟨q', hpick'⟩ := hlate j hmem
    rw [hpick] at hpick'
    cases hpick'
    exact hj rfl
  have hone : (s.late cfg now).count i = 1 := by
    refine (List.count_filter ?_).trans hassigned.2.1
    exact htime
  have hq : queueOf (s.job i).requirement = q := by
    by_contra hne
    have := count_timeOut cfg s now q i
    rw [if_neg hne, hassigned.1, Nat.add_zero] at this
    exact List.count_eq_zero.mp this hqueue
  have hassign : (s.timeOut cfg now).assignNext w now = { s.timeOut cfg now with
      queues := Function.update (s.timeOut cfg now).queues q (((s.timeOut cfg now).queues q).erase i)
      job := Function.update (s.timeOut cfg now).job i
        { (s.timeOut cfg now).job i with assignedAt := some now, assignedWorker := some w } } := by
    have hstays : i ∈ (s.timeOut cfg now).inflight := hmem
    simp only [Manager.assignNext, show ((s.timeOut cfg now).worker w) = s.worker w from rfl, hpick, if_pos hstays]
  rw [hassign]
  have hdone : ∀ j, (Function.update (s.timeOut cfg now).job i
      { (s.timeOut cfg now).job i with assignedAt := some now, assignedWorker := some w } j).done = (s.job j).done := by
    intro j
    by_cases hj : j = i
    · rw [hj, Function.update_self]
      exact timeOut_done cfg s now i
    · rw [Function.update_of_ne hj, timeOut_done]
  refine h.kept (fun j => ?_) (fun j _ => hdone j) (fun j hj => (hdone j).trans (h.undone j hj)) le_rfl h.distinct h.live rfl rfl
  by_cases hj : j = i
  · subst hj
    have hfiled : ¬ ((s.job j).done = true ∨ ¬ s.Submitted j) := by simp [hidone, hsub]
    rw [Stands, if_neg (by rw [hdone]; exact hfiled)]
    refine .inr ⟨fun q' => ?_, hassigned.2.1, w, hw, by simp, fun c hc => ?_⟩
    · by_cases heq : q' = q
      · subst heq
        simp only [Function.update_self, List.count_erase_self]
        rw [count_timeOut, if_pos hq, hassigned.1, hone]
      · simp only [Function.update_of_ne heq]
        rw [count_timeOut, if_neg (fun h' => heq (h'.symm.trans hq)), hassigned.1]
    · simp only [Function.update_self] at hc
      rw [timeOut_requirement] at hc
      exact hcap c (hq.symm.trans hc)
  · have hother := timeOut_other (honly j hj)
    have hzero : (s.late cfg now).count j = 0 := List.count_eq_zero.mpr (honly j hj)
    refine (h.stands j).same ⟨fun q' => ?_, rfl, ?_, hdone j, fun v hv _ hworker => ⟨?_, hv, rfl⟩, .rfl⟩
    · by_cases heq : q' = q
      · subst heq
        simp only [Function.update_self]
        rw [List.count_erase_of_ne hj, count_timeOut, hzero, ite_self, Nat.add_zero]
      · simp only [Function.update_of_ne heq]
        rw [count_timeOut, hzero, ite_self, Nat.add_zero]
    · simp only [Function.update_of_ne hj, hother]
    · simp only [Function.update_of_ne hj, hother]
      exact hworker

theorem Inv.greet (h : s.Inv) (w : Nat) (now : ℚ) : (s.greet cfg w now).Inv := by
  unfold Manager.greet
  split
  · exact (h.touch w now).expireWorkers now _
  · exact h.expireWorkers now _

theorem Inv.poll (h : s.Inv) {now : ℚ} (horder : s.InOrder cfg (.poll w now)) : (s.poll cfg w now).Inv := by
  unfold Manager.poll
  simp only []
  split
  · next hw =>
      have hgreet : (s.greet cfg w now).Inv := h.greet w now
      have hseen := hgreet.markSeen w now
      split
      · exact hseen
      · next hheld =>
          have hnone : (s.greet cfg w now).held w = none := Option.not_isSome_iff_eq_none.mp hheld
          exact hseen.retaken hw (horder hw hnone)
  · exact h.greet w now

theorem Inv.waitForJob (h : s.Inv) (w : Nat) (now : ℚ) : (s.waitForJob w now).Inv := by
  unfold Manager.waitForJob
  split
  · next hw =>
      simp only []
      split
      · exact h.markSeen w now
      · exact (h.markSeen w now).assignNext hw now
  · exact h

theorem Inv.reported (h : s.Inv) (hj : j ∈ s.inflight) (value : V) (ran : Bool) :
    ({ s with
       inflight := s.inflight.filter (· ≠ j)
       job := Function.update s.job j { s.job j with result := some value, done := true }
       completed := s.completed ++ [j]
       executed := if ran then s.executed ++ [j] else s.executed } : Manager V).Inv := by
  obtain ⟨hassigned, hdone, hsub⟩ := h.assigned_of_mem hj
  have hfirst : j ∉ s.completed := fun hmem => by
    rw [h.completed_done j hmem] at hdone
    cases hdone
  refine ⟨fun i => ?_, fun i hi => ?_, h.distinct, h.live, ?_, fun i hi => ?_, ?_⟩
  · by_cases hij : i = j
    · subst hij
      rw [Stands, if_pos (.inl (by simp))]
      refine ⟨hassigned.1, List.count_eq_zero.mpr fun hmem => ?_⟩
      simpa using (List.mem_filter.mp hmem).2
    · refine (h.stands i).same
        ⟨fun _ => rfl, List.count_filter (decide_eq_true hij), ?_, ?_, fun v hv _ hworker => ⟨?_, hv, rfl⟩, .rfl⟩
      · simp only [Function.update_of_ne hij]
      · simp only [Function.update_of_ne hij]
      · simp only [Function.update_of_ne hij]
        exact hworker
  · have hij : i ≠ j := fun heq => hi (heq ▸ hsub)
    simp only [Function.update_of_ne hij]
    exact h.undone i hi
  · refine List.Nodup.append h.completed (List.nodup_singleton _) fun i hi hmem => ?_
    rw [List.mem_singleton.mp hmem] at hi
    exact hfirst hi
  · by_cases hij : i = j
    · simp [hij]
    · simp only [Function.update_of_ne hij]
      refine h.completed_done i ?_
      simpa [hij] using hi
  · cases ran with
    | true => exact h.executed.append (List.Sublist.refl _)
    | false => exact h.executed.trans (List.sublist_append_left ..)

theorem Inv.result (h : s.Inv) (w j : Nat) (status : String) (reported outcome : V) (now : ℚ) :
    (s.result w j status reported outcome now).Inv := by
  unfold Manager.result
  set s' := if w ∈ s.workers then s.touch w now else s with hs'
  have hseen : s'.Inv := by
    rw [hs']
    split
    · exact h.touch w now
    · exact h
  simp only []
  split
  · next hj =>
      have := hseen.reported hj (if status = "execute" then outcome else reported) (decide (status = "execute"))
      simpa only [decide_eq_true_eq] using this
  · exact hseen

theorem Inv.perform (h : s.Inv) {call : Call V} (horder : s.InOrder cfg call) : (s.perform cfg call).Inv := by
  cases call with
  | register capabilities now => exact h.register horder capabilities now
  | heartbeat w now => exact h.heartbeat w now
  | submit r now asked checked started enqueuedAt => exact h.submit r now asked checked started enqueuedAt
  | awake i now started enqueuedAt => exact h.awake i now started enqueuedAt
  | poll w now => exact h.poll horder
  | waitForJob w now => exact h.waitForJob w now
  | result w j status reported outcome now => exact h.result w j status reported outcome now
  | sweep now => exact h.expireWorkers now none

theorem Inv.doubled (h : s.Inv) {now : ℚ} (hj : j ∈ s.late cfg now) (hsound : ((s.timeOut cfg now).assignNext w now).Sound) :
    ∃ q, (s.timeOut cfg now).nextJob (s.worker w).capabilities now = some (q, j) := by
  obtain ⟨hmem, htime⟩ := List.mem_filter.mp hj
  obtain ⟨hassigned, hjdone, hsub⟩ := h.assigned_of_mem hmem
  have hone : (s.late cfg now).count j = 1 := by
    refine (List.count_filter ?_).trans hassigned.2.1
    exact htime
  have hqueued : ((s.timeOut cfg now).queues (queueOf (s.job j).requirement)).count j = 1 := by
    rw [count_timeOut, if_pos rfl, hassigned.1, hone]
  -- in flight still, and in its queue unless the poll takes it
  have hboth : ∀ {s' : Manager V}, s'.Sound → s'.jobCounter = s.jobCounter → (s'.job j).done = (s.job j).done →
      j ∈ s'.inflight → (s'.queues (queueOf (s.job j).requirement)).count j = 1 → False := by
    intro s' hs' hcounter hdone hin hq
    have hsub' : s'.Submitted j := ⟨hsub.1, hcounter ▸ hsub.2⟩
    rcases hs'.placed j hsub' (hdone.trans hjdone) with hplace | hplace
    · exact List.count_eq_zero.mp hplace.2 hin
    · rw [hplace.1] at hq
      cases hq
  unfold Manager.assignNext at hsound
  cases hpick : (s.timeOut cfg now).nextJob (s.worker w).capabilities now with
  | none =>
      simp only [show ((s.timeOut cfg now).worker w) = s.worker w from rfl, hpick] at hsound
      exact (hboth hsound rfl (timeOut_done cfg s now j) hmem hqueued).elim
  | some p =>
      obtain ⟨q, i⟩ := p
      by_cases hij : j = i
      · exact ⟨q, by rw [hij]⟩
      simp only [show ((s.timeOut cfg now).worker w) = s.worker w from rfl, hpick] at hsound
      refine (hboth hsound rfl ?_ ?_ ?_).elim
      · simp only [Function.update_of_ne hij]
        exact timeOut_done cfg s now j
      · simp only []
        split
        · exact hmem
        · exact List.mem_append_left _ hmem
      · by_cases heq : queueOf (s.job j).requirement = q
        · rw [← heq]
          simp only [Function.update_self]
          rw [List.count_erase_of_ne hij]
          exact hqueued
        · simp only [Function.update_of_ne heq]
          exact hqueued

theorem Inv.inOrder (h : s.Inv) {call : Call V} (hsound : (s.perform cfg call).Sound) : s.InOrder cfg call := by
  cases call with
  | register capabilities now =>
      intro hmem
      have hnodup : (s.registered ++ [s.newId]).Nodup := hsound.distinct
      exact (List.nodup_append.mp hnodup).2.2 _ ((h.live _).mpr hmem) _ (List.mem_singleton_self _) rfl
  | poll w now =>
      intro hw hnone j hj
      have hgreet : (s.greet cfg w now).Inv := h.greet w now
      have hseen := hgreet.markSeen w now
      refine hseen.doubled hj ?_
      have hpoll : s.poll cfg w now = (((s.greet cfg w now).markSeen w now).timeOut cfg now).assignNext w now := by
        unfold Manager.poll
        simp only []
        rw [if_pos (show w ∈ (s.greet cfg w now).workers from hw), hnone]
        rfl
      rw [← hpoll]
      exact hsound
  | _ => trivial

theorem Inv.sound_iff (h : s.Inv) {calls : List (Call V)} :
    (∀ earlier, earlier <+: calls → (s.run cfg earlier).Sound) ↔ s.AllInOrder cfg calls := by
  induction calls generalizing s with
  | nil =>
      refine iff_of_true (fun earlier hprefix => ?_) trivial
      rw [List.prefix_nil.mp hprefix]
      exact h.sound
  | cons call calls ih =>
      constructor
      · intro hsound
        have horder := h.inOrder (hsound [call] (List.prefix_append [call] calls))
        refine ⟨horder, (ih (h.perform horder)).mp fun earlier hprefix => ?_⟩
        exact hsound (call :: earlier) (List.cons_prefix_cons.mpr ⟨rfl, hprefix⟩)
      · rintro ⟨horder, hrest⟩ earlier hprefix
        cases earlier with
        | nil => exact h.sound
        | cons first earlier =>
            obtain ⟨hfirst, htail⟩ := List.cons_prefix_cons.mp hprefix
            rw [hfirst]
            exact (ih (h.perform horder)).mpr hrest earlier htail

theorem inv_start (forceDispatch : Bool) : ({ forceDispatch } : Manager V).Inv where
  stands j := by
    have hfree : ¬ ({ forceDispatch } : Manager V).Submitted j := fun hsub => by
      have hle : j ≤ 0 := hsub.2
      have hpos := hsub.1
      omega
    rw [Stands, if_pos (.inr hfree)]
    exact ⟨fun _ => rfl, rfl⟩
  undone _ _ := rfl
  distinct := List.nodup_nil
  live _ := Iff.rfl
  completed := List.nodup_nil
  completed_done _ hj := absurd hj List.not_mem_nil
  executed := List.Sublist.refl _

/-- The books stay in order through a run exactly as long as the ids given out are unused and no job that has timed out is left
both in its queue and in flight. -/
theorem sound_iff_inOrder (cfg : Settings) (forceDispatch : Bool) (calls : List (Call V)) :
    (∀ earlier, earlier <+: calls → (run cfg { forceDispatch } earlier).Sound) ↔
      ({ forceDispatch } : Manager V).AllInOrder cfg calls :=
  (inv_start forceDispatch).sound_iff

/-- The first of two workers dies, and the next to register gets the id of the one that lives. -/
def replaced : List (Call Int) :=
  [.register [] 0, .register [] 0, .heartbeat 2 3000, .heartbeat 2 6000, .register [] 6001]

/-- A job times out while a worker without the capability polls. Its result comes, and it is handed out and executed again. -/
def overdue : List (Call Int) :=
  [.register ["gpu"] 0, .register [] 0,
   .submit { taskId := "train", args := [], requirement := some "gpu" } 1 1 1 1 1,
   .poll 1 2, .poll 2 2500, .result 1 1 "execute" 0 7 2600, .poll 1 2700, .result 1 1 "execute" 0 7 2800]

theorem replaced_overdue : ¬ (run {} {} replaced).Sound ∧ ¬ (run {} {} overdue).Sound := by
  have hids : ¬ (run {} {} replaced).registered.Nodup := by decide +kernel
  have htwice : ¬ (run {} {} overdue).executed.Nodup := by decide +kernel
  exact ⟨fun h => hids h.distinct, fun h => htwice h.executed⟩

end Manager
end Nodus.Serving

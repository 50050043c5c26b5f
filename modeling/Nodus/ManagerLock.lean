import Nodus.WorkerManager

/-! The lock of the worker manager among the threads that use it. The function of a job runs inside a critical section. What it
runs may be a task graph, which hands its tasks to the same manager on threads of their own and waits for them. -/

namespace Nodus.Serving

/-- A run of a task graph by a thread: the threads started for its tasks that have not ended, and whether one of them has made it
stop waiting for the others, by a pause or a breach of the host's limit. -/
structure GraphRun where
  workers : List Nat := []
  halted : Bool := false
  deriving DecidableEq

/-- A thread that has ended is a worker of the graph no longer. -/
def GraphRun.without (g : GraphRun) (c : Nat) (halts : Bool) : GraphRun :=
  if c ∈ g.workers then ⟨g.workers.filter (· ≠ c), g.halted || halts⟩ else g

/-- What a thread does. -/
inductive Doing (V : Type) where
  | ended
  /-- Code outside the manager. -/
  | code
  /-- It waits for the lock, to make a call. -/
  | asks (call : Call V)
  /-- It holds the lock and runs the function of a job. -/
  | executes (call : Call V)
  /-- It waits on the condition of the lock, which it does not hold meanwhile. -/
  | parked
  /-- Its call has returned. -/
  | returned
  deriving DecidableEq

/-- The manager with the threads around it. A thread started for a task knows the thread that runs the graph. -/
structure System (V : Type) where
  manager : Manager V
  holder : Option Nat := none
  doing : Nat → Doing V := fun _ => .ended
  graph : Nat → Option GraphRun := fun _ => none
  parent : Nat → Option Nat := fun _ => none

/-- The calls that may wait on the condition. -/
def Call.parks {V : Type} : Call V → Bool
  | .submit .. | .waitForJob .. => true
  | _ => false

/-- The calls that run the function of a job before they give the lock back. -/
def Manager.executes {V : Type} (s : Manager V) : Call V → Bool
  | .submit r .. => !s.forceDispatch && r.requirement.isNone
  | .result _ j status .. => status = "execute" && j ∈ s.inflight
  | _ => false

/-- The moves of the threads. -/
inductive Move (V : Type) where
  | start (t : Nat)
  | call (t : Nat) (call : Call V)
  | acquire (t : Nat) (waits : Bool)
  | finish (t : Nat)
  | wake (t : Nat) (call : Option (Call V)) (waits : Bool)
  | startGraph (t : Nat)
  | handOver (t c : Nat) (r : Request V) (now asked checked started enqueuedAt : ℚ)
  | endGraph (t : Nat)
  | leave (t : Nat) (halts : Bool)

/-- The moves with which a thread gets the lock. -/
def Move.Acquires {V : Type} : Move V → Prop
  | .acquire .. | .wake .. => True
  | _ => False

namespace System

variable {V : Type}

def become (s : System V) (t : Nat) (doing : Doing V) : System V := { s with doing := Function.update s.doing t doing }

def step (cfg : Settings) (s : System V) : Move V → System V
  | .start t => match s.doing t with
      | .ended => s.become t .code
      | _ => s
  | .call t call => match s.doing t, s.graph t with
      | .code, none => s.become t (.asks call)
      | _, _ => s
  -- the whole critical section, unless a function is run in it
  | .acquire t waits => match s.doing t, s.holder with
      | .asks call, none =>
          if s.manager.executes call then { s.become t (.executes call) with holder := some t }
          else { s.become t (if waits && call.parks then .parked else .returned) with manager := s.manager.perform cfg call }
      | _, _ => s
  | .finish t => match s.doing t, s.graph t with
      | .executes call, none => { s.become t .returned with manager := s.manager.perform cfg call, holder := none }
      | _, _ => s
  | .wake t call waits => match s.doing t, s.holder with
      | .parked, none =>
          { s.become t (if waits then .parked else .returned) with manager := call.elim s.manager (s.manager.perform cfg) }
      | _, _ => s
  | .startGraph t => match s.doing t, s.graph t with
      | .code, none | .executes _, none => { s with graph := Function.update s.graph t (some {}) }
      | _, _ => s
  | .handOver t c r now asked checked started enqueuedAt => match s.graph t, s.doing c with
      | some g, .ended =>
          { s.become c (.asks (.submit r now asked checked started enqueuedAt)) with
            graph := Function.update s.graph t (some { g with workers := c :: g.workers })
            parent := Function.update s.parent c (some t) }
      | _, _ => s
  | .endGraph t => match s.graph t with
      | some g => if g.workers = [] ∨ g.halted = true then { s with graph := Function.update s.graph t none } else s
      | none => s
  | .leave t halts => match s.doing t with
      | .returned =>
          { s.become t .ended with graph := fun p => if s.parent t = some p then (s.graph p).map (·.without t halts) else s.graph p }
      | _ => s

def run (cfg : Settings) (s : System V) (moves : List (Move V)) : System V := moves.foldl (step cfg) s

/-- A thread cannot go on by itself: it waits for the lock, on the condition, or for the threads of its graph. -/
def Waits (s : System V) (t : Nat) : Prop :=
  (∃ call, s.doing t = .asks call) ∨ s.doing t = .parked ∨ ∃ g, s.graph t = some g ∧ g.workers ≠ [] ∧ g.halted = false

/-- A thread holds the lock and waits, and whatever the threads do, it waits as long as nobody acquires the lock. -/
def SelfDeadlock (cfg : Settings) (s : System V) (t : Nat) : Prop :=
  s.holder = some t ∧ ∀ moves, (∀ m ∈ moves, ¬ m.Acquires) → (s.run cfg moves).Waits t

/-- A function that runs under the lock hands nothing to the manager. -/
def Free (s : System V) : Move V → Prop
  | .handOver t c .. => s.holder = some t → s.graph t = none ∨ s.doing c ≠ .ended
  | _ => True

def AllFree (cfg : Settings) : System V → List (Move V) → Prop
  | _, [] => True
  | s, m :: moves => s.Free m ∧ AllFree cfg (s.step cfg m) moves

variable {cfg : Settings} {s : System V} {t c : Nat}

/-- The holder of the lock runs a function that waits for no thread. -/
structure Calm (s : System V) : Prop where
  holder : ∀ t, s.holder = some t ↔ ∃ call, s.doing t = .executes call
  graphs : ∀ t g, s.graph t = some g → s.doing t = .code ∨ ∃ call, s.doing t = .executes call
  quiet : ∀ t, s.holder = some t → ∀ g, s.graph t = some g → g = {}

theorem Calm.not_waits (h : s.Calm) (ht : s.holder = some t) : ¬ s.Waits t := by
  obtain ⟨call, hdoing⟩ := (h.holder t).mp ht
  rintro (⟨call', hasks⟩ | hparked | ⟨g, hgraph, hworkers, _⟩)
  · rw [hdoing] at hasks
    cases hasks
  · rw [hdoing] at hparked
    cases hparked
  · rw [h.quiet t ht g hgraph] at hworkers
    exact hworkers rfl

theorem Calm.not_selfDeadlock (h : s.Calm) (t : Nat) : ¬ s.SelfDeadlock cfg t := fun hdead =>
  h.not_waits hdead.1 (hdead.2 [] fun _ hm => absurd hm List.not_mem_nil)

/-- A thread that runs no graph and does not hold the lock goes on to something that is neither. -/
theorem Calm.become (h : s.Calm) (hgraph : s.graph t = none) (hnot : ∀ call, s.doing t ≠ .executes call) {next : Doing V}
    (hnext : ∀ call, next ≠ .executes call) (manager : Manager V) : ({ s.become t next with manager } : System V).Calm where
  holder u := by
    show s.holder = some u ↔ ∃ call, Function.update s.doing t next u = .executes call
    by_cases hu : u = t
    · subst hu
      rw [Function.update_self, h.holder]
      exact iff_of_false (fun ⟨call, hc⟩ => hnot call hc) fun ⟨call, hc⟩ => hnext call hc
    · rw [Function.update_of_ne hu]
      exact h.holder u
  graphs u g hg := by
    have hu : u ≠ t := by
      rintro rfl
      rw [show s.graph u = some g from hg] at hgraph
      cases hgraph
    show Function.update s.doing t next u = .code ∨ ∃ call, Function.update s.doing t next u = .executes call
    rw [Function.update_of_ne hu]
    exact h.graphs u g hg
  quiet u hu g hg := h.quiet u hu g hg

theorem Calm.graph_none (h : s.Calm) (hcode : s.doing t ≠ .code) (hexec : ∀ call, s.doing t ≠ .executes call) :
    s.graph t = none := by
  cases hg : s.graph t with
  | none => rfl
  | some g =>
      rcases h.graphs t g hg with hdoing | ⟨call, hdoing⟩
      · exact absurd hdoing hcode
      · exact absurd hdoing (hexec call)

theorem Calm.withGraph (h : s.Calm) {graph : Nat → Option GraphRun}
    (hgraphs : ∀ u g, graph u = some g → s.doing u = .code ∨ ∃ call, s.doing u = .executes call)
    (hquiet : ∀ u, s.holder = some u → ∀ g, graph u = some g → g = {}) : ({ s with graph } : System V).Calm :=
  ⟨h.holder, hgraphs, hquiet⟩

theorem Calm.acquire (h : s.Calm) {call : Call V} (hasks : s.doing t = .asks call) (hfree : s.holder = none) :
    ({ s.become t (.executes call) with holder := some t } : System V).Calm := by
  have hnone : s.graph t = none := h.graph_none (by simp [hasks]) (by simp [hasks])
  refine ⟨fun u => ?_, fun u g hg => ?_, fun u hu g hg => ?_⟩
  · show some t = some u ↔ ∃ call', Function.update s.doing t (.executes call) u = .executes call'
    by_cases hu : u = t
    · subst hu
      exact iff_of_true rfl ⟨call, Function.update_self ..⟩
    · rw [Function.update_of_ne hu, ← h.holder, hfree]
      exact iff_of_false (fun heq => hu (Option.some.inj heq).symm) (fun heq => nomatch heq)
  · have hu : u ≠ t := by
      rintro rfl
      rw [show s.graph u = some g from hg] at hnone
      cases hnone
    show Function.update s.doing t (.executes call) u = .code ∨ ∃ call', Function.update s.doing t (.executes call) u = .executes call'
    rw [Function.update_of_ne hu]
    exact h.graphs u g hg
  · obtain rfl : t = u := Option.some.inj hu
    rw [show s.graph t = some g from hg] at hnone
    cases hnone

theorem Calm.finish (h : s.Calm) {call : Call V} (hexec : s.doing t = .executes call) (hgraph : s.graph t = none)
    (manager : Manager V) : ({ s.become t .returned with manager, holder := none } : System V).Calm := by
  have hheld : s.holder = some t := (h.holder t).mpr ⟨call, hexec⟩
  refine ⟨fun u => ?_, fun u g hg => ?_, fun u hu => nomatch hu⟩
  · show none = some u ↔ ∃ call', Function.update s.doing t .returned u = .executes call'
    refine iff_of_false (fun heq => nomatch heq) ?_
    rintro ⟨call', hc⟩
    by_cases hu : u = t
    · subst hu
      rw [Function.update_self] at hc
      cases hc
    · rw [Function.update_of_ne hu] at hc
      rw [(h.holder u).mpr ⟨call', hc⟩] at hheld
      exact hu (Option.some.inj hheld)
  · have hu : u ≠ t := by
      rintro rfl
      rw [show s.graph u = some g from hg] at hgraph
      cases hgraph
    show Function.update s.doing t .returned u = .code ∨ ∃ call', Function.update s.doing t .returned u = .executes call'
    rw [Function.update_of_ne hu]
    exact h.graphs u g hg

theorem Calm.step (h : s.Calm) {m : Move V} (hfree : s.Free m) : (s.step cfg m).Calm := by
  cases m with
  | start t =>
      simp only [System.step]
      split
      · next hdoing => exact h.become (h.graph_none (by simp [hdoing]) (by simp [hdoing])) (by simp [hdoing]) (by simp) s.manager
      · exact h
  | call t call =>
      simp only [System.step]
      split
      · next hdoing hgraph => exact h.become hgraph (by simp [hdoing]) (by simp) s.manager
      · exact h
  | acquire t waits =>
      simp only [System.step]
      split
      · next call hdoing hholder =>
          split
          · exact h.acquire hdoing hholder
          · refine h.become (h.graph_none (by simp [hdoing]) (by simp [hdoing])) (by simp [hdoing]) ?_ _
            split <;> simp
      · exact h
  | finish t =>
      simp only [System.step]
      split
      · next call hdoing hgraph => exact h.finish hdoing hgraph _
      · exact h
  | wake t call waits =>
      simp only [System.step]
      split
      · next hdoing hholder =>
          refine h.become (h.graph_none (by simp [hdoing]) (by simp [hdoing])) (by simp [hdoing]) ?_ _
          split <;> simp
      · exact h
  | startGraph t =>
      have hstart : (s.doing t = .code ∨ ∃ call, s.doing t = .executes call) → s.graph t = none →
          ({ s with graph := Function.update s.graph t (some {}) } : System V).Calm := by
        intro hdoing hgraph
        refine h.withGraph (fun u g hg => ?_) fun u hu g hg => ?_
        · by_cases hut : u = t
          · rw [hut]
            exact hdoing
          · rw [Function.update_of_ne hut] at hg
            exact h.graphs u g hg
        · by_cases hut : u = t
          · rw [hut, Function.update_self] at hg
            exact (Option.some.inj hg).symm
          · rw [Function.update_of_ne hut] at hg
            exact h.quiet u hu g hg
      simp only [System.step]
      split
      · next hdoing hgraph => exact hstart (.inl hdoing) hgraph
      · next call hdoing hgraph => exact hstart (.inr ⟨call, hdoing⟩) hgraph
      · exact h
  | handOver t c r now asked checked started enqueuedAt =>
      simp only [System.step]
      split
      · next g hgraph hended =>
          have hother : s.holder ≠ some t := fun ht => by
            rcases hfree ht with hnone | hnot
            · rw [hgraph] at hnone
              cases hnone
            · exact hnot hended
          have hc : s.graph c = none := h.graph_none (by simp [hended]) (by simp [hended])
          have hne : t ≠ c := by
            rintro rfl
            rw [hgraph] at hc
            cases hc
          let asked : Doing V := .asks (.submit r now asked checked started enqueuedAt)
          have hasked : ({ s.become c asked with manager := s.manager } : System V).Calm :=
            h.become hc (by simp [hended]) (by simp [asked]) s.manager
          refine ⟨hasked.holder, fun u g' hg' => ?_, fun u hu g' hg' => ?_⟩
          · by_cases hut : u = t
            · subst hut
              show Function.update s.doing c asked u = .code ∨ ∃ call, Function.update s.doing c asked u = .executes call
              rw [Function.update_of_ne hne]
              exact h.graphs u g hgraph
            · exact hasked.graphs u g' ((Function.update_of_ne hut _ _).symm.trans hg')
          · have hut : u ≠ t := fun heq => hother (heq ▸ hu)
            exact h.quiet u hu g' ((Function.update_of_ne hut _ _).symm.trans hg')
      · exact h
  | endGraph t =>
      simp only [System.step]
      split
      · split
        · refine h.withGraph (fun u g hg => ?_) fun u hu g hg => ?_
          · by_cases hut : u = t
            · rw [hut, Function.update_self] at hg
              cases hg
            · exact h.graphs u g ((Function.update_of_ne hut _ _).symm.trans hg)
          · by_cases hut : u = t
            · rw [hut, Function.update_self] at hg
              cases hg
            · exact h.quiet u hu g ((Function.update_of_ne hut _ _).symm.trans hg)
        · exact h
      · exact h
  | leave t halts =>
      simp only [System.step]
      split
      · next hreturned =>
          have hended : ({ s.become t .ended with manager := s.manager } : System V).Calm :=
            h.become (h.graph_none (by simp [hreturned]) (by simp [hreturned])) (by simp [hreturned]) (by simp) s.manager
          refine hended.withGraph (fun u g hg => ?_) fun u hu g hg => ?_
          · split at hg
            · obtain ⟨g', hg', _⟩ := Option.map_eq_some_iff.mp hg
              exact hended.graphs u g' hg'
            · exact hended.graphs u g hg
          · split at hg
            · obtain ⟨g', hg', rfl⟩ := Option.map_eq_some_iff.mp hg
              rw [h.quiet u hu g' hg']
              rfl
            · exact h.quiet u hu g hg
      · exact h

theorem calm_start (manager : Manager V) : ({ manager } : System V).Calm where
  holder _ := iff_of_false (fun h => nomatch h) fun ⟨_, h⟩ => nomatch h
  graphs _ _ h := nomatch h
  quiet _ h := nomatch h

/-- The threads of a graph that runs under the lock are all on their way to it. -/
structure Stuck (s : System V) (t : Nat) : Prop where
  holder : s.holder = some t
  only : ∀ u call, s.doing u = .executes call → u = t
  graph : ∃ g, s.graph t = some g ∧ g.workers ≠ [] ∧ g.halted = false ∧
    ∀ c ∈ g.workers, (∃ call, s.doing c = .asks call) ∨ s.doing c = .parked

theorem Stuck.waits (h : s.Stuck t) : s.Waits t := by
  obtain ⟨g, hgraph, hworkers, hhalted, _⟩ := h.graph
  exact .inr (.inr ⟨g, hgraph, hworkers, hhalted⟩)

theorem Stuck.become (h : s.Stuck t) {u : Nat} (hasks : ∀ call, s.doing u ≠ .asks call) (hparked : s.doing u ≠ .parked)
    {next : Doing V} (hnext : ∀ call, next ≠ .executes call) : (s.become u next).Stuck t where
  holder := h.holder
  only v call hv := by
    by_cases hvu : v = u
    · rw [hvu] at hv
      exact absurd ((Function.update_self ..).symm.trans hv) (hnext call)
    · exact h.only v call ((Function.update_of_ne hvu _ _).symm.trans hv)
  graph := by
    obtain ⟨g, hgraph, hworkers, hhalted, hway⟩ := h.graph
    refine ⟨g, hgraph, hworkers, hhalted, fun c hc => ?_⟩
    have hcu : c ≠ u := by
      rintro rfl
      rcases hway c hc with ⟨call, hc'⟩ | hc'
      · exact hasks call hc'
      · exact hparked hc'
    show (∃ call, Function.update s.doing u next c = .asks call) ∨ Function.update s.doing u next c = .parked
    rw [Function.update_of_ne hcu]
    exact hway c hc

theorem Stuck.withGraph (h : s.Stuck t) {graph : Nat → Option GraphRun} (hgraph : graph t = s.graph t) :
    ({ s with graph } : System V).Stuck t := by
  obtain ⟨g, hg, hrest⟩ := h.graph
  exact ⟨h.holder, h.only, g, hgraph.trans hg, hrest⟩

theorem Stuck.step (h : s.Stuck t) {m : Move V} (hm : ¬ m.Acquires) : (s.step cfg m).Stuck t := by
  obtain ⟨g, hgraph, hworkers, hhalted, hway⟩ := h.graph
  cases m with
  | start u =>
      simp only [System.step]
      split
      · next hdoing => exact h.become (by simp [hdoing]) (by simp [hdoing]) (by simp)
      · exact h
  | call u call =>
      simp only [System.step]
      split
      · next hdoing _ =>
          exact h.become (by simp [hdoing]) (by simp [hdoing]) (by simp)
      · exact h
  | acquire u waits => exact absurd trivial hm
  | wake u call waits => exact absurd trivial hm
  | finish u =>
      simp only [System.step]
      split
      · next call hdoing hnone =>
          rw [h.only u call hdoing, hgraph] at hnone
          cases hnone
      · exact h
  | startGraph u =>
      have hother : s.graph u = none → ({ s with graph := Function.update s.graph u (some {}) } : System V).Stuck t := by
        intro hnone
        refine h.withGraph (Function.update_of_ne ?_ _ _)
        rintro rfl
        rw [hgraph] at hnone
        cases hnone
      simp only [System.step]
      split
      · next _ hnone => exact hother hnone
      · next _ _ hnone => exact hother hnone
      · exact h
  | handOver u c r now asked checked started enqueuedAt =>
      simp only [System.step]
      split
      · next g' hgraph' hended =>
          have hasked : (s.become c (.asks (.submit r now asked checked started enqueuedAt))).Stuck t :=
            h.become (by simp [hended]) (by simp [hended]) (by simp)
          refine ⟨hasked.holder, hasked.only, ?_⟩
          by_cases hut : t = u
          · subst hut
            rw [hgraph] at hgraph'
            cases hgraph'
            refine ⟨_, Function.update_self .., List.cons_ne_nil _ _, hhalted, fun w hw => ?_⟩
            rcases List.mem_cons.mp hw with rfl | hw
            · exact .inl ⟨_, Function.update_self ..⟩
            · obtain ⟨g'', hg'', _, _, hway'⟩ := hasked.graph
              rw [show s.graph t = some g'' from hg''] at hgraph
              cases hgraph
              exact hway' w hw
          · obtain ⟨g'', hg'', hrest⟩ := hasked.graph
            exact ⟨g'', (Function.update_of_ne hut _ _).trans hg'', hrest⟩
      · exact h
  | endGraph u =>
      simp only [System.step]
      split
      · next g' hgraph' =>
          split
          · next hover =>
              refine h.withGraph (Function.update_of_ne ?_ _ _)
              rintro rfl
              rw [hgraph] at hgraph'
              cases hgraph'
              rcases hover with hempty | hhalt
              · exact hworkers hempty
              · rw [hhalted] at hhalt
                cases hhalt
          · exact h
      · exact h
  | leave u halts =>
      simp only [System.step]
      split
      · next hreturned =>
          have hended : (s.become u .ended).Stuck t := h.become (by simp [hreturned]) (by simp [hreturned]) (by simp)
          refine hended.withGraph ?_
          split
          · have hnot : u ∉ g.workers := fun hu => by
              rcases hway u hu with ⟨call, hc⟩ | hc
              · rw [hreturned] at hc
                cases hc
              · rw [hreturned] at hc
                cases hc
            show (s.graph t).map (·.without u halts) = s.graph t
            rw [hgraph]
            exact congrArg some (if_neg hnot)
          · rfl
      · exact h

theorem Stuck.selfDeadlock (h : s.Stuck t) : s.SelfDeadlock cfg t := by
  refine ⟨h.holder, fun moves => ?_⟩
  induction moves generalizing s with
  | nil => exact fun _ => h.waits
  | cons m moves ih =>
      intro hmoves
      refine ih (h.step (hmoves m List.mem_cons_self)) fun m' hm' => hmoves m' (List.mem_cons_of_mem _ hm')

theorem Calm.stuck (h : s.Calm) {m : Move V} (hnot : ¬ s.Free m) : ∃ t, (s.step cfg m).Stuck t := by
  cases m with
  | handOver t c r now asked checked started enqueuedAt =>
      simp only [Free, Classical.not_imp, not_or, not_not] at hnot
      obtain ⟨hholder, hsome, hended⟩ := hnot
      cases hgraph : s.graph t with
      | none => exact absurd hgraph hsome
      | some g =>
          obtain rfl := h.quiet t hholder g hgraph
          refine ⟨t, ?_⟩
          simp only [System.step, hgraph, hended]
          refine ⟨hholder, fun u call hu => ?_, _, Function.update_self .., List.cons_ne_nil _ _, rfl, fun w hw => ?_⟩
          · by_cases huc : u = c
            · rw [huc] at hu
              exact nomatch (Function.update_self ..).symm.trans hu
            · have hexec := (Function.update_of_ne huc _ _).symm.trans hu
              exact Option.some.inj (((h.holder u).mpr ⟨call, hexec⟩).symm.trans hholder)
          · rcases List.mem_cons.mp hw with rfl | hw
            · exact .inl ⟨_, Function.update_self ..⟩
            · exact absurd hw List.not_mem_nil
  | _ => exact absurd trivial hnot

theorem Calm.noDeadlock_iff (h : s.Calm) {moves : List (Move V)} :
    (∀ earlier, earlier <+: moves → ∀ t, ¬ (s.run cfg earlier).SelfDeadlock cfg t) ↔ s.AllFree cfg moves := by
  induction moves generalizing s with
  | nil =>
      refine iff_of_true (fun earlier hprefix => ?_) trivial
      rw [List.prefix_nil.mp hprefix]
      exact h.not_selfDeadlock
  | cons m moves ih =>
      constructor
      · intro hsafe
        have hfree : s.Free m := by
          by_contra hnot
          obtain ⟨t, hstuck⟩ : ∃ t, (s.step cfg m).Stuck t := h.stuck hnot
          exact hsafe [m] (List.prefix_append [m] moves) t hstuck.selfDeadlock
        refine ⟨hfree, (ih (h.step hfree)).mp fun earlier hprefix => ?_⟩
        exact hsafe (m :: earlier) (List.cons_prefix_cons.mpr ⟨rfl, hprefix⟩)
      · rintro ⟨hfree, hrest⟩ earlier hprefix
        cases earlier with
        | nil => exact h.not_selfDeadlock
        | cons first earlier =>
            obtain ⟨hfirst, htail⟩ := List.cons_prefix_cons.mp hprefix
            rw [hfirst]
            exact (ih (h.step hfree)).mpr hrest earlier htail

/-- No thread ever waits, with the lock in its hands, for what needs the lock, exactly as long as no function that runs under the
lock hands a job to the manager. -/
theorem noDeadlock_iff_free (cfg : Settings) (manager : Manager V) (moves : List (Move V)) :
    (∀ earlier, earlier <+: moves → ∀ t, ¬ (run cfg { manager } earlier).SelfDeadlock cfg t) ↔
      ({ manager } : System V).AllFree cfg moves :=
  (calm_start manager).noDeadlock_iff

theorem AllFree.last {moves : List (Move V)} {m : Move V} (h : s.AllFree cfg (moves ++ [m])) : (s.run cfg moves).Free m := by
  induction moves generalizing s with
  | nil => exact h.1
  | cons first moves ih => exact ih h.2

/-- A step that needs no worker is run by the thread `1`, which was started for it, and runs a graph of its own. -/
def nested : List (Move Int) :=
  [.start 0, .startGraph 0, .handOver 0 1 { taskId := "outer", args := [] } 0 0 0 0 0, .acquire 1 false, .startGraph 1]

/-- A worker reports a step as one to be executed. The thread `4`, which takes the report, runs it, and it runs a graph. -/
def reported : List (Move Int) :=
  [.start 0, .call 0 (.register [] 0), .acquire 0 false, .leave 0 false, .start 0, .startGraph 0,
   .handOver 0 1 { taskId := "outer", args := [] } 0 0 0 0 0, .acquire 1 true, .start 3, .call 3 (.poll 1 1), .acquire 3 false,
   .start 4, .call 4 (.result 1 1 "execute" 0 0 2), .acquire 4 false, .startGraph 4]

/-- The graph hands its step over. -/
def inner (t : Nat) : Move Int := .handOver t 2 { taskId := "inner", args := [] } 3 3 3 3 3

/-- In both runs a thread ends up with the lock, waiting for a thread that wants it. -/
theorem nested_reported :
    (¬ ∀ earlier, earlier <+: nested ++ [inner 1] → ∀ t, ¬ (run {} { manager := {} } earlier).SelfDeadlock {} t) ∧
      ¬ ∀ earlier, earlier <+: reported ++ [inner 4] → ∀ t, ¬ (run {} { manager := {} } earlier).SelfDeadlock {} t := by
  have hnested : (run {} { manager := {} } nested).holder = some 1 ∧ (run {} { manager := {} } nested).graph 1 ≠ none ∧
      (run {} { manager := {} } nested).doing 2 = .ended := by decide +kernel
  have hreported : (run {} { manager := {} } reported).holder = some 4 ∧ (run {} { manager := {} } reported).graph 4 ≠ none ∧
      (run {} { manager := {} } reported).doing 2 = .ended := by decide +kernel
  constructor
  · intro hsafe
    have hfree := AllFree.last ((calm_start _).noDeadlock_iff.mp hsafe)
    exact (hfree hnested.1).elim hnested.2.1 fun hnot => hnot hnested.2.2
  · intro hsafe
    have hfree := AllFree.last ((calm_start _).noDeadlock_iff.mp hsafe)
    exact (hfree hreported.1).elim hreported.2.1 fun hnot => hnot hreported.2.2

end System
end Nodus.Serving

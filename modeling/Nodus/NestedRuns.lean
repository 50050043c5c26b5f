import Nodus.TaskVerdict

/-! Runs that are started in the bodies of others. They share one scheduler, and only the callbacks of the innermost loop hear
of a coroutine that ends. -/

namespace Nodus.Orchestration

/-- A `run_loop` that is under way, with the callbacks of a run. -/
structure Loop where
  run : Nat
  stopped : Bool := false
  deriving DecidableEq, Repr

/-- The runs on one machine, by number. A step coroutine is named by its run and its number in that run. -/
structure Nest where
  runs : Nat → Run := fun _ => Run.fresh (fun _ => {}) [] false false
  begun : Nat := 0
  /-- The loops that are under way, the innermost first. -/
  loops : List Loop := []
  /-- The step coroutines that have ended. -/
  ended : List (Nat × Nat) := []
  /-- Those of them whose run has recorded it. -/
  recorded : List (Nat × Nat) := []
  /-- The runs that have returned a result, as they were then. -/
  returned : List Run := []

inductive Event where
  | act (run : Nat) (act : Act)
  /-- A coroutine ends that is not the body of a step. -/
  | helper (raises : Bool)
  /-- A run begins in the body of a step, or outside of every run. -/
  | nest (s : Run)
  /-- The innermost loop is over, and its run returns. -/
  | leave

namespace Nest

/-- The run is told of the ends of its bodies: its callbacks are those of the innermost loop, or there are worker threads, and
no exception has ended it. -/
def Hears (w : Nest) (r : Nat) : Prop :=
  (w.runs r).crashed = false ∧ ((w.runs r).workers = true ∨ ∃ l ∈ w.loops.head?, l.run = r)

instance (w : Nest) (r : Nat) : Decidable (w.Hears r) := inferInstanceAs (Decidable (_ ∧ (_ ∨ ∃ l ∈ w.loops.head?, _)))

/-- `on_error` answers that the loop is to stop if it does not know the coroutine. -/
def stop (w : Nest) : Nest :=
  match w.loops with
  | [] => w
  | l :: outer => { w with loops := { l with stopped := true } :: outer }

def setRun (w : Nest) (r : Nat) (s : Run) : Nest := { w with runs := Function.update w.runs r s }

/-- A coroutine of a run ends, and the callbacks of the innermost loop are called. -/
def ends (w : Nest) (r thread flight : Nat) (ending : Ending) (swept : Bool) : Nest :=
  let w' := { w with ended := (r, flight) :: w.ended }
  if w.Hears r then
    { w' with recorded := (r, flight) :: w.recorded }.setRun r ((w.runs r).perform (.ends thread flight ending swept))
  else match ending with
    | .raised => w'.stop
    | _ => w'

def perform (w : Nest) : Event → Nest
  | .act r (.ends thread flight ending swept) => w.ends r thread flight ending swept
  | .act r act => w.setRun r ((w.runs r).perform act)
  | .helper raises => if raises then w.stop else w
  | .nest s => { w.setRun w.begun s with begun := w.begun + 1, loops := { run := w.begun } :: w.loops }
  | .leave =>
      match w.loops with
      | [] => w
      | l :: outer =>
          { w with loops := outer, returned := if (w.runs l.run).crashed then w.returned else w.runs l.run :: w.returned }

def run (w : Nest) (events : List Event) : Nest := events.foldl perform w

/-- There is nothing left for the loop of the run to do. -/
def Drained (w : Nest) (r : Nat) : Prop :=
  (∀ p ∈ (w.runs r).running, (r, p.1) ∈ w.ended) ∧ ∀ thread, (w.runs r).frames thread = []

/-- The run returns: it has been stopped, or it waits, or an exception ends it, or it has nothing left to do. -/
def Leaves (w : Nest) (l : Loop) : Prop :=
  l.stopped = true ∨ (w.runs l.run).waiting ≠ none ∨ (w.runs l.run).retryScheduled ≠ none ∨ (w.runs l.run).crashed = true ∨
    w.Drained l.run

/-- What can happen. A coroutine ends once, and after a loop has been stopped nothing happens in it. -/
def Possible (w : Nest) : Event → Prop
  | .act r (.ends _ flight _ _) => r < w.begun ∧ (w.runs r).taskOf flight ≠ none ∧ (r, flight) ∉ w.ended ∧
      ∀ l ∈ w.loops.head?, l.stopped = false
  | .act r _ => r < w.begun ∧ w.Hears r ∧ ∀ l ∈ w.loops.head?, l.stopped = false
  | .helper _ => ∀ l ∈ w.loops.head?, l.stopped = false
  | .nest s => (∃ node tasks, Run.Unrun node tasks ∧ Run.Opens node tasks s) ∧ ∀ l ∈ w.loops.head?, l.stopped = false
  | .leave => ∀ l ∈ w.loops.head?, w.Leaves l

instance (w : Nest) (r : Nat) : (act : Act) → Decidable (w.Possible (.act r act))
  | .ends _ _ _ _ => inferInstanceAs (Decidable (_ ∧ _ ∧ _ ∧ ∀ l ∈ w.loops.head?, l.stopped = false))
  | .turn _ _ | .checkpoint _ | .cached _ _ => inferInstanceAs (Decidable (_ ∧ _ ∧ ∀ l ∈ w.loops.head?, l.stopped = false))

instance (w : Nest) (raises : Bool) : Decidable (w.Possible (.helper raises)) :=
  inferInstanceAs (Decidable (∀ l ∈ w.loops.head?, l.stopped = false))

/-- The run is of an acyclic graph. -/
def OfAcyclic (s : Run) : Prop := ∃ node tasks, Run.Unrun node tasks ∧ Run.Opens node tasks s ∧ Run.Acyclic node tasks

/-- A coroutine of a run ends while the run is told of it, a coroutine of no run returns, and a run that returns a result and
does not wait is sure of it. -/
def Heeds (w : Nest) : Event → Prop
  | .act r (.ends thread flight ending swept) => w.Hears r ∧ (w.runs r).Fits (.ends thread flight ending swept)
  | .act r act => (w.runs r).Fits act
  | .helper raises => raises = false
  | .nest s => OfAcyclic s
  | .leave => ∀ l ∈ w.loops.head?, (w.runs l.run).crashed = false →
      ((w.runs l.run).failed = false → (w.runs l.run).waiting = none ∧ (w.runs l.run).retryScheduled = none) →
        (w.runs l.run).Sure

instance (w : Nest) (r : Nat) : (act : Act) → Decidable (w.Heeds (.act r act))
  | .ends thread flight ending swept =>
      inferInstanceAs (Decidable (w.Hears r ∧ (w.runs r).Fits (.ends thread flight ending swept)))
  | .turn thread cancelled => inferInstanceAs (Decidable ((w.runs r).Fits (.turn thread cancelled)))
  | .checkpoint label => inferInstanceAs (Decidable ((w.runs r).Fits (.checkpoint label)))
  | .cached key v => inferInstanceAs (Decidable ((w.runs r).Fits (.cached key v)))

def AllPossible (w : Nest) : List Event → Prop
  | [] => True
  | event :: events => w.Possible event ∧ (w.perform event).AllPossible events

def AllHeed (w : Nest) : List Event → Prop
  | [] => True
  | event :: events => w.Heeds event ∧ (w.perform event).AllHeed events

/-- Every end of a step coroutine has been recorded once by its run, and a result that names no failed task accounts for every
task. -/
structure Recorded (w : Nest) : Prop where
  once : ∀ c ∈ w.ended, w.recorded.count c = 1
  only : ∀ c ∈ w.recorded, c ∈ w.ended
  popped : ∀ c ∈ w.ended, ∀ p ∈ (w.runs c.1).running, p.1 ≠ c.2
  accounted : ∀ s ∈ w.returned, s.report = .completed ∨ s.report = .failed [] → s.Accounted

/-- What holds in every state. -/
structure Kept (w : Nest) : Prop where
  known : ∀ r < w.begun, ∃ node tasks, Run.Acyclic node tasks ∧ Run.Unrun node tasks ∧ Run.Known node tasks (w.runs r)
  loops : ∀ l ∈ w.loops, l.run < w.begun ∧ l.stopped = false
  ended : ∀ c ∈ w.ended, c.1 < w.begun ∧ c.2 < (w.runs c.1).spawned ∧ ∀ p ∈ (w.runs c.1).running, p.1 ≠ c.2
  nodup : w.ended.Nodup
  recorded : w.recorded = w.ended
  returned : ∀ s ∈ w.returned, s.report = .completed ∨ s.report = .failed [] → s.Accounted

theorem Kept.recorded_runs {w : Nest} (h : w.Kept) : w.Recorded := by
  refine ⟨fun c hc => ?_, fun c hc => h.recorded ▸ hc, fun c hc => (h.ended c hc).2.2, h.returned⟩
  rw [h.recorded]
  exact List.count_eq_one_of_mem h.nodup hc

variable {w : Nest}

theorem setRun_self (w : Nest) (r : Nat) (s : Run) : (w.setRun r s).runs r = s := Function.update_self _ _ _

theorem setRun_of_ne (w : Nest) {r r' : Nat} (s : Run) (h : r' ≠ r) : (w.setRun r s).runs r' = w.runs r' :=
  Function.update_of_ne h _ _

theorem flies_known {node : TaskId → TaskNode} {tasks : List TaskId} {s : Run} (h : Run.Known node tasks s) (act : Act) :
    Run.Flies s (s.perform act) := by
  rcases h with ⟨hregular, -⟩ | hover
  · exact Run.flies_perform hregular.sound.apart act
  · have hend := hover.perform act
    refine ⟨fun p hp => ?_, ?_⟩
    · rw [hend.running] at hp
      cases hp
    · unfold Run.perform
      split
      · exact Nat.le_refl _
      · cases act with
        | turn thread cancelled =>
            simp only [Run.turn, hover.frames thread]
            exact Nat.le_refl _
        | ends thread flight ending swept =>
            have htask : s.taskOf flight = none := by
              unfold Run.taskOf
              rw [hover.running]
              rfl
            simp only [Run.ends, htask]
            exact Nat.le_refl _
        | checkpoint label => exact Nat.le_refl _
        | cached key v => exact Nat.le_refl _

theorem Kept.setRun (h : w.Kept) {r : Nat} (hr : r < w.begun) {act : Act} (hfits : (w.runs r).Fits act) :
    (w.setRun r ((w.runs r).perform act)).Kept := by
  obtain ⟨node, tasks, hacyclic, hunrun, hknown⟩ := h.known r hr
  have hflies := flies_known hknown act
  refine ⟨fun r' hr' => ?_, h.loops, fun c hc => ?_, h.nodup, h.recorded, h.returned⟩
  · by_cases hrr : r' = r
    · rw [hrr, setRun_self]
      exact ⟨node, tasks, hacyclic, hunrun, hknown.perform hfits⟩
    · rw [setRun_of_ne w _ hrr]
      exact h.known r' hr'
  · obtain ⟨hbegun, hbelow, hpopped⟩ := h.ended c hc
    refine ⟨hbegun, ?_⟩
    by_cases hrr : c.1 = r
    · rw [hrr, setRun_self]
      rw [hrr] at hbelow hpopped
      refine ⟨hbelow.trans_le hflies.spawned, fun p hp => ?_⟩
      rcases hflies.running p hp with hold | hnew
      · exact hpopped p hold
      · rw [hnew]
        exact hbelow.ne'
    · rw [setRun_of_ne w _ hrr]
      exact ⟨hbelow, hpopped⟩

theorem Kept.ends (h : w.Kept) {r thread flight : Nat} {ending : Ending} {swept : Bool}
    (hpossible : w.Possible (.act r (.ends thread flight ending swept)))
    (hheeds : w.Heeds (.act r (.ends thread flight ending swept))) : (w.ends r thread flight ending swept).Kept := by
  obtain ⟨hr, htask, hnew, -⟩ := hpossible
  obtain ⟨hhears, hfits⟩ := hheeds
  have hstep := h.setRun hr hfits
  obtain ⟨t, ht⟩ := Option.ne_none_iff_exists'.mp htask
  obtain ⟨node, tasks, -, -, hknown⟩ := h.known r hr
  have hregular : Run.Regular node tasks (w.runs r) := by
    refine (hknown.resolve_right fun hover => ?_).1
    unfold Run.taskOf at htask
    rw [hover.running] at htask
    exact htask rfl
  have hbelow : flight < (w.runs r).spawned := hregular.sound.apart.numbered (flight, t) (Run.mem_of_taskOf ht)
  have hflies := flies_known hknown (.ends thread flight ending swept)
  unfold Nest.ends
  simp only []
  rw [if_pos hhears]
  refine ⟨hstep.known, hstep.loops, fun c hc => ?_, List.nodup_cons.mpr ⟨hnew, h.nodup⟩, ?_, hstep.returned⟩
  · rcases List.mem_cons.mp hc with rfl | hc
    · refine ⟨hr, ?_⟩
      show _ < (Function.update w.runs r _ r).spawned ∧ ∀ p ∈ (Function.update w.runs r _ r).running, p.1 ≠ flight
      rw [Function.update_self]
      refine ⟨hbelow.trans_le hflies.spawned, fun p hp => ?_⟩
      unfold Run.perform at hp
      rw [if_neg (by rw [hhears.1]; decide)] at hp
      exact (Run.flies_ends hregular.sound.apart ht thread ending swept).2 p hp
    · exact hstep.ended c hc
  · show (r, flight) :: w.recorded = (r, flight) :: w.ended
    rw [h.recorded]

theorem Kept.leave (h : w.Kept) (hpossible : w.Possible .leave) (hheeds : w.Heeds .leave) : (w.perform .leave).Kept := by
  unfold perform
  simp only []
  split
  · exact h
  · next l outer hloops =>
      have hl : l ∈ w.loops := by
        rw [hloops]
        exact List.mem_cons_self
      obtain ⟨hbegun, hrunning⟩ := h.loops l hl
      have hhead : l ∈ w.loops.head? := by
        rw [hloops]
        rfl
      refine ⟨h.known, fun l' hl' => h.loops l' ?_, h.ended, h.nodup, h.recorded, ?_⟩
      · rw [hloops]
        exact List.mem_cons_of_mem _ hl'
      · simp only []
        split
        · exact h.returned
        · next hcrashed =>
            intro s hs hreport
            rcases List.mem_cons.mp hs with rfl | hs
            · obtain ⟨node, tasks, hacyclic, hunrun, hknown⟩ := h.known l.run hbegun
              have hcrashed : (w.runs l.run).crashed = false := Bool.eq_false_iff.mpr hcrashed
              have hsure := hheeds l hhead hcrashed fun hcalm => (Run.waits_of_report hcalm hreport).2
              refine hknown.accounted hacyclic hunrun hsure hcrashed (fun hcompleted => ?_) hreport
              have hcalm : (w.runs l.run).failed = false := by
                by_contra hfailed
                have hnames : (w.runs l.run).report = .failed _ := if_pos (Bool.of_not_eq_false hfailed)
                rw [hnames] at hcompleted
                cases hcompleted
              obtain ⟨-, hwaiting, hretry⟩ := Run.waits_of_report hcalm (.inl hcompleted)
              rcases hpossible l hhead with hs | hw | hr | hc | ⟨hflights, hframes⟩
              · rw [hrunning] at hs
                cases hs
              · exact absurd hwaiting hw
              · exact absurd hretry hr
              · rw [hcrashed] at hc
                cases hc
              · refine ⟨List.eq_nil_iff_forall_not_mem.mpr fun p hp => ?_, hframes⟩
                exact (h.ended _ (hflights p hp)).2.2 p hp rfl
            · exact h.returned s hs hreport

theorem Kept.nest (h : w.Kept) {s : Run} (hheeds : w.Heeds (.nest s)) : (w.perform (.nest s)).Kept := by
  obtain ⟨node, tasks, hunrun, hopens, hacyclic⟩ := hheeds
  refine ⟨fun r hr => ?_, fun l hl => ?_, fun c hc => ?_, h.nodup, h.recorded, h.returned⟩
  · show ∃ node tasks, Run.Acyclic node tasks ∧ Run.Unrun node tasks ∧ Run.Known node tasks (Function.update w.runs w.begun s r)
    by_cases hnew : r = w.begun
    · rw [hnew, Function.update_self]
      exact ⟨node, tasks, hacyclic, hunrun, hopens.known hacyclic hunrun⟩
    · rw [Function.update_of_ne hnew]
      exact h.known r (Nat.lt_of_le_of_ne (Nat.lt_succ_iff.mp hr) hnew)
  · rcases List.mem_cons.mp hl with rfl | hl
    · exact ⟨Nat.lt_succ_self _, rfl⟩
    · exact ⟨Nat.lt_succ_of_lt (h.loops l hl).1, (h.loops l hl).2⟩
  · obtain ⟨hbegun, hrest⟩ := h.ended c hc
    refine ⟨Nat.lt_succ_of_lt hbegun, ?_⟩
    show c.2 < (Function.update w.runs w.begun s c.1).spawned ∧ ∀ p ∈ (Function.update w.runs w.begun s c.1).running, p.1 ≠ c.2
    rw [Function.update_of_ne hbegun.ne]
    exact hrest

theorem Kept.perform (h : w.Kept) {event : Event} (hpossible : w.Possible event) (hheeds : w.Heeds event) :
    (w.perform event).Kept := by
  cases event with
  | act r act =>
      cases act with
      | turn thread cancelled => exact h.setRun hpossible.1 hheeds
      | ends thread flight ending swept => exact h.ends hpossible hheeds
      | checkpoint label => exact h.setRun hpossible.1 hheeds
      | cached key v => exact h.setRun hpossible.1 hheeds
  | helper raises =>
      have hreturns : raises = false := hheeds
      rw [hreturns]
      exact h
  | nest s => exact h.nest hheeds
  | leave => exact h.leave hpossible hheeds

theorem Kept.run (h : w.Kept) (events : List Event) (hpossible : w.AllPossible events) (hheeds : w.AllHeed events) :
    (w.run events).Kept := by
  induction events generalizing w with
  | nil => exact h
  | cons event events ih => exact ih (h.perform hpossible.1 hheeds.1) hpossible.2 hheeds.2

theorem kept_start : ({} : Nest).Kept :=
  ⟨fun r hr => absurd hr (Nat.not_lt_zero r), fun _ hl => absurd hl List.not_mem_nil, fun _ hc => absurd hc List.not_mem_nil,
    List.nodup_nil, rfl, fun _ hs => absurd hs List.not_mem_nil⟩

/-- A run of one task. -/
def single : Run := Run.fresh (fun _ => {}) [⟨0, none⟩] false false

theorem single_acyclic : OfAcyclic single :=
  ⟨_, _, ⟨fun _ => ⟨rfl, rfl⟩, by decide⟩, .fresh false false, Run.Acyclic.of_rank TaskId.task (by decide) (by decide)⟩

/-- The task is started. -/
def starting (r : Nat) : List Event := [.nest single, .act r (.turn 0 false), .act r (.turn 0 false), .act r (.turn 0 false)]

/-- Its body returns. -/
def returning (r : Nat) : List Event :=
  [.act r (.ends 0 0 (.returned .nil) false), .act r (.turn 0 false), .act r (.turn 0 false), .leave]

/-- A run of two tasks. -/
def pair : Run := Run.fresh (fun _ => {}) [⟨0, none⟩, ⟨1, none⟩] false false

/-- Both tasks of a run are started, the body of the first starts another run, and then the body of the second returns. -/
def swallowed : List Event :=
  [.nest pair, .act 0 (.turn 0 false), .act 0 (.turn 0 false), .act 0 (.turn 0 false), .act 0 (.turn 0 false)] ++ starting 1 ++
    [.act 0 (.ends 0 1 (.returned .nil) false)]

/-- While a task runs, a coroutine that it has spawned raises. -/
def interrupted : List Event := starting 0 ++ [.helper true, .leave]

end Nest

end Nodus.Orchestration

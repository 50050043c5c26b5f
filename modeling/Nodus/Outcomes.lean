import Nodus.Places

/-! What tasks come to, and how those that wait for them are told. -/

namespace Nodus.Scheduling

variable {V E : Type}

/-- What a task comes to: a value, or nil, or an error. -/
inductive Outcome (V E : Type) where
  | value (v : Option V)
  | failure (e : E)
  deriving DecidableEq, Repr

/-- What is recorded of coroutines besides their state. -/
structure Books (V E : Type) where
  lastResult : Nat → Option V := fun _ => none
  failure : Nat → Option E := fun _ => none
  cancelledError : Nat → Option E := fun _ => none
  /-- What a waiter has been given: the value on top of its stack, or the error that is pending for it. -/
  handed : Nat → Option (Outcome V E) := fun _ => none

/-- The errors of a task that is cancelled, and of one whose time is up. -/
structure Errors (E : Type) where
  cancelled : E
  timedOut : E

/-- An operation with what the coroutine returns or raises, if it ends its turn or fails to be resumed. -/
structure Act (V E : Type) where
  op : Op V
  ending : Outcome V E := .value none

/-- A scheduler with what is recorded of its coroutines. -/
structure Joins (V E : Type) where
  sched : Sched V
  books : Books V E := {}

namespace Books

/-- `_settled_outcome`: the value of a settled task, or its error. -/
def outcome (b : Books V E) (c : Nat) : Outcome V E :=
  match (b.cancelledError c).or (b.failure c) with
  | some e => .failure e
  | none => .value (b.lastResult c)

/-- `release_waiters` hands the outcome to everyone on the list of the target. -/
def release (b : Books V E) (s : Sched V) (target : Nat) : Books V E :=
  { b with handed := fun w => if (target, w) ∈ s.waiters then some (b.outcome target) else b.handed w }

/-- `_mark_completed`. -/
def markCompleted (b : Books V E) (s : Sched V) (c : Nat) : Books V E :=
  if (s.task c).known = false ∨ (s.task c).completed then b else b.release s c

def recordFailure (b : Books V E) (c : Nat) : Outcome V E → Books V E
  | .failure e => { b with failure := Function.update b.failure c (some e) }
  | .value _ => b

def recordResult (b : Books V E) (c : Nat) : Outcome V E → Books V E
  | .value v => { b with lastResult := Function.update b.lastResult c v }
  | .failure _ => b

def recordCancelled (b : Books V E) (c : Nat) (e : E) : Books V E :=
  { b with cancelledError := Function.update b.cancelledError c (some e) }

/-- Nil is on top of the stack of the coroutine, and no error is pending for it; or it goes on with what there was. -/
def clear (b : Books V E) (c : Nat) : Books V E := { b with handed := Function.update b.handed c none }

/-- What an operation records. Where waiters are released twice in a row, nobody is left for the second time. -/
def perform (errors : Errors E) (b : Books V E) (s : Sched V) (act : Act V E) : Books V E :=
  match act.op with
  | .finish c failed =>
      if c ∈ s.driven then
        if failed then (b.recordFailure c act.ending).release s c else (b.recordResult c act.ending).markCompleted s c
      else b
  | .cancel c =>
      if (s.task c).state = .finished ∨ (s.task c).cancelling ∨ (s.task c).known = false then b
      else if (s.task c).state = .created then (b.recordCancelled c errors.cancelled).release s c
      else b
  | .unwound c timedOut =>
      if (s.task c).cancelling then
        if timedOut then b.markCompleted s c else (b.recordCancelled c errors.cancelled).release s c
      else b
  | .resume c state =>
      if c ∈ s.driven ∨ (s.task c).state = .finished then b
      -- what a coroutine raises goes to the one that has resumed it, and is not recorded
      else if state = .finished then (b.clear c).recordResult c act.ending
      else b.clear c
  | .take =>
      match s.ready with
      | [] => b
      | c :: _ =>
          match (s.task c).state with
          | .finished => b
          | .running => (b.recordFailure c act.ending).release s c
          | _ => b.clear c
  | .refuse entered =>
      match s.ready with
      | [] => b
      | c :: _ =>
          if (s.task c).state = .finished then b
          else ((if entered then b.clear c else b).recordFailure c act.ending).release s c
  | .takeTimedOut unwinds =>
      match s.ready with
      | [] => b
      | c :: _ =>
          if (s.task c).state = .finished then b
          else if unwinds ∧ (s.task c).cancelling = false then b
          else b.markCompleted s c
  | .wait me target _ =>
      if (s.task target).known = false ∨ (s.task target).state = .finished then b
      else match me with
        | some c => if s.current = some c ∧ c ≠ target then b.clear c else b
        | none => b
  | _ => b

end Books

namespace Joins

def perform (errors : Errors E) (x : Joins V E) (act : Act V E) : Joins V E :=
  { sched := x.sched.perform act.op, books := x.books.perform errors x.sched act }

def run (errors : Errors E) (x : Joins V E) (acts : List (Act V E)) : Joins V E := acts.foldl (perform errors) x

/-- The task that an operation settles, and what it comes to. -/
def settles (errors : Errors E) (s : Sched V) (act : Act V E) : Option (Nat × Outcome V E) :=
  match act.op with
  | .finish c _ => if c ∈ s.driven then some (c, act.ending) else none
  | .cancel c =>
      if (s.task c).state = .created ∧ (s.task c).cancelling = false ∧ (s.task c).known = true then
        some (c, .failure errors.cancelled)
      else none
  | .unwound c timedOut =>
      if (s.task c).cancelling then some (c, .failure (if timedOut then errors.timedOut else errors.cancelled)) else none
  | .resume c state =>
      if c ∉ s.driven ∧ (s.task c).state ≠ .finished ∧ (s.task c).known = true ∧ state = .finished then
        some (c, act.ending)
      else none
  | .refuse _ =>
      match s.ready with
      | [] => none
      | c :: _ => if (s.task c).state = .finished then none else some (c, act.ending)
  | .takeTimedOut unwinds =>
      match s.ready with
      | [] => none
      | c :: _ =>
          if (s.task c).state = .finished ∨ unwinds = true ∧ (s.task c).cancelling = false then none
          else some (c, .failure errors.timedOut)
  | _ => none

/-- Everyone who waits for the task is ready, once, and has been given the outcome. -/
def Told (x x' : Joins V E) (target : Nat) (outcome : Outcome V E) : Prop :=
  ∀ w, (x.sched.task w).blocked = some (.wait target) → x'.sched.ready.count w = 1 ∧
    (x'.sched.task w).blocked = none ∧ (x'.sched.task w).state = .suspended ∧ x'.books.handed w = some outcome

/-- A `wait` for the task gets the outcome at once, and nobody is on its list. -/
structure Keeps (x : Joins V E) (target : Nat) (outcome : Outcome V E) : Prop where
  finished : (x.sched.task target).state = .finished
  outcome : x.books.outcome target = outcome
  atOnce : ∀ me nested, x.sched.perform (.wait me target nested) = x.sched
  nobody : ∀ w, (target, w) ∉ x.sched.waiters

/-- The program has not begun. -/
structure Start (x : Joins V E) : Prop where
  fresh : x.sched.Fresh
  uncounted : ∀ c, (x.sched.task c).completed = false ∧ (x.sched.task c).cancelling = false
  unsettled : ∀ c, (x.sched.task c).state ≠ .finished → x.books.failure c = none ∧ x.books.cancelledError c = none

/-- The coroutines keep to their places, and no task is settled in a way of which only a part is recorded: nobody's time
is up, every coroutine the loop takes can be resumed and catches what it is given, and one that is resumed by hand to its
end returns, has nobody waiting for it, and is not being unwound. -/
def Proper (s : Sched V) (act : Act V E) : Prop :=
  s.Tidy act.op ∧ s.Calm act.op ∧
    match act.op with
    | .finish _ failed => failed = true ↔ ∃ e, act.ending = .failure e
    | .unwound _ timedOut => timedOut = false
    | .takeTimedOut _ | .refuse _ => False
    | .resume c state => state = .finished →
        (∃ v, act.ending = .value v) ∧ c ∉ s.waiters.map Prod.fst ∧ (s.task c).cancelling = false
    | _ => True

/-- Every step of a run is proper. -/
def AllProper (errors : Errors E) (x : Joins V E) : List (Act V E) → Prop
  | [] => True
  | act :: acts => Proper x.sched act ∧ (x.perform errors act).AllProper errors acts

end Joins

namespace Sched

variable {s s' : Sched V} {c w target : Nat}

/-! ### Released waiters -/

/-- The coroutine has been woken. -/
structure Roused (s : Sched V) (w : Nat) : Prop where
  ready : w ∈ s.ready
  free : (s.task w).blocked = none
  suspended : (s.task w).state = .suspended

theorem roused_release (hw : (target, w) ∈ s.waiters) (hstate : (s.task w).state = .suspended) :
    (s.releaseWaiters target).Roused w := by
  have hmem : w ∈ s.waitersOf target :=
    List.mem_map.mpr ⟨(target, w), List.mem_filter.mpr ⟨hw, decide_eq_true rfl⟩, rfl⟩
  rw [releaseWaiters_eq]
  refine ⟨?_, ?_, ?_⟩
  · exact List.mem_append_right _ (List.mem_filter.mpr ⟨hmem, decide_eq_true hstate⟩)
  · show (s.unblocked _ w).blocked = none
    rw [unblocked_blocked, if_pos hmem]
  · show (s.unblocked _ w).state = .suspended
    rw [unblocked_state, hstate]

theorem Roused.release (h : s.Roused w) (target : Nat) : (s.releaseWaiters target).Roused w := by
  rw [releaseWaiters_eq]
  refine ⟨List.mem_append_left _ h.ready, ?_, ?_⟩
  · show (s.unblocked _ w).blocked = none
    rw [unblocked_blocked, h.free, ite_self]
  · show (s.unblocked _ w).state = .suspended
    rw [unblocked_state, h.suspended]

theorem setCompleted_task (s : Sched V) (c d : Nat) :
    ((s.setTask c fun t => { t with completed := true }).task d).blocked = (s.task d).blocked ∧
      ((s.setTask c fun t => { t with completed := true }).task d).state = (s.task d).state := by
  by_cases hd : d = c
  · subst hd
    simp only [setTask, Function.update_self, and_self]
  · simp only [setTask, Function.update_of_ne hd, and_self]

theorem Roused.mark (h : s.Roused w) (c : Nat) : (s.markCompleted c).Roused w := by
  unfold markCompleted
  split
  · exact h
  · obtain ⟨hblocked, hstate⟩ := s.setCompleted_task c w
    apply Roused.release
    exact ⟨h.ready, hblocked.trans h.free, hstate.trans h.suspended⟩

theorem roused_mark (hw : (c, w) ∈ s.waiters) (hstate : (s.task w).state = .suspended) (hknown : (s.task c).known = true)
    (hcompleted : (s.task c).completed = false) : (s.markCompleted c).Roused w := by
  have hmark : s.markCompleted c = (s.setTask c fun t => { t with completed := true }).releaseWaiters c := by
    apply if_neg
    simp [hknown, hcompleted]
  rw [hmark]
  exact roused_release hw ((s.setCompleted_task c w).2.trans hstate)

theorem roused_markRelease (hw : (c, w) ∈ s.waiters) (hstate : (s.task w).state = .suspended) :
    ((s.markCompleted c).releaseWaiters c).Roused w := by
  unfold markCompleted
  split
  · exact roused_release hw hstate
  · apply Roused.release
    exact roused_release hw ((s.setCompleted_task c w).2.trans hstate)

theorem releaseWaiters_waiters (s : Sched V) (target : Nat) :
    (s.releaseWaiters target).waiters = s.waiters.filter (·.1 ≠ target) := by
  rw [releaseWaiters_eq]

theorem markCompleted_waiters (s : Sched V) (c : Nat) : (s.markCompleted c).waiters ⊆ s.waiters := by
  unfold markCompleted
  split
  · exact fun _ hp => hp
  · rw [releaseWaiters_waiters]
    exact List.filter_subset_self _

/-- Nobody is on the list of a task that is settled. -/
def Unlisted (s s' : Sched V) (c : Nat) : Prop := ∀ p ∈ s'.waiters, p ∈ s.waiters ∧ p.1 ≠ c

theorem unlisted_release (hwaiters : s'.waiters ⊆ s.waiters) : Unlisted s (s'.releaseWaiters c) c := by
  intro p hp
  rw [releaseWaiters_waiters] at hp
  obtain ⟨hp, hne⟩ := List.mem_filter.mp hp
  exact ⟨hwaiters hp, of_decide_eq_true hne⟩

theorem unlisted_mark (hwaiters : s'.waiters ⊆ s.waiters) (hknown : (s'.task c).known = true)
    (hcompleted : (s'.task c).completed = false) : Unlisted s (s'.markCompleted c) c := by
  have hmark : s'.markCompleted c = (s'.setTask c fun t => { t with completed := true }).releaseWaiters c := by
    apply if_neg
    simp [hknown, hcompleted]
  rw [hmark]
  exact unlisted_release hwaiters

theorem Unlisted.mark (h : Unlisted s s' c) : Unlisted s (s'.markCompleted c) c :=
  fun p hp => h p (s'.markCompleted_waiters c hp)

end Sched

namespace Joins

variable {x x' : Joins V E} {errors : Errors E} {act : Act V E} {c w : Nat} {result : Outcome V E}

/-! ### One step -/

/-- What is recorded of a task is as it was. -/
structure SameBooks (b b' : Books V E) (c : Nat) : Prop where
  lastResult : b'.lastResult c = b.lastResult c
  failure : b'.failure c = b.failure c
  cancelledError : b'.cancelledError c = b.cancelledError c

theorem SameBooks.outcome {b b' : Books V E} (h : SameBooks b b' c) : b'.outcome c = b.outcome c := by
  unfold Books.outcome
  rw [h.lastResult, h.failure, h.cancelledError]

/-- The tasks that have ended are recorded with their outcome, and nobody is on their lists. -/
structure Settled (x : Joins V E) : Prop where
  completed : ∀ c, (x.sched.task c).completed = true → (x.sched.task c).state = .finished
  unsettled : ∀ c, (x.sched.task c).state ≠ .finished → x.books.failure c = none ∧ x.books.cancelledError c = none
  nobody : ∀ p ∈ x.sched.waiters, (x.sched.task p.1).state ≠ .finished
  unwound : ∀ c, (x.sched.task c).state = .finished → (x.sched.task c).cancelling = false

/-- A step that settles a task. -/
structure Settlement (x x' : Joins V E) (c : Nat) (result : Outcome V E) : Prop where
  live : (x.sched.task c).state ≠ .finished
  finished : (x'.sched.task c).state = .finished ∧ (x'.sched.task c).cancelling = false
  unlisted : Sched.Unlisted x.sched x'.sched c
  outcome : x'.books.outcome c = result
  task : ∀ d, d ≠ c → Sched.SameTask (x.sched.task d) (x'.sched.task d)
  books : ∀ d, d ≠ c → SameBooks x.books x'.books d
  rouses : ∀ w, (c, w) ∈ x.sched.waiters → (x.sched.task w).state = .suspended →
    x'.sched.Roused w ∧ x'.books.handed w = some result

/-- A step that settles none. -/
structure Unsettling (x x' : Joins V E) : Prop where
  completed : ∀ d, (x'.sched.task d).completed = (x.sched.task d).completed
  finished : ∀ d, (x'.sched.task d).state = .finished ↔ (x.sched.task d).state = .finished
  listed : ∀ p ∈ x'.sched.waiters, p ∈ x.sched.waiters ∨ (x.sched.task p.1).state ≠ .finished
  books : ∀ d, SameBooks x.books x'.books d
  unwound : ∀ d, (x.sched.task d).state = .finished → (x.sched.task d).cancelling = false →
    (x'.sched.task d).cancelling = false

theorem Settled.settlement (h : x.Settled) (hs : Settlement x x' c result) : x'.Settled := by
  refine ⟨fun d hd => ?_, fun d hd => ?_, fun p hp => ?_, fun d hd => ?_⟩
  · by_cases hdc : d = c
    · rw [hdc, hs.finished.1]
    · rw [(hs.task d hdc).completed] at hd
      rw [(hs.task d hdc).state]
      exact h.completed d hd
  · by_cases hdc : d = c
    · rw [hdc] at hd
      exact absurd hs.finished.1 hd
    · rw [(hs.task d hdc).state] at hd
      rw [(hs.books d hdc).failure, (hs.books d hdc).cancelledError]
      exact h.unsettled d hd
  · obtain ⟨hp, hne⟩ := hs.unlisted p hp
    rw [(hs.task p.1 hne).state]
    exact h.nobody p hp
  · by_cases hdc : d = c
    · rw [hdc, hs.finished.2]
    · rw [(hs.task d hdc).state] at hd
      rw [(hs.task d hdc).cancelling]
      exact h.unwound d hd

theorem Settled.unsettling (h : x.Settled) (hu : Unsettling x x') : x'.Settled := by
  refine ⟨fun d hd => ?_, fun d hd => ?_, fun p hp => ?_, fun d hd => ?_⟩
  · rw [hu.completed] at hd
    exact (hu.finished d).mpr (h.completed d hd)
  · rw [(hu.books d).failure, (hu.books d).cancelledError]
    exact h.unsettled d fun hs => hd ((hu.finished d).mpr hs)
  · intro hs
    have hs := (hu.finished p.1).mp hs
    rcases hu.listed p hp with hp | hlive
    · exact h.nobody p hp hs
    · exact hlive hs
  · have hd := (hu.finished d).mp hd
    exact hu.unwound d hd (h.unwound d hd)

/-! ### What is recorded -/

@[simp] theorem release_lastResult (b : Books V E) (s : Sched V) (c : Nat) :
    (b.release s c).lastResult = b.lastResult := rfl

@[simp] theorem release_failure (b : Books V E) (s : Sched V) (c : Nat) : (b.release s c).failure = b.failure := rfl

@[simp] theorem release_cancelledError (b : Books V E) (s : Sched V) (c : Nat) :
    (b.release s c).cancelledError = b.cancelledError := rfl

theorem release_same (b : Books V E) (s : Sched V) (c d : Nat) : SameBooks b (b.release s c) d := ⟨rfl, rfl, rfl⟩

theorem release_handed (b : Books V E) {s : Sched V} (hw : (c, w) ∈ s.waiters) :
    (b.release s c).handed w = some (b.outcome c) := if_pos hw

theorem SameBooks.trans {b b' b'' : Books V E} (h : SameBooks b b' c) (h' : SameBooks b' b'' c) : SameBooks b b'' c :=
  ⟨h'.lastResult.trans h.lastResult, h'.failure.trans h.failure, h'.cancelledError.trans h.cancelledError⟩

theorem recordFailure_same (b : Books V E) (ending : Outcome V E) {d : Nat} (hd : d ≠ c) :
    SameBooks b (b.recordFailure c ending) d := by
  cases ending with
  | value v => exact ⟨rfl, rfl, rfl⟩
  | failure e => exact ⟨rfl, Function.update_of_ne hd _ _, rfl⟩

theorem recordResult_same (b : Books V E) (ending : Outcome V E) {d : Nat} (hd : d ≠ c) :
    SameBooks b (b.recordResult c ending) d := by
  cases ending with
  | value v => exact ⟨Function.update_of_ne hd _ _, rfl, rfl⟩
  | failure e => exact ⟨rfl, rfl, rfl⟩

theorem recordCancelled_same (b : Books V E) (e : E) {d : Nat} (hd : d ≠ c) : SameBooks b (b.recordCancelled c e) d :=
  ⟨rfl, rfl, Function.update_of_ne hd _ _⟩

theorem recordFailure_outcome {b : Books V E} (hb : b.cancelledError c = none) (e : E) :
    (b.recordFailure c (.failure e)).outcome c = .failure e := by
  unfold Books.outcome Books.recordFailure
  simp only [hb, Function.update_self, Option.none_or]

theorem recordResult_outcome {b : Books V E} (hb : b.failure c = none ∧ b.cancelledError c = none) (v : Option V) :
    (b.recordResult c (.value v)).outcome c = .value v := by
  unfold Books.outcome Books.recordResult
  simp only [hb.1, hb.2, Function.update_self, Option.none_or]

theorem recordCancelled_outcome (b : Books V E) (e : E) : (b.recordCancelled c e).outcome c = .failure e := by
  unfold Books.outcome Books.recordCancelled
  simp only [Function.update_self, Option.some_or]

/-! ### What settles a task -/

/-- The invariants of the scheduler and of what is recorded. -/
structure Regular (x : Joins V E) : Prop where
  clean : x.sched.Clean
  neat : x.sched.Neat
  turning : x.sched.Turning
  settled : x.Settled

theorem unsettling_refl (sched : Sched V) {books books' : Books V E} (hbooks : ∀ d, SameBooks books books' d) :
    Unsettling ⟨sched, books⟩ ⟨sched, books'⟩ where
  completed _ := rfl
  finished _ := Iff.rfl
  listed _ hp := .inl hp
  books := hbooks
  unwound _ _ hcancelling := hcancelling

theorem same_refl (b : Books V E) (c : Nat) : SameBooks b b c := ⟨rfl, rfl, rfl⟩

theorem clear_same (b : Books V E) (c d : Nat) : SameBooks b (b.clear c) d := ⟨rfl, rfl, rfl⟩

theorem Regular.uncounted (h : x.Regular) (hstate : (x.sched.task c).state ≠ .finished) :
    (x.sched.task c).completed = false := by
  by_contra hne
  exact hstate (h.settled.completed c (by simpa using hne))

theorem Regular.finish (h : x.Regular) (hproper : Proper x.sched act) {failed : Bool} (hop : act.op = .finish c failed)
    (hc : c ∈ x.sched.driven) : Settlement x (x.perform errors act) c act.ending := by
  obtain ⟨-, -, hending⟩ := hproper
  rw [hop] at hending
  have hrunning := (h.turning c hc).1
  have hlive : (x.sched.task c).state ≠ .finished := by
    rw [hrunning]
    decide
  have hknown : (x.sched.task c).known = true :=
    h.clean.known c (h.clean.owned c (.inl (Sched.Clean.busy_of_driven hc)))
  obtain ⟨hothers, -⟩ := h.clean.concerns_finish h.neat hc failed
  have hsched : (x.perform errors act).sched = x.sched.finish c failed := by
    simp only [perform, hop, Sched.perform, if_pos hc]
  have hbooks : (x.perform errors act).books = if failed then (x.books.recordFailure c act.ending).release x.sched c
      else (x.books.recordResult c act.ending).markCompleted x.sched c := by
    simp only [perform, Books.perform, hop, if_pos hc]
  have hmarked : ∀ b : Books V E, b.markCompleted x.sched c = b.release x.sched c := by
    intro b
    apply if_neg
    simp [hknown, h.uncounted hlive]
  -- what the waiters see is the same in the state in which they are released
  have hwaiter : ∀ w, (x.sched.task w).state = .suspended →
      (((x.sched.leave c).settle c).task w).state = .suspended := by
    intro w hw
    have hne : w ≠ c := by
      rintro rfl
      rw [hrunning] at hw
      cases hw
    simpa only [Sched.settle, Sched.leave, Sched.setTask, Function.update_of_ne hne] using hw
  have hself : (((x.sched.leave c).settle c).task c).state = .finished ∧
      (((x.sched.leave c).settle c).task c).cancelling = false ∧
      (((x.sched.leave c).settle c).task c).known = true ∧
      (((x.sched.leave c).settle c).task c).completed = false := by
    simp only [Sched.settle, Sched.leave, Sched.setTask, Function.update_self, hknown, h.uncounted hlive, and_self]
  have hunsettled := h.settled.unsettled c hlive
  cases failed with
  | true =>
      obtain ⟨e, he⟩ := hending.mp rfl
      rw [if_pos rfl, he] at hbooks
      rw [he]
      refine ⟨hlive, ?_, ?_, ?_, fun d hd => ?_, fun d hd => ?_, fun w hw hstate => ⟨?_, ?_⟩⟩
      · rw [hsched]
        obtain ⟨hs, hc'⟩ := (((x.sched.leave c).settle c).releaseWaiters c).markCompleted_task c c
        obtain ⟨hs', hc''⟩ := ((x.sched.leave c).settle c).releaseWaiters_task c c
        exact ⟨hs.trans (hs'.trans hself.1), hc'.trans (hc''.trans hself.2.1)⟩
      · rw [hsched]
        apply Sched.Unlisted.mark
        exact Sched.unlisted_release fun _ hp => hp
      · rw [hbooks]
        exact recordFailure_outcome hunsettled.2 e
      · rw [hsched]
        exact hothers.task d hd
      · rw [hbooks]
        exact (recordFailure_same x.books (.failure e) hd).trans (release_same _ _ _ _)
      · rw [hsched]
        apply Sched.Roused.mark
        exact Sched.roused_release hw (hwaiter w hstate)
      · rw [hbooks, release_handed _ hw, recordFailure_outcome hunsettled.2 e]
  | false =>
      obtain ⟨v, hv⟩ : ∃ v, act.ending = .value v := by
        cases he : act.ending with
        | value v => exact ⟨v, rfl⟩
        | failure e => exact absurd (hending.mpr ⟨e, he⟩) (by simp)
      rw [if_neg (by simp), hmarked, hv] at hbooks
      rw [hv]
      refine ⟨hlive, ?_, ?_, ?_, fun d hd => ?_, fun d hd => ?_, fun w hw hstate => ⟨?_, ?_⟩⟩
      · rw [hsched]
        obtain ⟨hs, hc'⟩ := ((x.sched.leave c).settle c).markCompleted_task c c
        exact ⟨hs.trans hself.1, hc'.trans hself.2.1⟩
      · rw [hsched]
        exact Sched.unlisted_mark (fun _ hp => hp) hself.2.2.1 hself.2.2.2
      · rw [hbooks]
        exact recordResult_outcome hunsettled v
      · rw [hsched]
        exact hothers.task d hd
      · rw [hbooks]
        exact (recordResult_same x.books (.value v) hd).trans (release_same _ _ _ _)
      · rw [hsched]
        exact Sched.roused_mark hw (hwaiter w hstate) hself.2.2.1 hself.2.2.2
      · rw [hbooks, release_handed _ hw, recordResult_outcome hunsettled v]

theorem settlement_cancelled {s : Sched V} (hlive : (x.sched.task c).state ≠ .finished)
    (hwaiters : s.waiters = x.sched.waiters)
    (hwaiter : ∀ w, (c, w) ∈ x.sched.waiters → (x.sched.task w).state = .suspended → ((s.settle c).task w).state = .suspended)
    (hothers : Sched.Others x.sched c (((s.settle c).markCompleted c).releaseWaiters c))
    (hsched : x'.sched = ((s.settle c).markCompleted c).releaseWaiters c)
    (hbooks : x'.books = (x.books.recordCancelled c errors.cancelled).release x.sched c) :
    Settlement x x' c (.failure errors.cancelled) := by
  have hsub : (s.settle c).waiters ⊆ x.sched.waiters := fun p hp => hwaiters ▸ hp
  refine ⟨hlive, ?_, ?_, ?_, fun d hd => ?_, fun d hd => ?_, fun w hw hstate => ⟨?_, ?_⟩⟩
  · rw [hsched]
    exact s.settle_ended c
  · rw [hsched]
    exact Sched.unlisted_release fun p hp => hsub ((s.settle c).markCompleted_waiters c hp)
  · rw [hbooks]
    exact recordCancelled_outcome x.books errors.cancelled
  · rw [hsched]
    exact hothers.task d hd
  · rw [hbooks]
    exact (recordCancelled_same x.books errors.cancelled hd).trans (release_same _ _ _ _)
  · rw [hsched]
    exact Sched.roused_markRelease (hwaiters.symm ▸ hw) (hwaiter w hw hstate)
  · rw [hbooks, release_handed _ hw, recordCancelled_outcome]

theorem Regular.unwound (h : x.Regular) (hop : act.op = .unwound c false) (hc : (x.sched.task c).cancelling = true) :
    Settlement x (x.perform errors act) c (.failure errors.cancelled) := by
  obtain ⟨hothers, -⟩ := h.clean.concerns_unwound h.neat hc false
  refine settlement_cancelled (fun hstate => ?_) rfl (fun w hw hstate => ?_) hothers ?_ ?_
  · rw [h.settled.unwound c hstate] at hc
    cases hc
  · have hne : w ≠ c := by
      rintro rfl
      have hb := h.neat.waiting _ hw
      rw [h.clean.cancelling w hc] at hb
      cases hb
    simpa only [Sched.settle, Sched.setTask, Function.update_of_ne hne] using hstate
  · simp only [perform, hop, Sched.perform, if_pos hc, Sched.unwound, Bool.false_eq_true, if_false]
  · simp only [perform, Books.perform, hop, if_pos hc, Bool.false_eq_true, if_false]

theorem Regular.cancelCreated (h : x.Regular) (hproper : Proper x.sched act) (hop : act.op = .cancel c)
    (hstate : (x.sched.task c).state = .created) (hcancelling : (x.sched.task c).cancelling = false)
    (hknown : (x.sched.task c).known = true) :
    Settlement x (x.perform errors act) c (.failure errors.cancelled) := by
  have hwait : ∀ target, (x.sched.task c).blocked ≠ some (.wait target) := by
    have htidy := hproper.1.2
    rw [hop] at htidy
    exact htidy
  have hlive : ¬ ((x.sched.task c).state = .finished ∨ (x.sched.task c).cancelling = true ∨
      (x.sched.task c).known = false) := by
    simp [hstate, hcancelling, hknown]
  have hcancel : x.sched.cancel c = (((x.sched.unpark c).settle c).markCompleted c).releaseWaiters c := by
    simp only [Sched.cancel, if_neg hlive, if_pos hstate]
  have hothers := (h.clean.concerns_cancel h.neat hwait).1
  rw [hcancel] at hothers
  refine settlement_cancelled (fun hs => hlive (.inl hs)) (x.sched.unpark_lists c).2.2 (fun w hw hw' => ?_) hothers ?_ ?_
  · have hne : w ≠ c := by
      rintro rfl
      rw [hstate] at hw'
      cases hw'
    simpa only [Sched.settle, Sched.setTask, Function.update_of_ne hne, Sched.unpark_task, Sched.unblocked_state] using hw'
  · simp only [perform, hop, Sched.perform, hcancel]
  · simp only [perform, Books.perform, hop, if_neg hlive, if_pos hstate]

theorem Regular.resumed (h : x.Regular) (hproper : Proper x.sched act) (hop : act.op = .resume c .finished)
    (hdriven : c ∉ x.sched.driven) (hlive : (x.sched.task c).state ≠ .finished) :
    Settlement x (x.perform errors act) c act.ending := by
  obtain ⟨-, -, hending⟩ := hproper
  rw [hop] at hending
  obtain ⟨⟨v, hv⟩, hnobody, hcancelling⟩ := hending rfl
  have hguard : ¬ (c ∈ x.sched.driven ∨ (x.sched.task c).state = .finished) := not_or.mpr ⟨hdriven, hlive⟩
  have hsched : (x.perform errors act).sched = x.sched.setTask c fun t => { t with state := .finished } := by
    simp only [perform, hop, Sched.perform, if_neg hguard]
  have hbooks : (x.perform errors act).books = (x.books.clear c).recordResult c act.ending := by
    simp only [perform, Books.perform, hop, if_neg hguard, if_true]
  have hlisted : ∀ p ∈ x.sched.waiters, p.1 ≠ c := by
    rintro p hp rfl
    exact hnobody (List.mem_map_of_mem hp)
  refine ⟨hlive, ?_, fun p hp => ?_, ?_, fun d hd => ?_, fun d hd => ?_, fun w hw => absurd rfl (hlisted _ hw)⟩
  · rw [hsched]
    simp only [Sched.setTask, Function.update_self, hcancelling, and_self]
  · rw [hsched] at hp
    exact ⟨hp, hlisted p hp⟩
  · rw [hbooks, hv]
    exact recordResult_outcome (b := x.books.clear c) (h.settled.unsettled c hlive) v
  · rw [hsched]
    simp only [Sched.setTask, Function.update_of_ne hd]
    exact Sched.sameTask_refl _
  · rw [hbooks]
    exact (clear_same x.books c d).trans (recordResult_same (x.books.clear c) act.ending hd)

/-! ### What settles none -/

theorem Regular.quiet (h : x.Regular) (hproper : Proper x.sched act) (hop : act.op.settling = false)
    (hbooks : ∀ d, SameBooks x.books (x.perform errors act).books d) : Unsettling x (x.perform errors act) := by
  obtain ⟨c, hothers, hsubject⟩ := h.clean.concerns h.neat act.op hproper.1
  obtain ⟨hcompleted, hfinished, hlisted⟩ := hsubject.quiet hproper.2.1 h.turning hop
  refine ⟨fun d => ?_, fun d => ?_, hlisted, hbooks, fun d hstate hcancelling => ?_⟩
  · by_cases hd : d = c
    · rw [hd]
      exact hcompleted
    · exact (hothers.task d hd).completed
  · by_cases hd : d = c
    · rw [hd]
      exact hfinished
    · show ((x.sched.perform act.op).task d).state = .finished ↔ _
      rw [(hothers.task d hd).state]
  · exact (h.turning.ended h.neat h.clean act.op hproper.1 hproper.2.1 hstate hcancelling).2

theorem perform_quiet (b : Books V E) {s : Sched V} (hn : s.Neat) (hop : act.op.settling = false) (d : Nat) :
    SameBooks b (b.perform errors s act) d := by
  obtain ⟨op, ending⟩ := act
  cases op with
  | take =>
      simp only [Books.perform]
      split
      · exact same_refl b d
      · next c rest hready =>
          have hmem : c ∈ s.queued := List.mem_append_left _ (hready ▸ List.mem_cons_self)
          split
          · exact same_refl b d
          · next hrunning =>
              -- no coroutine in the queue is running
              rcases (hn.queued c hmem).1 with hs | hs
              · rw [hrunning] at hs
                cases hs
              · rw [hrunning] at hs
                cases hs
          · exact clear_same b c d
  | wait me target nested =>
      simp only [Books.perform]
      split
      · exact same_refl b d
      · cases me with
        | none => exact same_refl b d
        | some c =>
            simp only []
            split
            · exact clear_same b c d
            · exact same_refl b d
  | finish c failed => cases hop
  | cancel c => cases hop
  | unwound c timedOut => cases hop
  | resume c state => cases hop
  | refuse entered => cases hop
  | takeTimedOut unwinds => cases hop
  | _ => exact same_refl b d

theorem Regular.cancelBegun (h : x.Regular) (hproper : Proper x.sched act) (hop : act.op = .cancel c)
    (hstate : (x.sched.task c).state ≠ .finished ∧ (x.sched.task c).state ≠ .created)
    (hcancelling : (x.sched.task c).cancelling = false) (hknown : (x.sched.task c).known = true) :
    Unsettling x (x.perform errors act) := by
  have hwait : ∀ target, (x.sched.task c).blocked ≠ some (.wait target) := by
    have htidy := hproper.1.2
    rw [hop] at htidy
    exact htidy
  have hlive : ¬ ((x.sched.task c).state = .finished ∨ (x.sched.task c).cancelling = true ∨
      (x.sched.task c).known = false) := by
    simp [hstate.1, hcancelling, hknown]
  have hcancel : x.sched.cancel c = (x.sched.unpark c).setTask c fun t => { t with cancelling := true } := by
    simp only [Sched.cancel, if_neg hlive, if_neg hstate.2]
  have hothers := (h.clean.concerns_cancel h.neat hwait).1
  have hsched : (x.perform errors act).sched = x.sched.cancel c := by
    simp only [perform, hop, Sched.perform]
  have hself : ((x.sched.cancel c).task c).state = (x.sched.task c).state ∧
      ((x.sched.cancel c).task c).completed = (x.sched.task c).completed := by
    rw [hcancel]
    simp only [Sched.setTask, Function.update_self, Sched.unpark_task, Sched.unblocked_state, Sched.unblocked_completed,
      and_self]
  have hwaiters : (x.sched.cancel c).waiters = x.sched.waiters := by
    rw [hcancel]
    exact (x.sched.unpark_lists c).2.2
  rw [show x.perform errors act = ⟨x.sched.cancel c, x.books⟩ from ?_]
  · refine ⟨fun d => ?_, fun d => ?_, fun p hp => .inl (hwaiters ▸ hp), same_refl x.books, fun d hd _ => ?_⟩
    · by_cases hdc : d = c
      · rw [hdc, hself.2]
      · exact (hothers.task d hdc).completed
    · by_cases hdc : d = c
      · rw [hdc, hself.1]
      · rw [(hothers.task d hdc).state]
    · have hdc : d ≠ c := by
        rintro rfl
        exact hstate.1 hd
      rw [(hothers.task d hdc).cancelling]
      assumption
  · unfold perform
    simp only [hop, Sched.perform, Books.perform, if_neg hlive, if_neg hstate.2]

theorem unsettling_resumed {state : TaskState} (hop : act.op = .resume c state) (hend : state ≠ .finished) (hdriven : c ∉ x.sched.driven)
    (hlive : (x.sched.task c).state ≠ .finished) : Unsettling x (x.perform errors act) := by
  have hguard : ¬ (c ∈ x.sched.driven ∨ (x.sched.task c).state = .finished) := not_or.mpr ⟨hdriven, hlive⟩
  rw [show x.perform errors act = ⟨x.sched.setTask c fun t => { t with state := state }, x.books.clear c⟩ from ?_]
  · have hother : ∀ d, d ≠ c → (x.sched.setTask c fun t => { t with state := state }).task d = x.sched.task d := by
      intro d hd
      simp only [Sched.setTask, Function.update_of_ne hd]
    refine ⟨fun d => ?_, fun d => ?_, fun p hp => .inl hp, clear_same x.books c, fun d hd hc => ?_⟩
    · by_cases hdc : d = c
      · simp only [hdc, Sched.setTask, Function.update_self]
      · rw [hother d hdc]
    · by_cases hdc : d = c
      · simp only [hdc, Sched.setTask, Function.update_self, hend, hlive]
      · rw [hother d hdc]
    · have hdc : d ≠ c := by
        rintro rfl
        exact hlive hd
      rw [hother d hdc]
      exact hc
  · unfold perform
    simp only [hop, Sched.perform, Books.perform, if_neg hguard, if_neg hend]

theorem Regular.step (errors : Errors E) (h : x.Regular) (hproper : Proper x.sched act) :
    (∃ c result, Settlement x (x.perform errors act) c result ∧
      ∀ t o, settles errors x.sched act = some (t, o) → t = c ∧ o = result) ∨
    Unsettling x (x.perform errors act) ∧ settles errors x.sched act = none := by
  have hnothing : x.perform errors act = x → settles errors x.sched act = none →
      Unsettling x (x.perform errors act) ∧ settles errors x.sched act = none := by
    intro hx hs
    rw [hx]
    exact ⟨unsettling_refl x.sched (same_refl x.books), hs⟩
  cases hop : act.op with
  | finish c failed =>
      by_cases hc : c ∈ x.sched.driven
      · refine .inl ⟨c, _, h.finish hproper hop hc, fun t o hs => ?_⟩
        simp only [settles, hop, if_pos hc, Option.some.injEq, Prod.mk.injEq] at hs
        exact ⟨hs.1.symm, hs.2.symm⟩
      · apply Or.inr
        apply hnothing
        · unfold perform
          simp only [hop, Sched.perform, Books.perform, if_neg hc]
        · simp only [settles, hop, if_neg hc]
  | cancel c =>
      by_cases hlive : (x.sched.task c).state = .finished ∨ (x.sched.task c).cancelling = true ∨
          (x.sched.task c).known = false
      · apply Or.inr
        apply hnothing
        · unfold perform
          simp only [hop, Sched.perform, Books.perform, Sched.cancel, if_pos hlive]
        · simp only [settles, hop]
          apply if_neg
          rintro ⟨hstate, hcancelling, hknown⟩
          simp [hstate, hcancelling, hknown] at hlive
      · obtain ⟨hfinished, hcancelling, hknown⟩ : (x.sched.task c).state ≠ .finished ∧
            (x.sched.task c).cancelling = false ∧ (x.sched.task c).known = true := by
          simpa [not_or] using hlive
        by_cases hstate : (x.sched.task c).state = .created
        · refine .inl ⟨c, _, h.cancelCreated hproper hop hstate hcancelling hknown, fun t o hs => ?_⟩
          simp only [settles, hop, hstate, hcancelling, hknown, and_self, if_true, Option.some.injEq, Prod.mk.injEq] at hs
          exact ⟨hs.1.symm, hs.2.symm⟩
        · refine .inr ⟨h.cancelBegun hproper hop ⟨hfinished, hstate⟩ hcancelling hknown, ?_⟩
          simp only [settles, hop, hstate, false_and, if_false]
  | unwound c timedOut =>
      have htimely : timedOut = false := by
        have hlast := hproper.2.2
        rwa [hop] at hlast
      subst htimely
      by_cases hc : (x.sched.task c).cancelling = true
      · refine .inl ⟨c, _, h.unwound hop hc, fun t o hs => ?_⟩
        simp only [settles, hop, if_pos hc, Bool.false_eq_true, if_false, Option.some.injEq, Prod.mk.injEq] at hs
        exact ⟨hs.1.symm, hs.2.symm⟩
      · apply Or.inr
        apply hnothing
        · unfold perform
          simp only [hop, Sched.perform, Books.perform, if_neg hc]
        · simp only [settles, hop, if_neg hc]
  | resume c state =>
      by_cases hguard : c ∈ x.sched.driven ∨ (x.sched.task c).state = .finished
      · apply Or.inr
        apply hnothing
        · unfold perform
          simp only [hop, Sched.perform, Books.perform, if_pos hguard]
        · simp only [settles, hop]
          apply if_neg
          tauto
      · obtain ⟨hdriven, hlive⟩ := not_or.mp hguard
        by_cases hend : state = .finished
        · subst hend
          refine .inl ⟨c, _, h.resumed hproper hop hdriven hlive, fun t o hs => ?_⟩
          simp only [settles, hop] at hs
          split at hs
          · simp only [Option.some.injEq, Prod.mk.injEq] at hs
            exact ⟨hs.1.symm, hs.2.symm⟩
          · cases hs
        · refine .inr ⟨unsettling_resumed hop hend hdriven hlive, ?_⟩
          simp only [settles, hop, hend, and_false, if_false]
  | refuse entered =>
      have hlast := hproper.2.2
      rw [hop] at hlast
      exact hlast.elim
  | takeTimedOut unwinds =>
      have hlast := hproper.2.2
      rw [hop] at hlast
      exact hlast.elim
  | _ =>
      refine .inr ⟨h.quiet hproper (by rw [hop]; rfl) (perform_quiet x.books h.neat (by rw [hop]; rfl)), ?_⟩
      simp only [settles, hop]

/-! ### Runs -/

theorem Regular.perform (h : x.Regular) (hproper : Proper x.sched act) : (x.perform errors act).Regular where
  clean := h.clean.perform act.op hproper.1.1
  neat := h.neat.perform h.clean act.op hproper.1
  turning := h.turning.perform h.neat h.clean act.op hproper.1 hproper.2.1
  settled := by
    rcases h.step errors hproper with ⟨c, result, hs, -⟩ | ⟨hu, -⟩
    · exact h.settled.settlement hs
    · exact h.settled.unsettling hu

theorem Regular.kept (errors : Errors E) (h : x.Regular) (hproper : Proper x.sched act) (hstate : (x.sched.task c).state = .finished) :
    ((x.perform errors act).sched.task c).state = .finished ∧
      (x.perform errors act).books.outcome c = x.books.outcome c := by
  rcases h.step errors hproper with ⟨d, result, hs, -⟩ | ⟨hu, -⟩
  · have hne : c ≠ d := by
      rintro rfl
      exact hs.live hstate
    rw [(hs.task c hne).state]
    exact ⟨hstate, (hs.books c hne).outcome⟩
  · exact ⟨(hu.finished c).mpr hstate, (hu.books c).outcome⟩

theorem Regular.run (h : x.Regular) (acts : List (Act V E)) (hproper : x.AllProper errors acts) :
    (x.run errors acts).Regular ∧ ∀ c, (x.sched.task c).state = .finished →
      ((x.run errors acts).sched.task c).state = .finished ∧
        (x.run errors acts).books.outcome c = x.books.outcome c := by
  induction acts generalizing x with
  | nil => exact ⟨h, fun _ hstate => ⟨hstate, rfl⟩⟩
  | cons act acts ih =>
      obtain ⟨hact, hacts⟩ := hproper
      obtain ⟨hrun, hkept⟩ := ih (h.perform hact) hacts
      refine ⟨hrun, fun c hstate => ?_⟩
      obtain ⟨hstate', houtcome'⟩ := h.kept errors hact hstate
      obtain ⟨hstate'', houtcome''⟩ := hkept c hstate'
      exact ⟨hstate'', houtcome''.trans houtcome'⟩

theorem allProper_append {acts acts' : List (Act V E)} :
    x.AllProper errors (acts ++ acts') ↔ x.AllProper errors acts ∧ (x.run errors acts).AllProper errors acts' := by
  induction acts generalizing x with
  | nil => exact (true_and _).symm.to_iff
  | cons act acts ih => simp only [List.cons_append, AllProper, ih, and_assoc, run, List.foldl_cons]

theorem Start.regular (h : x.Start) : x.Regular := by
  refine ⟨h.fresh.clean, h.fresh.neat, h.fresh.turning, fun c hc => ?_, h.unsettled, fun p hp => ?_, fun c _ => ?_⟩
  · rw [(h.uncounted c).1] at hc
    cases hc
  · rw [h.fresh.waiters] at hp
    cases hp
  · exact (h.uncounted c).2

theorem Settlement.told (h : x.Regular) (h' : x'.Regular) (hs : Settlement x x' c result) : Told x x' c result := by
  intro w hw
  have hstate : (x.sched.task w).state = .suspended := by
    apply h.clean.suspended
    rw [hw]
    exact Option.some_ne_none _
  obtain ⟨hroused, hhanded⟩ := hs.rouses w (h.clean.waited c w hw) hstate
  have hready : x'.sched.ready.Nodup := (List.nodup_append.mp (List.nodup_append.mp h'.clean.nodup).1).1
  exact ⟨List.count_eq_one_of_mem hready hroused.ready, hroused.free, hroused.suspended, hhanded⟩

theorem Regular.keeps (h : x.Regular) (hstate : (x.sched.task c).state = .finished)
    (houtcome : x.books.outcome c = result) : Keeps x c result := by
  refine ⟨hstate, houtcome, fun me nested => ?_, fun w hw => h.settled.nobody _ hw hstate⟩
  simp only [Sched.perform, Sched.wait, hstate, or_true, if_true]

/-- Whenever a step of a run settles a task, everyone who waits for it is told, and from then on its outcome is there for
everyone who asks, if every step of the run is proper. -/
theorem outcome_told (hstart : x.Start) (acts acts' : List (Act V E)) (act : Act V E) (target : Nat)
    (outcome : Outcome V E) (hproper : x.AllProper errors (acts ++ act :: acts'))
    (hsettles : settles errors (x.run errors acts).sched act = some (target, outcome)) :
    Told (x.run errors acts) ((x.run errors acts).perform errors act) target outcome ∧
      Keeps (x.run errors (acts ++ act :: acts')) target outcome := by
  obtain ⟨hbefore, hact, hafter⟩ := allProper_append.mp hproper
  obtain ⟨hrun, -⟩ := hstart.regular.run acts hbefore
  have hnext : ((x.run errors acts).perform errors act).Regular := hrun.perform hact
  rcases hrun.step errors hact with ⟨c, result, hs, hunique⟩ | ⟨-, hnone⟩
  · obtain ⟨rfl, rfl⟩ := hunique target outcome hsettles
    refine ⟨hs.told hrun hnext, ?_⟩
    obtain ⟨hlast, hkept⟩ := hnext.run acts' hafter
    obtain ⟨hstate, houtcome⟩ := hkept target hs.finished.1
    have hall : x.run errors (acts ++ act :: acts') = ((x.run errors acts).perform errors act).run errors acts' := by
      unfold run
      rw [List.foldl_append, List.foldl_cons]
    rw [hall]
    exact hlast.keeps hstate (houtcome.trans hs.outcome)
  · rw [hnone] at hsettles
    cases hsettles

def programErrors : Errors String := ⟨"task was cancelled", "task timed out"⟩

/-- Nothing has been spawned. -/
def begun : Joins Nat String := { sched := Sched.empty }

theorem begun_start : begun.Start :=
  ⟨Sched.empty_fresh, fun _ => ⟨rfl, rfl⟩, fun _ _ => ⟨rfl, rfl⟩⟩

/-- A task waits for another, which has begun. -/
def joining : List (Act Nat String) := [⟨.spawn 0, .value none⟩, ⟨.spawn 1, .value none⟩, ⟨.take, .value none⟩,
  ⟨.wait (some 0) 1 false, .value none⟩, ⟨.take, .value none⟩]

/-- The other fails. -/
theorem failure_told :
    Told (begun.run programErrors joining)
        ((begun.run programErrors joining).perform programErrors ⟨.finish 1 true, .failure "boom"⟩) 1 (.failure "boom") ∧
      Keeps (begun.run programErrors (joining ++ ⟨.finish 1 true, .failure "boom"⟩ :: [⟨.take, .value none⟩])) 1
        (.failure "boom") := by
  refine outcome_told begun_start joining [⟨.take, .value none⟩] ⟨.finish 1 true, .failure "boom"⟩ 1 _ ?_ (by decide)
  have hspawn : ∀ (s : Sched Nat) (c : Nat), s.Unplaced c → s.Allowed (.spawn c) := fun s c hc _ => hc
  have hcalm : ∀ (s : Sched Nat) (op : Op Nat), (∀ d, op ≠ .cancel d) → op.caller = none → s.Calm op := by
    intro s op hop hcaller
    refine ⟨fun d hd => absurd hd (hop d), fun d hd => ?_⟩
    rw [hcaller] at hd
    cases hd
  refine ⟨⟨⟨hspawn _ _ ⟨by decide, rfl, by decide, fun hk => by cases hk⟩, by decide, by decide⟩,
      hcalm _ _ (fun _ he => by cases he) rfl, trivial⟩,
    ⟨⟨hspawn _ _ ⟨by decide, rfl, by decide, fun hk => by cases hk⟩, by decide, by decide⟩,
      hcalm _ _ (fun _ he => by cases he) rfl, trivial⟩,
    ⟨⟨trivial, trivial⟩, hcalm _ _ (fun _ he => by cases he) rfl, trivial⟩,
    ⟨⟨fun _ _ c hc _ _ => ?_, trivial⟩, ⟨(fun _ he => by cases he), fun c hc => ?_⟩, trivial⟩,
    ⟨⟨trivial, trivial⟩, hcalm _ _ (fun _ he => by cases he) rfl, trivial⟩,
    ⟨⟨trivial, trivial⟩, hcalm _ _ (fun _ he => by cases he) rfl, ?_⟩,
    ⟨⟨trivial, trivial⟩, hcalm _ _ (fun _ he => by cases he) rfl, trivial⟩, trivial⟩
  · cases hc
    exact ⟨by decide, by decide⟩
  · cases hc
    exact .inl (by decide)
  · exact ⟨fun _ => ⟨"boom", rfl⟩, fun _ => rfl⟩

/-- The time of the other is up when the loop takes it again. -/
theorem timed_out_waiter :
    settles programErrors (begun.run programErrors (joining ++ [⟨.yieldTurn 1, .value none⟩])).sched
        ⟨.takeTimedOut false, .value none⟩ = some (1, .failure "task timed out") ∧
      (begun.run programErrors (joining ++ [⟨.yieldTurn 1, .value none⟩, ⟨.takeTimedOut false, .value none⟩])).books.handed
        0 = some (.value none) ∧
      ¬ Told (begun.run programErrors (joining ++ [⟨.yieldTurn 1, .value none⟩]))
        ((begun.run programErrors (joining ++ [⟨.yieldTurn 1, .value none⟩])).perform programErrors
          ⟨.takeTimedOut false, .value none⟩) 1 (.failure "task timed out") ∧
      ¬ Keeps (begun.run programErrors (joining ++ ⟨.yieldTurn 1, .value none⟩ :: [⟨.takeTimedOut false, .value none⟩])) 1
        (.failure "task timed out") := by
  refine ⟨by decide, by decide, fun htold => ?_, fun hkeeps => ?_⟩
  · have hhanded := (htold 0 (by decide)).2.2.2
    revert hhanded
    decide
  · have hfinished := hkeeps.finished
    revert hfinished
    decide

end Joins

end Nodus.Scheduling

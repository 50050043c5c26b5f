import Mathlib.Logic.Function.Basic
import Mathlib.Data.Set.Basic

/-! Retries under `IDEMPOTENT_REPLAY`: any number of executors with one action id over one `InMemoryIdempotencyStore`. -/

namespace Nodus.SingleFlight

inductive Status where
  | pending
  | completed
  | failed
  deriving DecidableEq, Repr

/-- The record of the action id. -/
structure EffectRecord (V : Type) where
  status : Status
  attemptCount : Nat
  resultPayload : Option V
  errorPayload : Option String
  deriving DecidableEq, Repr

namespace EffectRecord

variable {V : Type}

/-- `EffectRecord.pending`. -/
def pending : EffectRecord V := ⟨.pending, 0, none, none⟩

def markCompleted (r : EffectRecord V) (result : V) : EffectRecord V :=
  { r with status := .completed, resultPayload := some result, errorPayload := none }

def markFailed (r : EffectRecord V) (error : String) : EffectRecord V := { r with status := .failed, errorPayload := some error }

def incrementAttempts (r : EffectRecord V) : EffectRecord V := { r with attemptCount := r.attemptCount + 1 }

end EffectRecord

/-- A policy: the kinds of exceptions are sets of exceptions. -/
structure RetryPolicy (X : Type) where
  maxAttempts : Nat
  highRiskNoRetry : Bool := false
  /-- No kinds at all stand for every kind. -/
  retryableExceptions : Option (X → Bool) := none
  nonRetryableExceptions : X → Bool := fun _ => false

/-- `classify_exception`: whether there is a next attempt. -/
def shouldRetry {X : Type} (policy : RetryPolicy X) (exception : X) (attemptNumber : Nat) : Bool :=
  if policy.highRiskNoRetry then false
  else if policy.nonRetryableExceptions exception then false
  else if (policy.retryableExceptions.map fun kinds => !kinds exception).getD false then false
  else if attemptNumber ≥ policy.maxAttempts then false
  else true

/-- Where a call of `execute` or `aexecute` is. -/
inductive Phase (V X : Type) where
  /-- Before the lookup. -/
  | start
  /-- The lookup has found no completed record. -/
  | looked
  /-- At the head of the loop, after this number of attempts. -/
  | head (attempts : Nat)
  /-- Before the call of `fn`. -/
  | counted (attempts : Nat)
  /-- In `fn`. -/
  | calling (attempts : Nat)
  | returned (attempts : Nat) (result : V)
  | raised (attempts : Nat) (exception : X)
  /-- Before the next attempt. -/
  | sleeping (attempts : Nat)
  /-- It has returned a value. -/
  | done (value : Option V)
  /-- It has raised an exception. -/
  | failed
  deriving DecidableEq, Repr

/-- The call is inside its attempt loop. -/
def Phase.inLoop {V X : Type} : Phase V X → Bool
  | .head _ => true
  | .counted _ => true
  | .calling _ => true
  | .returned _ _ => true
  | .raised _ _ => true
  | .sleeping _ => true
  | _ => false

/-- The store and the calls. -/
structure World (I V X : Type) where
  record : Option (EffectRecord V)
  calls : I → Phase V X

/-- A store call, the beginning or the end of a call of `fn`, or of a sleep. -/
inductive Act (I V X : Type) where
  | lookup (i : I)
  | begin (i : I)
  | incrementAttempts (i : I)
  | call (i : I)
  | returns (i : I) (result : V)
  | raises (i : I) (exception : X)
  /-- What no `except Exception` catches, such as a cancellation. -/
  | aborts (i : I)
  | markCompleted (i : I)
  | markFailed (i : I)
  | wakes (i : I)

section Steps

variable {I V X : Type} [DecidableEq I]

/-- The world in which a call is somewhere else. -/
def World.move (w : World I V X) (i : I) (phase : Phase V X) : World I V X := { w with calls := Function.update w.calls i phase }

/-- The policies of the calls, and the texts of exceptions. -/
structure Setting (I X : Type) where
  policy : I → RetryPolicy X
  text : X → String

variable (setting : Setting I X)

/-- What a call does next, if it does this. -/
def step (w : World I V X) : Act I V X → Option (World I V X)
  | .lookup i =>
      match w.calls i, w.record with
      | .start, some r => some (w.move i (if r.status = .completed then .done r.resultPayload else .looked))
      | .start, none => some (w.move i .looked)
      | _, _ => none
  | .begin i =>
      match w.calls i, w.record with
      | .looked, none => some { w.move i (.head 0) with record := some .pending }
      | .looked, some r =>
          some (w.move i (match r.status with
            | .pending => .failed
            | .completed => .done r.resultPayload
            -- A failed record is given as it is.
            | .failed => .head 0))
      | _, _ => none
  | .incrementAttempts i =>
      match w.calls i, w.record with
      | .head n, some r => some { w.move i (.counted (n + 1)) with record := some r.incrementAttempts }
      | _, _ => none
  | .call i =>
      match w.calls i with
      | .counted n => some (w.move i (.calling n))
      | _ => none
  | .returns i result =>
      match w.calls i with
      | .calling n => some (w.move i (.returned n result))
      | _ => none
  | .raises i exception =>
      match w.calls i with
      | .calling n => some (w.move i (.raised n exception))
      | _ => none
  | .aborts i =>
      match w.calls i with
      | .calling _ => some (w.move i .failed)
      | .sleeping _ => some (w.move i .failed)
      | _ => none
  | .markCompleted i =>
      match w.calls i, w.record with
      | .returned _ result, some r => some { w.move i (.done (some result)) with record := some (r.markCompleted result) }
      | _, _ => none
  | .markFailed i =>
      match w.calls i, w.record with
      | .raised n exception, some r =>
          some { w.move i (if shouldRetry (setting.policy i) exception n then .sleeping n else .failed) with
            record := some (r.markFailed (setting.text exception)) }
      | _, _ => none
  | .wakes i =>
      match w.calls i with
      | .sleeping n => some (w.move i (.head n))
      | _ => none

/-- No call has begun. -/
def World.initial : World I V X := ⟨none, fun _ => .start⟩

/-- A run whose acts meet a condition. -/
inductive Run (safe : World I V X → Act I V X → Prop) : World I V X → World I V X → Prop where
  | refl (w : World I V X) : Run safe w w
  | step {w w' w'' : World I V X} {act : Act I V X} : Run safe w w' → safe w' act → step setting w' act = some w'' → Run safe w w''

/-- The record is completed with a result. -/
def World.Completed (w : World I V X) (result : Option V) : Prop := ∃ r, w.record = some r ∧ r.status = .completed ∧ r.resultPayload = result

/-- A call that begins with a failed record does so when no call is inside its attempt loop. -/
def BeginsAlone (w : World I V X) : Act I V X → Prop
  | .begin _ => ∀ r, w.record = some r → r.status = .failed → ∀ j, (w.calls j).inLoop = false
  | _ => True

/-! ### What an act does -/

/-- What an act does to the record and to the call whose act it is. -/
inductive Effect (w : World I V X) : Act I V X → World I V X → Prop where
  /-- The record keeps its status and its result, and the call does not enter its loop. -/
  | quiet {act : Act I V X} {i : I} {phase : Phase V X} {record : Option (EffectRecord V)} :
      (phase.inLoop = true → (w.calls i).inLoop = true) → (∀ v, phase = .done v → w.Completed v) →
      record.map (fun r => (r.status, r.resultPayload)) = w.record.map (fun r => (r.status, r.resultPayload)) →
      Effect w act { w.move i phase with record }
  | opens {i : I} : w.record = none → Effect w (.begin i) { w.move i (.head 0) with record := some .pending }
  | reopens {i : I} {r : EffectRecord V} : w.record = some r → r.status = .failed → Effect w (.begin i) (w.move i (.head 0))
  | completes {act : Act I V X} {i : I} {r : EffectRecord V} {result : V} : (w.calls i).inLoop = true → w.record = some r →
      Effect w act { w.move i (.done (some result)) with record := some (r.markCompleted result) }
  | fails {act : Act I V X} {i : I} {r : EffectRecord V} {phase : Phase V X} {error : String} : (w.calls i).inLoop = true → w.record = some r →
      (∀ v, phase ≠ .done v) → Effect w act { w.move i phase with record := some (r.markFailed error) }

variable {setting : Setting I X} {w w' : World I V X} {act : Act I V X}

theorem Effect.moves {i : I} {phase : Phase V X} (hloop : phase.inLoop = true → (w.calls i).inLoop = true)
    (hdone : ∀ v, phase = .done v → w.Completed v) : Effect w act (w.move i phase) := by
  have hquiet : Effect w act { w.move i phase with record := w.record } := .quiet hloop hdone rfl
  exact hquiet

theorem step_effect (h : step setting w act = some w') : Effect w act w' := by
  cases act with
  | lookup i =>
      rw [step] at h
      split at h
      · rename_i r hcall hrecord
        obtain rfl := Option.some.inj h
        refine .moves (fun hloop => ?_) fun v hv => ?_
        · split at hloop <;> cases hloop
        · split at hv
          · rename_i hcompleted
            exact ⟨r, hrecord, hcompleted, Phase.done.inj hv⟩
          · cases hv
      · obtain rfl := Option.some.inj h
        exact .moves nofun nofun
      · cases h
  | begin i =>
      rw [step] at h
      split at h
      · rename_i hcall hrecord
        obtain rfl := Option.some.inj h
        exact .opens hrecord
      · rename_i r hcall hrecord
        obtain rfl := Option.some.inj h
        cases hstatus : r.status with
        | pending => exact .moves nofun nofun
        | completed => exact .moves nofun fun v hv => ⟨r, hrecord, hstatus, Phase.done.inj hv⟩
        | failed => exact .reopens hrecord hstatus
      · cases h
  | incrementAttempts i =>
      rw [step] at h
      split at h
      · rename_i n r hcall hrecord
        obtain rfl := Option.some.inj h
        exact .quiet (fun _ => by rw [hcall]; rfl) nofun (by rw [hrecord]; rfl)
      · cases h
  | call i =>
      rw [step] at h
      split at h
      · rename_i n hcall
        obtain rfl := Option.some.inj h
        exact .moves (fun _ => by rw [hcall]; rfl) nofun
      · cases h
  | returns i result =>
      rw [step] at h
      split at h
      · rename_i n hcall
        obtain rfl := Option.some.inj h
        exact .moves (fun _ => by rw [hcall]; rfl) nofun
      · cases h
  | raises i exception =>
      rw [step] at h
      split at h
      · rename_i n hcall
        obtain rfl := Option.some.inj h
        exact .moves (fun _ => by rw [hcall]; rfl) nofun
      · cases h
  | aborts i =>
      rw [step] at h
      split at h
      · obtain rfl := Option.some.inj h
        exact .moves nofun nofun
      · obtain rfl := Option.some.inj h
        exact .moves nofun nofun
      · cases h
  | markCompleted i =>
      rw [step] at h
      split at h
      · rename_i n result r hcall hrecord
        obtain rfl := Option.some.inj h
        exact .completes (by rw [hcall]; rfl) hrecord
      · cases h
  | markFailed i =>
      rw [step] at h
      split at h
      · rename_i n exception r hcall hrecord
        obtain rfl := Option.some.inj h
        refine .fails (by rw [hcall]; rfl) hrecord fun v hv => ?_
        split at hv <;> cases hv
      · cases h
  | wakes i =>
      rw [step] at h
      split at h
      · rename_i n hcall
        obtain rfl := Option.some.inj h
        exact .moves (fun _ => by rw [hcall]; rfl) nofun
      · cases h

/-! ### Single flight -/

/-- At most one call is inside its attempt loop, and then the record is not completed; and a call has returned the completed result. -/
structure Single (w : World I V X) : Prop where
  alone : ∀ i j, (w.calls i).inLoop = true → (w.calls j).inLoop = true → i = j
  entered : ∀ i, (w.calls i).inLoop = true → ∃ r, w.record = some r ∧ r.status ≠ .completed
  answered : ∀ i v, w.calls i = .done v → w.Completed v

omit [DecidableEq I] in
theorem single_initial : Single (World.initial : World I V X) := ⟨nofun, nofun, nofun⟩

theorem inLoop_of_move {i j : I} {phase : Phase V X} (hloop : phase.inLoop = true → (w.calls i).inLoop = true)
    (h : (Function.update w.calls i phase j).inLoop = true) : (w.calls j).inLoop = true := by
  by_cases hj : j = i
  · subst hj
    rw [Function.update_self] at h
    exact hloop h
  · rwa [Function.update_of_ne hj] at h

theorem inLoop_of_enter {i j : I} {phase : Phase V X} (h : (Function.update w.calls i phase j).inLoop = true)
    (hnone : ∀ j, (w.calls j).inLoop = false) : j = i := by
  by_contra hj
  rw [Function.update_of_ne hj, hnone j] at h
  cases h

theorem done_of_move {i j : I} {phase : Phase V X} {v : Option V} (h : Function.update w.calls i phase j = .done v) :
    phase = .done v ∨ w.calls j = .done v := by
  by_cases hj : j = i
  · subst hj
    rw [Function.update_self] at h
    exact .inl h
  · rw [Function.update_of_ne hj] at h
    exact .inr h

omit [DecidableEq I] in
theorem not_completed_of_status {r : EffectRecord V} {v : Option V} (hrecord : w.record = some r) (hstatus : r.status ≠ .completed) :
    ¬ w.Completed v := by
  rintro ⟨r', hr', hcompleted, -⟩
  obtain rfl := Option.some.inj (hrecord.symm.trans hr')
  exact hstatus hcompleted

omit [DecidableEq I] in
theorem completed_congr {v : Option V} {calls : I → Phase V X} {record : Option (EffectRecord V)}
    (hsame : record.map (fun r => (r.status, r.resultPayload)) = w.record.map (fun r => (r.status, r.resultPayload))) (h : w.Completed v) :
    (⟨record, calls⟩ : World I V X).Completed v := by
  obtain ⟨r, hrecord, hstatus, hresult⟩ := h
  rw [hrecord] at hsame
  obtain ⟨r', hr', hfields⟩ := Option.map_eq_some_iff.mp hsame
  obtain ⟨hstatus', hresult'⟩ := Prod.mk.inj hfields
  exact ⟨r', hr', hstatus'.trans hstatus, hresult'.trans hresult⟩

theorem single_step (hw : Single w) (hsafe : BeginsAlone w act) (h : Effect w act w') : Single w' := by
  cases h with
  | quiet hloop hdone hsame =>
      refine ⟨fun i j hi hj => hw.alone i j (inLoop_of_move hloop hi) (inLoop_of_move hloop hj), fun i hi => ?_, fun i v hv => ?_⟩
      · obtain ⟨r, hrecord, hstatus⟩ := hw.entered i (inLoop_of_move hloop hi)
        rw [hrecord] at hsame
        obtain ⟨r', hr', hfields⟩ := Option.map_eq_some_iff.mp hsame
        exact ⟨r', hr', (Prod.mk.inj hfields).1 ▸ hstatus⟩
      · rcases done_of_move hv with hphase | hcall
        · exact completed_congr hsame (hdone v hphase)
        · exact completed_congr hsame (hw.answered i v hcall)
  | opens hrecord =>
      have hnone : ∀ j, (w.calls j).inLoop = false := by
        intro j
        by_contra hj
        obtain ⟨r, hr, -⟩ := hw.entered j (Bool.eq_true_of_not_eq_false hj)
        rw [hrecord] at hr
        cases hr
      refine ⟨fun i j hi hj => (inLoop_of_enter hi hnone).trans (inLoop_of_enter hj hnone).symm, fun i _ => ⟨_, rfl, nofun⟩, fun i v hv => ?_⟩
      rcases done_of_move hv with hphase | hcall
      · cases hphase
      · obtain ⟨r, hr, -⟩ := hw.answered i v hcall
        rw [hrecord] at hr
        cases hr
  | @reopens i r hrecord hstatus =>
      have hnone := hsafe _ hrecord hstatus
      have hopen : r.status ≠ .completed := by
        rw [hstatus]
        exact nofun
      refine ⟨fun i j hi hj => (inLoop_of_enter hi hnone).trans (inLoop_of_enter hj hnone).symm, fun i _ => ⟨_, hrecord, hopen⟩,
        fun i v hv => ?_⟩
      rcases done_of_move hv with hphase | hcall
      · cases hphase
      · exact absurd (hw.answered i v hcall) (not_completed_of_status hrecord hopen)
  | @completes act i r result hloop hrecord =>
      obtain ⟨r', hr', hopen⟩ := hw.entered i hloop
      obtain rfl := Option.some.inj (hrecord.symm.trans hr')
      have hleft : ∀ j, (Function.update w.calls i (.done (some result)) j).inLoop = false := by
        intro j
        by_cases hj : j = i
        · subst hj
          rw [Function.update_self]
          rfl
        · rw [Function.update_of_ne hj]
          exact Bool.eq_false_of_not_eq_true fun hin => hj (hw.alone j i hin hloop)
      refine ⟨fun j k hj => ?_, fun j hj => ?_, fun j v hv => ?_⟩
      · exact absurd ((hleft j).symm.trans hj) Bool.false_ne_true
      · exact absurd ((hleft j).symm.trans hj) Bool.false_ne_true
      · rcases done_of_move hv with hphase | hcall
        · exact ⟨_, rfl, rfl, Phase.done.inj hphase⟩
        · exact absurd (hw.answered j v hcall) (not_completed_of_status hrecord hopen)
  | @fails act i r phase error hloop hrecord hnot =>
      obtain ⟨r', hr', hopen⟩ := hw.entered i hloop
      obtain rfl := Option.some.inj (hrecord.symm.trans hr')
      refine ⟨fun j k hj hk => hw.alone j k (inLoop_of_move (fun _ => hloop) hj) (inLoop_of_move (fun _ => hloop) hk),
        fun j _ => ⟨_, rfl, nofun⟩, fun j v hv => ?_⟩
      rcases done_of_move hv with hphase | hcall
      · exact absurd hphase (hnot v)
      · exact absurd (hw.answered j v hcall) (not_completed_of_status hrecord hopen)

theorem completed_step {v : Option V} (hw : Single w) (h : Effect w act w') (hcompleted : w.Completed v) : w'.Completed v := by
  cases h with
  | quiet _ _ hsame => exact completed_congr hsame hcompleted
  | opens hrecord =>
      obtain ⟨r, hr, -⟩ := hcompleted
      rw [hrecord] at hr
      cases hr
  | reopens _ _ => exact hcompleted
  | @completes act i _ _ hloop _ =>
      obtain ⟨r, hr, hopen⟩ := hw.entered i hloop
      exact absurd hcompleted (not_completed_of_status hr hopen)
  | @fails act i _ _ _ hloop _ _ =>
      obtain ⟨r, hr, hopen⟩ := hw.entered i hloop
      exact absurd hcompleted (not_completed_of_status hr hopen)

theorem single_run {start : World I V X} (hstart : Single start) (h : Run setting BeginsAlone start w) :
    Single w ∧ ∀ v, start.Completed v → w.Completed v := by
  induction h with
  | refl => exact ⟨hstart, fun v hv => hv⟩
  | step _ hsafe hstep ih => exact ⟨single_step ih.1 hsafe (step_effect hstep), fun v hv => completed_step ih.1 (step_effect hstep) (ih.2 v hv)⟩

/-- In a run in which no call begins with a failed record while another one is inside its attempt loop, there is never more than one such
call, `fn` is not called once the record is completed, it stays completed, and what a call returns is the completed result. -/
theorem single_flight (setting : Setting I X) {w w' : World I V X} (hrun : Run setting BeginsAlone World.initial w)
    (hmore : Run setting BeginsAlone w w') :
    (∀ i j, (w.calls i).inLoop = true → (w.calls j).inLoop = true → i = j) ∧
      (∀ i w'', step setting w (.call i) = some w'' → ∀ v, ¬ w.Completed v) ∧ (∀ v, w.Completed v → w'.Completed v) ∧
      ∀ i v, w.calls i = .done v → w.Completed v := by
  obtain ⟨hw, -⟩ := single_run single_initial hrun
  obtain ⟨-, hkept⟩ := single_run hw hmore
  refine ⟨hw.alone, fun i w'' hcall v hcompleted => ?_, hkept, hw.answered⟩
  rw [step] at hcall
  split at hcall
  · rename_i n hphase
    obtain ⟨r, hrecord, hopen⟩ := hw.entered i (by rw [hphase]; rfl)
    exact not_completed_of_status hrecord hopen hcompleted
  · cases hcall

theorem run_cons {safe : World I V X → Act I V X → Prop} {w'' : World I V X} (act : Act I V X) (hsafe : safe w act) (hstep : step setting w act = some w')
    (h : Run setting safe w' w'') : Run setting safe w w'' := by
  induction h with
  | refl => exact .step (.refl _) hsafe hstep
  | step _ hsafe' hstep' ih => exact .step ih hsafe' hstep'

theorem run_of_acts (acts : List (Act I V X)) (h : acts.foldlM (step setting) w = some w') : Run setting (fun _ _ => True) w w' := by
  induction acts generalizing w with
  | nil =>
      obtain rfl := Option.some.inj h
      exact .refl _
  | cons act acts ih =>
      rw [List.foldlM_cons] at h
      obtain ⟨w'', hstep, hrest⟩ := Option.bind_eq_some_iff.mp h
      exact run_cons act trivial hstep (ih hrest)

end Steps

/-- Three attempts for every call. -/
def threeAttempts : Setting Nat Unit := ⟨fun _ => ⟨3, false, none, fun _ => false⟩, fun _ => "error"⟩

/-- While the first call waits for its second attempt, the second call begins; the first one completes the record, and the second one calls
`fn` after that and turns the record to failed. -/
theorem two_flights : ∃ w₁ w₂ w₃ : World Nat Nat Unit, Run threeAttempts (fun _ _ => True) World.initial w₁ ∧
    ((w₁.calls 0).inLoop = true ∧ (w₁.calls 1).inLoop = true) ∧ Run threeAttempts (fun _ _ => True) w₁ w₂ ∧ w₂.Completed (some 7) ∧
    step threeAttempts w₂ (.call 1) = some w₃ ∧ ∃ w₄, Run threeAttempts (fun _ _ => True) w₃ w₄ ∧ ∀ v, ¬ w₄.Completed v := by
  refine ⟨_, _, _, run_of_acts [.lookup 0, .begin 0, .incrementAttempts 0, .call 0, .raises 0 (), .markFailed 0, .lookup 1, .begin 1] rfl,
    ⟨rfl, rfl⟩, run_of_acts [.wakes 0, .incrementAttempts 0, .call 0, .returns 0 7, .markCompleted 0, .incrementAttempts 1] rfl,
    ⟨_, rfl, rfl, rfl⟩, rfl, _, run_of_acts [.raises 1 (), .markFailed 1] rfl, fun v => not_completed_of_status rfl nofun⟩

/-- A call that completes the record, and a second one that returns its result. -/
theorem result_shared : ∃ w : World Nat Nat Unit, Run threeAttempts BeginsAlone World.initial w ∧ w.calls 1 = .done (some 7) ∧ w.Completed (some 7) := by
  have hrun : Run threeAttempts BeginsAlone (World.initial : World Nat Nat Unit) _ :=
    run_cons (.lookup 0) trivial rfl (run_cons (.begin 0) (fun _ hr => by cases hr) rfl (run_cons (.incrementAttempts 0) trivial rfl
      (run_cons (.call 0) trivial rfl (run_cons (.returns 0 7) trivial rfl (run_cons (.markCompleted 0) trivial rfl
        (run_cons (.lookup 1) trivial rfl (.refl _)))))))
  obtain ⟨-, -, -, hanswered⟩ := single_flight threeAttempts hrun (.refl _)
  exact ⟨_, hrun, rfl, hanswered 1 (some 7) rfl⟩

end Nodus.SingleFlight

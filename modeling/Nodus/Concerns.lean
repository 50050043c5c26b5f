import Nodus.Deadlock

/-! An operation of the scheduler is about one coroutine at most: the others are only woken. -/

namespace Nodus.Scheduling

variable {V : Type}

namespace Sched

/-- The coroutines that are ready or asleep. -/
def queued (s : Sched V) : List Nat := s.ready ++ s.timers.map Prod.snd

/-- What keeps every coroutine in one place: one that is running or being unwound is not spawned, one that is ready or
asleep is not resumed by hand, and one that waits for a task is not cancelled. A turn does not end in the middle of an
unwinding. -/
def Tidy (s : Sched V) (op : Op V) : Prop :=
  s.Allowed op ∧
    match op with
    | .spawn c | .spawnAfter c _ => (s.task c).state ≠ .running ∧ (s.task c).cancelling = false
    | .resume c _ => c ∉ s.queued
    | .cancel c => ∀ target, (s.task c).blocked ≠ some (.wait target)
    | .yieldTurn c | .sleep c _ => (s.task c).cancelling = false
    | _ => True

/-- Every operation of a run is tidy in the state it is performed in. -/
def AllTidy (s : Sched V) : List (Op V) → Prop
  | [] => True
  | op :: ops => s.Tidy op ∧ (s.perform op).AllTidy ops

/-- The coroutines in the queues are at rest, and those that are on the list of a task wait for it. -/
structure Neat (s : Sched V) : Prop where
  queued : ∀ c ∈ s.queued, ((s.task c).state = .created ∨ (s.task c).state = .suspended) ∧
    (s.task c).cancelling = false
  waiting : ∀ p ∈ s.waiters, (s.task p.2).blocked = some (.wait p.1)

/-- The coroutines a loop is in the middle of resuming are running. -/
def Turning (s : Sched V) : Prop := ∀ c ∈ s.driven, (s.task c).state = .running ∧ (s.task c).cancelling = false

end Sched

/-- The coroutine that calls a function of the scheduler. -/
def Op.caller : Op V → Option Nat
  | .send me _ _ _ | .recv me _ _ | .wait me _ _ | .callAsync me _ _ => me
  | _ => none

/-- A task may come to its end, or be given up. -/
def Op.settling : Op V → Bool
  | .finish _ _ | .cancel _ | .unwound _ _ | .resume _ _ | .refuse _ | .takeTimedOut _ => true
  | _ => false

namespace Sched

/-- What a cancelled task needs besides to be gone: it is not cancelled while it is running, and only a coroutine that is
running or being unwound calls anything. -/
def Calm (s : Sched V) (op : Op V) : Prop :=
  (∀ c, op = .cancel c → (s.task c).state ≠ .running) ∧
    ∀ c, op.caller = some c → (s.task c).state = .running ∨ (s.task c).cancelling = true

/-- Every operation of a run is tidy and calm. -/
def AllCalm (s : Sched V) : List (Op V) → Prop
  | [] => True
  | op :: ops => s.Tidy op ∧ s.Calm op ∧ (s.perform op).AllCalm ops

variable {s s' : Sched V} {c ch : Nat}

/-- A task is as it was, but for what it is parked on. -/
structure SameTask (t t' : Task) : Prop where
  state : t'.state = t.state
  cancelling : t'.cancelling = t.cancelling
  completed : t'.completed = t.completed

/-- What an operation does to the coroutines other than `c`: some that were parked become ready. -/
structure Others (s : Sched V) (c : Nat) (s' : Sched V) : Prop where
  task : ∀ d, d ≠ c → SameTask (s.task d) (s'.task d)
  blocked : ∀ d, d ≠ c → ∀ b, (s'.task d).blocked = some b → (s.task d).blocked = some b
  queued : ∀ d ∈ s'.queued, d ≠ c → d ∈ s.queued ∨ (s.task d).blocked ≠ none
  driven : ∀ d ∈ s'.driven, d ≠ c → d ∈ s.driven
  waiting : ∀ p ∈ s'.waiters, p.2 ≠ c → p ∈ s.waiters ∧
    ((s.task p.2).blocked = some (.wait p.1) → (s'.task p.2).blocked = some (.wait p.1))

/-- What it does to `c`. -/
structure Subject (s : Sched V) (op : Op V) (c : Nat) (s' : Sched V) : Prop where
  queued : c ∈ s'.queued → ((s'.task c).state = .created ∨ (s'.task c).state = .suspended) ∧ (s'.task c).cancelling = false
  waiting : ∀ p ∈ s'.waiters, p.2 = c → (s'.task p.2).blocked = some (.wait p.1)
  turning : s.Calm op → s.Turning → c ∈ s'.driven → (s'.task c).state = .running ∧ (s'.task c).cancelling = false
  ended : s.Calm op → s.Turning → (s.task c).state = .finished → (s.task c).cancelling = false →
    (s'.task c).state = .finished ∧ (s'.task c).cancelling = false
  quiet : s.Calm op → s.Turning → op.settling = false → (s'.task c).completed = (s.task c).completed ∧
    ((s'.task c).state = .finished ↔ (s.task c).state = .finished) ∧
    ∀ p ∈ s'.waiters, p ∈ s.waiters ∨ (s.task p.1).state ≠ .finished

/-- Coroutines that are parked become ready, and nothing else happens to any. -/
structure Wakes (s s' : Sched V) : Prop where
  task : ∀ d, SameTask (s.task d) (s'.task d)
  blocked : ∀ d b, (s'.task d).blocked = some b → (s.task d).blocked = some b
  queued : ∀ d ∈ s'.queued, d ∈ s.queued ∨ (s.task d).blocked ≠ none
  driven : s'.driven = s.driven
  waiting : ∀ p ∈ s'.waiters, p ∈ s.waiters ∧
    ((s.task p.2).blocked = some (.wait p.1) → (s'.task p.2).blocked = some (.wait p.1))

theorem SameTask.trans {t t' t'' : Task} (h : SameTask t t') (h' : SameTask t' t'') : SameTask t t'' :=
  ⟨h'.state.trans h.state, h'.cancelling.trans h.cancelling, h'.completed.trans h.completed⟩

theorem sameTask_refl (t : Task) : SameTask t t := ⟨rfl, rfl, rfl⟩

theorem Wakes.trans {s'' : Sched V} (h : Wakes s s') (h' : Wakes s' s'') : Wakes s s'' where
  task d := (h.task d).trans (h'.task d)
  blocked d b hb := h.blocked d b (h'.blocked d b hb)
  queued d hd := by
    rcases h'.queued d hd with hd | hb
    · exact h.queued d hd
    · obtain ⟨b, hb⟩ := Option.ne_none_iff_exists'.mp hb
      rw [h.blocked d b hb]
      exact .inr (Option.some_ne_none b)
  driven := h'.driven.trans h.driven
  waiting p hp := by
    obtain ⟨hp', hb'⟩ := h'.waiting p hp
    obtain ⟨hp, hb⟩ := h.waiting p hp'
    exact ⟨hp, fun hw => hb' (hb hw)⟩

theorem wakes_refl (s : Sched V) : Wakes s s :=
  ⟨fun _ => sameTask_refl _, fun _ _ hb => hb, fun _ hd => .inl hd, rfl, fun _ hp => ⟨hp, id⟩⟩

theorem wakes_of_same (htask : s'.task = s.task) (hready : s'.ready = s.ready) (htimers : s'.timers = s.timers)
    (hdriven : s'.driven = s.driven) (hwaiters : s'.waiters = s.waiters) : Wakes s s' := by
  refine ⟨fun d => ?_, fun d b hb => ?_, fun d hd => ?_, hdriven, fun p hp => ?_⟩
  · rw [htask]
    exact sameTask_refl _
  · rwa [htask] at hb
  · unfold queued at hd
    rw [hready, htimers] at hd
    exact .inl hd
  · rw [htask]
    exact ⟨hwaiters ▸ hp, id⟩

@[simp] theorem unblocked_completed {W : List Nat} : (s.unblocked W c).completed = (s.task c).completed := by
  unfold unblocked
  split
  · rfl
  · rfl

theorem wakes_of_unblocked {W woken : List Nat} (htask : s'.task = s.unblocked W) (hready : s'.ready = s.ready ++ woken)
    (htimers : s'.timers = s.timers) (hdriven : s'.driven = s.driven) (hwoken : ∀ d ∈ woken, (s.task d).blocked ≠ none)
    (hwaiters : ∀ p ∈ s'.waiters, p ∈ s.waiters ∧ ((s.task p.2).blocked = some (.wait p.1) → p.2 ∉ W)) : Wakes s s' := by
  refine ⟨fun d => ?_, fun d b hb => ?_, fun d hd => ?_, hdriven, fun p hp => ?_⟩
  · rw [htask]
    exact ⟨unblocked_state, unblocked_cancelling, unblocked_completed⟩
  · rw [htask] at hb
    exact (unblocked_eq_some.mp hb).2
  · unfold queued at hd ⊢
    rw [hready, htimers, List.append_assoc, List.mem_append, List.mem_append] at hd
    rcases hd with hd | hd | hd
    · exact .inl (List.mem_append_left _ hd)
    · exact .inr (hwoken d hd)
    · exact .inl (List.mem_append_right _ hd)
  · obtain ⟨hp, hw⟩ := hwaiters p hp
    refine ⟨hp, fun hb => ?_⟩
    rw [htask]
    exact unblocked_eq_some.mpr ⟨hw hb, hb⟩

theorem Wakes.others (h : Wakes s s') (c : Nat) : Others s c s' :=
  ⟨fun d _ => h.task d, fun d _ => h.blocked d, fun d hd _ => h.queued d hd, fun _ hd _ => h.driven ▸ hd,
    fun p hp _ => h.waiting p hp⟩

theorem Clean.rests (h : s.Clean) (hc : (s.task c).blocked ≠ none) :
    ((s.task c).state = .created ∨ (s.task c).state = .suspended) ∧ (s.task c).cancelling = false := by
  refine ⟨.inr (h.suspended c hc), ?_⟩
  by_contra hne
  exact hc (h.cancelling c (by simpa using hne))

theorem Wakes.subject (h : Wakes s s') (hclean : s.Clean) (hn : s.Neat) (op : Op V) (c : Nat) : Subject s op c s' where
  queued hc := by
    rw [(h.task c).state, (h.task c).cancelling]
    exact (h.queued c hc).elim (hn.queued c) hclean.rests
  waiting p hp hpc := by
    obtain ⟨hp, hb⟩ := h.waiting p hp
    exact hb (hn.waiting p hp)
  turning _ ht hc := by
    rw [(h.task c).state, (h.task c).cancelling]
    exact ht c (h.driven ▸ hc)
  ended _ _ hstate hcancelling := by
    rw [(h.task c).state, (h.task c).cancelling]
    exact ⟨hstate, hcancelling⟩
  quiet _ _ _ := by
    rw [(h.task c).state, (h.task c).completed]
    exact ⟨rfl, Iff.rfl, fun p hp => .inl (h.waiting p hp).1⟩

theorem Others.wakes {s'' : Sched V} (h : Others s c s') (hw : Wakes s' s'') : Others s c s'' where
  task d hd := (h.task d hd).trans (hw.task d)
  blocked d hd b hb := h.blocked d hd b (hw.blocked d b hb)
  queued d hq hd := by
    rcases hw.queued d hq with hq | hb
    · exact h.queued d hq hd
    · obtain ⟨b, hb⟩ := Option.ne_none_iff_exists'.mp hb
      rw [h.blocked d hd b hb]
      exact .inr (Option.some_ne_none b)
  driven d hq hd := h.driven d (hw.driven ▸ hq) hd
  waiting p hp hpc := by
    obtain ⟨hp', hb'⟩ := hw.waiting p hp
    obtain ⟨hp, hb⟩ := h.waiting p hp' hpc
    exact ⟨hp, fun hwait => hb' (hb hwait)⟩

theorem Subject.wakes {s'' : Sched V} {op : Op V} (h : Subject s op c s') (hw : Wakes s' s'')
    (hfree : (s'.task c).blocked = none) : Subject s op c s'' where
  queued hc := by
    rw [(hw.task c).state, (hw.task c).cancelling]
    exact h.queued ((hw.queued c hc).resolve_right (not_not.mpr hfree))
  waiting p hp hpc := by
    obtain ⟨hp', hb'⟩ := hw.waiting p hp
    exact hb' (h.waiting p hp' hpc)
  turning hcalm ht hc := by
    rw [(hw.task c).state, (hw.task c).cancelling]
    exact h.turning hcalm ht (hw.driven ▸ hc)
  ended hcalm ht hstate hcancelling := by
    rw [(hw.task c).state, (hw.task c).cancelling]
    exact h.ended hcalm ht hstate hcancelling
  quiet hcalm ht hop := by
    rw [(hw.task c).state, (hw.task c).completed]
    obtain ⟨hcompleted, hstate, hlisted⟩ := h.quiet hcalm ht hop
    exact ⟨hcompleted, hstate, fun p hp => hlisted p (hw.waiting p hp).1⟩

theorem wakes_releaseWaiters (hwaiting : ∀ p ∈ s.waiters, (s.task p.2).blocked = some (.wait p.1)) (target : Nat) :
    Wakes s (s.releaseWaiters target) := by
  have hmem : ∀ d ∈ s.waitersOf target, (s.task d).blocked = some (.wait target) := by
    intro d hd
    obtain ⟨p, hp, rfl⟩ := List.mem_map.mp hd
    obtain ⟨hp, htarget⟩ := List.mem_filter.mp hp
    rw [hwaiting p hp, of_decide_eq_true htarget]
  rw [releaseWaiters_eq]
  refine wakes_of_unblocked rfl rfl rfl rfl (fun d hd => ?_) fun p hp => ?_
  · rw [hmem d (List.mem_of_mem_filter hd)]
    exact Option.some_ne_none _
  · obtain ⟨hp, hne⟩ := List.mem_filter.mp hp
    refine ⟨hp, fun hb hd => ?_⟩
    rw [hmem p.2 hd] at hb
    cases hb
    exact of_decide_eq_true hne rfl

/-! ### What each operation does -/

/-- The coroutine that an operation is about, if it is about one. -/
def Concerns (s : Sched V) (op : Op V) (c : Nat) (s' : Sched V) : Prop := Others s c s' ∧ Subject s op c s'

theorem Wakes.concerns (h : Wakes s s') (hclean : s.Clean) (hn : s.Neat) (op : Op V) : ∃ c, Concerns s op c s' :=
  ⟨0, h.others 0, h.subject hclean hn op 0⟩

theorem MayPark.concerns {s₀ : Sched V} {op : Op V} {b : Blocked} {nested : Bool} (hm : s₀.MayPark c nested)
    (h : s₀.Clean) (hcaller : op.caller = some c) (htask : s.task = s₀.task) (hready : s.ready = s₀.ready)
    (htimers : s.timers = s₀.timers) (hdriven : s.driven = s₀.driven) (hwaiters : s.waiters = s₀.waiters ++ b.entries c)
    (htarget : ∀ target, b = .wait target → (s₀.task target).state ≠ .finished) :
    Concerns s₀ op c (s.park c b nested) := by
  obtain ⟨hcancelling, hplace⟩ := hm
  have hfacts : c ∉ s₀.queued ∧ c ∉ s₀.driven.erase c ∧ c ∉ s₀.waiters.map Prod.snd ∧ (nested = true → c ∉ s₀.driven) := by
    cases nested with
    | true =>
        obtain ⟨-, hbusy, -, hwaiting⟩ := hplace
        have hdriven : c ∉ s₀.driven := fun hd => hbusy (List.mem_append_right _ hd)
        exact ⟨fun hq => hbusy (List.mem_append_left _ hq), fun hd => hdriven (List.mem_of_mem_erase hd), hwaiting,
          fun _ => hdriven⟩
    | false =>
        exact ⟨h.unqueued_of_driven hplace, (List.nodup_append.mp h.nodup).2.1.not_mem_erase,
          h.notWaiting (Clean.busy_of_driven hplace), fun hf => by cases hf⟩
  obtain ⟨hqueued, herase, hwaiting, hnested⟩ := hfacts
  have hself : ((s.park c b nested).task c).blocked = some b ∧ ((s.park c b nested).task c).state = .suspended ∧
      ((s.park c b nested).task c).completed = (s₀.task c).completed := by
    unfold park
    split
    · simp [setTask, htask]
    · simp [setTask, leave, htask]
  have hother : ∀ d, d ≠ c → (s.park c b nested).task d = s₀.task d := by
    intro d hd
    unfold park
    split
    · simp [setTask, hd, htask]
    · simp [setTask, leave, hd, htask]
  have hqueue : (s.park c b nested).queued = s₀.queued := by
    unfold park queued
    split
    · simp [setTask, hready, htimers]
    · simp [setTask, leave, hready, htimers]
  have hleft : ∀ d ∈ (s.park c b nested).driven, d ∈ s₀.driven ∧ d ≠ c := by
    intro d hd
    cases nested with
    | true =>
        have hd : d ∈ s₀.driven := hdriven ▸ hd
        exact ⟨hd, fun he => hnested rfl (he ▸ hd)⟩
    | false =>
        have hd : d ∈ s₀.driven.erase c := hdriven ▸ hd
        exact ⟨List.mem_of_mem_erase hd, fun he => herase (he ▸ hd)⟩
  have hlists : ∀ p ∈ (s.park c b nested).waiters, p ∈ s₀.waiters ∧ p.2 ≠ c ∨ b = .wait p.1 ∧ p.2 = c := by
    intro p hp
    have hp : p ∈ s₀.waiters ++ b.entries c := by
      rw [← hwaiters]
      unfold park at hp
      split at hp
      · exact hp
      · exact hp
    rcases List.mem_append.mp hp with hp | hp
    · exact .inl ⟨hp, fun he => hwaiting (he ▸ List.mem_map_of_mem hp)⟩
    · cases b with
      | wait target =>
          rw [List.mem_singleton.mp hp]
          exact .inr ⟨rfl, rfl⟩
      | send ch => cases hp
      | recv ch => cases hp
      | io ch => cases hp
  -- a coroutine that has ended calls nothing
  have hlive : s₀.Calm op → (s₀.task c).state ≠ .finished := by
    intro hcalm hstate
    rcases hcalm.2 c hcaller with hrunning | htrue
    · rw [hstate] at hrunning
      cases hrunning
    · rw [hcancelling] at htrue
      cases htrue
  refine ⟨⟨fun d hd => ?_, fun d hd b' hb' => ?_, fun d hq _ => ?_, fun d hq _ => (hleft d hq).1, fun p hp hpc => ?_⟩,
    ⟨fun hq => ?_, fun p hp hpc => ?_, fun _ _ hd => absurd rfl (hleft c hd).2,
      fun hcalm _ hstate _ => absurd hstate (hlive hcalm), fun hcalm _ _ => ⟨hself.2.2, ?_, fun p hp => ?_⟩⟩⟩
  · rw [hother d hd]
    exact sameTask_refl _
  · rwa [hother d hd] at hb'
  · rw [hqueue] at hq
    exact .inl hq
  · rw [hother p.2 hpc]
    exact ⟨((hlists p hp).resolve_right fun hr => hpc hr.2).1, id⟩
  · rw [hqueue] at hq
    exact absurd hq hqueued
  · rw [hpc, hself.1, ((hlists p hp).resolve_left fun hl => hl.2 hpc).1]
  · rw [hself.2.1]
    exact ⟨fun hs => (by cases hs), fun hs => absurd hs (hlive hcalm)⟩
  · exact (hlists p hp).imp And.left fun hwait => htarget p.1 hwait.1

theorem Clean.wakes_channel (h : s.Clean) (ch : Nat) {W : List Nat}
    (hW : ∀ d ∈ W, d ∈ (s.chan ch).receivers ∨ d ∈ (s.chan ch).senders.map Prod.fst) (htask : s'.task = s.unblocked W)
    (hready : s'.ready = s.ready ++ W) (htimers : s'.timers = s.timers) (hdriven : s'.driven = s.driven)
    (hwaiters : s'.waiters = s.waiters) : Wakes s s' := by
  have hblocked : ∀ d ∈ W, ∃ b, (s.task d).blocked = some b ∧ ∀ target, b ≠ .wait target := by
    intro d hd
    rcases hW d hd with hd | hd
    · rcases (h.received ch d).mp hd with hb | hb
      · exact ⟨_, hb, fun _ he => by cases he⟩
      · exact ⟨_, hb, fun _ he => by cases he⟩
    · exact ⟨_, (h.sent ch d).mp hd, fun _ he => by cases he⟩
  refine wakes_of_unblocked htask hready htimers hdriven (fun d hd => ?_) fun p hp => ⟨hwaiters ▸ hp, fun hb hd => ?_⟩
  · obtain ⟨b, hb, -⟩ := hblocked d hd
    rw [hb]
    exact Option.some_ne_none b
  · obtain ⟨b, hb', hne⟩ := hblocked p.2 hd
    rw [hb] at hb'
    exact hne _ (Option.some.inj hb').symm

theorem Clean.wakes_wakeOneSender (h : s.Clean) (ch : Nat) : Wakes s (s.wakeOneSender ch) := by
  rw [h.wakeOneSender_eq]
  cases hsenders : (s.chan ch).senders with
  | nil => exact wakes_of_same rfl rfl rfl rfl rfl
  | cons p rest =>
      refine h.wakes_channel ch (fun d hd => .inr ?_) rfl rfl rfl rfl rfl
      rw [List.mem_singleton.mp hd, hsenders]
      exact List.mem_cons_self

theorem Clean.wakes_close (h : s.Clean) (ch : Nat) : Wakes s (s.close ch) := by
  cases hclosed : (s.chan ch).closed with
  | true =>
      have hsame : s.close ch = s := if_pos hclosed
      rw [hsame]
      exact wakes_refl s
  | false =>
      rw [h.close_eq hclosed]
      exact h.wakes_channel ch (fun d hd => (List.mem_append.mp hd).symm) rfl rfl rfl rfl rfl

theorem Clean.wakes_drainChannel (h : s.Clean) (ch : Nat) (late : List (WorkerStep V)) :
    Wakes s (s.drainChannel ch late) := by
  have hserved : ∀ d ∈ (s.served ch).map Prod.fst, d ∈ (s.chan ch).receivers :=
    fun d hd => s.served_append_unserved ch ▸ List.mem_append_left _ hd
  obtain ⟨chan, events, -, -, -, -, heq⟩ := h.drainChannel_eq ch late
  rw [heq]
  split
  · exact h.wakes_channel ch (fun d hd => .inl hd) rfl rfl rfl rfl rfl
  · exact h.wakes_channel ch (fun d hd => .inl (hserved d hd)) rfl rfl rfl rfl rfl

theorem Clean.wakes_drainIo (h : s.Clean) (late : Nat → List (WorkerStep V)) : Wakes s (s.drainIo late) := by
  unfold Sched.drainIo
  generalize s.ioChannels = channels
  induction channels generalizing s with
  | nil => exact wakes_refl s
  | cons ch channels ih =>
      exact (h.wakes_drainChannel ch (late ch)).trans (ih (h.drainChannel ch (late ch)))

theorem wakes_drainTimers (s : Sched V) (now : Nat) : Wakes s (s.drainTimers now) := by
  refine ⟨fun _ => sameTask_refl _, fun _ _ hb => hb, fun d hd => .inl ?_, rfl, fun p hp => ⟨hp, id⟩⟩
  simp only [queued, Sched.drainTimers, List.mem_append] at hd ⊢
  have hsplit : s.timers.takeWhile (·.1 ≤ now) ++ s.timers.dropWhile (·.1 ≤ now) = s.timers :=
    List.takeWhile_append_dropWhile
  rcases hd with (hd | hd) | hd
  · exact .inl hd
  · obtain ⟨p, hp, rfl⟩ := List.mem_map.mp (List.mem_of_mem_filter hd)
    exact .inr (List.mem_map_of_mem (hsplit ▸ List.mem_append_left _ hp))
  · obtain ⟨p, hp, rfl⟩ := List.mem_map.mp hd
    exact .inr (List.mem_map_of_mem (hsplit ▸ List.mem_append_right _ hp))

theorem Clean.concerns_send (h : s.Clean) (hn : s.Neat) {me : Option Nat} {v : V} {nested : Bool}
    (hm : s.Allowed (.send me ch v nested)) : ∃ c, Concerns s (.send me ch v nested) c (s.send me ch v nested) := by
  have hnothing := (wakes_refl s).concerns h hn (.send me ch v nested)
  cases hclosed : (s.chan ch).closed with
  | true =>
      have hsame : s.send me ch v nested = s := if_pos hclosed
      rw [hsame]
      exact hnothing
  | false =>
      cases hreceivers : (s.chan ch).receivers with
      | cons receiver rest =>
          rw [h.send_receiver hclosed hreceivers]
          refine Wakes.concerns ?_ h hn _
          refine h.wakes_channel ch (fun d hd => .inl ?_) rfl rfl rfl rfl rfl
          rw [List.mem_singleton.mp hd, hreceivers]
          exact List.mem_cons_self
      | nil =>
          unfold Sched.send
          simp only [hclosed, hreceivers, Bool.false_eq_true, if_false]
          split
          · next hfull =>
              cases me with
              | none => exact hnothing
              | some c =>
                  simp only []
                  split
                  · next hcurrent =>
                      refine ⟨c, (hm hclosed hreceivers hfull c rfl hcurrent).concerns h ?_ ?_ ?_ ?_ ?_ ?_ ?_⟩
                      all_goals simp [Op.caller, Sched.setChan, Blocked.entries]
                  · exact hnothing
          · refine Wakes.concerns ?_ h hn _
            exact wakes_of_same rfl rfl rfl rfl rfl

theorem Clean.concerns_recv (h : s.Clean) (hn : s.Neat) {me : Option Nat} {nested : Bool}
    (hm : s.Allowed (.recv me ch nested)) : ∃ c, Concerns s (.recv me ch nested) c (s.recv me ch nested) := by
  have hnothing := (wakes_refl s).concerns h hn (.recv me ch nested)
  unfold Sched.recv
  cases hqueue : (s.chan ch).queue with
  | cons v rest =>
      have htaken : ((s.setChan ch fun chan => { chan with queue := rest }).log (.taken ch v)).Clean :=
        h.setChan _ rfl rfl rfl _ _
      have hwakes : Wakes s ((s.setChan ch fun chan => { chan with queue := rest }).log (.taken ch v)) :=
        wakes_of_same rfl rfl rfl rfl rfl
      exact (hwakes.trans (htaken.wakes_wakeOneSender ch)).concerns h hn _
  | nil =>
      simp only []
      split
      · exact hnothing
      · next hopen =>
          cases me with
          | none => exact hnothing
          | some c =>
              refine ⟨c, (hm hqueue (by simpa using hopen) c rfl).concerns h ?_ ?_ ?_ ?_ ?_ ?_ ?_⟩
              all_goals simp [Op.caller, Sched.setChan, log, Blocked.entries]

theorem Clean.concerns_wait (h : s.Clean) (hn : s.Neat) {me : Option Nat} {target : Nat} {nested : Bool}
    (hm : s.Allowed (.wait me target nested)) : ∃ c, Concerns s (.wait me target nested) c (s.wait me target nested) := by
  have hnothing := (wakes_refl s).concerns h hn (.wait me target nested)
  unfold Sched.wait
  split
  · exact hnothing
  · next hready =>
      obtain ⟨hknown, hstate⟩ := not_or.mp hready
      cases me with
      | none => exact hnothing
      | some c =>
          simp only []
          split
          · next hcurrent =>
              have hmay := hm (by simpa using hknown) hstate c rfl hcurrent.1 hcurrent.2
              refine ⟨c, hmay.concerns h ?_ ?_ ?_ ?_ ?_ ?_ fun _ hb => Blocked.wait.inj hb ▸ hstate⟩
              all_goals simp [Op.caller, Blocked.entries]
          · exact hnothing

theorem Clean.concerns_callAsync (h : s.Clean) (hn : s.Neat) {me : Option Nat} {nested : Bool}
    (hm : s.Allowed (.callAsync me ch nested)) :
    ∃ c, Concerns s (.callAsync me ch nested) c (s.callAsync me ch nested) := by
  have hnothing := (wakes_refl s).concerns h hn (.callAsync me ch nested)
  unfold Sched.callAsync
  cases me with
  | none => exact hnothing
  | some c =>
      simp only []
      split
      · next hcurrent =>
          refine ⟨c, (hm c rfl hcurrent).concerns h ?_ ?_ ?_ ?_ ?_ ?_ ?_⟩
          all_goals simp [Op.caller, newChannel, Sched.setChan, log, Blocked.entries]
      · exact hnothing

theorem concerns_setTask (hn : s.Neat) {op : Op V} (hop : op.settling = true) (c : Nat) (f : Task → Task)
    (hblocked : (f (s.task c)).blocked = (s.task c).blocked)
    (hqueued : c ∈ s.queued → ((f (s.task c)).state = .created ∨ (f (s.task c)).state = .suspended) ∧
      (f (s.task c)).cancelling = false)
    (hturning : s.Calm op → s.Turning → c ∈ s.driven → (f (s.task c)).state = .running ∧ (f (s.task c)).cancelling = false)
    (hended : s.Calm op → s.Turning → (s.task c).state = .finished → (s.task c).cancelling = false →
      (f (s.task c)).state = .finished ∧ (f (s.task c)).cancelling = false) : Concerns s op c (s.setTask c f) := by
  have hself : (s.setTask c f).task c = f (s.task c) := by simp only [setTask, Function.update_self]
  have hother : ∀ d, d ≠ c → (s.setTask c f).task d = s.task d := by
    intro d hd
    simp only [setTask, Function.update_of_ne hd]
  refine ⟨⟨fun d hd => ?_, fun d hd b hb => ?_, fun d hd _ => .inl hd, fun d hd _ => hd, fun p hp hpc => ⟨hp, fun hb => ?_⟩⟩,
    ⟨fun hq => ?_, fun p hp hpc => ?_, fun hcalm ht hd => ?_, fun hcalm ht hstate hfalse => ?_, fun _ _ hfalse => ?_⟩⟩
  · rw [hother d hd]
    exact sameTask_refl _
  · rwa [hother d hd] at hb
  · rwa [hother p.2 hpc]
  · rw [hself]
    exact hqueued hq
  · rw [hpc, hself, hblocked, ← hpc]
    exact hn.waiting p hp
  · rw [hself]
    exact hturning hcalm ht hd
  · rw [hself]
    exact hended hcalm ht hstate hfalse
  · rw [hop] at hfalse
    cases hfalse

theorem Clean.taken (h : s.Clean) {rest : List Nat} (hready : s.ready = c :: rest) :
    c ∉ rest ++ s.timers.map Prod.snd ∧ c ∉ s.driven ∧ (s.task c).blocked = none ∧ c ∈ s.queued := by
  have hnodup := h.nodup
  unfold busy at hnodup
  rw [hready, List.cons_append, List.cons_append, List.nodup_cons] at hnodup
  have hqueued : c ∈ s.queued := List.mem_append_left _ (hready ▸ List.mem_cons_self)
  exact ⟨fun hc => hnodup.1 (List.mem_append_left _ hc), fun hc => hnodup.1 (List.mem_append_right _ hc),
    h.free c (List.mem_append_left _ hqueued), hqueued⟩

theorem Clean.concerns_taken (h : s.Clean) (hn : s.Neat) (op : Op V) {rest : List Nat} (hready : s.ready = c :: rest)
    (hqueued : s'.queued = rest ++ s.timers.map Prod.snd) (hdriven : ∀ d ∈ s'.driven, d ∈ s.driven ∨ d = c)
    (hwaiters : s'.waiters = s.waiters) (hother : ∀ d, d ≠ c → s'.task d = s.task d)
    (hblocked : (s'.task c).blocked = (s.task c).blocked)
    (hturning : c ∈ s'.driven → (s'.task c).state = .running ∧ (s'.task c).cancelling = false)
    (hquiet : op.settling = false → (s'.task c).completed = (s.task c).completed ∧ (s'.task c).state ≠ .finished) :
    Concerns s op c s' := by
  obtain ⟨hrest, -, hfree, hmem⟩ := h.taken hready
  have hlive : (s.task c).state ≠ .finished := by
    intro hstate
    rcases (hn.queued c hmem).1 with hs | hs
    · rw [hstate] at hs
      cases hs
    · rw [hstate] at hs
      cases hs
  refine ⟨⟨fun d hd => ?_, fun d hd b hb => ?_, fun d hq _ => .inl ?_, fun d hq hd => (hdriven d hq).resolve_right hd,
    fun p hp hpc => ⟨hwaiters ▸ hp, fun hb => ?_⟩⟩, ⟨fun hq => ?_, fun p hp hpc => ?_, fun _ _ hd => hturning hd,
    fun _ _ hstate _ => absurd hstate hlive, fun _ _ hop => ?_⟩⟩
  · rw [hother d hd]
    exact sameTask_refl _
  · rwa [hother d hd] at hb
  · rw [hqueued] at hq
    unfold queued
    rw [hready]
    exact List.mem_cons_of_mem _ hq
  · rwa [hother p.2 hpc]
  · rw [hqueued] at hq
    exact absurd hq hrest
  · rw [hwaiters] at hp
    rw [hpc, hblocked, ← hpc]
    exact hn.waiting p hp
  · obtain ⟨hcompleted, hstate⟩ := hquiet hop
    exact ⟨hcompleted, ⟨fun hs => absurd hs hstate, fun hs => absurd hs hlive⟩, fun p hp => .inl (hwaiters ▸ hp)⟩

theorem concerns_queued (hn : s.Neat) (op : Op V) (hqueued : ∀ d ∈ s'.queued, d ≠ c → d ∈ s.queued)
    (hdriven : ∀ d ∈ s'.driven, d ∈ s.driven) (hwaiters : s'.waiters = s.waiters)
    (hother : ∀ d, d ≠ c → s'.task d = s.task d) (hblocked : (s'.task c).blocked = (s.task c).blocked)
    (hrests : c ∈ s'.queued → ((s'.task c).state = .created ∨ (s'.task c).state = .suspended) ∧
      (s'.task c).cancelling = false)
    (hturning : s.Turning → c ∈ s'.driven → (s'.task c).state = .running ∧ (s'.task c).cancelling = false)
    (hended : s.Turning → (s.task c).state ≠ .finished)
    (hquiet : op.settling = false → (s'.task c).completed = (s.task c).completed ∧ (s'.task c).state ≠ .finished) :
    Concerns s op c s' := by
  refine ⟨⟨fun d hd => ?_, fun d hd b hb => ?_, fun d hq hd => .inl (hqueued d hq hd), fun d hq _ => hdriven d hq,
    fun p hp hpc => ⟨hwaiters ▸ hp, fun hb => ?_⟩⟩, ⟨hrests, fun p hp hpc => ?_, fun _ ht hd => hturning ht hd,
    fun _ ht hstate _ => absurd hstate (hended ht), fun _ ht hop => ?_⟩⟩
  · rw [hother d hd]
    exact sameTask_refl _
  · rwa [hother d hd] at hb
  · rwa [hother p.2 hpc]
  · rw [hwaiters] at hp
    rw [hpc, hblocked, ← hpc]
    exact hn.waiting p hp
  · obtain ⟨hcompleted, hstate⟩ := hquiet hop
    exact ⟨hcompleted, ⟨fun hs => absurd hs hstate, fun hs => absurd hs (hended ht)⟩, fun p hp => .inl (hwaiters ▸ hp)⟩

theorem Concerns.waiting {op : Op V} (h : Concerns s op c s') (hn : s.Neat) :
    ∀ p ∈ s'.waiters, (s'.task p.2).blocked = some (.wait p.1) := by
  intro p hp
  by_cases hpc : p.2 = c
  · exact h.2.waiting p hp hpc
  · obtain ⟨hp, hb⟩ := h.1.waiting p hp hpc
    exact hb (hn.waiting p hp)

theorem Concerns.wakes {s'' : Sched V} {op : Op V} (h : Concerns s op c s') (hw : Wakes s' s'')
    (hfree : (s'.task c).blocked = none) : Concerns s op c s'' :=
  ⟨h.1.wakes hw, h.2.wakes hw hfree⟩

theorem Concerns.complete {op : Op V} (h : Concerns s op c s') (hop : op.settling = true) :
    Concerns s op c (s'.setTask c fun t => { t with completed := true }) := by
  have hself : (s'.setTask c fun t => { t with completed := true }).task c = { s'.task c with completed := true } := by
    simp only [setTask, Function.update_self]
  have hother : ∀ d, d ≠ c → (s'.setTask c fun t => { t with completed := true }).task d = s'.task d := by
    intro d hd
    simp only [setTask, Function.update_of_ne hd]
  refine ⟨⟨fun d hd => ?_, fun d hd b hb => ?_, h.1.queued, h.1.driven, fun p hp hpc => ?_⟩,
    ⟨fun hq => ?_, fun p hp hpc => ?_, fun hcalm ht hd => ?_, fun hcalm ht hstate hfalse => ?_, fun _ _ hfalse => ?_⟩⟩
  · rw [hother d hd]
    exact h.1.task d hd
  · rw [hother d hd] at hb
    exact h.1.blocked d hd b hb
  · rw [hother p.2 hpc]
    exact h.1.waiting p hp hpc
  · rw [hself]
    exact h.2.queued hq
  · rw [hpc, hself, ← hpc]
    exact h.2.waiting p hp hpc
  · rw [hself]
    exact h.2.turning hcalm ht hd
  · rw [hself]
    exact h.2.ended hcalm ht hstate hfalse
  · rw [hop] at hfalse
    cases hfalse

theorem Concerns.release {op : Op V} (h : Concerns s op c s') (hn : s.Neat) (hfree : (s'.task c).blocked = none) :
    Concerns s op c (s'.releaseWaiters c) ∧ ((s'.releaseWaiters c).task c).blocked = none := by
  refine ⟨h.wakes (wakes_releaseWaiters (h.waiting hn) c) hfree, ?_⟩
  rw [releaseWaiters_eq]
  show (s'.unblocked _ c).blocked = none
  rw [unblocked_blocked, hfree, ite_self]

theorem Concerns.mark {op : Op V} (h : Concerns s op c s') (hop : op.settling = true) (hn : s.Neat)
    (hfree : (s'.task c).blocked = none) :
    Concerns s op c (s'.markCompleted c) ∧ ((s'.markCompleted c).task c).blocked = none := by
  unfold markCompleted
  split
  · exact ⟨h, hfree⟩
  · apply (h.complete hop).release hn
    simp only [setTask, Function.update_self]
    exact hfree

theorem unpark_task (s : Sched V) (c : Nat) : (s.unpark c).task = s.unblocked [c] := by
  have htask : ∀ s' : Sched V, s'.task = s.task → (s'.unblock c).task = s.unblocked [c] := by
    intro s' hs'
    rw [unblock_eq]
    funext d
    simp only [unblocked, hs']
  unfold Sched.unpark
  simp only []
  apply htask
  split
  · split
    · rfl
    · rfl
  · split
    · rfl
    · rfl
  · split
    · rfl
    · rfl
  · rfl

theorem unpark_lists (s : Sched V) (c : Nat) :
    (s.unpark c).queued = s.ready.erase c ++ (s.timers.filter (·.2 ≠ c)).map Prod.snd ∧
      (s.unpark c).driven = s.driven ∧ (s.unpark c).waiters = s.waiters := by
  unfold Sched.unpark queued
  simp only []
  split
  · split
    · exact ⟨rfl, rfl, rfl⟩
    · exact ⟨rfl, rfl, rfl⟩
  · split
    · exact ⟨rfl, rfl, rfl⟩
    · exact ⟨rfl, rfl, rfl⟩
  · split
    · exact ⟨rfl, rfl, rfl⟩
    · exact ⟨rfl, rfl, rfl⟩
  · exact ⟨rfl, rfl, rfl⟩

theorem Clean.concerns_unparked (h : s.Clean) (hn : s.Neat) (hc : ∀ target, (s.task c).blocked ≠ some (.wait target))
    (hstate : (s.task c).state ≠ .finished) (f : Task → Task) (hf : ∀ t, (f t).blocked = t.blocked) :
    Concerns s (.cancel c) c ((s.unpark c).setTask c f) ∧ (((s.unpark c).setTask c f).task c).blocked = none := by
  obtain ⟨hqueued, hdriven, hwaiters⟩ := s.unpark_lists c
  have hnodup : s.ready.Nodup := (List.nodup_append.mp (List.nodup_append.mp h.nodup).1).1
  have hnone : c ∉ (s.unpark c).queued := by
    rw [hqueued, List.mem_append, not_or]
    refine ⟨hnodup.not_mem_erase, fun hm => ?_⟩
    obtain ⟨p, hp, hpc⟩ := List.mem_map.mp hm
    exact of_decide_eq_true (List.mem_filter.mp hp).2 hpc
  have hother : ∀ d, d ≠ c → ((s.unpark c).setTask c f).task d = s.task d := by
    intro d hd
    simp only [Sched.setTask, Function.update_of_ne hd, unpark_task, unblocked]
    exact if_neg fun hm => hd (List.mem_singleton.mp hm)
  refine ⟨⟨⟨fun d hd => ?_, fun d hd b hb => ?_, fun d hq _ => .inl ?_, fun d hq _ => ?_, fun p hp hpc => ⟨?_, fun hb => ?_⟩⟩,
    ⟨fun hq => absurd hq hnone, fun p hp hpc => ?_, fun hcalm ht hd => ?_, fun _ _ hfinished => absurd hfinished hstate,
      fun _ _ hfalse => (by cases hfalse)⟩⟩, ?_⟩
  · rw [hother d hd]
    exact sameTask_refl _
  · rwa [hother d hd] at hb
  · have hq : d ∈ (s.unpark c).queued := hq
    rw [hqueued] at hq
    exact ((List.erase_sublist).append (List.filter_sublist.map Prod.snd)).subset hq
  · have hq : d ∈ (s.unpark c).driven := hq
    rwa [hdriven] at hq
  · have hp : p ∈ (s.unpark c).waiters := hp
    rwa [hwaiters] at hp
  · rwa [hother p.2 hpc]
  · have hp : p ∈ (s.unpark c).waiters := hp
    rw [hwaiters] at hp
    exact absurd (hpc ▸ hn.waiting p hp) (hc p.1)
  · have hd : c ∈ (s.unpark c).driven := hd
    rw [hdriven] at hd
    exact absurd (ht c hd).1 (hcalm.1 c rfl)
  · simp only [Sched.setTask, Function.update_self]
    rw [hf, s.unpark_blocked]

theorem Clean.concerns_cancel (h : s.Clean) (hn : s.Neat) (hc : ∀ target, (s.task c).blocked ≠ some (.wait target)) :
    Concerns s (.cancel c) c (s.cancel c) := by
  unfold Sched.cancel
  simp only []
  split
  · exact ⟨(wakes_refl s).others c, (wakes_refl s).subject h hn _ c⟩
  · next hlive =>
      have hstate : (s.task c).state ≠ .finished := fun he => hlive (.inl he)
      split
      · obtain ⟨hsettled, hfree⟩ := h.concerns_unparked hn hc hstate
          (fun t => { t with state := .finished, cancelling := false }) fun _ => rfl
        obtain ⟨hmarked, hfree'⟩ := hsettled.mark rfl hn hfree
        exact (hmarked.release hn hfree').1
      · exact (h.concerns_unparked hn hc hstate (fun t => { t with cancelling := true }) fun _ => rfl).1

theorem Clean.concerns_unwound (h : s.Clean) (hn : s.Neat) (hc : (s.task c).cancelling = true) (timedOut : Bool) :
    Concerns s (.unwound c timedOut) c (s.unwound c timedOut) := by
  have hsettled : Concerns s (.unwound c timedOut) c (s.settle c) := by
    refine concerns_setTask hn rfl c _ rfl (fun hq => ?_) (fun _ ht hd => ?_) fun _ _ _ _ => ⟨rfl, rfl⟩
    · rw [(hn.queued c hq).2] at hc
      cases hc
    · rw [(ht c hd).2] at hc
      cases hc
  have hfree : ((s.settle c).task c).blocked = none := by
    simp only [Sched.settle, Sched.setTask, Function.update_self]
    exact h.cancelling c hc
  obtain ⟨hmarked, hfree'⟩ := hsettled.mark rfl hn hfree
  unfold Sched.unwound
  split
  · exact hmarked
  · exact (hmarked.release hn hfree').1

theorem concerns_known (hn : s.Neat) (op : Op V) (hstate : (s.task c).state ≠ .finished ∧ (s.task c).state ≠ .running)
    (hcancelling : (s.task c).cancelling = false) {ready : List Nat} {timers : List (Nat × Nat)}
    (hperm : (ready ++ timers.map Prod.snd).Perm (c :: s.queued)) :
    Concerns s op c { s.ensureMetadata c with ready := ready, timers := timers } := by
  have hother : ∀ d, d ≠ c → (s.ensureMetadata c).task d = s.task d := by
    intro d hd
    unfold ensureMetadata
    split
    · rfl
    · simp only [setTask, Function.update_of_ne hd]
  have hself : ((s.ensureMetadata c).task c).state = (s.task c).state ∧
      ((s.ensureMetadata c).task c).cancelling = (s.task c).cancelling ∧
      ((s.ensureMetadata c).task c).blocked = (s.task c).blocked ∧
      ((s.ensureMetadata c).task c).completed = (s.task c).completed := by
    unfold ensureMetadata
    split
    · exact ⟨rfl, rfl, rfl, rfl⟩
    · simp only [setTask, Function.update_self, and_self]
  have hlists : (s.ensureMetadata c).driven = s.driven ∧ (s.ensureMetadata c).waiters = s.waiters := by
    unfold ensureMetadata
    split
    · exact ⟨rfl, rfl⟩
    · exact ⟨rfl, rfl⟩
  refine concerns_queued hn op (fun d hq hd => ?_) (fun d hd => hlists.1 ▸ hd) hlists.2 hother hself.2.2.1 (fun _ => ?_)
    (fun ht hd => ?_) (fun _ => hstate.1) fun _ => ⟨hself.2.2.2, fun hs => hstate.1 (hself.1.symm.trans hs)⟩
  · exact (List.mem_cons.mp (hperm.mem_iff.mp hq)).resolve_left hd
  · show (((s.ensureMetadata c).task c).state = .created ∨ ((s.ensureMetadata c).task c).state = .suspended) ∧
      ((s.ensureMetadata c).task c).cancelling = false
    rw [hself.1, hself.2.1]
    refine ⟨?_, hcancelling⟩
    cases hs : (s.task c).state with
    | created => exact .inl rfl
    | suspended => exact .inr rfl
    | running => exact absurd hs hstate.2
    | finished => exact absurd hs hstate.1
  · have hd : c ∈ (s.ensureMetadata c).driven := hd
    rw [hlists.1] at hd
    exact absurd (ht c hd).1 hstate.2

theorem ensureMetadata_queues (s : Sched V) (c : Nat) :
    (s.ensureMetadata c).ready = s.ready ∧ (s.ensureMetadata c).timers = s.timers := by
  unfold ensureMetadata
  split
  · exact ⟨rfl, rfl⟩
  · exact ⟨rfl, rfl⟩

theorem Clean.concerns_take (h : s.Clean) (hn : s.Neat) : ∃ c, Concerns s .take c s.take := by
  unfold Sched.take
  cases hready : s.ready with
  | nil => exact (wakes_refl s).concerns h hn _
  | cons c rest =>
      obtain ⟨-, hdriven, -, hmem⟩ := h.taken hready
      obtain ⟨hrests, hcancelling⟩ := hn.queued c hmem
      refine ⟨c, ?_⟩
      have hrun : Concerns s .take c { s.setTask c fun t => { t with state := .running } with
          ready := rest, current := some c, driven := c :: s.driven } := by
        refine h.concerns_taken hn _ hready rfl (fun d hd => ?_) rfl (fun d hd => ?_) ?_ (fun _ => ?_) fun _ => ?_
        · exact (List.mem_cons.mp hd).symm
        · simp only [Sched.setTask, Function.update_of_ne hd]
        · simp only [Sched.setTask, Function.update_self]
        · simp only [Sched.setTask, Function.update_self, hcancelling, and_self]
        · simp [Sched.setTask]
      have hnever : (s.task c).state = .finished ∨ (s.task c).state = .running → False := by
        rintro (hs | hs)
        · simp [hs] at hrests
        · simp [hs] at hrests
      simp only []
      cases hstate : (s.task c).state with
      | finished => exact (hnever (.inl hstate)).elim
      | running => exact (hnever (.inr hstate)).elim
      | created => exact hrun
      | suspended => exact hrun

theorem Clean.concerns_dropped (h : s.Clean) (hn : s.Neat) {op : Op V} (hop : op.settling = true) {rest : List Nat}
    (hready : s.ready = c :: rest) (current : Option Nat) (f : Task → Task)
    (hf : (f (s.task c)).blocked = (s.task c).blocked) :
    Concerns s op c { s.setTask c f with ready := rest, current := current } := by
  refine h.concerns_taken hn op hready rfl (fun d hd => .inl hd) rfl (fun d hd => ?_) ?_ (fun hd => ?_) fun hfalse => ?_
  · simp only [Sched.setTask, Function.update_of_ne hd]
  · simpa only [Sched.setTask, Function.update_self] using hf
  · exact absurd hd (h.taken hready).2.1
  · rw [hop] at hfalse
    cases hfalse

theorem setTask_id (s : Sched V) (c : Nat) : s.setTask c id = s := by
  unfold setTask
  rw [id_eq, Function.update_eq_self]

theorem Clean.concerns_refuse (h : s.Clean) (hn : s.Neat) (entered : Bool) :
    ∃ c, Concerns s (.refuse entered) c (s.refuse entered) := by
  unfold Sched.refuse
  cases hready : s.ready with
  | nil => exact (wakes_refl s).concerns h hn _
  | cons c rest =>
      obtain ⟨-, -, hfree, -⟩ := h.taken hready
      have hskip := h.concerns_dropped hn (rfl : (Op.refuse entered : Op V).settling = true) hready
      refine ⟨c, ?_⟩
      simp only []
      split
      · have hleft := hskip s.current id rfl
        rw [setTask_id] at hleft
        exact hleft
      · have hleft : Concerns s (.refuse entered) c ({ (if entered then
            ({ s with ready := rest } : Sched V).setTask c fun t => { t with state := .running }
            else { s with ready := rest }) with current := none } : Sched V) ∧
            (({ (if entered then ({ s with ready := rest } : Sched V).setTask c fun t => { t with state := .running }
            else { s with ready := rest }) with current := none } : Sched V).task c).blocked = none := by
          cases entered with
          | false =>
              have hleft := hskip none id rfl
              rw [setTask_id] at hleft
              exact ⟨hleft, hfree⟩
          | true =>
              refine ⟨hskip none (fun t => { t with state := .running }) rfl, ?_⟩
              simp only [if_true, Sched.setTask, Function.update_self]
              exact hfree
        obtain ⟨hreleased, hfree'⟩ := hleft.1.release hn hleft.2
        exact (hreleased.mark rfl hn hfree').1

theorem Clean.concerns_takeTimedOut (h : s.Clean) (hn : s.Neat) (unwinds : Bool) :
    ∃ c, Concerns s (.takeTimedOut unwinds) c (s.takeTimedOut unwinds) := by
  unfold Sched.takeTimedOut
  cases hready : s.ready with
  | nil => exact (wakes_refl s).concerns h hn _
  | cons c rest =>
      obtain ⟨-, -, hfree, -⟩ := h.taken hready
      have hskip := h.concerns_dropped hn (rfl : (Op.takeTimedOut unwinds : Op V).settling = true) hready s.current
      have hleft := hskip id rfl
      rw [setTask_id] at hleft
      refine ⟨c, ?_⟩
      simp only []
      split
      · exact hleft
      · split
        · exact hskip (fun t => { t with cancelling := true }) rfl
        · exact (hleft.mark rfl hn hfree).1

theorem Clean.concerns_suspend (h : s.Clean) (hn : s.Neat) (op : Op V) (hc : c ∈ s.driven) {ready : List Nat}
    {timers : List (Nat × Nat)} (hqueued : ∀ d ∈ ready ++ timers.map Prod.snd, d ≠ c → d ∈ s.queued)
    (hcancelling : c ∈ ready ++ timers.map Prod.snd → (s.task c).cancelling = false) :
    Concerns s op c { s.suspend c with ready := ready, timers := timers } := by
  refine concerns_queued hn op hqueued (fun d hd => List.mem_of_mem_erase hd) rfl (fun d hd => ?_) ?_ (fun hq => ?_)
    (fun _ hd => ?_) (fun ht hstate => ?_) fun _ => ?_
  · simp only [Sched.suspend, Sched.leave, Sched.setTask, Function.update_of_ne hd]
  · simp only [Sched.suspend, Sched.leave, Sched.setTask, Function.update_self]
  · simp only [Sched.suspend, Sched.leave, Sched.setTask, Function.update_self]
    exact ⟨.inr trivial, hcancelling hq⟩
  · exact absurd hd (List.nodup_append.mp h.nodup).2.1.not_mem_erase
  · rw [(ht c hc).1] at hstate
    cases hstate
  · simp [Sched.suspend, Sched.leave, Sched.setTask]

theorem Clean.concerns_finish (h : s.Clean) (hn : s.Neat) (hc : c ∈ s.driven) (failed : Bool) :
    Concerns s (.finish c failed) c (s.finish c failed) := by
  have hfree : (s.task c).blocked = none := h.free c (Clean.busy_of_driven hc)
  have hsettled : Concerns s (.finish c failed) c ((s.leave c).settle c) := by
    refine concerns_queued hn _ (fun d hq _ => hq) (fun d hd => List.mem_of_mem_erase hd) rfl (fun d hd => ?_) ?_
      (fun hq => ?_) (fun _ hd => ?_) (fun ht hstate => ?_) fun hfalse => by cases hfalse
    · simp only [Sched.settle, Sched.leave, Sched.setTask, Function.update_of_ne hd]
    · simp only [Sched.settle, Sched.leave, Sched.setTask, Function.update_self]
    · exact absurd hq (h.unqueued_of_driven hc)
    · exact absurd hd (List.nodup_append.mp h.nodup).2.1.not_mem_erase
    · rw [(ht c hc).1] at hstate
      cases hstate
  have hfree' : (((s.leave c).settle c).task c).blocked = none := by
    simp only [Sched.settle, Sched.leave, Sched.setTask, Function.update_self]
    exact hfree
  unfold Sched.finish
  split
  · obtain ⟨hreleased, hfree''⟩ := hsettled.release hn hfree'
    exact (hreleased.mark rfl hn hfree'').1
  · exact (hsettled.mark rfl hn hfree').1

theorem Clean.concerns (h : s.Clean) (hn : s.Neat) (op : Op V) (hop : s.Tidy op) : ∃ c, Concerns s op c (s.perform op) := by
  obtain ⟨hallowed, htidy⟩ := hop
  have hnothing := (wakes_refl s).concerns h hn op
  have hsame : ∀ {s' : Sched V}, s'.task = s.task → s'.ready = s.ready → s'.timers = s.timers → s'.driven = s.driven →
      s'.waiters = s.waiters → ∃ c, Concerns s op c s' :=
    fun htask hready htimers hdriven hwaiters => (wakes_of_same htask hready htimers hdriven hwaiters).concerns h hn op
  cases op with
  | newChannel ch maxsize =>
      simp only [Sched.perform]
      split
      · exact hnothing
      · exact hsame rfl rfl rfl rfl rfl
  | spawn c =>
      simp only [Sched.perform, Sched.spawn]
      split
      · exact hnothing
      · next hstate =>
          refine ⟨c, concerns_known hn _ ⟨hstate, htidy.1⟩ htidy.2 ?_⟩
          rw [(s.ensureMetadata_queues c).1, (s.ensureMetadata_queues c).2, List.append_assoc]
          exact List.perm_middle
  | spawnAfter c wake =>
      simp only [Sched.perform, Sched.spawnAfter]
      split
      · exact hnothing
      · next hstate =>
          refine ⟨c, concerns_known hn _ ⟨hstate, htidy.1⟩ htidy.2 ?_⟩
          rw [(s.ensureMetadata_queues c).1, (s.ensureMetadata_queues c).2]
          exact ((insertTimer_perm wake c _).append_left _).trans List.perm_middle
  | send me ch v nested =>
      simp only [Sched.perform]
      split
      · exact hnothing
      · exact h.concerns_send hn hallowed
  | recv me ch nested =>
      simp only [Sched.perform]
      split
      · exact hnothing
      · exact h.concerns_recv hn hallowed
  | close ch =>
      simp only [Sched.perform]
      split
      · exact hnothing
      · exact (h.wakes_close ch).concerns h hn _
  | wait me target nested => exact h.concerns_wait hn hallowed
  | cancel c => exact ⟨c, h.concerns_cancel hn htidy⟩
  | unwound c timedOut =>
      simp only [Sched.perform]
      split
      · next hc => exact ⟨c, h.concerns_unwound hn hc timedOut⟩
      · exact hnothing
  | callAsync me ch nested =>
      simp only [Sched.perform]
      split
      · exact hnothing
      · exact h.concerns_callAsync hn hallowed
  | openStream ch values ended =>
      simp only [Sched.perform, Sched.openStream, foldl_log]
      split
      · exact hnothing
      · exact hsame rfl rfl rfl rfl rfl
  | closeStream ch =>
      simp only [Sched.perform]
      split
      · exact hnothing
      · exact hsame rfl rfl rfl rfl rfl
  | resume c state =>
      simp only [Sched.perform]
      split
      · exact hnothing
      · next hguard =>
          obtain ⟨hdriven, hstate⟩ := not_or.mp hguard
          exact ⟨c, concerns_setTask hn rfl c _ rfl (fun hq => absurd hq htidy) (fun _ _ hd => absurd hd hdriven)
            fun _ _ hs => absurd hs hstate⟩
  | drainTimers now => exact (s.wakes_drainTimers now).concerns h hn _
  | drainIo late => exact (h.wakes_drainIo late).concerns h hn _
  | take => exact h.concerns_take hn
  | refuse entered => exact h.concerns_refuse hn entered
  | takeTimedOut unwinds => exact h.concerns_takeTimedOut hn unwinds
  | yieldTurn c =>
      simp only [Sched.perform]
      split
      · next hc =>
          refine ⟨c, h.concerns_suspend hn _ hc (fun d hd hne => ?_) fun _ => htidy⟩
          simp only [Sched.suspend, Sched.leave, Sched.setTask, List.append_assoc, List.mem_append,
            List.mem_singleton] at hd
          unfold queued
          rw [List.mem_append]
          tauto
      · exact hnothing
  | sleep c wake =>
      simp only [Sched.perform]
      split
      · next hc =>
          refine ⟨c, h.concerns_suspend hn _ hc (fun d hd hne => ?_) fun _ => htidy⟩
          have hd := ((insertTimer_perm wake c s.timers).append_left s.ready).mem_iff.mp hd
          rw [List.mem_append, List.mem_cons] at hd
          unfold queued
          rw [List.mem_append]
          tauto
      · exact hnothing
  | drop c =>
      simp only [Sched.perform]
      split
      · next hc =>
          refine ⟨c, h.concerns_suspend hn _ hc (fun d hd _ => hd) fun hq => ?_⟩
          exact absurd hq (h.unqueued_of_driven hc)
      · exact hnothing
  | finish c failed =>
      simp only [Sched.perform]
      split
      · next hc => exact ⟨c, h.concerns_finish hn hc failed⟩
      · exact hnothing
  | worker ch step =>
      obtain ⟨chan, events, heq, -⟩ := s.workerStep_eq ch step
      simp only [Sched.perform]
      rw [heq]
      exact hsame rfl rfl rfl rfl rfl
  | pump ch =>
      simp only [Sched.perform, Sched.pump]
      split
      · exact hnothing
      · split
        · exact hsame rfl rfl rfl rfl rfl
        · exact hnothing

end Sched

end Nodus.Scheduling

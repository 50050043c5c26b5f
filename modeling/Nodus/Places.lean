import Mathlib.Data.List.Dedup
import Nodus.Concerns

/-! A coroutine has at most one entry in all the lists that something wakes it from, none while it is running or after it
has ended, and a cancelled task is in none of them ever again. -/

namespace Nodus.Scheduling

variable {V : Type}

namespace Sched

/-- The entries of coroutines in the lists that something wakes them from. -/
def registry (s : Sched V) : List Nat :=
  s.ready ++ s.timers.map Prod.snd ++ s.waiters.map Prod.snd ++
    s.channels.dedup.flatMap fun ch => (s.chan ch).receivers ++ (s.chan ch).senders.map Prod.fst

/-- Every coroutine has one entry at most, and none while it is running or after it has ended. -/
structure OnePlace (s : Sched V) : Prop where
  once : s.registry.Nodup
  idle : ∀ c ∈ s.registry, (s.task c).state = .created ∨ (s.task c).state = .suspended
  allocated : ∀ ch, ch ∉ s.channels → (s.chan ch).receivers = [] ∧ (s.chan ch).senders = []

variable {s s' : Sched V} {c ch : Nat}

/-! ### Runs -/

theorem Neat.perform (hn : s.Neat) (h : s.Clean) (op : Op V) (hop : s.Tidy op) : (s.perform op).Neat := by
  obtain ⟨c, hc⟩ := h.concerns hn op hop
  refine ⟨fun d hd => ?_, hc.waiting hn⟩
  by_cases hdc : d = c
  · subst hdc
    exact hc.2.queued hd
  · rw [(hc.1.task d hdc).state, (hc.1.task d hdc).cancelling]
    exact (hc.1.queued d hd hdc).elim (hn.queued d) h.rests

theorem Turning.perform (ht : s.Turning) (hn : s.Neat) (h : s.Clean) (op : Op V) (hop : s.Tidy op) (hcalm : s.Calm op) :
    (s.perform op).Turning := by
  obtain ⟨c, hc⟩ := h.concerns hn op hop
  intro d hd
  by_cases hdc : d = c
  · subst hdc
    exact hc.2.turning hcalm ht hd
  · rw [(hc.1.task d hdc).state, (hc.1.task d hdc).cancelling]
    exact ht d (hc.1.driven d hd hdc)

theorem Turning.ended (ht : s.Turning) (hn : s.Neat) (h : s.Clean) (op : Op V) (hop : s.Tidy op) (hcalm : s.Calm op)
    (hstate : (s.task c).state = .finished) (hcancelling : (s.task c).cancelling = false) :
    ((s.perform op).task c).state = .finished ∧ ((s.perform op).task c).cancelling = false := by
  obtain ⟨d, hd⟩ := h.concerns hn op hop
  by_cases hdc : c = d
  · subst hdc
    exact hd.2.ended hcalm ht hstate hcancelling
  · rw [(hd.1.task c hdc).state, (hd.1.task c hdc).cancelling]
    exact ⟨hstate, hcancelling⟩

theorem Neat.run (hn : s.Neat) (h : s.Clean) (ops : List (Op V)) (hops : s.AllTidy ops) :
    (s.run ops).Neat ∧ (s.run ops).Clean := by
  induction ops generalizing s with
  | nil => exact ⟨hn, h⟩
  | cons op ops ih => exact ih (hn.perform h op hops.1) (h.perform op hops.1.1) hops.2

theorem Fresh.neat (h : s.Fresh) : s.Neat := by
  refine ⟨fun c hc => ?_, fun p hp => ?_⟩
  · rw [queued, h.ready, h.timers] at hc
    cases hc
  · rw [h.waiters] at hp
    cases hp

theorem Clean.parked_on (h : s.Clean) (hc : c ∈ (s.chan ch).receivers ++ (s.chan ch).senders.map Prod.fst) :
    ∃ b, (s.task c).blocked = some b ∧ (b = .recv ch ∨ b = .io ch ∨ b = .send ch) := by
  rcases List.mem_append.mp hc with hc | hc
  · rcases (h.received ch c).mp hc with hb | hb
    · exact ⟨_, hb, .inl rfl⟩
    · exact ⟨_, hb, .inr (.inl rfl)⟩
  · exact ⟨_, (h.sent ch c).mp hc, .inr (.inr rfl)⟩

theorem Neat.onePlace (hn : s.Neat) (h : s.Clean) : s.OnePlace := by
  have hqueued : ∀ c ∈ s.queued, (s.task c).blocked = none := fun c hc => h.free c (List.mem_append_left _ hc)
  have hwaiting : ∀ c ∈ s.waiters.map Prod.snd, ∃ target, (s.task c).blocked = some (.wait target) := by
    intro c hc
    obtain ⟨p, hp, rfl⟩ := List.mem_map.mp hc
    exact ⟨p.1, hn.waiting p hp⟩
  have hparked : ∀ c ∈ s.channels.dedup.flatMap fun ch => (s.chan ch).receivers ++ (s.chan ch).senders.map Prod.fst,
      ∃ ch b, (s.task c).blocked = some b ∧ (b = .recv ch ∨ b = .io ch ∨ b = .send ch) := by
    intro c hc
    obtain ⟨ch, -, hc⟩ := List.mem_flatMap.mp hc
    exact ⟨ch, h.parked_on hc⟩
  refine ⟨?_, fun c hc => ?_, h.allocated⟩
  · unfold registry
    rw [List.nodup_append, List.nodup_append, List.nodup_flatMap]
    refine ⟨⟨(List.nodup_append.mp h.nodup).1, h.waiters, fun a ha b hb hab => ?_⟩, ⟨fun ch _ => ?_, ?_⟩,
      fun a ha b hb hab => ?_⟩
    · obtain ⟨target, htarget⟩ := hwaiting b hb
      rw [← hab, hqueued a ha] at htarget
      cases htarget
    · rw [List.nodup_append]
      exact ⟨h.receivers ch, h.senders ch, fun a ha b hb hab => h.receiver_not_sender ha (hab ▸ hb)⟩
    · refine (List.nodup_dedup s.channels).imp fun hne a ha hb => hne ?_
      -- a coroutine is parked on one channel
      obtain ⟨b, hb₁, hch⟩ := h.parked_on ha
      obtain ⟨b', hb₂, hch'⟩ := h.parked_on hb
      rw [hb₁] at hb₂
      cases hb₂
      rcases hch with rfl | rfl | rfl
      · simpa using hch'
      · simpa using hch'
      · simpa using hch'
    · obtain ⟨ch, b', hb', hkind⟩ := hparked b hb
      subst hab
      rcases List.mem_append.mp ha with ha | ha
      · rw [hqueued a ha] at hb'
        cases hb'
      · obtain ⟨target, htarget⟩ := hwaiting a ha
        rw [hb'] at htarget
        cases htarget
        simp at hkind
  · unfold registry at hc
    rw [List.mem_append, List.mem_append] at hc
    rcases hc with (hc | hc) | hc
    · exact (hn.queued c hc).1
    · obtain ⟨target, htarget⟩ := hwaiting c hc
      exact (h.rests (by simp [htarget])).1
    · obtain ⟨ch, b, hb, -⟩ := hparked c hc
      exact (h.rests (by simp [hb])).1

/-- In every state of every run whose operations are all tidy. -/
theorem placed_once (hfresh : s.Fresh) (ops : List (Op V)) (hops : s.AllTidy ops) : (s.run ops).OnePlace := by
  obtain ⟨hneat, hclean⟩ := hfresh.neat.run hfresh.clean ops hops
  exact hneat.onePlace hclean

/-- A task waits for another and is woken when that one returns. -/
theorem waiter_placed : ((empty : Sched Nat).run
      [.spawn 0, .spawn 1, .take, .wait (some 0) 1 false, .take, .finish 1 false]).ready = [0] ∧
    ((empty : Sched Nat).run [.spawn 0, .spawn 1, .take, .wait (some 0) 1 false, .take, .finish 1 false]).OnePlace := by
  refine ⟨by decide, placed_once empty_fresh _ ?_⟩
  have hspawn : ∀ (s : Sched Nat) (c : Nat), s.Unplaced c → s.Allowed (.spawn c) := fun s c hc _ => hc
  refine ⟨⟨hspawn _ _ ⟨by decide, rfl, by decide, fun hk => by cases hk⟩, by decide, by decide⟩,
    ⟨hspawn _ _ ⟨by decide, rfl, by decide, fun hk => by cases hk⟩, by decide, by decide⟩, ⟨trivial, trivial⟩,
    ⟨fun _ _ c hc _ _ => ?_, trivial⟩, ⟨trivial, trivial⟩, ⟨trivial, trivial⟩, trivial⟩
  cases hc
  exact ⟨by decide, by decide⟩

/-- A task waits for another, which cancels it. -/
def cancelledWaiter : Sched Nat :=
  empty.run [.spawn 0, .spawn 1, .take, .wait (some 0) 1 false, .take, .cancel 0, .unwound 0 false]

/-- It has ended, and is still on the list of the other. -/
theorem cancelled_waiter_listed : (cancelledWaiter.task 0).state = .finished ∧ 0 ∈ cancelledWaiter.registry ∧
    ¬ cancelledWaiter.OnePlace := by
  refine ⟨by decide, by decide, fun hplace => ?_⟩
  have hidle := hplace.idle 0 (by decide)
  revert hidle
  decide

/-- A coroutine that is spawned twice has two entries. -/
example : ¬ ((empty : Sched Nat).run [.spawn 0, .spawn 0]).OnePlace := by
  intro hplace
  have honce := hplace.once
  revert honce
  decide

/-! ### Cancelled tasks -/

/-- A cancel of the task returns: at once if the task has not begun, and when its `finally` blocks are done otherwise. -/
def CancelReturns (s : Sched V) (c : Nat) : Op V → Prop
  | .cancel d => d = c ∧ (s.task c).state = .created ∧ (s.task c).known = true ∧ (s.task c).cancelling = false
  | .unwound d timedOut => d = c ∧ (s.task c).cancelling = true ∧ timedOut = false
  | _ => False

/-- The task has ended, no list has an entry for it, and no loop is resuming it. -/
structure Gone (s : Sched V) (c : Nat) : Prop where
  finished : (s.task c).state = .finished
  notCancelling : (s.task c).cancelling = false
  ready : c ∉ s.ready
  timers : c ∉ s.timers.map Prod.snd
  waiters : c ∉ s.waiters.map Prod.snd
  receivers : ∀ ch, c ∉ (s.chan ch).receivers
  senders : ∀ ch, c ∉ (s.chan ch).senders.map Prod.fst
  driven : c ∉ s.driven

theorem Neat.gone (hn : s.Neat) (h : s.Clean) (ht : s.Turning) (hstate : (s.task c).state = .finished)
    (hcancelling : (s.task c).cancelling = false) : s.Gone c := by
  have hrests : ¬ ((s.task c).state = .created ∨ (s.task c).state = .suspended) := by
    rw [hstate]
    decide
  have hfree : (s.task c).blocked = none := by
    by_contra hne
    exact hrests (h.rests hne).1
  have hqueued : c ∉ s.queued := fun hq => hrests (hn.queued c hq).1
  have hchannel : ∀ ch, c ∉ (s.chan ch).receivers ++ (s.chan ch).senders.map Prod.fst := by
    intro ch hc
    obtain ⟨b, hb, -⟩ := h.parked_on hc
    rw [hfree] at hb
    cases hb
  refine ⟨hstate, hcancelling, fun hr => hqueued (List.mem_append_left _ hr), fun hr => hqueued (List.mem_append_right _ hr),
    fun hw => ?_, fun ch hr => hchannel ch (List.mem_append_left _ hr), fun ch hs => hchannel ch (List.mem_append_right _ hs),
    fun hd => ?_⟩
  · obtain ⟨p, hp, rfl⟩ := List.mem_map.mp hw
    have hb := hn.waiting p hp
    rw [hfree] at hb
    cases hb
  · have hrunning := (ht c hd).1
    rw [hstate] at hrunning
    cases hrunning

theorem Neat.run_calm (hn : s.Neat) (h : s.Clean) (ht : s.Turning) (ops : List (Op V)) (hops : s.AllCalm ops) :
    (s.run ops).Neat ∧ (s.run ops).Clean ∧ (s.run ops).Turning ∧
      ∀ c, (s.task c).state = .finished → (s.task c).cancelling = false →
        ((s.run ops).task c).state = .finished ∧ ((s.run ops).task c).cancelling = false := by
  induction ops generalizing s with
  | nil => exact ⟨hn, h, ht, fun _ hstate hcancelling => ⟨hstate, hcancelling⟩⟩
  | cons op ops ih =>
      obtain ⟨htidy, hcalm, hops⟩ := hops
      obtain ⟨hn', h', ht', hended⟩ := ih (hn.perform h op htidy) (h.perform op htidy.1) (ht.perform hn h op htidy hcalm) hops
      refine ⟨hn', h', ht', fun c hstate hcancelling => ?_⟩
      obtain ⟨hstate', hcancelling'⟩ := ht.ended hn h op htidy hcalm hstate hcancelling
      exact hended c hstate' hcancelling'

theorem allCalm_append {ops ops' : List (Op V)} :
    s.AllCalm (ops ++ ops') ↔ s.AllCalm ops ∧ (s.run ops).AllCalm ops' := by
  induction ops generalizing s with
  | nil => exact (true_and _).symm.to_iff
  | cons op ops ih => simp only [List.cons_append, AllCalm, ih, and_assoc, run, List.foldl_cons]

theorem Fresh.turning (h : s.Fresh) : s.Turning := by
  intro c hc
  rw [h.driven] at hc
  cases hc

theorem releaseWaiters_task (s : Sched V) (target c : Nat) :
    ((s.releaseWaiters target).task c).state = (s.task c).state ∧
      ((s.releaseWaiters target).task c).cancelling = (s.task c).cancelling := by
  rw [releaseWaiters_eq]
  exact ⟨unblocked_state, unblocked_cancelling⟩

theorem markCompleted_task (s : Sched V) (target c : Nat) :
    ((s.markCompleted target).task c).state = (s.task c).state ∧
      ((s.markCompleted target).task c).cancelling = (s.task c).cancelling := by
  unfold markCompleted
  split
  · exact ⟨rfl, rfl⟩
  · obtain ⟨hstate, hcancelling⟩ := (s.setTask target fun t => { t with completed := true }).releaseWaiters_task target c
    rw [hstate, hcancelling]
    by_cases hc : c = target
    · subst hc
      simp only [setTask, Function.update_self, and_self]
    · simp only [setTask, Function.update_of_ne hc, and_self]

theorem settle_ended (s : Sched V) (c : Nat) :
    (((((s.settle c).markCompleted c).releaseWaiters c)).task c).state = .finished ∧
      (((((s.settle c).markCompleted c).releaseWaiters c)).task c).cancelling = false := by
  obtain ⟨hstate, hcancelling⟩ := ((s.settle c).markCompleted c).releaseWaiters_task c c
  obtain ⟨hstate', hcancelling'⟩ := (s.settle c).markCompleted_task c c
  rw [hstate, hcancelling, hstate', hcancelling']
  simp only [settle, setTask, Function.update_self, and_self]

theorem cancelReturns_ended {op : Op V} (hc : s.CancelReturns c op) :
    ((s.perform op).task c).state = .finished ∧ ((s.perform op).task c).cancelling = false := by
  cases op with
  | cancel d =>
      obtain ⟨rfl, hstate, hknown, hcancelling⟩ := hc
      have hperform : s.perform (.cancel d) = (((s.unpark d).settle d).markCompleted d).releaseWaiters d := by
        simp only [perform, cancel]
        rw [if_neg, if_pos hstate]
        simp [hstate, hknown, hcancelling]
      rw [hperform]
      exact (s.unpark d).settle_ended d
  | unwound d timedOut =>
      obtain ⟨rfl, hcancelling, rfl⟩ := hc
      have hperform : s.perform (.unwound d false) = ((s.settle d).markCompleted d).releaseWaiters d := by
        simp only [perform, unwound, hcancelling, if_true, Bool.false_eq_true, if_false]
      rw [hperform]
      exact s.settle_ended d
  | _ => exact absurd hc not_false

/-- After the cancel of a task has returned the task is gone, in every state the run reaches, if every operation is tidy
and calm. -/
theorem cancelled_gone (hfresh : s.Fresh) (ops ops' : List (Op V)) (op : Op V) (hcalm : s.AllCalm (ops ++ op :: ops'))
    (c : Nat) (hcancel : (s.run ops).CancelReturns c op) : (s.run (ops ++ op :: ops')).Gone c := by
  obtain ⟨hbefore, htidy, hcalm, hafter⟩ := allCalm_append.mp hcalm
  obtain ⟨hn, h, ht, -⟩ := hfresh.neat.run_calm hfresh.clean hfresh.turning ops hbefore
  obtain ⟨hstate, hcancelling⟩ := cancelReturns_ended hcancel
  obtain ⟨hn', h', ht', hended⟩ := (hn.perform h op htidy).run_calm (h.perform op htidy.1) (ht.perform hn h op htidy hcalm)
    ops' hafter
  have hrun : s.run (ops ++ op :: ops') = ((s.run ops).perform op).run ops' := by
    unfold run
    rw [List.foldl_append, List.foldl_cons]
  rw [hrun]
  exact hn'.gone h' ht' (hended c hstate hcancelling).1 (hended c hstate hcancelling).2

/-- A task is asleep when it is cancelled. -/
theorem cancelled_sleeper : ((empty : Sched Nat).run
    ([.newChannel 0 0, .spawn 0, .take, .sleep 0 5, .cancel 0] ++ .unwound 0 false :: [.send none 0 7 false])).Gone 0 := by
  refine cancelled_gone empty_fresh _ _ _ ?_ 0 ⟨rfl, by decide, rfl⟩
  have hcalm : ∀ (s : Sched Nat) (op : Op Nat), (∀ d, op ≠ .cancel d) → op.caller = none → s.Calm op := by
    intro s op hop hcaller
    refine ⟨fun d hd => absurd hd (hop d), fun d hd => ?_⟩
    rw [hcaller] at hd
    cases hd
  have hasleep : (((empty : Sched Nat).run [.newChannel 0 0, .spawn 0, .take, .sleep 0 5]).task 0).blocked = none := by
    decide
  refine ⟨⟨trivial, trivial⟩, hcalm _ _ (fun _ he => by cases he) rfl,
    ⟨fun _ => ⟨by decide, rfl, by decide, fun hk => by cases hk⟩, by decide, by decide⟩,
    hcalm _ _ (fun _ he => by cases he) rfl, ⟨trivial, trivial⟩, hcalm _ _ (fun _ he => by cases he) rfl,
    ⟨trivial, by decide⟩, hcalm _ _ (fun _ he => by cases he) rfl, ⟨trivial, fun _ hb => absurd (hasleep.symm.trans hb) (by simp)⟩, ?_,
    ⟨trivial, trivial⟩, hcalm _ _ (fun _ he => by cases he) rfl,
    ⟨fun _ _ hfull => absurd hfull (by decide), trivial⟩, hcalm _ _ (fun _ he => by cases he) rfl, trivial⟩
  refine ⟨fun d hd => ?_, fun d hd => by cases hd⟩
  cases hd
  decide

/-- A `finally` block of a task that is cancelled receives from a channel. -/
def parkedAgain : List (Op Nat) := [.newChannel 0 0, .spawn 0, .take, .yieldTurn 0, .cancel 0, .recv (some 0) 0 true]

/-- The cancel returns with the task on the list of the channel, and the next value that is sent goes to it. -/
theorem cancelled_receiver : (empty.run parkedAgain).CancelReturns 0 (.unwound 0 false) ∧
    0 ∈ ((empty.run (parkedAgain ++ [.unwound 0 false])).chan 0).receivers ∧
    ¬ (empty.run (parkedAgain ++ .unwound 0 false :: [])).Gone 0 ∧
    Event.woken 0 0 (some 7) ∈ (empty.run (parkedAgain ++ .unwound 0 false :: [.send none 0 7 false])).events ∧
    ((empty.run (parkedAgain ++ .unwound 0 false :: [.send none 0 7 false])).chan 0).queue = [] := by
  refine ⟨⟨rfl, by decide, rfl⟩, by decide, fun hgone => ?_, by decide, by decide⟩
  have hreceivers := hgone.receivers 0
  revert hreceivers
  decide

end Sched

end Nodus.Scheduling

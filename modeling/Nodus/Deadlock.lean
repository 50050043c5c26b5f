import Nodus.Registries

/-! When `run_loop` returns, when it reports a deadlock, and whom it names. -/

namespace Nodus.Scheduling

variable {V : Type}

def isWait : Blocked → Bool
  | .wait _ => true
  | _ => false

namespace Sched

/-- Nothing is ready, no timer is pending, and no channel with a worker. -/
structure Idle (s : Sched V) : Prop where
  ready : s.ready = []
  timers : s.timers = []
  ioChannels : s.ioChannels = []

/-- The coroutine is parked in `send`, `recv` or `wait`. -/
def parked (s : Sched V) (c : Nat) : Bool := (s.task c).blocked.any fun b => isRecv b || isSend b || isWait b

/-- A pass of the loop reports what there is to report: it ends the loop only if no coroutine that was spawned is
parked, it is a deadlock exactly if the loop is idle and one is parked, and every one of them is named once. -/
structure Exact (pass : Head × Sched V) : Prop where
  returns : pass.1 = .returns → ∀ c ∈ pass.2.tasks, pass.2.parked c = false
  deadlock : (∃ report, pass.1 = .deadlock report) ↔ pass.2.Idle ∧ ∃ c ∈ pass.2.tasks, pass.2.parked c = true
  names : ∀ report, pass.1 = .deadlock report →
    (report.recvNames ++ report.sendNames).Perm ((pass.2.tasks.filter pass.2.parked).map fun c => (pass.2.task c).name)

variable {s : Sched V}

theorem parked_iff {c : Nat} : s.parked c = true ↔
    (∃ ch, (s.task c).blocked = some (.recv ch)) ∨ (∃ ch, (s.task c).blocked = some (.send ch)) ∨
      ∃ target, (s.task c).blocked = some (.wait target) := by
  unfold parked
  cases hb : (s.task c).blocked with
  | none => simp
  | some b =>
      cases b with
      | send ch => simp [isRecv, isSend, isWait]
      | recv ch => simp [isRecv, isSend, isWait]
      | io ch => simp [isRecv, isSend, isWait]
      | wait target => simp [isRecv, isSend, isWait]

theorem Clean.spawned (h : s.Clean) {c : Nat} (hc : s.parked c = true) : c ∈ s.tasks := by
  apply h.owned
  rcases parked_iff.mp hc with ⟨_, hb⟩ | ⟨_, hb⟩ | ⟨_, hb⟩
  · simp [hb]
  · simp [hb]
  · simp [hb]

theorem Clean.blockedNames (h : s.Clean) (reason : Blocked → Bool) :
    s.blockedNames reason = (s.tasks.filter fun c => (s.task c).blocked.any reason).map fun c => (s.task c).name := by
  unfold Sched.blockedNames
  congr 1
  refine List.filter_congr fun c _ => ?_
  cases hb : (s.task c).blocked with
  | none => simp
  | some b =>
      have hstate := h.suspended c (by simp [hb])
      simp [hstate]

theorem filter_append_perm {α : Type} (p q : α → Bool) (l : List α) (hpq : ∀ x ∈ l, p x = true → q x = false) :
    (l.filter p ++ l.filter q).Perm (l.filter fun x => p x || q x) := by
  induction l with
  | nil => exact List.Perm.nil
  | cons x l ih =>
      have ih := ih fun y hy => hpq y (List.mem_cons_of_mem _ hy)
      cases hp : p x with
      | true =>
          have hq := hpq x List.mem_cons_self hp
          simpa [List.filter_cons, hp, hq] using ih
      | false =>
          cases hq : q x with
          | true =>
              simp only [List.filter_cons, hp, hq, Bool.false_or, if_true, Bool.false_eq_true, if_false]
              exact List.perm_middle.trans (ih.cons x)
          | false => simpa [List.filter_cons, hp, hq] using ih

theorem Clean.reported (h : s.Clean) : (s.blockedNames isRecv ++ s.blockedNames isSend).Perm
    ((s.tasks.filter fun c => (s.task c).blocked.any fun b => isRecv b || isSend b).map fun c => (s.task c).name) := by
  rw [h.blockedNames, h.blockedNames, ← List.map_append]
  apply List.Perm.map
  have hperm := filter_append_perm (fun c => (s.task c).blocked.any isRecv) (fun c => (s.task c).blocked.any isSend)
    s.tasks fun c _ hc => ?_
  · refine hperm.trans (List.Perm.of_eq (List.filter_congr fun c _ => ?_))
    cases (s.task c).blocked with
    | none => rfl
    | some b => rfl
  · cases hb : (s.task c).blocked with
    | none => rfl
    | some b =>
        rw [hb] at hc
        cases b with
        | recv ch => rfl
        | send ch => cases hc
        | io ch => cases hc
        | wait target => cases hc

theorem Clean.reported_iff (h : s.Clean) :
    (s.blockedNames isRecv ++ s.blockedNames isSend).Perm
      ((s.tasks.filter s.parked).map fun c => (s.task c).name) ↔
      ∀ c target, (s.task c).blocked ≠ some (.wait target) := by
  constructor
  · intro hperm c target hc
    have hlen := (h.reported.symm.trans hperm).length_eq
    rw [List.length_map, List.length_map] at hlen
    have hsub : (s.tasks.filter fun c => (s.task c).blocked.any fun b => isRecv b || isSend b).Sublist
        (s.tasks.filter s.parked) := by
      refine List.monotone_filter_right _ fun d hd => ?_
      unfold parked
      cases hb : (s.task d).blocked with
      | none => simp [hb] at hd
      | some b =>
          rw [hb] at hd
          simp only [Option.any_some] at hd ⊢
          rw [hd, Bool.true_or]
    have heq := hsub.eq_of_length hlen
    have hmem : c ∈ s.tasks.filter s.parked := by
      have hp : s.parked c = true := parked_iff.mpr (.inr (.inr ⟨target, hc⟩))
      exact List.mem_filter.mpr ⟨h.spawned hp, hp⟩
    rw [← heq, List.mem_filter, hc] at hmem
    simp [isRecv, isSend] at hmem
  · intro hnone
    refine h.reported.trans (List.Perm.of_eq ?_)
    congr 1
    refine List.filter_congr fun c _ => ?_
    unfold parked
    cases hb : (s.task c).blocked with
    | none => rfl
    | some b =>
        cases b with
        | wait target => exact absurd hb (hnone c target)
        | recv ch => rfl
        | send ch => rfl
        | io ch => rfl

theorem Clean.channelsEmpty_iff (h : s.Clean) : s.recvChannels = [] ∧ s.sendChannels = [] ↔
    ∀ c b, (s.task c).blocked = some b → isRecv b = false ∧ isSend b = false := by
  constructor
  · rintro ⟨hr, hs⟩ c b hb
    cases b with
    | recv ch =>
        have hmem := (h.recvChannels ch).mpr ⟨c, hb⟩
        rw [hr] at hmem
        cases hmem
    | send ch =>
        have hmem := (h.sendChannels ch).mpr ⟨c, hb⟩
        rw [hs] at hmem
        cases hmem
    | io ch => exact ⟨rfl, rfl⟩
    | wait target => exact ⟨rfl, rfl⟩
  · intro hnone
    constructor
    · refine List.eq_nil_iff_forall_not_mem.mpr fun ch hch => ?_
      obtain ⟨c, hc⟩ := (h.recvChannels ch).mp hch
      cases (hnone c _ hc).1
    · refine List.eq_nil_iff_forall_not_mem.mpr fun ch hch => ?_
      obtain ⟨c, hc⟩ := (h.sendChannels ch).mp hch
      cases (hnone c _ hc).2

theorem Clean.parked_iff_waits (h : s.Clean) (hr : s.recvChannels = []) (hs : s.sendChannels = []) {c : Nat} :
    s.parked c = true ↔ ∃ target, (s.task c).blocked = some (.wait target) := by
  have hnone := h.channelsEmpty_iff.mp ⟨hr, hs⟩
  rw [parked_iff]
  constructor
  · rintro (⟨ch, hb⟩ | ⟨ch, hb⟩ | hb)
    · cases (hnone c _ hb).1
    · cases (hnone c _ hb).2
    · exact hb
  · exact fun hb => .inr (.inr hb)

theorem Clean.head (h : s.Clean) (now : Nat) (late : Nat → List (WorkerStep V)) : (s.head now late).2.Clean := by
  have hdrained := (h.drainTimers now).drainIo late
  unfold Sched.head
  simp only []
  split
  · exact h
  · split
    · exact hdrained
    · split
      · exact hdrained
      · split
        · exact hdrained
        · exact hdrained

theorem exact_of_busy {pass : Head × Sched V} (hpass : pass.1 = .turns ∨ pass.1 = .polls) (hbusy : ¬ pass.2.Idle) :
    Exact pass := by
  refine ⟨fun hp => ?_, ⟨fun ⟨_, hp⟩ => ?_, fun hp => absurd hp.1 hbusy⟩, fun _ hp => ?_⟩
  all_goals
    rw [hp] at hpass
    rcases hpass with hpass | hpass
    · cases hpass
    · cases hpass

theorem Clean.exact_returns (h : s.Clean) (hr : s.recvChannels = []) (hs : s.sendChannels = []) :
    Exact (.returns, s) ↔ ∀ c target, (s.task c).blocked ≠ some (.wait target) := by
  have hparked := fun c => h.parked_iff_waits hr hs (c := c)
  constructor
  · intro hexact c target hc
    have hp := (hparked c).mpr ⟨target, hc⟩
    have hfalse := hexact.returns rfl c (h.spawned hp)
    rw [hp] at hfalse
    cases hfalse
  · intro hnone
    have hfree : ∀ c, s.parked c = false := by
      intro c
      rw [← Bool.not_eq_true, hparked]
      exact fun ⟨target, hb⟩ => hnone c target hb
    refine ⟨fun _ c _ => hfree c, ⟨fun ⟨_, hp⟩ => (by cases hp), fun ⟨_, c, _, hp⟩ => ?_⟩, fun _ hp => (by cases hp)⟩
    rw [hfree c] at hp
    cases hp

theorem Clean.exact_deadlock (h : s.Clean) (hidle : s.Idle) (hchannels : ¬ (s.recvChannels = [] ∧ s.sendChannels = [])) :
    Exact (.deadlock ⟨s.blockedNames isRecv, s.blockedNames isSend⟩, s) ↔
      ∀ c target, (s.task c).blocked ≠ some (.wait target) := by
  rw [← h.reported_iff]
  constructor
  · exact fun hexact => hexact.names _ rfl
  · intro hperm
    refine ⟨fun hp => (by cases hp), ⟨fun _ => ⟨hidle, ?_⟩, fun _ => ⟨_, rfl⟩⟩, fun report hp => ?_⟩
    · rw [h.channelsEmpty_iff] at hchannels
      push Not at hchannels
      obtain ⟨c, b, hb, hne⟩ := hchannels
      have hp : s.parked c = true := by
        unfold parked
        rw [hb, Option.any_some]
        cases hr : isRecv b with
        | true => rfl
        | false =>
            have hsend : isSend b = true := by simpa using hne hr
            simp [hsend]
      exact ⟨c, h.spawned hp, hp⟩
    · cases hp
      exact hperm

theorem Clean.exact_head (h : s.Clean) (now : Nat) (late : Nat → List (WorkerStep V)) : Exact (s.head now late) ↔
    ((s.head now late).2.Idle → ∀ c target, ((s.head now late).2.task c).blocked ≠ some (.wait target)) := by
  have hdrained := (h.drainTimers now).drainIo late
  unfold Sched.head
  simp only []
  split
  · next hcontinues =>
      unfold continues at hcontinues
      push Not at hcontinues
      obtain ⟨hready, htimers, hio, hr, hs, hwaiters⟩ := hcontinues
      have hidle : s.Idle := ⟨hready, htimers, hio⟩
      rw [h.exact_returns hr hs]
      exact ⟨fun hnone _ => hnone, fun hnone => hnone hidle⟩
  · split
    · next hready =>
        have hbusy : ¬ ((s.drainTimers now).drainIo late).Idle := fun hidle => hready hidle.ready
        exact ⟨fun _ hidle => absurd hidle hbusy, fun _ => exact_of_busy (.inl rfl) hbusy⟩
    · next hready =>
        have hready := not_not.mp hready
        split
        · next hempty =>
            obtain ⟨htimers, hio, hr, hs⟩ := hempty
            have hidle : ((s.drainTimers now).drainIo late).Idle := ⟨hready, htimers, hio⟩
            rw [hdrained.exact_returns hr hs]
            exact ⟨fun hnone _ => hnone, fun hnone => hnone hidle⟩
        · next hempty =>
            split
            · next hpending =>
                have hbusy : ¬ ((s.drainTimers now).drainIo late).Idle := fun hidle =>
                  hpending.elim (fun ht => ht hidle.timers) fun hi => hi hidle.ioChannels
                exact ⟨fun _ hidle => absurd hidle hbusy, fun _ => exact_of_busy (.inr rfl) hbusy⟩
            · next hpending =>
                push Not at hpending
                obtain ⟨htimers, hio⟩ := hpending
                have hidle : ((s.drainTimers now).drainIo late).Idle := ⟨hready, htimers, hio⟩
                rw [hdrained.exact_deadlock hidle fun hchannels => hempty ⟨htimers, hio, hchannels.1, hchannels.2⟩]
                exact ⟨fun hnone _ => hnone, fun hnone => hnone hidle⟩

/-- The scheduler of a program that has not spawned anything yet. -/
structure Fresh (s : Sched V) : Prop where
  tasks : s.tasks = []
  channels : s.channels = []
  ready : s.ready = []
  timers : s.timers = []
  driven : s.driven = []
  current : s.current = none
  waiters : s.waiters = []
  ioChannels : s.ioChannels = []
  recvChannels : s.recvChannels = []
  sendChannels : s.sendChannels = []
  blocked : ∀ c, (s.task c).blocked = none
  chan : ∀ ch, s.chan ch = {}
  events : s.events = []

theorem Fresh.clean (h : s.Fresh) : s.Clean := by
  have hbusy : s.busy = [] := by
    unfold busy
    rw [h.ready, h.timers, h.driven]
    rfl
  have hnone : ∀ c b, (s.task c).blocked ≠ some b := fun c b hb => by simp [h.blocked c] at hb
  refine ⟨?_, fun c _ => h.blocked c, fun c hc => ?_, fun c hc => ?_, fun c hc => absurd (h.blocked c) hc,
    fun c _ => h.blocked c, fun c hc => ?_, fun ch => ?_, fun ch c => ?_, fun ch => ?_, fun ch c => ?_,
    fun ch c => ⟨fun hb => absurd hb (hnone c _), fun hb => absurd hb (hnone c _)⟩, fun ch _ => by simp [h.chan], ?_,
    fun p hp => ?_, fun t c hb => absurd hb (hnone c _), fun p hp => ?_, fun ch => ?_, fun ch => ?_⟩
  · rw [hbusy]
    exact List.nodup_nil
  · rw [hbusy] at hc
    rcases hc with hc | hc
    · cases hc
    · exact absurd (h.blocked c) hc
  · rw [h.tasks] at hc
    cases hc
  · rw [h.current] at hc
    cases hc
  · simp [h.chan]
  · simp [h.chan, hnone]
  · simp [h.chan]
  · simp [h.chan, hnone]
  · rw [h.waiters]
    exact List.nodup_nil
  · rw [h.waiters] at hp
    cases hp
  · rw [h.waiters] at hp
    cases hp
  · simp [h.recvChannels, hnone]
  · simp [h.sendChannels, hnone]

/-- What happens between the passes of a loop is allowed. -/
def LoopAllowed (s : Sched V) : List (Pass V) → Prop
  | [] => True
  | pass :: rest =>
      (s.head pass.now pass.late).2.AllAllowed pass.ops ∧
        ((s.head pass.now pass.late).2.run pass.ops).LoopAllowed rest

theorem Clean.runLoop (h : s.Clean) (passes : List (Pass V)) (hpasses : s.LoopAllowed passes) :
    ∀ pass ∈ s.runLoop passes, Exact pass ↔
      (pass.2.Idle → ∀ c target, (pass.2.task c).blocked ≠ some (.wait target)) := by
  induction passes generalizing s with
  | nil => exact fun pass hpass => by cases hpass
  | cons around rest ih =>
      have hhead := h.exact_head around.now around.late
      have hrest := ih ((h.head around.now around.late).run around.ops hpasses.1) hpasses.2
      intro pass hpass
      have hpass : pass = s.head around.now around.late ∨
          pass ∈ ((s.head around.now around.late).2.run around.ops).runLoop rest := by
        unfold Sched.runLoop at hpass
        simp only [] at hpass
        split at hpass
        · exact List.mem_cons.mp hpass
        · exact List.mem_cons.mp hpass
        · exact .inl (List.mem_singleton.mp hpass)
        · exact .inl (List.mem_singleton.mp hpass)
      rcases hpass with rfl | hpass
      · exact hhead
      · exact hrest pass hpass

/-- Every pass of every `run_loop` is exact, unless it finds nothing to do while a coroutine is parked in `wait`. -/
theorem deadlock_exact {s : Sched V} (hfresh : s.Fresh) (ops : List (Op V)) (hops : s.AllAllowed ops)
    (passes : List (Pass V)) (hpasses : (s.run ops).LoopAllowed passes) :
    ∀ pass ∈ (s.run ops).runLoop passes, Exact pass ↔
      (pass.2.Idle → ∀ c target, (pass.2.task c).blocked ≠ some (.wait target)) :=
  (hfresh.clean.run ops hops).runLoop passes hpasses

/-- A scheduler with nothing in it. -/
def empty : Sched V := { task := fun _ => {}, chan := fun _ => {} }

theorem empty_fresh : (empty : Sched V).Fresh :=
  ⟨rfl, rfl, rfl, rfl, rfl, rfl, rfl, rfl, rfl, rfl, fun _ => rfl, fun _ => rfl, rfl⟩

/-- A coroutine that receives from a channel nobody sends to: the second pass reports it. -/
theorem recv_deadlock : (((empty : Sched Nat).run [.newChannel 0 0, .spawn 0]).runLoop
      [{ ops := [.take, .recv (some 0) 0 false] }, {}]).map Prod.fst = [.turns, .deadlock ⟨["<anonymous>"], []⟩] ∧
    ∀ pass ∈ ((empty : Sched Nat).run [.newChannel 0 0, .spawn 0]).runLoop
      [{ ops := [.take, .recv (some 0) 0 false] }, {}], Exact pass ↔
        (pass.2.Idle → ∀ c target, (pass.2.task c).blocked ≠ some (.wait target)) := by
  refine ⟨by decide, deadlock_exact empty_fresh _ ?_ _ ?_⟩
  · exact ⟨trivial, fun _ => ⟨by decide, rfl, by decide, fun hk => by cases hk⟩, trivial⟩
  · refine ⟨⟨trivial, fun _ _ c hc => ?_, trivial⟩, trivial, trivial⟩
    cases hc
    exact ⟨by decide, by decide⟩

/-- Two tasks that wait for each other: the loop returns, and both are parked. -/
theorem mutual_wait_returns : ∃ pass ∈ ((empty : Sched Nat).run [.spawn 0, .spawn 1]).runLoop
    [{ ops := [.take, .wait (some 0) 1 false] }, { ops := [.take, .wait (some 1) 0 false] }, {}],
    pass.1 = .returns ∧ pass.2.tasks = [0, 1] ∧ pass.2.parked 0 = true ∧ pass.2.parked 1 = true ∧ ¬ Exact pass := by
  have hpass : ∃ pass ∈ ((empty : Sched Nat).run [.spawn 0, .spawn 1]).runLoop
      [{ ops := [.take, .wait (some 0) 1 false] }, { ops := [.take, .wait (some 1) 0 false] }, {}],
      pass.1 = .returns ∧ pass.2.tasks = [0, 1] ∧ pass.2.parked 0 = true ∧ pass.2.parked 1 = true := by decide
  obtain ⟨pass, hmem, hreturns, htasks, hzero, hone⟩ := hpass
  refine ⟨pass, hmem, hreturns, htasks, hzero, hone, fun hexact => ?_⟩
  have hfalse := hexact.returns hreturns 0 (htasks ▸ List.mem_cons_self)
  rw [hzero] at hfalse
  cases hfalse

end Sched

end Nodus.Scheduling

import Nodus.Scheduler

/-! Where the coroutines of a scheduler are: ready, asleep, being resumed, or parked, each in one place only, as long
as a coroutine is spawned once, is resumed by the loop alone, and parks in its own execution loop. -/

namespace Nodus.Scheduling

variable {V : Type}

/-- The entry of a coroutine in the list of those that wait for a task. -/
def Blocked.entries (c : Nat) : Blocked → List (Nat × Nat)
  | .wait target => [(target, c)]
  | _ => []

namespace Sched

/-- The coroutines that are ready, asleep or being resumed by a loop. -/
def busy (s : Sched V) : List Nat := s.ready ++ s.timers.map Prod.snd ++ s.driven

/-- Every coroutine is in at most one place, and the registries say which. -/
structure Clean (s : Sched V) : Prop where
  nodup : s.busy.Nodup
  free : ∀ c ∈ s.busy, (s.task c).blocked = none
  owned : ∀ c, c ∈ s.busy ∨ (s.task c).blocked ≠ none → c ∈ s.tasks
  known : ∀ c ∈ s.tasks, (s.task c).known = true
  suspended : ∀ c, (s.task c).blocked ≠ none → (s.task c).state = .suspended
  cancelling : ∀ c, (s.task c).cancelling = true → (s.task c).blocked = none
  current : ∀ c, s.current = some c → c ∈ s.driven
  receivers : ∀ ch, (s.chan ch).receivers.Nodup
  received : ∀ ch c, c ∈ (s.chan ch).receivers ↔
    (s.task c).blocked = some (.recv ch) ∨ (s.task c).blocked = some (.io ch)
  senders : ∀ ch, ((s.chan ch).senders.map Prod.fst).Nodup
  sent : ∀ ch c, c ∈ (s.chan ch).senders.map Prod.fst ↔ (s.task c).blocked = some (.send ch)
  result : ∀ ch c, ((s.task c).blocked = some (.recv ch) → (s.chan ch).result = false) ∧
    ((s.task c).blocked = some (.io ch) → (s.chan ch).result = true)
  allocated : ∀ ch, ch ∉ s.channels → (s.chan ch).receivers = [] ∧ (s.chan ch).senders = []
  waiters : (s.waiters.map Prod.snd).Nodup
  listed : ∀ p ∈ s.waiters, p.2 ∈ s.tasks
  waited : ∀ t c, (s.task c).blocked = some (.wait t) → (t, c) ∈ s.waiters
  /-- A coroutine that was cancelled in `wait` is still on the list. -/
  waiting : ∀ p ∈ s.waiters, (s.task p.2).blocked = some (.wait p.1) ∨ (s.task p.2).blocked = none ∧ p.2 ∉ s.busy
  recvChannels : ∀ ch, ch ∈ s.recvChannels ↔ ∃ c, (s.task c).blocked = some (.recv ch)
  sendChannels : ∀ ch, ch ∈ s.sendChannels ↔ ∃ c, (s.task c).blocked = some (.send ch)

/-- The tasks, with those in `W` no longer blocked. -/
def unblocked (s : Sched V) (W : List Nat) (c : Nat) : Task :=
  if c ∈ W then { s.task c with blocked := none } else s.task c

variable {s s' : Sched V} {c ch : Nat} {W : List Nat}

@[simp] theorem unblocked_state : (s.unblocked W c).state = (s.task c).state := by
  unfold unblocked
  split
  · rfl
  · rfl

@[simp] theorem unblocked_known : (s.unblocked W c).known = (s.task c).known := by
  unfold unblocked
  split
  · rfl
  · rfl

@[simp] theorem unblocked_cancelling : (s.unblocked W c).cancelling = (s.task c).cancelling := by
  unfold unblocked
  split
  · rfl
  · rfl

theorem unblocked_blocked : (s.unblocked W c).blocked = if c ∈ W then none else (s.task c).blocked := by
  unfold unblocked
  split
  · rfl
  · rfl

theorem unblocked_eq_some {b : Blocked} :
    (s.unblocked W c).blocked = some b ↔ c ∉ W ∧ (s.task c).blocked = some b := by
  rw [unblocked_blocked]
  by_cases h : c ∈ W
  · simp [h]
  · simp [h]

theorem unblocked_ne_none : (s.unblocked W c).blocked ≠ none ↔ c ∉ W ∧ (s.task c).blocked ≠ none := by
  rw [unblocked_blocked]
  by_cases h : c ∈ W
  · simp [h]
  · simp [h]

/-- What unblocking the coroutines `W` and making some of them ready does to the registries. -/
structure Releases (s : Sched V) (W woken : List Nat) (s' : Sched V) : Prop where
  task : s'.task = s.unblocked W
  ready : s'.ready = s.ready ++ woken
  timers : s'.timers = s.timers
  driven : s'.driven = s.driven
  current : s'.current = s.current
  tasks : s'.tasks = s.tasks
  channels : s'.channels = s.channels
  result : ∀ ch, (s'.chan ch).result = (s.chan ch).result
  nodup : woken.Nodup
  sub : ∀ c ∈ woken, c ∈ W
  owned : ∀ c ∈ woken, c ∈ s.tasks
  notBusy : ∀ c ∈ W, c ∉ s.busy
  receivers : ∀ ch, (s'.chan ch).receivers.Sublist (s.chan ch).receivers ∧
    ∀ c, c ∈ (s'.chan ch).receivers ↔ c ∈ (s.chan ch).receivers ∧ c ∉ W
  senders : ∀ ch, (s'.chan ch).senders.Sublist (s.chan ch).senders ∧
    ∀ c, c ∈ (s'.chan ch).senders.map Prod.fst ↔ c ∈ (s.chan ch).senders.map Prod.fst ∧ c ∉ W
  waiters : s'.waiters.Sublist s.waiters
  kept : ∀ p ∈ s.waiters, p.2 ∉ W → p ∈ s'.waiters
  dropped : ∀ p ∈ s'.waiters, p.2 ∉ woken
  recvChannels : ∀ ch, ch ∈ s'.recvChannels ↔ ch ∈ s.recvChannels ∧ ∃ c, (s'.task c).blocked = some (.recv ch)
  sendChannels : ∀ ch, ch ∈ s'.sendChannels ↔ ch ∈ s.sendChannels ∧ ∃ c, (s'.task c).blocked = some (.send ch)

theorem Releases.mem_busy {woken : List Nat} (hr : Releases s W woken s') :
    c ∈ s'.busy ↔ c ∈ s.busy ∨ c ∈ woken := by
  unfold busy
  rw [hr.ready, hr.timers, hr.driven]
  simp only [List.mem_append]
  tauto

theorem Releases.clean {woken : List Nat} (hr : Releases s W woken s') (h : s.Clean) : s'.Clean := by
  have hblocked : ∀ c b, (s'.task c).blocked = some b ↔ c ∉ W ∧ (s.task c).blocked = some b := by
    intro c b
    rw [hr.task]
    exact unblocked_eq_some
  have hnone : ∀ c, (s'.task c).blocked ≠ none ↔ c ∉ W ∧ (s.task c).blocked ≠ none := by
    intro c
    rw [hr.task]
    exact unblocked_ne_none
  have hdisjoint : ∀ c ∈ woken, c ∉ s.busy := fun c hc => hr.notBusy c (hr.sub c hc)
  refine ⟨?_, ?_, ?_, ?_, ?_, ?_, ?_, ?_, ?_, ?_, ?_, ?_, ?_, ?_, ?_, ?_, ?_, ?_, ?_⟩
  · have hperm : s'.busy.Perm (s.busy ++ woken) :=
      calc s'.busy = s.ready ++ (woken ++ (s.timers.map Prod.snd ++ s.driven)) := by
            simp only [busy, hr.ready, hr.timers, hr.driven, List.append_assoc]
        List.Perm _ (s.ready ++ ((s.timers.map Prod.snd ++ s.driven) ++ woken)) :=
            List.perm_append_comm.append_left s.ready
        _ = s.busy ++ woken := by simp only [busy, List.append_assoc]
    rw [hperm.nodup_iff, List.nodup_append]
    exact ⟨h.nodup, hr.nodup, fun a ha b hb hab => hdisjoint b hb (hab ▸ ha)⟩
  · intro c hc
    rw [hr.task, unblocked_blocked]
    rcases hr.mem_busy.mp hc with hc | hc
    · rw [h.free c hc, ite_self]
    · rw [if_pos (hr.sub c hc)]
  · intro c hc
    rw [hr.tasks]
    rcases hc with hc | hc
    · rcases hr.mem_busy.mp hc with hc | hc
      · exact h.owned c (.inl hc)
      · exact hr.owned c hc
    · exact h.owned c (.inr ((hnone c).mp hc).2)
  · intro c hc
    rw [hr.tasks] at hc
    rw [hr.task, unblocked_known]
    exact h.known c hc
  · intro c hc
    rw [hr.task, unblocked_state]
    exact h.suspended c ((hnone c).mp hc).2
  · intro c hc
    rw [hr.task, unblocked_cancelling] at hc
    rw [hr.task, unblocked_blocked, h.cancelling c hc, ite_self]
  · intro c hc
    rw [hr.driven]
    rw [hr.current] at hc
    exact h.current c hc
  · exact fun ch => (hr.receivers ch).1.nodup (h.receivers ch)
  · intro ch c
    rw [(hr.receivers ch).2, h.received, hblocked, hblocked]
    tauto
  · exact fun ch => ((hr.senders ch).1.map Prod.fst).nodup (h.senders ch)
  · intro ch c
    rw [(hr.senders ch).2, h.sent, hblocked]
    tauto
  · intro ch c
    rw [hblocked, hblocked, hr.result]
    exact ⟨fun hb => (h.result ch c).1 hb.2, fun hb => (h.result ch c).2 hb.2⟩
  · intro ch hch
    rw [hr.channels] at hch
    obtain ⟨hr₀, hs₀⟩ := h.allocated ch hch
    have hrec := (hr.receivers ch).1
    have hsen := (hr.senders ch).1
    rw [hr₀] at hrec
    rw [hs₀] at hsen
    exact ⟨List.sublist_nil.mp hrec, List.sublist_nil.mp hsen⟩
  · exact (hr.waiters.map Prod.snd).nodup h.waiters
  · intro p hp
    rw [hr.tasks]
    exact h.listed p (hr.waiters.subset hp)
  · intro t c hc
    obtain ⟨hw, hb⟩ := (hblocked c _).mp hc
    exact hr.kept (t, c) (h.waited t c hb) hw
  · intro p hp
    have hnw := hr.dropped p hp
    rcases h.waiting p (hr.waiters.subset hp) with hb | ⟨hb, hbusy⟩
    · by_cases hw : p.2 ∈ W
      · refine .inr ⟨?_, fun hm => ?_⟩
        · rw [hr.task, unblocked_blocked, if_pos hw]
        · rcases hr.mem_busy.mp hm with hm | hm
          · exact hr.notBusy p.2 hw hm
          · exact hnw hm
      · exact .inl ((hblocked p.2 _).mpr ⟨hw, hb⟩)
    · refine .inr ⟨?_, fun hm => ?_⟩
      · rw [hr.task, unblocked_blocked, hb, ite_self]
      · rcases hr.mem_busy.mp hm with hm | hm
        · exact hbusy hm
        · exact hnw hm
  · intro ch
    rw [hr.recvChannels, h.recvChannels]
    constructor
    · exact fun hx => hx.2
    · rintro ⟨c, hc⟩
      exact ⟨⟨c, ((hblocked c _).mp hc).2⟩, c, hc⟩
  · intro ch
    rw [hr.sendChannels, h.sendChannels]
    constructor
    · exact fun hx => hx.2
    · rintro ⟨c, hc⟩
      exact ⟨⟨c, ((hblocked c _).mp hc).2⟩, c, hc⟩

/-! ### What the loops over coroutines do -/

theorem unblocked_nil : s.unblocked [] = s.task := by
  funext c
  exact if_neg List.not_mem_nil

theorem unblocked_append (A B : List Nat) (h : s'.task = s.unblocked A) : s'.unblocked B = s.unblocked (A ++ B) := by
  funext c
  unfold unblocked
  rw [h]
  unfold unblocked
  by_cases hA : c ∈ A
  · by_cases hB : c ∈ B
    · simp [hA, hB]
    · simp [hA, hB]
  · by_cases hB : c ∈ B
    · simp [hA, hB]
    · simp [hA, hB]

theorem unblock_eq (s : Sched V) (c : Nat) : s.unblock c = { s with task := s.unblocked [c] } := by
  have htask : Function.update s.task c { s.task c with blocked := none } = s.unblocked [c] := by
    funext d
    unfold unblocked
    by_cases hd : d = c
    · subst hd
      rw [Function.update_self, if_pos (List.mem_singleton.mpr rfl)]
    · rw [Function.update_of_ne hd, if_neg fun hm => hd (List.mem_singleton.mp hm)]
  unfold unblock setTask
  rw [htask]

theorem wake_suspended (h : (s.task c).state = .suspended) (v : Option V) :
    s.wake ch c v = { s with
      task := s.unblocked [c], ready := s.ready ++ [c], events := .woken c ch v :: s.events } := by
  unfold wake
  rw [if_pos h, unblock_eq]
  rfl

theorem foldl_wake (ch : Nat) (l : List (Nat × Option V)) (h : ∀ p ∈ l, (s.task p.1).state = .suspended) :
    l.foldl (fun s p => s.wake ch p.1 p.2) s = { s with
      task := s.unblocked (l.map Prod.fst)
      ready := s.ready ++ l.map Prod.fst
      events := (l.map fun p => Event.woken p.1 ch p.2).reverse ++ s.events } := by
  induction l generalizing s with
  | nil => simp [unblocked_nil]
  | cons p l ih =>
      rw [List.foldl_cons, wake_suspended (h p List.mem_cons_self), ih]
      · rw [unblocked_append [p.1] (l.map Prod.fst) rfl]
        simp
      · intro q hq
        exact (unblocked_state).trans (h q (List.mem_cons_of_mem _ hq))

theorem schedule_eq (h : (s.task c).state ≠ .finished) : s.schedule c = { s with ready := s.ready ++ [c] } := if_neg h

theorem foldl_flush (ch : Nat) (l : List (Nat × V)) (h : ∀ p ∈ l, (s.task p.1).state = .suspended) :
    l.foldl (fun s p =>
      let s' := s.log (.entered ch p.2)
      if (s'.task p.1).state = .suspended then (s'.unblock p.1).schedule p.1 else s') s = { s with
        task := s.unblocked (l.map Prod.fst)
        ready := s.ready ++ l.map Prod.fst
        events := (l.map fun p => Event.entered ch p.2).reverse ++ s.events } := by
  induction l generalizing s with
  | nil => simp [unblocked_nil]
  | cons p l ih =>
      have hstate : (s.task p.1).state = .suspended := h p List.mem_cons_self
      have hstep : (let s' := s.log (.entered ch p.2)
          if (s'.task p.1).state = .suspended then (s'.unblock p.1).schedule p.1 else s') = { s with
            task := s.unblocked [p.1], ready := s.ready ++ [p.1], events := .entered ch p.2 :: s.events } := by
        show (if (s.task p.1).state = .suspended then ((s.log (.entered ch p.2)).unblock p.1).schedule p.1
          else s.log (.entered ch p.2)) = _
        rw [if_pos hstate, unblock_eq, schedule_eq]
        · rfl
        · show (s.unblocked [p.1] p.1).state ≠ .finished
          rw [unblocked_state, hstate]
          decide
      rw [List.foldl_cons, hstep, ih]
      · rw [unblocked_append [p.1] (l.map Prod.fst) rfl]
        simp
      · intro q hq
        exact (unblocked_state).trans (h q (List.mem_cons_of_mem _ hq))

/-- The waiters of a settled task. -/
def waitersOf (s : Sched V) (target : Nat) : List Nat := (s.waiters.filter (·.1 = target)).map Prod.snd

theorem releaseWaiters_eq (s : Sched V) (target : Nat) :
    s.releaseWaiters target = { s with
      task := s.unblocked (s.waitersOf target)
      ready := s.ready ++ (s.waitersOf target).filter fun w => (s.task w).state = .suspended
      waiters := s.waiters.filter (·.1 ≠ target) } := by
  have hfold : ∀ (l : List Nat) (t : Sched V), l.foldl (fun s w =>
      let s' := s.unblock w
      if (s'.task w).state = .suspended then { s' with ready := s'.ready ++ [w] } else s') t = { t with
        task := t.unblocked l
        ready := t.ready ++ l.filter fun w => (t.task w).state = .suspended } := by
    intro l
    induction l with
    | nil => intro t; simp [unblocked_nil]
    | cons w l ih =>
        intro t
        rw [List.foldl_cons]
        have hstep : (let s' := t.unblock w
            if (s'.task w).state = .suspended then { s' with ready := s'.ready ++ [w] } else s') = { t with
              task := t.unblocked [w], ready := t.ready ++ [w].filter fun w => (t.task w).state = .suspended } := by
          rw [unblock_eq]
          show (if (t.unblocked [w] w).state = .suspended then _ else _) = _
          rw [unblocked_state]
          by_cases hw : (t.task w).state = .suspended
          · rw [if_pos hw]
            simp [hw]
          · rw [if_neg hw]
            simp [hw]
        rw [hstep, ih, unblocked_append [w] l rfl]
        have hcons : (w :: l).filter (fun w => (t.task w).state = .suspended) =
            [w].filter (fun w => (t.task w).state = .suspended) ++ l.filter fun w => (t.task w).state = .suspended :=
          List.filter_append [w] l
        rw [hcons]
        simp only [unblocked_state, List.append_assoc, List.cons_append, List.nil_append]
  exact hfold _ _

/-! ### The four kinds of steps -/

theorem Clean.withChan (h : s.Clean) (chan : Nat → Chan V) (io : List Nat) (events : List (Event V))
    (hchan : ∀ ch, (chan ch).receivers = (s.chan ch).receivers ∧ (chan ch).senders = (s.chan ch).senders ∧
      (chan ch).result = (s.chan ch).result) :
    ({ s with chan := chan, ioChannels := io, events := events } : Sched V).Clean :=
  { h with
    receivers := fun ch => by
      simp only [(hchan ch).1]
      exact h.receivers ch
    received := fun ch c => by
      simp only [(hchan ch).1]
      exact h.received ch c
    senders := fun ch => by
      simp only [(hchan ch).2.1]
      exact h.senders ch
    sent := fun ch c => by
      simp only [(hchan ch).2.1]
      exact h.sent ch c
    result := fun ch c => by
      simp only [(hchan ch).2.2]
      exact h.result ch c
    allocated := fun ch hch => by
      simp only [(hchan ch).1, (hchan ch).2.1]
      exact h.allocated ch hch }

/-- Coroutines move between the ready queue, the timers and the loop; a coroutine may come in that was nowhere. -/
structure Rearranges (s s' : Sched V) : Prop where
  blocked : ∀ c, (s'.task c).blocked = (s.task c).blocked
  known : ∀ c ∈ s'.tasks, (s'.task c).known = true
  state : ∀ c, (s.task c).blocked ≠ none → (s'.task c).state = (s.task c).state
  cancelling : ∀ c, (s'.task c).cancelling = true → (s.task c).cancelling = true ∨ (s.task c).blocked = none
  chan : s'.chan = s.chan
  channels : s'.channels = s.channels
  recvChannels : s'.recvChannels = s.recvChannels
  sendChannels : s'.sendChannels = s.sendChannels
  waiters : s'.waiters = s.waiters
  tasks : ∀ c ∈ s.tasks, c ∈ s'.tasks
  nodup : s'.busy.Nodup
  busy : ∀ c ∈ s'.busy, c ∈ s.busy ∨ (s.task c).blocked = none ∧ c ∈ s'.tasks ∧ c ∉ s.waiters.map Prod.snd
  current : ∀ c, s'.current = some c → c ∈ s'.driven

theorem Rearranges.clean (hr : Rearranges s s') (h : s.Clean) : s'.Clean where
  nodup := hr.nodup
  free c hc := by
    rw [hr.blocked]
    rcases hr.busy c hc with hc | hc
    · exact h.free c hc
    · exact hc.1
  owned c hc := by
    rcases hc with hc | hc
    · rcases hr.busy c hc with hc | hc
      · exact hr.tasks c (h.owned c (.inl hc))
      · exact hc.2.1
    · rw [hr.blocked] at hc
      exact hr.tasks c (h.owned c (.inr hc))
  known := hr.known
  suspended c hc := by
    rw [hr.blocked] at hc
    rw [hr.state c hc]
    exact h.suspended c hc
  cancelling c hc := by
    rw [hr.blocked]
    exact (hr.cancelling c hc).elim (h.cancelling c) id
  current := hr.current
  receivers := by
    rw [hr.chan]
    exact h.receivers
  received ch c := by
    rw [hr.chan, hr.blocked]
    exact h.received ch c
  senders := by
    rw [hr.chan]
    exact h.senders
  sent ch c := by
    rw [hr.chan, hr.blocked]
    exact h.sent ch c
  result ch c := by
    rw [hr.chan, hr.blocked]
    exact h.result ch c
  allocated ch hch := by
    rw [hr.channels] at hch
    rw [hr.chan]
    exact h.allocated ch hch
  waiters := by
    rw [hr.waiters]
    exact h.waiters
  listed p hp := by
    rw [hr.waiters] at hp
    exact hr.tasks p.2 (h.listed p hp)
  waited t c hc := by
    rw [hr.blocked] at hc
    rw [hr.waiters]
    exact h.waited t c hc
  waiting p hp := by
    rw [hr.waiters] at hp
    rw [hr.blocked]
    refine (h.waiting p hp).imp_right fun hw => ⟨hw.1, fun hb => ?_⟩
    rcases hr.busy p.2 hb with hb | hb
    · exact hw.2 hb
    · exact hb.2.2 (List.mem_map_of_mem hp)
  recvChannels ch := by
    rw [hr.recvChannels, h.recvChannels]
    simp only [hr.blocked]
  sendChannels ch := by
    rw [hr.sendChannels, h.sendChannels]
    simp only [hr.blocked]

/-- A coroutine is entered where it is parked. -/
structure Enters (s : Sched V) (c : Nat) (b : Blocked) (s' : Sched V) : Prop where
  tasks : s'.tasks = s.tasks
  ready : s'.ready = s.ready
  timers : s'.timers = s.timers
  channels : ∀ ch, ch ∈ s.channels → ch ∈ s'.channels
  allocated : ∀ ch, ch ∉ s'.channels → s'.chan ch = s.chan ch
  receivers : ∀ ch, (s'.chan ch).receivers =
    if b = .recv ch ∨ b = .io ch then (s.chan ch).receivers ++ [c] else (s.chan ch).receivers
  senders : ∀ ch, (s'.chan ch).senders.map Prod.fst =
    if b = .send ch then (s.chan ch).senders.map Prod.fst ++ [c] else (s.chan ch).senders.map Prod.fst
  result : ∀ ch, (b = .recv ch → (s'.chan ch).result = false) ∧ (b = .io ch → (s'.chan ch).result = true)
  sameResult : ∀ ch, b ≠ .io ch → (s'.chan ch).result = (s.chan ch).result
  fresh : ∀ ch, b = .io ch → ch ∉ s.channels
  waiters : s'.waiters = s.waiters ++ b.entries c
  recvChannels : ∀ ch, ch ∈ s'.recvChannels ↔ ch ∈ s.recvChannels ∨ b = .recv ch
  sendChannels : ∀ ch, ch ∈ s'.sendChannels ↔ ch ∈ s.sendChannels ∨ b = .send ch

/-- A coroutine that no queue holds is parked. -/
structure Parks (s : Sched V) (c : Nat) (b : Blocked) (s' : Sched V) : Prop extends Enters s c b s' where
  free : (s.task c).blocked = none
  unqueued : c ∉ s.ready ++ s.timers.map Prod.snd
  owned : c ∈ s.tasks
  notWaiting : c ∉ s.waiters.map Prod.snd
  notCancelling : (s.task c).cancelling = false
  self : (s'.task c).blocked = some b ∧ (s'.task c).state = .suspended ∧ (s'.task c).known = (s.task c).known ∧
    (s'.task c).cancelling = (s.task c).cancelling
  other : ∀ d, d ≠ c → s'.task d = s.task d
  left : s'.driven = s.driven.erase c
  current : ∀ d, s'.current = some d → d ∈ s'.driven

theorem Clean.unqueued_of_driven (h : s.Clean) (hc : c ∈ s.driven) : c ∉ s.ready ++ s.timers.map Prod.snd := by
  obtain ⟨-, -, hdisjoint⟩ := List.nodup_append.mp h.nodup
  exact fun hr => hdisjoint c hr c hc rfl

theorem Clean.busy_of_driven (hc : c ∈ s.driven) : c ∈ s.busy := List.mem_append_right _ hc

theorem Clean.notWaiting (h : s.Clean) (hc : c ∈ s.busy) : c ∉ s.waiters.map Prod.snd := by
  intro hw
  obtain ⟨p, hp, rfl⟩ := List.mem_map.mp hw
  rcases h.waiting p hp with hb | ⟨-, hb⟩
  · rw [h.free p.2 hc] at hb
    cases hb
  · exact hb hc

theorem Parks.clean {b : Blocked} (hr : Parks s c b s') (h : s.Clean) : s'.Clean := by
  have hnone := hr.free
  obtain ⟨hself, hstate, hknown, hcancelling⟩ := hr.self
  have hblocked : ∀ d b', (s'.task d).blocked = some b' ↔ d = c ∧ b = b' ∨ (s.task d).blocked = some b' := by
    intro d b'
    by_cases hd : d = c
    · subst hd
      rw [hself, hnone]
      simp
    · rw [hr.other d hd]
      simp [hd]
  have hleft : ∀ d, d ∈ s'.busy → d ∈ s.busy ∧ d ≠ c := by
    intro d hd
    unfold busy at hd ⊢
    rw [hr.ready, hr.timers, hr.left] at hd
    rcases List.mem_append.mp hd with hd | hd
    · exact ⟨List.mem_append_left _ hd, fun he => hr.unqueued (he ▸ hd)⟩
    · exact ⟨List.mem_append_right _ (List.mem_of_mem_erase hd),
        fun he => (List.nodup_append.mp h.nodup).2.1.not_mem_erase (he ▸ hd)⟩
  refine ⟨?_, ?_, ?_, ?_, ?_, ?_, ?_, ?_, ?_, ?_, ?_, ?_, ?_, ?_, ?_, ?_, ?_, ?_, ?_⟩
  · unfold busy
    rw [hr.ready, hr.timers, hr.left]
    exact h.nodup.sublist ((List.erase_sublist).append_left _)
  · intro d hd
    obtain ⟨hd, hne⟩ := hleft d hd
    rw [hr.other d hne]
    exact h.free d hd
  · intro d hd
    rw [hr.tasks]
    by_cases hdc : d = c
    · subst hdc
      exact hr.owned
    · rw [hr.other d hdc] at hd
      exact h.owned d (hd.imp_left fun hb => (hleft d hb).1)
  · intro d hd
    rw [hr.tasks] at hd
    by_cases hdc : d = c
    · subst hdc
      rw [hknown]
      exact h.known d hd
    · rw [hr.other d hdc]
      exact h.known d hd
  · intro d hd
    by_cases hdc : d = c
    · subst hdc
      exact hstate
    · rw [hr.other d hdc] at hd ⊢
      exact h.suspended d hd
  · intro d hd
    by_cases hdc : d = c
    · subst hdc
      rw [hcancelling, hr.notCancelling] at hd
      cases hd
    · rw [hr.other d hdc] at hd ⊢
      exact h.cancelling d hd
  · exact hr.current
  · intro ch
    rw [hr.receivers]
    by_cases hb : b = .recv ch ∨ b = .io ch
    · rw [if_pos hb, List.nodup_append]
      refine ⟨h.receivers ch, List.nodup_singleton c, fun a ha d hd had => ?_⟩
      rw [List.mem_singleton.mp hd] at had
      rw [had, h.received, hnone] at ha
      simp at ha
    · rw [if_neg hb]
      exact h.receivers ch
  · intro ch d
    rw [hr.receivers, hblocked, hblocked]
    by_cases hb : b = .recv ch ∨ b = .io ch
    · rw [if_pos hb, List.mem_append, List.mem_singleton, h.received]
      tauto
    · rw [if_neg hb, h.received]
      tauto
  · intro ch
    rw [hr.senders]
    by_cases hb : b = .send ch
    · rw [if_pos hb, List.nodup_append]
      refine ⟨h.senders ch, List.nodup_singleton c, fun a ha d hd had => ?_⟩
      rw [List.mem_singleton.mp hd] at had
      rw [had, h.sent, hnone] at ha
      cases ha
    · rw [if_neg hb]
      exact h.senders ch
  · intro ch d
    rw [hr.senders, hblocked]
    by_cases hb : b = .send ch
    · rw [if_pos hb, List.mem_append, List.mem_singleton, h.sent]
      tauto
    · rw [if_neg hb, h.sent]
      tauto
  · intro ch d
    -- a channel with receivers is not a new one
    have hold : ∀ b', (b' = .recv ch ∨ b' = .io ch) → (s.task d).blocked = some b' →
        (s'.chan ch).result = (s.chan ch).result := by
      intro b' hb' hd
      apply hr.sameResult
      intro hio
      have hempty := (h.allocated ch (hr.fresh ch hio)).1
      have hmem : d ∈ (s.chan ch).receivers := by
        rw [h.received, hd]
        exact hb'.imp (congrArg some) (congrArg some)
      rw [hempty] at hmem
      cases hmem
    rw [hblocked, hblocked]
    constructor
    · rintro (⟨rfl, hb⟩ | hd)
      · exact (hr.result ch).1 hb
      · rw [hold _ (.inl rfl) hd]
        exact (h.result ch d).1 hd
    · rintro (⟨rfl, hb⟩ | hd)
      · exact (hr.result ch).2 hb
      · rw [hold _ (.inr rfl) hd]
        exact (h.result ch d).2 hd
  · intro ch hch
    rw [hr.allocated ch hch]
    exact h.allocated ch fun hm => hch (hr.channels ch hm)
  · rw [hr.waiters, List.map_append, List.nodup_append]
    refine ⟨h.waiters, ?_, fun a ha d hd had => ?_⟩
    · cases b with
      | wait t => exact List.nodup_singleton c
      | send ch => exact List.nodup_nil
      | recv ch => exact List.nodup_nil
      | io ch => exact List.nodup_nil
    · cases b with
      | wait t =>
          rw [had, List.mem_singleton.mp hd] at ha
          exact hr.notWaiting ha
      | send ch => cases hd
      | recv ch => cases hd
      | io ch => cases hd
  · intro p hp
    rw [hr.tasks]
    rw [hr.waiters] at hp
    rcases List.mem_append.mp hp with hp | hp
    · exact h.listed p hp
    · cases b with
      | wait t =>
          rw [List.mem_singleton.mp hp]
          exact hr.owned
      | send ch => cases hp
      | recv ch => cases hp
      | io ch => cases hp
  · intro t d hd
    rw [hr.waiters]
    rcases (hblocked d _).mp hd with ⟨rfl, rfl⟩ | hd
    · exact List.mem_append_right _ (List.mem_singleton.mpr rfl)
    · exact List.mem_append_left _ (h.waited t d hd)
  · intro p hp
    rw [hr.waiters] at hp
    rcases List.mem_append.mp hp with hp | hp
    · have hne : p.2 ≠ c := fun he => hr.notWaiting (he ▸ List.mem_map_of_mem hp)
      rw [hr.other p.2 hne]
      exact (h.waiting p hp).imp_right fun hw => ⟨hw.1, fun hb => hw.2 (hleft p.2 hb).1⟩
    · cases b with
      | wait t =>
          rw [List.mem_singleton.mp hp]
          exact .inl hself
      | send ch => cases hp
      | recv ch => cases hp
      | io ch => cases hp
  · intro ch
    rw [hr.recvChannels, h.recvChannels]
    constructor
    · rintro (⟨d, hd⟩ | rfl)
      · exact ⟨d, (hblocked d _).mpr (.inr hd)⟩
      · exact ⟨c, hself⟩
    · rintro ⟨d, hd⟩
      rcases (hblocked d _).mp hd with ⟨rfl, hb⟩ | hd
      · exact .inr hb
      · exact .inl ⟨d, hd⟩
  · intro ch
    rw [hr.sendChannels, h.sendChannels]
    constructor
    · rintro (⟨d, hd⟩ | rfl)
      · exact ⟨d, (hblocked d _).mpr (.inr hd)⟩
      · exact ⟨c, hself⟩
    · rintro ⟨d, hd⟩
      rcases (hblocked d _).mp hd with ⟨rfl, hb⟩ | hd
      · exact .inr hb
      · exact .inl ⟨d, hd⟩

/-! ### Channels -/

/-- After the receivers of a channel have changed, the registry is as it was, or without the channel if there is
none left. -/
def Kept (now : List Nat) (registered registered' : List Nat) (ch : Nat) (same : Prop) : Prop :=
  registered' = registered.filter (· ≠ ch) ∧ now = [] ∨ registered' = registered ∧ (now ≠ [] ∨ same)

theorem Clean.releaseChannel (h : s.Clean) (ch : Nat) {chan : Chan V} {W woken recvs sends io : List Nat}
    {events : List (Event V)} (hW : ∀ c ∈ W, c ∈ (s.chan ch).receivers ∨ c ∈ (s.chan ch).senders.map Prod.fst)
    (hnodup : woken.Nodup) (hsub : ∀ c ∈ woken, c ∈ W) (hreceivers : chan.receivers.Sublist (s.chan ch).receivers)
    (hreceived : ∀ c, c ∈ chan.receivers ↔ c ∈ (s.chan ch).receivers ∧ c ∉ W)
    (hsenders : chan.senders.Sublist (s.chan ch).senders)
    (hsent : ∀ c, c ∈ chan.senders.map Prod.fst ↔ c ∈ (s.chan ch).senders.map Prod.fst ∧ c ∉ W)
    (hresult : chan.result = (s.chan ch).result)
    (hrecvs : Kept chan.receivers s.recvChannels recvs ch (chan.receivers = (s.chan ch).receivers))
    (hsends : Kept (chan.senders.map Prod.fst) s.sendChannels sends ch (chan.senders = (s.chan ch).senders)) :
    Releases s W woken { s with
      task := s.unblocked W, ready := s.ready ++ woken, chan := Function.update s.chan ch chan, ioChannels := io
      recvChannels := recvs, sendChannels := sends, events := events } := by
  have hblocked : ∀ c ∈ W, (s.task c).blocked = some (.recv ch) ∨ (s.task c).blocked = some (.io ch) ∨
      (s.task c).blocked = some (.send ch) := by
    intro c hc
    rcases hW c hc with hc | hc
    · exact ((h.received ch c).mp hc).elim .inl fun hb => .inr (.inl hb)
    · exact .inr (.inr ((h.sent ch c).mp hc))
  have hsome : ∀ c ∈ W, (s.task c).blocked ≠ none := by
    intro c hc
    rcases hblocked c hc with hb | hb | hb
    · simp [hb]
    · simp [hb]
    · simp [hb]
  -- coroutines parked elsewhere are not concerned
  have helse : ∀ ch' b, ch' ≠ ch → (b = .recv ch' ∨ b = .io ch' ∨ b = .send ch') → ∀ c, (s.task c).blocked = some b →
      c ∉ W := by
    intro ch' b hne hb c hc hw
    rcases hblocked c hw with hd | hd | hd
    all_goals
      rw [hc] at hd
      cases hd
      rcases hb with hb | hb | hb
      all_goals
        cases hb
        try exact hne rfl
  refine ⟨rfl, rfl, rfl, rfl, rfl, rfl, rfl, fun ch' => ?_, hnodup, hsub, fun c hc => ?_, fun c hc hb => ?_,
    fun ch' => ?_, fun ch' => ?_, List.Sublist.refl _, fun _ hp _ => hp, fun p hp hw => ?_, fun ch' => ?_, fun ch' => ?_⟩
  · by_cases hch : ch' = ch
    · subst hch
      simp only [Function.update_self]
      exact hresult
    · simp only [Function.update_of_ne hch]
  · exact h.owned c (.inr (hsome c (hsub c hc)))
  · exact hsome c hc (h.free c hb)
  · by_cases hch : ch' = ch
    · subst hch
      simp only [Function.update_self]
      exact ⟨hreceivers, hreceived⟩
    · simp only [Function.update_of_ne hch]
      refine ⟨List.Sublist.refl _, fun c => ⟨fun hc => ⟨hc, ?_⟩, fun hc => hc.1⟩⟩
      rcases (h.received ch' c).mp hc with hb | hb
      · exact helse ch' _ hch (.inl rfl) c hb
      · exact helse ch' _ hch (.inr (.inl rfl)) c hb
  · by_cases hch : ch' = ch
    · subst hch
      simp only [Function.update_self]
      exact ⟨hsenders, hsent⟩
    · simp only [Function.update_of_ne hch]
      refine ⟨List.Sublist.refl _, fun c => ⟨fun hc => ⟨hc, ?_⟩, fun hc => hc.1⟩⟩
      exact helse ch' _ hch (.inr (.inr rfl)) c ((h.sent ch' c).mp hc)
  · rcases h.waiting p hp with hb | ⟨hb, -⟩
    · rcases hblocked p.2 (hsub _ hw) with hd | hd | hd
      all_goals
        rw [hb] at hd
        cases hd
    · exact hsome p.2 (hsub _ hw) hb
  · have hkept : ∀ c, (s.unblocked W c).blocked = some (.recv ch') ↔ c ∉ W ∧ (s.task c).blocked = some (.recv ch') :=
      fun c => unblocked_eq_some
    simp only [hkept]
    by_cases hch : ch' = ch
    · subst hch
      rcases hrecvs with ⟨rfl, hnil⟩ | ⟨rfl, hnow⟩
      · simp only [List.mem_filter, ne_eq, not_true_eq_false, decide_false, Bool.false_eq_true, and_false,
          false_iff, not_and, not_exists]
        rintro - c hc hb
        have hmem := (hreceived c).mpr ⟨(h.received ch' c).mpr (.inl hb), hc⟩
        rw [hnil] at hmem
        cases hmem
      · refine ⟨fun hm => ⟨hm, ?_⟩, fun hm => hm.1⟩
        obtain ⟨d, hd⟩ := (h.recvChannels ch').mp hm
        rcases hnow with hnow | hnow
        · obtain ⟨c, hc⟩ := List.exists_mem_of_ne_nil _ hnow
          obtain ⟨hc, hcw⟩ := (hreceived c).mp hc
          refine ⟨c, hcw, ?_⟩
          rcases (h.received ch' c).mp hc with hb | hb
          · exact hb
          · have h₁ := (h.result ch' c).2 hb
            rw [(h.result ch' d).1 hd] at h₁
            cases h₁
        · have hmem := (h.received ch' d).mpr (.inl hd)
          rw [← hnow] at hmem
          exact ⟨d, ((hreceived d).mp hmem).2, hd⟩
    · have hsame : ch' ∈ recvs ↔ ch' ∈ s.recvChannels := by
        rcases hrecvs with ⟨rfl, -⟩ | ⟨rfl, -⟩
        · simp [hch]
        · exact Iff.rfl
      simp only [hsame]
      refine ⟨fun hm => ⟨hm, ?_⟩, fun hm => hm.1⟩
      obtain ⟨c, hc⟩ := (h.recvChannels ch').mp hm
      exact ⟨c, helse ch' _ hch (.inl rfl) c hc, hc⟩
  · have hkept : ∀ c, (s.unblocked W c).blocked = some (.send ch') ↔ c ∉ W ∧ (s.task c).blocked = some (.send ch') :=
      fun c => unblocked_eq_some
    simp only [hkept]
    by_cases hch : ch' = ch
    · subst hch
      rcases hsends with ⟨rfl, hnil⟩ | ⟨rfl, hnow⟩
      · simp only [List.mem_filter, ne_eq, not_true_eq_false, decide_false, Bool.false_eq_true, and_false,
          false_iff, not_and, not_exists]
        rintro - c hc hb
        have hmem := (hsent c).mpr ⟨(h.sent ch' c).mpr hb, hc⟩
        rw [hnil] at hmem
        cases hmem
      · refine ⟨fun hm => ⟨hm, ?_⟩, fun hm => hm.1⟩
        obtain ⟨d, hd⟩ := (h.sendChannels ch').mp hm
        rcases hnow with hnow | hnow
        · obtain ⟨c, hc⟩ := List.exists_mem_of_ne_nil _ hnow
          obtain ⟨hc, hcw⟩ := (hsent c).mp hc
          exact ⟨c, hcw, (h.sent ch' c).mp hc⟩
        · have hmem := (h.sent ch' d).mpr hd
          rw [← hnow] at hmem
          exact ⟨d, ((hsent d).mp hmem).2, hd⟩
    · have hsame : ch' ∈ sends ↔ ch' ∈ s.sendChannels := by
        rcases hsends with ⟨rfl, -⟩ | ⟨rfl, -⟩
        · simp [hch]
        · exact Iff.rfl
      simp only [hsame]
      refine ⟨fun hm => ⟨hm, ?_⟩, fun hm => hm.1⟩
      obtain ⟨c, hc⟩ := (h.sendChannels ch').mp hm
      exact ⟨c, helse ch' _ hch (.inr (.inr rfl)) c hc, hc⟩

end Sched

end Nodus.Scheduling

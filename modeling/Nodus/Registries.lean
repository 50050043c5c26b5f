import Mathlib.Data.List.Perm.Subperm
import Nodus.Parking

/-! What each operation does to the registries, and that they agree in every state of a run whose coroutines are
spawned once at a time, are resumed by hand only while they are in no queue, and park in their own execution loop. -/

namespace Nodus.Scheduling

variable {V : Type}

namespace Sched

variable {s s' : Sched V} {c ch : Nat}

/-! ### Tasks and lists -/

theorem Clean.setTask (h : s.Clean) (f : Task → Task) (hblocked : (f (s.task c)).blocked = (s.task c).blocked)
    (hknown : (f (s.task c)).known = (s.task c).known)
    (hstate : (s.task c).blocked ≠ none → (f (s.task c)).state = (s.task c).state)
    (hcancelling : (f (s.task c)).cancelling = true → (s.task c).cancelling = true ∨ (s.task c).blocked = none) :
    (s.setTask c f).Clean := by
  apply Rearranges.clean (s := s) _ h
  refine ⟨fun d => ?_, fun d hd => ?_, fun d hd => ?_, fun d hd => ?_, rfl, rfl, rfl, rfl, rfl, fun _ hd => hd, h.nodup,
    fun _ hd => .inl hd, h.current⟩
  all_goals by_cases hdc : d = c
  · subst hdc
    simpa [Sched.setTask] using hblocked
  · simp [Sched.setTask, hdc]
  · subst hdc
    simpa [Sched.setTask, hknown] using h.known d hd
  · simpa [Sched.setTask, hdc] using h.known d hd
  · subst hdc
    simpa [Sched.setTask] using hstate hd
  · simp [Sched.setTask, hdc]
  · subst hdc
    simp only [Sched.setTask, Function.update_self] at hd
    exact hcancelling hd
  · simp only [Sched.setTask, Function.update_of_ne hdc] at hd
    exact .inl hd

theorem Clean.relist (h : s.Clean) {ready driven : List Nat} {timers : List (Nat × Nat)} {current : Option Nat}
    (hbusy : (ready ++ timers.map Prod.snd ++ driven).Subperm s.busy) (hcurrent : ∀ d, current = some d → d ∈ driven) :
    ({ s with ready := ready, timers := timers, driven := driven, current := current } : Sched V).Clean := by
  apply Rearranges.clean (s := s) _ h
  obtain ⟨l, hperm, hsub⟩ := hbusy
  exact ⟨fun _ => rfl, h.known, fun _ _ => rfl, fun _ hd => .inl hd, rfl, rfl, rfl, rfl, rfl, fun _ hd => hd,
    hperm.nodup_iff.mp (hsub.nodup h.nodup), fun d hd => .inl (hsub.subset (hperm.mem_iff.mpr hd)), hcurrent⟩

theorem Clean.addChannel (h : s.Clean) (hch : ch ∉ s.channels) {chan : Chan V} (hreceivers : chan.receivers = [])
    (hsenders : chan.senders = []) (io : List Nat) (events : List (Event V)) :
    ({ s with
        chan := Function.update s.chan ch chan
        channels := ch :: s.channels
        ioChannels := io
        events := events } : Sched V).Clean := by
  obtain ⟨hr, hs⟩ := h.allocated ch hch
  have hsame : ∀ ch', (Function.update s.chan ch chan ch').receivers = (s.chan ch').receivers ∧
      (Function.update s.chan ch chan ch').senders = (s.chan ch').senders := by
    intro ch'
    by_cases hne : ch' = ch
    · subst hne
      rw [Function.update_self, hreceivers, hsenders, hr, hs]
      exact ⟨rfl, rfl⟩
    · rw [Function.update_of_ne hne]
      exact ⟨rfl, rfl⟩
  -- nobody is parked on a channel that there was not
  have hnobody : ∀ b, (b = .recv ch ∨ b = .io ch) → ∀ d, (s.task d).blocked ≠ some b := by
    intro b hb d hd
    have hmem : d ∈ (s.chan ch).receivers := by
      rw [h.received, hd]
      exact hb.imp (congrArg some) (congrArg some)
    rw [hr] at hmem
    cases hmem
  exact { h with
    receivers := fun ch' => by
      simp only [(hsame ch').1]
      exact h.receivers ch'
    received := fun ch' d => by
      simp only [(hsame ch').1]
      exact h.received ch' d
    senders := fun ch' => by
      simp only [(hsame ch').2]
      exact h.senders ch'
    sent := fun ch' d => by
      simp only [(hsame ch').2]
      exact h.sent ch' d
    result := fun ch' d => by
      by_cases hne : ch' = ch
      · subst hne
        exact ⟨fun hb => absurd hb (hnobody _ (.inl rfl) d), fun hb => absurd hb (hnobody _ (.inr rfl) d)⟩
      · simp only [Function.update_of_ne hne]
        exact h.result ch' d
    allocated := fun ch' hch' => by
      simp only [(hsame ch').1, (hsame ch').2]
      exact h.allocated ch' fun hm => hch' (List.mem_cons_of_mem _ hm) }

/-! ### Settling -/

theorem Clean.releaseWaiters (h : s.Clean) (target : Nat) : (s.releaseWaiters target).Clean := by
  rw [releaseWaiters_eq]
  refine Releases.clean (?_ : Releases s (s.waitersOf target)
    ((s.waitersOf target).filter fun w => (s.task w).state = .suspended) _) h
  have hnodup : (s.waitersOf target).Nodup := ((List.filter_sublist).map Prod.snd).nodup h.waiters
  have hpair : ∀ d ∈ s.waitersOf target, (target, d) ∈ s.waiters := by
    intro d hd
    obtain ⟨p, hp, rfl⟩ := List.mem_map.mp hd
    obtain ⟨hp, ht⟩ := List.mem_filter.mp hp
    rwa [← of_decide_eq_true ht]
  have hother : ∀ d ∈ s.waitersOf target, ∀ b, (s.task d).blocked = some b → b = .wait target := by
    intro d hd b hb
    rcases h.waiting _ (hpair d hd) with hw | ⟨hw, -⟩
    · rw [hb] at hw
      exact Option.some.inj hw
    · rw [hb] at hw
      cases hw
  refine ⟨rfl, rfl, rfl, rfl, rfl, rfl, rfl, fun _ => rfl, hnodup.filter _, fun d hd => List.mem_of_mem_filter hd,
    fun d hd => h.listed _ (hpair d (List.mem_of_mem_filter hd)), fun d hd hb => ?_, fun ch => ?_, fun ch => ?_,
    List.filter_sublist, fun p hp hw => ?_, fun p hp hw => ?_, fun ch => ?_, fun ch => ?_⟩
  · exact h.notWaiting hb (List.mem_map.mpr ⟨_, hpair d hd, rfl⟩)
  · refine ⟨List.Sublist.refl _, fun d => ⟨fun hd => ⟨hd, fun hw => ?_⟩, fun hd => hd.1⟩⟩
    rcases (h.received ch d).mp hd with hb | hb
    · cases hother d hw _ hb
    · cases hother d hw _ hb
  · refine ⟨List.Sublist.refl _, fun d => ⟨fun hd => ⟨hd, fun hw => ?_⟩, fun hd => hd.1⟩⟩
    cases hother d hw _ ((h.sent ch d).mp hd)
  · refine List.mem_filter.mpr ⟨hp, decide_eq_true fun ht => hw ?_⟩
    exact List.mem_map.mpr ⟨p, List.mem_filter.mpr ⟨hp, decide_eq_true ht⟩, rfl⟩
  · obtain ⟨hp, hne⟩ := List.mem_filter.mp hp
    have heq : p = (target, p.2) :=
      List.inj_on_of_nodup_map h.waiters hp (hpair _ (List.mem_of_mem_filter hw)) rfl
    rw [heq] at hne
    simp at hne
  · simp only [unblocked_eq_some]
    refine ⟨fun hm => ⟨hm, ?_⟩, fun hm => hm.1⟩
    obtain ⟨d, hd⟩ := (h.recvChannels ch).mp hm
    exact ⟨d, fun hw => (by cases hother d hw _ hd), hd⟩
  · simp only [unblocked_eq_some]
    refine ⟨fun hm => ⟨hm, ?_⟩, fun hm => hm.1⟩
    obtain ⟨d, hd⟩ := (h.sendChannels ch).mp hm
    exact ⟨d, fun hw => (by cases hother d hw _ hd), hd⟩

theorem Clean.markCompleted (h : s.Clean) (c : Nat) : (s.markCompleted c).Clean := by
  unfold Sched.markCompleted
  split
  · exact h
  · apply Clean.releaseWaiters
    exact h.setTask _ rfl rfl (fun _ => rfl) .inl

theorem Clean.settle (h : s.Clean) (hc : (s.task c).blocked = none) : (s.settle c).Clean :=
  h.setTask _ rfl rfl (fun hb => absurd hc hb) fun hf => by cases hf

theorem Clean.unwound (h : s.Clean) (hc : (s.task c).blocked = none) (timedOut : Bool) :
    (s.unwound c timedOut).Clean := by
  unfold Sched.unwound
  split
  · exact (h.settle hc).markCompleted c
  · exact ((h.settle hc).markCompleted c).releaseWaiters c

theorem Clean.leave (h : s.Clean) (c : Nat) : (s.leave c).Clean :=
  h.relist ((List.erase_sublist).append_left _).subperm fun d hd => by cases hd

theorem Clean.finish (h : s.Clean) (hc : (s.task c).blocked = none) (failed : Bool) : (s.finish c failed).Clean := by
  unfold Sched.finish
  have hs : ((s.leave c).settle c).Clean := (h.leave c).settle hc
  split
  · exact (hs.releaseWaiters c).markCompleted c
  · exact hs.markCompleted c

/-! ### Waking -/

theorem Clean.setChan (h : s.Clean) (f : Chan V → Chan V) (hreceivers : (f (s.chan ch)).receivers = (s.chan ch).receivers)
    (hsenders : (f (s.chan ch)).senders = (s.chan ch).senders) (hresult : (f (s.chan ch)).result = (s.chan ch).result)
    (io : List Nat) (events : List (Event V)) :
    ({ s.setChan ch f with ioChannels := io, events := events } : Sched V).Clean := by
  refine h.withChan _ io events fun ch' => ?_
  by_cases hne : ch' = ch
  · subst hne
    simp only [Sched.setChan, Function.update_self]
    exact ⟨hreceivers, hsenders, hresult⟩
  · simp [Sched.setChan, hne]

theorem Clean.suspended_of_receiver (h : s.Clean) (ch : Nat) (hc : c ∈ (s.chan ch).receivers) : (s.task c).state = .suspended := by
  apply h.suspended
  rcases (h.received ch c).mp hc with hb | hb
  · simp [hb]
  · simp [hb]

theorem Clean.suspended_of_sender (h : s.Clean) (ch : Nat) (hc : c ∈ (s.chan ch).senders.map Prod.fst) :
    (s.task c).state = .suspended := by
  apply h.suspended
  simp [(h.sent ch c).mp hc]

theorem Clean.receiver_not_sender (h : s.Clean) (hc : c ∈ (s.chan ch).receivers) :
    c ∉ (s.chan ch).senders.map Prod.fst := by
  intro hs
  have hb := (h.sent ch c).mp hs
  rcases (h.received ch c).mp hc with hr | hr
  · rw [hb] at hr
    cases hr
  · rw [hb] at hr
    cases hr

/-- The receivers that the queue of a channel has no value for. -/
def unserved (s : Sched V) (ch : Nat) : List Nat := (s.chan ch).receivers.drop (s.chan ch).queue.length

/-- The receivers that get a value, with their values. -/
def served (s : Sched V) (ch : Nat) : List (Nat × V) := (s.chan ch).receivers.zip (s.chan ch).queue

theorem served_fst (s : Sched V) (ch : Nat) :
    (s.served ch).map Prod.fst = (s.chan ch).receivers.take (s.chan ch).queue.length := by
  unfold served
  generalize (s.chan ch).receivers = receivers
  generalize (s.chan ch).queue = queue
  induction receivers generalizing queue with
  | nil => simp
  | cons r rest ih =>
      cases queue with
      | nil => rfl
      | cons v queue => simp [ih]

theorem served_append_unserved (s : Sched V) (ch : Nat) :
    (s.served ch).map Prod.fst ++ s.unserved ch = (s.chan ch).receivers := by
  rw [served_fst]
  exact List.take_append_drop _ _

theorem foldl_wake_some (l : List (Nat × V)) (h : ∀ p ∈ l, (s.task p.1).state = .suspended) :
    l.foldl (fun s p => s.wake ch p.1 (some p.2)) s = { s with
      task := s.unblocked (l.map Prod.fst)
      ready := s.ready ++ l.map Prod.fst
      events := (l.map fun p => Event.woken p.1 ch (some p.2)).reverse ++ s.events } := by
  have hfold := foldl_wake (s := s) ch (l.map fun p => (p.1, some p.2)) fun p hp => ?_
  · rw [List.foldl_map] at hfold
    simpa [Function.comp_def] using hfold
  · obtain ⟨q, hq, rfl⟩ := List.mem_map.mp hp
    exact h q hq

theorem foldl_wake_none (l : List Nat) (h : ∀ c ∈ l, (s.task c).state = .suspended) :
    l.foldl (fun s c => s.wake ch c none) s = { s with
      task := s.unblocked l
      ready := s.ready ++ l
      events := (l.map fun c => Event.woken c ch none).reverse ++ s.events } := by
  have hfold := foldl_wake (s := s) ch (l.map fun c => (c, (none : Option V))) fun p hp => ?_
  · rw [List.foldl_map] at hfold
    simpa [Function.comp_def] using hfold
  · obtain ⟨d, hd, rfl⟩ := List.mem_map.mp hp
    exact h d hd

theorem Clean.serve_eq (h : s.Clean) (ch : Nat) :
    s.serve ch = { s with
      task := s.unblocked ((s.served ch).map Prod.fst)
      ready := s.ready ++ (s.served ch).map Prod.fst
      chan := Function.update s.chan ch { s.chan ch with
        queue := (s.chan ch).queue.drop (s.chan ch).receivers.length, receivers := s.unserved ch }
      events := ((s.served ch).map fun p => Event.woken p.1 ch (some p.2)).reverse ++ s.events } := by
  unfold Sched.serve
  rw [foldl_wake_some]
  · rfl
  · intro p hp
    apply h.suspended_of_receiver ch
    rw [← s.served_append_unserved ch]
    exact List.mem_append_left _ (List.mem_map_of_mem hp)

/-- The steps of a worker. -/
def workerSteps (s : Sched V) (ch : Nat) (late : List (WorkerStep V)) : Sched V :=
  late.foldl (fun s step => s.workerStep ch step) s

theorem workerStep_eq (s : Sched V) (ch : Nat) (step : WorkerStep V) : ∃ chan events,
    s.workerStep ch step = { s with chan := Function.update s.chan ch chan, events := events } ∧
      chan.receivers = (s.chan ch).receivers ∧ chan.senders = (s.chan ch).senders ∧
      chan.result = (s.chan ch).result := by
  unfold workerStep
  split
  · cases step with
    | deliver v => exact ⟨_, _, rfl, rfl, rfl, rfl⟩
    | stop escaped => exact ⟨_, _, rfl, rfl, rfl, rfl⟩
  · refine ⟨s.chan ch, s.events, ?_, rfl, rfl, rfl⟩
    rw [Function.update_eq_self]

theorem workerSteps_eq (s : Sched V) (ch : Nat) (late : List (WorkerStep V)) : ∃ chan events,
    s.workerSteps ch late = { s with chan := Function.update s.chan ch chan, events := events } ∧
      chan.receivers = (s.chan ch).receivers ∧ chan.senders = (s.chan ch).senders ∧
      chan.result = (s.chan ch).result := by
  induction late generalizing s with
  | nil =>
      refine ⟨s.chan ch, s.events, ?_, rfl, rfl, rfl⟩
      rw [Function.update_eq_self]
      rfl
  | cons step late ih =>
      obtain ⟨chan, events, heq, hr, hs, hres⟩ := s.workerStep_eq ch step
      obtain ⟨chan', events', heq', hr', hs', hres'⟩ := ih (s.workerStep ch step)
      refine ⟨chan', events', ?_, ?_, ?_, ?_⟩
      · show (s.workerStep ch step).workerSteps ch late = _
        rw [heq', heq]
        simp
      · simpa [heq, hr] using hr'
      · simpa [heq, hs] using hs'
      · simpa [heq, hres] using hres'

theorem dismiss_eq (hsuspended : ∀ c ∈ (s.chan ch).receivers, (s.task c).state = .suspended) :
    s.dismiss ch =
      if (s.chan ch).closed then
        { s with
          task := s.unblocked (s.chan ch).receivers
          ready := s.ready ++ (s.chan ch).receivers
          chan := Function.update s.chan ch { s.chan ch with receivers := [] }
          ioChannels := s.ioChannels.erase ch
          recvChannels := s.recvChannels.filter (· ≠ ch)
          events := ((s.chan ch).receivers.map fun c => Event.woken c ch none).reverse ++ s.events }
      else
        { s with
          recvChannels := if (s.chan ch).receivers = [] then s.recvChannels.filter (· ≠ ch) else s.recvChannels } := by
  unfold Sched.dismiss
  by_cases hclosed : (s.chan ch).closed = true
  · rw [if_pos hclosed, if_pos hclosed]
    simp only []
    rw [foldl_wake_none]
    · rfl
    · exact hsuspended
  · rw [if_neg hclosed, if_neg hclosed]
    by_cases hnone : (s.chan ch).receivers = []
    · rw [if_pos hnone, if_pos hnone]
      rfl
    · rw [if_neg hnone, if_neg hnone]

/-- What draining a channel does. `chan` is the channel when the loop looks at whether it is closed. -/
theorem Clean.drainChannel_eq (h : s.Clean) (ch : Nat) (late : List (WorkerStep V)) : ∃ chan events,
    chan = ((s.serve ch).workerSteps ch late).chan ch ∧ chan.receivers = s.unserved ch ∧
      chan.senders = (s.chan ch).senders ∧ chan.result = (s.chan ch).result ∧
      s.drainChannel ch late =
        if chan.closed then
          { s with
            task := s.unblocked (s.chan ch).receivers
            ready := s.ready ++ (s.chan ch).receivers
            chan := Function.update s.chan ch { chan with receivers := [] }
            ioChannels := s.ioChannels.erase ch
            recvChannels := s.recvChannels.filter (· ≠ ch)
            events := events }
        else
          { s with
            task := s.unblocked ((s.served ch).map Prod.fst)
            ready := s.ready ++ (s.served ch).map Prod.fst
            chan := Function.update s.chan ch chan
            recvChannels := if chan.receivers = [] then s.recvChannels.filter (· ≠ ch) else s.recvChannels
            events := events } := by
  have happend := s.served_append_unserved ch
  obtain ⟨chan, events, heq, hreceivers, hsenders, hresult⟩ := (s.serve ch).workerSteps_eq ch late
  rw [h.serve_eq] at hreceivers hsenders hresult heq
  simp only [Function.update_self, Function.update_idem] at hreceivers hsenders hresult heq
  rw [← h.serve_eq] at heq
  refine ⟨chan, if chan.closed then (chan.receivers.map fun c => Event.woken c ch none).reverse ++ events else events, ?_,
    hreceivers, hsenders, hresult, ?_⟩
  · simp only [heq, Function.update_self]
  · show ((s.serve ch).workerSteps ch late).dismiss ch = _
    rw [heq, dismiss_eq]
    · simp only [Function.update_self, Function.update_idem]
      by_cases hclosed : chan.closed = true
      · simp only [hclosed, if_true]
        rw [unblocked_append ((s.served ch).map Prod.fst) _ rfl, hreceivers, List.append_assoc, happend]
      · rw [if_neg hclosed, if_neg hclosed, if_neg hclosed]
    · simp only [Function.update_self, hreceivers]
      intro d hd
      refine (unblocked_state).trans (h.suspended_of_receiver ch ?_)
      rw [← happend]
      exact List.mem_append_right _ hd

theorem Clean.drainChannel (h : s.Clean) (ch : Nat) (late : List (WorkerStep V)) : (s.drainChannel ch late).Clean := by
  have happend := s.served_append_unserved ch
  have hmem : ∀ d ∈ (s.served ch).map Prod.fst, d ∈ (s.chan ch).receivers :=
    fun d hd => happend ▸ List.mem_append_left _ hd
  obtain ⟨chan, events, -, hreceivers, hsenders, hresult, heq⟩ := h.drainChannel_eq ch late
  rw [heq]
  by_cases hclosed : chan.closed = true
  · rw [if_pos hclosed]
    refine Releases.clean (?_ : Releases s (s.chan ch).receivers (s.chan ch).receivers _) h
    refine h.releaseChannel ch (fun d hd => .inl hd) (h.receivers ch) (fun _ hd => hd) (List.nil_sublist _)
      (fun d => ?_) ?_ (fun d => ?_) hresult (.inl ⟨rfl, rfl⟩) (.inr ⟨rfl, .inr hsenders⟩)
    · simp
    · rw [hsenders]
    · rw [hsenders]
      exact ⟨fun hd => ⟨hd, fun hr => h.receiver_not_sender hr hd⟩, fun hd => hd.1⟩
  · rw [if_neg hclosed]
    have hnodup := h.receivers ch
    rw [← happend, List.nodup_append] at hnodup
    refine Releases.clean (?_ : Releases s ((s.served ch).map Prod.fst) ((s.served ch).map Prod.fst) _) h
    refine h.releaseChannel ch (fun d hd => .inl (hmem d hd)) hnodup.1 (fun _ hd => hd) ?_
      (fun d => ?_) ?_ (fun d => ?_) hresult ?_ (.inr ⟨rfl, .inr hsenders⟩)
    · rw [hreceivers]
      exact List.drop_sublist _ _
    · rw [hreceivers, ← happend, List.mem_append]
      constructor
      · exact fun hd => ⟨.inr hd, fun hs => hnodup.2.2 d hs d hd rfl⟩
      · rintro ⟨hd | hd, hn⟩
        · exact absurd hd hn
        · exact hd
    · rw [hsenders]
    · rw [hsenders]
      exact ⟨fun hd => ⟨hd, fun hr => h.receiver_not_sender (hmem d hr) hd⟩, fun hd => hd.1⟩
    · by_cases hnone : chan.receivers = []
      · rw [if_pos hnone]
        exact .inl ⟨rfl, hnone⟩
      · rw [if_neg hnone]
        exact .inr ⟨rfl, .inl hnone⟩

theorem Clean.drainIo (h : s.Clean) (late : Nat → List (WorkerStep V)) : (s.drainIo late).Clean := by
  unfold Sched.drainIo
  generalize s.ioChannels = channels
  induction channels generalizing s with
  | nil => exact h
  | cons ch channels ih => exact ih (h.drainChannel ch (late ch))

theorem Clean.drainTimers (h : s.Clean) (now : Nat) : (s.drainTimers now).Clean := by
  refine h.relist ?_ h.current
  have hsplit : (s.timers.takeWhile (·.1 ≤ now)).map Prod.snd ++ (s.timers.dropWhile (·.1 ≤ now)).map Prod.snd =
      s.timers.map Prod.snd := by
    rw [← List.map_append, List.takeWhile_append_dropWhile]
  have hsub : (s.ready ++ (((s.timers.takeWhile (·.1 ≤ now)).map Prod.snd).filter
      fun c => (s.task c).state ≠ .finished) ++ (s.timers.dropWhile (·.1 ≤ now)).map Prod.snd ++ s.driven).Sublist
      s.busy := by
    unfold busy
    rw [← hsplit, List.append_assoc s.ready]
    exact ((List.filter_sublist.append_right _).append_left _).append_right _
  exact hsub.subperm

theorem Clean.wakeOneSender_eq (h : s.Clean) (ch : Nat) :
    s.wakeOneSender ch = match (s.chan ch).senders with
      | [] => { s with sendChannels := s.sendChannels.filter (· ≠ ch) }
      | (sender, v) :: rest => { s with
          task := s.unblocked [sender]
          ready := s.ready ++ [sender]
          chan := Function.update s.chan ch { s.chan ch with queue := (s.chan ch).queue ++ [v], senders := rest }
          sendChannels := if rest = [] then s.sendChannels.filter (· ≠ ch) else s.sendChannels
          events := .entered ch v :: s.events } := by
  have hpassed : (s.chan ch).senders.dropWhile (fun p => (s.task p.1).state ≠ .suspended) = (s.chan ch).senders := by
    cases hsenders : (s.chan ch).senders with
    | nil => rfl
    | cons p rest =>
        have hstate : (s.task p.1).state = .suspended := h.suspended_of_sender ch (by simp [hsenders])
        rw [List.dropWhile_cons_of_neg]
        simp [hstate]
  unfold Sched.wakeOneSender
  simp only [hpassed]
  cases hsenders : (s.chan ch).senders with
  | nil =>
      simp [discardSend, Sched.setChan, ← hsenders]
  | cons p rest =>
      obtain ⟨sender, v⟩ := p
      have hstate : (s.task sender).state = .suspended := h.suspended_of_sender ch (by simp [hsenders])
      simp only [List.tail_cons]
      rw [unblock_eq, schedule_eq]
      · by_cases hrest : rest = []
        · simp only [hrest, ↓reduceIte]
          rfl
        · simp only [hrest, ↓reduceIte]
          rfl
      · show (s.unblocked [sender] sender).state ≠ .finished
        rw [unblocked_state, hstate]
        decide

theorem Clean.wakeOneSender (h : s.Clean) (ch : Nat) : (s.wakeOneSender ch).Clean := by
  rw [h.wakeOneSender_eq]
  cases hsenders : (s.chan ch).senders with
  | nil =>
      have hsame : s.sendChannels.filter (· ≠ ch) = s.sendChannels := by
        refine List.filter_eq_self.mpr fun ch' hch' => decide_eq_true fun he => ?_
        obtain ⟨d, hd⟩ := (h.sendChannels ch').mp hch'
        have hmem := (h.sent ch' d).mpr hd
        rw [he, hsenders] at hmem
        cases hmem
      simp only [hsame]
      exact h
  | cons p rest =>
      have hnodup := h.senders ch
      rw [hsenders, List.map_cons, List.nodup_cons] at hnodup
      refine Releases.clean (?_ : Releases s [p.1] [p.1] _) h
      refine h.releaseChannel ch (fun d hd => .inr ?_) (List.nodup_singleton _) (fun _ hd => hd) (List.Sublist.refl _)
        (fun d => ?_) ?_ (fun d => ?_) rfl (.inr ⟨rfl, .inr rfl⟩) ?_
      · rw [List.mem_singleton.mp hd, hsenders]
        exact List.mem_cons_self
      · refine ⟨fun hd => ⟨hd, fun hp => ?_⟩, fun hd => hd.1⟩
        rw [List.mem_singleton.mp hp] at hd
        apply h.receiver_not_sender hd
        rw [hsenders]
        exact List.mem_cons_self
      · rw [hsenders]
        exact List.sublist_cons_self p rest
      · rw [hsenders, List.map_cons, List.mem_cons, List.mem_singleton]
        constructor
        · exact fun hd => ⟨.inr hd, fun he => hnodup.1 (he ▸ hd)⟩
        · rintro ⟨hd | hd, hn⟩
          · exact absurd hd hn
          · exact hd
      · by_cases hrest : rest = []
        · rw [if_pos hrest]
          exact .inl ⟨rfl, by simp [hrest]⟩
        · rw [if_neg hrest]
          exact .inr ⟨rfl, .inl (by simpa using hrest)⟩

theorem Clean.close_eq (h : s.Clean) (hopen : (s.chan ch).closed = false) :
    s.close ch = { s with
      task := s.unblocked ((s.chan ch).senders.map Prod.fst ++ (s.chan ch).receivers)
      ready := s.ready ++ ((s.chan ch).senders.map Prod.fst ++ (s.chan ch).receivers)
      chan := Function.update s.chan ch { s.chan ch with
        closed := true, queue := (s.chan ch).queue ++ (s.chan ch).senders.map Prod.snd, senders := [], receivers := [] }
      recvChannels := s.recvChannels.filter (· ≠ ch)
      sendChannels := s.sendChannels.filter (· ≠ ch)
      events := ((s.chan ch).receivers.map fun c => Event.woken c ch none).reverse ++
        (((s.chan ch).senders.map fun p => Event.entered ch p.2).reverse ++ s.events) } := by
  unfold Sched.close
  simp only [hopen, Bool.false_eq_true, if_false]
  rw [foldl_flush]
  · rw [foldl_wake_none]
    · rw [unblocked_append ((s.chan ch).senders.map Prod.fst) _ rfl, List.append_assoc]
      rfl
    · exact fun d hd => (unblocked_state).trans (h.suspended_of_receiver ch hd)
  · exact fun p hp => h.suspended_of_sender ch (List.mem_map_of_mem hp)

theorem Clean.close (h : s.Clean) (ch : Nat) : (s.close ch).Clean := by
  cases hclosed : (s.chan ch).closed with
  | true =>
      have hsame : s.close ch = s := if_pos hclosed
      rw [hsame]
      exact h
  | false =>
      rw [h.close_eq hclosed]
      refine Releases.clean (?_ : Releases s ((s.chan ch).senders.map Prod.fst ++ (s.chan ch).receivers)
        ((s.chan ch).senders.map Prod.fst ++ (s.chan ch).receivers) _) h
      refine h.releaseChannel ch (fun d hd => (List.mem_append.mp hd).symm) ?_ (fun _ hd => hd) (List.nil_sublist _)
        (fun d => ?_) (List.nil_sublist _) (fun d => ?_) rfl (.inl ⟨rfl, rfl⟩) (.inl ⟨rfl, rfl⟩)
      · rw [List.nodup_append]
        exact ⟨h.senders ch, h.receivers ch, fun a ha b hb hab => h.receiver_not_sender hb (hab ▸ ha)⟩
      · rw [List.mem_append]
        exact ⟨fun hd => (by cases hd), fun hd => absurd (.inr hd.1) hd.2⟩
      · rw [List.mem_append]
        exact ⟨fun hd => (by cases hd), fun hd => absurd (.inl hd.1) hd.2⟩

/-! ### Parking -/

/-- A coroutine may park: it is in its own turn and its own execution loop, or it is resumed by hand and in no queue,
and is not being unwound. -/
def MayPark (s : Sched V) (c : Nat) (nested : Bool) : Prop :=
  (s.task c).cancelling = false ∧
    if nested then c ∈ s.tasks ∧ c ∉ s.busy ∧ (s.task c).blocked = none ∧ c ∉ s.waiters.map Prod.snd else c ∈ s.driven

theorem MayPark.clean {s₀ : Sched V} {b : Blocked} {nested : Bool} (hm : s₀.MayPark c nested) (h : s₀.Clean)
    (he : Enters s₀ c b s) (htask : s.task = s₀.task) (hdriven : s.driven = s₀.driven)
    (hcurrent : s.current = s₀.current) : (s.park c b nested).Clean := by
  obtain ⟨hcancelling, hplace⟩ := hm
  have hfacts : (s₀.task c).blocked = none ∧ c ∉ s₀.ready ++ s₀.timers.map Prod.snd ∧ c ∈ s₀.tasks ∧
      c ∉ s₀.waiters.map Prod.snd := by
    cases nested with
    | true =>
        obtain ⟨hc, hbusy, hb, hw⟩ := hplace
        exact ⟨hb, fun hq => hbusy (List.mem_append_left _ hq), hc, hw⟩
    | false =>
        have hbusy : c ∈ s₀.busy := Clean.busy_of_driven hplace
        exact ⟨h.free c hbusy, h.unqueued_of_driven hplace, h.owned c (.inl hbusy), h.notWaiting hbusy⟩
  obtain ⟨hfree, hunqueued, howned, hwaiting⟩ := hfacts
  have hparks : ∀ l k, (∀ d, k = some d → d ∈ l) → l = s₀.driven.erase c → Parks s₀ c b
      { s.setTask c fun t => { t with state := .suspended, blocked := some b } with driven := l, current := k } := by
    intro l k hk hl
    refine ⟨⟨he.tasks, he.ready, he.timers, he.channels, he.allocated, he.receivers, he.senders, he.result,
      he.sameResult, he.fresh, he.waiters, he.recvChannels, he.sendChannels⟩, hfree, hunqueued, howned, hwaiting,
      hcancelling, ?_, fun d hd => ?_, hl, hk⟩
    · simp [Sched.setTask, htask]
    · simp [Sched.setTask, htask, hd]
  cases nested with
  | true =>
      have hdc : c ∉ s₀.driven := fun hd => hplace.2.1 (List.mem_append_right _ hd)
      refine (hparks s.driven s.current ?_ ?_).clean h
      · rw [hdriven, hcurrent]
        exact h.current
      · rw [hdriven, List.erase_of_not_mem hdc]
  | false =>
      refine (hparks (s.driven.erase c) none ?_ ?_).clean h
      · exact fun d hd => by cases hd
      · rw [hdriven]

theorem mem_cons_filter_ne {l : List Nat} {x y : Nat} : y ∈ x :: l.filter (· ≠ x) ↔ y ∈ l ∨ x = y := by
  rw [List.mem_cons, List.mem_filter, decide_eq_true_iff]
  by_cases hyx : y = x
  · simp [hyx]
  · simp [hyx, Ne.symm hyx]

theorem Clean.recvParks (h : s.Clean) {nested : Bool} (hch : ch ∈ s.channels) (hresult : (s.chan ch).result = false)
    (hm : s.MayPark c nested) :
    (({ (s.setChan ch fun chan => { chan with receivers := chan.receivers ++ [c] }).log (.parked c ch) with
        recvChannels := ch :: s.recvChannels.filter (· ≠ ch) } : Sched V).park c (.recv ch) nested).Clean := by
  refine hm.clean h ?_ rfl rfl rfl
  refine ⟨rfl, rfl, rfl, fun _ hd => hd, fun ch' hch' => ?_, fun ch' => ?_, fun ch' => ?_, fun ch' => ⟨fun hb => ?_, ?_⟩,
    fun ch' _ => ?_, ?_, (List.append_nil _).symm, fun ch' => ?_, fun ch' => ?_⟩
  · have hne : ch' ≠ ch := fun he => hch' (he ▸ hch)
    simp [Sched.setChan, log, hne]
  · by_cases hne : ch' = ch
    · subst hne
      simp [Sched.setChan, log]
    · simp [Sched.setChan, log, hne, Ne.symm hne]
  · by_cases hne : ch' = ch
    · subst hne
      simp [Sched.setChan, log]
    · simp [Sched.setChan, log, hne]
  · cases hb
    simpa [Sched.setChan, log] using hresult
  · exact fun hb => by cases hb
  · by_cases hne : ch' = ch
    · subst hne
      simp [Sched.setChan, log]
    · simp [Sched.setChan, log, hne]
  · exact fun _ hb => by cases hb
  · rw [mem_cons_filter_ne]
    simp
  · simp [Sched.setChan, log]

theorem Clean.sendParks (h : s.Clean) {nested : Bool} {v : V} (hch : ch ∈ s.channels) (hm : s.MayPark c nested) :
    (({ s.setChan ch fun chan => { chan with senders := chan.senders ++ [(c, v)] } with
        sendChannels := ch :: s.sendChannels.filter (· ≠ ch) } : Sched V).park c (.send ch) nested).Clean := by
  refine hm.clean h ?_ rfl rfl rfl
  refine ⟨rfl, rfl, rfl, fun _ hd => hd, fun ch' hch' => ?_, fun ch' => ?_, fun ch' => ?_, fun ch' => ⟨?_, ?_⟩,
    fun ch' _ => ?_, ?_, (List.append_nil _).symm, fun ch' => ?_, fun ch' => ?_⟩
  · have hne : ch' ≠ ch := fun he => hch' (he ▸ hch)
    simp [Sched.setChan, hne]
  · by_cases hne : ch' = ch
    · subst hne
      simp [Sched.setChan]
    · simp [Sched.setChan, hne]
  · by_cases hne : ch' = ch
    · subst hne
      simp [Sched.setChan]
    · simp [Sched.setChan, hne, Ne.symm hne]
  · exact fun hb => by cases hb
  · exact fun hb => by cases hb
  · by_cases hne : ch' = ch
    · subst hne
      simp [Sched.setChan]
    · simp [Sched.setChan, hne]
  · exact fun _ hb => by cases hb
  · simp [Sched.setChan]
  · rw [mem_cons_filter_ne]
    simp

theorem Clean.waitParks (h : s.Clean) {nested : Bool} (target : Nat) (hm : s.MayPark c nested) :
    (({ s with waiters := s.waiters ++ [(target, c)] } : Sched V).park c (.wait target) nested).Clean := by
  refine hm.clean h ?_ rfl rfl rfl
  exact ⟨rfl, rfl, rfl, fun _ hd => hd, fun _ _ => rfl, fun _ => by simp, fun _ => by simp,
    fun _ => ⟨fun hb => (by cases hb), fun hb => (by cases hb)⟩, fun _ _ => rfl, fun _ hb => (by cases hb), rfl,
    fun _ => by simp, fun _ => by simp⟩

theorem Clean.ioParks (h : s.Clean) {nested : Bool} (hch : ch ∉ s.channels) (io : List Nat) (events : List (Event V))
    (hm : s.MayPark c nested) :
    (({ s.newChannel ch { receivers := [c], worker := some .running, result := true } with
        ioChannels := io, events := events } : Sched V).park c (.io ch) nested).Clean := by
  refine hm.clean h ?_ rfl rfl rfl
  obtain ⟨hr, hs⟩ := h.allocated ch hch
  refine ⟨rfl, rfl, rfl, fun _ hd => List.mem_cons_of_mem _ hd, fun ch' hch' => ?_, fun ch' => ?_, fun ch' => ?_,
    fun ch' => ⟨?_, fun hb => ?_⟩, fun ch' hb => ?_, fun ch' hb => ?_, (List.append_nil _).symm, fun ch' => ?_,
    fun ch' => ?_⟩
  · have hne : ch' ≠ ch := fun he => hch' (he ▸ List.mem_cons_self)
    simp [newChannel, Sched.setChan, hne]
  · by_cases hne : ch' = ch
    · subst hne
      simp [newChannel, Sched.setChan, hr]
    · simp [newChannel, Sched.setChan, hne, Ne.symm hne]
  · by_cases hne : ch' = ch
    · subst hne
      simp [newChannel, Sched.setChan, hs]
    · simp [newChannel, Sched.setChan, hne]
  · exact fun hb => by cases hb
  · cases hb
    simp [newChannel, Sched.setChan]
  · have hne : ch' ≠ ch := fun he => hb (congrArg Blocked.io he.symm)
    simp [newChannel, Sched.setChan, hne]
  · cases hb
    exact hch
  · simp [newChannel, Sched.setChan]
  · simp [newChannel, Sched.setChan]

/-! ### The operations -/

theorem Clean.recv (h : s.Clean) {me : Option Nat} {nested : Bool} (hch : ch ∈ s.channels)
    (hresult : (s.chan ch).result = false)
    (hm : (s.chan ch).queue = [] → (s.chan ch).closed = false → ∀ c, me = some c → s.MayPark c nested) :
    (s.recv me ch nested).Clean := by
  unfold Sched.recv
  cases hqueue : (s.chan ch).queue with
  | cons v rest => exact (h.setChan _ rfl rfl rfl _ _).wakeOneSender ch
  | nil =>
      cases hclosed : (s.chan ch).closed with
      | true => exact h
      | false =>
          cases me with
          | none => exact h
          | some c => exact h.recvParks hch hresult (hm hqueue hclosed c rfl)

theorem Clean.send_receiver (h : s.Clean) {me : Option Nat} {v : V} {nested : Bool} {receiver : Nat} {rest : List Nat}
    (hopen : (s.chan ch).closed = false) (hreceivers : (s.chan ch).receivers = receiver :: rest) :
    s.send me ch v nested = { s with
      task := s.unblocked [receiver]
      ready := s.ready ++ [receiver]
      chan := Function.update s.chan ch { s.chan ch with receivers := rest }
      recvChannels := if rest = [] then s.recvChannels.filter (· ≠ ch) else s.recvChannels
      events := .woken receiver ch (some v) :: .entered ch v :: s.events } := by
  have hmem : receiver ∈ (s.chan ch).receivers := hreceivers ▸ List.mem_cons_self
  have hstate : (s.task receiver).state = .suspended := h.suspended_of_receiver ch hmem
  unfold Sched.send
  simp only []
  rw [if_neg (by simp [hopen])]
  simp only [hreceivers]
  rw [unblock_eq, schedule_eq]
  · by_cases hrest : rest = []
    · rw [if_pos hrest, if_pos hrest]
      rfl
    · rw [if_neg hrest, if_neg hrest]
      rfl
  · show (s.unblocked [receiver] receiver).state ≠ .finished
    rw [unblocked_state, hstate]
    decide

theorem Clean.send (h : s.Clean) {me : Option Nat} {v : V} {nested : Bool} (hch : ch ∈ s.channels)
    (hm : (s.chan ch).closed = false → (s.chan ch).receivers = [] →
      0 < (s.chan ch).maxsize ∧ (s.chan ch).maxsize ≤ (s.chan ch).queue.length → ∀ c, me = some c → s.current = some c →
      s.MayPark c nested) : (s.send me ch v nested).Clean := by
  cases hclosed : (s.chan ch).closed with
  | true =>
      have hsame : s.send me ch v nested = s := if_pos hclosed
      rw [hsame]
      exact h
  | false =>
      cases hreceivers : (s.chan ch).receivers with
      | nil =>
          unfold Sched.send
          simp only [hclosed, hreceivers, Bool.false_eq_true, if_false]
          split
          · next hfull =>
              cases me with
              | none => exact h
              | some c =>
                  by_cases hcurrent : s.current = some c
                  · simp only [hcurrent, if_true]
                    exact h.sendParks hch (hm hclosed hreceivers hfull c rfl hcurrent)
                  · simp only [hcurrent, if_false]
                    exact h
          · exact h.setChan _ rfl rfl rfl _ _
      | cons receiver rest =>
          have hmem : receiver ∈ (s.chan ch).receivers := hreceivers ▸ List.mem_cons_self
          have hnodup := h.receivers ch
          rw [hreceivers, List.nodup_cons] at hnodup
          rw [h.send_receiver hclosed hreceivers]
          refine Releases.clean (?_ : Releases s [receiver] [receiver] _) h
          refine h.releaseChannel ch (fun d hd => .inl ?_) (List.nodup_singleton _) (fun _ hd => hd) ?_ (fun d => ?_)
            (List.Sublist.refl _) (fun d => ?_) rfl ?_ (.inr ⟨rfl, .inr rfl⟩)
          · rw [List.mem_singleton.mp hd]
            exact hmem
          · rw [hreceivers]
            exact List.sublist_cons_self receiver rest
          · rw [hreceivers, List.mem_cons, List.mem_singleton]
            constructor
            · exact fun hd => ⟨.inr hd, fun he => hnodup.1 (he ▸ hd)⟩
            · rintro ⟨hd | hd, hn⟩
              · exact absurd hd hn
              · exact hd
          · refine ⟨fun hd => ⟨hd, fun hr => ?_⟩, fun hd => hd.1⟩
            rw [List.mem_singleton.mp hr] at hd
            exact h.receiver_not_sender hmem hd
          · by_cases hrest : rest = []
            · rw [if_pos hrest]
              exact .inl ⟨rfl, hrest⟩
            · rw [if_neg hrest]
              exact .inr ⟨rfl, .inl hrest⟩

theorem Clean.wait (h : s.Clean) {me : Option Nat} {target : Nat} {nested : Bool}
    (hm : (s.task target).known = true → (s.task target).state ≠ .finished → ∀ c, me = some c → s.current = some c →
      c ≠ target → s.MayPark c nested) : (s.wait me target nested).Clean := by
  unfold Sched.wait
  split
  · exact h
  · next hready =>
      cases me with
      | none => exact h
      | some c =>
          simp only []
          split
          · next hcurrent =>
              refine h.waitParks target (hm ?_ ?_ c rfl hcurrent.1 hcurrent.2)
              · simpa using (not_or.mp hready).1
              · exact (not_or.mp hready).2
          · exact h

theorem Clean.callAsync (h : s.Clean) {me : Option Nat} {nested : Bool} (hch : ch ∉ s.channels)
    (hm : ∀ c, me = some c → s.current = some c → s.MayPark c nested) : (s.callAsync me ch nested).Clean := by
  unfold Sched.callAsync
  cases me with
  | none => exact h
  | some c =>
      simp only []
      split
      · next hcurrent => exact h.ioParks hch _ _ (hm c rfl hcurrent)
      · exact h

theorem foldl_log (ch : Nat) (values : List V) (s : Sched V) :
    values.foldl (fun s v => s.log (.entered ch v)) s =
      { s with events := (values.map (Event.entered ch)).reverse ++ s.events } := by
  induction values generalizing s with
  | nil => rfl
  | cons v values ih =>
      rw [List.foldl_cons, ih]
      simp [log]

theorem Clean.openStream (h : s.Clean) (hch : ch ∉ s.channels) (values : List V) (ended : Bool) :
    (s.openStream ch values ended).Clean := by
  unfold Sched.openStream
  simp only [foldl_log]
  exact h.addChannel hch rfl rfl _ _

theorem Clean.notBusy (h : s.Clean) (hc : (s.task c).blocked ≠ none) : c ∉ s.busy := fun hb => hc (h.free c hb)

theorem unblocked_free (hc : (s.task c).blocked = none) : s.unblocked [c] = s.task := by
  funext d
  unfold unblocked
  split
  · next hd =>
      rw [List.mem_singleton.mp hd, ← hc]
  · rfl

theorem Clean.unparkChannel (h : s.Clean) {chan : Chan V} {recvs sends : List Nat} {events : List (Event V)}
    (hc : c ∈ (s.chan ch).receivers ∨ c ∈ (s.chan ch).senders.map Prod.fst)
    (hreceivers : chan.receivers = (s.chan ch).receivers.filter (· ≠ c))
    (hsenders : chan.senders = (s.chan ch).senders.filter (·.1 ≠ c)) (hresult : chan.result = (s.chan ch).result)
    (hrecvs : Kept chan.receivers s.recvChannels recvs ch (chan.receivers = (s.chan ch).receivers))
    (hsends : Kept (chan.senders.map Prod.fst) s.sendChannels sends ch (chan.senders = (s.chan ch).senders)) :
    ({ s with
        task := s.unblocked [c]
        chan := Function.update s.chan ch chan
        recvChannels := recvs
        sendChannels := sends
        events := events } : Sched V).Clean := by
  have hr : Releases s [c] [] { s with
      task := s.unblocked [c]
      ready := s.ready ++ []
      chan := Function.update s.chan ch chan
      recvChannels := recvs
      sendChannels := sends
      events := events } := by
    refine h.releaseChannel ch (fun d hd => ?_) List.nodup_nil (fun d hd => by cases hd) ?_ (fun d => ?_) ?_
      (fun d => ?_) hresult hrecvs hsends
    · rw [List.mem_singleton.mp hd]
      exact hc
    · rw [hreceivers]
      exact List.filter_sublist
    · rw [hreceivers, List.mem_filter, decide_eq_true_iff, List.mem_singleton]
    · rw [hsenders]
      exact List.filter_sublist
    · rw [hsenders, List.mem_singleton]
      constructor
      · intro hd
        obtain ⟨p, hp, rfl⟩ := List.mem_map.mp hd
        obtain ⟨hp, hne⟩ := List.mem_filter.mp hp
        exact ⟨List.mem_map_of_mem hp, of_decide_eq_true hne⟩
      · rintro ⟨hd, hne⟩
        obtain ⟨p, hp, rfl⟩ := List.mem_map.mp hd
        exact List.mem_map_of_mem (List.mem_filter.mpr ⟨hp, decide_eq_true hne⟩)
  have hclean := hr.clean h
  simp only [List.append_nil] at hclean
  exact hclean

theorem Clean.unparkSender (h : s.Clean) (hc : c ∈ (s.chan ch).senders.map Prod.fst) :
    (let s' := s.setChan ch fun chan => { chan with senders := chan.senders.filter (·.1 ≠ c) }
     (if (s'.chan ch).senders = [] then s'.discardSend ch else s').unblock c).Clean := by
  have hreceivers : (s.chan ch).receivers = (s.chan ch).receivers.filter (· ≠ c) := by
    refine (List.filter_eq_self.mpr fun d hd => ?_).symm
    rw [decide_eq_true_iff]
    exact fun he => h.receiver_not_sender (he ▸ hd) hc
  simp only [Sched.setChan, Function.update_self]
  by_cases hnone : (s.chan ch).senders.filter (fun p => p.1 ≠ c) = []
  · rw [if_pos hnone, unblock_eq]
    exact h.unparkChannel (.inr hc) hreceivers rfl rfl (.inr ⟨rfl, .inr rfl⟩) (.inl ⟨rfl, by rw [hnone]; rfl⟩)
  · rw [if_neg hnone, unblock_eq]
    exact h.unparkChannel (.inr hc) hreceivers rfl rfl (.inr ⟨rfl, .inr rfl⟩) (.inr ⟨rfl, .inl (by simpa using hnone)⟩)

theorem Clean.unparkReceiver (h : s.Clean) (hc : c ∈ (s.chan ch).receivers) :
    (let s' := (s.setChan ch fun chan => { chan with receivers := chan.receivers.filter (· ≠ c) }).log (.unparked c ch)
     (if (s'.chan ch).receivers = [] then s'.discardRecv ch else s').unblock c).Clean := by
  have hsenders : (s.chan ch).senders = (s.chan ch).senders.filter (·.1 ≠ c) := by
    refine (List.filter_eq_self.mpr fun p hp => ?_).symm
    rw [decide_eq_true_iff]
    exact fun he => h.receiver_not_sender hc (he ▸ List.mem_map_of_mem hp)
  simp only [Sched.setChan, log, Function.update_self]
  by_cases hnone : (s.chan ch).receivers.filter (fun d => d ≠ c) = []
  · rw [if_pos hnone, unblock_eq]
    exact h.unparkChannel (.inl hc) rfl hsenders rfl (.inl ⟨rfl, hnone⟩) (.inr ⟨rfl, .inr rfl⟩)
  · rw [if_neg hnone, unblock_eq]
    exact h.unparkChannel (.inl hc) rfl hsenders rfl (.inr ⟨rfl, .inl hnone⟩) (.inr ⟨rfl, .inr rfl⟩)

theorem Clean.unpark (h : s.Clean) (c : Nat) : (s.unpark c).Clean := by
  have hlists : (s.task c).blocked ≠ none → s.ready.erase c = s.ready ∧ s.timers.filter (·.2 ≠ c) = s.timers := by
    intro hc
    have hb := h.notBusy hc
    refine ⟨List.erase_of_not_mem fun hr => hb ?_, List.filter_eq_self.mpr fun p hp => decide_eq_true fun he => hb ?_⟩
    · exact List.mem_append_left _ (List.mem_append_left _ hr)
    · exact List.mem_append_left _ (List.mem_append_right _ (he ▸ List.mem_map_of_mem hp))
  unfold Sched.unpark
  simp only []
  cases hc : (s.task c).blocked with
  | none =>
      rw [unblock_eq]
      have hfree : ({ s with ready := s.ready.erase c, timers := s.timers.filter (·.2 ≠ c) } : Sched V).unblocked [c] =
          s.task := unblocked_free hc
      rw [hfree]
      refine h.relist ?_ h.current
      exact (((List.erase_sublist).append (List.filter_sublist.map Prod.snd)).append_right _).subperm
  | some b =>
      obtain ⟨hready, htimers⟩ := hlists (by simp [hc])
      rw [hready, htimers]
      cases b with
      | send ch => exact h.unparkSender ((h.sent ch c).mpr hc)
      | recv ch => exact h.unparkReceiver ((h.received ch c).mpr (.inl hc))
      | io ch => exact h.unparkReceiver ((h.received ch c).mpr (.inr hc))
      | wait target =>
          rw [unblock_eq]
          have hother : ∀ d b, (s.task d).blocked = some b → b ≠ .wait target → d ∉ [c] := by
            intro d b hb hne hd
            rw [List.mem_singleton.mp hd, hc] at hb
            exact hne (Option.some.inj hb).symm
          have hr : Releases s [c] [] { s with task := s.unblocked [c], ready := s.ready ++ [] } := by
            refine ⟨rfl, rfl, rfl, rfl, rfl, rfl, rfl, fun _ => rfl, List.nodup_nil, fun d hd => (by cases hd),
              fun d hd => (by cases hd), fun d hd => ?_, fun ch => ?_, fun ch => ?_, List.Sublist.refl _,
              fun _ hp _ => hp, fun _ _ => List.not_mem_nil, fun ch => ?_, fun ch => ?_⟩
            · rw [List.mem_singleton.mp hd]
              exact h.notBusy (by simp [hc])
            · refine ⟨List.Sublist.refl _, fun d => ⟨fun hd => ⟨hd, ?_⟩, fun hd => hd.1⟩⟩
              rcases (h.received ch d).mp hd with hb | hb
              · exact hother d _ hb (by simp)
              · exact hother d _ hb (by simp)
            · refine ⟨List.Sublist.refl _, fun d => ⟨fun hd => ⟨hd, ?_⟩, fun hd => hd.1⟩⟩
              exact hother d _ ((h.sent ch d).mp hd) (by simp)
            · simp only [unblocked_eq_some]
              refine ⟨fun hm => ⟨hm, ?_⟩, fun hm => hm.1⟩
              obtain ⟨d, hd⟩ := (h.recvChannels ch).mp hm
              exact ⟨d, hother d _ hd (by simp), hd⟩
            · simp only [unblocked_eq_some]
              refine ⟨fun hm => ⟨hm, ?_⟩, fun hm => hm.1⟩
              obtain ⟨d, hd⟩ := (h.sendChannels ch).mp hm
              exact ⟨d, hother d _ hd (by simp), hd⟩
          have hclean := hr.clean h
          simp only [List.append_nil] at hclean
          exact hclean

theorem unpark_blocked (s : Sched V) (c : Nat) : ((s.unpark c).task c).blocked = none := by
  unfold Sched.unpark
  simp [unblock, Sched.setTask]

theorem Clean.cancel (h : s.Clean) (c : Nat) : (s.cancel c).Clean := by
  unfold Sched.cancel
  simp only []
  split
  · exact h
  · have hfree := s.unpark_blocked c
    split
    · exact (((h.unpark c).settle hfree).markCompleted c).releaseWaiters c
    · exact (h.unpark c).setTask _ rfl rfl (fun _ => rfl) fun _ => .inr hfree

/-- A coroutine that no queue holds, and that no task has given its outcome yet. -/
structure Unplaced (s : Sched V) (c : Nat) : Prop where
  idle : c ∉ s.busy
  free : (s.task c).blocked = none
  notWaiting : c ∉ s.waiters.map Prod.snd
  ours : (s.task c).known = true → c ∈ s.tasks

theorem Clean.ensureMetadata (h : s.Clean) (hc : s.Unplaced c) :
    (s.ensureMetadata c).Clean ∧ (s.ensureMetadata c).Unplaced c ∧ c ∈ (s.ensureMetadata c).tasks := by
  unfold Sched.ensureMetadata
  split
  · next hknown => exact ⟨h, hc, hc.ours hknown⟩
  · refine ⟨Rearranges.clean (s := s) ?_ h, ⟨hc.idle, ?_, hc.notWaiting, fun _ => List.mem_append_right _ ?_⟩,
      List.mem_append_right _ ?_⟩
    · refine ⟨fun d => ?_, fun d hd => ?_, fun d _ => ?_, fun d hd => ?_, rfl, rfl, rfl, rfl, rfl,
        fun d hd => List.mem_append_left _ hd, h.nodup, fun _ hd => .inl hd, h.current⟩
      all_goals by_cases hdc : d = c
      · subst hdc
        simp [Sched.setTask]
      · simp [Sched.setTask, hdc]
      · subst hdc
        simp [Sched.setTask]
      · have hmem : d ∈ s.tasks := by simpa [hdc] using hd
        simpa [Sched.setTask, hdc] using h.known d hmem
      · subst hdc
        simp [Sched.setTask]
      · simp [Sched.setTask, hdc]
      · subst hdc
        exact .inr hc.free
      · exact .inl (by simpa [Sched.setTask, hdc] using hd)
    · simpa [Sched.setTask] using hc.free
    · exact List.mem_singleton.mpr rfl
    · exact List.mem_singleton.mpr rfl

theorem Clean.admit (h : s.Clean) (hc : s.Unplaced c) (howned : c ∈ s.tasks) {ready : List Nat}
    {timers : List (Nat × Nat)} (hperm : (ready ++ timers.map Prod.snd).Perm (c :: (s.ready ++ s.timers.map Prod.snd))) :
    ({ s with ready := ready, timers := timers } : Sched V).Clean := by
  have hbusy : ({ s with ready := ready, timers := timers } : Sched V).busy.Perm (c :: s.busy) :=
    hperm.append_right s.driven
  refine Rearranges.clean (s := s) ⟨fun _ => rfl, h.known, fun _ _ => rfl, fun _ hd => .inl hd, rfl, rfl, rfl, rfl, rfl,
    fun _ hd => hd, ?_, fun d hd => ?_, h.current⟩ h
  · rw [hbusy.nodup_iff, List.nodup_cons]
    exact ⟨hc.idle, h.nodup⟩
  · rcases List.mem_cons.mp (hbusy.mem_iff.mp hd) with rfl | hd
    · exact .inr ⟨hc.free, howned, hc.notWaiting⟩
    · exact .inl hd

theorem insertTimer_perm (wake c : Nat) (timers : List (Nat × Nat)) :
    ((insertTimer wake c timers).map Prod.snd).Perm (c :: timers.map Prod.snd) := by
  induction timers with
  | nil => exact List.Perm.refl _
  | cons entry rest ih =>
      unfold insertTimer
      split
      · exact (ih.cons entry.2).trans (List.Perm.swap _ _ _)
      · exact List.Perm.refl _

theorem Clean.spawn (h : s.Clean) (hc : (s.task c).state ≠ .finished → s.Unplaced c) : (s.spawn c).Clean := by
  unfold Sched.spawn
  split
  · exact h
  · next hstate =>
      obtain ⟨h', hc', howned⟩ := h.ensureMetadata (hc hstate)
      refine h'.admit hc' howned ?_
      rw [List.append_assoc]
      exact List.perm_middle

theorem Clean.spawnAfter (h : s.Clean) (wake : Nat) (hc : (s.task c).state ≠ .finished → s.Unplaced c) :
    (s.spawnAfter c wake).Clean := by
  unfold Sched.spawnAfter
  split
  · exact h
  · next hstate =>
      obtain ⟨h', hc', howned⟩ := h.ensureMetadata (hc hstate)
      refine h'.admit hc' howned ?_
      exact ((insertTimer_perm wake c _).append_left _).trans List.perm_middle

theorem Clean.suspend (h : s.Clean) (hc : c ∈ s.driven) {ready : List Nat} {timers : List (Nat × Nat)}
    (hsub : (ready ++ timers.map Prod.snd).Subperm (c :: (s.ready ++ s.timers.map Prod.snd))) :
    ({ s.suspend c with ready := ready, timers := timers } : Sched V).Clean := by
  have hfree := h.free c (Clean.busy_of_driven hc)
  have hset : (s.setTask c fun t => { t with state := .suspended }).Clean :=
    h.setTask _ rfl rfl (fun hb => absurd hfree hb) .inl
  refine hset.relist ?_ fun d hd => by cases hd
  refine ((List.subperm_append_right (s.driven.erase c)).mpr hsub).trans (List.Perm.subperm ?_)
  rw [List.cons_append]
  refine List.perm_middle.symm.trans ?_
  exact (List.perm_cons_erase hc).symm.append_left _

theorem Clean.take (h : s.Clean) : s.take.Clean := by
  unfold Sched.take
  cases hready : s.ready with
  | nil => exact h
  | cons c rest =>
      have hbusy : c ∈ s.busy := List.mem_append_left _ (List.mem_append_left _ (hready ▸ List.mem_cons_self))
      have hfree := h.free c hbusy
      have hsub : (rest ++ s.timers.map Prod.snd ++ s.driven).Sublist s.busy := by
        unfold busy
        rw [hready]
        exact (((List.sublist_cons_self c rest).append_right _).append_right _)
      have hperm : (rest ++ s.timers.map Prod.snd ++ c :: s.driven).Perm s.busy := by
        unfold busy
        rw [hready, List.cons_append, List.cons_append]
        exact List.perm_middle
      have hrun : ({ s.setTask c fun t => { t with state := .running } with
          ready := rest, current := some c, driven := c :: s.driven } : Sched V).Clean := by
        have hset : (s.setTask c fun t => { t with state := .running }).Clean :=
          h.setTask _ rfl rfl (fun hb => absurd hfree hb) .inl
        exact hset.relist hperm.subperm fun d hd => Option.some.inj hd ▸ List.mem_cons_self
      simp only []
      cases hstate : (s.task c).state with
      | finished => exact h.relist hsub.subperm h.current
      | running =>
          refine Clean.markCompleted (Clean.releaseWaiters ?_ c) c
          exact h.relist hsub.subperm fun d hd => by cases hd
      | created => exact hrun
      | suspended => exact hrun

theorem Clean.refuse (h : s.Clean) (entered : Bool) : (s.refuse entered).Clean := by
  unfold Sched.refuse
  cases hready : s.ready with
  | nil => exact h
  | cons c rest =>
      have hbusy : c ∈ s.busy := List.mem_append_left _ (List.mem_append_left _ (hready ▸ List.mem_cons_self))
      have hfree := h.free c hbusy
      have hsub : (rest ++ s.timers.map Prod.snd ++ s.driven).Sublist s.busy := by
        unfold busy
        rw [hready]
        exact (((List.sublist_cons_self c rest).append_right _).append_right _)
      simp only []
      split
      · exact h.relist hsub.subperm h.current
      · apply Clean.markCompleted
        apply Clean.releaseWaiters
        cases entered with
        | false => exact h.relist hsub.subperm fun d hd => by cases hd
        | true =>
            have hset : (s.setTask c fun t => { t with state := .running }).Clean :=
              h.setTask _ rfl rfl (fun hb => absurd hfree hb) .inl
            exact hset.relist hsub.subperm fun d hd => by cases hd

theorem Clean.takeTimedOut (h : s.Clean) (unwinds : Bool) : (s.takeTimedOut unwinds).Clean := by
  unfold Sched.takeTimedOut
  cases hready : s.ready with
  | nil => exact h
  | cons c rest =>
      have hbusy : c ∈ s.busy := List.mem_append_left _ (List.mem_append_left _ (hready ▸ List.mem_cons_self))
      have hsub : (rest ++ s.timers.map Prod.snd ++ s.driven).Sublist s.busy := by
        unfold busy
        rw [hready]
        exact (((List.sublist_cons_self c rest).append_right _).append_right _)
      have hrest : ({ s with ready := rest } : Sched V).Clean := h.relist hsub.subperm h.current
      simp only []
      split
      · exact hrest
      · split
        · exact hrest.setTask _ rfl rfl (fun _ => rfl) fun _ => .inr (h.free c hbusy)
        · exact hrest.markCompleted c

/-! ### Runs -/

/-- An operation keeps the registries in order: a coroutine is spawned while no queue holds it, it is resumed by hand
while it is not parked, and it parks only when it may. -/
def Allowed (s : Sched V) : Op V → Prop
  | .spawn c | .spawnAfter c _ => (s.task c).state ≠ .finished → s.Unplaced c
  | .send me ch _ nested =>
      (s.chan ch).closed = false → (s.chan ch).receivers = [] →
        0 < (s.chan ch).maxsize ∧ (s.chan ch).maxsize ≤ (s.chan ch).queue.length →
        ∀ c, me = some c → s.current = some c → s.MayPark c nested
  | .recv me ch nested =>
      (s.chan ch).queue = [] → (s.chan ch).closed = false → ∀ c, me = some c → s.MayPark c nested
  | .wait me target nested =>
      (s.task target).known = true → (s.task target).state ≠ .finished →
        ∀ c, me = some c → s.current = some c → c ≠ target → s.MayPark c nested
  | .callAsync me _ nested => ∀ c, me = some c → s.current = some c → s.MayPark c nested
  | .resume c _ => (s.task c).blocked = none
  | _ => True

theorem Clean.perform (h : s.Clean) (op : Op V) (hop : s.Allowed op) : (s.perform op).Clean := by
  cases op with
  | newChannel ch maxsize =>
      simp only [Sched.perform]
      split
      · exact h
      · next hch => exact h.addChannel hch rfl rfl _ _
  | spawn c => exact h.spawn hop
  | spawnAfter c wake => exact h.spawnAfter wake hop
  | send me ch v nested =>
      simp only [Sched.perform]
      split
      · exact h
      · next hch => exact h.send (by simpa using (not_or.mp hch).1) hop
  | recv me ch nested =>
      simp only [Sched.perform]
      split
      · exact h
      · next hch => exact h.recv (by simpa using (not_or.mp hch).1) (by simpa using (not_or.mp hch).2) hop
  | close ch =>
      simp only [Sched.perform]
      split
      · exact h
      · exact h.close ch
  | wait me target nested => exact h.wait hop
  | cancel c => exact h.cancel c
  | unwound c timedOut =>
      simp only [Sched.perform]
      split
      · next hc => exact h.unwound (h.cancelling c hc) timedOut
      · exact h
  | callAsync me ch nested =>
      simp only [Sched.perform]
      split
      · exact h
      · next hch => exact h.callAsync hch hop
  | openStream ch values ended =>
      simp only [Sched.perform]
      split
      · exact h
      · next hch => exact h.openStream hch values ended
  | closeStream ch =>
      simp only [Sched.perform]
      split
      · exact h
      · exact h.setChan _ rfl rfl rfl _ _
  | resume c state =>
      simp only [Sched.perform]
      split
      · exact h
      · exact h.setTask _ rfl rfl (fun hb => absurd hop hb) .inl
  | drainTimers now => exact h.drainTimers now
  | drainIo late => exact h.drainIo late
  | take => exact h.take
  | refuse entered => exact h.refuse entered
  | takeTimedOut unwinds => exact h.takeTimedOut unwinds
  | yieldTurn c =>
      simp only [Sched.perform]
      split
      · next hc =>
          refine h.suspend hc (List.Perm.subperm ?_)
          show (s.ready ++ [c] ++ s.timers.map Prod.snd).Perm _
          rw [List.append_assoc]
          exact List.perm_middle
      · exact h
  | sleep c wake =>
      simp only [Sched.perform]
      split
      · next hc =>
          refine h.suspend hc (List.Perm.subperm ?_)
          exact ((insertTimer_perm wake c s.timers).append_left s.ready).trans List.perm_middle
      · exact h
  | drop c =>
      simp only [Sched.perform]
      split
      · next hc => exact h.suspend hc (List.sublist_cons_self _ _).subperm
      · exact h
  | finish c failed =>
      simp only [Sched.perform]
      split
      · next hc => exact h.finish (h.free c (Clean.busy_of_driven hc)) failed
      · exact h
  | worker ch step =>
      obtain ⟨chan, events, heq, hr, hs, hres⟩ := s.workerStep_eq ch step
      simp only [Sched.perform]
      rw [heq]
      exact h.setChan (fun _ => chan) hr hs hres s.ioChannels events
  | pump ch =>
      simp only [Sched.perform, Sched.pump]
      split
      · exact h
      · split
        · exact h.setChan _ rfl rfl rfl _ _
        · exact h

/-- Every operation of a run is allowed in the state it is performed in. -/
def AllAllowed (s : Sched V) : List (Op V) → Prop
  | [] => True
  | op :: ops => s.Allowed op ∧ (s.perform op).AllAllowed ops

theorem Clean.run (h : s.Clean) (ops : List (Op V)) (hops : s.AllAllowed ops) : (s.run ops).Clean := by
  induction ops generalizing s with
  | nil => exact h
  | cons op ops ih => exact ih (h.perform op hops.1) hops.2

end Sched

end Nodus.Scheduling

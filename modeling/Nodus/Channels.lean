import Nodus.Workers

/-! The channels a program makes: what their queues and the lists of those parked on them have to do with each other, and
that values come out in the order they were sent. -/

namespace Nodus.Scheduling

variable {V : Type}

namespace Chan

/-- What holds of a channel that no thread feeds: the queue keeps to the capacity, if there is one, until the channel is
closed; receivers are parked only at an empty queue, and senders only at a full one. -/
structure Orderly (chan : Chan V) : Prop where
  capacity : 0 < chan.maxsize → chan.closed = false → chan.queue.length ≤ chan.maxsize
  receivers : chan.receivers ≠ [] → chan.queue = [] ∧ chan.senders = []
  senders : chan.senders ≠ [] → 0 < chan.maxsize ∧ chan.queue.length = chan.maxsize
  closed : chan.closed = true → chan.receivers = [] ∧ chan.senders = []

variable {chan : Chan V}

theorem Orderly.open_of_senders (h : chan.Orderly) (hs : chan.senders ≠ []) : chan.closed = false := by
  cases hclosed : chan.closed with
  | false => rfl
  | true => exact absurd (h.closed hclosed).2 hs

theorem Orderly.receivers_of_queue (h : chan.Orderly) (hq : chan.queue ≠ []) : chan.receivers = [] := by
  by_contra hne
  exact hq (h.receivers hne).1

theorem Orderly.unpark (h : chan.Orderly) {receivers : List Nat} {senders : List (Nat × V)}
    (hr : receivers.Sublist chan.receivers) (hs : senders.Sublist chan.senders) :
    Orderly { chan with receivers := receivers, senders := senders } := by
  have hreceivers : chan.receivers = [] → receivers = [] := fun hnil => List.sublist_nil.mp (hnil ▸ hr)
  have hsenders : chan.senders = [] → senders = [] := fun hnil => List.sublist_nil.mp (hnil ▸ hs)
  refine ⟨h.capacity, fun hne => ?_, fun hne => ?_, fun hclosed => ?_⟩
  · obtain ⟨hq, hnil⟩ := h.receivers fun hnil => hne (hreceivers hnil)
    exact ⟨hq, hsenders hnil⟩
  · exact h.senders fun hnil => hne (hsenders hnil)
  · exact ⟨hreceivers (h.closed hclosed).1, hsenders (h.closed hclosed).2⟩

theorem Orderly.senders_of_room (h : chan.Orderly) (hroom : ¬ (0 < chan.maxsize ∧ chan.maxsize ≤ chan.queue.length)) :
    chan.senders = [] := by
  by_contra hne
  obtain ⟨hpos, hfull⟩ := h.senders hne
  exact hroom ⟨hpos, Nat.le_of_eq hfull.symm⟩

theorem Orderly.append (h : chan.Orderly) (hroom : ¬ (0 < chan.maxsize ∧ chan.maxsize ≤ chan.queue.length))
    (hr : chan.receivers = []) (v : V) : Orderly { chan with queue := chan.queue ++ [v] } := by
  have hs := h.senders_of_room hroom
  refine ⟨fun hpos _ => ?_, fun hne => absurd hr hne, fun hne => absurd hs hne, fun _ => ⟨hr, hs⟩⟩
  rw [List.length_append]
  exact Nat.lt_of_not_le fun hle => hroom ⟨hpos, hle⟩

theorem Orderly.parkSender (h : chan.Orderly) (hfull : 0 < chan.maxsize ∧ chan.maxsize ≤ chan.queue.length)
    (hopen : chan.closed = false) (hr : chan.receivers = []) (p : Nat × V) :
    Orderly { chan with senders := chan.senders ++ [p] } := by
  refine ⟨h.capacity, fun hne => absurd hr hne, fun _ => ⟨hfull.1, ?_⟩, fun hclosed => ?_⟩
  · exact Nat.le_antisymm (h.capacity hfull.1 hopen) hfull.2
  · have hclosed : chan.closed = true := hclosed
    rw [hopen] at hclosed
    cases hclosed

theorem Orderly.parkReceiver (h : chan.Orderly) (hq : chan.queue = []) (hopen : chan.closed = false) (c : Nat) :
    Orderly { chan with receivers := chan.receivers ++ [c] } := by
  have hs : chan.senders = [] := by
    apply h.senders_of_room
    rw [hq]
    exact fun hfull => Nat.not_le_of_lt hfull.1 hfull.2
  refine ⟨h.capacity, fun _ => ⟨hq, hs⟩, h.senders, fun hclosed => ?_⟩
  have hclosed : chan.closed = true := hclosed
  rw [hopen] at hclosed
  cases hclosed

theorem Orderly.promote (h : chan.Orderly) {v : V} {queue : List V} (hq : chan.queue = v :: queue) {p : Nat × V}
    {senders : List (Nat × V)} (hs : (p :: senders).Sublist chan.senders) :
    Orderly { chan with queue := queue ++ [p.2], senders := senders } := by
  have hr : chan.receivers = [] := h.receivers_of_queue (by simp [hq])
  have hne : chan.senders ≠ [] := by
    intro hnil
    rw [hnil] at hs
    cases List.sublist_nil.mp hs
  have hlen : (queue ++ [p.2]).length = chan.maxsize := by
    have hfull := (h.senders hne).2
    rw [hq] at hfull
    simpa using hfull
  refine ⟨fun _ _ => Nat.le_of_eq hlen, fun hne => absurd hr hne, fun _ => ⟨(h.senders hne).1, hlen⟩, fun hclosed => ?_⟩
  have hclosed : chan.closed = true := hclosed
  rw [h.open_of_senders hne] at hclosed
  cases hclosed

theorem Orderly.take (h : chan.Orderly) {v : V} {queue : List V} (hq : chan.queue = v :: queue) :
    Orderly { chan with queue := queue, senders := [] } := by
  have hr : chan.receivers = [] := h.receivers_of_queue (by simp [hq])
  refine ⟨fun hpos hopen => ?_, fun hne => absurd hr hne, fun hne => absurd rfl hne, fun _ => ⟨hr, rfl⟩⟩
  have hle := h.capacity hpos hopen
  rw [hq] at hle
  exact Nat.le_of_succ_le hle

theorem orderly_close (queue : List V) : Orderly { chan with
    closed := true, queue := queue, senders := [], receivers := [] } :=
  ⟨fun _ hopen => (by cases hopen), fun hne => absurd rfl hne, fun hne => absurd rfl hne, fun _ => ⟨rfl, rfl⟩⟩

theorem orderly_new (maxsize : Nat) : Orderly ({ maxsize := maxsize } : Chan V) :=
  ⟨fun _ _ => Nat.zero_le _, fun hne => absurd rfl hne, fun hne => absurd rfl hne, fun _ => ⟨rfl, rfl⟩⟩

end Chan

namespace Sched

/-- The channels with a thread have no capacity, and the others are in order. -/
structure Orderly (s : Sched V) : Prop where
  fed : ∀ ch, (s.chan ch).worker ≠ none → (s.chan ch).maxsize = 0 ∧ ch ∈ s.channels
  io : ∀ ch ∈ s.ioChannels, (s.chan ch).worker ≠ none ∧ ch ∈ s.channels
  plain : ∀ ch, (s.chan ch).worker = none → (s.chan ch).Orderly

variable {s s' : Sched V} {ch : Nat}

/-- The channels are the same. -/
structure SameChannels (s s' : Sched V) : Prop where
  chan : s'.chan = s.chan
  io : s'.ioChannels = s.ioChannels
  channels : s'.channels = s.channels

theorem SameChannels.trans {s'' : Sched V} (h : SameChannels s s') (h' : SameChannels s' s'') : SameChannels s s'' :=
  ⟨h'.chan.trans h.chan, h'.io.trans h.io, h'.channels.trans h.channels⟩

theorem Orderly.of_same (h : s.Orderly) (hs : SameChannels s s') : s'.Orderly := by
  refine ⟨fun ch => ?_, fun ch => ?_, fun ch => ?_⟩
  · rw [hs.chan, hs.channels]
    exact h.fed ch
  · rw [hs.chan, hs.io, hs.channels]
    exact h.io ch
  · rw [hs.chan]
    exact h.plain ch

theorem Orderly.update (h : s.Orderly) {chan : Chan V} (hchan : s'.chan = Function.update s.chan ch chan)
    (hchannels : s.channels ⊆ s'.channels) (hfed : chan.worker ≠ none → chan.maxsize = 0 ∧ ch ∈ s'.channels)
    (hplain : chan.worker = none → chan.Orderly)
    (hio : ∀ ch' ∈ s'.ioChannels, ch' ∈ s'.channels ∧ (ch' ≠ ch ∧ ch' ∈ s.ioChannels ∨ ch' = ch ∧ chan.worker ≠ none)) :
    s'.Orderly := by
  have hself : s'.chan ch = chan := by rw [hchan, Function.update_self]
  have hother : ∀ ch', ch' ≠ ch → s'.chan ch' = s.chan ch' := by
    intro ch' hne
    rw [hchan, Function.update_of_ne hne]
  refine ⟨fun ch' hw => ?_, fun ch' hch' => ?_, fun ch' hw => ?_⟩
  · by_cases hne : ch' = ch
    · subst hne
      rw [hself] at hw ⊢
      exact hfed hw
    · rw [hother ch' hne] at hw ⊢
      exact ⟨(h.fed ch' hw).1, hchannels (h.fed ch' hw).2⟩
  · obtain ⟨hmem, ⟨hne, hch'⟩ | ⟨rfl, hw⟩⟩ := hio ch' hch'
    · rw [hother ch' hne]
      exact ⟨(h.io ch' hch').1, hmem⟩
    · rw [hself]
      exact ⟨hw, hmem⟩
  · by_cases hne : ch' = ch
    · subst hne
      rw [hself] at hw ⊢
      exact hplain hw
    · rw [hother ch' hne] at hw ⊢
      exact h.plain ch' hw

theorem Orderly.setChan (h : s.Orderly) (ch : Nat) (f : Chan V → Chan V)
    (hmax : (f (s.chan ch)).maxsize = (s.chan ch).maxsize) (hworker : (f (s.chan ch)).worker = (s.chan ch).worker)
    (hplain : (s.chan ch).Orderly → (f (s.chan ch)).Orderly) : (s.setChan ch f).Orderly := by
  have hchan : (s.setChan ch f).chan = Function.update s.chan ch (f (s.chan ch)) := rfl
  refine h.update hchan (fun _ hch' => hch') (fun hw => ?_) (fun hw => ?_) fun ch' hch' => ⟨(h.io ch' hch').2, ?_⟩
  · rw [hmax]
    exact h.fed ch (hworker ▸ hw)
  · exact hplain (h.plain ch (hworker ▸ hw))
  · by_cases hne : ch' = ch
    · subst hne
      rw [hworker]
      exact .inr ⟨rfl, (h.io _ hch').1⟩
    · exact .inl ⟨hne, hch'⟩

/-! ### What the operations do to the channels -/

theorem foldl_same {α : Type} {f : Sched V → α → Sched V} (hf : ∀ s a, SameChannels s (f s a)) (l : List α)
    (s : Sched V) : SameChannels s (l.foldl f s) := by
  induction l generalizing s with
  | nil => exact ⟨rfl, rfl, rfl⟩
  | cons a l ih => exact (hf s a).trans (ih (f s a))

theorem same_wake (s : Sched V) (ch c : Nat) (v : Option V) : SameChannels s (s.wake ch c v) := by
  unfold wake
  split
  · exact ⟨rfl, rfl, rfl⟩
  · cases v with
    | none => exact ⟨rfl, rfl, rfl⟩
    | some v => exact ⟨rfl, rfl, rfl⟩

theorem same_schedule (s : Sched V) (c : Nat) : SameChannels s (s.schedule c) := by
  unfold schedule
  split
  · exact ⟨rfl, rfl, rfl⟩
  · exact ⟨rfl, rfl, rfl⟩

theorem same_park (s : Sched V) (c : Nat) (b : Blocked) (nested : Bool) : SameChannels s (s.park c b nested) := by
  unfold park
  split
  · exact ⟨rfl, rfl, rfl⟩
  · exact ⟨rfl, rfl, rfl⟩

theorem same_releaseWaiters (s : Sched V) (c : Nat) : SameChannels s (s.releaseWaiters c) := by
  rw [releaseWaiters_eq]
  exact ⟨rfl, rfl, rfl⟩

theorem same_markCompleted (s : Sched V) (c : Nat) : SameChannels s (s.markCompleted c) := by
  unfold markCompleted
  split
  · exact ⟨rfl, rfl, rfl⟩
  · have hset : SameChannels s (s.setTask c fun t => { t with completed := true }) := ⟨rfl, rfl, rfl⟩
    exact hset.trans (same_releaseWaiters _ c)

theorem same_ensureMetadata (s : Sched V) (c : Nat) : SameChannels s (s.ensureMetadata c) := by
  unfold ensureMetadata
  split
  · exact ⟨rfl, rfl, rfl⟩
  · exact ⟨rfl, rfl, rfl⟩

/-- One channel has changed, and has the capacity it had, and a thread if it had one. -/
structure Changes (s : Sched V) (ch : Nat) (s' : Sched V) : Prop where
  chan : ∃ chan : Chan V, s'.chan = Function.update s.chan ch chan ∧ chan.maxsize = (s.chan ch).maxsize ∧
    chan.result = (s.chan ch).result ∧ (chan.worker = none ↔ (s.chan ch).worker = none)
  io : ∀ ch' ∈ s'.ioChannels, ch' ∈ s.ioChannels
  channels : s'.channels = s.channels

theorem Changes.trans {s'' : Sched V} (h : Changes s ch s') (h' : Changes s' ch s'') : Changes s ch s'' := by
  obtain ⟨chan, hchan, hmax, hresult, hworker⟩ := h.chan
  obtain ⟨chan', hchan', hmax', hresult', hworker'⟩ := h'.chan
  rw [hchan, Function.update_self] at hmax' hresult' hworker'
  refine ⟨⟨chan', ?_, hmax'.trans hmax, hresult'.trans hresult, hworker'.trans hworker⟩, fun ch' hch' => h.io ch' (h'.io ch' hch'),
    h'.channels.trans h.channels⟩
  rw [hchan', hchan, Function.update_idem]

theorem SameChannels.changes (h : SameChannels s s') : Changes s ch s' := by
  refine ⟨⟨s.chan ch, ?_, rfl, rfl, Iff.rfl⟩, fun ch' hch' => h.io ▸ hch', h.channels⟩
  rw [h.chan, Function.update_eq_self]

theorem Changes.worker (h : Changes s ch s') (ch' : Nat) : (s'.chan ch').worker = none ↔ (s.chan ch').worker = none := by
  obtain ⟨chan, hchan, -, -, hworker⟩ := h.chan
  rw [hchan]
  by_cases hne : ch' = ch
  · subst hne
    rw [Function.update_self]
    exact hworker
  · rw [Function.update_of_ne hne]

theorem Changes.orderly (hc : Changes s ch s') (h : s.Orderly) (hw : (s.chan ch).worker ≠ none) : s'.Orderly := by
  obtain ⟨chan, hchan, hmax, -, hworker⟩ := hc.chan
  have hw' : chan.worker ≠ none := fun hnone => hw (hworker.mp hnone)
  have hsub : s.channels ⊆ s'.channels := fun ch' hch' => hc.channels ▸ hch'
  refine h.update hchan hsub (fun _ => ⟨hmax.trans (h.fed ch hw).1, hsub (h.fed ch hw).2⟩)
    (fun hnone => absurd hnone hw') fun ch' hch' => ?_
  rw [hc.channels]
  refine ⟨(h.io ch' (hc.io ch' hch')).2, ?_⟩
  by_cases hne : ch' = ch
  · exact .inr ⟨hne, hw'⟩
  · exact .inl ⟨hne, hc.io ch' hch'⟩

theorem changes_setChan (s : Sched V) (ch : Nat) (f : Chan V → Chan V)
    (hmax : (f (s.chan ch)).maxsize = (s.chan ch).maxsize) (hresult : (f (s.chan ch)).result = (s.chan ch).result)
    (hworker : (f (s.chan ch)).worker = (s.chan ch).worker) : Changes s ch (s.setChan ch f) :=
  ⟨⟨_, rfl, hmax, hresult, by rw [hworker]⟩, fun _ hch' => hch', rfl⟩

theorem changes_serve (s : Sched V) (ch : Nat) : Changes s ch (s.serve ch) := by
  refine (s.changes_setChan ch _ ?_ ?_ ?_).trans
    (foldl_same (fun s (p : Nat × V) => s.same_wake ch p.1 (some p.2)) _ _).changes
  · rfl
  · rfl
  · rfl

theorem changes_workerStep (s : Sched V) (ch : Nat) (step : WorkerStep V) : Changes s ch (s.workerStep ch step) := by
  unfold workerStep
  split
  · next hworker =>
      cases step with
      | deliver v => exact ⟨⟨_, rfl, rfl, rfl, Iff.rfl⟩, fun _ hch' => hch', rfl⟩
      | stop escaped => exact ⟨⟨_, rfl, rfl, rfl, by simp [hworker]⟩, fun _ hch' => hch', rfl⟩
  · exact (⟨rfl, rfl, rfl⟩ : SameChannels s s).changes

theorem changes_workerSteps (s : Sched V) (ch : Nat) (late : List (WorkerStep V)) :
    Changes s ch (s.workerSteps ch late) := by
  induction late generalizing s with
  | nil => exact (⟨rfl, rfl, rfl⟩ : SameChannels s s).changes
  | cons step late ih => exact (s.changes_workerStep ch step).trans (ih (s.workerStep ch step))

theorem changes_dismiss (s : Sched V) (ch : Nat) : Changes s ch (s.dismiss ch) := by
  unfold dismiss
  split
  · have hwoken := (s.changes_setChan ch (fun chan => { chan with receivers := [] }) rfl rfl rfl).trans
      (foldl_same (fun s c => s.same_wake ch c none) (s.chan ch).receivers _).changes
    exact ⟨hwoken.chan, fun ch' hch' => hwoken.io ch' (List.mem_of_mem_erase hch'), hwoken.channels⟩
  · split
    · exact (⟨rfl, rfl, rfl⟩ : SameChannels s (s.discardRecv ch)).changes
    · exact (⟨rfl, rfl, rfl⟩ : SameChannels s s).changes

theorem changes_drainChannel (s : Sched V) (ch : Nat) (late : List (WorkerStep V)) :
    Changes s ch (s.drainChannel ch late) :=
  ((s.changes_serve ch).trans (changes_workerSteps _ ch late)).trans (changes_dismiss _ ch)

theorem Orderly.drainIo (h : s.Orderly) (late : Nat → List (WorkerStep V)) : (s.drainIo late).Orderly := by
  have hdrain : ∀ (channels : List Nat) (s : Sched V), s.Orderly → (∀ ch ∈ channels, (s.chan ch).worker ≠ none) →
      (channels.foldl (fun s ch => s.drainChannel ch (late ch)) s).Orderly := by
    intro channels
    induction channels with
    | nil => exact fun _ h _ => h
    | cons ch channels ih =>
        intro s h hw
        have hchanges := s.changes_drainChannel ch (late ch)
        refine ih _ (hchanges.orderly h (hw ch List.mem_cons_self)) fun ch' hch' => ?_
        rw [ne_eq, hchanges.worker]
        exact hw ch' (List.mem_cons_of_mem _ hch')
  exact hdrain s.ioChannels s h fun ch hch => (h.io ch hch).1

theorem Orderly.send (h : s.Orderly) (me : Option Nat) (ch : Nat) (v : V) (nested : Bool) :
    (s.send me ch v nested).Orderly := by
  unfold Sched.send
  simp only []
  split
  · exact h
  · next hopen =>
      have hopen : (s.chan ch).closed = false := by simpa using hopen
      split
      · next receiver rest hreceivers =>
          have hsent : ((((s.setChan ch fun chan => { chan with receivers := rest }).unblock receiver).log
              (.entered ch v)).log (.woken receiver ch (some v))).Orderly := by
            have hpopped := h.setChan ch (fun chan => { chan with receivers := rest }) rfl rfl fun hplain => ?_
            · exact hpopped.of_same ⟨rfl, rfl, rfl⟩
            refine hplain.unpark ?_ (List.Sublist.refl _)
            rw [hreceivers]
            exact List.sublist_cons_self receiver rest
          have hscheduled := hsent.of_same (same_schedule _ receiver)
          split
          · exact hscheduled.of_same ⟨rfl, rfl, rfl⟩
          · exact hscheduled
      · next hreceivers =>
          split
          · next hfull =>
              cases me with
              | none => exact h
              | some c =>
                  simp only []
                  split
                  · have hparked := h.setChan ch (fun chan => { chan with senders := chan.senders ++ [(c, v)] }) rfl rfl
                      fun hplain => hplain.parkSender hfull hopen hreceivers (c, v)
                    refine Orderly.of_same ?_ (same_park _ c (.send ch) nested)
                    exact hparked.of_same ⟨rfl, rfl, rfl⟩
                  · exact h
          · next hroom =>
              have hqueued := h.setChan ch (fun chan => { chan with queue := chan.queue ++ [v] }) rfl rfl
                fun hplain => hplain.append hroom hreceivers v
              exact hqueued.of_same ⟨rfl, rfl, rfl⟩

theorem Orderly.received (h : s.Orderly) {v : V} {rest : List V} (hq : (s.chan ch).queue = v :: rest) :
    (((s.setChan ch fun chan => { chan with queue := rest }).log (.taken ch v)).wakeOneSender ch).Orderly := by
  set taken := (s.setChan ch fun chan => { chan with queue := rest }).log (.taken ch v) with htaken
  have hchan : taken.chan = Function.update s.chan ch { s.chan ch with queue := rest } := rfl
  have hself : taken.chan ch = { s.chan ch with queue := rest } := by rw [hchan, Function.update_self]
  have hsub := List.dropWhile_sublist (fun p : Nat × V => decide ((taken.task p.1).state ≠ .suspended))
    (l := (s.chan ch).senders)
  unfold wakeOneSender
  simp only [hself]
  generalize List.dropWhile _ _ = passed at hsub
  cases passed with
  | nil =>
      have hnone : (taken.setChan ch fun chan => { chan with senders := [] }).Orderly := by
        have hsome := h.setChan ch (fun chan => { chan with queue := rest, senders := [] }) rfl rfl
          fun hplain => hplain.take hq
        refine hsome.of_same ⟨?_, rfl, rfl⟩
        simp [Sched.setChan, hchan]
      split
      · exact hnone.of_same ⟨rfl, rfl, rfl⟩
      · exact hnone
  | cons p passed =>
      have hsent : (((taken.setChan ch fun chan => { chan with
          queue := chan.queue ++ [p.2], senders := passed }).unblock p.1).log (.entered ch p.2)).Orderly := by
        have hsome := h.setChan ch (fun chan => { chan with queue := rest ++ [p.2], senders := passed }) rfl rfl
          fun hplain => hplain.promote hq hsub
        refine hsome.of_same ⟨?_, rfl, rfl⟩
        simp [Sched.setChan, unblock, setTask, log, hchan]
      have hdone := hsent.of_same (same_schedule _ p.1)
      split
      · exact hdone.of_same ⟨rfl, rfl, rfl⟩
      · exact hdone

theorem Orderly.recv (h : s.Orderly) (me : Option Nat) (ch : Nat) (nested : Bool) : (s.recv me ch nested).Orderly := by
  unfold Sched.recv
  split
  · next v rest hq => exact h.received hq
  · next hq =>
      split
      · exact h
      · next hopen =>
          cases me with
          | none => exact h
          | some c =>
              simp only []
              have hparked := h.setChan ch (fun chan => { chan with receivers := chan.receivers ++ [c] }) rfl rfl
                fun hplain => hplain.parkReceiver hq (by simpa using hopen) c
              refine Orderly.of_same ?_ (same_park _ c (.recv ch) nested)
              exact hparked.of_same ⟨rfl, rfl, rfl⟩

theorem Orderly.close (h : s.Orderly) (ch : Nat) : (s.close ch).Orderly := by
  unfold Sched.close
  simp only []
  split
  · exact h
  · set closed := s.setChan ch fun chan => { chan with
      closed := true, queue := chan.queue ++ chan.senders.map Prod.snd, senders := [], receivers := [] } with hclosed
    have hflush : ∀ (s : Sched V) (p : Nat × V), SameChannels s
        (let s' := s.log (.entered ch p.2)
          if (s'.task p.1).state = .suspended then (s'.unblock p.1).schedule p.1 else s') := by
      intro s p
      simp only []
      split
      · have hunblocked : SameChannels s ((s.log (.entered ch p.2)).unblock p.1) := ⟨rfl, rfl, rfl⟩
        exact hunblocked.trans (same_schedule _ p.1)
      · exact ⟨rfl, rfl, rfl⟩
    have hbounded : closed.Orderly := h.setChan ch _ rfl rfl fun _ => Chan.orderly_close _
    have hflushed := hbounded.of_same (foldl_same hflush (s.chan ch).senders closed)
    exact (hflushed.of_same (foldl_same (fun s c => s.same_wake ch c none) (s.chan ch).receivers _)).of_same
      ⟨rfl, rfl, rfl⟩

theorem Orderly.unpark (h : s.Orderly) (c : Nat) : (s.unpark c).Orderly := by
  unfold Sched.unpark
  simp only []
  have hstart : ({ s with ready := s.ready.erase c, timers := s.timers.filter (·.2 ≠ c) } : Sched V).Orderly :=
    h.of_same ⟨rfl, rfl, rfl⟩
  have hreceivers : ∀ ch, (({ s with ready := s.ready.erase c, timers := s.timers.filter (·.2 ≠ c) } : Sched V).setChan ch
      fun chan => { chan with receivers := chan.receivers.filter (· ≠ c) }).Orderly := by
    intro ch
    apply hstart.setChan ch _ rfl rfl
    exact fun hplain => hplain.unpark List.filter_sublist (List.Sublist.refl _)
  cases (s.task c).blocked with
  | none => exact hstart.of_same ⟨rfl, rfl, rfl⟩
  | some b =>
      cases b with
      | wait target => exact hstart.of_same ⟨rfl, rfl, rfl⟩
      | send ch =>
          have hsenders : (({ s with ready := s.ready.erase c, timers := s.timers.filter (·.2 ≠ c) } : Sched V).setChan ch
              fun chan => { chan with senders := chan.senders.filter (·.1 ≠ c) }).Orderly := by
            apply hstart.setChan ch _ rfl rfl
            exact fun hplain => hplain.unpark (List.Sublist.refl _) List.filter_sublist
          simp only []
          split
          · exact hsenders.of_same ⟨rfl, rfl, rfl⟩
          · exact hsenders.of_same ⟨rfl, rfl, rfl⟩
      | recv ch =>
          simp only []
          split
          · exact (hreceivers ch).of_same ⟨rfl, rfl, rfl⟩
          · exact (hreceivers ch).of_same ⟨rfl, rfl, rfl⟩
      | io ch =>
          simp only []
          split
          · exact (hreceivers ch).of_same ⟨rfl, rfl, rfl⟩
          · exact (hreceivers ch).of_same ⟨rfl, rfl, rfl⟩

theorem Orderly.cancel (h : s.Orderly) (c : Nat) : (s.cancel c).Orderly := by
  unfold Sched.cancel
  simp only []
  split
  · exact h
  · split
    · exact (((h.unpark c).of_same ⟨rfl, rfl, rfl⟩ : ((s.unpark c).settle c).Orderly).of_same (same_markCompleted _ c)).of_same (same_releaseWaiters _ c)
    · exact (h.unpark c).of_same ⟨rfl, rfl, rfl⟩

theorem Orderly.newChannel (h : s.Orderly) (hch : ch ∉ s.channels) (maxsize : Nat) :
    (s.newChannel ch { maxsize := maxsize }).Orderly := by
  have hchan : (s.newChannel ch { maxsize := maxsize }).chan = Function.update s.chan ch { maxsize := maxsize } := rfl
  refine h.update hchan (fun _ hch' => List.mem_cons_of_mem _ hch') (fun hw => absurd rfl hw)
    (fun _ => Chan.orderly_new maxsize) fun ch' hch' => ?_
  have hmem : ch' ∈ s.channels := (h.io ch' hch').2
  exact ⟨List.mem_cons_of_mem _ hmem, .inl ⟨fun he => hch (he ▸ hmem), hch'⟩⟩

theorem Orderly.newFed (h : s.Orderly) (hch : ch ∉ s.channels) (chan : Chan V) (hmax : chan.maxsize = 0)
    (hw : chan.worker ≠ none) : ({ s.newChannel ch chan with ioChannels := s.ioChannels ++ [ch] } : Sched V).Orderly := by
  have hchan : ({ s.newChannel ch chan with ioChannels := s.ioChannels ++ [ch] } : Sched V).chan =
      Function.update s.chan ch chan := rfl
  refine h.update hchan (fun _ hch' => List.mem_cons_of_mem _ hch') (fun _ => ⟨hmax, List.mem_cons_self⟩)
    (fun hnone => absurd hnone hw) fun ch' hch' => ?_
  rcases List.mem_append.mp hch' with hch' | hch'
  · have hmem : ch' ∈ s.channels := (h.io ch' hch').2
    exact ⟨List.mem_cons_of_mem _ hmem, .inl ⟨fun he => hch (he ▸ hmem), hch'⟩⟩
  · rw [List.mem_singleton.mp hch']
    exact ⟨List.mem_cons_self, .inr ⟨rfl, hw⟩⟩

theorem Orderly.perform (h : s.Orderly) (op : Op V) : (s.perform op).Orderly := by
  cases op with
  | newChannel ch maxsize =>
      simp only [Sched.perform]
      split
      · exact h
      · next hch => exact h.newChannel hch maxsize
  | spawn c =>
      simp only [Sched.perform, Sched.spawn]
      split
      · exact h
      · exact (h.of_same (same_ensureMetadata s c)).of_same ⟨rfl, rfl, rfl⟩
  | spawnAfter c wake =>
      simp only [Sched.perform, Sched.spawnAfter]
      split
      · exact h
      · exact (h.of_same (same_ensureMetadata s c)).of_same ⟨rfl, rfl, rfl⟩
  | send me ch v nested =>
      simp only [Sched.perform]
      split
      · exact h
      · exact h.send me ch v nested
  | recv me ch nested =>
      simp only [Sched.perform]
      split
      · exact h
      · exact h.recv me ch nested
  | close ch =>
      simp only [Sched.perform]
      split
      · exact h
      · exact h.close ch
  | wait me target nested =>
      simp only [Sched.perform, Sched.wait]
      split
      · exact h
      · split
        · split
          · refine Orderly.of_same ?_ (same_park _ _ (.wait target) nested)
            exact h.of_same ⟨rfl, rfl, rfl⟩
          · exact h
        · exact h
  | cancel c => exact h.cancel c
  | unwound c timedOut =>
      simp only [Sched.perform, Sched.unwound]
      have hsettled : (s.settle c).Orderly := h.of_same ⟨rfl, rfl, rfl⟩
      split
      · split
        · exact hsettled.of_same (same_markCompleted _ c)
        · exact (hsettled.of_same (same_markCompleted _ c)).of_same (same_releaseWaiters _ c)
      · exact h
  | callAsync me ch nested =>
      simp only [Sched.perform, Sched.callAsync]
      split
      · exact h
      · next hch =>
          split
          · next c =>
              split
              · have hnew := h.newFed hch { receivers := [c], worker := some .running, result := true } rfl
                  (Option.some_ne_none _)
                refine Orderly.of_same ?_ (same_park _ c (.io ch) nested)
                exact hnew.of_same ⟨rfl, rfl, rfl⟩
              · exact h
          · exact h
  | openStream ch values ended =>
      simp only [Sched.perform, Sched.openStream]
      split
      · exact h
      · next hch =>
          have hnew := h.newFed hch
            { queue := values, closed := ended, worker := some (if ended then .ended else .running) } rfl
            (Option.some_ne_none _)
          rw [foldl_log]
          exact hnew.of_same ⟨rfl, rfl, rfl⟩
  | closeStream ch =>
      simp only [Sched.perform, Sched.closeStream]
      split
      · exact h
      · next hworker =>
          have hchanges : Changes s ch (s.setChan ch fun chan => { chan with closed := true }) :=
            s.changes_setChan ch _ rfl rfl rfl
          have hclosed := hchanges.orderly h (not_or.mp hworker).1
          exact ⟨hclosed.fed, fun ch' hch' => hclosed.io ch' (List.mem_of_mem_erase hch'), hclosed.plain⟩
  | resume c state =>
      simp only [Sched.perform]
      split
      · exact h
      · exact h.of_same ⟨rfl, rfl, rfl⟩
  | drainTimers now => exact h.of_same ⟨rfl, rfl, rfl⟩
  | drainIo late => exact h.drainIo late
  | take =>
      simp only [Sched.perform, Sched.take]
      split
      · exact h
      · split
        · exact h.of_same ⟨rfl, rfl, rfl⟩
        · refine Orderly.of_same (Orderly.of_same ?_ (same_releaseWaiters _ _)) (same_markCompleted _ _)
          exact h.of_same ⟨rfl, rfl, rfl⟩
        · exact h.of_same ⟨rfl, rfl, rfl⟩
  | refuse entered =>
      simp only [Sched.perform, Sched.refuse]
      split
      · exact h
      · split
        · exact h.of_same ⟨rfl, rfl, rfl⟩
        · refine Orderly.of_same (Orderly.of_same ?_ (same_releaseWaiters _ _)) (same_markCompleted _ _)
          split
          · exact h.of_same ⟨rfl, rfl, rfl⟩
          · exact h.of_same ⟨rfl, rfl, rfl⟩
  | takeTimedOut unwinds =>
      simp only [Sched.perform, Sched.takeTimedOut]
      split
      · exact h
      · split
        · exact h.of_same ⟨rfl, rfl, rfl⟩
        · split
          · exact h.of_same ⟨rfl, rfl, rfl⟩
          · refine Orderly.of_same ?_ (same_markCompleted _ _)
            exact h.of_same ⟨rfl, rfl, rfl⟩
  | yieldTurn c =>
      simp only [Sched.perform]
      split
      · exact h.of_same ⟨rfl, rfl, rfl⟩
      · exact h
  | sleep c wake =>
      simp only [Sched.perform]
      split
      · exact h.of_same ⟨rfl, rfl, rfl⟩
      · exact h
  | drop c =>
      simp only [Sched.perform]
      split
      · exact h.of_same ⟨rfl, rfl, rfl⟩
      · exact h
  | finish c failed =>
      simp only [Sched.perform, Sched.finish]
      have hsettled : ((s.leave c).settle c).Orderly := h.of_same ⟨rfl, rfl, rfl⟩
      split
      · split
        · exact (hsettled.of_same (same_releaseWaiters _ c)).of_same (same_markCompleted _ c)
        · exact hsettled.of_same (same_markCompleted _ c)
      · exact h
  | worker ch step =>
      by_cases hworker : (s.chan ch).worker = some .running
      · refine (s.changes_workerStep ch step).orderly h ?_
        rw [hworker]
        exact Option.some_ne_none _
      · have hsame : s.workerStep ch step = s := if_neg hworker
        simp only [Sched.perform, hsame]
        exact h
  | pump ch =>
      simp only [Sched.perform, Sched.pump]
      split
      · exact h
      · next hworker =>
          split
          · next v rest _ =>
              have hchanges : Changes s ch (s.setChan ch fun chan => { chan with queue := rest }) :=
                s.changes_setChan ch _ rfl rfl rfl
              exact (hchanges.orderly h (not_or.mp hworker).1).of_same ⟨rfl, rfl, rfl⟩
          · exact h

theorem Orderly.run (h : s.Orderly) (ops : List (Op V)) : (s.run ops).Orderly := by
  induction ops generalizing s with
  | nil => exact h
  | cons op ops ih => exact ih (h.perform op)

theorem Fresh.orderly (h : s.Fresh) : s.Orderly := by
  refine ⟨fun ch hw => absurd ?_ hw, fun ch hch => ?_, fun ch _ => ?_⟩
  · rw [h.chan]
  · rw [h.ioChannels] at hch
    cases hch
  · rw [h.chan]
    exact Chan.orderly_new 0

/-- In every state of every run, whatever the operations are and in whatever order they come, a channel with a capacity
is in order. -/
theorem bounded_channels (hfresh : s.Fresh) (ops : List (Op V)) (ch : Nat) (hmax : 0 < ((s.run ops).chan ch).maxsize) :
    ((s.run ops).chan ch).Orderly := by
  have horderly := hfresh.orderly.run ops
  apply horderly.plain ch
  by_contra hw
  exact Nat.ne_of_gt hmax (horderly.fed ch hw).1

/-- A coroutine sends two values to a channel of capacity one. -/
def fullChannel : Sched Nat :=
  empty.run [.newChannel 0 1, .spawn 0, .take, .send (some 0) 0 7 false, .send (some 0) 0 8 false]

/-- It is parked with the second. -/
theorem full_channel : (fullChannel.chan 0).queue = [7] ∧ (fullChannel.chan 0).senders = [(0, 8)] ∧
    (fullChannel.chan 0).Orderly :=
  ⟨by decide, by decide, bounded_channels empty_fresh _ 0 (by decide)⟩

end Sched

end Nodus.Scheduling

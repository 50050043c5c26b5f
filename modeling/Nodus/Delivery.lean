import Nodus.Channels

/-! Values come out of the channels of a program in the order they were sent, none is lost and none comes twice, as long
as nobody is cancelled and every coroutine is in one place only. -/

namespace Nodus.Scheduling

variable {V : Type}

/-- No coroutine is cancelled or out of time, and only the loop resumes one. -/
def Op.undisturbed : Op V → Bool
  | .cancel _ | .unwound _ _ | .takeTimedOut _ | .resume _ _ => false
  | _ => true

namespace Sched

/-- The values of the senders that are parked. -/
def pending (s : Sched V) (ch : Nat) : List V := (s.chan ch).senders.map Prod.snd

/-- The value of a send that is accepted: the channel is open, and someone waits for the value, or there is room for it,
or the sender can wait for room. -/
def accepts (s : Sched V) (ch : Nat) : Op V → List V
  | .send me ch' v _ =>
      if ch' = ch ∧ ch ∈ s.channels ∧ (s.chan ch).result = false ∧ (s.chan ch).closed = false ∧
          ((s.chan ch).receivers ≠ [] ∨ ¬ (0 < (s.chan ch).maxsize ∧ (s.chan ch).maxsize ≤ (s.chan ch).queue.length) ∨
            me ≠ none ∧ s.current = me)
      then [v] else []
  | _ => []

/-- The value that is received: by a `recv` that finds one, or by a coroutine that waits in `recv` when it is sent. To
one that no longer waits there the value is of no use. -/
def receives (s : Sched V) (ch : Nat) : Op V → List V
  | .send _ ch' v _ =>
      if ch' = ch ∧ ch ∈ s.channels ∧ (s.chan ch).result = false ∧ (s.chan ch).closed = false then
        match (s.chan ch).receivers with
        | receiver :: _ =>
            if (s.task receiver).state = .suspended ∧ (s.task receiver).blocked = some (.recv ch) then [v] else []
        | [] => []
      else []
  | .recv _ ch' _ =>
      if ch' = ch ∧ ch ∈ s.channels ∧ (s.chan ch).result = false then (s.chan ch).queue.take 1 else []
  | _ => []

/-- The operation tells a receiver that the channel is closed. -/
def TellsClosed (s : Sched V) (ch : Nat) : Op V → Prop
  | .recv _ ch' _ => ch' = ch ∧ (s.chan ch).queue = [] ∧ (s.chan ch).closed = true
  | .close ch' => ch' = ch ∧ (s.chan ch).closed = false ∧ (s.chan ch).receivers ≠ []
  | _ => False

/-- The values whose send is accepted in a run, in the order they are sent. -/
def sent (s : Sched V) (ch : Nat) : List (Op V) → List V
  | [] => []
  | op :: ops => s.accepts ch op ++ (s.perform op).sent ch ops

/-- The values received in a run, in the order they are received. -/
def received (s : Sched V) (ch : Nat) : List (Op V) → List V
  | [] => []
  | op :: ops => s.receives ch op ++ (s.perform op).received ch ops

/-- A run has delivered the values of a channel in order. -/
structure InOrder (s : Sched V) (ops : List (Op V)) (ch : Nat) : Prop where
  /-- What is not received yet is in the queue, or parked behind it. -/
  order : s.sent ch ops = s.received ch ops ++ ((s.run ops).chan ch).queue ++ (s.run ops).pending ch
  /-- A receiver is told that the channel is closed when it has been given everything. -/
  told : ∀ op, (s.run ops).TellsClosed ch op → s.received ch ops = s.sent ch ops
  /-- After the close the values that are left can be received. -/
  drained : ((s.run ops).chan ch).closed = true → ∀ me nested,
    s.received ch (ops ++ List.replicate ((s.run ops).chan ch).queue.length (.recv me ch nested)) = s.sent ch ops

/-- The program has the channels it has made, and no other. -/
structure Made (s : Sched V) : Prop where
  visible : ∀ ch, (s.chan ch).worker = none → (s.chan ch).result = false
  absent : ∀ ch, (s.chan ch).worker = none → ch ∉ s.channels → (s.chan ch).queue = []

variable {s s' : Sched V} {ch : Nat}

theorem received_append (s : Sched V) (ch : Nat) (ops ops' : List (Op V)) :
    s.received ch (ops ++ ops') = s.received ch ops ++ (s.run ops).received ch ops' := by
  induction ops generalizing s with
  | nil => rfl
  | cons op ops ih =>
      calc s.received ch (op :: ops ++ ops')
          = s.receives ch op ++ ((s.perform op).received ch ops ++ ((s.perform op).run ops).received ch ops') :=
            congrArg (s.receives ch op ++ ·) (ih (s.perform op))
        _ = s.received ch (op :: ops) ++ (s.run (op :: ops)).received ch ops' := (List.append_assoc _ _ _).symm

/-! ### One channel at a time -/

/-- A channel is as it was. -/
structure Untouched (s : Sched V) (ch : Nat) (s' : Sched V) : Prop where
  chan : s'.chan ch = s.chan ch
  channels : ch ∈ s'.channels ↔ ch ∈ s.channels

theorem SameChannels.untouched (h : SameChannels s s') : Untouched s ch s' := by
  refine ⟨?_, ?_⟩
  · rw [h.chan]
  · rw [h.channels]

theorem Changes.untouched {ch' : Nat} (h : Changes s ch' s') (hne : ch ≠ ch') : Untouched s ch s' := by
  obtain ⟨chan, hchan, -⟩ := h.chan
  refine ⟨?_, ?_⟩
  · rw [hchan, Function.update_of_ne hne]
  · rw [h.channels]

theorem Changes.untouched_fed {ch' : Nat} (h : Changes s ch' s') (hw : (s.chan ch').worker ≠ none)
    (hplain : (s'.chan ch).worker = none) : Untouched s ch s' := by
  apply h.untouched
  rintro rfl
  exact hw ((h.worker ch).mp hplain)

theorem changes_send (s : Sched V) (me : Option Nat) (ch : Nat) (v : V) (nested : Bool) :
    Changes s ch (s.send me ch v nested) := by
  have hsame : Changes s ch s := (⟨rfl, rfl, rfl⟩ : SameChannels s s).changes
  unfold Sched.send
  simp only []
  split
  · exact hsame
  · split
    · next receiver rest _ =>
        have hpopped : Changes s ch ((((s.setChan ch fun chan => { chan with receivers := rest }).unblock receiver).log
            (.entered ch v)).log (.woken receiver ch (some v))) := ⟨⟨_, rfl, rfl, rfl, Iff.rfl⟩, fun _ hch' => hch', rfl⟩
        have hscheduled := hpopped.trans (same_schedule _ receiver).changes
        split
        · exact ⟨hscheduled.chan, hscheduled.io, hscheduled.channels⟩
        · exact hscheduled
    · split
      · cases me with
        | none => exact hsame
        | some c =>
            simp only []
            split
            · have hparked := s.changes_setChan ch (fun chan => { chan with senders := chan.senders ++ [(c, v)] }) rfl rfl rfl
              refine Changes.trans ?_ (same_park _ c (.send ch) nested).changes
              exact ⟨hparked.chan, hparked.io, hparked.channels⟩
            · exact hsame
      · exact ⟨⟨_, rfl, rfl, rfl, Iff.rfl⟩, fun _ hch' => hch', rfl⟩

theorem changes_wakeOneSender (s : Sched V) (ch : Nat) : Changes s ch (s.wakeOneSender ch) := by
  unfold Sched.wakeOneSender
  simp only []
  have hdiscard : ∀ {s' : Sched V}, Changes s ch s' → Changes s ch (s'.discardSend ch) :=
    fun hc => ⟨hc.chan, hc.io, hc.channels⟩
  generalize (s.chan ch).senders.dropWhile (fun p => decide ((s.task p.1).state ≠ .suspended)) = passed
  cases passed with
  | nil =>
      have hdone := s.changes_setChan ch (fun chan => { chan with senders := [] }) rfl rfl rfl
      split
      · exact hdiscard hdone
      · exact hdone
  | cons p rest =>
      have hentered : Changes s ch (((s.setChan ch fun chan =>
          { chan with queue := chan.queue ++ [p.2], senders := rest }).unblock p.1).log (.entered ch p.2)) :=
        ⟨⟨_, rfl, rfl, rfl, Iff.rfl⟩, fun _ hch' => hch', rfl⟩
      have hdone := hentered.trans (same_schedule _ p.1).changes
      split
      · exact hdiscard hdone
      · exact hdone

theorem changes_recv (s : Sched V) (me : Option Nat) (ch : Nat) (nested : Bool) : Changes s ch (s.recv me ch nested) := by
  have hsame : Changes s ch s := (⟨rfl, rfl, rfl⟩ : SameChannels s s).changes
  unfold Sched.recv
  split
  · next v rest _ =>
      have htaken : Changes s ch ((s.setChan ch fun chan => { chan with queue := rest }).log (.taken ch v)) :=
        ⟨⟨_, rfl, rfl, rfl, Iff.rfl⟩, fun _ hch' => hch', rfl⟩
      exact htaken.trans (changes_wakeOneSender _ ch)
  · split
    · exact hsame
    · cases me with
      | none => exact hsame
      | some c =>
          simp only []
          have hparked := s.changes_setChan ch (fun chan => { chan with receivers := chan.receivers ++ [c] }) rfl rfl rfl
          refine Changes.trans ?_ (same_park _ c (.recv ch) nested).changes
          exact ⟨hparked.chan, hparked.io, hparked.channels⟩

theorem same_flush (s : Sched V) (ch : Nat) (p : Nat × V) : SameChannels s
    (let s' := s.log (.entered ch p.2)
      if (s'.task p.1).state = .suspended then (s'.unblock p.1).schedule p.1 else s') := by
  simp only []
  split
  · have hunblocked : SameChannels s ((s.log (.entered ch p.2)).unblock p.1) := ⟨rfl, rfl, rfl⟩
    exact hunblocked.trans (same_schedule _ p.1)
  · exact ⟨rfl, rfl, rfl⟩

theorem changes_close (s : Sched V) (ch : Nat) : Changes s ch (s.close ch) := by
  unfold Sched.close
  simp only []
  split
  · exact (⟨rfl, rfl, rfl⟩ : SameChannels s s).changes
  · set closed := s.setChan ch fun chan => { chan with
      closed := true, queue := chan.queue ++ chan.senders.map Prod.snd, senders := [], receivers := [] } with hclosed
    have hchanged : Changes s ch closed := s.changes_setChan ch _ rfl rfl rfl
    have hflushed := hchanged.trans (foldl_same (fun s p => s.same_flush ch p) (s.chan ch).senders closed).changes
    have hwoken := hflushed.trans (foldl_same (fun s c => s.same_wake ch c none) (s.chan ch).receivers _).changes
    exact ⟨hwoken.chan, hwoken.io, hwoken.channels⟩

theorem changes_closeStream (s : Sched V) (ch : Nat) : Changes s ch (s.closeStream ch) :=
  ⟨⟨_, rfl, rfl, rfl, Iff.rfl⟩, fun _ hch' => List.mem_of_mem_erase hch', rfl⟩

theorem changes_pump (s : Sched V) (ch : Nat) : Changes s ch (s.pump ch) := by
  unfold Sched.pump
  split
  · exact ⟨⟨_, rfl, rfl, rfl, Iff.rfl⟩, fun _ hch' => hch', rfl⟩
  · exact (⟨rfl, rfl, rfl⟩ : SameChannels s s).changes

theorem untouched_new {ch' : Nat} {chan : Chan V} (hchan : s'.chan = Function.update s.chan ch' chan)
    (hchannels : s'.channels = ch' :: s.channels) (hne : ch ≠ ch') : Untouched s ch s' := by
  refine ⟨?_, ?_⟩
  · rw [hchan, Function.update_of_ne hne]
  · rw [hchannels, List.mem_cons]
    exact or_iff_right hne

theorem untouched_newFed {ch' : Nat} {chan : Chan V} (hchan : s'.chan = Function.update s.chan ch' chan)
    (hchannels : s'.channels = ch' :: s.channels) (hw : chan.worker ≠ none) (hplain : (s'.chan ch).worker = none) :
    Untouched s ch s' := by
  apply untouched_new hchan hchannels
  rintro rfl
  rw [hchan, Function.update_self] at hplain
  exact hw hplain

theorem Orderly.untouched_drainIo (h : s.Orderly) (late : Nat → List (WorkerStep V))
    (hplain : ((s.drainIo late).chan ch).worker = none) : Untouched s ch (s.drainIo late) := by
  have hdrain : ∀ (channels : List Nat) (s : Sched V), (∀ ch ∈ channels, (s.chan ch).worker ≠ none) →
      ((channels.foldl (fun s ch => s.drainChannel ch (late ch)) s).chan ch).worker = none →
      Untouched s ch (channels.foldl (fun s ch => s.drainChannel ch (late ch)) s) ∧ (s.chan ch).worker = none := by
    intro channels
    induction channels with
    | nil => exact fun s _ hplain => ⟨⟨rfl, Iff.rfl⟩, hplain⟩
    | cons ch' channels ih =>
        intro s hw hplain
        have hchanges := s.changes_drainChannel ch' (late ch')
        have hw' : ∀ ch ∈ channels, ((s.drainChannel ch' (late ch')).chan ch).worker ≠ none := by
          intro ch hch
          rw [ne_eq, hchanges.worker]
          exact hw ch (List.mem_cons_of_mem _ hch)
        obtain ⟨hrest, hplain⟩ := ih (s.drainChannel ch' (late ch')) hw' hplain
        have hfirst := hchanges.untouched_fed (hw ch' List.mem_cons_self) hplain
        exact ⟨⟨hrest.chan.trans hfirst.chan, hrest.channels.trans hfirst.channels⟩, (hchanges.worker ch).mp hplain⟩
  exact (hdrain s.ioChannels s (fun ch hch => (h.io ch hch).1) hplain).1

/-- What concerns a channel that no thread feeds: it is made, someone sends to it, receives from it or closes it, or it
is as it was. -/
theorem Orderly.perform_cases (h : s.Orderly) (op : Op V) (hundisturbed : op.undisturbed = true)
    (hplain : ((s.perform op).chan ch).worker = none) :
    (∃ maxsize, op = .newChannel ch maxsize) ∨ (∃ me v nested, op = .send me ch v nested) ∨
      (∃ me nested, op = .recv me ch nested) ∨ op = .close ch ∨
      Untouched s ch (s.perform op) ∧ s.accepts ch op = [] ∧ s.receives ch op = [] := by
  have hself : Untouched s ch s := ⟨rfl, Iff.rfl⟩
  have hsame : ∀ {s'}, SameChannels s s' → Untouched s ch s' := fun hs => hs.untouched
  cases op with
  | newChannel ch' maxsize =>
      by_cases hne : ch = ch'
      · exact .inl ⟨maxsize, by rw [hne]⟩
      · refine .inr (.inr (.inr (.inr ⟨?_, rfl, rfl⟩)))
        simp only [Sched.perform]
        split
        · exact hself
        · exact untouched_new rfl rfl hne
  | send me ch' v nested =>
      by_cases hne : ch = ch'
      · exact .inr (.inl ⟨me, v, nested, by rw [hne]⟩)
      · have hne' : ch' ≠ ch := Ne.symm hne
        refine .inr (.inr (.inr (.inr ⟨?_, by simp [accepts, hne'], by simp [receives, hne']⟩)))
        simp only [Sched.perform]
        split
        · exact hself
        · exact (s.changes_send me ch' v nested).untouched hne
  | recv me ch' nested =>
      by_cases hne : ch = ch'
      · exact .inr (.inr (.inl ⟨me, nested, by rw [hne]⟩))
      · have hne' : ch' ≠ ch := Ne.symm hne
        refine .inr (.inr (.inr (.inr ⟨?_, rfl, by simp [receives, hne']⟩)))
        simp only [Sched.perform]
        split
        · exact hself
        · exact (s.changes_recv me ch' nested).untouched hne
  | close ch' =>
      by_cases hne : ch = ch'
      · exact .inr (.inr (.inr (.inl (by rw [hne]))))
      · refine .inr (.inr (.inr (.inr ⟨?_, rfl, rfl⟩)))
        simp only [Sched.perform]
        split
        · exact hself
        · exact (s.changes_close ch').untouched hne
  | cancel c => cases hundisturbed
  | unwound c timedOut => cases hundisturbed
  | takeTimedOut unwinds => cases hundisturbed
  | resume c state => cases hundisturbed
  | spawn c =>
      refine .inr (.inr (.inr (.inr ⟨?_, rfl, rfl⟩)))
      simp only [Sched.perform, Sched.spawn]
      split
      · exact hself
      · have hknown := same_ensureMetadata s c
        exact hsame ⟨hknown.chan, hknown.io, hknown.channels⟩
  | spawnAfter c wake =>
      refine .inr (.inr (.inr (.inr ⟨?_, rfl, rfl⟩)))
      simp only [Sched.perform, Sched.spawnAfter]
      split
      · exact hself
      · have hknown := same_ensureMetadata s c
        exact hsame ⟨hknown.chan, hknown.io, hknown.channels⟩
  | wait me target nested =>
      refine .inr (.inr (.inr (.inr ⟨?_, rfl, rfl⟩)))
      simp only [Sched.perform, Sched.wait]
      split
      · exact hself
      · split
        · split
          · next c _ =>
              have hparked := same_park ({ s with waiters := s.waiters ++ [(target, c)] } : Sched V) c (.wait target) nested
              exact hsame ⟨hparked.chan, hparked.io, hparked.channels⟩
          · exact hself
        · exact hself
  | callAsync me ch' nested =>
      refine .inr (.inr (.inr (.inr ⟨?_, rfl, rfl⟩)))
      simp only [Sched.perform, Sched.callAsync] at hplain ⊢
      split
      · exact hself
      · split
        · split
          · next hch' _ c hcurrent =>
              rw [if_neg hch'] at hplain
              simp only [hcurrent, if_true] at hplain
              refine untouched_newFed
                (?_ : _ = Function.update s.chan ch' { receivers := [c], worker := some .running, result := true }) ?_
                (Option.some_ne_none _) hplain
              · rw [park_chan]
                rfl
              · rw [park_channels]
                rfl
          · exact hself
        · exact hself
  | openStream ch' values ended =>
      refine .inr (.inr (.inr (.inr ⟨?_, rfl, rfl⟩)))
      simp only [Sched.perform] at hplain ⊢
      split
      · exact hself
      · next hch' =>
          rw [if_neg hch'] at hplain
          simp only [Sched.openStream, foldl_log] at hplain ⊢
          exact untouched_newFed rfl rfl (Option.some_ne_none _) hplain
  | closeStream ch' =>
      refine .inr (.inr (.inr (.inr ⟨?_, rfl, rfl⟩)))
      simp only [Sched.perform] at hplain ⊢
      split
      · exact hself
      · next hguard =>
          rw [if_neg hguard] at hplain
          exact (s.changes_closeStream ch').untouched_fed (not_or.mp hguard).1 hplain
  | drainTimers now => exact .inr (.inr (.inr (.inr ⟨hsame ⟨rfl, rfl, rfl⟩, rfl, rfl⟩)))
  | drainIo late => exact .inr (.inr (.inr (.inr ⟨h.untouched_drainIo late hplain, rfl, rfl⟩)))
  | take =>
      refine .inr (.inr (.inr (.inr ⟨?_, rfl, rfl⟩)))
      simp only [Sched.perform, Sched.take]
      split
      · exact hself
      · split
        · exact hsame ⟨rfl, rfl, rfl⟩
        · next c rest _ _ _ =>
            have hleft : SameChannels s { s with ready := rest, current := none } := ⟨rfl, rfl, rfl⟩
            exact hsame ((hleft.trans (same_releaseWaiters _ c)).trans (same_markCompleted _ c))
        · exact hsame ⟨rfl, rfl, rfl⟩
  | refuse entered =>
      refine .inr (.inr (.inr (.inr ⟨?_, rfl, rfl⟩)))
      simp only [Sched.perform, Sched.refuse]
      split
      · exact hself
      · next c rest _ =>
          split
          · exact hsame ⟨rfl, rfl, rfl⟩
          · refine hsame (SameChannels.trans (SameChannels.trans ?_ (same_releaseWaiters _ c)) (same_markCompleted _ c))
            split
            · exact ⟨rfl, rfl, rfl⟩
            · exact ⟨rfl, rfl, rfl⟩
  | yieldTurn c =>
      refine .inr (.inr (.inr (.inr ⟨?_, rfl, rfl⟩)))
      simp only [Sched.perform]
      split
      · exact hsame ⟨rfl, rfl, rfl⟩
      · exact hself
  | sleep c wake =>
      refine .inr (.inr (.inr (.inr ⟨?_, rfl, rfl⟩)))
      simp only [Sched.perform]
      split
      · exact hsame ⟨rfl, rfl, rfl⟩
      · exact hself
  | drop c =>
      refine .inr (.inr (.inr (.inr ⟨?_, rfl, rfl⟩)))
      simp only [Sched.perform]
      split
      · exact hsame ⟨rfl, rfl, rfl⟩
      · exact hself
  | finish c failed =>
      refine .inr (.inr (.inr (.inr ⟨?_, rfl, rfl⟩)))
      simp only [Sched.perform, Sched.finish]
      have hsettled : SameChannels s ((s.leave c).settle c) := ⟨rfl, rfl, rfl⟩
      split
      · split
        · exact hsame ((hsettled.trans (same_releaseWaiters _ c)).trans (same_markCompleted _ c))
        · exact hsame (hsettled.trans (same_markCompleted _ c))
      · exact hself
  | worker ch' step =>
      refine .inr (.inr (.inr (.inr ⟨?_, rfl, rfl⟩)))
      by_cases hworker : (s.chan ch').worker = some .running
      · refine (s.changes_workerStep ch' step).untouched_fed ?_ hplain
        rw [hworker]
        exact Option.some_ne_none _
      · have hnothing : s.perform (.worker ch' step) = s := if_neg hworker
        rw [hnothing]
        exact hself
  | pump ch' =>
      refine .inr (.inr (.inr (.inr ⟨?_, rfl, rfl⟩)))
      simp only [Sched.perform] at hplain ⊢
      split
      · exact hself
      · next hguard =>
          rw [if_neg hguard] at hplain
          exact (s.changes_pump ch').untouched_fed (not_or.mp hguard).1 hplain

theorem Changes.plain (h : Changes s ch s') (hplain : (s'.chan ch).worker = none) : (s.chan ch).worker = none :=
  (h.worker ch).mp hplain

/-! ### What each operation does to a channel without a thread -/

theorem not_visible (h : ch ∉ s.channels ∨ (s.chan ch).result = true) :
    ¬ (ch ∈ s.channels ∧ (s.chan ch).result = false) := by
  rintro ⟨hmem, hresult⟩
  rcases h with h | h
  · exact h hmem
  · rw [hresult] at h
    cases h

theorem Clean.waits_in_recv (h : s.Clean) {c : Nat} (hresult : (s.chan ch).result = false)
    (hc : c ∈ (s.chan ch).receivers) : (s.task c).state = .suspended ∧ (s.task c).blocked = some (.recv ch) := by
  refine ⟨h.suspended_of_receiver ch hc, ?_⟩
  rcases (h.received ch c).mp hc with hb | hb
  · exact hb
  · have htrue := (h.result ch c).2 hb
    rw [hresult] at htrue
    cases htrue

/-- What is in the channel and what is sent is what is received and what is in the channel afterwards. -/
def Conserves (s : Sched V) (ch : Nat) (op : Op V) : Prop :=
  (s.chan ch).queue ++ s.pending ch ++ s.accepts ch op =
    s.receives ch op ++ ((s.perform op).chan ch).queue ++ (s.perform op).pending ch

theorem conserves_of_untouched {op : Op V} (h : Untouched s ch (s.perform op)) (haccepts : s.accepts ch op = [])
    (hreceives : s.receives ch op = []) : s.Conserves ch op := by
  unfold Conserves pending
  rw [haccepts, hreceives, h.chan, List.append_nil, List.nil_append]

theorem visible_of_guard (h : ¬ (ch ∉ s.channels ∨ (s.chan ch).result = true)) :
    ch ∈ s.channels ∧ (s.chan ch).result = false := by
  obtain ⟨hmem, hresult⟩ := not_or.mp h
  exact ⟨not_not.mp hmem, by simpa using hresult⟩

theorem conserves_of_same {op : Op V} (h : s.perform op = s) (haccepts : s.accepts ch op = [])
    (hreceives : s.receives ch op = []) : s.Conserves ch op := by
  refine conserves_of_untouched ⟨?_, ?_⟩ haccepts hreceives
  · rw [h]
  · rw [h]

theorem Clean.conserves_send (h : s.Clean) (ho : (s.chan ch).Orderly) (me : Option Nat) (v : V) (nested : Bool) :
    s.Conserves ch (.send me ch v nested) := by
  by_cases hguard : ch ∉ s.channels ∨ (s.chan ch).result = true
  · -- the program has no such channel
    refine conserves_of_same (if_pos hguard) ?_ ?_
    · exact if_neg fun hif => not_visible hguard ⟨hif.2.1, hif.2.2.1⟩
    · exact if_neg fun hif => not_visible hguard ⟨hif.2.1, hif.2.2.1⟩
  obtain ⟨hmem, hresult⟩ := visible_of_guard hguard
  have hperform : s.perform (.send me ch v nested) = s.send me ch v nested := if_neg hguard
  cases hclosed : (s.chan ch).closed with
  | true =>
      refine conserves_of_same (hperform.trans (if_pos hclosed)) ?_ ?_
      · exact if_neg fun hif => by simp [hclosed] at hif
      · exact if_neg fun hif => by simp [hclosed] at hif
  | false =>
      unfold Conserves
      rw [hperform]
      cases hreceivers : (s.chan ch).receivers with
      | cons receiver rest =>
          obtain ⟨hqueue, hsenders⟩ := ho.receivers (by simp [hreceivers])
          have hwaits := h.waits_in_recv hresult (hreceivers ▸ List.mem_cons_self : receiver ∈ (s.chan ch).receivers)
          have haccepts : s.accepts ch (.send me ch v nested) = [v] :=
            if_pos ⟨rfl, hmem, hresult, hclosed, .inl (by simp [hreceivers])⟩
          have hreceives : s.receives ch (.send me ch v nested) = [v] := by
            simp only [receives, hmem, hresult, hclosed, hreceivers, and_self, if_true]
            exact if_pos hwaits
          rw [haccepts, hreceives, h.send_receiver hclosed hreceivers]
          simp [pending, hqueue, hsenders]
      | nil =>
          have hreceives : s.receives ch (.send me ch v nested) = [] := by
            simp only [receives, hmem, hresult, hclosed, hreceivers, and_self, if_true]
          rw [hreceives, List.nil_append]
          unfold Sched.send accepts
          simp only [hmem, hresult, hclosed, hreceivers, Bool.false_eq_true, if_false, true_and, ne_eq, not_true,
            false_or]
          by_cases hfull : 0 < (s.chan ch).maxsize ∧ (s.chan ch).maxsize ≤ (s.chan ch).queue.length
          · simp only [hfull, and_self, if_true, not_true, false_or]
            cases me with
            | none => simp
            | some c =>
                by_cases hcurrent : s.current = some c
                · simp [hcurrent, pending, Sched.setChan]
                · simp [hcurrent]
          · have hsenders := ho.senders_of_room hfull
            simp only [hfull, if_false, not_false_eq_true, true_or, if_true]
            simp [pending, Sched.setChan, log, hsenders]

theorem Clean.conserves_recv (h : s.Clean) (me : Option Nat) (nested : Bool) : s.Conserves ch (.recv me ch nested) := by
  by_cases hguard : ch ∉ s.channels ∨ (s.chan ch).result = true
  · exact conserves_of_same (if_pos hguard) rfl (if_neg fun hif => not_visible hguard hif.2)
  obtain ⟨hmem, hresult⟩ := visible_of_guard hguard
  have hperform : s.perform (.recv me ch nested) = s.recv me ch nested := if_neg hguard
  have hreceives : s.receives ch (.recv me ch nested) = (s.chan ch).queue.take 1 := if_pos ⟨rfl, hmem, hresult⟩
  unfold Conserves
  rw [hperform, hreceives]
  show (s.chan ch).queue ++ s.pending ch ++ [] = _
  rw [List.append_nil]
  unfold Sched.recv
  cases hqueue : (s.chan ch).queue with
  | cons v rest =>
      have htaken : ((s.setChan ch fun chan => { chan with queue := rest }).log (.taken ch v)).Clean :=
        h.setChan _ rfl rfl rfl _ _
      simp only []
      rw [htaken.wakeOneSender_eq]
      have hsenders : (((s.setChan ch fun chan => { chan with queue := rest }).log (.taken ch v)).chan ch).senders =
          (s.chan ch).senders := by simp [Sched.setChan, log]
      rw [hsenders]
      cases hs : (s.chan ch).senders with
      | nil => simp [pending, Sched.setChan, log, hs]
      | cons p senders => simp [pending, Sched.setChan, log, hs]
  | nil =>
      simp only []
      split
      · simp [hqueue]
      · cases me with
        | none => simp [hqueue]
        | some c => simp [pending, Sched.setChan, log, hqueue]

theorem Clean.conserves_close (h : s.Clean) : s.Conserves ch (.close ch) := by
  by_cases hguard : ch ∉ s.channels ∨ (s.chan ch).result = true
  · exact conserves_of_same (if_pos hguard) rfl rfl
  have hperform : s.perform (.close ch) = s.close ch := if_neg hguard
  unfold Conserves
  rw [hperform]
  show (s.chan ch).queue ++ s.pending ch ++ [] = [] ++ _ ++ _
  cases hclosed : (s.chan ch).closed with
  | true =>
      have hsame : s.close ch = s := if_pos hclosed
      simp [hsame]
  | false =>
      rw [h.close_eq hclosed]
      simp [pending]

theorem Changes.result (h : Changes s ch s') : (s'.chan ch).result = (s.chan ch).result := by
  obtain ⟨chan, hchan, -, hresult, -⟩ := h.chan
  rw [hchan, Function.update_self]
  exact hresult

theorem Made.change (h : s.Made) (hc : Changes s ch s') (habsent : ch ∉ s.channels → s' = s)
    (hplain : (s'.chan ch).worker = none) :
    (s'.chan ch).result = false ∧ (ch ∉ s'.channels → (s'.chan ch).queue = []) := by
  have hplain' := hc.plain hplain
  refine ⟨hc.result.trans (h.visible ch hplain'), fun hch => ?_⟩
  rw [hc.channels] at hch
  rw [habsent hch]
  exact h.absent ch hplain' hch

theorem Made.perform (h : s.Made) (ho : s.Orderly) (op : Op V) (hundisturbed : op.undisturbed = true) :
    (s.perform op).Made := by
  have hstep : ∀ ch, ((s.perform op).chan ch).worker = none →
      ((s.perform op).chan ch).result = false ∧ (ch ∉ (s.perform op).channels → ((s.perform op).chan ch).queue = []) := by
    intro ch hplain
    have hself : Changes s ch s := (⟨rfl, rfl, rfl⟩ : SameChannels s s).changes
    have hguarded : ∀ {s' : Sched V}, Changes s ch s' → s.perform op = (if ch ∉ s.channels ∨ (s.chan ch).result = true
        then s else s') → Changes s ch (s.perform op) ∧ (ch ∉ s.channels → s.perform op = s) := by
      intro s' hc hperform
      refine ⟨?_, fun hch => hperform.trans (if_pos (.inl hch))⟩
      rw [hperform]
      split
      · exact hself
      · exact hc
    rcases ho.perform_cases op hundisturbed hplain with ⟨maxsize, rfl⟩ | ⟨me, v, nested, rfl⟩ | ⟨me, nested, rfl⟩ | rfl |
      ⟨hsame, -⟩
    · by_cases hch : ch ∈ s.channels
      · have hsame : s.perform (.newChannel ch maxsize) = s := if_pos hch
        rw [hsame] at hplain ⊢
        exact ⟨h.visible ch hplain, h.absent ch hplain⟩
      · have hnew : s.perform (.newChannel ch maxsize) = s.newChannel ch { maxsize := maxsize } := if_neg hch
        rw [hnew]
        simp [newChannel, Sched.setChan]
    · obtain ⟨hc, habsent⟩ := hguarded (s.changes_send me ch v nested) rfl
      exact h.change hc habsent hplain
    · obtain ⟨hc, habsent⟩ := hguarded (s.changes_recv me ch nested) rfl
      exact h.change hc habsent hplain
    · obtain ⟨hc, habsent⟩ := hguarded (s.changes_close ch) rfl
      exact h.change hc habsent hplain
    · rw [hsame.chan] at hplain ⊢
      rw [hsame.channels]
      exact ⟨h.visible ch hplain, h.absent ch hplain⟩
  exact ⟨fun ch hplain => (hstep ch hplain).1, fun ch hplain => (hstep ch hplain).2⟩

theorem Made.run (h : s.Made) (ho : s.Orderly) (ops : List (Op V)) (hundisturbed : ∀ op ∈ ops, op.undisturbed = true) :
    (s.run ops).Made := by
  induction ops generalizing s with
  | nil => exact h
  | cons op ops ih =>
      exact ih (h.perform ho op (hundisturbed op List.mem_cons_self)) (ho.perform op)
        fun op' hop' => hundisturbed op' (List.mem_cons_of_mem _ hop')

theorem Fresh.made (h : s.Fresh) : s.Made := by
  refine ⟨fun ch _ => ?_, fun ch _ _ => ?_⟩
  · rw [h.chan]
  · rw [h.chan]

/-! ### Runs -/

theorem Clean.conserves (h : s.Clean) (ho : s.Orderly) (hm : s.Made) (op : Op V) (hundisturbed : op.undisturbed = true)
    (hplain : ((s.perform op).chan ch).worker = none) : s.Conserves ch op := by
  rcases ho.perform_cases op hundisturbed hplain with ⟨maxsize, rfl⟩ | ⟨me, v, nested, rfl⟩ | ⟨me, nested, rfl⟩ | rfl |
    ⟨hsame, haccepts, hreceives⟩
  · by_cases hch : ch ∈ s.channels
    · exact conserves_of_same (if_pos hch) rfl rfl
    · have hnew : s.perform (.newChannel ch maxsize) = s.newChannel ch { maxsize := maxsize } := if_neg hch
      have hworker : (s.chan ch).worker = none := by
        by_contra hw
        exact hch (ho.fed ch hw).2
      have hqueue := hm.absent ch hworker hch
      have hsenders := (h.allocated ch hch).2
      unfold Conserves
      rw [hnew]
      simp [accepts, receives, pending, newChannel, Sched.setChan, hqueue, hsenders]
  · by_cases hguard : ch ∉ s.channels ∨ (s.chan ch).result = true
    · have hsame : s.perform (.send me ch v nested) = s := if_pos hguard
      rw [hsame] at hplain
      exact h.conserves_send (ho.plain ch hplain) me v nested
    · have hsend : s.perform (.send me ch v nested) = s.send me ch v nested := if_neg hguard
      rw [hsend] at hplain
      exact h.conserves_send (ho.plain ch ((s.changes_send me ch v nested).plain hplain)) me v nested
  · exact h.conserves_recv me nested
  · exact h.conserves_close
  · exact conserves_of_untouched hsame haccepts hreceives

theorem Orderly.plain_of_perform (h : s.Orderly) (op : Op V) (hundisturbed : op.undisturbed = true)
    (hplain : ((s.perform op).chan ch).worker = none) : (s.chan ch).worker = none := by
  have hguarded : ∀ {s' : Sched V}, Changes s ch s' → s.perform op = (if ch ∉ s.channels ∨ (s.chan ch).result = true
      then s else s') → (s.chan ch).worker = none := by
    intro s' hc hperform
    rw [hperform] at hplain
    split at hplain
    · exact hplain
    · exact hc.plain hplain
  rcases h.perform_cases op hundisturbed hplain with ⟨maxsize, rfl⟩ | ⟨me, v, nested, rfl⟩ | ⟨me, nested, rfl⟩ | rfl |
    ⟨hsame, -⟩
  · by_cases hch : ch ∈ s.channels
    · have hsame : s.perform (.newChannel ch maxsize) = s := if_pos hch
      rwa [hsame] at hplain
    · by_contra hw
      exact hch (h.fed ch hw).2
  · exact hguarded (s.changes_send me ch v nested) rfl
  · exact hguarded (s.changes_recv me ch nested) rfl
  · exact hguarded (s.changes_close ch) rfl
  · rwa [hsame.chan] at hplain

theorem Clean.conserves_run (h : s.Clean) (ho : s.Orderly) (hm : s.Made) (ops : List (Op V))
    (hundisturbed : ∀ op ∈ ops, op.undisturbed = true) (hops : s.AllAllowed ops)
    (hplain : ((s.run ops).chan ch).worker = none) :
    (s.chan ch).worker = none ∧ (s.chan ch).queue ++ s.pending ch ++ s.sent ch ops =
      s.received ch ops ++ ((s.run ops).chan ch).queue ++ (s.run ops).pending ch := by
  induction ops generalizing s with
  | nil =>
      refine ⟨hplain, ?_⟩
      show (s.chan ch).queue ++ s.pending ch ++ [] = [] ++ (s.chan ch).queue ++ s.pending ch
      rw [List.append_nil, List.nil_append]
  | cons op ops ih =>
      have hop := hundisturbed op List.mem_cons_self
      obtain ⟨hworker, hrest⟩ := ih (h.perform op hops.1) (ho.perform op) (hm.perform ho op hop)
        (fun op' hop' => hundisturbed op' (List.mem_cons_of_mem _ hop')) hops.2 hplain
      have hstep : s.Conserves ch op := h.conserves ho hm op hop hworker
      refine ⟨ho.plain_of_perform op hop hworker, ?_⟩
      calc (s.chan ch).queue ++ s.pending ch ++ (s.accepts ch op ++ (s.perform op).sent ch ops)
          = (s.chan ch).queue ++ s.pending ch ++ s.accepts ch op ++ (s.perform op).sent ch ops := by
            rw [← List.append_assoc]
        _ = s.receives ch op ++ ((s.perform op).chan ch).queue ++ (s.perform op).pending ch ++
              (s.perform op).sent ch ops := by rw [hstep]
        _ = s.receives ch op ++ (((s.perform op).chan ch).queue ++ (s.perform op).pending ch ++
              (s.perform op).sent ch ops) := by simp only [List.append_assoc]
        _ = s.receives ch op ++ ((s.perform op).received ch ops ++ (((s.perform op).run ops).chan ch).queue ++
              ((s.perform op).run ops).pending ch) := by rw [hrest]
        _ = s.receives ch op ++ (s.perform op).received ch ops ++ (((s.perform op).run ops).chan ch).queue ++
              ((s.perform op).run ops).pending ch := by simp only [List.append_assoc]

theorem Clean.drain (h : s.Clean) (ho : s.Orderly) (hm : s.Made) (hplain : (s.chan ch).worker = none)
    (hclosed : (s.chan ch).closed = true) (me : Option Nat) (nested : Bool) :
    s.received ch (List.replicate (s.chan ch).queue.length (.recv me ch nested)) = (s.chan ch).queue := by
  generalize hqueue : (s.chan ch).queue = queue
  induction queue generalizing s with
  | nil => rfl
  | cons v rest ih =>
      have hmem : ch ∈ s.channels := by
        by_contra hch
        rw [hm.absent ch hplain hch] at hqueue
        cases hqueue
      have hresult := hm.visible ch hplain
      have hsenders := ((ho.plain ch hplain).closed hclosed).2
      have hguard : ¬ (ch ∉ s.channels ∨ (s.chan ch).result = true) := by simp [hmem, hresult]
      have hreceives : s.receives ch (.recv me ch nested) = [v] := by
        have hif : s.receives ch (.recv me ch nested) = (s.chan ch).queue.take 1 := if_pos ⟨rfl, hmem, hresult⟩
        rw [hif, hqueue]
        rfl
      have hallowed : s.Allowed (.recv me ch nested) := fun hnil => by simp [hqueue] at hnil
      have hchan : (s.perform (.recv me ch nested)).chan ch = { s.chan ch with queue := rest } := by
        have hperform : s.perform (.recv me ch nested) = s.recv me ch nested := if_neg hguard
        have htaken : ((s.setChan ch fun chan => { chan with queue := rest }).log (.taken ch v)).Clean :=
          h.setChan _ rfl rfl rfl _ _
        rw [hperform]
        unfold Sched.recv
        rw [hqueue]
        simp only []
        rw [htaken.wakeOneSender_eq]
        simp [Sched.setChan, log, hsenders]
      have hrest := ih (h.perform _ hallowed) (ho.perform _) (hm.perform ho _ rfl) (by rw [hchan]; exact hplain)
        (by rw [hchan]; exact hclosed) (by rw [hchan])
      calc s.received ch (.recv me ch nested :: List.replicate rest.length (.recv me ch nested))
          = s.receives ch (.recv me ch nested) ++
              (s.perform (.recv me ch nested)).received ch (List.replicate rest.length (.recv me ch nested)) := rfl
        _ = [v] ++ rest := by rw [hreceives, hrest]

/-- In every run in which nobody is cancelled and only the loop resumes coroutines, if every coroutine is spawned while
it is in no queue, and parks in its own execution loop. -/
theorem delivered_in_order (hfresh : s.Fresh) (ops : List (Op V)) (hundisturbed : ∀ op ∈ ops, op.undisturbed = true)
    (hops : s.AllAllowed ops) (ch : Nat) (hplain : ((s.run ops).chan ch).worker = none) : s.InOrder ops ch := by
  have hclean := hfresh.clean.run ops hops
  have horderly := hfresh.orderly.run ops
  have hmade : (s.run ops).Made := hfresh.made.run hfresh.orderly ops hundisturbed
  obtain ⟨-, hrun⟩ := hfresh.clean.conserves_run hfresh.orderly hfresh.made ops hundisturbed hops hplain
  have horder : s.sent ch ops = s.received ch ops ++ ((s.run ops).chan ch).queue ++ (s.run ops).pending ch := by
    simpa [pending, hfresh.chan ch] using hrun
  have hchannel := horderly.plain ch hplain
  refine ⟨horder, fun op hop => ?_, fun hclosed me nested => ?_⟩
  · have hnothing : ((s.run ops).chan ch).queue = [] ∧ ((s.run ops).chan ch).senders = [] := by
      cases op with
      | recv me ch' nested =>
          obtain ⟨-, hqueue, hclosed⟩ := hop
          exact ⟨hqueue, (hchannel.closed hclosed).2⟩
      | close ch' =>
          obtain ⟨-, -, hreceivers⟩ := hop
          exact hchannel.receivers hreceivers
      | _ => cases hop
    rw [horder, pending, hnothing.1, hnothing.2]
    simp
  · rw [received_append, hclean.drain horderly hmade hplain hclosed me nested, horder, pending,
      (hchannel.closed hclosed).2]
    simp

/-- A receiver that is given a value, and another value for nobody yet. -/
theorem handed_over : (empty : Sched Nat).InOrder
    [.newChannel 0 0, .spawn 0, .take, .recv (some 0) 0 false, .send none 0 7 false, .send none 0 8 false] 0 := by
  apply delivered_in_order empty_fresh _ (by decide)
  · refine ⟨trivial, fun _ => ⟨by decide, rfl, by decide, fun hk => by cases hk⟩, trivial, fun _ _ c hc => ?_,
      fun _ hreceivers => ?_, fun _ _ hfull => ?_, trivial⟩
    · cases hc
      exact ⟨by decide, by decide⟩
    · exact absurd hreceivers (by decide)
    · exact absurd hfull (by decide)
  · decide

/-- A coroutine is spawned twice. The second time it is resumed it leaves `recv` and ends; the value that is sent next
goes to it all the same. -/
def spawnedTwice : List (Op Nat) :=
  [.newChannel 0 0, .spawn 0, .spawn 0, .take, .recv (some 0) 0 false, .take, .finish 0 false, .send none 0 7 false]

theorem value_lost : (∀ op ∈ spawnedTwice, op.undisturbed = true) ∧
    ((empty.run spawnedTwice).chan 0).worker = none ∧ empty.sent 0 spawnedTwice = [7] ∧
    ((empty.run spawnedTwice).task 0).state = .finished ∧ ¬ empty.InOrder spawnedTwice 0 := by
  refine ⟨by decide, by decide, by decide, by decide, fun horder => ?_⟩
  have hlost := horder.order
  revert hlost
  decide

end Sched

end Nodus.Scheduling

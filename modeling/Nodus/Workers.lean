import Nodus.Mailbox
import Nodus.Deadlock

/-! The channels that a thread feeds: each is a mailbox, and the loop polls only while one of the threads is running. -/

namespace Nodus.Scheduling

variable {V : Type}

def Event.chan : Event V → Nat
  | .entered ch _ | .parked _ ch | .woken _ ch _ | .unparked _ ch | .taken ch _ | .lost ch _ => ch

def Event.isLost : Event V → Bool
  | .lost _ _ => true
  | _ => false

/-- What an event is to the mailbox of a channel. -/
def Event.note (ch : Nat) (event : Event V) : Option (Mailbox.Note V Nat) :=
  if event.chan = ch then
    match event with
    | .entered _ v => some (.entered v)
    | .parked c _ => some (.parked c)
    | .woken c _ v => some (.woken c v)
    | .unparked c _ => some (.left c)
    | .taken _ v => some (.taken v)
    | .lost _ _ => none
  else none

namespace Sched

def history (s : Sched V) (ch : Nat) : List (Mailbox.Note V Nat) := s.events.filterMap (Event.note ch)

/-- A channel as a mailbox, which the loop watches while the channel is registered with it. -/
def mailbox (s : Sched V) (ch : Nat) : Mailbox V Nat where
  queue := (s.chan ch).queue
  clients := (s.chan ch).receivers
  closed := (s.chan ch).closed
  fed := decide ((s.chan ch).worker = some .running)
  watched := s.ioChannels.contains ch
  log := s.history ch

/-- The channels with a thread are mailboxes. -/
structure Fed (s : Sched V) : Prop where
  steps : ∀ ch, (s.chan ch).worker ≠ none → Mailbox.Steps {} (s.mailbox ch)
  absent : ∀ ch, ch ∉ s.channels → (s.chan ch).worker = none ∧ (s.chan ch).queue = [] ∧ ∀ e ∈ s.events, e.chan ≠ ch
  plain : ∀ ch, (s.chan ch).worker ≠ none → (s.chan ch).maxsize = 0 ∧ (s.chan ch).senders = []
  io : ∀ ch ∈ s.ioChannels, (s.chan ch).worker ≠ none
  nodup : s.ioChannels.Nodup
  kept : ∀ e ∈ s.events, e.isLost = false

variable {s s' : Sched V} {ch : Nat}

theorem Fed.good (h : s.Fed) (hch : (s.chan ch).worker ≠ none) : Mailbox.Good (s.mailbox ch) :=
  Mailbox.good_start.steps (h.steps ch hch)

theorem Fed.quiet (h : s.Fed) (hchan : s'.chan = s.chan) (hchannels : s'.channels = s.channels)
    (hio : s'.ioChannels = s.ioChannels) (hevents : s'.events = s.events) : s'.Fed := by
  have hmailbox : s'.mailbox = s.mailbox := by
    funext ch
    unfold mailbox history
    rw [hchan, hio, hevents]
  refine ⟨?_, ?_, ?_, ?_, ?_, ?_⟩
  · rw [hmailbox, hchan]
    exact h.steps
  · rw [hchannels, hchan, hevents]
    exact h.absent
  · rw [hchan]
    exact h.plain
  · rw [hio, hchan]
    exact h.io
  · rw [hio]
    exact h.nodup
  · rw [hevents]
    exact h.kept

/-- What happens to one channel. -/
structure Touches (s : Sched V) (ch : Nat) (s' : Sched V) : Prop where
  mem : ch ∈ s'.channels
  channels : ∀ ch', ch' ∉ s'.channels → ch' ∉ s.channels
  chan : ∀ ch', ch' ≠ ch → s'.chan ch' = s.chan ch'
  events : ∃ new, s'.events = new ++ s.events ∧ ∀ e ∈ new, e.chan = ch ∧ e.isLost = false
  io : ∀ ch', ch' ≠ ch → (ch' ∈ s'.ioChannels ↔ ch' ∈ s.ioChannels)
  nodup : s'.ioChannels.Nodup
  fed : ch ∈ s'.ioChannels → (s'.chan ch).worker ≠ none

theorem note_of_ne {e : Event V} (h : e.chan ≠ ch) : e.note ch = none := if_neg h

theorem Touches.history {ch' : Nat} (ht : Touches s ch s') (hne : ch' ≠ ch) : s'.history ch' = s.history ch' := by
  obtain ⟨new, hnew, habout⟩ := ht.events
  unfold Sched.history
  rw [hnew, List.filterMap_append]
  have hnone : new.filterMap (Event.note ch') = [] := by
    rw [List.filterMap_eq_nil_iff]
    intro e he
    apply note_of_ne
    rw [(habout e he).1]
    exact Ne.symm hne
  rw [hnone, List.nil_append]

theorem Fed.touch (h : s.Fed) (ch : Nat) (ht : Touches s ch s')
    (hplain : (s'.chan ch).worker ≠ none → (s'.chan ch).maxsize = 0 ∧ (s'.chan ch).senders = [])
    (hsteps : (s'.chan ch).worker ≠ none → Mailbox.Steps {} (s'.mailbox ch)) : s'.Fed := by
  obtain ⟨new, hnew, habout⟩ := ht.events
  have hmailbox : ∀ ch', ch' ≠ ch → s'.mailbox ch' = s.mailbox ch' := by
    intro ch' hne
    unfold mailbox
    have hwatched : s'.ioChannels.contains ch' = s.ioChannels.contains ch' := by
      rw [Bool.eq_iff_iff, List.contains_iff_mem, List.contains_iff_mem]
      exact ht.io ch' hne
    rw [ht.chan ch' hne, ht.history hne, hwatched]
  refine ⟨fun ch' hworker => ?_, fun ch' hch' => ?_, fun ch' hworker => ?_, fun ch' hio => ?_, ht.nodup, fun e he => ?_⟩
  · by_cases hne : ch' = ch
    · subst hne
      exact hsteps hworker
    · rw [hmailbox ch' hne]
      rw [ht.chan ch' hne] at hworker
      exact h.steps ch' hworker
  · have hne : ch' ≠ ch := fun he => hch' (he ▸ ht.mem)
    obtain ⟨hworker, hqueue, hevents⟩ := h.absent ch' (ht.channels ch' hch')
    rw [ht.chan ch' hne, hnew]
    refine ⟨hworker, hqueue, fun e he => ?_⟩
    rcases List.mem_append.mp he with he | he
    · rw [(habout e he).1]
      exact Ne.symm hne
    · exact hevents e he
  · by_cases hne : ch' = ch
    · subst hne
      exact hplain hworker
    · rw [ht.chan ch' hne] at hworker ⊢
      exact h.plain ch' hworker
  · by_cases hne : ch' = ch
    · subst hne
      exact ht.fed hio
    · rw [ht.chan ch' hne]
      exact h.io ch' ((ht.io ch' hne).mp hio)
  · rw [hnew] at he
    rcases List.mem_append.mp he with he | he
    · exact (habout e he).2
    · exact h.kept e he

theorem Fed.update (h : s.Fed) (chan : Chan V) (new : List (Event V)) (hch : ch ∈ s.channels)
    (hchan : s'.chan = Function.update s.chan ch chan) (hchannels : s'.channels = s.channels)
    (hio : s'.ioChannels = s.ioChannels) (hevents : s'.events = new ++ s.events)
    (habout : ∀ e ∈ new, e.chan = ch ∧ e.isLost = false)
    (hworker : chan.worker ≠ none ↔ (s.chan ch).worker ≠ none)
    (hplain : (s.chan ch).worker ≠ none → (s.chan ch).senders = [] →
      chan.maxsize = (s.chan ch).maxsize ∧ chan.senders = [])
    (hsteps : (s.chan ch).worker ≠ none → Mailbox.Steps (s.mailbox ch) (s'.mailbox ch)) : s'.Fed := by
  have hself : s'.chan ch = chan := by rw [hchan, Function.update_self]
  refine h.touch ch ⟨?_, ?_, ?_, ⟨new, hevents, habout⟩, fun ch' _ => ?_, ?_, fun hmem => ?_⟩ ?_ ?_
  · rw [hchannels]
    exact hch
  · rw [hchannels]
    exact fun _ hm => hm
  · intro ch' hne
    rw [hchan, Function.update_of_ne hne]
  · rw [hio]
  · rw [hio]
    exact h.nodup
  · rw [hself, hworker]
    rw [hio] at hmem
    exact h.io ch hmem
  · rw [hself, hworker]
    intro hw
    obtain ⟨hmax, hs⟩ := h.plain ch hw
    obtain ⟨hmax', hs'⟩ := hplain hw hs
    exact ⟨hmax'.trans hmax, hs'⟩
  · rw [hself, hworker]
    exact fun hw => (h.steps ch hw).trans (hsteps hw)

theorem Fed.mem_of_worker (h : s.Fed) (hw : (s.chan ch).worker ≠ none) : ch ∈ s.channels := by
  by_contra hch
  exact hw (h.absent ch hch).1

theorem Fed.newChannel (h : s.Fed) (chan : Chan V) (io : List Nat) (new : List (Event V)) (hch : ch ∉ s.channels)
    (hchan : s'.chan = Function.update s.chan ch chan) (hchannels : s'.channels = ch :: s.channels)
    (hio : s'.ioChannels = s.ioChannels ++ io) (hio' : io = if chan.worker = none then [] else [ch])
    (hevents : s'.events = new ++ s.events) (habout : ∀ e ∈ new, e.chan = ch ∧ e.isLost = false)
    (hplain : chan.worker ≠ none → chan.maxsize = 0 ∧ chan.senders = [])
    (hsteps : chan.worker ≠ none → Mailbox.Steps {}
      { queue := chan.queue, clients := chan.receivers, closed := chan.closed
        fed := decide (chan.worker = some .running), watched := true
        log := new.filterMap (Event.note ch) }) : s'.Fed := by
  obtain ⟨hnone, -, habsent⟩ := h.absent ch hch
  have hself : s'.chan ch = chan := by rw [hchan, Function.update_self]
  have hnotio : ch ∉ s.ioChannels := fun hm => h.io ch hm hnone
  have hold : s.history ch = [] := by
    unfold Sched.history
    rw [List.filterMap_eq_nil_iff]
    exact fun e he => note_of_ne (habsent e he)
  have hsub : ∀ ch' ∈ io, ch' = ch := by
    rw [hio']
    intro ch' hmem
    split at hmem
    · cases hmem
    · exact List.mem_singleton.mp hmem
  refine h.touch ch ⟨?_, ?_, ?_, ⟨new, hevents, habout⟩, fun ch' hne => ?_, ?_, fun hmem => ?_⟩ ?_ ?_
  · rw [hchannels]
    exact List.mem_cons_self
  · rw [hchannels]
    exact fun _ hm hm' => hm (List.mem_cons_of_mem _ hm')
  · intro ch' hne
    rw [hchan, Function.update_of_ne hne]
  · rw [hio, List.mem_append]
    exact ⟨fun hm => hm.resolve_right fun hm => hne (hsub ch' hm), .inl⟩
  · rw [hio, List.nodup_append]
    refine ⟨h.nodup, ?_, fun a ha b hb hab => hnotio ?_⟩
    · rw [hio']
      split
      · exact List.nodup_nil
      · exact List.nodup_singleton ch
    · rwa [← hsub b hb, ← hab]
  · rw [hself]
    intro hw
    rw [hio, hio', if_pos hw, List.append_nil] at hmem
    exact hnotio hmem
  · rw [hself]
    exact hplain
  · rw [hself]
    intro hw
    have hmailbox : s'.mailbox ch = { queue := chan.queue, clients := chan.receivers, closed := chan.closed
                                      fed := decide (chan.worker = some .running), watched := true
                                      log := new.filterMap (Event.note ch) } := by
      unfold mailbox Sched.history
      unfold Sched.history at hold
      rw [hself, hio, hio', if_neg hw, hevents, List.filterMap_append, hold, List.append_nil]
      simp
    rw [hmailbox]
    exact hsteps hw

/-! ### Steps of one channel -/

@[simp] theorem note_entered (ch : Nat) (v : V) : (Event.entered ch v).note ch = some (.entered v) := if_pos rfl

@[simp] theorem note_taken (ch : Nat) (v : V) : (Event.taken ch v).note ch = some (.taken v) := if_pos rfl

@[simp] theorem note_parked (c ch : Nat) : (Event.parked c ch : Event V).note ch = some (.parked c) := if_pos rfl

@[simp] theorem note_woken (c ch : Nat) (v : Option V) : (Event.woken c ch v).note ch = some (.woken c v) := if_pos rfl

@[simp] theorem note_unparked (c ch : Nat) : (Event.unparked c ch : Event V).note ch = some (.left c) := if_pos rfl

theorem mailbox_workerStep (s : Sched V) (ch : Nat) (step : WorkerStep V)
    (hstep : ∀ escaped, step = .stop escaped → escaped = false) :
    Mailbox.Steps (s.mailbox ch) ((s.workerStep ch step).mailbox ch) := by
  unfold Sched.workerStep
  split
  · cases step with
    | deliver v =>
        have hmailbox : ((s.setChan ch fun chan => { chan with queue := chan.queue ++ [v] }).log
            (.entered ch v)).mailbox ch = { s.mailbox ch with
              queue := (s.mailbox ch).queue ++ [v], log := .entered v :: (s.mailbox ch).log } := by
          simp [mailbox, history, setChan, log]
        rw [hmailbox]
        exact Relation.ReflTransGen.single (.enter _ v)
    | stop escaped =>
        rw [hstep escaped rfl]
        have hmailbox : (s.setChan ch fun chan => { chan with
            worker := some .ended, closed := chan.closed || !false }).mailbox ch = { s.mailbox ch with
              closed := true, fed := false } := by
          simp [mailbox, history, setChan]
        rw [hmailbox]
        exact Relation.ReflTransGen.single (.stop _)
  · exact Relation.ReflTransGen.refl

theorem Fed.workerStep (h : s.Fed) (step : WorkerStep V) (hstep : ∀ escaped, step = .stop escaped → escaped = false) :
    (s.workerStep ch step).Fed := by
  have hmove := s.mailbox_workerStep ch step hstep
  unfold Sched.workerStep at hmove ⊢
  split
  · next hworker =>
      have hw : (s.chan ch).worker ≠ none := by simp [hworker]
      rw [if_pos hworker] at hmove
      cases step with
      | deliver v =>
          refine h.update _ [.entered ch v] (h.mem_of_worker hw) rfl rfl rfl rfl (fun e he => ?_) Iff.rfl
            (fun _ hs => ⟨rfl, hs⟩) fun _ => hmove
          rw [List.mem_singleton.mp he]
          exact ⟨rfl, rfl⟩
      | stop escaped =>
          refine h.update _ [] (h.mem_of_worker hw) rfl rfl rfl rfl (fun e he => by cases he) ?_
            (fun _ hs => ⟨rfl, hs⟩) fun _ => hmove
          exact ⟨fun _ => hw, fun _ => by simp⟩
  · exact h

theorem Fed.pump (h : s.Fed) : (s.pump ch).Fed := by
  unfold Sched.pump
  split
  · next v rest hqueue =>
      have hch : ch ∈ s.channels := by
        by_contra hch
        rw [(h.absent ch hch).2.1] at hqueue
        cases hqueue
      refine h.update _ [.taken ch v] hch rfl rfl rfl rfl (fun e he => ?_) Iff.rfl (fun _ hs => ⟨rfl, hs⟩) fun _ => ?_
      · rw [List.mem_singleton.mp he]
        exact ⟨rfl, rfl⟩
      · have hmailbox : ((s.setChan ch fun chan => { chan with queue := rest }).log (.taken ch v)).mailbox ch =
            { s.mailbox ch with queue := rest, log := .taken v :: (s.mailbox ch).log } := by
          simp [mailbox, history, setChan, log]
        rw [hmailbox]
        exact Relation.ReflTransGen.single (.take hqueue)
  · exact h

theorem Fed.closeStream (h : s.Fed) (hw : (s.chan ch).worker ≠ none) (hnone : (s.chan ch).receivers = []) :
    (s.closeStream ch).Fed := by
  have hnotin : ch ∉ s.ioChannels.erase ch := h.nodup.not_mem_erase
  refine h.touch ch ⟨h.mem_of_worker hw, fun _ hm => hm, fun ch' hne => ?_, ⟨[], rfl, fun e he => by cases he⟩,
    fun ch' hne => List.mem_erase_of_ne hne, h.nodup.erase ch, fun hmem => absurd hmem hnotin⟩ (fun _ => ?_) fun _ => ?_
  · exact Function.update_of_ne hne _ _
  · simpa [Sched.closeStream, setChan] using h.plain ch hw
  · refine (h.steps ch hw).trans ?_
    have hmailbox : (s.closeStream ch).mailbox ch = { s.mailbox ch with
        closed := true, clients := [], watched := false, log := Mailbox.nothing (s.mailbox ch).clients ++ (s.mailbox ch).log } := by
      have hclients : (s.mailbox ch).clients = [] := hnone
      rw [hclients]
      simp [mailbox, history, setChan, Sched.closeStream, Mailbox.nothing, hnone, hnotin]
    rw [hmailbox]
    refine (Relation.ReflTransGen.single (Mailbox.Step.close (.inr hnone))).trans ?_
    exact Relation.ReflTransGen.single (.unwatch rfl rfl)

/-! ### Operations of coroutines -/

@[simp] theorem park_chan (s : Sched V) (c : Nat) (b : Blocked) (nested : Bool) : (s.park c b nested).chan = s.chan := by
  cases nested with
  | true => rfl
  | false => rfl

@[simp] theorem park_channels (s : Sched V) (c : Nat) (b : Blocked) (nested : Bool) :
    (s.park c b nested).channels = s.channels := by
  cases nested with
  | true => rfl
  | false => rfl

@[simp] theorem park_ioChannels (s : Sched V) (c : Nat) (b : Blocked) (nested : Bool) :
    (s.park c b nested).ioChannels = s.ioChannels := by
  cases nested with
  | true => rfl
  | false => rfl

@[simp] theorem park_events (s : Sched V) (c : Nat) (b : Blocked) (nested : Bool) :
    (s.park c b nested).events = s.events := by
  cases nested with
  | true => rfl
  | false => rfl

theorem MayPark.free {c : Nat} {nested : Bool} (hm : s.MayPark c nested) (h : s.Clean) : (s.task c).blocked = none := by
  cases nested with
  | true => exact hm.2.2.2.1
  | false => exact h.free c (Clean.busy_of_driven hm.2)

theorem Fed.send (h : s.Fed) (hclean : s.Clean) {me : Option Nat} {v : V} {nested : Bool} (hch : ch ∈ s.channels)
    (hsend : (s.chan ch).worker ≠ none → (s.chan ch).closed = false → (s.chan ch).receivers = [] ∨ (s.chan ch).queue = []) :
    (s.send me ch v nested).Fed := by
  cases hclosed : (s.chan ch).closed with
  | true =>
      have hsame : s.send me ch v nested = s := if_pos hclosed
      rw [hsame]
      exact h
  | false =>
      cases hreceivers : (s.chan ch).receivers with
      | nil =>
          unfold Sched.send
          simp only [hclosed, hreceivers, Bool.false_eq_true, if_false]
          split
          · next hfull =>
              cases me with
              | none => exact h
              | some c =>
                  simp only []
                  split
                  · refine h.update { s.chan ch with senders := (s.chan ch).senders ++ [(c, v)] } [] hch
                      (by simp [setChan]) (by simp [setChan]) (by simp [setChan]) (by simp [setChan])
                      (fun e he => by cases he) Iff.rfl (fun hw _ => ?_) fun hw => ?_
                    · rw [(h.plain ch hw).1] at hfull
                      omega
                    · rw [(h.plain ch hw).1] at hfull
                      omega
                  · exact h
          · refine h.update _ [.entered ch v] hch rfl rfl rfl rfl (fun e he => ?_) Iff.rfl (fun _ hs => ⟨rfl, hs⟩)
              fun _ => ?_
            · rw [List.mem_singleton.mp he]
              exact ⟨rfl, rfl⟩
            · have hmailbox : ((s.setChan ch fun chan => { chan with queue := chan.queue ++ [v] }).log
                  (.entered ch v)).mailbox ch = { s.mailbox ch with
                    queue := (s.mailbox ch).queue ++ [v], log := .entered v :: (s.mailbox ch).log } := by
                simp [mailbox, history, setChan, log]
              rw [hmailbox]
              exact Relation.ReflTransGen.single (.enter _ v)
      | cons receiver rest =>
          rw [hclean.send_receiver hclosed hreceivers]
          refine h.update _ [.woken receiver ch (some v), .entered ch v] hch rfl rfl rfl rfl (fun e he => ?_) Iff.rfl
            (fun _ hs => ⟨rfl, hs⟩) fun hw => ?_
          · rcases List.mem_cons.mp he with rfl | he
            · exact ⟨rfl, rfl⟩
            · rw [List.mem_singleton.mp he]
              exact ⟨rfl, rfl⟩
          · have hqueue : (s.chan ch).queue = [] := by
              rcases hsend hw hclosed with hnone | hqueue
              · rw [hreceivers] at hnone
                cases hnone
              · exact hqueue
            refine (Relation.ReflTransGen.single (Mailbox.Step.enter (s.mailbox ch) v)).tail ?_
            simp only [mailbox, history, Function.update_self, List.filterMap_cons, note_entered, note_woken]
            rw [hqueue]
            exact Mailbox.Step.give hreceivers rfl

theorem Fed.wakeOneSender (h : s.Fed) (hclean : s.Clean) (hch : ch ∈ s.channels) : (s.wakeOneSender ch).Fed := by
  rw [hclean.wakeOneSender_eq]
  cases hsenders : (s.chan ch).senders with
  | nil => exact h.quiet rfl rfl rfl rfl
  | cons p rest =>
      have hplain : ¬ (s.chan ch).worker ≠ none := by
        intro hw
        rw [(h.plain ch hw).2] at hsenders
        cases hsenders
      refine h.update _ [.entered ch p.2] hch rfl rfl rfl rfl (fun e he => ?_) Iff.rfl (fun hw => absurd hw hplain)
        fun hw => absurd hw hplain
      rw [List.mem_singleton.mp he]
      exact ⟨rfl, rfl⟩

theorem Fed.recv (h : s.Fed) (hclean : s.Clean) {me : Option Nat} {nested : Bool} (hch : ch ∈ s.channels)
    (hm : (s.chan ch).queue = [] → (s.chan ch).closed = false → ∀ c, me = some c → s.MayPark c nested) :
    (s.recv me ch nested).Fed := by
  unfold Sched.recv
  cases hqueue : (s.chan ch).queue with
  | cons v rest =>
      have htaken : ((s.setChan ch fun chan => { chan with queue := rest }).log (.taken ch v)).Fed := by
        refine h.update _ [.taken ch v] hch rfl rfl rfl rfl (fun e he => ?_) Iff.rfl (fun _ hs => ⟨rfl, hs⟩) fun _ => ?_
        · rw [List.mem_singleton.mp he]
          exact ⟨rfl, rfl⟩
        · have hmailbox : ((s.setChan ch fun chan => { chan with queue := rest }).log (.taken ch v)).mailbox ch =
              { s.mailbox ch with queue := rest, log := .taken v :: (s.mailbox ch).log } := by
            simp [mailbox, history, setChan, log]
          rw [hmailbox]
          exact Relation.ReflTransGen.single (.take hqueue)
      exact htaken.wakeOneSender (hclean.setChan _ rfl rfl rfl _ _) hch
  | nil =>
      simp only []
      split
      · exact h
      · next hopen =>
          have hopen : (s.chan ch).closed = false := by simpa using hopen
          cases me with
          | none => exact h
          | some c =>
              have hfree := (hm hqueue hopen c rfl).free hclean
              have hc : c ∉ (s.chan ch).receivers := by
                rw [hclean.received, hfree]
                simp
              refine h.update { s.chan ch with receivers := (s.chan ch).receivers ++ [c] } [.parked c ch] hch
                (by simp [setChan, log]) (by simp [setChan, log]) (by simp [setChan, log]) (by simp [setChan, log])
                (fun e he => ?_) Iff.rfl (fun _ hs => ⟨rfl, hs⟩) fun _ => ?_
              · rw [List.mem_singleton.mp he]
                exact ⟨rfl, rfl⟩
              · refine Relation.ReflTransGen.single ?_
                simp only [mailbox, history, park_chan, park_ioChannels, park_events, setChan, log, Function.update_self,
                  List.filterMap_cons, note_parked]
                exact Mailbox.Step.park hopen hc

theorem Fed.close (h : s.Fed) (hclean : s.Clean) (hch : ch ∈ s.channels)
    (hclose : (s.chan ch).worker ≠ none → (s.chan ch).receivers = [] ∨ (s.chan ch).queue = []) : (s.close ch).Fed := by
  cases hclosed : (s.chan ch).closed with
  | true =>
      have hsame : s.close ch = s := if_pos hclosed
      rw [hsame]
      exact h
  | false =>
      rw [hclean.close_eq hclosed]
      refine h.update _ (((s.chan ch).receivers.map fun c => Event.woken c ch none).reverse ++
        ((s.chan ch).senders.map fun p => Event.entered ch p.2).reverse) hch rfl rfl rfl ?_ (fun e he => ?_) Iff.rfl
        (fun _ hs => ⟨rfl, rfl⟩) fun hw => ?_
      · rw [List.append_assoc]
      · rcases List.mem_append.mp he with he | he
        · obtain ⟨c, -, rfl⟩ := List.mem_map.mp (List.mem_reverse.mp he)
          exact ⟨rfl, rfl⟩
        · obtain ⟨c, -, rfl⟩ := List.mem_map.mp (List.mem_reverse.mp he)
          exact ⟨rfl, rfl⟩
      · have hsenders := (h.plain ch hw).2
        have hnotes : (((s.chan ch).receivers.map fun c => Event.woken c ch none).reverse).filterMap (Event.note ch) =
            Mailbox.nothing (V := V) (s.chan ch).receivers := by
          unfold Mailbox.nothing
          rw [List.filterMap_reverse, List.filterMap_map]
          congr 1
          simp [List.filterMap_eq_map']
        refine Relation.ReflTransGen.single ?_
        simp only [mailbox, history, Function.update_self, hsenders, List.map_nil, List.reverse_nil, List.nil_append,
          List.append_nil, List.filterMap_append, hnotes]
        exact Mailbox.Step.close (hclose hw).symm

theorem Clean.mem_channels (h : s.Clean) {c : Nat}
    (hc : c ∈ (s.chan ch).receivers ∨ c ∈ (s.chan ch).senders.map Prod.fst) : ch ∈ s.channels := by
  by_contra hch
  obtain ⟨hr, hs⟩ := h.allocated ch hch
  rw [hr, hs] at hc
  rcases hc with hc | hc
  · cases hc
  · cases hc

theorem Fed.unparkReceiver (h : s.Fed) (hclean : s.Clean) {c : Nat} (hc : c ∈ (s.chan ch).receivers)
    (hchan : s'.chan = Function.update s.chan ch
      { s.chan ch with receivers := (s.chan ch).receivers.filter (· ≠ c) })
    (hchannels : s'.channels = s.channels) (hio : s'.ioChannels = s.ioChannels)
    (hevents : s'.events = .unparked c ch :: s.events) : s'.Fed := by
  refine h.update _ [.unparked c ch] (hclean.mem_channels (.inl hc)) hchan hchannels hio hevents (fun e he => ?_) Iff.rfl
    (fun _ hs => ⟨rfl, hs⟩) fun _ => ?_
  · rw [List.mem_singleton.mp he]
    exact ⟨rfl, rfl⟩
  · refine Relation.ReflTransGen.single ?_
    simp only [mailbox, history, hchan, hio, hevents, Function.update_self, List.filterMap_cons, note_unparked]
    exact Mailbox.Step.leave hc

theorem Fed.unpark (h : s.Fed) (hclean : s.Clean) (c : Nat) : (s.unpark c).Fed := by
  unfold Sched.unpark
  simp only []
  cases hc : (s.task c).blocked with
  | none => exact h.quiet rfl rfl rfl rfl
  | some b =>
      cases b with
      | wait target => exact h.quiet rfl rfl rfl rfl
      | send ch =>
          have hmem := (hclean.sent ch c).mpr hc
          have hplain : ¬ (s.chan ch).worker ≠ none := by
            intro hw
            rw [(h.plain ch hw).2] at hmem
            cases hmem
          simp only []
          refine h.update { s.chan ch with senders := (s.chan ch).senders.filter (·.1 ≠ c) } []
            (hclean.mem_channels (.inr hmem)) ?_ ?_ ?_ ?_ (fun e he => by cases he) Iff.rfl (fun hw => absurd hw hplain)
            fun hw => absurd hw hplain
          all_goals
            split
            · rfl
            · rfl
      | recv ch =>
          simp only []
          refine h.unparkReceiver hclean ((hclean.received ch c).mpr (.inl hc)) ?_ ?_ ?_ ?_
          all_goals
            split
            · rfl
            · rfl
      | io ch =>
          simp only []
          refine h.unparkReceiver hclean ((hclean.received ch c).mpr (.inr hc)) ?_ ?_ ?_ ?_
          all_goals
            split
            · rfl
            · rfl

theorem Fed.releaseWaiters (h : s.Fed) (target : Nat) : (s.releaseWaiters target).Fed := by
  rw [releaseWaiters_eq]
  exact h.quiet rfl rfl rfl rfl

theorem Fed.markCompleted (h : s.Fed) (c : Nat) : (s.markCompleted c).Fed := by
  unfold Sched.markCompleted
  split
  · exact h
  · apply Fed.releaseWaiters
    exact h.quiet rfl rfl rfl rfl

theorem Fed.settle (h : s.Fed) (c : Nat) : (s.settle c).Fed := h.quiet rfl rfl rfl rfl

theorem Fed.cancel (h : s.Fed) (hclean : s.Clean) (c : Nat) : (s.cancel c).Fed := by
  unfold Sched.cancel
  simp only []
  split
  · exact h
  · split
    · exact (((h.unpark hclean c).settle c).markCompleted c).releaseWaiters c
    · exact (h.unpark hclean c).quiet rfl rfl rfl rfl

theorem Fed.unwound (h : s.Fed) (c : Nat) (timedOut : Bool) : (s.unwound c timedOut).Fed := by
  unfold Sched.unwound
  split
  · exact (h.settle c).markCompleted c
  · exact ((h.settle c).markCompleted c).releaseWaiters c

theorem Fed.finish (h : s.Fed) (c : Nat) (failed : Bool) : (s.finish c failed).Fed := by
  have hs : ((s.leave c).settle c).Fed := h.quiet rfl rfl rfl rfl
  unfold Sched.finish
  split
  · exact (hs.releaseWaiters c).markCompleted c
  · exact hs.markCompleted c

theorem Fed.ensureMetadata (h : s.Fed) (c : Nat) : (s.ensureMetadata c).Fed := by
  unfold Sched.ensureMetadata
  split
  · exact h
  · exact h.quiet rfl rfl rfl rfl

theorem Fed.take (h : s.Fed) : s.take.Fed := by
  unfold Sched.take
  split
  · exact h
  · next c rest _ =>
      simp only []
      split
      · exact h.quiet rfl rfl rfl rfl
      · refine Fed.markCompleted (Fed.releaseWaiters ?_ c) c
        exact h.quiet rfl rfl rfl rfl
      · exact h.quiet rfl rfl rfl rfl

theorem Fed.refuse (h : s.Fed) (entered : Bool) : (s.refuse entered).Fed := by
  unfold Sched.refuse
  split
  · exact h
  · next c rest _ =>
      simp only []
      split
      · exact h.quiet rfl rfl rfl rfl
      · apply Fed.markCompleted
        apply Fed.releaseWaiters
        split
        · exact h.quiet rfl rfl rfl rfl
        · exact h.quiet rfl rfl rfl rfl

theorem Fed.takeTimedOut (h : s.Fed) (unwinds : Bool) : (s.takeTimedOut unwinds).Fed := by
  unfold Sched.takeTimedOut
  split
  · exact h
  · next c rest _ =>
      simp only []
      split
      · exact h.quiet rfl rfl rfl rfl
      · split
        · exact h.quiet rfl rfl rfl rfl
        · apply Fed.markCompleted
          exact h.quiet rfl rfl rfl rfl

/-! ### New channels -/

theorem Fed.callAsync (h : s.Fed) {me : Option Nat} {nested : Bool} (hch : ch ∉ s.channels) :
    (s.callAsync me ch nested).Fed := by
  unfold Sched.callAsync
  cases me with
  | none => exact h
  | some c =>
      simp only []
      split
      · have hworker : ({ receivers := [c], worker := some .running, result := true } : Chan V).worker ≠ none := by simp
        refine h.newChannel { receivers := [c], worker := some .running, result := true } [ch] [.parked c ch] hch ?_ ?_ ?_
          (if_neg hworker).symm ?_ (fun e he => ?_) (fun _ => ⟨rfl, rfl⟩) fun _ => ?_
        · simp [Sched.newChannel, setChan, log]
        · simp [Sched.newChannel, setChan, log]
        · simp [Sched.newChannel, setChan, log]
        · simp [Sched.newChannel, setChan, log]
        · rw [List.mem_singleton.mp he]
          exact ⟨rfl, rfl⟩
        · have hpark := Mailbox.Step.park (m := ({} : Mailbox V Nat)) (c := c) rfl List.not_mem_nil
          simpa using Relation.ReflTransGen.single hpark
      · exact h

theorem Fed.openStream (h : s.Fed) (hch : ch ∉ s.channels) (values : List V) (ended : Bool) :
    (s.openStream ch values ended).Fed := by
  unfold Sched.openStream
  simp only [foldl_log]
  have hworker : ({ queue := values, closed := ended, worker := some (if ended then .ended else .running) } : Chan V).worker
      ≠ none := by simp
  refine h.newChannel _ [ch] (values.map (Event.entered ch)).reverse hch rfl rfl rfl (if_neg hworker).symm
    rfl (fun e he => ?_) (fun _ => ⟨rfl, rfl⟩) fun _ => ?_
  · obtain ⟨v, -, rfl⟩ := List.mem_map.mp (List.mem_reverse.mp he)
    exact ⟨rfl, rfl⟩
  · have hnotes : ((values.map (Event.entered ch)).reverse).filterMap (Event.note ch) =
        (values.map (Mailbox.Note.entered (C := Nat))).reverse := by
      rw [List.filterMap_reverse, List.filterMap_map]
      congr 1
      simp [List.filterMap_eq_map']
    rw [hnotes]
    have henter := Mailbox.steps_enter ({} : Mailbox V Nat) values
    simp only [List.nil_append, List.append_nil] at henter
    cases ended with
    | false => exact henter
    | true => exact henter.tail (.stop _)

theorem Fed.newPlain (h : s.Fed) (hch : ch ∉ s.channels) (maxsize : Nat) :
    (s.newChannel ch { maxsize := maxsize }).Fed :=
  h.newChannel _ [] [] hch rfl rfl (List.append_nil _).symm rfl rfl (fun e he => by cases he)
    (fun hw => absurd rfl hw) fun hw => absurd rfl hw

/-! ### Draining -/

theorem filterMap_woken_none (ch : Nat) (l : List Nat) :
    ((l.map fun c => (Event.woken c ch none : Event V)).reverse).filterMap (Event.note ch) = Mailbox.nothing l := by
  unfold Mailbox.nothing
  rw [List.filterMap_reverse, List.filterMap_map]
  congr 1
  simp [List.filterMap_eq_map']

theorem Fed.serve (h : s.Fed) (hclean : s.Clean) (hw : (s.chan ch).worker ≠ none) : (s.serve ch).Fed := by
  rw [hclean.serve_eq]
  refine h.update _ ((s.served ch).map fun p => Event.woken p.1 ch (some p.2)).reverse (h.mem_of_worker hw) rfl rfl rfl rfl
    (fun e he => ?_) Iff.rfl (fun _ hs => ⟨rfl, hs⟩) fun _ => ?_
  · obtain ⟨p, -, rfl⟩ := List.mem_map.mp (List.mem_reverse.mp he)
    exact ⟨rfl, rfl⟩
  · have hnotes : (((s.served ch).map fun p => Event.woken p.1 ch (some p.2)).reverse).filterMap (Event.note ch) =
        (((s.served ch).map fun p => Mailbox.Note.woken p.1 (some p.2))).reverse := by
      rw [List.filterMap_reverse, List.filterMap_map]
      congr 1
      simp [List.filterMap_eq_map']
    have hserve := Mailbox.steps_serve (s.mailbox ch)
    simp only [mailbox, history, Function.update_self, List.filterMap_append, hnotes]
    exact hserve

theorem Fed.workerSteps (h : s.Fed) (ch : Nat) (late : List (WorkerStep V)) (hlate : ∀ escaped, .stop escaped ∈ late → escaped = false) :
    (s.workerSteps ch late).Fed := by
  induction late generalizing s with
  | nil => exact h
  | cons step late ih =>
      refine ih (h.workerStep step fun escaped he => hlate escaped ?_) fun escaped he => hlate escaped ?_
      · rw [← he]
        exact List.mem_cons_self
      · exact List.mem_cons_of_mem _ he

/-- The receivers that are left are sent away, when the channel is closed and has nothing for them. -/
theorem Fed.dismiss (h : s.Fed) (hw : (s.chan ch).worker ≠ none)
    (hsuspended : ∀ c ∈ (s.chan ch).receivers, (s.task c).state = .suspended)
    (hempty : (s.chan ch).closed = true → (s.chan ch).queue = [] ∨ (s.chan ch).receivers = []) : (s.dismiss ch).Fed := by
  rw [dismiss_eq hsuspended]
  by_cases hclosed : (s.chan ch).closed = true
  · rw [if_pos hclosed]
    have hnotin : ch ∉ s.ioChannels.erase ch := h.nodup.not_mem_erase
    refine h.touch ch ⟨h.mem_of_worker hw, fun _ hm => hm, fun ch' hne => Function.update_of_ne hne _ _,
      ⟨_, rfl, fun e he => ?_⟩, fun ch' hne => List.mem_erase_of_ne hne, h.nodup.erase ch, fun hmem => absurd hmem hnotin⟩
      (fun _ => ?_) fun _ => ?_
    · obtain ⟨c, -, rfl⟩ := List.mem_map.mp (List.mem_reverse.mp he)
      exact ⟨rfl, rfl⟩
    · simpa using h.plain ch hw
    · have hwatched : (s.ioChannels.erase ch).contains ch = false := by
        rw [← Bool.not_eq_true, List.contains_iff_mem]
        exact hnotin
      refine (h.steps ch hw).trans ((Relation.ReflTransGen.single (Mailbox.Step.dismiss hclosed (hempty hclosed))).tail ?_)
      simp only [mailbox, history, Function.update_self, List.filterMap_append, filterMap_woken_none, hwatched]
      exact Mailbox.Step.unwatch hclosed rfl
  · rw [if_neg hclosed]
    exact h.quiet rfl rfl rfl rfl

/-- What the worker of a channel may do while the loop drains it: it does not deliver a value and then stop, after the
loop has found no value for a receiver. -/
def LateOk (s : Sched V) (late : Nat → List (WorkerStep V)) (ch : Nat) : Prop :=
  (∀ escaped, .stop escaped ∈ late ch → escaped = false) ∧
    (s.unserved ch = [] ∨ (∀ v, .deliver v ∉ late ch) ∨ ∀ escaped, .stop escaped ∉ late ch)

theorem workerStep_closed (s : Sched V) (step : WorkerStep V) (hstep : ∀ escaped, step ≠ .stop escaped) :
    ((s.workerStep ch step).chan ch).closed = (s.chan ch).closed := by
  unfold Sched.workerStep
  split
  · cases step with
    | deliver v => simp [setChan, log]
    | stop escaped => exact absurd rfl (hstep escaped)
  · rfl

theorem workerSteps_closed (s : Sched V) (late : List (WorkerStep V)) (hlate : ∀ escaped, .stop escaped ∉ late) :
    ((s.workerSteps ch late).chan ch).closed = (s.chan ch).closed := by
  induction late generalizing s with
  | nil => rfl
  | cons step late ih =>
      refine (ih (s.workerStep ch step) fun escaped he => hlate escaped (List.mem_cons_of_mem _ he)).trans ?_
      exact s.workerStep_closed step fun escaped he => hlate escaped (he ▸ List.mem_cons_self)

theorem workerSteps_queue (s : Sched V) (late : List (WorkerStep V)) (hlate : ∀ v, .deliver v ∉ late) :
    ((s.workerSteps ch late).chan ch).queue = (s.chan ch).queue := by
  induction late generalizing s with
  | nil => rfl
  | cons step late ih =>
      refine (ih (s.workerStep ch step) fun v he => hlate v (List.mem_cons_of_mem _ he)).trans ?_
      unfold Sched.workerStep
      split
      · cases step with
        | deliver v => exact absurd List.mem_cons_self (hlate v)
        | stop escaped => simp [setChan]
      · rfl

theorem workerSteps_ended (s : Sched V) (late : List (WorkerStep V)) (hended : (s.chan ch).worker ≠ some .running) :
    s.workerSteps ch late = s := by
  induction late generalizing s with
  | nil => rfl
  | cons step late ih =>
      have hsame : s.workerStep ch step = s := if_neg hended
      show (s.workerStep ch step).workerSteps ch late = s
      rw [hsame]
      exact ih s hended

theorem workerSteps_worker (s : Sched V) (late : List (WorkerStep V)) (hw : (s.chan ch).worker ≠ none) :
    ((s.workerSteps ch late).chan ch).worker ≠ none := by
  induction late generalizing s with
  | nil => exact hw
  | cons step late ih =>
      apply ih (s.workerStep ch step)
      unfold Sched.workerStep
      split
      · cases step with
        | deliver v => simpa [setChan, log] using hw
        | stop escaped => simp [setChan]
      · exact hw

theorem queue_of_unserved (hrest : s.unserved ch ≠ []) : (s.chan ch).queue.drop (s.chan ch).receivers.length = [] := by
  unfold unserved at hrest
  rw [ne_eq, List.drop_eq_nil_iff, Nat.not_le] at hrest
  rw [List.drop_eq_nil_iff]
  exact Nat.le_of_lt hrest

theorem Fed.drainChannel (h : s.Fed) (hclean : s.Clean) (hw : (s.chan ch).worker ≠ none) {late : Nat → List (WorkerStep V)}
    (hlate : s.LateOk late ch) : (s.drainChannel ch (late ch)).Fed := by
  have hserve := h.serve hclean hw
  have hlast := hserve.workerSteps ch (late ch) hlate.1
  obtain ⟨chan, events, heq, hreceivers, -, -⟩ := (s.serve ch).workerSteps_eq ch (late ch)
  have hchan : ((s.serve ch).chan ch) = { s.chan ch with
      queue := (s.chan ch).queue.drop (s.chan ch).receivers.length, receivers := s.unserved ch } := by
    simp only [hclean.serve_eq, Function.update_self]
  have hrest : (((s.serve ch).workerSteps ch (late ch)).chan ch).receivers = s.unserved ch := by
    simp only [heq, Function.update_self]
    rw [hreceivers, hchan]
  have hworker : ((s.serve ch).chan ch).worker ≠ none := by
    rw [hchan]
    exact hw
  refine hlast.dismiss (workerSteps_worker _ _ hworker) (fun c hc => ?_) fun hclosed => ?_
  · rw [hrest] at hc
    have htask : ((s.serve ch).workerSteps ch (late ch)).task = s.unblocked ((s.served ch).map Prod.fst) := by
      rw [heq, hclean.serve_eq]
    rw [htask, unblocked_state]
    exact hclean.suspended_of_receiver ch (List.mem_of_mem_drop hc)
  · by_cases hnone : s.unserved ch = []
    · exact .inr (hrest.trans hnone)
    · have hqueue : ((s.serve ch).chan ch).queue = [] := by
        rw [hchan]
        exact queue_of_unserved hnone
      rcases hlate.2 with hnone' | hdeliver | hstop
      · exact absurd hnone' hnone
      · exact .inl ((workerSteps_queue _ _ hdeliver).trans hqueue)
      · have hclosed' : ((s.serve ch).chan ch).closed = true := by rw [← workerSteps_closed _ _ hstop, hclosed]
        by_cases hrunning : ((s.serve ch).chan ch).worker = some .running
        · have hshut : ((s.serve ch).chan ch).receivers = [] := (hserve.good hworker).shut hclosed' (decide_eq_true hrunning)
          rw [hchan] at hshut
          exact absurd hshut hnone
        · rw [workerSteps_ended _ _ hrunning]
          exact .inl hqueue

/-- Draining a channel is nothing to the others, and the channel itself is closed afterwards or registered no more. -/
theorem Clean.drainChannel_io (h : s.Clean) (ch : Nat) (late : List (WorkerStep V)) :
    (∀ ch', ch' ≠ ch → (s.drainChannel ch late).chan ch' = s.chan ch') ∧
      (s.drainChannel ch late).ioChannels.Sublist s.ioChannels ∧
      (s.ioChannels.Nodup → ch ∈ (s.drainChannel ch late).ioChannels →
        ((s.drainChannel ch late).chan ch).closed = false) := by
  obtain ⟨chan, events, -, -, -, -, heq⟩ := h.drainChannel_eq ch late
  rw [heq]
  by_cases hclosed : chan.closed = true
  · rw [if_pos hclosed]
    exact ⟨fun ch' hne => Function.update_of_ne hne _ _, List.erase_sublist, fun hnodup hmem => absurd hmem hnodup.not_mem_erase⟩
  · rw [if_neg hclosed]
    refine ⟨fun ch' hne => Function.update_of_ne hne _ _, List.Sublist.refl _, fun _ _ => ?_⟩
    simpa using hclosed

theorem Fed.drain (h : s.Fed) (hclean : s.Clean) {late : Nat → List (WorkerStep V)} (channels : List Nat)
    (hnodup : channels.Nodup) (hworker : ∀ ch ∈ channels, (s.chan ch).worker ≠ none)
    (hlate : ∀ ch ∈ channels, s.LateOk late ch) :
    (channels.foldl (fun s ch => s.drainChannel ch (late ch)) s).Fed ∧
      (∀ ch, ch ∉ channels → (channels.foldl (fun s ch => s.drainChannel ch (late ch)) s).chan ch = s.chan ch) ∧
      (channels.foldl (fun s ch => s.drainChannel ch (late ch)) s).ioChannels.Sublist s.ioChannels ∧
      ∀ ch ∈ channels, ch ∈ (channels.foldl (fun s ch => s.drainChannel ch (late ch)) s).ioChannels →
        ((channels.foldl (fun s ch => s.drainChannel ch (late ch)) s).chan ch).closed = false := by
  induction channels generalizing s with
  | nil => exact ⟨h, fun _ _ => rfl, List.Sublist.refl _, fun ch hch => by cases hch⟩
  | cons ch channels ih =>
      obtain ⟨hch, hnodup⟩ := List.nodup_cons.mp hnodup
      have hfed := h.drainChannel hclean (hworker ch List.mem_cons_self) (hlate ch List.mem_cons_self)
      obtain ⟨hother, hsub, hself⟩ := hclean.drainChannel_io ch (late ch)
      have hne : ∀ ch' ∈ channels, ch' ≠ ch := fun ch' hch' he => hch (he ▸ hch')
      obtain ⟨hfed', hother', hsub', hopen⟩ := ih hfed (hclean.drainChannel ch (late ch)) hnodup
        (fun ch' hch' => by
          rw [hother ch' (hne ch' hch')]
          exact hworker ch' (List.mem_cons_of_mem _ hch'))
        (fun ch' hch' => by
          have hlate' := hlate ch' (List.mem_cons_of_mem _ hch')
          unfold LateOk unserved at hlate' ⊢
          rw [hother ch' (hne ch' hch')]
          exact hlate')
      refine ⟨hfed', fun ch' hch' => ?_, hsub'.trans hsub, fun ch' hch' hmem => ?_⟩
      · rw [List.foldl_cons, hother' ch' fun hm => hch' (List.mem_cons_of_mem _ hm)]
        exact hother ch' fun he => hch' (he ▸ List.mem_cons_self)
      · rcases List.mem_cons.mp hch' with rfl | hch'
        · rw [List.foldl_cons, hother' ch' hch]
          exact hself h.nodup (hsub'.subset hmem)
        · exact hopen ch' hch' hmem

theorem Fed.drainIo (h : s.Fed) (hclean : s.Clean) {late : Nat → List (WorkerStep V)}
    (hlate : ∀ ch ∈ s.ioChannels, s.LateOk late ch) :
    (s.drainIo late).Fed ∧ ∀ ch ∈ (s.drainIo late).ioChannels, ((s.drainIo late).chan ch).closed = false := by
  obtain ⟨hfed, -, hsub, hopen⟩ := h.drain hclean s.ioChannels h.nodup h.io hlate
  exact ⟨hfed, fun ch hch => hopen ch (hsub.subset hch) hch⟩

/-! ### Runs -/

/-- An operation keeps the mailboxes in order: the program hands a channel with a thread no value, and does not close it,
while a coroutine waits and another value is still to come; a stream is closed while nobody waits; and the thread closes
its channel when it ends. -/
def FedAllowed (s : Sched V) : Op V → Prop
  | .send _ ch _ _ =>
      (s.chan ch).worker ≠ none → (s.chan ch).closed = false → (s.chan ch).receivers = [] ∨ (s.chan ch).queue = []
  | .close ch => (s.chan ch).worker ≠ none → (s.chan ch).receivers = [] ∨ (s.chan ch).queue = []
  | .closeStream ch => (s.chan ch).receivers = []
  | .drainIo late => ∀ ch ∈ s.ioChannels, s.LateOk late ch
  | .worker _ (.stop escaped) => escaped = false
  | _ => True

theorem Fed.perform (h : s.Fed) (hclean : s.Clean) (op : Op V) (hop : s.Allowed op) (hfed : s.FedAllowed op) :
    (s.perform op).Fed := by
  cases op with
  | newChannel ch maxsize =>
      simp only [Sched.perform]
      split
      · exact h
      · next hch => exact h.newPlain hch maxsize
  | spawn c =>
      simp only [Sched.perform, Sched.spawn]
      split
      · exact h
      · exact (h.ensureMetadata c).quiet rfl rfl rfl rfl
  | spawnAfter c wake =>
      simp only [Sched.perform, Sched.spawnAfter]
      split
      · exact h
      · exact (h.ensureMetadata c).quiet rfl rfl rfl rfl
  | send me ch v nested =>
      simp only [Sched.perform]
      split
      · exact h
      · next hch => exact h.send hclean (by simpa using (not_or.mp hch).1) hfed
  | recv me ch nested =>
      simp only [Sched.perform]
      split
      · exact h
      · next hch => exact h.recv hclean (by simpa using (not_or.mp hch).1) hop
  | close ch =>
      simp only [Sched.perform]
      split
      · exact h
      · next hch => exact h.close hclean (by simpa using (not_or.mp hch).1) hfed
  | wait me target nested =>
      simp only [Sched.perform, Sched.wait]
      split
      · exact h
      · split
        · split
          · exact h.quiet (by simp) (by simp) (by simp) (by simp)
          · exact h
        · exact h
  | cancel c => exact h.cancel hclean c
  | unwound c timedOut =>
      simp only [Sched.perform]
      split
      · exact h.unwound c timedOut
      · exact h
  | callAsync me ch nested =>
      simp only [Sched.perform]
      split
      · exact h
      · next hch => exact h.callAsync hch
  | openStream ch values ended =>
      simp only [Sched.perform]
      split
      · exact h
      · next hch => exact h.openStream hch values ended
  | closeStream ch =>
      simp only [Sched.perform]
      split
      · exact h
      · next hch => exact h.closeStream (not_or.mp hch).1 hfed
  | resume c state =>
      simp only [Sched.perform]
      split
      · exact h
      · exact h.quiet rfl rfl rfl rfl
  | drainTimers now => exact h.quiet rfl rfl rfl rfl
  | drainIo late => exact (h.drainIo hclean hfed).1
  | take => exact h.take
  | refuse entered => exact h.refuse entered
  | takeTimedOut unwinds => exact h.takeTimedOut unwinds
  | yieldTurn c =>
      simp only [Sched.perform]
      split
      · exact h.quiet rfl rfl rfl rfl
      · exact h
  | sleep c wake =>
      simp only [Sched.perform]
      split
      · exact h.quiet rfl rfl rfl rfl
      · exact h
  | drop c =>
      simp only [Sched.perform]
      split
      · exact h.quiet rfl rfl rfl rfl
      · exact h
  | finish c failed =>
      simp only [Sched.perform]
      split
      · exact h.finish c failed
      · exact h
  | worker ch step =>
      refine h.workerStep step fun escaped he => ?_
      rw [he] at hfed
      exact hfed
  | pump ch =>
      simp only [Sched.perform]
      split
      · exact h
      · exact h.pump

/-- Every operation of a run is allowed in the state it is performed in. -/
def AllFed (s : Sched V) : List (Op V) → Prop
  | [] => True
  | op :: ops => s.FedAllowed op ∧ (s.perform op).AllFed ops

theorem Fed.run (h : s.Fed) (hclean : s.Clean) (ops : List (Op V)) (hops : s.AllAllowed ops) (hfed : s.AllFed ops) :
    (s.run ops).Fed := by
  induction ops generalizing s with
  | nil => exact h
  | cons op ops ih => exact ih (h.perform hclean op hops.1 hfed.1) (hclean.perform op hops.1) hops.2 hfed.2

/-! ### Whoever waits no more has been made ready -/

theorem releaseWaiters_chan (s : Sched V) (c : Nat) : (s.releaseWaiters c).chan = s.chan := by
  rw [releaseWaiters_eq]

theorem markCompleted_chan (s : Sched V) (c : Nat) : (s.markCompleted c).chan = s.chan := by
  unfold markCompleted
  split
  · rfl
  · rw [releaseWaiters_chan]
    rfl

/-- A coroutine that an operation takes off the list of its channel is ready. -/
def Readies (s s' : Sched V) : Prop :=
  ∀ c ch, c ∈ (s.chan ch).receivers → c ∈ (s'.chan ch).receivers ∨ c ∈ s'.ready

theorem readies_of_chan (h : s'.chan = s.chan) : Readies s s' := by
  intro c ch hc
  rw [h]
  exact .inl hc

theorem readies_of_update {chan : Chan V} (h : s'.chan = Function.update s.chan ch chan)
    (hchan : ∀ c ∈ (s.chan ch).receivers, c ∈ chan.receivers ∨ c ∈ s'.ready) : Readies s s' := by
  intro c ch' hc
  rw [h]
  by_cases hne : ch' = ch
  · subst hne
    rw [Function.update_self]
    exact hchan c hc
  · rw [Function.update_of_ne hne]
    exact .inl hc

theorem Clean.readies_drainChannel (h : s.Clean) (ch : Nat) (late : List (WorkerStep V)) :
    Readies s (s.drainChannel ch late) ∧ ∀ c ∈ s.ready, c ∈ (s.drainChannel ch late).ready := by
  obtain ⟨chan, events, -, hreceivers, -, -, heq⟩ := h.drainChannel_eq ch late
  rw [heq]
  by_cases hclosed : chan.closed = true
  · rw [if_pos hclosed]
    exact ⟨readies_of_update rfl fun c hc => .inr (List.mem_append_right _ hc), fun c hc => List.mem_append_left _ hc⟩
  · rw [if_neg hclosed]
    refine ⟨readies_of_update rfl fun c hc => ?_, fun c hc => List.mem_append_left _ hc⟩
    rw [← s.served_append_unserved ch] at hc
    rcases List.mem_append.mp hc with hc | hc
    · exact .inr (List.mem_append_right _ hc)
    · rw [← hreceivers] at hc
      exact .inl hc

theorem Clean.readies_drainIo (h : s.Clean) (late : Nat → List (WorkerStep V)) : Readies s (s.drainIo late) := by
  have hall : ∀ (channels : List Nat) (s : Sched V), s.Clean →
      Readies s (channels.foldl (fun s ch => s.drainChannel ch (late ch)) s) ∧
        ∀ c ∈ s.ready, c ∈ (channels.foldl (fun s ch => s.drainChannel ch (late ch)) s).ready := by
    intro channels
    induction channels with
    | nil => exact fun s _ => ⟨readies_of_chan rfl, fun c hc => hc⟩
    | cons ch channels ih =>
        intro s h
        obtain ⟨hready, hkept⟩ := h.readies_drainChannel ch (late ch)
        obtain ⟨hready', hkept'⟩ := ih _ (h.drainChannel ch (late ch))
        refine ⟨fun c ch' hc => ?_, fun c hc => hkept' c (hkept c hc)⟩
        rcases hready c ch' hc with hc | hc
        · exact hready' c ch' hc
        · exact .inr (hkept' c hc)
  exact (hall s.ioChannels s h).1

theorem unpark_receivers (s : Sched V) {c d : Nat} (hne : d ≠ c) (hd : d ∈ (s.chan ch).receivers) :
    d ∈ ((s.unpark c).chan ch).receivers := by
  have hfilter : ∀ ch', d ∈ (Function.update s.chan ch'
      { s.chan ch' with receivers := (s.chan ch').receivers.filter (· ≠ c) } ch).receivers := by
    intro ch'
    by_cases hch : ch = ch'
    · subst hch
      rw [Function.update_self]
      exact List.mem_filter.mpr ⟨hd, decide_eq_true hne⟩
    · rwa [Function.update_of_ne hch]
  have hsenders : ∀ ch' senders, d ∈ (Function.update s.chan ch' { s.chan ch' with senders := senders } ch).receivers := by
    intro ch' senders
    by_cases hch : ch = ch'
    · subst hch
      rwa [Function.update_self]
    · rwa [Function.update_of_ne hch]
  unfold Sched.unpark
  simp only []
  cases (s.task c).blocked with
  | none => exact hd
  | some b =>
      cases b with
      | wait target => exact hd
      | send ch' =>
          simp only []
          split
          · exact hsenders ch' _
          · exact hsenders ch' _
      | recv ch' =>
          simp only []
          split
          · exact hfilter ch'
          · exact hfilter ch'
      | io ch' =>
          simp only []
          split
          · exact hfilter ch'
          · exact hfilter ch'

theorem cancel_receivers (s : Sched V) {c d : Nat} (hne : d ≠ c) (hd : d ∈ (s.chan ch).receivers) :
    d ∈ ((s.cancel c).chan ch).receivers := by
  have hunpark := s.unpark_receivers hne hd
  unfold Sched.cancel
  simp only []
  split
  · exact hd
  · split
    · rw [releaseWaiters_chan, markCompleted_chan]
      exact hunpark
    · exact hunpark

theorem Clean.wakeOneSender_receivers (h : s.Clean) (ch ch' : Nat) :
    ((s.wakeOneSender ch).chan ch').receivers = (s.chan ch').receivers := by
  rw [h.wakeOneSender_eq]
  cases (s.chan ch).senders with
  | nil => rfl
  | cons p rest =>
      by_cases hne : ch' = ch
      · subst hne
        simp
      · simp [hne]

/-- Only a cancellation takes a coroutine off the list of its channel without making it ready. -/
theorem Clean.readies (h : s.Clean) (op : Op V) {c : Nat} (hop : op ≠ .cancel c) (hc : c ∈ (s.chan ch).receivers) :
    c ∈ ((s.perform op).chan ch).receivers ∨ c ∈ (s.perform op).ready := by
  have hsame : ∀ {s' : Sched V}, s'.chan = s.chan → c ∈ (s'.chan ch).receivers ∨ c ∈ s'.ready :=
    fun hchan => readies_of_chan hchan c ch hc
  have hkept : ∀ {s' : Sched V} (ch' : Nat) (chan : Chan V), s'.chan = Function.update s.chan ch' chan →
      (∀ d ∈ (s.chan ch').receivers, d ∈ chan.receivers) → c ∈ (s'.chan ch).receivers ∨ c ∈ s'.ready :=
    fun ch' chan hchan hsub => readies_of_update hchan (fun d hd => .inl (hsub d hd)) c ch hc
  have hfresh : ∀ {s' : Sched V} (ch' : Nat) (chan : Chan V), ch' ∉ s.channels →
      s'.chan = Function.update s.chan ch' chan → c ∈ (s'.chan ch).receivers ∨ c ∈ s'.ready := by
    intro s' ch' chan hch' hchan
    refine hkept ch' chan hchan fun d hd => ?_
    rw [(h.allocated ch' hch').1] at hd
    cases hd
  cases op with
  | newChannel ch' maxsize =>
      simp only [Sched.perform]
      split
      · exact .inl hc
      · next hch' => exact hfresh ch' _ hch' rfl
  | spawn d =>
      simp only [Sched.perform, Sched.spawn, Sched.ensureMetadata]
      split
      · exact .inl hc
      · split
        · exact .inl hc
        · exact .inl hc
  | spawnAfter d wake =>
      simp only [Sched.perform, Sched.spawnAfter, Sched.ensureMetadata]
      split
      · exact .inl hc
      · split
        · exact .inl hc
        · exact .inl hc
  | send me ch' v nested =>
      simp only [Sched.perform]
      split
      · exact .inl hc
      · cases hclosed : (s.chan ch').closed with
        | true =>
            have hclosed : s.send me ch' v nested = s := if_pos hclosed
            rw [hclosed]
            exact .inl hc
        | false =>
            cases hreceivers : (s.chan ch').receivers with
            | nil =>
                unfold Sched.send
                simp only [hclosed, hreceivers, Bool.false_eq_true, if_false]
                split
                · cases me with
                  | none => exact .inl hc
                  | some d =>
                      simp only []
                      split
                      · exact hkept ch' { s.chan ch' with senders := (s.chan ch').senders ++ [(d, v)] }
                          (by simp [Sched.setChan]) fun d hd => hd
                      · exact .inl hc
                · exact hkept ch' _ rfl fun d hd => hd
            | cons receiver rest =>
                rw [h.send_receiver hclosed hreceivers]
                refine readies_of_update rfl (fun d hd => ?_) c ch hc
                rw [hreceivers] at hd
                rcases List.mem_cons.mp hd with rfl | hd
                · exact .inr (List.mem_append_right _ List.mem_cons_self)
                · exact .inl hd
  | recv me ch' nested =>
      simp only [Sched.perform, Sched.recv]
      split
      · exact .inl hc
      · split
        · next v rest _ =>
            have hclean : ((s.setChan ch' fun chan => { chan with queue := rest }).log (.taken ch' v)).Clean :=
              h.setChan _ rfl rfl rfl _ _
            refine .inl ?_
            rw [hclean.wakeOneSender_receivers]
            by_cases hne : ch = ch'
            · subst hne
              simpa [Sched.setChan, log] using hc
            · simpa [Sched.setChan, log, hne] using hc
        · split
          · exact .inl hc
          · split
            · exact .inl hc
            · next d =>
                exact hkept ch' { s.chan ch' with receivers := (s.chan ch').receivers ++ [d] } (by simp [Sched.setChan, log])
                  fun d hd => List.mem_append_left _ hd
  | close ch' =>
      simp only [Sched.perform]
      split
      · exact .inl hc
      · cases hclosed : (s.chan ch').closed with
        | true =>
            have hclosed : s.close ch' = s := if_pos hclosed
            rw [hclosed]
            exact .inl hc
        | false =>
            rw [h.close_eq hclosed]
            exact readies_of_update rfl (fun d hd => .inr (List.mem_append_right _ (List.mem_append_right _ hd))) c ch hc
  | wait me target nested =>
      simp only [Sched.perform, Sched.wait]
      split
      · exact .inl hc
      · split
        · split
          · exact hsame (by simp)
          · exact .inl hc
        · exact .inl hc
  | cancel d =>
      have hne : c ≠ d := fun he => hop (he ▸ rfl)
      exact .inl (s.cancel_receivers hne hc)
  | unwound d timedOut =>
      simp only [Sched.perform, Sched.unwound]
      split
      · split
        · exact hsame (by rw [markCompleted_chan]; rfl)
        · exact hsame (by rw [releaseWaiters_chan, markCompleted_chan]; rfl)
      · exact .inl hc
  | callAsync me ch' nested =>
      simp only [Sched.perform, Sched.callAsync]
      split
      · exact .inl hc
      · next hch' =>
          split
          · split
            · exact hfresh ch' { receivers := [_], worker := some .running, result := true } hch'
                (by simp [newChannel, Sched.setChan, log]; rfl)
            · exact .inl hc
          · exact .inl hc
  | openStream ch' values ended =>
      simp only [Sched.perform, Sched.openStream, foldl_log]
      split
      · exact .inl hc
      · next hch' => exact hfresh ch' _ hch' rfl
  | closeStream ch' =>
      simp only [Sched.perform]
      split
      · exact .inl hc
      · exact hkept ch' { s.chan ch' with closed := true } rfl fun d hd => hd
  | resume d state =>
      simp only [Sched.perform]
      split
      · exact .inl hc
      · exact .inl hc
  | drainTimers now => exact .inl hc
  | drainIo late => exact h.readies_drainIo late c ch hc
  | take =>
      simp only [Sched.perform, Sched.take]
      split
      · exact .inl hc
      · split
        · exact .inl hc
        · exact hsame (by rw [markCompleted_chan, releaseWaiters_chan])
        · exact .inl hc
  | refuse entered =>
      simp only [Sched.perform, Sched.refuse]
      split
      · exact .inl hc
      · split
        · exact .inl hc
        · apply hsame
          rw [markCompleted_chan, releaseWaiters_chan]
          split
          · rfl
          · rfl
  | takeTimedOut unwinds =>
      simp only [Sched.perform, Sched.takeTimedOut]
      split
      · exact .inl hc
      · split
        · exact .inl hc
        · split
          · exact .inl hc
          · exact hsame (by rw [markCompleted_chan])
  | yieldTurn d =>
      simp only [Sched.perform]
      split
      · exact .inl hc
      · exact .inl hc
  | sleep d wake =>
      simp only [Sched.perform]
      split
      · exact .inl hc
      · exact .inl hc
  | drop d =>
      simp only [Sched.perform]
      split
      · exact .inl hc
      · exact .inl hc
  | finish d failed =>
      simp only [Sched.perform, Sched.finish]
      split
      · split
        · exact hsame (by rw [markCompleted_chan, releaseWaiters_chan]; rfl)
        · exact hsame (by rw [markCompleted_chan]; rfl)
      · exact .inl hc
  | worker ch' step =>
      obtain ⟨chan, events, heq, hreceivers, -, -⟩ := s.workerStep_eq ch' step
      simp only [Sched.perform]
      rw [heq]
      exact hkept ch' chan rfl fun d hd => hreceivers ▸ hd
  | pump ch' =>
      simp only [Sched.perform, Sched.pump]
      split
      · exact .inl hc
      · split
        · exact hkept ch' _ rfl fun d hd => hd
        · exact .inl hc

/-! ### What can be said of the waits -/

/-- Waiting for a thread works. -/
structure Waits (s : Sched V) : Prop where
  /-- A thread that has ended has closed its channel. -/
  closed : ∀ ch, (s.chan ch).worker = some .ended → (s.chan ch).closed = true
  /-- A coroutine has been woken, or has left, as often as it was parked, unless it is still there. -/
  once : ∀ ch, (s.chan ch).worker ≠ none → ∀ c, Mailbox.parkings c (s.history ch) =
    Mailbox.releases c (s.history ch) + if c ∈ (s.chan ch).receivers then 1 else 0
  /-- The values that were given out are those that entered, in turn, and the others are still there. -/
  inTurn : ∀ ch, (s.chan ch).worker ≠ none →
    Mailbox.entered (s.history ch) = (s.chan ch).queue.reverse ++ Mailbox.given (s.history ch)
  kept : ∀ e ∈ s.events, e.isLost = false
  /-- A coroutine has got nil only after the close, and after every value. -/
  exhausted : ∀ ch, (s.chan ch).worker ≠ none → Mailbox.Exhausted (s.history ch) ∧
    (Mailbox.toldNothing (s.history ch) = true → (s.chan ch).closed = true)
  /-- A coroutine that is parked is not ready. -/
  waiting : ∀ ch, ∀ c ∈ (s.chan ch).receivers, (s.task c).state = .suspended ∧ c ∉ s.busy
  readied : ∀ op c ch, op ≠ .cancel c → c ∈ (s.chan ch).receivers →
    c ∈ ((s.perform op).chan ch).receivers ∨ c ∈ (s.perform op).ready
  /-- After the head of the loop nobody is parked on a closed channel, and the loop waits for a timer or a thread. -/
  head : ∀ now late, (∀ ch ∈ s.ioChannels, s.LateOk late ch) →
    (∀ ch, ((s.head now late).2.chan ch).worker ≠ none → ((s.head now late).2.chan ch).closed = true →
      ((s.head now late).2.chan ch).receivers = []) ∧
    ((s.head now late).1 = .polls → (s.head now late).2.timers ≠ [] ∨
      ∃ ch ∈ (s.head now late).2.ioChannels, ((s.head now late).2.chan ch).worker = some .running)

theorem Fed.fed_of_open (h : s.Fed) (hw : (s.chan ch).worker ≠ none) (hopen : (s.chan ch).closed = false) :
    (s.chan ch).worker = some .running := by
  by_contra hended
  have hclosed := (h.good hw).stopped (decide_eq_false hended)
  have hclosed : (s.chan ch).closed = true := hclosed
  rw [hopen] at hclosed
  cases hclosed

theorem Fed.registered (h : s.Fed) (hw : (s.chan ch).worker ≠ none) (hne : (s.chan ch).receivers ≠ []) :
    ch ∈ s.ioChannels := by
  have hwatched : s.ioChannels.contains ch = true := (h.good hw).watched hne
  rwa [List.contains_iff_mem] at hwatched

theorem Fed.head (h : s.Fed) (hclean : s.Clean) (now : Nat) {late : Nat → List (WorkerStep V)}
    (hlate : ∀ ch ∈ s.ioChannels, s.LateOk late ch) :
    (∀ ch, ((s.head now late).2.chan ch).worker ≠ none → ((s.head now late).2.chan ch).closed = true →
      ((s.head now late).2.chan ch).receivers = []) ∧
    ((s.head now late).1 = .polls → (s.head now late).2.timers ≠ [] ∨
      ∃ ch ∈ (s.head now late).2.ioChannels, ((s.head now late).2.chan ch).worker = some .running) := by
  have htimers : (s.drainTimers now).Fed := h.quiet rfl rfl rfl rfl
  obtain ⟨hfed, hopen⟩ := htimers.drainIo (hclean.drainTimers now) hlate
  have hempty : ∀ ch, (((s.drainTimers now).drainIo late).chan ch).worker ≠ none →
      (((s.drainTimers now).drainIo late).chan ch).closed = true →
      (((s.drainTimers now).drainIo late).chan ch).receivers = [] := by
    intro ch hw hclosed
    by_contra hne
    rw [hopen ch (hfed.registered hw hne)] at hclosed
    cases hclosed
  unfold Sched.head
  simp only []
  split
  · next hcontinues =>
      unfold continues at hcontinues
      push Not at hcontinues
      refine ⟨fun ch hw _ => ?_, fun hp => (by cases hp)⟩
      by_contra hne
      have hmem := h.registered hw hne
      rw [hcontinues.2.2.1] at hmem
      cases hmem
  · split
    · exact ⟨hempty, fun hp => (by cases hp)⟩
    · split
      · exact ⟨hempty, fun hp => (by cases hp)⟩
      · split
        · next hpending =>
            refine ⟨hempty, fun _ => hpending.imp_right fun hio => ?_⟩
            obtain ⟨ch, hch⟩ := List.exists_mem_of_ne_nil _ hio
            exact ⟨ch, hch, hfed.fed_of_open (hfed.io ch hch) (hopen ch hch)⟩
        · exact ⟨hempty, fun hp => (by cases hp)⟩

theorem Fed.waits (h : s.Fed) (hclean : s.Clean) : s.Waits where
  closed ch hended := by
    have hw : (s.chan ch).worker ≠ none := by simp [hended]
    refine (h.good hw).stopped (decide_eq_false ?_)
    rw [hended]
    simp
  once ch hw := (h.good hw).once
  inTurn ch hw := (h.good hw).fifo
  kept := h.kept
  exhausted ch hw := ⟨(h.good hw).exhausted, (h.good hw).told⟩
  waiting ch c hc := by
    refine ⟨hclean.suspended_of_receiver ch hc, hclean.notBusy ?_⟩
    rcases (hclean.received ch c).mp hc with hb | hb
    · simp [hb]
    · simp [hb]
  readied op c ch hop hc := hclean.readies op hop hc
  head now _ hlate := h.head hclean now hlate

theorem Fresh.fed (h : s.Fresh) : s.Fed := by
  have hnone : ∀ ch, (s.chan ch).worker = none := fun ch => by rw [h.chan]
  refine ⟨fun ch hw => absurd (hnone ch) hw, fun ch _ => ⟨hnone ch, by rw [h.chan], fun e he => ?_⟩,
    fun ch hw => absurd (hnone ch) hw, fun ch hch => ?_, ?_, fun e he => ?_⟩
  · rw [h.events] at he
    cases he
  · rw [h.ioChannels] at hch
    cases hch
  · rw [h.ioChannels]
    exact List.nodup_nil
  · rw [h.events] at he
    cases he

/-- In every state of every run, waiting for a thread works. -/
theorem thread_waits (hfresh : s.Fresh) (ops : List (Op V)) (hops : s.AllAllowed ops) (hfed : s.AllFed ops) :
    (s.run ops).Waits :=
  (hfresh.fed.run hfresh.clean ops hops hfed).waits (hfresh.clean.run ops hops)

/-- A call whose thread delivers a value and ends. -/
theorem call_waits : ((empty : Sched Nat).run [.spawn 0, .take, .callAsync (some 0) 5 false, .worker 5 (.deliver 7),
    .worker 5 (.stop false), .drainIo fun _ => []]).Waits := by
  apply thread_waits empty_fresh
  · refine ⟨fun _ => ⟨by decide, rfl, by decide, fun hk => by cases hk⟩, trivial, fun c hc _ => ?_, trivial, trivial, trivial,
      trivial⟩
    cases hc
    exact ⟨by decide, by decide⟩
  · refine ⟨trivial, trivial, trivial, trivial, rfl, fun ch _ => ⟨fun _ hs => (by cases hs), .inr (.inl fun _ hs => ?_)⟩,
      trivial⟩
    cases hs

/-- A call whose thread ends with an exception. -/
def escaped : Sched Nat :=
  empty.run [.spawn 0, .take, .callAsync (some 0) 5 false, .worker 5 (.stop true)]

/-- The channel is never closed, the coroutine stays parked on it, and the loop polls. -/
theorem escaped_polls : (escaped.chan 5).worker = some .ended ∧ (escaped.chan 5).closed = false ∧
    (escaped.chan 5).receivers = [0] ∧ (escaped.head 0 fun _ => []).1 = .polls ∧
    (escaped.head 0 fun _ => []).2.timers = [] ∧ ¬ escaped.Waits := by
  have hended : (escaped.chan 5).worker = some .ended := by decide
  have hopen : (escaped.chan 5).closed = false := by decide
  refine ⟨hended, hopen, by decide, by decide, by decide, fun hwaits => ?_⟩
  have hclosed := hwaits.closed 5 hended
  rw [hopen] at hclosed
  cases hclosed

end Sched

end Nodus.Scheduling

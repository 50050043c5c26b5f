import Mathlib.Logic.Relation
import Mathlib.Data.List.Nodup

/-! A queue with clients that wait for its values in turn, a feeder that fills it, and a watcher that wakes the clients.
What happens to it is in its log. -/

/-- What happens to values and clients. -/
inductive Mailbox.Note (V C : Type) where
  | entered (v : V)
  | taken (v : V)
  | parked (c : C)
  /-- Woken with a value, or with nothing. -/
  | woken (c : C) (v : Option V)
  | left (c : C)

structure Mailbox (V C : Type) where
  queue : List V := []
  clients : List C := []
  closed : Bool := false
  fed : Bool := true
  watched : Bool := true
  /-- The latest first. -/
  log : List (Mailbox.Note V C) := []

namespace Mailbox

variable {V C : Type}

/-- The values that have entered, the latest first. -/
def entered : List (Note V C) → List V
  | [] => []
  | .entered v :: log => v :: entered log
  | .taken _ :: log | .parked _ :: log | .woken _ _ :: log | .left _ :: log => entered log

/-- The values that have been given out, the latest first. -/
def given : List (Note V C) → List V
  | [] => []
  | .taken v :: log | .woken _ (some v) :: log => v :: given log
  | .entered _ :: log | .parked _ :: log | .woken _ none :: log | .left _ :: log => given log

/-- A client is told that there is nothing only when every value that entered has been given out. -/
def Exhausted : List (Note V C) → Prop
  | [] => True
  | .woken _ none :: log => entered log = given log ∧ Exhausted log
  | .entered _ :: log | .taken _ :: log | .parked _ :: log | .woken _ (some _) :: log | .left _ :: log => Exhausted log

/-- Some client has been told that there is nothing. -/
def toldNothing : List (Note V C) → Bool
  | [] => false
  | .woken _ none :: _ => true
  | .entered _ :: log | .taken _ :: log | .parked _ :: log | .woken _ (some _) :: log | .left _ :: log => toldNothing log

section Counts
variable [DecidableEq C]

/-- How often a client has begun to wait. -/
def parkings (c : C) : List (Note V C) → Nat
  | [] => 0
  | .parked d :: log => parkings c log + if d = c then 1 else 0
  | .entered _ :: log | .taken _ :: log | .woken _ _ :: log | .left _ :: log => parkings c log

/-- How often a client has been woken, or has left. -/
def releases (c : C) : List (Note V C) → Nat
  | [] => 0
  | .woken d _ :: log | .left d :: log => releases c log + if d = c then 1 else 0
  | .entered _ :: log | .taken _ :: log | .parked _ :: log => releases c log

end Counts

/-- Clients that are told that there is nothing. -/
def nothing (clients : List C) : List (Note V C) := (clients.map fun c => Note.woken c none).reverse

variable {m m' : Mailbox V C}

/-- What can happen. -/
inductive Step [DecidableEq C] : Mailbox V C → Mailbox V C → Prop where
  | enter (m : Mailbox V C) (v : V) : Step m { m with queue := m.queue ++ [v], log := .entered v :: m.log }
  | take {m : Mailbox V C} {v : V} {queue : List V} (hqueue : m.queue = v :: queue) :
      Step m { m with queue := queue, log := .taken v :: m.log }
  | park {m : Mailbox V C} {c : C} (hopen : m.closed = false) (hc : c ∉ m.clients) :
      Step m { m with clients := m.clients ++ [c], log := .parked c :: m.log }
  | give {m : Mailbox V C} {c : C} {clients : List C} {v : V} {queue : List V} (hclients : m.clients = c :: clients)
      (hqueue : m.queue = v :: queue) :
      Step m { m with clients := clients, queue := queue, log := .woken c (some v) :: m.log }
  /-- The feeder has stopped, and the clients that are left are told so. -/
  | dismiss {m : Mailbox V C} (hclosed : m.closed = true) (hqueue : m.queue = [] ∨ m.clients = []) :
      Step m { m with clients := [], log := nothing m.clients ++ m.log }
  | leave {m : Mailbox V C} {c : C} (hc : c ∈ m.clients) :
      Step m { m with clients := m.clients.filter (· ≠ c), log := .left c :: m.log }
  /-- The mailbox is closed from outside. -/
  | close {m : Mailbox V C} (hqueue : m.queue = [] ∨ m.clients = []) :
      Step m { m with closed := true, clients := [], log := nothing m.clients ++ m.log }
  /-- The feeder stops, and closes the mailbox. -/
  | stop (m : Mailbox V C) : Step m { m with closed := true, fed := false }
  | unwatch {m : Mailbox V C} (hclosed : m.closed = true) (hclients : m.clients = []) :
      Step m { m with watched := false }

/-- Several steps. -/
abbrev Steps [DecidableEq C] : Mailbox V C → Mailbox V C → Prop := Relation.ReflTransGen Step

/-- What always holds of a mailbox. -/
structure Good [DecidableEq C] (m : Mailbox V C) : Prop where
  /-- When the feeder has stopped the mailbox is closed. -/
  stopped : m.fed = false → m.closed = true
  /-- Nobody waits at a closed mailbox that is still fed. -/
  shut : m.closed = true → m.fed = true → m.clients = []
  watchedOpen : m.closed = false → m.watched = true
  watched : m.clients ≠ [] → m.watched = true
  nodup : m.clients.Nodup
  /-- What has entered has been given out in turn, or is still there. -/
  fifo : entered m.log = m.queue.reverse ++ given m.log
  once : ∀ c, parkings c m.log = releases c m.log + if c ∈ m.clients then 1 else 0
  exhausted : Exhausted m.log
  told : toldNothing m.log = true → m.closed = true

/-! ### The log -/

theorem entered_nothing (clients : List C) (log : List (Note V C)) : entered (nothing clients ++ log) = entered log := by
  unfold nothing
  rw [← List.map_reverse]
  generalize clients.reverse = l
  induction l with
  | nil => rfl
  | cons c l ih => exact ih

theorem given_nothing (clients : List C) (log : List (Note V C)) : given (nothing clients ++ log) = given log := by
  unfold nothing
  rw [← List.map_reverse]
  generalize clients.reverse = l
  induction l with
  | nil => rfl
  | cons c l ih => exact ih

theorem exhausted_nothing {clients : List C} {log : List (Note V C)} (h : Exhausted log)
    (hlog : clients = [] ∨ entered log = given log) : Exhausted (nothing clients ++ log) := by
  rcases hlog with rfl | hlog
  · exact h
  · have hsame : ∀ l : List C, entered (l.map (fun c => Note.woken c none) ++ log) = entered log ∧
        given (l.map (fun c => Note.woken c none) ++ log) = given log := by
      intro l
      have he := entered_nothing l.reverse log
      have hg := given_nothing l.reverse log
      unfold nothing at he hg
      rw [← List.map_reverse, List.reverse_reverse] at he hg
      exact ⟨he, hg⟩
    unfold nothing
    rw [← List.map_reverse]
    generalize clients.reverse = l
    induction l with
    | nil => exact h
    | cons c l ih =>
        obtain ⟨he, hg⟩ := hsame l
        exact ⟨he.trans (hlog.trans hg.symm), ih⟩

section Counts
variable [DecidableEq C]

theorem parkings_nothing (c : C) (clients : List C) (log : List (Note V C)) :
    parkings c (nothing clients ++ log) = parkings c log := by
  unfold nothing
  rw [← List.map_reverse]
  generalize clients.reverse = l
  induction l with
  | nil => rfl
  | cons d l ih => exact ih

theorem releases_nothing (c : C) {clients : List C} (hnodup : clients.Nodup) (log : List (Note V C)) :
    releases c (nothing clients ++ log) = releases c log + if c ∈ clients then 1 else 0 := by
  unfold nothing
  rw [← List.map_reverse]
  have hrev : clients.reverse.Nodup := List.nodup_reverse.mpr hnodup
  have hmem : c ∈ clients ↔ c ∈ clients.reverse := List.mem_reverse.symm
  simp only [hmem]
  generalize clients.reverse = l at hrev ⊢
  induction l with
  | nil => rfl
  | cons d l ih =>
      obtain ⟨hd, hl⟩ := List.nodup_cons.mp hrev
      have ih := ih hl
      rw [List.map_cons, List.cons_append, releases, ih]
      by_cases hdc : d = c
      · subst hdc
        simp [hd]
      · simp [hdc, Ne.symm hdc]

end Counts

/-! ### The invariant -/

variable [DecidableEq C]

theorem good_start : Good ({} : Mailbox V C) :=
  ⟨fun h => (by cases h), fun h => (by cases h), fun _ => rfl, fun _ => rfl, List.nodup_nil, rfl, fun _ => rfl, trivial,
    fun h => (by cases h)⟩

theorem Good.emptied (h : Good m) (hqueue : m.queue = [] ∨ m.clients = []) :
    Good { m with closed := true, clients := [], log := nothing m.clients ++ m.log } where
  stopped _ := rfl
  shut _ _ := rfl
  watchedOpen hopen := by cases hopen
  watched hclients := absurd rfl hclients
  nodup := List.nodup_nil
  fifo := by
    simp only [entered_nothing, given_nothing]
    exact h.fifo
  once c := by
    simp only [parkings_nothing, releases_nothing c h.nodup, List.not_mem_nil, if_false, Nat.add_zero]
    exact h.once c
  exhausted := by
    apply exhausted_nothing h.exhausted
    rcases hqueue with hqueue | hclients
    · have hfifo := h.fifo
      rw [hqueue] at hfifo
      exact .inr hfifo
    · exact .inl hclients
  told _ := rfl

theorem Good.step (h : Good m) (hs : Step m m') : Good m' := by
  cases hs with
  | enter v =>
      refine ⟨h.stopped, h.shut, h.watchedOpen, h.watched, h.nodup, ?_, h.once, h.exhausted, h.told⟩
      simp only [entered, given, List.reverse_append, List.reverse_singleton, List.cons_append, List.nil_append]
      rw [h.fifo]
  | @take v queue hqueue =>
      refine ⟨h.stopped, h.shut, h.watchedOpen, h.watched, h.nodup, ?_, h.once, h.exhausted, h.told⟩
      have hfifo := h.fifo
      rw [hqueue, List.reverse_cons, List.append_assoc] at hfifo
      exact hfifo
  | @park c hopen hc =>
      refine ⟨h.stopped, fun hclosed => ?_, h.watchedOpen, fun _ => h.watchedOpen hopen, ?_, h.fifo, fun d => ?_,
        h.exhausted, h.told⟩
      · rw [hopen] at hclosed
        cases hclosed
      · rw [List.nodup_append]
        refine ⟨h.nodup, List.nodup_singleton c, fun a ha b hb hab => hc ?_⟩
        rwa [← List.mem_singleton.mp hb, ← hab]
      · simp only [parkings, releases, List.mem_append, List.mem_singleton]
        rw [h.once d]
        by_cases hcd : c = d
        · subst hcd
          simp [hc]
        · simp [hcd, Ne.symm hcd]
  | @give c clients v queue hclients hqueue =>
      have hnodup := h.nodup
      rw [hclients, List.nodup_cons] at hnodup
      refine ⟨h.stopped, fun hclosed hfed => ?_, h.watchedOpen, fun _ => ?_, hnodup.2, ?_, fun d => ?_, h.exhausted, h.told⟩
      · have hnone := h.shut hclosed hfed
        rw [hclients] at hnone
        cases hnone
      · exact h.watched (by simp [hclients])
      · have hfifo := h.fifo
        rw [hqueue, List.reverse_cons, List.append_assoc] at hfifo
        exact hfifo
      · have honce := h.once d
        rw [hclients] at honce
        simp only [parkings, releases]
        rw [honce]
        by_cases hcd : c = d
        · subst hcd
          simp [hnodup.1]
        · simp [hcd, Ne.symm hcd]
  | dismiss hclosed hqueue =>
      have hgood := h.emptied hqueue
      rw [← hclosed] at hgood
      exact hgood
  | @leave c hc =>
      refine ⟨h.stopped, fun hclosed hfed => ?_, h.watchedOpen, fun _ => ?_, h.nodup.filter _, h.fifo, fun d => ?_,
        h.exhausted, h.told⟩
      · rw [h.shut hclosed hfed] at hc
        cases hc
      · exact h.watched (List.ne_nil_of_mem hc)
      · simp only [parkings, releases]
        rw [h.once d]
        by_cases hcd : c = d
        · subst hcd
          simp [hc]
        · simp [hcd, Ne.symm hcd]
  | close hqueue => exact h.emptied hqueue
  | stop =>
      exact ⟨fun _ => rfl, fun _ hfed => (by cases hfed), fun hopen => (by cases hopen), h.watched, h.nodup, h.fifo, h.once,
        h.exhausted, fun _ => rfl⟩
  | unwatch hclosed hclients =>
      refine ⟨h.stopped, h.shut, fun hopen => ?_, fun hne => absurd hclients hne, h.nodup, h.fifo, h.once, h.exhausted,
        h.told⟩
      have hopen : m.closed = false := hopen
      rw [hclosed] at hopen
      cases hopen

theorem Good.steps (h : Good m) (hs : Steps m m') : Good m' := by
  induction hs with
  | refl => exact h
  | tail _ hstep ih => exact ih.step hstep

theorem steps_serve (m : Mailbox V C) : Steps m { m with
    queue := m.queue.drop m.clients.length
    clients := m.clients.drop m.queue.length
    log := ((m.clients.zip m.queue).map fun p => Note.woken p.1 (some p.2)).reverse ++ m.log } := by
  obtain ⟨queue, clients, closed, fed, watched, log⟩ := m
  induction clients generalizing queue log with
  | nil => simpa using Relation.ReflTransGen.refl
  | cons c clients ih =>
      cases queue with
      | nil => exact Relation.ReflTransGen.refl
      | cons v queue =>
          refine Relation.ReflTransGen.head (Step.give rfl rfl) ?_
          simpa using ih queue (.woken c (some v) :: log)

theorem steps_enter (m : Mailbox V C) (values : List V) : Steps m { m with
    queue := m.queue ++ values, log := (values.map Note.entered).reverse ++ m.log } := by
  induction values generalizing m with
  | nil => simpa using Relation.ReflTransGen.refl
  | cons v values ih =>
      refine Relation.ReflTransGen.head (Step.enter m v) ?_
      simpa using ih { m with queue := m.queue ++ [v], log := .entered v :: m.log }

end Mailbox

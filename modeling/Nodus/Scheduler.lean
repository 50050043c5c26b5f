import Mathlib.Logic.Function.Basic
import Mathlib.Data.List.Nodup

/-! The scheduler: which coroutines are ready, sleeping or parked, the channels they are parked on, and the worker
threads behind some of the channels. Coroutines and channels are numbered. -/

namespace Nodus.Scheduling

inductive TaskState where
  | created
  | running
  | suspended
  | finished
  deriving DecidableEq, Repr

/-- `blocked_reason` with `blocked_on`. The reasons of the four kinds of asynchronous calls are one. -/
inductive Blocked where
  | send (ch : Nat)
  | recv (ch : Nat)
  | io (ch : Nat)
  | wait (target : Nat)
  deriving DecidableEq, Repr

structure Task where
  state : TaskState := .created
  blocked : Option Blocked := none
  /-- The coroutine has an id, from this scheduler or from one that has been replaced. -/
  known : Bool := false
  cancelling : Bool := false
  /-- The scheduler has counted the task as done. -/
  completed : Bool := false
  name : String := "<anonymous>"
  deriving DecidableEq, Repr

/-- The thread that feeds a channel. -/
inductive Worker where
  | running
  | ended
  deriving DecidableEq, Repr

/-- What the thread behind a channel does: it delivers a value, or it returns, after closing the channel unless an
exception escaped from it. -/
inductive WorkerStep (V : Type) where
  | deliver (v : V)
  | stop (escaped : Bool)
  deriving DecidableEq, Repr

structure Chan (V : Type) where
  /-- Unbounded when zero. -/
  maxsize : Nat := 0
  queue : List V := []
  receivers : List Nat := []
  senders : List (Nat × V) := []
  closed : Bool := false
  worker : Option Worker := none
  /-- The channel of an asynchronous call, which the program never gets. -/
  result : Bool := false
  deriving DecidableEq, Repr

/-- What happens to values and coroutines on channels. -/
inductive Event (V : Type) where
  | entered (ch : Nat) (v : V)
  | parked (c ch : Nat)
  /-- Made ready with a value, or with nil. -/
  | woken (c ch : Nat) (v : Option V)
  | unparked (c ch : Nat)
  /-- Received without waiting, or taken by the thread that reads the channel. -/
  | taken (ch : Nat) (v : V)
  | lost (ch : Nat) (v : V)
  deriving DecidableEq, Repr

structure Sched (V : Type) where
  task : Nat → Task
  chan : Nat → Chan V
  /-- The channels there are. -/
  channels : List Nat := []
  /-- The ids the scheduler has given out, in order. -/
  tasks : List Nat := []
  ready : List Nat := []
  /-- The earliest first. -/
  timers : List (Nat × Nat) := []
  ioChannels : List Nat := []
  recvChannels : List Nat := []
  sendChannels : List Nat := []
  /-- Targets and the coroutines parked in `wait` on them. -/
  waiters : List (Nat × Nat) := []
  current : Option Nat := none
  /-- The coroutines a loop is in the middle of resuming, the innermost first. -/
  driven : List Nat := []
  /-- The latest first. -/
  events : List (Event V) := []

variable {V : Type}

namespace Sched

def setTask (s : Sched V) (c : Nat) (f : Task → Task) : Sched V :=
  { s with task := Function.update s.task c (f (s.task c)) }

def setChan (s : Sched V) (ch : Nat) (f : Chan V → Chan V) : Sched V :=
  { s with chan := Function.update s.chan ch (f (s.chan ch)) }

def log (s : Sched V) (event : Event V) : Sched V := { s with events := event :: s.events }

def discardRecv (s : Sched V) (ch : Nat) : Sched V := { s with recvChannels := s.recvChannels.filter (· ≠ ch) }

def discardSend (s : Sched V) (ch : Nat) : Sched V := { s with sendChannels := s.sendChannels.filter (· ≠ ch) }

/-- `schedule`. -/
def schedule (s : Sched V) (c : Nat) : Sched V :=
  if (s.task c).state = .finished then s else { s with ready := s.ready ++ [c] }

def unblock (s : Sched V) (c : Nat) : Sched V := s.setTask c fun t => { t with blocked := none }

/-- `_ensure_metadata`. -/
def ensureMetadata (s : Sched V) (c : Nat) : Sched V :=
  if (s.task c).known then s else { s.setTask c fun t => { t with known := true } with tasks := s.tasks ++ [c] }

def spawn (s : Sched V) (c : Nat) : Sched V :=
  if (s.task c).state = .finished then s
  else
    let s' := s.ensureMetadata c
    { s' with ready := s'.ready ++ [c] }

/-- After the entries that are due no later. -/
def insertTimer (wake c : Nat) : List (Nat × Nat) → List (Nat × Nat)
  | [] => [(wake, c)]
  | entry :: rest => if entry.1 ≤ wake then entry :: insertTimer wake c rest else (wake, c) :: entry :: rest

def spawnAfter (s : Sched V) (c wake : Nat) : Sched V :=
  if (s.task c).state = .finished then s
  else
    let s' := s.ensureMetadata c
    { s' with timers := insertTimer wake c s'.timers }

/-- `release_waiters`. -/
def releaseWaiters (s : Sched V) (target : Nat) : Sched V :=
  ((s.waiters.filter (·.1 = target)).map Prod.snd).foldl
    (fun s w =>
      let s' := s.unblock w
      if (s'.task w).state = .suspended then { s' with ready := s'.ready ++ [w] } else s')
    { s with waiters := s.waiters.filter (·.1 ≠ target) }

/-- `_mark_completed`: the waiters of a task are released the first time only. -/
def markCompleted (s : Sched V) (c : Nat) : Sched V :=
  if (s.task c).known = false ∨ (s.task c).completed then s
  else (s.setTask c fun t => { t with completed := true }).releaseWaiters c

/-- A parked coroutine is handed a value, or nil, and made ready. -/
def wake (s : Sched V) (ch c : Nat) (v : Option V) : Sched V :=
  if (s.task c).state = .suspended then
    let s' := (s.unblock c).log (.woken c ch v)
    { s' with ready := s'.ready ++ [c] }
  else match v with
    | some v => s.log (.lost ch v)
    | none => s

/-- A step of the thread behind a channel, if it is still running. -/
def workerStep (s : Sched V) (ch : Nat) (step : WorkerStep V) : Sched V :=
  if (s.chan ch).worker = some .running then
    match step with
    | .deliver v => (s.setChan ch fun chan => { chan with queue := chan.queue ++ [v] }).log (.entered ch v)
    | .stop escaped => s.setChan ch fun chan => { chan with worker := some .ended, closed := chan.closed || !escaped }
  else s

/-- The first loop of `_drain_io_channels` for one channel: a value for each receiver, as far as they go. -/
def serve (s : Sched V) (ch : Nat) : Sched V :=
  ((s.chan ch).receivers.zip (s.chan ch).queue).foldl (fun s p => s.wake ch p.1 (some p.2))
    (s.setChan ch fun chan => { chan with
      queue := chan.queue.drop chan.receivers.length
      receivers := chan.receivers.drop chan.queue.length })

/-- The rest of it: nil for the receivers that are left, if the channel is closed. -/
def dismiss (s : Sched V) (ch : Nat) : Sched V :=
  if (s.chan ch).closed then
    let s' := (s.chan ch).receivers.foldl (fun s c => s.wake ch c none)
      (s.setChan ch fun chan => { chan with receivers := [] })
    { s'.discardRecv ch with ioChannels := s'.ioChannels.erase ch }
  else if (s.chan ch).receivers = [] then s.discardRecv ch
  else s

/-- `_drain_io_channels` for one channel. What its worker does before the loop ends is as if done before; `late` is what
it does between the end of the loop and the look at whether the channel is closed. -/
def drainChannel (s : Sched V) (ch : Nat) (late : List (WorkerStep V)) : Sched V :=
  (late.foldl (fun s step => s.workerStep ch step) (s.serve ch)).dismiss ch

def drainIo (s : Sched V) (late : Nat → List (WorkerStep V)) : Sched V :=
  s.ioChannels.foldl (fun s ch => s.drainChannel ch (late ch)) s

/-- `_drain_timers`. -/
def drainTimers (s : Sched V) (now : Nat) : Sched V :=
  let due := (s.timers.takeWhile (·.1 ≤ now)).map Prod.snd
  { s with
    timers := s.timers.dropWhile (·.1 ≤ now)
    ready := s.ready ++ due.filter fun c => (s.task c).state ≠ .finished }

/-- The turn of a coroutine is over. -/
def leave (s : Sched V) (c : Nat) : Sched V := { s with driven := s.driven.erase c, current := none }

/-- The coroutine that is running is parked. Inside a nested execution loop its turn goes on all the same. -/
def park (s : Sched V) (c : Nat) (b : Blocked) (nested : Bool) : Sched V :=
  let s' := s.setTask c fun t => { t with state := .suspended, blocked := some b }
  if nested then s' else s'.leave c

/-- `send`, from the coroutine `me` if one is current. -/
def send (s : Sched V) (me : Option Nat) (ch : Nat) (v : V) (nested : Bool) : Sched V :=
  let chan := s.chan ch
  if chan.closed then s
  else match chan.receivers with
    | receiver :: rest =>
        let s' := (((s.setChan ch fun chan => { chan with receivers := rest }).unblock receiver).log
          (.entered ch v)).log (.woken receiver ch (some v))
        let s'' := s'.schedule receiver
        if rest = [] then s''.discardRecv ch else s''
    | [] =>
        if 0 < chan.maxsize ∧ chan.maxsize ≤ chan.queue.length then
          match me with
          | some c =>
              -- outside the task the loop is resuming, the full channel is an error
              if s.current = some c then
                let s' := s.setChan ch fun chan => { chan with senders := chan.senders ++ [(c, v)] }
                { s' with sendChannels := ch :: s'.sendChannels.filter (· ≠ ch) }.park c (.send ch) nested
              else s
          | none => s
        else (s.setChan ch fun chan => { chan with queue := chan.queue ++ [v] }).log (.entered ch v)

/-- `_wake_one_sender`; senders that are not suspended are passed over. -/
def wakeOneSender (s : Sched V) (ch : Nat) : Sched V :=
  let passed := (s.chan ch).senders.dropWhile fun p => (s.task p.1).state ≠ .suspended
  let s' := match passed with
    | (sender, v) :: rest =>
        (((s.setChan ch fun chan => { chan with queue := chan.queue ++ [v], senders := rest }).unblock sender).log
          (.entered ch v)).schedule sender
    | [] => s.setChan ch fun chan => { chan with senders := [] }
  if passed.tail = [] then s'.discardSend ch else s'

/-- `recv`. -/
def recv (s : Sched V) (me : Option Nat) (ch : Nat) (nested : Bool) : Sched V :=
  match (s.chan ch).queue with
  | v :: rest => ((s.setChan ch fun chan => { chan with queue := rest }).log (.taken ch v)).wakeOneSender ch
  | [] =>
      if (s.chan ch).closed then s
      else match me with
        | none => s
        | some c =>
            let s' := (s.setChan ch fun chan => { chan with receivers := chan.receivers ++ [c] }).log (.parked c ch)
            { s' with recvChannels := ch :: s'.recvChannels.filter (· ≠ ch) }.park c (.recv ch) nested

/-- `close`. -/
def close (s : Sched V) (ch : Nat) : Sched V :=
  let chan := s.chan ch
  if chan.closed then s
  else
    let closed := s.setChan ch fun chan => { chan with
      closed := true, queue := chan.queue ++ chan.senders.map Prod.snd, senders := [], receivers := [] }
    let flushed := chan.senders.foldl
      (fun s p =>
        let s' := s.log (.entered ch p.2)
        if (s'.task p.1).state = .suspended then (s'.unblock p.1).schedule p.1 else s') closed
    let woken := chan.receivers.foldl (fun s c => s.wake ch c none) flushed
    (woken.discardSend ch).discardRecv ch

/-- `wait`. Outside the task the loop is resuming, it runs the loop instead. -/
def wait (s : Sched V) (me : Option Nat) (target : Nat) (nested : Bool) : Sched V :=
  if (s.task target).known = false ∨ (s.task target).state = .finished then s
  else match me with
    | some c =>
        if s.current = some c ∧ c ≠ target then
          { s with waiters := s.waiters ++ [(target, c)] }.park c (.wait target) nested
        else s
    | none => s

/-- `unpark`. The list of the coroutines waiting for a task is left as it is. -/
def unpark (s : Sched V) (c : Nat) : Sched V :=
  let s' := { s with ready := s.ready.erase c, timers := s.timers.filter (·.2 ≠ c) }
  let s'' := match (s.task c).blocked with
    | some (.send ch) =>
        let s' := s'.setChan ch fun chan => { chan with senders := chan.senders.filter (·.1 ≠ c) }
        if (s'.chan ch).senders = [] then s'.discardSend ch else s'
    | some (.recv ch) | some (.io ch) =>
        let s' := (s'.setChan ch fun chan => { chan with receivers := chan.receivers.filter (· ≠ c) }).log
          (.unparked c ch)
        if (s'.chan ch).receivers = [] then s'.discardRecv ch else s'
    | _ => s'
  s''.unblock c

/-- A task is finished. -/
def settle (s : Sched V) (c : Nat) : Sched V :=
  s.setTask c fun t => { t with state := .finished, cancelling := false }

/-- `cancel`, up to the `finally` blocks of the task. -/
def cancel (s : Sched V) (c : Nat) : Sched V :=
  let task := s.task c
  if task.state = .finished ∨ task.cancelling ∨ task.known = false then s
  else
    let s' := s.unpark c
    if task.state = .created then ((s'.settle c).markCompleted c).releaseWaiters c
    else s'.setTask c fun t => { t with cancelling := true }

/-- The `finally` blocks of a task are done, which has been cancelled or whose time is up. -/
def unwound (s : Sched V) (c : Nat) (timedOut : Bool) : Sched V :=
  if timedOut then (s.settle c).markCompleted c else ((s.settle c).markCompleted c).releaseWaiters c

/-- A coroutine returns or fails in its turn. -/
def finish (s : Sched V) (c : Nat) (failed : Bool) : Sched V :=
  let s' := (s.leave c).settle c
  if failed then (s'.releaseWaiters c).markCompleted c else s'.markCompleted c

/-- The loop takes the next coroutine. One that is running already fails to be resumed. -/
def take (s : Sched V) : Sched V :=
  match s.ready with
  | [] => s
  | c :: rest =>
      let s' := { s with ready := rest }
      match (s.task c).state with
      | .finished => s'
      | .running => ({ s' with current := none }.releaseWaiters c).markCompleted c
      | _ => { s'.setTask c fun t => { t with state := .running } with current := some c, driven := c :: s'.driven }

/-- The loop takes the next coroutine, and resuming it fails before its code goes on. Either it may not be resumed, or it
is given the failure of a task it has waited for and does not catch it: then it counts as running from there on. -/
def refuse (s : Sched V) (entered : Bool) : Sched V :=
  match s.ready with
  | [] => s
  | c :: rest =>
      let s' := { s with ready := rest }
      if (s.task c).state = .finished then s'
      else
        let s'' := if entered then s'.setTask c fun t => { t with state := .running } else s'
        ({ s'' with current := none }.releaseWaiters c).markCompleted c

/-- The loop drops a coroutine whose time is up, or unwinds it first. -/
def takeTimedOut (s : Sched V) (unwinds : Bool) : Sched V :=
  match s.ready with
  | [] => s
  | c :: rest =>
      let s' := { s with ready := rest }
      if (s.task c).state = .finished then s'
      else if unwinds ∧ (s.task c).cancelling = false then s'.setTask c fun t => { t with cancelling := true }
      else s'.markCompleted c

/-- A new channel. -/
def newChannel (s : Sched V) (ch : Nat) (chan : Chan V) : Sched V :=
  { s.setChan ch fun _ => chan with channels := ch :: s.channels }

/-- An asynchronous call: a result channel with its worker, and the coroutine parked on it. Outside the task the loop
is resuming, the call is made at once. -/
def callAsync (s : Sched V) (me : Option Nat) (ch : Nat) (nested : Bool) : Sched V :=
  match me with
  | some c =>
      if s.current = some c then
        let s' := s.newChannel ch { receivers := [c], worker := some .running, result := true }
        ({ s' with ioChannels := s'.ioChannels ++ [ch] }.log (.parked c ch)).park c (.io ch) nested
      else s
  | none => s

/-- A channel that a worker has begun to feed, and may have closed already. -/
def openStream (s : Sched V) (ch : Nat) (values : List V) (ended : Bool) : Sched V :=
  let s' := s.newChannel ch
    { queue := values, closed := ended, worker := some (if ended then .ended else .running) }
  values.foldl (fun s v => s.log (.entered ch v)) { s' with ioChannels := s'.ioChannels ++ [ch] }

/-- The close method of a stream. -/
def closeStream (s : Sched V) (ch : Nat) : Sched V :=
  { s.setChan ch fun chan => { chan with closed := true } with ioChannels := s.ioChannels.erase ch }

/-- The thread behind `as_sse` takes a chunk. -/
def pump (s : Sched V) (ch : Nat) : Sched V :=
  match (s.chan ch).queue with
  | v :: rest => (s.setChan ch fun chan => { chan with queue := rest }).log (.taken ch v)
  | [] => s

end Sched

/-- The operations of coroutines, of code outside of them, of the loop and of the worker threads. -/
inductive Op (V : Type) where
  | newChannel (ch maxsize : Nat)
  | spawn (c : Nat)
  | spawnAfter (c wake : Nat)
  | send (me : Option Nat) (ch : Nat) (v : V) (nested : Bool)
  | recv (me : Option Nat) (ch : Nat) (nested : Bool)
  | close (ch : Nat)
  | wait (me : Option Nat) (target : Nat) (nested : Bool)
  | cancel (c : Nat)
  | unwound (c : Nat) (timedOut : Bool)
  | callAsync (me : Option Nat) (ch : Nat) (nested : Bool)
  | openStream (ch : Nat) (values : List V) (ended : Bool)
  | closeStream (ch : Nat)
  /-- `resume` from the program: the coroutine runs, and is suspended or finished afterwards. -/
  | resume (c : Nat) (state : TaskState)
  | drainTimers (now : Nat)
  | drainIo (late : Nat → List (WorkerStep V))
  | take
  /-- The loop takes a coroutine that fails to be resumed. -/
  | refuse (entered : Bool)
  /-- The loop takes a coroutine whose time is up, and runs its `finally` blocks if there are any. -/
  | takeTimedOut (unwinds : Bool)
  /-- The coroutine yields, or its step budget runs out. -/
  | yieldTurn (c : Nat)
  | sleep (c wake : Nat)
  /-- The coroutine yields a value that looks like a channel wait. -/
  | drop (c : Nat)
  | finish (c : Nat) (failed : Bool)
  | worker (ch : Nat) (step : WorkerStep V)
  | pump (ch : Nat)

namespace Sched

def suspend (s : Sched V) (c : Nat) : Sched V := (s.setTask c fun t => { t with state := .suspended }).leave c

/-- What an operation does. Those that cannot happen in the state do nothing: the program has no reference to the
channel of an asynchronous call, only a coroutine that is being resumed ends its turn, only a worker that is running
delivers, and only the channel of a stream is read by a thread. -/
def perform (s : Sched V) : Op V → Sched V
  | .newChannel ch maxsize => if ch ∈ s.channels then s else s.newChannel ch { maxsize := maxsize }
  | .spawn c => s.spawn c
  | .spawnAfter c wake => s.spawnAfter c wake
  | .send me ch v nested => if ch ∉ s.channels ∨ (s.chan ch).result then s else s.send me ch v nested
  | .recv me ch nested => if ch ∉ s.channels ∨ (s.chan ch).result then s else s.recv me ch nested
  | .close ch => if ch ∉ s.channels ∨ (s.chan ch).result then s else s.close ch
  | .wait me target nested => s.wait me target nested
  | .cancel c => s.cancel c
  | .unwound c timedOut => if (s.task c).cancelling then s.unwound c timedOut else s
  | .callAsync me ch nested => if ch ∈ s.channels then s else s.callAsync me ch nested
  | .openStream ch values ended => if ch ∈ s.channels then s else s.openStream ch values ended
  | .closeStream ch => if (s.chan ch).worker = none ∨ (s.chan ch).result then s else s.closeStream ch
  | .resume c state => if c ∈ s.driven ∨ (s.task c).state = .finished then s else s.setTask c fun t => { t with state := state }
  | .drainTimers now => s.drainTimers now
  | .drainIo late => s.drainIo late
  | .take => s.take
  | .refuse entered => s.refuse entered
  | .takeTimedOut unwinds => s.takeTimedOut unwinds
  | .yieldTurn c =>
      if c ∈ s.driven then
        let s' := s.suspend c
        { s' with ready := s'.ready ++ [c] }
      else s
  | .sleep c wake =>
      if c ∈ s.driven then
        let s' := s.suspend c
        { s' with timers := insertTimer wake c s'.timers }
      else s
  | .drop c => if c ∈ s.driven then s.suspend c else s
  | .finish c failed => if c ∈ s.driven then s.finish c failed else s
  | .worker ch step => s.workerStep ch step
  | .pump ch => if (s.chan ch).worker = none ∨ (s.chan ch).result then s else s.pump ch

def run (s : Sched V) (ops : List (Op V)) : Sched V := ops.foldl perform s

/-- The loop's own view of whether there is anything to wait for. -/
def continues (s : Sched V) : Prop :=
  s.ready ≠ [] ∨ s.timers ≠ [] ∨ s.ioChannels ≠ [] ∨ s.recvChannels ≠ [] ∨ s.sendChannels ≠ [] ∨ s.waiters ≠ []

instance (s : Sched V) : Decidable s.continues :=
  inferInstanceAs (Decidable (s.ready ≠ [] ∨ s.timers ≠ [] ∨ s.ioChannels ≠ [] ∨ s.recvChannels ≠ [] ∨
    s.sendChannels ≠ [] ∨ s.waiters ≠ []))

/-- The names in a deadlock report: those of the suspended tasks with a reason. -/
def blockedNames (s : Sched V) (reason : Blocked → Bool) : List String :=
  (s.tasks.filter fun c => decide ((s.task c).state = .suspended) && (s.task c).blocked.any reason).map
    fun c => (s.task c).name

def isRecv : Blocked → Bool
  | .recv _ => true
  | _ => false

def isSend : Blocked → Bool
  | .send _ => true
  | _ => false

structure DeadlockReport where
  recvNames : List String
  sendNames : List String
  deriving DecidableEq, Repr

def DeadlockReport.detail (names : List String) : String :=
  if names = [] then "" else ": " ++ ", ".intercalate names

/-- The text of the error. -/
def DeadlockReport.message (report : DeadlockReport) : String :=
  let parts :=
    (if report.recvNames ≠ [] ∨ report.sendNames = [] then
      [toString report.recvNames.length ++ " coroutine(s) blocked on recv() with no possible sender" ++
        detail report.recvNames] else []) ++
    (if report.sendNames ≠ [] then
      [toString report.sendNames.length ++ " coroutine(s) blocked on send() with no possible receiver" ++
        detail report.sendNames] else [])
  "Deadlock: " ++ "; ".intercalate parts

inductive Head where
  | returns
  | deadlock (report : DeadlockReport)
  /-- Waits for a timer or a worker, and looks again. -/
  | polls
  | turns
  deriving DecidableEq, Repr

/-- What happens at a pass of the loop: the time it reads, what the workers do while it drains their channels, and what
happens until the next pass. -/
structure Pass (V : Type) where
  now : Nat := 0
  late : Nat → List (WorkerStep V) := fun _ => []
  ops : List (Op V) := []

/-- The head of `run_loop`: what it does next, and in which state. -/
def head (s : Sched V) (now : Nat) (late : Nat → List (WorkerStep V)) : Head × Sched V :=
  if ¬ s.continues then (.returns, s)
  else
    let s' := (s.drainTimers now).drainIo late
    if s'.ready ≠ [] then (.turns, s')
    else if s'.timers = [] ∧ s'.ioChannels = [] ∧ s'.recvChannels = [] ∧ s'.sendChannels = [] then (.returns, s')
    else if s'.timers ≠ [] ∨ s'.ioChannels ≠ [] then (.polls, s')
    else (.deadlock ⟨s'.blockedNames isRecv, s'.blockedNames isSend⟩, s')

/-- The passes of one `run_loop`, up to the one that ends it: what the loop decides, and the state it decides in. -/
def runLoop (s : Sched V) : List (Pass V) → List (Head × Sched V)
  | [] => []
  | pass :: rest =>
      let head := s.head pass.now pass.late
      match head.1 with
      | .polls | .turns => head :: (head.2.run pass.ops).runLoop rest
      | .returns | .deadlock _ => [head]

end Sched

end Nodus.Scheduling

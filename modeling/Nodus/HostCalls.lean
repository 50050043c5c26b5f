import Mathlib.Logic.Function.Iterate

/-! Functions that call each other and share a store, on a host that allows only so many calls to be pending at a time. -/

namespace HostCalls

/-- A computation: it returns, raises, reads or writes the store, or calls a function and goes on with what comes of it. -/
inductive Body (A : Type) (B : A → Type) (E S X : Type) where
  | pure (x : X)
  | raise (e : E)
  | get (next : S → Body A B E S X)
  | set (s : S) (next : Body A B E S X)
  | call (a : A) (next : Except E (B a) → Body A B E S X)

variable {A : Type} {B : A → Type} {E S X Y : Type}

namespace Body

def bind : Body A B E S X → (X → Body A B E S Y) → Body A B E S Y
  | .pure x, f => f x
  | .raise e, _ => .raise e
  | .get next, f => .get fun s => (next s).bind f
  | .set s next, f => .set s (next.bind f)
  | .call a next, f => .call a fun r => (next r).bind f

instance : Monad (Body A B E S) where
  pure := .pure
  bind := .bind

/-- What has come of a computation. -/
def ofResult : Except E X → Body A B E S X
  | .ok x => .pure x
  | .error e => .raise e

/-- A call whose exception goes on to the caller. -/
def invoke (a : A) : Body A B E S (B a) := .call a ofResult

/-- `try … except …`. -/
def handle (handler : E → Body A B E S X) : Body A B E S X → Body A B E S X
  | .pure x => .pure x
  | .raise e => handler e
  | .get next => .get fun s => (next s).handle handler
  | .set s next => .set s (next.handle handler)
  | .call a next => .call a fun r => (next r).handle handler

/-- A loop that carries a value along. -/
def foldl {J : Type} (f : X → J → Body A B E S X) : X → List J → Body A B E S X
  | x, [] => .pure x
  | x, j :: rest => (f x j).bind fun x => foldl f x rest

/-- A loop that collects what it computes. -/
def collect {J : Type} (f : J → Body A B E S X) : List J → Body A B E S (List X)
  | [] => .pure []
  | j :: rest => (f j).bind fun x => (collect f rest).bind fun xs => .pure (x :: xs)

/-- `all(…)` over a loop that carries a value along. -/
def allOf {J : Type} (f : Y → J → Body A B E S (Bool × Y)) : Y → List J → Body A B E S (Bool × Y)
  | y, [] => .pure (true, y)
  | y, j :: rest => (f y j).bind fun r => if r.1 then allOf f r.2 rest else .pure (false, r.2)

end Body

/-! ### The machine -/

/-- The host: which stacks of pending calls it allows. -/
structure Host (A : Type) where
  allows : List A → Bool
  limit : Nat
  bounded : ∀ calls, allows calls → calls.length ≤ limit

/-- What runs: a function, or what has called the first one. -/
abbrev Returns (B : A → Type) (X : Type) : Option A → Type
  | none => X
  | some a => B a

/-- The callers that wait. -/
inductive Stack (A : Type) (B : A → Type) (E S X : Type) : Option A → Type where
  | empty : Stack A B E S X none
  | push {c : Option A} (a : A) (next : Except E (B a) → Body A B E S (Returns B X c)) (rest : Stack A B E S X c) : Stack A B E S X (some a)

def Stack.calls : {c : Option A} → Stack A B E S X c → List A
  | _, .empty => []
  | _, .push a _ rest => a :: rest.calls

structure Config (A : Type) (B : A → Type) (E S X : Type) where
  running : Option A
  body : Body A B E S (Returns B X running)
  stack : Stack A B E S X running
  store : S

section Machine

variable (host : Host A) (overflow : E) (program : (a : A) → Body A B E S (B a))

/-- What has come of a function goes to its caller. -/
def resume (store : S) : {c : Option A} → Except E (Returns B X c) → Stack A B E S X c → Config A B E S X
  | _, r, .empty => ⟨none, .ofResult r, .empty, store⟩
  | _, r, .push _ next rest => ⟨_, next r, rest, store⟩

/-- One step. A call that the host does not allow raises in its caller. -/
def step : Config A B E S X → Config A B E S X
  | ⟨_, .pure x, stack, store⟩ => resume store (.ok x) stack
  | ⟨_, .raise e, stack, store⟩ => resume store (.error e) stack
  | ⟨c, .get next, stack, store⟩ => ⟨c, next store, stack, store⟩
  | ⟨c, .set s next, stack, _⟩ => ⟨c, next, stack, s⟩
  | ⟨c, .call a next, stack, store⟩ =>
      if host.allows (a :: stack.calls) then ⟨some a, program a, .push a next stack, store⟩
      else ⟨c, next (.error overflow), stack, store⟩

/-- After finitely many steps the computation is over, with a result of which `Q` holds. -/
def Ends (main : Body A B E S X) (store : S) (Q : Except E X → Prop) : Prop :=
  ∃ n r store', (step host overflow program)^[n] ⟨none, main, .empty, store⟩ = ⟨none, .ofResult r, .empty, store'⟩ ∧ Q r

end Machine

/-! ### What holds of every result -/

/-- `Q` holds of every result of a computation, when `Post` holds of every result of a call, or the call is not allowed. -/
def Sat (Post : (a : A) → Except E (B a) → Prop) (overflow : E) (Q : Except E X → Prop) : Body A B E S X → Prop
  | .pure x => Q (.ok x)
  | .raise e => Q (.error e)
  | .get next => ∀ s, Sat Post overflow Q (next s)
  | .set _ next => Sat Post overflow Q next
  | .call a next => ∀ r, (Post a r ∨ r = .error overflow) → Sat Post overflow Q (next r)

section Rules

variable {host : Host A} {overflow : E} {program : (a : A) → Body A B E S (B a)} {Post : (a : A) → Except E (B a) → Prop}

theorem Sat.ofResult {Q : Except E X → Prop} {r : Except E X} (h : Q r) : Sat Post overflow Q (.ofResult r : Body A B E S X) := by
  cases r with
  | ok x => exact h
  | error e => exact h

theorem Sat.bind {Q : Except E X → Prop} {R : Except E Y → Prop} {b : Body A B E S X} {f : X → Body A B E S Y} (hb : Sat Post overflow Q b)
    (hok : ∀ x, Q (.ok x) → Sat Post overflow R (f x)) (herror : ∀ e, Q (.error e) → R (.error e)) :
    Sat Post overflow R (b.bind f) := by
  induction b with
  | pure x => exact hok x hb
  | raise e => exact herror e hb
  | get next ih => exact fun s => ih s (hb s)
  | set s next ih => exact ih hb
  | call a next ih => exact fun r hr => ih r (hb r hr)

theorem Sat.handle {Q R : Except E X → Prop} {b : Body A B E S X} {handler : E → Body A B E S X} (hb : Sat Post overflow Q b)
    (hok : ∀ x, Q (.ok x) → R (.ok x)) (herror : ∀ e, Q (.error e) → Sat Post overflow R (handler e)) :
    Sat Post overflow R (b.handle handler) := by
  induction b with
  | pure x => exact hok x hb
  | raise e => exact herror e hb
  | get next ih => exact fun s => ih s (hb s)
  | set s next ih => exact ih hb
  | call a next ih => exact fun r hr => ih r (hb r hr)

theorem Sat.invoke {a : A} {Q : Except E (B a) → Prop} (h : ∀ r, Post a r → Q r) (hoverflow : Q (.error overflow)) :
    Sat Post overflow Q (.invoke a : Body A B E S (B a)) := by
  rintro r (hr | rfl)
  · exact Sat.ofResult (h r hr)
  · exact hoverflow

variable {P : E → Prop}

/-- Only exceptions with a property are raised. -/
def Raises (P : E → Prop) (r : Except E X) : Prop := ∀ e, r = .error e → P e

theorem Sat.next {b : Body A B E S X} {f : X → Body A B E S Y} (hb : Sat Post overflow (Raises P) b)
    (hf : ∀ x, Sat Post overflow (Raises P) (f x)) : Sat Post overflow (Raises P) (b.bind f) :=
  hb.bind (fun x _ => hf x) fun _ he e' he' => he e' (congrArg Except.error (Except.error.inj he'))

theorem Sat.return (x : X) : Sat Post overflow (Raises P) (.pure x : Body A B E S X) := fun _ h => absurd h nofun

theorem Sat.raise {e : E} (h : P e) : Sat Post overflow (Raises P) (.raise e : Body A B E S X) := by
  rintro e' he
  obtain rfl := Except.error.inj he
  exact h

theorem Sat.foldl {J : Type} {f : X → J → Body A B E S X} (h : ∀ x j, Sat Post overflow (Raises P) (f x j)) (x : X) (js : List J) :
    Sat Post overflow (Raises P) (Body.foldl f x js) := by
  induction js generalizing x with
  | nil => exact Sat.return x
  | cons j rest ih => exact (h x j).next ih

theorem Sat.collect {J : Type} {f : J → Body A B E S X} (h : ∀ j, Sat Post overflow (Raises P) (f j)) (js : List J) :
    Sat Post overflow (Raises P) (Body.collect f js) := by
  induction js with
  | nil => exact Sat.return []
  | cons j rest ih => exact (h j).next fun x => ih.next fun xs => Sat.return (x :: xs)

theorem Sat.allOf {J : Type} {f : Y → J → Body A B E S (Bool × Y)} (h : ∀ y j, Sat Post overflow (Raises P) (f y j)) (y : Y) (js : List J) :
    Sat Post overflow (Raises P) (Body.allOf f y js) := by
  induction js generalizing y with
  | nil => exact Sat.return (true, y)
  | cons j rest ih =>
      refine (h y j).next fun r => ?_
      split
      · exact ih r.2
      · exact Sat.return (false, r.2)

/-! ### Every computation ends -/

theorem step_ofResult {c : Option A} (r : Except E (Returns B X c)) (stack : Stack A B E S X c) (store : S) :
    step host overflow program ⟨c, .ofResult r, stack, store⟩ = resume store r stack := by
  cases r with
  | ok x => rfl
  | error e => rfl

variable (host overflow program) in
/-- What runs on a stack ends on this stack, with a result of which `Q` holds. -/
def EndsOn {c : Option A} (body : Body A B E S (Returns B X c)) (stack : Stack A B E S X c) (store : S)
    (Q : Except E (Returns B X c) → Prop) : Prop :=
  ∃ n r store', (step host overflow program)^[n] ⟨c, body, stack, store⟩ = ⟨c, .ofResult r, stack, store'⟩ ∧ Q r

theorem EndsOn.of_step {c : Option A} {body body' : Body A B E S (Returns B X c)} {stack : Stack A B E S X c} {store store' : S}
    {Q : Except E (Returns B X c) → Prop} (hstep : step host overflow program ⟨c, body, stack, store⟩ = ⟨c, body', stack, store'⟩)
    (h : EndsOn host overflow program body' stack store' Q) : EndsOn host overflow program body stack store Q := by
  obtain ⟨n, r, store'', hrun, hr⟩ := h
  refine ⟨n + 1, r, store'', ?_, hr⟩
  rw [Function.iterate_succ_apply, hstep]
  exact hrun

theorem EndsOn.of_call {c : Option A} {a : A} {next : Except E (B a) → Body A B E S (Returns B X c)} {stack : Stack A B E S X c} {store : S}
    {Q : Except E (Returns B X c) → Prop} (hallowed : host.allows (a :: stack.calls))
    (hcall : EndsOn (X := X) (c := some a) host overflow program (program a) (.push a next stack) store (Post a))
    (hnext : ∀ r store', Post a r → EndsOn host overflow program (next r) stack store' Q) :
    EndsOn host overflow program (.call a next) stack store Q := by
  obtain ⟨n, r, store', hrun, hr⟩ := hcall
  obtain ⟨n', r', store'', hrun', hr'⟩ := hnext r store' hr
  refine ⟨n' + 1 + n + 1, r', store'', ?_, hr'⟩
  have hpush : step host overflow program ⟨c, .call a next, stack, store⟩ = ⟨some a, program a, .push a next stack, store⟩ := if_pos hallowed
  rw [Function.iterate_succ_apply, hpush, Function.iterate_add_apply, hrun, Function.iterate_succ_apply, step_ofResult]
  exact hrun'

theorem endsOn_of_calls {c : Option A} {stack : Stack A B E S X c}
    (hcalls : ∀ a next store, host.allows (a :: stack.calls) → EndsOn (X := X) (c := some a) host overflow program (program a) (.push a next stack) store (Post a))
    {Q : Except E (Returns B X c) → Prop} {body : Body A B E S (Returns B X c)} (hbody : Sat Post overflow Q body) (store : S) :
    EndsOn host overflow program body stack store Q := by
  induction body generalizing store with
  | pure x => exact ⟨0, .ok x, store, rfl, hbody⟩
  | raise e => exact ⟨0, .error e, store, rfl, hbody⟩
  | get next ih => exact .of_step rfl (ih store (hbody store) store)
  | set s next ih => exact .of_step rfl (ih hbody s)
  | call a next ih =>
      by_cases hallowed : host.allows (a :: stack.calls)
      · exact .of_call hallowed (hcalls a next store hallowed) fun r store' hr => ih r (hbody r (.inl hr)) store'
      · have hrefused : step host overflow program ⟨c, .call a next, stack, store⟩ = ⟨c, next (.error overflow), stack, store⟩ := if_neg hallowed
        exact .of_step hrefused (ih _ (hbody _ (.inr rfl)) store)

theorem endsOn_of_sat (hprogram : ∀ a, Sat Post overflow (Post a) (program a)) (k : Nat) {c : Option A} {stack : Stack A B E S X c}
    (hk : host.limit ≤ stack.calls.length + k) {Q : Except E (Returns B X c) → Prop} {body : Body A B E S (Returns B X c)}
    (hbody : Sat Post overflow Q body) (store : S) : EndsOn host overflow program body stack store Q := by
  induction k generalizing c store with
  | zero =>
      refine endsOn_of_calls (fun a next store hallowed => ?_) hbody store
      have hbounded := host.bounded _ hallowed
      rw [List.length_cons] at hbounded
      omega
  | succ k ih =>
      refine endsOn_of_calls (fun a next store _ => ih ?_ (hprogram a) store) hbody store
      rw [Stack.calls, List.length_cons]
      omega

theorem ends (host : Host A) (hprogram : ∀ a, Sat Post overflow (Post a) (program a)) {main : Body A B E S X} {Q : Except E X → Prop}
    (hmain : Sat Post overflow Q main) (store : S) : Ends host overflow program main store Q :=
  endsOn_of_sat hprogram host.limit (Nat.le_add_left _ _) hmain store

end Rules

end HostCalls

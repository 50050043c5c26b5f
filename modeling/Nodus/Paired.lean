/-! Computations with state and errors: what one of them ends in, when it follows a computation without
state, and when two of them end the same way. -/

namespace Paired

variable {ε σ τ α β γ δ : Type}

/-- The state a computation ends in, whether it returns or fails. -/
def last (c : EStateM ε σ α) (s : σ) : σ :=
  match c s with
  | .ok _ s' => s'
  | .error _ s' => s'

/-- Both return, in values and states related by `Q`, or both fail with one error, in states related
by `E`. -/
def AgreeAt (Q : α → β → σ → τ → Prop) (E : σ → τ → Prop) (c : EStateM ε σ α) (d : EStateM ε τ β)
    (s : σ) (t : τ) : Prop :=
  match c s, d t with
  | .ok a s', .ok b t' => Q a b s' t'
  | .error e s', .error e' t' => e = e' ∧ E s' t'
  | _, _ => False

/-- Ends in a value and state with `Q`, or in an error and state with `E`. -/
def Sat (Q : α → σ → Prop) (E : ε → σ → Prop) (c : EStateM ε σ α) (s : σ) : Prop :=
  match c s with
  | .ok a s' => Q a s'
  | .error e s' => E e s'

/-- Ends as the result `r` says: in a value related to its value by `Q`, or in its error. -/
def FollowsAt (Q : α → β → σ → Prop) (E : σ → Prop) (c : EStateM ε σ α) (r : Except ε β) (s : σ) : Prop :=
  match c s, r with
  | .ok a s', .ok b => Q a b s'
  | .error e s', .error e' => e = e' ∧ E s'
  | _, _ => False

section Rules

variable {Q : α → β → σ → τ → Prop} {P : γ → δ → σ → τ → Prop} {E : σ → τ → Prop}
  {c : EStateM ε σ γ} {d : EStateM ε τ δ} {f : γ → EStateM ε σ α} {g : δ → EStateM ε τ β} {s : σ} {t : τ}

theorem bind_apply (c : EStateM ε σ γ) (f : γ → EStateM ε σ α) (s : σ) :
    (c >>= f) s = match c s with
      | .ok a s' => f a s'
      | .error e s' => .error e s' := rfl

theorem bind_ok {a : γ} {s' : σ} (h : c s = .ok a s') : (c >>= f) s = f a s' := by
  rw [bind_apply, h]

theorem bind_error {e : ε} {s' : σ} (h : c s = .error e s') : (c >>= f) s = .error e s' := by
  rw [bind_apply, h]

theorem AgreeAt.bind (h : AgreeAt P E c d s t)
    (hf : ∀ a b s' t', c s = .ok a s' → d t = .ok b t' → P a b s' t' → AgreeAt Q E (f a) (g b) s' t') :
    AgreeAt Q E (c >>= f) (d >>= g) s t := by
  unfold AgreeAt at h ⊢
  cases hc : c s with
  | ok a s' =>
      cases hd : d t with
      | ok b t' =>
          rw [bind_ok hc, bind_ok hd]
          rw [hc, hd] at h
          exact hf a b s' t' hc hd h
      | error e t' => rw [hc, hd] at h; exact h.elim
  | error e s' =>
      cases hd : d t with
      | ok b t' => rw [hc, hd] at h; exact h.elim
      | error e' t' =>
          rw [bind_error hc, bind_error hd]
          rw [hc, hd] at h
          exact h

theorem AgreeAt.mono {Q' : α → β → σ → τ → Prop} {E' : σ → τ → Prop} {c : EStateM ε σ α}
    {d : EStateM ε τ β} (h : AgreeAt Q E c d s t)
    (hq : ∀ a b s' t', c s = .ok a s' → d t = .ok b t' → Q a b s' t' → Q' a b s' t')
    (he : ∀ s' t', E s' t' → E' s' t') : AgreeAt Q' E' c d s t := by
  unfold AgreeAt at h ⊢
  cases hc : c s with
  | ok a s' =>
      cases hd : d t with
      | ok b t' => rw [hc, hd] at h; exact hq a b s' t' hc hd h
      | error e t' => rw [hc, hd] at h; exact h.elim
  | error e s' =>
      cases hd : d t with
      | ok b t' => rw [hc, hd] at h; exact h.elim
      | error e' t' => rw [hc, hd] at h; exact ⟨h.1, he _ _ h.2⟩

end Rules

section Single

variable {Q : α → σ → Prop} {P : γ → σ → Prop} {E : ε → σ → Prop} {c : EStateM ε σ γ}
  {f : γ → EStateM ε σ α} {s : σ}

theorem Sat.bind (h : Sat P E c s) (hf : ∀ a s', c s = .ok a s' → P a s' → Sat Q E (f a) s') :
    Sat Q E (c >>= f) s := by
  unfold Sat at h ⊢
  cases hc : c s with
  | ok a s' =>
      rw [bind_ok hc]
      rw [hc] at h
      exact hf a s' hc h
  | error e s' =>
      rw [bind_error hc]
      rw [hc] at h
      exact h

theorem Sat.mono {Q' : α → σ → Prop} {E' : ε → σ → Prop} {c : EStateM ε σ α} (h : Sat Q E c s)
    (hq : ∀ a s', Q a s' → Q' a s') (he : ∀ e s', E e s' → E' e s') : Sat Q' E' c s := by
  unfold Sat at h ⊢
  cases hc : c s with
  | ok a s' => rw [hc] at h; exact hq a s' h
  | error e s' => rw [hc] at h; exact he e s' h

theorem Sat.last {I : σ → Prop} {c : EStateM ε σ α} (h : Sat (fun _ => I) (fun _ => I) c s) :
    I (last c s) := by
  unfold Sat at h
  unfold Paired.last
  cases hc : c s with
  | ok a s' => rw [hc] at h; exact h
  | error e s' => rw [hc] at h; exact h

theorem sat_ofExcept {r : Except ε α} (hok : ∀ a, r = .ok a → Q a s) (herr : ∀ e, r = .error e → E e s) :
    Sat Q E (MonadExcept.ofExcept r : EStateM ε σ α) s := by
  cases r with
  | ok a => exact hok a rfl
  | error e => exact herr e rfl

end Single

section Following

variable {Q : α → β → σ → Prop} {P : γ → δ → σ → Prop} {E : σ → Prop} {c : EStateM ε σ γ} {r : Except ε δ}
  {f : γ → EStateM ε σ α} {g : δ → Except ε β} {s : σ}

theorem FollowsAt.bind (h : FollowsAt P E c r s)
    (hf : ∀ a b s', r = .ok b → P a b s' → FollowsAt Q E (f a) (g b) s') :
    FollowsAt Q E (c >>= f) (r >>= g) s := by
  unfold FollowsAt at h ⊢
  cases hc : c s with
  | ok a s' =>
      cases r with
      | ok b =>
          rw [bind_ok hc]
          rw [hc] at h
          exact hf a b s' rfl h
      | error e => rw [hc] at h; exact h.elim
  | error e s' =>
      cases r with
      | ok b => rw [hc] at h; exact h.elim
      | error e' =>
          rw [bind_error hc]
          rw [hc] at h
          exact h

theorem follows_ofExcept {r : Except ε α} {Q : α → α → σ → Prop} (hok : ∀ a, r = .ok a → Q a a s) (he : E s) :
    FollowsAt Q E (MonadExcept.ofExcept r : EStateM ε σ α) r s := by
  cases r with
  | ok a => exact hok a rfl
  | error e => exact ⟨rfl, he⟩

theorem FollowsAt.map {u : γ → α} {v : δ → β} (h : FollowsAt P E c r s)
    (hq : ∀ a b s', P a b s' → Q (u a) (v b) s') :
    FollowsAt Q E (c >>= fun a => pure (u a)) (r.map v) s := by
  unfold FollowsAt at h ⊢
  cases hc : c s with
  | ok a s' =>
      rw [bind_ok hc]
      rw [hc] at h
      cases r with
      | ok b => exact hq a b s' h
      | error e => exact h.elim
  | error e s' =>
      rw [bind_error hc]
      rw [hc] at h
      cases r with
      | ok b => exact h.elim
      | error e' => exact h

theorem FollowsAt.agree {E' : τ → Prop} {R : α → β → τ → Prop} {Q : γ → β → σ → Prop} {d : EStateM ε τ α}
    {r : Except ε β} {t : τ} (h : FollowsAt Q E c r s) (h' : FollowsAt R E' d r t) :
    AgreeAt (fun a b s' t' => ∃ v, r = .ok v ∧ Q a v s' ∧ R b v t') (fun s' t' => E s' ∧ E' t') c d s t := by
  unfold FollowsAt at h h'
  unfold AgreeAt
  cases hc : c s with
  | ok a s' =>
      cases r with
      | error e => rw [hc] at h; exact h.elim
      | ok v =>
          cases hd : d t with
          | ok b t' =>
              rw [hc] at h
              rw [hd] at h'
              exact ⟨v, rfl, h, h'⟩
          | error e t' => rw [hd] at h'; exact h'.elim
  | error e s' =>
      cases r with
      | ok v => rw [hc] at h; exact h.elim
      | error e' =>
          cases hd : d t with
          | ok b t' => rw [hd] at h'; exact h'.elim
          | error e'' t' =>
              rw [hc] at h
              rw [hd] at h'
              exact ⟨h.1.trans h'.1.symm, h.2, h'.2⟩

end Following

section Respecting

/-- A computation leads every state to one it is related to, whether it returns or fails. -/
def Respects (r : σ → σ → Prop) (c : EStateM ε σ α) : Prop := ∀ s, r s (last c s)

variable {r : σ → σ → Prop} {c : EStateM ε σ γ} {f : γ → EStateM ε σ α}

theorem last_bind_ok {a : γ} {s s' : σ} (h : c s = .ok a s') : last (c >>= f) s = last (f a) s' := by
  unfold last
  rw [bind_ok h]

theorem last_of_ok {a : γ} {s s' : σ} (h : c s = .ok a s') : last c s = s' := by
  unfold last
  rw [h]

theorem Respects.bind_of_ok (htrans : ∀ {x y z}, r x y → r y z → r x z) (hc : Respects r c)
    (hf : ∀ a s s', c s = .ok a s' → r s' (last (f a) s')) : Respects r (c >>= f) := by
  intro s
  have h := hc s
  cases hr : c s with
  | ok a s' =>
      rw [last_bind_ok hr]
      rw [last_of_ok hr] at h
      exact htrans h (hf a s s' hr)
  | error e s' =>
      unfold last at h ⊢
      rw [bind_error hr]
      rw [hr] at h
      exact h

theorem Respects.bind (htrans : ∀ {x y z}, r x y → r y z → r x z) (hc : Respects r c)
    (hf : ∀ a, Respects r (f a)) : Respects r (c >>= f) :=
  Respects.bind_of_ok htrans hc fun a _ s' _ => hf a s'

theorem respects_ofExcept (hrefl : ∀ s, r s s) (x : Except ε α) :
    Respects r (MonadExcept.ofExcept x : EStateM ε σ α) := by
  cases x with
  | ok a => exact hrefl
  | error e => exact hrefl

end Respecting

end Paired

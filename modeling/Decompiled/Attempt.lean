/-!
# Attempts: steps that keep what they have done

An edit of a tree may fail half way, and whoever asked for it then finds the
tree as the edit left it. `Attempt σ ε α` is a step on a state `σ` that ends
with a value or with an error and hands the state over in either case.

* `Attempt.bind_apply`: a sequence stops at its first error and keeps the
  state reached there.
* `Attempt.focus_apply`: a step on a part of a state leaves the rest alone.
-/

namespace Decompiled

/-- A step on a state that may fail, and that keeps the state reached so far
when it does. -/
def Attempt (σ ε α : Type) : Type := σ → Except ε α × σ

namespace Attempt

variable {σ τ ε ε' α β : Type}

/-- End with a value and leave the state alone. -/
protected def pure (a : α) : Attempt σ ε α := fun s => (.ok a, s)

/-- Run `x`, and `f` on its value if it has one. -/
protected def bind (x : Attempt σ ε α) (f : α → Attempt σ ε β) : Attempt σ ε β :=
  fun s =>
    match x s with
    | (.ok a, s') => f a s'
    | (.error e, s') => (.error e, s')

instance : Monad (Attempt σ ε) where
  pure := Attempt.pure
  bind := Attempt.bind

/-- End with an error and leave the state alone. -/
def fail (e : ε) : Attempt σ ε α := fun s => (.error e, s)

/-- The outcome of a question about the state, which stays as it is. -/
def ask (question : σ → Except ε α) : Attempt σ ε α := fun s => (question s, s)

/-- The value of a function of the state. -/
def view (f : σ → α) : Attempt σ ε α := fun s => (.ok (f s), s)

/-- Change the state by a step that cannot fail. -/
def update (f : σ → σ) : Attempt σ ε Unit := fun s => (.ok (), f s)

/-- Run a step on a part of a larger state: `take` splits the state into the
part and a way to put a changed part back. -/
def focus (take : σ → τ × (τ → σ)) (wrap : ε → ε') (x : Attempt τ ε α) :
    Attempt σ ε' α :=
  fun s =>
    match take s with
    | (part, put) =>
      match x part with
      | (.ok a, part') => (.ok a, put part')
      | (.error e, part') => (.error (wrap e), put part')

/-! ## What each step does to a state -/

@[simp] theorem pure_apply (a : α) (s : σ) :
    (pure a : Attempt σ ε α) s = (.ok a, s) := rfl

@[simp] theorem fail_apply (e : ε) (s : σ) :
    (fail e : Attempt σ ε α) s = (.error e, s) := rfl

@[simp] theorem ask_apply (question : σ → Except ε α) (s : σ) :
    ask question s = (question s, s) := rfl

@[simp] theorem view_apply (f : σ → α) (s : σ) :
    (view f : Attempt σ ε α) s = (.ok (f s), s) := rfl

@[simp] theorem update_apply (f : σ → σ) (s : σ) :
    (update f : Attempt σ ε Unit) s = (.ok (), f s) := rfl

/-- A sequence stops at its first error and keeps the state reached there. -/
theorem bind_apply (x : Attempt σ ε α) (f : α → Attempt σ ε β) (s : σ) :
    (x >>= f) s =
      match x s with
      | (.ok a, s') => f a s'
      | (.error e, s') => (.error e, s') := rfl

theorem bind_of_ok {x : Attempt σ ε α} {f : α → Attempt σ ε β} {s s' : σ} {a : α}
    (h : x s = (.ok a, s')) : (x >>= f) s = f a s' := by
  rw [bind_apply, h]

theorem bind_of_error {x : Attempt σ ε α} {f : α → Attempt σ ε β} {s s' : σ} {e : ε}
    (h : x s = (.error e, s')) : (x >>= f) s = (.error e, s') := by
  rw [bind_apply, h]

/-- A step on a part of a state leaves the rest alone. -/
theorem focus_apply (take : σ → τ × (τ → σ)) (wrap : ε → ε') (x : Attempt τ ε α)
    (s : σ) :
    focus take wrap x s =
      ((x (take s).1).1.mapError wrap, (take s).2 (x (take s).1).2) := by
  unfold focus
  rcases take s with ⟨part, put⟩
  simp only
  rcases x part with ⟨_ | _, part'⟩ <;> rfl

instance : LawfulMonad (Attempt σ ε) :=
  LawfulMonad.mk' (Attempt σ ε)
    (fun x => by
      funext s
      show Attempt.bind x (fun a => Attempt.pure a) s = x s
      unfold Attempt.bind
      rcases x s with ⟨_ | _, s'⟩ <;> rfl)
    (fun _ _ => rfl)
    (fun x f g => by
      funext s
      simp only [bind_apply]
      rcases x s with ⟨_ | _, s'⟩ <;> rfl)

end Attempt

end Decompiled

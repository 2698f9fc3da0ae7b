import Decompiled.Attempt
import Mathlib.Order.Defs.Unbundled

/-!
# Relations that steps go along

A step goes along a relation when the state it leaves is always related to the
state it started in, whether it ended with a value or with an error. For a
relation that is reflexive and transitive this is settled for a composite step
by looking at its parts.

A step ignores a change of the state when it answers the same with and without
it and leaves the same state but for it. Sequences of such steps ignore it too.

* `Attempt.state_bind`: the state that a sequence leaves.
* `Attempt.Along.bind`: a sequence goes where its parts go.
* `Attempt.Ignores.bind`: a sequence ignores what its parts ignore.
-/

namespace Decompiled

namespace Attempt

variable {σ ε α β : Type} {R : σ → σ → Prop}

/-- Whatever state the step starts in, it leaves a related one. -/
def Along (R : σ → σ → Prop) (x : Attempt σ ε α) : Prop := ∀ s, R s (x s).2

/-- The state that a sequence leaves is the one its first part leaves, if that
fails, and otherwise the one its second part leaves. -/
theorem state_bind {P : σ → Prop} {x : Attempt σ ε α} {f : α → Attempt σ ε β} {s : σ}
    (herror : ∀ error, (x s).1 = .error error → P (x s).2)
    (hok : ∀ value, (x s).1 = .ok value → P (f value (x s).2).2) : P ((x >>= f) s).2 := by
  rw [bind_apply]
  rcases h : x s with ⟨error | value, t⟩
  · rw [h] at herror
    exact herror error rfl
  · rw [h] at hok
    exact hok value rfl

namespace Along

/-- From one state, a sequence goes where its first part goes and then its
second part from there. -/
theorem bind_at [IsTrans σ R] {x : Attempt σ ε α} {f : α → Attempt σ ε β} {s : σ}
    (hx : R s (x s).2) (hf : ∀ value t, x s = (.ok value, t) → R t (f value t).2) :
    R s ((x >>= f) s).2 := by
  refine state_bind (fun _ _ => hx) fun value hvalue => ?_
  exact trans_of R hx (hf value (x s).2 (Prod.ext hvalue rfl))

/-- A sequence goes where its parts go. -/
theorem bind [IsTrans σ R] {x : Attempt σ ε α} {f : α → Attempt σ ε β} (hx : x.Along R)
    (hf : ∀ value, (f value).Along R) : (x >>= f).Along R :=
  fun s => bind_at (hx s) fun value t _ => hf value t

section Still

variable [Std.Refl R]

/-- A step that leaves the state alone goes along any reflexive relation. -/
theorem of_still {x : Attempt σ ε α} (h : ∀ s, (x s).2 = s) : x.Along R := by
  intro s
  rw [h s]
  exact Std.Refl.refl s

theorem pure (value : α) : (Pure.pure value : Attempt σ ε α).Along R :=
  of_still fun _ => rfl

theorem ask (question : σ → Except ε α) : (Attempt.ask question).Along R :=
  of_still fun _ => rfl

theorem view (f : σ → α) : (Attempt.view f : Attempt σ ε α).Along R :=
  of_still fun _ => rfl

end Still

end Along

/-! ## Steps that ignore a change of the state -/

variable {change : σ → σ}

/-- From the changed state the step answers as it does from the state itself,
and leaves the changed form of what it leaves there. -/
def Ignores (change : σ → σ) (x : Attempt σ ε α) : Prop :=
  ∀ s, x (change s) = ((x s).1, change (x s).2)

namespace Ignores

theorem pure (value : α) : (Pure.pure value : Attempt σ ε α).Ignores change := fun _ => rfl

theorem fail (error : ε) : (Attempt.fail error : Attempt σ ε α).Ignores change :=
  fun _ => rfl

/-- A sequence ignores what its parts ignore. -/
theorem bind {x : Attempt σ ε α} {f : α → Attempt σ ε β} (hx : x.Ignores change)
    (hf : ∀ value, (f value).Ignores change) : (x >>= f).Ignores change := by
  intro s
  rw [bind_apply, bind_apply, hx s]
  rcases x s with ⟨error | value, t⟩
  · rfl
  · exact hf value t

end Ignores

end Attempt

end Decompiled

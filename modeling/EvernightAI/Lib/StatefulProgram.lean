import Mathlib.Data.Set.Basic

/-!
# Programs that change a state and may raise

`EStateM ε σ α` runs on a state and either returns a value or raises; a program that raises
keeps what it wrote before. `after` is the state it leaves in both cases, and `Does x s R Q` is
the judgement on one execution: the state moves along `R`, and a value that is returned satisfies
`Q` in the state after. A program that works on a part of the state is `zoom`ed.
-/

namespace StatefulProgram

variable {ε σ τ α β : Type}

/-- The state a program leaves, whether it returns or raises. -/
def after (x : EStateM ε σ α) (s : σ) : σ :=
  match x s with
  | .ok _ s' => s'
  | .error _ s' => s'

/-- What a program returns or raises. -/
def outcome (x : EStateM ε σ α) (s : σ) : Except ε α :=
  match x s with
  | .ok a _ => .ok a
  | .error e _ => .error e

/-- **Judgement on one execution.** The state after is in `R`, and so is, by `Q`, a value
returned. -/
structure Does (x : EStateM ε σ α) (s : σ) (R : σ → Prop) (Q : α → σ → Prop) : Prop where
  state : R (after x s)
  value : ∀ {a s'}, x s = .ok a s' → Q a s'

/-- Run a program on a part of a larger state. -/
def zoom (get : τ → σ) (set : σ → τ → τ) (x : EStateM ε σ α) : EStateM ε τ α := fun t =>
  match x (get t) with
  | .ok a s => .ok a (set s t)
  | .error e s => .error e (set s t)

/-- Replace what a program raises. -/
def orRaise (e : ε) (x : EStateM ε σ α) : EStateM ε σ α := fun s =>
  match x s with
  | .ok a s' => .ok a s'
  | .error _ s' => .error e s'

/-- `try: x; except: handler; raise`: a handler that raises replaces the error. -/
def onRaise (x : EStateM ε σ α) (handler : EStateM ε σ Unit) : EStateM ε σ α := fun s =>
  match x s with
  | .ok a s' => .ok a s'
  | .error e s' =>
    match handler s' with
    | .ok _ t => .error e t
    | .error e' t => .error e' t

/-- `try: x; finally: last` -/
def andFinally (x : EStateM ε σ α) (last : EStateM ε σ Unit) : EStateM ε σ α := fun s =>
  match x s with
  | .ok a s' =>
    match last s' with
    | .ok _ t => .ok a t
    | .error e t => .error e t
  | .error e s' =>
    match last s' with
    | .ok _ t => .error e t
    | .error e' t => .error e' t

theorem after_of_ok {x : EStateM ε σ α} {s s' : σ} {a : α} (h : x s = .ok a s') :
    after x s = s' := by simp only [after, h]

theorem after_of_error {x : EStateM ε σ α} {s s' : σ} {e : ε} (h : x s = .error e s') :
    after x s = s' := by simp only [after, h]

theorem get_apply (s : σ) : (get : EStateM ε σ σ) s = .ok s s := rfl

theorem modify_apply (f : σ → σ) (s : σ) : (modify f : EStateM ε σ PUnit) s = .ok ⟨⟩ (f s) := rfl

theorem throw_apply (e : ε) (s : σ) : (throw e : EStateM ε σ α) s = .error e s := rfl

theorem bind_of_ok {x : EStateM ε σ α} {f : α → EStateM ε σ β} {s s' : σ} {a : α}
    (h : x s = .ok a s') : (x >>= f) s = f a s' := by
  simp only [bind, EStateM.bind, h]

theorem bind_of_error {x : EStateM ε σ α} {f : α → EStateM ε σ β} {s s' : σ} {e : ε}
    (h : x s = .error e s') : (x >>= f) s = .error e s' := by
  simp only [bind, EStateM.bind, h]

/-- An execution that returns. -/
theorem Does.of_ok {x : EStateM ε σ α} {s s' : σ} {a : α} {R : σ → Prop} {Q : α → σ → Prop}
    (h : x s = .ok a s') (hR : R s') (hQ : Q a s') : Does x s R Q where
  state := by rwa [after_of_ok h]
  value := by
    intro b t hb
    cases h.symm.trans hb
    exact hQ

/-- An execution that raises. -/
theorem Does.of_error {x : EStateM ε σ α} {s s' : σ} {e : ε} {R : σ → Prop} {Q : α → σ → Prop}
    (h : x s = .error e s') (hR : R s') : Does x s R Q where
  state := by rwa [after_of_error h]
  value := by
    intro b t hb
    cases h.symm.trans hb

/-- **Consequence.** -/
theorem Does.mono {x : EStateM ε σ α} {s : σ} {R R' : σ → Prop} {Q Q' : α → σ → Prop}
    (h : Does x s R Q) (hR : ∀ s', R s' → R' s') (hQ : ∀ a s', R s' → Q a s' → Q' a s') :
    Does x s R' Q' where
  state := hR _ h.state
  value := by
    intro a s' ha
    have := h.state
    rw [after_of_ok ha] at this
    exact hQ a s' this (h.value ha)

/-- **After a step that returns.** -/
theorem Does.bind_of_ok {x : EStateM ε σ α} {f : α → EStateM ε σ β} {s m : σ} {a : α}
    {R : σ → Prop} {Q : β → σ → Prop} (hx : x s = .ok a m) (hf : Does (f a) m R Q) :
    Does (x >>= f) s R Q where
  state := by
    have h := hf.state
    rwa [show after (x >>= f) s = after (f a) m by
      simp only [after, StatefulProgram.bind_of_ok hx]]
  value h := hf.value (by rwa [StatefulProgram.bind_of_ok hx] at h)

/-- **A part of the state, then a pure step.** What `x` does to its part is what the whole program
does to the whole state. -/
theorem Does.zoom_map {get : τ → σ} {set : σ → τ → τ} {x : EStateM ε σ α} {g : α → β} {t : τ}
    {R : σ → Prop} {Q : α → σ → Prop} {R' : τ → Prop} {Q' : β → τ → Prop}
    (h : Does x (get t) R Q) (hR : ∀ s, R s → R' (set s t))
    (hQ : ∀ a s, R s → Q a s → Q' (g a) (set s t)) :
    Does (do let a ← zoom get set x; return g a) t R' Q' := by
  have hstate := h.state
  cases hx : x (get t) with
  | ok a s =>
    have hz : zoom get set x t = .ok a (set s t) := by simp only [zoom, hx]
    rw [after_of_ok hx] at hstate
    exact .bind_of_ok hz (.of_ok rfl (hR s hstate) (hQ a s hstate (h.value hx)))
  | error e s =>
    have hz : zoom get set x t = .error e (set s t) := by simp only [zoom, hx]
    rw [after_of_error hx] at hstate
    exact .of_error (StatefulProgram.bind_of_error hz) (hR s hstate)

/-- **Another error.** -/
theorem Does.orRaise {x : EStateM ε σ α} {s : σ} {R : σ → Prop} {Q : α → σ → Prop} {e : ε}
    (h : Does x s R Q) : Does (orRaise e x) s R Q := by
  have hstate := h.state
  rcases hx : x s with ⟨a, s'⟩ | ⟨e', s'⟩
  · rw [after_of_ok hx] at hstate
    exact .of_ok (by simp only [StatefulProgram.orRaise, hx]) hstate (h.value hx)
  · rw [after_of_error hx] at hstate
    exact .of_error (e := e) (by simp only [StatefulProgram.orRaise, hx]) hstate

/-- **Two executions that cannot be told apart**: both return the same value or both raise the same
error, in states related by `R`. -/
inductive Alike (R : σ → σ → Prop) : EStateM.Result ε σ α → EStateM.Result ε σ α → Prop
  | ok {a : α} {s t : σ} (h : R s t) : Alike R (.ok a s) (.ok a t)
  | error {e : ε} {s t : σ} (h : R s t) : Alike R (.error e s) (.error e t)

theorem Alike.after {x y : EStateM ε σ α} {s t : σ} {R : σ → σ → Prop} (h : Alike R (x s) (y t)) :
    R (after x s) (after y t) := by
  unfold StatefulProgram.after
  generalize x s = first, y t = second at h ⊢
  rcases h with h | h
  · exact h
  · exact h

theorem Alike.outcome {x y : EStateM ε σ α} {s t : σ} {R : σ → σ → Prop}
    (h : Alike R (x s) (y t)) : outcome x s = outcome y t := by
  unfold StatefulProgram.outcome
  generalize x s = first, y t = second at h ⊢
  rcases h with h | h
  · rfl
  · rfl

theorem Alike.orRaise {x y : EStateM ε σ α} {s t : σ} {R : σ → σ → Prop} {e : ε}
    (h : Alike R (x s) (y t)) : Alike R (orRaise e x s) (orRaise e y t) := by
  unfold StatefulProgram.orRaise
  generalize x s = first, y t = second at h ⊢
  rcases h with h | h
  · exact .ok h
  · exact .error h

/-- **A part of the state, then a pure step**, for two executions. -/
theorem Alike.zoom_map {get : τ → σ} {set : σ → τ → τ} {x : EStateM ε σ α} {g : α → β} {t u : τ}
    {R : σ → σ → Prop} {R' : τ → τ → Prop} (h : Alike R (x (get t)) (x (get u)))
    (hR : ∀ s s', R s s' → R' (set s t) (set s' u)) :
    Alike R' ((do let a ← zoom get set x; return g a : EStateM ε τ β) t)
      ((do let a ← zoom get set x; return g a : EStateM ε τ β) u) := by
  simp only [bind, EStateM.bind, zoom]
  generalize x (get t) = outcome, x (get u) = outcome' at h ⊢
  cases h with
  | ok h => exact .ok (hR _ _ h)
  | error h => exact .error (hR _ _ h)

end StatefulProgram

import Mathlib.Logic.Relation

/-!
# Fencing tokens

A resource that one party at a time may write to, guarded by a counter. Whoever takes the resource
gets a *token*: its own name with the next generation of the counter. Freeing the resource does
not turn the counter back, so a token that is no longer accepted is never accepted again
(`Dead.of_steps`), whatever the parties do: that is what protects the resource from a party that
wakes up after it was given up.
-/

/-- Who holds a resource, and under which generation. -/
structure FencingToken.Cell (ι : Type*) where
  holder : Option ι
  generation : Nat
  deriving DecidableEq

namespace FencingToken

variable {ι : Type*} {c c' : Cell ι} {i : ι} {g : Nat}

/-- What can happen to a guarded resource. -/
inductive Step : Cell ι → Cell ι → Prop
  | keep (c : Cell ι) : Step c c
  | take (c : Cell ι) (i : ι) : Step c ⟨some i, c.generation + 1⟩
  | free (c : Cell ι) : Step c ⟨none, c.generation⟩

/-- The token is the current one. -/
def Accepts (c : Cell ι) (i : ι) (g : Nat) : Prop := c.holder = some i ∧ c.generation = g

/-- The token was given out, and is not the current one. -/
def Dead (c : Cell ι) (i : ι) (g : Nat) : Prop := g ≤ c.generation ∧ ¬Accepts c i g

theorem Step.generation_le (h : Step c c') : c.generation ≤ c'.generation := by
  cases h with
  | keep => exact Nat.le_refl _
  | take => exact Nat.le_succ _
  | free => exact Nat.le_refl _

theorem Dead.of_step (hd : Dead c i g) (h : Step c c') : Dead c' i g := by
  obtain ⟨hle, hnot⟩ := hd
  cases h with
  | keep => exact ⟨hle, hnot⟩
  | take j =>
    have hlt : g < c.generation + 1 := Nat.lt_succ_of_le hle
    exact ⟨Nat.le_of_lt hlt, fun ⟨_, hg⟩ => Nat.ne_of_gt hlt hg⟩
  | free =>
    exact ⟨hle, fun ⟨hholder, _⟩ => by cases hholder⟩

/-- **A dead token stays dead.** -/
theorem Dead.of_steps (hd : Dead c i g) (h : Relation.ReflTransGen Step c c') : Dead c' i g := by
  induction h with
  | refl => exact hd
  | tail _ h ih => exact ih.of_step h

/-- Freeing a resource kills the token of its holder. -/
theorem Accepts.dead_of_free (h : Accepts c i g) : Dead (⟨none, c.generation⟩ : Cell ι) i g := by
  obtain ⟨-, rfl⟩ := h
  exact ⟨Nat.le_refl _, fun ⟨hholder, _⟩ => by cases hholder⟩

end FencingToken

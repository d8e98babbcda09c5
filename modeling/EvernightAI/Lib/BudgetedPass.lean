import Mathlib.Algebra.BigOperators.Group.List.Basic
import Mathlib.Algebra.GroupWithZero.Nat

/-!
# A pass under a budget

A loop goes through a list, tests each item, adds what it weighs to a total that must stay under a
limit, and puts something in its place. Tests of the total after every item come to one test of the
whole sum, and the same holds of a pass over lists of lists.
-/

namespace BudgetedPass

variable {ε α β : Type*}

/-- The loop, with its total. -/
def pass (f : Nat → α → Except ε (Nat × β)) : Nat → List α → Except ε (Nat × List β)
  | total, [] => .ok (total, [])
  | total, item :: items =>
    (f total item).bind fun found =>
      (pass f found.1 items).map fun rest => (rest.1, found.2 :: rest.2)

/-- **One item of a budgeted pass**: its test, its weight within the limit, and its image. -/
def Metered (limit : Nat) (P : α → Prop) (weight : α → Nat) (g : α → β)
    (f : Nat → α → Except ε (Nat × β)) : Prop :=
  ∀ total item total' image, total ≤ limit →
    (f total item = .ok (total', image) ↔
      P item ∧ total + weight item ≤ limit ∧ total' = total + weight item ∧ image = g item)

variable {limit : Nat} {P : α → Prop} {weight : α → Nat} {g : α → β}
  {f : Nat → α → Except ε (Nat × β)}

/-- **A pass tests the items and the sum of their weights.** -/
theorem metered_pass (hf : Metered limit P weight g f) :
    Metered limit (fun items => ∀ item ∈ items, P item) (fun items => (items.map weight).sum)
      (List.map g) (pass f) := by
  intro total items total' images htotal
  induction items generalizing total total' images with
  | nil =>
    simp only [pass, List.map_nil, List.sum_nil, Nat.add_zero]
    constructor
    · intro h
      obtain ⟨rfl, rfl⟩ := Prod.mk.inj (Except.ok.inj h)
      exact ⟨fun item hitem => absurd hitem List.not_mem_nil, htotal, rfl, rfl⟩
    · rintro ⟨-, -, rfl, rfl⟩
      rfl
  | cons item items ih =>
    simp only [pass, List.map_cons, List.sum_cons, List.forall_mem_cons]
    constructor
    · intro h
      cases hitem : f total item with
      | error err => simp [hitem, Except.bind] at h
      | ok found =>
        obtain ⟨hP, hlimit, hmid, himage⟩ := (hf total item found.1 found.2 htotal).mp hitem
        simp only [hitem, Except.bind, hmid, himage] at h
        cases hitems : pass f (total + weight item) items with
        | error err => simp [hitems, Except.map] at h
        | ok rest =>
          obtain ⟨hall, hsum, hlast, htail⟩ := (ih _ rest.1 rest.2 hlimit).mp hitems
          simp only [hitems, Except.map, hlast, htail, Except.ok.injEq, Prod.mk.injEq] at h
          obtain ⟨rfl, rfl⟩ := h
          rw [← Nat.add_assoc]
          exact ⟨⟨hP, hall⟩, hsum, rfl, rfl⟩
    · rintro ⟨⟨hP, hall⟩, hsum, rfl, rfl⟩
      rw [← Nat.add_assoc] at hsum
      have hitem := (hf total item _ _ htotal).mpr ⟨hP, by omega, rfl, rfl⟩
      have hitems := (ih (total + weight item) _ _ (by omega)).mpr ⟨hall, hsum, rfl, rfl⟩
      simp only [hitem, Except.bind, hitems, Except.map, Nat.add_assoc]

end BudgetedPass

import Mathlib.Logic.Function.Basic
import Mathlib.Tactic.SplitIfs

/-!
# Tables whose entries have owners

Several parties put entries into one table, under keys they do not share. An entry belongs to the
owner that put it there, or to nobody. `share` is what an owner has in the table, and `replaceShare`
puts a new share in the place of the old one.

* `share_replaceShare` : the owner has exactly the new share.
* `OnlyTouches` : a change keeps every entry of another owner, and adds none. It is transitive, and
  a share that `Fits` is replaced under it.
-/

/-- A value and the owner of it. -/
structure OwnedEntry (ω α : Type*) where
  value : α
  owner : Option ω

/-- What stands under each key. -/
abbrev OwnedTable (κ ω α : Type*) := κ → Option (OwnedEntry ω α)

namespace OwnedTable

variable {κ ω α : Type*} [DecidableEq ω]

/-- The entries of an owner. -/
def share (t : OwnedTable κ ω α) (o : ω) : κ → Option α := fun k =>
  (t k).bind fun e => if e.owner = some o then some e.value else none

/-- The table with the share of an owner replaced. -/
def replaceShare (t : OwnedTable κ ω α) (o : ω) (new : κ → Option α) : OwnedTable κ ω α := fun k =>
  match new k with
  | some value => some ⟨value, some o⟩
  | none => (t k).filter fun e => e.owner ≠ some o

/-- A share takes no key of another owner, and none that is nobody's. -/
def Fits (t : OwnedTable κ ω α) (o : ω) (new : κ → Option α) : Prop :=
  ∀ k e, new k ≠ none → t k = some e → e.owner = some o

/-- **A change of one owner.** Entries that are not its own are the same before and after. -/
def OnlyTouches (o : Option ω) (t t' : OwnedTable κ ω α) : Prop :=
  ∀ k e, e.owner ≠ o → (t k = some e ↔ t' k = some e)

variable {t t' t'' : OwnedTable κ ω α} {o o' : ω} {new : κ → Option α}

theorem share_eq_some_iff {k : κ} {value : α} :
    t.share o k = some value ↔ t k = some ⟨value, some o⟩ := by
  rw [share, Option.bind_eq_some_iff]
  constructor
  · rintro ⟨⟨found, owner⟩, hk, hfound⟩
    split_ifs at hfound with howner
    obtain rfl := Option.some.inj hfound
    obtain rfl : owner = some o := howner
    exact hk
  · intro hk
    exact ⟨_, hk, if_pos rfl⟩

theorem share_replaceShare : (t.replaceShare o new).share o = new := by
  funext k
  rw [share, replaceShare]
  cases hnew : new k with
  | some value => exact if_pos rfl
  | none =>
    refine Option.bind_eq_none_iff.mpr fun e he => if_neg ?_
    have howner := (Option.filter_eq_some_iff.mp he).2
    simpa using howner

omit [DecidableEq ω] in
theorem OnlyTouches.refl (o : Option ω) (t : OwnedTable κ ω α) : OnlyTouches o t t :=
  fun _ _ _ => Iff.rfl

theorem Fits.onlyTouches (h : t.Fits o new) : OnlyTouches (some o) t (t.replaceShare o new) := by
  intro k e he
  rw [replaceShare]
  cases hnew : new k with
  | some value =>
    constructor
    · intro hk
      exact absurd (h k e (by rw [hnew]; exact Option.some_ne_none value) hk) he
    · intro hk
      obtain rfl := Option.some.inj hk
      exact absurd rfl he
  | none =>
    rw [Option.filter_eq_some_iff]
    exact ⟨fun hk => ⟨hk, decide_eq_true he⟩, And.left⟩

/-- The share of another owner stays as it is. -/
theorem OnlyTouches.share_eq {o : Option ω} (h : OnlyTouches o t t') (hne : some o' ≠ o) :
    t'.share o' = t.share o' := by
  funext k
  refine Option.ext fun value => ?_
  rw [share_eq_some_iff, share_eq_some_iff]
  exact (h k ⟨value, some o'⟩ hne).symm

end OwnedTable

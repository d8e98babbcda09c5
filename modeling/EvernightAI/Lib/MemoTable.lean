import Mathlib.Data.List.Basic

/-!
# Values kept from one pass to the next

A list of items is turned into values again and again. What an item gave is kept under its key, and
an item of the next pass that has the same key takes what was kept, if it is still `reusable`. Each
pass looks up what the pass before it has kept and nothing older.

* `values_eq` : where items with equal keys have equal values, every pass gives the values that are
  computed anew.
-/

namespace MemoTable

variable {ι κ υ : Type*} [BEq κ]

/-- What is kept; the latest entry of a key counts. -/
abbrev Table (κ υ : Type*) := List (κ × υ)

/-- How items are turned into values. -/
structure Memo (ι κ υ : Type*) where
  key : ι → Option κ
  value : ι → υ
  reusable : υ → Bool

namespace Memo

variable (memo : Memo ι κ υ)

/-- What is kept for an item, or its value. -/
def remembered (table : Table κ υ) (item : ι) : υ :=
  (((memo.key item).bind fun key => table.lookup key).filter memo.reusable).getD (memo.value item)

/-- What is kept after an item. -/
def keep (item : ι) (value : υ) (next : Table κ υ) : Table κ υ :=
  (memo.key item).elim next fun key => (key, value) :: next

/-- **One pass**: the values of the items, and what is kept after them. -/
def pass (table : Table κ υ) : List ι → Table κ υ → List υ × Table κ υ
  | [], next => ([], next)
  | item :: items, next =>
    let value := memo.remembered table item
    let rest := pass table items (memo.keep item value next)
    (value :: rest.1, rest.2)

/-- The values of passes that follow each other. -/
def values : Table κ υ → List (List ι) → List (List υ)
  | _, [] => []
  | table, items :: passes =>
    (memo.pass table items []).1 :: values (memo.pass table items []).2 passes

/-- Items with equal keys have equal values. -/
def Faithful (items : ι → Prop) : Prop :=
  ∀ a b, items a → items b → ∀ key, memo.key a = some key → memo.key b = some key →
    memo.value a = memo.value b

/-- What is kept for an item is its value. -/
def Sound (items : ι → Prop) (table : Table κ υ) : Prop :=
  ∀ item, items item → ∀ key value, memo.key item = some key → table.lookup key = some value →
    value = memo.value item

variable {memo} {items : ι → Prop} {table next : Table κ υ}

theorem remembered_eq (h : memo.Sound items table) {item : ι} (hitem : items item) :
    memo.remembered table item = memo.value item := by
  rw [remembered]
  cases hkept : ((memo.key item).bind fun key => table.lookup key).filter memo.reusable with
  | none => rfl
  | some value =>
    obtain ⟨hlookup, -⟩ := Option.filter_eq_some_iff.mp hkept
    obtain ⟨key, hkey, hvalue⟩ := Option.bind_eq_some_iff.mp hlookup
    exact h item hitem key value hkey hvalue

variable [LawfulBEq κ]

theorem Sound.keep (hfaithful : memo.Faithful items) (h : memo.Sound items next) {item : ι}
    (hitem : items item) : memo.Sound items (memo.keep item (memo.value item) next) := by
  rw [Memo.keep]
  cases hkey : memo.key item with
  | none => exact h
  | some key =>
    intro other hother key' value hkey' hvalue
    rw [Option.elim_some, List.lookup_cons] at hvalue
    by_cases heq : key' = key
    · subst heq
      rw [BEq.refl] at hvalue
      have hvalue : memo.value item = value := Option.some.inj hvalue
      rw [← hvalue]
      exact hfaithful item other hitem hother key' hkey hkey'
    · rw [beq_eq_false_iff_ne.mpr heq] at hvalue
      exact h other hother key' value hkey' hvalue

/-- **One pass** gives the values, and what it keeps is right. -/
theorem pass_eq (hfaithful : memo.Faithful items) (htable : memo.Sound items table)
    (hnext : memo.Sound items next) {l : List ι} (hl : ∀ item ∈ l, items item) :
    (memo.pass table l next).1 = l.map memo.value ∧
      memo.Sound items (memo.pass table l next).2 := by
  induction l generalizing next with
  | nil => exact ⟨rfl, hnext⟩
  | cons item l ih =>
    have hitem := hl item List.mem_cons_self
    have hvalue := remembered_eq htable hitem
    have hrest := @ih (memo.keep item (memo.remembered table item) next)
      (by rw [hvalue]; exact hnext.keep hfaithful hitem)
      fun other hother => hl other (List.mem_cons_of_mem item hother)
    refine ⟨?_, hrest.2⟩
    rw [pass, List.map_cons, hrest.1, hvalue]

/-- **All passes give the values that are computed anew.** -/
theorem values_eq (hfaithful : memo.Faithful items) (htable : memo.Sound items table)
    {passes : List (List ι)} (h : ∀ l ∈ passes, ∀ item ∈ l, items item) :
    memo.values table passes = passes.map fun l => l.map memo.value := by
  induction passes generalizing table with
  | nil => rfl
  | cons l passes ih =>
    have hempty : memo.Sound items [] := fun _ _ _ _ _ hlookup => absurd hlookup nofun
    have hpass := pass_eq hfaithful htable hempty (h l List.mem_cons_self)
    rw [values, List.map_cons, hpass.1,
      ih hpass.2 fun m hm => h m (List.mem_cons_of_mem l hm)]

end Memo

end MemoTable

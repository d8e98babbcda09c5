import Mathlib.Data.List.Nodup
import Mathlib.Data.List.Sort
import Mathlib.Data.List.Range

/-!
# Folding by key

Pieces of several values arrive in one list, each under the key of its value, and a dictionary keeps for
every key the fold of the pieces seen. In whatever order the keys come, the entry of a key is the fold
of its own pieces.

* `lookup_collect` : the entry of a key.
* `sortedItems_eq_range` : the entries in the order of their keys, when these are the numbers below `n`.
-/

namespace KeyedFold

variable {κ β γ : Type*} [DecidableEq κ]

/-- `f(d.setdefault(key, init))`, in place. -/
def modify (init : β) (key : κ) (f : β → β) : List (κ × β) → List (κ × β)
  | [] => [(key, f init)]
  | (k, b) :: rest => if k = key then (k, f b) :: rest else (k, b) :: modify init key f rest

/-- The dictionary after some pieces. -/
def collect (merge : β → γ → β) (init : β) (table : List (κ × β)) (pieces : List (κ × γ)) :
    List (κ × β) :=
  pieces.foldl (fun table piece => modify init piece.1 (merge · piece.2) table) table

/-- The pieces of one value. -/
def ofKey (key : κ) (pieces : List (κ × γ)) : List γ :=
  pieces.filterMap fun piece => if piece.1 = key then some piece.2 else none

variable {init : β} {key k : κ} {f : β → β} {table : List (κ × β)} {merge : β → γ → β}

theorem lookup_modify : (modify init key f table).lookup k =
    if k = key then some (f ((table.lookup k).getD init)) else table.lookup k := by
  induction table with
  | nil =>
    by_cases hk : k = key
    · simp [modify, hk]
    · simp [modify, hk, List.lookup_cons, beq_eq_false_iff_ne.mpr hk]
  | cons entry rest ih =>
    obtain ⟨k', b⟩ := entry
    by_cases hentry : k' = key
    · subst hentry
      by_cases hk : k = k'
      · simp [modify, hk]
      · simp [modify, hk, List.lookup_cons, beq_eq_false_iff_ne.mpr hk]
    · rw [modify, if_neg hentry]
      by_cases hk : k = k'
      · subst hk
        simp [hentry]
      · simp only [List.lookup_cons, beq_eq_false_iff_ne.mpr hk, ih]

theorem keys_modify : (modify init key f table).map Prod.fst =
    if key ∈ table.map Prod.fst then table.map Prod.fst else table.map Prod.fst ++ [key] := by
  induction table with
  | nil => rfl
  | cons entry rest ih =>
    obtain ⟨k', b⟩ := entry
    by_cases hentry : k' = key
    · simp [modify, hentry]
    · rw [modify, if_neg hentry, List.map_cons, ih]
      have hne : key ≠ k' := Ne.symm hentry
      by_cases hmem : key ∈ rest.map Prod.fst
      · rw [if_pos hmem, if_pos (by rw [List.map_cons]; exact List.mem_cons_of_mem _ hmem), List.map_cons]
      · rw [if_neg hmem, if_neg (by rw [List.map_cons, List.mem_cons, not_or]; exact ⟨hne, hmem⟩),
          List.map_cons, List.cons_append]

/-- An entry of a new key comes last. -/
theorem modify_of_not_mem (h : key ∉ table.map Prod.fst) :
    modify init key f table = table ++ [(key, f init)] := by
  induction table with
  | nil => rfl
  | cons entry rest ih =>
    obtain ⟨k', b⟩ := entry
    rw [List.map_cons, List.mem_cons, not_or] at h
    have hentry : ¬k' = key := fun heq => h.1 heq.symm
    rw [modify, if_neg hentry, ih h.2, List.cons_append]

/-- The entry of a known key changes where it is. -/
theorem modify_append_cons {before after : List (κ × β)} {b : β} (h : key ∉ before.map Prod.fst) :
    modify init key f (before ++ (key, b) :: after) = before ++ (key, f b) :: after := by
  induction before with
  | nil => rw [List.nil_append, modify, if_pos rfl, List.nil_append]
  | cons entry before ih =>
    obtain ⟨k', b'⟩ := entry
    rw [List.map_cons, List.mem_cons, not_or] at h
    have hentry : ¬k' = key := fun heq => h.1 heq.symm
    rw [List.cons_append, modify, if_neg hentry, ih h.2, List.cons_append]

/-- The entry of a known key, as a change of all entries. -/
theorem modify_eq_map (hnodup : (table.map Prod.fst).Nodup) (hmem : key ∈ table.map Prod.fst) :
    modify init key f table = table.map fun e => (e.1, if e.1 = key then f e.2 else e.2) := by
  induction table with
  | nil => exact absurd hmem List.not_mem_nil
  | cons entry rest ih =>
    obtain ⟨k', b⟩ := entry
    rw [List.map_cons, List.nodup_cons] at hnodup
    by_cases hentry : k' = key
    · have hrest : rest.map (fun e => (e.1, if e.1 = key then f e.2 else e.2)) = rest.map id := by
        refine List.map_congr_left fun e he => ?_
        have hne : e.1 ≠ key := fun heq =>
          hnodup.1 (List.mem_map.mpr ⟨e, he, heq.trans hentry.symm⟩)
        rw [if_neg hne, id]
      rw [modify, if_pos hentry, List.map_cons, if_pos hentry, hrest, List.map_id]
    · have hmem : key ∈ rest.map Prod.fst := by
        rw [List.map_cons, List.mem_cons] at hmem
        exact hmem.resolve_left fun heq => hentry heq.symm
      rw [modify, if_neg hentry, ih hnodup.2 hmem, List.map_cons, if_neg hentry]

/-- Where the entry of a known key is. -/
theorem exists_split_of_lookup {b : β} (h : table.lookup key = some b) :
    ∃ before after, table = before ++ (key, b) :: after ∧ key ∉ before.map Prod.fst := by
  obtain ⟨before, after, rfl, hbefore⟩ := List.lookup_eq_some_iff.mp h
  refine ⟨before, after, rfl, fun hmem => ?_⟩
  obtain ⟨entry, hentry, hkey⟩ := List.mem_map.mp hmem
  exact absurd hkey.symm (by simpa using hbefore entry hentry)

/-- **Distinct keys.** -/
theorem nodup_keys_modify (h : (table.map Prod.fst).Nodup) :
    ((modify init key f table).map Prod.fst).Nodup := by
  rw [keys_modify]
  split_ifs with hmem
  · exact h
  · exact List.nodup_append.mpr ⟨h, List.nodup_singleton key, fun a ha b hb hab =>
      hmem (by rwa [← List.mem_singleton.mp hb, ← hab])⟩

theorem nodup_keys_collect {pieces : List (κ × γ)} (h : (table.map Prod.fst).Nodup) :
    ((collect merge init table pieces).map Prod.fst).Nodup := by
  induction pieces generalizing table with
  | nil => exact h
  | cons piece pieces ih => exact ih (nodup_keys_modify h)

theorem ofKey_cons {piece : κ × γ} {pieces : List (κ × γ)} : ofKey key (piece :: pieces) =
    if piece.1 = key then piece.2 :: ofKey key pieces else ofKey key pieces := by
  rw [ofKey, List.filterMap_cons]
  split_ifs with h
  · rfl
  · rfl

/-- **The entry of a key** is the fold of its own pieces. -/
theorem lookup_collect {pieces : List (κ × γ)} : (collect merge init table pieces).lookup key =
    if ofKey key pieces = [] then table.lookup key
    else some ((ofKey key pieces).foldl merge ((table.lookup key).getD init)) := by
  induction pieces generalizing table with
  | nil => rfl
  | cons piece pieces ih =>
    have hstep : collect merge init table (piece :: pieces) =
        collect merge init (modify init piece.1 (merge · piece.2) table) pieces := rfl
    rw [hstep, ih, lookup_modify, ofKey_cons]
    by_cases hpiece : piece.1 = key
    · subst hpiece
      by_cases hrest : ofKey piece.1 pieces = []
      · simp [hrest]
      · simp [hrest]
    · have hne : key ≠ piece.1 := Ne.symm hpiece
      simp only [if_neg hpiece, if_neg hne]

theorem mem_keys_iff : key ∈ table.map Prod.fst ↔ (table.lookup key).isSome := by
  induction table with
  | nil => simp
  | cons entry rest ih =>
    obtain ⟨k', b⟩ := entry
    by_cases h : key = k'
    · simp [h]
    · simp only [List.map_cons, List.mem_cons, h, false_or, ih, List.lookup_cons,
        beq_eq_false_iff_ne.mpr h]

/-! ### In the order of the keys -/

section Order

variable [LinearOrder κ]

/-- `sorted(d.items())` of a dictionary. -/
def sortedItems (table : List (κ × β)) : List (κ × β) :=
  ((table.map Prod.fst).insertionSort (· ≤ ·)).filterMap fun k => (table.lookup k).map (k, ·)

end Order

/-- **All numbers below `n`.** -/
theorem sortedItems_eq_range {table : List (ℕ × β)} {n : ℕ} {values : ℕ → β}
    (hnodup : (table.map Prod.fst).Nodup)
    (hlookup : ∀ k, table.lookup k = if k < n then some (values k) else none) :
    sortedItems table = (List.range n).map fun k => (k, values k) := by
  have hkeys : (table.map Prod.fst).insertionSort (· ≤ ·) = List.range n := by
    refine List.Perm.eq_of_pairwise' (List.pairwise_insertionSort _ _) List.pairwise_le_range ?_
    refine (List.perm_insertionSort _ _).trans ((List.perm_ext_iff_of_nodup hnodup List.nodup_range).mpr ?_)
    intro k
    rw [mem_keys_iff, hlookup, List.mem_range]
    split_ifs with hk <;> simp [hk]
  rw [sortedItems, hkeys, ← List.filterMap_eq_map]
  refine List.filterMap_congr fun k hk => ?_
  rw [hlookup, if_pos (List.mem_range.mp hk)]
  rfl

/-- The elements of a list under their positions. -/
theorem filterMap_range_getElem? {α : Type*} (l : List α) (g : α → β) :
    (List.range l.length).filterMap (fun k => (l[k]?).map g) = l.map g := by
  induction l with
  | nil => rfl
  | cons a l ih =>
    rw [List.length_cons, List.range_succ_eq_map, List.filterMap_cons, List.filterMap_map, List.map_cons,
      ← ih]
    rfl

end KeyedFold

import Mathlib.Data.List.Nodup
import Mathlib.Data.List.Perm.Subperm

/-!
# Tables with a primary key

A `Table key` is a finite list of rows in which no two rows have the same key: the property is
a field, so a table that breaks its primary key cannot be built. It stands for a database table
with a `PRIMARY KEY` column as well as for a dictionary whose values know their own key.

* `find?` reads the row stored under a key, `select` the rows that satisfy a condition.
* `upsert` inserts a row or replaces the one with its key *in place*, `deleteWhere` removes the
  rows that satisfy a condition, `updateWhere` rewrites them under their keys.
* `image` is what a table represents, when each row stands for a row of another kind with the same
  key; each operation on the rows is an operation on what they represent.

A table is determined, for its readers, by which rows are members, and each operation has one
membership lemma; callers use those and never look at the row list.
-/

/-- Rows with pairwise distinct keys. -/
structure Table {κ ρ : Type*} (key : ρ → κ) where
  rows : List ρ
  nodup : (rows.map key).Nodup

namespace Table

variable {κ ρ : Type*} {key : ρ → κ}

instance : Membership ρ (Table key) := ⟨fun t r => r ∈ t.rows⟩

theorem mem_rows {t : Table key} {r : ρ} : r ∈ t.rows ↔ r ∈ t := Iff.rfl

/-- The table without rows. -/
def empty : Table key := ⟨[], List.nodup_nil⟩

instance : EmptyCollection (Table key) := ⟨empty⟩

instance decidableBAll (t : Table key) (p : ρ → Prop) [DecidablePred p] :
    Decidable (∀ r ∈ t, p r) :=
  inferInstanceAs (Decidable (∀ r ∈ t.rows, p r))

instance decidableBEx (t : Table key) (p : ρ → Prop) [DecidablePred p] :
    Decidable (∃ r ∈ t, p r) :=
  inferInstanceAs (Decidable (∃ r ∈ t.rows, p r))

@[simp] theorem not_mem_empty (r : ρ) : r ∉ (∅ : Table key) := List.not_mem_nil

/-- **Primary key.** A key identifies at most one row. -/
theorem eq_of_key_eq {t : Table key} {r s : ρ} (hr : r ∈ t) (hs : s ∈ t) (h : key r = key s) :
    r = s :=
  List.inj_on_of_nodup_map t.nodup hr hs h

/-- The rows that satisfy a condition, in table order. -/
def select (t : Table key) (p : ρ → Bool) : List ρ := t.rows.filter p

@[simp] theorem mem_select {t : Table key} {p : ρ → Bool} {r : ρ} :
    r ∈ t.select p ↔ r ∈ t ∧ p r = true := List.mem_filter

/-- The table without the rows that satisfy a condition. -/
def deleteWhere (t : Table key) (p : ρ → Bool) : Table key where
  rows := t.rows.filter fun r => !p r
  nodup := t.nodup.sublist (List.filter_sublist.map key)

@[simp] theorem mem_deleteWhere {t : Table key} {p : ρ → Bool} {r : ρ} :
    r ∈ t.deleteWhere p ↔ r ∈ t ∧ p r = false := by
  simp only [← mem_rows, deleteWhere, List.mem_filter, Bool.not_eq_true']

/-- The table with every row rewritten under its key. -/
def map (f : ρ → ρ) (hf : ∀ r, key (f r) = key r) (t : Table key) : Table key where
  rows := t.rows.map f
  nodup := by
    rw [List.map_map, show key ∘ f = key from funext hf]
    exact t.nodup

@[ext] theorem ext {t u : Table key} (h : t.rows = u.rows) : t = u := by
  obtain ⟨rows, _⟩ := t
  obtain ⟨rows', _⟩ := u
  obtain rfl : rows = rows' := h
  rfl

/-- The table with the rows that satisfy a condition rewritten under their keys: an `UPDATE`. -/
def updateWhere (p : ρ → Bool) (f : ρ → ρ) (hf : ∀ r, key (f r) = key r) (t : Table key) :
    Table key :=
  t.map (fun r => if p r then f r else r) fun r => by split <;> [exact hf r; rfl]

theorem mem_updateWhere {p : ρ → Bool} {f : ρ → ρ} {hf : ∀ r, key (f r) = key r} {t : Table key}
    {x : ρ} : x ∈ t.updateWhere p f hf ↔ ∃ r ∈ t, (if p r then f r else r) = x :=
  List.mem_map

/-- An update that matches no row. -/
theorem updateWhere_eq_self {p : ρ → Bool} {f : ρ → ρ} {hf : ∀ r, key (f r) = key r}
    {t : Table key} (h : ∀ r ∈ t, p r = false) : t.updateWhere p f hf = t := by
  refine ext ((List.map_congr_left fun r hr => ?_).trans t.rows.map_id)
  rw [h r hr]
  rfl

section Image

variable {ρ' : Type*} {key' : ρ' → κ}

/-- What a table is a representation of: each row stands for a row with the same key. -/
def image (f : ρ → ρ') (hf : ∀ r, key' (f r) = key r) (t : Table key) : Table key' where
  rows := t.rows.map f
  nodup := by
    rw [List.map_map, show key' ∘ f = key from funext hf]
    exact t.nodup

variable {f : ρ → ρ'} {hf : ∀ r, key' (f r) = key r} {t : Table key}

theorem mem_image {x : ρ'} : x ∈ t.image f hf ↔ ∃ r ∈ t, f r = x := List.mem_map

theorem select_image (p : ρ' → Bool) : (t.image f hf).select p = (t.select (p ∘ f)).map f :=
  List.filter_map

theorem deleteWhere_image (p : ρ' → Bool) :
    (t.image f hf).deleteWhere p = (t.deleteWhere (p ∘ f)).image f hf :=
  ext List.filter_map

theorem updateWhere_image {p : ρ → Bool} {g : ρ → ρ} (hg : ∀ r, key (g r) = key r)
    {p' : ρ' → Bool} {g' : ρ' → ρ'} (hg' : ∀ r, key' (g' r) = key' r)
    (hp : ∀ r ∈ t, p' (f r) = p r) (hfg : ∀ r ∈ t, f (g r) = g' (f r)) :
    (t.image f hf).updateWhere p' g' hg' = (t.updateWhere p g hg).image f hf := by
  refine ext ?_
  simp only [image, updateWhere, map, List.map_map]
  refine List.map_congr_left fun r hr => ?_
  simp only [Function.comp_apply, hp r hr]
  split
  · exact (hfg r hr).symm
  · rfl

end Image

section Keyed

variable [DecidableEq κ]

/-- The row stored under `k`. -/
def find? (t : Table key) (k : κ) : Option ρ := t.rows.find? fun r => key r = k

theorem find?_eq_some {t : Table key} {k : κ} {r : ρ} :
    t.find? k = some r ↔ r ∈ t ∧ key r = k := by
  constructor
  · intro h
    exact ⟨List.mem_of_find?_eq_some h, by simpa using List.find?_some h⟩
  · rintro ⟨hr, rfl⟩
    cases h : t.find? (key r) with
    | none =>
      have := List.find?_eq_none.mp h r hr
      simp at this
    | some s =>
      have hs : key s = key r := by simpa using List.find?_some h
      rw [eq_of_key_eq (List.mem_of_find?_eq_some h) hr hs]

theorem find?_eq_none {t : Table key} {k : κ} : t.find? k = none ↔ ∀ r ∈ t, key r ≠ k := by
  simp only [find?, List.find?_eq_none, decide_eq_true_eq, mem_rows, ne_eq]

variable (key) in
private def upsertRows (r : ρ) : List ρ → List ρ
  | [] => [r]
  | s :: ss => if key s = key r then r :: ss else s :: upsertRows r ss

private theorem map_upsertRows (r : ρ) (l : List ρ) :
    (upsertRows key r l).map key =
      if key r ∈ l.map key then l.map key else l.map key ++ [key r] := by
  induction l with
  | nil => rfl
  | cons s ss ih =>
    by_cases hs : key s = key r
    · simp only [upsertRows, hs, if_true, List.map_cons, List.mem_cons, true_or]
    · have hs' : key r ≠ key s := fun h => hs h.symm
      simp only [upsertRows, hs, if_false, List.map_cons, ih, List.mem_cons, hs', false_or]
      split <;> rfl

private theorem mem_upsertRows {r x : ρ} {l : List ρ} (hl : (l.map key).Nodup) :
    x ∈ upsertRows key r l ↔ x = r ∨ (x ∈ l ∧ key x ≠ key r) := by
  induction l with
  | nil => simp [upsertRows]
  | cons s ss ih =>
    rw [List.map_cons, List.nodup_cons] at hl
    by_cases hs : key s = key r
    · have hss : ∀ y ∈ ss, key y ≠ key r := fun y hy h =>
        hl.1 (List.mem_map.mpr ⟨y, hy, h.trans hs.symm⟩)
      simp only [upsertRows, hs, if_true, List.mem_cons]
      constructor
      · rintro (rfl | hx)
        · exact Or.inl rfl
        · exact Or.inr ⟨Or.inr hx, hss x hx⟩
      · rintro (rfl | ⟨rfl | hx, hne⟩)
        · exact Or.inl rfl
        · exact absurd hs hne
        · exact Or.inr hx
    · simp only [upsertRows, hs, if_false, List.mem_cons, ih hl.2]
      constructor
      · rintro (rfl | rfl | ⟨hx, hne⟩)
        · exact Or.inr ⟨Or.inl rfl, hs⟩
        · exact Or.inl rfl
        · exact Or.inr ⟨Or.inr hx, hne⟩
      · rintro (rfl | ⟨rfl | hx, hne⟩)
        · exact Or.inr (Or.inl rfl)
        · exact Or.inl rfl
        · exact Or.inr (Or.inr ⟨hx, hne⟩)

/-- Insert a row, or replace the row with its key in place. -/
def upsert (r : ρ) (t : Table key) : Table key where
  rows := upsertRows key r t.rows
  nodup := by
    rw [map_upsertRows]
    split
    · exact t.nodup
    · next h =>
      exact List.nodup_append.mpr ⟨t.nodup, List.nodup_singleton _, fun a ha b hb => by
        rw [List.mem_singleton] at hb
        rintro rfl
        exact h (hb ▸ ha)⟩

@[simp] theorem mem_upsert {t : Table key} {r x : ρ} :
    x ∈ t.upsert r ↔ x = r ∨ (x ∈ t ∧ key x ≠ key r) :=
  mem_upsertRows t.nodup

private theorem upsertRows_of_mem {r : ρ} {l : List ρ} (hl : (l.map key).Nodup) (hr : r ∈ l) :
    upsertRows key r l = l := by
  induction l with
  | nil => exact absurd hr List.not_mem_nil
  | cons s ss ih =>
    rw [List.map_cons, List.nodup_cons] at hl
    rcases List.mem_cons.mp hr with rfl | hr
    · rw [upsertRows, if_pos rfl]
    · have hs : key s ≠ key r := fun h => hl.1 (List.mem_map.mpr ⟨r, hr, h.symm⟩)
      rw [upsertRows, if_neg hs, ih hl.2 hr]

/-- Writing a row changes the table unless it is stored already. -/
theorem upsert_eq_self_iff {t : Table key} {r : ρ} : t.upsert r = t ↔ r ∈ t := by
  constructor
  · intro h
    rw [← h]
    exact mem_upsert.mpr (Or.inl rfl)
  · intro h
    cases t with
    | mk rows nodup =>
      simp only [upsert, Table.mk.injEq]
      exact upsertRows_of_mem nodup h

private theorem countP_upsertRows (p : ρ → Bool) (r : ρ) (l : List ρ) (hl : (l.map key).Nodup) :
    (∀ s ∈ l, key s ≠ key r) ∧
        (upsertRows key r l).countP p = l.countP p + (if p r then 1 else 0) ∨
      ∃ s ∈ l, key s = key r ∧
        (upsertRows key r l).countP p + (if p s then 1 else 0) =
          l.countP p + (if p r then 1 else 0) := by
  induction l with
  | nil => left; simp [upsertRows]
  | cons s ss ih =>
    rw [List.map_cons, List.nodup_cons] at hl
    by_cases hs : key s = key r
    · right
      refine ⟨s, List.mem_cons_self .., hs, ?_⟩
      simp only [upsertRows, hs, if_true, List.countP_cons]
      omega
    · simp only [upsertRows, hs, if_false, List.countP_cons]
      rcases ih hl.2 with ⟨hne, hcount⟩ | ⟨x, hx, hkey, hcount⟩
      · left
        refine ⟨fun y hy => ?_, by omega⟩
        rcases List.mem_cons.mp hy with rfl | hy
        · exact hs
        · exact hne y hy
      · exact Or.inr ⟨x, List.mem_cons_of_mem _ hx, hkey, by omega⟩

/-- **Counting an insertion.** -/
theorem countP_upsert_of_new {t : Table key} {r : ρ} (h : ∀ s ∈ t, key s ≠ key r) (p : ρ → Bool) :
    (t.upsert r).rows.countP p = t.rows.countP p + if p r then 1 else 0 := by
  rcases countP_upsertRows p r t.rows t.nodup with ⟨-, hcount⟩ | ⟨s, hs, hkey, -⟩
  · exact hcount
  · exact absurd hkey (h s hs)

/-- **Counting a replacement.** -/
theorem countP_upsert_of_mem {t : Table key} {r s : ρ} (hs : s ∈ t) (hkey : key s = key r)
    (p : ρ → Bool) : (t.upsert r).rows.countP p + (if p s then 1 else 0) =
      t.rows.countP p + if p r then 1 else 0 := by
  rcases countP_upsertRows p r t.rows t.nodup with ⟨hne, -⟩ | ⟨x, hx, hxkey, hcount⟩
  · exact absurd hkey (hne s hs)
  · rwa [eq_of_key_eq hs hx (hkey.trans hxkey.symm)]

theorem find?_upsert_self (t : Table key) (r : ρ) : (t.upsert r).find? (key r) = some r :=
  find?_eq_some.mpr ⟨mem_upsert.mpr (Or.inl rfl), rfl⟩

theorem find?_upsert_of_ne (t : Table key) {r : ρ} {k : κ} (h : k ≠ key r) :
    (t.upsert r).find? k = t.find? k := by
  ext x
  simp only [find?_eq_some, mem_upsert]
  constructor
  · rintro ⟨rfl | ⟨hx, _⟩, hk⟩
    · exact absurd hk.symm h
    · exact ⟨hx, hk⟩
  · rintro ⟨hx, hk⟩
    exact ⟨Or.inr ⟨hx, hk ▸ h⟩, hk⟩

theorem find?_map (f : ρ → ρ) (hf : ∀ r, key (f r) = key r) (t : Table key) (k : κ) :
    (t.map f hf).find? k = (t.find? k).map f := by
  have hcomp : (fun r => decide (key r = k)) ∘ f = fun r => decide (key r = k) :=
    funext fun r => by simp only [Function.comp_apply, hf]
  rw [find?, find?, map, List.find?_map, hcomp]

theorem find?_updateWhere {p : ρ → Bool} {f : ρ → ρ} (hf : ∀ r, key (f r) = key r) (t : Table key)
    (k : κ) : (t.updateWhere p f hf).find? k = (t.find? k).map fun r => if p r then f r else r :=
  find?_map _ _ t k

theorem find?_deleteWhere_key (t : Table key) (k k' : κ) :
    (t.deleteWhere fun r => key r = k).find? k' = if k' = k then none else t.find? k' := by
  by_cases hk : k' = k
  · rw [if_pos hk, find?_eq_none]
    intro r hr hkey
    exact of_decide_eq_false (mem_deleteWhere.mp hr).2 (hkey.trans hk)
  · rw [if_neg hk]
    ext r
    rw [find?_eq_some, find?_eq_some, mem_deleteWhere]
    refine ⟨fun h => ⟨h.1.1, h.2⟩, fun h => ⟨⟨h.1, decide_eq_false fun hkey => hk ?_⟩, h.2⟩⟩
    rw [← h.2, hkey]

/-- Distinct keys of rows that satisfy a condition are at most as many as those rows. -/
theorem length_le_countP {t : Table key} {ks : List κ} (hks : ks.Nodup) {p : ρ → Bool}
    (h : ∀ k ∈ ks, ∃ r, t.find? k = some r ∧ p r = true) : ks.length ≤ t.rows.countP p := by
  have hsub : ks ⊆ (t.select p).map key := fun k hk => by
    obtain ⟨r, hr, hp⟩ := h k hk
    obtain ⟨hmem, rfl⟩ := find?_eq_some.mp hr
    exact List.mem_map.mpr ⟨r, mem_select.mpr ⟨hmem, hp⟩, rfl⟩
  have hlength := (List.subperm_of_subset hks hsub).length_le
  rwa [List.length_map, select, ← List.countP_eq_length_filter] at hlength

private theorem upsertRows_eq_map {r : ρ} {l : List ρ} (hl : (l.map key).Nodup)
    (h : key r ∈ l.map key) :
    upsertRows key r l = l.map fun s => if key s = key r then r else s := by
  induction l with
  | nil => exact absurd h List.not_mem_nil
  | cons s ss ih =>
    rw [List.map_cons, List.nodup_cons] at hl
    by_cases hs : key s = key r
    · have hne : ∀ y ∈ ss, key y ≠ key r := fun y hy hy' =>
        hl.1 (List.mem_map.mpr ⟨y, hy, hy'.trans hs.symm⟩)
      have hss : ss.map (fun s => if key s = key r then r else s) = ss :=
        (List.map_congr_left fun y hy => if_neg (hne y hy)).trans ss.map_id
      rw [upsertRows, if_pos hs, List.map_cons, if_pos hs, hss]
    · have hmem : key r ∈ ss.map key :=
        (List.mem_cons.mp h).resolve_left fun h => hs h.symm
      rw [upsertRows, if_neg hs, List.map_cons, if_neg hs, ih hl.2 hmem]

/-- Writing over a stored row rewrites that row only. -/
theorem upsert_eq_updateWhere {t : Table key} {r s : ρ} (hs : s ∈ t) (hkey : key s = key r)
    {p : ρ → Bool} {f : ρ → ρ} {hf : ∀ r, key (f r) = key r} (hp : ∀ x ∈ t, p x ↔ key x = key r)
    (hr : f s = r) : t.upsert r = t.updateWhere p f hf := by
  refine ext ((upsertRows_eq_map t.nodup (hkey ▸ List.mem_map.mpr ⟨s, hs, rfl⟩)).trans ?_)
  refine List.map_congr_left fun x hx => ?_
  by_cases hx' : key x = key r
  · rw [if_pos hx', if_pos ((hp x hx).mpr hx'), eq_of_key_eq hx hs (hx'.trans hkey.symm), hr]
  · rw [if_neg hx', if_neg fun h => hx' ((hp x hx).mp h)]

/-- A condition that only the row with a stored key satisfies. -/
theorem countP_eq_one {t : Table key} {r : ρ} (hr : r ∈ t) {p : ρ → Bool}
    (hp : ∀ x ∈ t, p x ↔ key x = key r) : t.rows.countP p = 1 := by
  have hcount : t.rows.countP p = (t.rows.map key).count (key r) := by
    rw [List.count_eq_countP, List.countP_map]
    refine List.countP_congr fun x hx => ?_
    rw [hp x hx, Function.comp_apply, beq_iff_eq]
  rw [hcount]
  exact List.count_eq_one_of_mem t.nodup (List.mem_map.mpr ⟨r, hr, rfl⟩)

section Image

variable {ρ' : Type*} {key' : ρ' → κ} {f : ρ → ρ'} {hf : ∀ r, key' (f r) = key r}

theorem find?_image (t : Table key) (k : κ) : (t.image f hf).find? k = (t.find? k).map f := by
  have hcomp : (fun r => decide (key' r = k)) ∘ f = fun r => decide (key r = k) :=
    funext fun r => by simp only [Function.comp_apply, hf]
  rw [find?, find?, image, List.find?_map, hcomp]

private theorem map_upsertRows_image (r : ρ) (l : List ρ) (hf : ∀ r, key' (f r) = key r) :
    (upsertRows key r l).map f = upsertRows key' (f r) (l.map f) := by
  induction l with
  | nil => rfl
  | cons s ss ih =>
    by_cases hs : key s = key r
    · rw [upsertRows, if_pos hs, List.map_cons, List.map_cons, upsertRows, hf, hf, if_pos hs]
    · rw [upsertRows, if_neg hs, List.map_cons, List.map_cons, upsertRows, hf, hf, if_neg hs, ih]

theorem image_upsert (t : Table key) (r : ρ) :
    (t.upsert r).image f hf = (t.image f hf).upsert (f r) :=
  ext (map_upsertRows_image r t.rows hf)

/-- An update of one row shows as the same row written over in the represented table. -/
theorem image_updateWhere {t : Table key} {r : ρ} (hr : r ∈ t) {p : ρ → Bool} {g : ρ → ρ}
    (hg : ∀ r, key (g r) = key r) (hp : ∀ x ∈ t, p x ↔ key x = key r) :
    (t.updateWhere p g hg).image f hf = (t.image f hf).upsert (f (g r)) := by
  rw [← image_upsert]
  refine congrArg _ (upsert_eq_updateWhere hr (hg r).symm (fun x hx => ?_) rfl).symm
  rw [hp x hx, hg]

end Image

end Keyed

end Table

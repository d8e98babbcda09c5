import Mathlib.Data.List.Sort

/-!
# Reading a list page by page

A listing is read page by page when each page is asked for with the key of the last row of the
page before it, until a page comes back empty. `Pages key fetch cursor rows` says that reading on
from `cursor` ends, and that the pages joined together are `rows`.

* `Pages.unique`: reading on from a cursor ends in one way only; `Pages.of_fetch` reads one page.
* `pages_filter_take`: pages of at most `n` rows, cut from a list in strict order of its keys, join
  to the whole list.
-/

namespace EvernightAI

variable {α κ ε : Type*}

/-- Reading on from `cursor`, page after page, ends with these rows. -/
inductive Pages (key : α → κ) (fetch : Option κ → Except ε (List α)) : Option κ → List α → Prop
  | done {cursor : Option κ} : fetch cursor = .ok [] → Pages key fetch cursor []
  | page {cursor : Option κ} {rows rest : List α} {last : α} : fetch cursor = .ok rows →
      rows.getLast? = some last → Pages key fetch (some (key last)) rest →
      Pages key fetch cursor (rows ++ rest)

theorem Pages.unique {key : α → κ} {fetch : Option κ → Except ε (List α)} {cursor : Option κ}
    {rows rows' : List α} (h : Pages key fetch cursor rows) (h' : Pages key fetch cursor rows') :
    rows = rows' := by
  induction h generalizing rows' with
  | done hfetch =>
    cases h' with
    | done => rfl
    | page hfetch' hlast =>
      obtain rfl : [] = _ := Except.ok.inj (hfetch.symm.trans hfetch')
      exact absurd hlast (by simp)
  | page hfetch hlast _ ih =>
    cases h' with
    | done hfetch' =>
      obtain rfl : _ = [] := Except.ok.inj (hfetch.symm.trans hfetch')
      exact absurd hlast (by simp)
    | page hfetch' hlast' hrest' =>
      obtain rfl := Except.ok.inj (hfetch.symm.trans hfetch')
      obtain rfl := Option.some.inj (hlast.symm.trans hlast')
      rw [ih hrest']

/-- A page that is not empty is read first; reading goes on from its last row. -/
theorem Pages.of_fetch {key : α → κ} {fetch : Option κ → Except ε (List α)} {cursor : Option κ}
    {rows all : List α} {last : α} (h : Pages key fetch cursor all) (hfetch : fetch cursor = .ok rows)
    (hlast : rows.getLast? = some last) :
    ∃ rest, all = rows ++ rest ∧ Pages key fetch (some (key last)) rest := by
  cases h with
  | done hfetch' =>
    obtain rfl : rows = [] := Except.ok.inj (hfetch.symm.trans hfetch')
    exact absurd hlast (by simp)
  | page hfetch' hlast' hrest =>
    obtain rfl := Except.ok.inj (hfetch.symm.trans hfetch')
    obtain rfl := Option.some.inj (hlast.symm.trans hlast')
    exact ⟨_, rfl, hrest⟩

/-- Behind an empty page there is nothing. -/
theorem Pages.eq_nil {key : α → κ} {fetch : Option κ → Except ε (List α)} {cursor : Option κ}
    {all : List α} (h : Pages key fetch cursor all) (hfetch : fetch cursor = .ok []) : all = [] :=
  h.unique (.done hfetch)

/-- Where reading ends at once, the next page is empty. -/
theorem Pages.fetch_of_nil {key : α → κ} {fetch : Option κ → Except ε (List α)}
    {cursor : Option κ} (h : Pages key fetch cursor []) : fetch cursor = .ok [] := by
  generalize hall : ([] : List α) = all at h
  cases h with
  | done hfetch => exact hfetch
  | page hfetch hlast _ =>
    obtain ⟨rfl, -⟩ := List.append_eq_nil_iff.mp hall.symm
    exact absurd hlast (by simp)

section Ordered

variable [LinearOrder κ] {key : α → κ}

/-- In strict order of the keys, what comes after a row is what has a larger key. -/
theorem filter_key_lt {before after : List α} {x : α}
    (h : (before ++ x :: after).Pairwise fun a b => key a < key b) :
    (before ++ x :: after).filter (fun a => decide (key x < key a)) = after := by
  obtain ⟨-, hcons, hcross⟩ := List.pairwise_append.mp h
  have hafter := (List.pairwise_cons.mp hcons).1
  have hnone : before.filter (fun a => decide (key x < key a)) = [] := by
    refine List.filter_eq_nil_iff.mpr fun a ha => ?_
    simpa using (hcross a ha x List.mem_cons_self).le
  have hall : after.filter (fun a => decide (key x < key a)) = after :=
    List.filter_eq_self.mpr fun a ha => by simpa using hafter a ha
  rw [List.filter_append, hnone, List.filter_cons_of_neg (by simp), hall, List.nil_append]

/-- Cutting pages from a list in strict order of its keys joins to what is left of it. -/
theorem pages_filter_take {fetch : Option κ → Except ε (List α)} {rows : List α} {n : Nat}
    (hn : 0 < n) (hrows : rows.Pairwise fun a b => key a < key b)
    (hfetch : ∀ cursor, fetch cursor =
      .ok ((rows.filter fun a => cursor.all (· < key a)).take n)) (cursor : Option κ) :
    Pages key fetch cursor (rows.filter fun a => cursor.all (· < key a)) := by
  -- The rows left grow fewer with every page, since a page that is not empty has a last row.
  generalize hleft : (rows.filter fun a => cursor.all (· < key a)).length = left
  induction left using Nat.strong_induction_on generalizing cursor with
  | _ left ih =>
    set rest := rows.filter fun a => cursor.all (· < key a) with hrest
    rcases hlast : (rest.take n).getLast? with _ | last
    · have hnil : rest = [] := by
        have htake := List.getLast?_eq_none_iff.mp hlast
        rcases List.take_eq_nil_iff.mp htake with h | h
        · omega
        · exact h
      rw [hnil]
      exact .done (by rw [hfetch, ← hrest, hnil, List.take_nil])
    · obtain ⟨before, hbefore⟩ := List.getLast?_eq_some_iff.mp hlast
      have hsplit : rest = before ++ last :: rest.drop n := by
        conv_lhs => rw [← List.take_append_drop n rest, hbefore]
        rw [List.append_assoc, List.singleton_append]
      have hsorted : (before ++ last :: rest.drop n).Pairwise fun a b => key a < key b :=
        hsplit ▸ hrows.sublist List.filter_sublist
      have hmem : last ∈ rest := by
        rw [hsplit]
        exact List.mem_append_right _ List.mem_cons_self
      have hcursor : cursor.all (· < key last) = true := (List.mem_filter.mp hmem).2
      have hnext : (rows.filter fun a => (some (key last)).all (· < key a)) = rest.drop n := by
        calc (rows.filter fun a => (some (key last)).all (· < key a))
            = rest.filter (fun a => decide (key last < key a)) := by
              rw [hrest, List.filter_filter]
              refine List.filter_congr fun a _ => ?_
              by_cases ha : key last < key a
              · cases cursor with
                | none => simp [ha]
                | some c =>
                  have hc : c < key last := by simpa using hcursor
                  simp [ha, hc.trans ha]
              · simp [ha]
          _ = rest.drop n := by
              conv_lhs => rw [hsplit]
              exact filter_key_lt hsorted
      have hless : (rest.drop n).length < left := by
        have hlength := congrArg List.length hsplit
        simp only [List.length_append, List.length_cons] at hlength
        omega
      have hpages := ih (rest.drop n).length hless (some (key last)) (by rw [hnext])
      rw [hnext] at hpages
      have hjoin := Pages.page (by rw [hfetch, ← hrest]) hlast hpages
      rwa [List.take_append_drop] at hjoin

end Ordered

end EvernightAI

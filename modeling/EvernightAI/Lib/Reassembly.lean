import Mathlib.Data.List.Nodup
import Mathlib.Data.List.Infix
import Mathlib.Logic.Function.Basic

/-!
# Values that arrive in pieces

Several values, each a list under a key, arrive in one stream of pieces. A piece has *more* of its
value, or it has the value *whole*. A receiver forwards what is new in each piece: of a whole value
the part it has not seen yet. A value without parts, of which there is only the whole, is a list of
one element, and the receiver then forwards it once.

* `receive` and `receiveAll` are the receiver.
* `Splits value pieces`: the pieces are pieces of these values, and a value has no more pieces once
  it came whole.
* `receiveAll_of_splits`: the receiver accepts such pieces, and under every key it has forwarded
  what has arrived. So nothing is lost or forwarded twice, in whatever order the pieces come.
* `forwarded_eq_of_inOrder`: when no value begins before the values of the earlier keys are
  complete, the values are forwarded in the order of the keys.
-/

namespace Reassembly

variable {κ α : Type*}

/-- A piece of the value under `key`. -/
inductive Piece (κ α : Type*)
  | more (key : κ) (part : List α)
  | whole (key : κ) (value : List α)

/-- The value a piece is of. -/
def Piece.key : Piece κ α → κ
  | .more key _ | .whole key _ => key

/-- What a piece has of its value. -/
def Piece.content : Piece κ α → List α
  | .more _ content | .whole _ content => content

section Receiver

variable [DecidableEq κ] [DecidableEq α]

/-- The receiver takes a piece: what it has seen now, and what is new. It refuses a whole value that
does not begin with what it has seen. -/
def receive (seen : κ → List α) : Piece κ α → Option ((κ → List α) × List α)
  | .more key part => some (Function.update seen key (seen key ++ part), part)
  | .whole key value =>
    if (seen key).isPrefixOf value then
      some (Function.update seen key value, value.drop (seen key).length)
    else none

/-- The receiver takes pieces, and forwards what is new in each under its key. -/
def receiveAll : (κ → List α) → List (Piece κ α) → Option ((κ → List α) × List (κ × List α))
  | seen, [] => some (seen, [])
  | seen, piece :: pieces =>
    (receive seen piece).bind fun r =>
      (receiveAll r.1 pieces).map fun rest => (rest.1, (piece.key, r.2) :: rest.2)

theorem receiveAll_append (seen : κ → List α) (pieces pieces' : List (Piece κ α)) :
    receiveAll seen (pieces ++ pieces') =
      (receiveAll seen pieces).bind fun r =>
        (receiveAll r.1 pieces').map fun rest => (rest.1, r.2 ++ rest.2) := by
  induction pieces generalizing seen with
  | nil => simp [receiveAll]
  | cons piece pieces ih =>
    rw [List.cons_append, receiveAll, receiveAll]
    cases receive seen piece with
    | none => rfl
    | some r =>
      simp only [Option.bind_some, ih]
      cases receiveAll r.1 pieces with
      | none => rfl
      | some rest => simp [Function.comp_def]

/-- The first of some pieces is taken first. -/
theorem exists_of_receiveAll_cons {seen seen' : κ → List α} {piece : Piece κ α}
    {pieces : List (Piece κ α)} {forwarded : List (κ × List α)}
    (h : receiveAll seen (piece :: pieces) = some (seen', forwarded)) :
    ∃ seen₁ gain later, receive seen piece = some (seen₁, gain) ∧
      receiveAll seen₁ pieces = some (seen', later) ∧ forwarded = (piece.key, gain) :: later := by
  obtain ⟨⟨seen₁, gain⟩, hfirst, h⟩ := Option.bind_eq_some_iff.mp h
  obtain ⟨⟨seen₂, later⟩, hlater, h⟩ := Option.map_eq_some_iff.mp h
  obtain ⟨rfl, rfl⟩ := Prod.mk.inj h
  exact ⟨seen₁, gain, later, hfirst, hlater, rfl⟩

theorem exists_of_receiveAll_append {seen seen' : κ → List α} {pieces pieces' : List (Piece κ α)}
    {forwarded : List (κ × List α)}
    (h : receiveAll seen (pieces ++ pieces') = some (seen', forwarded)) :
    ∃ seen₁ first later, receiveAll seen pieces = some (seen₁, first) ∧
      receiveAll seen₁ pieces' = some (seen', later) ∧ forwarded = first ++ later := by
  rw [receiveAll_append] at h
  obtain ⟨⟨seen₁, first⟩, hfirst, h⟩ := Option.bind_eq_some_iff.mp h
  obtain ⟨⟨seen₂, later⟩, hlater, h⟩ := Option.map_eq_some_iff.mp h
  obtain ⟨rfl, rfl⟩ := Prod.mk.inj h
  exact ⟨seen₁, first, later, hfirst, hlater, rfl⟩

end Receiver

/-! ### What has arrived -/

section Arrived

variable [DecidableEq κ]

/-- The parts that have arrived of a value. -/
def parts (key : κ) (pieces : List (Piece κ α)) : List α :=
  pieces.flatMap fun
    | .more k part => if k = key then part else []
    | .whole _ _ => []

/-- A value has arrived whole. -/
def Closed (key : κ) (pieces : List (Piece κ α)) : Prop :=
  pieces.any fun
    | .more _ _ => false
    | .whole k _ => k = key

instance (key : κ) (pieces : List (Piece κ α)) : Decidable (Closed key pieces) :=
  inferInstanceAs (Decidable (_ = true))

/-- **Pieces of the values.** Whole values are right, the parts of a value are the beginning of it,
and none comes after the whole. -/
structure Splits (value : κ → List α) (pieces : List (Piece κ α)) : Prop where
  whole : ∀ key v, .whole key v ∈ pieces → v = value key
  parts : ∀ key, parts key pieces <+: value key
  before : ∀ pre key part post, pieces = pre ++ .more key part :: post → ¬ Closed key pre

/-- What has arrived of a value. -/
def arrived (value : κ → List α) (pieces : List (Piece κ α)) (key : κ) : List α :=
  if Closed key pieces then value key else Reassembly.parts key pieces

variable {value : κ → List α} {pieces pieces' : List (Piece κ α)} {piece : Piece κ α} {key : κ}

theorem parts_append : parts key (pieces ++ pieces') = parts key pieces ++ parts key pieces' := by
  rw [parts, parts, parts, List.flatMap_append]

theorem closed_append : Closed key (pieces ++ pieces') ↔ Closed key pieces ∨ Closed key pieces' := by
  rw [Closed, List.any_append, Bool.or_eq_true]
  rfl

@[simp] theorem not_closed_nil : ¬ Closed key ([] : List (Piece κ α)) := by simp [Closed]

@[simp] theorem not_closed_more {k : κ} {part : List α} : ¬ Closed key [.more k part] := by
  simp [Closed]

@[simp] theorem closed_whole {k : κ} {v : List α} : Closed key [.whole k v] ↔ k = key := by
  simp [Closed]

@[simp] theorem parts_nil : parts key ([] : List (Piece κ α)) = [] := rfl

theorem closed_iff : Closed key pieces ↔ ∃ v, .whole key v ∈ pieces := by
  rw [Closed, List.any_eq_true]
  constructor
  · rintro ⟨piece, hpiece, hkey⟩
    cases piece with
    | more k part => exact absurd hkey (by simp)
    | whole k v => exact ⟨v, of_decide_eq_true hkey ▸ hpiece⟩
  · rintro ⟨v, hv⟩
    exact ⟨_, hv, by simp⟩

theorem arrived_of_closed (h : Closed key pieces) : arrived value pieces key = value key :=
  if_pos h

theorem arrived_of_not_closed (h : ¬ Closed key pieces) :
    arrived value pieces key = parts key pieces :=
  if_neg h

@[simp] theorem arrived_nil : arrived value ([] : List (Piece κ α)) = fun _ => [] :=
  funext fun _ => arrived_of_not_closed not_closed_nil

/-- The first pieces of the values are pieces of the values. -/
theorem Splits.of_append (h : Splits value (pieces ++ pieces')) : Splits value pieces where
  whole key v hv := h.whole key v (List.mem_append_left _ hv)
  parts key := by
    have hall := h.parts key
    rw [parts_append] at hall
    exact (List.prefix_append _ _).trans hall
  before pre key part post hpieces := h.before pre key part (post ++ pieces') (by simp [hpieces])

theorem arrived_isPrefix (h : Splits value pieces) (key : κ) :
    arrived value pieces key <+: value key := by
  by_cases hclosed : Closed key pieces
  · rw [arrived_of_closed hclosed]
  · rw [arrived_of_not_closed hclosed]
    exact h.parts key

/-- A piece says nothing about the other values. -/
theorem arrived_append_of_ne (hne : piece.key ≠ key) :
    arrived value (pieces ++ [piece]) key = arrived value pieces key := by
  have hparts : parts key [piece] = [] := by
    cases piece with
    | more k part => simp [parts, show k ≠ key from hne]
    | whole k v => rfl
  have hopen : ¬ Closed key [piece] := by
    cases piece with
    | more k part => simp
    | whole k v => exact fun h => hne (closed_whole.mp h)
  by_cases hclosed : Closed key pieces
  · rw [arrived_of_closed hclosed, arrived_of_closed (closed_append.mpr (Or.inl hclosed))]
  · have hclosed' : ¬ Closed key (pieces ++ [piece]) := fun h =>
      (closed_append.mp h).elim hclosed hopen
    rw [arrived_of_not_closed hclosed, arrived_of_not_closed hclosed', parts_append, hparts,
      List.append_nil]

/-- What is new in a piece. -/
def gain (value : κ → List α) (pieces : List (Piece κ α)) (piece : Piece κ α) :
    List α :=
  match piece with
  | .more _ part => part
  | .whole key v => v.drop (arrived value pieces key).length

/-- A piece adds what is new in it. -/
theorem arrived_append_self (h : Splits value (pieces ++ [piece])) :
    arrived value (pieces ++ [piece]) piece.key =
      arrived value pieces piece.key ++ gain value pieces piece := by
  cases piece with
  | more key part =>
    have hopen : ¬ Closed key pieces := h.before pieces key part [] rfl
    have hopen' : ¬ Closed key (pieces ++ [.more key part]) := fun hclosed =>
      (closed_append.mp hclosed).elim hopen not_closed_more
    rw [Piece.key, arrived_of_not_closed hopen, arrived_of_not_closed hopen', parts_append]
    simp [parts, gain]
  | whole key v =>
    have hclosed : Closed key (pieces ++ [.whole key v]) := closed_append.mpr (Or.inr (by simp))
    have hv : v = value key := h.whole key v (by simp)
    rw [Piece.key, arrived_of_closed hclosed, gain, hv]
    obtain ⟨rest, hrest⟩ := arrived_isPrefix h.of_append key
    rw [← hrest, List.drop_left]

theorem arrived_append (h : Splits value (pieces ++ [piece])) :
    arrived value (pieces ++ [piece]) =
      Function.update (arrived value pieces) piece.key
        (arrived value pieces piece.key ++ gain value pieces piece) := by
  funext key
  by_cases hkey : piece.key = key
  · subst hkey
    rw [Function.update_self, arrived_append_self h]
  · rw [Function.update_of_ne (Ne.symm hkey), arrived_append_of_ne hkey]

variable [DecidableEq α]

/-- The receiver that has seen what has arrived takes the next piece. -/
theorem receive_arrived (h : Splits value (pieces ++ [piece])) :
    receive (arrived value pieces) piece =
      some (arrived value (pieces ++ [piece]), gain value pieces piece) := by
  have hself := arrived_append_self h
  rw [arrived_append h]
  cases piece with
  | more key part => rfl
  | whole key v =>
    have hwhole : arrived value (pieces ++ [.whole key v]) key = v :=
      (arrived_of_closed (closed_append.mpr (Or.inr (by simp)))).trans
        (h.whole key v (by simp)).symm
    have hv : arrived value pieces key ++ gain value pieces (.whole key v) = v :=
      hself.symm.trans hwhole
    have hle : (arrived value pieces key).isPrefixOf v := by
      rw [List.isPrefixOf_iff_prefix]
      exact ⟨_, hv⟩
    rw [receive, if_pos hle]
    simp only [Piece.key, hv]
    rfl

/-- What the receiver forwards, under each key, over some pieces. -/
def forwardedUnder (key : κ) (forwarded : List (κ × List α)) : List α :=
  forwarded.flatMap fun kv => if kv.1 = key then kv.2 else []

/-- **Nothing is lost or forwarded twice.** -/
theorem receiveAll_of_splits (h : Splits value pieces) :
    ∃ forwarded, receiveAll (fun _ => []) pieces = some (arrived value pieces, forwarded) ∧
      ∀ key, forwardedUnder key forwarded = arrived value pieces key := by
  induction pieces using List.reverseRecOn with
  | nil => exact ⟨[], by simp [receiveAll], fun key => by simp [forwardedUnder]⟩
  | append_singleton pieces piece ih =>
    obtain ⟨forwarded, hrun, hunder⟩ := ih h.of_append
    refine ⟨forwarded ++ [(piece.key, gain value pieces piece)], ?_, fun key => ?_⟩
    · rw [receiveAll_append, hrun]
      simp [receiveAll, receive_arrived h]
    · rw [forwardedUnder, List.flatMap_append, ← forwardedUnder, hunder]
      by_cases hkey : piece.key = key
      · subst hkey
        rw [arrived_append_self h]
        simp
      · rw [arrived_append_of_ne hkey]
        simp [hkey]

/-! ### Values that arrive in order -/

/-- Of a value that is not complete, a piece comes only when the values of the earlier keys are. -/
def InOrder (value : κ → List α) (keys : List κ) (pieces : List (Piece κ α)) : Prop :=
  ∀ pre piece post, pieces = pre ++ piece :: post →
    arrived value pre piece.key ≠ value piece.key →
      ∀ earlier later, keys = earlier ++ piece.key :: later →
        ∀ key ∈ earlier, arrived value pre key = value key

omit [DecidableEq α] in
theorem InOrder.of_append {keys : List κ} (h : InOrder value keys (pieces ++ pieces')) :
    InOrder value keys pieces := fun pre piece post hpieces =>
  h pre piece (post ++ pieces') (by simp [hpieces])

omit [DecidableEq α] in
/-- A value that is complete gains nothing. -/
theorem gain_eq_nil (h : Splits value (pieces ++ [piece]))
    (hcomplete : arrived value pieces piece.key = value piece.key) :
    gain value pieces piece = [] := by
  have hle := arrived_isPrefix h piece.key
  rw [arrived_append_self h, hcomplete] at hle
  have hlen := hle.length_le
  rw [List.length_append] at hlen
  exact List.length_eq_zero_iff.mp (by omega)

omit [DecidableEq α] in
/-- After a value that is not complete nothing has arrived. -/
theorem arrived_eq_nil_of_later {keys : List κ} (hnodup : keys.Nodup) (h : Splits value pieces)
    (horder : InOrder value keys pieces) :
    ∀ earlier key later, keys = earlier ++ key :: later → arrived value pieces key ≠ value key →
      ∀ key' ∈ later, arrived value pieces key' = [] := by
  induction pieces using List.reverseRecOn with
  | nil => intro _ _ _ _ _ key' _; simp
  | append_singleton pieces piece ih =>
    intro earlier key later hkeys hnot key' hkey'
    have hne : key ≠ key' := by
      rintro rfl
      rw [hkeys] at hnodup
      exact (List.nodup_cons.mp hnodup.of_append_right).1 hkey'
    -- the value was not complete before the piece either
    have hbefore : arrived value pieces key ≠ value key := by
      intro hcomplete
      by_cases hkey : piece.key = key
      · subst hkey
        rw [arrived_append_self h, gain_eq_nil h hcomplete, List.append_nil] at hnot
        exact hnot hcomplete
      · rw [arrived_append_of_ne hkey] at hnot
        exact hnot hcomplete
    have hnil := ih h.of_append horder.of_append earlier key later hkeys hbefore key' hkey'
    by_cases hpiece : piece.key = key'
    · subst hpiece
      by_cases hcomplete : arrived value pieces piece.key = value piece.key
      · rw [arrived_append_self h, gain_eq_nil h hcomplete, hnil, List.append_nil]
      · obtain ⟨front, back, rfl⟩ := List.append_of_mem hkey'
        have hearlier := horder pieces piece [] (by simp) hcomplete (earlier ++ key :: front) back
          (by simp [hkeys]) key (by simp)
        exact absurd hearlier hbefore
    · rw [arrived_append_of_ne hpiece, hnil]

/-- **The order is kept.** Values that arrive in order are forwarded in order. -/
theorem forwarded_eq_of_inOrder {keys : List κ} (hnodup : keys.Nodup)
    (hkeys : ∀ key, value key ≠ [] → key ∈ keys) (h : Splits value pieces)
    (horder : InOrder value keys pieces) {seen : κ → List α} {forwarded : List (κ × List α)}
    (hrun : receiveAll (fun _ => []) pieces = some (seen, forwarded)) :
    forwarded.flatMap Prod.snd = keys.flatMap (arrived value pieces) := by
  induction pieces using List.reverseRecOn generalizing seen forwarded with
  | nil =>
    obtain ⟨-, rfl⟩ := Prod.mk.inj (Option.some.inj hrun)
    rw [arrived_nil]
    simp
  | append_singleton pieces piece ih =>
    obtain ⟨front, hfront, -⟩ := receiveAll_of_splits h.of_append
    have hrun' : receiveAll (fun _ => []) (pieces ++ [piece]) =
        some (arrived value (pieces ++ [piece]),
          front ++ [(piece.key, gain value pieces piece)]) := by
      rw [receiveAll_append, hfront]
      simp [receiveAll, receive_arrived h]
    obtain ⟨-, rfl⟩ := Prod.mk.inj (Option.some.inj (hrun.symm.trans hrun'))
    rw [List.flatMap_append, ih h.of_append horder.of_append hfront]
    by_cases hcomplete : arrived value pieces piece.key = value piece.key
    · have hsame : arrived value (pieces ++ [piece]) = arrived value pieces := by
        rw [arrived_append h, gain_eq_nil h hcomplete, List.append_nil, Function.update_eq_self]
      rw [hsame]
      simp [gain_eq_nil h hcomplete]
    · -- the key is one of the list, and nothing has arrived under the later keys
      have hmem : piece.key ∈ keys := hkeys _ fun hnil => hcomplete (by
        have := arrived_isPrefix h.of_append piece.key
        rw [hnil] at this ⊢
        exact List.prefix_nil.mp this)
      obtain ⟨earlier, later, rfl⟩ := List.append_of_mem hmem
      have hlater := arrived_eq_nil_of_later hnodup h.of_append horder.of_append earlier piece.key
        later rfl hcomplete
      have hnil : later.flatMap (arrived value pieces) = [] :=
        List.flatMap_eq_nil_iff.mpr hlater
      have hnot : ∀ key ∈ earlier ++ later, piece.key ≠ key := by
        rintro key hkey rfl
        rw [List.nodup_append] at hnodup
        rcases List.mem_append.mp hkey with hkey | hkey
        · exact hnodup.2.2 _ hkey _ List.mem_cons_self rfl
        · exact (List.nodup_cons.mp hnodup.2.1).1 hkey
      have hearlier : earlier.flatMap (arrived value (pieces ++ [piece])) =
          earlier.flatMap (arrived value pieces) :=
        List.flatMap_congr fun key hkey => arrived_append_of_ne (hnot key (by simp [hkey]))
      have hlater' : later.flatMap (arrived value (pieces ++ [piece])) = [] := by
        rw [← hnil]
        exact List.flatMap_congr fun key hkey => arrived_append_of_ne (hnot key (by simp [hkey]))
      simp only [List.flatMap_append, List.flatMap_cons, List.flatMap_nil, List.append_nil, hearlier,
        hlater', hnil, arrived_append_self h, List.append_assoc]

/-! ### All values at the end -/

/-- All values, whole and in order. -/
def wholes (value : κ → List α) (keys : List κ) : List (Piece κ α) :=
  keys.map fun key => .whole key (value key)

omit [DecidableEq α] in
theorem Splits.append_wholes (h : Splits value pieces) (keys : List κ) :
    Splits value (pieces ++ wholes value keys) where
  whole key v hv := by
    rcases List.mem_append.mp hv with hv | hv
    · exact h.whole key v hv
    · obtain ⟨key', -, heq⟩ := List.mem_map.mp hv
      obtain ⟨rfl, rfl⟩ := Piece.whole.inj heq
      rfl
  parts key := by
    have hnil : Reassembly.parts key (wholes value keys) = [] := by
      rw [Reassembly.parts, wholes, List.flatMap_map]
      exact List.flatMap_eq_nil_iff.mpr fun _ _ => rfl
    rw [parts_append, hnil, List.append_nil]
    exact h.parts key
  before pre key part post hpieces := by
    rcases List.append_eq_append_iff.mp hpieces with ⟨front, -, hwholes⟩ | ⟨front, hpre, hpost⟩
    · have hmem : Piece.more key part ∈ wholes value keys := hwholes ▸ List.mem_append_right _
        List.mem_cons_self
      obtain ⟨key', -, heq⟩ := List.mem_map.mp hmem
      exact absurd heq (by simp)
    · cases front with
      | nil =>
        have hmem : Piece.more key part ∈ wholes value keys := by
          rw [List.nil_append] at hpost
          exact hpost ▸ List.mem_cons_self
        obtain ⟨key', -, heq⟩ := List.mem_map.mp hmem
        exact absurd heq (by simp)
      | cons piece front =>
        obtain ⟨rfl, -⟩ := List.cons.inj hpost
        exact h.before pre key part front hpre

omit [DecidableEq α] in
/-- Then every value is complete. -/
theorem arrived_append_wholes {keys : List κ} (hkey : key ∈ keys) :
    arrived value (pieces ++ wholes value keys) key = value key := by
  refine arrived_of_closed (closed_append.mpr (Or.inr ?_))
  rw [Closed, wholes, List.any_map, List.any_eq_true]
  exact ⟨key, hkey, by simp⟩

omit [DecidableEq α] in
/-- And the order is kept. -/
theorem InOrder.append_wholes {keys : List κ} (hnodup : keys.Nodup) (h : InOrder value keys pieces) :
    InOrder value keys (pieces ++ wholes value keys) := by
  -- a whole value comes after the whole values of the earlier keys
  have hlast : ∀ front piece post, wholes value keys = front ++ piece :: post →
      ∀ earlier later, keys = earlier ++ piece.key :: later → ∀ key ∈ earlier,
        arrived value (pieces ++ front) key = value key := by
    intro front piece post hwholes earlier later hkeys key hkey
    obtain ⟨keys₁, rest, hsplit, rfl, hrest⟩ := List.map_eq_append_iff.mp hwholes
    obtain ⟨k, keys₂, rfl, rfl, -⟩ := List.map_eq_cons_iff.mp hrest
    have hnodup' := hkeys ▸ hnodup
    have hearlier : k ∉ earlier := fun hmem =>
      (List.nodup_append.mp hnodup').2.2 k hmem k List.mem_cons_self rfl
    have hlater : k ∉ later := (List.nodup_cons.mp (List.nodup_append.mp hnodup').2.1).1
    obtain ⟨rfl, -⟩ := (List.append_cons_inj_of_notMem hearlier hlater).mp (hkeys.symm.trans hsplit)
    exact arrived_append_wholes hkey
  intro pre piece post hpieces hnot
  rcases List.append_eq_append_iff.mp hpieces with ⟨front, rfl, hwholes⟩ | ⟨front, hpre, hpost⟩
  · exact hlast front piece post hwholes
  · cases front with
    | nil =>
      have hall := hlast [] piece post (by simpa using hpost.symm)
      rw [List.append_nil] at hpre
      rw [List.append_nil, hpre] at hall
      exact hall
    | cons piece' front =>
      obtain ⟨rfl, -⟩ := List.cons.inj hpost
      exact h pre piece front hpre hnot

end Arrived

end Reassembly

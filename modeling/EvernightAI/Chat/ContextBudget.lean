import EvernightAI.Chat.ContextStrategy
import Mathlib.Data.List.Dedup

/-!
# Window and budget: a limit kept, or a degradation reported

`preserveSystemPrefix` counts messages and `withinBudget` counts tokens, but both loop over the
groups from the newest and take what still fits. One weight stands for both counts here.

* `Selection.Offered` is the invariant of the loop: what the selection weighs, which reason it has
  given, and that a group left out did not fit beside what was selected when its turn came.
* `LimitOrDegraded` is the promise the two strategies share, and
  `trimming_limit_or_degraded` says that both keep it.
-/

namespace EvernightAI

/-! ### The weight of a selection -/

/-- The sum of the weights of the messages. -/
def weigh (weight : Message → Int) (messages : List Message) : Int :=
  (messages.map weight).sum

section Weigh

variable {weight : Message → Int}

@[simp] theorem weigh_nil : weigh weight [] = 0 := rfl

@[simp] theorem weigh_append (messages messages' : List Message) :
    weigh weight (messages ++ messages') = weigh weight messages + weigh weight messages' := by
  simp [weigh]

theorem weigh_one (messages : List Message) : weigh (fun _ => 1) messages = messages.length := by
  induction messages with
  | nil => rfl
  | cons m rest ih =>
    have hcons : weigh (fun _ => 1) (m :: rest) = 1 + weigh (fun _ => 1) rest := by simp [weigh]
    rw [hcons, ih, List.length_cons]
    omega

theorem weigh_nonneg (positive : ∀ m, 0 < weight m) (messages : List Message) :
    0 ≤ weigh weight messages := by
  induction messages with
  | nil => exact Int.le_refl 0
  | cons m rest ih =>
    have hcons : weigh weight (m :: rest) = weight m + weigh weight rest := by simp [weigh]
    have hm := positive m
    omega

/-- What the groups at the indexes weigh. -/
def weighSelected (weight : Message → Int) (groups : List (List Message)) (indexes : List Nat) :
    Int :=
  weigh weight (selectGroups groups indexes).flatten

theorem weighSelected_nil (groups : List (List Message)) :
    weighSelected weight groups [] = 0 := by
  simp [weighSelected, selectGroups]

/-- A further index adds the weight of its group. -/
theorem weighSelected_cons {groups : List (List Message)} {indexes : List Nat}
    {group : List Message × Nat} (hgroup : group ∈ groups.zipIdx) (hnew : group.2 ∉ indexes) :
    weighSelected weight groups (group.2 :: indexes) =
      weighSelected weight groups indexes + weigh weight group.1 := by
  -- by the groups with their indexes, of which no two are equal
  have key : ∀ indexed : List (List Message × Nat), (indexed.map (·.2)).Nodup →
      group ∈ indexed →
      weigh weight ((indexed.filter fun g => (group.2 :: indexes).contains g.2).map (·.1)).flatten =
        weigh weight ((indexed.filter fun g => indexes.contains g.2).map (·.1)).flatten +
          weigh weight group.1 := by
    intro indexed hnodup hmem
    induction indexed with
    | nil => simp at hmem
    | cons g rest ih =>
      rw [List.map_cons, List.nodup_cons] at hnodup
      by_cases hg : g = group
      · subst hg
        have hrest : (rest.filter fun g' => (g.2 :: indexes).contains g'.2) =
            rest.filter fun g' => indexes.contains g'.2 := by
          refine List.filter_congr fun g' hg' => ?_
          have hne : g'.2 ≠ g.2 := fun h =>
            hnodup.1 (h ▸ List.mem_map_of_mem (f := fun g => g.2) hg')
          rw [Bool.eq_iff_iff]
          simp [hne]
        have hself : (g.2 :: indexes).contains g.2 = true := by simp
        have hnot : ¬ indexes.contains g.2 = true := by simpa using hnew
        rw [List.filter_cons, if_pos hself, List.filter_cons, if_neg hnot, hrest, List.map_cons,
          List.flatten_cons, weigh_append]
        omega
      · have hmem' : group ∈ rest := (List.mem_cons.mp hmem).resolve_left (Ne.symm hg)
        have hne : g.2 ≠ group.2 := fun h =>
          hnodup.1 (h ▸ List.mem_map_of_mem (f := fun g => g.2) hmem')
        have hrest := ih hnodup.2 hmem'
        by_cases hin : g.2 ∈ indexes
        · have hold : indexes.contains g.2 = true := by simpa using hin
          have hboth : (group.2 :: indexes).contains g.2 = true := by simp [hin]
          rw [List.filter_cons, if_pos hboth, List.filter_cons, if_pos hold, List.map_cons,
            List.map_cons, List.flatten_cons, List.flatten_cons, weigh_append, weigh_append, hrest]
          omega
        · have hold : ¬ indexes.contains g.2 = true := by simpa using hin
          have hboth : ¬ (group.2 :: indexes).contains g.2 = true := by simp [hin, hne]
          rw [List.filter_cons, if_neg hboth, List.filter_cons, if_neg hold, hrest]
  refine key groups.zipIdx ?_ hgroup
  rw [List.zipIdx_map_snd]
  exact List.nodup_range'

end Weigh

/-! ### The loop -/

/-- The selected indexes that are protected or newer than the index. -/
def protectedOrNewer (kept indexes : List Nat) (index : Nat) : List Nat :=
  indexes.filter fun i => kept.contains i || decide (index < i)

/-- After the groups `done` have had their turn. `base` is what the system prefix and the
protected groups weigh, `given` the reasons listed before the loop. -/
structure Selection.Offered (weight : Message → Int) (groups : List (List Message))
    (keptIndexes : List Nat) (front limit : Int) (given : List String) (newestExceeds : String)
    (done : List (List Message × Nat)) (s : Selection) : Prop where
  kept : keptIndexes ⊆ s.indexes
  turn : ∀ i ∈ s.indexes, i ∈ keptIndexes ∨ ∃ g ∈ done, g.2 = i
  nonneg : 0 ≤ s.used
  accounted : weighSelected weight groups s.indexes =
    weighSelected weight groups keptIndexes + s.used
  fits : s.reasons = given ∧ (s.indexes = keptIndexes ∨
      front + weighSelected weight groups s.indexes ≤ limit) ∨
    s.reasons = given ++ [newestExceeds] ∧ keptIndexes = [] ∧ s.indexes ≠ [] ∧
      limit < front + weighSelected weight groups s.indexes
  leftOut : ∀ g ∈ done, g.2 ∉ s.indexes →
    limit < front + weighSelected weight groups (protectedOrNewer keptIndexes s.indexes g.2) +
      weigh weight g.1

namespace Selection.Offered

variable {weight : Message → Int} {groups : List (List Message)} {keptIndexes : List Nat}
  {front limit : Int} {given : List String} {newestExceeds : String} {fits : Int → Bool}
  {cost : List Message → Int} {done rest : List (List Message × Nat)}
  {group : List Message × Nat} {s : Selection}

theorem start : Selection.Offered weight groups keptIndexes front limit given newestExceeds []
    { indexes := keptIndexes, reasons := given } where
  kept := List.Subset.refl _
  turn := fun i hi => Or.inl hi
  nonneg := Int.le_refl 0
  accounted := by simp
  fits := Or.inl ⟨rfl, Or.inl rfl⟩
  leftOut := by simp

/-- Of the groups that have had their turn, each is newer than the next one. -/
theorem lt_of_mem_done (hdone : done ++ group :: rest = groups.zipIdx.reverse)
    {g : List Message × Nat} (hg : g ∈ done) : group.2 < g.2 := by
  have hdecreasing : (groups.zipIdx.reverse).Pairwise fun a b => b.2 < a.2 := by
    rw [List.pairwise_reverse, ← List.pairwise_map (f := fun a : List Message × Nat => a.2)
      (R := fun i j => i < j), List.zipIdx_map_snd]
    exact List.pairwise_lt_range'
  rw [← hdone, List.pairwise_append] at hdecreasing
  exact hdecreasing.2.2 g hg group (by simp)

theorem mem_zipIdx (hdone : done ++ group :: rest = groups.zipIdx.reverse) :
    group ∈ groups.zipIdx := by
  rw [← List.mem_reverse, ← hdone]
  simp

/-- An index taken in its turn is neither protected nor newer than an earlier one. -/
theorem protectedOrNewer_cons {indexes : List Nat} {index : Nat} (hnew : index ∉ keptIndexes)
    {i : Nat} (hi : index < i) :
    protectedOrNewer keptIndexes (index :: indexes) i = protectedOrNewer keptIndexes indexes i := by
  have hnot : ¬ (keptIndexes.contains index || decide (i < index)) = true := by
    have hle : ¬ i < index := by omega
    simp [hnew, hle]
  rw [protectedOrNewer, List.filter_cons, if_neg hnot, protectedOrNewer]

/-- A group left out changes nothing but what has had its turn. -/
theorem skip
    (h : Selection.Offered weight groups keptIndexes front limit given newestExceeds done s)
    (hleft : group.2 ∉ s.indexes → limit < front +
      weighSelected weight groups (protectedOrNewer keptIndexes s.indexes group.2) +
        weigh weight group.1) :
    Selection.Offered weight groups keptIndexes front limit given newestExceeds
      (done ++ [group]) s where
  kept := h.kept
  turn := by
    intro i hi
    obtain hkept | ⟨g, hg, heq⟩ := h.turn i hi
    · exact Or.inl hkept
    · exact Or.inr ⟨g, List.mem_append_left _ hg, heq⟩
  nonneg := h.nonneg
  accounted := h.accounted
  fits := h.fits
  leftOut := by
    intro g hg hmissing
    obtain hg | hg := List.mem_append.mp hg
    · exact h.leftOut g hg hmissing
    · obtain rfl : g = group := by simpa using hg
      exact hleft hmissing

/-- A group taken weighs what the loop adds to `used`. -/
theorem take
    (h : Selection.Offered weight groups keptIndexes front limit given newestExceeds done s)
    (positive : ∀ m, 0 < weight m) (hdone : done ++ group :: rest = groups.zipIdx.reverse)
    (hnew : group.2 ∉ s.indexes)
    {reasons : List String}
    (hfits : reasons = given ∧
        front + (weighSelected weight groups s.indexes + weigh weight group.1) ≤ limit ∨
      reasons = given ++ [newestExceeds] ∧ keptIndexes = [] ∧
        limit < front + (weighSelected weight groups s.indexes + weigh weight group.1)) :
    Selection.Offered weight groups keptIndexes front limit given newestExceeds (done ++ [group])
      { indexes := group.2 :: s.indexes, used := s.used + weigh weight group.1, reasons } := by
  have hweight := @weighSelected_cons weight groups s.indexes group (mem_zipIdx hdone) hnew
  have hgroup := weigh_nonneg positive group.1
  have hnonneg := h.nonneg
  have hnotKept : group.2 ∉ keptIndexes := fun hmem => hnew (h.kept hmem)
  refine ⟨fun i hi => List.mem_cons_of_mem _ (h.kept hi), ?_, by dsimp only; omega, ?_, ?_, ?_⟩
  · intro i hi
    obtain rfl | hi := List.mem_cons.mp hi
    · exact Or.inr ⟨group, by simp, rfl⟩
    · obtain hkept | ⟨g, hg, heq⟩ := h.turn i hi
      · exact Or.inl hkept
      · exact Or.inr ⟨g, List.mem_append_left _ hg, heq⟩
  · have haccounted := h.accounted
    dsimp only
    omega
  · dsimp only
    rw [hweight]
    obtain ⟨hreasons, hle⟩ | ⟨hreasons, hkept, hlt⟩ := hfits
    · exact Or.inl ⟨hreasons, Or.inr hle⟩
    · exact Or.inr ⟨hreasons, hkept, by simp, hlt⟩
  · intro g hg hmissing
    obtain hg | hg := List.mem_append.mp hg
    · dsimp only
      rw [protectedOrNewer_cons hnotKept (lt_of_mem_done hdone hg)]
      exact h.leftOut g hg fun hmem => hmissing (List.mem_cons_of_mem _ hmem)
    · obtain rfl : g = group := by simpa using hg
      exact absurd (List.mem_cons_self) hmissing

/-- Before an older group has its turn, all that is selected is protected or newer. -/
theorem protectedOrNewer_eq
    (h : Selection.Offered weight groups keptIndexes front limit given newestExceeds done s)
    (hdone : done ++ group :: rest = groups.zipIdx.reverse) :
    protectedOrNewer keptIndexes s.indexes group.2 = s.indexes := by
  refine List.filter_eq_self.mpr fun i hi => ?_
  obtain hkept | ⟨g, hg, rfl⟩ := h.turn i hi
  · simp [hkept]
  · simp [lt_of_mem_done hdone hg]

/-- One turn of the loop. -/
theorem offer
    (h : Selection.Offered weight groups keptIndexes front limit given newestExceeds done s)
    (positive : ∀ m, 0 < weight m) (hcost : ∀ messages, cost messages = weigh weight messages)
    (hfits : ∀ used, 0 ≤ used →
      (fits used = true ↔ front + weighSelected weight groups keptIndexes + used ≤ limit))
    (hdone : done ++ group :: rest = groups.zipIdx.reverse) :
    Selection.Offered weight groups keptIndexes front limit given newestExceeds (done ++ [group])
      (Selection.offer groups.length fits cost newestExceeds s group) := by
  have hgroup := weigh_nonneg positive group.1
  have haccounted := h.accounted
  have hnonneg := h.nonneg
  have hfit := hfits (s.used + weigh weight group.1) (by omega)
  rw [Selection.offer, hcost]
  split_ifs with hmem h₁ h₂
  · exact h.skip fun hmissing => absurd (by simpa using hmem) hmissing
  · have hle := hfit.mp h₁
    refine h.take positive hdone (by simpa using hmem) (Or.inl ⟨?_, by omega⟩)
    -- beside a newest group that exceeds the limit nothing fits
    obtain ⟨hreasons, -⟩ | ⟨-, -, -, hexceeds⟩ := h.fits
    · exact hreasons
    · omega
  · obtain ⟨⟨hempty, hzero⟩, hnewest⟩ : (s.indexes = [] ∧ s.used = 0) ∧
        group.2 + 1 = groups.length := by simpa using h₂
    have hkept : keptIndexes = [] := List.subset_nil.mp (hempty ▸ h.kept)
    have hgiven : s.reasons = given := by
      obtain ⟨hreasons, -⟩ | ⟨-, -, hne, -⟩ := h.fits
      · exact hreasons
      · exact absurd hempty hne
    have hexceeds : ¬ front + weighSelected weight groups keptIndexes +
        (s.used + weigh weight group.1) ≤ limit := fun hle => h₁ (hfit.mpr hle)
    have htaken := h.take positive hdone (by simpa using hmem)
      (Or.inr ⟨congrArg (· ++ [newestExceeds]) hgiven, hkept, by omega⟩)
    rwa [hempty] at htaken
  · refine h.skip fun _ => ?_
    have hexceeds : ¬ front + weighSelected weight groups keptIndexes +
        (s.used + weigh weight group.1) ≤ limit := fun hle => h₁ (hfit.mpr hle)
    rw [h.protectedOrNewer_eq hdone]
    omega

/-- All turns of the loop. -/
theorem offerAll (positive : ∀ m, 0 < weight m)
    (hcost : ∀ messages, cost messages = weigh weight messages)
    (hfits : ∀ used, 0 ≤ used →
      (fits used = true ↔ front + weighSelected weight groups keptIndexes + used ≤ limit)) :
    Selection.Offered weight groups keptIndexes front limit given newestExceeds
      groups.zipIdx.reverse
      (Selection.offerAll groups fits cost newestExceeds
        { indexes := keptIndexes, reasons := given }) := by
  have run : ∀ (rest done : List (List Message × Nat)) (s : Selection),
      done ++ rest = groups.zipIdx.reverse →
      Selection.Offered weight groups keptIndexes front limit given newestExceeds done s →
      Selection.Offered weight groups keptIndexes front limit given newestExceeds
        groups.zipIdx.reverse
        (rest.foldl (Selection.offer groups.length fits cost newestExceeds) s) := by
    intro rest
    induction rest with
    | nil =>
      intro done s hdone h
      rwa [← hdone, List.append_nil]
    | cons group rest ih =>
      intro done s hdone h
      exact ih (done ++ [group]) _ (by simpa using hdone)
        (h.offer positive hcost hfits hdone)
  exact run _ [] _ rfl start

end Selection.Offered

/-! ### What both strategies promise -/

/-- A reason says that the limit could not be kept. -/
def Exceeds (limitName : String) (reasons : List String) : Prop :=
  ∃ reason ∈ reasons, ∃ subject,
    reason = subject ++ "exceeds_" ++ limitName ∨ reason = subject ++ "exceed_" ++ limitName

/-- **A limit kept, or a degradation reported.** `measure` is what the limit bounds, and `indexes`
names the groups behind the system prefix that are selected. -/
structure LimitOrDegraded (measure : List Message → Int) (limit : Nat) (limitName : String)
    (protectedIds : List Nat) (messages : List Message) (indexes : List Nat)
    (result : List Message × Degradation) : Prop where
  selected : result.1 = (systemPrefix messages).1 ++
    (selectGroups (messageGroups 0 (systemPrefix messages).2) indexes).flatten
  sublist : result.1.Sublist messages
  limitKept : measure result.1 ≤ limit ∨ Exceeds limitName result.2.degradationReasons
  dropped : result.1.length + result.2.droppedMessageCount = messages.length
  degraded : result.2.degraded = false ↔ result.1 = messages ∧ measure result.1 ≤ limit
  protectedKept :
    protectedIndexes (messageGroups 0 (systemPrefix messages).2) protectedIds ⊆ indexes
  leftOut : ∀ g ∈ (messageGroups 0 (systemPrefix messages).2).zipIdx, g.2 ∉ indexes →
    limit < measure ((systemPrefix messages).1 ++
      (selectGroups (messageGroups 0 (systemPrefix messages).2) (protectedOrNewer
        (protectedIndexes (messageGroups 0 (systemPrefix messages).2) protectedIds)
        indexes g.2)).flatten ++ g.1)

theorem degraded_degradationMetadata (reasons : List String) (dropped : Nat) :
    (degradationMetadata reasons dropped).degraded = false ↔ reasons = [] := by
  simp [degradationMetadata]

theorem mem_degradationReasons {reasons : List String} {dropped : Nat} {reason : String} :
    reason ∈ (degradationMetadata reasons dropped).degradationReasons ↔ reason ∈ reasons := by
  simp only [degradationMetadata, List.mem_reverse, List.mem_dedup]

theorem Exceeds.mono {limitName : String} {reasons reasons' : List String}
    (h : Exceeds limitName reasons) (hsub : reasons ⊆ reasons') : Exceeds limitName reasons' := by
  obtain ⟨reason, hmem, hreason⟩ := h
  exact ⟨reason, hsub hmem, hreason⟩

section Given

variable {frontExceeds keptExceeds : Prop} [Decidable frontExceeds] [Decidable keptExceeds]
  {keptIndexes : List Nat} {limitName prefixExceeds protectedExceed : String}

/-- The reasons given before the loop: none just when prefix and protected groups keep the
limit. -/
theorem given_eq_nil_iff {front kept limit : Int} (hfront : frontExceeds ↔ limit < front)
    (hkept : keptExceeds ↔ limit < front + kept) (hnonneg : 0 ≤ kept)
    (hnone : keptIndexes = [] → kept = 0) :
    (if frontExceeds then [prefixExceeds] else []) ++
      (if keptExceeds && !keptIndexes.isEmpty then [protectedExceed] else []) = [] ↔
        front + kept ≤ limit := by
  rw [List.append_eq_nil_iff]
  by_cases hcut : frontExceeds
  · have hlt := hfront.mp hcut
    simp only [if_pos hcut, List.cons_ne_nil, false_and, false_iff]
    omega
  · have hle : ¬ limit < front := fun hlt => hcut (hfront.mpr hlt)
    by_cases hempty : keptIndexes = []
    · have hzero := hnone hempty
      simp only [if_neg hcut, hempty, List.isEmpty_nil, Bool.not_true, Bool.and_false,
        Bool.false_eq_true, if_false, true_and, true_iff]
      omega
    · have hnotEmpty : keptIndexes.isEmpty = false := by simpa using hempty
      simp only [if_neg hcut, hnotEmpty, Bool.not_false, Bool.and_true, decide_eq_true_eq,
        ite_eq_right_iff, List.cons_ne_nil, imp_false, true_and, hkept]
      omega

theorem exceeds_given (hcut : Exceeds limitName [prefixExceeds])
    (hprotected : Exceeds limitName [protectedExceed])
    (hgiven : (if frontExceeds then [prefixExceeds] else []) ++
      (if keptExceeds && !keptIndexes.isEmpty then [protectedExceed] else []) ≠ []) :
    Exceeds limitName ((if frontExceeds then [prefixExceeds] else []) ++
      (if keptExceeds && !keptIndexes.isEmpty then [protectedExceed] else [])) := by
  by_cases h₁ : frontExceeds
  · exact hcut.mono (by simp [h₁])
  · by_cases h₂ : (keptExceeds && !keptIndexes.isEmpty) = true
    · exact hprotected.mono (by rw [if_pos h₂]; exact List.subset_append_right _ _)
    · exact absurd (by rw [if_neg h₁, if_neg h₂, List.append_nil]) hgiven

end Given

section Assemble

variable {weight : Message → Int} {messages : List Message} {protectedIds : List Nat}
  {limit : Nat} {limitName newestExceeds : String} {given : List String} {s : Selection}

/-- The end of either strategy, behind its loop. -/
theorem Selection.Offered.limitOrDegraded
    (h : Selection.Offered weight (messageGroups 0 (systemPrefix messages).2)
      (protectedIndexes (messageGroups 0 (systemPrefix messages).2) protectedIds)
      (weigh weight (systemPrefix messages).1) limit given newestExceeds
      (messageGroups 0 (systemPrefix messages).2).zipIdx.reverse s)
    (hgiven : given = [] ↔ weigh weight (systemPrefix messages).1 +
      weighSelected weight (messageGroups 0 (systemPrefix messages).2)
        (protectedIndexes (messageGroups 0 (systemPrefix messages).2) protectedIds) ≤ limit)
    (hexceeds : given ≠ [] → Exceeds limitName given) (hnewest : Exceeds limitName [newestExceeds])
    (droppedReason : String) :
    LimitOrDegraded (weigh weight) limit limitName protectedIds messages s.indexes
      ((systemPrefix messages).1 ++
          (selectGroups (messageGroups 0 (systemPrefix messages).2) s.indexes).flatten,
        degradationMetadata (s.reasons ++
          if messages.length - ((systemPrefix messages).1 ++
            (selectGroups (messageGroups 0 (systemPrefix messages).2) s.indexes).flatten).length ≠ 0
          then [droppedReason] else [])
          (messages.length - ((systemPrefix messages).1 ++
            (selectGroups (messageGroups 0 (systemPrefix messages).2)
              s.indexes).flatten).length)) := by
  have hsublist : ((systemPrefix messages).1 ++
      (selectGroups (messageGroups 0 (systemPrefix messages).2) s.indexes).flatten).Sublist
        messages :=
    KeepsGroups.sublist ⟨s.indexes, h.kept, rfl⟩
  have hlength := hsublist.length_le
  have hselected := @weigh_append weight (systemPrefix messages).1
    (selectGroups (messageGroups 0 (systemPrefix messages).2) s.indexes).flatten
  have haccounted := h.accounted
  have hnonneg := h.nonneg
  rw [← weighSelected] at hselected
  generalize hresult : (systemPrefix messages).1 ++
    (selectGroups (messageGroups 0 (systemPrefix messages).2) s.indexes).flatten = result at *
  -- the loop gives no reason just when prefix and selection keep the limit
  have hreasons : s.reasons = [] ↔ weigh weight result ≤ limit := by
    obtain ⟨heq, hindexes⟩ | ⟨heq, -, -, hlt⟩ := h.fits
    · rw [heq, hgiven]
      constructor
      · intro hle
        obtain hsame | hkept := hindexes
        · rw [hsame] at hselected
          omega
        · omega
      · intro hle
        omega
    · rw [heq]
      simp only [List.append_eq_nil_iff, List.cons_ne_nil, and_false, false_iff]
      omega
  have hlimit : weigh weight result ≤ limit ∨ Exceeds limitName s.reasons := by
    by_cases hnone : s.reasons = []
    · exact Or.inl (hreasons.mp hnone)
    · obtain ⟨heq, -⟩ | ⟨heq, -⟩ := h.fits
      · exact Or.inr (heq ▸ hexceeds (heq ▸ hnone))
      · exact Or.inr (heq ▸ hnewest.mono (List.subset_append_right _ _))
  refine ⟨hresult.symm, hsublist, ?_, ?_, ?_, h.kept, ?_⟩
  · refine hlimit.imp_right fun hexceeds => hexceeds.mono fun reason hmem => ?_
    exact mem_degradationReasons.mpr (List.mem_append_left _ hmem)
  · show result.length + (messages.length - result.length) = messages.length
    omega
  · rw [degraded_degradationMetadata, List.append_eq_nil_iff, hreasons, and_comm]
    refine and_congr_left fun _ => ?_
    constructor
    · intro hnone
      have hdropped : ¬ messages.length - result.length ≠ 0 := fun hne => by simp [hne] at hnone
      exact hsublist.eq_of_length (by omega)
    · intro hall
      have hsame : result = messages := hall
      simp [hsame]
  · intro g hg hmissing
    have hleft := h.leftOut g (List.mem_reverse.mpr hg) hmissing
    rwa [weighSelected, ← weigh_append, ← weigh_append] at hleft

end Assemble

section Strategies

/-- A window counts messages. -/
theorem limitOrDegraded_preserveSystemPrefix (messages : List Message) (maxItems : Nat)
    (protectedIds : List Nat) :
    ∃ indexes, LimitOrDegraded (fun selected => selected.length) maxItems "max_messages"
      protectedIds messages indexes (preserveSystemPrefix messages maxItems protectedIds) := by
  have hmeasure : (fun selected : List Message => (selected.length : Int)) = weigh fun _ => 1 := by
    funext selected
    rw [weigh_one]
  have positive : ∀ m : Message, 0 < (fun _ : Message => (1 : Int)) m := fun _ => Int.zero_lt_one
  rw [hmeasure]
  refine ⟨_, Selection.Offered.limitOrDegraded (Selection.Offered.offerAll positive ?_ ?_) ?_ ?_ ?_
    "max_messages_dropped_messages"⟩
  · exact fun group => (weigh_one group).symm
  · intro used hused
    rw [weighSelected, weigh_one, weigh_one]
    simp only [Bool.and_eq_true, decide_eq_true_eq]
    omega
  · rw [weighSelected, weigh_one, weigh_one]
    refine given_eq_nil_iff (by omega) (by omega) (by omega) fun hnone => ?_
    simp [hnone, selectGroups]
  · exact exceeds_given ⟨_, List.mem_singleton_self _, "system_prefix_", Or.inl (by decide)⟩
      ⟨_, List.mem_singleton_self _, "protected_messages_", Or.inr (by decide)⟩
  · exact ⟨_, List.mem_singleton_self _, "newest_message_group_", Or.inl (by decide)⟩

/-- A budget sums the estimates. -/
theorem limitOrDegraded_withinBudget {estimate : Message → Int} (positive : ∀ m, 0 < estimate m)
    (messages : List Message) (maxTokens : Nat) (protectedIds : List Nat) :
    ∃ indexes, LimitOrDegraded (fun selected => (selected.map estimate).sum) maxTokens
      "token_budget" (protectedIds ++ (systemPrefix messages).1.map (·.object)) messages indexes
      (withinBudget estimate maxTokens messages protectedIds) := by
  refine ⟨_, Selection.Offered.limitOrDegraded (Selection.Offered.offerAll positive ?_ ?_) ?_ ?_ ?_
    "token_budget_dropped_messages"⟩
  · exact fun group => rfl
  · intro used hused
    simp only [Bool.not_eq_true', decide_eq_false_iff_not, gt_iff_lt]
    exact Int.not_lt
  · refine given_eq_nil_iff Iff.rfl Iff.rfl (weigh_nonneg positive _) fun hnone => ?_
    rw [hnone, weighSelected_nil]
  · exact exceeds_given ⟨_, List.mem_singleton_self _, "system_prefix_", Or.inl (by decide)⟩
      ⟨_, List.mem_singleton_self _, "protected_messages_", Or.inr (by decide)⟩
  · exact ⟨_, List.mem_singleton_self _, "newest_message_group_", Or.inl (by decide)⟩

/-- **Limit kept or degradation reported**, of the two functions for any messages, and of the
strategies around any inner strategy. -/
theorem trimming_limit_or_degraded {estimate : Message → Int} (positive : ∀ m, 0 < estimate m)
    (limit : Limit) :
    (∀ messages protectedIds, ∃ indexes,
      LimitOrDegraded (fun selected => selected.length) limit.value "max_messages" protectedIds
        messages indexes (preserveSystemPrefix messages limit.value protectedIds)) ∧
    (∀ messages protectedIds, ∃ indexes,
      LimitOrDegraded (fun selected => (selected.map estimate).sum) limit.value "token_budget"
        (protectedIds ++ (systemPrefix messages).1.map (·.object)) messages indexes
        (withinBudget estimate limit.value messages protectedIds)) ∧
    ∀ (strategy : ContextStrategy) (request : ComposeRequest),
      (∃ indexes degradation,
        LimitOrDegraded (fun selected => selected.length) limit.value "max_messages"
          (protectedMessageIds request.messages) (strategy.composeChatRequest request).messages
          indexes
          (((ContextStrategy.windowTrimming strategy limit).composeChatRequest request).messages,
            degradation) ∧
        ((ContextStrategy.windowTrimming strategy limit).composeChatRequest
            request).contextStrategySteps =
          (strategy.composeChatRequest request).contextStrategySteps ++
            [.windowTrimming (strategy.composeChatRequest request).messages.length
              ((ContextStrategy.windowTrimming strategy limit).composeChatRequest
                request).messages.length limit.value degradation]) ∧
      ∃ indexes degradation,
        LimitOrDegraded (fun selected => (selected.map estimate).sum) limit.value "token_budget"
          (protectedMessageIds request.messages ++
            (systemPrefix (strategy.composeChatRequest request).messages).1.map (·.object))
          (strategy.composeChatRequest request).messages indexes
          (((ContextStrategy.tokenBudget strategy limit estimate).composeChatRequest
            request).messages, degradation) ∧
        ((ContextStrategy.tokenBudget strategy limit estimate).composeChatRequest
            request).contextStrategySteps =
          (strategy.composeChatRequest request).contextStrategySteps ++
            [.tokenBudget limit.value
              (((ContextStrategy.tokenBudget strategy limit estimate).composeChatRequest
                request).messages.map estimate).sum degradation] := by
  refine ⟨fun messages protectedIds => limitOrDegraded_preserveSystemPrefix _ _ _,
    fun messages protectedIds => limitOrDegraded_withinBudget positive _ _ _,
    fun strategy request => ⟨?_, ?_⟩⟩
  · obtain ⟨indexes, h⟩ := limitOrDegraded_preserveSystemPrefix
      (strategy.composeChatRequest request).messages limit.value
      (protectedMessageIds request.messages)
    exact ⟨indexes, _, h, rfl⟩
  · obtain ⟨indexes, h⟩ := limitOrDegraded_withinBudget positive
      (strategy.composeChatRequest request).messages limit.value
      (protectedMessageIds request.messages)
    exact ⟨indexes, _, h, rfl⟩

private def spoken (object : Nat) (role : MessageRole) : Message := ⟨object, { role }⟩

/-- A budget of three tokens keeps the prefix, the protected question and the newest answer that
fits beside them. -/
theorem trimming_limit_or_degraded_question :
    (∃ indexes, LimitOrDegraded (fun selected => (selected.map fun _ => 1).sum) 3 "token_budget"
      ([1] ++ [0]) [spoken 0 .system, spoken 1 .user, spoken 2 .assistant, spoken 3 .assistant]
      indexes (withinBudget (fun _ => 1) 3
        [spoken 0 .system, spoken 1 .user, spoken 2 .assistant, spoken 3 .assistant] [1])) ∧
    withinBudget (fun _ => 1) 3
        [spoken 0 .system, spoken 1 .user, spoken 2 .assistant, spoken 3 .assistant] [1] =
      ([spoken 0 .system, spoken 1 .user, spoken 3 .assistant],
        { degraded := true, degradationReasons := ["token_budget_dropped_messages"],
          droppedMessageCount := 1 }) :=
  ⟨(trimming_limit_or_degraded (fun _ => Int.zero_lt_one) ⟨3, by decide⟩).2.1
      [spoken 0 .system, spoken 1 .user, spoken 2 .assistant, spoken 3 .assistant] [1],
    by decide⟩

end Strategies

end EvernightAI

import EvernightAI.Provider.Manager
import Mathlib.Data.List.Nodup

/-!
# Provider slots are safe

No interleaving of the manager's operations closes an instance twice, or under a call, or gives a
retired slot to a call; and an operation that raises has changed nothing.

* `ProviderManager.Safe` is the invariant: the live slots are not retired, a slot counts the calls
  that hold it, and what was closed is retired and without calls. The locks play no part in it: all
  of `_acquire_slot`, `_release_slot` and the publication of a slot lies between two `await`s.
* `ProviderManager.Advance` says once what a step of a task can do.
* `providerSlotSafety` is the result over all runs.
-/

namespace EvernightAI

/-- The slot a call at this point holds. -/
def ManagerPoint.holds : ManagerPoint → Option Nat
  | .calling slot | .streaming slot | .releasing slot | .abandoned slot => some slot
  | _ => none

@[simp] theorem holds_calling (slot : Nat) : (ManagerPoint.calling slot).holds = some slot := rfl

/-- The operation has raised, or may do so yet. -/
def ManagerPoint.mayRaise : ManagerPoint → Bool
  | .start | .building _ _ | .discarding _ | .raised => true
  | _ => false

/-- The task a step is of; a new call has none yet. -/
def ManagerLabel.task? : ManagerLabel → Option Nat
  | .call _ => none
  | .go task _ | .cancel task => some task

namespace ProviderManager

variable {m m' : ProviderManager} {task : Nat} {t : ManagerTask} {point : ManagerPoint}

/-- The calls that hold a slot: acquired and not released. -/
def holders (m : ProviderManager) (slot : Nat) : Nat :=
  m.tasks.countP fun t => t.point.holds = some slot

/-- What the local variables of a task say about the slots. -/
def PointOk (m : ProviderManager) : ManagerPoint → Prop
  | .building provider previous => ∀ slot, previous = some slot →
      ∃ s, m.slot? slot = some s ∧ s.providerId = provider.providerId
  | .calling slot | .streaming slot | .releasing slot | .abandoned slot =>
      ∃ s, m.slot? slot = some s
  | .waitIdle slot _ => ∃ s, m.slot? slot = some s ∧ s.retired = true
  | .foundIdle slot _ => ∃ s, m.slot? slot = some s ∧ s.retired = true ∧ s.activeCalls = 0
  | _ => True

/-- **The invariant.** -/
structure Safe (m : ProviderManager) : Prop where
  live : ∀ providerId slot, m.slots providerId = some slot →
    ∃ s, m.slot? slot = some s ∧ s.providerId = providerId ∧ s.retired = false
  counts : ∀ slot s, m.slot? slot = some s →
    s.activeCalls = m.holders slot ∧ (s.idle = true ↔ s.activeCalls = 0)
  points : ∀ t ∈ m.tasks, m.PointOk t.point
  started : ∀ slot s, m.slot? slot = some s → s.closeStarted = true →
    s.retired = true ∧ s.activeCalls = 0
  closes_nodup : m.closes.Nodup
  closes_built : ∀ i ∈ m.closes, i < m.built
  slot_built : ∀ slot s, m.slot? slot = some s → s.built < m.built
  distinct : ∀ slot slot' s s', m.slot? slot = some s → m.slot? slot' = some s' →
    s.built = s'.built → slot = slot'
  closes_started : ∀ slot s, m.slot? slot = some s → s.built ∈ m.closes → s.closeStarted = true

/-! ### What a step of a task can do -/

theorem slot?_updateSlot (m : ProviderManager) (slot slot' : Nat)
    (f : ProviderSlot → ProviderSlot) :
    (m.updateSlot slot f).slot? slot' =
      if slot = slot' then (m.slot? slot').map f else m.slot? slot' := by
  rw [slot?, updateSlot]
  dsimp only
  rw [List.getElem?_modify]
  split_ifs with h
  · rfl
  · simp [slot?]

/-- The heap of `m'` has the slots of `m`, at most retired or released since. -/
def HeapLe (m m' : ProviderManager) : Prop :=
  ∀ slot s, m.slot? slot = some s → ∃ s', m'.slot? slot = some s' ∧
    s'.providerId = s.providerId ∧ (s.retired = true → s'.retired = true) ∧
    (s.retired = true → s.activeCalls = 0 → s'.activeCalls = 0)

theorem HeapLe.of_heap_eq (h : m'.heap = m.heap) : HeapLe m m' := fun slot s hs =>
  ⟨s, by rwa [slot?, h], rfl, fun hr => hr, fun _ ha => ha⟩

theorem HeapLe.trans {m'' : ProviderManager} (h₁ : HeapLe m m') (h₂ : HeapLe m' m'') :
    HeapLe m m'' := by
  intro slot s hs
  obtain ⟨s', hs', hid', hret', hact'⟩ := h₁ slot s hs
  obtain ⟨s'', hs'', hid'', hret'', hact''⟩ := h₂ slot s' hs'
  exact ⟨s'', hs'', hid''.trans hid', fun hr => hret'' (hret' hr),
    fun hr ha => hact'' (hret' hr) (hact' hr ha)⟩

theorem HeapLe.pointOk (h : HeapLe m m') {point : ManagerPoint} (hp : m.PointOk point) :
    m'.PointOk point := by
  cases point with
  | building provider previous =>
    intro slot hslot
    obtain ⟨s, hs, hid⟩ := hp slot hslot
    obtain ⟨s', hs', hid', -⟩ := h slot s hs
    exact ⟨s', hs', hid'.trans hid⟩
  | waitIdle slot rest =>
    obtain ⟨s, hs, hret⟩ := hp
    obtain ⟨s', hs', -, hret', -⟩ := h slot s hs
    exact ⟨s', hs', hret' hret⟩
  | foundIdle slot rest =>
    obtain ⟨s, hs, hret, hact⟩ := hp
    obtain ⟨s', hs', -, hret', hact'⟩ := h slot s hs
    exact ⟨s', hs', hret' hret, hact' hret hact⟩
  | calling slot | streaming slot | releasing slot | abandoned slot =>
    obtain ⟨s, hs⟩ := hp
    obtain ⟨s', hs', -⟩ := h slot s hs
    exact ⟨s', hs'⟩
  | _ => trivial

/-- An update of a slot that keeps what `HeapLe` is about. -/
theorem HeapLe.updateSlot {slot : Nat} {f : ProviderSlot → ProviderSlot}
    (hf : ∀ s, m.slot? slot = some s → (f s).providerId = s.providerId ∧
      (s.retired = true → (f s).retired = true) ∧
      (s.retired = true → s.activeCalls = 0 → (f s).activeCalls = 0)) :
    HeapLe m (m.updateSlot slot f) := by
  intro slot' s hs
  rw [slot?_updateSlot]
  split_ifs with h
  · subst h
    exact ⟨f s, by rw [hs]; rfl, hf s hs⟩
  · exact ⟨s, hs, rfl, fun hr => hr, fun _ ha => ha⟩

/-- The point `_close_when_idle` comes to is one it may stand at. -/
theorem closeWhenIdle_spec (m : ProviderManager) (slots : List Nat) :
    m.PointOk (m.closeWhenIdle slots) ∧ (m.closeWhenIdle slots).holds = none ∧
      (m.closeWhenIdle slots).mayRaise = false := by
  induction slots with
  | nil => exact ⟨trivial, rfl, rfl⟩
  | cons slot rest ih =>
    rw [closeWhenIdle]
    split_ifs with h
    · obtain ⟨s, hs, hret⟩ := (Option.any_eq_true _ _).mp h
      exact ⟨⟨s, hs, hret⟩, rfl, rfl⟩
    · exact ih

theorem closeIfIdle_spec (m : ProviderManager) (slot : Nat) :
    m.PointOk (m.closeIfIdle slot) ∧ (m.closeIfIdle slot).holds = none ∧
      (m.closeIfIdle slot).mayRaise = false := by
  rw [closeIfIdle]
  split_ifs
  · exact ⟨trivial, rfl, rfl⟩
  · exact m.closeWhenIdle_spec [slot]

/-! ### Changes that keep the invariant -/

/-- A retirement moves no task and takes no slot off the map. -/
theorem retireSlot_frame (m : ProviderManager) (slot : Nat) :
    (m.retireSlot slot).slots = m.slots ∧ (m.retireSlot slot).tasks = m.tasks := by
  rw [retireSlot]
  split <;> exact ⟨rfl, rfl⟩

theorem tasks_publish (m : ProviderManager) (provider : ProviderConfig)
    (previous instance? : Option Nat) : (m.publish provider previous instance?).tasks = m.tasks := by
  have hslot : (m.publishSlot provider instance?).tasks = m.tasks := by cases instance? <;> rfl
  cases previous with
  | none => exact hslot
  | some slot => exact ((m.publishSlot provider instance?).retireSlot_frame slot).2.trans hslot

theorem tasks_finishClose (m : ProviderManager) (slot : Nat) :
    (m.finishClose slot).tasks = m.tasks := by
  rw [finishClose]
  split <;> rfl

theorem countP_modify {α : Type} (p : α → Bool) {l : List α} {i : Nat} {a : α}
    (h : l[i]? = some a) (f : α → α) :
    (l.modify i f).countP p + (if p a then 1 else 0) =
      l.countP p + if p (f a) then 1 else 0 := by
  induction l generalizing i with
  | nil => simp at h
  | cons x l ih =>
    cases i with
    | zero =>
      obtain rfl : x = a := by simpa using h
      rw [List.modify_zero_cons, List.countP_cons, List.countP_cons]
      omega
    | succ i =>
      have hi := ih (i := i) (by simpa using h)
      rw [List.modify_succ_cons, List.countP_cons, List.countP_cons]
      omega

theorem holders_goto (ht : m.tasks[task]? = some t) (point : ManagerPoint) (slot : Nat) :
    (m.goto task point).holders slot + (if t.point.holds = some slot then 1 else 0) =
      m.holders slot + if point.holds = some slot then 1 else 0 := by
  have h := countP_modify (fun t : ManagerTask => decide (t.point.holds = some slot)) ht
    ({ · with point })
  simpa [holders, goto] using h

theorem mem_tasks_goto {t' : ManagerTask} (h : t' ∈ (m.goto task point).tasks) :
    t' ∈ m.tasks ∨ t'.point = point := by
  obtain ⟨i, hi⟩ := List.mem_iff_getElem?.mp h
  rw [goto] at hi
  dsimp only at hi
  rw [List.getElem?_modify] at hi
  split_ifs at hi with heq
  · obtain ⟨t, -, rfl⟩ := Option.map_eq_some_iff.mp hi
    exact Or.inr rfl
  · exact Or.inl (List.mem_iff_getElem?.mpr ⟨i, by simpa using hi⟩)

namespace Safe

/-- What the invariant is about. -/
theorem congr (h : Safe m) (hheap : m'.heap = m.heap) (hslots : m'.slots = m.slots)
    (htasks : m'.tasks = m.tasks) (hcloses : m'.closes = m.closes) (hbuilt : m'.built = m.built) :
    Safe m' := by
  have hslot : ∀ slot, m'.slot? slot = m.slot? slot := fun slot => by rw [slot?, hheap]; rfl
  have hholders : ∀ slot, m'.holders slot = m.holders slot := fun slot => by
    rw [holders, htasks]; rfl
  refine ⟨?_, ?_, ?_, ?_, ?_, ?_, ?_, ?_, ?_⟩
  · simpa only [hslots, hslot] using h.live
  · simpa only [hslot, hholders] using h.counts
  · rw [htasks]
    exact fun t ht => (HeapLe.of_heap_eq hheap).pointOk (h.points t ht)
  · simpa only [hslot] using h.started
  · rw [hcloses]; exact h.closes_nodup
  · rw [hcloses, hbuilt]; exact h.closes_built
  · simpa only [hslot, hbuilt] using h.slot_built
  · simpa only [hslot] using h.distinct
  · simpa only [hslot, hcloses] using h.closes_started

/-- A task moves and holds what it held. -/
theorem goto (h : Safe m) (ht : m.tasks[task]? = some t) (hheld : point.holds = t.point.holds)
    (hok : m.PointOk point) : Safe (m.goto task point) := by
  have hholders : ∀ slot, (m.goto task point).holders slot = m.holders slot := fun slot => by
    have := holders_goto ht point slot
    rw [hheld] at this
    omega
  refine ⟨h.live, fun slot s hs => ?_, fun t' ht' => ?_, h.started, h.closes_nodup,
    h.closes_built, h.slot_built, h.distinct, h.closes_started⟩
  · rw [hholders]
    exact h.counts slot s hs
  · have hle : HeapLe m (m.goto task point) := .of_heap_eq rfl
    rcases mem_tasks_goto ht' with ht' | hpoint
    · exact hle.pointOk (h.points t' ht')
    · rw [hpoint]
      exact hle.pointOk hok

/-- Fewer slots are live. -/
theorem of_slots {slots : String → Option Nat} (h : Safe m)
    (hslots : ∀ providerId slot, slots providerId = some slot → m.slots providerId = some slot) :
    Safe { m with slots } :=
  ⟨fun providerId slot hslot => h.live providerId slot (hslots providerId slot hslot), h.counts,
    fun t ht => (HeapLe.of_heap_eq rfl).pointOk (h.points t ht), h.started, h.closes_nodup,
    h.closes_built, h.slot_built, h.distinct, h.closes_started⟩

/-- A slot changes in its flags. -/
theorem updateSlot (h : Safe m) {slot : Nat} {f : ProviderSlot → ProviderSlot}
    (hkeep : ∀ s, (f s).providerId = s.providerId ∧ (f s).built = s.built ∧
      (f s).activeCalls = s.activeCalls ∧ (f s).idle = s.idle)
    (hret : ∀ s, s.retired = true → (f s).retired = true)
    (hlive : ∀ s, m.slot? slot = some s → (f s).retired = true →
      s.retired = true ∨ ∀ providerId, m.slots providerId ≠ some slot)
    (hstart : ∀ s, m.slot? slot = some s → (f s).closeStarted = true →
      (f s).retired = true ∧ s.activeCalls = 0)
    (hkept : ∀ s, s.closeStarted = true → (f s).closeStarted = true) :
    Safe (m.updateSlot slot f) := by
  have hle : HeapLe m (m.updateSlot slot f) := .updateSlot fun s _ =>
    ⟨(hkeep s).1, hret s, fun _ ha => (hkeep s).2.2.1.trans ha⟩
  -- every slot afterwards is one from before, with the same counts and instance
  have hback : ∀ slot' s', (m.updateSlot slot f).slot? slot' = some s' →
      ∃ s, m.slot? slot' = some s ∧ (s' = s ∨ slot' = slot ∧ s' = f s) := by
    intro slot' s' hs'
    rw [slot?_updateSlot] at hs'
    split_ifs at hs' with heq
    · obtain ⟨s, hs, rfl⟩ := Option.map_eq_some_iff.mp hs'
      exact ⟨s, hs, Or.inr ⟨heq.symm, rfl⟩⟩
    · exact ⟨s', hs', Or.inl rfl⟩
  refine ⟨fun providerId slot' hslot => ?_, fun slot' s' hs' => ?_,
    fun t ht => hle.pointOk (h.points t ht), fun slot' s' hs' hstarted => ?_, h.closes_nodup,
    h.closes_built, fun slot' s' hs' => ?_, fun slot₁ slot₂ s₁ s₂ hs₁ hs₂ hbuilt => ?_,
    fun slot' s' hs' hmem => ?_⟩
  · obtain ⟨s, hs, hid, hfresh⟩ := h.live providerId slot' hslot
    rw [slot?_updateSlot]
    split_ifs with heq
    · subst heq
      refine ⟨f s, by rw [hs]; rfl, (hkeep s).1.trans hid, ?_⟩
      by_contra hcon
      rcases hlive s hs (by simpa using hcon) with hr | hr
      · rw [hfresh] at hr
        exact absurd hr (by simp)
      · exact hr providerId hslot
    · exact ⟨s, hs, hid, hfresh⟩
  · obtain ⟨s, hs, rfl | ⟨-, rfl⟩⟩ := hback slot' s' hs'
    · exact h.counts slot' s' hs
    · rw [(hkeep s).2.2.1, (hkeep s).2.2.2]
      exact h.counts slot' s hs
  · obtain ⟨s, hs, rfl | ⟨rfl, rfl⟩⟩ := hback slot' s' hs'
    · exact h.started slot' s' hs hstarted
    · rw [(hkeep s).2.2.1]
      exact hstart s hs hstarted
  · obtain ⟨s, hs, rfl | ⟨-, rfl⟩⟩ := hback slot' s' hs'
    · exact h.slot_built slot' s' hs
    · rw [(hkeep s).2.1]
      exact h.slot_built slot' s hs
  · have hsame : ∀ slot' s', (m.updateSlot slot f).slot? slot' = some s' →
        ∃ s, m.slot? slot' = some s ∧ s.built = s'.built := by
      intro slot' s' hs'
      obtain ⟨s, hs, rfl | ⟨-, rfl⟩⟩ := hback slot' s' hs'
      · exact ⟨s', hs, rfl⟩
      · exact ⟨s, hs, (hkeep s).2.1.symm⟩
    obtain ⟨a₁, ha₁, hb₁⟩ := hsame slot₁ s₁ hs₁
    obtain ⟨a₂, ha₂, hb₂⟩ := hsame slot₂ s₂ hs₂
    exact h.distinct slot₁ slot₂ a₁ a₂ ha₁ ha₂ (by rw [hb₁, hb₂, hbuilt])
  · obtain ⟨s, hs, rfl | ⟨-, rfl⟩⟩ := hback slot' s' hs'
    · exact h.closes_started slot' s' hs hmem
    · rw [(hkeep s).2.1] at hmem
      exact hkept s (h.closes_started slot' s hs hmem)

/-- A slot that is not live any more is retired. -/
theorem retireSlot (h : Safe m) {slot : Nat}
    (hlive : ∀ providerId, m.slots providerId ≠ some slot) : Safe (m.retireSlot slot) := by
  rw [ProviderManager.retireSlot]
  split
  · exact h
  · have hupdated : Safe (m.updateSlot slot ({ · with retired := true })) :=
      h.updateSlot (fun s => ⟨rfl, rfl, rfl, rfl⟩) (fun s _ => rfl) (fun s _ _ => Or.inr hlive)
        (fun s hs hstarted => ⟨rfl, (h.started slot s hs hstarted).2⟩) fun s hstarted => hstarted
    exact hupdated.congr rfl rfl rfl rfl rfl

/-- The end of a close. -/
theorem finishClose (h : Safe m) (slot : Nat) : Safe (m.finishClose slot) := by
  rw [ProviderManager.finishClose]
  split
  · exact h
  · have hupdated : Safe (m.updateSlot slot ({ · with closed := true })) :=
      h.updateSlot (fun s => ⟨rfl, rfl, rfl, rfl⟩) (fun s hr => hr) (fun s _ hr => Or.inl hr)
        (fun s hs hstarted => h.started slot s hs hstarted) fun s hstarted => hstarted
    exact hupdated.congr rfl rfl rfl rfl rfl

/-- An instance is closed that was not, and that no slot has except one whose close has begun. -/
theorem addClose (h : Safe m) {i : Nat} (hbuilt : i < m.built) (hfresh : i ∉ m.closes)
    (hstarted : ∀ slot s, m.slot? slot = some s → s.built = i → s.closeStarted = true) :
    Safe { m with closes := m.closes ++ [i] } := by
  refine ⟨h.live, h.counts, fun t ht => (HeapLe.of_heap_eq rfl).pointOk (h.points t ht), h.started,
    ?_, fun j hj => ?_, h.slot_built, h.distinct, fun slot s hs hmem => ?_⟩
  · refine List.nodup_append.mpr ⟨h.closes_nodup, by simp, fun a ha b hb hab => hfresh ?_⟩
    obtain rfl : b = i := by simpa using hb
    rwa [← hab]
  · rcases List.mem_append.mp hj with hj | hj
    · exact h.closes_built j hj
    · obtain rfl : j = i := by simpa using hj
      exact hbuilt
  · rcases List.mem_append.mp hmem with hmem | hmem
    · exact h.closes_started slot s hs hmem
    · exact hstarted slot s hs (by simpa using hmem)

/-- Another instance was built. -/
theorem addBuilt (h : Safe m) : Safe { m with built := m.built + 1 } :=
  ⟨h.live, h.counts, fun t ht => (HeapLe.of_heap_eq rfl).pointOk (h.points t ht), h.started,
    h.closes_nodup, fun i hi => (h.closes_built i hi).trans (Nat.lt_succ_self _),
    fun slot s hs => (h.slot_built slot s hs).trans (Nat.lt_succ_self _), h.distinct,
    h.closes_started⟩

/-- No call holds a slot that does not exist. -/
theorem holders_eq_zero (h : Safe m) {slot : Nat} (hnone : m.slot? slot = none) :
    m.holders slot = 0 := by
  refine List.countP_eq_zero.mpr fun t ht hheld => ?_
  have hok := h.points t ht
  rw [decide_eq_true_eq] at hheld
  obtain ⟨s, hs⟩ : ∃ s, m.slot? slot = some s := by
    cases hpoint : t.point <;> rw [hpoint] at hheld hok <;>
      simp only [ManagerPoint.holds, reduceCtorEq, Option.some.injEq] at hheld <;>
      · subst hheld
        exact hok
  rw [hnone] at hs
  simp at hs

/-- A new slot becomes the live one of its provider. -/
theorem addSlot (h : Safe m) {providerId : String} {generation built : Nat}
    (hbuilt : built < m.built) (hclosed : built ∉ m.closes)
    (hfresh : ∀ slot s, m.slot? slot = some s → s.built ≠ built) :
    Safe { m with
      slots := Function.update m.slots providerId (some m.heap.length)
      heap := m.heap ++ [{ providerId, generation, built }] } := by
  set m' : ProviderManager := { m with
    slots := Function.update m.slots providerId (some m.heap.length)
    heap := m.heap ++ [{ providerId, generation, built }] }
  have hlength : ∀ slot s, m.slot? slot = some s → slot < m.heap.length := fun slot s hs =>
    (List.getElem?_eq_some_iff.mp hs).1
  have hold : ∀ slot s, m.slot? slot = some s → m'.slot? slot = some s := fun slot s hs => by
    show (m.heap ++ _)[slot]? = some s
    rw [List.getElem?_append_left (hlength slot s hs)]
    exact hs
  have hnew : m'.slot? m.heap.length = some { providerId, generation, built } := by
    show (m.heap ++ _)[m.heap.length]? = _
    simp
  have hback : ∀ slot s, m'.slot? slot = some s → m.slot? slot = some s ∨
      slot = m.heap.length ∧ s = { providerId, generation, built } := by
    intro slot s hs
    have hs' : (m.heap ++ [({ providerId, generation, built } : ProviderSlot)])[slot]? =
        some s := hs
    rw [List.getElem?_append] at hs'
    split_ifs at hs' with hlt
    · exact Or.inl hs'
    · obtain ⟨hzero, hval⟩ := List.getElem?_eq_some_iff.mp hs'
      have hslot : slot = m.heap.length := by
        simp only [List.length_singleton] at hzero
        omega
      refine Or.inr ⟨hslot, ?_⟩
      rw [← hval]
      simp
  have hle : HeapLe m m' := fun slot s hs =>
    ⟨s, hold slot s hs, rfl, fun hr => hr, fun _ ha => ha⟩
  refine ⟨fun id slot hslot => ?_, fun slot s hs => ?_, fun t ht => hle.pointOk (h.points t ht),
    fun slot s hs hstarted => ?_, h.closes_nodup, h.closes_built, fun slot s hs => ?_,
    fun slot₁ slot₂ s₁ s₂ hs₁ hs₂ heq => ?_, fun slot s hs hmem => ?_⟩
  · by_cases hid : id = providerId
    · subst hid
      obtain rfl : m.heap.length = slot := by simpa [m'] using hslot
      exact ⟨_, hnew, rfl, rfl⟩
    · have hslot' : m.slots id = some slot := by simpa [m', hid] using hslot
      obtain ⟨s, hs, hsid, hret⟩ := h.live id slot hslot'
      exact ⟨s, hold slot s hs, hsid, hret⟩
  · rcases hback slot s hs with hs | ⟨rfl, rfl⟩
    · exact h.counts slot s hs
    · have hnone : m.slot? m.heap.length = none := List.getElem?_eq_none (le_refl _)
      have hzero : m'.holders m.heap.length = 0 := h.holders_eq_zero hnone
      simp [hzero]
  · rcases hback slot s hs with hs | ⟨rfl, rfl⟩
    · exact h.started slot s hs hstarted
    · exact absurd hstarted (by simp)
  · rcases hback slot s hs with hs | ⟨rfl, rfl⟩
    · exact h.slot_built slot s hs
    · exact hbuilt
  · rcases hback slot₁ s₁ hs₁ with hs₁ | ⟨rfl, rfl⟩ <;>
      rcases hback slot₂ s₂ hs₂ with hs₂ | ⟨rfl, rfl⟩
    · exact h.distinct slot₁ slot₂ s₁ s₂ hs₁ hs₂ heq
    · exact absurd heq (hfresh slot₁ s₁ hs₁)
    · exact absurd heq.symm (hfresh slot₂ s₂ hs₂)
    · rfl
  · rcases hback slot s hs with hs | ⟨rfl, rfl⟩
    · exact h.closes_started slot s hs hmem
    · exact absurd hmem hclosed

/-- A task takes or gives back a slot, and the slot counts it. -/
theorem moveCall (h : Safe m) (ht : m.tasks[task]? = some t) {slot : Nat} {s : ProviderSlot}
    (hs : m.slot? slot = some s) {f : ProviderSlot → ProviderSlot}
    (hkeep : (f s).providerId = s.providerId ∧ (f s).built = s.built ∧
      (f s).retired = s.retired ∧ (f s).closeStarted = s.closeStarted)
    (hheld : ∀ other, other ≠ slot → (t.point.holds = some other ↔ point.holds = some other))
    (hcount : (f s).activeCalls + (if t.point.holds = some slot then 1 else 0) =
      s.activeCalls + if point.holds = some slot then 1 else 0)
    (hidle : (f s).idle = true ↔ (f s).activeCalls = 0)
    (hquiet : s.retired = true → s.activeCalls = 0 → (f s).activeCalls = 0)
    (hok : (m.updateSlot slot f).PointOk point) :
    Safe ((m.updateSlot slot f).goto task point) := by
  have hle : HeapLe m (m.updateSlot slot f) := .updateSlot fun s' hs' => by
    obtain rfl : s = s' := Option.some.inj (hs.symm.trans hs')
    exact ⟨hkeep.1, fun hr => hkeep.2.2.1.trans hr, hquiet⟩
  have hself : (m.updateSlot slot f).slot? slot = some (f s) := by
    rw [slot?_updateSlot, if_pos rfl, hs]
    rfl
  have hother : ∀ slot', slot ≠ slot' → (m.updateSlot slot f).slot? slot' = m.slot? slot' :=
    fun slot' hne => by rw [slot?_updateSlot, if_neg hne]
  have hholders := fun slot' => holders_goto (m := m.updateSlot slot f) ht point slot'
  -- what a slot is afterwards, by the slot it was
  have hcases : ∀ slot' s', (m.updateSlot slot f).slot? slot' = some s' →
      slot = slot' ∧ s' = f s ∨ slot ≠ slot' ∧ m.slot? slot' = some s' := by
    intro slot' s' hs'
    by_cases heq : slot = slot'
    · subst heq
      exact Or.inl ⟨rfl, Option.some.inj (hs'.symm.trans hself)⟩
    · exact Or.inr ⟨heq, (hother slot' heq) ▸ hs'⟩
  have hback : ∀ slot' s', (m.updateSlot slot f).slot? slot' = some s' →
      ∃ s₀, m.slot? slot' = some s₀ ∧ s'.built = s₀.built ∧ s'.closeStarted = s₀.closeStarted := by
    intro slot' s' hs'
    rcases hcases slot' s' hs' with ⟨rfl, rfl⟩ | ⟨-, hs'⟩
    · exact ⟨s, hs, hkeep.2.1, hkeep.2.2.2⟩
    · exact ⟨s', hs', rfl, rfl⟩
  refine ⟨fun id slot' hlive => ?_, fun slot' s' hs' => ?_, fun t' ht' => ?_,
    fun slot' s' hs' hstarted => ?_, h.closes_nodup, h.closes_built, fun slot' s' hs' => ?_,
    fun slot₁ slot₂ s₁ s₂ hs₁ hs₂ heq => ?_, fun slot' s' hs' hmem => ?_⟩
  · obtain ⟨s', hs', hid', hret'⟩ := h.live id slot' hlive
    by_cases heq : slot = slot'
    · subst heq
      obtain rfl : s = s' := Option.some.inj (hs.symm.trans hs')
      exact ⟨f s, hself, hkeep.1.trans hid', hkeep.2.2.1.trans hret'⟩
    · exact ⟨s', (hother slot' heq).trans hs', hid', hret'⟩
  · have hcounted := hholders slot'
    rcases hcases slot' s' hs' with ⟨rfl, rfl⟩ | ⟨hne, hs'⟩
    · have hbefore := (h.counts slot s hs).1
      refine ⟨?_, hidle⟩
      have hsame : (m.updateSlot slot f).holders slot = m.holders slot := rfl
      rw [hsame] at hcounted
      split_ifs at hcounted hcount <;> omega
    · have hsame : (m.updateSlot slot f).holders slot' = m.holders slot' := rfl
      rw [hsame] at hcounted
      simp only [hheld slot' (Ne.symm hne), Nat.add_right_cancel_iff] at hcounted
      rw [hcounted]
      exact h.counts slot' s' hs'
  · have hle' : HeapLe m ((m.updateSlot slot f).goto task point) := hle.trans (.of_heap_eq rfl)
    rcases mem_tasks_goto ht' with ht' | hpoint
    · exact hle'.pointOk (h.points t' ht')
    · rw [hpoint]
      exact (HeapLe.of_heap_eq rfl).pointOk hok
  · rcases hcases slot' s' hs' with ⟨rfl, rfl⟩ | ⟨-, hs'⟩
    · obtain ⟨hret, hzero⟩ := h.started slot s hs (hkeep.2.2.2.symm.trans hstarted)
      exact ⟨hkeep.2.2.1.trans hret, hquiet hret hzero⟩
    · exact h.started slot' s' hs' hstarted
  · obtain ⟨s₀, hs₀, hbuilt, -⟩ := hback slot' s' hs'
    rw [hbuilt]
    exact h.slot_built slot' s₀ hs₀
  · obtain ⟨a₁, ha₁, hb₁, -⟩ := hback slot₁ s₁ hs₁
    obtain ⟨a₂, ha₂, hb₂, -⟩ := hback slot₂ s₂ hs₂
    exact h.distinct slot₁ slot₂ a₁ a₂ ha₁ ha₂ (by rw [← hb₁, ← hb₂, heq])
  · obtain ⟨s₀, hs₀, hbuilt, hstarted⟩ := hback slot' s' hs'
    rw [hstarted]
    exact h.closes_started slot' s₀ hs₀ (hbuilt ▸ hmem)

/-- A call takes a live slot. -/
theorem acquire (h : Safe m) (ht : m.tasks[task]? = some t) (hheld : t.point.holds = none)
    {providerId : String} {slot : Nat} (hslot : m.slots providerId = some slot) :
    Safe ((m.updateSlot slot fun s =>
      { s with activeCalls := s.activeCalls + 1, idle := false }).goto task (.calling slot)) := by
  obtain ⟨s, hs, hid, hret⟩ := h.live providerId slot hslot
  have hcount := (h.counts slot s hs).1
  refine h.moveCall ht hs ⟨rfl, rfl, rfl, rfl⟩ (fun other hne => ?_) ?_ ?_ ?_ ?_
  · simp [hheld, Ne.symm hne]
  · simp [hheld]
  · simp only [Bool.false_eq_true, false_iff]
    omega
  · intro hr
    rw [hret] at hr
    exact absurd hr (by simp)
  · rw [PointOk, slot?_updateSlot, if_pos rfl, hs]
    exact ⟨_, rfl⟩

/-- A slot that is held is counted. -/
theorem activeCalls_pos (h : Safe m) (ht : m.tasks[task]? = some t) {slot : Nat}
    {s : ProviderSlot} (hs : m.slot? slot = some s) (hheld : t.point.holds = some slot) :
    0 < s.activeCalls := by
  have hpos : 0 < m.holders slot :=
    List.countP_pos_iff.mpr ⟨t, List.mem_of_getElem? ht, by simpa using hheld⟩
  have hcount := (h.counts slot s hs).1
  omega

/-- A call gives its slot back. -/
theorem release (h : Safe m) (ht : m.tasks[task]? = some t) {slot : Nat}
    (hpoint : t.point = .releasing slot) : Safe (m.releaseSlot task slot) := by
  have hheld : t.point.holds = some slot := by rw [hpoint]; rfl
  obtain ⟨s, hs⟩ : ∃ s, m.slot? slot = some s := by
    have hok := h.points t (List.mem_of_getElem? ht)
    rwa [hpoint] at hok
  have hpos := h.activeCalls_pos ht hs hheld
  have hnotIdle : s.idle = false := by
    by_contra hidle
    have := (h.counts slot s hs).2.mp (by simpa using hidle)
    omega
  obtain ⟨hok, hnone, -⟩ := (m.updateSlot slot fun s =>
    { s with activeCalls := s.activeCalls - 1, idle := s.idle || s.activeCalls - 1 = 0 }
    ).closeIfIdle_spec slot
  refine h.moveCall ht hs ⟨rfl, rfl, rfl, rfl⟩ (fun other hne => ?_) ?_ ?_ ?_ hok
  · simp [hheld, hnone, Ne.symm hne]
  · simp [hheld, hnone]
  · simp [hnotIdle]
  · intro _ hzero
    omega

/-- All the live slots of a shut manager are retired. -/
theorem retireAll (h : Safe m) (hlive : ∀ providerId, m.slots providerId = none)
    (slots : List Nat) : Safe (slots.foldl ProviderManager.retireSlot m) ∧
      (slots.foldl ProviderManager.retireSlot m).tasks = m.tasks := by
  induction slots generalizing m with
  | nil => exact ⟨h, rfl⟩
  | cons slot rest ih =>
    have hretired : Safe (m.retireSlot slot) := h.retireSlot fun providerId => by
      rw [hlive]
      simp
    obtain ⟨hslots, htasks⟩ := m.retireSlot_frame slot
    obtain ⟨hsafe, hrest⟩ := ih hretired fun providerId => by rw [hslots, hlive]
    exact ⟨hsafe, hrest.trans htasks⟩

/-- A configuration is published with its instance. -/
theorem publishSlot (h : Safe m) {provider : ProviderConfig} {instance? : Option Nat}
    (hinstance : ∀ built, instance? = some built → built < m.built ∧ built ∉ m.closes ∧
      ∀ slot s, m.slot? slot = some s → s.built ≠ built) :
    Safe (m.publishSlot provider instance?) := by
  have hconfigs : Safe { m with
      configs := Function.update m.configs provider.providerId (some provider) } :=
    h.congr rfl rfl rfl rfl rfl
  cases instance? with
  | none =>
    refine (hconfigs.of_slots fun id slot hslot => ?_ :
      Safe { m with
        configs := Function.update m.configs provider.providerId (some provider)
        slots := Function.update m.slots provider.providerId none })
    by_cases hid : id = provider.providerId
    · subst hid
      simp at hslot
    · simpa [hid] using hslot
  | some built =>
    obtain ⟨hbuilt, hclosed, hfresh⟩ := hinstance built rfl
    have hadded : Safe { m with
        configs := Function.update m.configs provider.providerId (some provider)
        slots := Function.update m.slots provider.providerId (some m.heap.length)
        heap := m.heap ++ [{
          providerId := provider.providerId
          generation := m.generations provider.providerId + 1, built }] } :=
      hconfigs.addSlot hbuilt hclosed hfresh
    exact hadded.congr rfl rfl rfl rfl rfl

/-- The slot that was live before is not any more. -/
theorem slots_publishSlot_ne (h : Safe m) {provider : ProviderConfig} {instance? : Option Nat}
    {slot : Nat} {s : ProviderSlot} (hs : m.slot? slot = some s)
    (hid : s.providerId = provider.providerId) (providerId : String) :
    (m.publishSlot provider instance?).slots providerId ≠ some slot := by
  intro hlive
  have hlt : slot < m.heap.length := (List.getElem?_eq_some_iff.mp hs).1
  by_cases heq : providerId = provider.providerId
  · subst heq
    cases instance? with
    | none => simp [ProviderManager.publishSlot] at hlive
    | some built =>
      have hslot : m.heap.length = slot := by simpa [ProviderManager.publishSlot] using hlive
      omega
  · have hold : m.slots providerId = some slot := by
      cases instance? <;> simpa [ProviderManager.publishSlot, heq] using hlive
    obtain ⟨s', hs', hsid', -⟩ := h.live providerId slot hold
    obtain rfl : s = s' := Option.some.inj (hs.symm.trans hs')
    exact heq (hsid'.symm.trans hid)

/-- A configuration is published, and the previous slot of the provider is retired. -/
theorem publish (h : Safe m) {provider : ProviderConfig} {previous instance? : Option Nat}
    (hprevious : ∀ slot, previous = some slot →
      ∃ s, m.slot? slot = some s ∧ s.providerId = provider.providerId)
    (hinstance : ∀ built, instance? = some built → built < m.built ∧ built ∉ m.closes ∧
      ∀ slot s, m.slot? slot = some s → s.built ≠ built) :
    Safe (m.publish provider previous instance?) := by
  cases previous with
  | none => exact h.publishSlot hinstance
  | some slot =>
    obtain ⟨s, hs, hid⟩ := hprevious slot rfl
    exact (h.publishSlot hinstance).retireSlot (h.slots_publishSlot_ne hs hid)

end Safe

/-- What was live, configured and stored, and the slots themselves, are the same. -/
def SameRegistry (m m' : ProviderManager) : Prop :=
  m'.configs = m.configs ∧ m'.slots = m.slots ∧ m'.configStore = m.configStore ∧ m'.heap = m.heap

/-- A configuration is found under its own id. -/
def Keyed (m : ProviderManager) : Prop :=
  ∀ providerId config, m.configs providerId = some config → config.providerId = providerId

/-- **What a step of a task can do.** `moved` is a step that changes no slot; after the others the
operation does not raise any more, `discarded` apart. -/
inductive Advance (m : ProviderManager) (task : Nat) (t : ManagerTask) : ProviderManager → Prop
  | moved (locks : String → Option Nat) (point : ManagerPoint)
      (hheld : point.holds = t.point.holds) (hok : m.PointOk point)
      (hmay : t.point.mayRaise = false → point.mayRaise = false) :
    Advance m task t ({ m with locks }.goto task point)
  | acquired {providerId : String} {slot : Nat} (hheld : t.point.holds = none)
      (hslot : m.slots providerId = some slot) :
    Advance m task t ((m.updateSlot slot fun s =>
      { s with activeCalls := s.activeCalls + 1, idle := false }).goto task (.calling slot))
  | released {slot : Nat} (hpoint : t.point = .releasing slot) :
    Advance m task t (m.releaseSlot task slot)
  /-- the new instance is closed, since its configuration was not saved -/
  | discarded (providerId : String) (hheld : t.point.holds = none)
      (hmay : t.point.mayRaise = true) :
    Advance m task t ({ m with built := m.built + 1, closes := m.closes ++ [m.built] }.goto task
      (.discarding providerId))
  /-- a configuration, a deletion, `close` or the end of a close takes effect -/
  | changed {changed : ProviderManager} (point : ManagerPoint) (hsafe : Safe changed)
      (hkeyed : Keyed changed) (htasks : changed.tasks = m.tasks) (hheld : t.point.holds = none)
      (hnone : point.holds = none) (hmay : point.mayRaise = false) (hok : changed.PointOk point) :
    Advance m task t (changed.goto task point)
  /-- the slot's instance is closed -/
  | closeStarted {slot : Nat} {rest : List Nat} {s : ProviderSlot}
      (hpoint : t.point = .foundIdle slot rest) (hs : m.slot? slot = some s)
      (hnot : s.closeStarted = false) :
    Advance m task t ({ m.updateSlot slot ({ · with closeStarted := true }) with
      closes := m.closes ++ [s.built] }.goto task (.closing slot rest))

namespace Advance

/-- The task comes to a point; it holds what it held, or a slot that is live; and once it cannot
raise any more, that stays so, while a step after which it can has changed nothing. -/
theorem tasks_eq (h : Advance m task t m') :
    ∃ point, m'.tasks = m.tasks.modify task ({ · with point }) ∧
      (∀ slot, point.holds = some slot →
        t.point.holds = some slot ∨ ∃ providerId, m.slots providerId = some slot) ∧
      (t.point.mayRaise = false → point.mayRaise = false) ∧
      (point.mayRaise = true → SameRegistry m m') := by
  cases h with
  | moved locks point hheld hok hmay =>
    exact ⟨point, rfl, fun slot hslot => Or.inl (hheld ▸ hslot), hmay,
      fun _ => ⟨rfl, rfl, rfl, rfl⟩⟩
  | @acquired providerId slot hheld hslot =>
    refine ⟨.calling slot, rfl, fun other hother => Or.inr ⟨providerId, ?_⟩, fun _ => rfl,
      fun hmay => absurd hmay (by simp [ManagerPoint.mayRaise])⟩
    obtain rfl : slot = other := by simpa using hother
    exact hslot
  | @released slot hpoint =>
    obtain ⟨-, hnone, hmay⟩ := (m.updateSlot slot fun s =>
      { s with activeCalls := s.activeCalls - 1, idle := s.idle || s.activeCalls - 1 = 0 }
      ).closeIfIdle_spec slot
    refine ⟨_, rfl, fun other hother => ?_, fun _ => hmay, fun hraise => ?_⟩
    · rw [hnone] at hother
      simp at hother
    · rw [hmay] at hraise
      simp at hraise
  | discarded providerId hheld hmay =>
    refine ⟨.discarding providerId, rfl, fun slot hslot => absurd hslot (by simp [ManagerPoint.holds]),
      fun hnot => ?_, fun _ => ⟨rfl, rfl, rfl, rfl⟩⟩
    rw [hmay] at hnot
    simp at hnot
  | @changed changed point hsafe hkeyed htasks hheld hnone hmay hok =>
    refine ⟨point, ?_, fun slot hslot => ?_, fun _ => hmay, fun hraise => ?_⟩
    · rw [← htasks]
      rfl
    · rw [hnone] at hslot
      simp at hslot
    · rw [hmay] at hraise
      simp at hraise
  | closeStarted hpoint hs hnot =>
    exact ⟨_, rfl, fun slot hslot => absurd hslot (by simp [ManagerPoint.holds]), fun _ => rfl,
      fun hmay => absurd hmay (by simp [ManagerPoint.mayRaise])⟩

/-- No call comes to hold a retired slot. -/
theorem holders_le (h : Advance m task t m') (hsafe : Safe m) (ht : m.tasks[task]? = some t)
    {slot : Nat} {s : ProviderSlot} (hs : m.slot? slot = some s) (hret : s.retired = true) :
    m'.holders slot ≤ m.holders slot := by
  obtain ⟨point, htasks, hholds, -⟩ := h.tasks_eq
  have hcount := holders_goto ht point slot
  have hsame : m'.holders slot = (m.goto task point).holders slot := by
    rw [holders, htasks]
    rfl
  rw [hsame]
  by_cases hpoint : point.holds = some slot
  · rcases hholds slot hpoint with hheld | ⟨providerId, hlive⟩
    · rw [if_pos hpoint, if_pos hheld] at hcount
      omega
    · obtain ⟨s', hs', -, hfresh⟩ := hsafe.live providerId slot hlive
      obtain rfl : s = s' := Option.some.inj (hs.symm.trans hs')
      rw [hret] at hfresh
      simp at hfresh
  · rw [if_neg hpoint] at hcount
    omega

theorem keyed (h : Advance m task t m') (hkeyed : Keyed m) : Keyed m' := by
  cases h with
  | changed point hsafe hkeyed' => exact hkeyed'
  | _ => exact hkeyed

/-- Every step of a task keeps the invariant. -/
theorem safe (h : Advance m task t m') (hsafe : Safe m) (ht : m.tasks[task]? = some t) :
    Safe m' := by
  cases h with
  | moved locks point hheld hok hmay =>
    have hlocks : Safe { m with locks } := hsafe.congr rfl rfl rfl rfl rfl
    exact hlocks.goto ht hheld ((HeapLe.of_heap_eq rfl).pointOk hok)
  | acquired hheld hslot => exact hsafe.acquire ht hheld hslot
  | released hpoint => exact hsafe.release ht hpoint
  | discarded providerId hheld hmay =>
    -- the instance is newer than all slots and closes
    have hclosed := hsafe.addBuilt.addClose (i := m.built) (Nat.lt_succ_self _)
      (fun hmem => lt_irrefl _ (hsafe.closes_built _ hmem))
      fun slot s hs hbuilt => absurd (hsafe.slot_built slot s hs) (by omega)
    exact hclosed.goto ht hheld.symm trivial
  | changed point hchanged hkeyed htasks hheld hnone hmay hok =>
    exact hchanged.goto (htasks ▸ ht) (hnone.trans hheld.symm) hok
  | @closeStarted slot rest s hpoint hs hnot =>
    obtain ⟨s', hs', hret, hzero⟩ : ∃ s, m.slot? slot = some s ∧ s.retired = true ∧
        s.activeCalls = 0 := by
      have hok := hsafe.points t (List.mem_of_getElem? ht)
      rwa [hpoint] at hok
    obtain rfl : s = s' := Option.some.inj (hs.symm.trans hs')
    have hupdated : Safe (m.updateSlot slot ({ · with closeStarted := true })) := by
      refine hsafe.updateSlot (fun s => ⟨rfl, rfl, rfl, rfl⟩) (fun s hr => hr)
        (fun s _ hr => Or.inl hr) (fun s' hs' _ => ?_) fun s _ => rfl
      obtain rfl : s = s' := Option.some.inj (hs.symm.trans hs')
      exact ⟨hret, hzero⟩
    have hclosed := hupdated.addClose (i := s.built) (hsafe.slot_built slot s hs)
      (fun hmem => by
        rw [hsafe.closes_started slot s hs hmem] at hnot
        simp at hnot)
      fun slot' s' hs' hbuilt => by
        rw [slot?_updateSlot] at hs'
        split_ifs at hs' with heq
        · obtain ⟨s₀, -, rfl⟩ := Option.map_eq_some_iff.mp hs'
          rfl
        · exact absurd (hsafe.distinct slot' slot s' s hs' hs hbuilt) (Ne.symm heq)
    refine hclosed.goto ht ?_ trivial
    rw [hpoint]
    rfl

end Advance

/-! ### The steps of the source -/

variable {failures : List ManagerFailure}

/-- A move that keeps the locks. -/
theorem Advance.stay (point : ManagerPoint) (hheld : point.holds = t.point.holds)
    (hok : m.PointOk point) (hmay : t.point.mayRaise = false → point.mayRaise = false) :
    Advance m task t (m.goto task point) := .moved m.locks point hheld hok hmay

/-- Saving a configuration writes the store only. -/
theorem saveConfig_frame {provider : ProviderConfig} {saved : ProviderManager}
    (h : m.saveConfig provider failures = some saved) :
    saved.heap = m.heap ∧ saved.slots = m.slots ∧ saved.tasks = m.tasks ∧
      saved.closes = m.closes ∧ saved.built = m.built ∧ saved.configs = m.configs := by
  rw [saveConfig] at h
  split at h
  · obtain rfl := Option.some.inj h
    exact ⟨rfl, rfl, rfl, rfl, rfl, rfl⟩
  · split at h
    · exact absurd h (by simp)
    · obtain rfl := Option.some.inj h
      exact ⟨rfl, rfl, rfl, rfl, rfl, rfl⟩

theorem keyed_publish (hkeyed : Keyed m) (provider : ProviderConfig)
    (previous instance? : Option Nat) : Keyed (m.publish provider previous instance?) := by
  have hconfigs : (m.publish provider previous instance?).configs =
      Function.update m.configs provider.providerId (some provider) := by
    have hslot : (m.publishSlot provider instance?).configs =
        Function.update m.configs provider.providerId (some provider) := by
      cases instance? <;> rfl
    cases previous with
    | none => exact hslot
    | some slot =>
      rw [publish, Option.elim, retireSlot]
      split <;> exact hslot
  intro providerId config hconfig
  rw [hconfigs] at hconfig
  by_cases heq : providerId = provider.providerId
  · subst heq
    obtain rfl : provider = config := by simpa using hconfig
    rfl
  · exact hkeyed providerId config (by simpa [heq] using hconfig)

/-- A configuration that was saved takes effect. -/
theorem advance_publish (hkeyed : Keyed m) (hheld : t.point.holds = none)
    {saved : ProviderManager} (hsaved : Safe saved) (htasks : saved.tasks = m.tasks)
    (hconfigs : saved.configs = m.configs) {provider : ProviderConfig}
    {previous instance? : Option Nat}
    (hprevious : ∀ slot, previous = some slot →
      ∃ s, saved.slot? slot = some s ∧ s.providerId = provider.providerId)
    (hinstance : ∀ built, instance? = some built → built < saved.built ∧ built ∉ saved.closes ∧
      ∀ slot s, saved.slot? slot = some s → s.built ≠ built)
    {published : ProviderManager}
    (heq : published = (saved.publish provider previous instance?).unlock provider.providerId) :
    Advance m task t (published.goto task (previous.elim .returned published.closeIfIdle)) := by
  have hsafe : Safe published := by
    rw [heq]
    exact (hsaved.publish hprevious hinstance).congr rfl rfl rfl rfl rfl
  have hpublished : published.tasks = m.tasks := by
    rw [heq]
    exact (saved.tasks_publish provider previous instance?).trans htasks
  have hkeyedSaved : Keyed saved := by rwa [Keyed, hconfigs]
  have hkeyed' : Keyed published := by
    rw [heq]
    exact keyed_publish hkeyedSaved provider previous instance?
  cases previous with
  | none => exact .changed .returned hsafe hkeyed' hpublished hheld rfl rfl trivial
  | some slot =>
    obtain ⟨hok, hnone, hmay⟩ := published.closeIfIdle_spec slot
    exact .changed _ hsafe hkeyed' hpublished hheld hnone hmay hok

/-- `_replace_provider` behind the factory. -/
theorem advance_replaceProvider (hsafe : Safe m) (hkeyed : Keyed m) (hheld : t.point.holds = none)
    (hmay : t.point.mayRaise = true) {provider : ProviderConfig} {previous : Option Nat}
    (hprevious : ∀ slot, previous = some slot →
      ∃ s, m.slot? slot = some s ∧ s.providerId = provider.providerId) :
    Advance m task t ({ m with built := m.built + 1 }.replaceProvider task provider previous
      (some m.built) failures) := by
  rw [replaceProvider]
  split
  · exact .discarded provider.providerId hheld hmay
  · next saved hsaved =>
    obtain ⟨hheap, hslots, htasks, hcloses, hbuilt, hconfigs⟩ := saveConfig_frame hsaved
    have hslot : ∀ slot, saved.slot? slot = m.slot? slot := fun slot => by
      rw [slot?, hheap]
      rfl
    refine advance_publish hkeyed hheld (hsafe.addBuilt.congr hheap hslots htasks hcloses hbuilt)
      htasks hconfigs (fun slot hprev => ?_) (fun built hinst => ?_) rfl
    · rw [hslot]
      exact hprevious slot hprev
    · obtain rfl := Option.some.inj hinst
      rw [hbuilt, hcloses]
      refine ⟨Nat.lt_succ_self _, fun hmem => lt_irrefl _ (hsafe.closes_built _ hmem),
        fun slot s hs heq => ?_⟩
      rw [hslot] at hs
      have := hsafe.slot_built slot s hs
      omega

/-- `_replace_provider` of a provider that is disabled. -/
theorem advance_disableProvider (hsafe : Safe m) (hkeyed : Keyed m) (hheld : t.point.holds = none)
    (hmay : t.point.mayRaise = true) {provider : ProviderConfig} {previous : Option Nat}
    (hprevious : ∀ slot, previous = some slot →
      ∃ s, m.slot? slot = some s ∧ s.providerId = provider.providerId) :
    Advance m task t (m.replaceProvider task provider previous none failures) := by
  rw [replaceProvider]
  split
  · refine .moved _ .raised hheld.symm trivial fun hnot => ?_
    rw [hmay] at hnot
    simp at hnot
  · next saved hsaved =>
    obtain ⟨hheap, hslots, htasks, hcloses, hbuilt, hconfigs⟩ := saveConfig_frame hsaved
    refine advance_publish hkeyed hheld (hsafe.congr hheap hslots htasks hcloses hbuilt) htasks
      hconfigs (fun slot hprev => ?_) (fun built hinst => absurd hinst (by simp)) rfl
    rw [slot?, hheap]
    exact hprevious slot hprev

theorem advance_buildProvider (hsafe : Safe m) (hkeyed : Keyed m) (hpoint : t.point = .start)
    (provider : ProviderConfig) :
    Advance m task t (m.buildProvider task provider (m.slots provider.providerId) failures) := by
  have hheld : t.point.holds = none := by rw [hpoint]; rfl
  have hmay : t.point.mayRaise = true := by rw [hpoint]; rfl
  have hprevious : ∀ slot, m.slots provider.providerId = some slot →
      ∃ s, m.slot? slot = some s ∧ s.providerId = provider.providerId := fun slot hslot => by
    obtain ⟨s, hs, hid, -⟩ := hsafe.live _ slot hslot
    exact ⟨s, hs, hid⟩
  have hraise : t.point.mayRaise = false → ManagerPoint.mayRaise .raised = false := fun hnot => by
    rw [hmay] at hnot
    simp at hnot
  rw [buildProvider]
  split_ifs
  · exact .stay .raised hheld.symm trivial hraise
  · refine .moved _ (.building provider (m.slots provider.providerId)) hheld.symm hprevious ?_
    exact hraise
  · exact advance_disableProvider hsafe hkeyed hheld hmay hprevious

theorem advance_deleteProvider (hsafe : Safe m) (hkeyed : Keyed m) (hpoint : t.point = .start)
    (providerId : String) : Advance m task t (m.deleteProvider task providerId failures) := by
  have hheld : t.point.holds = none := by rw [hpoint]; rfl
  have hraise : t.point.mayRaise = false → ManagerPoint.mayRaise .raised = false := fun hnot => by
    rw [hpoint] at hnot
    exact absurd hnot (by simp [ManagerPoint.mayRaise])
  rw [deleteProvider]
  split_ifs
  · exact .stay .raised hheld.symm trivial hraise
  · exact .stay .raised hheld.symm trivial hraise
  · set removed : ProviderManager := { m with
      configStore := m.configStore.map fun store => Function.update store providerId none
      slots := Function.update m.slots providerId none
      configs := Function.update m.configs providerId none }
    have hslots : ∀ id slot, removed.slots id = some slot →
        id ≠ providerId ∧ m.slots id = some slot := by
      intro id slot hslot
      by_cases heq : id = providerId
      · subst heq
        simp [removed] at hslot
      · exact ⟨heq, by simpa [removed, heq] using hslot⟩
    have hremoved : Safe removed :=
      (hsafe.of_slots fun id slot hslot => (hslots id slot hslot).2).congr rfl rfl rfl rfl rfl
    have hkeyed' : Keyed removed := fun id config hconfig => by
      by_cases heq : id = providerId
      · subst heq
        simp [removed] at hconfig
      · exact hkeyed id config (by simpa [removed, heq] using hconfig)
    dsimp only
    split
    · exact .changed .returned hremoved hkeyed' rfl hheld rfl rfl trivial
    · next slot hslot =>
      -- no other provider has the slot
      obtain ⟨s, hs, hid, -⟩ := hsafe.live providerId slot hslot
      have hretired : Safe (removed.retireSlot slot) := hremoved.retireSlot fun id hlive => by
        obtain ⟨hne, hold⟩ := hslots id slot hlive
        obtain ⟨s', hs', hid', -⟩ := hsafe.live id slot hold
        obtain rfl : s = s' := Option.some.inj (hs.symm.trans hs')
        exact hne (hid'.symm.trans hid)
      have hconfigs : (removed.retireSlot slot).configs = removed.configs := by
        rw [retireSlot]
        split <;> rfl
      obtain ⟨hok, hnone, hmay⟩ := (removed.retireSlot slot).closeWhenIdle_spec [slot]
      exact .changed _ hretired (by rwa [Keyed, hconfigs]) (removed.retireSlot_frame slot).2 hheld
        hnone hmay hok

theorem advance_closeManager (hsafe : Safe m) (hpoint : t.point = .start) :
    Advance m task t (m.closeManager task) := by
  have hheld : t.point.holds = none := by rw [hpoint]; rfl
  have hnone : Safe { m with slots := fun _ => none } :=
    hsafe.of_slots fun _ _ h => absurd h (by simp)
  have hcleared : Safe { m with slots := fun _ => none, configs := fun _ => none } :=
    hnone.congr rfl rfl rfl rfl rfl
  obtain ⟨hretired, htasks⟩ := hcleared.retireAll (fun _ => rfl) m.allSlots
  have hconfigs : ∀ (slots : List Nat) (m' : ProviderManager), (∀ id, m'.configs id = none) →
      ∀ id, (slots.foldl retireSlot m').configs id = none := by
    intro slots
    induction slots with
    | nil => exact fun m' h => h
    | cons slot rest ih =>
      intro m' h
      refine ih _ fun id => ?_
      rw [retireSlot]
      split
      · exact h id
      · exact h id
  have hkeyed : Keyed (m.allSlots.foldl retireSlot
      { m with slots := fun _ => none, configs := fun _ => none }) := fun id config hconfig => by
    rw [hconfigs _ _ (fun _ => rfl)] at hconfig
    simp at hconfig
  obtain ⟨hok, hnone, hmay⟩ := (m.allSlots.foldl retireSlot
    { m with slots := fun _ => none, configs := fun _ => none }).closeWhenIdle_spec m.allSlots
  exact .changed _ hretired hkeyed htasks hheld hnone hmay hok

theorem advance_acquireSlot (hpoint : t.point = .start) (providerId : String) :
    Advance m task t (m.acquireSlot task providerId) := by
  have hheld : t.point.holds = none := by rw [hpoint]; rfl
  have hraised : Advance m task t (m.goto task .raised) :=
    .stay .raised hheld.symm trivial fun hnot => by
      rw [hpoint] at hnot
      exact absurd hnot (by simp [ManagerPoint.mayRaise])
  rw [acquireSlot]
  split
  · next config slot hconfig hslot =>
    split_ifs
    · exact .acquired hheld hslot
    · exact hraised
  · exact hraised

/-- The first step of an operation. -/
theorem advance_startStep (hsafe : Safe m) (hkeyed : Keyed m) (hpoint : t.point = .start)
    (h : m.startStep task t.call failures = some m') : Advance m task t m' := by
  have hheld : t.point.holds = none := by rw [hpoint]; rfl
  have hstay : ∀ point : ManagerPoint, point.holds = none → m.PointOk point →
      Advance m task t (m.goto task point) := fun point hnone hok =>
    .stay point (hnone.trans hheld.symm) hok fun hnot => by
      rw [hpoint] at hnot
      exact absurd hnot (by simp [ManagerPoint.mayRaise])
  cases hcall : t.call with
  | create provider replaceExisting =>
    simp only [hcall, startStep] at h
    split at h
    · obtain rfl := Option.some.inj h
      split
      · exact hstay .raised rfl trivial
      · exact advance_buildProvider hsafe hkeyed hpoint provider
    · exact absurd h (by simp)
  | update providerId update =>
    simp only [hcall, startStep] at h
    split at h
    · obtain rfl := Option.some.inj h
      split
      · exact hstay .raised rfl trivial
      · next config hconfig =>
        split
        · exact hstay .returned rfl trivial
        · -- the changed configuration is the provider's
          have hid : (update.apply config).providerId = providerId := hkeyed providerId config hconfig
          have hbuild : Advance m task t (m.buildProvider task (update.apply config)
              (m.slots (update.apply config).providerId) failures) :=
            advance_buildProvider hsafe hkeyed hpoint (update.apply config)
          rwa [hid] at hbuild
    · exact absurd h (by simp)
  | delete providerId =>
    simp only [hcall, startStep] at h
    split at h
    · obtain rfl := Option.some.inj h
      exact advance_deleteProvider hsafe hkeyed hpoint providerId
    · exact absurd h (by simp)
  | chat providerId | chatStream providerId =>
    simp only [hcall, startStep] at h
    split at h
    · obtain rfl := Option.some.inj h
      exact advance_acquireSlot hpoint providerId
    · exact absurd h (by simp)
  | close =>
    simp only [hcall, startStep] at h
    obtain rfl := Option.some.inj h
    exact advance_closeManager hsafe hpoint

theorem advance_finishClose (hsafe : Safe m) (hkeyed : Keyed m) (hheld : t.point.holds = none)
    (slot : Nat) {point : ManagerPoint} (hnone : point.holds = none)
    (hmay : point.mayRaise = false) (hok : (m.finishClose slot).PointOk point) :
    Advance m task t ((m.finishClose slot).goto task point) := by
  have hkeyed' : Keyed (m.finishClose slot) := by
    rw [finishClose]
    split <;> exact hkeyed
  exact .changed point (hsafe.finishClose slot) hkeyed' (m.tasks_finishClose slot) hheld hnone hmay
    hok

/-- A task that goes on. -/
theorem advance_goStep (hsafe : Safe m) (hkeyed : Keyed m) (ht : m.tasks[task]? = some t)
    (h : m.goStep task t.call failures t.point = some m') : Advance m task t m' := by
  have hok := hsafe.points t (List.mem_of_getElem? ht)
  cases hpoint : t.point with
  | start =>
    rw [hpoint] at h
    exact advance_startStep hsafe hkeyed hpoint h
  | building provider previous =>
    have hheld : t.point.holds = none := by rw [hpoint]; rfl
    have hmay : t.point.mayRaise = true := by rw [hpoint]; rfl
    rw [hpoint] at h hok
    rw [goStep] at h
    split at h
    · obtain rfl := Option.some.inj h
      refine .moved _ .raised hheld.symm trivial fun hnot => ?_
      rw [hmay] at hnot
      simp at hnot
    · obtain rfl := Option.some.inj h
      exact advance_replaceProvider hsafe hkeyed hheld hmay hok
  | discarding providerId =>
    rw [hpoint] at h
    obtain rfl := Option.some.inj h
    refine .moved _ .raised (by rw [hpoint]; rfl) trivial fun hnot => ?_
    rw [hpoint] at hnot
    exact absurd hnot (by simp [ManagerPoint.mayRaise])
  | calling slot =>
    rw [hpoint] at h hok
    have hmove : ∀ point : ManagerPoint, point.holds = some slot → m.PointOk point →
        point.mayRaise = false → Advance m task t (m.goto task point) := fun point hholds hp hmay =>
      .stay point (by rw [hholds, hpoint]; rfl) hp fun _ => hmay
    cases hcall : t.call with
    | chatStream providerId =>
      simp only [hcall, goStep] at h
      obtain rfl := Option.some.inj h
      split
      · exact hmove _ rfl hok rfl
      · exact hmove _ rfl hok rfl
    | _ =>
      simp only [hcall, goStep] at h
      obtain rfl := Option.some.inj h
      exact hmove _ rfl hok rfl
  | streaming slot =>
    rw [hpoint] at h hok
    obtain rfl := Option.some.inj h
    exact .stay _ (by rw [hpoint]; rfl) hok fun _ => rfl
  | releasing slot =>
    rw [hpoint] at h
    rw [goStep] at h
    split at h
    · split at h
      · obtain rfl := Option.some.inj h
        exact .released hpoint
      · exact absurd h (by simp)
    · exact absurd h (by simp)
  | waitIdle slot rest =>
    rw [hpoint] at h hok
    rw [goStep] at h
    split at h
    · next hidle =>
      obtain rfl := Option.some.inj h
      obtain ⟨s, hs, hret⟩ := hok
      have hquiet : s.activeCalls = 0 := (hsafe.counts slot s hs).2.mp (by
        rw [hs] at hidle
        exact hidle)
      exact .stay _ (by rw [hpoint]; rfl) ⟨s, hs, hret, hquiet⟩ fun _ => rfl
    · exact absurd h (by simp)
  | foundIdle slot rest =>
    rw [hpoint] at h hok
    obtain ⟨s, hs, -⟩ := hok
    obtain rfl := Option.some.inj h
    rw [startClose, hs]
    dsimp only
    split
    · exact .stay _ (by rw [hpoint]; rfl) trivial fun _ => rfl
    · next hnot => exact .closeStarted hpoint hs (by simpa using hnot)
  | waitClosed slot rest =>
    rw [hpoint] at h
    rw [goStep] at h
    split at h
    · obtain rfl := Option.some.inj h
      obtain ⟨hnext, hnone, hmay⟩ := m.closeWhenIdle_spec rest
      exact .stay _ (by rw [hnone, hpoint]; rfl) hnext fun _ => hmay
    · exact absurd h (by simp)
  | closing slot rest =>
    rw [hpoint] at h
    obtain rfl := Option.some.inj h
    obtain ⟨hnext, hnone, hmay⟩ := (m.finishClose slot).closeWhenIdle_spec rest
    exact advance_finishClose hsafe hkeyed (by rw [hpoint]; rfl) slot hnone hmay hnext
  | returned | raised | cancelled | abandoned slot =>
    rw [hpoint] at h
    exact absurd h (by simp [goStep])

/-- A task that is cancelled. -/
theorem advance_cancelStep (hsafe : Safe m) (hkeyed : Keyed m) (ht : m.tasks[task]? = some t)
    (h : m.cancelStep task t.point = some m') : Advance m task t m' := by
  have hok := hsafe.points t (List.mem_of_getElem? ht)
  cases hpoint : t.point with
  | start | discarding providerId | waitIdle slot rest | foundIdle slot rest
  | waitClosed slot rest | building provider previous =>
    rw [hpoint] at h
    obtain rfl := Option.some.inj h
    exact .moved _ .cancelled (by rw [hpoint]; rfl) trivial fun _ => rfl
  | calling slot | streaming slot | releasing slot =>
    rw [hpoint] at h hok
    obtain rfl := Option.some.inj h
    exact .stay _ (by rw [hpoint]; rfl) hok fun _ => rfl
  | closing slot rest =>
    rw [hpoint] at h
    obtain rfl := Option.some.inj h
    exact advance_finishClose hsafe hkeyed (by rw [hpoint]; rfl) slot rfl rfl trivial
  | returned | raised | cancelled | abandoned slot =>
    rw [hpoint] at h
    exact absurd h (by simp [cancelStep])

/-- A step is a new task, or a task that goes on. -/
theorem advance_of_step (hsafe : Safe m) (hkeyed : Keyed m) {label : ManagerLabel}
    (h : step m label = some m') :
    (∃ call, label = .call call ∧ m' = { m with tasks := m.tasks ++ [{ call }] }) ∨
      ∃ task t, label.task? = some task ∧ m.tasks[task]? = some t ∧ Advance m task t m' := by
  cases label with
  | call call => exact Or.inl ⟨call, rfl, (Option.some.inj h).symm⟩
  | go task failures =>
    obtain ⟨t, ht, h⟩ := Option.bind_eq_some_iff.mp h
    exact Or.inr ⟨task, t, rfl, ht, advance_goStep hsafe hkeyed ht h⟩
  | cancel task =>
    obtain ⟨t, ht, h⟩ := Option.bind_eq_some_iff.mp h
    exact Or.inr ⟨task, t, rfl, ht, advance_cancelStep hsafe hkeyed ht h⟩

/-! ### Runs -/

/-- A manager before its first operation. -/
def initial (configStore : Option (String → Option ProviderConfig)) (hasSecretResolver : Bool) :
    ProviderManager := { configStore, hasSecretResolver }

theorem safe_initial (configStore : Option (String → Option ProviderConfig))
    (hasSecretResolver : Bool) : Safe (initial configStore hasSecretResolver) ∧
      Keyed (initial configStore hasSecretResolver) := by
  have hnone : ∀ slot, (initial configStore hasSecretResolver).slot? slot = none := fun slot => by
    simp [slot?, initial]
  refine ⟨⟨fun _ _ h => absurd h (by simp [initial]), fun slot s hs => ?_,
    fun t ht => absurd ht (by simp [initial]), fun slot s hs => ?_, List.nodup_nil,
    fun i hi => absurd hi (by simp [initial]), fun slot s hs => ?_, fun slot _ s _ hs => ?_,
    fun slot s hs => ?_⟩, fun _ _ h => absurd h (by simp [initial])⟩
  all_goals
    rw [hnone] at hs
    exact absurd hs (by simp)

/-- The holders do not change when a task is added. -/
theorem safe_call (hsafe : Safe m) (call : ManagerCall) :
    Safe { m with tasks := m.tasks ++ [{ call }] } := by
  have hholders : ∀ slot, ({ m with tasks := m.tasks ++ [{ call }] } : ProviderManager).holders slot =
      m.holders slot := fun slot => by
    simp [holders, ManagerPoint.holds, List.countP_append]
  refine ⟨hsafe.live, fun slot s hs => ?_, fun t ht => ?_, hsafe.started, hsafe.closes_nodup,
    hsafe.closes_built, hsafe.slot_built, hsafe.distinct, hsafe.closes_started⟩
  · rw [hholders]
    exact hsafe.counts slot s hs
  · rcases List.mem_append.mp ht with ht | ht
    · exact (HeapLe.of_heap_eq rfl).pointOk (hsafe.points t ht)
    · obtain rfl : t = { call } := by simpa using ht
      trivial

/-- **The step lemma.** -/
theorem safe_step (hsafe : Safe m) (hkeyed : Keyed m) {label : ManagerLabel}
    (h : step m label = some m') : Safe m' ∧ Keyed m' := by
  rcases advance_of_step hsafe hkeyed h with ⟨call, -, rfl⟩ | ⟨task, t, -, ht, hadvance⟩
  · exact ⟨safe_call hsafe call, hkeyed⟩
  · exact ⟨hadvance.safe hsafe ht, hadvance.keyed hkeyed⟩

/-- **The run lemma.** -/
theorem safe_run {labels : List ManagerLabel} (h : Safe m ∧ Keyed m)
    (hrun : TransitionSystem.run step m labels = some m') : Safe m' ∧ Keyed m' :=
  TransitionSystem.run_invariant (fun _ _ _ h hstep => safe_step h.1 h.2 hstep) h hrun

/-- The task is there and cannot raise any more. -/
def Settled (task : Nat) (m : ProviderManager) : Prop :=
  ∃ t, m.tasks[task]? = some t ∧ t.point.mayRaise = false

/-- A task that cannot raise any more never does. -/
theorem settled_step (hsafe : Safe m) (hkeyed : Keyed m) (hsettled : Settled task m)
    {label : ManagerLabel} (h : step m label = some m') : Settled task m' := by
  obtain ⟨t, ht, hmay⟩ := hsettled
  rcases advance_of_step hsafe hkeyed h with ⟨call, -, rfl⟩ | ⟨task', t', -, ht', hadvance⟩
  · refine ⟨t, ?_, hmay⟩
    rw [List.getElem?_append_left (List.getElem?_eq_some_iff.mp ht).1]
    exact ht
  · obtain ⟨point, htasks, -, hkept, -⟩ := hadvance.tasks_eq
    rw [Settled, htasks, List.getElem?_modify]
    by_cases heq : task' = task
    · subst heq
      obtain rfl : t = t' := Option.some.inj (ht.symm.trans ht')
      exact ⟨{ t with point }, by simp [ht], hkept hmay⟩
    · exact ⟨t, by simp [heq, ht], hmay⟩

theorem settled_run {labels : List ManagerLabel} (hsafe : Safe m) (hkeyed : Keyed m)
    (hsettled : Settled task m) (hrun : TransitionSystem.run step m labels = some m') :
    Settled task m' := by
  have h := TransitionSystem.run_invariant (I := fun m => (Safe m ∧ Keyed m) ∧ Settled task m)
    (fun _ _ _ h hstep => ⟨safe_step h.1.1 h.1.2 hstep, settled_step h.1.1 h.1.2 h.2 hstep⟩)
    ⟨⟨hsafe, hkeyed⟩, hsettled⟩ hrun
  exact h.2

end ProviderManager

/-! ### The result -/

open ProviderManager in
/-- **Provider slot safety**, over every run of the manager: an instance is closed at most once and
has no call then or later; no step gives a retired slot to a call; and no step of an operation that
raises has changed the configurations, the live slots or the store. -/
theorem providerSlotSafety (configStore : Option (String → Option ProviderConfig))
    (hasSecretResolver : Bool) (labels : List ManagerLabel) (m : ProviderManager)
    (hrun : TransitionSystem.run step (initial configStore hasSecretResolver) labels = some m) :
    (m.closes.Nodup ∧
      ∀ slot s, m.slot? slot = some s → s.built ∈ m.closes → m.holders slot = 0) ∧
    (∀ label m', step m label = some m' →
      ∀ slot s, m.slot? slot = some s → s.retired = true → m'.holders slot ≤ m.holders slot) ∧
    (∀ before label after m₁ m₂ task t, labels = before ++ label :: after →
      TransitionSystem.run step (initial configStore hasSecretResolver) before = some m₁ →
      step m₁ label = some m₂ → label.task? = some task →
      m.tasks[task]? = some t → t.point = .raised → SameRegistry m₁ m₂) := by
  have hinit := safe_initial configStore hasSecretResolver
  obtain ⟨hsafe, hkeyed⟩ := safe_run hinit hrun
  refine ⟨⟨hsafe.closes_nodup, fun slot s hs hmem => ?_⟩, fun label m' hstep slot s hs hret => ?_,
    fun before label after m₁ m₂ task t hlabels hbefore hstep htask ht hraised => ?_⟩
  · have hzero := (hsafe.started slot s hs (hsafe.closes_started slot s hs hmem)).2
    have hcount := (hsafe.counts slot s hs).1
    omega
  · rcases advance_of_step hsafe hkeyed hstep with ⟨call, -, rfl⟩ | ⟨task, t, -, ht, hadvance⟩
    · have hsame : ({ m with tasks := m.tasks ++ [{ call }] } : ProviderManager).holders slot =
          m.holders slot := by
        simp [holders, ManagerPoint.holds, List.countP_append]
      exact hsame.le
    · exact hadvance.holders_le hsafe ht hs hret
  · obtain ⟨hsafe₁, hkeyed₁⟩ := safe_run hinit hbefore
    obtain ⟨hsafe₂, hkeyed₂⟩ := safe_step hsafe₁ hkeyed₁ hstep
    have hafter : TransitionSystem.run step m₂ after = some m := by
      rw [hlabels, TransitionSystem.run_append, hbefore] at hrun
      obtain ⟨m', hm', hrest⟩ := TransitionSystem.run_cons_eq_some.mp hrun
      obtain rfl : m₂ = m' := Option.some.inj (hstep.symm.trans hm')
      exact hrest
    rcases advance_of_step hsafe₁ hkeyed₁ hstep with ⟨call, rfl, -⟩ |
      ⟨task', t', htask', ht', hadvance⟩
    · exact absurd htask (by simp [ManagerLabel.task?])
    · obtain rfl : task = task' := Option.some.inj (htask.symm.trans htask')
      obtain ⟨point, htasks, -, -, hsame⟩ := hadvance.tasks_eq
      cases hmay : point.mayRaise with
      | true => exact hsame hmay
      -- from here on the operation would not raise
      | false =>
        have hsettled : Settled task m₂ := by
          refine ⟨{ t' with point }, ?_, hmay⟩
          rw [htasks, List.getElem?_modify]
          simp [ht']
        obtain ⟨t'', ht'', hnot⟩ := settled_run hsafe₂ hkeyed₂ hsettled hafter
        obtain rfl : t = t'' := Option.some.inj (ht.symm.trans ht'')
        rw [hraised] at hnot
        exact absurd hnot (by simp [ManagerPoint.mayRaise])

section Example

private def exampleProvider : ProviderConfig where
  providerId := "p"
  name := "P"
  type := .openai

/-- A provider is created, called, replaced during the call, and the old instance is closed when
the call has ended. -/
private def replacedDuringCall : List ManagerLabel :=
  [.call (.create exampleProvider true), .go 0 [], .go 0 [], .call (.chat "p"), .go 1 [],
    .call (.create exampleProvider true), .go 2 [], .go 2 [], .go 1 [], .go 1 [], .go 1 [],
    .go 1 []]

theorem providerSlotSafety_replacedDuringCall :
    ∃ m, TransitionSystem.run ProviderManager.step (ProviderManager.initial none false)
      replacedDuringCall = some m ∧ m.closes = [0] ∧ m.closes.Nodup :=
  ⟨_, rfl, rfl, (providerSlotSafety none false replacedDuringCall _ rfl).1.1⟩

end Example

end EvernightAI

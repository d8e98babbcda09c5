import EvernightAI.Tool.ShellPolicy

/-!
# The shell policy is monotone

A level decides only which of the effects are allowed; rules and keys only take away. The verdicts
of nested commands are folded back into the effects of the command around them, so each of this is
carried through the checks: a check of the stricter policy that ends well ends in the same place
under the laxer one (`Refines`).

* `Decision.facts` is what a policy uses of the decision on a nested command; no level shows in it.
* `Accepting` is what it takes to end well; `refines_inspect` carries it through a tree.
* `evaluate_of_stricter` and `evaluate_of_fewer_trusted` are the inductions over the nesting.
-/

namespace EvernightAI.Shell

open PosixPath

/-! ### Checks that add -/

/-- A rejection, and nothing granted. -/
def Decision.Refuses (d : Decision) : Prop := d.kind = .reject ∧ d.effects = ∅

/-- What a check may do to an inspection: add effects, and add rejections. -/
structure Adds (s t : Inspection) : Prop where
  effects : s.effects ⊆ t.effects
  rejections : s.rejections <+: t.rejections
  refusing : (∀ d ∈ s.rejections, d.Refuses) → ∀ d ∈ t.rejections, d.Refuses

theorem Adds.refl (s : Inspection) : Adds s s := ⟨Finset.Subset.refl _, List.prefix_rfl, id⟩

theorem Adds.trans {s t v : Inspection} (h : Adds s t) (h' : Adds t v) : Adds s v :=
  ⟨h.effects.trans h'.effects, h.rejections.trans h'.rejections, h'.refusing ∘ h.refusing⟩

theorem adds_grant (s : Inspection) (effects : Finset Effect) : Adds s (s.grant effects) :=
  ⟨Finset.subset_union_left, List.prefix_rfl, id⟩

theorem adds_absorb (s : Inspection) {child : Decision}
    (hchild : child.kind = .reject → child.Refuses) : Adds s (s.absorb child) := by
  refine ⟨Finset.Subset.refl _, ?_, fun hs => ?_⟩
  · show s.rejections <+: if child.kind = .reject then s.rejections ++ [child] else s.rejections
    split_ifs
    · exact List.prefix_append _ _
    · exact List.prefix_rfl
  · show ∀ d ∈ (if child.kind = .reject then s.rejections ++ [child] else s.rejections), d.Refuses
    split_ifs with hkind
    · intro d hd
      rcases List.mem_append.mp hd with hd | hd
      · exact hs d hd
      · exact List.mem_singleton.mp hd ▸ hchild hkind
    · exact hs

/-- Inspections with the same findings, wherever they are. -/
theorem adds_of_eq {s t : Inspection} (heffects : t.effects = s.effects)
    (hrejections : t.rejections = s.rejections) : Adds s t :=
  ⟨heffects ▸ Finset.Subset.refl _, hrejections ▸ List.prefix_rfl, hrejections ▸ id⟩

/-! ### Decisions on nested commands -/

/-- What a policy uses of the decision on a nested command. -/
def Decision.facts (d : Decision) : Bool × Finset Effect × Finset Effect × Option Decision :=
  (d.stdinIsCode, d.effects, d.granted, if d.kind = .reject then some d else none)

theorem Decision.granted_eq {d d' : Decision} (h : d'.facts = d.facts) : d'.granted = d.granted :=
  congrArg (fun facts => facts.2.2.1) h

theorem Decision.absorb_eq {d d' : Decision} (h : d'.facts = d.facts) (s : Inspection) :
    s.absorb d' = s.absorb d := by
  have hstdin : d'.stdinIsCode = d.stdinIsCode := congrArg Prod.fst h
  have hreject : (if d'.kind = .reject then some d' else none) =
      if d.kind = .reject then some d else none := congrArg (fun facts => facts.2.2.2) h
  unfold Inspection.absorb
  rw [hstdin]
  split_ifs at hreject ⊢ with hd' hd
  · rw [Option.some.inj hreject]
  · rfl

theorem Decision.kind_eq_reject_iff {d d' : Decision} (h : d'.facts = d.facts) :
    d'.kind = .reject ↔ d.kind = .reject := by
  have hreject : (if d'.kind = .reject then some d' else none) =
      if d.kind = .reject then some d else none := congrArg (fun facts => facts.2.2.2) h
  split_ifs at hreject with hd' hd
  · exact iff_of_true hd' hd
  · exact iff_of_false hd' ‹_›

/-! ### Ending well -/

/-- **What it takes to end well** is lost for good, and an unknown effect decides it. -/
structure Accepting (fine : Inspection → Prop) : Prop where
  down : ∀ {s t : Inspection},
    s.effects ⊆ t.effects → s.rejections <+: t.rejections → fine t → fine s
  unknown : ∀ {s t : Inspection}, Effect.unknown ∈ t.effects → s.rejections = t.rejections →
    fine t → fine s

/-- **Refinement.** Where the first check ends well, the second ends in the same place, or raises if
it may. -/
def Refines (fine : Inspection → Prop) (raises : Prop) (check' check : Check) : Prop :=
  ∀ s t, check' s = .ok t → fine t →
    Adds s t ∧ (check s = .ok t ∨ (raises ∧ ∃ e, check s = .error e))

variable {fine : Inspection → Prop} {raises : Prop} {check check' : Check}

theorem Refines.of_adds (h : ∀ s t, check s = .ok t → Adds s t) : Refines fine raises check check :=
  fun s t hcheck _ => ⟨h s t hcheck, .inl hcheck⟩

theorem refines_ok : Refines fine raises .ok .ok :=
  .of_adds fun s t h => by
    obtain rfl := Except.ok.inj h
    exact .refl s

theorem refines_addEffects (effects : Finset Effect) :
    Refines fine raises (addEffects effects) (addEffects effects) :=
  .of_adds fun s t h => by
    obtain rfl := Except.ok.inj h
    exact adds_grant s effects

theorem refines_ite {p : Prop} [Decidable p] {other other' : Check}
    (h : Refines fine raises check' check) (h' : Refines fine raises other' other) :
    Refines fine raises (if p then check' else other') (if p then check else other) := by
  split_ifs
  · exact h
  · exact h'

/-- A check that is chosen by the inspection. -/
theorem refines_if {p : Inspection → Prop} [DecidablePred p] {other other' : Check}
    (h : Refines fine raises check' check) (h' : Refines fine raises other' other) :
    Refines fine raises (fun s => if p s then check' s else other' s)
      (fun s => if p s then check s else other s) := by
  intro s t hcheck hfine
  dsimp only at hcheck ⊢
  split_ifs at hcheck ⊢
  · exact h s t hcheck hfine
  · exact h' s t hcheck hfine

theorem Refines.then (haccepting : Accepting fine) {next next' : Check}
    (h : Refines fine raises check' check) (h' : Refines fine raises next' next) :
    Refines fine raises (fun s => (check' s).bind next') (fun s => (check s).bind next) := by
  intro s t hcheck hfine
  obtain ⟨m, hm, hnext⟩ := exists_of_bind_eq_ok hcheck
  obtain ⟨hadds', hend⟩ := h' m t hnext hfine
  obtain ⟨hadds, hmid⟩ := h s m hm (haccepting.down hadds'.effects hadds'.rejections hfine)
  refine ⟨hadds.trans hadds', ?_⟩
  show (check s).bind next = .ok t ∨ (raises ∧ ∃ e, (check s).bind next = .error e)
  rcases hmid with hmid | ⟨hraises, e, hmid⟩
  · rw [hmid]
    exact hend
  · rw [hmid]
    exact .inr ⟨hraises, e, rfl⟩

theorem refines_inOrder (haccepting : Accepting fine) {checks' checks : List Check}
    (h : List.Forall₂ (Refines fine raises) checks' checks) :
    Refines fine raises (inOrder checks') (inOrder checks) := by
  induction h with
  | nil => exact refines_ok
  | cons hhead _ ih => exact hhead.then haccepting ih

/-! ### The checks of a command -/

abbrev Call := ShellCommand → Inspection → Except String (Finset Effect × Inspection)

/-- **Refinement of `child_effects`.** -/
structure CallRefines (fine : Inspection → Prop) (raises : Prop) (call' call : Call) : Prop where
  adds : ∀ command s v, call' command s = .ok v → Adds s v.2
  ends : ∀ command s v, call' command s = .ok v → fine (v.2.grant v.1) →
    call command s = .ok v ∨ (raises ∧ ∃ e, call command s = .error e)

namespace ShellCommandPolicy

variable {call call' : Call}

theorem refines_addChild (hcall : CallRefines fine raises call' call) (command : ShellCommand) :
    Refines fine raises (addChild call' command) (addChild call command) := by
  intro s t hcheck hfine
  obtain ⟨v, hv, rfl⟩ := exists_of_map_eq_ok hcheck
  refine ⟨(hcall.adds command s v hv).trans (adds_grant _ _), ?_⟩
  rcases hcall.ends command s v hv hfine with hend | ⟨hraises, e, hend⟩
  · exact .inl (by rw [addChild, hend]; rfl)
  · exact .inr ⟨hraises, e, by rw [addChild, hend]; rfl⟩

theorem adds_findEffects (hcall : CallRefines fine raises call' call) {calls : List (List String)}
    {granted g : Finset Effect} {s t : Inspection}
    (h : findEffects call' calls granted s = .ok (g, t)) : Adds s t ∧ granted ⊆ g := by
  induction calls generalizing granted s with
  | nil =>
    obtain ⟨rfl, rfl⟩ := Prod.mk.inj (Except.ok.inj h)
    exact ⟨.refl _, Finset.Subset.refl _⟩
  | cons command rest ih =>
    obtain ⟨v, hv, hrest⟩ := exists_of_bind_eq_ok h
    obtain ⟨hadds, hsub⟩ := ih hrest
    exact ⟨(hcall.adds _ _ _ hv).trans hadds, Finset.subset_union_left.trans hsub⟩

/-- The calls of a `find` end in the same place, if everything they find is fine. -/
theorem ends_findEffects (hcall : CallRefines fine raises call' call) {calls : List (List String)}
    {granted g : Finset Effect} {s t : Inspection}
    (h : findEffects call' calls granted s = .ok (g, t))
    (hfine : ∀ m : Inspection, m.effects ⊆ t.effects ∪ g → m.rejections <+: t.rejections → fine m) :
    findEffects call calls granted s = .ok (g, t) ∨
      (raises ∧ ∃ e, findEffects call calls granted s = .error e) := by
  induction calls generalizing granted s with
  | nil => exact .inl h
  | cons command rest ih =>
    obtain ⟨v, hv, hrest⟩ := exists_of_bind_eq_ok h
    obtain ⟨hadds, hsub⟩ := adds_findEffects hcall hrest
    have hgranted : v.2.effects ∪ v.1 ⊆ t.effects ∪ g :=
      Finset.union_subset_union hadds.effects (Finset.subset_union_right.trans hsub)
    rcases hcall.ends _ _ _ hv (hfine _ hgranted hadds.rejections) with hend | ⟨hraises, e, hend⟩
    · rw [findEffects, hend]
      exact ih hrest
    · exact .inr ⟨hraises, e, by rw [findEffects, hend]; rfl⟩

theorem refines_findCheck (haccepting : Accepting fine) (hcall : CallRefines fine raises call' call)
    (args : List String) :
    Refines fine raises (findCheck call' args) (findCheck call args) := by
  intro s t hcheck hfine
  obtain ⟨⟨g, m⟩, hm, rfl⟩ := exists_of_map_eq_ok hcheck
  obtain ⟨hadds, -⟩ := adds_findEffects hcall hm
  refine ⟨hadds.trans (adds_grant _ _), ?_⟩
  have hall : ∀ n : Inspection,
      n.effects ⊆ m.effects ∪ g → n.rejections <+: m.rejections → fine n := by
    intro n heffects hrejections
    cases hrefused : (findCalls 0 args).2 with
    | false =>
      have hfine : fine (m.grant g) := by
        simpa only [hrefused, Bool.false_eq_true, if_false] using hfine
      exact haccepting.down (t := m.grant g) heffects hrejections hfine
    | true =>
      -- a refused list is unknown, so only the rejections matter
      have hfine : fine (m.grant {.unknown}) := by
        simpa only [hrefused, if_true] using hfine
      have hunknown : Effect.unknown ∈ (m.grant {.unknown}).effects :=
        Finset.mem_union_right _ (Finset.mem_singleton_self _)
      have hn : fine { n with rejections := m.rejections } :=
        haccepting.unknown hunknown rfl hfine
      exact haccepting.down (t := { n with rejections := m.rejections })
        (Finset.Subset.refl _) hrejections hn
  rcases ends_findEffects hcall hm hall with hend | ⟨hraises, e, hend⟩
  · exact .inl (by rw [findCheck, hend]; rfl)
  · exact .inr ⟨hraises, e, by rw [findCheck, hend]; rfl⟩

/-! ### The checks of a tree -/

variable {policy policy' : ShellCommandPolicy} {host : PolicyHost}

theorem refines_declaredCheck (hroot : policy'.root = policy.root) (name : String) (spec : Spec)
    (positions : List String) :
    Refines fine raises (policy'.declaredCheck host name spec positions)
      (policy.declaredCheck host name spec positions) := by
  have hwrites : policy'.writes host = policy.writes host := by
    funext cwd path
    unfold writes mapped
    rw [hroot]
  have heq : policy'.declaredCheck host name spec positions =
      policy.declaredCheck host name spec positions := by
    unfold declaredCheck declaredEffect
    rw [hwrites]
  rw [heq]
  refine .of_adds fun s t h => ?_
  unfold declaredCheck at h
  have hfirst := adds_grant s {policy.declaredEffect host spec name s.cwd positions}
  dsimp only at h
  generalize s.grant {policy.declaredEffect host spec name s.cwd positions} = m at h hfirst
  refine hfirst.trans ?_
  split_ifs at h with hcd
  · split at h
    · split_ifs at h with hw
      · obtain rfl := Except.ok.inj h
        exact adds_of_eq rfl rfl
      · obtain rfl := Except.ok.inj h
        exact adds_grant _ _
    · obtain rfl := Except.ok.inj h
      exact adds_grant _ _
  · obtain rfl := Except.ok.inj h
    exact .refl _

theorem refines_programCheck (haccepting : Accepting fine)
    (hcall : CallRefines fine raises call' call) (hroot : policy'.root = policy.root)
    (hother : ∀ argv, Refines fine raises (policy'.otherCheck host call' argv)
      (policy.otherCheck host call argv)) (fed : Bool) (argv : List String) :
    Refines fine raises (policy'.programCheck host call' fed argv)
      (policy.programCheck host call fed argv) := by
  unfold programCheck
  dsimp only
  split
  · exact refines_declaredCheck hroot _ _ _
  · refine refines_ite (refines_addEffects _) ?_
    refine refines_ite (refines_inOrder haccepting
      (.cons (refines_addEffects _) (.cons (refines_addChild hcall _) .nil))) ?_
    refine refines_ite (refines_addChild hcall _) ?_
    refine refines_ite (refines_addChild hcall _) ?_
    refine refines_ite (refines_addChild hcall _) ?_
    refine refines_ite (refines_inOrder haccepting
      (.cons (refines_findCheck haccepting hcall _) (.cons ?_ .nil))) ?_
    · exact refines_if (refines_addEffects _) refines_ok
    · exact refines_ite (refines_addEffects _) (hother argv)

theorem refines_wordsCheck (haccepting : Accepting fine)
    (hcall : CallRefines fine raises call' call) (hroot : policy'.root = policy.root)
    (hother : ∀ argv, Refines fine raises (policy'.otherCheck host call' argv)
      (policy.otherCheck host call argv)) (state : Option ShellSessionState) (shell fed : Bool)
    (argv : List String) :
    Refines fine raises (policy'.wordsCheck host call' state shell fed argv)
      (policy.wordsCheck host call state shell fed argv) := by
  have hbase : policy'.baseExecutable host = policy.baseExecutable host := by
    funext state shell cwd name
    unfold baseExecutable
    rw [hroot]
  unfold wordsCheck
  dsimp only
  refine refines_inOrder haccepting (.cons ?_ (.cons ?_ (.cons ?_ (.cons ?_ .nil))))
  · refine .of_adds fun s t h => ?_
    obtain rfl := Except.ok.inj h
    exact adds_of_eq rfl rfl
  · exact refines_ite (refines_addEffects _) refines_ok
  · rw [hbase]
    refine refines_if (refines_addEffects _) (refines_if (refines_addEffects _) ?_)
    exact refines_if (refines_addEffects _)
      (refines_programCheck haccepting hcall hroot hother fed argv)
  · refine refines_ite ?_ refines_ok
    split
    · exact refines_addChild hcall _
    · exact refines_ok

theorem refines_nodeCheck (haccepting : Accepting fine)
    (hcall : CallRefines fine raises call' call) (hroot : policy'.root = policy.root)
    (hother : ∀ argv, Refines fine raises (policy'.otherCheck host call' argv)
      (policy.otherCheck host call argv)) (state : Option ShellSessionState) (shell : Bool)
    (node : Syntax) :
    Refines fine raises (policy'.nodeCheck host call' state shell node)
      (policy.nodeCheck host call state shell node) := by
  have hwrites : policy'.writes host = policy.writes host := by
    funext cwd path
    unfold writes mapped
    rw [hroot]
  have hredirect : policy'.redirectCheck host = policy.redirectCheck host := by
    funext redirect s
    unfold redirectCheck
    rw [hwrites]
  unfold nodeCheck
  refine refines_inOrder haccepting (.cons ?_ (.cons ?_ (.cons ?_ .nil)))
  · exact refines_ite (refines_addEffects _) refines_ok
  · rw [hredirect]
    refine refines_inOrder haccepting (List.forall₂_same.mpr fun check hcheck => ?_)
    obtain ⟨redirect, -, rfl⟩ := List.mem_map.mp hcheck
    refine .of_adds fun s t h => ?_
    unfold redirectCheck at h
    split_ifs at h
    · exact Except.ok.inj h ▸ .refl s
    · split at h <;> exact Except.ok.inj h ▸ adds_grant s _
  · unfold argvCheck
    dsimp only
    refine refines_ite refines_ok (refines_ite (refines_addEffects _) ?_)
    refine refines_ite (refines_addEffects _) (refines_ite (refines_addEffects _) ?_)
    exact refines_wordsCheck haccepting hcall hroot hother state shell node.stdin _

/-- The directory of a subshell is left again. -/
theorem refines_leave (haccepting : Accepting fine) (kind : String) {next' next : Check}
    (h : Refines fine raises check' check) (h' : Refines fine raises next' next) :
    Refines fine raises
      (fun s => (check' s).bind fun t => (next' t).map fun t =>
        if kind = "subshell" ∨ kind = "pipeline" then { t with cwd := s.cwd } else t)
      (fun s => (check s).bind fun t => (next t).map fun t =>
        if kind = "subshell" ∨ kind = "pipeline" then { t with cwd := s.cwd } else t) := by
  intro s t hcheck hfine
  obtain ⟨m, hm, hnext⟩ := exists_of_bind_eq_ok hcheck
  obtain ⟨n, hn, hend⟩ := exists_of_map_eq_ok hnext
  have hleft : t.effects = n.effects ∧ t.rejections = n.rejections := by
    rw [← hend]
    split_ifs <;> exact ⟨rfl, rfl⟩
  have hnfine : fine n :=
    haccepting.down (hleft.1 ▸ Finset.Subset.refl _) (hleft.2 ▸ List.prefix_rfl) hfine
  obtain ⟨hadds', hnend⟩ := h' m n hn hnfine
  obtain ⟨hadds, hmend⟩ := h s m hm (haccepting.down hadds'.effects hadds'.rejections hnfine)
  refine ⟨(hadds.trans hadds').trans (adds_of_eq hleft.1 hleft.2), ?_⟩
  dsimp only
  rcases hmend with hmend | ⟨hraises, e, hmend⟩
  · rcases hnend with hnend | ⟨hraises, e, hnend⟩
    · exact .inl (by rw [hmend, ← hend]; show (next m).map _ = _; rw [hnend]; rfl)
    · exact .inr ⟨hraises, e, by rw [hmend]; show (next m).map _ = _; rw [hnend]; rfl⟩
  · exact .inr ⟨hraises, e, by rw [hmend]; rfl⟩

section Tree

variable (haccepting : Accepting fine) (hcall : CallRefines fine raises call' call)
  (hroot : policy'.root = policy.root)
  (hother : ∀ argv, Refines fine raises (policy'.otherCheck host call' argv)
    (policy.otherCheck host call argv)) (state : Option ShellSessionState) (shell : Bool)

include haccepting hcall hroot hother

set_option linter.unusedSectionVars false

mutual

theorem refines_inspect : ∀ node : Syntax,
    Refines fine raises (policy'.inspect host call' state shell node)
      (policy.inspect host call state shell node)
  | .node kind _ _ children _ _ _ _ _ =>
    refines_leave haccepting kind
      (refines_nodeCheck haccepting hcall hroot hother state shell _) (refines_inspectAll children)

theorem refines_inspectAll : ∀ children : List Syntax,
    Refines fine raises (policy'.inspectAll host call' state shell children)
      (policy.inspectAll host call state shell children)
  | [] => refines_ok
  | child :: rest => (refines_inspect child).then haccepting (refines_inspectAll rest)

end

/-- **The checks on the syntax** refine each other, if the branches that differ do. -/
theorem refines_syntaxCheck (command : ShellCommand) :
    Refines fine raises (policy'.syntaxCheck host call' state command)
      (policy.syntaxCheck host call state command) := by
  unfold syntaxCheck
  refine refines_inOrder haccepting (.cons ?_ (.cons ?_ .nil))
  · exact refines_inspect haccepting hcall hroot hother state _ _
  · refine refines_inOrder haccepting ?_
    rw [List.forall₂_map_left_iff, List.forall₂_map_right_iff]
    exact List.forall₂_same.mpr fun body _ => refines_addChild hcall _

end Tree

/-! ### Trusted rules -/

/-- `otherCheck`, by what the nested command is. -/
theorem otherCheck_eq (argv : List String) (s : Inspection) :
    policy.otherCheck host call argv s =
      (wildcard argv policy.trusted).bind fun trusted =>
        if trusted = true ∧ argv.headD "" ∉ neverTrusted ∧
            ¬(argv.headD "" = "uv" ∧ "publish" ∈ argv) then addEffects {.read} s
        else (addEffects {.unknown} s).bind fun s =>
          (nested host argv).elim (.ok s) fun command => addChild call command s := by
  unfold otherCheck
  cases nested host argv with
  | none => rfl
  | some command => rfl

theorem refines_otherCheck (haccepting : Accepting fine)
    (hcall : CallRefines fine raises call' call) (htrusted : policy'.trusted = policy.trusted)
    (argv : List String) :
    Refines fine raises (policy'.otherCheck host call' argv)
      (policy.otherCheck host call argv) := by
  intro s t hcheck hfine
  rw [otherCheck_eq] at hcheck ⊢
  obtain ⟨trusted, hwildcard, hrest⟩ := exists_of_bind_eq_ok hcheck
  rw [htrusted] at hwildcard
  have hnext : Refines fine raises
      (fun s => if trusted = true ∧ argv.headD "" ∉ neverTrusted ∧
          ¬(argv.headD "" = "uv" ∧ "publish" ∈ argv) then addEffects {.read} s
        else (addEffects {.unknown} s).bind fun s =>
          (nested host argv).elim (.ok s) fun command => addChild call' command s)
      (fun s => if trusted = true ∧ argv.headD "" ∉ neverTrusted ∧
          ¬(argv.headD "" = "uv" ∧ "publish" ∈ argv) then addEffects {.read} s
        else (addEffects {.unknown} s).bind fun s =>
          (nested host argv).elim (.ok s) fun command => addChild call command s) := by
    refine refines_if (refines_addEffects _) ((refines_addEffects _).then haccepting ?_)
    cases nested host argv with
    | some command => exact refines_addChild hcall command
    | none => exact refines_ok
  obtain ⟨hadds, hend⟩ := hnext s t hrest hfine
  refine ⟨hadds, ?_⟩
  rw [hwildcard]
  exact hend

/-! ### Decisions -/

theorem callRefines_childEffects {run' run : PurePath → ShellCommand → Except String Decision}
    (hrefuses : ∀ cwd command d, run' cwd command = .ok d → d.kind = .reject → d.Refuses)
    (hends : ∀ cwd command (d : Decision) (s : Inspection), run' cwd command = .ok d →
      fine ((s.absorb d).grant d.granted) →
      (∃ d', run cwd command = .ok d' ∧ d'.facts = d.facts) ∨
        (raises ∧ ∃ e, run cwd command = .error e)) :
    CallRefines fine raises (childEffects run') (childEffects run) := by
  constructor
  · intro command s v h
    obtain ⟨d, hd, rfl⟩ := exists_of_map_eq_ok h
    exact adds_absorb s (hrefuses _ _ _ hd)
  · intro command s v h hfine
    obtain ⟨d, hd, rfl⟩ := exists_of_map_eq_ok h
    unfold childEffects
    rcases hends _ _ _ s hd hfine with ⟨d', hd', hfacts⟩ | ⟨hraises, e, he⟩
    · rw [hd']
      exact .inl (congrArg Except.ok (Prod.ext (Decision.granted_eq hfacts)
        (Decision.absorb_eq hfacts s)))
    · exact .inr ⟨hraises, e, by rw [he]; rfl⟩

/-- `child_effects`, with the levels of nesting that are left. -/
def nestedCall (host : PolicyHost) (levels : ℕ) (policy : ShellCommandPolicy)
    (state : Option ShellSessionState) : Call :=
  childEffects fun cwd command => evaluate host levels { policy with cwd := cwd } command ∅ state

/-- Where a decision comes from. -/
theorem evaluate_cases {levels : ℕ} {command : ShellCommand} {env : Environment}
    {state : Option ShellSessionState} {d : Decision}
    (h : evaluate host (levels + 1) policy command env state = .ok d) :
    deletionDecision host command = some d ∨
      deletionDecision host command = none ∧ ∃ rules, policy.blocked.mapM Shlex.split = .ok rules ∧
        (policy.earlyDecision host rules (levels + 1) command env state = some d ∨
          policy.earlyDecision host rules (levels + 1) command env state = none ∧
          ∃ s, policy.syntaxCheck host (nestedCall host levels policy state) state command
              { cwd := policy.cwd } = .ok s ∧ d = policy.decide s) := by
  unfold evaluate at h
  split at h
  · rename_i decision hdecision
    obtain rfl := Except.ok.inj h
    exact .inl hdecision
  · rename_i hdecision
    refine .inr ⟨hdecision, ?_⟩
    obtain ⟨rules, hrules, h⟩ := exists_of_bind_eq_ok h
    refine ⟨rules, hrules, ?_⟩
    split at h
    · rename_i decision hearly
      obtain rfl := Except.ok.inj h
      exact .inl hearly
    · rename_i hearly
      obtain ⟨s, hs, h⟩ := exists_of_bind_eq_ok h
      exact .inr ⟨hearly, s, hs, (Except.ok.inj h).symm⟩

theorem evaluate_of_deletion {levels : ℕ} {command : ShellCommand} {env : Environment}
    {state : Option ShellSessionState} {d : Decision}
    (hdeletion : deletionDecision host command = some d) :
    evaluate host (levels + 1) policy command env state = .ok d := by
  unfold evaluate
  rw [hdeletion]

theorem evaluate_of_early {levels : ℕ} {command : ShellCommand} {env : Environment}
    {state : Option ShellSessionState} {rules : List (List String)} {d : Decision}
    (hdeletion : deletionDecision host command = none)
    (hrules : policy.blocked.mapM Shlex.split = .ok rules)
    (hearly : policy.earlyDecision host rules (levels + 1) command env state = some d) :
    evaluate host (levels + 1) policy command env state = .ok d := by
  unfold evaluate
  rw [hdeletion, hrules]
  dsimp only [bind, Except.bind]
  rw [hearly]
  rfl

theorem evaluate_of_syntax {levels : ℕ} {command : ShellCommand} {env : Environment}
    {state : Option ShellSessionState} {rules : List (List String)} {s : Inspection}
    (hdeletion : deletionDecision host command = none)
    (hrules : policy.blocked.mapM Shlex.split = .ok rules)
    (hearly : policy.earlyDecision host rules (levels + 1) command env state = none)
    (hs : policy.syntaxCheck host (nestedCall host levels policy state) state command
      { cwd := policy.cwd } = .ok s) :
    evaluate host (levels + 1) policy command env state = .ok (policy.decide s) := by
  unfold evaluate
  rw [hdeletion, hrules]
  dsimp only [bind, Except.bind]
  rw [hearly]
  show (policy.syntaxCheck host (nestedCall host levels policy state) state command
    { cwd := policy.cwd }).bind _ = _
  rw [hs]
  rfl

theorem deletionDecision_refuses {command : ShellCommand} {d : Decision}
    (h : deletionDecision host command = some d) : d.Refuses := by
  unfold deletionDecision at h
  split_ifs at h
  · obtain rfl := Option.some.inj h
    exact ⟨rfl, rfl⟩
  · obtain ⟨reason, -, rfl⟩ := Option.map_eq_some_iff.mp h
    exact ⟨rfl, rfl⟩

theorem earlyDecision_effects {rules : List (List String)} {levels : ℕ} {command : ShellCommand}
    {env : Environment} {state : Option ShellSessionState} {d : Decision}
    (h : policy.earlyDecision host rules levels command env state = some d) :
    d.effects = ∅ ∧ d.kind ≠ .allow := by
  unfold earlyDecision at h
  dsimp only at h
  split_ifs at h
  all_goals first
    | (obtain rfl := Option.some.inj h; exact ⟨rfl, by intro hkind; cases hkind⟩)
    | (obtain ⟨reason, -, rfl⟩ := Option.map_eq_some_iff.mp h
       exact ⟨rfl, by intro hkind; cases hkind⟩)

theorem earlyDecision_refuses {rules : List (List String)} {levels : ℕ} {command : ShellCommand}
    {env : Environment} {state : Option ShellSessionState} {d : Decision}
    (h : policy.earlyDecision host rules levels command env state = some d)
    (hkind : d.kind = .reject) : d.Refuses :=
  ⟨hkind, (earlyDecision_effects h).1⟩

theorem decide_cases (policy : ShellCommandPolicy) (s : Inspection) :
    (∃ d rest, s.rejections = d :: rest ∧ policy.decide s = d) ∨
      (s.rejections = [] ∧ (policy.decide s).kind ≠ .reject ∧
        (policy.decide s).effects = s.effects ∧ (policy.decide s).stdinIsCode = s.inputCode ∧
        ((policy.decide s).kind = .allow ↔ s.effects ⊆ policy.level.allowed)) := by
  unfold decide
  split
  · rename_i d rest hrejections
    exact .inl ⟨d, rest, hrejections, rfl⟩
  · rename_i hrejections
    refine .inr ⟨hrejections, ?_⟩
    split_ifs with hdenied
    · have hnot : ¬s.effects ⊆ policy.level.allowed := fun hsub =>
        hdenied (Finset.sdiff_eq_empty_iff_subset.mpr hsub)
      exact ⟨by simp, rfl, rfl, iff_of_false (by simp) hnot⟩
    · rw [not_ne_iff, Finset.sdiff_eq_empty_iff_subset] at hdenied
      exact ⟨by simp, rfl, rfl, iff_of_true rfl hdenied⟩

/-! ### Rejections grant nothing -/

theorem accepting_true : Accepting fun _ => True := ⟨fun _ _ _ => trivial, fun _ _ _ => trivial⟩

/-- **Every rejection refuses**, and so does the rejection of a nested command. -/
theorem evaluate_refuses {levels : ℕ} {policy : ShellCommandPolicy}
    {command : ShellCommand} {env : Environment} {state : Option ShellSessionState} {d : Decision}
    (h : evaluate host levels policy command env state = .ok d) (hkind : d.kind = .reject) :
    d.Refuses := by
  induction levels generalizing policy command env d with
  | zero =>
    obtain rfl := Except.ok.inj h
    cases hkind
  | succ levels ih =>
    rcases evaluate_cases h with hdeletion | ⟨-, rules, -, hearly | ⟨-, s, hs, rfl⟩⟩
    · exact deletionDecision_refuses hdeletion
    · exact earlyDecision_refuses hearly hkind
    · have hcall : CallRefines (fun _ => True) False (nestedCall host levels policy state)
          (nestedCall host levels policy state) :=
        callRefines_childEffects (fun _ _ _ hd hreject => ih hd hreject)
          fun _ _ d _ hd _ => .inl ⟨d, hd, rfl⟩
      have hadds := (refines_syntaxCheck accepting_true hcall rfl
        (refines_otherCheck accepting_true hcall rfl) state command _ s hs trivial).1
      rcases decide_cases policy s with ⟨d, rest, hrejections, hd⟩ | ⟨-, hnot, -⟩
      · rw [hd]
        refine hadds.refusing (by intro d hd; cases hd) d ?_
        rw [hrejections]
        exact List.mem_cons_self
      · exact absurd hkind hnot

/-- The checks on the syntax only add. -/
theorem adds_syntaxCheck {levels : ℕ} {policy : ShellCommandPolicy} {command : ShellCommand}
    {state : Option ShellSessionState} {s t : Inspection}
    (h : policy.syntaxCheck host (nestedCall host levels policy state) state command s = .ok t) :
    Adds s t := by
  have hcall : CallRefines (fun _ => True) False (nestedCall host levels policy state)
      (nestedCall host levels policy state) :=
    callRefines_childEffects (fun _ _ _ hd hreject => evaluate_refuses hd hreject)
      fun _ _ d _ hd _ => .inl ⟨d, hd, rfl⟩
  exact (refines_syntaxCheck accepting_true hcall rfl
    (refines_otherCheck accepting_true hcall rfl) state command s t h trivial).1

/-! ### The level -/

/-- The policy at another level. -/
def atLevel (policy : ShellCommandPolicy) (level : ApprovalLevel) : ShellCommandPolicy :=
  { policy with level := level }

/-- The level does not show in what a policy uses of a decision. -/
theorem facts_decide (level : ApprovalLevel) (s : Inspection) :
    ((policy.atLevel level).decide s).facts = (policy.decide s).facts := by
  rcases decide_cases policy s with
    ⟨d, rest, hrejections, hd⟩ | ⟨hrejections, hkind, heffects, hin, hallow⟩
  · rw [hd]
    unfold decide
    rw [hrejections]
  · obtain ⟨d, rest, hother, -⟩ | ⟨-, hkind', heffects', hin', hallow'⟩ :=
      decide_cases (policy.atLevel level) s
    · rw [hrejections] at hother
      cases hother
    · unfold Decision.facts Decision.granted
      rw [if_neg hkind, if_neg hkind', heffects, heffects', hin, hin']
      by_cases hempty : s.effects = ∅
      · have h : (policy.decide s).kind = .allow := hallow.mpr (hempty ▸ Finset.empty_subset _)
        have h' : ((policy.atLevel level).decide s).kind = .allow :=
          hallow'.mpr (hempty ▸ Finset.empty_subset _)
        rw [h, h']
      · rw [if_pos hempty, if_pos hempty]

/-- **The level decides nothing that another policy uses.** -/
theorem evaluate_level (level : ApprovalLevel) {levels : ℕ} {policy : ShellCommandPolicy}
    {command : ShellCommand} {env : Environment} {state : Option ShellSessionState} {d : Decision}
    (h : evaluate host levels policy command env state = .ok d) :
    ∃ d', evaluate host levels (policy.atLevel level) command env state = .ok d' ∧
      d'.facts = d.facts := by
  induction levels generalizing policy command env d with
  | zero => exact ⟨d, h, rfl⟩
  | succ levels ih =>
    rcases evaluate_cases h with
      hdeletion | ⟨hdeletion, rules, hrules, hearly | ⟨hearly, s, hs, rfl⟩⟩
    · exact ⟨d, evaluate_of_deletion hdeletion, rfl⟩
    · exact ⟨d, evaluate_of_early hdeletion hrules hearly, rfl⟩
    · have hcall : CallRefines (fun _ => True) False (nestedCall host levels policy state)
          (nestedCall host levels (policy.atLevel level) state) :=
        callRefines_childEffects (fun _ _ _ hd hreject => evaluate_refuses hd hreject)
          fun _ _ _ _ hd _ => .inl (ih hd)
      have hrefines : Refines (fun _ => True) False
          (policy.syntaxCheck host (nestedCall host levels policy state) state command)
          ((policy.atLevel level).syntaxCheck host
            (nestedCall host levels (policy.atLevel level) state) state command) :=
        refines_syntaxCheck accepting_true hcall
          (show policy.root = (policy.atLevel level).root from rfl)
          (refines_otherCheck accepting_true hcall rfl) state command
      obtain ⟨-, hend | ⟨hfalse, -⟩⟩ := hrefines _ s hs trivial
      · exact ⟨_, evaluate_of_syntax hdeletion hrules hearly hend, facts_decide level s⟩
      · exact hfalse.elim

/-- **What a level allows** is read off what the decision grants. -/
theorem evaluate_allow_iff {levels : ℕ} {policy : ShellCommandPolicy} {command : ShellCommand}
    {env : Environment} {state : Option ShellSessionState} {d : Decision}
    (h : evaluate host levels policy command env state = .ok d) :
    d.kind = .allow ↔ d.kind ≠ .reject ∧ d.granted ⊆ policy.level.allowed := by
  have hread : ∀ level : ApprovalLevel,
      Effect.unknown ∉ level.allowed ∧ Effect.read ∈ level.allowed := by
    intro level
    cases level <;> decide
  have hasks : d.effects = ∅ → d.kind ≠ .allow →
      (d.kind = .allow ↔ d.kind ≠ .reject ∧ d.granted ⊆ policy.level.allowed) := by
    intro heffects hkind
    refine iff_of_false hkind fun hall => (hread policy.level).1 (hall.2 ?_)
    rw [Decision.granted, if_neg (not_ne_iff.mpr heffects), if_pos hkind]
    exact Finset.mem_singleton_self _
  cases levels with
  | zero =>
    obtain rfl := Except.ok.inj h
    exact hasks rfl (by intro hkind; cases hkind)
  | succ levels =>
    rcases evaluate_cases h with hdeletion | ⟨-, rules, -, hearly | ⟨-, s, hs, rfl⟩⟩
    · have hrefuses := deletionDecision_refuses hdeletion
      exact hasks hrefuses.2 (hrefuses.1 ▸ by decide)
    · exact hasks (earlyDecision_effects hearly).1 (earlyDecision_effects hearly).2
    · by_cases hkind : (policy.decide s).kind = .reject
      · have hrefuses := evaluate_refuses h hkind
        exact hasks hrefuses.2 (hrefuses.1 ▸ by decide)
      · rcases decide_cases policy s with ⟨d, rest, hrejections, hd⟩ | ⟨-, -, heffects, -, hallow⟩
        · have hmem : d ∈ s.rejections := hrejections ▸ List.mem_cons_self
          have hrefuses := (adds_syntaxCheck hs).refusing (by intro d hd; cases hd) d hmem
          exact absurd (hd ▸ hrefuses.1) hkind
        · by_cases hempty : s.effects = ∅
          · have hallowed : (policy.decide s).kind = .allow :=
              hallow.mpr (hempty ▸ Finset.empty_subset _)
            refine iff_of_true hallowed ⟨hkind, ?_⟩
            rw [Decision.granted, heffects, if_neg (not_ne_iff.mpr hempty), hallowed,
              if_neg (not_ne_iff.mpr rfl)]
            exact Finset.singleton_subset_iff.mpr (hread policy.level).2
          · rw [hallow, Decision.granted, heffects, if_pos hempty]
            exact ⟨fun h => ⟨hkind, h⟩, fun h => h.2⟩

/-! ### Fewer liberties -/

/-- **A policy with fewer liberties** at the same level and place: fewer trusted rules, more blocked
ones, fewer keys. -/
structure Stricter (policy' policy : ShellCommandPolicy) : Prop where
  level : policy'.level = policy.level
  root : policy'.root = policy.root
  cwd : policy'.cwd = policy.cwd
  trusted : policy'.trusted ⊆ policy.trusted
  blocked : policy.blocked ⊆ policy'.blocked
  keys : ∀ allowed ∈ policy.allowedEnvKeys, ∃ allowed' ∈ policy'.allowedEnvKeys, allowed' ⊆ allowed

theorem Stricter.moved (hstricter : Stricter policy' policy) (cwd : PurePath) :
    Stricter { policy' with cwd := cwd } { policy with cwd := cwd } :=
  ⟨hstricter.level, hstricter.root, rfl, hstricter.trusted, hstricter.blocked, hstricter.keys⟩

theorem Stricter.allowsKeys (hstricter : Stricter policy' policy) {keys : List String}
    (h : policy'.allowsKeys keys) : policy.allowsKeys keys := by
  unfold ShellCommandPolicy.allowsKeys at h ⊢
  cases hallowed : policy.allowedEnvKeys with
  | none => rfl
  | some allowed =>
    obtain ⟨allowed', hallowed', hsub⟩ := hstricter.keys allowed hallowed
    rw [Option.mem_def] at hallowed'
    rw [hallowed', Option.all_some, List.all_eq_true] at h
    rw [Option.all_some, List.all_eq_true]
    intro key hkey
    have hmem : key ∈ allowed' := List.contains_iff_mem.mp (h key hkey)
    exact List.contains_iff_mem.mpr (hsub hmem)

/-- What is blocked by some rules is blocked by more. -/
theorem isBlocked_of_subset {rules rules' : List (List String)} (hsub : rules ⊆ rules')
    {levels : ℕ} {command : ShellCommand} (h : isBlocked host levels rules command) :
    isBlocked host levels rules' command := by
  have hany : ∀ p : List String → Bool, rules.any p = true → rules'.any p = true := by
    intro p hp
    obtain ⟨rule, hrule, hholds⟩ := List.any_eq_true.mp hp
    exact List.any_eq_true.mpr ⟨rule, hsub hrule, hholds⟩
  unfold isBlocked at h ⊢
  rw [Bool.or_eq_true] at h ⊢
  refine h.imp (fun hfound => ?_) fun hmentioned => ?_
  · obtain ⟨parts, hparts, hrule⟩ := List.any_eq_true.mp hfound
    exact List.any_eq_true.mpr ⟨parts, hparts, hany _ hrule⟩
  · rw [Bool.and_eq_true] at hmentioned ⊢
    exact ⟨hmentioned.1, hany _ hmentioned.2⟩

theorem subset_of_mapM {blocked blocked' : List String} {rules rules' : List (List String)}
    (hsub : blocked ⊆ blocked') (h : blocked.mapM Shlex.split = .ok rules)
    (h' : blocked'.mapM Shlex.split = .ok rules') : rules ⊆ rules' := by
  intro rule hrule
  obtain ⟨text, htext, hsplit⟩ := exists_of_mem_mapM h hrule
  exact mem_of_mapM h' (hsub htext) hsplit

/-- A command that passes the early checks of the stricter policy passes those of the other. -/
theorem Stricter.earlyDecision (hstricter : Stricter policy' policy)
    {rules rules' : List (List String)} (hsub : rules ⊆ rules') {levels : ℕ}
    {command : ShellCommand} {env : Environment}
    {state : Option ShellSessionState}
    (h : policy'.earlyDecision host rules' levels command env state = none) :
    policy.earlyDecision host rules levels command env state = none := by
  unfold ShellCommandPolicy.earlyDecision at h ⊢
  dsimp only at h ⊢
  split_ifs at h with hblocked henv hdeletes hdangerous hkeys hchanges hall
  rw [if_neg fun hb => hblocked (isBlocked_of_subset hsub hb),
    if_neg (not_not_intro (hstricter.allowsKeys henv)), if_neg hdeletes, if_neg hdangerous,
    if_neg (not_not_intro (hstricter.allowsKeys hkeys)), if_neg hchanges, if_neg hall]
  exact h

/-! ### Wildcards -/

theorem exists_of_wildcard {argv rules : List String} (h : wildcard argv rules = .ok true) :
    ∃ rule ∈ rules, " *".toList.reverse.isPrefixOf rule.toList.reverse ∧
      ∃ parts, Shlex.split (String.ofList (rule.toList.take (rule.toList.length - 2))) = .ok parts ∧
        argv.take parts.length = parts := by
  induction rules with
  | nil => cases h
  | cons rule rules ih =>
    unfold wildcard at h
    split_ifs at h with hstar
    · obtain ⟨parts, hparts, h⟩ := exists_of_bind_eq_ok h
      split_ifs at h with htake
      · exact ⟨rule, List.mem_cons_self, hstar, parts, hparts, htake⟩
      · obtain ⟨other, hother, hfound⟩ := ih h
        exact ⟨other, List.mem_cons_of_mem _ hother, hfound⟩
    · obtain ⟨other, hother, hfound⟩ := ih h
      exact ⟨other, List.mem_cons_of_mem _ hother, hfound⟩

theorem wildcard_of_mem {argv rules : List String} {rule : String} (hrule : rule ∈ rules)
    (hstar : " *".toList.reverse.isPrefixOf rule.toList.reverse) {parts : List String}
    (hparts : Shlex.split (String.ofList (rule.toList.take (rule.toList.length - 2))) = .ok parts)
    (htake : argv.take parts.length = parts) {found : Bool} (h : wildcard argv rules = .ok found) :
    found = true := by
  induction rules with
  | nil => cases hrule
  | cons other rules ih =>
    unfold wildcard at h
    by_cases heq : rule = other
    · subst heq
      rw [if_pos hstar] at h
      obtain ⟨parts', hparts', h⟩ := exists_of_bind_eq_ok h
      obtain rfl := Except.ok.inj (hparts.symm.trans hparts')
      rw [if_pos htake] at h
      exact (Except.ok.inj h).symm
    · have hmem : rule ∈ rules := (List.mem_cons.mp hrule).resolve_left heq
      split_ifs at h
      · obtain ⟨parts', -, h⟩ := exists_of_bind_eq_ok h
        split_ifs at h
        · exact (Except.ok.inj h).symm
        · exact ih hmem h
      · exact ih hmem h

/-- What some trusted rules cover, more cover too, unless one of them raises. -/
theorem wildcard_of_subset {argv rules rules' : List String} (hsub : rules' ⊆ rules)
    {found : Bool} (h' : wildcard argv rules' = .ok true) (h : wildcard argv rules = .ok found) :
    found = true := by
  obtain ⟨rule, hrule, hstar, parts, hparts, htake⟩ := exists_of_wildcard h'
  exact wildcard_of_mem (hsub hrule) hstar hparts htake h

/-! ### What is allowed -/

/-- **Nothing is wrong** with what has been found so far: no rejection, and no effect that the level
does not allow. -/
def Unharmed (level : ApprovalLevel) (s : Inspection) : Prop :=
  s.rejections = [] ∧ s.effects ⊆ level.allowed

theorem unknown_not_mem_allowed (level : ApprovalLevel) : Effect.unknown ∉ level.allowed := by
  cases level <;> decide

theorem accepting_unharmed (level : ApprovalLevel) : Accepting (Unharmed level) := by
  constructor
  · intro s t heffects hrejections hfine
    exact ⟨List.prefix_nil.mp (hfine.1 ▸ hrejections), heffects.trans hfine.2⟩
  · intro s t hunknown _ hfine
    exact absurd (hfine.2 hunknown) (unknown_not_mem_allowed level)

/-- What the stricter policy allows of another command, the other allows, or it raises. -/
theorem refines_otherCheck_of_stricter {level : ApprovalLevel}
    (hcall : CallRefines (Unharmed level) True call' call)
    (htrusted : policy'.trusted ⊆ policy.trusted) (argv : List String) :
    Refines (Unharmed level) True (policy'.otherCheck host call' argv)
      (policy.otherCheck host call argv) := by
  intro s t hcheck hfine
  obtain ⟨found, hfound, hrest⟩ := exists_of_bind_eq_ok hcheck
  split_ifs at hrest with hcovered
  · obtain rfl := Except.ok.inj hrest
    refine ⟨adds_grant s _, ?_⟩
    unfold otherCheck
    cases hwildcard : wildcard argv policy.trusted with
    | error e => exact .inr ⟨trivial, e, rfl⟩
    | ok found' =>
      rw [hcovered.1] at hfound
      have hfound' := wildcard_of_subset htrusted hfound hwildcard
      left
      show (if found' = true ∧ _ then _ else _) = _
      rw [if_pos ⟨hfound', hcovered.2⟩]
      rfl
  · -- an unknown effect is never taken back
    have hadds : Adds (s.grant {.unknown}) t := by
      cases hnested : nested host argv with
      | none =>
        rw [hnested] at hrest
        obtain rfl := Except.ok.inj hrest
        exact .refl _
      | some command =>
        rw [hnested] at hrest
        obtain ⟨v, hv, rfl⟩ := exists_of_map_eq_ok hrest
        exact (hcall.adds _ _ _ hv).trans (adds_grant _ _)
    have hunknown : Effect.unknown ∈ t.effects :=
      hadds.effects (Finset.mem_union_right _ (Finset.mem_singleton_self _))
    exact absurd (hfine.2 hunknown) (unknown_not_mem_allowed level)

/-- **What the stricter policy allows**, the other decides in the same way. -/
theorem evaluate_of_stricter {levels : ℕ} {policy policy' : ShellCommandPolicy}
    (hstricter : Stricter policy' policy) {command : ShellCommand} {env : Environment}
    {state : Option ShellSessionState} {d d' : Decision}
    (h' : evaluate host levels policy' command env state = .ok d') (hallow : d'.kind = .allow)
    (h : evaluate host levels policy command env state = .ok d) : d = d' := by
  induction levels generalizing policy policy' command env d d' with
  | zero => exact Except.ok.inj (h.symm.trans h')
  | succ levels ih =>
    obtain hdeletion | ⟨hdeletion, rules', hrules', hearly | ⟨hearly, s, hs, rfl⟩⟩ :=
      evaluate_cases h'
    · exact absurd ((deletionDecision_refuses hdeletion).1.symm.trans hallow) (by decide)
    · exact absurd hallow (earlyDecision_effects hearly).2
    · have hfine : Unharmed policy'.level s := by
        rcases decide_cases policy' s with ⟨d, rest, hrejections, hd⟩ | ⟨hrejections, -, -, -, hiff⟩
        · have hmem : d ∈ s.rejections := hrejections ▸ List.mem_cons_self
          have hrefuses := (adds_syntaxCheck hs).refusing (by intro d hd; cases hd) d hmem
          exact absurd (hrefuses.1.symm.trans (hd ▸ hallow)) (by decide)
        · exact ⟨hrejections, hiff.mp hallow⟩
      have hcall : CallRefines (Unharmed policy'.level) True
          (nestedCall host levels policy' state) (nestedCall host levels policy state) := by
        refine callRefines_childEffects (fun _ _ _ hd hreject => evaluate_refuses hd hreject) ?_
        intro cwd command d s hd hchild
        cases hother : evaluate host levels { policy with cwd := cwd } command ∅ state with
        | error e => exact .inr ⟨trivial, e, rfl⟩
        | ok other =>
          have hkind : d.kind ≠ .reject := by
            intro hkind
            have hnil : (if d.kind = .reject then s.rejections ++ [d] else s.rejections) = [] :=
              hchild.1
            rw [if_pos hkind] at hnil
            exact List.append_ne_nil_of_right_ne_nil _ (List.cons_ne_nil _ _) hnil
          have hgranted : d.granted ⊆ policy'.level.allowed :=
            Finset.subset_union_right.trans hchild.2
          have hallowed := (evaluate_allow_iff hd).mpr ⟨hkind, hgranted⟩
          have heq := ih (hstricter.moved cwd) hd hallowed hother
          exact .inl ⟨other, rfl, congrArg Decision.facts heq⟩
      obtain ⟨-, hend⟩ := refines_syntaxCheck (accepting_unharmed _) hcall hstricter.root
        (refines_otherCheck_of_stricter hcall hstricter.trusted) state command _ s hs hfine
      obtain hdeletion' | ⟨-, rules, hrules, hearly' | ⟨-, t, ht, rfl⟩⟩ := evaluate_cases h
      · rw [hdeletion] at hdeletion'
        cases hdeletion'
      · have hsub := subset_of_mapM hstricter.blocked hrules hrules'
        rw [hstricter.earlyDecision hsub hearly] at hearly'
        cases hearly'
      · rw [hstricter.cwd] at hend
        rcases hend with hend | ⟨-, e, hend⟩
        · obtain rfl := Except.ok.inj (ht.symm.trans hend)
          unfold decide
          rw [hstricter.level]
        · rw [ht] at hend
          cases hend

/-! ### Monotonicity -/

/-- `evaluate` gives a decision of this kind. -/
def Decides (host : PolicyHost) (levels : ℕ) (policy : ShellCommandPolicy) (command : ShellCommand)
    (env : Environment) (state : Option ShellSessionState) (kind : ShellPolicyKind) : Prop :=
  ∃ d, evaluate host levels policy command env state = .ok d ∧ d.kind = kind

/-- A level that allows more allows what the other allows. -/
theorem decides_of_allowed_subset {levels : ℕ} {policy : ShellCommandPolicy}
    {command : ShellCommand} {env : Environment} {state : Option ShellSessionState}
    {level level' : ApprovalLevel}
    (hsub : level.allowed ⊆ level'.allowed)
    (h : Decides host levels (policy.atLevel level) command env state .allow) :
    Decides host levels (policy.atLevel level') command env state .allow := by
  obtain ⟨d, hd, hkind⟩ := h
  obtain ⟨d', hd', hfacts⟩ := evaluate_level level' hd
  obtain ⟨hnot, hgranted⟩ := (evaluate_allow_iff hd).mp hkind
  refine ⟨d', hd', (evaluate_allow_iff hd').mpr ⟨?_, ?_⟩⟩
  · exact (Decision.kind_eq_reject_iff hfacts).not.mpr hnot
  · exact (Decision.granted_eq hfacts).trans_subset (hgranted.trans hsub)

/-- **The policy is monotone.** Effects and rejections do not depend on the level, a higher level
keeps what is allowed, and what a policy with fewer liberties allows, the other neither rejects nor
puts up for approval. -/
theorem evaluate_monotone (host : PolicyHost) (levels : ℕ) (policy : ShellCommandPolicy)
    (command : ShellCommand) (env : Environment) (state : Option ShellSessionState) :
    (∀ level level' : ApprovalLevel,
      (evaluate host levels (policy.atLevel level) command env state).toOption.map
          (fun d => (d.effects, d.kind == .reject)) =
        (evaluate host levels (policy.atLevel level') command env state).toOption.map
          (fun d => (d.effects, d.kind == .reject))) ∧
    (Decides host levels (policy.atLevel .readOnly) command env state .allow →
      Decides host levels (policy.atLevel .workspaceWrite) command env state .allow) ∧
    (Decides host levels (policy.atLevel .workspaceWrite) command env state .allow →
      Decides host levels (policy.atLevel .trustedDev) command env state .allow) ∧
    ∀ policy', Stricter policy' policy →
      Decides host levels policy command env state .ask ∨
        Decides host levels policy command env state .reject →
      ¬Decides host levels policy' command env state .allow := by
  refine ⟨fun level level' => ?_, decides_of_allowed_subset (by decide),
    decides_of_allowed_subset (by decide), ?_⟩
  · cases hlevel : evaluate host levels (policy.atLevel level) command env state with
    | ok d =>
      obtain ⟨d', hd', hfacts⟩ := evaluate_level level' hlevel
      have heffects : d'.effects = d.effects := congrArg (fun facts => facts.2.1) hfacts
      have hkind : (d'.kind == .reject) = (d.kind == .reject) := by
        rw [Bool.eq_iff_iff, beq_iff_eq, beq_iff_eq]
        exact Decision.kind_eq_reject_iff hfacts
      have hlevel' : evaluate host levels (policy.atLevel level') command env state = .ok d' := hd'
      rw [hlevel']
      show some (d.effects, _) = some (d'.effects, _)
      rw [heffects, hkind]
    | error e =>
      cases hlevel' : evaluate host levels (policy.atLevel level') command env state with
      | error e' => rfl
      | ok d' =>
        obtain ⟨d, hd, -⟩ := evaluate_level level hlevel'
        exact absurd (hd.symm.trans hlevel) nofun
  · rintro policy' hstricter hkind ⟨d', hd', hallow⟩
    rcases hkind with ⟨d, hd, hkind⟩ | ⟨d, hd, hkind⟩
    · rw [evaluate_of_stricter hstricter hd' hallow hd, hallow] at hkind
      cases hkind
    · rw [evaluate_of_stricter hstricter hd' hallow hd, hallow] at hkind
      cases hkind

end ShellCommandPolicy

end EvernightAI.Shell

import EvernightAI.Skill.TemplateHistory

/-!
# The requests of a run

A request in progress holds renderings of what was registered at different times. As long as a
recorded revision is current, each rendering of its skill is one of that revision; so a request that
passes the comparison is rendered from the recorded contents.

* `SkillSystem.Tracked` : the invariant of the run.
* `SkillSystem.Sound` : what every run keeps, whatever its templates hold.
-/

namespace EvernightAI

open StatefulProgram

variable {p : SkillPlatform} {builtins : Table SkillRegistration.name}

/-- Skill messages that are rendered, one skill after the other, from the recorded contents. -/
def RenderedFrom (p : SkillPlatform) (recorded : List SkillRegistration) (skills : List ChatSkill)
    (messages : List Content) : Prop :=
  ∃ rendered : List RenderedSkill, messages = rendered.flatMap (·.messages) ∧
    List.Forall₂ (fun (skill : ChatSkill × ℕ) rendered => ∃ registration ∈ recorded, ∃ answer,
      registration.name = skill.1.skillName ∧
        registration.render p.reprFloat (skill.1.renderRequest skill.2) answer = .ok rendered)
      skills.zipIdx rendered

namespace SkillSystem

variable {s s' : SkillSystem}

/-! ### The run -/

/-- A registration whose revision is the recorded one, for as long as that is current. -/
def Tracks (s : SkillSystem) (registration : SkillRegistration) : Prop :=
  ∀ recorded ∈ s.run.recorded, recorded.name = registration.name →
    s.current recorded.name = some recorded.definition.revision →
      registration.definition.revision = recorded.definition.revision

/-- A registration that was fetched for a skill of the run. -/
structure Fetched (builtins : Table SkillRegistration.name) (s : SkillSystem) (skill : ChatSkill)
    (registration : SkillRegistration) : Prop where
  asked : skill ∈ s.run.skills
  known : Known builtins s registration
  name : registration.name = skill.skillName
  tracks : s.Tracks registration

/-- The skills rendered so far, and those that are left. -/
def Rendered (p : SkillPlatform) (builtins : Table SkillRegistration.name) (s : SkillSystem)
    (done : List RenderedSkill) (todo : List ChatSkill) : Prop :=
  ∃ before, s.run.skills = before ++ todo ∧
    List.Forall₂ (fun (skill : ChatSkill × ℕ) rendered => ∃ registration answer,
      Fetched builtins s skill.1 registration ∧
        registration.render p.reprFloat (skill.1.renderRequest skill.2) answer = .ok rendered)
      before.zipIdx done

/-- **The invariant of the run.** -/
structure Tracked (p : SkillPlatform) (builtins : Table SkillRegistration.name)
    (s : SkillSystem) : Prop where
  revisions : ∀ revisions, s.run.skillRevisions = some revisions →
    revisions = s.run.recorded.map (fun skill => (skill.name, skill.definition.revision)) ∧
      s.run.recorded.map (·.name) = s.run.skills.map (·.skillName)
  single : ∀ skill ∈ s.run.recorded, ∀ skill' ∈ s.run.recorded, skill.name = skill'.name →
    skill = skill'
  known : ∀ skill ∈ s.run.recorded, Known builtins s skill
  progress : ∀ tools registration done todo, s.run.phase = .rendering tools registration done todo →
    Rendered p builtins s done todo ∧
      ∃ skill rest, todo = skill :: rest ∧ Fetched builtins s skill registration
  rendered : ∀ messages ∈ s.run.handed, RenderedFrom p s.run.recorded s.run.skills messages
  created : s.run.phase = .created → s.run.handed = []

theorem exists_of_forall₂_right {α β : Type} {R : α → β → Prop} {l : List α} {l' : List β}
    (h : List.Forall₂ R l l') {b : β} (hb : b ∈ l') : ∃ a ∈ l, R a b := by
  induction h with
  | nil => exact absurd hb List.not_mem_nil
  | cons hab _ ih =>
    rcases List.mem_cons.mp hb with rfl | hb
    · exact ⟨_, List.mem_cons_self .., hab⟩
    · obtain ⟨a, ha, hR⟩ := ih hb
      exact ⟨a, List.mem_cons_of_mem _ ha, hR⟩

theorem forall₂_map_eq {α β γ : Type} {f : α → γ} {g : β → γ} {l : List α} {l' : List β}
    (h : List.Forall₂ (fun a b => f a = g b) l l') : l.map f = l'.map g := by
  induction h with
  | nil => rfl
  | cons hab _ ih => rw [List.map_cons, List.map_cons, hab, ih]

theorem forM_eq_ok {α : Type} {f : α → Except SkillError Unit} {l : List α}
    (h : l.forM f = .ok ()) : ∀ a ∈ l, f a = .ok () := by
  induction l with
  | nil => exact fun a ha => absurd ha List.not_mem_nil
  | cons b l ih =>
    obtain ⟨u, hb, hrest⟩ := exists_of_bind_eq_ok h
    intro a ha
    rcases List.mem_cons.mp ha with rfl | ha
    · exact hb
    · exact ih hrest a ha

/-- **Comparing one revision.** -/
theorem current_of_checkSkillRevision {revision : Option String} {name : String}
    (h : checkSkillRevision s.manager revision name = .ok ()) : s.current name = some revision := by
  rw [checkSkillRevision, SkillManager.get] at h
  cases hfind : s.manager.register.find? name with
  | none =>
    rw [hfind] at h
    exact absurd h (by simp)
  | some skill =>
    simp only [hfind] at h
    split_ifs at h with _ hrevision
    rw [current, hfind, Option.map_some, not_not.mp hrevision]

/-- **Comparing revisions.** When nothing is raised, each skill is registered under the recorded
revision. -/
theorem Tracked.current_of_checked (h : Tracked p builtins s)
    (hcheck : checkSkillRevisions s.manager s.run.skills s.run.skillRevisions = .ok ())
    {skill : ChatSkill} (hskill : skill ∈ s.run.skills) :
    ∃ recorded ∈ s.run.recorded, recorded.name = skill.skillName ∧
      s.current recorded.name = some recorded.definition.revision := by
  have hname : skill.skillName ∈ skillNames s.run.skills :=
    List.mem_eraseDups.mpr (List.mem_map.mpr ⟨skill, hskill, rfl⟩)
  simp only [checkSkillRevisions] at hcheck
  split_ifs at hcheck with hnone
  · rw [hnone.1] at hname
    exact absurd hname List.not_mem_nil
  · split at hcheck
    · exact absurd hcheck (by simp)
    · next revisions hrevisions =>
      obtain ⟨hmap, haligned⟩ := h.revisions revisions hrevisions
      split_ifs at hcheck with hkeys
      obtain ⟨recorded, hrecorded, hrecordedName⟩ := List.mem_map.mp
        (haligned ▸ List.mem_map.mpr ⟨skill, hskill, rfl⟩ :
          skill.skillName ∈ s.run.recorded.map (·.name))
      refine ⟨recorded, hrecorded, hrecordedName, ?_⟩
      have hcurrent := current_of_checkSkillRevision (forM_eq_ok hcheck _ hname)
      have hlookup : revisions.lookup skill.skillName = some recorded.definition.revision := by
        obtain ⟨revision, hfound⟩ : ∃ revision, revisions.lookup skill.skillName = some revision := by
          rw [← Option.isSome_iff_exists, List.lookup_isSome_iff]
          rw [hmap]
          exact ⟨_, List.mem_map.mpr ⟨recorded, hrecorded, rfl⟩, by simp [hrecordedName]⟩
        obtain ⟨before, after, hsplit, -⟩ := List.lookup_eq_some_iff.mp hfound
        have hmem : (skill.skillName, revision) ∈ revisions := by
          rw [hsplit]
          exact List.mem_append_right _ (List.mem_cons_self ..)
        rw [hmap] at hmem
        obtain ⟨recorded', hrecorded', hpair⟩ := List.mem_map.mp hmem
        obtain ⟨hname', hrevision'⟩ := Prod.mk.inj hpair
        rw [hfound, ← hrevision', h.single recorded' hrecorded' recorded hrecorded
          (hname'.trans hrecordedName.symm)]
      rw [hrecordedName, hcurrent, hlookup]
      rfl

/-- What was registered at two times under one name and revision renders the same messages. -/
theorem Valid.render_eq (h : Valid builtins s)
    (hprompts : Ledger (fun config config' => config.prompt = config'.prompt) s)
    {skill skill' : SkillRegistration} (hskill : Known builtins s skill)
    (hskill' : Known builtins s skill') (hname : skill.name = skill'.name)
    (hrevision : skill.definition.revision = skill'.definition.revision)
    {request : SkillRenderRequest} {answer : PyJson} {rendered : RenderedSkill}
    (hrender : skill.render p.reprFloat request answer = .ok rendered) :
    skill'.render p.reprFloat request answer = .ok rendered := by
  rcases hskill with hbuiltin | ⟨config, hmem, rfl⟩
  · rcases hskill' with hbuiltin' | ⟨config', hmem', rfl⟩
    · obtain rfl : skill = skill' := by
        rw [hname, hbuiltin'] at hbuiltin
        exact (Option.some.inj hbuiltin).symm
      exact hrender
    · rw [hname, SkillTemplateConfig.registration_name, h.apart config' hmem'] at hbuiltin
      exact absurd hbuiltin (by simp)
  · rcases hskill' with hbuiltin' | ⟨config', hmem', rfl⟩
    · rw [← hname, SkillTemplateConfig.registration_name, h.apart config hmem] at hbuiltin'
      exact absurd hbuiltin' (by simp)
    · exact SkillRegistration.render_congr rfl rfl (hprompts config hmem config' hmem' hname hrevision)
        hrender

/-- **Handing a request over.** -/
theorem Tracked.renderedFrom (h : Tracked p builtins s) (hvalid : Valid builtins s)
    (hprompts : Ledger (fun config config' => config.prompt = config'.prompt) s)
    (hcheck : checkSkillRevisions s.manager s.run.skills s.run.skillRevisions = .ok ())
    {done : List RenderedSkill} (hdone : Rendered p builtins s done []) :
    RenderedFrom p s.run.recorded s.run.skills (done.flatMap (·.messages)) := by
  obtain ⟨before, hskills, hall⟩ := hdone
  rw [List.append_nil] at hskills
  refine ⟨done, rfl, ?_⟩
  rw [hskills]
  refine hall.imp ?_
  rintro ⟨skill, index⟩ rendered ⟨registration, answer, hfetched, hrender⟩
  obtain ⟨recorded, hrecorded, hname, hcurrent⟩ := h.current_of_checked hcheck hfetched.asked
  have hsame : recorded.name = registration.name := hname.trans hfetched.name.symm
  exact ⟨recorded, hrecorded, answer, hname, hvalid.render_eq hprompts hfetched.known
    (h.known recorded hrecorded) hsame.symm (hfetched.tracks recorded hrecorded hsame hcurrent)
    hrender⟩

/-- A skill that is fetched now is tracked. -/
theorem Valid.fetched (h : Valid builtins s) {skill : ChatSkill} (hasked : skill ∈ s.run.skills)
    {capability : SkillCapability} {tools : List String} {index : ℕ}
    {registration : SkillRegistration}
    (hbegin : beginSkill p s.manager capability tools skill index = .ok registration) :
    Fetched builtins s skill registration := by
  have hget : s.manager.get skill.skillName = .ok registration := by
    obtain ⟨current, -, hbegin⟩ := exists_of_bind_eq_ok hbegin
    dsimp only at hbegin
    split at hbegin
    · exact absurd hbegin (by simp [bind, Except.bind, throw, throwThe, MonadExceptOf.throw])
    · split at hbegin
      · exact absurd hbegin (by simp [bind, Except.bind, throw, throwThe, MonadExceptOf.throw])
      · obtain ⟨supported, -, hbegin⟩ := exists_of_bind_eq_ok hbegin
        split at hbegin
        · exact absurd hbegin (by simp [bind, Except.bind, throw, throwThe, MonadExceptOf.throw])
        · obtain ⟨u, -, hbegin⟩ := exists_of_bind_eq_ok hbegin
          exact hbegin
  obtain ⟨hknown, hname, hcurrent⟩ := h.known hget
  refine ⟨hasked, hknown, hname, fun recorded _ hrecorded hrevision => ?_⟩
  rw [hrecorded, hname, hcurrent] at hrevision
  exact Option.some.inj hrevision

/-- A later state of the same request: more is published, and no recorded revision has come back. -/
structure Later (s s' : SkillSystem) : Prop where
  skills : s'.run.skills = s.run.skills
  recorded : s'.run.recorded = s.run.recorded
  published : ∀ config ∈ s.published, config ∈ s'.published
  current : ∀ skill ∈ s.run.recorded, s'.current skill.name = some skill.definition.revision →
    s.current skill.name = some skill.definition.revision

theorem Later.known (h : Later s s') {skill : SkillRegistration} (hskill : Known builtins s skill) :
    Known builtins s' skill := by
  rcases hskill with hbuiltin | ⟨config, hmem, hskill⟩
  · exact Or.inl hbuiltin
  · exact Or.inr ⟨config, h.published config hmem, hskill⟩

theorem Later.fetched (h : Later s s') {skill : ChatSkill} {registration : SkillRegistration}
    (hfetched : Fetched builtins s skill registration) : Fetched builtins s' skill registration where
  asked := h.skills ▸ hfetched.asked
  known := h.known hfetched.known
  name := hfetched.name
  tracks := by
    intro recorded hrecorded hname hcurrent
    rw [h.recorded] at hrecorded
    exact hfetched.tracks recorded hrecorded hname (h.current recorded hrecorded hcurrent)

theorem Later.rendered (h : Later s s') {done : List RenderedSkill} {todo : List ChatSkill}
    (hrendered : Rendered p builtins s done todo) : Rendered p builtins s' done todo := by
  obtain ⟨before, hskills, hall⟩ := hrendered
  refine ⟨before, h.skills.trans hskills, hall.imp ?_⟩
  rintro skill rendered ⟨registration, answer, hfetched, hrender⟩
  exact ⟨registration, answer, h.fetched hfetched, hrender⟩

/-- **Going on.** A step that records nothing keeps the invariant if the request it leaves in
progress and the requests it hands over are in order. -/
theorem Tracked.later (h : Tracked p builtins s) (hlater : Later s s')
    (hrevisions : s'.run.skillRevisions = s.run.skillRevisions ∨ s'.run.skillRevisions = none)
    (hprogress : ∀ tools registration done todo,
      s'.run.phase = .rendering tools registration done todo → Rendered p builtins s done todo ∧
        ∃ skill rest, todo = skill :: rest ∧ Fetched builtins s skill registration)
    (hhanded : ∀ messages ∈ s'.run.handed, RenderedFrom p s.run.recorded s.run.skills messages)
    (hcreated : s'.run.phase ≠ .created ∨ s'.run.phase = s.run.phase ∧ s'.run.handed = s.run.handed) :
    Tracked p builtins s' where
  revisions := by
    intro revisions hsome
    rw [hlater.recorded, hlater.skills]
    rcases hrevisions with hrevisions | hrevisions
    · exact h.revisions revisions (hrevisions ▸ hsome)
    · rw [hrevisions] at hsome
      exact absurd hsome (by simp)
  single := hlater.recorded ▸ h.single
  known := by
    intro skill hskill
    rw [hlater.recorded] at hskill
    exact hlater.known (h.known skill hskill)
  progress := by
    intro tools registration done todo hphase
    obtain ⟨hrendered, skill, rest, htodo, hfetched⟩ := hprogress tools registration done todo hphase
    exact ⟨hlater.rendered hrendered, skill, rest, htodo, hlater.fetched hfetched⟩
  rendered := by
    rw [hlater.recorded, hlater.skills]
    exact hhanded
  created := by
    intro hphase
    rcases hcreated with hcreated | ⟨hsame, hhanded'⟩
    · exact absurd hphase hcreated
    · rw [hhanded', h.created (hsame ▸ hphase)]

/-- A step of the run that records nothing. -/
theorem later_run {run : SkillRun} (hskills : run.skills = s.run.skills)
    (hrecorded : run.recorded = s.run.recorded) : Later s { s with run } :=
  ⟨hskills, hrecorded, fun _ hmem => hmem, fun _ _ hcurrent => hcurrent⟩

/-- A run that ends or waits, with nothing handed over. -/
theorem Tracked.setPhase (h : Tracked p builtins s) {phase : SkillPhase}
    (hphase : ∀ tools registration done todo, phase ≠ .rendering tools registration done todo)
    (hcreated : phase ≠ .created) :
    Tracked p builtins { s with run := { s.run with phase } } :=
  h.later (later_run rfl rfl) (Or.inl rfl)
    (fun tools registration done todo heq => absurd heq (hphase tools registration done todo))
    h.rendered (Or.inl hcreated)

theorem Tracked.checked (h : Tracked p builtins s) {next : SkillRun}
    (hnext : checkSkillRevisions s.manager s.run.skills s.run.skillRevisions = .ok () →
      Tracked p builtins { s with run := next }) :
    Tracked p builtins { s with run := s.run.checked s.manager next } := by
  rw [SkillRun.checked]
  cases hcheck : checkSkillRevisions s.manager s.run.skills s.run.skillRevisions with
  | ok u => exact hnext hcheck
  | error err => exact h.setPhase (by intros; simp) (by simp)

/-- **Composing, to the next await.** -/
theorem Tracked.advance (h : Tracked p builtins s) (hvalid : Valid builtins s)
    (hprompts : Ledger (fun config config' => config.prompt = config'.prompt) s)
    {tools : List String} {done : List RenderedSkill} {todo : List ChatSkill}
    (hdone : Rendered p builtins s done todo) {imageFault : Option SkillError} :
    Tracked p builtins { s with
      run := s.run.advance p s.manager tools done todo imageFault } := by
  cases todo with
  | nil =>
    refine h.checked fun hcheck => ?_
    cases imageFault with
    | some err => exact h.setPhase (by intros; simp) (by simp)
    | none =>
      refine h.later (later_run rfl rfl) (Or.inl rfl) (by intros _ _ _ _ heq; simp at heq) ?_
        (Or.inl (by simp))
      intro messages hmessages
      rcases List.mem_append.mp hmessages with hmessages | hmessages
      · exact h.rendered messages hmessages
      · rw [List.mem_singleton.mp hmessages]
        exact h.renderedFrom hvalid hprompts hcheck hdone
  | cons skill rest =>
    have hasked : skill ∈ s.run.skills := by
      obtain ⟨before, hskills, -⟩ := hdone
      rw [hskills]
      exact List.mem_append_right _ (List.mem_cons_self ..)
    rw [SkillRun.advance]
    cases hbegin : beginSkill p s.manager .agent tools skill done.length with
    | error err => exact h.setPhase (by intros; simp) (by simp)
    | ok registration =>
      refine h.later (later_run rfl rfl) (Or.inl rfl) ?_ h.rendered (Or.inl (by simp))
      intro tools' registration' done' todo' heq
      simp only [SkillPhase.rendering.injEq] at heq
      obtain ⟨-, rfl, rfl, rfl⟩ := heq
      exact ⟨hdone, skill, rest, rfl, hvalid.fetched hasked hbegin⟩

/-- One more skill is rendered. -/
theorem Rendered.snoc {done : List RenderedSkill} {skill : ChatSkill} {rest : List ChatSkill}
    (h : Rendered p builtins s done (skill :: rest)) {registration : SkillRegistration}
    (hfetched : Fetched builtins s skill registration) {answer : PyJson} {rendered : RenderedSkill}
    (hrender : registration.render p.reprFloat (skill.renderRequest done.length) answer =
      .ok rendered) : Rendered p builtins s (done ++ [rendered]) rest := by
  obtain ⟨before, hskills, hall⟩ := h
  have hlength : before.length = done.length := by
    rw [← hall.length_eq, List.length_zipIdx]
  refine ⟨before ++ [skill], by rw [hskills, List.append_assoc]; rfl, ?_⟩
  rw [List.zipIdx_append, Nat.zero_add]
  refine List.rel_append hall (.cons ⟨registration, answer, hfetched, ?_⟩ .nil)
  rw [hlength]
  exact hrender

/-- **Recording the revisions.** -/
theorem Tracked.record (h : Tracked p builtins s) (hvalid : Valid builtins s)
    (hphase : s.run.phase = .created) {recorded : List SkillRegistration}
    (hrecorded : s.run.skills.mapM (fun skill => s.manager.get skill.skillName) = .ok recorded) :
    Tracked p builtins { s with run := { s.run with
      phase := .running
      skillRevisions := some (recorded.map fun skill => (skill.name, skill.definition.revision))
      recorded } } := by
  have hget := forall₂_of_mapM_ok hrecorded
  have hknown : ∀ skill ∈ recorded, Known builtins s skill ∧
      s.manager.get skill.name = .ok skill := by
    intro skill hskill
    obtain ⟨asked, -, hasked⟩ := exists_of_forall₂_right hget hskill
    obtain ⟨hknown, hname, -⟩ := hvalid.known hasked
    exact ⟨hknown, hname ▸ hasked⟩
  refine ⟨?_, ?_, fun skill hskill => (hknown skill hskill).1, by intro _ _ _ _ heq; simp at heq, ?_,
    by intro heq; simp at heq⟩
  · intro revisions hrevisions
    refine ⟨(Option.some.inj hrevisions).symm, ?_⟩
    have hnames : List.Forall₂ (fun (skill : SkillRegistration) (asked : ChatSkill) =>
        skill.name = asked.skillName) recorded s.run.skills :=
      (hget.imp fun asked skill hasked => (hvalid.known hasked).2.1).flip
    exact forall₂_map_eq hnames
  · intro skill hskill skill' hskill' hname
    have hsame := (hknown skill hskill).2
    rw [hname, (hknown skill' hskill').2] at hsame
    exact (Except.ok.inj hsame).symm
  · intro messages hmessages
    rw [show s.run.handed = [] from h.created hphase] at hmessages
    exact absurd hmessages List.not_mem_nil

/-- **One step of the run.** -/
theorem Tracked.runStep (h : Tracked p builtins s) (hvalid : Valid builtins s)
    (hprompts : Ledger (fun config config' => config.prompt = config'.prompt) s)
    {label : SkillLabel} {run : SkillRun}
    (hstep : SkillSystem.runStep p s.manager s.run label = some run) :
    Tracked p builtins { s with run } := by
  cases label with
  | operate => exact absurd hstep (by simp [SkillSystem.runStep])
  | restart => exact absurd hstep (by simp [SkillSystem.runStep])
  | record =>
    simp only [SkillSystem.runStep] at hstep
    split at hstep
    · next hphase =>
      split at hstep
      · next recorded hrecorded =>
        obtain rfl := Option.some.inj hstep
        exact h.record hvalid hphase hrecorded
      · obtain rfl := Option.some.inj hstep
        exact h.setPhase (by intros; simp) (by simp)
    · exact absurd hstep (by simp)
  | check =>
    simp only [SkillSystem.runStep] at hstep
    split at hstep
    · obtain rfl := Option.some.inj hstep
      exact h.checked fun _ => h
    · exact absurd hstep (by simp)
  | chat tools =>
    simp only [SkillSystem.runStep] at hstep
    split at hstep
    · obtain rfl := Option.some.inj hstep
      exact h.checked fun _ => h.setPhase (by intros; simp) (by simp)
    · exact absurd hstep (by simp)
  | compose fault imageFault =>
    simp only [SkillSystem.runStep] at hstep
    split at hstep
    · obtain rfl := Option.some.inj hstep
      exact h.setPhase (by intros; simp) (by simp)
    · obtain rfl := Option.some.inj hstep
      exact h.advance hvalid hprompts ⟨[], rfl, .nil⟩
    · exact absurd hstep (by simp)
  | rendered answer imageFault =>
    simp only [SkillSystem.runStep] at hstep
    split at hstep
    · next tools registration done skill todo hphase =>
      obtain ⟨hdone, skill', rest, htodo, hfetched⟩ := h.progress _ _ _ _ hphase
      obtain ⟨rfl, rfl⟩ := List.cons.inj htodo
      split at hstep
      · next rendered hrender =>
        obtain rfl := Option.some.inj hstep
        exact h.advance hvalid hprompts (hdone.snoc hfetched hrender)
      · obtain rfl := Option.some.inj hstep
        exact h.setPhase (by intros; simp) (by simp)
    · exact absurd hstep (by simp)
  | respond finished =>
    simp only [SkillSystem.runStep] at hstep
    split at hstep
    · obtain rfl := Option.some.inj hstep
      exact h.setPhase (by intros; split <;> simp) (by split <;> simp)
    · exact absurd hstep (by simp)
  | fail err =>
    simp only [SkillSystem.runStep] at hstep
    split at hstep
    · obtain rfl := Option.some.inj hstep
      exact h.setPhase (by intros; simp) (by simp)
    · obtain rfl := Option.some.inj hstep
      exact h.setPhase (by intros; simp) (by simp)
    · exact absurd hstep (by simp)
  | pause =>
    simp only [SkillSystem.runStep] at hstep
    split at hstep
    · obtain rfl := Option.some.inj hstep
      exact h.setPhase (by intros; simp) (by simp)
    · exact absurd hstep (by simp)
  | resume =>
    simp only [SkillSystem.runStep] at hstep
    split at hstep
    · split at hstep
      · obtain rfl := Option.some.inj hstep
        exact h.setPhase (by intros; simp) (by simp)
      · obtain rfl := Option.some.inj hstep
        exact h
    · exact absurd hstep (by simp)

/-! ### Every run -/

/-- What every run keeps, whatever its templates hold. -/
structure Sound (p : SkillPlatform) (builtins : Table SkillRegistration.name)
    (s : SkillSystem) : Prop where
  valid : Valid builtins s
  prompts : Ledger (fun config config' => config.prompt = config'.prompt) s
  tracked : Tracked p builtins s

/-- Another manager, and the run as it was. -/
theorem later_withManager {m : SkillManager} {run : SkillRun} (hskills : run.skills = s.run.skills)
    (hrecorded : run.recorded = s.run.recorded) (h : Tracked p builtins s)
    (hinstalls : Installs builtins s (s.withManager m)) :
    Later s { s.withManager m with run } :=
  ⟨hskills, hrecorded, fun _ hmem => List.mem_append_left _ hmem,
    fun skill hskill hcurrent => hinstalls skill (h.known skill hskill) hcurrent⟩

theorem Tracked.withManager (h : Tracked p builtins s) {m : SkillManager}
    (hinstalls : Installs builtins s (s.withManager m)) :
    Tracked p builtins (s.withManager m) :=
  h.later (later_withManager rfl rfl h hinstalls) (Or.inl rfl) h.progress h.rendered
    (Or.inr ⟨rfl, rfl⟩)

theorem Tracked.recovered (h : Tracked p builtins s) {m : SkillManager} {saved : Bool}
    (hinstalls : Installs builtins s (s.withManager m)) :
    Tracked p builtins { s.withManager m with run := SkillSystem.recovered s.run saved } := by
  refine h.later (later_withManager rfl rfl h hinstalls) ?_ ?_ h.rendered (Or.inl ?_)
  · simp only [SkillSystem.recovered]
    split
    · exact Or.inl rfl
    · exact Or.inr rfl
  · intro tools registration done todo heq
    simp only [SkillSystem.recovered] at heq
    split at heq <;> simp at heq
  · simp only [SkillSystem.recovered]
    split <;> simp

/-- **One step.** -/
theorem Sound.step (h : Sound p builtins s) {label : SkillLabel}
    (hstep : SkillSystem.step p builtins s label = some s') : Sound p builtins s' := by
  have hrun : (SkillSystem.runStep p s.manager s.run label).map (fun run => { s with run }) =
      some s' → Sound p builtins s' := by
    intro hstep
    obtain ⟨run, hrun, rfl⟩ := Option.map_eq_some_iff.mp hstep
    exact ⟨⟨h.valid.register, h.valid.stored, h.valid.listed, h.valid.apart, h.valid.revised⟩,
      h.prompts, h.tracked.runStep h.valid h.prompts hrun⟩
  have hequivalence : Equivalence fun config config' : SkillTemplateConfig =>
      config.prompt = config'.prompt :=
    ⟨fun _ => rfl, Eq.symm, Eq.trans⟩
  cases label with
  | operate op uuid fault =>
    simp only [SkillSystem.step] at hstep
    split_ifs at hstep with hfresh
    obtain rfl := Option.some.inj hstep
    rcases op.perform_cases p uuid fault s.manager with
      ⟨err, hperform⟩ | ⟨definition, m, hperform, hwrites⟩
    · rw [after_of_error hperform]
      have hpublished : ∀ config ∈ (s.withManager s.manager).published, config ∈ s.published := by
        intro config hmem
        rcases List.mem_append.mp hmem with hmem | hmem
        · exact hmem
        · exact h.valid.listed config hmem
      exact ⟨⟨h.valid.register, h.valid.stored, fun config hmem => List.mem_append_right _ hmem,
          fun config hmem => h.valid.apart config (hpublished config hmem),
          fun config hmem => h.valid.revised config (hpublished config hmem)⟩,
        h.prompts.of_subset hpublished, h.tracked.withManager fun _ _ hcurrent => hcurrent⟩
    · rw [after_of_ok hperform]
      rcases h.valid.of_writes hfresh hwrites with ⟨config, hwritten, rfl, -⟩ | ⟨name, hname, rfl⟩
      · exact ⟨h.valid.withTemplate hwritten,
          h.valid.ledger_withTemplate hequivalence
            (fun _ _ hsame => SkillTemplateConfig.prompt_of_beq hsame) (fun _ => rfl) h.prompts
            hwritten,
          h.tracked.withManager (h.valid.installs_withTemplate hwritten)⟩
      · refine ⟨h.valid.withoutTemplate hname, h.prompts.of_subset fun config hmem => ?_,
          h.tracked.withManager Valid.installs_withoutTemplate⟩
        rcases List.mem_append.mp hmem with hmem | hmem
        · exact hmem
        · exact h.valid.listed config (mem_configurations_withoutTemplate hmem)
  | restart draw saved =>
    simp only [SkillSystem.step] at hstep
    obtain ⟨m, hstart, rfl⟩ := Option.map_eq_some_iff.mp hstep
    have hvalid := h.valid.restart hstart
    refine ⟨⟨hvalid.register, hvalid.stored, hvalid.listed, hvalid.apart, hvalid.revised⟩,
      h.prompts.of_subset fun config hmem => ?_,
      h.tracked.recovered (h.valid.installs_restart hstart)⟩
    rcases List.mem_append.mp hmem with hmem | hmem
    · exact hmem
    · exact (h.valid.started hstart).2.2 config hmem
  | record => exact hrun hstep
  | check => exact hrun hstep
  | chat tools => exact hrun hstep
  | compose fault imageFault => exact hrun hstep
  | rendered answer imageFault => exact hrun hstep
  | respond finished => exact hrun hstep
  | fail err => exact hrun hstep
  | pause => exact hrun hstep
  | resume => exact hrun hstep

end SkillSystem

end EvernightAI

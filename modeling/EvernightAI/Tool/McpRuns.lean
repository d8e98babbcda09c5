import EvernightAI.Tool.McpSource

/-!
# Runs of MCP sources

What one piece of a coroutine does to the register (`Change`), what it keeps of a source (`Safe`),
and what follows for every run.

A refresh keeps the register it was called with while it waits for the listing. When a close or a
failing load takes the tools away in the meantime, the refresh still registers its listing: it
`Outlives` them. Nothing else brings the tools of a source back that is down.

* `Sound` : the register is consistent, and each source has no tool or those of one listing.
* `sources_atomic` : every run keeps it, every step only touches tools of its own source, and while
  no refresh outlives a close or a failed load, a source that is down has no tool.
-/

namespace EvernightAI.ToolSources

open Snapshot OwnedTable

/-! ### Registrations of a listing -/

section Listing

variable {schemaText : PyDict → String} {serverId : String} {config : McpConfig}

/-- The registration of a tool that passes the checks. -/
def McpConfig.registrationOf (config : McpConfig) (serverId : String) (tool : McpTool) :
    ToolRegistration where
  tool := toolDefinition serverId config tool
  executor := .remote serverId tool.name

/-- **The share is that of a listing.** It has the tools of the listing that are selected, each
under its local name, with an executor that calls the same remote name. -/
def IsListing (config : McpConfig) (serverId : String) (tools : List McpTool)
    (share : String → Option ToolRegistration) : Prop :=
  ∀ name registration, share name = some registration ↔
    ∃ tool ∈ tools, config.Selects tool ∧ localName config tool = name ∧
      config.registrationOf serverId tool = registration

theorem registration_eq_ok {tool : McpTool} {r : ToolRegistration}
    (h : registration schemaText serverId config tool = .ok r) :
    r = config.registrationOf serverId tool := by
  obtain ⟨definition, hdefinition, rfl⟩ := exists_of_map_eq_ok h
  obtain ⟨-, -, hdefinition⟩ := exists_of_bind_eq_ok hdefinition
  dsimp only at hdefinition
  split_ifs at hdefinition
  · exact absurd hdefinition (by simp [toolConfigurationError])
  · obtain ⟨-, -, hdefinition⟩ := exists_of_bind_eq_ok hdefinition
    rw [← Except.ok.inj hdefinition]
    rfl

theorem selectTools_eq_ok {tools selected : List McpTool}
    (h : selectTools serverId config tools = .ok selected) :
    selected = tools.filter (config.Selects ·) := by
  dsimp only [selectTools] at h
  split_ifs at h
  · exact absurd h (by simp [toolConfigurationError])
  · exact absurd h (by simp [toolConfigurationError])
  · exact (Except.ok.inj h).symm
  · exact absurd h (by simp [toolConfigurationError])

theorem registrations_eq_ok {tools : List McpTool} {rs : List ToolRegistration}
    (h : registrations schemaText serverId config tools = .ok rs) :
    rs = (tools.filter (config.Selects ·)).map (config.registrationOf serverId) := by
  obtain ⟨selected, hselected, h⟩ := exists_of_bind_eq_ok h
  rw [selectTools_eq_ok hselected] at h
  have hmap := forall₂_of_mapM_ok h
  rw [← List.forall₂_eq_eq_eq, List.forall₂_map_right_iff]
  exact (List.forall₂_iff_get.mp hmap).elim fun hlength hget => List.forall₂_iff_get.mpr
    ⟨hlength.symm, fun i hi hi' => registration_eq_ok (hget i hi' hi)⟩

/-- The share of a source with the registrations of a listing. -/
theorem isListing_shareOf {tools : List McpTool} {rs : List ToolRegistration}
    (h : registrations schemaText serverId config tools = .ok rs)
    (hnodup : (rs.map (·.tool.name)).Nodup) : IsListing config serverId tools (shareOf rs) := by
  have hrs := registrations_eq_ok h
  intro name registration
  constructor
  · intro hshare
    have hmem := mem_of_shareOf hshare
    rw [hrs] at hmem
    obtain ⟨tool, htool, rfl⟩ := List.mem_map.mp hmem
    obtain ⟨htool, hselects⟩ := List.mem_filter.mp htool
    exact ⟨tool, htool, of_decide_eq_true hselects, name_of_shareOf hshare, rfl⟩
  · rintro ⟨tool, htool, hselects, hname, rfl⟩
    have hmem : config.registrationOf serverId tool ∈ rs := by
      rw [hrs]
      exact List.mem_map_of_mem (List.mem_filter.mpr ⟨htool, decide_eq_true hselects⟩)
    exact shareOf_eq_some hnodup hmem hname

end Listing

/-! ### How a task goes on -/

/-- The client closes, and the call then ends. -/
def Wait.isEnding : Wait → Bool
  | .loadClosing _ | .closing => true
  | _ => false

/-- A refresh has a register, and waits. -/
def Wait.isRefreshing : Wait → Bool
  | .locking _ | .listing _ => true
  | _ => false

section Resumed

variable (schemaText : PyDict → String) (serverId : String) (config : McpConfig)

/-- What a task can go on with. -/
inductive Resumed (task : ℕ) (l : Local) : Wait → Outcome → Local → Prop
  | entered {wait : Wait} {outcome : Outcome} {caller : Caller} (event : Bool)
      (hwait : wait.isEnding = false) :
      Resumed task l wait outcome (enterRefresh serverId caller task
        { l with source := { l.source with refreshEvent := event } })
  | loadFailed {wait : Wait} {outcome : Outcome} {error : Error} (hwait : wait.isEnding = false) :
      Resumed task l wait outcome (loadFailed serverId task error l)
  | callerFailed {wait : Wait} {outcome : Outcome} {caller : Caller} {error : Error}
      (hwait : wait.isEnding = false) :
      Resumed task l wait outcome (callerFailed serverId caller task error l)
  | refreshFailed {wait : Wait} {outcome : Outcome} {caller : Caller} {error : Error}
      (hwait : wait.isEnding = false) :
      Resumed task l wait outcome (refreshFailed serverId caller task error l)
  | listed {caller : Caller} {tools : List McpTool} :
      Resumed task l (.listing caller) (.listed tools)
        (refreshListed schemaText serverId config caller task tools l)
  | locked {caller : Caller} {outcome : Outcome} : Resumed task l (.locking caller) outcome
      { l with source := { l.source with locked := true }.suspend task (.listing caller) }
  | waits {wait : Wait} {outcome : Outcome} (event : Bool) (hwait : wait.isEnding = false) :
      Resumed task l wait outcome
        { l with source := { l.source with refreshEvent := event }.suspend task .idle }
  | finished {wait : Wait} {outcome : Outcome} (hwait : wait.isEnding = false) :
      Resumed task l wait outcome { l with source := l.source.finish task }
  | closed {wait : Wait} {outcome : Outcome} (hwait : wait.isEnding = false) :
      Resumed task l wait outcome (closeTools serverId task l)
  | ended {wait : Wait} {outcome : Outcome} {raised : Option Error} (hwait : wait.isEnding = true) :
      Resumed task l wait outcome
        { l with source := { l.source.finish task with down := true }, raised }

variable {schemaText serverId config} {task : ℕ} {l l' : Local}

theorem resumed_of_resume {wait : Wait} {outcome : Outcome}
    (h : resume schemaText serverId config task l wait outcome = some l') :
    Resumed schemaText serverId config task l wait outcome l' := by
  cases wait with
  | connecting =>
    cases outcome with
    | done => exact Option.some.inj h ▸ .entered l.source.refreshEvent rfl
    | listed tools => cases h
    | failed error => exact Option.some.inj h ▸ .loadFailed rfl
    | cancelled => exact Option.some.inj h ▸ .loadFailed rfl
  | locking caller =>
    cases outcome with
    | done =>
      rw [resume] at h
      split_ifs at h
      exact Option.some.inj h ▸ .locked
    | listed tools => cases h
    | failed error => cases h
    | cancelled => exact Option.some.inj h ▸ .callerFailed rfl
  | listing caller =>
    cases outcome with
    | done => cases h
    | listed tools => exact Option.some.inj h ▸ .listed
    | failed error => exact Option.some.inj h ▸ .refreshFailed rfl
    | cancelled => exact Option.some.inj h ▸ .refreshFailed rfl
  | loadClosing error => exact Option.some.inj h ▸ .ended rfl
  | idle =>
    cases outcome with
    | done =>
      rw [resume] at h
      split_ifs at h
      exact Option.some.inj h ▸ .entered false rfl
    | listed tools => cases h
    | failed error => cases h
    | cancelled => exact Option.some.inj h ▸ .finished rfl
  | sleeping =>
    cases outcome with
    | done => exact Option.some.inj h ▸ .waits true rfl
    | listed tools => cases h
    | failed error => cases h
    | cancelled => exact Option.some.inj h ▸ .finished rfl
  | joining loop =>
    cases outcome with
    | done =>
      rw [resume] at h
      split_ifs at h
      exact Option.some.inj h ▸ .closed rfl
    | listed tools => cases h
    | failed error => cases h
    | cancelled =>
      rw [resume] at h
      split_ifs at h
      exact Option.some.inj h ▸ .closed rfl
  | closing => exact Option.some.inj h ▸ .ended rfl

end Resumed

/-! ### What a piece does to the register -/

section Change

variable (schemaText : PyDict → String) (serverId : String) (config : McpConfig)

/-- The register stays, or the source has no tools any more. Where something is raised, it stays. -/
structure Quiet (l l' : Local) : Prop where
  register : l'.register = l.register ∨
    (l.register.replaceSource (sourceId serverId) [] = .ok l'.register ∧ l'.raised = none)
  listings : l.source.listings <+: l'.source.listings

/-- **The register changes** as in `Quiet`, or the source gets the tools of a listing. -/
inductive Change (l l' : Local) : Prop
  | quiet (h : Quiet serverId l l')
  | listed {tools : List McpTool} {rs : List ToolRegistration} (hraised : l'.raised = none)
      (hlistings : l'.source.listings = l.source.listings ++ [tools])
      (hregistrations : registrations schemaText serverId config tools = .ok rs)
      (hreplace : l.register.replaceSource (sourceId serverId) rs = .ok l'.register)

variable {schemaText serverId config}

theorem sourceId_ne_empty : sourceId serverId ≠ "" := by
  intro h
  have hlength := congrArg String.length h
  rw [sourceId, String.length_append] at hlength
  exact absurd hlength (by simp)

theorem replaceSource_removeTools (register : Snapshot) :
    register.replaceSource (sourceId serverId) [] = .ok (removeTools serverId register) := by
  obtain ⟨after, hafter⟩ := exists_replaceSource_nil register sourceId_ne_empty
  rw [removeTools, hafter]

variable {caller : Caller} {task : ℕ} {error : Error} {l m l' : Local}

theorem Quiet.of_source (h : Quiet serverId m l') (hregister : m.register = l.register)
    (hlistings : l.source.listings <+: m.source.listings) : Quiet serverId l l' where
  register := by
    rw [← hregister]
    exact h.register
  listings := hlistings.trans h.listings

theorem quiet_callerFailed : Quiet serverId l (callerFailed serverId caller task error l) := by
  cases caller with
  | load => exact ⟨Or.inr ⟨replaceSource_removeTools l.register, rfl⟩, List.prefix_rfl⟩
  | refresh => exact ⟨Or.inl rfl, List.prefix_rfl⟩
  | loop =>
    rw [callerFailed]
    split_ifs
    · exact ⟨Or.inl rfl, List.prefix_rfl⟩
    · exact ⟨Or.inl rfl, List.prefix_rfl⟩

theorem quiet_refreshFailed : Quiet serverId l (refreshFailed serverId caller task error l) := by
  rw [refreshFailed]
  split_ifs
  · exact quiet_callerFailed.of_source rfl List.prefix_rfl
  · exact quiet_callerFailed.of_source rfl List.prefix_rfl

theorem quiet_enterRefresh : Quiet serverId l (enterRefresh serverId caller task l) := by
  rw [enterRefresh]
  by_cases hloaded : l.source.loaded = true
  · rw [if_neg (not_not.mpr hloaded)]
    split_ifs
    · exact ⟨Or.inl rfl, List.prefix_rfl⟩
    · exact ⟨Or.inl rfl, List.prefix_rfl⟩
  · rw [if_pos hloaded]
    exact quiet_callerFailed

theorem quiet_closeTools : Quiet serverId l (closeTools serverId task l) := by
  refine ⟨?_, List.prefix_rfl⟩
  by_cases hloaded : l.source.loaded = true
  · refine Or.inr ⟨?_, rfl⟩
    exact (replaceSource_removeTools l.register).trans (congrArg _ (if_pos hloaded).symm)
  · exact Or.inl (if_neg hloaded)

theorem listings_callerDone (source : McpSource) :
    (callerDone config caller task source).listings = source.listings := by
  cases caller with
  | load =>
    rw [callerDone, startRefreshTask]
    split_ifs <;> rfl
  | refresh => rfl
  | loop => rfl

theorem change_refreshListed {tools : List McpTool} : Change schemaText serverId config l
    (refreshListed schemaText serverId config caller task tools l) := by
  dsimp only [refreshListed]
  cases hregistrations : registrations schemaText serverId config tools with
  | error error => exact .quiet (quiet_refreshFailed.of_source rfl (List.prefix_append _ _))
  | ok rs =>
    dsimp only
    cases hreplace : l.register.replaceSource (sourceId serverId) rs with
    | error error => exact .quiet (quiet_refreshFailed.of_source rfl (List.prefix_append _ _))
    | ok register => exact .listed rfl (listings_callerDone _) hregistrations hreplace

theorem change_resume {wait : Wait} {outcome : Outcome}
    (h : resume schemaText serverId config task l wait outcome = some l') :
    Change schemaText serverId config l l' := by
  cases resumed_of_resume h with
  | entered event => exact .quiet (quiet_enterRefresh.of_source rfl List.prefix_rfl)
  | @loadFailed _ _ error =>
    exact .quiet (@quiet_callerFailed serverId .load task error l)
  | callerFailed => exact .quiet quiet_callerFailed
  | refreshFailed => exact .quiet quiet_refreshFailed
  | listed => exact change_refreshListed
  | locked => exact .quiet ⟨Or.inl rfl, List.prefix_rfl⟩
  | waits event => exact .quiet ⟨Or.inl rfl, List.prefix_rfl⟩
  | finished => exact .quiet ⟨Or.inl rfl, List.prefix_rfl⟩
  | closed => exact .quiet quiet_closeTools
  | ended => exact .quiet ⟨Or.inl rfl, List.prefix_rfl⟩

theorem exists_resume_of_act {outcome : Outcome}
    (h : act schemaText serverId config l (.resume task outcome) = some l') :
    ∃ wait, (task, wait) ∈ l.source.tasks ∧
      resume schemaText serverId config task l wait outcome = some l' := by
  obtain ⟨⟨found, wait⟩, hfound, h⟩ := Option.bind_eq_some_iff.mp h
  obtain ⟨hmem, rfl⟩ := Table.find?_eq_some.mp hfound
  refine ⟨wait, hmem, ?_⟩
  cases outcome with
  | cancelled => exact h
  | done => exact (Option.ite_none_left_eq_some.mp h).2
  | listed tools => exact (Option.ite_none_left_eq_some.mp h).2
  | failed error => exact (Option.ite_none_left_eq_some.mp h).2

/-- **What one piece of a coroutine does to the register.** -/
theorem change_act {action : Action} (h : act schemaText serverId config l action = some l') :
    Change schemaText serverId config l l' := by
  cases action with
  | load =>
    rw [act] at h
    split_ifs at h
    · exact Option.some.inj h ▸ .quiet ⟨Or.inl rfl, List.prefix_rfl⟩
    · exact Option.some.inj h ▸ .quiet ⟨Or.inl rfl, List.prefix_rfl⟩
    · exact Option.some.inj h ▸ .quiet ⟨Or.inl rfl, List.prefix_rfl⟩
  | refresh =>
    exact Option.some.inj h ▸ .quiet (quiet_enterRefresh.of_source rfl List.prefix_rfl)
  | close =>
    dsimp only [act] at h
    cases hloop : l.source.refreshTask with
    | none =>
      rw [hloop] at h
      exact Option.some.inj h ▸ .quiet (quiet_closeTools.of_source rfl List.prefix_rfl)
    | some loop =>
      rw [hloop] at h
      exact Option.some.inj h ▸ .quiet ⟨Or.inl rfl, List.prefix_rfl⟩
  | toolListChanged =>
    rw [act] at h
    split_ifs at h
    exact Option.some.inj h ▸ .quiet ⟨Or.inl rfl, List.prefix_rfl⟩
  | clientFailed =>
    rw [act] at h
    split_ifs at h
    exact Option.some.inj h ▸ .quiet ⟨Or.inl rfl, List.prefix_rfl⟩
  | resume task outcome =>
    obtain ⟨wait, -, hresume⟩ := exists_resume_of_act h
    exact change_resume hresume

end Change

/-! ### What a piece keeps of its source -/

namespace McpSource

/-- A load that failed or a close waits for its client. -/
def Ending (source : McpSource) : Prop := ∃ entry ∈ source.tasks, entry.2.isEnding = true

def Refreshing (source : McpSource) : Prop := ∃ entry ∈ source.tasks, entry.2.isRefreshing = true

/-- The tasks have the numbers below `started`. -/
def Fresh (source : McpSource) : Prop := ∀ entry ∈ source.tasks, entry.1 < source.started

/-- The task waits for no client that closes. -/
def Goes (source : McpSource) (task : ℕ) : Prop :=
  ∀ wait, (task, wait) ∈ source.tasks → wait.isEnding = false

instance (source : McpSource) : Decidable source.Ending :=
  inferInstanceAs (Decidable (∃ entry ∈ source.tasks, entry.2.isEnding = true))

variable {source : McpSource} {task : ℕ} {wait : Wait}

theorem Fresh.goes (h : source.Fresh) : source.Goes source.started :=
  fun _ hmem => absurd (h _ hmem) (Nat.lt_irrefl _)

theorem Fresh.suspend (h : source.Fresh) (hlt : task < source.started) :
    (source.suspend task wait).Fresh := by
  intro entry hentry
  rcases Table.mem_upsert.mp hentry with rfl | ⟨hmem, -⟩
  · exact hlt
  · exact h entry hmem

theorem Fresh.finish (h : source.Fresh) : (source.finish task).Fresh :=
  fun entry hentry => h entry (Table.mem_deleteWhere.mp hentry).1

theorem Fresh.start (h : source.Fresh) : (source.start wait).Fresh := by
  intro entry hentry
  change entry.1 < source.started + 1
  rcases Table.mem_upsert.mp hentry with rfl | ⟨hmem, -⟩
  · exact Nat.lt_succ_self _
  · exact Nat.lt_succ_of_lt (h entry hmem)

theorem ending_suspend (hgoes : source.Goes task) :
    (source.suspend task wait).Ending ↔ wait.isEnding = true ∨ source.Ending := by
  constructor
  · rintro ⟨entry, hentry, hending⟩
    rcases Table.mem_upsert.mp hentry with rfl | ⟨hmem, -⟩
    · exact Or.inl hending
    · exact Or.inr ⟨entry, hmem, hending⟩
  · rintro (hending | ⟨⟨other, wait'⟩, hmem, hending⟩)
    · exact ⟨(task, wait), Table.mem_upsert.mpr (Or.inl rfl), hending⟩
    · refine ⟨(other, wait'), Table.mem_upsert.mpr (Or.inr ⟨hmem, ?_⟩), hending⟩
      rintro (rfl : other = task)
      exact Bool.false_ne_true ((hgoes wait' hmem).symm.trans hending)

theorem ending_finish (hgoes : source.Goes task) : (source.finish task).Ending ↔ source.Ending := by
  constructor
  · rintro ⟨entry, hentry, hending⟩
    exact ⟨entry, (Table.mem_deleteWhere.mp hentry).1, hending⟩
  · rintro ⟨⟨other, wait'⟩, hmem, hending⟩
    refine ⟨(other, wait'), Table.mem_deleteWhere.mpr ⟨hmem, decide_eq_false ?_⟩, hending⟩
    rintro (rfl : other = task)
    exact Bool.false_ne_true ((hgoes wait' hmem).symm.trans hending)

theorem refreshing_suspend (h : (source.suspend task wait).Refreshing) :
    wait.isRefreshing = true ∨ source.Refreshing := by
  obtain ⟨entry, hentry, hrefreshing⟩ := h
  rcases Table.mem_upsert.mp hentry with rfl | ⟨hmem, -⟩
  · exact Or.inl hrefreshing
  · exact Or.inr ⟨entry, hmem, hrefreshing⟩

theorem refreshing_finish (h : (source.finish task).Refreshing) : source.Refreshing := by
  obtain ⟨entry, hentry, hrefreshing⟩ := h
  exact ⟨entry, (Table.mem_deleteWhere.mp hentry).1, hrefreshing⟩

end McpSource

section Safe

variable (serverId : String) (config : McpConfig)

/-- The source has no tool in the register. -/
def Snapshot.Without (register : Snapshot) : Prop :=
  register.table.share (sourceId serverId) = fun _ => none

/-- **What keeps a source that is down without tools.** -/
structure Safe (l : Local) : Prop where
  fresh : l.source.Fresh
  unloaded : l.source.loaded = false → l.register.Without serverId
  down : l.source.down = true → l.register.Without serverId
  ending : l.source.Ending → l.register.Without serverId
  refreshing : l.source.loaded = false → l.source.down = false → l.source.Refreshing →
    l.source.Ending
  overlap : l.source.loaded = true → config.overlap = []

variable {serverId config} {schemaText : PyDict → String} {caller : Caller} {task : ℕ}
  {wait : Wait} {error : Error} {l l' : Local}

/-- Only tasks change, and none that waits for its client. -/
theorem Safe.kept (h : Safe serverId config l) (hregister : l'.register = l.register)
    (hloaded : l'.source.loaded = l.source.loaded) (hdown : l'.source.down = l.source.down)
    (hfresh : l'.source.Fresh) (hending : l'.source.Ending ↔ l.source.Ending)
    (hrefreshing : l'.source.Refreshing → l.source.Refreshing ∨ l.source.loaded = true) :
    Safe serverId config l' where
  fresh := hfresh
  unloaded hnot := hregister ▸ h.unloaded (hloaded.symm.trans hnot)
  down hyes := hregister ▸ h.down (hdown.symm.trans hyes)
  ending hyes := hregister ▸ h.ending (hending.mp hyes)
  refreshing hnot hnotDown hyes := by
    rw [hloaded] at hnot
    rw [hdown] at hnotDown
    rcases hrefreshing hyes with hyes | hyes
    · exact hending.mpr (h.refreshing hnot hnotDown hyes)
    · exact absurd (hnot.symm.trans hyes) Bool.false_ne_true
  overlap hyes := h.overlap (hloaded.symm.trans hyes)

/-- The source has no tool, and is being closed or is loaded. -/
theorem Safe.of_without (hwithout : l'.register.Without serverId) (hfresh : l'.source.Fresh)
    (hends : l'.source.down = true ∨ l'.source.Ending ∨ l'.source.loaded = true)
    (hoverlap : l'.source.loaded = true → config.overlap = []) : Safe serverId config l' where
  fresh := hfresh
  unloaded _ := hwithout
  down _ := hwithout
  ending _ := hwithout
  refreshing hnot hnotDown _ := by
    rcases hends with hyes | hyes | hyes
    · exact absurd (hnotDown.symm.trans hyes) Bool.false_ne_true
    · exact hyes
    · exact absurd (hnot.symm.trans hyes) Bool.false_ne_true
  overlap := hoverlap

theorem Safe.congr (h : Safe serverId config l) (hregister : l'.register = l.register)
    (hloaded : l'.source.loaded = l.source.loaded) (hdown : l'.source.down = l.source.down)
    (htasks : l'.source.tasks = l.source.tasks) (hstarted : l.source.started ≤ l'.source.started) :
    Safe serverId config l' := by
  refine h.kept hregister hloaded hdown (fun entry hentry => ?_) ?_ fun hyes => Or.inl ?_
  · rw [htasks] at hentry
    exact Nat.lt_of_lt_of_le (h.fresh entry hentry) hstarted
  · rw [McpSource.Ending, McpSource.Ending, htasks]
  · rw [McpSource.Refreshing, htasks] at hyes
    exact hyes

theorem Safe.finish (h : Safe serverId config l) (hgoes : l.source.Goes task)
    (raised : Option Error) :
    Safe serverId config { l with source := l.source.finish task, raised } :=
  h.kept rfl rfl rfl h.fresh.finish (McpSource.ending_finish hgoes)
    fun hyes => Or.inl (McpSource.refreshing_finish hyes)

theorem Safe.suspend (h : Safe serverId config l) (wait : Wait) (hgoes : l.source.Goes task)
    (hlt : task < l.source.started) (hwait : wait.isEnding = false)
    (hrefreshing : wait.isRefreshing = true → l.source.Refreshing ∨ l.source.loaded = true)
    (raised : Option Error) :
    Safe serverId config { l with source := l.source.suspend task wait, raised } := by
  refine h.kept rfl rfl rfl (h.fresh.suspend hlt) ?_ fun hyes => ?_
  · refine (McpSource.ending_suspend hgoes).trans (or_iff_right ?_)
    rw [hwait]
    exact Bool.false_ne_true
  · rcases McpSource.refreshing_suspend hyes with hyes | hyes
    · exact hrefreshing hyes
    · exact Or.inl hyes

theorem without_removeTools (register : Snapshot) :
    (removeTools serverId register).Without serverId := by
  rw [Without, table_replaceSource (replaceSource_removeTools register), share_replaceShare]
  rfl

theorem Safe.loadFailed (h : Safe serverId config l) (hgoes : l.source.Goes task)
    (hlt : task < l.source.started) :
    Safe serverId config (loadFailed serverId task error l) :=
  .of_without (without_removeTools l.register) (McpSource.Fresh.suspend h.fresh hlt)
    (Or.inr (Or.inl ((McpSource.ending_suspend hgoes).mpr (Or.inl rfl)))) nofun

theorem Safe.callerFailed (h : Safe serverId config l) (hgoes : l.source.Goes task)
    (hlt : task < l.source.started) :
    Safe serverId config (callerFailed serverId caller task error l) := by
  cases caller with
  | load => exact h.loadFailed hgoes hlt
  | refresh => exact h.finish hgoes (some error)
  | loop =>
    rw [ToolSources.callerFailed]
    split_ifs
    · exact h.finish hgoes (some error)
    · have hready : Safe serverId config { l with source := { l.source with ready := false } } :=
        h.congr rfl rfl rfl rfl (Nat.le_refl _)
      exact hready.suspend .sleeping hgoes hlt rfl nofun (some error)

theorem Safe.refreshFailed (h : Safe serverId config l) (hgoes : l.source.Goes task)
    (hlt : task < l.source.started) :
    Safe serverId config (refreshFailed serverId caller task error l) := by
  rw [ToolSources.refreshFailed]
  split_ifs
  · refine Safe.callerFailed ?_ hgoes hlt
    exact h.congr rfl rfl rfl rfl (Nat.le_refl _)
  · refine Safe.callerFailed ?_ hgoes hlt
    exact h.congr rfl rfl rfl rfl (Nat.le_refl _)

theorem Safe.enterRefresh (h : Safe serverId config l) (hgoes : l.source.Goes task)
    (hlt : task < l.source.started) :
    Safe serverId config (enterRefresh serverId caller task l) := by
  rw [ToolSources.enterRefresh]
  by_cases hloaded : l.source.loaded = true
  · rw [if_neg (not_not.mpr hloaded)]
    split_ifs
    · exact h.suspend (.locking caller) hgoes hlt rfl (fun _ => Or.inr hloaded) l.raised
    · have hlocked : Safe serverId config { l with source := { l.source with locked := true } } :=
        h.congr rfl rfl rfl rfl (Nat.le_refl _)
      exact hlocked.suspend (.listing caller) hgoes hlt rfl (fun _ => Or.inr hloaded) l.raised
  · rw [if_pos hloaded]
    exact h.callerFailed hgoes hlt

theorem Safe.closeTools (h : Safe serverId config l) (hgoes : l.source.Goes task)
    (hlt : task < l.source.started) : Safe serverId config (closeTools serverId task l) := by
  refine .of_without ?_ (McpSource.Fresh.suspend h.fresh hlt)
    (Or.inr (Or.inl ((McpSource.ending_suspend hgoes).mpr (Or.inl rfl)))) nofun
  by_cases hloaded : l.source.loaded = true
  · rw [ToolSources.closeTools, if_pos hloaded]
    exact without_removeTools l.register
  · rw [ToolSources.closeTools, if_neg hloaded]
    exact h.unloaded (Bool.eq_false_iff.mpr hloaded)

/-- What the caller of a refresh keeps of the source. -/
structure Continues (source source' : McpSource) : Prop where
  loaded : source'.loaded = source.loaded
  down : source'.down = source.down
  fresh : source'.Fresh
  ending : source'.Ending ↔ source.Ending

theorem continues_finish {source : McpSource} (hfresh : source.Fresh) (hgoes : source.Goes task) :
    Continues source (source.finish task) :=
  ⟨rfl, rfl, hfresh.finish, McpSource.ending_finish hgoes⟩

theorem continues_startRefreshTask {source : McpSource} (hfresh : source.Fresh) :
    Continues source (startRefreshTask config source) := by
  rw [startRefreshTask]
  split_ifs
  · exact ⟨rfl, rfl, hfresh, Iff.rfl⟩
  · exact ⟨rfl, rfl, hfresh.start, (McpSource.ending_suspend hfresh.goes).trans
      (or_iff_right Bool.false_ne_true)⟩
  · exact ⟨rfl, rfl, hfresh, Iff.rfl⟩

theorem continues_callerDone {source : McpSource} (hfresh : source.Fresh)
    (hgoes : source.Goes task) (hlt : task < source.started) :
    Continues source (callerDone config caller task source) := by
  cases caller with
  | load =>
    have hready : McpSource.Fresh { source with ready := true } := hfresh
    have hfinish := continues_finish hready hgoes
    have hstart := @continues_startRefreshTask config _ hfinish.fresh
    exact ⟨hstart.loaded.trans hfinish.loaded, hstart.down.trans hfinish.down, hstart.fresh,
      hstart.ending.trans hfinish.ending⟩
  | refresh => exact continues_finish hfresh hgoes
  | loop =>
    exact ⟨rfl, rfl, hfresh.suspend hlt, (McpSource.ending_suspend hgoes).trans
      (or_iff_right Bool.false_ne_true)⟩

/-- **A listing is registered** for a source that is neither down nor about to be. -/
theorem Safe.refreshListed {tools : List McpTool} (h : Safe serverId config l)
    (hgoes : l.source.Goes task) (hlt : task < l.source.started) (hlisting : l.source.Refreshing)
    (hgood : (l.source.down = true ∨ l.source.Ending) →
      ∀ rs, registrations schemaText serverId config tools = .ok rs → rs = []) :
    Safe serverId config (refreshListed schemaText serverId config caller task tools l) := by
  have hlistings : Safe serverId config
      { l with source := { l.source with listings := l.source.listings ++ [tools] } } :=
    h.congr rfl rfl rfl rfl (Nat.le_refl _)
  dsimp only [ToolSources.refreshListed]
  cases hregistrations : registrations schemaText serverId config tools with
  | error error => exact hlistings.refreshFailed hgoes hlt
  | ok rs =>
    dsimp only
    cases hreplace : l.register.replaceSource (sourceId serverId) rs with
    | error error => exact hlistings.refreshFailed hgoes hlt
    | ok register =>
      have hcontinues := @continues_callerDone config caller task
        { l.source with
          listings := l.source.listings ++ [tools]
          locked := false
          registeredNames := rs.map (·.tool.name)
          ready := true } h.fresh hgoes hlt
      have hoverlap := fun hyes => h.overlap (hcontinues.loaded.symm.trans hyes)
      by_cases hends : l.source.down = true ∨ l.source.Ending
      · refine .of_without ?_ hcontinues.fresh ?_ hoverlap
        · have hempty := hgood hends rs hregistrations
          rw [hempty] at hreplace
          rw [Without, table_replaceSource hreplace, share_replaceShare]
          rfl
        · rcases hends with hdown | hending
          · exact Or.inl (hcontinues.down.trans hdown)
          · exact Or.inr (Or.inl (hcontinues.ending.mpr hending))
      · -- The refresh has a register, so that a source that is not down is loaded.
        have hdown : l.source.down = false := Bool.eq_false_iff.mpr fun hyes => hends (Or.inl hyes)
        have hloaded : l.source.loaded = true := by
          by_contra hnot
          exact hends (Or.inr (h.refreshing (Bool.eq_false_iff.mpr hnot) hdown hlisting))
        have hloaded' := hcontinues.loaded.trans hloaded
        refine ⟨hcontinues.fresh, fun hnot => ?_, fun hyes => ?_, fun hyes => ?_, fun hnot => ?_,
          hoverlap⟩
        · exact absurd (hnot.symm.trans hloaded') Bool.false_ne_true
        · exact absurd (Or.inl (hcontinues.down.symm.trans hyes)) hends
        · exact absurd (Or.inr (hcontinues.ending.mp hyes)) hends
        · exact absurd (hnot.symm.trans hloaded') Bool.false_ne_true

/-- A listing comes for tools to register, and a load of the source failed or a close of it took the
tools away since, or does so. -/
def Outlives (schemaText : PyDict → String) (serverId : String) (config : McpConfig)
    (source : McpSource) : Action → Prop
  | .resume _ (.listed tools) => (source.down = true ∨ source.Ending) ∧
      ∃ rs, registrations schemaText serverId config tools = .ok rs ∧ rs ≠ []
  | _ => False

theorem Safe.resume {outcome : Outcome} (h : Safe serverId config l)
    (hmem : (task, wait) ∈ l.source.tasks)
    (hgood : ¬Outlives schemaText serverId config l.source (.resume task outcome))
    (hresume : resume schemaText serverId config task l wait outcome = some l') :
    Safe serverId config l' := by
  have hlt : task < l.source.started := h.fresh _ hmem
  have hgoes (hwait : wait.isEnding = false) : l.source.Goes task := by
    intro wait' hmem'
    obtain rfl : wait' = wait := congrArg Prod.snd (Table.eq_of_key_eq hmem' hmem rfl)
    exact hwait
  cases resumed_of_resume hresume with
  | entered event hwait =>
    refine Safe.enterRefresh ?_ (hgoes hwait) hlt
    exact h.congr rfl rfl rfl rfl (Nat.le_refl _)
  | loadFailed hwait => exact h.loadFailed (hgoes hwait) hlt
  | callerFailed hwait => exact h.callerFailed (hgoes hwait) hlt
  | refreshFailed hwait => exact h.refreshFailed (hgoes hwait) hlt
  | @listed caller tools =>
    refine h.refreshListed (hgoes rfl) hlt ⟨_, hmem, rfl⟩ fun hends rs hrs => ?_
    by_contra hne
    exact hgood ⟨hends, rs, hrs, hne⟩
  | locked =>
    have hlocked : Safe serverId config { l with source := { l.source with locked := true } } :=
      h.congr rfl rfl rfl rfl (Nat.le_refl _)
    exact hlocked.suspend _ (hgoes rfl) hlt rfl (fun _ => Or.inl ⟨_, hmem, rfl⟩) l.raised
  | waits event hwait =>
    have hevent : Safe serverId config
        { l with source := { l.source with refreshEvent := event } } :=
      h.congr rfl rfl rfl rfl (Nat.le_refl _)
    exact hevent.suspend .idle (hgoes hwait) hlt rfl nofun l.raised
  | finished hwait => exact h.finish (hgoes hwait) l.raised
  | closed hwait => exact h.closeTools (hgoes hwait) hlt
  | ended hwait =>
    exact .of_without (h.ending ⟨_, hmem, hwait⟩) (McpSource.Fresh.finish h.fresh) (Or.inl rfl)
      h.overlap

/-- A call begins, under the next number. -/
theorem Safe.next (h : Safe serverId config l) :
    Safe serverId config { l with source := { l.source with started := l.source.started + 1 } } :=
  h.congr rfl rfl rfl rfl (Nat.le_succ _)

/-- **A source that is down stays without tools.** -/
theorem Safe.act {action : Action} (h : Safe serverId config l)
    (hgood : ¬Outlives schemaText serverId config l.source action)
    (hact : act schemaText serverId config l action = some l') : Safe serverId config l' := by
  cases action with
  | load =>
    rw [ToolSources.act] at hact
    split_ifs at hact with hready hoverlap
    · exact Option.some.inj hact ▸ h
    · have hloaded : l.source.loaded = false :=
        Bool.eq_false_iff.mpr fun hyes => hoverlap (h.overlap hyes)
      exact Option.some.inj hact ▸ .of_without (h.unloaded hloaded) h.fresh (Or.inl rfl) h.overlap
    · obtain rfl := Option.some.inj hact
      refine ⟨h.fresh.start, nofun, nofun, fun hyes => h.ending ?_, nofun, fun _ => ?_⟩
      · exact ((McpSource.ending_suspend h.fresh.goes).mp hyes).resolve_left Bool.false_ne_true
      · exact not_not.mp hoverlap
  | refresh =>
    exact Option.some.inj hact ▸ h.next.enterRefresh h.fresh.goes (Nat.lt_succ_self _)
  | close =>
    dsimp only [ToolSources.act] at hact
    cases hloop : l.source.refreshTask with
    | none =>
      rw [hloop] at hact
      obtain rfl := Option.some.inj hact
      refine Safe.closeTools ?_ h.fresh.goes (Nat.lt_succ_self _)
      exact h.congr rfl rfl rfl rfl (Nat.le_succ _)
    | some loop =>
      rw [hloop] at hact
      obtain rfl := Option.some.inj hact
      have hnext : Safe serverId config { l with source := { l.source with
          started := l.source.started + 1
          refreshTask := none
          cancelled := loop :: l.source.cancelled } } :=
        h.congr rfl rfl rfl rfl (Nat.le_succ _)
      exact hnext.suspend (.joining loop) h.fresh.goes (Nat.lt_succ_self _) rfl nofun l.raised
  | toolListChanged =>
    rw [ToolSources.act] at hact
    split_ifs at hact
    exact Option.some.inj hact ▸ h.congr rfl rfl rfl rfl (Nat.le_refl _)
  | clientFailed =>
    rw [ToolSources.act] at hact
    split_ifs at hact
    exact Option.some.inj hact ▸ h.congr rfl rfl rfl rfl (Nat.le_refl _)
  | resume task outcome =>
    obtain ⟨wait, hmem, hresume⟩ := exists_resume_of_act hact
    exact h.resume hmem hgood hresume

end Safe

/-! ### Steps of all sources -/

/-- The source whose operation a step is, if any. -/
def Label.owner : Label → Option String
  | .register _ _ _ | .unregister _ => none
  | .replaceSource sourceId _ => some sourceId
  | .act serverId _ => some (sourceId serverId)

/-- **The register is consistent, and a source has the tools of one listing or none.** -/
structure Sound (configs : String → McpConfig) (s : Sys) : Prop where
  consistent : s.register.Consistent
  listed : ∀ serverId, s.register.Without serverId ∨
    ∃ tools ∈ (s.sources serverId).listings, IsListing (configs serverId) serverId tools
      (s.register.table.share (sourceId serverId))

section Sys

variable {schemaText : PyDict → String} {configs : String → McpConfig} {s s' : Sys} {label : Label}

theorem sourceId_injective : Function.Injective sourceId := by
  intro a b h
  have hlist := congrArg String.toList h
  rw [sourceId, sourceId, String.toList_append, String.toList_append] at hlist
  exact String.toList_injective (List.append_cancel_left hlist)

theorem sourceId_ne {name : String} (h : ¬"mcp:".toList <+: name.toList) (serverId : String) :
    sourceId serverId ≠ name := by
  rintro rfl
  rw [sourceId, String.toList_append] at h
  exact h (List.prefix_append _ _)

theorem Quiet.consistent {serverId : String} {l l' : Local} (h : Quiet serverId l l')
    (hl : l.register.Consistent) : l'.register.Consistent := by
  rcases h.register with heq | ⟨hreplace, -⟩
  · rw [heq]
    exact hl
  · exact hl.replaceSource hreplace

theorem Quiet.onlyTouches {serverId : String} {l l' : Local} (h : Quiet serverId l l') :
    OnlyTouches (some (sourceId serverId)) l.register.table l'.register.table := by
  rcases h.register with heq | ⟨hreplace, -⟩
  · rw [heq]
    exact .refl _ _
  · exact onlyTouches_replaceSource hreplace

/-- A step on a source is a piece of one of its coroutines. -/
theorem exists_act_of_step {serverId : String} {action : Action}
    (h : step schemaText configs s (.act serverId action) = some s') :
    ∃ l, act schemaText serverId (configs serverId) ⟨s.register, s.sources serverId, none⟩ action =
        some l ∧
      s' = ⟨l.register, Function.update s.sources serverId l.source, l.raised⟩ := by
  obtain ⟨l, hl, rfl⟩ := Option.map_eq_some_iff.mp h
  exact ⟨l, hl, rfl⟩

/-- **No step touches a tool of another owner.** -/
theorem onlyTouches_step (h : step schemaText configs s label = some s') :
    OnlyTouches label.owner s.register.table s'.register.table := by
  cases label with
  | register tool executor policy =>
    rw [← Option.some.inj h]
    cases hresult : s.register.register tool executor policy with
    | error error => exact .refl _ _
    | ok register => exact onlyTouches_register hresult
  | unregister toolName =>
    rw [← Option.some.inj h]
    cases hresult : s.register.unregister toolName with
    | error error => exact .refl _ _
    | ok register => exact onlyTouches_unregister hresult
  | replaceSource sourceId registrations =>
    rw [step] at h
    split_ifs at h
    rw [← Option.some.inj h]
    cases hresult : s.register.replaceSource sourceId registrations with
    | error error => exact .refl _ _
    | ok register => exact onlyTouches_replaceSource hresult
  | act serverId action =>
    obtain ⟨l, hact, rfl⟩ := exists_act_of_step h
    cases change_act hact with
    | quiet hquiet => exact hquiet.onlyTouches
    | listed _ _ _ hreplace => exact onlyTouches_replaceSource hreplace

theorem register_after_of_raised {result : Except Error Snapshot}
    (h : (s.after result).raised ≠ none) : (s.after result).register = s.register := by
  cases result with
  | error error => rfl
  | ok register => exact absurd rfl h

/-- **What raises leaves the register as it was.** -/
theorem register_of_raised (h : step schemaText configs s label = some s')
    (hraised : s'.raised ≠ none) : s'.register = s.register := by
  cases label with
  | register tool executor policy =>
    rw [← Option.some.inj h] at hraised ⊢
    exact register_after_of_raised hraised
  | unregister toolName =>
    rw [← Option.some.inj h] at hraised ⊢
    exact register_after_of_raised hraised
  | replaceSource sourceId registrations =>
    rw [step] at h
    split_ifs at h
    rw [← Option.some.inj h] at hraised ⊢
    exact register_after_of_raised hraised
  | act serverId action =>
    obtain ⟨l, hact, rfl⟩ := exists_act_of_step h
    cases change_act hact with
    | quiet hquiet =>
      rcases hquiet.register with heq | ⟨-, hnone⟩
      · exact heq
      · exact absurd hnone hraised
    | listed hnone => exact absurd hnone hraised

theorem consistent_after {result : Except Error Snapshot} (hs : s.register.Consistent)
    (h : ∀ register, result = .ok register → register.Consistent) :
    (s.after result).register.Consistent := by
  cases result with
  | error error => exact hs
  | ok register => exact h register rfl

theorem consistent_step (hs : s.register.Consistent)
    (h : step schemaText configs s label = some s') : s'.register.Consistent := by
  cases label with
  | register tool executor policy =>
    rw [← Option.some.inj h]
    exact consistent_after hs fun register => hs.register
  | unregister toolName =>
    rw [← Option.some.inj h]
    exact consistent_after hs fun register => hs.unregister
  | replaceSource sourceId registrations =>
    rw [step] at h
    split_ifs at h
    rw [← Option.some.inj h]
    exact consistent_after hs fun register => hs.replaceSource
  | act serverId action =>
    obtain ⟨l, hact, rfl⟩ := exists_act_of_step h
    cases change_act hact with
    | quiet hquiet => exact hquiet.consistent hs
    | listed _ _ _ hreplace => exact hs.replaceSource hreplace

theorem sources_after {result : Except Error Snapshot} : (s.after result).sources = s.sources := by
  cases result with
  | error error => rfl
  | ok register => rfl

/-- A step that is not one of the source keeps the source and its tools. -/
theorem share_eq_of_step {serverId : String} (hother : ∀ action, label ≠ .act serverId action)
    (h : step schemaText configs s label = some s') :
    s'.sources serverId = s.sources serverId ∧
      s'.register.table.share (sourceId serverId) = s.register.table.share (sourceId serverId) := by
  have htouches := onlyTouches_step h
  cases label with
  | register tool executor policy =>
    refine ⟨?_, htouches.share_eq nofun⟩
    rw [← Option.some.inj h, sources_after]
  | unregister toolName =>
    refine ⟨?_, htouches.share_eq nofun⟩
    rw [← Option.some.inj h, sources_after]
  | replaceSource name registrations =>
    rw [step] at h
    split_ifs at h with hname
    refine ⟨?_, htouches.share_eq fun heq => sourceId_ne hname serverId (Option.some.inj heq)⟩
    rw [← Option.some.inj h, sources_after]
  | act acting action =>
    have hne : serverId ≠ acting := fun heq => hother action (heq ▸ rfl)
    refine ⟨?_, htouches.share_eq fun heq => hne (sourceId_injective (Option.some.inj heq))⟩
    obtain ⟨l, -, rfl⟩ := exists_act_of_step h
    exact Function.update_of_ne hne _ _

theorem sound_step (hs : Sound configs s) (h : step schemaText configs s label = some s') :
    Sound configs s' := by
  refine ⟨consistent_step hs.consistent h, fun serverId => ?_⟩
  have hbefore := hs.listed serverId
  by_cases hother : ∀ action, label ≠ .act serverId action
  · obtain ⟨hsource, hshare⟩ := share_eq_of_step hother h
    rw [Without, hsource, hshare]
    exact hbefore
  · push Not at hother
    obtain ⟨action, rfl⟩ := hother
    obtain ⟨l, hact, rfl⟩ := exists_act_of_step h
    dsimp only
    rw [Function.update_self]
    cases change_act hact with
    | quiet hquiet =>
      rcases hquiet.register with heq | ⟨hreplace, -⟩
      · change l.register = s.register at heq
        rw [heq]
        refine hbefore.imp id fun hlisting => ?_
        obtain ⟨tools, htools, hlisting⟩ := hlisting
        exact ⟨tools, hquiet.listings.subset htools, hlisting⟩
      · left
        rw [Without, table_replaceSource hreplace, share_replaceShare]
        rfl
    | @listed tools rs _ hlistings hregistrations hreplace =>
      right
      refine ⟨tools, ?_, ?_⟩
      · rw [hlistings]
        exact List.mem_append_right _ (List.mem_singleton_self tools)
      · rw [table_replaceSource hreplace, share_replaceShare]
        exact isListing_shareOf hregistrations (replaceSource_eq_ok hreplace).2.1

/-- Every source is safe. -/
def AllSafe (configs : String → McpConfig) (s : Sys) : Prop :=
  ∀ serverId, Safe serverId (configs serverId) ⟨s.register, s.sources serverId, none⟩

/-- The step registers the tools of a source that is down, or being closed. -/
def OutlivesStep (schemaText : PyDict → String) (configs : String → McpConfig) (s : Sys) :
    Label → Prop
  | .act serverId action =>
    Outlives schemaText serverId (configs serverId) (s.sources serverId) action
  | _ => False

theorem allSafe_step (hs : AllSafe configs s) (hgood : ¬OutlivesStep schemaText configs s label)
    (h : step schemaText configs s label = some s') : AllSafe configs s' := by
  intro serverId
  by_cases hother : ∀ action, label ≠ .act serverId action
  · obtain ⟨hsource, hshare⟩ := share_eq_of_step hother h
    have hsafe := hs serverId
    have hwithout : s.register.Without serverId → s'.register.Without serverId := hshare.trans
    rw [hsource]
    exact ⟨hsafe.fresh, fun hyes => hwithout (hsafe.unloaded hyes),
      fun hyes => hwithout (hsafe.down hyes), fun hyes => hwithout (hsafe.ending hyes),
      hsafe.refreshing, hsafe.overlap⟩
  · push Not at hother
    obtain ⟨action, rfl⟩ := hother
    obtain ⟨l, hact, rfl⟩ := exists_act_of_step h
    have hsafe := (hs serverId).act hgood hact
    dsimp only
    rw [Function.update_self]
    exact hsafe.congr rfl rfl rfl rfl (Nat.le_refl _)

theorem sound_init : Sound configs {} :=
  ⟨fun _ => Row.consistent_empty, fun _ => Or.inl rfl⟩

theorem allSafe_init : AllSafe configs {} := fun _ =>
  ⟨fun _ hentry => absurd hentry (Table.not_mem_empty _), fun _ => rfl, nofun, fun _ => rfl,
    fun _ _ ⟨_, hentry, _⟩ => absurd hentry (Table.not_mem_empty _), nofun⟩

end Sys

/-- **Tool sources are atomic.** In every run the register is consistent, each source has no tool or
those of one listing, a step only touches the tools of its own source, and what raises leaves the
register as it was. In a run in which no refresh outlives a close or a failed load, a source has no
tool from the end of such a call to the next load. -/
theorem sources_atomic (schemaText : PyDict → String) (configs : String → McpConfig)
    {labels : List Label} {s : Sys}
    (hrun : TransitionSystem.run (step schemaText configs) {} labels = some s) :
    Sound configs s ∧
      (∀ label s', step schemaText configs s label = some s' →
        OnlyTouches label.owner s.register.table s'.register.table ∧
          (s'.raised ≠ none → s'.register = s.register)) ∧
      (TransitionSystem.Along (step schemaText configs)
          (fun m label => ¬OutlivesStep schemaText configs m label) {} labels →
        ∀ serverId, (s.sources serverId).down = true → s.register.Without serverId) := by
  refine ⟨?_, fun label s' h => ⟨onlyTouches_step h, register_of_raised h⟩,
    fun hgood serverId => ?_⟩
  · exact TransitionSystem.run_invariant (fun _ _ _ => sound_step) sound_init hrun
  · have hsafe : AllSafe configs s := TransitionSystem.run_invariant_of_along
      (fun _ _ _ hs hgood h => allSafe_step hs hgood h) allSafe_init hrun hgood
    exact (hsafe serverId).down

private def searchTool : McpTool := { name := "search" }

private def unwatched (_ : String) : McpConfig :=
  { toolNamespace := "github", watchToolChanges := false }

private def shortText (_ : PyDict) : String := "\x7b\x7d"

private def loaded : List Label := [
  .act "github" .load,
  .act "github" (.resume 0 .done),
  .act "github" (.resume 0 (.listed [searchTool]))]

private def closed (task : ℕ) : List Label := [
  .act "github" .close,
  .act "github" (.resume task .done)]

theorem sources_atomic_load_close :
    ∃ s, TransitionSystem.run (step shortText unwatched) {} (loaded ++ closed 1) = some s ∧
      (s.sources "github").down = true ∧ Sound unwatched s ∧ s.register.Without "github" := by
  have hatomic := @sources_atomic shortText unwatched (loaded ++ closed 1) _ rfl
  refine ⟨_, rfl, rfl, hatomic.1, hatomic.2.2 ?_ "github" rfl⟩
  refine ⟨id, id, fun hout => absurd hout.1 (by decide +kernel), id, id, trivial⟩

/-- The server answers a refresh, the source is closed before the refresh goes on, and its tool is
registered again. -/
theorem refresh_outlives_close :
    ∃ s, TransitionSystem.run (step shortText unwatched) {} (loaded ++
        [.act "github" .refresh] ++ closed 2 ++
          [.act "github" (.resume 1 (.listed [searchTool]))]) = some s ∧
      (s.sources "github").down = true ∧ s.register.has "github__search" = true :=
  ⟨_, rfl, rfl, by decide +kernel⟩

end EvernightAI.ToolSources

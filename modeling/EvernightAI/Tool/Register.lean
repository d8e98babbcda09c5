import Mathlib.Data.String.Basic
import Mathlib.Data.List.Sort
import EvernightAI.Lib.OwnedTable
import EvernightAI.Lib.PyJson
import EvernightAI.Lib.Table
import EvernightAI.Schema.Tool

/-!
# The register of tools and their sources

A snapshot of the register is four dictionaries under the names of the tools: the definitions, the
executors, the preflight policies and the sources that own them. Every operation makes a new
snapshot, or raises. A snapshot is `Consistent` when each name has a definition and an executor, or
nothing; it is then a table of owned entries, and the operations are changes of one owner.
-/

namespace EvernightAI.ToolSources

/-! ### Dictionaries -/

/-- A dictionary: values under distinct names. -/
abbrev Dictionary (β : Type) := Table (Prod.fst : String × β → String)

namespace Dictionary

variable {β : Type}

/-- `d.get(key)` -/
def get (d : Dictionary β) (key : String) : Option β := (d.find? key).map Prod.snd

/-- `d[key] = value` -/
def assign (d : Dictionary β) (key : String) (value : β) : Dictionary β := d.upsert (key, value)

/-- `d.pop(key, None)` -/
def pop (d : Dictionary β) (key : String) : Dictionary β := d.deleteWhere fun entry => entry.1 = key

theorem get_assign (d : Dictionary β) (key k : String) (value : β) :
    (d.assign key value).get k = if k = key then some value else d.get k := by
  by_cases hk : k = key
  · rw [if_pos hk, hk]
    exact congrArg (Option.map Prod.snd) (Table.find?_upsert_self d (key, value))
  · rw [if_neg hk, get, assign, Table.find?_upsert_of_ne d hk]
    rfl

theorem get_pop (d : Dictionary β) (key k : String) :
    (d.pop key).get k = if k = key then none else d.get k := by
  rw [get, pop, Table.find?_deleteWhere_key, apply_ite (Option.map Prod.snd)]
  rfl

theorem get_eq_some_iff {d : Dictionary β} {key : String} {value : β} :
    d.get key = some value ↔ (key, value) ∈ d := by
  rw [get, Option.map_eq_some_iff]
  constructor
  · rintro ⟨⟨k, v⟩, hfind, rfl⟩
    obtain ⟨hmem, rfl⟩ := Table.find?_eq_some.mp hfind
    exact hmem
  · intro hmem
    exact ⟨(key, value), Table.find?_eq_some.mpr ⟨hmem, rfl⟩, rfl⟩

end Dictionary

/-! ### Tools -/

/-- A tool as it is offered to a model. -/
structure ToolDefinition where
  name : String
  description : String
  parametersSchema : Option PyDict := none
  permissions : List ToolPermission := []
  safetyLevel : ToolSafetyLevel := .safe
  requiresApproval : Bool := false
  approvalMode : ToolApprovalMode := .auto
  metadata : PyDict := []

/-- What a call of a tool runs: a tool of a remote server, or any other callable. -/
inductive ToolExecutor
  | remote (serverId remoteName : String)
  | callable (id : ℕ)
  deriving DecidableEq

/-- A callable that is asked before a call. -/
structure ToolPreflightPolicy where
  id : ℕ
  deriving DecidableEq

structure ToolRegistration where
  tool : ToolDefinition
  executor : ToolExecutor
  preflightPolicy : Option ToolPreflightPolicy := none

/-! ### The register -/

structure Snapshot where
  tools : Dictionary ToolDefinition := ∅
  executors : Dictionary ToolExecutor := ∅
  preflightPolicies : Dictionary ToolPreflightPolicy := ∅
  sourceOwners : Dictionary String := ∅

def toolStateError {α : Type} (message : String) (detail : Option String := none) :
    Except Error α :=
  .error { errorType := .other "ToolStateError", message, detail }

namespace Snapshot

/-- `preflight_policies`, with the policy of a tool set or removed. -/
def assignPolicy (policies : Dictionary ToolPreflightPolicy) (name : String) :
    Option ToolPreflightPolicy → Dictionary ToolPreflightPolicy
  | none => policies.pop name
  | some policy => policies.assign name policy

/-- `has` -/
def has (snapshot : Snapshot) (toolName : String) : Bool :=
  (snapshot.tools.get toolName).isSome && (snapshot.executors.get toolName).isSome

/-- `register` -/
def register (snapshot : Snapshot) (tool : ToolDefinition) (executor : ToolExecutor)
    (preflightPolicy : Option ToolPreflightPolicy) : Except Error Snapshot :=
  match snapshot.sourceOwners.get tool.name with
  | some owner =>
    toolStateError ("The tool " ++ tool.name ++ " is managed by source " ++ owner)
  | none => .ok {
      tools := snapshot.tools.assign tool.name tool
      executors := snapshot.executors.assign tool.name executor
      preflightPolicies := assignPolicy snapshot.preflightPolicies tool.name preflightPolicy
      sourceOwners := snapshot.sourceOwners }

/-- `unregister` -/
def unregister (snapshot : Snapshot) (toolName : String) : Except Error Snapshot :=
  if ¬snapshot.has toolName then
    .error {
      errorType := .toolNotFoundError
      message := "The tool " ++ toolName ++ " is not registered" }
  else match snapshot.sourceOwners.get toolName with
    | some owner =>
      toolStateError ("The tool " ++ toolName ++ " is managed by source " ++ owner)
    | none => .ok {
        tools := snapshot.tools.pop toolName
        executors := snapshot.executors.pop toolName
        preflightPolicies := snapshot.preflightPolicies.pop toolName
        sourceOwners := snapshot.sourceOwners }

/-- The names in `names` of tools that another source, or none, has registered. -/
def conflicts (snapshot : Snapshot) (sourceId : String) (names : List String) : List String :=
  names.filter fun name =>
    (snapshot.tools.get name).isSome && snapshot.sourceOwners.get name ≠ some sourceId

/-- `[name for name, owner in source_owners.items() if owner == source_id]` -/
def ownedNames (snapshot : Snapshot) (sourceId : String) : List String :=
  (snapshot.sourceOwners.select fun entry => entry.2 = sourceId).map (·.1)

/-- The body of the loop over the names a source owned. -/
def popOwned (snapshot : Snapshot) (name : String) : Snapshot where
  tools := snapshot.tools.pop name
  executors := snapshot.executors.pop name
  preflightPolicies := snapshot.preflightPolicies.pop name
  sourceOwners := snapshot.sourceOwners.pop name

/-- The body of the loop over the registrations of a source. -/
def add (sourceId : String) (snapshot : Snapshot) (registration : ToolRegistration) : Snapshot :=
  let name := registration.tool.name
  { tools := snapshot.tools.assign name registration.tool
    executors := snapshot.executors.assign name registration.executor
    preflightPolicies :=
      assignPolicy snapshot.preflightPolicies name registration.preflightPolicy
    sourceOwners := snapshot.sourceOwners.assign name sourceId }

/-- `replace_source` -/
def replaceSource (snapshot : Snapshot) (sourceId : String)
    (registrations : List ToolRegistration) : Except Error Snapshot :=
  let names := registrations.map (·.tool.name)
  let conflicts := snapshot.conflicts sourceId names
  if sourceId = "" then toolStateError "The tool source id must not be empty"
  else if ¬names.Nodup then
    toolStateError ("The tool source " ++ sourceId ++ " contains duplicate tool names")
  else if conflicts ≠ [] then
    toolStateError ("The tool source " ++ sourceId ++ " conflicts with registered tools")
      (some (", ".intercalate (conflicts.insertionSort (· ≤ ·))))
  else
    .ok (registrations.foldl (add sourceId)
      ((snapshot.ownedNames sourceId).foldl popOwned snapshot))

/-! ### What stands under a name -/

/-- The entries of the four dictionaries under one name. -/
structure Row where
  tool : Option ToolDefinition := none
  executor : Option ToolExecutor := none
  policy : Option ToolPreflightPolicy := none
  owner : Option String := none

/-- Nothing stands under the name, or a definition of that name with an executor. -/
def Row.Consistent (name : String) (row : Row) : Prop :=
  row = {} ∨ ∃ tool executor, row.tool = some tool ∧ row.executor = some executor ∧ tool.name = name

def row (snapshot : Snapshot) (name : String) : Row where
  tool := snapshot.tools.get name
  executor := snapshot.executors.get name
  policy := snapshot.preflightPolicies.get name
  owner := snapshot.sourceOwners.get name

/-- **The four dictionaries agree.** The same names have a definition and an executor, and only
these have a policy or an owner. -/
def Consistent (snapshot : Snapshot) : Prop := ∀ name, (snapshot.row name).Consistent name

/-- The entry of a row that has a definition and an executor. -/
def Row.entry (row : Row) : Option (OwnedEntry String ToolRegistration) :=
  row.tool.bind fun tool =>
    row.executor.map fun executor => ⟨⟨tool, executor, row.policy⟩, row.owner⟩

/-- What a snapshot stands for. -/
def table (snapshot : Snapshot) : OwnedTable String String ToolRegistration :=
  fun name => (snapshot.row name).entry

/-- The row of a registration. -/
def rowOf (registration : ToolRegistration) (owner : Option String) : Row where
  tool := some registration.tool
  executor := some registration.executor
  policy := registration.preflightPolicy
  owner := owner

/-- The share of a source with some registrations. -/
def shareOf (registrations : List ToolRegistration) : String → Option ToolRegistration :=
  fun name => registrations.find? fun registration => registration.tool.name = name

variable {snapshot after : Snapshot} {name k sourceId : String}

theorem get_assignPolicy (policies : Dictionary ToolPreflightPolicy)
    (policy : Option ToolPreflightPolicy) :
    (assignPolicy policies name policy).get k = if k = name then policy else policies.get k := by
  cases policy with
  | none => exact Dictionary.get_pop policies name k
  | some policy => exact Dictionary.get_assign policies name k policy

theorem row_popOwned :
    (snapshot.popOwned name).row k = if k = name then {} else snapshot.row k := by
  rw [row, row, popOwned]
  simp only [Dictionary.get_pop]
  by_cases hk : k = name
  · simp only [if_pos hk]
  · simp only [if_neg hk]

theorem row_add (registration : ToolRegistration) : (snapshot.add sourceId registration).row k =
    if k = registration.tool.name then rowOf registration (some sourceId) else snapshot.row k := by
  rw [row, row, add]
  simp only [Dictionary.get_assign, get_assignPolicy]
  by_cases hk : k = registration.tool.name
  · simp only [if_pos hk]
    rfl
  · simp only [if_neg hk]

theorem row_foldl_popOwned (names : List String) :
    (names.foldl popOwned snapshot).row k = if k ∈ names then {} else snapshot.row k := by
  induction names generalizing snapshot with
  | nil => rw [if_neg List.not_mem_nil, List.foldl_nil]
  | cons name names ih =>
    rw [List.foldl_cons, ih, row_popOwned]
    by_cases hname : k = name
    · rw [if_pos hname, ite_self, if_pos (List.mem_cons.mpr (Or.inl hname))]
    · rw [if_neg hname]
      exact if_congr (List.mem_cons.trans (or_iff_right hname)).symm rfl rfl

/-- After the loop a name has the row of its registration. -/
theorem row_foldl_add {registrations : List ToolRegistration}
    (hnodup : (registrations.map (·.tool.name)).Nodup) :
    (registrations.foldl (add sourceId) snapshot).row k =
      (shareOf registrations k).elim (snapshot.row k) (rowOf · (some sourceId)) := by
  induction registrations generalizing snapshot with
  | nil => rfl
  | cons registration registrations ih =>
    rw [List.map_cons, List.nodup_cons] at hnodup
    rw [List.foldl_cons, ih hnodup.2, row_add, shareOf, shareOf, List.find?_cons]
    by_cases hk : registration.tool.name = k
    · have hnone : registrations.find? (fun r => decide (r.tool.name = k)) = none := by
        refine List.find?_eq_none.mpr fun r hr hname => hnodup.1 ?_
        rw [hk, ← of_decide_eq_true hname]
        exact List.mem_map_of_mem hr
      rw [hnone, decide_eq_true hk, if_pos hk.symm]
      rfl
    · rw [decide_eq_false hk, if_neg fun heq => hk heq.symm]

theorem mem_ownedNames : name ∈ snapshot.ownedNames sourceId ↔
    snapshot.sourceOwners.get name = some sourceId := by
  rw [Dictionary.get_eq_some_iff, ownedNames, List.mem_map]
  constructor
  · rintro ⟨⟨k, owner⟩, hmem, rfl⟩
    obtain ⟨hstored, howner⟩ := Table.mem_select.mp hmem
    rw [← of_decide_eq_true howner]
    exact hstored
  · intro hmem
    exact ⟨(name, sourceId), Table.mem_select.mpr ⟨hmem, decide_eq_true rfl⟩, rfl⟩

/-! ### What each operation does -/

theorem register_eq_ok {tool : ToolDefinition} {executor : ToolExecutor}
    {policy : Option ToolPreflightPolicy}
    (h : snapshot.register tool executor policy = .ok after) :
    snapshot.sourceOwners.get tool.name = none ∧ ∀ k, after.row k =
      if k = tool.name then rowOf ⟨tool, executor, policy⟩ none else snapshot.row k := by
  rw [register] at h
  cases howner : snapshot.sourceOwners.get tool.name with
  | some owner =>
    rw [howner] at h
    exact absurd h (by simp [toolStateError])
  | none =>
    rw [howner] at h
    obtain rfl := Except.ok.inj h
    refine ⟨rfl, fun k => ?_⟩
    rw [row, row]
    simp only [Dictionary.get_assign, get_assignPolicy]
    by_cases hk : k = tool.name
    · rw [hk]
      simp only [if_true, howner]
      rfl
    · simp only [if_neg hk]

theorem unregister_eq_ok (h : snapshot.unregister name = .ok after) :
    snapshot.sourceOwners.get name = none ∧
      ∀ k, after.row k = if k = name then {} else snapshot.row k := by
  rw [unregister] at h
  split_ifs at h
  cases howner : snapshot.sourceOwners.get name with
  | some owner =>
    rw [howner] at h
    exact absurd h (by simp [toolStateError])
  | none =>
    rw [howner] at h
    obtain rfl := Except.ok.inj h
    refine ⟨rfl, fun k => ?_⟩
    rw [row, row]
    simp only [Dictionary.get_pop]
    by_cases hk : k = name
    · rw [hk]
      simp only [if_true, howner]
    · simp only [if_neg hk]

theorem replaceSource_eq_ok {registrations : List ToolRegistration}
    (h : snapshot.replaceSource sourceId registrations = .ok after) :
    snapshot.conflicts sourceId (registrations.map (·.tool.name)) = [] ∧
      (registrations.map (·.tool.name)).Nodup ∧ ∀ k, after.row k =
        (shareOf registrations k).elim
          (if snapshot.sourceOwners.get k = some sourceId then {} else snapshot.row k)
          (rowOf · (some sourceId)) := by
  dsimp only [replaceSource] at h
  split_ifs at h with hid hnodup hconflicts
  · exact absurd h (by simp [toolStateError])
  · exact absurd h (by simp [toolStateError])
  · obtain rfl := Except.ok.inj h
    refine ⟨not_not.mp hconflicts, hnodup, fun k => ?_⟩
    rw [row_foldl_add hnodup, row_foldl_popOwned]
    simp only [mem_ownedNames]
  · exact absurd h (by simp [toolStateError])

theorem Row.consistent_empty : Row.Consistent name {} := Or.inl rfl

theorem Row.consistent_rowOf (registration : ToolRegistration) (owner : Option String) :
    (rowOf registration owner).Consistent registration.tool.name :=
  Or.inr ⟨registration.tool, registration.executor, rfl, rfl, rfl⟩

theorem name_of_shareOf {registrations : List ToolRegistration} {registration : ToolRegistration}
    (h : shareOf registrations k = some registration) : registration.tool.name = k := by
  have hname := List.find?_some h
  exact of_decide_eq_true hname

theorem mem_of_shareOf {registrations : List ToolRegistration} {registration : ToolRegistration}
    (h : shareOf registrations k = some registration) : registration ∈ registrations :=
  List.mem_of_find?_eq_some h

theorem shareOf_eq_some {registrations : List ToolRegistration} {registration : ToolRegistration}
    (hnodup : (registrations.map (·.tool.name)).Nodup) (hmem : registration ∈ registrations)
    (hname : registration.tool.name = k) : shareOf registrations k = some registration := by
  cases hshare : shareOf registrations k with
  | none => exact absurd (decide_eq_true hname) (List.find?_eq_none.mp hshare registration hmem)
  | some found =>
    have hsame := (name_of_shareOf hshare).trans hname.symm
    rw [List.inj_on_of_nodup_map hnodup (mem_of_shareOf hshare) hmem hsame]

/-- **The register stays consistent.** -/
theorem Consistent.register (hs : snapshot.Consistent) {tool : ToolDefinition}
    {executor : ToolExecutor} {policy : Option ToolPreflightPolicy}
    (h : snapshot.register tool executor policy = .ok after) : after.Consistent := by
  intro k
  rw [(register_eq_ok h).2 k]
  by_cases hk : k = tool.name
  · rw [if_pos hk, hk]
    exact Row.consistent_rowOf ⟨tool, executor, policy⟩ none
  · rw [if_neg hk]
    exact hs k

theorem Consistent.unregister (hs : snapshot.Consistent)
    (h : snapshot.unregister name = .ok after) : after.Consistent := by
  intro k
  rw [(unregister_eq_ok h).2 k]
  by_cases hk : k = name
  · rw [if_pos hk]
    exact Row.consistent_empty
  · rw [if_neg hk]
    exact hs k

theorem Consistent.replaceSource (hs : snapshot.Consistent)
    {registrations : List ToolRegistration}
    (h : snapshot.replaceSource sourceId registrations = .ok after) : after.Consistent := by
  intro k
  rw [(replaceSource_eq_ok h).2.2 k]
  cases hshare : shareOf registrations k with
  | some registration =>
    rw [← name_of_shareOf hshare]
    exact Row.consistent_rowOf registration (some sourceId)
  | none =>
    rw [Option.elim_none]
    by_cases howner : snapshot.sourceOwners.get k = some sourceId
    · rw [if_pos howner]
      exact Row.consistent_empty
    · rw [if_neg howner]
      exact hs k

theorem owner_of_table {e : OwnedEntry String ToolRegistration} (h : snapshot.table k = some e) :
    e.owner = snapshot.sourceOwners.get k := by
  obtain ⟨tool, -, hentry⟩ := Option.bind_eq_some_iff.mp h
  obtain ⟨executor, -, rfl⟩ := Option.map_eq_some_iff.mp hentry
  rfl

/-- A name whose row has no owner before nor after is nobody's. -/
theorem onlyTouches_of_rows (hname : snapshot.sourceOwners.get name = none)
    (hafter : after.sourceOwners.get name = none)
    (h : ∀ k, k ≠ name → after.row k = snapshot.row k) :
    OwnedTable.OnlyTouches none snapshot.table after.table := by
  intro k e he
  by_cases hk : k = name
  · subst hk
    constructor
    · intro hbefore
      exact absurd ((owner_of_table hbefore).trans hname) he
    · intro hlater
      exact absurd ((owner_of_table hlater).trans hafter) he
  · rw [table, table, h k hk]

theorem onlyTouches_register {tool : ToolDefinition} {executor : ToolExecutor}
    {policy : Option ToolPreflightPolicy}
    (h : snapshot.register tool executor policy = .ok after) :
    OwnedTable.OnlyTouches none snapshot.table after.table := by
  obtain ⟨hname, hrow⟩ := register_eq_ok h
  refine onlyTouches_of_rows hname ?_ fun k hk => (hrow k).trans (if_neg hk)
  exact congrArg Row.owner ((hrow tool.name).trans (if_pos rfl))

theorem onlyTouches_unregister (h : snapshot.unregister name = .ok after) :
    OwnedTable.OnlyTouches none snapshot.table after.table := by
  obtain ⟨hname, hrow⟩ := unregister_eq_ok h
  refine onlyTouches_of_rows hname ?_ fun k hk => (hrow k).trans (if_neg hk)
  exact congrArg Row.owner ((hrow name).trans (if_pos rfl))

/-- **Refinement.** `replace_source` replaces the share of the source. -/
theorem table_replaceSource {registrations : List ToolRegistration}
    (h : snapshot.replaceSource sourceId registrations = .ok after) :
    after.table = snapshot.table.replaceShare sourceId (shareOf registrations) := by
  funext k
  rw [table, (replaceSource_eq_ok h).2.2 k, OwnedTable.replaceShare]
  cases hshare : shareOf registrations k with
  | some registration => rfl
  | none =>
    rw [Option.elim_none]
    by_cases howner : snapshot.sourceOwners.get k = some sourceId
    · rw [if_pos howner]
      refine (Option.filter_eq_none_iff.mpr fun e he => ?_).symm
      rw [owner_of_table he, howner]
      simp
    · rw [if_neg howner]
      change snapshot.table k = _
      refine Option.ext fun e => ?_
      rw [Option.filter_eq_some_iff]
      refine ⟨fun he => ⟨he, ?_⟩, And.left⟩
      rw [owner_of_table he]
      exact decide_eq_true howner

/-- The new share of a source takes no tool of another. -/
theorem fits_replaceSource {registrations : List ToolRegistration}
    (h : snapshot.replaceSource sourceId registrations = .ok after) :
    snapshot.table.Fits sourceId (shareOf registrations) := by
  intro k e hshare he
  obtain ⟨registration, hregistration⟩ := Option.ne_none_iff_exists'.mp hshare
  have hmem : k ∈ registrations.map (·.tool.name) := by
    rw [← name_of_shareOf hregistration]
    exact List.mem_map_of_mem (mem_of_shareOf hregistration)
  have hnone := List.filter_eq_nil_iff.mp (replaceSource_eq_ok h).1 k hmem
  rw [owner_of_table he]
  obtain ⟨tool, htool, -⟩ := Option.bind_eq_some_iff.mp he
  rw [show snapshot.tools.get k = some tool from htool] at hnone
  simpa using hnone

theorem onlyTouches_replaceSource {registrations : List ToolRegistration}
    (h : snapshot.replaceSource sourceId registrations = .ok after) :
    OwnedTable.OnlyTouches (some sourceId) snapshot.table after.table := by
  rw [table_replaceSource h]
  exact (fits_replaceSource h).onlyTouches

/-- Taking all tools of a source away cannot fail. -/
theorem exists_replaceSource_nil (snapshot : Snapshot) (hid : sourceId ≠ "") :
    ∃ after, snapshot.replaceSource sourceId [] = .ok after := by
  dsimp only [replaceSource]
  rw [if_neg hid]
  exact ⟨_, rfl⟩

end Snapshot

end EvernightAI.ToolSources

import EvernightAI.Lib.TransitionSystem
import EvernightAI.Tool.ShellSession
import Mathlib.Data.List.Dedup

/-!
# What a shell session may record

Whatever a script writes to the side channel, a session should record a directory inside the root,
variables with portable names that are allowed, and a `PATH` of directories inside the root and
entries the process was started with (`TrackedSession.Sound`). The validation compares captured
values with other captured values, and `sound_iff_genuine` is what it needs of a capture
(`GenuineCapture`): no link leads out of the root, no accepted name ends in a newline, and the
entries of `PATH` that are taken for old are.
-/

namespace EvernightAI

open PosixPath TransitionSystem

/-- `[A-Za-z_][A-Za-z_0-9]*`, and nothing else. -/
def PortableName (key : String) : Prop :=
  ∃ c rest, key.toList = c :: rest ∧ nameStart c = true ∧ ∀ x ∈ rest, nameChar x = true

/-- A process of the session: the file system at the time its capture is applied, and the
environment it was really started with. -/
structure ShellProcess where
  fs : FileSystem
  started : Environment

/-- The entry is one of the `PATH` the process was started with. -/
def ShellProcess.StartedWith (process : ShellProcess) (entry : String) : Prop :=
  ∃ path, process.started.get "PATH" = some path ∧ entry ∈ pieces ':' path

/-- The entry is an absolute path that leads inside the root, on the host or under the sandbox's
name of the root. -/
def EntersRoot (fs : FileSystem) (root : List String) (entry : String) : Prop :=
  ∃ relative, sandboxRelative fs entry root = some relative ∧
    root <+: fs.realpath (root ++ relative)

/-- A shell session, and the processes whose captures recorded its directory and its `PATH`. -/
structure TrackedSession where
  state : ShellSessionState
  cwdFrom : Option ShellProcess := none
  pathFrom : Option ShellProcess := none

/-- What happens to a session. -/
inductive SessionEvent
  | applyCapture (process : ShellProcess) (capture : Option String)
  | load (root : List String)
  | reset (root : List String)

namespace ShellSessionTracker

variable (tracker : ShellSessionTracker)

/-- The value that a capture records for `PATH`. -/
def recordedPath (fs : FileSystem) (state : ShellSessionState) (capture : ShellCapture)
    (root : List String) : Option String :=
  if capture.startEnv.get "PATH" = capture.endEnv.get "PATH" ∨
      (tracker.envRejection "PATH").isSome then none
  else (capture.endEnv.get "PATH").filter fun value =>
    let added := added (base state capture.startEnv) value
    added ≠ [] ∧ ∀ entry ∈ added, (sandboxRelative fs entry root).isSome

/-- The session after an event. -/
def step (key : ShellSessionKey) (s : TrackedSession) : SessionEvent → Option TrackedSession
  | .applyCapture process capture =>
    let root := s.state.root
    some {
      state := (tracker.applyCapture process.fs s.state capture root).state
      cwdFrom := if (parseCapture capture).any fun parsed =>
        (recordedCwd process.fs parsed root).isSome then some process else s.cwdFrom
      pathFrom := if (parseCapture capture).any fun parsed =>
        (tracker.recordedPath process.fs s.state parsed root).isSome then some process
        else s.pathFrom }
  | .load root =>
    some {
      state := tracker.load key root (some s.state)
      cwdFrom := if s.state.root = root then s.cwdFrom else none
      pathFrom := if s.state.root = root then s.pathFrom else none }
  | .reset root => some { state := key.fresh root }

end ShellSessionTracker

/-- **Soundness** of what a session records. -/
structure TrackedSession.Sound (tracker : ShellSessionTracker) (s : TrackedSession) : Prop where
  start : s.cwdFrom = none → s.state.cwd = []
  cwd : ∀ process, s.cwdFrom = some process →
    process.fs.Inside s.state.root (s.state.root ++ s.state.cwd)
  names : ∀ v ∈ s.state.env, PortableName v.1 ∧ deniedVariable v.1 = false ∧
    ∀ allowed, tracker.allowedEnvKeys = some allowed → v.1 ∈ allowed
  path : ∀ v ∈ s.state.env, v.1 = "PATH" → ∃ process, s.pathFrom = some process ∧
    ∀ entry ∈ pieces ':' v.2, process.StartedWith entry ∨
      EntersRoot process.fs s.state.root entry

/-- The capture has a start record, and an end record with a directory. -/
def CompleteCapture (capture : Option String) : Prop :=
  ∃ text start cwd rest, capture = some text ∧
    pieces '\x00' text = "S" :: start ++ "E" :: cwd :: rest

/-- **A capture the validation can rely on**: the directory does not lead out of the root through
a link, no name that is accepted ends in a newline, and every entry of a `PATH` that is recorded is
one the process was started with or leads inside the root. -/
structure GenuineCapture (tracker : ShellSessionTracker) (state : ShellSessionState)
    (process : ShellProcess) (capture : ShellCapture) : Prop where
  cwd : ∀ relative, sandboxRelative process.fs capture.cwd state.root = some relative →
    process.fs.isDir (state.root ++ relative) = true →
      state.root <+: process.fs.realpath (state.root ++ relative)
  names : ∀ key value, capture.endEnv.get key = some value → capture.startEnv.get key ≠ some value →
    key ∉ transientEnv → tracker.envRejection key = none → key.toList.getLast? ≠ some '\n'
  old : ∀ value, tracker.recordedPath process.fs state capture state.root = some value →
    ∀ entry ∈ pieces ':' value,
      entry = "" ∨ entry ∈ ShellSessionTracker.base state capture.startEnv →
      process.StartedWith entry ∨ EntersRoot process.fs state.root entry
  added : ∀ value, tracker.recordedPath process.fs state capture state.root = some value →
    ∀ entry ∈ ShellSessionTracker.added (ShellSessionTracker.base state capture.startEnv) value,
      ∀ relative, sandboxRelative process.fs entry state.root = some relative →
        process.StartedWith entry ∨ state.root <+: process.fs.realpath (state.root ++ relative)

/-! ### Names -/

theorem nameChar_of_matchesNameEnd {rest : List Char} (h : matchesNameEnd rest = true)
    (hlast : rest.getLast? ≠ some '\n') : ∀ x ∈ rest, nameChar x = true := by
  induction rest using matchesNameEnd.induct with
  | case1 => exact fun x hx => absurd hx List.not_mem_nil
  | case2 => exact absurd rfl hlast
  | case3 c rest hne ih =>
    rw [matchesNameEnd] at h
    · have hc := (Bool.and_eq_true_iff.mp h)
      intro x hx
      rcases List.mem_cons.mp hx with rfl | hx
      · exact hc.1
      · refine ih hc.2 (fun hlast' => hlast ?_) x hx
        obtain ⟨y, ys, rfl⟩ := List.exists_cons_of_ne_nil (List.ne_nil_of_mem hx)
        rw [List.getLast?_cons_cons, hlast']
    · exact hne

theorem matchesNameEnd_of_nameChar {rest : List Char} (h : ∀ x ∈ rest, nameChar x = true) :
    matchesNameEnd rest = true := by
  induction rest with
  | nil => rfl
  | cons c rest ih =>
    have hc := h c List.mem_cons_self
    have hrest := ih fun x hx => h x (List.mem_cons_of_mem c hx)
    unfold matchesNameEnd
    split
    · rfl
    · rfl
    · next heq =>
      obtain ⟨rfl, rfl⟩ := List.cons.inj heq
      rw [hc, hrest]
      rfl

/-- What `_ENV_KEY` matches is a portable name, or one with a newline behind it. -/
theorem portableName_iff {key : String} :
    PortableName key ↔ matchesEnvKey key = true ∧ key.toList.getLast? ≠ some '\n' := by
  constructor
  · rintro ⟨c, rest, hkey, hc, hrest⟩
    have hchar : ∀ x ∈ key.toList, nameChar x = true := by
      intro x hx
      rw [hkey] at hx
      rcases List.mem_cons.mp hx with rfl | hx
      · rw [nameChar, hc]
        rfl
      · exact hrest x hx
    constructor
    · rw [matchesEnvKey, hkey]
      exact Bool.and_eq_true_iff.mpr ⟨hc, matchesNameEnd_of_nameChar hrest⟩
    · intro hlast
      exact absurd (hchar _ (List.mem_of_getLast? hlast)) (by decide)
  · rintro ⟨hmatch, hlast⟩
    unfold matchesEnvKey at hmatch
    rcases hkey : key.toList with _ | ⟨c, rest⟩
    · rw [hkey] at hmatch
      exact absurd hmatch Bool.false_ne_true
    · rw [hkey] at hmatch hlast
      have hc := Bool.and_eq_true_iff.mp hmatch
      refine ⟨c, rest, hkey, hc.1, nameChar_of_matchesNameEnd hc.2 fun h => hlast ?_⟩
      rw [List.getLast?_cons, h]
      rfl

namespace ShellSessionTracker

variable {tracker : ShellSessionTracker} {fs : FileSystem} {capture : ShellCapture}
  {root : List String} {state : ShellSessionState} {key : String}

theorem envRejection_eq_none : tracker.envRejection key = none ↔
    matchesEnvKey key = true ∧ deniedVariable key = false ∧
      ∀ allowed, tracker.allowedEnvKeys = some allowed → key ∈ allowed := by
  unfold envRejection
  rcases matchesEnvKey key with _ | _
  · simp
  · rcases deniedVariable key with _ | _
    · rcases tracker.allowedEnvKeys with _ | allowed
      · simp
      · simp
    · simp

/-! ### What one capture records -/

/-- The state after one variable. -/
def withVariable (tracker : ShellSessionTracker) (fs : FileSystem) (capture : ShellCapture)
    (root : List String) (state : ShellSessionState) (key : String) : ShellSessionState :=
  match tracker.recordVariable fs capture root state key with
  | .ok state => state
  | .error _ => state

theorem state_foldl (keys : List String) (update : ShellSessionUpdate) :
    (keys.foldl (tracker.applyVariable fs capture root) update).state =
      keys.foldl (tracker.withVariable fs capture root) update.state := by
  induction keys generalizing update with
  | nil => rfl
  | cons key keys ih =>
    rw [List.foldl_cons, List.foldl_cons, ih, applyVariable, withVariable]
    rcases tracker.recordVariable fs capture root update.state key with reason | state
    · rfl
    · rfl

/-- The variable is one that the loop looks at: it changed, and its name is accepted. -/
def Changes (tracker : ShellSessionTracker) (capture : ShellCapture) (key : String) : Prop :=
  key ∉ transientEnv ∧ capture.startEnv.get key ≠ capture.endEnv.get key ∧
    tracker.envRejection key = none

/-- **One variable's turn** in the loop. -/
inductive Turn (tracker : ShellSessionTracker) (fs : FileSystem) (capture : ShellCapture)
    (root : List String) (s : ShellSessionState) (key : String) : ShellSessionState → Prop
  | skipped (hnot : ¬Changes tracker capture key) : Turn tracker fs capture root s key s
  | inherited (hchanges : Changes tracker capture key) (hend : capture.endEnv.get key = none)
      (habsent : s.env.find? key = none) : Turn tracker fs capture root s key s
  | removed (hchanges : Changes tracker capture key) (hend : capture.endEnv.get key = none) :
      Turn tracker fs capture root s key { s with
        env := s.env.pop key
        basePath := if key = "PATH" then none else s.basePath }
  | set {value : String} (hchanges : Changes tracker capture key)
      (hend : capture.endEnv.get key = some value) (hne : key ≠ "PATH") :
      Turn tracker fs capture root s key { s with env := s.env.set key value }
  | path {value : String} (hchanges : Changes tracker capture key)
      (hend : capture.endEnv.get key = some value) (hpath : key = "PATH") :
      Turn tracker fs capture root s key
        ((applyPath fs s capture.startEnv value root).toOption.getD s)

theorem turn_withVariable (tracker : ShellSessionTracker) (fs : FileSystem)
    (capture : ShellCapture) (root : List String) (s : ShellSessionState) (key : String) :
    Turn tracker fs capture root s key (withVariable tracker fs capture root s key) := by
  unfold withVariable recordVariable
  by_cases hsame : key ∈ transientEnv ∨ capture.startEnv.get key = capture.endEnv.get key
  · rw [if_pos hsame]
    exact .skipped fun h => hsame.elim h.1 h.2.1
  · rw [if_neg hsame]
    rw [not_or] at hsame
    rcases hreject : tracker.envRejection key with _ | reason
    · have hchanges : Changes tracker capture key := ⟨hsame.1, hsame.2, hreject⟩
      rcases hend : capture.endEnv.get key with _ | value
      · rcases hfind : s.env.find? key with _ | v
        · exact .inherited hchanges hend hfind
        · exact .removed hchanges hend
      · by_cases hpath : key = "PATH"
        · have hturn : Turn tracker fs capture root s key
              ((applyPath fs s capture.startEnv value root).toOption.getD s) :=
            .path hchanges hend hpath
          simp only [if_pos hpath]
          generalize applyPath fs s capture.startEnv value root = outcome at hturn ⊢
          rcases outcome with reason | s'
          · exact hturn
          · exact hturn
        · simp only [if_neg hpath]
          exact .set hchanges hend hpath
    · refine .skipped fun h => ?_
      rw [h.2.2] at hreject
      exact Option.some_ne_none _ hreject.symm

/-- `_apply_path` records the value, refuses it, or goes back to the inherited `PATH`. -/
theorem applyPath_cases (fs : FileSystem) (root : List String) (state : ShellSessionState)
    (startEnv : Environment) (value : String) :
    (added (base state startEnv) value ≠ [] ∧
        (∀ entry ∈ added (base state startEnv) value, (sandboxRelative fs entry root).isSome) ∧
        applyPath fs state startEnv value root = .ok { state with
          env := state.env.set "PATH" value, basePath := some (base state startEnv) }) ∨
    ¬(added (base state startEnv) value ≠ [] ∧
        ∀ entry ∈ added (base state startEnv) value, (sandboxRelative fs entry root).isSome) ∧
      ((∃ reason, applyPath fs state startEnv value root = .error reason) ∨
        applyPath fs state startEnv value root =
          .ok { state with env := state.env.pop "PATH", basePath := none }) := by
  unfold applyPath
  by_cases hall : ∀ entry ∈ added (base state startEnv) value,
      (sandboxRelative fs entry root).isSome
  · have hany : (added (base state startEnv) value).any
        (fun entry => (sandboxRelative fs entry root).isNone) = false := by
      rw [List.any_eq_false]
      intro entry hentry hnone
      rw [Option.isNone_iff_eq_none] at hnone
      have hsome := hall entry hentry
      rw [hnone] at hsome
      exact Bool.false_ne_true hsome
    simp only [hany, Bool.false_eq_true, if_false]
    by_cases hadded : added (base state startEnv) value ≠ []
    · exact Or.inl ⟨hadded, hall, if_pos hadded⟩
    · exact Or.inr ⟨fun h => hadded h.1, Or.inr (if_neg hadded)⟩
  · have hany : (added (base state startEnv) value).any
        (fun entry => (sandboxRelative fs entry root).isNone) = true := by
      rw [List.any_eq_true]
      by_contra hnone
      refine hall fun entry hentry => ?_
      by_contra hentryNone
      exact hnone ⟨entry, hentry, by simpa using hentryNone⟩
    simp only [hany, if_true]
    exact Or.inr ⟨fun h => hall h.2, Or.inl ⟨_, rfl⟩⟩

/-- Other variables, the directory and the root stay; so does the base of `PATH` unless the variable
is `PATH`. -/
structure Frames (key : String) (s s' : ShellSessionState) : Prop where
  root : s'.root = s.root
  cwd : s'.cwd = s.cwd
  others : ∀ other, other ≠ key → s'.env.find? other = s.env.find? other
  basePath : key ≠ "PATH" → s'.basePath = s.basePath

theorem withVariable_frames (tracker : ShellSessionTracker) (fs : FileSystem)
    (capture : ShellCapture) (root : List String) (s : ShellSessionState) (key : String) :
    Frames key s (withVariable tracker fs capture root s key) := by
  have hset : ∀ (env : Environment) (value other : String), other ≠ key →
      (env.set key value).find? other = env.find? other :=
    fun env value other hne => Table.find?_upsert_of_ne env hne
  have hpop : ∀ (env : Environment) (other : String), other ≠ key →
      (env.pop key).find? other = env.find? other := by
    intro env other hne
    exact (Table.find?_deleteWhere_key env key other).trans (if_neg hne)
  have hturn := turn_withVariable tracker fs capture root s key
  generalize withVariable tracker fs capture root s key = s' at hturn ⊢
  cases hturn with
  | skipped => exact ⟨rfl, rfl, fun _ _ => rfl, fun _ => rfl⟩
  | inherited => exact ⟨rfl, rfl, fun _ _ => rfl, fun _ => rfl⟩
  | removed => exact ⟨rfl, rfl, hpop _, fun hne => if_neg hne⟩
  | set => exact ⟨rfl, rfl, hset _ _, fun _ => rfl⟩
  | @path value _ _ hkey =>
    subst hkey
    rcases applyPath_cases fs root s capture.startEnv value with
      ⟨-, -, hpath⟩ | ⟨-, ⟨reason, hpath⟩ | hpath⟩
    · rw [hpath]
      exact ⟨rfl, rfl, hset _ _, fun hne => absurd rfl hne⟩
    · rw [hpath]
      exact ⟨rfl, rfl, fun _ _ => rfl, fun _ => rfl⟩
    · rw [hpath]
      exact ⟨rfl, rfl, hpop _, fun hne => absurd rfl hne⟩

/-- **The loop.** Every variable is treated once, as if it were the first. -/
theorem foldl_withVariable (tracker : ShellSessionTracker) (fs : FileSystem)
    (capture : ShellCapture) (root : List String) (keys : List String) (hkeys : keys.Nodup)
    (state : ShellSessionState) :
    (keys.foldl (withVariable tracker fs capture root) state).root = state.root ∧
    (keys.foldl (withVariable tracker fs capture root) state).cwd = state.cwd ∧
    ∀ key, (key ∉ keys →
        (keys.foldl (withVariable tracker fs capture root) state).env.find? key =
          state.env.find? key) ∧
      (key ∈ keys → ∃ s, s.env.find? key = state.env.find? key ∧
        (key = "PATH" → s.basePath = state.basePath) ∧
        (keys.foldl (withVariable tracker fs capture root) state).env.find? key =
          (withVariable tracker fs capture root s key).env.find? key) := by
  induction keys generalizing state with
  | nil => exact ⟨rfl, rfl, fun key => ⟨fun _ => rfl, fun h => absurd h List.not_mem_nil⟩⟩
  | cons k keys ih =>
    rw [List.nodup_cons] at hkeys
    have hframes := withVariable_frames tracker fs capture root state k
    obtain ⟨hroot, hcwd, hrest⟩ := ih hkeys.2 (withVariable tracker fs capture root state k)
    rw [List.foldl_cons]
    refine ⟨hroot.trans hframes.root, hcwd.trans hframes.cwd, fun key =>
      ⟨fun hkey => ?_, fun hkey => ?_⟩⟩
    · rw [List.mem_cons, not_or] at hkey
      rw [(hrest key).1 hkey.2, hframes.others key hkey.1]
    · by_cases hfirst : key = k
      · subst hfirst
        exact ⟨state, rfl, fun _ => rfl, (hrest key).1 hkeys.1⟩
      · obtain ⟨s, hfind, hbase, hlast⟩ :=
          (hrest key).2 ((List.mem_cons.mp hkey).resolve_left hfirst)
        refine ⟨s, hfind.trans (hframes.others key hfirst), fun hpath => ?_, hlast⟩
        exact (hbase hpath).trans (hframes.basePath fun hk => hfirst (hpath.trans hk.symm))

theorem find?_set_self (env : Environment) (key value : String) :
    (env.set key value).find? key = some (key, value) := Table.find?_upsert_self env (key, value)

theorem find?_pop_self (env : Environment) (key : String) : (env.pop key).find? key = none :=
  (Table.find?_deleteWhere_key env key key).trans (if_pos rfl)

theorem recordedPath_eq_some {value : String} :
    tracker.recordedPath fs state capture root = some value ↔
      Changes tracker capture "PATH" ∧ capture.endEnv.get "PATH" = some value ∧
      added (base state capture.startEnv) value ≠ [] ∧
      ∀ entry ∈ added (base state capture.startEnv) value,
        (sandboxRelative fs entry root).isSome := by
  have htransient : "PATH" ∉ transientEnv := by decide
  unfold recordedPath Changes
  by_cases hsame : capture.startEnv.get "PATH" = capture.endEnv.get "PATH"
  · simp [hsame]
  · rcases hreject : tracker.envRejection "PATH" with _ | reason
    · simp [hsame, htransient, Option.filter_eq_some_iff]
    · simp

/-- What its turn leaves of a variable, apart from `PATH`. -/
theorem find?_withVariable {value : String} (hne : key ≠ "PATH") (s : ShellSessionState)
    (hchanges : Changes tracker capture key) (hend : capture.endEnv.get key = some value) :
    (withVariable tracker fs capture root s key).env.find? key = some (key, value) := by
  have hturn := turn_withVariable tracker fs capture root s key
  generalize withVariable tracker fs capture root s key = s' at hturn ⊢
  cases hturn with
  | skipped hnot => exact absurd hchanges hnot
  | inherited _ hnone => exact absurd (hend.symm.trans hnone) (Option.some_ne_none _)
  | removed _ hnone => exact absurd (hend.symm.trans hnone) (Option.some_ne_none _)
  | set _ hsome =>
    rw [Option.some.inj (hend.symm.trans hsome)]
    exact find?_set_self _ _ _
  | path _ _ hpath => exact absurd hpath hne

theorem of_find?_withVariable {v : String × String} {s : ShellSessionState} (hne : key ≠ "PATH")
    (h : (withVariable tracker fs capture root s key).env.find? key = some v) :
    (Changes tracker capture key ∧ capture.endEnv.get key = some v.2) ∨
      s.env.find? key = some v := by
  have hturn := turn_withVariable tracker fs capture root s key
  generalize withVariable tracker fs capture root s key = s' at hturn h
  cases hturn with
  | skipped => exact Or.inr h
  | inherited => exact Or.inr h
  | removed =>
    rw [find?_pop_self] at h
    exact absurd h.symm (Option.some_ne_none _)
  | set hchanges hend =>
    rw [find?_set_self] at h
    rw [← Option.some.inj h]
    exact Or.inl ⟨hchanges, hend⟩
  | path _ _ hpath => exact absurd hpath hne

/-- What its turn leaves of `PATH`. -/
theorem find?_withVariable_path {value : String} (s : ShellSessionState)
    (h : tracker.recordedPath fs s capture root = some value) :
    (withVariable tracker fs capture root s "PATH").env.find? "PATH" = some ("PATH", value) := by
  obtain ⟨hchanges, hend, hadded, hinside⟩ := recordedPath_eq_some.mp h
  have hturn := turn_withVariable tracker fs capture root s "PATH"
  generalize withVariable tracker fs capture root s "PATH" = s' at hturn ⊢
  cases hturn with
  | skipped hnot => exact absurd hchanges hnot
  | inherited _ hnone => exact absurd (hend.symm.trans hnone) (Option.some_ne_none _)
  | removed _ hnone => exact absurd (hend.symm.trans hnone) (Option.some_ne_none _)
  | set _ _ hne => exact absurd rfl hne
  | path _ hsome =>
    rw [← Option.some.inj (hend.symm.trans hsome)]
    rcases applyPath_cases fs root s capture.startEnv value with ⟨-, -, hpath⟩ | ⟨hnot, -⟩
    · rw [hpath]
      exact find?_set_self _ _ _
    · exact absurd ⟨hadded, hinside⟩ hnot

theorem of_find?_withVariable_path {v : String × String} {s : ShellSessionState}
    (h : (withVariable tracker fs capture root s "PATH").env.find? "PATH" = some v)
    (hnone : tracker.recordedPath fs s capture root = none) : s.env.find? "PATH" = some v := by
  have hturn := turn_withVariable tracker fs capture root s "PATH"
  generalize withVariable tracker fs capture root s "PATH" = s' at hturn h
  cases hturn with
  | skipped => exact h
  | inherited => exact h
  | removed =>
    rw [find?_pop_self] at h
    exact absurd h.symm (Option.some_ne_none _)
  | set _ _ hne => exact absurd rfl hne
  | @path value hchanges hend =>
    rcases applyPath_cases fs root s capture.startEnv value with
      ⟨hadded, hinside, -⟩ | ⟨-, ⟨reason, hpath⟩ | hpath⟩
    · have hsome := recordedPath_eq_some.mpr ⟨hchanges, hend, hadded, hinside⟩
      exact absurd (hsome.symm.trans hnone) (Option.some_ne_none _)
    · rwa [hpath] at h
    · rw [hpath] at h
      have hpop := find?_pop_self s.env "PATH"
      exact absurd (h.symm.trans hpop) (Option.some_ne_none _)

theorem recordedPath_congr {s s' : ShellSessionState} (h : s.basePath = s'.basePath) :
    tracker.recordedPath fs s capture root = tracker.recordedPath fs s' capture root := by
  have hbase : base s capture.startEnv = base s' capture.startEnv := by rw [base, base, h]
  rw [recordedPath, recordedPath, hbase]

theorem nodup_capturedKeys (capture : ShellCapture) : (capturedKeys capture).Nodup :=
  (List.perm_insertionSort _ _).nodup_iff.mpr (List.nodup_dedup _)

theorem mem_capturedKeys_of_changes (h : Changes tracker capture key) :
    key ∈ capturedKeys capture := by
  have hmem : ∀ {env : Environment} {value : String}, env.get key = some value →
      key ∈ env.rows.map Prod.fst := by
    intro env value hget
    obtain ⟨v, hfind, -⟩ := Option.map_eq_some_iff.mp hget
    obtain ⟨hv, hkey⟩ := Table.find?_eq_some.mp hfind
    exact List.mem_map.mpr ⟨v, hv, hkey⟩
  unfold capturedKeys
  rw [(List.perm_insertionSort _ _).mem_iff, List.mem_dedup, List.map_append, List.mem_append]
  rcases hstart : capture.startEnv.get key with _ | value
  · rcases hend : capture.endEnv.get key with _ | value
    · exact absurd (hstart.trans hend.symm) h.2.1
    · exact Or.inr (hmem hend)
  · exact Or.inl (hmem hstart)

/-- **One capture.** -/
structure Recorded (tracker : ShellSessionTracker) (fs : FileSystem) (capture : ShellCapture)
    (s s' : ShellSessionState) : Prop where
  root : s'.root = s.root
  cwd : s'.cwd = (recordedCwd fs capture s.root).getD s.cwd
  set : ∀ key value, key ≠ "PATH" → Changes tracker capture key →
    capture.endEnv.get key = some value → s'.env.find? key = some (key, value)
  of_find? : ∀ key v, key ≠ "PATH" → s'.env.find? key = some v →
    (Changes tracker capture key ∧ capture.endEnv.get key = some v.2) ∨ s.env.find? key = some v
  path : ∀ value, tracker.recordedPath fs s capture s.root = some value →
    s'.env.find? "PATH" = some ("PATH", value)
  of_path : ∀ v, s'.env.find? "PATH" = some v →
    tracker.recordedPath fs s capture s.root = none → s.env.find? "PATH" = some v

theorem recorded_applyCapture {text : Option String} (state : ShellSessionState)
    (hparse : parseCapture text = some capture) :
    Recorded tracker fs capture state (tracker.applyCapture fs state text state.root).state := by
  -- The loop starts where the directory has been recorded.
  let start : ShellSessionState :=
    { state with cwd := (recordedCwd fs capture state.root).getD state.cwd }
  have heq : (tracker.applyCapture fs state text state.root).state =
      (capturedKeys capture).foldl (withVariable tracker fs capture state.root) start := by
    unfold applyCapture
    rw [hparse]
    rcases hcwd : recordedCwd fs capture state.root with _ | relative
    · simp only [start, hcwd, state_foldl, Option.getD_none]
    · simp only [start, hcwd, state_foldl, Option.getD_some]
  obtain ⟨hroot, hcwd, hkeys⟩ := foldl_withVariable tracker fs capture state.root
    (capturedKeys capture) (nodup_capturedKeys capture) start
  rw [← heq] at hroot hcwd hkeys
  -- What a variable's turn finds is what was recorded before.
  have hturn : ∀ key, Changes tracker capture key → ∃ s, s.env.find? key = state.env.find? key ∧
      (key = "PATH" → s.basePath = state.basePath) ∧
      (tracker.applyCapture fs state text state.root).state.env.find? key =
        (withVariable tracker fs capture state.root s key).env.find? key :=
    fun key hchanges => (hkeys key).2 (mem_capturedKeys_of_changes hchanges)
  refine ⟨hroot, hcwd, fun key value hne hchanges hend => ?_, fun key v hne hfind => ?_,
    fun value hrecorded => ?_, fun v hfind hnone => ?_⟩
  · obtain ⟨s, -, -, hlast⟩ := hturn key hchanges
    rw [hlast, find?_withVariable hne s hchanges hend]
  · by_cases hkey : key ∈ capturedKeys capture
    · obtain ⟨s, hold, -, hlast⟩ := (hkeys key).2 hkey
      rw [hlast] at hfind
      rw [← hold]
      exact of_find?_withVariable hne hfind
    · rw [(hkeys key).1 hkey] at hfind
      exact Or.inr hfind
  · obtain ⟨s, -, hbase, hlast⟩ := hturn "PATH" (recordedPath_eq_some.mp hrecorded).1
    rw [hlast]
    exact find?_withVariable_path s ((recordedPath_congr (hbase rfl)).trans hrecorded)
  · by_cases hkey : "PATH" ∈ capturedKeys capture
    · obtain ⟨s, hold, hbase, hlast⟩ := (hkeys "PATH").2 hkey
      rw [hlast] at hfind
      rw [← hold]
      exact of_find?_withVariable_path hfind ((recordedPath_congr (hbase rfl)).trans hnone)
    · rwa [(hkeys "PATH").1 hkey] at hfind

/-! ### Steps -/

theorem recordedCwd_eq_some {relative : List String} : recordedCwd fs capture root = some relative ↔
    sandboxRelative fs capture.cwd root = some relative ∧ fs.isDir (root ++ relative) = true :=
  Option.filter_eq_some_iff

/-- A name that is accepted is sound unless it ends in a newline. -/
theorem sound_name_iff (h : tracker.envRejection key = none) :
    (PortableName key ∧ deniedVariable key = false ∧
      ∀ allowed, tracker.allowedEnvKeys = some allowed → key ∈ allowed) ↔
    key.toList.getLast? ≠ some '\n' := by
  obtain ⟨hmatch, hdenied, hallowed⟩ := envRejection_eq_none.mp h
  constructor
  · intro hsound
    exact (portableName_iff.mp hsound.1).2
  · intro hlast
    exact ⟨portableName_iff.mpr ⟨hmatch, hlast⟩, hdenied, hallowed⟩

/-- The session is fresh. -/
theorem sound_fresh (tracker : ShellSessionTracker) (key : ShellSessionKey) (root : List String) :
    TrackedSession.Sound tracker { state := key.fresh root } where
  start _ := rfl
  cwd _ h := absurd h.symm (Option.some_ne_none _)
  names v hv := absurd hv (Table.not_mem_empty v)
  path v hv := absurd hv (Table.not_mem_empty v)

section Capture

variable {s : TrackedSession} {process : ShellProcess} {s' : TrackedSession}

/-- The session after a capture that could be parsed. -/
structure AfterCapture (tracker : ShellSessionTracker) (process : ShellProcess)
    (capture : ShellCapture) (s s' : TrackedSession) : Prop where
  state : Recorded tracker process.fs capture s.state s'.state
  cwdFrom : s'.cwdFrom =
    if (recordedCwd process.fs capture s.state.root).isSome then some process else s.cwdFrom
  pathFrom : s'.pathFrom =
    if (tracker.recordedPath process.fs s.state capture s.state.root).isSome then some process
    else s.pathFrom

theorem genuineCapture_of_sound (h : AfterCapture tracker process capture s s')
    (hsound : s'.Sound tracker) : GenuineCapture tracker s.state process capture := by
  have hpath : ∀ value, tracker.recordedPath process.fs s.state capture s.state.root = some value →
      ∀ entry ∈ pieces ':' value, process.StartedWith entry ∨
        EntersRoot process.fs s.state.root entry := by
    intro value hvalue entry hentry
    have hmem := (Table.find?_eq_some.mp (h.state.path value hvalue)).1
    obtain ⟨p, hp, hentries⟩ := hsound.path _ hmem rfl
    rw [h.pathFrom, hvalue] at hp
    obtain rfl : process = p := Option.some.inj hp
    rw [← h.state.root]
    exact hentries entry hentry
  refine ⟨fun relative hrelative hdir => ?_, fun key value hend hstart htransient hreject => ?_,
    fun value hvalue entry hentry _ => hpath value hvalue entry hentry,
    fun value hvalue entry hentry relative hrelative => ?_⟩
  · have hrecorded := recordedCwd_eq_some.mpr ⟨hrelative, hdir⟩
    have hinside := hsound.cwd process (by rw [h.cwdFrom, hrecorded]; rfl)
    rw [h.state.root, h.state.cwd, hrecorded] at hinside
    exact hinside.2
  · by_cases hkey : key = "PATH"
    · rw [hkey]
      decide
    · have hchanges : Changes tracker capture key :=
        ⟨htransient, fun hsame => hstart (hsame.trans hend), hreject⟩
      have hmem := (Table.find?_eq_some.mp (h.state.set key value hkey hchanges hend)).1
      exact (sound_name_iff hreject).mp (hsound.names _ hmem)
  · rcases hpath value hvalue entry (List.mem_filter.mp hentry).1 with hstarted | ⟨r, hr, hinside⟩
    · exact Or.inl hstarted
    · obtain rfl : r = relative := Option.some.inj (hr.symm.trans hrelative)
      exact Or.inr hinside

theorem sound_of_genuineCapture (h : AfterCapture tracker process capture s s')
    (hs : s.Sound tracker) (hgenuine : GenuineCapture tracker s.state process capture) :
    s'.Sound tracker := by
  have hfind : ∀ v ∈ s'.state.env, s'.state.env.find? v.1 = some v :=
    fun v hv => Table.find?_eq_some.mpr ⟨hv, rfl⟩
  have hold : ∀ {k : String} {v : String × String}, s.state.env.find? k = some v →
      v ∈ s.state.env := fun hv => (Table.find?_eq_some.mp hv).1
  refine ⟨fun hnone => ?_, fun p hp => ?_, fun v hv => ?_, fun v hv hkey => ?_⟩
  · rw [h.cwdFrom] at hnone
    rw [h.state.cwd]
    rcases hrecorded : recordedCwd process.fs capture s.state.root with _ | relative
    · rw [hrecorded] at hnone
      exact hs.start hnone
    · rw [hrecorded] at hnone
      exact absurd hnone (Option.some_ne_none _)
  · rw [h.cwdFrom] at hp
    rw [h.state.root, h.state.cwd]
    rcases hrecorded : recordedCwd process.fs capture s.state.root with _ | relative
    · rw [hrecorded] at hp
      exact hs.cwd p hp
    · rw [hrecorded] at hp
      obtain rfl : process = p := Option.some.inj hp
      obtain ⟨hrelative, hdir⟩ := recordedCwd_eq_some.mp hrecorded
      exact ⟨hdir, hgenuine.cwd relative hrelative hdir⟩
  · by_cases hpath : v.1 = "PATH"
    · have hv' := hfind v hv
      rw [hpath] at hv'
      rcases hrecorded : tracker.recordedPath process.fs s.state capture s.state.root with _ | value
      · exact hs.names v (hold (h.state.of_path v hv' hrecorded))
      · have hreject := (recordedPath_eq_some.mp hrecorded).1.2.2
        rw [hpath]
        exact (sound_name_iff hreject).mpr (by decide)
    · rcases h.state.of_find? v.1 v hpath (hfind v hv) with ⟨hchanges, hend⟩ | hbefore
      · refine (sound_name_iff hchanges.2.2).mpr (hgenuine.names v.1 v.2 hend (fun hstart => ?_)
          hchanges.1 hchanges.2.2)
        exact hchanges.2.1 (hstart.trans hend.symm)
      · exact hs.names v (hold hbefore)
  · have hv' := hfind v hv
    rw [hkey] at hv'
    rcases hrecorded : tracker.recordedPath process.fs s.state capture s.state.root with _ | value
    · obtain ⟨p, hp, hentries⟩ := hs.path v (hold (h.state.of_path v hv' hrecorded)) hkey
      refine ⟨p, ?_, fun entry hentry => ?_⟩
      · rw [h.pathFrom, hrecorded, ← hp]
        rfl
      · rw [h.state.root]
        exact hentries entry hentry
    · obtain rfl : v = ("PATH", value) :=
        Option.some.inj (hv'.symm.trans (h.state.path value hrecorded))
      refine ⟨process, ?_, fun entry hentry => ?_⟩
      · rw [h.pathFrom, hrecorded]
        rfl
      · rw [h.state.root]
        -- An entry that is neither empty nor in the base is one that was added.
        by_cases hadded : entry ∈ added (base s.state capture.startEnv) value
        · obtain ⟨relative, hrelative⟩ :=
            Option.isSome_iff_exists.mp ((recordedPath_eq_some.mp hrecorded).2.2.2 entry hadded)
          rcases hgenuine.added value hrecorded entry hadded relative hrelative with hstarted | hin
          · exact Or.inl hstarted
          · exact Or.inr ⟨relative, hrelative, hin⟩
        · refine hgenuine.old value hrecorded entry hentry ?_
          by_contra hnot
          rw [not_or] at hnot
          exact hadded (List.mem_filter.mpr ⟨hentry, by simpa using hnot⟩)

end Capture

end ShellSessionTracker

/-- The captures of a run are genuine. -/
def SessionEvent.Genuine (tracker : ShellSessionTracker) (s : TrackedSession) :
    SessionEvent → Prop
  | .applyCapture process capture =>
    ∀ parsed, parseCapture capture = some parsed → GenuineCapture tracker s.state process parsed
  | _ => True

open ShellSessionTracker in
/-- **One event** keeps a session sound exactly if it is genuine. -/
theorem sound_step_iff {tracker : ShellSessionTracker} {key : ShellSessionKey}
    {s s' : TrackedSession} {event : SessionEvent} (hs : s.Sound tracker)
    (hstep : tracker.step key s event = some s') :
    s'.Sound tracker ↔ event.Genuine tracker s := by
  rcases event with ⟨process, capture⟩ | root | root
  · obtain rfl := Option.some.inj hstep
    rcases hparse : parseCapture capture with _ | parsed
    · have hsame :
          (tracker.applyCapture process.fs s.state capture s.state.root).state = s.state := by
        rw [applyCapture, hparse]
      refine iff_of_true ?_ fun parsed h => absurd (h.symm.trans hparse) (Option.some_ne_none _)
      rw [hsame]
      exact hs
    · have hafter : AfterCapture tracker process parsed s
          { state := (tracker.applyCapture process.fs s.state capture s.state.root).state
            cwdFrom := if (recordedCwd process.fs parsed s.state.root).isSome then some process
              else s.cwdFrom
            pathFrom := if (tracker.recordedPath process.fs s.state parsed s.state.root).isSome
              then some process else s.pathFrom } :=
        ⟨recorded_applyCapture s.state hparse, rfl, rfl⟩
      constructor
      · intro hsound parsed' hparsed'
        obtain rfl : parsed = parsed' := Option.some.inj (hparse.symm.trans hparsed')
        exact genuineCapture_of_sound hafter hsound
      · intro hgenuine
        exact sound_of_genuineCapture hafter hs (hgenuine parsed hparse)
  · obtain rfl := Option.some.inj hstep
    refine iff_of_true ?_ trivial
    by_cases hroot : s.state.root = root
    · have hload : tracker.load key root (some s.state) = { s.state with
          env := s.state.env.deleteWhere fun v => (tracker.envRejection v.1).isSome
          basePath := if ((s.state.env.deleteWhere fun v =>
            (tracker.envRejection v.1).isSome).find? "PATH").isSome then s.state.basePath
            else none } := if_neg (not_not.mpr hroot)
      simp only [hload, if_pos hroot]
      exact {
        start := hs.start
        cwd := hs.cwd
        names := fun v hv => hs.names v (Table.mem_deleteWhere.mp hv).1
        path := fun v hv => hs.path v (Table.mem_deleteWhere.mp hv).1 }
    · have hload : tracker.load key root (some s.state) = key.fresh root := if_pos hroot
      simp only [hload, if_neg hroot]
      exact sound_fresh tracker key root
  · obtain rfl := Option.some.inj hstep
    exact iff_of_true (sound_fresh tracker key root) trivial

/-- What is parsed is complete. -/
theorem completeCapture_of_parseCapture {capture : Option String} {parsed : ShellCapture}
    (h : parseCapture capture = some parsed) : CompleteCapture capture := by
  unfold parseCapture at h
  split at h
  · exact absurd h.symm (Option.some_ne_none _)
  · next text =>
    split at h
    · next records hpieces =>
      split at h
      · next start found cwd rest hspan =>
        rw [List.span_eq_takeWhile_dropWhile] at hspan
        obtain ⟨hstart, hrest⟩ := Prod.mk.inj hspan
        have hfound : found = "E" := by
          by_contra hne
          have hhead :=
            List.head?_dropWhile_not (fun record : String => decide (record ≠ "E")) records
          rw [hrest] at hhead
          simp [hne] at hhead
        refine ⟨text, start, cwd, rest, rfl, ?_⟩
        rw [hpieces, ← hfound, ← hrest, ← hstart, List.cons_append, List.takeWhile_append_dropWhile]
      · exact absurd h.symm (Option.some_ne_none _)
    · exact absurd h.symm (Option.some_ne_none _)

private def linkedRoot : FileSystem where
  realpath path := if path = ["srv", "link"] then ["etc"] else path
  isDir _ := true
  realpath_realpath path := by
    by_cases h : path = ["srv", "link"]
    · rw [if_pos h]
      decide
    · rw [if_neg h, if_neg h]

private def shellProcess : ShellProcess where
  fs := linkedRoot
  started := Environment.set ∅ "PATH" "/usr/bin"

private def sessionKey : ShellSessionKey := ⟨none, "session:s"⟩

/-- The session after one capture. -/
private def captured (text : String) : TrackedSession :=
  reached (ShellSessionTracker.step {} sessionKey) { state := sessionKey.fresh ["srv"] }
    [.applyCapture shellProcess (some text)] rfl

private theorem genuine_of_sound_captured {text : String} (h : (captured text).Sound {})
    (hparse : (parseCapture (some text)).isSome) :
    GenuineCapture {} (sessionKey.fresh ["srv"]) shellProcess
      ((parseCapture (some text)).get hparse) := by
  have hstep : ShellSessionTracker.step {} sessionKey { state := sessionKey.fresh ["srv"] }
      (.applyCapture shellProcess (some text)) = some (captured text) := rfl
  exact (sound_step_iff (ShellSessionTracker.sound_fresh {} sessionKey ["srv"]) hstep).mp h _
    (Option.some_get hparse).symm

/-- After the wrapper's start record the script writes a `PATH` of its own and an end record. -/
private def forgedPath : String :=
  "S\x00PATH=/usr/bin\x00PATH=/evil\x00E\x00/workspace\x00PATH=/evil:/workspace/bin\x00"

/-- The script exports a variable whose name ends in a newline. -/
private def newlineName : String :=
  "S\x00PATH=/usr/bin\x00E\x00/workspace\x00PATH=/usr/bin\x00FOO\n=1\x00"

/-- The script names a link that leads out of the root. -/
private def linkedCwd : String :=
  "S\x00PATH=/usr/bin\x00E\x00/workspace/link\x00PATH=/usr/bin\x00"

end EvernightAI

import EvernightAI.Tool.ShellSpecs

/-!
# The commands of `find`

`-exec` and `-execdir` run a command for what `find` discovers. The shell policy reads the argument list
of a `find` twice: `_find_effect` for the effects it grants, `_find_execution_commands` for the
commands it describes. They end a command differently: `find` itself, and the second of them, at a
`;` or at a `+` directly after `{}`, the first at any `;` or `+`.

All of them go through the list from left to right, so each is a `scan` with a reader of its own.
A discovered file stands in a command as `./discovered-file`.

* `findAgrees_iff` : the effects cover every command run exactly if every command ends properly.
-/

namespace EvernightAI

/-! ### Readers -/

/-- What an argument of `find` is. -/
inductive FindItem
  | refused
  | plain (values : ℕ)
  | action (command : List String)
  deriving DecidableEq, Repr

/-- What an argument is, given the arguments after it. -/
abbrev FindReader := String → List String → FindItem

/-- **The commands in a list of arguments**, after `skip` of them; `none` if one is refused. -/
def scan (read : FindReader) : ℕ → List String → Option (List (List String))
  | _, [] => some []
  | skip + 1, _ :: rest => scan read skip rest
  | 0, arg :: rest =>
    match read arg rest with
    | .refused => none
    | .plain values => scan read values rest
    | .action command => (scan read (command.length + 1) rest).map (command :: ·)

/-- Tests and options with a value. -/
def findValued : List String :=
  ["-name", "-iname", "-path", "-ipath", "-type", "-maxdepth", "-mindepth"]

/-- Tests, actions and operators without one. -/
def findPlain : List String :=
  ["-print", "-print0", "-empty", "-readable", "-writable", "-executable", "-o", "-a", "!", "(", ")"]

/-- `FIND_EXEC_ACTIONS` -/
def findExecActions : List String := ["-exec", "-execdir", "-ok", "-okdir"]

/-- A command that ends at the first `;` or `+`. -/
def grantedCommand (rest : List String) : List String :=
  rest.takeWhile fun part => part != ";" && part != "+"

/-- The reader of `_find_effect`. -/
def effectItem : FindReader := fun arg rest =>
  if arg ∈ findValued then if rest = [] then .refused else .plain 1
  else if arg ∈ findPlain then .plain 0
  else if arg = "-exec" ∨ arg = "-execdir" then
    if grantedCommand rest = [] ∨ (grantedCommand rest).length = rest.length then .refused
    else .action (grantedCommand rest)
  else if isDashed arg then .refused
  else .plain 0

/-- A command that ends at a `;`, or at a `+` directly after `{}`; `none` if it does not end. -/
def executedCommand : Option String → List String → Option (List String)
  | _, [] => none
  | previous, part :: rest =>
    if part = ";" ∨ (part = "+" ∧ previous = some "{}") then some []
    else (executedCommand (some part) rest).map (part :: ·)

/-- An action, with its command. -/
def executedItem (rest : List String) : FindItem :=
  match executedCommand none rest with
  | none | some [] => .refused
  | some command => .action command

/-- The reader of `_find_execution_commands`. -/
def executionItem : FindReader := fun arg rest =>
  if arg ∈ findExecActions then executedItem rest else .plain 0

/-- `_find_execution_commands` -/
def findExecutionCommands (args : List String) : Option (List (List String)) :=
  scan executionItem 0 args

/-! ### Effects -/

/-- The commands of a `find` whose effects are granted; `none` stands for `{UNKNOWN}`. -/
def findChildren (args : List String) : Option (List (List String)) := scan effectItem 0 args

/-- `"./discovered-file" if part == "{}" else part` -/
def discovered (command : List String) : List String :=
  command.map fun part => if part = "{}" then "./discovered-file" else part

/-- `_find_effect`, on the arguments after the name. -/
def findEffect (childEffects : List String → Finset Effect) (args : List String) : Finset Effect :=
  match findChildren args with
  | none => {.unknown}
  | some commands =>
    commands.foldl (fun effects command => effects ∪ childEffects (discovered command)) {.read}

/-! ### The program -/

/-- What `find` does with the arguments the policy does not know: how many values each has, `none` if
it is refused. Only an argument with a dash has any. -/
structure FindProgram where
  arity : String → Option ℕ
  word : ∀ arg, isDashed arg = false → arity arg = none ∨ arity arg = some 0

/-- A starting point. -/
def isPath (arg : String) : Bool := !isDashed arg && arg ∉ findPlain

/-- The reader of `find`, in its expression. -/
def FindProgram.item (find : FindProgram) : FindReader := fun arg rest =>
  if arg ∈ findValued then if rest = [] then .refused else .plain 1
  else if arg ∈ findPlain then .plain 0
  else if arg ∈ findExecActions then executedItem rest
  else
    match find.arity arg with
    | none => .refused
    | some values => if rest.length < values then .refused else .plain values

/-- **The commands that `find` runs**; `none` if it refuses its arguments. -/
def FindProgram.commands (find : FindProgram) (args : List String) : Option (List (List String)) :=
  scan find.item 0 (args.dropWhile isPath)

/-- **Agreement.** If the policy accepts the arguments, the effects it returns cover those of every
command that `find` runs. -/
def FindAgrees (childEffects : List String → Finset Effect) (find : FindProgram) (args : List String) :
    Prop :=
  .unknown ∉ findEffect childEffects args → ∀ commands, find.commands args = some commands →
    ∀ command ∈ commands, childEffects (discovered command) ⊆ findEffect childEffects args

/-- What follows an action ends at a `;`, or at a `+` directly after `{}`, before any other `+`. -/
def EndsProperly (rest : List String) : Prop :=
  (rest.drop (grantedCommand rest).length).head? = some "+" →
    (grantedCommand rest).getLast? = some "{}"

instance (rest : List String) : Decidable (EndsProperly rest) :=
  inferInstanceAs (Decidable (_ → _))

/-- A condition on every argument that is read. -/
def Throughout (read : FindReader) (good : String → List String → Prop) : ℕ → List String → Prop
  | _, [] => True
  | skip + 1, _ :: rest => Throughout read good skip rest
  | 0, arg :: rest => good arg rest ∧
    match read arg rest with
    | .refused => True
    | .plain values => Throughout read good values rest
    | .action command => Throughout read good (command.length + 1) rest

instance Throughout.instDecidable (read : FindReader) (good : String → List String → Prop)
    [∀ arg rest, Decidable (good arg rest)] : ∀ skip args, Decidable (Throughout read good skip args)
  | 0, [] => inferInstanceAs (Decidable True)
  | _ + 1, [] => inferInstanceAs (Decidable True)
  | skip + 1, _ :: rest => instDecidable read good skip rest
  | 0, arg :: rest => by
    unfold Throughout
    exact match read arg rest with
      | .refused => inferInstanceAs (Decidable (good arg rest ∧ True))
      | .plain values =>
        haveI := instDecidable read good values rest
        inferInstanceAs (Decidable (good arg rest ∧ Throughout read good values rest))
      | .action command =>
        haveI := instDecidable read good (command.length + 1) rest
        inferInstanceAs (Decidable (good arg rest ∧ Throughout read good (command.length + 1) rest))

/-- **Proper ends**: every `-exec` and `-execdir` of the list ends properly. -/
def ProperEnds (args : List String) : Prop :=
  Throughout effectItem (fun arg rest => arg = "-exec" ∨ arg = "-execdir" → EndsProperly rest) 0 args

instance (args : List String) : Decidable (ProperEnds args) :=
  inferInstanceAs (Decidable (Throughout _ _ 0 args))

/-! ### Scans -/

section Scan

variable {read read' : FindReader} {good : String → List String → Prop}

/-- Two readers that differ only where the second refuses give the same commands, if both accept. -/
theorem scan_eq_of_throughout {skip : ℕ} {args : List String} {commands commands' : List (List String)}
    (hgood : Throughout read good skip args)
    (hread : ∀ arg rest, good arg rest → read arg rest ≠ .refused →
      read' arg rest = .refused ∨ read' arg rest = read arg rest)
    (hscan : scan read skip args = some commands) (hscan' : scan read' skip args = some commands') :
    commands' = commands := by
  induction args generalizing skip commands commands' with
  | nil =>
    have hnil : scan read skip [] = some [] := by cases skip <;> rfl
    have hnil' : scan read' skip [] = some [] := by cases skip <;> rfl
    rw [← Option.some.inj (hnil.symm.trans hscan), ← Option.some.inj (hnil'.symm.trans hscan')]
  | cons arg rest ih =>
    cases skip with
    | succ skip => exact ih hgood hscan hscan'
    | zero =>
      obtain ⟨harg, hrest⟩ := hgood
      have hne : read arg rest ≠ .refused := by
        intro h
        simp only [scan, h] at hscan
        exact absurd hscan (by simp)
      have hne' : read' arg rest ≠ .refused := by
        intro h
        simp only [scan, h] at hscan'
        exact absurd hscan' (by simp)
      have heq : read' arg rest = read arg rest := (hread arg rest harg hne).resolve_left hne'
      cases hitem : read arg rest with
      | refused => exact absurd hitem hne
      | plain values =>
        simp only [scan, heq, hitem] at hscan hscan' hrest
        exact ih hrest hscan hscan'
      | action command =>
        simp only [scan, heq, hitem, Option.map_eq_some_iff] at hscan hscan' hrest
        obtain ⟨rest₁, h₁, rfl⟩ := hscan
        obtain ⟨rest₂, h₂, rfl⟩ := hscan'
        rw [ih hrest h₁ h₂]

/-- What holds of every command a reader finds holds of the commands of a scan. -/
theorem forall_of_scan {P : List String → Prop}
    (hread : ∀ arg rest command, read arg rest = .action command → P command) {skip : ℕ}
    {args : List String} {commands : List (List String)} (hscan : scan read skip args = some commands) :
    ∀ command ∈ commands, P command := by
  induction args generalizing skip commands with
  | nil =>
    have hnil : scan read skip [] = some [] := by cases skip <;> rfl
    rw [← Option.some.inj (hnil.symm.trans hscan)]
    exact fun _ h => absurd h List.not_mem_nil
  | cons arg rest ih =>
    cases skip with
    | succ skip => exact ih hscan
    | zero =>
      cases hitem : read arg rest with
      | refused =>
        simp only [scan, hitem] at hscan
        exact absurd hscan (by simp)
      | plain values =>
        simp only [scan, hitem] at hscan
        exact ih hscan
      | action command =>
        simp only [scan, hitem, Option.map_eq_some_iff] at hscan
        obtain ⟨commands, hscan, rfl⟩ := hscan
        exact List.forall_mem_cons.mpr ⟨hread _ _ _ hitem, ih hscan⟩

/-- Where a condition first fails, the second reader finds a command with a property. -/
theorem exists_of_not_throughout {P : List String → Prop}
    (hread : ∀ arg rest, good arg rest → read arg rest ≠ .refused →
      read' arg rest = .refused ∨ read' arg rest = read arg rest)
    (hbad : ∀ arg rest, ¬good arg rest → read arg rest ≠ .refused →
      read' arg rest = .refused ∨ ∃ command, read' arg rest = .action command ∧ P command)
    {skip : ℕ} {args : List String} {commands commands' : List (List String)}
    (hgood : ¬Throughout read good skip args) (hscan : scan read skip args = some commands)
    (hscan' : scan read' skip args = some commands') : ∃ command ∈ commands', P command := by
  induction args generalizing skip commands commands' with
  | nil => exact absurd (by cases skip <;> trivial) hgood
  | cons arg rest ih =>
    cases skip with
    | succ skip => exact ih hgood hscan hscan'
    | zero =>
      have hne : read arg rest ≠ .refused := by
        intro h
        simp only [scan, h] at hscan
        exact absurd hscan (by simp)
      have hne' : read' arg rest ≠ .refused := by
        intro h
        simp only [scan, h] at hscan'
        exact absurd hscan' (by simp)
      by_cases harg : good arg rest
      · have heq : read' arg rest = read arg rest := (hread arg rest harg hne).resolve_left hne'
        cases hitem : read arg rest with
        | refused => exact absurd hitem hne
        | plain values =>
          simp only [scan, heq, hitem] at hscan hscan'
          exact ih (fun hrest => hgood ⟨harg, by simp only [hitem]; exact hrest⟩) hscan hscan'
        | action command =>
          simp only [scan, heq, hitem, Option.map_eq_some_iff] at hscan hscan'
          obtain ⟨rest₁, h₁, rfl⟩ := hscan
          obtain ⟨rest₂, h₂, rfl⟩ := hscan'
          obtain ⟨found, hmem, hP⟩ :=
            ih (fun hrest => hgood ⟨harg, by simp only [hitem]; exact hrest⟩) h₁ h₂
          exact ⟨found, List.mem_cons_of_mem _ hmem, hP⟩
      · obtain ⟨command, hitem, hP⟩ := (hbad arg rest harg hne).resolve_left hne'
        simp only [scan, hitem, Option.map_eq_some_iff] at hscan'
        obtain ⟨rest₂, -, rfl⟩ := hscan'
        exact ⟨command, List.mem_cons_self .., hP⟩

/-- What a reader takes for a word at the start is passed over. -/
theorem scan_dropWhile {p : String → Bool} (hp : ∀ arg rest, p arg = true → read arg rest = .plain 0)
    (args : List String) : scan read 0 (args.dropWhile p) = scan read 0 args := by
  induction args with
  | nil => rfl
  | cons arg rest ih =>
    rw [List.dropWhile_cons]
    split_ifs with harg
    · rw [ih]
      simp only [scan, hp arg rest harg]
    · rfl

theorem throughout_dropWhile {p : String → Bool}
    (hp : ∀ arg rest, p arg = true → read arg rest = .plain 0 ∧ good arg rest) (args : List String) :
    Throughout read good 0 (args.dropWhile p) ↔ Throughout read good 0 args := by
  induction args with
  | nil => exact Iff.rfl
  | cons arg rest ih =>
    rw [List.dropWhile_cons]
    split_ifs with harg
    · rw [ih]
      simp only [Throughout, (hp arg rest harg).1, (hp arg rest harg).2, true_and]
    · exact Iff.rfl

end Scan

/-! ### Where commands end -/

/-- Before a `;` or a `+` no command ends. -/
theorem executedCommand_append {command : List String} (hcommand : ∀ part ∈ command, part ≠ ";" ∧ part ≠ "+")
    (previous : Option String) (rest : List String) :
    executedCommand previous (command ++ rest) =
      (executedCommand (command.getLast?.or previous) rest).map (command ++ ·) := by
  induction command generalizing previous with
  | nil => simp
  | cons part command ih =>
    obtain ⟨hpart, hrest⟩ := List.forall_mem_cons.mp hcommand
    have hend : ¬(part = ";" ∨ part = "+" ∧ previous = some "{}") := by
      rintro (h | ⟨h, -⟩)
      · exact hpart.1 h
      · exact hpart.2 h
    rw [List.cons_append, executedCommand, if_neg hend, ih hrest]
    have hlast : (command.getLast?.or (some part)) = (part :: command).getLast?.or previous := by
      cases command with
      | nil => rfl
      | cons next command =>
        rw [List.getLast?_cons_cons, List.getLast?_eq_some_getLast (List.cons_ne_nil next command)]
        rfl
    rw [hlast, Option.map_map]
    rfl

/-- A granted command is followed by a `;` or a `+`. -/
theorem grantedCommand_cases {rest : List String} (h : (grantedCommand rest).length ≠ rest.length) :
    ∃ command stop tail, rest = command ++ stop :: tail ∧ grantedCommand rest = command ∧
      (∀ part ∈ command, part ≠ ";" ∧ part ≠ "+") ∧ (stop = ";" ∨ stop = "+") := by
  induction rest with
  | nil => exact absurd rfl h
  | cons part rest ih =>
    by_cases hpart : part = ";" ∨ part = "+"
    · refine ⟨[], part, rest, rfl, ?_, fun _ h => absurd h List.not_mem_nil, hpart⟩
      rw [grantedCommand, List.takeWhile_cons, if_neg]
      rcases hpart with rfl | rfl <;> decide
    · have htake : grantedCommand (part :: rest) = part :: grantedCommand rest := by
        rw [grantedCommand, List.takeWhile_cons, if_pos, ← grantedCommand]
        simpa [not_or] using hpart
      rw [htake, List.length_cons, List.length_cons] at h
      obtain ⟨command, stop, tail, hrest, hcommand, hparts, hstop⟩ := ih (by omega)
      refine ⟨part :: command, stop, tail, by rw [hrest, List.cons_append], ?_, ?_, hstop⟩
      · rw [htake, hcommand]
      · exact List.forall_mem_cons.mpr ⟨by simpa [not_or] using hpart, hparts⟩

/-- What ends a granted command. -/
theorem endsProperly_iff {rest command tail : List String} {stop : String}
    (hrest : rest = command ++ stop :: tail) (hcommand : grantedCommand rest = command) :
    EndsProperly rest ↔ (stop = "+" → command.getLast? = some "{}") := by
  have hdrop : (rest.drop command.length).head? = some stop := by
    rw [hrest, List.drop_left, List.head?_cons]
  rw [EndsProperly, hcommand, hdrop, Option.some.injEq]

/-- **A proper end** is where the command ends. -/
theorem executedItem_of_endsProperly {rest : List String} (hne : grantedCommand rest ≠ [])
    (hlength : (grantedCommand rest).length ≠ rest.length) (hends : EndsProperly rest) :
    executedItem rest = .action (grantedCommand rest) := by
  obtain ⟨command, stop, tail, hrest, hcommand, hparts, hstop⟩ := grantedCommand_cases hlength
  rw [endsProperly_iff hrest hcommand] at hends
  have hend : stop = ";" ∨ stop = "+" ∧ command.getLast?.or none = some "{}" := by
    rcases hstop with hstop | hstop
    · exact Or.inl hstop
    · exact Or.inr ⟨hstop, by rw [hends hstop, Option.some_or]⟩
  have hexecuted : executedCommand none rest = some command := by
    rw [hrest, executedCommand_append hparts, executedCommand, if_pos hend, Option.map_some,
      List.append_nil]
  rw [hcommand] at hne ⊢
  obtain ⟨part, command, rfl⟩ := List.exists_cons_of_ne_nil hne
  rw [executedItem, hexecuted]

/-- Another `+` belongs to the command. -/
theorem executedItem_of_not_endsProperly {rest : List String}
    (hlength : (grantedCommand rest).length ≠ rest.length) (hends : ¬EndsProperly rest) :
    executedItem rest = .refused ∨ ∃ command, executedItem rest = .action command ∧ "+" ∈ command := by
  obtain ⟨command, stop, tail, hrest, hcommand, hparts, hstop⟩ := grantedCommand_cases hlength
  rw [endsProperly_iff hrest hcommand, Classical.not_imp] at hends
  obtain ⟨rfl, hlast⟩ := hends
  have hend : ¬("+" = ";" ∨ "+" = "+" ∧ command.getLast?.or none = some "{}") := by
    rintro (h | ⟨-, h⟩)
    · exact absurd h (by decide)
    · exact hlast (by rwa [Option.or_none] at h)
  have hexecuted := executedCommand_append hparts none ("+" :: tail)
  rw [← hrest, executedCommand, if_neg hend, Option.map_map] at hexecuted
  cases htail : executedCommand (some "+") tail with
  | none =>
    rw [htail, Option.map_none] at hexecuted
    exact Or.inl (by rw [executedItem, hexecuted])
  | some more =>
    rw [htail, Option.map_some] at hexecuted
    refine Or.inr ⟨command ++ "+" :: more, ?_, by simp⟩
    rw [executedItem, hexecuted]
    cases command <;> rfl

/-! ### Agreement -/

section Agreement

variable {find : FindProgram} {arg : String} {rest args : List String}

theorem isDashed_of_mem_findValued (h : arg ∈ findValued) : isDashed arg = true := by
  have hall : ∀ arg ∈ findValued, isDashed arg = true := by decide
  exact hall arg h

/-- The policy and the program read the same, up to commands that do not end properly. -/
theorem item_eq (hends : arg = "-exec" ∨ arg = "-execdir" → EndsProperly rest)
    (hne : effectItem arg rest ≠ .refused) :
    find.item arg rest = .refused ∨ find.item arg rest = effectItem arg rest := by
  by_cases hvalued : arg ∈ findValued
  · exact Or.inr (by rw [FindProgram.item, effectItem, if_pos hvalued, if_pos hvalued])
  · by_cases hplain : arg ∈ findPlain
    · right
      rw [FindProgram.item, effectItem, if_neg hvalued, if_neg hvalued, if_pos hplain, if_pos hplain]
    · rw [effectItem, if_neg hvalued, if_neg hplain] at hne
      rw [FindProgram.item, effectItem, if_neg hvalued, if_neg hvalued, if_neg hplain, if_neg hplain]
      by_cases hexec : arg = "-exec" ∨ arg = "-execdir"
      · have hmem : arg ∈ findExecActions := by
          rcases hexec with rfl | rfl <;> decide
        rw [if_pos hexec] at hne ⊢
        rw [if_pos hmem]
        split_ifs at hne ⊢ with hrefused
        · exact absurd rfl hne
        · rw [not_or] at hrefused
          exact Or.inr (executedItem_of_endsProperly hrefused.1 hrefused.2 (hends hexec))
      · rw [if_neg hexec] at hne ⊢
        by_cases hdash : isDashed arg = true
        · rw [if_pos hdash] at hne
          exact absurd rfl hne
        · -- the other actions are dashed
          have hall : ∀ arg ∈ findExecActions, isDashed arg = true := by decide
          rw [if_neg hdash, if_neg fun haction => hdash (hall arg haction)]
          rcases find.word arg (by simpa using hdash) with harity | harity
          · exact Or.inl (by rw [harity])
          · exact Or.inr (by rw [harity]; rfl)

/-- A command that does not end properly contains the `+` that the policy takes for its end. -/
theorem item_of_not_endsProperly (hends : ¬(arg = "-exec" ∨ arg = "-execdir" → EndsProperly rest))
    (hne : effectItem arg rest ≠ .refused) :
    find.item arg rest = .refused ∨
      ∃ command, find.item arg rest = .action command ∧ "+" ∈ command := by
  rw [Classical.not_imp] at hends
  obtain ⟨hexec, hends⟩ := hends
  have hfacts : arg ∉ findValued ∧ arg ∉ findPlain ∧ arg ∈ findExecActions := by
    rcases hexec with rfl | rfl <;> decide
  obtain ⟨hvalued, hplain, hmem⟩ := hfacts
  rw [effectItem, if_neg hvalued, if_neg hplain, if_pos hexec] at hne
  rw [FindProgram.item, if_neg hvalued, if_neg hplain, if_pos hmem]
  split_ifs at hne with hrefused
  · exact absurd rfl hne
  · rw [not_or] at hrefused
    exact executedItem_of_not_endsProperly hrefused.2 hends

/-- The policy passes over the starting points. -/
theorem effectItem_of_isPath (h : isPath arg = true) : effectItem arg rest = .plain 0 := by
  have hpath : isDashed arg = false ∧ arg ∉ findPlain := by simpa [isPath] using h
  have hvalued : arg ∉ findValued := fun hmem =>
    absurd (isDashed_of_mem_findValued hmem) (by rw [hpath.1]; decide)
  have hexec : ¬(arg = "-exec" ∨ arg = "-execdir") := by
    rintro (rfl | rfl) <;> exact absurd hpath.1 (by decide)
  rw [effectItem, if_neg hvalued, if_neg hpath.2, if_neg hexec, if_neg (by rw [hpath.1]; decide)]

/-- A starting point is no action. -/
theorem effectItem_start (arg : String) (rest : List String) (h : isPath arg = true) :
    effectItem arg rest = .plain 0 ∧ (arg = "-exec" ∨ arg = "-execdir" → EndsProperly rest) := by
  refine ⟨effectItem_of_isPath h, fun hexec => ?_⟩
  rcases hexec with rfl | rfl <;> exact absurd h (by decide)

/-- A granted command has no `+`. -/
theorem not_mem_of_effectItem {command : List String} (h : effectItem arg rest = .action command) :
    "+" ∉ command := by
  rw [effectItem] at h
  split_ifs at h
  obtain rfl := FindItem.action.inj h
  intro hmem
  have hpart := List.all_takeWhile (p := fun part : String => part != ";" && part != "+") (l := rest)
  rw [← grantedCommand, List.all_eq_true] at hpart
  exact absurd (hpart "+" hmem) (by decide)

theorem mem_discovered {command : List String} : "+" ∈ discovered command ↔ "+" ∈ command := by
  rw [discovered, List.mem_map]
  constructor
  · rintro ⟨part, hmem, hpart⟩
    split_ifs at hpart
    · exact absurd hpart (by decide)
    · exact hpart ▸ hmem
  · intro hmem
    exact ⟨"+", hmem, if_neg (by decide)⟩

/-- The effects of the commands. -/
theorem mem_foldl_union {childEffects : List String → Finset Effect} {commands : List (List String)}
    {effects : Finset Effect} {effect : Effect} :
    effect ∈ commands.foldl (fun effects command => effects ∪ childEffects (discovered command)) effects ↔
      effect ∈ effects ∨ ∃ command ∈ commands, effect ∈ childEffects (discovered command) := by
  induction commands generalizing effects with
  | nil => simp
  | cons command commands ih =>
    rw [List.foldl_cons, ih, Finset.mem_union, List.exists_mem_cons_iff, or_assoc]

/-- **The same reading.** Where every command ends properly, the commands whose effects are granted are
those that are run. -/
theorem commands_eq_findChildren (hends : ProperEnds args) {children commands : List (List String)}
    (hchildren : findChildren args = some children) (hcommands : find.commands args = some commands) :
    commands = children := by
  rw [ProperEnds, ← throughout_dropWhile effectItem_start] at hends
  rw [findChildren, ← scan_dropWhile fun arg rest h => (effectItem_start arg rest h).1] at hchildren
  exact scan_eq_of_throughout hends (fun arg rest => item_eq) hchildren hcommands

/-- **Agreement** holds for every meaning of the commands exactly if every command ends properly, or
`find` refuses its arguments. -/
theorem findAgrees_iff (find : FindProgram) {args : List String} (haccepts : (findChildren args).isSome) :
    (∀ childEffects, FindAgrees childEffects find args) ↔
      find.commands args = none ∨ ProperEnds args := by
  obtain ⟨children, hchildren⟩ := Option.isSome_iff_exists.mp haccepts
  constructor
  · intro hagrees
    cases hcommands : find.commands args with
    | none => exact Or.inl rfl
    | some commands =>
      right
      by_contra hends
      have hchildren' := hchildren
      rw [findChildren, ← scan_dropWhile fun arg rest h => (effectItem_start arg rest h).1]
        at hchildren'
      rw [ProperEnds, ← throughout_dropWhile effectItem_start] at hends
      obtain ⟨command, hmem, hplus⟩ := exists_of_not_throughout (fun arg rest => item_eq)
        (fun arg rest => item_of_not_endsProperly) hends hchildren' hcommands
      -- tell the command that has a `+` from all that were granted
      have hgranted := forall_of_scan (fun _ _ _ => not_mem_of_effectItem) hchildren'
      let childEffects : List String → Finset Effect :=
        fun command => if "+" ∈ command then {.delete} else {.read}
      have hreads : ∀ effect ∈ findEffect childEffects args, effect = .read := by
        intro effect heffect
        rw [findEffect, hchildren, mem_foldl_union] at heffect
        rcases heffect with heffect | ⟨child, hchild, heffect⟩
        · exact Finset.mem_singleton.mp heffect
        · have hnone : "+" ∉ discovered child := fun h => hgranted child hchild (mem_discovered.mp h)
          rw [show childEffects (discovered child) = {.read} from if_neg hnone] at heffect
          exact Finset.mem_singleton.mp heffect
      have hdelete : .delete ∈ childEffects (discovered command) := by
        rw [show childEffects (discovered command) = {.delete} from if_pos (mem_discovered.mpr hplus)]
        exact Finset.mem_singleton_self _
      have hcovers := hagrees childEffects (fun h => absurd (hreads _ h) (by decide)) commands
        hcommands command hmem hdelete
      exact absurd (hreads _ hcovers) (by decide)
  · rintro (hrefused | hends) childEffects hunknown commands hcommands command hmem
    · exact absurd (hrefused.symm.trans hcommands) (by simp)
    · rw [commands_eq_findChildren hends hchildren hcommands] at hmem
      intro effect heffect
      rw [findEffect, hchildren]
      exact mem_foldl_union.mpr (Or.inr ⟨command, hmem, heffect⟩)

/-- A `find` that knows no other arguments. -/
private def plainFind : FindProgram where
  arity _ := none
  word _ _ := Or.inl rfl

/-- What the declaration of `sort` says of a command. -/
private def sortEffects (command : List String) : Finset Effect :=
  match spec? "sort" with
  | some spec => if (arguments spec command.tail).isSome then {spec.effect} else {.unknown}
  | none => {.unknown}

/-- A `+` after the braces, and a `;`. -/
theorem findAgrees_discovered : FindAgrees sortEffects plainFind
    [".", "-name", "-exec", "-exec", "cat", "{}", "+", "-execdir", "wc", "{}", ";"] :=
  (findAgrees_iff plainFind (by decide)).mpr (Or.inr (by decide)) sortEffects

/-- `find . -exec sort a + -o out.txt ;` is granted as a reading `sort a`; it writes `out.txt`. -/
theorem not_findAgrees_sort : ¬FindAgrees sortEffects plainFind
    [".", "-exec", "sort", "a", "+", "-o", "out.txt", ";"] := by
  intro hagrees
  have hcovers := hagrees (by decide) [["sort", "a", "+", "-o", "out.txt"]] (by decide) _
    (List.mem_singleton_self _)
  exact absurd hcovers (by decide)

end Agreement

end EvernightAI

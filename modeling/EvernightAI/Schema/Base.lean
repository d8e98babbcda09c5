import Mathlib.Data.List.Forall2

/-!
# Values, errors and texts shared by the schemas

The schemas carry open dictionaries (`metadata`, tool arguments) and raise typed errors.

* `Value` is what the modelled code looks at in such a dictionary; anything else it only stores
  is `other`, kept by its serialised text.
* `Error` is a raised exception: its class, message and detail.
* `UnicodeTables` is the part of the interpreter's Unicode data that string methods consult.
-/

namespace EvernightAI

/-- A value of an open dictionary, as far as the code reads it. -/
inductive Value
  | none
  | bool (b : Bool)
  | int (n : Int)
  | str (s : String)
  | other (json : String)
  deriving DecidableEq, Repr

/-- The truth value of `value`, where `x or y` reads one. -/
def Value.truthy : Value → Bool
  | .none => false
  | .bool b => b
  | .int n => n ≠ 0
  | .str s => s ≠ ""
  | .other json => !(["{}", "[]", "0.0", "-0.0"].contains json)

/-- An absent text is the value `None`. -/
def Value.ofText : Option String → Value
  | some s => .str s
  | .none => .none

/-- An open dictionary, in insertion order. -/
abbrev Dict := List (String × Value)

namespace Dict

/-- `d.get(key)` -/
def get (d : Dict) (key : String) : Option Value := d.lookup key

/-- `{**d, key: value}`: a present key keeps its place. -/
def set (key : String) (value : Value) : Dict → Dict
  | [] => [(key, value)]
  | (k, v) :: rest => if k = key then (k, value) :: rest else (k, v) :: set key value rest

/-- `{k: v for k, v in d.items() if k != key}` -/
def erase (key : String) (d : Dict) : Dict := d.filter fun kv => kv.1 ≠ key

/-- `d.update(other)` -/
def update (d other : Dict) : Dict := other.foldl (fun d kv => d.set kv.1 kv.2) d

@[simp] theorem get_set_self (d : Dict) (key : String) (value : Value) :
    (d.set key value).get key = some value := by
  induction d with
  | nil => simp [set, get]
  | cons kv rest ih =>
    obtain ⟨k, v⟩ := kv
    by_cases h : k = key
    · simp [set, get, h]
    · have h' : (key == k) = false := by simpa using fun e => h e.symm
      simpa [set, get, h, List.lookup_cons, h'] using ih

@[simp] theorem get_erase_self (d : Dict) (key : String) : (d.erase key).get key = none := by
  induction d with
  | nil => rfl
  | cons kv rest ih =>
    obtain ⟨k, v⟩ := kv
    by_cases h : k = key
    · simpa [erase, h] using ih
    · have h' : (key == k) = false := by simpa using fun e => h e.symm
      simpa [erase, get, h, List.lookup_cons, h'] using ih

theorem get_erase_of_ne (d : Dict) {key key' : String} (h : key' ≠ key) :
    (d.erase key).get key' = d.get key' := by
  induction d with
  | nil => rfl
  | cons kv rest ih =>
    obtain ⟨k, v⟩ := kv
    unfold erase get at ih ⊢
    by_cases hk : k = key
    · have hne : (key' == k) = false := by simpa [hk] using h
      rw [List.filter_cons_of_neg (by simpa using hk), List.lookup_cons, hne]
      exact ih
    · rw [List.filter_cons_of_pos (by simpa using hk), List.lookup_cons, List.lookup_cons, ih]

theorem get_set_of_ne (d : Dict) {key key' : String} (value : Value) (h : key' ≠ key) :
    (d.set key value).get key' = d.get key' := by
  induction d with
  | nil =>
    have hne : (key' == key) = false := by simpa using h
    simp [set, get, List.lookup_cons, hne]
  | cons kv rest ih =>
    obtain ⟨k, v⟩ := kv
    by_cases hk : k = key
    · have hne : (key' == key) = false := by simpa using h
      simp [set, get, hk, List.lookup_cons, hne]
    · by_cases hk' : key' == k
      · simp [set, get, hk, List.lookup_cons, hk']
      · simpa [set, get, hk, List.lookup_cons, hk'] using ih

end Dict

/-- The exception classes the modelled code raises or tells apart. -/
inductive ErrorType
  | contextNotFoundError
  | contextStateError
  | sessionNotFoundError
  | memoryNotFoundError
  | validationError
  | authPermissionDeniedError
  | agentStateError
  | agentNotFoundError
  | agentInputError
  | toolExecutionError
  | toolPermissionError
  | toolNotFoundError
  | cancelledError
  | timeoutError
  | other (name : String)
  deriving DecidableEq, Repr

/-- `exc.__class__.__name__` -/
def ErrorType.className : ErrorType → String
  | .contextNotFoundError => "ContextNotFoundError"
  | .contextStateError => "ContextStateError"
  | .sessionNotFoundError => "SessionNotFoundError"
  | .memoryNotFoundError => "MemoryNotFoundError"
  | .validationError => "ValidationError"
  | .authPermissionDeniedError => "AuthPermissionDeniedError"
  | .agentStateError => "AgentStateError"
  | .agentNotFoundError => "AgentNotFoundError"
  | .agentInputError => "AgentInputError"
  | .toolExecutionError => "ToolExecutionError"
  | .toolPermissionError => "ToolPermissionError"
  | .toolNotFoundError => "ToolNotFoundError"
  | .cancelledError => "CancelledError"
  | .timeoutError => "TimeoutError"
  | .other name => name

/-- A raised exception. -/
structure Error where
  errorType : ErrorType
  message : String
  detail : Option String := none
  deriving DecidableEq, Repr

/-- A result of two steps in a row is a result of both. -/
theorem exists_of_bind_eq_ok {ε α β : Type} {x : Except ε α} {f : α → Except ε β} {b : β}
    (h : x >>= f = .ok b) : ∃ a, x = .ok a ∧ f a = .ok b := by
  cases x with
  | error err => exact absurd h (by simp [bind, Except.bind])
  | ok a => exact ⟨a, rfl, h⟩

theorem exists_of_map_eq_ok {ε α β : Type} {x : Except ε α} {f : α → β} {b : β}
    (h : x.map f = .ok b) : ∃ a, x = .ok a ∧ f a = b := by
  cases x with
  | error e => cases h
  | ok a => exact ⟨a, rfl, Except.ok.inj h⟩

/-- A list that is computed one by one, member by member. -/
theorem forall₂_of_mapM_ok {ε α β : Type} {f : α → Except ε β} {l : List α} {l' : List β}
    (h : l.mapM f = .ok l') : List.Forall₂ (fun a b => f a = .ok b) l l' := by
  induction l generalizing l' with
  | nil =>
    rw [List.mapM_nil] at h
    rw [← Except.ok.inj h]
    exact .nil
  | cons a l ih =>
    rw [List.mapM_cons] at h
    obtain ⟨b, hb, h⟩ := exists_of_bind_eq_ok h
    obtain ⟨bs, hbs, h⟩ := exists_of_bind_eq_ok h
    rw [← Except.ok.inj h]
    exact .cons hb (ih hbs)

/-- The members of a list that is computed one by one. -/
theorem exists_of_mem_mapM {ε α β : Type} {f : α → Except ε β} {l : List α} {bs : List β} {b : β}
    (h : l.mapM f = .ok bs) (hb : b ∈ bs) : ∃ a ∈ l, f a = .ok b := by
  induction l generalizing bs with
  | nil =>
    rw [List.mapM_nil] at h
    obtain rfl := Except.ok.inj h
    exact absurd hb List.not_mem_nil
  | cons a l ih =>
    rw [List.mapM_cons] at h
    obtain ⟨first, hfirst, h⟩ := exists_of_bind_eq_ok h
    obtain ⟨others, hothers, h⟩ := exists_of_bind_eq_ok h
    obtain rfl := Except.ok.inj h
    rcases List.mem_cons.mp hb with rfl | hb
    · exact ⟨a, List.mem_cons_self, hfirst⟩
    · obtain ⟨a', ha', hf⟩ := ih hothers hb
      exact ⟨a', List.mem_cons_of_mem _ ha', hf⟩

theorem mem_of_mapM {ε α β : Type} {f : α → Except ε β} {l : List α} {bs : List β} {a : α} {b : β}
    (h : l.mapM f = .ok bs) (ha : a ∈ l) (hf : f a = .ok b) : b ∈ bs := by
  induction l generalizing bs with
  | nil => exact absurd ha List.not_mem_nil
  | cons a' l ih =>
    rw [List.mapM_cons] at h
    obtain ⟨first, hfirst, h⟩ := exists_of_bind_eq_ok h
    obtain ⟨others, hothers, h⟩ := exists_of_bind_eq_ok h
    obtain rfl := Except.ok.inj h
    rcases List.mem_cons.mp ha with rfl | ha
    · obtain rfl := Except.ok.inj (hf.symm.trans hfirst)
      exact List.mem_cons_self
    · exact List.mem_cons_of_mem _ (ih hothers ha)

/-- `max` over some numbers is at least each of them. -/
theorem le_foldl_max {n m : Nat} {l : List Nat} (h : n ≤ m ∨ n ∈ l) : n ≤ l.foldl max m := by
  induction l generalizing m with
  | nil => exact h.resolve_right List.not_mem_nil
  | cons x l ih =>
    rw [List.foldl_cons]
    refine ih ?_
    rcases h with h | h
    · exact Or.inl (Nat.le_trans h (Nat.le_max_left m x))
    · rcases List.mem_cons.mp h with rfl | h
      · exact Or.inl (Nat.le_max_right m n)
      · exact Or.inr h

/-- The Unicode data behind `str.strip`, `re`'s `\w` and `str.casefold`. -/
structure UnicodeTables where
  isSpace : Char → Bool
  isWord : Char → Bool
  casefold : String → String

/-- `s.strip()` -/
def UnicodeTables.strip (u : UnicodeTables) (s : String) : String :=
  String.ofList (((s.toList.dropWhile u.isSpace).reverse.dropWhile u.isSpace).reverse)

/-- `needle in haystack` for texts. -/
def isSubstring (needle haystack : List Char) : Bool :=
  match haystack with
  | [] => needle.isEmpty
  | c :: cs => needle.isPrefixOf (c :: cs) || isSubstring needle cs

end EvernightAI

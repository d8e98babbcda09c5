import Mathlib.Data.Rat.Defs
import Mathlib.Data.String.Basic
import Mathlib.Data.List.Sort

/-!
# JSON values as Python holds them

A JSON document read by Python is a tree of built-in values. Two points where these differ from
the documents they come from matter to code that compares and stores them.

* `==` looks through the classes of numbers: `True == 1 == 1.0`, and ignores the order in which a
  dictionary was filled. A NaN equals only itself, the same object; `nan` carries the object.
* A document has no infinities and no NaN. A serialiser that is not told otherwise writes `null`
  in their place, so `stored`, what a dumped value reads back as, is not always the value.

`tokens` lists the leaves of a value up to `==`; `finite` says that a value survives the dump.
-/

/-- A value of `json.loads`. A finite float is the number it stands for. -/
inductive PyJson
  | null
  | bool (b : Bool)
  | int (n : Int)
  | float (value : Rat)
  | infinity (negative : Bool)
  | nan (object : Nat)
  | str (s : String)
  | list (items : List PyJson)
  | dict (entries : List (String × PyJson))

/-- A dictionary with text keys, in insertion order. -/
abbrev PyDict := List (String × PyJson)

namespace PyJson

/-! ### Equality -/

/-- A leaf, or the head of a list or a dictionary with its length. -/
inductive Token
  | null
  | number (value : Rat)
  | infinity (negative : Bool)
  | nan (object : Nat)
  | str (s : String)
  | list (length : Nat)
  | dict (length : Nat)
  | key (name : String)
  deriving DecidableEq

/-- Entries in the order of their keys. -/
def sortEntries {α : Type} (entries : List (String × α)) : List (String × α) :=
  entries.insertionSort fun e f => e.1 ≤ f.1

mutual

/-- **The tokens of a value**: numbers by their value, dictionaries by key. -/
def tokens : PyJson → List Token
  | null => [.null]
  | bool b => [.number (if b then 1 else 0)]
  | int n => [.number n]
  | float value => [.number value]
  | infinity negative => [.infinity negative]
  | nan object => [.nan object]
  | str s => [.str s]
  | list items => .list items.length :: tokensOfItems items
  | dict entries => .dict entries.length ::
      (sortEntries (tokensOfEntries entries)).flatMap fun e => .key e.1 :: e.2

def tokensOfItems : List PyJson → List Token
  | [] => []
  | item :: items => tokens item ++ tokensOfItems items

def tokensOfEntries : List (String × PyJson) → List (String × List Token)
  | [] => []
  | (key, value) :: entries => (key, tokens value) :: tokensOfEntries entries

end

/-- `a == b` -/
instance : BEq PyJson := ⟨fun a b => a.tokens = b.tokens⟩

theorem beq_iff {a b : PyJson} : (a == b) = true ↔ a.tokens = b.tokens := decide_eq_true_iff

/-! ### Dumping and reading back -/

mutual

/-- The value has no infinity and no NaN in it. -/
def finite : PyJson → Bool
  | infinity _ => false
  | nan _ => false
  | list items => finiteItems items
  | dict entries => finiteEntries entries
  | _ => true

def finiteItems : List PyJson → Bool
  | [] => true
  | item :: items => finite item && finiteItems items

def finiteEntries : List (String × PyJson) → Bool
  | [] => true
  | (_, value) :: entries => finite value && finiteEntries entries

end

mutual

/-- **What a dumped value reads back as.** -/
def stored : PyJson → PyJson
  | infinity _ => null
  | nan _ => null
  | list items => list (storedItems items)
  | dict entries => dict (storedEntries entries)
  | value => value

def storedItems : List PyJson → List PyJson
  | [] => []
  | item :: items => stored item :: storedItems items

def storedEntries : List (String × PyJson) → List (String × PyJson)
  | [] => []
  | (key, value) :: entries => (key, stored value) :: storedEntries entries

end

mutual

theorem stored_of_finite : (value : PyJson) → value.finite → value.stored = value
  | null, _ | bool _, _ | int _, _ | float _, _ | str _, _ => rfl
  | list items, h => congrArg list (storedItems_of_finite items h)
  | dict entries, h => congrArg dict (storedEntries_of_finite entries h)

theorem storedItems_of_finite :
    (items : List PyJson) → finiteItems items → storedItems items = items
  | [], _ => rfl
  | item :: items, h => by
    rw [finiteItems, Bool.and_eq_true] at h
    rw [storedItems, stored_of_finite item h.1, storedItems_of_finite items h.2]

theorem storedEntries_of_finite :
    (entries : List (String × PyJson)) → finiteEntries entries → storedEntries entries = entries
  | [], _ => rfl
  | (key, value) :: entries, h => by
    rw [finiteEntries, Bool.and_eq_true] at h
    rw [storedEntries, stored_of_finite value h.1, storedEntries_of_finite entries h.2]

end

mutual

theorem finite_stored : (value : PyJson) → value.stored.finite
  | null | bool _ | int _ | float _ | infinity _ | nan _ | str _ => rfl
  | list items => finite_storedItems items
  | dict entries => finite_storedEntries entries

theorem finite_storedItems : (items : List PyJson) → finiteItems (storedItems items)
  | [] => rfl
  | item :: items => by
    rw [storedItems, finiteItems, finite_stored item, finite_storedItems items]
    rfl

theorem finite_storedEntries :
    (entries : List (String × PyJson)) → finiteEntries (storedEntries entries)
  | [] => rfl
  | (key, value) :: entries => by
    rw [storedEntries, finiteEntries, finite_stored value, finite_storedEntries entries]
    rfl

end

/-! ### `json.dumps(value, ensure_ascii=False)` -/

private def hexDigit (n : Nat) : Char :=
  if n < 10 then Char.ofNat (48 + n) else Char.ofNat (87 + n)

private def escaped (c : Char) : List Char :=
  match c with
  | '"' => ['\\', '"']
  | '\\' => ['\\', '\\']
  | '\n' => ['\\', 'n']
  | '\r' => ['\\', 'r']
  | '\t' => ['\\', 't']
  | c =>
    if c.toNat = 12 then ['\\', 'f']
    else if c.toNat = 8 then ['\\', 'b']
    else if c.toNat < 32 then ['\\', 'u', '0', '0', hexDigit (c.toNat / 16), hexDigit (c.toNat % 16)]
    else [c]

private def quoted (s : String) : String := "\"" ++ String.ofList (s.toList.flatMap escaped) ++ "\""

mutual

/-- The document of a value; `reprFloat` is `float.__repr__`. -/
def dumps (reprFloat : Rat → String) : PyJson → String
  | null => "null"
  | bool b => if b then "true" else "false"
  | int n => toString n
  | float value => reprFloat value
  | infinity negative => if negative then "-Infinity" else "Infinity"
  | nan _ => "NaN"
  | str s => quoted s
  | list items => "[" ++ ", ".intercalate (dumpsItems reprFloat items) ++ "]"
  | dict entries => "\x7b" ++ ", ".intercalate (dumpsEntries reprFloat entries) ++ "\x7d"

def dumpsItems (reprFloat : Rat → String) : List PyJson → List String
  | [] => []
  | item :: items => dumps reprFloat item :: dumpsItems reprFloat items

def dumpsEntries (reprFloat : Rat → String) : List (String × PyJson) → List String
  | [] => []
  | (key, value) :: entries =>
    (quoted key ++ ": " ++ dumps reprFloat value) :: dumpsEntries reprFloat entries

end

private theorem newline_not_mem_escaped (c : Char) : '\n' ∉ escaped c := by
  have hhex : ∀ n < 16, hexDigit n ≠ '\n' := by decide
  unfold escaped
  split
  · decide
  · decide
  · decide
  · decide
  · decide
  · rename_i hnewline _ _
    split_ifs with hpage hback hcontrol
    · decide
    · decide
    · have hhigh := hhex (c.toNat / 16) (by omega)
      have hlow := hhex (c.toNat % 16) (by omega)
      simp [hhigh.symm, hlow.symm]
    · intro hmem
      exact hnewline (List.mem_singleton.mp hmem).symm

/-- The document of a text is on one line. -/
theorem newline_not_mem_dumps (reprFloat : Rat → String) (s : String) :
    '\n' ∉ (dumps reprFloat (.str s)).toList := by
  rw [dumps, quoted]
  simp only [String.toList_append, String.toList_ofList, List.mem_append, not_or]
  refine ⟨⟨by decide, fun hmem => ?_⟩, by decide⟩
  obtain ⟨c, -, hc⟩ := List.mem_flatMap.mp hmem
  exact newline_not_mem_escaped c hc

/-! ### `str(value)` and `bool(value)` -/

/-- The builtins that write numbers and quote texts. -/
structure PythonText where
  /-- `float.__repr__` -/
  reprFloat : Rat → String
  /-- `str.__repr__` -/
  reprStr : String → String

mutual

/-- `repr(value)` -/
def repr (py : PythonText) : PyJson → String
  | null => "None"
  | bool b => if b then "True" else "False"
  | int n => toString n
  | float value => py.reprFloat value
  | infinity negative => if negative then "-inf" else "inf"
  | nan _ => "nan"
  | str s => py.reprStr s
  | list items => "[" ++ ", ".intercalate (reprItems py items) ++ "]"
  | dict entries => "\x7b" ++ ", ".intercalate (reprEntries py entries) ++ "\x7d"

def reprItems (py : PythonText) : List PyJson → List String
  | [] => []
  | item :: items => repr py item :: reprItems py items

def reprEntries (py : PythonText) : List (String × PyJson) → List String
  | [] => []
  | (key, value) :: entries => (py.reprStr key ++ ": " ++ repr py value) :: reprEntries py entries

end

/-- `str(value)`: a text is itself. -/
def toStr (py : PythonText) : PyJson → String
  | str s => s
  | value => repr py value

/-- `bool(value)` -/
def truthy : PyJson → Bool
  | null => false
  | bool b => b
  | int n => decide (n ≠ 0)
  | float value => value ≠ 0
  | infinity _ => true
  | nan _ => true
  | str s => s ≠ ""
  | list items => items ≠ []
  | dict entries => entries ≠ []

/-! ### `isinstance(value, …)` -/

def str? : PyJson → Option String
  | str s => some s
  | _ => none

/-- An `int`; `bool` is a subclass of it. -/
def int? : PyJson → Option Int
  | int n => some n
  | bool b => some (if b then 1 else 0)
  | _ => none

def list? : PyJson → Option (List PyJson)
  | list items => some items
  | _ => none

def dict? : PyJson → Option (List (String × PyJson))
  | dict entries => some entries
  | _ => none

theorem str?_eq_some {value : PyJson} {s : String} : value.str? = some s ↔ value = str s := by
  constructor
  · intro h
    cases value <;> simp_all [str?]
  · rintro rfl
    rfl

theorem dict?_eq_some {value : PyJson} {entries : List (String × PyJson)} :
    value.dict? = some entries ↔ value = dict entries := by
  constructor
  · intro h
    cases value <;> simp_all [dict?]
  · rintro rfl
    rfl

end PyJson

namespace PyDict

/-- The text under a key, when there is one. -/
def str? (d : PyDict) (key : String) : Option String := (d.lookup key).bind PyJson.str?

def int? (d : PyDict) (key : String) : Option Int := (d.lookup key).bind PyJson.int?

def list? (d : PyDict) (key : String) : Option (List PyJson) := (d.lookup key).bind PyJson.list?

def dict? (d : PyDict) (key : String) : Option PyDict := (d.lookup key).bind PyJson.dict?

end PyDict

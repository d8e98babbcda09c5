import Mathlib.Data.List.TakeWhile
import EvernightAI.Lib.GetoptLong
import EvernightAI.Tool.ShellSpecs

/-!
# Declarations as option grammars

A declaration is a grammar of options: a name that is `valued` takes a value, one that is only among
the `flags` takes none. `arguments` looks a whole word up before it takes it apart into letters, so
it also knows options that have one dash and several letters. Where a declaration has none of these,
what `arguments` returns are the operands that `getopt_long` finds.

* `arguments_reads` : the two readings agree for each such declaration and each argument list.
* `regular_specs` : the declarations of `SPECS` are of this kind.
-/

namespace EvernightAI.OptionGrammar

open GetoptLong

/-- Whether a declared option takes a value. -/
def takesValue (spec : Spec) (name : Text) : Option Bool :=
  if String.ofList name ∈ spec.valued then some true
  else if String.ofList name ∈ spec.flags then some false
  else none

/-- The options that are declared. -/
def grammar (spec : Spec) : Grammar where
  short letter := takesValue spec ['-', letter]
  long name := takesValue spec ('-' :: '-' :: name)

/-- A name of one dash and several letters, which `arguments` looks up as a whole. -/
def isWholeWord : Text → Bool
  | '-' :: c :: d :: rest => c != '-' && !(c :: d :: rest).contains '='
  | _ => false

/-- **The names of a declaration are names of short and long options.** -/
structure Regular (spec : Spec) : Prop where
  flags : ∀ name ∈ spec.flags, isWholeWord name.toList = false
  valued : ∀ name ∈ spec.valued, isWholeWord name.toList = false ∧ name ≠ "-"

instance (spec : Spec) : Decidable (Regular spec) :=
  decidable_of_iff
    ((∀ name ∈ spec.flags, isWholeWord name.toList = false) ∧
      ∀ name ∈ spec.valued, isWholeWord name.toList = false ∧ name ≠ "-")
    ⟨fun h => ⟨h.1, h.2⟩, fun h => ⟨h.flags, h.valued⟩⟩

theorem regular_specs : ∀ entry ∈ specs, Regular entry.2 := by decide +kernel

variable {spec : Spec} {letters word : Text}

/-- How many words are taken as a value. -/
def taken (read : List Item × Option Name) : ℕ := if read.2 = none then 0 else 1

/-! ### One word -/

/-- Letters that are combined. -/
theorem map_taken_readShort (letters : Text) :
    (readShort (grammar spec) letters).map taken = combinedOptions spec letters := by
  induction letters with
  | nil => rfl
  | cons letter letters ih =>
    have hshort : (grammar spec).short letter = takesValue spec ['-', letter] := rfl
    rw [readShort, combinedOptions, hshort, takesValue]
    by_cases hvalued : String.ofList ['-', letter] ∈ spec.valued
    · rw [if_pos hvalued, if_pos hvalued, Option.bind_some, if_neg (by decide)]
      by_cases hletters : letters = []
      · rw [if_pos hletters, if_pos hletters]
        rfl
      · rw [if_neg hletters, if_neg hletters]
        rfl
    · rw [if_neg hvalued, if_neg hvalued]
      by_cases hflag : String.ofList ['-', letter] ∈ spec.flags
      · rw [if_pos hflag, if_pos hflag, Option.bind_some, if_pos rfl, Option.map_map, ← ih]
        rfl
      · rw [if_neg hflag, if_neg hflag]
        rfl

/-- What is looked up when a word is not a long option. -/
theorem optionValues_of_not_declared {arg : String}
    (hvalued : String.ofList (arg.toList.takeWhile (· != '=')) ∉ spec.valued)
    (hflag : '=' ∉ arg.toList → String.ofList (arg.toList.takeWhile (· != '=')) ∉ spec.flags)
    (hshort : ['-', '-'].isPrefixOf arg.toList = false) :
    optionValues spec arg = combinedOptions spec arg.toList.tail := by
  rw [optionValues, if_neg hvalued, if_neg (fun h => hflag h.1 h.2), hshort,
    if_neg Bool.false_ne_true]

/-- A long option. -/
theorem map_taken_readLong (word : Text) :
    (readLong (grammar spec) word).map taken =
      optionValues spec (String.ofList ('-' :: '-' :: word)) := by
  have hname : ('-' :: '-' :: word).takeWhile (· != '=') =
      '-' :: '-' :: word.takeWhile (· != '=') := rfl
  have hequals : '=' ∈ '-' :: '-' :: word ↔ '=' ∈ word := by
    simp only [List.mem_cons, (by decide : '=' ≠ '-'), false_or]
  have hprefix : ['-', '-'].isPrefixOf ('-' :: '-' :: word) = true := rfl
  have hlong : (grammar spec).long (word.takeWhile (· != '=')) =
      takesValue spec ('-' :: '-' :: word.takeWhile (· != '=')) := rfl
  rw [readLong, optionValues, String.toList_ofList, hname, hlong, takesValue, hprefix, if_pos rfl]
  simp only [hequals]
  by_cases hvalued : String.ofList ('-' :: '-' :: word.takeWhile (· != '=')) ∈ spec.valued
  · rw [if_pos hvalued, if_pos hvalued, Option.bind_some, if_neg (by decide)]
    by_cases heq : '=' ∈ word
    · rw [if_pos heq, if_pos heq]
      rfl
    · rw [if_neg heq, if_neg heq]
      rfl
  · rw [if_neg hvalued, if_neg hvalued]
    by_cases hflag : String.ofList ('-' :: '-' :: word.takeWhile (· != '=')) ∈ spec.flags
    · rw [if_pos hflag, Option.bind_some, if_pos rfl]
      by_cases heq : '=' ∈ word
      · rw [if_pos heq, if_neg fun h => h.1 heq]
        rfl
      · rw [if_neg heq, if_pos ⟨heq, hflag⟩]
        rfl
    · rw [if_neg hflag, Option.bind_none, if_neg fun h => hflag h.2]
      rfl

theorem takeWhile_dash (word : Text) : ('-' :: word).takeWhile (· != '=') =
    '-' :: word.takeWhile (· != '=') := rfl

/-- The name of a word is not looked up as a whole word of letters. -/
theorem not_declared_of_wholeWord (h : Regular spec) (hword : isWholeWord word = true) :
    String.ofList word ∉ spec.valued ∧ String.ofList word ∉ spec.flags := by
  constructor
  · intro hmem
    have hnot := (h.valued _ hmem).1
    rw [String.toList_ofList, hword] at hnot
    exact absurd hnot (by decide)
  · intro hmem
    have hnot := h.flags _ hmem
    rw [String.toList_ofList, hword] at hnot
    exact absurd hnot (by decide)

theorem equals_not_mem_takeWhile (word : Text) : '=' ∉ word.takeWhile (· != '=') := by
  intro hmem
  have hne := List.mem_takeWhile_imp hmem
  exact absurd hne (by decide)

/-- A word with one dash. -/
theorem map_taken_readShort_eq (h : Regular spec) {c : Char} (hc : c ≠ '-') (letters : Text) :
    (readShort (grammar spec) (c :: letters)).map taken =
      optionValues spec (String.ofList ('-' :: c :: letters)) := by
  have hprefix : ['-', '-'].isPrefixOf ('-' :: c :: letters) = false := by
    have hne : ('-' == c) = false := beq_eq_false_iff_ne.mpr (Ne.symm hc)
    simp only [List.isPrefixOf_cons_cons, hne, Bool.false_and, Bool.and_false]
  rw [map_taken_readShort]
  -- the letters are read unless the word has a name that is looked up
  have hletters : String.ofList ('-' :: (c :: letters).takeWhile (· != '=')) ∉ spec.valued →
      ('=' ∉ c :: letters →
        String.ofList ('-' :: (c :: letters).takeWhile (· != '=')) ∉ spec.flags) →
      combinedOptions spec (c :: letters) =
        optionValues spec (String.ofList ('-' :: c :: letters)) := by
    intro hvalued hflag
    have hread := @optionValues_of_not_declared spec (String.ofList ('-' :: c :: letters))
    rw [String.toList_ofList, takeWhile_dash, List.tail_cons] at hread
    exact (hread hvalued (fun hmem => hflag fun hin => hmem (List.mem_cons_of_mem _ hin))
      hprefix).symm
  by_cases heq : c = '='
  · subst heq
    exact hletters (fun hmem => (h.valued _ hmem).2 rfl) fun hmem => absurd List.mem_cons_self hmem
  have htake : (c :: letters).takeWhile (· != '=') = c :: letters.takeWhile (· != '=') :=
    List.takeWhile_cons_of_pos (bne_iff_ne.mpr heq)
  rw [htake] at hletters
  cases hname : letters.takeWhile (· != '=') with
  | cons d name =>
    rw [hname] at hletters
    have hword : isWholeWord ('-' :: c :: d :: name) = true := by
      have hequals : '=' ∉ c :: d :: name := by
        rw [← hname, List.mem_cons, not_or]
        exact ⟨fun he => heq he.symm, equals_not_mem_takeWhile letters⟩
      rw [isWholeWord, bne_iff_ne.mpr hc, Bool.true_and, Bool.not_eq_true', ← Bool.not_eq_true,
        List.contains_iff_mem]
      exact hequals
    have hnot := not_declared_of_wholeWord h hword
    exact hletters hnot.1 fun _ => hnot.2
  | nil =>
    rw [hname] at hletters
    have hequals : '=' ∈ '-' :: c :: letters ↔ letters ≠ [] := by
      cases letters with
      | nil =>
        simp only [List.mem_cons, (by decide : '=' ≠ '-'), Ne.symm heq, List.not_mem_nil,
          or_false, ne_eq, not_true]
      | cons e rest =>
        have he : e = '=' := by
          by_contra hne
          have hcons : (e :: rest).takeWhile (· != '=') = e :: rest.takeWhile (· != '=') :=
            List.takeWhile_cons_of_pos (bne_iff_ne.mpr hne)
          exact List.cons_ne_nil _ _ (hcons.symm.trans hname)
        simp only [he, List.mem_cons, true_or, or_true, ne_eq, reduceCtorEq, not_false_iff]
    have hlookup : (String.ofList ('-' :: c :: letters)).toList.takeWhile (· != '=') =
        ['-', c] := by
      rw [String.toList_ofList, takeWhile_dash, htake, hname]
    by_cases hvalued : String.ofList ['-', c] ∈ spec.valued
    · rw [combinedOptions, optionValues, hlookup, if_pos hvalued, if_pos hvalued,
        String.toList_ofList]
      by_cases hnil : letters = []
      · rw [if_pos hnil, if_neg fun he => hequals.mp he hnil]
      · rw [if_neg hnil, if_pos (hequals.mpr hnil)]
    · by_cases hflag : letters = [] ∧ String.ofList ['-', c] ∈ spec.flags
      · obtain ⟨rfl, hflag⟩ := hflag
        rw [combinedOptions, optionValues, hlookup, if_neg hvalued, if_neg hvalued, if_pos hflag,
          String.toList_ofList, if_pos ⟨fun he => hequals.mp he rfl, hflag⟩, combinedOptions]
      · refine hletters hvalued fun hmem hin => hflag ⟨?_, hin⟩
        by_contra hne
        rcases List.mem_cons.mp (hequals.mpr hne) with he | he
        · exact absurd he (by decide)
        · exact hmem he

/-- **One word of options** is read as the grammar reads it. -/
theorem map_taken_readOption (h : Regular spec) {arg : String} (hoption : isOption arg.toList)
    (hend : arg.toList ≠ ['-', '-']) :
    (readOption (grammar spec) arg.toList).map taken = optionValues spec arg := by
  obtain ⟨word, rfl⟩ : ∃ word, arg = String.ofList word := ⟨arg.toList, String.ofList_toList.symm⟩
  rw [String.toList_ofList] at hoption hend ⊢
  rw [isOption, Bool.and_eq_true, decide_eq_true_iff, bne_iff_ne] at hoption
  obtain ⟨hhead, hne⟩ := hoption
  obtain ⟨rest, rfl⟩ := List.head?_eq_some_iff.mp hhead
  cases rest with
  | nil => exact absurd rfl hne
  | cons c rest =>
    by_cases hc : c = '-'
    · subst hc
      rw [readOption, map_taken_readLong]
    · rw [readOption_of_ne hc, map_taken_readShort_eq h hc]

/-! ### The argument list -/

/-- After `--` there are only operands. -/
theorem positionsFrom_false (spec : Spec) (args : List String) :
    positionsFrom spec false 0 args = some args := by
  induction args with
  | nil => rfl
  | cons arg args ih =>
    rw [positionsFrom, if_neg (fun h => Bool.false_ne_true h.2),
      if_neg (fun h => Bool.false_ne_true h.1), ih, Option.map_some]

theorem isOption_toList {arg : String} : isOption arg.toList = true ↔
    isDashed arg = true ∧ arg ≠ "-" := by
  have hdash : arg.toList ≠ ['-'] ↔ arg ≠ "-" := by
    rw [ne_eq, ne_eq, ← String.toList_inj]
    rfl
  rw [isOption, isDashed, Bool.and_eq_true, bne_iff_ne, hdash]

/-- **The loop** reads on as the grammar does, whether a word is still to be taken or not. -/
theorem readFrom_eq (h : Regular spec) (args : List String) (pending : Option Name)
    (hlength : pending ≠ none → args ≠ []) :
    (readFrom (grammar spec) pending (args.map String.toList)).map operands =
      (positionsFrom spec true (if pending = none then 0 else 1) args).map
        (List.map String.toList) := by
  induction args generalizing pending with
  | nil =>
    cases pending with
    | none => rfl
    | some name => exact absurd rfl (hlength (Option.some_ne_none name))
  | cons arg args ih =>
    have hnext := ih none (fun hne => absurd rfl hne)
    rw [if_pos rfl] at hnext
    cases pending with
    | some name =>
      rw [List.map_cons, readFrom, Option.map_map, if_neg (Option.some_ne_none name),
        positionsFrom, ← hnext]
      rfl
    | none =>
      have hend : arg.toList = ['-', '-'] ↔ arg = "--" := by
        rw [← String.toList_inj]
        rfl
      rw [List.map_cons, readFrom, if_pos rfl, positionsFrom]
      by_cases hdashes : arg = "--"
      · rw [if_pos (hend.mpr hdashes), if_pos ⟨hdashes, rfl⟩, Option.map_some,
          operands_map_operand, positionsFrom_false, Option.map_some]
      · have hnot : ¬(arg = "--" ∧ true = true) := fun he => hdashes he.1
        rw [if_neg fun he => hdashes (hend.mp he), if_neg hnot]
        by_cases hoption : isOption arg.toList = true
        · have hdash := isOption_toList.mp hoption
          have hword := map_taken_readOption h hoption fun he => hdashes (hend.mp he)
          rw [if_pos hoption, if_pos ⟨rfl, hdash⟩]
          cases hread : readOption (grammar spec) arg.toList with
          | none =>
            rw [hread, Option.map_none] at hword
            rw [← hword]
            rfl
          | some read =>
            rw [hread, Option.map_some] at hword
            rw [← hword, Option.bind_some, Option.map_map]
            have hoperands : operands ∘ (read.1 ++ ·) = operands := by
              funext items
              rw [Function.comp_apply, operands_append, operands_readOption hread,
                List.nil_append]
            rw [hoperands]
            dsimp only
            by_cases hlast : read.2 ≠ none ∧ args = []
            · obtain ⟨hpending, rfl⟩ := hlast
              rw [taken, if_neg hpending, List.length_nil, if_pos Nat.zero_lt_one]
              obtain ⟨name, hname⟩ := Option.ne_none_iff_exists'.mp hpending
              rw [hname]
              rfl
            · have hargs : read.2 ≠ none → args ≠ [] := fun hne he => hlast ⟨hne, he⟩
              have htaken : ¬args.length < taken read := by
                rw [taken]
                by_cases hnone : read.2 = none
                · rw [if_pos hnone]
                  omega
                · rw [if_neg hnone]
                  have hpos := List.length_pos_iff.mpr (hargs hnone)
                  omega
              rw [if_neg htaken, ih read.2 hargs, taken]
        · rw [if_neg hoption, if_neg fun he => hoption (isOption_toList.mpr he.2),
            Option.map_map, Option.map_map]
          have hcons : operands ∘ (Item.operand arg.toList :: ·) =
              (arg.toList :: ·) ∘ operands := rfl
          have hmap : List.map String.toList ∘ (arg :: ·) =
              (arg.toList :: ·) ∘ List.map String.toList := rfl
          rw [hcons, hmap, ← Option.map_map, ← Option.map_map, hnext]

/-- **What `arguments` returns are the operands** of the reading, and where there is a reading with
operands enough, it returns them. -/
theorem arguments_reads (spec : Spec) (h : Regular spec) (args : List String) :
    (∀ positions, arguments spec args = some positions →
      ∃ items, read (grammar spec) (args.map String.toList) = some items ∧
        operands items = positions.map String.toList) ∧
    (∀ items, read (grammar spec) (args.map String.toList) = some items →
      (∀ maxArgs, spec.maxArgs = some maxArgs → (operands items).length ≤ maxArgs) →
        arguments spec args ≠ none) := by
  have hloop := readFrom_eq h args none fun hne => absurd rfl hne
  rw [if_pos rfl] at hloop
  constructor
  · intro positions hpositions
    rw [arguments, Option.filter_eq_some_iff] at hpositions
    rw [hpositions.1, Option.map_some] at hloop
    obtain ⟨items, hread, hitems⟩ := Option.map_eq_some_iff.mp hloop
    exact ⟨items, hread, hitems⟩
  · intro items hread hmax
    rw [GetoptLong.read] at hread
    rw [hread, Option.map_some] at hloop
    obtain ⟨positions, hpositions, hitems⟩ := Option.map_eq_some_iff.mp hloop.symm
    have hlength : positions.length = (operands items).length := by
      rw [← hitems, List.length_map]
    have harguments : arguments spec args = some positions := by
      rw [arguments, Option.filter_eq_some_iff]
      refine ⟨hpositions, ?_⟩
      cases hspec : spec.maxArgs with
      | none => rfl
      | some maxArgs =>
        have hle := hmax maxArgs hspec
        rw [← hlength] at hle
        exact decide_eq_true hle
    rw [harguments]
    exact Option.some_ne_none positions

theorem arguments_reads_head :
    arguments { flags := ["-q", "-v"], valued := ["-n", "-c"] } ["-qn", "3", "a.txt"] ≠ none :=
  (arguments_reads _ (by decide +kernel) _).2 _ rfl nofun

/-- **A whole word of letters** is taken as one option. -/
theorem whole_word_is_no_reading : arguments { flags := ["-rf"] } ["-rf", "a"] = some ["a"] ∧
    read (grammar { flags := ["-rf"] }) (["-rf", "a"].map String.toList) = none := by
  decide +kernel

end EvernightAI.OptionGrammar

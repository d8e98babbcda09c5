import Mathlib.Data.Nat.Basic
import Mathlib.Tactic.NormNum

/-!
# Records read one after another

Binary files are sequences of records: a field says how long a record is, and a loop reads record
after record until one of them, or the end of the file, decides.

* `ofLE`, `toLE`, `ofBE`, `toBE`: the numbers of fixed-width fields, least or most significant byte
  first, with their round trips.
* `RecordFormat`: how a record is written and read, where reading is *exact*: what is read is what
  was written, and no more of the text.
* `RecordFormat.scan` is the loop, `RecordFormat.Accepts` the texts it accepts as a derivation, and
  `scan_eq_true` that the two agree.
-/

namespace ByteField

/-- The number in a field, least significant byte first. -/
def ofLE : List UInt8 → Nat
  | [] => 0
  | byte :: bytes => byte.toNat + 256 * ofLE bytes

/-- A field of this width, least significant byte first. -/
def toLE : Nat → Nat → List UInt8
  | 0, _ => []
  | width + 1, n => UInt8.ofNat n :: toLE width (n / 256)

/-- The number in a field, most significant byte first. -/
def ofBE (bytes : List UInt8) : Nat := ofLE bytes.reverse

/-- A field of this width, most significant byte first. -/
def toBE (width n : Nat) : List UInt8 := (toLE width n).reverse

@[simp] theorem length_toLE (width n : Nat) : (toLE width n).length = width := by
  induction width generalizing n with
  | zero => rfl
  | succ width ih => rw [toLE, List.length_cons, ih]

@[simp] theorem length_toBE (width n : Nat) : (toBE width n).length = width := by
  rw [toBE, List.length_reverse, length_toLE]

theorem ofLE_lt (bytes : List UInt8) : ofLE bytes < 256 ^ bytes.length := by
  induction bytes with
  | nil => exact Nat.one_pos
  | cons byte bytes ih =>
    have hbyte : byte.toNat < 256 := byte.toNat_lt
    rw [ofLE, List.length_cons, pow_succ]
    omega

theorem ofBE_lt (bytes : List UInt8) : ofBE bytes < 256 ^ bytes.length := by
  rw [ofBE, ← List.length_reverse]
  exact ofLE_lt _

/-- What is written in a field that is wide enough is read back. -/
theorem ofLE_toLE {width n : Nat} (h : n < 256 ^ width) : ofLE (toLE width n) = n := by
  induction width generalizing n with
  | zero =>
    have hzero : n = 0 := Nat.lt_one_iff.mp h
    rw [hzero]
    rfl
  | succ width ih =>
    have hdiv : n / 256 < 256 ^ width := Nat.div_lt_of_lt_mul (by rwa [mul_comm, ← pow_succ])
    rw [toLE, ofLE, ih hdiv, UInt8.toNat_ofNat']
    have hmod : n % 2 ^ 8 = n % 256 := rfl
    rw [hmod]
    omega

theorem ofBE_toBE {width n : Nat} (h : n < 256 ^ width) : ofBE (toBE width n) = n := by
  rw [ofBE, toBE, List.reverse_reverse, ofLE_toLE h]

/-- A field is what its number is written as. -/
theorem toLE_ofLE (bytes : List UInt8) : toLE bytes.length (ofLE bytes) = bytes := by
  induction bytes with
  | nil => rfl
  | cons byte bytes ih =>
    have hbyte : byte.toNat < 256 := byte.toNat_lt
    have hdiv : (byte.toNat + 256 * ofLE bytes) / 256 = ofLE bytes := by omega
    have hhead : UInt8.ofNat (byte.toNat + 256 * ofLE bytes) = byte := by
      apply UInt8.toNat_inj.mp
      rw [UInt8.toNat_ofNat']
      have hmod : (byte.toNat + 256 * ofLE bytes) % 2 ^ 8 =
          (byte.toNat + 256 * ofLE bytes) % 256 := rfl
      rw [hmod]
      omega
    rw [List.length_cons, ofLE, toLE, hdiv, ih, hhead]

theorem toBE_ofBE (bytes : List UInt8) : toBE bytes.length (ofBE bytes) = bytes := by
  have h := toLE_ofLE bytes.reverse
  rw [List.length_reverse] at h
  rw [toBE, ofBE, h, List.reverse_reverse]

/-- The bytes from one place up to another. -/
def slice (text : List UInt8) (i j : Nat) : List UInt8 := (text.take j).drop i

theorem length_slice {text : List UInt8} {i j : Nat} (h : j ≤ text.length) :
    (slice text i j).length = j - i := by
  rw [slice, List.length_drop, List.length_take, Nat.min_eq_left h]

theorem slice_append_drop {text : List UInt8} {i j : Nat} (h : i ≤ j) :
    slice text i j ++ text.drop j = text.drop i := by
  rw [slice, List.drop_take]
  have hj : text.drop j = (text.drop i).drop (j - i) := by
    rw [List.drop_drop, Nat.add_sub_cancel' h]
  rw [hj, List.take_append_drop]

/-- A field that stands after another one is the slice behind it. -/
theorem slice_append {before field after : List UInt8} {i j : Nat} (hi : before.length = i)
    (hj : before.length + field.length = j) : slice (before ++ (field ++ after)) i j = field := by
  rw [slice, ← List.append_assoc, List.take_left' (by rw [List.length_append, hj]),
    List.drop_left' hi]

/-- Where a pattern stands first. -/
def find (pattern : List UInt8) : List UInt8 → Option Nat
  | [] => if pattern = [] then some 0 else none
  | byte :: text =>
    if pattern.isPrefixOf (byte :: text) then some 0 else (find pattern text).map (· + 1)

/-- **The first place of a pattern**: it stands there, and nowhere before. -/
theorem find_eq_some {pattern text : List UInt8} {i : Nat} :
    find pattern text = some i ↔
      i ≤ text.length ∧ pattern <+: text.drop i ∧ ∀ j < i, ¬pattern <+: text.drop j := by
  induction text generalizing i with
  | nil =>
    rw [find, List.drop_nil, List.prefix_nil, List.length_nil, Nat.le_zero]
    by_cases hpattern : pattern = []
    · rw [if_pos hpattern]
      constructor
      · intro h
        rw [← Option.some.inj h]
        exact ⟨rfl, hpattern, fun j hj => absurd hj (Nat.not_lt_zero j)⟩
      · rintro ⟨rfl, -, -⟩
        rfl
    · rw [if_neg hpattern]
      exact ⟨fun h => absurd h (by simp), fun h => absurd h.2.1 hpattern⟩
  | cons byte text ih =>
    rw [find]
    by_cases hhere : pattern <+: byte :: text
    · rw [if_pos (List.isPrefixOf_iff_prefix.mpr hhere)]
      constructor
      · intro h
        rw [← Option.some.inj h]
        exact ⟨Nat.zero_le _, hhere, fun j hj => absurd hj (Nat.not_lt_zero j)⟩
      · rintro ⟨-, -, hfirst⟩
        have hzero : i = 0 := by
          by_contra hne
          exact hfirst 0 (Nat.pos_of_ne_zero hne) hhere
        rw [hzero]
    · rw [if_neg fun h => hhere (List.isPrefixOf_iff_prefix.mp h), Option.map_eq_some_iff]
      constructor
      · rintro ⟨k, hk, rfl⟩
        obtain ⟨hlength, hthere, hfirst⟩ := ih.mp hk
        refine ⟨Nat.succ_le_succ hlength, hthere, fun j hj => ?_⟩
        match j with
        | 0 => exact hhere
        | j + 1 => exact hfirst j (Nat.lt_of_succ_lt_succ hj)
      · rintro ⟨hlength, hthere, hfirst⟩
        match i with
        | 0 => exact absurd hthere hhere
        | k + 1 =>
          refine ⟨k, ih.mpr ⟨Nat.le_of_succ_le_succ hlength, hthere, fun j hj => ?_⟩, rfl⟩
          exact hfirst (j + 1) (Nat.succ_lt_succ hj)

end ByteField

/-- **A format of records**: how one is written, and how one is read off the front of a text. -/
structure RecordFormat (β α : Type*) where
  Valid : α → Prop
  write : α → List β
  read : List β → Option (α × List β)
  /-- What is read is a record that was written, and nothing of the rest. -/
  exact : ∀ {text record rest}, read text = some (record, rest) ↔
    Valid record ∧ text = write record ++ rest
  write_ne_nil : ∀ record, write record ≠ []

namespace RecordFormat

variable {β α σ : Type*} (F : RecordFormat β α)

/-- What a record means for the loop. -/
inductive Outcome (β σ : Type*)
  | next (state : σ)
  | finish (check : List β → Bool)

theorem length_rest {text rest : List β} {record : α} (h : F.read text = some (record, rest)) :
    rest.length < text.length := by
  obtain ⟨-, htext⟩ := F.exact.mp h
  have hpos := List.length_pos_iff.mpr (F.write_ne_nil record)
  rw [htext, List.length_append]
  omega

/-- The loop: while `guard` holds of the rest of the text, a record is read; when none can be read
the text is rejected. -/
def scan (guard : List β → Bool) (step : σ → α → Outcome β σ) (atEnd : σ → List β → Bool)
    (state : σ) (text : List β) : Bool :=
  if guard text then
    match hread : F.read text with
    | none => false
    | some (record, rest) =>
      have := F.length_rest hread
      match step state record with
      | .next state => scan guard step atEnd state rest
      | .finish check => check rest
  else atEnd state text
termination_by text.length

/-- The texts the loop accepts, record by record. -/
inductive Accepts (guard : List β → Bool) (step : σ → α → Outcome β σ) (atEnd : σ → List β → Bool) :
    σ → List β → Prop
  | ended {state : σ} {text : List β} (hguard : guard text = false) (hend : atEnd state text = true) :
    Accepts guard step atEnd state text
  | finished {state : σ} {record : α} {rest : List β} {check : List β → Bool}
      (hguard : guard (F.write record ++ rest) = true) (hvalid : F.Valid record)
      (hstep : step state record = .finish check) (hcheck : check rest = true) :
    Accepts guard step atEnd state (F.write record ++ rest)
  | went {state state' : σ} {record : α} {rest : List β}
      (hguard : guard (F.write record ++ rest) = true) (hvalid : F.Valid record)
      (hstep : step state record = .next state') (hrest : Accepts guard step atEnd state' rest) :
    Accepts guard step atEnd state (F.write record ++ rest)

variable {F} {guard : List β → Bool} {step : σ → α → Outcome β σ} {atEnd : σ → List β → Bool}

/-- What was written is read back, whatever follows. -/
theorem read_write {record : α} (hvalid : F.Valid record) (rest : List β) :
    F.read (F.write record ++ rest) = some (record, rest) := F.exact.mpr ⟨hvalid, rfl⟩

/-- **The loop accepts what the derivation does.** -/
theorem scan_eq_true {state : σ} {text : List β} :
    F.scan guard step atEnd state text = true ↔ F.Accepts guard step atEnd state text := by
  constructor
  · intro h
    induction text using (measure List.length).wf.induction generalizing state with
    | h text ih =>
    rw [scan] at h
    split at h
    · next hguard =>
      split at h
      · exact absurd h (by simp)
      · next record rest hread =>
        obtain ⟨hvalid, rfl⟩ := F.exact.mp hread
        split at h
        · next state' hstep =>
          exact .went hguard hvalid hstep (ih rest (F.length_rest hread) h)
        · next check hstep => exact .finished hguard hvalid hstep h
    · next hguard => exact .ended (Bool.eq_false_iff.mpr hguard) h
  · intro h
    induction h with
    | ended hguard hend =>
      rw [scan, if_neg (by simp [hguard])]
      exact hend
    | @finished state record rest check hguard hvalid hstep hcheck =>
      rw [scan, if_pos hguard]
      split
      · next hread => exact absurd ((read_write hvalid rest).symm.trans hread) (by simp)
      · next record' rest' hread =>
        obtain ⟨rfl, rfl⟩ :=
          Prod.mk.inj (Option.some.inj ((read_write hvalid rest).symm.trans hread))
        rw [hstep]
        exact hcheck
    | @went state state' record rest hguard hvalid hstep _ ih =>
      rw [scan, if_pos hguard]
      split
      · next hread => exact absurd ((read_write hvalid rest).symm.trans hread) (by simp)
      · next record' rest' hread =>
        obtain ⟨rfl, rfl⟩ :=
          Prod.mk.inj (Option.some.inj ((read_write hvalid rest).symm.trans hread))
        rw [hstep]
        exact ih

/-- Where the loop decides: at the end, or at a record that finishes it. -/
def Ends (F : RecordFormat β α) (guard : List β → Bool) (step : σ → α → Outcome β σ)
    (atEnd : σ → List β → Bool) (state : σ) (text : List β) : Prop :=
  (guard text = false ∧ atEnd state text = true) ∨
    ∃ record rest check, text = F.write record ++ rest ∧ guard text = true ∧ F.Valid record ∧
      step state record = .finish check ∧ check rest = true

theorem accepts_of_ends {state : σ} {text : List β} (h : F.Ends guard step atEnd state text) :
    F.Accepts guard step atEnd state text := by
  obtain ⟨hguard, hend⟩ | ⟨record, rest, check, rfl, hguard, hvalid, hstep, hcheck⟩ := h
  · exact .ended hguard hend
  · exact .finished hguard hvalid hstep hcheck

/-- **A loop that goes on exactly at some records accepts those records and an ending**: `inside`
says in which states this is so, and a record is always followed by enough text for the guard. -/
theorem accepts_iff {goes : α → Prop} {states : σ → α → σ} {inside : σ → Prop}
    (hgoes : ∀ state record state', inside state →
      (step state record = .next state' ↔ goes record ∧ state' = states state record))
    (hinside : ∀ state record, inside state → goes record → inside (states state record))
    (hguard : ∀ state record text, F.Valid record → F.Accepts guard step atEnd state text →
      guard (F.write record ++ text) = true)
    {state : σ} {text : List β} (hstate : inside state) :
    F.Accepts guard step atEnd state text ↔
      ∃ (records : List α) (rest : List β), (∀ record ∈ records, F.Valid record ∧ goes record) ∧
        text = records.flatMap F.write ++ rest ∧
        F.Ends guard step atEnd (records.foldl states state) rest := by
  constructor
  · intro h
    induction h with
    | @ended state text hguard' hend => exact ⟨[], text, by simp, rfl, .inl ⟨hguard', hend⟩⟩
    | @finished state record rest check hguard' hvalid hstep hcheck =>
      exact ⟨[], _, by simp, rfl, .inr ⟨record, rest, check, rfl, hguard', hvalid, hstep, hcheck⟩⟩
    | @went state state' record rest _ hvalid hstep _ ih =>
      obtain ⟨hgo, rfl⟩ := (hgoes _ _ _ hstate).mp hstep
      obtain ⟨records, last, hrecords, rfl, hends⟩ := ih (hinside _ _ hstate hgo)
      refine ⟨record :: records, last, ?_, ?_, hends⟩
      · exact List.forall_mem_cons.mpr ⟨⟨hvalid, hgo⟩, hrecords⟩
      · rw [List.flatMap_cons, List.append_assoc]
  · rintro ⟨records, rest, hrecords, rfl, hends⟩
    induction records generalizing state with
    | nil => exact accepts_of_ends hends
    | cons record records ih =>
      obtain ⟨⟨hvalid, hgo⟩, hrecords⟩ := List.forall_mem_cons.mp hrecords
      have htail := ih (hinside _ _ hstate hgo) hrecords hends
      rw [List.flatMap_cons, List.append_assoc]
      exact .went (hguard _ _ _ hvalid htail) hvalid ((hgoes _ _ _ hstate).mpr ⟨hgo, rfl⟩) htail

end RecordFormat

import EvernightAI.Frontend.History
import Mathlib.Data.List.Basic
import Mathlib.Data.List.Induction

/-!
# The history is a partition

The transcript that `restoreChatHistory` builds is laid out in pieces (`Piece`), one for each run
and one for each stretch of messages that no run claims.

* `Claims` is what a run may claim and where it is shown; the step of each loop keeps it, and two
  runs without recorded indices never claim the same message.
* `Lays` ties the variables of the last loop to the pieces shown so far.
* `restoreChatHistory_partition` puts both together.
-/

namespace EvernightAI.Frontend

/-! ### Claims -/

/-- What a run claims, and where it is shown. -/
structure Claims (b : Browser) (messages : List Content) (item : HistoryItem) : Prop where
  recorded : ∀ recorded, item.run.messageIndices = some recorded →
    item.indices = recordedIndices messages recorded
  legacy : item.run.messageIndices = none → item.indices ≠ [] → ∃ start,
    item.indices = List.range' start (committedMessages item.run).length ∧
      start + (committedMessages item.run).length ≤ messages.length ∧
      ∀ i committed, (committedMessages item.run)[i]? = some committed →
        ∃ stored, messages[start + i]? = some stored ∧ sameMessage b committed stored = true
  first : ∀ first, item.indices.min? = some first → item.offset = first
  clamped : item.indices = [] → ∀ offset, item.run.messageOffset = some offset →
    item.offset = max 0 (min (messages.length : Int) offset)
  nonneg : 0 ≤ item.offset
  le_length : item.offset ≤ messages.length

section Claiming

variable {b : Browser} {messages : List Content}

theorem lt_of_mem_recordedIndices {recorded : List Int} {i : Nat}
    (h : i ∈ recordedIndices messages recorded) : i < messages.length := by
  obtain ⟨j, -, hj⟩ := List.mem_filterMap.mp h
  split_ifs at hj with hrange
  · rw [Option.some.injEq] at hj
    omega

theorem matchTurn_eq_some {committed : List Content} {cursor start : Nat}
    (h : matchTurn b messages committed cursor = some start) :
    cursor ≤ start ∧ start + committed.length ≤ messages.length ∧
      ∀ i message, committed[i]? = some message →
        ∃ stored, messages[start + i]? = some stored ∧ sameMessage b message stored = true := by
  have hfound := List.find?_some h
  simp only [Bool.and_eq_true, decide_eq_true_eq] at hfound
  obtain ⟨⟨hcursor, hlength⟩, hmatches⟩ := hfound
  refine ⟨hcursor, hlength, fun i message hmessage => ?_⟩
  have hmem : (message, i) ∈ committed.zipIdx := List.mk_mem_zipIdx_iff_getElem?.mpr hmessage
  simpa [Option.any_eq_true] using (List.all_eq_true.mp hmatches (message, i) hmem)

/-- What the claiming of one turn can do. -/
theorem claimTurn_cases (cursor : Nat) (item : HistoryItem) :
    (∃ start, matchTurn b messages (committedMessages item.run) cursor = some start ∧
      item.run.messageIndices = none ∧
      claimTurn b messages cursor item =
        ({ item with
            indices := List.range' start (committedMessages item.run).length
            offset := settledOffset messages
              (List.range' start (committedMessages item.run).length) item.offset },
          start + (committedMessages item.run).length)) ∨
    claimTurn b messages cursor item =
      ({ item with offset := settledOffset messages item.indices item.offset }, cursor) := by
  obtain ⟨start, hstart⟩ : ∃ start, (if item.run.legacyTurn &&
      !(committedMessages item.run).isEmpty then
        matchTurn b messages (committedMessages item.run) cursor else none) = start := ⟨_, rfl⟩
  rw [claimTurn]
  simp only [hstart]
  rcases start with _ | start
  · exact .inr rfl
  · split_ifs at hstart with hlegacy
    · rw [Bool.and_eq_true, Run.legacyTurn, Bool.and_eq_true, Option.isNone_iff_eq_none] at hlegacy
      exact .inl ⟨start, hstart, hlegacy.1.1, rfl⟩

theorem claimTurn_run (cursor : Nat) (item : HistoryItem) :
    (claimTurn b messages cursor item).1.run = item.run := rfl

theorem settledOffset_bounds (indices : List Nat) (offset : Int) :
    0 ≤ settledOffset messages indices offset ∧
      settledOffset messages indices offset ≤ messages.length := by
  unfold settledOffset
  dsimp only
  omega

/-- An index that is claimed needs no clamping. -/
theorem settledOffset_of_min {indices : List Nat} {first : Nat} (offset : Int)
    (hfirst : indices.min? = some first) (hlt : ∀ i ∈ indices, i < messages.length) :
    settledOffset messages indices offset = first := by
  have := hlt first (List.min?_mem hfirst)
  rw [settledOffset, hfirst]
  dsimp only
  omega

theorem claims_claimTurn (cursor : Nat) (run : Run) :
    Claims b messages (claimTurn b messages cursor (historyItem messages run)).1 := by
  obtain ⟨start, hstart, hnone, hturn⟩ | hturn :=
    @claimTurn_cases b messages cursor (historyItem messages run)
  · obtain ⟨-, hlength, hmatches⟩ := matchTurn_eq_some hstart
    have hlt : ∀ i ∈ List.range' start (committedMessages run).length, i < messages.length := by
      intro i hi
      rw [List.mem_range'_1] at hi
      have hlength' : start + (committedMessages run).length ≤ messages.length := hlength
      omega
    have hbounds := @settledOffset_bounds messages
      (List.range' start (committedMessages run).length) (historyItem messages run).offset
    rw [hturn]
    exact
      { recorded := fun recorded hrecorded => by rw [hnone] at hrecorded; cases hrecorded
        legacy := fun _ _ => ⟨start, rfl, hlength, hmatches⟩
        first := fun first hfirst => settledOffset_of_min _ hfirst hlt
        clamped := fun hnil offset hoffset => by
          have hoffset' : run.messageOffset = some offset := hoffset
          dsimp only at hnil ⊢
          rw [hnil, settledOffset]
          simp only [historyItem, hoffset', List.min?_nil, Option.getD_some]
        nonneg := hbounds.1
        le_length := hbounds.2 }
  · have hbounds := @settledOffset_bounds messages (historyItem messages run).indices
      (historyItem messages run).offset
    rw [hturn]
    exact
      { recorded := fun recorded hrecorded => by
          have hrecorded' : run.messageIndices = some recorded := hrecorded
          simp only [historyItem, hrecorded', Option.getD_some]
        legacy := fun hnone hne => by
          have hnone' : run.messageIndices = none := hnone
          exact absurd (by simp [historyItem, hnone', recordedIndices]) hne
        first := fun first hfirst => settledOffset_of_min _ hfirst fun i hi =>
          lt_of_mem_recordedIndices hi
        clamped := fun hnil offset hoffset => by
          have hnil' : (historyItem messages run).indices = [] := hnil
          have hoffset' : run.messageOffset = some offset := hoffset
          dsimp only
          rw [hnil', settledOffset]
          simp only [historyItem, hoffset', List.min?_nil, Option.getD_some]
        nonneg := hbounds.1
        le_length := hbounds.2 }

theorem claimTurns_cons (cursor : Nat) (item : HistoryItem) (items : List HistoryItem) :
    claimTurns b messages cursor (item :: items) =
      (claimTurn b messages cursor item).1 ::
        claimTurns b messages (claimTurn b messages cursor item).2 items := rfl

theorem claims_claimTurns (cursor : Nat) (runs : List Run) :
    ∀ item ∈ claimTurns b messages cursor (runs.map (historyItem messages)),
      Claims b messages item := by
  induction runs generalizing cursor with
  | nil => exact List.forall_mem_nil _
  | cons run runs ih =>
    rw [List.map_cons, claimTurns_cons]
    exact List.forall_mem_cons.mpr ⟨claims_claimTurn cursor run, ih _⟩

theorem map_run_claimTurns (cursor : Nat) (items : List HistoryItem) :
    (claimTurns b messages cursor items).map (·.run) = items.map (·.run) := by
  induction items generalizing cursor with
  | nil => rfl
  | cons item items ih =>
    rw [claimTurns_cons, List.map_cons, List.map_cons, claimTurn_run]
    exact congrArg _ (ih _)

/-- Runs without recorded indices claim from the cursor on. -/
theorem le_of_mem_claimTurns {cursor : Nat} {runs : List Run} {item : HistoryItem}
    (h : item ∈ claimTurns b messages cursor (runs.map (historyItem messages)))
    (hlegacy : item.run.messageIndices = none) : ∀ i ∈ item.indices, cursor ≤ i := by
  induction runs generalizing cursor with
  | nil => cases h
  | cons run runs ih =>
    rw [List.map_cons, claimTurns_cons] at h
    have hcases := @claimTurn_cases b messages cursor
      (historyItem messages run)
    obtain rfl | h := List.mem_cons.mp h
    · intro i hi
      obtain ⟨start, hstart, -, hturn⟩ | hturn := hcases
      · rw [hturn] at hi
        obtain ⟨hcursor, -, -⟩ := matchTurn_eq_some hstart
        have := (List.mem_range'_1.mp hi).1
        omega
      · have hnone : run.messageIndices = none := hlegacy
        rw [hturn] at hi
        simp [historyItem, hnone, recordedIndices] at hi
    · intro i hi
      have hle := ih h i hi
      obtain ⟨start, hstart, -, hturn⟩ | hturn := hcases
      · rw [hturn] at hle
        obtain ⟨hcursor, -, -⟩ := matchTurn_eq_some hstart
        dsimp only at hle
        omega
      · rw [hturn] at hle
        exact hle

/-- Two runs without recorded indices claim different messages. -/
theorem pairwise_claimTurns (cursor : Nat) (runs : List Run) :
    (claimTurns b messages cursor (runs.map (historyItem messages))).Pairwise fun item item' =>
      item.run.messageIndices = none → item'.run.messageIndices = none →
        item.indices.Disjoint item'.indices := by
  induction runs generalizing cursor with
  | nil => exact .nil
  | cons run runs ih =>
    rw [List.map_cons, claimTurns_cons]
    refine .cons (fun item' hitem' hnone hnone' i hi hi' => ?_) (ih _)
    have hle := le_of_mem_claimTurns hitem' hnone' i hi'
    obtain ⟨start, -, -, hturn⟩ | hturn :=
      @claimTurn_cases b messages cursor (historyItem messages run)
    · rw [hturn] at hle hi
      have := (List.mem_range'_1.mp hi).2
      dsimp only at hle
      omega
    · have hrun : run.messageIndices = none := hnone
      rw [hturn] at hi
      simp [historyItem, hrun, recordedIndices] at hi

/-- A run that is interrupted stands at the end, until it is placed. -/
theorem offset_of_interrupted {cursor : Nat} {runs : List Run} {item : HistoryItem}
    (h : item ∈ claimTurns b messages cursor (runs.map (historyItem messages)))
    (hinterrupted : item.interrupted = true) : item.offset = messages.length := by
  induction runs generalizing cursor with
  | nil => cases h
  | cons run runs ih =>
    rw [List.map_cons, claimTurns_cons] at h
    obtain rfl | h := List.mem_cons.mp h
    · rw [HistoryItem.interrupted, Bool.and_eq_true, List.isEmpty_iff,
        Option.isNone_iff_eq_none] at hinterrupted
      obtain ⟨hnil, hnone⟩ := hinterrupted
      have hnone' : run.messageOffset = none := hnone
      have hoffset : (historyItem messages run).offset = messages.length := by
        simp [historyItem, hnone']
      have hsettled : settledOffset messages [] (historyItem messages run).offset =
          messages.length := by
        rw [settledOffset, hoffset, List.min?_nil]
        dsimp only
        omega
      obtain ⟨start, -, -, hturn⟩ | hturn :=
        @claimTurn_cases b messages cursor (historyItem messages run)
      · rw [hturn] at hnil ⊢
        dsimp only at hnil ⊢
        rw [hnil, hsettled]
      · rw [hturn] at hnil ⊢
        dsimp only at hnil ⊢
        rw [hnil, hsettled]
    · exact ih h

/-! ### Interrupted turns -/

theorem placeInterrupted_cons (item : HistoryItem) (items : List HistoryItem) :
    placeInterrupted (item :: items) =
      (match (placeInterrupted items).head? with
        | some next => if item.interrupted then { item with offset := next.offset } else item
        | none => item) :: placeInterrupted items := by
  rw [placeInterrupted]
  rcases placeInterrupted items with _ | ⟨next, rest⟩ <;> rfl

theorem map_placeInterrupted {α : Type} (f : HistoryItem → α)
    (hf : ∀ (item : HistoryItem) offset, f { item with offset := offset } = f item)
    (items : List HistoryItem) : (placeInterrupted items).map f = items.map f := by
  induction items with
  | nil => rfl
  | cons item items ih =>
    rw [placeInterrupted_cons, List.map_cons, List.map_cons, ih]
    congr 1
    split
    · split_ifs
      · exact hf item _
      · rfl
    · rfl

theorem forall_placeInterrupted {P : HistoryItem → Prop} {items : List HistoryItem}
    (h : ∀ item ∈ items, P item)
    (hstep : ∀ item next : HistoryItem, item.interrupted = true → P item → P next →
      P { item with offset := next.offset }) : ∀ item ∈ placeInterrupted items, P item := by
  induction items with
  | nil => exact List.forall_mem_nil _
  | cons item items ih =>
    obtain ⟨hitem, hitems⟩ := List.forall_mem_cons.mp h
    rw [placeInterrupted_cons]
    refine List.forall_mem_cons.mpr ⟨?_, ih hitems⟩
    split
    · next next hnext =>
      split_ifs with hinterrupted
      · exact hstep item next hinterrupted hitem (ih hitems next (List.mem_of_head? hnext))
      · exact hitem
    · exact hitem

/-- An interrupted turn stands where the next turn stands. -/
theorem isChain_placeInterrupted (items : List HistoryItem) :
    (placeInterrupted items).IsChain fun item next =>
      item.interrupted = true → item.offset = next.offset := by
  induction items with
  | nil => exact .nil
  | cons item items ih =>
    rw [placeInterrupted_cons]
    rcases hplaced : placeInterrupted items with _ | ⟨next, rest⟩
    · exact .singleton _
    · rw [hplaced] at ih
      refine .cons_cons (fun hinterrupted => ?_) ih
      dsimp only [List.head?_cons] at hinterrupted ⊢
      split_ifs at hinterrupted ⊢ with hitem
      · rfl
      · exact absurd hinterrupted hitem

theorem getLast?_placeInterrupted (items : List HistoryItem) :
    (placeInterrupted items).getLast? = items.getLast? := by
  induction items with
  | nil => rfl
  | cons item items ih =>
    rw [placeInterrupted_cons, List.getLast?_cons, ih, List.getLast?_cons]
    rcases items with _ | ⟨next, rest⟩
    · rfl
    · rw [List.getLast?_cons]
      rfl

end Claiming

/-! ### Pieces -/

/-- A piece of the transcript: a run, or messages with their indices that no run claims. -/
inductive Piece
  | turn (item : HistoryItem)
  | stored (messages : List (Content × Nat))

def Piece.item? : Piece → Option HistoryItem
  | .turn item => some item
  | .stored _ => none

def Piece.messages : Piece → List (Content × Nat)
  | .turn _ => []
  | .stored messages => messages

/-- The requests displayed after a piece. -/
def Piece.requests (displayed : List (String × List Content)) :
    Piece → List (String × List Content)
  | .turn item => (item.run.runId, item.run.request.messages) :: displayed
  | .stored _ => displayed

/-- The entries of a piece. -/
def Piece.entries (b : Browser) (displayed : List (String × List Content)) : Piece → List Entry
  | .turn item => turnEntries b displayed item.run
  | .stored messages =>
    storedEntries b ((messages.head?.map (·.2)).getD 0) (messages.map (·.1))

/-- The transcript of pieces. -/
def showPieces (b : Browser) (displayed : List (String × List Content)) : List Piece → List Entry
  | [] => []
  | piece :: pieces =>
    piece.entries b displayed ++ showPieces b (piece.requests displayed) pieces

/-- The messages with their indices that none of the runs claims. -/
def unclaimed (items : List HistoryItem) (messages : List (Content × Nat)) :
    List (Content × Nat) :=
  messages.filter fun m => !items.any fun item => item.indices.contains m.2

/-- Each run stands where its offset is among the messages that are shown. -/
def Placed (messages : List Content) (items : List HistoryItem) (pieces : List Piece) : Prop :=
  ∀ before item after, pieces = before ++ .turn item :: after →
    before.flatMap Piece.messages = unclaimed items (messages.zipIdx.take item.offset.toNat)

/-- The loop has shown these pieces, before the message `n`, and these messages wait. -/
structure Lays (b : Browser) (messages : List Content) (items : List HistoryItem) (n : Nat)
    (turns : List HistoryItem) (pieces : List Piece) (pending : List (Content × Nat))
    (display : Display) : Prop where
  result : display.result = showPieces b [] pieces
  requests : display.displayedRequests = pieces.foldl Piece.requests []
  stored : display.stored = pending.map (·.1)
  storedOffset : ∀ first, pending.head? = some first → display.storedOffset = first.2
  shown : pieces.flatMap Piece.messages ++ pending =
    unclaimed items (messages.zipIdx.take n)
  turns : pieces.filterMap Piece.item? = turns
  placed : Placed messages items pieces

section Pieces

variable {b : Browser} {messages : List Content} {items turns : List HistoryItem} {n : Nat}
  {pieces : List Piece} {pending : List (Content × Nat)} {display : Display}

theorem showPieces_append (displayed : List (String × List Content)) (pieces pieces' : List Piece) :
    showPieces b displayed (pieces ++ pieces') =
      showPieces b displayed pieces ++
        showPieces b (pieces.foldl Piece.requests displayed) pieces' := by
  induction pieces generalizing displayed with
  | nil => rfl
  | cons piece pieces ih =>
    rw [List.cons_append, showPieces, showPieces, ih, List.append_assoc]
    rfl

theorem unclaimed_append (l l' : List (Content × Nat)) :
    unclaimed items (l ++ l') = unclaimed items l ++ unclaimed items l' :=
  List.filter_append ..

theorem Placed.concat_stored (h : Placed messages items pieces) (m : List (Content × Nat)) :
    Placed messages items (pieces ++ [.stored m]) := by
  intro before item after heq
  rcases after.eq_nil_or_concat with rfl | ⟨rest, last, rfl⟩
  · have := (List.append_inj' heq rfl).2
    cases this
  · rw [List.concat_eq_append, ← List.cons_append, ← List.append_assoc] at heq
    exact h before item rest (List.append_inj' heq rfl).1

theorem Placed.concat_turn (h : Placed messages items pieces) {item : HistoryItem}
    (hitem : pieces.flatMap Piece.messages =
      unclaimed items (messages.zipIdx.take item.offset.toNat)) :
    Placed messages items (pieces ++ [.turn item]) := by
  intro before item' after heq
  rcases after.eq_nil_or_concat with rfl | ⟨rest, last, rfl⟩
  · obtain ⟨rfl, hlast⟩ := List.append_inj' heq rfl
    rw [List.cons.injEq, Piece.turn.injEq] at hlast
    exact hlast.1 ▸ hitem
  · rw [List.concat_eq_append, ← List.cons_append, ← List.append_assoc] at heq
    exact h before item' rest (List.append_inj' heq rfl).1

/-- Flushing shows the messages that wait. -/
theorem Lays.flush (h : Lays b messages items n turns pieces pending display) :
    ∃ pieces', Lays b messages items n turns pieces' [] (flushStored b display) := by
  rcases pending with _ | ⟨first, rest⟩
  · refine ⟨pieces, { h with result := ?_, stored := rfl }⟩
    have hstored : display.stored = [] := h.stored
    have hnone : storedEntries b display.storedOffset [] = [] := rfl
    rw [flushStored, hstored, hnone, List.append_nil]
    exact h.result
  · refine ⟨pieces ++ [.stored (first :: rest)], ?_⟩
    exact
      { result := by
          rw [flushStored, h.stored, h.storedOffset first rfl, h.result, showPieces_append]
          exact congrArg _ (List.append_nil _).symm
        requests := by
          rw [List.foldl_append]
          exact h.requests
        stored := rfl
        storedOffset := fun _ hnone => by cases hnone
        shown := by
          rw [List.flatMap_append, ← h.shown]
          simp [Piece.messages]
        turns := by
          rw [List.filterMap_append, h.turns]
          exact List.append_nil _
        placed := h.placed.concat_stored _ }

/-- A run is shown behind the messages before its offset. -/
theorem Lays.showRun (h : Lays b messages items n turns pieces pending display)
    {item : HistoryItem} (hitem : item.offset = (n : Int)) :
    ∃ pieces', Lays b messages items n (turns ++ [item]) pieces' [] (showRun b display item) := by
  obtain ⟨pieces', h'⟩ := h.flush
  refine ⟨pieces' ++ [.turn item], ?_⟩
  have hmessages : pieces'.flatMap Piece.messages = unclaimed items (messages.zipIdx.take n) :=
    (List.append_nil _).symm.trans h'.shown
  exact
    { result := by
        rw [Frontend.showRun, h'.result, h'.requests, showPieces_append]
        exact congrArg _ (List.append_nil _).symm
      requests := by
        rw [List.foldl_append, Frontend.showRun, h'.requests]
        rfl
      stored := h'.stored
      storedOffset := fun _ hnone => by cases hnone
      shown := by
        rw [List.flatMap_append, hmessages, List.append_nil]
        exact List.append_nil _
      turns := by
        rw [List.filterMap_append, h'.turns]
        rfl
      placed := h'.placed.concat_turn (by rw [hmessages, hitem, Int.toNat_natCast]) }

theorem Lays.foldl_showRun {shown : List HistoryItem}
    (h : Lays b messages items n turns pieces pending display)
    (hshown : ∀ item ∈ shown, item.offset = (n : Int)) :
    ∃ pieces' pending', Lays b messages items n (turns ++ shown) pieces' pending'
      (shown.foldl (Frontend.showRun b) display) := by
  induction shown generalizing turns pieces pending display with
  | nil => exact ⟨pieces, pending, (List.append_nil turns).symm ▸ h⟩
  | cons item shown ih =>
    obtain ⟨hitem, hrest⟩ := List.forall_mem_cons.mp hshown
    obtain ⟨pieces', h'⟩ := h.showRun hitem
    rw [← List.singleton_append, ← List.append_assoc]
    exact ih h' hrest

/-- **One index**: its runs are shown, then its message waits, unless a run claims it. -/
theorem Lays.showIndex (h : Lays b messages items n turns pieces pending display) :
    ∃ pieces' pending', Lays b messages items (n + 1)
      (turns ++ items.filter fun item => item.offset = (n : Int)) pieces' pending'
      (showIndex b messages items display n) := by
  have hshown : ∀ item ∈ items.filter fun item => item.offset = (n : Int),
      item.offset = (n : Int) := fun item hitem => of_decide_eq_true (List.mem_filter.mp hitem).2
  obtain ⟨pieces', pending', h'⟩ := h.foldl_showRun hshown
  refine ⟨pieces', ?_⟩
  rw [Frontend.showIndex]
  rcases hmessage : messages[n]? with _ | message
  · have htake : messages.zipIdx.take (n + 1) = messages.zipIdx.take n := by
      rw [List.take_add_one, List.getElem?_zipIdx, hmessage]
      exact List.append_nil _
    exact ⟨pending', { h' with shown := htake ▸ h'.shown }⟩
  · have htake : messages.zipIdx.take (n + 1) = messages.zipIdx.take n ++ [(message, n)] := by
      rw [List.take_add_one, List.getElem?_zipIdx, hmessage]
      simp
    dsimp only
    split_ifs with hclaimed
    · refine ⟨pending', { h' with shown := ?_ }⟩
      have hnone : unclaimed items [(message, n)] = [] := by
        simpa [unclaimed] using hclaimed
      rw [htake, unclaimed_append, hnone, List.append_nil]
      exact h'.shown
    · refine ⟨pending' ++ [(message, n)], { h' with stored := ?_, storedOffset := ?_, shown := ?_ }⟩
      · rw [storeMessage, h'.stored, List.map_append]
        rfl
      · intro first hfirst
        rw [storeMessage, h'.stored]
        rcases pending' with _ | ⟨first', rest⟩
        · obtain rfl := Option.some.inj hfirst
          rfl
        · obtain rfl := Option.some.inj hfirst
          exact h'.storedOffset _ rfl
      · have hsome : unclaimed items [(message, n)] = [(message, n)] := by
          simpa [unclaimed] using hclaimed
        rw [htake, unclaimed_append, hsome, ← List.append_assoc, h'.shown]

theorem lays_range (n : Nat) :
    ∃ pieces pending, Lays b messages items n
      ((List.range n).flatMap fun i : Nat => items.filter fun item => item.offset = (i : Int))
      pieces pending ((List.range n).foldl (Frontend.showIndex b messages items) {}) := by
  induction n with
  | zero =>
    have hplaced : Placed messages items [] := fun before item after heq => by simp at heq
    have hoffset : ∀ first : Content × Nat, [].head? = some first → (0 : Nat) = first.2 :=
      fun _ hnone => by cases hnone
    exact ⟨[], [], rfl, rfl, rfl, hoffset, rfl, rfl, hplaced⟩
  | succ n ih =>
    obtain ⟨pieces, pending, h⟩ := ih
    rw [List.range_succ, List.flatMap_append, List.foldl_append, List.flatMap_singleton]
    exact h.showIndex

/-- Every run with an offset below the bound is shown once. -/
theorem flatMap_offset_perm (items : List HistoryItem) (n : Nat) :
    ((List.range n).flatMap fun i : Nat => items.filter fun item => item.offset = (i : Int)).Perm
      (items.filter fun item => 0 ≤ item.offset ∧ item.offset < (n : Int)) := by
  induction n with
  | zero =>
    have : items.filter (fun item => decide (0 ≤ item.offset ∧ item.offset < ((0 : Nat) : Int))) =
        [] := List.filter_eq_nil_iff.mpr fun item _ => by
      rw [decide_eq_true_eq]
      omega
    rw [this]
    exact .nil
  | succ n ih =>
    rw [List.range_succ, List.flatMap_append, List.flatMap_singleton]
    refine (ih.append_right _).trans ?_
    have hbelow : items.filter (fun item => 0 ≤ item.offset ∧ item.offset < (n : Int)) =
        (items.filter fun item => 0 ≤ item.offset ∧ item.offset < ((n + 1 : Nat) : Int)).filter
          fun item => item.offset < (n : Int) := by
      rw [List.filter_filter]
      refine List.filter_congr fun item _ => ?_
      rw [Bool.eq_iff_iff]
      simp only [Bool.and_eq_true, decide_eq_true_eq]
      omega
    have hat : items.filter (fun item => item.offset = (n : Int)) =
        (items.filter fun item => 0 ≤ item.offset ∧ item.offset < ((n + 1 : Nat) : Int)).filter
          fun item => !decide (item.offset < (n : Int)) := by
      rw [List.filter_filter]
      refine List.filter_congr fun item _ => ?_
      rw [Bool.eq_iff_iff]
      simp only [Bool.and_eq_true, Bool.not_eq_true', decide_eq_false_iff_not, decide_eq_true_eq]
      omega
    rw [hbelow, hat]
    exact List.filter_append_perm _ _

end Pieces

/-! ### The partition -/

/-- **The history is a partition.** Every run of the current generation is shown once, at its
offset among the messages; every message that no run claims is shown once, in stored order, and no
other; and runs without recorded indices claim only messages equal to their own, each only once. -/
theorem restoreChatHistory_partition (b : Browser) (context : Context) (runs : List Run) :
    ((historyItems b context runs).map (·.run)).Perm (runs.filter (isCurrent b context)) ∧
      (∀ item ∈ historyItems b context runs, Claims b context.messages item) ∧
      (historyItems b context runs).Pairwise (fun item item' =>
        item.run.messageIndices = none → item'.run.messageIndices = none →
          item.indices.Disjoint item'.indices) ∧
      (historyItems b context runs).IsChain (fun item next =>
        item.interrupted = true → item.offset = next.offset) ∧
      (∀ item ∈ (historyItems b context runs).getLast?,
        item.interrupted = true → item.offset = context.messages.length) ∧
      ∃ pieces : List Piece,
        restoreChatHistory b context runs = showPieces b [] pieces ∧
        (pieces.filterMap Piece.item?).Perm (historyItems b context runs) ∧
        pieces.flatMap Piece.messages =
          unclaimed (historyItems b context runs) context.messages.zipIdx ∧
        Placed context.messages (historyItems b context runs) pieces := by
  obtain ⟨sorted, hsorted, hperm⟩ : ∃ sorted : List Run,
      historyItems b context runs = placeInterrupted (claimTurns b context.messages 0
        (sorted.map (historyItem context.messages))) ∧
      sorted.Perm (runs.filter (isCurrent b context)) := by
    refine ⟨(((runs.filter (isCurrent b context)).map (historyItem context.messages)).mergeSort
      fun item item' => b.localeCompare (runHistoryTime item.run)
        (runHistoryTime item'.run) ≤ 0).map (·.run), ?_, ?_⟩
    · rw [historyItems, List.map_map]
      congr 2
      refine (List.map_id _).symm.trans (List.map_congr_left fun item hitem => ?_)
      have hmem := (List.mergeSort_perm _ _).mem_iff.mp hitem
      obtain ⟨run, -, rfl⟩ := List.mem_map.mp hmem
      rfl
    · refine ((List.mergeSort_perm _ _).map _).trans ?_
      rw [List.map_map]
      exact .of_eq (List.map_id _)
  have hclaims : ∀ item ∈ historyItems b context runs, Claims b context.messages item := by
    rw [hsorted]
    refine forall_placeInterrupted (claims_claimTurns 0 sorted) ?_
    intro item next hinterrupted hitem hnext
    rw [HistoryItem.interrupted, Bool.and_eq_true, List.isEmpty_iff,
      Option.isNone_iff_eq_none] at hinterrupted
    exact
      { recorded := hitem.recorded
        legacy := hitem.legacy
        first := fun first hfirst => by
          dsimp only at hfirst
          rw [hinterrupted.1] at hfirst
          cases hfirst
        clamped := fun _ offset hoffset => by
          dsimp only at hoffset
          rw [hinterrupted.2] at hoffset
          cases hoffset
        nonneg := hnext.nonneg
        le_length := hnext.le_length }
  refine ⟨?_, hclaims, ?_, hsorted ▸ isChain_placeInterrupted _, ?_, ?_⟩
  · rw [hsorted, map_placeInterrupted _ (fun _ _ => rfl), map_run_claimTurns, List.map_map]
    exact (List.Perm.of_eq (List.map_id _)).trans hperm
  · have hmap := map_placeInterrupted (fun item => (item.run, item.indices)) (fun _ _ => rfl)
      (claimTurns b context.messages 0 (sorted.map (historyItem context.messages)))
    have hpairs : ((claimTurns b context.messages 0 (sorted.map (historyItem
        context.messages))).map fun item => (item.run, item.indices)).Pairwise fun p p' =>
          p.1.messageIndices = none → p'.1.messageIndices = none → p.2.Disjoint p'.2 :=
      List.pairwise_map.mpr (pairwise_claimTurns 0 sorted)
    rw [← hmap] at hpairs
    rw [hsorted]
    exact List.pairwise_map.mp hpairs
  · intro item hitem hinterrupted
    rw [hsorted, getLast?_placeInterrupted] at hitem
    exact offset_of_interrupted (List.mem_of_getLast? hitem) hinterrupted
  · obtain ⟨pieces, pending, h⟩ := @lays_range b context.messages (historyItems b context runs)
      (context.messages.length + 1)
    obtain ⟨pieces', h'⟩ := h.flush
    refine ⟨pieces', h'.result, ?_, ?_, h'.placed⟩
    · rw [h'.turns]
      refine (flatMap_offset_perm _ _).trans (.of_eq (List.filter_eq_self.mpr fun item hitem => ?_))
      have hnonneg := (hclaims item hitem).nonneg
      have hle := (hclaims item hitem).le_length
      rw [decide_eq_true_eq]
      omega
    · have hmessages := h'.shown
      rwa [List.append_nil, List.take_of_length_le (by simp)] at hmessages

end EvernightAI.Frontend

import EvernightAI.Schema.Content
import Mathlib.Data.List.Basic
import Mathlib.Data.List.Infix
import Mathlib.Data.List.Perm.Subperm
import Mathlib.Data.List.TakeWhile

/-!
# The context organizer and message groups

`ContextOrganizer` reduces a message list to its active messages and then to the ones a provider
accepts: a `TOOL` message is legal only in the block behind the assistant message that called it,
and an assistant message with calls needs one result for each call. `_message_groups` later cuts
such a list into the units the strategies keep or drop.

* `ToolSafe` is what the organizer establishes: the list is a row of plain messages and complete
  tool rounds.
* `ToolSafe.messageGroups` says that the groups of a safe list are exactly these units, so any
  choice of groups is safe again.
* `ToolSafe.tool_behind_assistant` and `ToolSafe.assistant_answered` read the two protocol rules
  off by position.
-/

namespace EvernightAI

/-- A message object; `object` is its `id()`. The strategies protect messages by identity and
never copy one. -/
structure Message where
  object : Nat
  content : Content
  deriving DecidableEq, Repr

namespace Message

def role (m : Message) : MessageRole := m.content.role

/-- `message.tool_calls or []` -/
def toolCalls (m : Message) : List ToolCall := m.content.toolCalls.getD []

/-- The ids of the calls, in order. -/
def callIds (m : Message) : List String := m.toolCalls.map (·.toolCallId)

/-- `message.status in {None, MessageStatus.ACTIVE}` -/
def isActive (m : Message) : Bool :=
  m.content.status = none || m.content.status = some .active

/-- `message.role is MessageRole.ASSISTANT and message.tool_calls` -/
def callsTools (m : Message) : Bool := m.role = .assistant && !m.toolCalls.isEmpty

/-- The message is a result for one of the calls `expected`. -/
def answers (expected : List String) (m : Message) : Bool :=
  m.role = .tool && m.content.toolCallId.any fun callId => expected.contains callId

/-- A message that is neither a tool result nor an assistant message with calls. -/
def IsPlain (m : Message) : Prop := m.role ≠ .tool ∧ m.callsTools = false

end Message

/-! ### The organizer -/

/-- `_following_tool_messages`: the results directly behind an assistant message, up to the first
message that is no result for an expected call, or repeats one. -/
def followingToolMessages (expected : List String) : List String → List Message → List Message
  | _, [] => []
  | seen, m :: rest =>
    if m.role ≠ .tool then []
    else
      match m.content.toolCallId with
      | none => []
      | some callId =>
        if callId ∉ expected then []
        else if callId ∈ seen then []
        -- `seen_ids == expected_ids`; the other inclusion holds all along
        else if expected.all fun e => e ∈ callId :: seen then [m]
        else m :: followingToolMessages expected (callId :: seen) rest

/-- `_tool_protocol_safe_messages`. `skip` is how far the loop's index is ahead. -/
def toolProtocolSafeMessages : Nat → List Message → List Message
  | _, [] => []
  | skip + 1, _ :: rest => toolProtocolSafeMessages skip rest
  | 0, m :: rest =>
    if m.role = .tool then toolProtocolSafeMessages 0 rest
    else if m.callsTools then
      let toolMessages := followingToolMessages m.callIds [] rest
      if toolMessages.length = m.toolCalls.length then
        m :: toolMessages ++ toolProtocolSafeMessages toolMessages.length rest
      else toolProtocolSafeMessages toolMessages.length rest
    else m :: toolProtocolSafeMessages 0 rest

/-- `_active_messages` -/
def activeMessages (messages : List Message) : List Message :=
  toolProtocolSafeMessages 0 (messages.filter Message.isActive)

/-- `_message_groups`: an assistant message with calls takes the results behind it along. -/
def messageGroups : Nat → List Message → List (List Message)
  | _, [] => []
  | skip + 1, _ :: rest => messageGroups skip rest
  | 0, m :: rest =>
    let results := if m.callsTools then rest.takeWhile (Message.answers m.callIds) else []
    (m :: results) :: messageGroups results.length rest

theorem toolProtocolSafeMessages_skip (skip : Nat) (messages : List Message) :
    toolProtocolSafeMessages skip messages = toolProtocolSafeMessages 0 (messages.drop skip) := by
  induction messages generalizing skip with
  | nil => cases skip <;> rfl
  | cons m rest ih =>
    cases skip with
    | zero => rfl
    | succ skip => simpa [toolProtocolSafeMessages] using ih skip

theorem messageGroups_skip (skip : Nat) (messages : List Message) :
    messageGroups skip messages = messageGroups 0 (messages.drop skip) := by
  induction messages generalizing skip with
  | nil => cases skip <;> rfl
  | cons m rest ih =>
    cases skip with
    | zero => rfl
    | succ skip => simpa [messageGroups] using ih skip

/-! ### Tool rounds -/

/-- One unit of a safe list: a plain message, or an assistant message with calls and exactly one
result for each call. -/
inductive IsRound : List Message → Prop
  | plain (m : Message) (h : m.IsPlain) : IsRound [m]
  | tools (m : Message) (results : List Message) (calls : m.callsTools = true)
      (tool : ∀ r ∈ results, r.role = .tool)
      (answered : (results.map (·.content.toolCallId)).Perm (m.callIds.map some)) :
      IsRound (m :: results)

/-- A row of plain messages and complete tool rounds. -/
def ToolSafe (messages : List Message) : Prop :=
  ∃ rounds : List (List Message), rounds.flatten = messages ∧ ∀ r ∈ rounds, IsRound r

namespace ToolSafe

theorem nil : ToolSafe [] := ⟨[], rfl, by simp⟩

theorem append {l₁ l₂ : List Message} (h₁ : ToolSafe l₁) (h₂ : ToolSafe l₂) :
    ToolSafe (l₁ ++ l₂) := by
  obtain ⟨r₁, rfl, h₁⟩ := h₁
  obtain ⟨r₂, rfl, h₂⟩ := h₂
  refine ⟨r₁ ++ r₂, by simp, fun r hr => ?_⟩
  rcases List.mem_append.mp hr with hr | hr
  · exact h₁ r hr
  · exact h₂ r hr

theorem of_round {r : List Message} (h : IsRound r) : ToolSafe r :=
  ⟨[r], by simp, by simpa using h⟩

theorem cons_plain {m : Message} {l : List Message} (hm : m.IsPlain) (hl : ToolSafe l) :
    ToolSafe (m :: l) :=
  (of_round (.plain m hm)).append hl

theorem of_plain {l : List Message} (h : ∀ m ∈ l, m.IsPlain) : ToolSafe l := by
  induction l with
  | nil => exact nil
  | cons m l ih =>
    exact cons_plain (h m (by simp)) (ih fun m' hm' => h m' (by simp [hm']))

theorem flatten {rounds : List (List Message)} (h : ∀ r ∈ rounds, IsRound r) :
    ToolSafe rounds.flatten := ⟨rounds, rfl, h⟩

end ToolSafe

/-- The results the organizer collects are distinct results for expected calls. -/
theorem followingToolMessages_spec (expected seen : List String) (messages : List Message) :
    let results := followingToolMessages expected seen messages
    (∀ r ∈ results, r.role = .tool) ∧
      ∃ ids : List String, results.map (·.content.toolCallId) = ids.map some ∧ ids.Nodup ∧
        ∀ i ∈ ids, i ∈ expected ∧ i ∉ seen := by
  induction messages generalizing seen with
  | nil => exact ⟨by simp [followingToolMessages], [], by simp [followingToolMessages]⟩
  | cons m rest ih =>
    have empty : ∃ ids : List String, ([] : List (Option String)) = ids.map some ∧ ids.Nodup ∧
        ∀ i ∈ ids, i ∈ expected ∧ i ∉ seen := ⟨[], by simp⟩
    rw [followingToolMessages]
    split_ifs with hrole
    · exact ⟨by simp, empty⟩
    · have htool : m.role = .tool := by simpa using hrole
      rcases hid : m.content.toolCallId with _ | callId
      · exact ⟨by simp, empty⟩
      · dsimp only
        split_ifs with hexp hseen hall
        · exact ⟨by simp, empty⟩
        · refine ⟨by simp [htool], [callId], by simp [hid], by simp, ?_⟩
          simpa using ⟨hexp, hseen⟩
        · obtain ⟨hrest, ids, hids, hnodup, hmem⟩ := ih (callId :: seen)
          have hfresh : callId ∉ ids := fun h => (hmem callId h).2 (by simp)
          refine ⟨by simpa [htool] using hrest, callId :: ids, by simp [hid, hids],
            List.nodup_cons.mpr ⟨hfresh, hnodup⟩, fun i hi => ?_⟩
          rcases List.mem_cons.mp hi with rfl | hi
          · exact ⟨hexp, hseen⟩
          · exact ⟨(hmem i hi).1, fun h => (hmem i hi).2 (by simp [h])⟩
        · exact ⟨by simp, empty⟩

/-- As many results as calls means one for each call. -/
theorem followingToolMessages_perm {m : Message} {messages : List Message}
    (h : (followingToolMessages m.callIds [] messages).length = m.toolCalls.length) :
    ((followingToolMessages m.callIds [] messages).map (·.content.toolCallId)).Perm
      (m.callIds.map some) := by
  obtain ⟨-, ids, hids, hnodup, hmem⟩ := followingToolMessages_spec m.callIds [] messages
  have hlen : ids.length = m.callIds.length := by
    have := congrArg List.length hids
    simp only [List.length_map] at this
    rw [← this, h, Message.callIds, List.length_map]
  have hsub : ids.Subperm m.callIds :=
    List.subperm_of_subset hnodup fun i hi => (hmem i hi).1
  have hperm : ids.Perm m.callIds := hsub.perm_of_length_le hlen.ge
  rw [hids]
  exact hperm.map some

/-- The organizer keeps plain messages and complete tool rounds only. -/
theorem toolSafe_toolProtocolSafeMessages (messages : List Message) :
    ToolSafe (toolProtocolSafeMessages 0 messages) := by
  induction hn : messages.length using Nat.strong_induction_on generalizing messages with
  | _ n ih =>
    cases messages with
    | nil => exact .nil
    | cons m rest =>
      have smaller : ∀ k, ToolSafe (toolProtocolSafeMessages k rest) := fun k => by
        rw [toolProtocolSafeMessages_skip]
        refine ih (rest.drop k).length ?_ _ rfl
        simp only [List.length_drop, List.length_cons] at hn ⊢
        omega
      rw [toolProtocolSafeMessages]
      split_ifs with htool hcalls
      · exact smaller 0
      · dsimp only
        split_ifs with hlen
        · refine ToolSafe.append (.of_round ?_) (smaller _)
          exact .tools m _ hcalls (followingToolMessages_spec m.callIds [] rest).1
            (followingToolMessages_perm hlen)
        · exact smaller _
      · exact (smaller 0).cons_plain ⟨htool, by simpa using hcalls⟩

theorem toolSafe_activeMessages (messages : List Message) : ToolSafe (activeMessages messages) :=
  toolSafe_toolProtocolSafeMessages _

/-- The results collected behind an assistant message are the next messages of the list. -/
theorem followingToolMessages_isPrefix (expected seen : List String) (messages : List Message) :
    followingToolMessages expected seen messages <+: messages := by
  induction messages generalizing seen with
  | nil => simp [followingToolMessages]
  | cons m rest ih =>
    rw [followingToolMessages]
    split_ifs with hrole
    · exact List.nil_prefix
    · rcases m.content.toolCallId with _ | callId
      · exact List.nil_prefix
      · dsimp only
        split_ifs
        · exact List.nil_prefix
        · simp
        · simpa using ih (callId :: seen)
        · exact List.nil_prefix

/-- The organizer drops messages and never moves one. -/
theorem toolProtocolSafeMessages_sublist (messages : List Message) :
    (toolProtocolSafeMessages 0 messages).Sublist messages := by
  induction hn : messages.length using Nat.strong_induction_on generalizing messages with
  | _ n ih =>
    cases messages with
    | nil => exact List.Sublist.refl _
    | cons m rest =>
      have smaller : ∀ k, (toolProtocolSafeMessages k rest).Sublist (rest.drop k) := fun k => by
        rw [toolProtocolSafeMessages_skip]
        refine ih (rest.drop k).length ?_ _ rfl
        simp only [List.length_drop, List.length_cons] at hn ⊢
        omega
      rw [toolProtocolSafeMessages]
      split_ifs with htool hcalls
      · exact (smaller 0).cons m
      · dsimp only
        have hsplit := List.prefix_iff_eq_append.mp
          (followingToolMessages_isPrefix m.callIds [] rest)
        split_ifs with hlen
        · have happ := (List.Sublist.refl (followingToolMessages m.callIds [] rest)).append
            (smaller (followingToolMessages m.callIds [] rest).length)
          rw [hsplit] at happ
          exact happ.cons_cons m
        · exact ((smaller _).trans (List.drop_sublist _ _)).cons m
      · exact (smaller 0).cons_cons m

theorem activeMessages_sublist (messages : List Message) :
    (activeMessages messages).Sublist messages :=
  (toolProtocolSafeMessages_sublist _).trans List.filter_sublist

theorem isActive_of_mem_activeMessages {m : Message} {messages : List Message}
    (h : m ∈ activeMessages messages) : m.isActive :=
  (List.mem_filter.mp ((toolProtocolSafeMessages_sublist _).subset h)).2

/-! ### Message groups -/

/-- Grouping loses, duplicates and reorders nothing. -/
theorem messageGroups_flatten (messages : List Message) :
    (messageGroups 0 messages).flatten = messages := by
  induction hn : messages.length using Nat.strong_induction_on generalizing messages with
  | _ n ih =>
    cases messages with
    | nil => rfl
    | cons m rest =>
      rw [messageGroups]
      split_ifs with hcalls
      · have hle : (rest.drop (rest.takeWhile (Message.answers m.callIds)).length).length < n := by
          simp only [List.length_drop, List.length_cons] at hn ⊢
          omega
        rw [messageGroups_skip, List.flatten_cons, ih _ hle _ rfl]
        have hpre := List.takeWhile_prefix (l := rest) (Message.answers m.callIds)
        rw [List.cons_append, List.prefix_iff_eq_append.mp hpre]
      · rw [List.length_nil, List.flatten_cons, ih rest.length (by simp at hn; omega) rest rfl]
        rfl

theorem ne_nil_of_mem_messageGroups {g : List Message} {messages : List Message}
    (h : g ∈ messageGroups 0 messages) : g ≠ [] := by
  induction hn : messages.length using Nat.strong_induction_on generalizing messages with
  | _ n ih =>
    cases messages with
    | nil => simp [messageGroups] at h
    | cons m rest =>
      rw [messageGroups] at h
      rcases List.mem_cons.mp h with rfl | h
      · simp
      · rw [messageGroups_skip] at h
        refine ih _ ?_ h rfl
        simp only [List.length_drop, List.length_cons] at hn ⊢
        omega

/-- A round in front of a list is its first group when the list does not go on with one more
result. -/
theorem messageGroups_round {r tail : List Message} (hr : IsRound r)
    (htail : ∀ m ∈ tail.head?, m.role ≠ .tool) :
    messageGroups 0 (r ++ tail) = r :: messageGroups 0 tail := by
  cases hr with
  | plain m h => simp [messageGroups, h.2]
  | tools m results calls tool answered =>
    have hall : ∀ x ∈ results, Message.answers m.callIds x = true := fun x hx => by
      have hmem : x.content.toolCallId ∈ m.callIds.map some :=
        answered.subset (List.mem_map_of_mem hx)
      obtain ⟨callId, hcall, hx'⟩ := List.mem_map.mp hmem
      simp [Message.answers, tool x hx, ← hx', hcall]
    have hstop : tail.takeWhile (Message.answers m.callIds) = [] := by
      cases tail with
      | nil => rfl
      | cons x tail =>
        have hx : x.role ≠ .tool := htail x (by simp)
        simp [Message.answers, hx]
    have htake : (results ++ tail).takeWhile (Message.answers m.callIds) = results := by
      rw [List.takeWhile_append_of_pos hall, hstop, List.append_nil]
    rw [List.cons_append, messageGroups]
    simp only [calls, if_true, htake]
    rw [messageGroups_skip, List.drop_left]

/-- Every round begins with a message that is no tool result. -/
theorem IsRound.head {r : List Message} (h : IsRound r) :
    ∃ m rest, r = m :: rest ∧ m.role ≠ .tool := by
  cases h with
  | plain m h => exact ⟨m, [], rfl, h.1⟩
  | tools m results calls =>
    refine ⟨m, results, rfl, fun htool => ?_⟩
    simp [Message.callsTools, htool] at calls

theorem head_flatten_ne_tool {rounds : List (List Message)} (h : ∀ r ∈ rounds, IsRound r) :
    ∀ m ∈ rounds.flatten.head?, m.role ≠ .tool := by
  cases rounds with
  | nil => simp
  | cons r rounds =>
    obtain ⟨m, rest, rfl, hm⟩ := (h r (by simp)).head
    simpa using hm

/-- The groups of a row of rounds are the rounds. -/
theorem messageGroups_rounds {rounds : List (List Message)} (h : ∀ r ∈ rounds, IsRound r) :
    messageGroups 0 rounds.flatten = rounds := by
  induction rounds with
  | nil => rfl
  | cons r rounds ih =>
    have hrounds : ∀ r ∈ rounds, IsRound r := fun r' hr' => h r' (by simp [hr'])
    rw [List.flatten_cons, messageGroups_round (h r (by simp)) (head_flatten_ne_tool hrounds),
      ih hrounds]

namespace ToolSafe

theorem messageGroups {messages : List Message} (h : ToolSafe messages) :
    ∀ g ∈ messageGroups 0 messages, IsRound g := by
  obtain ⟨rounds, rfl, hrounds⟩ := h
  rwa [messageGroups_rounds hrounds]

/-- Groups of a safe list and of another one behind it do not grow together. -/
theorem messageGroups_append {l₁ l₂ : List Message} (h₁ : ToolSafe l₁) (h₂ : ToolSafe l₂) :
    EvernightAI.messageGroups 0 (l₁ ++ l₂) =
      EvernightAI.messageGroups 0 l₁ ++ EvernightAI.messageGroups 0 l₂ := by
  obtain ⟨r₁, rfl, h₁⟩ := h₁
  obtain ⟨r₂, rfl, h₂⟩ := h₂
  rw [← List.flatten_append, messageGroups_rounds h₁, messageGroups_rounds h₂,
    messageGroups_rounds fun r hr => (List.mem_append.mp hr).elim (h₁ r) (h₂ r)]

/-- Any choice of groups of a safe list is safe. -/
theorem of_sublist_groups {messages : List Message} {groups : List (List Message)}
    (h : ToolSafe messages) (hsub : groups.Sublist (EvernightAI.messageGroups 0 messages)) :
    ToolSafe groups.flatten :=
  .flatten fun g hg => h.messageGroups g (hsub.subset hg)

/-- Dropping plain messages at the front keeps a list safe. -/
theorem of_cons_plain {m : Message} {l : List Message} (hm : m.IsPlain) (h : ToolSafe (m :: l)) :
    ToolSafe l := by
  obtain ⟨rounds, heq, hrounds⟩ := h
  cases rounds with
  | nil => simp at heq
  | cons r rounds =>
    have htail : ∀ r ∈ rounds, IsRound r := fun r' hr' => hrounds r' (by simp [hr'])
    cases hrounds r (by simp) with
    | plain m' h' =>
      obtain ⟨-, rfl⟩ : m' = m ∧ rounds.flatten = l := by simpa using heq
      exact .flatten htail
    | tools m' results calls tool answered =>
      have hm' : m' = m := by
        rw [List.flatten_cons, List.cons_append] at heq
        exact (List.cons.inj heq).1
      rw [hm', hm.2] at calls
      exact absurd calls (by simp)

theorem of_append_plain {l₁ l₂ : List Message} (h₁ : ∀ m ∈ l₁, m.IsPlain)
    (h : ToolSafe (l₁ ++ l₂)) : ToolSafe l₂ := by
  induction l₁ with
  | nil => exact h
  | cons m l₁ ih =>
    exact ih (fun m' hm' => h₁ m' (by simp [hm'])) (h.of_cons_plain (h₁ m (by simp)))

/-! ### The protocol by position -/

/-- A tool result stands in the block behind an assistant message that made its call. -/
theorem tool_behind_assistant {messages before behind : List Message} {t : Message}
    (h : ToolSafe messages) (heq : messages = before ++ t :: behind) (ht : t.role = .tool) :
    ∃ (front block : List Message) (a : Message), before = front ++ a :: block ∧
      a.callsTools = true ∧ (∀ r ∈ block, r.role = .tool) ∧
      t.content.toolCallId ∈ a.callIds.map some := by
  obtain ⟨rounds, rfl, hrounds⟩ := h
  induction rounds generalizing before with
  | nil => simp at heq
  | cons r rounds ih =>
    have htail : ∀ r ∈ rounds, IsRound r := fun r' hr' => hrounds r' (by simp [hr'])
    rw [List.flatten_cons] at heq
    rcases List.append_eq_append_iff.mp heq with ⟨mid, rfl, hmid⟩ | ⟨mid, hr, hmid⟩
    -- behind the first round
    · obtain ⟨front, block, a, rfl, ha⟩ := ih htail hmid
      exact ⟨r ++ front, block, a, by simp, ha⟩
    · cases mid with
      -- at the border the next round would begin with a result
      | nil =>
        have := head_flatten_ne_tool htail t (by simp at hmid; simp [← hmid])
        exact absurd ht this
      -- inside the first round
      | cons t' mid =>
        obtain ⟨rfl, -⟩ : t = t' ∧ behind = mid ++ rounds.flatten := by simpa using hmid
        have hround := hrounds r (by simp)
        rw [hr] at hround
        cases before with
        | nil =>
          obtain ⟨m, rest, hm, hne⟩ := hround.head
          obtain ⟨rfl, -⟩ : t = m ∧ mid = rest := by simpa using hm
          exact absurd ht hne
        | cons a block =>
          rw [List.cons_append] at hround
          generalize hresults : block ++ t :: mid = results at hround
          cases hround with
          | plain m h' => simp at hresults
          | tools m results calls tool answered =>
            subst hresults
            refine ⟨[], block, a, rfl, calls, fun r hr => tool r (by simp [hr]), ?_⟩
            exact answered.subset (by simp)

/-- The block behind an assistant message with calls holds one result for each call. -/
theorem assistant_answered {messages before behind : List Message} {a : Message}
    (h : ToolSafe messages) (heq : messages = before ++ a :: behind) (ha : a.callsTools = true) :
    ((behind.takeWhile fun m => m.role = .tool).map (·.content.toolCallId)).Perm
      (a.callIds.map some) := by
  obtain ⟨rounds, rfl, hrounds⟩ := h
  have hnot : a.role ≠ .tool := fun htool => by simp [Message.callsTools, htool] at ha
  induction rounds generalizing before with
  | nil => simp at heq
  | cons r rounds ih =>
    have htail : ∀ r ∈ rounds, IsRound r := fun r' hr' => hrounds r' (by simp [hr'])
    rw [List.flatten_cons] at heq
    rcases List.append_eq_append_iff.mp heq with ⟨mid, rfl, hmid⟩ | ⟨mid, hr, hmid⟩
    · exact ih htail hmid
    · cases mid with
      | nil => exact ih htail (by simpa using hmid.symm : _ = [] ++ a :: behind)
      | cons a' mid =>
        obtain ⟨rfl, rfl⟩ : a = a' ∧ behind = mid ++ rounds.flatten := by simpa using hmid
        have hround := hrounds r (by simp)
        rw [hr] at hround
        have hstop : rounds.flatten.takeWhile (fun m => decide (m.role = .tool)) = [] := by
          have := head_flatten_ne_tool htail
          cases hflat : rounds.flatten with
          | nil => rfl
          | cons x xs => simpa [hflat] using this
        cases before with
        | nil =>
          rw [List.nil_append] at hround
          cases hround with
          | plain m h' => rw [h'.2] at ha; exact absurd ha (by simp)
          | tools m results calls tool answered =>
            rw [List.takeWhile_append_of_pos (by simpa using tool), hstop, List.append_nil]
            exact answered
        | cons b before =>
          rw [List.cons_append] at hround
          generalize hresults : before ++ a :: mid = results at hround
          cases hround with
          | plain m h' => simp at hresults
          | tools m results calls tool answered =>
            subst hresults
            exact absurd (tool a (by simp)) hnot

end ToolSafe

end EvernightAI

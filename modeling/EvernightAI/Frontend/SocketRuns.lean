import EvernightAI.Frontend.SocketClient

/-!
# Runs of the socket client

`Delivered` is kept by every step. What else is kept rests on `Agrees`: the subscriptions are what
the caller wants, each with the largest sequence; what is pending for a run agrees with what is
wanted; and an open connection has everything that was said.

* `kept_of_run` : in a run whose steps meet `Keeps` the subscriptions of the caller are kept.
* `resubscribed_offline_is_unsubscribed` : a run that is unsubscribed and subscribed again while the
  socket is closed is unsubscribed by the message that is still pending.
-/

namespace EvernightAI.SocketClient

open TransitionSystem

variable {s u : Client} {log : List Event} {e : Event} {m : Message} {runId : String}

/-! ### The log -/

theorem last_append {α β : Type} (f : α → Option β) (l l' : List α) :
    last f (l ++ l') = (last f l').or (last f l) := by
  rw [last, List.filterMap_append, List.getLast?_append]
  rfl

theorem last_concat {α β : Type} (f : α → Option β) (l : List α) (a : α) :
    last f (l ++ [a]) = (f a).or (last f l) := by
  have hone : last f [a] = f a := by
    rw [last]
    cases hfa : f a with
    | none => rw [List.filterMap_cons_none hfa]; rfl
    | some b => rw [List.filterMap_cons_some hfa]; rfl
  rw [last_append, hone]

theorem wanted_concat :
    Wanted (log ++ [e]) runId ↔ (e.wants runId).or (last (Event.wants runId) log) = some true := by
  rw [Wanted, last_concat]

theorem wanted_concat_of_none (h : e.wants runId = none) :
    Wanted (log ++ [e]) runId ↔ Wanted log runId := by
  rw [wanted_concat, h, Option.none_or, Wanted]

theorem wanted_concat_of_some {b : Bool} (h : e.wants runId = some b) :
    Wanted (log ++ [e]) runId ↔ b = true := by
  rw [wanted_concat, h, Option.some_or, Option.some.injEq]

theorem largest_concat : largest (log ++ [e]) runId = e.raise runId (largest log runId) := by
  rw [largest, List.foldl_append]
  rfl

theorem largest_nonneg (log : List Event) (runId : String) : 0 ≤ largest log runId := by
  induction log using List.reverseRecOn with
  | nil => exact Int.le_refl 0
  | append_singleton log e ih =>
    rw [largest_concat]
    rw [Event.raise.eq_def]
    split
    · split
      · omega
      · exact ih
    · split
      · exact Int.le_refl 0
      · exact ih
    · split
      · omega
      · exact ih
    · split
      · omega
      · exact ih
    · exact ih

/-- Messages that are sent say nothing about what is wanted and which sequences are known. -/
theorem wanted_append_sent (c : ℕ) (messages : List Message) :
    Wanted (log ++ messages.map (.sent c)) runId ↔ Wanted log runId := by
  have hnone : last (Event.wants runId) (messages.map (.sent c)) = none := by
    have hnil : (messages.map (Event.sent c)).filterMap (Event.wants runId) = [] := by
      rw [List.filterMap_eq_nil_iff]
      intro event hevent
      obtain ⟨message, -, rfl⟩ := List.mem_map.mp hevent
      rfl
    rw [last, hnil]
    rfl
  rw [Wanted, Wanted, last_append, hnone, Option.none_or]

theorem largest_append_sent (c : ℕ) (messages : List Message) :
    largest (log ++ messages.map (.sent c)) runId = largest log runId := by
  induction messages using List.reverseRecOn with
  | nil => rw [List.map_nil, List.append_nil]
  | append_singleton messages message ih =>
    rw [List.map_append, ← List.append_assoc, List.map_singleton, largest_concat, ← ih]
    rfl

theorem filterMap_on_concat (c : ℕ) :
    (log ++ [e]).filterMap (Event.on? c) = log.filterMap (Event.on? c) ++ (e.on? c).toList := by
  rw [List.filterMap_append]
  cases hc : e.on? c with
  | none => rw [List.filterMap_cons_none hc]; rfl
  | some m => rw [List.filterMap_cons_some hc]; rfl

theorem filterMap_on_concat_of_none {c : ℕ} (h : e.on? c = none) :
    (log ++ [e]).filterMap (Event.on? c) = log.filterMap (Event.on? c) := by
  rw [filterMap_on_concat, h, Option.toList_none, List.append_nil]

theorem filterMap_on_map_sent (c : ℕ) (messages : List Message) :
    (messages.map (Event.sent c)).filterMap (Event.on? c) = messages := by
  induction messages with
  | nil => rfl
  | cons message messages ih =>
    have hon : Event.on? c (.sent c message) = some message := if_pos rfl
    rw [List.map_cons, List.filterMap_cons_some hon, ih]

theorem filterMap_on_map_sent_of_ne {c c' : ℕ} (h : c ≠ c') (messages : List Message) :
    (messages.map (Event.sent c)).filterMap (Event.on? c') = [] := by
  rw [List.filterMap_eq_nil_iff]
  intro event hevent
  obtain ⟨message, -, rfl⟩ := List.mem_map.mp hevent
  exact if_neg h

theorem carried_nil : Carried [] := fun before _ _ _ _ after he =>
  absurd he.symm (List.append_ne_nil_of_right_ne_nil before (List.cons_ne_nil _ after))

/-- What is added to the log may be a subscription with the largest sequence. -/
theorem Carried.concat (h : Carried log)
    (he : ∀ c id run n, e = .sent c ⟨id, .subscribe run n⟩ → n = largest log run) :
    Carried (log ++ [e]) := by
  intro before c id run n after hlog
  cases after using List.reverseRecOn with
  | nil =>
    obtain ⟨rfl, hsame⟩ := List.append_inj' hlog rfl
    exact he c id run n (List.singleton_inj.mp hsame)
  | append_singleton after last _ =>
    rw [← List.cons_append, ← List.append_assoc] at hlog
    obtain ⟨rfl, -⟩ := List.append_inj' hlog rfl
    exact h before c id run n after rfl

theorem Carried.append_sent (h : Carried log) {c : ℕ} {messages : List Message}
    (hm : ∀ m ∈ messages, ∀ run n, m.body = .subscribe run n → n = largest log run) :
    Carried (log ++ messages.map (.sent c)) := by
  induction messages using List.reverseRecOn with
  | nil =>
    rw [List.map_nil, List.append_nil]
    exact h
  | append_singleton messages message ih =>
    rw [List.map_append, ← List.append_assoc, List.map_singleton]
    refine (ih fun m hmem => hm m (List.mem_append_left _ hmem)).concat ?_
    intro c' id run n hsent
    rw [Event.sent.injEq] at hsent
    rw [largest_append_sent]
    exact hm message (List.mem_append_right _ List.mem_cons_self) run n (by rw [hsent.2])

/-! ### The invariant -/

/-- The subscriptions are what is wanted, with the largest sequences. -/
structure Aligned (subscriptions : Subscriptions) (log : List Event) : Prop where
  wanted : ∀ runId, (subscriptions.find? runId).isSome ↔ Wanted log runId
  cursor : ∀ runId,
    ((subscriptions.find? runId).map Prod.snd).getD 0 = largest log runId

structure Agrees (s : Client) : Prop where
  aligned : Aligned s.subscriptions s.log
  queue : ∀ runId b, last (Message.subscribes runId) s.pendingMessages = some b →
    (Wanted s.log runId ↔ b = true)
  plain : ∀ m ∈ s.pendingMessages, ∀ runId n, m.body ≠ .subscribe runId n
  starts : ∀ runId ∈ s.pendingStartRunIds,
    last (Message.subscribes runId) s.pendingMessages ≠ none
  opened : s.isOpen = true → s.pendingMessages = [] ∧ s.pendingStartRunIds = [] ∧
    ∀ runId, SubscribedOn s.connection s.log runId ↔ Wanted s.log runId
  fresh : s.socket = some .connecting → s.log.filterMap (Event.on? s.connection) = []
  later : ∀ c, s.connection < c → s.log.filterMap (Event.on? c) = []
  carried : Carried s.log

theorem agrees_init : Agrees {} where
  aligned := ⟨fun _ => iff_of_false nofun nofun, fun _ => rfl⟩
  queue _ _ h := absurd h nofun
  plain _ h := absurd h List.not_mem_nil
  starts _ h := absurd h List.not_mem_nil
  opened h := absurd h (by decide)
  fresh _ := rfl
  later _ _ := rfl
  carried := carried_nil

/-- A new socket has sent nothing. -/
theorem Agrees.connect (h : Agrees s) : Agrees s.connect := by
  rw [Client.connect]
  by_cases hsocket : s.socket = some .connecting ∨ s.socket = some .opened
  · rw [if_pos hsocket]
    exact h
  · rw [if_neg hsocket]
    exact {
      aligned := h.aligned
      queue := h.queue
      plain := h.plain
      starts := h.starts
      opened := fun hopen => absurd hopen Bool.false_ne_true
      fresh := fun _ => h.later _ (Nat.lt_succ_self _)
      later := fun c hc => h.later c (Nat.lt_of_succ_lt hc)
      carried := h.carried }

/-- The client after an event, as far as its connection and its queue are concerned. -/
structure Absorbs (s u : Client) (e : Event) : Prop where
  socket : u.socket = s.socket
  connection : u.connection = s.connection
  pending : u.pendingMessages = s.pendingMessages
  starts : u.pendingStartRunIds = s.pendingStartRunIds
  log : u.log = s.log ++ [e]
  aligned : Aligned u.subscriptions u.log
  quiet : ∀ c, e.on? c = none

namespace Absorbs

theorem isOpen (h : Absorbs s u e) : u.isOpen = s.isOpen := by
  rw [Client.isOpen, Client.isOpen, h.socket]

theorem on (h : Absorbs s u e) (c : ℕ) :
    u.log.filterMap (Event.on? c) = s.log.filterMap (Event.on? c) := by
  rw [h.log, filterMap_on_concat_of_none (h.quiet c)]

theorem subscribedOn (h : Absorbs s u e) :
    SubscribedOn u.connection u.log runId ↔ SubscribedOn s.connection s.log runId := by
  rw [SubscribedOn, SubscribedOn, h.on, h.connection]

theorem carried (h : Absorbs s u e) (hs : Agrees s) : Carried u.log := by
  rw [h.log]
  refine hs.carried.concat fun c id run n he => ?_
  have hquiet := h.quiet c
  rw [he] at hquiet
  exact absurd hquiet (by rw [Event.on?, if_pos rfl]; exact Option.some_ne_none _)

/-- **An event that says nothing about what is wanted**, or repeats offline what is pending. -/
theorem agrees (h : Absorbs s u e) (hs : Agrees s)
    (hwants : ∀ runId b, e.wants runId = some b → s.isOpen = false ∧ b = true ∧
      last (Message.subscribes runId) s.pendingMessages ≠ some false) : Agrees u where
  aligned := h.aligned
  queue runId b hb := by
    rw [h.pending] at hb
    rw [h.log]
    cases he : e.wants runId with
    | none =>
      rw [wanted_concat_of_none he]
      exact hs.queue runId b hb
    | some b' =>
      obtain ⟨-, htrue, hlast⟩ := hwants runId b' he
      rw [wanted_concat_of_some he]
      refine iff_of_true htrue ?_
      cases b with
      | true => rfl
      | false => exact absurd hb hlast
  plain := by
    rw [h.pending]
    exact hs.plain
  starts := by
    rw [h.pending, h.starts]
    exact hs.starts
  opened hopen := by
    rw [h.isOpen] at hopen
    obtain ⟨hpending, hstarts, hsubscribed⟩ := hs.opened hopen
    refine ⟨h.pending.trans hpending, h.starts.trans hstarts, fun runId => ?_⟩
    have hnone : e.wants runId = none := by
      cases he : e.wants runId with
      | none => rfl
      | some b =>
        have hclosed := (hwants runId b he).1
        rw [hopen] at hclosed
        exact absurd hclosed (by decide)
    rw [h.subscribedOn, h.log, wanted_concat_of_none hnone]
    exact hsubscribed runId
  fresh hsocket := by
    rw [h.on, h.connection]
    exact hs.fresh (h.socket.symm.trans hsocket)
  later c hc := by
    rw [h.on]
    exact hs.later c (h.connection ▸ hc)
  carried := h.carried hs

/-- **A message that says what the event says**, sent on an open socket. -/
theorem agrees_socketSend (h : Absorbs s u e) (hs : Agrees s) (hopen : s.isOpen = true)
    (hm : ∀ runId, m.subscribes runId = e.wants runId)
    (hcarried : ∀ runId n, m.body = .subscribe runId n → n = largest u.log runId) :
    Agrees (u.socketSend m) := by
  obtain ⟨hpending, hstarts, hsubscribed⟩ := hs.opened hopen
  exact {
    aligned := by
      refine ⟨fun runId => ?_, fun runId => ?_⟩
      · exact (h.aligned.wanted runId).trans (wanted_append_sent u.connection [m]).symm
      · exact (h.aligned.cursor runId).trans (largest_append_sent u.connection [m]).symm
    queue := by
      intro runId b hb
      have hb : last (Message.subscribes runId) u.pendingMessages = some b := hb
      rw [h.pending, hpending] at hb
      exact absurd hb nofun
    plain := by
      intro m' hm'
      have hm' : m' ∈ u.pendingMessages := hm'
      rw [h.pending, hpending] at hm'
      exact absurd hm' List.not_mem_nil
    starts := by
      intro runId hrun
      have hrun : runId ∈ u.pendingStartRunIds := hrun
      rw [h.starts, hstarts] at hrun
      exact absurd hrun List.not_mem_nil
    opened := by
      intro _
      refine ⟨h.pending.trans hpending, h.starts.trans hstarts, fun runId => ?_⟩
      have hon : (u.log ++ [Event.sent u.connection m]).filterMap (Event.on? u.connection) =
          u.log.filterMap (Event.on? u.connection) ++ [m] := by
        rw [filterMap_on_concat]
        exact congrArg (_ ++ ·) (congrArg Option.toList (if_pos rfl))
      have hw : Wanted (u.log ++ [m].map (.sent u.connection)) runId ↔ Wanted u.log runId :=
        wanted_append_sent u.connection [m]
      refine Iff.trans ?_ hw.symm
      have hsub : SubscribedOn u.connection (u.log ++ [.sent u.connection m]) runId ↔
          (e.wants runId).or (last (Message.subscribes runId)
            (s.log.filterMap (Event.on? s.connection))) = some true := by
        rw [SubscribedOn, hon, last_concat, hm, h.on, h.connection]
      refine hsub.trans ?_
      rw [h.log]
      cases he : e.wants runId with
      | none =>
        rw [Option.none_or, wanted_concat_of_none he]
        exact hsubscribed runId
      | some b => rw [Option.some_or, wanted_concat_of_some he, Option.some.injEq]
    fresh := by
      intro hconnecting
      have hsocket : u.socket = some .connecting := hconnecting
      have hu : u.isOpen = true := h.isOpen.trans hopen
      rw [Client.isOpen, hsocket] at hu
      exact absurd hu (by decide)
    later := by
      intro c hc
      have hne : u.connection ≠ c := Nat.ne_of_lt hc
      have hnone : Event.on? c (.sent u.connection m) = none := if_neg hne
      have hon := @filterMap_on_concat_of_none u.log _ c hnone
      refine hon.trans ?_
      rw [h.on]
      exact hs.later c (h.connection ▸ hc)
    carried := by
      refine (h.carried hs).concat fun c id run n he => ?_
      rw [Event.sent.injEq] at he
      exact hcarried run n (by rw [he.2]) }

/-- **A message that says what the event says**, pending. -/
theorem agrees_enqueue (h : Absorbs s u e) (hs : Agrees s) (hclosed : s.isOpen = false)
    (hm : ∀ runId, m.subscribes runId = e.wants runId)
    (hplain : ∀ runId n, m.body ≠ .subscribe runId n) {starts : List String}
    (hstarts : ∀ runId ∈ starts, runId ∈ s.pendingStartRunIds ∨ m.subscribes runId ≠ none) :
    Agrees
      { u with pendingMessages := u.pendingMessages ++ [m], pendingStartRunIds := starts } where
  aligned := h.aligned
  queue runId b hb := by
    have hb : last (Message.subscribes runId) (u.pendingMessages ++ [m]) = some b := hb
    rw [last_concat, hm, h.pending] at hb
    have hgoal : Wanted u.log runId ↔ b = true := by
      rw [h.log]
      cases he : e.wants runId with
      | none =>
        rw [he, Option.none_or] at hb
        rw [wanted_concat_of_none he]
        exact hs.queue runId b hb
      | some b' =>
        rw [he, Option.some_or] at hb
        rw [wanted_concat_of_some he, Option.some.inj hb]
    exact hgoal
  plain := by
    intro m' hm' runId n
    rcases List.mem_append.mp hm' with hm' | hm'
    · rw [h.pending] at hm'
      exact hs.plain m' hm' runId n
    · rw [List.mem_singleton.mp hm']
      exact hplain runId n
  starts := by
    intro runId hrun
    have hgoal : last (Message.subscribes runId) (u.pendingMessages ++ [m]) ≠ none := by
      rw [last_concat, h.pending]
      rcases hstarts runId hrun with hin | hne
      · rw [ne_eq, Option.or_eq_none_iff, not_and]
        exact fun _ => hs.starts runId hin
      · rw [ne_eq, Option.or_eq_none_iff, not_and_or]
        exact Or.inl hne
    exact hgoal
  opened hopen := by
    have hu : u.isOpen = true := hopen
    rw [h.isOpen, hclosed] at hu
    exact absurd hu (by decide)
  fresh hsocket := by
    have hgoal : u.log.filterMap (Event.on? u.connection) = [] := by
      rw [h.on, h.connection]
      exact hs.fresh (h.socket.symm.trans hsocket)
    exact hgoal
  later c hc := by
    have hgoal : u.log.filterMap (Event.on? c) = [] := by
      rw [h.on]
      exact hs.later c (h.connection ▸ hc)
    exact hgoal
  carried := h.carried hs

/-- A message that says what the event says is sent or pending. -/
theorem agrees_send (h : Absorbs s u e) (hs : Agrees s)
    (hm : ∀ runId, m.subscribes runId = e.wants runId)
    (hplain : ∀ runId n, m.body ≠ .subscribe runId n) : Agrees (u.send m).1 := by
  cases hopen : s.isOpen with
  | true =>
    have hsend : u.send m = (u.socketSend m, true) := if_pos (h.isOpen.trans hopen)
    rw [hsend]
    exact h.agrees_socketSend hs hopen hm fun runId n hbody => absurd hbody (hplain runId n)
  | false =>
    have hu : ¬u.isOpen = true := by
      rw [h.isOpen, hopen]
      exact Bool.false_ne_true
    have hsend : u.send m =
        (Client.connect { u with pendingMessages := u.pendingMessages ++ [m] }, false) :=
      if_neg hu
    rw [hsend]
    have hstarts : ∀ runId ∈ u.pendingStartRunIds,
        runId ∈ s.pendingStartRunIds ∨ m.subscribes runId ≠ none := by
      rw [h.starts]
      exact fun _ hin => Or.inl hin
    exact (h.agrees_enqueue hs hopen hm hplain hstarts).connect

end Absorbs

/-! ### Subscriptions -/

variable {subscriptions : Subscriptions} {n : Int}

/-- An event that changes no subscription. -/
theorem Aligned.keep (h : Aligned subscriptions log) (hwants : ∀ r, e.wants r = none)
    (hraise : ∀ r, e.raise r (largest log r) = largest log r) :
    Aligned subscriptions (log ++ [e]) where
  wanted r := by
    rw [wanted_concat_of_none (hwants r)]
    exact h.wanted r
  cursor r := by
    rw [largest_concat, hraise]
    exact h.cursor r

/-- An event that sets the sequence of a run. -/
theorem Aligned.upsert (h : Aligned subscriptions log)
    (hwants : e.wants runId = some true ∨
      e.wants runId = none ∧ (subscriptions.find? runId).isSome = true)
    (hn : n = e.raise runId (largest log runId)) (hother : ∀ r, r ≠ runId → e.wants r = none)
    (hraise : ∀ r, r ≠ runId → e.raise r (largest log r) = largest log r) :
    Aligned (subscriptions.upsert (runId, n)) (log ++ [e]) where
  wanted r := by
    by_cases hr : r = runId
    · subst hr
      have hfind : (subscriptions.upsert (r, n)).find? r = some (r, n) :=
        Table.find?_upsert_self subscriptions (r, n)
      rw [hfind]
      rcases hwants with htrue | ⟨hnone, hsome⟩
      · exact iff_of_true rfl ((wanted_concat_of_some htrue).mpr rfl)
      · exact iff_of_true rfl ((wanted_concat_of_none hnone).mpr ((h.wanted r).mp hsome))
    · rw [Table.find?_upsert_of_ne subscriptions hr, wanted_concat_of_none (hother r hr)]
      exact h.wanted r
  cursor r := by
    by_cases hr : r = runId
    · subst hr
      have hfind : (subscriptions.upsert (r, n)).find? r = some (r, n) :=
        Table.find?_upsert_self subscriptions (r, n)
      rw [hfind, largest_concat]
      exact hn
    · rw [Table.find?_upsert_of_ne subscriptions hr, largest_concat, hraise r hr]
      exact h.cursor r

/-- An event that ends the subscription of a run. -/
theorem Aligned.delete (h : Aligned subscriptions log)
    (hwants : e.wants runId = some false ∨
      e.wants runId = none ∧ subscriptions.find? runId = none)
    (hzero : e.raise runId (largest log runId) = 0) (hother : ∀ r, r ≠ runId → e.wants r = none)
    (hraise : ∀ r, r ≠ runId → e.raise r (largest log r) = largest log r) :
    Aligned (subscriptions.deleteWhere fun entry => entry.1 = runId) (log ++ [e]) where
  wanted r := by
    rw [Table.find?_deleteWhere_key]
    by_cases hr : r = runId
    · subst hr
      rw [if_pos rfl]
      rcases hwants with hfalse | ⟨hnone, hfind⟩
      · exact iff_of_false Bool.false_ne_true
          fun hw => Bool.false_ne_true ((wanted_concat_of_some hfalse).mp hw)
      · refine iff_of_false Bool.false_ne_true fun hw => ?_
        have hsome := (h.wanted r).mpr ((wanted_concat_of_none hnone).mp hw)
        rw [hfind] at hsome
        exact Bool.false_ne_true hsome
    · rw [if_neg hr, wanted_concat_of_none (hother r hr)]
      exact h.wanted r
  cursor r := by
    rw [Table.find?_deleteWhere_key, largest_concat]
    by_cases hr : r = runId
    · subst hr
      rw [if_pos rfl, hzero]
      rfl
    · rw [if_neg hr, hraise r hr]
      exact h.cursor r

/-! ### The calls -/

theorem connect_withStarts (s : Client) (starts : List String) :
    ({ s.connect with pendingStartRunIds := starts } : Client) =
      Client.connect { s with pendingStartRunIds := starts } := by
  rw [Client.connect, Client.connect]
  by_cases h : s.socket = some .connecting ∨ s.socket = some .opened
  · rw [if_pos h, if_pos h]
  · rw [if_neg h, if_neg h]

theorem starts_connect (s : Client) : s.connect.pendingStartRunIds = s.pendingStartRunIds := by
  rw [Client.connect]
  by_cases h : s.socket = some .connecting ∨ s.socket = some .opened
  · rw [if_pos h]
  · rw [if_neg h]

theorem agrees_startRun (hs : Agrees s) (request : AgentRunRequest)
    (hcursor : ∀ runId, request.run? = some runId → s.cursor runId = 0) :
    Agrees (s.startRun request) := by
  have habsorbs : Absorbs s (request.run?.elim (s.called (.startRun request)) fun runId =>
      (s.called (.startRun request)).setCursor runId 0) (.call (.startRun request) s.nextId) := by
    cases hrun : request.run? with
    | none =>
      have hnone : ∀ r, (Event.call (.startRun request) s.nextId).wants r = none := by
        intro r
        rw [Event.wants, hrun]
        exact if_neg nofun
      exact ⟨rfl, rfl, rfl, rfl, rfl, hs.aligned.keep hnone fun _ => rfl, fun _ => rfl⟩
    | some runId =>
      have hwants : ∀ r, (Event.call (.startRun request) s.nextId).wants r =
          if runId = r then some true else none := by
        intro r
        rw [Event.wants, hrun]
        by_cases hr : runId = r
        · rw [if_pos hr, if_pos (congrArg some hr)]
        · rw [if_neg hr, if_neg fun he => hr (Option.some.inj he)]
      refine ⟨rfl, rfl, rfl, rfl, rfl, hs.aligned.upsert (Or.inl ?_) ?_ ?_ fun _ _ => rfl,
        fun _ => rfl⟩
      · rw [hwants, if_pos rfl]
      · exact (hcursor runId hrun).symm.trans (hs.aligned.cursor runId)
      · intro r hr
        rw [hwants, if_neg (Ne.symm hr)]
  have hm : ∀ r, (⟨some s.nextId, .start request⟩ : Message).subscribes r =
      (Event.call (.startRun request) s.nextId).wants r := fun _ => rfl
  have hplain : ∀ r n, (⟨some s.nextId, .start request⟩ : Message).body ≠ .subscribe r n := nofun
  rw [Client.startRun]
  dsimp only
  generalize (request.run?.elim (s.called (.startRun request)) fun runId =>
    (s.called (.startRun request)).setCursor runId 0) = u at habsorbs ⊢
  cases hopen : s.isOpen with
  | true =>
    have hsend : u.send ⟨some s.nextId, .start request⟩ =
        (u.socketSend ⟨some s.nextId, .start request⟩, true) :=
      if_pos (habsorbs.isOpen.trans hopen)
    rw [hsend, if_pos rfl]
    exact habsorbs.agrees_socketSend hs hopen hm fun r n hbody => absurd hbody (hplain r n)
  | false =>
    have hu : ¬u.isOpen = true := by
      rw [habsorbs.isOpen, hopen]
      exact Bool.false_ne_true
    have hsend : u.send ⟨some s.nextId, .start request⟩ =
        (Client.connect
          { u with pendingMessages := u.pendingMessages ++ [⟨some s.nextId, .start request⟩] },
          false) := if_neg hu
    rw [hsend, if_neg Bool.false_ne_true]
    dsimp only
    rw [connect_withStarts, starts_connect]
    refine (habsorbs.agrees_enqueue hs hopen hm hplain ?_).connect
    intro r hr
    cases hrun : request.run? with
    | none =>
      rw [hrun] at hr
      exact Or.inl (habsorbs.starts ▸ hr)
    | some runId =>
      rw [hrun] at hr
      rcases List.mem_append.mp hr with hr | hr
      · exact Or.inl (habsorbs.starts ▸ hr)
      · refine Or.inr ?_
        rw [List.mem_singleton.mp hr, Message.subscribes]
        dsimp only
        rw [if_pos hrun]
        exact Option.some_ne_none true

/-- A call that names one run. -/
theorem wants_of_ne {b : Bool} {r : String} (hr : r ≠ runId) :
    (if runId = r then some b else none) = none := if_neg (Ne.symm hr)

theorem raise_of_ne {r : String} (hr : r ≠ runId) (value largest : Int) :
    (if runId = r then value else largest) = largest := if_neg (Ne.symm hr)

theorem agrees_subscribeRun (hs : Agrees s) (runId : String) (afterSequence : Option Int)
    (hpending : s.isOpen = false →
      last (Message.subscribes runId) s.pendingMessages ≠ some false) :
    Agrees (s.subscribeRun runId afterSequence) := by
  have hcursor : s.cursor runId = largest s.log runId := hs.aligned.cursor runId
  have hmax : max (s.cursor runId) (afterSequence.getD (s.cursor runId)) =
      (Event.call (.subscribeRun runId afterSequence) s.nextId).raise runId
        (largest s.log runId) := by
    rw [hcursor]
    cases afterSequence with
    | none => exact max_self _
    | some sequence => exact (if_pos rfl).symm
  have haligned : Aligned (s.subscriptions.upsert
      (runId, max (s.cursor runId) (afterSequence.getD (s.cursor runId))))
      (s.log ++ [.call (.subscribeRun runId afterSequence) s.nextId]) := by
    refine hs.aligned.upsert (Or.inl (if_pos rfl)) hmax (fun r hr => wants_of_ne hr) ?_
    intro r hr
    cases afterSequence with
    | none => rfl
    | some sequence => exact raise_of_ne hr _ _
  rw [Client.subscribeRun]
  have hsame : (s.called (.subscribeRun runId afterSequence)).cursor runId = s.cursor runId := rfl
  rw [hsame, Client.sendSubscribe]
  have habsorbs : Absorbs s
      ((s.called (.subscribeRun runId afterSequence)).setCursor runId
        (max (s.cursor runId) (afterSequence.getD (s.cursor runId))))
      (.call (.subscribeRun runId afterSequence) s.nextId) :=
    ⟨rfl, rfl, rfl, rfl, rfl, haligned, fun _ => rfl⟩
  have hlargest : max (s.cursor runId) (afterSequence.getD (s.cursor runId)) =
      largest (s.log ++ [.call (.subscribeRun runId afterSequence) s.nextId]) runId := by
    rw [largest_concat]
    exact hmax
  generalize max (s.cursor runId) (afterSequence.getD (s.cursor runId)) = cursor at *
  cases hopen : s.isOpen with
  | true =>
    rw [if_pos (habsorbs.isOpen.trans hopen)]
    -- The id of the message is made up first, which the invariant does not look at.
    have hid : Absorbs s
        { (s.called (.subscribeRun runId afterSequence)).setCursor runId cursor with
          nextId := s.nextId + 1 + 1 }
        (.call (.subscribeRun runId afterSequence) s.nextId) :=
      ⟨rfl, rfl, rfl, rfl, rfl, haligned, fun _ => rfl⟩
    refine hid.agrees_socketSend hs hopen (fun _ => rfl) ?_
    intro r n hbody
    obtain ⟨rfl, rfl⟩ := Body.subscribe.inj hbody
    exact hlargest
  | false =>
    have hclosed : ¬((s.called (.subscribeRun runId afterSequence)).setCursor runId
        cursor).isOpen = true := by
      rw [habsorbs.isOpen, hopen]
      exact Bool.false_ne_true
    rw [if_neg hclosed]
    refine (habsorbs.agrees hs ?_).connect
    intro r b hb
    have hb : (if runId = r then some true else none) = some b := hb
    by_cases hr : runId = r
    · subst hr
      rw [if_pos rfl, Option.some.injEq] at hb
      exact ⟨hopen, hb.symm, hpending hopen⟩
    · rw [if_neg hr] at hb
      exact absurd hb nofun

theorem agrees_unsubscribeRun (hs : Agrees s) (runId : String) :
    Agrees (s.unsubscribeRun runId) := by
  have haligned : Aligned (s.subscriptions.deleteWhere fun entry => entry.1 = runId)
      (s.log ++ [.call (.unsubscribeRun runId) s.nextId]) :=
    hs.aligned.delete (Or.inl (if_pos rfl)) (if_pos rfl) (fun r hr => wants_of_ne hr)
      fun r hr => raise_of_ne hr _ _
  have habsorbs : Absorbs s ((s.called (.unsubscribeRun runId)).deleteCursor runId)
      (.call (.unsubscribeRun runId) s.nextId) :=
    ⟨rfl, rfl, rfl, rfl, rfl, haligned, fun _ => rfl⟩
  exact habsorbs.agrees_send hs (fun _ => rfl) nofun

/-- A call that says nothing about a run. -/
theorem Agrees.absorbs_called (hs : Agrees s) {call : Call}
    (hwants : ∀ r, (Event.call call s.nextId).wants r = none)
    (hraise : ∀ r n, (Event.call call s.nextId).raise r n = n) :
    Absorbs s (s.called call) (.call call s.nextId) :=
  ⟨rfl, rfl, rfl, rfl, rfl, hs.aligned.keep hwants fun r => hraise r _, fun _ => rfl⟩

theorem agrees_controlRun (hs : Agrees s) (runId action : String) (reason : Option String) :
    Agrees (s.controlRun runId action reason) :=
  (hs.absorbs_called (fun _ => rfl) fun _ _ => rfl).agrees_send hs (fun _ => rfl) nofun

theorem agrees_approveTool (hs : Agrees s) (runId decision : String) :
    Agrees (s.approveTool runId decision) :=
  (hs.absorbs_called (fun _ => rfl) fun _ _ => rfl).agrees_send hs (fun _ => rfl) nofun

/-! ### What is received -/

/-- The client when a message is received, with its subscriptions. -/
theorem absorbs_received (message : Received) {subscriptions : Subscriptions}
    (h : Aligned subscriptions (s.log ++ [.received message])) :
    Absorbs s { s with subscriptions, log := s.log ++ [.received message] } (.received message) :=
  ⟨rfl, rfl, rfl, rfl, rfl, h, fun _ => rfl⟩

theorem agrees_handleMessage (hs : Agrees s) (message : Received)
    (h : Keeps s (.received message)) : Agrees (s.handleMessage message) := by
  have hcursor : ∀ r, s.cursor r = largest s.log r := hs.aligned.cursor
  have hquiet : ∀ r b, (Event.received message).wants r = some b → s.isOpen = false ∧ b = true ∧
      last (Message.subscribes r) s.pendingMessages ≠ some false :=
    fun r b hb => absurd hb nofun
  cases message with
  | heartbeat =>
    have haligned : Aligned s.subscriptions (s.log ++ [.received .heartbeat]) :=
      hs.aligned.keep (fun _ => rfl) fun _ => rfl
    exact (absorbs_received .heartbeat haligned).agrees_send hs (fun _ => rfl) nofun
  | other =>
    have haligned : Aligned s.subscriptions (s.log ++ [.received .other]) :=
      hs.aligned.keep (fun _ => rfl) fun _ => rfl
    exact (absorbs_received .other haligned).agrees hs hquiet
  | unsubscribed runId =>
    have hfind : s.subscriptions.find? runId = none := h
    have hzero : largest s.log runId = 0 := by
      rw [← hcursor, Client.cursor, hfind]
      rfl
    have haligned := hs.aligned.delete (e := .received (.unsubscribed runId))
      (Or.inr ⟨rfl, hfind⟩) hzero (fun _ _ => rfl) fun _ _ => rfl
    exact (absorbs_received (.unsubscribed runId) haligned).agrees hs hquiet
  | subscribed runId sequence =>
    have hsome : (s.subscriptions.find? runId).isSome = true := h
    have hn : max (s.cursor runId) (sequence.getD 0) =
        (Event.received (.subscribed runId sequence)).raise runId (largest s.log runId) := by
      rw [hcursor]
      cases sequence with
      | none => exact max_eq_left (largest_nonneg s.log runId)
      | some sequence => exact (if_pos rfl).symm
    have hraise : ∀ r, r ≠ runId → (Event.received (.subscribed runId sequence)).raise r
        (largest s.log r) = largest s.log r := by
      intro r hr
      cases sequence with
      | none => rfl
      | some sequence => exact raise_of_ne hr _ _
    have haligned := hs.aligned.upsert (Or.inr ⟨rfl, hsome⟩) hn (fun _ _ => rfl) hraise
    exact (absorbs_received (.subscribed runId sequence) haligned).agrees hs hquiet
  | agentTrace runId sequence =>
    cases sequence with
    | none =>
      have haligned : Aligned s.subscriptions (s.log ++ [.received (.agentTrace runId none)]) :=
        hs.aligned.keep (fun _ => rfl) fun _ => rfl
      exact (absorbs_received (.agentTrace runId none) haligned).agrees hs hquiet
    | some sequence =>
      have hsome : (s.subscriptions.find? runId).isSome = true := h
      have hn : max (s.cursor runId) sequence =
          (Event.received (.agentTrace runId (some sequence))).raise runId
            (largest s.log runId) := by
        rw [hcursor]
        exact (if_pos rfl).symm
      have haligned := hs.aligned.upsert (Or.inr ⟨rfl, hsome⟩) hn (fun _ _ => rfl)
        fun r hr => raise_of_ne hr _ _
      exact (absorbs_received (.agentTrace runId (some sequence)) haligned).agrees hs hquiet

/-! ### The sockets -/

/-- What an open socket is sent again. -/
theorem resubscribe_eq (excludedRunIds : List String) (entries : List (String × Int)) (s : Client)
    (hopen : s.isOpen = true) :
    ∃ messages : List Message, ∃ nextId, s.nextId ≤ nextId ∧
      s.resubscribe excludedRunIds entries =
        { s with nextId, log := s.log ++ messages.map (.sent s.connection) } ∧
      messages.map Message.body =
        (entries.filter (·.1 ∉ excludedRunIds)).map fun entry => .subscribe entry.1 entry.2 := by
  induction entries generalizing s with
  | nil =>
    refine ⟨[], s.nextId, Nat.le_refl _, ?_, rfl⟩
    rw [Client.resubscribe, List.map_nil, List.append_nil]
  | cons entry entries ih =>
    rw [Client.resubscribe]
    by_cases hin : entry.1 ∈ excludedRunIds
    · have hskip : (entry :: entries).filter (·.1 ∉ excludedRunIds) =
          entries.filter (·.1 ∉ excludedRunIds) :=
        List.filter_cons_of_neg (by rw [decide_eq_true_iff, not_not]; exact hin)
      rw [if_pos hin, hskip]
      exact ih s hopen
    · have htake : (entry :: entries).filter (·.1 ∉ excludedRunIds) =
          entry :: entries.filter (·.1 ∉ excludedRunIds) :=
        List.filter_cons_of_pos (decide_eq_true hin)
      rw [if_neg hin, htake, Client.sendSubscribe, if_pos hopen]
      obtain ⟨messages, nextId, hle, hsame, hbodies⟩ := ih
        (Client.socketSend { s with nextId := s.nextId + 1 }
          ⟨some s.nextId, .subscribe entry.1 entry.2⟩) hopen
      refine ⟨⟨some s.nextId, .subscribe entry.1 entry.2⟩ :: messages, nextId,
        Nat.le_of_succ_le hle, ?_, ?_⟩
      · have hlog : s.log ++ ((⟨some s.nextId, .subscribe entry.1 entry.2⟩ :: messages).map
            (Event.sent s.connection)) =
            (s.log ++ [Event.sent s.connection ⟨some s.nextId, .subscribe entry.1 entry.2⟩]) ++
              messages.map (Event.sent s.connection) := by
          rw [List.map_cons, List.append_cons]
        rw [hsame, hlog]
        rfl
      · rw [List.map_cons, List.map_cons, hbodies]

/-- **What the open handler does**: the subscriptions that are not pending are sent, then what is
pending. -/
theorem handleOpen_eq (s : Client) :
    ∃ messages : List Message, ∃ nextId, s.nextId ≤ nextId ∧
      s.handleOpen =
        { s with
          socket := some .opened, pendingMessages := [], pendingStartRunIds := [], nextId,
          log := s.log ++ (messages ++ s.pendingMessages).map (.sent s.connection) } ∧
      messages.map Message.body =
        (s.subscriptions.rows.filter (·.1 ∉ s.pendingStartRunIds)).map
          fun entry => .subscribe entry.1 entry.2 := by
  obtain ⟨messages, nextId, hle, hsame, hbodies⟩ := resubscribe_eq s.pendingStartRunIds
    s.subscriptions.rows { s with socket := some .opened } rfl
  refine ⟨messages, nextId, hle, ?_, hbodies⟩
  rw [Client.handleOpen, hsame, List.map_append, ← List.append_assoc]
  rfl

/-- The last subscription among messages that only subscribe. -/
theorem last_subscribes_iff {messages : List Message} {entries : List (String × Int)}
    (hbodies : messages.map Message.body = entries.map fun entry => .subscribe entry.1 entry.2) :
    last (Message.subscribes runId) messages = some true ↔ ∃ n, (runId, n) ∈ entries := by
  induction messages generalizing entries with
  | nil =>
    have hnil : entries = [] := List.map_eq_nil_iff.mp hbodies.symm
    rw [hnil]
    exact iff_of_false nofun fun ⟨_, h⟩ => List.not_mem_nil h
  | cons message messages ih =>
    obtain ⟨entry, entries, rfl, hbody, hrest⟩ := List.map_eq_cons_iff.mp hbodies.symm
    have hcons : last (Message.subscribes runId) (message :: messages) =
        (last (Message.subscribes runId) messages).or
          (if entry.1 = runId then some true else none) := by
      have hone : last (Message.subscribes runId) [message] =
          if entry.1 = runId then some true else none := by
        have hsingle := last_concat (Message.subscribes runId) [] message
        rw [List.nil_append] at hsingle
        rw [hsingle, Message.subscribes, ← hbody]
        exact Option.or_none
      rw [← List.singleton_append, last_append, hone]
    rw [hcons]
    by_cases hr : entry.1 = runId
    · rw [if_pos hr]
      refine iff_of_true ?_ ⟨entry.2, ?_⟩
      · cases hlast : last (Message.subscribes runId) messages with
        | none => rfl
        | some b =>
          cases b with
          | true => rfl
          | false =>
            -- Every message of the list subscribes, so that none ends a subscription.
            have hmem : false ∈ messages.filterMap (Message.subscribes runId) :=
              List.mem_of_getLast? hlast
            obtain ⟨m, hm, hfalse⟩ := List.mem_filterMap.mp hmem
            have hmbody : m.body ∈ messages.map Message.body := List.mem_map_of_mem hm
            rw [← hrest] at hmbody
            obtain ⟨entry', -, hentry⟩ := List.mem_map.mp hmbody
            rw [Message.subscribes, ← hentry] at hfalse
            dsimp only at hfalse
            by_cases hrun : entry'.1 = runId
            · rw [if_pos hrun] at hfalse
              exact absurd hfalse (by decide)
            · rw [if_neg hrun] at hfalse
              exact absurd hfalse nofun
      · rw [← hr]
        exact List.mem_cons_self
    · rw [if_neg hr, Option.or_none, ih hrest.symm]
      refine exists_congr fun n => ?_
      rw [List.mem_cons, or_iff_right]
      rintro rfl
      exact hr rfl

theorem agrees_handleOpen (hs : Agrees s) (hconnecting : s.socket = some .connecting) :
    Agrees s.handleOpen := by
  obtain ⟨messages, nextId, -, hsame, hbodies⟩ := handleOpen_eq s
  have hentry : ∀ r n, (r, n) ∈ s.subscriptions.rows → n = largest s.log r := by
    intro r n hmem
    have hfind : s.subscriptions.find? r = some (r, n) := Table.find?_eq_some.mpr ⟨hmem, rfl⟩
    rw [← hs.aligned.cursor r, hfind]
    rfl
  rw [hsame]
  exact {
    aligned := by
      refine ⟨fun r => ?_, fun r => ?_⟩
      · exact (hs.aligned.wanted r).trans (wanted_append_sent _ _).symm
      · exact (hs.aligned.cursor r).trans (largest_append_sent _ _).symm
    queue := fun _ _ h => absurd h nofun
    plain := fun _ h => absurd h List.not_mem_nil
    starts := fun _ h => absurd h List.not_mem_nil
    opened := by
      refine fun _ => ⟨rfl, rfl, fun r => ?_⟩
      refine Iff.trans ?_ (wanted_append_sent s.connection (messages ++ s.pendingMessages)).symm
      have hon : (s.log ++ (messages ++ s.pendingMessages).map (Event.sent s.connection)).filterMap
          (Event.on? s.connection) = messages ++ s.pendingMessages := by
        rw [List.filterMap_append, hs.fresh hconnecting, List.nil_append, filterMap_on_map_sent]
      have hsub : SubscribedOn s.connection
          (s.log ++ (messages ++ s.pendingMessages).map (Event.sent s.connection)) r ↔
            (last (Message.subscribes r) s.pendingMessages).or
              (last (Message.subscribes r) messages) = some true := by
        rw [SubscribedOn, hon, last_append]
      refine hsub.trans ?_
      cases hlast : last (Message.subscribes r) s.pendingMessages with
      | some b =>
        -- What is pending is sent last, and it is what is wanted.
        rw [Option.some_or, Option.some.injEq]
        exact (hs.queue r b hlast).symm
      | none =>
        have hstarts : r ∉ s.pendingStartRunIds := fun hin => hs.starts r hin hlast
        rw [Option.none_or, last_subscribes_iff hbodies, ← hs.aligned.wanted r,
          Option.isSome_iff_exists]
        constructor
        · rintro ⟨n, hmem⟩
          exact ⟨(r, n), Table.find?_eq_some.mpr ⟨(List.mem_filter.mp hmem).1, rfl⟩⟩
        · rintro ⟨⟨r', n⟩, hfind⟩
          obtain ⟨hmem, hkey⟩ := Table.find?_eq_some.mp hfind
          obtain rfl : r' = r := hkey
          exact ⟨n, List.mem_filter.mpr ⟨hmem, decide_eq_true hstarts⟩⟩
    fresh := fun h => ReadyState.noConfusion (Option.some.inj h)
    later := by
      intro c hc
      have hne : s.connection ≠ c := Nat.ne_of_lt hc
      have hgoal : (s.log ++ (messages ++ s.pendingMessages).map
          (Event.sent s.connection)).filterMap (Event.on? c) = [] := by
        rw [List.filterMap_append, hs.later c hc, filterMap_on_map_sent_of_ne hne,
          List.append_nil]
      exact hgoal
    carried := by
      refine hs.carried.append_sent fun m hm r n hbody => ?_
      rcases List.mem_append.mp hm with hm | hm
      · have hmem : m.body ∈ messages.map Message.body := List.mem_map_of_mem hm
        rw [hbodies] at hmem
        obtain ⟨entry, hentryMem, hentryBody⟩ := List.mem_map.mp hmem
        rw [hbody] at hentryBody
        obtain ⟨rfl, rfl⟩ := Body.subscribe.inj hentryBody
        exact hentry entry.1 entry.2 (List.mem_filter.mp hentryMem).1
      · exact absurd hbody (hs.plain m hm r n) }

theorem agrees_close (hs : Agrees s) : Agrees s.close where
  aligned := hs.aligned.keep (fun _ => rfl) fun _ => rfl
  queue _ _ h := absurd h nofun
  plain _ h := absurd h List.not_mem_nil
  starts _ h := absurd h List.not_mem_nil
  opened h := absurd h Bool.false_ne_true
  fresh h := absurd h nofun
  later c hc := (filterMap_on_concat_of_none rfl).trans (hs.later c hc)
  carried := hs.carried.concat nofun

theorem agrees_lost (hs : Agrees s) {state : ReadyState}
    (hstate : state = .closing ∨ state = .closed) :
    Agrees { s with socket := some state } where
  aligned := hs.aligned
  queue := hs.queue
  plain := hs.plain
  starts := hs.starts
  opened hopen := by
    rcases hstate with rfl | rfl
    · exact absurd hopen Bool.false_ne_true
    · exact absurd hopen Bool.false_ne_true
  fresh hsocket := by
    rcases hstate with rfl | rfl
    · exact absurd hsocket nofun
    · exact absurd hsocket nofun
  later := hs.later
  carried := hs.carried

/-- The flags of the reconnecting. -/
theorem Agrees.reconnecting (hs : Agrees s) (reconnectTimer manuallyClosed : Bool) :
    Agrees { s with reconnectTimer, manuallyClosed } :=
  ⟨hs.aligned, hs.queue, hs.plain, hs.starts, hs.opened, hs.fresh, hs.later, hs.carried⟩

theorem agrees_handleClose (hs : Agrees s) (policyViolation : Bool) :
    Agrees (s.handleClose policyViolation) := by
  rw [Client.handleClose]
  cases s.manuallyClosed || policyViolation with
  | true => exact hs.reconnecting s.reconnectTimer true
  | false => exact hs.reconnecting true false

/-- **One step.** -/
theorem agrees_step {s' : Client} {label : Label} (hs : Agrees s) (hkeeps : Keeps s label)
    (hstep : step s label = some s') : Agrees s' := by
  cases label with
  | connect => exact Option.some.inj hstep ▸ hs.connect
  | close => exact Option.some.inj hstep ▸ agrees_close hs
  | startRun request => exact Option.some.inj hstep ▸ agrees_startRun hs request hkeeps
  | subscribeRun runId afterSequence =>
    exact Option.some.inj hstep ▸ agrees_subscribeRun hs runId afterSequence hkeeps
  | unsubscribeRun runId => exact Option.some.inj hstep ▸ agrees_unsubscribeRun hs runId
  | controlRun runId action reason =>
    exact Option.some.inj hstep ▸ agrees_controlRun hs runId action reason
  | approveTool runId decision =>
    exact Option.some.inj hstep ▸ agrees_approveTool hs runId decision
  | opened =>
    rw [step, Option.ite_none_right_eq_some] at hstep
    exact Option.some.inj hstep.2 ▸ agrees_handleOpen hs hstep.1
  | lost state =>
    rw [step, Option.ite_none_right_eq_some] at hstep
    exact Option.some.inj hstep.2 ▸ agrees_lost hs hstep.1.2
  | closed policyViolation => exact Option.some.inj hstep ▸ agrees_handleClose hs policyViolation
  | timer =>
    rw [step, Option.ite_none_right_eq_some] at hstep
    exact Option.some.inj hstep.2 ▸ (hs.reconnecting false s.manuallyClosed).connect
  | received message => exact Option.some.inj hstep ▸ agrees_handleMessage hs message hkeeps

/-! ### Delivery -/

/-- **Where the commands are.** `settled` are those that left the queue, with whether they were sent
or dropped, and what is owed follows them. -/
def Accounts (commands sent dropped owed : List Message) : Prop :=
  ∃ settled : List (Message × Bool), settled.map Prod.fst ++ owed = commands ∧
    (settled.filter Prod.snd).map Prod.fst = sent ∧
      ∀ entry ∈ settled, entry.2 = false → entry.1 ∈ dropped

namespace Accounts

variable {called sent dropped owed : List Message}

theorem call (h : Accounts called sent dropped owed) (messages : List Message) :
    Accounts (called ++ messages) sent dropped (owed ++ messages) := by
  obtain ⟨settled, hall, hsent, hdropped⟩ := h
  refine ⟨settled, ?_, hsent, hdropped⟩
  rw [← List.append_assoc, hall]

/-- What is owed is sent. -/
theorem flush (h : Accounts called sent dropped owed) :
    Accounts called (sent ++ owed) dropped [] := by
  obtain ⟨settled, hall, hsent, hdropped⟩ := h
  have hfilter : (owed.map fun m => (m, true)).filter Prod.snd = owed.map fun m => (m, true) := by
    rw [List.filter_eq_self]
    intro entry hentry
    obtain ⟨m, -, rfl⟩ := List.mem_map.mp hentry
    rfl
  have hfst : (owed.map fun m => (m, true)).map Prod.fst = owed := by
    rw [List.map_map]
    exact List.map_id owed
  refine ⟨settled ++ owed.map fun m => (m, true), ?_, ?_, ?_⟩
  · rw [List.append_nil, List.map_append, hfst, hall]
  · rw [List.filter_append, List.map_append, hsent, hfilter, hfst]
  · intro entry hentry hfalse
    rcases List.mem_append.mp hentry with hentry | hentry
    · exact hdropped entry hentry hfalse
    · obtain ⟨m, -, rfl⟩ := List.mem_map.mp hentry
      exact absurd hfalse.symm Bool.false_ne_true

/-- What is owed is dropped. -/
theorem drop (h : Accounts called sent dropped owed) {pending : List Message}
    (hpending : owed ⊆ pending) : Accounts called sent (dropped ++ pending) [] := by
  obtain ⟨settled, hall, hsent, hdropped⟩ := h
  have hfilter : (owed.map fun m => (m, false)).filter Prod.snd = [] := by
    rw [List.filter_eq_nil_iff]
    intro entry hentry
    obtain ⟨m, -, rfl⟩ := List.mem_map.mp hentry
    exact Bool.false_ne_true
  have hfst : (owed.map fun m => (m, false)).map Prod.fst = owed := by
    rw [List.map_map]
    exact List.map_id owed
  refine ⟨settled ++ owed.map fun m => (m, false), ?_, ?_, ?_⟩
  · rw [List.append_nil, List.map_append, hfst, hall]
  · rw [List.filter_append, hfilter, List.append_nil, hsent]
  · intro entry hentry hfalse
    rcases List.mem_append.mp hentry with hentry | hentry
    · exact List.mem_append_left _ (hdropped entry hentry hfalse)
    · obtain ⟨m, hm, rfl⟩ := List.mem_map.mp hentry
      exact List.mem_append_right _ (hpending hm)

end Accounts

/-- The messages that `close` dropped. -/
abbrev droppedMessages (log : List Event) : List Message := log.flatMap Event.droppedMessages

theorem commands_concat : commands (log ++ [e]) = commands log ++ e.command?.toList := by
  rw [commands, List.filterMap_append]
  cases he : e.command? with
  | none => rw [List.filterMap_cons_none he]; rfl
  | some m => rw [List.filterMap_cons_some he]; rfl

theorem droppedMessages_concat :
    droppedMessages (log ++ [e]) = droppedMessages log ++ e.droppedMessages := by
  rw [droppedMessages, List.flatMap_append, List.flatMap_singleton]

theorem sentCommands_concat_of_none (h : e.sent? = none) :
    sentCommands (log ++ [e]) = sentCommands log := by
  rw [sentCommands, List.filterMap_append, List.filterMap_cons_none h, List.filterMap_nil,
    List.append_nil]
  rfl

theorem commands_append_sent (c : ℕ) (messages : List Message) :
    commands (log ++ messages.map (.sent c)) = commands log := by
  induction messages using List.reverseRecOn with
  | nil => rw [List.map_nil, List.append_nil]
  | append_singleton messages message ih =>
    rw [List.map_append, ← List.append_assoc, List.map_singleton, commands_concat, ih]
    exact List.append_nil _

theorem droppedMessages_append_sent (c : ℕ) (messages : List Message) :
    droppedMessages (log ++ messages.map (.sent c)) = droppedMessages log := by
  induction messages using List.reverseRecOn with
  | nil => rw [List.map_nil, List.append_nil]
  | append_singleton messages message ih =>
    rw [List.map_append, ← List.append_assoc, List.map_singleton, droppedMessages_concat, ih]
    exact List.append_nil _

theorem sentCommands_append_sent (c : ℕ) (messages : List Message) :
    sentCommands (log ++ messages.map (.sent c)) =
      sentCommands log ++ messages.filter Message.isCommand := by
  have hsent : (messages.map (Event.sent c)).filterMap Event.sent? = messages := by
    induction messages with
    | nil => rfl
    | cons message messages ih =>
      have hone : (Event.sent c message).sent? = some message := rfl
      rw [List.map_cons, List.filterMap_cons_some hone, ih]
  rw [sentCommands, List.filterMap_append, List.filter_append, hsent]
  rfl

/-- The commands of a client, where `owed` was called and is not on its way. -/
structure Accounted (s : Client) (owed : List Message) : Prop where
  accounts : Accounts (commands s.log) (sentCommands s.log) (droppedMessages s.log)
    (s.pendingMessages.filter Message.isCommand ++ owed)
  idle : s.isOpen = true → s.pendingMessages = []
  nodup : (commands s.log).Nodup
  ids : ∀ m ∈ commands s.log, ∃ id < s.nextId, m.messageId = some id

namespace Accounted

variable {owed : List Message}

theorem init : Accounted {} [] where
  accounts := ⟨[], rfl, rfl, fun _ h => absurd h List.not_mem_nil⟩
  idle _ := rfl
  nodup := List.nodup_nil
  ids _ h := absurd h List.not_mem_nil

/-- A client with the same queue and log. -/
theorem congr (h : Accounted s owed) (hpending : u.pendingMessages = s.pendingMessages)
    (hlog : u.log = s.log) (hopen : u.isOpen = true → s.isOpen = true)
    (hid : s.nextId ≤ u.nextId) : Accounted u owed where
  accounts := by
    rw [hlog, hpending]
    exact h.accounts
  idle hu := hpending.trans (h.idle (hopen hu))
  nodup := by
    rw [hlog]
    exact h.nodup
  ids := by
    rw [hlog]
    intro m hm
    obtain ⟨id, hlt, hsame⟩ := h.ids m hm
    exact ⟨id, Nat.lt_of_lt_of_le hlt hid, hsame⟩

theorem connect (h : Accounted s owed) : Accounted s.connect owed := by
  rw [Client.connect]
  by_cases hsocket : s.socket = some .connecting ∨ s.socket = some .opened
  · rw [if_pos hsocket]
    exact h
  · rw [if_neg hsocket]
    exact h.congr rfl rfl (fun hopen => absurd hopen Bool.false_ne_true) (Nat.le_refl _)

/-- An event that is no command. -/
theorem concat (h : Accounted s []) (hcommand : e.command? = none) (hsent : e.sent? = none)
    (hdropped : e.droppedMessages = []) (subscriptions : Subscriptions) :
    Accounted { s with subscriptions, log := s.log ++ [e] } [] := by
  have hcommands : commands (s.log ++ [e]) = commands s.log := by
    rw [commands_concat, hcommand]
    exact List.append_nil _
  have haccounts : Accounts (commands (s.log ++ [e])) (sentCommands (s.log ++ [e]))
      (droppedMessages (s.log ++ [e])) (s.pendingMessages.filter Message.isCommand ++ []) := by
    rw [hcommands, sentCommands_concat_of_none hsent, droppedMessages_concat, hdropped,
      List.append_nil (droppedMessages s.log)]
    exact h.accounts
  refine ⟨haccounts, h.idle, ?_, ?_⟩
  · have hgoal : (commands (s.log ++ [e])).Nodup := hcommands ▸ h.nodup
    exact hgoal
  · have hgoal : ∀ m ∈ commands (s.log ++ [e]), ∃ id < s.nextId, m.messageId = some id :=
      hcommands ▸ h.ids
    exact hgoal

/-- **A call**: its command is owed, under a new id. -/
theorem called (h : Accounted s []) (call : Call)
    (hcommand : (Event.call call s.nextId).command?.toList = owed)
    (hid : ∀ m ∈ owed, m.messageId = some s.nextId) (hone : owed.length ≤ 1)
    (subscriptions : Subscriptions) :
    Accounted { s.called call with subscriptions } owed := by
  have hcommands : commands (s.log ++ [.call call s.nextId]) = commands s.log ++ owed := by
    rw [commands_concat, hcommand]
  have haccounts : Accounts (commands (s.log ++ [.call call s.nextId]))
      (sentCommands (s.log ++ [.call call s.nextId]))
      (droppedMessages (s.log ++ [.call call s.nextId]))
      (s.pendingMessages.filter Message.isCommand ++ owed) := by
    rw [hcommands, sentCommands_concat_of_none rfl, droppedMessages_concat]
    have hcall := h.accounts.call owed
    rw [List.append_nil] at hcall
    exact (List.append_nil (droppedMessages s.log)).symm ▸ hcall
  have hnodup : (commands (s.log ++ [.call call s.nextId])).Nodup := by
    rw [hcommands]
    refine h.nodup.append ?_ ?_
    · match owed, hone with
      | [], _ => exact List.nodup_nil
      | [m], _ => exact List.nodup_singleton m
    · intro m hm hmem
      obtain ⟨id, hlt, hsame⟩ := h.ids m hm
      rw [hid m hmem, Option.some.injEq] at hsame
      omega
  have hids : ∀ m ∈ commands (s.log ++ [.call call s.nextId]),
      ∃ id < s.nextId + 1, m.messageId = some id := by
    rw [hcommands]
    intro m hm
    rcases List.mem_append.mp hm with hm | hm
    · obtain ⟨id, hlt, hsame⟩ := h.ids m hm
      exact ⟨id, Nat.lt_succ_of_lt hlt, hsame⟩
    · exact ⟨s.nextId, Nat.lt_succ_self _, hid m hm⟩
  exact ⟨haccounts, h.idle, hnodup, hids⟩

/-- Messages that are sent with all that was pending. -/
theorem sendAll (h : Accounted s owed) {messages : List Message}
    (hmessages : messages.filter Message.isCommand =
      s.pendingMessages.filter Message.isCommand ++ owed)
    (hu : u.log = s.log ++ messages.map (.sent s.connection)) (hpending : u.pendingMessages = [])
    (hid : s.nextId ≤ u.nextId) : Accounted u [] where
  accounts := by
    rw [hu, commands_append_sent, sentCommands_append_sent, droppedMessages_append_sent, hmessages,
      hpending]
    exact h.accounts.flush
  idle _ := hpending
  nodup := by
    rw [hu, commands_append_sent]
    exact h.nodup
  ids := by
    rw [hu, commands_append_sent]
    intro m hm
    obtain ⟨id, hlt, hsame⟩ := h.ids m hm
    exact ⟨id, Nat.lt_of_lt_of_le hlt hid, hsame⟩

theorem socketSend (h : Accounted s ([m].filter Message.isCommand)) (hopen : s.isOpen = true) :
    Accounted (s.socketSend m) [] := by
  have hone : [m].filter Message.isCommand =
      s.pendingMessages.filter Message.isCommand ++ [m].filter Message.isCommand := by
    rw [h.idle hopen]
    rfl
  exact h.sendAll hone rfl (h.idle hopen) (Nat.le_refl _)

/-- A message that is sent or pending. -/
theorem send (h : Accounted s ([m].filter Message.isCommand)) : Accounted (s.send m).1 [] := by
  rw [Client.send]
  cases hopen : s.isOpen with
  | true =>
    rw [if_pos rfl]
    exact h.socketSend hopen
  | false =>
    rw [if_neg Bool.false_ne_true]
    have hclosed : ¬s.isOpen = true := by
      rw [hopen]
      exact Bool.false_ne_true
    have hqueue : (s.pendingMessages ++ [m]).filter Message.isCommand ++ [] =
        s.pendingMessages.filter Message.isCommand ++ [m].filter Message.isCommand := by
      rw [List.append_nil, List.filter_append]
    have haccounts : Accounts (commands s.log) (sentCommands s.log) (droppedMessages s.log)
        ((s.pendingMessages ++ [m]).filter Message.isCommand ++ []) := hqueue ▸ h.accounts
    have hqueued : Accounted { s with pendingMessages := s.pendingMessages ++ [m] } [] :=
      ⟨haccounts, fun hu => absurd hu hclosed, h.nodup, h.ids⟩
    exact hqueued.connect

theorem sendSubscribe (h : Accounted s []) (runId : String) (n : Int) :
    Accounted (s.sendSubscribe runId n) [] := by
  rw [Client.sendSubscribe]
  by_cases hopen : s.isOpen = true
  · rw [if_pos hopen]
    have hid : Accounted { s with nextId := s.nextId + 1 } [] :=
      h.congr rfl rfl (fun hu => hu) (Nat.le_succ _)
    exact hid.socketSend hopen
  · rw [if_neg hopen]
    exact h.connect

theorem startRun (h : Accounted s []) (request : AgentRunRequest) :
    Accounted (s.startRun request) [] := by
  have hcalled : Accounted (request.run?.elim (s.called (.startRun request)) fun runId =>
      (s.called (.startRun request)).setCursor runId 0) [⟨some s.nextId, .start request⟩] := by
    have hsubscriptions := h.called (.startRun request) rfl
      (fun m hm => by rw [List.mem_singleton.mp hm]) (Nat.le_refl 1)
    cases request.run? with
    | none => exact hsubscriptions s.subscriptions
    | some runId => exact hsubscriptions (s.subscriptions.upsert (runId, 0))
  have hsend := Accounted.send (m := ⟨some s.nextId, .start request⟩) hcalled
  rw [Client.startRun]
  dsimp only
  by_cases hsent : (Client.send (request.run?.elim (s.called (.startRun request)) fun runId =>
      (s.called (.startRun request)).setCursor runId 0) ⟨some s.nextId, .start request⟩).2 = true
  · rw [if_pos hsent]
    exact hsend
  · rw [if_neg hsent]
    exact hsend.congr rfl rfl (fun hu => hu) (Nat.le_refl _)

theorem handleMessage (h : Accounted s []) (message : Received) :
    Accounted (s.handleMessage message) [] := by
  have hreceived : ∀ subscriptions : Subscriptions,
      Accounted { s with subscriptions, log := s.log ++ [.received message] } [] :=
    h.concat rfl rfl rfl
  cases message with
  | heartbeat => exact Accounted.send (m := ⟨none, .heartbeatAck⟩) (hreceived s.subscriptions)
  | agentTrace runId sequence =>
    cases sequence with
    | none => exact hreceived s.subscriptions
    | some sequence => exact hreceived (s.subscriptions.upsert _)
  | subscribed runId sequence => exact hreceived (s.subscriptions.upsert _)
  | unsubscribed runId => exact hreceived (s.subscriptions.deleteWhere _)
  | other => exact hreceived s.subscriptions

theorem handleOpen (h : Accounted s []) : Accounted s.handleOpen [] := by
  obtain ⟨messages, nextId, hle, hsame, hbodies⟩ := handleOpen_eq s
  rw [hsame]
  refine h.sendAll ?_ rfl rfl hle
  have hnone : messages.filter Message.isCommand = [] := by
    rw [List.filter_eq_nil_iff]
    intro m hm hcommand
    have hmem : m.body ∈ messages.map Message.body := List.mem_map_of_mem hm
    rw [hbodies] at hmem
    obtain ⟨entry, -, hbody⟩ := List.mem_map.mp hmem
    rw [Message.isCommand, ← hbody] at hcommand
    exact Bool.false_ne_true hcommand
  rw [List.filter_append, hnone, List.nil_append, List.append_nil]

theorem close (h : Accounted s []) : Accounted s.close [] := by
  have hcommands : commands (s.log ++ [.dropped s.pendingMessages]) = commands s.log := by
    rw [commands_concat]
    exact List.append_nil _
  have haccounts : Accounts (commands (s.log ++ [.dropped s.pendingMessages]))
      (sentCommands (s.log ++ [.dropped s.pendingMessages]))
      (droppedMessages (s.log ++ [.dropped s.pendingMessages])) [] := by
    rw [hcommands, sentCommands_concat_of_none rfl, droppedMessages_concat]
    refine h.accounts.drop ?_
    rw [List.append_nil]
    exact List.filter_subset_self _
  exact ⟨haccounts, fun _ => rfl, hcommands ▸ h.nodup, hcommands ▸ h.ids⟩

/-- **One step.** -/
theorem step {s' : Client} {label : Label} (h : Accounted s [])
    (hstep : SocketClient.step s label = some s') : Accounted s' [] := by
  cases label with
  | connect => exact Option.some.inj hstep ▸ h.connect
  | close => exact Option.some.inj hstep ▸ h.close
  | startRun request => exact Option.some.inj hstep ▸ h.startRun request
  | subscribeRun runId afterSequence =>
    have hcalled := h.called (.subscribeRun runId afterSequence) rfl
      (fun m hm => absurd hm List.not_mem_nil) (Nat.zero_le 1)
    exact Option.some.inj hstep ▸ (hcalled (s.subscriptions.upsert _)).sendSubscribe runId _
  | unsubscribeRun runId =>
    have hcalled := h.called (.unsubscribeRun runId) rfl
      (fun m hm => absurd hm List.not_mem_nil) (Nat.zero_le 1)
    exact Option.some.inj hstep ▸ Accounted.send (m := ⟨some s.nextId, .unsubscribe runId⟩)
      (hcalled (s.subscriptions.deleteWhere _))
  | controlRun runId action reason =>
    have hcalled := h.called (.controlRun runId action reason) rfl
      (fun m hm => by rw [List.mem_singleton.mp hm]) (Nat.le_refl 1) s.subscriptions
    exact Option.some.inj hstep ▸ Accounted.send
      (m := ⟨some s.nextId, .control runId action (reason.filter (· ≠ ""))⟩) hcalled
  | approveTool runId decision =>
    have hcalled := h.called (.approveTool runId decision) rfl
      (fun m hm => by rw [List.mem_singleton.mp hm]) (Nat.le_refl 1) s.subscriptions
    exact Option.some.inj hstep ▸ Accounted.send
      (m := ⟨some s.nextId, .approval runId decision⟩) hcalled
  | opened =>
    rw [SocketClient.step, Option.ite_none_right_eq_some] at hstep
    exact Option.some.inj hstep.2 ▸ h.handleOpen
  | lost state =>
    rw [SocketClient.step, Option.ite_none_right_eq_some] at hstep
    refine Option.some.inj hstep.2 ▸ h.congr rfl rfl ?_ (Nat.le_refl _)
    intro hopen
    rcases hstep.1.2 with rfl | rfl
    · exact absurd hopen Bool.false_ne_true
    · exact absurd hopen Bool.false_ne_true
  | closed policyViolation =>
    rw [← Option.some.inj hstep, Client.handleClose]
    cases s.manuallyClosed || policyViolation with
    | true => exact h.congr rfl rfl (fun hopen => hopen) (Nat.le_refl _)
    | false => exact h.congr rfl rfl (fun hopen => hopen) (Nat.le_refl _)
  | timer =>
    rw [SocketClient.step, Option.ite_none_right_eq_some] at hstep
    have htimer : Accounted { s with reconnectTimer := false } [] :=
      h.congr rfl rfl (fun hopen => hopen) (Nat.le_refl _)
    exact Option.some.inj hstep.2 ▸ htimer.connect
  | received message => exact Option.some.inj hstep ▸ h.handleMessage message

/-- What the accounts say about the commands. -/
theorem delivered (h : Accounted s []) : Delivered s := by
  obtain ⟨settled, hall, hsent, hdropped⟩ := h.accounts
  rw [List.append_nil] at hall
  refine ⟨h.nodup, ?_, ?_⟩
  · rw [← hall, ← hsent]
    exact (List.filter_sublist.map Prod.fst).trans (List.sublist_append_left _ _)
  · intro message hmem
    rw [← hall] at hmem
    rcases List.mem_append.mp hmem with hmem | hmem
    · obtain ⟨entry, hentry, rfl⟩ := List.mem_map.mp hmem
      cases hflag : entry.2 with
      | true =>
        refine Or.inl ?_
        rw [← hsent]
        exact List.mem_map_of_mem (List.mem_filter.mpr ⟨hentry, hflag⟩)
      | false => exact Or.inr (Or.inr (hdropped entry hentry hflag))
    · exact Or.inr (Or.inl (List.mem_filter.mp hmem).1)

end Accounted

/-- **Commands are delivered in every run.** -/
theorem delivered_of_run {labels : List Label} (hrun : run step {} labels = some s) :
    Delivered s :=
  (run_invariant (I := fun s => Accounted s []) (fun _ _ _ h hstep => h.step hstep)
    Accounted.init hrun).delivered

/-- **In a run whose steps all meet `Keeps` the subscriptions of the caller are kept.** -/
theorem kept_of_run (labels : List Label) (s : Client) (hrun : run step {} labels = some s)
    (hgood : Along step Keeps {} labels) : Kept s := by
  have hagrees : Agrees s := run_invariant_of_along
    (fun _ _ _ hs hkeeps hstep => agrees_step hs hkeeps hstep) agrees_init hrun hgood
  exact ⟨fun hopen runId => (hagrees.opened hopen).2.2 runId, hagrees.carried,
    delivered_of_run hrun⟩

/-- A run is started, traced, lost and controlled while the socket is closed. -/
private def reconnected : List Label :=
  [.connect, .opened, .startRun ⟨some "r", "hi"⟩, .received (.agentTrace "r" (some 3)),
    .lost .closed, .closed false, .controlRun "r" "pause" none, .opened]

theorem kept_of_run_reconnected :
    ∃ s, run step {} reconnected = some s ∧ s.isOpen = true ∧ Kept s :=
  ⟨_, rfl, rfl, kept_of_run reconnected _ rfl ⟨trivial, trivial, fun _ _ => rfl, rfl, trivial,
    trivial, trivial, trivial, trivial⟩⟩

/-- **Unsubscribed and subscribed again offline.** The subscription is sent on open and then the
unsubscription that is still pending, although the caller wants the run. -/
theorem resubscribed_offline_is_unsubscribed :
    ∃ s, run step {} [.connect, .opened, .subscribeRun "r" none, .lost .closed,
        .unsubscribeRun "r", .subscribeRun "r" none, .opened] = some s ∧ s.isOpen = true ∧
      Wanted s.log "r" ∧ ¬SubscribedOn s.connection s.log "r" :=
  ⟨_, rfl, rfl, rfl, nofun⟩

end EvernightAI.SocketClient

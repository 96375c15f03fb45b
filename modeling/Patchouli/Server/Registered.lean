import Patchouli.Server.Settled

/-!
# The events of a session

The daemon runs a task for a subscription when the answer to its `subscribe` is written, and the
client has the subscription when it has read this answer; the daemon ends the task before it answers
an `unsubscribe`, and the client forgets the subscription when it has read that answer. So what the
client makes of the lines ahead of it is ahead of the daemon's tasks: an event comes for a
subscription the client knows when it reads it.

## Main definitions

* `registered`, `EventsHandled` — what lines do to a client with some subscriptions
* `Session.Registered`

## Main results

* `Session.events_handled`
-/

namespace Patchouli

open Json (Value)

/-! ### Subscriptions of the daemon -/

theorem rpcFailure_ne_success (id error id' result : Value) :
    rpcFailure id error ≠ rpcSuccess id' result := by
  simp [rpcFailure, rpcSuccess]

theorem rpcError_ne_success (id : Value) (code : Int64) (message : String) (id' result : Value) :
    rpcError id code message ≠ rpcSuccess id' result := by
  unfold rpcError
  split
  · exact rpcFailure_ne_success _ _ _ _
  · exact rpcFailure_ne_success _ _ _ _

theorem say_error_ne_success {σ : Type} (handshaken : Bool) (s : σ) (id : Value) (code : Int64)
    (message : String) (id' result : Value) :
    (Turn.say handshaken s (rpcError id code message)).response ≠ rpcSuccess id' result :=
  rpcError_ne_success id code message id' result

theorem rpcMethodError_ne_success (id : Value) (error : MethodError) (id' result : Value) :
    rpcMethodError id error ≠ rpcSuccess id' result := by
  unfold rpcMethodError
  cases error with
  | backend error => exact rpcFailure_ne_success _ _ _ _
  | artifact error =>
    unfold rpcArtifactError
    cases error <;> exact rpcError_ne_success _ _ _ _ _
  | internal message => exact rpcError_ne_success _ _ _ _ _

namespace Daemon

variable {σ : Type} {d : Daemon σ} {now : ℕ → ℕ} {s : σ} {handshaken : Bool}

/-- `dispatch` starts no task and aborts none. -/
theorem dispatch_still (line : String) :
    (d.dispatch now s handshaken line).opened = none ∧
      (d.dispatch now s handshaken line).closed = none := by
  unfold dispatch
  split
  · exact ⟨rfl, rfl⟩
  · dsimp only
    split
    · exact ⟨rfl, rfl⟩
    · split
      · exact ⟨rfl, rfl⟩
      · split
        · unfold shakeHands
          split
          · exact ⟨rfl, rfl⟩
          · split <;> exact ⟨rfl, rfl⟩
        · split
          · exact ⟨rfl, rfl⟩
          · split
            · exact ⟨rfl, rfl⟩
            · exact ⟨rfl, rfl⟩
            · unfold Daemon.run
              split <;> exact ⟨rfl, rfl⟩
  · exact ⟨rfl, rfl⟩

theorem openSubscription_opened {next : ℕ} {id params : Value} {name : String}
    (h : (d.openSubscription s next id params).opened = some name) :
    ∃ cursor, (d.openSubscription s next id params).response =
      rpcSuccess id (rpcResult [("cursor", .string cursor), ("subscription_id", .string name)]) := by
  unfold openSubscription at h ⊢
  cases hread : d.readSubscribe params with
  | error message =>
    simp only [hread, Turn.say] at h
    cases h
  | ok params =>
    simp only [hread] at h ⊢
    cases hsubscribe : d.subscribe params s with
    | mk outcome s' =>
      cases outcome with
      | error error =>
        simp only [hsubscribe, Turn.say] at h
        cases h
      | ok cursor =>
        simp only [hsubscribe, Turn.say] at h ⊢
        rw [Option.some.inj h]
        exact ⟨cursor, rfl⟩

theorem unsubscribe_opened (names : List String) (id params : Value) :
    (d.unsubscribe now s names id params).opened = none := by
  unfold unsubscribe
  split
  · rfl
  · split <;> rfl

/-- Where an `unsubscribe` gets a result, the task of the subscription it names is over. -/
theorem unsubscribe_closed {names : List String} {id params id' result : Value} {name : String}
    (hname : ∀ metadata name', d.readUnsubscribe params = .ok (metadata, name') → name' = name)
    (h : (d.unsubscribe now s names id params).response = rpcSuccess id' result)
    (hmem : name ∈ names) : (d.unsubscribe now s names id params).closed = some name := by
  unfold unsubscribe at h ⊢
  cases hread : d.readUnsubscribe params with
  | error message =>
    simp only [hread, Turn.say] at h
    exact absurd h (rpcError_ne_success _ _ _ _ _)
  | ok read =>
    obtain ⟨metadata, name'⟩ := read
    obtain rfl := hname metadata name' hread
    simp only [hread] at h ⊢
    cases htime : checkNow metadata (now 0) with
    | error error =>
      simp only [htime, Turn.say] at h
      exact absurd h (rpcMethodError_ne_success _ _ _ _)
    | ok _ => exact if_pos hmem

/-- What `handle_subscription` handles is one or the other. -/
theorem handleSubscription_eq {names : List String} {next : ℕ} {line : String} {turn : Turn σ}
    (h : d.handleSubscription now s names next line = some turn) :
    ∃ fields, d.parse line = some (.object fields) ∧
      ((requestMethod fields = some Methods.changesUnsubscribe ∧
          turn = d.unsubscribe now s names (requestId fields) (requestParams fields)) ∨
        (requestMethod fields = some Methods.changesSubscribe ∧
          turn = d.openSubscription s next (requestId fields) (requestParams fields))) := by
  unfold handleSubscription at h
  split at h
  · rename_i fields hparse
    refine ⟨fields, hparse, ?_⟩
    split at h
    · rename_i method hmethod
      split_ifs at h with hother hvalid hunsubscribe
      · exact Or.inl ⟨hunsubscribe ▸ hmethod, (Option.some.inj h).symm⟩
      · have hsubscribe : method = Methods.changesSubscribe := by
          by_contra hne
          exact hother ⟨hne, hunsubscribe⟩
        exact Or.inr ⟨hsubscribe ▸ hmethod, (Option.some.inj h).symm⟩
    · cases h
  · cases h

/-- A task is started for a `subscribe`, and its subscription is the one answered. -/
theorem serveFrame_opened {names : List String} {next : ℕ} {frame : RequestFrame} {name : String}
    (h : (d.serveFrame now s handshaken names next frame).opened = some name) :
    ∃ line fields cursor, frame = .line line ∧ d.parse line = some (.object fields) ∧
      requestMethod fields = some Methods.changesSubscribe ∧
      (d.serveFrame now s handshaken names next frame).response = rpcSuccess (requestId fields)
        (rpcResult [("cursor", .string cursor), ("subscription_id", .string name)]) := by
  cases frame with
  | invalidUtf8 => cases h
  | tooLarge => cases h
  | line line =>
    simp only [serveFrame] at h ⊢
    split at h
    · rename_i hhandshaken
      rw [if_pos hhandshaken]
      cases hhandled : d.handleSubscription now s names next line with
      | none =>
        rw [hhandled, Option.getD_none, (dispatch_still line).1] at h
        cases h
      | some turn =>
        rw [hhandled, Option.getD_some] at h
        obtain ⟨fields, hparse, ⟨-, rfl⟩ | ⟨hmethod, rfl⟩⟩ := handleSubscription_eq hhandled
        · rw [unsubscribe_opened] at h
          cases h
        · obtain ⟨cursor, hresponse⟩ := openSubscription_opened h
          exact ⟨line, fields, cursor, rfl, hparse, hmethod, hresponse⟩
    · rw [(dispatch_still line).1] at h
      cases h

/-- An `unsubscribe` gets its result from `handle_subscription` alone. -/
theorem dispatch_unsubscribe {line : String} {fields : Meta} {id result : Value}
    (hparse : d.parse line = some (.object fields))
    (hmethod : requestMethod fields = some Methods.changesUnsubscribe) :
    (d.dispatch now s handshaken line).response ≠ rpcSuccess id result := by
  have hnone : (d.methods (requestParams fields)).lookup Methods.changesUnsubscribe = none := rfl
  have hne : Methods.changesUnsubscribe ≠ Methods.handshake := by decide
  unfold dispatch
  rw [hparse]
  dsimp only
  rw [hmethod]
  dsimp only
  rw [if_neg hne, hnone]
  split_ifs
  · exact say_error_ne_success _ _ _ _ _ _ _
  · exact say_error_ne_success _ _ _ _ _ _ _
  · exact say_error_ne_success _ _ _ _ _ _ _

/-- When an `unsubscribe` succeeds, the task of its subscription is over. -/
theorem serveFrame_closed {names : List String} {next : ℕ} {line name : String} {fields : Meta}
    {id result : Value} (hparse : d.parse line = some (.object fields))
    (hmethod : requestMethod fields = some Methods.changesUnsubscribe)
    (hname : ∀ metadata name', d.readUnsubscribe (requestParams fields) = .ok (metadata, name') →
      name' = name)
    (h : (d.serveFrame now s handshaken names next (.line line)).response = rpcSuccess id result)
    (hmem : name ∈ names) :
    (d.serveFrame now s handshaken names next (.line line)).closed = some name := by
  simp only [serveFrame] at h ⊢
  split at h
  · rename_i hhandshaken
    rw [if_pos hhandshaken]
    cases hhandled : d.handleSubscription now s names next line with
    | none =>
      rw [hhandled, Option.getD_none] at h
      exact absurd h (dispatch_unsubscribe hparse hmethod)
    | some turn =>
      rw [hhandled, Option.getD_some] at h
      obtain ⟨fields', hparse', ⟨-, rfl⟩ | ⟨hmethod', -⟩⟩ := handleSubscription_eq hhandled
      · obtain rfl : fields = fields' := Value.object.inj (Option.some.inj (hparse.symm.trans hparse'))
        exact unsubscribe_closed hname h hmem
      · obtain rfl : fields = fields' := Value.object.inj (Option.some.inj (hparse.symm.trans hparse'))
        rw [hmethod] at hmethod'
        exact absurd (Option.some.inj hmethod') (by decide)
  · exact absurd h (dispatch_unsubscribe hparse hmethod)

/-- What the daemon does not read gets no result. -/
theorem serveFrame_unread {codec : SessionCodec} {names : List String} {next : ℕ}
    {call : ServiceCall} {id : ℕ} (h : Unread d codec call id) (id' result : Value) :
    (d.serveFrame now s handshaken names next
      (frameOf (codec.stringify (call.request id)))).response ≠ rpcSuccess id' result := by
  rw [frameOf_eq]
  split
  · exact say_error_ne_success _ _ _ _ _ _ _
  · rename_i hfits
    have hparse := h.resolve_left hfits
    have hdispatch : (d.dispatch now s handshaken
        (codec.stringify (call.request id))).response ≠ rpcSuccess id' result := by
      unfold dispatch
      rw [hparse]
      exact say_error_ne_success _ _ _ _ _ _ _
    simp only [serveFrame]
    split
    · have hnone : d.handleSubscription now s names next
          (codec.stringify (call.request id)) = none := by
        unfold handleSubscription
        rw [hparse]
      rw [hnone]
      exact hdispatch
    · exact hdispatch

end Daemon

/-! ### Lines ahead of a client -/

section Lines

variable (codec : SessionCodec)

/-- The subscriptions of a client that reads a line. -/
def WireMessage.register (names : List String) : WireMessage → List String
  | response exchange => exchange.register codec names
  | event _ _ => names

/-- The subscriptions of a client that has read some lines. -/
def registered (names : List String) (messages : List WireMessage) : List String :=
  messages.foldl (WireMessage.register codec) names

/-- Every event among some lines comes for a subscription the client has when it reads it. -/
def EventsHandled : List String → List WireMessage → Prop
  | _, [] => True
  | names, message :: rest =>
    (∀ name yielded, message = .event name yielded → name ∈ names) ∧
      EventsHandled (message.register codec names) rest

/-- What is handled of the events among some lines. -/
def eventsIn (messages : List WireMessage) : List (String × Value) :=
  messages.filterMap fun message => match message with
    | .response _ => none
    | .event name yielded => some (name, codec.seen (yielded.params name))

variable {codec} {names : List String}

@[simp] theorem registered_nil : registered codec names [] = names := rfl

@[simp] theorem registered_cons (message : WireMessage) (rest : List WireMessage) :
    registered codec names (message :: rest) =
      registered codec (message.register codec names) rest := rfl

@[simp] theorem registered_append (messages others : List WireMessage) :
    registered codec names (messages ++ others) =
      registered codec (registered codec names messages) others :=
  List.foldl_append

theorem eventsHandled_append {messages others : List WireMessage} :
    EventsHandled codec names (messages ++ others) ↔
      EventsHandled codec names messages ∧
        EventsHandled codec (registered codec names messages) others := by
  induction messages generalizing names with
  | nil => simp [EventsHandled]
  | cons message rest ih => simp only [List.cons_append, EventsHandled, ih, registered_cons, and_assoc]

theorem eventsIn_concat (messages : List WireMessage) (message : WireMessage) :
    eventsIn codec (messages ++ [message]) = eventsIn codec messages ++
      eventsIn codec [message] :=
  List.filterMap_append

end Lines

/-! ### Registration -/

section Register

variable {σ : Type} {codec : SessionCodec} {d : Daemon σ} {e : Exchange} {id : Value}
  {names : List String} {name : String}

/-- An answer with a result, as the client sees it. -/
theorem seenFields_success (hlaw : codec.Lawful d) {result : Value}
    (h : e.response = rpcSuccess id result) :
    (e.seenFields codec).lookup "error" = none ∧
      (e.seenFields codec).lookup "result" = some (codec.seen result) := by
  unfold Exchange.seenFields
  rw [h, seen_success hlaw]
  exact ⟨rfl, rfl⟩

theorem seenFields_failure (hlaw : codec.Lawful d) {error : Value}
    (h : e.response = rpcFailure id error) :
    (e.seenFields codec).lookup "error" = some (codec.seen error) := by
  unfold Exchange.seenFields
  rw [h, seen_failure hlaw]
  rfl

/-- An answer without a result changes no subscription. -/
theorem register_failure (hlaw : codec.Lawful d) (h : RpcResponse id e.response)
    (hnot : ∀ result, e.response ≠ rpcSuccess id result) : e.register codec names = names := by
  generalize hresponse : e.response = response at h
  cases h with
  | success result hresult => exact absurd hresponse (hnot result)
  | failure error herror =>
    unfold Exchange.register
    rw [seenFields_failure hlaw hresponse]

/-- A subscription is kept, unless its `unsubscribe` has a result. -/
theorem mem_register (hlaw : codec.Lawful d) (h : RpcResponse id e.response) (hmem : name ∈ names)
    (hkept : ∀ metadata result, e.call = .unsubscribe metadata name →
      e.response ≠ rpcSuccess id result) : name ∈ e.register codec names := by
  generalize hresponse : e.response = response at h
  cases h with
  | failure error herror =>
    unfold Exchange.register
    rw [seenFields_failure hlaw hresponse]
    exact hmem
  | success result hresult =>
    unfold Exchange.register
    rw [(seenFields_success hlaw hresponse).1]
    cases hcall : e.call with
    | plain method params => exact hmem
    | unsubscribe metadata other =>
      refine List.mem_filter.mpr ⟨hmem, decide_eq_true ?_⟩
      rintro rfl
      exact hkept metadata result hcall hresponse
    | subscribe params =>
      dsimp only
      split
      · rename_i heq
        cases heq
      · split_ifs
        · exact hmem
        · exact List.mem_append_left _ hmem
      · exact hmem

/-- The answer to a `subscribe` registers its subscription. -/
theorem mem_register_subscribe (hlaw : codec.Lawful d) {params : Value} {cursor : String}
    (hcall : e.call = .subscribe params)
    (hresponse : e.response = rpcSuccess id (rpcResult
      [("cursor", .string cursor), ("subscription_id", .string name)])) :
    name ∈ e.register codec names := by
  obtain ⟨herror, hresult⟩ := seenFields_success hlaw hresponse
  have hname : subscriptionIdOf ((e.seenFields codec).lookup "result") =
      some (some (.string name)) := by
    rw [hresult]
    simp only [rpcResult, hlaw.seen_object, List.map_cons, List.map_nil, hlaw.seen_string]
    rfl
  unfold Exchange.register
  rw [herror, hname, hcall]
  dsimp only
  split_ifs with hmem
  · exact hmem
  · exact List.mem_append_right _ (List.mem_singleton_self _)

end Register

/-! ### What is registered -/

namespace Connection

variable {conn : Connection} {rest : List Char} {name : String}

theorem yield_names (conn : Connection) (name : String) (yielded : YieldedChange) :
    (conn.yield name yielded).names = conn.names := by
  simp only [Connection.yield, names, List.map_map]
  refine List.map_congr_left fun task _ => ?_
  simp only [Function.comp_apply]
  split
  · rename_i h
    exact h.1.symm
  · rfl

/-- A line that is written to its end starts the task of its answer. -/
theorem mem_proceed_names {writer : LineWriter} (h : name ∈ (conn.proceed writer rest).names) :
    name ∈ conn.names ∨
      writer = .main ∧ ∃ reply, conn.reply = some reply ∧ reply.opened = some name := by
  unfold proceed at h
  split at h
  · cases writer with
    | main =>
      cases hreply : conn.reply with
      | none =>
        simp only [finish, hreply] at h
        exact Or.inl h
      | some reply =>
        simp only [finish, hreply, names, List.map_append, List.mem_append, List.map_map] at h
        rcases h with hold | hnew
        · exact Or.inl hold
        · obtain ⟨opened, hopened, rfl⟩ := List.mem_map.mp hnew
          exact Or.inr ⟨rfl, reply, rfl, Option.mem_toList.mp hopened⟩
    | task holder =>
      refine Or.inl ?_
      simp only [finish, names, List.map_map] at h
      obtain ⟨task, htask, rfl⟩ := List.mem_map.mp h
      refine List.mem_map.mpr ⟨task, htask, ?_⟩
      simp only [Function.comp_apply]
      split
      · assumption
      · rfl
  · exact Or.inl h

end Connection

namespace Session

variable {σ : Type} {d : Daemon σ} {codec : SessionCodec} {w : Session σ}

variable (w) in
/-- The lines ahead of the client, and the answer that waits to be one. -/
def upcoming : List WireMessage := w.ahead ++ w.unbegun.map .response

variable (codec w) in
/-- **The client has, or will have, every subscription there is a task for**, and every event ahead
of it comes while it has its subscription. -/
structure Registered : Prop where
  handled : w.client.handled = eventsIn codec w.read
  ahead : EventsHandled codec w.client.subscriptions w.ahead
  tasks : ∀ name ∈ w.conn.names, name ∈ registered codec w.client.subscriptions w.ahead
  answered : ∀ name ∈ w.conn.names, name ∈ registered codec w.client.subscriptions w.upcoming
  opened : ∀ reply name, w.conn.reply = some reply → reply.opened = some name →
    name ∈ registered codec w.client.subscriptions w.upcoming

theorem Registered.of_eq (h : w.Registered codec) {w' : Session σ}
    (hclient : w'.client.handled = w.client.handled ∧
      w'.client.subscriptions = w.client.subscriptions)
    (hread : w'.read = w.read) (hahead : w'.ahead = w.ahead) (hunbegun : w'.unbegun = w.unbegun)
    (hconn : w'.conn.names = w.conn.names ∧ w'.conn.reply = w.conn.reply) :
    w'.Registered codec := by
  obtain ⟨hhandled, hsubscriptions⟩ := hclient
  obtain ⟨hnames, hreply⟩ := hconn
  have hupcoming : w'.upcoming = w.upcoming := by rw [upcoming, hahead, hunbegun, upcoming]
  constructor
  · rw [hhandled, hread]
    exact h.handled
  · rw [hsubscriptions, hahead]
    exact h.ahead
  · rw [hnames, hsubscriptions, hahead]
    exact h.tasks
  · rw [hnames, hsubscriptions, hupcoming]
    exact h.answered
  · rw [hreply, hsubscriptions, hupcoming]
    exact h.opened

/-- A writer that goes on, or begins a line. -/
theorem Registered.proceed (h : w.Registered codec) (writer : LineWriter) {wire rest : List Char}
    {begun : List WireMessage}
    (hevents : EventsHandled codec (registered codec w.client.subscriptions w.ahead) begun)
    (hregister : ∀ names, registered codec names begun =
      registered codec names (if writer = .main then w.unbegun.map .response else []))
    (hwaits : (w.conn.proceed writer rest).waits = if writer = .main then false else w.conn.waits) :
    Registered codec { w with
      wire, conn := w.conn.proceed writer rest, ahead := w.ahead ++ begun } := by
  have hunbegun : (if (w.conn.proceed writer rest).waits then w.exchanges.getLast?.toList else []) =
      if writer = .main then [] else w.unbegun := by
    rw [hwaits]
    split
    · rfl
    · rfl
  have hreply : ∀ r, (w.conn.proceed writer rest).reply = some r → w.conn.reply = some r := by
    intro r hr
    cases writer with
    | main =>
      rw [Connection.proceed_main.2] at hr
      split_ifs at hr
      exact hr
    | task name => rwa [(Connection.proceed_task name).2] at hr
  -- What is registered in the end is the same as before.
  have hsame : registered codec w.client.subscriptions (w.ahead ++ begun ++
      List.map .response (if writer = .main then [] else w.unbegun)) =
        registered codec w.client.subscriptions w.upcoming := by
    rw [upcoming, registered_append, registered_append, hregister, registered_append]
    cases writer with
    | main => simp
    | task name => simp
  have htasks : ∀ name ∈ (w.conn.proceed writer rest).names,
      name ∈ registered codec w.client.subscriptions (w.ahead ++ begun) ∧
        name ∈ registered codec w.client.subscriptions w.upcoming := by
    intro name hname
    rw [registered_append, hregister]
    cases writer with
    | main =>
      rw [if_pos rfl, ← registered_append]
      refine and_self_iff.mpr ?_
      rcases Connection.mem_proceed_names hname with hold | ⟨-, reply, hr, hopened⟩
      · exact h.answered name hold
      · exact h.opened reply name hr hopened
    | task holder =>
      rcases Connection.mem_proceed_names hname with hold | ⟨hmain, -⟩
      · exact ⟨h.tasks name hold, h.answered name hold⟩
      · cases hmain
  exact {
    handled := h.handled
    ahead := eventsHandled_append.mpr ⟨h.ahead, hevents⟩
    tasks := fun name hname => (htasks name hname).1
    answered := fun name hname => by
      unfold upcoming unbegun
      rw [hunbegun, hsame]
      exact (htasks name hname).2
    opened := fun r name hr hopened => by
      unfold upcoming unbegun
      rw [hunbegun, hsame]
      exact h.opened r name (hreply r hr) hopened }

theorem write_registered (h : w.Registered codec) (writer : LineWriter) (amount : ℕ) :
    (w.write codec writer amount).Registered codec := by
  unfold write
  split
  · exact h
  · split
    · rename_i holder rest hlock
      split
      · rename_i hholder
        subst hholder
        have hgoes := @Registered.proceed σ codec w h holder (w.wire ++ rest.take (amount + 1))
          (rest.drop (amount + 1)) [] trivial ?_ ?_
        · rwa [List.append_nil] at hgoes
        · intro names
          cases holder with
          | main => simp [unbegun, Connection.waits, hlock]
          | task name => simp
        · cases holder with
          | main => rw [Connection.proceed_main.1, if_pos rfl]
          | task name =>
            rw [(Connection.proceed_task name).1]
            simp [Connection.waits, hlock]
      · exact h
    · rename_i hlock
      have hwaits : w.conn.waits = w.conn.reply.isSome := by simp [Connection.waits, hlock]
      cases hmessage : w.line? writer with
      | none => exact h
      | some message =>
        cases writer with
        | main =>
          obtain ⟨r, hr, hlast⟩ := Option.bind_eq_some_iff.mp hmessage
          obtain ⟨e, he, rfl⟩ := Option.map_eq_some_iff.mp hlast
          refine h.proceed .main ⟨?_, trivial⟩ ?_ ?_
          · intro name yielded hevent
            cases hevent
          · intro names
            simp [unbegun, hwaits, hr, he]
          · rw [Connection.proceed_main.1, if_pos rfl]
        | task name =>
          obtain ⟨task, htask, hyielded⟩ := Option.bind_eq_some_iff.mp hmessage
          obtain ⟨yielded, -, rfl⟩ := Option.map_eq_some_iff.mp hyielded
          have hname : name ∈ w.conn.names := by
            have hfound := List.find?_some htask
            rw [decide_eq_true_eq] at hfound
            exact List.mem_map.mpr ⟨task, List.mem_of_find?_eq_some htask, hfound.1⟩
          refine h.proceed (.task name) ⟨?_, trivial⟩ (fun names => rfl) ?_
          · intro other yielded' hevent
            obtain ⟨rfl, -⟩ := WireMessage.event.inj hevent
            exact h.tasks name hname
          · rw [(Connection.proceed_task name).1, hwaits]
            rfl

theorem subscribe_of_method {call : ServiceCall} (h : call.method = Methods.changesSubscribe) :
    ∃ params, call = .subscribe params := by
  have hunsubscribe : Methods.changesUnsubscribe ≠ Methods.changesSubscribe := by decide
  have hplain : ∀ method : PlainMethod, method.text ≠ Methods.changesSubscribe := by
    intro method
    cases method <;> decide
  cases call with
  | subscribe params => exact ⟨params, rfl⟩
  | unsubscribe metadata name => exact absurd h hunsubscribe
  | plain method params => exact absurd h (hplain method)

/-- **An `unsubscribe` ends its task before it is answered**, and a `subscribe` names the task that
starts after its answer. -/
theorem take_registered (hlaw : codec.Lawful d) (hsafe : w.calls.length < 2 ^ 53)
    (hanswered : w.Answered d codec) (h : w.Registered codec) (now : ℕ → ℕ) :
    (w.take d now).Registered codec := by
  have hafter : (w.take d now).Answered d codec := take_answered hanswered now
  revert hafter
  unfold take
  split
  · rename_i text rest call hover hreply hrequest hcall
    intro hafter
    have hwaits : w.conn.waits = false := by simp [Connection.waits, hreply]
    have hupcoming : w.upcoming = w.ahead := by
      rw [upcoming, unbegun, hwaits, if_neg (by simp), List.map_nil, List.append_nil]
    have htext := (hanswered.request hrequest hcall).1
    obtain ⟨hwaits', -⟩ := hanswered.take_waits hreply (d.serveFrame now w.state w.conn.handshaken
      w.conn.names w.conn.nextSubscriptionId (frameOf text))
    dsimp only at hafter ⊢
    generalize hturn : d.serveFrame now w.state w.conn.handshaken w.conn.names
      w.conn.nextSubscriptionId (frameOf text) = turn at hafter hwaits' ⊢
    obtain ⟨id, -, hresponse, hid⟩ := hafter.response hlaw hsafe
      (show (w.exchanges ++ [⟨call, turn.response⟩])[w.exchanges.length]? =
        some ⟨call, turn.response⟩ from List.getElem?_concat_length)
    dsimp only at hresponse hid
    -- A result tells that the daemon read the request.
    have hread : ∀ id' result, turn.response = rpcSuccess id' result →
        ¬ Unread d codec call (w.exchanges.length + 1) ∧ w.exchanges.length + 1 < 2 ^ 53 := by
      intro id' result hsuccess
      rcases hid with ⟨hunread, -⟩ | ⟨hfits, -, hbound⟩
      · rw [← hturn, htext] at hsuccess
        exact absurd hsuccess (Daemon.serveFrame_unread hunread id' result)
      · exact ⟨hfits, hbound⟩
    have htasks : ∀ name ∈ (w.conn.take turn).names, name ∈ w.conn.names ∧
        some name ≠ turn.closed := by
      intro name hname
      obtain ⟨task, htask, rfl⟩ := List.mem_map.mp hname
      obtain ⟨hmem, hopen⟩ := List.mem_filter.mp htask
      exact ⟨List.mem_map_of_mem hmem, of_decide_eq_true hopen⟩
    have hupcoming' : ∀ (turnConn : Connection), turnConn.waits = true →
        w.ahead ++ (if turnConn.waits then
          (w.exchanges ++ [Exchange.mk call turn.response]).getLast?.toList else []).map .response =
            w.ahead ++ [.response (Exchange.mk call turn.response)] := by
      intro turnConn hturnConn
      rw [if_pos hturnConn, List.getLast?_concat]
      rfl
    exact {
      handled := h.handled
      ahead := h.ahead
      tasks := fun name hname => h.tasks name (htasks name hname).1
      answered := fun name hname => by
        obtain ⟨hold, hopen⟩ := htasks name hname
        unfold upcoming unbegun
        rw [hupcoming' _ hwaits', registered_append]
        refine mem_register hlaw hresponse (h.tasks name hold) fun metadata result hunsubscribe => ?_
        intro hsuccess
        obtain ⟨hfits, hbound⟩ := hread _ _ hsuccess
        obtain ⟨fields, hparse, -, hmethod, hnames⟩ := hlaw.read hbound hfits
        refine hopen (Eq.symm ?_)
        rw [← hturn, htext, frameOf_unread hfits] at hsuccess ⊢
        dsimp only at hunsubscribe
        rw [hunsubscribe] at hmethod
        exact Daemon.serveFrame_closed hparse hmethod (hnames metadata name hunsubscribe) hsuccess
          hold
      opened := fun reply name hr hopened => by
        obtain rfl := Option.some.inj hr
        dsimp only at hopened
        unfold upcoming unbegun
        rw [hupcoming' _ hwaits', registered_append]
        rw [← hturn] at hopened
        obtain ⟨line, fields, cursor, hframe, hparse, hmethod, hsuccess⟩ :=
          Daemon.serveFrame_opened hopened
        rw [hturn] at hsuccess
        obtain ⟨hfits, hbound⟩ := hread _ _ hsuccess
        obtain ⟨fields', hparse', -, hmethod', -⟩ := hlaw.read hbound hfits
        rw [htext, frameOf_unread hfits] at hframe
        obtain rfl := RequestFrame.line.inj hframe
        obtain rfl : fields = fields' :=
          Value.object.inj (Option.some.inj (hparse.symm.trans hparse'))
        obtain ⟨params, hcall'⟩ := subscribe_of_method (Option.some.inj (hmethod'.symm.trans hmethod))
        exact mem_register_subscribe hlaw hcall' hsuccess }
  · intro _
    exact h

/-- What a connected client makes of the next answer. -/
theorem Settled.registers (hlaw : codec.Lawful d) (hsafe : w.calls.length < 2 ^ 53)
    (hanswered : w.Answered d codec) (h : w.Settled d codec)
    (hconnected : w.client.connected = true) {c : ServiceClient} {rest : List Char}
    (hc : c = { w.client with buffer := rest }) {e : Exchange} {others : List WireMessage}
    (hahead : w.ahead = .response e :: others) :
    (c.receiveMessage (codec.seen e.response)).subscriptions =
        e.register codec w.client.subscriptions ∧
      (c.receiveMessage (codec.seen e.response)).handled = w.client.handled := by
  set k := (answersIn w.read).length with hk
  have hnext : w.exchanges[k]? = some e := hanswered.next hahead
  obtain ⟨id, -, hresponse, hid⟩ := hanswered.response hlaw hsafe hnext
  obtain ⟨hseen, hmethod, hfieldId, herror⟩ := seenFields_response hlaw hresponse
  have hreceive : c.receiveMessage (codec.seen e.response) =
      c.receiveResponse (e.seenFields codec) := by
    rw [hseen]
    simp only [ServiceClient.receiveMessage, hmethod, Option.isSome_none, Bool.false_eq_true,
      if_false]
  have hclient : c.pending = w.client.pending ∧ c.subscriptions = w.client.subscriptions ∧
      c.handled = w.client.handled := by
    rw [hc]
    exact ⟨rfl, rfl, rfl⟩
  rw [hreceive]
  rcases hid with ⟨hunread, rfl⟩ | ⟨hfits, rfl, hbound⟩
  · have hsame : c.receiveResponse (e.seenFields codec) = c := by
      unfold ServiceClient.receiveResponse
      rw [hfieldId, hlaw.seen_null]
    obtain ⟨now, s, handshaken, names, next, hserved, -⟩ := hanswered.served k e hnext
    rw [hsame, hclient.2.1, hclient.2.2, register_failure hlaw hresponse fun result => ?_]
    · exact ⟨rfl, rfl⟩
    · rw [hserved]
      exact Daemon.serveFrame_unread hunread _ _
  · rw [hlaw.seen_id _ hbound] at hfieldId
    have hunsettled : k + 1 ∉ w.client.settled.map (·.1) := by
      intro hmem
      obtain ⟨entry, hentry, hentryId⟩ := List.mem_map.mp hmem
      rcases h.outcome entry hentry with ⟨i, e', hi, he', -⟩ | ⟨hlost, -⟩
      · have hlt := (List.getElem?_eq_some_iff.mp he').1
        omega
      · rw [hconnected] at hlost
        cases hlost
    have hlookup : c.pending.lookup (k + 1) = some e.call := by
      rw [hclient.1, h.pending, if_neg hunsettled, callOf, hanswered.call hnext]
    obtain ⟨-, -, -, hsubscriptions, hhandled, -⟩ :=
      ServiceClient.receiveResponse_pending codec e (lt_trans hbound (by decide)) hfieldId
        herror hlookup
    rw [hclient.2.1] at hsubscriptions
    exact ⟨hsubscriptions, hhandled.trans hclient.2.2⟩

theorem turn_registered (hlaw : codec.Lawful d) (hsafe : w.calls.length < 2 ^ 53)
    (hframed : w.Framed codec) (hanswered : w.Answered d codec) (hsettled : w.Settled d codec)
    (h : w.Registered codec) (hconnected : w.client.connected = true) :
    (w.turn codec).Registered codec := by
  cases hfirst : Lines.firstLine (Char.ofNat 10) w.client.buffer with
  | none =>
    have hturn : w.turn codec = w := by
      unfold turn
      rw [hfirst, ServiceClient.turn_none hfirst]
    rw [hturn]
    exact h
  | some parts =>
    obtain ⟨line, rest⟩ := parts
    obtain ⟨message, others, hahead, rfl, -⟩ := hframed.turn hfirst
    have hsound : message.Sound := hanswered.sound hlaw hsafe (hahead ▸ List.mem_cons_self)
    obtain ⟨hevent, hothers⟩ : (∀ name yielded, message = .event name yielded →
        name ∈ w.client.subscriptions) ∧
        EventsHandled codec (message.register codec w.client.subscriptions) others := by
      have hevents := h.ahead
      rwa [hahead] at hevents
    unfold turn
    rw [hfirst, hahead]
    dsimp only
    rw [hlaw.turn_eq hsound hfirst]
    -- The client has what it would have had after this line.
    obtain ⟨hsubscriptions, hhandled⟩ :
        (ServiceClient.receiveMessage { w.client with buffer := rest }
          (codec.seen message.value)).subscriptions =
            message.register codec w.client.subscriptions ∧
        (ServiceClient.receiveMessage { w.client with buffer := rest }
          (codec.seen message.value)).handled =
            w.client.handled ++ eventsIn codec [message] := by
      cases message with
      | response e =>
        obtain ⟨hsubscriptions, hhandled⟩ :=
          hsettled.registers hlaw hsafe hanswered hconnected rfl hahead
        exact ⟨hsubscriptions, hhandled.trans (List.append_nil _).symm⟩
      | event name yielded =>
        rw [WireMessage.value, receive_event hlaw, if_pos (hevent name yielded rfl)]
        exact ⟨rfl, rfl⟩
    have hupcoming : registered codec w.client.subscriptions w.upcoming =
        registered codec (message.register codec w.client.subscriptions)
          (others ++ w.unbegun.map .response) := by
      rw [upcoming, hahead, List.cons_append, registered_cons]
    exact {
      handled := by
        show (ServiceClient.receiveMessage _ _).handled = eventsIn codec (w.read ++ [message])
        rw [hhandled, h.handled, eventsIn_concat]
      ahead := by
        show EventsHandled codec (ServiceClient.receiveMessage _ _).subscriptions others
        rw [hsubscriptions]
        exact hothers
      tasks := fun name hname => by
        show name ∈ registered codec (ServiceClient.receiveMessage _ _).subscriptions others
        have hold := h.tasks name hname
        rw [hahead, registered_cons] at hold
        rw [hsubscriptions]
        exact hold
      answered := fun name hname => by
        show name ∈ registered codec (ServiceClient.receiveMessage _ _).subscriptions
          (others ++ w.unbegun.map .response)
        rw [hsubscriptions, ← hupcoming]
        exact h.answered name hname
      opened := fun reply name hr hopened => by
        show name ∈ registered codec (ServiceClient.receiveMessage _ _).subscriptions
          (others ++ w.unbegun.map .response)
        rw [hsubscriptions, ← hupcoming]
        exact h.opened reply name hr hopened }

variable (codec w) in
/-- What is handled of the events: those read, in their order, while the client is connected. -/
structure EventsKept : Prop where
  registered : w.client.connected = true → w.Registered codec
  handled : w.client.handled <+: eventsIn codec w.read

theorem EventsKept.of_registered {w' : Session σ} (h : w'.Registered codec) :
    w'.EventsKept codec :=
  ⟨fun _ => h, h.handled ▸ List.prefix_refl _⟩

/-- Without a connection, nothing is handled. -/
theorem turn_lost (hlaw : codec.Lawful d) (hsafe : w.calls.length < 2 ^ 53)
    (hframed : w.Framed codec) (hanswered : w.Answered d codec) (hsettled : w.Settled d codec)
    (hlost : w.client.connected = false) :
    (w.turn codec).client.handled = w.client.handled ∧
      (w.turn codec).client.connected = false ∧
      eventsIn codec w.read <+: eventsIn codec (w.turn codec).read := by
  cases hfirst : Lines.firstLine (Char.ofNat 10) w.client.buffer with
  | none =>
    have hturn : w.turn codec = w := by
      unfold turn
      rw [hfirst, ServiceClient.turn_none hfirst]
    rw [hturn]
    exact ⟨rfl, hlost, List.prefix_refl _⟩
  | some parts =>
    obtain ⟨line, rest⟩ := parts
    obtain ⟨message, others, hahead, rfl, -⟩ := hframed.turn hfirst
    have hsound : message.Sound := hanswered.sound hlaw hsafe (hahead ▸ List.mem_cons_self)
    obtain ⟨hpending, hsubscriptions⟩ := hsettled.lost hlost
    unfold turn
    rw [hfirst, hahead]
    dsimp only
    rw [hlaw.turn_eq hsound hfirst]
    refine ⟨?_, ?_, ?_⟩
    · cases message with
      | event name yielded =>
        rw [WireMessage.value, receive_event hlaw]
        split
        · rename_i hmem
          have hmem' : name ∈ w.client.subscriptions := hmem
          rw [hsubscriptions] at hmem'
          cases hmem'
        · rfl
      | response e =>
        obtain ⟨id, hid, hresponse⟩ := hsound
        obtain ⟨hseen, hmethod, -, -⟩ := seenFields_response hlaw hresponse
        rw [WireMessage.value, hseen]
        simp only [ServiceClient.receiveMessage, hmethod, Option.isSome_none, Bool.false_eq_true,
          if_false, ServiceClient.receiveResponse, hpending, List.lookup_nil]
        split <;> rfl
    · rw [(ServiceClient.keeps_receiveMessage _).connected]
      exact hlost
    · rw [eventsIn_concat]
      exact List.prefix_append _ _

theorem EventsKept.step (hlaw : codec.Lawful d) (hsafe : w.calls.length < 2 ^ 53)
    (hkept : w.Kept d codec) (h : w.EventsKept codec) (event : SessionEvent σ) :
    (w.step d codec event).EventsKept codec := by
  obtain ⟨hframed, hanswered, hsettled⟩ := hkept
  cases event with
  | call call =>
    simp only [Session.step, issue]
    split
    · exact ⟨fun hconnected => (h.registered hconnected).of_eq ⟨rfl, rfl⟩ rfl rfl rfl ⟨rfl, rfl⟩,
        h.handled⟩
    · exact h
  | deliver amount =>
    exact ⟨fun hconnected => (h.registered hconnected).of_eq ⟨rfl, rfl⟩ rfl rfl rfl ⟨rfl, rfl⟩,
      h.handled⟩
  | turn =>
    cases hconnected : w.client.connected with
    | true =>
      exact .of_registered
        (turn_registered hlaw hsafe hframed hanswered hsettled (h.registered hconnected) hconnected)
    | false =>
      obtain ⟨hhandled, hlost, hread⟩ :=
        turn_lost hlaw hsafe hframed hanswered hsettled hconnected
      refine ⟨fun hagain => ?_, ?_⟩
      · have hagain' : (w.turn codec).client.connected = true := hagain
        rw [hlost] at hagain'
        cases hagain'
      · show (w.turn codec).client.handled <+: eventsIn codec (w.turn codec).read
        rw [hhandled]
        exact h.handled.trans hread
  | fail =>
    refine ⟨fun hconnected => ?_, h.handled⟩
    cases hconnected
  | close =>
    refine ⟨fun hconnected => ?_, h.handled⟩
    cases hconnected
  | take now =>
    have hclient : (w.take d now).client = w.client ∧ (w.take d now).read = w.read := by
      unfold take
      split
      · exact ⟨rfl, rfl⟩
      · exact ⟨rfl, rfl⟩
    refine ⟨fun hconnected => take_registered hlaw hsafe hanswered (h.registered ?_) now, ?_⟩
    · exact hclient.1 ▸ hconnected
    · show (w.take d now).client.handled <+: eventsIn codec (w.take d now).read
      rw [hclient.1, hclient.2]
      exact h.handled
  | write writer amount =>
    have hclient : (w.write codec writer amount).client = w.client ∧
        (w.write codec writer amount).read = w.read := by
      unfold write
      split
      · exact ⟨rfl, rfl⟩
      · split
        · split
          · exact ⟨rfl, rfl⟩
          · exact ⟨rfl, rfl⟩
        · split
          · exact ⟨rfl, rfl⟩
          · exact ⟨rfl, rfl⟩
    refine ⟨fun hconnected => write_registered (h.registered ?_) writer amount, ?_⟩
    · exact hclient.1 ▸ hconnected
    · show (w.write codec writer amount).client.handled <+: eventsIn codec
        (w.write codec writer amount).read
      rw [hclient.1, hclient.2]
      exact h.handled
  | yield name yielded =>
    exact ⟨fun hconnected => (h.registered hconnected).of_eq ⟨rfl, rfl⟩ rfl rfl rfl
      ⟨Connection.yield_names _ _ _, rfl⟩, h.handled⟩
  | streamFailed name =>
    simp only [Session.step]
    split
    · exact ⟨fun hconnected => (h.registered hconnected).of_eq ⟨rfl, rfl⟩ rfl rfl rfl ⟨rfl, rfl⟩,
        h.handled⟩
    · exact h
  | stop =>
    exact ⟨fun hconnected => (h.registered hconnected).of_eq ⟨rfl, rfl⟩ rfl rfl rfl ⟨rfl, rfl⟩,
      h.handled⟩
  | outside state =>
    exact ⟨fun hconnected => (h.registered hconnected).of_eq ⟨rfl, rfl⟩ rfl rfl rfl ⟨rfl, rfl⟩,
      h.handled⟩

theorem Reaches.eventsKept (hlaw : codec.Lawful d) (h : Reaches d codec w)
    (htorn : w.torn = false) (hsafe : w.calls.length < 2 ^ 53) : w.EventsKept codec := by
  induction h with
  | start s handshake =>
    refine .of_registered ⟨rfl, trivial, ?_, ?_, ?_⟩
    · intro name hname
      cases hname
    · intro name hname
      cases hname
    · intro reply name hreply
      cases hreply
  | @step w event h ih =>
    have hlength := (@step_grows σ d codec w event).2.1
    have hkept := h.kept hlaw (step_whole htorn) (hlength.trans_lt hsafe)
    exact (ih (step_whole htorn) (hlength.trans_lt hsafe)).step hlaw (hlength.trans_lt hsafe)
      hkept event

/-- **Every event is handled for a subscription the client has**: of the events it has read it has
handled all, in their order, and of those ahead of it each comes after the answer to its `subscribe`
and before that to its `unsubscribe`. Without a connection no event is handled any more. -/
theorem events_handled (hlaw : codec.Lawful d) (h : Reaches d codec w) (htorn : w.torn = false)
    (hsafe : w.calls.length < 2 ^ 53) :
    w.client.handled <+: eventsIn codec w.read ∧
    (w.client.connected = true →
      w.client.handled = eventsIn codec w.read ∧
      EventsHandled codec w.client.subscriptions w.ahead ∧
      ∀ name ∈ w.conn.names, name ∈ registered codec w.client.subscriptions w.ahead) := by
  have hkept := h.eventsKept hlaw htorn hsafe
  refine ⟨hkept.handled, fun hconnected => ?_⟩
  obtain ⟨hhandled, hahead, htasks, -, -⟩ := hkept.registered hconnected
  exact ⟨hhandled, hahead, htasks⟩

end Session

theorem greeted_events_handled :
    greeted.client.handled <+: eventsIn exactCodec greeted.read ∧
    (greeted.client.connected = true →
      greeted.client.handled = eventsIn exactCodec greeted.read ∧
      EventsHandled exactCodec greeted.client.subscriptions greeted.ahead ∧
      ∀ name ∈ greeted.conn.names,
        name ∈ registered exactCodec greeted.client.subscriptions greeted.ahead) :=
  Session.events_handled exactCodec_lawful greeted_reached greeted_whole.1 greeted_whole.2

end Patchouli

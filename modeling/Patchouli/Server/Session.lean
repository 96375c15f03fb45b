import Patchouli.Server.Connection

/-!
# What a session keeps

Between the two ends of a connection answers and events are one sequence of lines: those the client
has read, and those that are ahead of it. Every event of a session keeps the lines whole, as long as
no `unsubscribe` cuts one short, and the daemon answers the calls in their order.

## Main definitions

* `SessionCodec.Lawful` — what is relied on of JSON
* `Exchange.settlement`, `Exchange.register` — what an answer does to the client
* `Session.Framed`, `Session.Answered`

## Main results

* `SessionCodec.Lawful.turn_eq`, `ServiceClient.receiveResponse_pending`
* `Session.Framed.step`, `Session.Answered.step`
-/

namespace Json.FloatText

variable {floats : FloatText}

/-! ### One line -/

theorem newline_not_mem_writeChar (c : Char) : Char.ofNat 10 ∉ writeChar c := by
  have hdigit : ∀ n < 16, Nat.digitChar n ≠ Char.ofNat 10 := by decide
  rcases writeChar_cases c with ⟨letter, hletter, h⟩ | ⟨hlow, h⟩ | ⟨h, -, -⟩
  · have hall : ∀ p ∈ escapeLetters, p.2 ≠ Char.ofNat 10 := by decide
    rw [h]
    simp only [List.mem_cons, List.not_mem_nil, or_false, not_or]
    exact ⟨by decide, Ne.symm (hall _ (escapeLetter_mem hletter))⟩
  · rw [h]
    simp only [List.mem_cons, List.not_mem_nil, or_false, not_or]
    exact ⟨by decide, by decide, by decide, by decide, Ne.symm (hdigit _ (by omega)),
      Ne.symm (hdigit _ (by omega))⟩
  · rw [h, List.mem_singleton]
    rintro rfl
    have hescaped : writeChar (Char.ofNat 10) = [Char.ofNat 92, 'n'] := by decide
    rw [hescaped] at h
    cases h

theorem newline_not_mem_writeString (s : String) : Char.ofNat 10 ∉ writeString s := by
  simp only [writeString, List.mem_cons, List.mem_append, List.mem_flatMap, List.not_mem_nil,
    or_false, not_or, not_exists, not_and]
  exact ⟨by decide, fun c _ => newline_not_mem_writeChar c, by decide⟩

theorem newline_not_mem_writeNumber (n : Number) : Char.ofNat 10 ∉ floats.writeNumber n :=
  fun h => absurd (writeNumber_chars n _ h) (by decide)

mutual

/-- **The text of a value is one line.** -/
theorem newline_not_mem_write (v : Value) : Char.ofNat 10 ∉ floats.write v := by
  cases v with
  | null =>
    rw [write]
    decide
  | bool b => cases b <;> rw [write] <;> decide
  | number n =>
    rw [write]
    exact newline_not_mem_writeNumber n
  | string s =>
    rw [write]
    exact newline_not_mem_writeString s
  | array values =>
    rw [write, List.mem_cons, not_or]
    exact ⟨by decide, newline_not_mem_writeValues true values⟩
  | object fields =>
    rw [write, List.mem_cons, not_or]
    exact ⟨by decide, newline_not_mem_writeFields true fields⟩

theorem newline_not_mem_writeValues (first : Bool) (values : List Value) :
    Char.ofNat 10 ∉ floats.writeValues first values := by
  cases values with
  | nil =>
    rw [writeValues]
    decide
  | cons value values =>
    rw [writeValues, List.mem_append, List.mem_append, not_or, not_or]
    exact ⟨by cases first <;> decide, newline_not_mem_write value,
      newline_not_mem_writeValues false values⟩

theorem newline_not_mem_writeFields (first : Bool) (fields : List (String × Value)) :
    Char.ofNat 10 ∉ floats.writeFields first fields := by
  cases fields with
  | nil =>
    rw [writeFields]
    decide
  | cons field fields =>
    rw [writeFields]
    simp only [List.mem_append, List.mem_cons, not_or]
    exact ⟨by cases first <;> decide, newline_not_mem_writeString _, by decide,
      newline_not_mem_write _, newline_not_mem_writeFields false fields⟩

end

/-- An object ends with its closing brace. -/
theorem write_object_last (fields : List (String × Value)) :
    ∃ text, floats.write (.object fields) = text ++ [Char.ofNat 125] := by
  have hfields : ∀ first, ∃ text,
      floats.writeFields first fields = text ++ [Char.ofNat 125] := by
    induction fields with
    | nil => exact fun first => ⟨[], by rw [writeFields, List.nil_append]⟩
    | cons field fields ih =>
      intro first
      obtain ⟨text, htext⟩ := ih false
      exact ⟨(if first then [] else [',']) ++
        (writeString field.1 ++ ':' :: (floats.write field.2 ++ text)),
        by rw [writeFields, htext]; simp⟩
  obtain ⟨text, htext⟩ := hfields true
  exact ⟨Char.ofNat 123 :: text, by rw [write, htext, List.cons_append]⟩

end Json.FloatText

namespace Patchouli

open Json (Value)

/-! ### JSON on its way -/

/-- What is relied on of JSON: the daemon reads of a request its id, its method and the subscription
it names, and `JSON.parse` reads what `serde_json` writes, strings and small numbers exactly. -/
structure SessionCodec.Lawful {σ : Type} (codec : SessionCodec) (d : Daemon σ) : Prop where
  request : ∀ (call : ServiceCall) (id : ℕ), id < 2 ^ 53 → ∀ request,
    d.parse (codec.stringify (call.request id)) = some request → ∃ fields,
      request = .object fields ∧
      requestId fields = natJson id ∧ requestMethod fields = some call.method ∧
      ∀ metadata name, call = .unsubscribe metadata name → ∀ metadata' name',
        d.readUnsubscribe (requestParams fields) = .ok (metadata', name') → name' = name
  message : ∀ message : Value, message.Normal →
    codec.jsonParse (String.ofList (codec.floats.write message)) = some (codec.seen message)
  seen_object : ∀ fields,
    codec.seen (.object fields) = .object (fields.map fun entry => (entry.1, codec.seen entry.2))
  seen_string : ∀ text, codec.seen (.string text) = .string text
  seen_null : codec.seen .null = .null
  seen_id : ∀ id < 2 ^ 53, codec.seen (natJson id) = natJson id

/-- A request the daemon does not read: it is too large, or nested too deep. -/
def Unread {σ : Type} (d : Daemon σ) (codec : SessionCodec) (call : ServiceCall) (id : ℕ) : Prop :=
  maxRequestBytes < (codec.stringify (call.request id)).utf8ByteSize ∨
    d.parse (codec.stringify (call.request id)) = none

theorem frameOf_unread {σ : Type} {d : Daemon σ} {codec : SessionCodec} {call : ServiceCall}
    {id : ℕ} (h : ¬ Unread d codec call id) :
    frameOf (codec.stringify (call.request id)) =
      .line (codec.stringify (call.request id)) := by
  rw [frameOf_eq, if_neg fun hlarge => h (Or.inl hlarge)]

/-- The request the daemon reads of a call. -/
theorem SessionCodec.Lawful.read {σ : Type} {d : Daemon σ} {codec : SessionCodec}
    (hlaw : codec.Lawful d) {call : ServiceCall} {id : ℕ} (hid : id < 2 ^ 53)
    (h : ¬ Unread d codec call id) :
    ∃ fields, d.parse (codec.stringify (call.request id)) = some (.object fields) ∧
      requestId fields = natJson id ∧ requestMethod fields = some call.method ∧
      ∀ metadata name, call = .unsubscribe metadata name → ∀ metadata' name',
        d.readUnsubscribe (requestParams fields) = .ok (metadata', name') → name' = name := by
  cases hparse : d.parse (codec.stringify (call.request id)) with
  | none => exact absurd (Or.inr hparse) h
  | some request =>
    obtain ⟨fields, rfl, hfields⟩ := hlaw.request call id hid request hparse
    exact ⟨fields, rfl, hfields⟩

theorem answerId_request {σ : Type} {d : Daemon σ} {codec : SessionCodec}
    (hlaw : codec.Lawful d) (call : ServiceCall) {id : ℕ} (hid : id < 2 ^ 53) :
    (Unread d codec call id ∧
        d.answerId (frameOf (codec.stringify (call.request id))) = .null) ∨
      (¬ Unread d codec call id ∧
        d.answerId (frameOf (codec.stringify (call.request id))) = natJson id) := by
  by_cases h : Unread d codec call id
  · refine Or.inl ⟨h, ?_⟩
    rw [frameOf_eq]
    split
    · rfl
    · rename_i hfits
      rw [Daemon.answerId, h.resolve_left hfits]
  · obtain ⟨fields, hparse, hfields, -⟩ := hlaw.read hid h
    refine Or.inr ⟨h, ?_⟩
    rw [frameOf_unread h, Daemon.answerId, hparse]
    exact hfields

/-! ### What an answer does -/

namespace Exchange

variable (codec : SessionCodec) (exchange : Exchange)

/-- The fields of an answer, as the client sees them. -/
def seenFields : Meta :=
  match codec.seen exchange.response with
  | .object fields => fields
  | _ => []

/-- How an answer settles its call. -/
def settlement : Settlement :=
  match (exchange.seenFields codec).lookup "error" with
  | some error => .rejected error
  | none =>
    match exchange.call, subscriptionIdOf ((exchange.seenFields codec).lookup "result") with
    | .subscribe _, none => .failed
    | _, _ => .resolved ((exchange.seenFields codec).lookup "result")

/-- The subscriptions after an answer. -/
def register (names : List String) : List String :=
  match (exchange.seenFields codec).lookup "error" with
  | some _ => names
  | none =>
    match exchange.call, subscriptionIdOf ((exchange.seenFields codec).lookup "result") with
    | .unsubscribe _ name, _ => names.filter (· ≠ name)
    | .subscribe _, some (some (.string name)) => if name ∈ names then names else names ++ [name]
    | _, _ => names

end Exchange

namespace ServiceClient

variable {c : ServiceClient}

/-- What a client keeps whatever it is sent. -/
structure Keeps (c c' : ServiceClient) : Prop where
  connected : c'.connected = c.connected
  buffer : c'.buffer = c.buffer
  nextId : c'.nextId = c.nextId

/-- **What the client does with the answer to a call it waits for.** -/
theorem receiveResponse_pending (codec : SessionCodec) (exchange : Exchange) {id : ℕ}
    (hid : id < 2 ^ 64)
    (hfields : (exchange.seenFields codec).lookup "id" = some (natJson id))
    (herror : (exchange.seenFields codec).lookup "error" ≠ some .null)
    (hpending : c.pending.lookup id = some exchange.call) :
    c.Keeps (c.receiveResponse (exchange.seenFields codec)) ∧
      (c.receiveResponse (exchange.seenFields codec)).pending =
        c.pending.filter (·.1 ≠ id) ∧
      (c.receiveResponse (exchange.seenFields codec)).settled =
        c.settled ++ [(id, exchange.settlement codec)] ∧
      (c.receiveResponse (exchange.seenFields codec)).subscriptions =
        exchange.register codec c.subscriptions ∧
      (c.receiveResponse (exchange.seenFields codec)).handled = c.handled ∧
      (c.receiveResponse (exchange.seenFields codec)).crashed = c.crashed := by
  have hnat : (UInt64.ofNat id).toNat = id := UInt64.toNat_ofNat_of_lt' hid
  have hsame : ∀ name, name ∉ c.subscriptions →
      c.subscriptions.filter (· ≠ name) = c.subscriptions := by
    intro name hname
    refine List.filter_eq_self.mpr fun other hother => ?_
    simpa using fun heq : other = name => hname (heq ▸ hother)
  unfold receiveResponse
  rw [hfields, natJson]
  simp only [hnat, hpending]
  unfold Exchange.settlement Exchange.register
  cases hlookup : (exchange.seenFields codec).lookup "error" with
  | some error =>
    cases error with
    | null => exact absurd hlookup herror
    | _ => exact ⟨⟨rfl, rfl, rfl⟩, rfl, rfl, rfl, rfl, rfl⟩
  | none =>
    unfold resolve
    cases hcall : exchange.call with
    | plain method params => exact ⟨⟨rfl, rfl, rfl⟩, rfl, rfl, rfl, rfl, rfl⟩
    | unsubscribe metadata name =>
      simp only [settleSubscription, settle]
      split
      · exact ⟨⟨rfl, rfl, rfl⟩, rfl, rfl, rfl, rfl, rfl⟩
      · rename_i hname
        exact ⟨⟨rfl, rfl, rfl⟩, rfl, rfl, (hsame name hname).symm, rfl, rfl⟩
    | subscribe params =>
      cases hname : subscriptionIdOf ((exchange.seenFields codec).lookup "result") with
      | none => exact ⟨⟨rfl, rfl, rfl⟩, rfl, rfl, rfl, rfl, rfl⟩
      | some value =>
        cases value with
        | none => exact ⟨⟨rfl, rfl, rfl⟩, rfl, rfl, rfl, rfl, rfl⟩
        | some value =>
          cases value with
          | string name =>
            simp only [register, settle]
            split
            · exact ⟨⟨rfl, rfl, rfl⟩, rfl, rfl, rfl, rfl, rfl⟩
            · exact ⟨⟨rfl, rfl, rfl⟩, rfl, rfl, rfl, rfl, rfl⟩
          | _ => exact ⟨⟨rfl, rfl, rfl⟩, rfl, rfl, rfl, rfl, rfl⟩

theorem keeps_receiveResponse (fields : Meta) : c.Keeps (c.receiveResponse fields) := by
  unfold receiveResponse
  split
  · split
    · exact ⟨rfl, rfl, rfl⟩
    · dsimp only
      split
      · exact ⟨rfl, rfl, rfl⟩
      · exact ⟨rfl, rfl, rfl⟩
      · unfold resolve
        split
        · exact ⟨rfl, rfl, rfl⟩
        · unfold settleSubscription settle
          split <;> exact ⟨rfl, rfl, rfl⟩
        · split
          · exact ⟨rfl, rfl, rfl⟩
          · unfold register settle
            split <;> exact ⟨rfl, rfl, rfl⟩
          · exact ⟨rfl, rfl, rfl⟩
  · exact ⟨rfl, rfl, rfl⟩

theorem keeps_receiveMessage (message : Value) : c.Keeps (c.receiveMessage message) := by
  cases message with
  | object fields =>
    simp only [receiveMessage, receiveNotification]
    split
    · split
      · exact ⟨rfl, rfl, rfl⟩
      · split
        · exact ⟨rfl, rfl, rfl⟩
        · split <;> exact ⟨rfl, rfl, rfl⟩
        · exact ⟨rfl, rfl, rfl⟩
    · exact keeps_receiveResponse fields
  | _ => exact ⟨rfl, rfl, rfl⟩

/-- A turn takes the line off the buffer, whatever it says. -/
theorem turn_buffer {parse : String → Option Value} {line rest : List Char}
    (h : Lines.firstLine (Char.ofNat 10) c.buffer = some (line, rest)) :
    (c.turn parse).buffer = rest := by
  unfold turn
  rw [h]
  dsimp only
  split
  · rfl
  · split
    · rfl
    · exact (keeps_receiveMessage _).buffer

theorem turn_nextId {parse : String → Option Value} :
    (c.turn parse).nextId = c.nextId := by
  unfold turn
  split
  · rfl
  · dsimp only
    split
    · rfl
    · split
      · rfl
      · exact (keeps_receiveMessage _).nextId

theorem turn_none {parse : String → Option Value}
    (h : Lines.firstLine (Char.ofNat 10) c.buffer = none) : c.turn parse = c := by
  unfold turn
  rw [h]

end ServiceClient

/-! ### Lines of the daemon -/

theorem normal_rpcEvent {params : Value} (h : params.Normal) : (rpcEvent params).Normal := by
  have hsorted : ["jsonrpc", "method", "params"].Pairwise (· < ·) := by decide
  exact normal_object hsorted (List.forall_mem_cons.mpr ⟨normal_string _, List.forall_mem_cons.mpr
    ⟨normal_string _, List.forall_mem_singleton.mpr h⟩⟩)

theorem YieldedChange.params_normal (yielded : YieldedChange) (name : String) :
    (yielded.params name).Normal := by
  have hsorted : ["data", "meta"].Pairwise (· < ·) := by decide
  have hdata : ["change", "subscription_id"].Pairwise (· < ·) := by decide
  refine normal_object hsorted (List.forall_mem_cons.mpr ⟨normal_object hdata ?_,
    List.forall_mem_singleton.mpr yielded.metadata_normal⟩)
  exact List.forall_mem_cons.mpr ⟨yielded.change_normal,
    List.forall_mem_singleton.mpr (normal_string _)⟩

/-- A line that says what it should: an answer to a request, or an event. -/
def WireMessage.Sound : WireMessage → Prop
  | response exchange => ∃ id, id.Normal ∧ RpcResponse id exchange.response
  | event _ _ => True

theorem WireMessage.Sound.normal {message : WireMessage} (h : message.Sound) :
    message.value.Normal := by
  cases message with
  | response exchange =>
    obtain ⟨id, hid, hresponse⟩ := h
    exact hresponse.normal hid
  | event name yielded => exact normal_rpcEvent (yielded.params_normal name)

theorem WireMessage.Sound.object {message : WireMessage} (h : message.Sound) :
    ∃ fields, message.value = .object fields := by
  cases message with
  | response exchange =>
    obtain ⟨id, hid, hresponse⟩ := h
    cases hexchange : exchange.response with
    | object fields => exact ⟨fields, hexchange⟩
    | _ => rw [hexchange] at hresponse; cases hresponse
  | event name yielded => exact ⟨_, rfl⟩

namespace SessionCodec

variable {σ : Type} {codec : SessionCodec} {d : Daemon σ}

theorem newline_not_mem_line (message : WireMessage) :
    Char.ofNat 10 ∉ codec.line message :=
  Json.FloatText.newline_not_mem_write _

/-- A line of the daemon has no white space at its end. -/
theorem trimEnd_line {message : WireMessage} (h : message.Sound) :
    trimEnd (codec.line message) = codec.line message ∧ codec.line message ≠ [] := by
  obtain ⟨fields, hfields⟩ := h.object
  obtain ⟨text, htext⟩ := @Json.FloatText.write_object_last codec.floats fields
  unfold line
  rw [hfields, htext]
  exact ⟨List.rdropWhile_concat_neg _ _ _ (by decide), by simp⟩

/-- **The client reads a line as it was written.** -/
theorem Lawful.turn_eq (hlaw : codec.Lawful d) {c : ServiceClient} {message : WireMessage}
    (hsound : message.Sound) {rest : List Char}
    (h : Lines.firstLine (Char.ofNat 10) c.buffer = some (codec.line message, rest)) :
    c.turn codec.jsonParse =
      { c with buffer := rest }.receiveMessage (codec.seen message.value) := by
  obtain ⟨htrim, hne⟩ := trimEnd_line hsound
  unfold ServiceClient.turn
  rw [h]
  dsimp only
  rw [htrim, if_neg hne, line, hlaw.message _ hsound.normal]

end SessionCodec

/-! ### What the client sees -/

section Seen

variable {σ : Type} {codec : SessionCodec} {d : Daemon σ} {exchange : Exchange} {id : Value}

theorem seen_success (hlaw : codec.Lawful d) (id result : Value) :
    codec.seen (rpcSuccess id result) = .object
      [("id", codec.seen id), ("jsonrpc", .string "2.0"), ("result", codec.seen result)] := by
  simp only [rpcSuccess, hlaw.seen_object, List.map_cons, List.map_nil, hlaw.seen_string]

theorem seen_failure (hlaw : codec.Lawful d) (id error : Value) :
    codec.seen (rpcFailure id error) = .object
      [("error", codec.seen error), ("id", codec.seen id), ("jsonrpc", .string "2.0")] := by
  simp only [rpcFailure, hlaw.seen_object, List.map_cons, List.map_nil, hlaw.seen_string]

/-- An answer as the client sees it. -/
theorem seenFields_response (hlaw : codec.Lawful d) (h : RpcResponse id exchange.response) :
    codec.seen exchange.response = .object (exchange.seenFields codec) ∧
      (exchange.seenFields codec).lookup "method" = none ∧
      (exchange.seenFields codec).lookup "id" = some (codec.seen id) ∧
      (exchange.seenFields codec).lookup "error" ≠ some .null := by
  unfold Exchange.seenFields
  generalize exchange.response = response at h ⊢
  cases h with
  | success result hresult =>
    rw [seen_success hlaw]
    exact ⟨rfl, rfl, rfl, by simp [List.lookup_cons]⟩
  | failure error herror =>
    rw [seen_failure hlaw]
    refine ⟨rfl, rfl, rfl, ?_⟩
    cases herror <;> simp [hlaw.seen_object]

/-- What the client sees of the parameters of an event. -/
theorem seen_event (hlaw : codec.Lawful d) (yielded : YieldedChange) (name : String) :
    subscriptionIdOf (some (codec.seen (yielded.params name))) = some (some (.string name)) := by
  simp only [YieldedChange.params, hlaw.seen_object, List.map_cons, List.map_nil, hlaw.seen_string]
  rfl

theorem receive_event (hlaw : codec.Lawful d) (c : ServiceClient) (yielded : YieldedChange)
    (name : String) :
    c.receiveMessage (codec.seen (rpcEvent (yielded.params name))) =
      if name ∈ c.subscriptions then
        { c with handled := c.handled ++ [(name, codec.seen (yielded.params name))] }
      else c := by
  have hevent := seen_event hlaw yielded name
  have hmessage : codec.seen (rpcEvent (yielded.params name)) = .object
      [("jsonrpc", .string "2.0"), ("method", .string Methods.changesEvent),
        ("params", codec.seen (yielded.params name))] := by
    simp only [rpcEvent, hlaw.seen_object, List.map_cons, List.map_nil, hlaw.seen_string]
  rw [hmessage]
  have hmethod : List.lookup "method" [("jsonrpc", Value.string "2.0"),
      ("method", .string Methods.changesEvent), ("params", codec.seen (yielded.params name))] =
        some (.string Methods.changesEvent) := rfl
  have hparams : List.lookup "params" [("jsonrpc", Value.string "2.0"),
      ("method", .string Methods.changesEvent), ("params", codec.seen (yielded.params name))] =
        some (codec.seen (yielded.params name)) := rfl
  simp only [ServiceClient.receiveMessage, ServiceClient.receiveNotification, hmethod, hparams,
    hevent, Option.isSome_some, if_true, ne_eq, not_true_eq_false, if_false, Option.getD_some]

end Seen

/-! ### The stream -/

namespace Connection

variable {conn : Connection}

theorem proceed_unwritten (writer : LineWriter) (rest : List Char) :
    (conn.proceed writer rest).unwritten = rest ∧
      ∀ holder left, (conn.proceed writer rest).lock = some (holder, left) →
        holder = writer ∧ left = rest ∧ rest ≠ [] := by
  unfold proceed
  split
  · rename_i hrest
    subst hrest
    have hfinish : ({ conn with lock := none }.finish writer).lock = none := by
      unfold finish
      cases writer with
      | main => cases conn.reply <;> rfl
      | task name => rfl
    exact ⟨by rw [unwritten, hfinish], fun holder left h => by rw [hfinish] at h; cases h⟩
  · rename_i hrest
    refine ⟨rfl, fun holder left h => ?_⟩
    obtain ⟨rfl, rfl⟩ := Prod.mk.inj (Option.some.inj h)
    exact ⟨rfl, rfl, hrest⟩

end Connection

namespace Session

variable {σ : Type} {d : Daemon σ} {codec : SessionCodec} {w : Session σ}

variable (codec w) in
/-- **What the client has not read is the rest of the lines ahead of it.** -/
structure Framed : Prop where
  text : w.client.buffer ++ (w.wire ++ w.conn.unwritten) =
    Lines.joined (Char.ofNat 10) (w.ahead.map codec.line)
  unwritten : ∀ writer rest, w.conn.lock = some (writer, rest) → rest ≠ []

theorem Framed.of_eq (h : w.Framed codec) {w' : Session σ}
    (hbuffer : w'.client.buffer = w.client.buffer) (hwire : w'.wire = w.wire)
    (hlock : w'.conn.lock = w.conn.lock) (hahead : w'.ahead = w.ahead) : w'.Framed codec := by
  constructor
  · rw [hbuffer, hwire, hahead, Connection.unwritten, hlock]
    exact h.text
  · rw [hlock]
    exact h.unwritten

/-- The line the client takes off is the first one ahead of it. -/
theorem Framed.turn (h : w.Framed codec) {line rest : List Char}
    (hfirst : Lines.firstLine (Char.ofNat 10) w.client.buffer = some (line, rest)) :
    ∃ message others, w.ahead = message :: others ∧ line = codec.line message ∧
      rest ++ (w.wire ++ w.conn.unwritten) =
        Lines.joined (Char.ofNat 10) (others.map codec.line) := by
  have hlines : ∀ line ∈ w.ahead.map codec.line, Char.ofNat 10 ∉ line := by
    intro line hline
    obtain ⟨message, -, rfl⟩ := List.mem_map.mp hline
    exact SessionCodec.newline_not_mem_line message
  obtain ⟨others, hothers, htext⟩ := Lines.firstLine_of_joined hlines h.text hfirst
  obtain ⟨message, tail, hahead, rfl, rfl⟩ := List.map_eq_cons_iff.mp hothers
  exact ⟨message, tail, hahead, rfl, htext⟩

theorem issue_framed (h : w.Framed codec) (call : ServiceCall) :
    (w.issue codec call).Framed codec := by
  unfold issue
  split
  · exact h.of_eq rfl rfl rfl rfl
  · exact h

theorem write_framed (h : w.Framed codec) (writer : LineWriter) (amount : ℕ) :
    (w.write codec writer amount).Framed codec := by
  unfold write
  split
  · exact h
  · split
    · rename_i holder rest hlock
      split
      · obtain ⟨hunwritten, hleft⟩ := @Connection.proceed_unwritten w.conn writer
          (rest.drop (amount + 1))
        refine ⟨?_, fun holder left hlock' => ?_⟩
        · have htext := h.text
          rw [Connection.unwritten, hlock] at htext
          rw [hunwritten, List.append_assoc, List.take_append_drop]
          exact htext
        · obtain ⟨-, rfl, hne⟩ := hleft holder left hlock'
          exact hne
      · exact h
    · rename_i hlock
      split
      · exact h
      · rename_i message hmessage
        dsimp only
        obtain ⟨hunwritten, hleft⟩ := @Connection.proceed_unwritten w.conn writer
          ((codec.line message ++ [Char.ofNat 10]).drop (amount + 1))
        refine ⟨?_, fun holder left hlock' => ?_⟩
        · have htext := h.text
          rw [Connection.unwritten, hlock, List.append_nil] at htext
          rw [hunwritten, List.append_assoc, List.take_append_drop, List.map_append,
            Lines.joined_append, ← htext, List.append_assoc]
          simp
        · obtain ⟨-, rfl, hne⟩ := hleft holder left hlock'
          exact hne

theorem take_framed (h : w.Framed codec) (now : ℕ → ℕ) (htorn : (w.take d now).torn = false) :
    (w.take d now).Framed codec := by
  unfold take at htorn ⊢
  split
  · rename_i text rest call hover hreply hrequest hcall
    rw [hover, hreply, hrequest, hcall] at htorn
    dsimp only at htorn ⊢
    have htears := (Bool.or_eq_false_iff.mp htorn).2
    refine h.of_eq rfl rfl ?_ rfl
    simp only [Connection.take, htears, Bool.false_eq_true, if_false]
  · exact h

theorem turn_framed (h : w.Framed codec) : (w.turn codec).Framed codec := by
  cases hfirst : Lines.firstLine (Char.ofNat 10) w.client.buffer with
  | none =>
    have hturn : w.turn codec = w := by
      unfold turn
      rw [hfirst, ServiceClient.turn_none hfirst]
    rw [hturn]
    exact h
  | some parts =>
    obtain ⟨line, rest⟩ := parts
    obtain ⟨message, others, hahead, -, htext⟩ := h.turn hfirst
    unfold turn
    rw [hfirst, hahead]
    exact ⟨by rw [ServiceClient.turn_buffer hfirst]; exact htext, h.unwritten⟩

theorem deliver_framed (h : w.Framed codec) (amount : ℕ) : (w.deliver amount).Framed codec := by
  refine ⟨?_, h.unwritten⟩
  have htext := h.text
  simp only [deliver]
  rw [← List.append_assoc, List.append_assoc w.client.buffer, List.take_append_drop,
    List.append_assoc]
  exact htext

/-- **Every event keeps the lines whole**, unless it tears one. -/
theorem Framed.step (h : w.Framed codec) (event : SessionEvent σ)
    (htorn : (w.step d codec event).torn = false) : (w.step d codec event).Framed codec := by
  cases event with
  | call call => exact issue_framed h call
  | deliver amount => exact deliver_framed h amount
  | turn => exact turn_framed h
  | fail => exact h.of_eq rfl rfl rfl rfl
  | close => exact h.of_eq rfl rfl rfl rfl
  | take now => exact take_framed h now htorn
  | write writer amount => exact write_framed h writer amount
  | yield name yielded => exact h.of_eq rfl rfl rfl rfl
  | streamFailed name =>
    simp only [Session.step]
    split
    · exact h.of_eq rfl rfl rfl rfl
    · exact h
  | stop => exact h.of_eq rfl rfl rfl rfl
  | outside state => exact h.of_eq rfl rfl rfl rfl

/-! ### Calls and answers -/

end Session

/-- The answer a line is. -/
def WireMessage.exchange? : WireMessage → Option Exchange
  | response exchange => some exchange
  | event _ _ => none

/-- The answers among some lines. -/
def answersIn (messages : List WireMessage) : List Exchange :=
  messages.filterMap WireMessage.exchange?

theorem answersIn_append (messages others : List WireMessage) :
    answersIn (messages ++ others) = answersIn messages ++ answersIn others :=
  List.filterMap_append

/-- An answer waits for the writer. -/
def Connection.waits (conn : Connection) : Bool :=
  conn.reply.isSome && match conn.lock with
    | some (.main, _) => false
    | _ => true

namespace Daemon

variable {σ : Type} {d : Daemon σ} {now : ℕ → ℕ} {s : σ}

/-- A handshake is not taken back. -/
theorem serveFrame_handshaken (names : List String) (next : ℕ) (frame : RequestFrame) :
    (d.serveFrame now s true names next frame).handshaken = true := by
  cases frame with
  | invalidUtf8 => rfl
  | tooLarge => rfl
  | line line =>
    simp only [serveFrame, if_true]
    cases hhandled : d.handleSubscription now s names next line with
    | none =>
      simp only [Option.getD_none]
      unfold dispatch
      split
      · rfl
      · dsimp only
        split
        · rfl
        · split
          · rfl
          · split
            · unfold shakeHands
              split
              · rfl
              · split <;> rfl
            · split
              · rfl
              · split
                · rfl
                · rfl
                · unfold Daemon.run
                  split <;> rfl
      · rfl
    | some turn =>
      unfold handleSubscription at hhandled
      split at hhandled
      · split at hhandled
        · split_ifs at hhandled
          · rw [Option.getD_some, ← Option.some.inj hhandled]
            unfold unsubscribe
            split
            · rfl
            · split <;> rfl
          · rw [Option.getD_some, ← Option.some.inj hhandled]
            unfold openSubscription
            split
            · rfl
            · split <;> rfl
        · cases hhandled
      · cases hhandled

/-- What is answered with a result comes after a handshake, or is one. -/
theorem serveFrame_success {handshaken : Bool} {names : List String} {next : ℕ}
    {frame : RequestFrame} {id result : Value}
    (h : (d.serveFrame now s handshaken names next frame).response = rpcSuccess id result) :
    (d.serveFrame now s handshaken names next frame).handshaken = true := by
  cases handshaken with
  | true => exact serveFrame_handshaken names next frame
  | false =>
    by_contra hnot
    obtain ⟨error, -, hfailure⟩ :=
      (@serveFrame_refused σ d now s names next frame).failure (by simpa using hnot)
    rw [hfailure, rpcFailure, rpcSuccess] at h
    simp at h

end Daemon

namespace Session

variable {σ : Type} {d : Daemon σ} {codec : SessionCodec} {w : Session σ}

variable (w) in
/-- The answer that waits for the writer. -/
def unbegun : List Exchange := if w.conn.waits then w.exchanges.getLast?.toList else []

/-- The handshake of a session succeeded. -/
def ShookHands (w : Session σ) : Prop :=
  ∃ e id result, w.exchanges[0]? = some e ∧ e.response = rpcSuccess id result

/-- An answer is what the daemon makes of the request of its call. -/
def ServedBy (d : Daemon σ) (codec : SessionCodec) (w : Session σ) (k : ℕ) (e : Exchange) : Prop :=
  ∃ now s handshaken names next,
    e.response = (d.serveFrame now s handshaken names next
      (frameOf (codec.stringify (e.call.request (k + 1))))).response ∧
      (0 < k → w.ShookHands → handshaken = true)

variable (d codec w) in
/-- **The daemon answers the calls in their order, each once.** -/
structure Answered : Prop where
  order : w.exchanges = answersIn (w.read ++ w.ahead) ++ w.unbegun
  writing : ∀ rest, w.conn.lock = some (.main, rest) → w.conn.reply.isSome ∧
    ∃ e, w.exchanges.getLast? = some e ∧ w.ahead.getLast? = some (.response e)
  reply : ∀ r, w.conn.reply = some r → ∃ e, w.exchanges.getLast? = some e ∧
    e.response = r.response
  requests : w.toDaemon = (codec.requests w.calls).drop w.exchanges.length
  calls : w.exchanges.map (·.call) = w.calls.take w.exchanges.length
  served : ∀ k e, w.exchanges[k]? = some e → w.ServedBy d codec k e
  handshaken : w.ShookHands → w.conn.handshaken = true
  nextId : w.client.nextId = w.calls.length + 1

theorem Answered.of_eq (h : w.Answered d codec) {w' : Session σ}
    (hexchanges : w'.exchanges = w.exchanges) (hread : w'.read ++ w'.ahead = w.read ++ w.ahead)
    (hlast : w.conn.lock.isSome → w'.ahead.getLast? = w.ahead.getLast?)
    (hconn : w'.conn.reply = w.conn.reply ∧ w'.conn.lock = w.conn.lock ∧
      w'.conn.handshaken = w.conn.handshaken)
    (hcalls : w'.toDaemon = w.toDaemon ∧ w'.calls = w.calls ∧
      w'.client.nextId = w.client.nextId) : w'.Answered d codec := by
  obtain ⟨hreply, hlock, hhandshaken⟩ := hconn
  obtain ⟨htoDaemon, hcalls, hnextId⟩ := hcalls
  have hshook : w'.ShookHands → w.ShookHands := by
    unfold ShookHands
    rw [hexchanges]
    exact id
  have hunbegun : w'.unbegun = w.unbegun := by
    unfold unbegun Connection.waits
    rw [hreply, hlock, hexchanges]
  exact {
    order := by rw [hexchanges, hread, hunbegun]; exact h.order
    writing := fun rest hrest => by
      rw [hlock] at hrest
      obtain ⟨hsome, e, he, hahead⟩ := h.writing rest hrest
      rw [hreply, hexchanges, hlast (by rw [hrest]; rfl)]
      exact ⟨hsome, e, he, hahead⟩
    reply := by rw [hreply, hexchanges]; exact h.reply
    requests := by rw [htoDaemon, hcalls, hexchanges]; exact h.requests
    calls := by rw [hcalls, hexchanges]; exact h.calls
    served := fun k e he => by
      rw [hexchanges] at he
      obtain ⟨now, s, handshaken, names, next, hresponse, hlater⟩ := h.served k e he
      exact ⟨now, s, handshaken, names, next, hresponse, fun hk hs => hlater hk (hshook hs)⟩
    handshaken := fun hs => hhandshaken ▸ h.handshaken (hshook hs)
    nextId := by rw [hnextId, hcalls]; exact h.nextId }

theorem Answered.length_le (h : w.Answered d codec) : w.exchanges.length ≤ w.calls.length := by
  have hlength := congrArg List.length h.calls
  rw [List.length_map, List.length_take] at hlength
  omega

theorem requests_concat (calls : List ServiceCall) (call : ServiceCall) :
    codec.requests (calls ++ [call]) =
      codec.requests calls ++ [codec.stringify (call.request (calls.length + 1))] := by
  simp [SessionCodec.requests, List.mapIdx_append]

theorem issue_answered (h : w.Answered d codec) (call : ServiceCall) :
    (w.issue codec call).Answered d codec := by
  unfold issue
  split
  · have hle : w.exchanges.length ≤ (codec.requests w.calls).length := by
      simpa [SessionCodec.requests] using h.length_le
    exact {
      order := h.order
      writing := h.writing
      reply := h.reply
      requests := by
        dsimp only
        rw [requests_concat, List.drop_append_of_le_length hle, ← h.requests, h.nextId]
      calls := by
        dsimp only
        rw [List.take_append_of_le_length h.length_le]
        exact h.calls
      served := h.served
      handshaken := h.handshaken
      nextId := by
        show w.client.nextId + 1 = _
        rw [h.nextId, List.length_append, List.length_singleton] }
  · exact h

/-- The request the daemon takes is that of the next call. -/
theorem Answered.request (h : w.Answered d codec) {text : String} {rest : List String}
    {call : ServiceCall} (hrequest : w.toDaemon = text :: rest)
    (hcall : w.calls[w.exchanges.length]? = some call) :
    text = codec.stringify (call.request (w.exchanges.length + 1)) ∧
      rest = (codec.requests w.calls).drop (w.exchanges.length + 1) := by
  have hrequests := h.requests
  rw [hrequest] at hrequests
  have hget : (codec.requests w.calls)[w.exchanges.length]? =
      some (codec.stringify (call.request (w.exchanges.length + 1))) := by
    simp [SessionCodec.requests, List.getElem?_mapIdx, hcall]
  obtain ⟨hlength, hget⟩ := List.getElem?_eq_some_iff.mp hget
  rw [List.drop_eq_getElem_cons hlength, List.cons.injEq] at hrequests
  exact ⟨hrequests.1.trans hget, hrequests.2⟩

/-- Where no answer is pending, none is being written. -/
theorem Answered.unlocked (h : w.Answered d codec) (hreply : w.conn.reply = none) :
    ∀ rest, w.conn.lock ≠ some (.main, rest) := by
  intro rest hmain
  have hsome := (h.writing rest hmain).1
  rw [hreply] at hsome
  cases hsome

/-- The answer to a request that was taken waits for the writer. -/
theorem Answered.take_waits (h : w.Answered d codec) (hreply : w.conn.reply = none)
    (turn : Turn σ) :
    (w.conn.take turn).waits = true ∧
      ∀ rest, (w.conn.take turn).lock ≠ some (.main, rest) := by
  have hlock : ∀ rest, (w.conn.take turn).lock ≠ some (.main, rest) := by
    intro rest hmain
    simp only [Connection.take] at hmain
    split at hmain
    · cases hmain
    · exact h.unlocked hreply rest hmain
  refine ⟨?_, hlock⟩
  unfold Connection.waits
  rw [Bool.and_eq_true]
  refine ⟨rfl, ?_⟩
  split
  · rename_i rest hmain
    exact absurd hmain (hlock rest)
  · rfl

theorem take_answered (h : w.Answered d codec) (now : ℕ → ℕ) :
    (w.take d now).Answered d codec := by
  unfold take
  split
  · rename_i text rest call hover hreply hrequest hcall
    have hwaits : w.conn.waits = false := by simp [Connection.waits, hreply]
    have horder : w.exchanges = answersIn (w.read ++ w.ahead) := by
      have horder := h.order
      rwa [unbegun, hwaits, if_neg (by simp), List.append_nil] at horder
    obtain ⟨htext, hrest⟩ := h.request hrequest hcall
    generalize hturn : d.serveFrame now w.state w.conn.handshaken w.conn.names
      w.conn.nextSubscriptionId (frameOf text) = turn
    obtain ⟨hwaits', hlock'⟩ := h.take_waits hreply turn
    -- The first answer is the same as before, unless this is the first one.
    have hshook : ∀ e, (w.exchanges ++ [e])[0]? = w.exchanges[0]? ∨ w.exchanges = [] := by
      intro e
      cases w.exchanges with
      | nil => exact Or.inr rfl
      | cons first others => exact Or.inl rfl
    exact {
      order := by
        simp only [unbegun, hwaits', if_true, List.getLast?_concat, Option.toList_some]
        rw [← horder]
      writing := fun rest hmain => absurd hmain (hlock' rest)
      reply := fun r hr => by
        rw [← Option.some.inj hr]
        exact ⟨_, List.getLast?_concat, rfl⟩
      requests := by
        dsimp only
        rw [List.length_append, List.length_singleton]
        exact hrest
      calls := by
        dsimp only
        rw [List.length_append, List.length_singleton, List.take_add_one, hcall, List.map_append,
          h.calls]
        rfl
      served := fun k e he => by
        rcases lt_or_ge k w.exchanges.length with hk | hk
        · rw [List.getElem?_append_left hk] at he
          obtain ⟨now', s', handshaken, names, next, hresponse, hlater⟩ := h.served k e he
          refine ⟨now', s', handshaken, names, next, hresponse, fun hpos hs => hlater hpos ?_⟩
          rcases hshook ⟨call, turn.response⟩ with hsame | hnil
          · unfold ShookHands at hs ⊢
            rwa [hsame] at hs
          · rw [hnil] at hk
            cases hk
        · rw [List.getElem?_append_right hk] at he
          rw [List.getElem?_singleton] at he
          split_ifs at he with hzero
          obtain rfl : k = w.exchanges.length := by omega
          rw [← Option.some.inj he]
          refine ⟨now, w.state, w.conn.handshaken, w.conn.names, w.conn.nextSubscriptionId, ?_, ?_⟩
          · rw [← htext, hturn]
          · intro hpos hs
            rcases hshook ⟨call, turn.response⟩ with hsame | hnil
            · refine h.handshaken ?_
              unfold ShookHands at hs ⊢
              rwa [hsame] at hs
            · rw [hnil] at hpos
              cases hpos
      handshaken := fun hs => by
        show turn.handshaken = true
        rcases hshook ⟨call, turn.response⟩ with hsame | hnil
        · have hold : w.ShookHands := by
            unfold ShookHands at hs ⊢
            rwa [hsame] at hs
          rw [← hturn, h.handshaken hold]
          exact Daemon.serveFrame_handshaken _ _ _
        · obtain ⟨e, id, result, he, hresult⟩ := hs
          dsimp only at he
          rw [hnil, List.nil_append, List.getElem?_cons_zero, Option.some.injEq] at he
          rw [← he] at hresult
          rw [← hturn] at hresult ⊢
          exact Daemon.serveFrame_success hresult
      nextId := h.nextId }
  · exact h

end Session

namespace Connection

variable {conn : Connection} {rest : List Char}

theorem proceed_handshaken (writer : LineWriter) :
    (conn.proceed writer rest).handshaken = conn.handshaken := by
  unfold proceed finish
  split
  · cases writer with
    | main => cases hreply : conn.reply <;> simp
    | task name => rfl
  · rfl

/-- An answer that was begun does not wait any more, and is pending until it is written. -/
theorem proceed_main : (conn.proceed .main rest).waits = false ∧
    (conn.proceed .main rest).reply = (if rest = [] then none else conn.reply) := by
  unfold proceed
  split
  · cases conn.reply with
    | none => simp [finish, waits]
    | some reply => simp [finish, waits]
  · exact ⟨by simp [waits], rfl⟩

theorem proceed_task (name : String) :
    (conn.proceed (.task name) rest).waits = conn.reply.isSome ∧
      (conn.proceed (.task name) rest).reply = conn.reply := by
  unfold proceed
  split
  · exact ⟨by simp [finish, waits], rfl⟩
  · exact ⟨by simp [waits], rfl⟩

end Connection

namespace Session

variable {σ : Type} {d : Daemon σ} {codec : SessionCodec} {w : Session σ}

/-- What a writer that goes on, or begins, does to the order of answers. -/
theorem Answered.proceed (h : w.Answered d codec) (writer : LineWriter) {wire rest : List Char}
    {begun : List WireMessage}
    (hbegun : answersIn begun ++ (if writer = .main then [] else w.unbegun) = w.unbegun)
    (hwaits : writer ≠ .main → w.conn.waits = w.conn.reply.isSome)
    (hmain : writer = .main → w.conn.reply.isSome ∧ ∃ e, w.exchanges.getLast? = some e ∧
      (w.ahead ++ begun).getLast? = some (.response e)) :
    Answered d codec { w with
      wire, conn := w.conn.proceed writer rest, ahead := w.ahead ++ begun } := by
  have hlock : ∀ left, (w.conn.proceed writer rest).lock = some (.main, left) →
      writer = .main ∧ rest ≠ [] := by
    intro left hleft
    obtain ⟨hholder, -, hne⟩ := (@Connection.proceed_unwritten w.conn writer rest).2 _ _ hleft
    exact ⟨hholder.symm, hne⟩
  have hunbegun : (if (w.conn.proceed writer rest).waits then w.exchanges.getLast?.toList else []) =
      if writer = .main then [] else w.unbegun := by
    cases writer with
    | main => rw [Connection.proceed_main.1, if_neg (by simp), if_pos rfl]
    | task name =>
      have hne : LineWriter.task name ≠ .main := by simp
      rw [(Connection.proceed_task name).1, if_neg hne, unbegun, hwaits hne]
  have hreply : ∀ r, (w.conn.proceed writer rest).reply = some r → w.conn.reply = some r := by
    intro r hr
    cases writer with
    | main =>
      rw [Connection.proceed_main.2] at hr
      split_ifs at hr
      exact hr
    | task name => rwa [(Connection.proceed_task name).2] at hr
  exact {
    order := by
      show w.exchanges = answersIn (w.read ++ (w.ahead ++ begun)) ++
        (if (w.conn.proceed writer rest).waits then w.exchanges.getLast?.toList else [])
      rw [hunbegun, ← List.append_assoc, answersIn_append, List.append_assoc, hbegun]
      exact h.order
    writing := fun left hleft => by
      obtain ⟨hwriter, hne⟩ := hlock left hleft
      obtain ⟨hsome, he⟩ := hmain hwriter
      refine ⟨?_, he⟩
      dsimp only
      rw [hwriter, Connection.proceed_main.2, if_neg hne]
      exact hsome
    reply := fun r hr => h.reply r (hreply r hr)
    requests := h.requests
    calls := h.calls
    served := h.served
    handshaken := fun hs => (Connection.proceed_handshaken writer).trans (h.handshaken hs)
    nextId := h.nextId }

theorem write_answered (h : w.Answered d codec) (writer : LineWriter) (amount : ℕ) :
    (w.write codec writer amount).Answered d codec := by
  unfold write
  split
  · exact h
  · split
    · rename_i holder rest hlock
      split
      · rename_i hholder
        subst hholder
        have hgoes := @Answered.proceed σ d codec w h holder
          (w.wire ++ rest.take (amount + 1)) (rest.drop (amount + 1)) [] ?_ ?_ ?_
        · rwa [List.append_nil] at hgoes
        · cases holder with
          | main => simp [answersIn, unbegun, Connection.waits, hlock]
          | task name => simp [answersIn]
        · intro hne
          cases holder with
          | main => exact absurd rfl hne
          | task name => simp [Connection.waits, hlock]
        · rintro rfl
          rw [List.append_nil]
          exact h.writing rest hlock
      · exact h
    · rename_i hlock
      have hwaits : w.conn.waits = w.conn.reply.isSome := by simp [Connection.waits, hlock]
      split
      · exact h
      · rename_i message hmessage
        refine Answered.proceed h writer ?_ (fun _ => hwaits) ?_
        · cases writer with
          | main =>
            obtain ⟨r, hr, hlast⟩ := Option.bind_eq_some_iff.mp hmessage
            obtain ⟨e, he, rfl⟩ := Option.map_eq_some_iff.mp hlast
            simp [answersIn, WireMessage.exchange?, unbegun, hwaits, hr, he]
          | task name =>
            obtain ⟨task, -, hyielded⟩ := Option.bind_eq_some_iff.mp hmessage
            obtain ⟨yielded, -, rfl⟩ := Option.map_eq_some_iff.mp hyielded
            simp [answersIn, WireMessage.exchange?]
        · rintro rfl
          obtain ⟨r, hr, hlast⟩ := Option.bind_eq_some_iff.mp hmessage
          obtain ⟨e, he, rfl⟩ := Option.map_eq_some_iff.mp hlast
          exact ⟨by rw [hr]; rfl, e, he, List.getLast?_concat⟩

theorem turn_answered (hframed : w.Framed codec) (h : w.Answered d codec) :
    (w.turn codec).Answered d codec := by
  cases hfirst : Lines.firstLine (Char.ofNat 10) w.client.buffer with
  | none =>
    have hturn : w.turn codec = w := by
      unfold turn
      rw [hfirst, ServiceClient.turn_none hfirst]
    rw [hturn]
    exact h
  | some parts =>
    obtain ⟨line, rest⟩ := parts
    obtain ⟨message, others, hahead, -, htext⟩ := hframed.turn hfirst
    unfold turn
    rw [hfirst, hahead]
    refine h.of_eq rfl ?_ ?_ ⟨rfl, rfl, rfl⟩ ⟨rfl, rfl, ?_⟩
    · show w.read ++ [message] ++ others = w.read ++ w.ahead
      rw [hahead, List.append_assoc]
      rfl
    · intro hlock
      obtain ⟨⟨writer, left⟩, hlock⟩ := Option.isSome_iff_exists.mp hlock
      rw [hahead]
      cases others with
      | cons next tail => exact List.getLast?_cons_cons.symm
      | nil =>
        -- The last line is still being written: it is not complete, and was not taken off.
        rw [Connection.unwritten, hlock, List.map_nil, Lines.joined_nil] at htext
        exact absurd (List.append_eq_nil_iff.mp (List.append_eq_nil_iff.mp htext).2).2
          (hframed.unwritten writer left hlock)
    · exact ServiceClient.turn_nextId

theorem Answered.step (hframed : w.Framed codec) (h : w.Answered d codec)
    (event : SessionEvent σ) : (w.step d codec event).Answered d codec := by
  cases event with
  | call call => exact issue_answered h call
  | deliver amount =>
    exact h.of_eq rfl rfl (fun _ => rfl) ⟨rfl, rfl, rfl⟩ ⟨rfl, rfl, rfl⟩
  | turn => exact turn_answered hframed h
  | fail => exact h.of_eq rfl rfl (fun _ => rfl) ⟨rfl, rfl, rfl⟩ ⟨rfl, rfl, rfl⟩
  | close => exact h.of_eq rfl rfl (fun _ => rfl) ⟨rfl, rfl, rfl⟩ ⟨rfl, rfl, rfl⟩
  | take now => exact take_answered h now
  | write writer amount => exact write_answered h writer amount
  | yield name yielded =>
    exact h.of_eq rfl rfl (fun _ => rfl) ⟨rfl, rfl, rfl⟩ ⟨rfl, rfl, rfl⟩
  | streamFailed name =>
    simp only [Session.step]
    split
    · exact h.of_eq rfl rfl (fun _ => rfl) ⟨rfl, rfl, rfl⟩ ⟨rfl, rfl, rfl⟩
    · exact h
  | stop => exact h.of_eq rfl rfl (fun _ => rfl) ⟨rfl, rfl, rfl⟩ ⟨rfl, rfl, rfl⟩
  | outside state => exact h.of_eq rfl rfl (fun _ => rfl) ⟨rfl, rfl, rfl⟩ ⟨rfl, rfl, rfl⟩

/-! ### What the client waits for -/

theorem Answered.sublist (h : w.Answered d codec) : answersIn (w.read ++ w.ahead) <+: w.exchanges :=
  ⟨w.unbegun, h.order.symm⟩

theorem Answered.call (h : w.Answered d codec) {k : ℕ} {e : Exchange}
    (he : w.exchanges[k]? = some e) : w.calls[k]? = some e.call := by
  have hlt := (List.getElem?_eq_some_iff.mp he).1
  have hcalls := congrArg (fun calls => calls[k]?) h.calls
  simp only [List.getElem?_map, he, Option.map_some, List.getElem?_take, if_pos hlt] at hcalls
  exact hcalls.symm

/-- An answer carries the id of its call, or none. -/
theorem Answered.response (hlaw : codec.Lawful d) (h : w.Answered d codec)
    (hsafe : w.calls.length < 2 ^ 53) {k : ℕ} {e : Exchange} (he : w.exchanges[k]? = some e) :
    ∃ id, id.Normal ∧ RpcResponse id e.response ∧
      ((Unread d codec e.call (k + 1) ∧ id = .null) ∨
        (¬ Unread d codec e.call (k + 1) ∧ id = natJson (k + 1) ∧ k + 1 < 2 ^ 53)) := by
  have hk : k + 1 < 2 ^ 53 := by
    have := (List.getElem?_eq_some_iff.mp (h.call he)).1
    omega
  obtain ⟨now, s, handshaken, names, next, hresponse, -⟩ := h.served k e he
  have hanswers := @Daemon.serveFrame_answers σ d now s handshaken names next
    (frameOf (codec.stringify (e.call.request (k + 1))))
  rw [← hresponse] at hanswers
  rcases answerId_request hlaw e.call hk with ⟨hover, hid⟩ | ⟨hfits, hid⟩
  · rw [hid] at hanswers
    exact ⟨.null, ⟨trivial, trivial⟩, hanswers, Or.inl ⟨hover, rfl⟩⟩
  · rw [hid] at hanswers
    exact ⟨natJson (k + 1), natJson_normal _, hanswers, Or.inr ⟨hfits, rfl, hk⟩⟩

theorem Answered.sound (hlaw : codec.Lawful d) (h : w.Answered d codec)
    (hsafe : w.calls.length < 2 ^ 53) {message : WireMessage} (hmem : message ∈ w.ahead) :
    message.Sound := by
  cases message with
  | event name yielded => trivial
  | response e =>
    have hin : e ∈ answersIn (w.read ++ w.ahead) :=
      List.mem_filterMap.mpr ⟨_, List.mem_append_right _ hmem, rfl⟩
    obtain ⟨k, hk⟩ := List.mem_iff_getElem?.mp (h.sublist.subset hin)
    obtain ⟨id, hid, hresponse, -⟩ := h.response hlaw hsafe hk
    exact ⟨id, hid, hresponse⟩

/-- The answer the client reads next is the next answer. -/
theorem Answered.next (h : w.Answered d codec) {e : Exchange} {others : List WireMessage}
    (hahead : w.ahead = .response e :: others) :
    w.exchanges[(answersIn w.read).length]? = some e := by
  rw [h.order, hahead, answersIn_append, List.append_assoc, List.getElem?_append_right le_rfl,
    Nat.sub_self]
  rfl

end Session

end Patchouli

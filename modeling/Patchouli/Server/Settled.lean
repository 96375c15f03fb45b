import Patchouli.Server.Session
import Patchouli.Sqlite.TextSearch

/-!
# What the client of a session waits for

What the client waits for is what it has not read an answer to: a call settles once, by the answer to
its own request, or it is lost with the connection.

## Main definitions

* `Session.Settled`

## Main results

* `Session.calls_answered`
-/

namespace Patchouli

open Json (Value)

namespace Session

variable {σ : Type} {d : Daemon σ} {codec : SessionCodec} {w : Session σ}

/-- The call of an id. -/
def callOf (calls : List ServiceCall) : ℕ → Option ServiceCall
  | 0 => none
  | k + 1 => calls[k]?

variable (d codec w) in
/-- **The client waits for the calls it has read no answer to**, each settled by its own. -/
structure Settled : Prop where
  pending : ∀ id, w.client.pending.lookup id =
    if id ∈ w.client.settled.map (·.1) then none else callOf w.calls id
  pendingNodup : (w.client.pending.map (·.1)).Nodup
  settledNodup : (w.client.settled.map (·.1)).Nodup
  outcome : ∀ entry ∈ w.client.settled,
    (∃ k e, entry.1 = k + 1 ∧ (answersIn w.read)[k]? = some e ∧
      ¬ Unread d codec e.call (k + 1) ∧ entry.2 = e.settlement codec) ∨
    (w.client.connected = false ∧ entry.2 = .failed ∧ (callOf w.calls entry.1).isSome)
  answered : ∀ k e, (answersIn w.read)[k]? = some e → ¬ Unread d codec e.call (k + 1) →
    k + 1 ∈ w.client.settled.map (·.1)
  lost : w.client.connected = false → w.client.pending = [] ∧ w.client.subscriptions = []
  crashed : w.client.crashed = false

theorem Settled.of_eq (h : w.Settled d codec) {w' : Session σ}
    (hclient : w'.client.pending = w.client.pending ∧ w'.client.settled = w.client.settled ∧
      w'.client.connected = w.client.connected ∧ w'.client.crashed = w.client.crashed ∧
      w'.client.subscriptions = w.client.subscriptions)
    (hcalls : w'.calls = w.calls) (hread : answersIn w'.read = answersIn w.read) :
    w'.Settled d codec := by
  obtain ⟨hpending, hsettled, hconnected, hcrashed, hsubscriptions⟩ := hclient
  constructor
  · rw [hpending, hsettled, hcalls]
    exact h.pending
  · rw [hpending]
    exact h.pendingNodup
  · rw [hsettled]
    exact h.settledNodup
  · rw [hsettled, hread, hconnected, hcalls]
    exact h.outcome
  · rw [hread, hsettled]
    exact h.answered
  · rw [hconnected, hpending, hsubscriptions]
    exact h.lost
  · rw [hcrashed]
    exact h.crashed

/-- What was settled was called. -/
theorem Settled.called (hanswered : w.Answered d codec) (h : w.Settled d codec) {id : ℕ}
    (hid : id ∈ w.client.settled.map (·.1)) : (callOf w.calls id).isSome := by
  obtain ⟨entry, hentry, rfl⟩ := List.mem_map.mp hid
  rcases h.outcome entry hentry with ⟨k, e, hk, he, -⟩ | ⟨-, -, hcalled⟩
  · have hprefix : answersIn w.read <+: w.exchanges := by
      refine List.IsPrefix.trans ?_ hanswered.sublist
      rw [answersIn_append]
      exact List.prefix_append _ _
    have hexchange := (List.prefix_iff_getElem?.mp hprefix) k
      (List.getElem?_eq_some_iff.mp he).1
    rw [(List.getElem?_eq_some_iff.mp he).2] at hexchange
    rw [hk, callOf, hanswered.call hexchange]
    rfl
  · exact hcalled

theorem callOf_eq_none {calls : List ServiceCall} {id : ℕ} (h : calls.length < id) :
    callOf calls id = none := by
  cases id with
  | zero => cases h
  | succ k => exact List.getElem?_eq_none (by omega)

theorem callOf_concat (calls : List ServiceCall) (call : ServiceCall) (id : ℕ) :
    callOf (calls ++ [call]) id = if id = calls.length + 1 then some call else callOf calls id := by
  cases id with
  | zero => rfl
  | succ k =>
    simp only [callOf, Nat.add_right_cancel_iff]
    split
    · rename_i hk
      rw [hk, List.getElem?_concat_length]
    · rename_i hk
      rcases lt_or_ge k calls.length with hlt | hge
      · exact List.getElem?_append_left hlt
      · rw [List.getElem?_eq_none hge, List.getElem?_eq_none]
        rw [List.length_append, List.length_singleton]
        omega

/-- A call the client waits for was made, and has not settled. -/
theorem Settled.waiting (h : w.Settled d codec) {id : ℕ}
    (hid : id ∈ w.client.pending.map (·.1)) :
    id ∉ w.client.settled.map (·.1) ∧ (callOf w.calls id).isSome := by
  obtain ⟨entry, hentry, rfl⟩ := List.mem_map.mp hid
  have hsome : (w.client.pending.lookup entry.1).isSome :=
    List.lookup_isSome_iff.mpr ⟨entry, hentry, beq_self_eq_true _⟩
  rw [h.pending] at hsome
  split_ifs at hsome with hsettled
  · cases hsome
  · exact ⟨hsettled, hsome⟩

theorem issue_settled (hanswered : w.Answered d codec) (h : w.Settled d codec)
    (call : ServiceCall) : (w.issue codec call).Settled d codec := by
  unfold issue
  split
  · rename_i hconnected
    have hfresh : ∀ id, (callOf w.calls id).isSome → id ≠ w.calls.length + 1 := by
      rintro id hsome rfl
      rw [callOf_eq_none (Nat.lt_succ_self _)] at hsome
      cases hsome
    have hnext : w.client.nextId = w.calls.length + 1 := hanswered.nextId
    exact {
      pending := fun id => by
        show (w.client.pending ++ [(w.client.nextId, call)]).lookup id = _
        rw [List.lookup_append, h.pending, callOf_concat, hnext]
        by_cases hid : id = w.calls.length + 1
        · subst hid
          have hunsettled : w.calls.length + 1 ∉ w.client.settled.map (·.1) := fun hsettled =>
            hfresh _ (h.called hanswered hsettled) rfl
          have hnone : callOf w.calls (w.calls.length + 1) = none :=
            callOf_eq_none (Nat.lt_succ_self _)
          simp [ServiceClient.issue, hunsettled, hnone]
        · have hother : (id == w.calls.length + 1) = false := beq_false_of_ne hid
          simp only [ServiceClient.issue, hid, List.lookup_cons, List.lookup_nil, hother, Option.or_none, if_false]
      pendingNodup := by
        show ((w.client.pending ++ [(w.client.nextId, call)]).map (·.1)).Nodup
        rw [List.map_append, List.nodup_append]
        refine ⟨h.pendingNodup, List.nodup_singleton _, fun id hid other hother => ?_⟩
        rw [List.mem_singleton.mp hother, hnext]
        exact hfresh id (h.waiting hid).2
      settledNodup := h.settledNodup
      outcome := fun entry hentry => by
        rcases h.outcome entry hentry with hown | ⟨hlost, -⟩
        · exact Or.inl hown
        · rw [hconnected] at hlost
          cases hlost
      answered := h.answered
      lost := fun hlost => by
        have hlost' : w.client.connected = false := hlost
        rw [hconnected] at hlost'
        cases hlost'
      crashed := h.crashed }
  · exact h

/-- When the connection is lost, everything the client waits for is settled. -/
theorem abandon_settled (h : w.Settled d codec) (result : SubscriptionClose) :
    Settled d codec { w with client := w.client.abandon result } := by
  have hids : (w.client.settled ++ w.client.pending.map fun entry =>
      (entry.1, Settlement.failed)).map (·.1) =
        w.client.settled.map (·.1) ++ w.client.pending.map (·.1) := by
    rw [List.map_append, List.map_map]
    rfl
  exact {
    pending := fun id => by
      show none = if id ∈ (w.client.settled ++ w.client.pending.map fun entry =>
        (entry.1, Settlement.failed)).map (·.1) then none else callOf w.calls id
      rw [hids]
      split_ifs with hid
      · rfl
      · have hnone : w.client.pending.lookup id = none := by
          refine List.lookup_eq_none_iff.mpr fun entry hentry => ?_
          rw [bne_iff_ne]
          rintro rfl
          exact hid (List.mem_append_right _ (List.mem_map_of_mem hentry))
        rw [h.pending, if_neg fun hsettled => hid (List.mem_append_left _ hsettled)] at hnone
        exact hnone.symm
    pendingNodup := List.nodup_nil
    settledNodup := by
      show ((w.client.settled ++ w.client.pending.map fun entry =>
        (entry.1, Settlement.failed)).map (·.1)).Nodup
      rw [hids, List.nodup_append]
      refine ⟨h.settledNodup, h.pendingNodup, fun id hsettled other hother heq => ?_⟩
      exact (h.waiting hother).1 (heq ▸ hsettled)
    outcome := fun entry hentry => by
      rcases List.mem_append.mp hentry with hold | hnew
      · rcases h.outcome entry hold with hown | ⟨-, hfailed⟩
        · exact Or.inl hown
        · exact Or.inr ⟨rfl, hfailed⟩
      · obtain ⟨waiting, hwaiting, rfl⟩ := List.mem_map.mp hnew
        exact Or.inr ⟨rfl, rfl, (h.waiting (List.mem_map_of_mem hwaiting)).2⟩
    answered := fun k e he hread => by
      show k + 1 ∈ (w.client.settled ++ w.client.pending.map fun entry =>
        (entry.1, Settlement.failed)).map (·.1)
      rw [hids]
      exact List.mem_append_left _ (h.answered k e he hread)
    lost := fun _ => ⟨rfl, rfl⟩
    crashed := h.crashed }

theorem lookup_filter_ne {β : Type} (entries : List (ℕ × β)) (id other : ℕ) :
    (entries.filter (·.1 ≠ id)).lookup other =
      if other = id then none else entries.lookup other := by
  induction entries with
  | nil => simp
  | cons entry rest ih =>
    obtain ⟨key, value⟩ := entry
    by_cases hkey : key = id
    · subst hkey
      rw [List.filter_cons_of_neg (by simp), ih]
      by_cases hother : other = key
      · rw [if_pos hother, if_pos hother]
      · rw [if_neg hother, if_neg hother, List.lookup_cons, beq_false_of_ne hother]
    · rw [List.filter_cons_of_pos (by simpa using hkey), List.lookup_cons, List.lookup_cons, ih]
      by_cases hother : other = key
      · have hne : other ≠ id := hother ▸ hkey
        simp only [if_neg hne, beq_iff_eq.mpr hother]
      · rw [beq_false_of_ne hother]

/-- The answers the client has read, when it has read one more line. -/
theorem answersIn_concat (messages : List WireMessage) (message : WireMessage) :
    answersIn (messages ++ [message]) = answersIn messages ++ message.exchange?.toList := by
  rw [answersIn_append]
  cases message <;> rfl

/-- **An answer settles the call it is for**, and no other. -/
theorem Settled.response (hlaw : codec.Lawful d) (hsafe : w.calls.length < 2 ^ 53)
    (hanswered : w.Answered d codec) (h : w.Settled d codec) {e : Exchange} {rest : List Char}
    {c : ServiceClient} (hc : c = { w.client with buffer := rest })
    {others : List WireMessage} (hahead : w.ahead = .response e :: others) :
    Settled d codec { w with
      client := c.receiveMessage (codec.seen e.response)
      read := w.read ++ [.response e]
      ahead := others } := by
  set k := (answersIn w.read).length with hk
  have hnext : w.exchanges[k]? = some e := hanswered.next hahead
  have hcall : w.calls[k]? = some e.call := hanswered.call hnext
  obtain ⟨id, -, hresponse, hid⟩ := hanswered.response hlaw hsafe hnext
  obtain ⟨hseen, hmethod, hfieldId, herror⟩ := seenFields_response hlaw hresponse
  have hreceive : ∀ c : ServiceClient, c.receiveMessage (codec.seen e.response) =
      c.receiveResponse (e.seenFields codec) := by
    intro c
    rw [hseen]
    simp only [ServiceClient.receiveMessage, hmethod, Option.isSome_none, Bool.false_eq_true,
      if_false]
  have hread : answersIn (w.read ++ [.response e]) = answersIn w.read ++ [e] := answersIn_concat _ _
  have hold : ∀ (i : ℕ) (e' : Exchange), (answersIn w.read ++ [e])[i]? = some e' →
      (answersIn w.read)[i]? = some e' ∨ (i = k ∧ e' = e) := by
    intro i e' hi
    rcases lt_or_ge i k with hlt | hge
    · rw [List.getElem?_append_left hlt] at hi
      exact Or.inl hi
    · rw [List.getElem?_append_right hge, List.getElem?_singleton] at hi
      split_ifs at hi with hzero
      exact Or.inr ⟨by omega, (Option.some.inj hi).symm⟩
  have hmono : ∀ (i : ℕ) (e' : Exchange), (answersIn w.read)[i]? = some e' →
      (answersIn w.read ++ [e])[i]? = some e' := by
    intro i e' hi
    rw [List.getElem?_append_left (List.getElem?_eq_some_iff.mp hi).1]
    exact hi
  -- Where nothing is waited for under this id, nothing happens.
  have hkeep : (¬ Unread d codec e.call (k + 1) → k + 1 ∈ w.client.settled.map (·.1)) →
      c.receiveResponse (e.seenFields codec) = c →
      Settled d codec { w with
        client := c.receiveResponse (e.seenFields codec)
        read := w.read ++ [.response e]
        ahead := others } := by
    intro hsettled hsame
    rw [hsame, hc]
    exact {
      pending := h.pending
      pendingNodup := h.pendingNodup
      settledNodup := h.settledNodup
      outcome := fun entry hentry => by
        rcases h.outcome entry hentry with ⟨i, e', hi, he', hown⟩ | hlost
        · exact Or.inl ⟨i, e', hi, by rw [hread]; exact hmono i e' he', hown⟩
        · exact Or.inr hlost
      answered := fun i e' he' hfits => by
        rw [hread] at he'
        rcases hold i e' he' with hi | ⟨rfl, rfl⟩
        · exact h.answered i e' hi hfits
        · exact hsettled hfits
      lost := h.lost
      crashed := h.crashed }
  rw [hreceive]
  rcases hid with ⟨hunread, rfl⟩ | ⟨hfits, rfl, hbound⟩
  · refine hkeep (fun hfits => absurd hunread hfits) ?_
    unfold ServiceClient.receiveResponse
    rw [hfieldId, hlaw.seen_null]
  · rw [hlaw.seen_id _ hbound] at hfieldId
    by_cases hsettled : k + 1 ∈ w.client.settled.map (·.1)
    · -- It was lost with the connection.
      refine hkeep (fun _ => hsettled) ?_
      have hnone : c.pending.lookup (k + 1) = none := by
        rw [hc, h.pending, if_pos hsettled]
      have hnat : (UInt64.ofNat (k + 1)).toNat = k + 1 :=
        UInt64.toNat_ofNat_of_lt' (lt_trans hbound (by decide))
      unfold ServiceClient.receiveResponse
      rw [hfieldId, natJson]
      simp only [hnat, hnone]
    · have hlookup : c.pending.lookup (k + 1) = some e.call := by
        rw [hc, h.pending, if_neg hsettled, callOf, hcall]
      obtain ⟨hkeeps, hpending, hsettles, hsubscriptions, -, hcrashed⟩ :=
        ServiceClient.receiveResponse_pending codec e (lt_trans hbound (by decide)) hfieldId
          herror hlookup
      have hclient : c.pending = w.client.pending ∧ c.settled = w.client.settled ∧
          c.connected = w.client.connected ∧ c.crashed = w.client.crashed := by
        rw [hc]
        exact ⟨rfl, rfl, rfl, rfl⟩
      rw [hclient.1] at hpending hlookup
      rw [hclient.2.1] at hsettles
      have hids : (w.client.settled ++ [(k + 1, e.settlement codec)]).map (·.1) =
          w.client.settled.map (·.1) ++ [k + 1] := List.map_append
      have hconnected : w.client.connected = true := by
        by_contra hlost
        rw [(h.lost (by simpa using hlost)).1] at hlookup
        cases hlookup
      exact {
        pending := fun id => by
          show (ServiceClient.pending _).lookup id = _
          rw [hpending, hsettles, lookup_filter_ne, h.pending, hids]
          by_cases hid : id = k + 1
          · rw [if_pos hid, if_pos (List.mem_append_right _ (List.mem_singleton.mpr hid))]
          · have hmem : id ∈ w.client.settled.map (·.1) ++ [k + 1] ↔
                id ∈ w.client.settled.map (·.1) := by simp [hid]
            simp only [if_neg hid, hmem]
        pendingNodup := by
          show ((ServiceClient.pending _).map (·.1)).Nodup
          rw [hpending]
          exact h.pendingNodup.sublist (List.filter_sublist.map _)
        settledNodup := by
          show ((ServiceClient.settled _).map (·.1)).Nodup
          rw [hsettles, hids, List.nodup_append]
          refine ⟨h.settledNodup, List.nodup_singleton _, fun id hid other hother heq => ?_⟩
          exact hsettled (List.mem_singleton.mp hother ▸ heq ▸ hid)
        outcome := fun entry hentry => by
          have hentry' : entry ∈ w.client.settled ++ [(k + 1, e.settlement codec)] := hsettles ▸ hentry
          rcases List.mem_append.mp hentry' with hmem | hmem
          · rcases h.outcome entry hmem with ⟨i, e', hi, he', hown⟩ | ⟨hlost, -⟩
            · exact Or.inl ⟨i, e', hi, by rw [hread]; exact hmono i e' he', hown⟩
            · rw [hconnected] at hlost
              cases hlost
          · rw [List.mem_singleton.mp hmem]
            exact Or.inl ⟨k, e, rfl, by rw [hread, List.getElem?_concat_length], hfits, rfl⟩
        answered := fun i e' he' hfits' => by
          show i + 1 ∈ (ServiceClient.settled _).map (·.1)
          rw [hsettles, hids, List.mem_append]
          rw [hread] at he'
          rcases hold i e' he' with hi | ⟨rfl, rfl⟩
          · exact Or.inl (h.answered i e' hi hfits')
          · exact Or.inr (List.mem_singleton_self _)
        lost := fun hlost => by
          have hlost' : w.client.connected = false :=
            hclient.2.2.1.symm.trans (hkeeps.connected.symm.trans hlost)
          rw [hconnected] at hlost'
          cases hlost'
        crashed := hcrashed.trans (hclient.2.2.2.trans h.crashed) }

theorem turn_settled (hlaw : codec.Lawful d) (hsafe : w.calls.length < 2 ^ 53)
    (hframed : w.Framed codec) (hanswered : w.Answered d codec) (h : w.Settled d codec) :
    (w.turn codec).Settled d codec := by
  cases hfirst : Lines.firstLine (Char.ofNat 10) w.client.buffer with
  | none =>
    have hturn : w.turn codec = w := by
      unfold turn
      rw [hfirst, ServiceClient.turn_none hfirst]
    rw [hturn]
    exact h
  | some parts =>
    obtain ⟨line, rest⟩ := parts
    obtain ⟨message, others, hahead, rfl, -⟩ := hframed.turn hfirst
    have hsound : message.Sound := hanswered.sound hlaw hsafe (hahead ▸ List.mem_cons_self)
    unfold turn
    rw [hfirst, hahead]
    dsimp only
    rw [hlaw.turn_eq hsound hfirst]
    cases message with
    | response e => exact h.response hlaw hsafe hanswered rfl hahead
    | event name yielded =>
      refine h.of_eq ?_ rfl ?_
      · rw [WireMessage.value, receive_event hlaw]
        split
        · exact ⟨rfl, rfl, rfl, rfl, rfl⟩
        · exact ⟨rfl, rfl, rfl, rfl, rfl⟩
      · exact (answersIn_concat _ _).trans (List.append_nil _)

theorem Settled.step (hlaw : codec.Lawful d) (hsafe : w.calls.length < 2 ^ 53)
    (hframed : w.Framed codec) (hanswered : w.Answered d codec) (h : w.Settled d codec)
    (event : SessionEvent σ) : (w.step d codec event).Settled d codec := by
  cases event with
  | call call => exact issue_settled hanswered h call
  | deliver amount => exact h.of_eq ⟨rfl, rfl, rfl, rfl, rfl⟩ rfl rfl
  | turn => exact turn_settled hlaw hsafe hframed hanswered h
  | fail => exact abandon_settled h .connectionLost
  | close => exact abandon_settled h .clientClosed
  | take now =>
    simp only [Session.step, take]
    split
    · exact h.of_eq ⟨rfl, rfl, rfl, rfl, rfl⟩ rfl rfl
    · exact h
  | write writer amount =>
    simp only [Session.step, write]
    split
    · exact h
    · split
      · split
        · exact h.of_eq ⟨rfl, rfl, rfl, rfl, rfl⟩ rfl rfl
        · exact h
      · split
        · exact h
        · exact h.of_eq ⟨rfl, rfl, rfl, rfl, rfl⟩ rfl rfl
  | yield name yielded => exact h.of_eq ⟨rfl, rfl, rfl, rfl, rfl⟩ rfl rfl
  | streamFailed name =>
    simp only [Session.step]
    split
    · exact h.of_eq ⟨rfl, rfl, rfl, rfl, rfl⟩ rfl rfl
    · exact h
  | stop => exact h.of_eq ⟨rfl, rfl, rfl, rfl, rfl⟩ rfl rfl
  | outside state => exact h.of_eq ⟨rfl, rfl, rfl, rfl, rfl⟩ rfl rfl

/-! ### Runs -/

/-- What an event does to the lines that were whole, and to the calls. -/
theorem step_grows (event : SessionEvent σ) :
    ((w.step d codec event).torn = w.torn ∨
        ∃ now, event = .take now ∧ (w.step d codec event).torn = true ∧ w.conn.lock.isSome) ∧
      w.calls.length ≤ (w.step d codec event).calls.length ∧
      (w.step d codec event).calls.length ≤ w.calls.length + 1 := by
  cases event with
  | call call =>
    simp only [Session.step, issue]
    split
    · exact ⟨Or.inl rfl, by simp, by simp⟩
    · exact ⟨Or.inl rfl, le_rfl, Nat.le_succ _⟩
  | turn =>
    simp only [Session.step, turn]
    split
    · exact ⟨Or.inl rfl, le_rfl, Nat.le_succ _⟩
    · exact ⟨Or.inl rfl, le_rfl, Nat.le_succ _⟩
  | take now =>
    simp only [Session.step, take]
    split
    · refine ⟨?_, le_rfl, Nat.le_succ _⟩
      dsimp only
      generalize (d.serveFrame now w.state w.conn.handshaken w.conn.names
        w.conn.nextSubscriptionId (frameOf _)).closed = closed
      cases htears : w.conn.tears closed with
      | false => exact Or.inl (Bool.or_false _)
      | true =>
        refine Or.inr ⟨now, rfl, Bool.or_true _, ?_⟩
        unfold Connection.tears at htears
        cases hlock : w.conn.lock with
        | none => simp [hlock] at htears
        | some held => rfl
    · exact ⟨Or.inl rfl, le_rfl, Nat.le_succ _⟩
  | write writer amount =>
    simp only [Session.step, write]
    split
    · exact ⟨Or.inl rfl, le_rfl, Nat.le_succ _⟩
    · split
      · split
        · exact ⟨Or.inl rfl, le_rfl, Nat.le_succ _⟩
        · exact ⟨Or.inl rfl, le_rfl, Nat.le_succ _⟩
      · split
        · exact ⟨Or.inl rfl, le_rfl, Nat.le_succ _⟩
        · exact ⟨Or.inl rfl, le_rfl, Nat.le_succ _⟩
  | streamFailed name =>
    simp only [Session.step]
    split
    · exact ⟨Or.inl rfl, le_rfl, Nat.le_succ _⟩
    · exact ⟨Or.inl rfl, le_rfl, Nat.le_succ _⟩
  | deliver amount => exact ⟨Or.inl rfl, le_rfl, Nat.le_succ _⟩
  | fail => exact ⟨Or.inl rfl, le_rfl, Nat.le_succ _⟩
  | close => exact ⟨Or.inl rfl, le_rfl, Nat.le_succ _⟩
  | yield name yielded => exact ⟨Or.inl rfl, le_rfl, Nat.le_succ _⟩
  | stop => exact ⟨Or.inl rfl, le_rfl, Nat.le_succ _⟩
  | outside state => exact ⟨Or.inl rfl, le_rfl, Nat.le_succ _⟩

/-- What is whole was whole, and no call is taken back. -/
theorem step_whole {event : SessionEvent σ} (h : (w.step d codec event).torn = false) :
    w.torn = false := by
  rcases (@step_grows σ d codec w event).1 with hsame | ⟨now, -, htorn, -⟩
  · exact hsame.symm.trans h
  · rw [h] at htorn
    cases htorn

theorem Reaches.run (h : Reaches d codec w) (events : List (SessionEvent σ)) :
    Reaches d codec (w.run d codec events) := by
  induction events generalizing w with
  | nil => exact h
  | cons event events ih => exact ih (h.step event)

/-- Where no frame is taken, no line is torn. -/
theorem run_whole {events : List (SessionEvent σ)} (h : ∀ now, .take now ∉ events) :
    (w.run d codec events).torn = w.torn ∧
      (w.run d codec events).calls.length ≤ w.calls.length + events.length := by
  induction events generalizing w with
  | nil => exact ⟨rfl, le_rfl⟩
  | cons event events ih =>
    obtain ⟨htorn, -, hcalls⟩ := @step_grows σ d codec w event
    obtain ⟨htorn', hcalls'⟩ := @ih (w.step d codec event) fun now hmem =>
      h now (List.mem_cons_of_mem _ hmem)
    have hsame : (w.step d codec event).torn = w.torn := by
      rcases htorn with hsame | ⟨now, rfl, -⟩
      · exact hsame
      · exact absurd List.mem_cons_self (h now)
    refine ⟨htorn'.trans hsame, hcalls'.trans ?_⟩
    rw [List.length_cons]
    omega

variable (d codec w) in
/-- What holds of a session whose lines are whole. -/
structure Kept : Prop where
  framed : w.Framed codec
  answered : w.Answered d codec
  settled : w.Settled d codec

theorem start_kept (s : σ) (handshake : Value) : (start codec s handshake).Kept d codec := by
  have hframed : Framed codec (⟨.start, [], s, .start, [], [], [], [], [], false⟩ : Session σ) :=
    ⟨rfl, fun writer rest hlock => by cases hlock⟩
  have hanswered : Answered d codec
      (⟨.start, [], s, .start, [], [], [], [], [], false⟩ : Session σ) := {
    order := rfl
    writing := fun rest hlock => by cases hlock
    reply := fun r hr => by cases hr
    requests := rfl
    calls := rfl
    served := fun k e he => by simp at he
    handshaken := fun hshook => by
      obtain ⟨e, id, result, he, -⟩ := hshook
      cases he
    nextId := rfl }
  have hsettled : Settled d codec
      (⟨.start, [], s, .start, [], [], [], [], [], false⟩ : Session σ) := {
    pending := fun id => by cases id <;> rfl
    pendingNodup := List.nodup_nil
    settledNodup := List.nodup_nil
    outcome := fun entry hentry => by cases hentry
    answered := fun k e he => by simp [answersIn] at he
    lost := fun hlost => by cases hlost
    crashed := rfl }
  exact ⟨issue_framed hframed _, issue_answered hanswered _, issue_settled hanswered hsettled _⟩

/-- **Every run keeps them**, as long as it tears no line and the ids of its calls are exact. -/
theorem Reaches.kept (hlaw : codec.Lawful d) (h : Reaches d codec w) (htorn : w.torn = false)
    (hsafe : w.calls.length < 2 ^ 53) : w.Kept d codec := by
  induction h with
  | start s handshake => exact start_kept s handshake
  | @step w event h ih =>
    have hlength := (@step_grows σ d codec w event).2.1
    obtain ⟨hframed, hanswered, hsettled⟩ := ih (step_whole htorn) (hlength.trans_lt hsafe)
    exact ⟨hframed.step event htorn, hanswered.step hframed event,
      hsettled.step hlaw (hlength.trans_lt hsafe) hframed hanswered event⟩

theorem Kept.length_of_quiet (h : w.Kept d codec) (htoDaemon : w.toDaemon = [])
    (hreply : w.conn.reply = none) (hahead : w.ahead = []) :
    (answersIn w.read).length = w.calls.length := by
  have horder := h.answered.order
  have hunbegun : w.unbegun = [] := by
    rw [unbegun, Connection.waits, hreply]
    rfl
  rw [hunbegun, hahead, List.append_nil, List.append_nil] at horder
  have hrequests := h.answered.requests
  rw [htoDaemon, eq_comm, List.drop_eq_nil_iff, SessionCodec.requests,
    List.length_mapIdx] at hrequests
  exact horder ▸ le_antisymm h.answered.length_le hrequests

variable (d codec w) in
/-- What becomes of the calls of a session: they settle once, each by the answer to its own request;
what is lost with the connection fails, and nothing else. -/
structure CallsAnswered : Prop where
  once : (w.client.settled.map (·.1)).Nodup
  pending : ∀ id, w.client.pending.lookup id =
    if id ∈ w.client.settled.map (·.1) then none else callOf w.calls id
  own : ∀ id outcome, (id, outcome) ∈ w.client.settled →
    w.client.connected = false ∧ outcome = .failed ∨
    ∃ k call now s handshaken names next, id = k + 1 ∧ w.calls[k]? = some call ∧
      outcome = Exchange.settlement codec ⟨call, (d.serveFrame now s handshaken names next
        (.line (codec.stringify (call.request id)))).response⟩ ∧
      (0 < k → w.ShookHands → handshaken = true)
  settled : w.client.connected = true → ∀ k call, w.calls[k]? = some call →
    (k + 1 ∈ w.client.settled.map (·.1) ↔
      k < (answersIn w.read).length ∧ ¬ Unread d codec call (k + 1))
  quiet : w.toDaemon = [] → w.conn.reply = none → w.ahead = [] →
    (answersIn w.read).length = w.calls.length
  crashed : w.client.crashed = false

/-- **A call settles once, by the answer to its own request**, in every run that tears no line. -/
theorem calls_answered (hlaw : codec.Lawful d) (h : Reaches d codec w) (htorn : w.torn = false)
    (hsafe : w.calls.length < 2 ^ 53) : w.CallsAnswered d codec := by
  have hkept := h.kept hlaw htorn hsafe
  have hanswered := hkept.answered
  have hsettled := hkept.settled
  have hread : ∀ (k : ℕ) (e : Exchange), (answersIn w.read)[k]? = some e →
      w.exchanges[k]? = some e := by
    intro k e he
    have hprefix := (List.prefix_append (answersIn w.read) (answersIn w.ahead)).trans
      (answersIn_append w.read w.ahead ▸ hanswered.sublist)
    have hlt := (List.getElem?_eq_some_iff.mp he).1
    rw [← (List.getElem?_eq_some_iff.mp he).2]
    exact List.prefix_iff_getElem?.mp hprefix k hlt
  refine ⟨hsettled.settledNodup, hsettled.pending, ?_, ?_, hkept.length_of_quiet, hsettled.crashed⟩
  · intro id outcome hmem
    rcases hsettled.outcome _ hmem with ⟨k, e, rfl, he, hfits, rfl⟩ | ⟨hlost, hfailed, -⟩
    · obtain ⟨now, s, handshaken, names, next, hresponse, hlater⟩ :=
        hanswered.served k e (hread k e he)
      rw [frameOf_unread hfits] at hresponse
      exact Or.inr ⟨k, e.call, now, s, handshaken, names, next, rfl,
        hanswered.call (hread k e he), by rw [← hresponse], hlater⟩
    · exact Or.inl ⟨hlost, hfailed⟩
  · intro hconnected k call hcall
    constructor
    · intro hmem
      obtain ⟨entry, hentry, hid⟩ := List.mem_map.mp hmem
      rcases hsettled.outcome entry hentry with ⟨i, e, hi, he, hfits, -⟩ | ⟨hlost, -⟩
      · obtain rfl : i = k := by omega
        have hsame := (hanswered.call (hread i e he)).symm.trans hcall
        rw [← Option.some.inj hsame]
        exact ⟨(List.getElem?_eq_some_iff.mp he).1, hfits⟩
      · rw [hconnected] at hlost
        cases hlost
    · rintro ⟨hlt, hfits⟩
      have he := List.getElem?_eq_getElem hlt
      have hsame := (hanswered.call (hread k _ he)).symm.trans hcall
      refine hsettled.answered k _ he ?_
      rw [Option.some.inj hsame]
      exact hfits

/-! ### Before the handshake -/

variable (w) in
/-- A session without a handshake: its daemon has done nothing but refuse. -/
structure Refuses (s : σ) : Prop where
  state_eq : w.state = s
  tasks : w.conn.tasks = []
  reply : ∀ reply, w.conn.reply = some reply → reply.opened = none
  refused : ∀ e ∈ w.exchanges, ∃ id error, RpcErrorObject error ∧ e.response = rpcFailure id error

theorem Refuses.proceed {conn : Connection} (htasks : conn.tasks = [])
    (hreply : ∀ reply, conn.reply = some reply → reply.opened = none) (writer : LineWriter)
    (rest : List Char) :
    (conn.proceed writer rest).tasks = [] ∧
      ∀ reply, (conn.proceed writer rest).reply = some reply → reply.opened = none := by
  unfold Connection.proceed
  split
  · cases writer with
    | main =>
      cases hpending : conn.reply with
      | none =>
        refine ⟨by simp [Connection.finish, htasks], fun reply h => ?_⟩
        simp [Connection.finish] at h
      | some reply =>
        have hopened := hreply reply hpending
        refine ⟨by simp [Connection.finish, htasks, hopened], fun reply h => ?_⟩
        simp [Connection.finish] at h
    | task name => exact ⟨by simp [Connection.finish, htasks], hreply⟩
  · exact ⟨htasks, hreply⟩

theorem Refuses.step {s : σ} (h : w.conn.handshaken = false → w.Refuses s) {event : SessionEvent σ}
    (hinside : ∀ state, event ≠ .outside state)
    (hunshaken : (w.step d codec event).conn.handshaken = false) :
    (w.step d codec event).Refuses s := by
  cases event with
  | outside state => exact absurd rfl (hinside state)
  | call call =>
    revert hunshaken
    simp only [Session.step, issue]
    split
    · exact fun hunshaken => ⟨(h hunshaken).state_eq, (h hunshaken).tasks, (h hunshaken).reply,
        (h hunshaken).refused⟩
    · exact h
  | deliver amount =>
    obtain ⟨hstate, htasks, hreply, hrefused⟩ := h hunshaken
    exact ⟨hstate, htasks, hreply, hrefused⟩
  | turn =>
    revert hunshaken
    simp only [Session.step, turn]
    split
    · exact fun hunshaken => ⟨(h hunshaken).state_eq, (h hunshaken).tasks, (h hunshaken).reply,
        (h hunshaken).refused⟩
    · exact fun hunshaken => ⟨(h hunshaken).state_eq, (h hunshaken).tasks, (h hunshaken).reply,
        (h hunshaken).refused⟩
  | fail =>
    obtain ⟨hstate, htasks, hreply, hrefused⟩ := h hunshaken
    exact ⟨hstate, htasks, hreply, hrefused⟩
  | close =>
    obtain ⟨hstate, htasks, hreply, hrefused⟩ := h hunshaken
    exact ⟨hstate, htasks, hreply, hrefused⟩
  | take now =>
    revert hunshaken
    simp only [Session.step, take]
    split
    · rename_i text rest call hover hpending hrequest hcall
      intro hunshaken
      have hbefore : w.conn.handshaken = false := by
        by_contra hshaken
        have hturn := hunshaken
        rw [Bool.not_eq_false] at hshaken
        rw [hshaken] at hturn
        exact absurd hturn (by simp [Connection.take, Daemon.serveFrame_handshaken])
      obtain ⟨hstate, htasks, -, hrefused⟩ := h hbefore
      have hturn := @Daemon.serveFrame_refused σ d now w.state w.conn.names
        w.conn.nextSubscriptionId (frameOf text)
      rw [← hbefore] at hturn
      refine ⟨hturn.state_eq.trans hstate, ?_, ?_, ?_⟩
      · simp [Connection.take, htasks]
      · intro reply hreply
        rw [← Option.some.inj hreply]
        exact hturn.opened
      · intro e he
        rcases List.mem_append.mp he with hold | hnew
        · exact hrefused e hold
        · obtain ⟨error, herror, hresponse⟩ := hturn.failure hunshaken
          rw [List.mem_singleton.mp hnew]
          exact ⟨_, error, herror, hresponse⟩
    · exact h
  | write writer amount =>
    revert hunshaken
    simp only [Session.step, write]
    split
    · exact h
    · split
      · split
        · intro hunshaken
          rw [Connection.proceed_handshaken] at hunshaken
          obtain ⟨hstate, htasks, hreply, hrefused⟩ := h hunshaken
          obtain ⟨htasks', hreply'⟩ := Refuses.proceed htasks hreply writer _
          exact ⟨hstate, htasks', hreply', hrefused⟩
        · exact h
      · split
        · exact h
        · intro hunshaken
          dsimp only at hunshaken
          rw [Connection.proceed_handshaken] at hunshaken
          obtain ⟨hstate, htasks, hreply, hrefused⟩ := h hunshaken
          obtain ⟨htasks', hreply'⟩ := Refuses.proceed htasks hreply writer _
          exact ⟨hstate, htasks', hreply', hrefused⟩
  | yield name yielded =>
    obtain ⟨hstate, htasks, hreply, hrefused⟩ := h hunshaken
    exact ⟨hstate, by simp [Session.step, Connection.yield, htasks], hreply, hrefused⟩
  | streamFailed name =>
    revert hunshaken
    simp only [Session.step]
    split
    · exact fun hunshaken => ⟨(h hunshaken).state_eq, (h hunshaken).tasks, (h hunshaken).reply,
        (h hunshaken).refused⟩
    · exact h
  | stop =>
    obtain ⟨hstate, htasks, hreply, hrefused⟩ := h hunshaken
    exact ⟨hstate, htasks, hreply, hrefused⟩

/-- **Until a handshake succeeds, a connection reaches nothing behind the daemon**: whatever a client
calls and however its lines are written, every answer is an error, no subscription is opened, and the state
behind the daemon is as it was, unless somebody else changed it. -/
theorem run_unshaken (s : σ) (handshake : Value) (events : List (SessionEvent σ))
    (hinside : ∀ state, .outside state ∉ events)
    (h : ((start codec s handshake).run d codec events).conn.handshaken = false) :
    ((start codec s handshake).run d codec events).state = s ∧
      ((start codec s handshake).run d codec events).conn.tasks = [] ∧
      ∀ e ∈ ((start codec s handshake).run d codec events).exchanges,
        ∃ id error, RpcErrorObject error ∧ e.response = rpcFailure id error := by
  have hrun : ∀ (events : List (SessionEvent σ)) (w : Session σ),
      (∀ state, .outside state ∉ events) → (w.conn.handshaken = false → w.Refuses s) →
      (w.run d codec events).conn.handshaken = false → (w.run d codec events).Refuses s := by
    intro events
    induction events with
    | nil => exact fun w _ h => h
    | cons event events ih =>
      intro w hinside h
      refine ih (w.step d codec event) (fun state hmem => ?_) fun hunshaken => ?_
      · exact hinside state (List.mem_cons_of_mem _ hmem)
      · refine Refuses.step h (fun state heq => ?_) hunshaken
        exact hinside state (heq ▸ List.mem_cons_self)
  have hstart : (start codec s handshake).Refuses s := {
    state_eq := rfl
    tasks := rfl
    reply := fun reply hreply => by cases hreply
    refused := fun e he => by cases he }
  obtain ⟨hstate, htasks, -, hrefused⟩ := hrun events _ hinside (fun _ => hstart) h
  exact ⟨hstate, htasks, hrefused⟩

end Session

/-! ### A greeting -/

section Greeting

open Classical in
/-- JSON as it was written. -/
noncomputable def readExactly (text : String) : Option Value :=
  if h : ∃ value : Value, value.Normal ∧ String.ofList (noteFloats.write value) = text then
    some h.choose
  else none

theorem readExactly_write {value : Value} (h : value.Normal) :
    readExactly (String.ofList (noteFloats.write value)) = some value := by
  have hex : ∃ other : Value, other.Normal ∧ String.ofList (noteFloats.write other) =
      String.ofList (noteFloats.write value) := ⟨value, h, rfl⟩
  unfold readExactly
  rw [dif_pos hex, Option.some.injEq]
  obtain ⟨hnormal, htext⟩ := hex.choose_spec
  exact Json.FloatText.write_injective (hnormal.imp fun _ hnode => hnode.1)
    (h.imp fun _ hnode => hnode.1) (String.ofList_injective htext)

theorem readExactly_empty : readExactly "" = none := by
  refine dif_neg ?_
  rintro ⟨value, -, htext⟩
  obtain ⟨c, cs, hwrite, -⟩ := Json.FloatText.write_start noteFloats value
  rw [hwrite] at htext
  exact List.cons_ne_nil c cs (String.ofList_injective htext)

open Classical in
/-- A codec that loses nothing; what is not normal is not written. -/
noncomputable def exactCodec : SessionCodec where
  floats := noteFloats
  stringify value := if value.Normal then String.ofList (noteFloats.write value) else ""
  jsonParse := readExactly
  seen := id

/-- A daemon with nothing behind it: it shakes hands and has subscriptions. -/
noncomputable def greeter : Daemon Unit where
  parse := readExactly
  serverIdentity := .object []
  serverLimits := .object []
  readHandshake params :=
    match params with
    | .object fields =>
      if (fields.lookup "client").isSome then .ok ⟨[protocolVersion], serverCapabilities⟩
      else .error "missing field"
    | _ => .error "invalid type"
  readEmpty _ := .error "no metadata"
  readEntity _ _ := .error "no entity"
  readUploadBegin _ := .error "no upload"
  readUploadChunk _ := .error "no upload"
  readUploadCommit _ := .error "no upload"
  readDownload _ := .error "no artifact"
  readSubscribe params := .ok params
  readUnsubscribe params :=
    match subscriptionIdOf (some params) with
    | some (some (.string name)) => .ok ([], name)
    | _ => .error "missing field"
  serde := ⟨fun _ => .null, fun _ => .error "no artifact"⟩
  status _ := .object []
  checkpoint s := (.ok (), s)
  entity _ s := (.error ⟨.notFound, "no entity", [], []⟩, s)
  begin _ s := (.error (.invalid "no upload"), s)
  append _ _ _ s := (.error .notFound, s)
  commit _ s := (.error .notFound, s)
  finish _ s := s
  download _ _ s := (.error (.internal "no artifact"), s)
  subscribe _ s := (.ok "cursor-1", s)
  identity_normal := ⟨⟨trivial, List.Pairwise.nil⟩, trivial⟩
  limits_normal := ⟨⟨trivial, List.Pairwise.nil⟩, trivial⟩
  status_normal _ := ⟨⟨trivial, List.Pairwise.nil⟩, trivial⟩
  entity_normal request s s' result h := by cases h
  download_normal metadata data s s' result h := by cases h

theorem exactCodec_lawful : exactCodec.Lawful greeter where
  request call id _ request hparse := by
    by_cases hnormal : (call.request id).Normal
    · have htext : exactCodec.stringify (call.request id) =
          String.ofList (noteFloats.write (call.request id)) := if_pos hnormal
      rw [htext] at hparse
      have hrequest := (readExactly_write hnormal).symm.trans hparse
      refine ⟨_, (Option.some.inj hrequest).symm, rfl, rfl, ?_⟩
      rintro metadata name rfl metadata' name' hread
      exact (Prod.mk.inj (Except.ok.inj hread)).2.symm
    · have htext : exactCodec.stringify (call.request id) = "" := if_neg hnormal
      rw [htext] at hparse
      exact absurd (readExactly_empty.symm.trans hparse) (by simp)
  message value hnormal := readExactly_write hnormal
  seen_object fields := by simp [exactCodec]
  seen_string text := rfl
  seen_null := rfl
  seen_id id _ := rfl

def greeting : Value := .object [("client", .string "dsh-patchouli")]

/-- A session in which a handshake is answered and read, with a `subscribe` under way. -/
noncomputable def greeted : Session Unit :=
  ((Session.start exactCodec () greeting).step greeter exactCodec (.take fun _ => 0)).run
    greeter exactCodec
    [.call (.subscribe (.object [])), .write .main 1000, .deliver 1000, .turn]

theorem greeted_reached : Session.Reaches greeter exactCodec greeted :=
  ((Session.Reaches.start () greeting).step _).run _

theorem greeted_whole : greeted.torn = false ∧ greeted.calls.length < 2 ^ 53 := by
  obtain ⟨htorn, hcalls⟩ := @Session.run_whole _ greeter exactCodec
    ((Session.start exactCodec () greeting).step greeter exactCodec (.take fun _ => 0))
    [.call (.subscribe (.object [])), .write .main 1000, .deliver 1000, .turn] (by simp)
  obtain ⟨htaken, -, hfirst⟩ := @Session.step_grows _ greeter exactCodec
    (Session.start exactCodec () greeting) (.take fun _ => 0)
  refine ⟨htorn.trans ?_, lt_of_le_of_lt hcalls ?_⟩
  · rcases htaken with hsame | ⟨now, -, -, hlocked⟩
    · exact hsame
    · cases hlocked
  · have hstart : (Session.start exactCodec () greeting).calls.length = 1 := rfl
    simp only [List.length_cons, List.length_nil]
    omega

theorem greeted_calls_answered : greeted.CallsAnswered greeter exactCodec :=
  Session.calls_answered exactCodec_lawful greeted_reached greeted_whole.1 greeted_whole.2

/-- A handshake that says nothing is refused. -/
theorem unnamed_refused :
    ((Session.start exactCodec () (.object [])).run greeter exactCodec
      [.take fun _ => 0]).state = () ∧
      ((Session.start exactCodec () (.object [])).run greeter exactCodec
        [.take fun _ => 0]).conn.tasks = [] ∧
      ∀ e ∈ ((Session.start exactCodec () (.object [])).run greeter exactCodec
        [.take fun _ => 0]).exchanges,
        ∃ id error, RpcErrorObject error ∧ e.response = rpcFailure id error := by
  refine Session.run_unshaken () (.object []) _ (by simp) ?_
  show (greeter.serveFrame (fun _ => 0) () false [] 1 (frameOf (exactCodec.stringify
    ((ServiceCall.plain .handshake (.object [])).request 1)))).handshaken = false
  rw [frameOf_eq]
  split
  · rfl
  · have hsorted : ["id", "jsonrpc", "method", "params"].Pairwise (· < ·) := by decide
    have hnormal : ((ServiceCall.plain .handshake (.object [])).request 1).Normal := by
      refine normal_object hsorted ?_
      simp only [List.forall_mem_cons]
      exact ⟨natJson_normal 1, normal_string _, normal_string _,
        normal_object List.Pairwise.nil (List.forall_mem_nil _), List.forall_mem_nil _⟩
    have hparse : greeter.parse (exactCodec.stringify
        ((ServiceCall.plain .handshake (.object [])).request 1)) =
          some ((ServiceCall.plain .handshake (.object [])).request 1) := by
      have htext : exactCodec.stringify ((ServiceCall.plain .handshake (.object [])).request 1) =
          String.ofList (noteFloats.write
            ((ServiceCall.plain .handshake (.object [])).request 1)) := if_pos hnormal
      rw [htext]
      exact readExactly_write hnormal
    simp only [Daemon.serveFrame, Bool.false_eq_true, if_false, Daemon.dispatch, hparse]
    rfl

end Greeting

end Patchouli

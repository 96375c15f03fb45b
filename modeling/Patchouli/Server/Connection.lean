import Patchouli.Server.Client

/-!
# A connection and its two ends

The daemon's end: `serve` reads a frame, writes its answer and only then reads the next one; a task
for each subscription writes events meanwhile. They share the writer, which a line occupies until it
is written, in as many pieces as the stream takes. An `unsubscribe` aborts a task wherever it is: one
that is writing leaves its line unfinished.

The client's end is a `ServiceClient`. Requests are lines on their way to the daemon; what the daemon
has written is a stream of characters, which the client is delivered in pieces of any size.

## Main definitions

* `Connection` — the loop of `serve`, its tasks and its writer
* `Session` — both ends, and what is under way between them
* `Session.step`, `Session.Reaches`
-/

namespace Patchouli

open Json (Value FloatText)

/-! ### The daemon's end -/

/-- A change a subscription yields: its `PublishedChange`, as it is written. -/
structure YieldedChange where
  change : Value
  metadata : Meta
  change_normal : change.Normal
  metadata_normal : (Value.object metadata).Normal

/-- The parameters of an event. -/
def YieldedChange.params (yielded : YieldedChange) (name : String) : Value :=
  .object [("data", .object [("change", yielded.change), ("subscription_id", .string name)]),
    ("meta", .object yielded.metadata)]

/-- The task of a subscription, with the change it is writing or waits to write. -/
structure EventTask where
  name : String
  yielded : Option YieldedChange

/-- An answer that is being written, or waits to be, with what comes after it. -/
structure PendingReply where
  response : Value
  opened : Option String
  shutdown : Bool

/-- Who writes: the loop of `serve`, or the task of a subscription. -/
inductive LineWriter where
  | main
  | task (name : String)
  deriving DecidableEq

/-- The variables of `serve`, and who holds the writer with how much left to write. -/
structure Connection where
  handshaken : Bool
  tasks : List EventTask
  nextSubscriptionId : ℕ
  reply : Option PendingReply
  lock : Option (LineWriter × List Char)
  ended : Bool

namespace Connection

def start : Connection := ⟨false, [], 1, none, none, false⟩

variable (conn : Connection)

/-- The subscriptions there are tasks for. -/
def names : List String := conn.tasks.map (·.name)

/-- The task that writes is aborted. -/
def tears (closed : Option String) : Bool :=
  match conn.lock, closed with
  | some (.task holder, _), some name => holder = name
  | _, _ => false

/-- A frame was read, and handled so far that its answer can be written. -/
def take {σ : Type} (turn : Turn σ) : Connection :=
  { conn with
    handshaken := turn.handshaken
    tasks := conn.tasks.filter fun task => some task.name ≠ turn.closed
    nextSubscriptionId := conn.nextSubscriptionId + (if turn.opened.isSome then 1 else 0)
    reply := some ⟨turn.response, turn.opened, turn.shutdown⟩
    lock := if conn.tears turn.closed then none else conn.lock }

/-- The line of a writer is written. -/
def finish : LineWriter → Connection
  | .main =>
    match conn.reply with
    | none => conn
    | some reply =>
      { conn with
        reply := none
        tasks := conn.tasks ++ reply.opened.toList.map fun name => ⟨name, none⟩
        ended := reply.shutdown }
  | .task name =>
    { conn with
      tasks := conn.tasks.map fun task => if task.name = name then ⟨name, none⟩ else task }

/-- Some of a line is written. -/
def proceed (writer : LineWriter) (rest : List Char) : Connection :=
  if rest = [] then { conn with lock := none }.finish writer
  else { conn with lock := some (writer, rest) }

/-- What is left of the line that is being written. -/
def unwritten : List Char :=
  match conn.lock with
  | some (_, rest) => rest
  | none => []

/-- A task has a change to write. -/
def yield (name : String) (yielded : YieldedChange) : Connection :=
  { conn with
    tasks := conn.tasks.map fun task =>
      if task.name = name ∧ task.yielded.isNone then ⟨name, some yielded⟩ else task }

end Connection

/-! ### Lines -/

/-- A call the daemon has answered. -/
structure Exchange where
  call : ServiceCall
  response : Value

/-- A line of the daemon: the answer to a call, or an event. -/
inductive WireMessage where
  | response (exchange : Exchange)
  | event (name : String) (yielded : YieldedChange)

def WireMessage.value : WireMessage → Value
  | response exchange => exchange.response
  | event name yielded => rpcEvent (yielded.params name)

/-- JSON as it is written and read: by `serde_json`, by `JSON.stringify` and by `JSON.parse`. What a
client sees of a value may be less precise. -/
structure SessionCodec where
  floats : FloatText
  stringify : Value → String
  jsonParse : String → Option Value
  seen : Value → Value

namespace SessionCodec

variable (codec : SessionCodec)

/-- A line of the daemon, without its newline. -/
def line (message : WireMessage) : List Char := codec.floats.write message.value

/-- The requests of some calls. -/
def requests (calls : List ServiceCall) : List String :=
  calls.mapIdx fun i call => codec.stringify (call.request (i + 1))

end SessionCodec

/-- The frame of a request. -/
def frameOf (text : String) : RequestFrame := classify maxRequestBytes text.toUTF8.data.toList

theorem frameOf_eq (text : String) :
    frameOf text = if maxRequestBytes < text.utf8ByteSize then .tooLarge else .line text := by
  have hvalid : String.fromUTF8? text.toUTF8 = some text := dif_pos text.isValidUTF8
  have hsize : text.toUTF8.data.toList.length = text.utf8ByteSize := rfl
  unfold frameOf classify frameFromBytes
  rw [Array.toArray_toList, hsize]
  split
  · rfl
  · rw [hvalid]

/-! ### Sessions -/

/-- Both ends of a connection and what is under way between them, with the calls that were made, the
answers that were given and the lines that were begun, read by the client or not. -/
structure Session (σ : Type) where
  client : ServiceClient
  toDaemon : List String
  state : σ
  conn : Connection
  wire : List Char
  calls : List ServiceCall
  exchanges : List Exchange
  read : List WireMessage
  ahead : List WireMessage
  torn : Bool

/-- What can happen. -/
inductive SessionEvent (σ : Type) where
  | call (call : ServiceCall)
  | deliver (amount : ℕ)
  | turn
  | fail
  | close
  | take (now : ℕ → ℕ)
  | write (writer : LineWriter) (amount : ℕ)
  | yield (name : String) (yielded : YieldedChange)
  | streamFailed (name : String)
  | stop
  | outside (state : σ)

namespace Session

variable {σ : Type} (d : Daemon σ) (codec : SessionCodec) (w : Session σ)

/-- A call is made. Without a connection it is rejected at once. -/
def issue (call : ServiceCall) : Session σ :=
  if w.client.connected then
    { w with
      client := w.client.issue call
      toDaemon := w.toDaemon ++ [codec.stringify (call.request w.client.nextId)]
      calls := w.calls ++ [call] }
  else w

/-- The client is connected, and its handshake is on its way. -/
def start (s : σ) (handshake : Value) : Session σ :=
  issue codec ⟨.start, [], s, .start, [], [], [], [], [], false⟩ (.plain .handshake handshake)

/-- A frame is handled. -/
def take (now : ℕ → ℕ) : Session σ :=
  match w.conn.ended, w.conn.reply, w.toDaemon, w.calls[w.exchanges.length]? with
  | false, none, text :: rest, some call =>
    let turn := d.serveFrame now w.state w.conn.handshaken w.conn.names
      w.conn.nextSubscriptionId (frameOf text)
    { w with
      toDaemon := rest
      state := turn.state
      conn := w.conn.take turn
      exchanges := w.exchanges ++ [⟨call, turn.response⟩]
      torn := w.torn || w.conn.tears turn.closed }
  | _, _, _, _ => w

/-- The line a writer has to write. -/
def line? : LineWriter → Option WireMessage
  | .main => w.conn.reply.bind fun _ => w.exchanges.getLast?.map .response
  | .task name =>
    (w.conn.tasks.find? fun task => task.name = name ∧ task.yielded.isSome).bind fun task =>
      task.yielded.map (.event name)

/-- A writer writes some of its line. It begins one when nobody holds the writer. -/
def write (writer : LineWriter) (amount : ℕ) : Session σ :=
  if w.conn.ended then w
  else
    match w.conn.lock with
    | some (holder, rest) =>
      if holder = writer then
        { w with
          wire := w.wire ++ rest.take (amount + 1)
          conn := w.conn.proceed writer (rest.drop (amount + 1)) }
      else w
    | none =>
      match w.line? writer with
      | none => w
      | some message =>
        let line := codec.line message ++ [Char.ofNat 10]
        { w with
          wire := w.wire ++ line.take (amount + 1)
          conn := w.conn.proceed writer (line.drop (amount + 1))
          ahead := w.ahead ++ [message] }

/-- The client is delivered some of what was written. -/
def deliver (amount : ℕ) : Session σ :=
  { w with
    client := { w.client with buffer := w.client.buffer ++ w.wire.take amount }
    wire := w.wire.drop amount }

/-- The client takes a line off its buffer. -/
def turn : Session σ :=
  match Lines.firstLine (Char.ofNat 10) w.client.buffer, w.ahead with
  | some _, message :: ahead =>
    { w with client := w.client.turn codec.jsonParse, read := w.read ++ [message], ahead }
  | _, _ => { w with client := w.client.turn codec.jsonParse }

/-- One event. -/
def step : SessionEvent σ → Session σ
  | .call call => w.issue codec call
  | .deliver amount => w.deliver amount
  | .turn => w.turn codec
  | .fail => { w with client := w.client.connectionFailed }
  | .close => { w with client := w.client.close }
  | .take now => w.take d now
  | .write writer amount => w.write codec writer amount
  | .yield name yielded => { w with conn := w.conn.yield name yielded }
  | .streamFailed _ =>
    -- The task shuts the writer down, so that no answer is written any more.
    if w.conn.lock.isNone then { w with conn := { w.conn with ended := true } } else w
  | .stop => { w with conn := { w.conn with ended := true } }
  | .outside state => { w with state }

/-- Some events, one after the other. -/
def run (w : Session σ) (events : List (SessionEvent σ)) : Session σ :=
  events.foldl (fun w event => w.step d codec event) w

/-- What runs of a connection reach. -/
inductive Reaches : Session σ → Prop
  | start (s : σ) (handshake : Value) : Reaches (start codec s handshake)
  | step {w : Session σ} (event : SessionEvent σ) (h : Reaches w) : Reaches (w.step d codec event)

end Session

end Patchouli

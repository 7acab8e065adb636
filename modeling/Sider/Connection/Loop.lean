/-
**The loop of a connection.**

A connection goes through rounds. It waits for an update of the policy or for a lease on the active one;
under the lease it may deliver a notification and handle one request; then it gives the lease back. An
unprotected connection has no policy, and its rounds hold no lease.

`Local.step` is one event of the loop, `Effect` what the connection hands on by it: commands to its
transaction, to the database and to the hub, whole queues, notifications, replies. The answers of the
database and of the hub, the clock and the password check come with the event (`Surroundings`). Replies of
the database are left out. A write that fails, a read that ends and a shutdown close the connection at any
point (`Event.close`).
-/

import Sider.Command.Request
import Sider.Connection.Transaction
import Sider.PubSub.Registry
import Sider.Security.Credential

namespace Sider.Connection

open Resp PubSub

/-! ### What a connection runs with -/

structure Parser where
  parse : Frame → Except RequestError Command
  validInfoName : Bytes → Bool

/-- What stays the same for one connection. It is protected if it was accepted under a transport,
known by its digest. -/
structure Service where
  config : ConnectionConfig
  primitives : Primitives
  parser : Parser
  security : Option Bytes
  version : String
  connectionId : Nat

/-- A share of the active policy. -/
structure Lease where
  policy : ClientPolicy
  digest : Bytes
  current : Bool

inductive Fault where
  | shuttingDown
  | failed
  deriving DecidableEq, Repr

/-- What one request meets: the clock when it was decoded, when it was authorized and when it was denied;
the database and the hub; the password check. `lapsed`: the database finds that the lease is no longer
good when it admits the request. -/
structure Surroundings where
  decoded : Int
  authorized : Int
  denied : Int
  transport : Bool
  admission : Bool
  lapsed : Bool
  database : Database
  executed : Except Fault Unit
  subscribed : Bool
  stillSubscribed : Bool
  reconnected : Bool
  unsubscribed : Bool
  fits : Bool
  verified : Except SecurityError CredentialProof
  exhausted : Bool

/-- The database under the lease of a round. -/
def Surroundings.authorizedDatabase (s : Surroundings) (lease : Option Lease) : Database :=
  if lease.isSome && s.lapsed then ⟨s.database.readonly, fun _ => .error .securityExpired⟩
  else s.database

inductive Phase where
  | waiting
  | holding (lease : Option Lease) (notified : Bool)

/-- The local state of a connection. -/
structure Local where
  phase : Phase
  identity : Option CredentialProof
  transaction : Transaction
  protocol : Nat
  everAuthenticated : Bool
  authenticationFailures : Nat

/-- What a connection hands on. -/
inductive Effect where
  | reply (frame : Frame)
  | answer (answer : Answer)
  | handle (name : Bytes) (command : Command)
  | execute (command : Command)
  | submit (commands : List Command) (watched : List WatchToken)
  | hub (command : Command)
  | notify (message : Message)
  | authenticated (proof : CredentialProof)

inductive Event where
  | update (policy : ClientPolicy) (digest : Bytes) (now : Int) (reconnected : Bool)
  | lease (lease : Lease) (now : Int) (late reconnected : Bool)
  | message (message : Message)
  | frame (frame : Frame) (surroundings : Surroundings)
  | idle
  | close

def helloReply (version : String) (protocol : Nat) (readonly : Bool) (id : Nat) : Frame :=
  let fields := [
    ("server", bulkFrame (Bytes.ascii "sider")),
    ("version", bulkFrame (Bytes.ascii version)),
    ("proto", integerFrame protocol),
    ("id", integerFrame id),
    ("mode", bulkFrame (Bytes.ascii "standalone")),
    ("role", bulkFrame (Bytes.ascii (if readonly then "slave" else "master"))),
    ("modules", arrayFrame [])]
  .aggregate (if protocol = 3 then .map else .array)
    (fields.flatMap fun field => [bulkFrame (Bytes.ascii field.1), field.2])

namespace Local

def start : Local := ⟨.waiting, none, .empty, 2, false, 0⟩

/-- Forget who the client is, its queue and its watches; the subscription is replaced as well. -/
def reset (c : Local) : Local :=
  { c with identity := none, transaction := .empty }

def poison (c : Local) : Local :=
  { c with transaction := c.transaction.poison }

/-- The round is over. -/
def wait (c : Local) : Local :=
  { c with phase := .waiting }

abbrev Stepped := Option Local × List Effect

def noAuth : Effect := .reply (errorFrame "NOAUTH Authentication required")

def noPerm : Effect := .reply (errorFrame "NOPERM Permission denied")

def isPubSub : Command → Bool
  | .subscribe _ | .unsubscribe _ | .publish .. => true
  | _ => false

section Rounds

variable (service : Service)

def validFor (c : Local) (policy : ClientPolicy) (now : Int) : Bool :=
  c.identity.any fun proof => proof.valid service.primitives policy now

def lapsedFor (c : Local) (policy : ClientPolicy) (now : Int) : Bool :=
  c.identity.any fun proof => !proof.valid service.primitives policy now

/-- The user of the connection may give the command under this name. -/
def permits (c : Local) (policy : ClientPolicy) (name : Bytes) (command : Command) : Bool :=
  c.identity.any fun proof =>
    (policy.authorize service.primitives.decode proof.username name command).toBool

/-- An expired credential ends everything done under it. -/
def expire (c : Local) (policy : Option ClientPolicy) (now : Int) (reconnected : Bool) : Option Local :=
  if policy.any (c.lapsedFor service · now) then if reconnected then some c.reset else none
  else some c

/-! ### One request -/

/-- The database found the lease lapsed. -/
def securityExpired (c : Local) (s : Surroundings) : Stepped :=
  if !s.transport then (none, [])
  else if s.reconnected then (some c.reset.wait, [noAuth])
  else (none, [])

/-- A command that goes on to the database or to the hub. -/
def dispatch (c : Local) (lease : Option Lease) (s : Surroundings) (name : Bytes) (command : Command) :
    Stepped :=
  let subscriber := s.stillSubscribed && c.protocol = 2
  match command with
  | .subscribe _ => (some c.wait, [.hub command])
  | .unsubscribe _ => (if s.unsubscribed then some c.wait else none, [.hub command])
  | command =>
    if subscriber then
      match command with
      | .ping payload =>
        (some c.wait, [.reply (arrayFrame [bulkFrame (Bytes.ascii "pong"), bulkFrame (payload.getD [])])])
      | _ =>
        (some c.wait, [.reply (.leaf (.error (Bytes.ascii "ERR Can't execute '" ++ name ++
          Bytes.ascii ("': only (P|S)SUBSCRIBE / (P|S)UNSUBSCRIBE / PING / QUIT / RESET are allowed" ++
            " in this context"))))])
    else
      match command with
      | .publish .. =>
        if s.fits then (some c.wait, [.hub command])
        else (some c.wait, [.reply (errorFrame "ERR pubsub message exceeds response limit")])
      | .info _ => (if s.executed = .ok () then some c.wait else none, [.execute command])
      | command =>
        if lease.isSome && s.lapsed then
          let after := c.securityExpired s
          (after.1, .execute command :: after.2)
        else (if s.executed = .ok () then some c.wait else none, [.execute command])

/-- A queue that EXEC ends. Its commands are authorized again. -/
def submit (c : Local) (lease : Option Lease) (s : Surroundings) (commands : List Command)
    (watched : List WatchToken) : Stepped :=
  if lease.any fun lease => c.identity.isNone || commands.any fun command =>
      !c.permits service lease.policy (Bytes.ascii (commandName command).text) command then
    (some c.wait, [noPerm])
  else if lease.isSome && s.lapsed then
    let after := c.securityExpired s
    (after.1, .submit commands watched :: after.2)
  else (if s.executed = .ok () then some c.wait else none, [.submit commands watched])

/-- A command that is allowed goes through the transaction. -/
def perform (c : Local) (lease : Option Lease) (s : Surroundings) (name : Bytes) (command : Command)
    (bytes : Nat) : Stepped :=
  let handled := c.transaction.handle service.config (s.authorizedDatabase lease) command bytes
    (s.subscribed && c.protocol = 2)
  let after := { c with transaction := handled.2 }
  let stepped := match handled.1 with
    | .error .securityExpired => after.securityExpired s
    | .error _ => (none, [])
    | .ok (.answer answer) => (some after.wait, [.answer answer])
    | .ok (.exec commands watched) => after.submit service lease s commands watched
    | .ok (.execute command) => after.dispatch lease s name command
  (stepped.1, .handle name command :: stepped.2)

/-- A parsed command. Under a policy it is authorized first. -/
def request (c : Local) (lease : Option Lease) (s : Surroundings) (name : Bytes) (command : Command)
    (bytes : Nat) : Stepped :=
  if !s.admission then (none, [])
  else
    match lease with
    | none => c.perform service none s name command bytes
    | some lease =>
      if !(c.validFor service lease.policy s.authorized && c.permits service lease.policy name command) then
        if c.lapsedFor service lease.policy s.denied then
          if s.reconnected then (some c.reset.wait, [noAuth]) else (none, [])
        else (some c.poison.wait, [noPerm])
      else if c.transaction.active && isPubSub command then
        (some c.poison.wait, [.reply (errorFrame "ERR Pub/Sub inside MULTI is not allowed")])
      else c.perform service (some lease) s name command bytes

/-- HELLO on an unprotected connection. -/
def hello (c : Local) (s : Surroundings) (frame : Frame) : Stepped :=
  let answered : Local × Frame :=
    if c.transaction.active then (c.poison, errorFrame "ERR HELLO is not supported inside MULTI")
    else
      match parseHello frame with
      | .ok version =>
        let c := { c with protocol := version.getD c.protocol }
        (c, helloReply service.version c.protocol s.database.readonly service.connectionId)
      | .error error => (c, error.toFrame)
  (if (bulks? frame).isSome then some answered.1.wait else none, [.reply answered.2])

/-- AUTH, and HELLO on a protected connection: the version asked for and the credentials. -/
def control (name : Bytes) (frame : Frame) :
    Except RequestError (Option Nat × Option (Bytes × Bytes)) :=
  if Bytes.eqIgnoreAsciiCase name (Bytes.ascii "hello") then
    (parseHelloAuth frame).map fun request => (request.version, request.authentication)
  else (parseAuth frame).map fun credentials => (none, some credentials)

/-- Identity, protocol and local state change only after a complete verification. -/
def verify (c : Local) (s : Surroundings) (hello : Bool) (version : Option Nat) : Stepped :=
  match s.verified with
  | .error _ =>
    (some { c with authenticationFailures := c.authenticationFailures + 1 },
      [.reply (errorFrame "WRONGPASS Authentication failed")])
  | .ok proof =>
    if s.reconnected then
      let c := { c with
        identity := some proof
        everAuthenticated := true
        authenticationFailures := 0
        transaction := .empty
        protocol := version.getD c.protocol }
      (some c, [.authenticated proof, .reply (if hello
        then helloReply service.version c.protocol s.database.readonly service.connectionId
        else .leaf (.simple (Bytes.ascii "OK")))])
    else (none, [.authenticated proof])

def authenticate (c : Local) (s : Surroundings) (name : Bytes) (frame : Frame) : Stepped :=
  let control := control name frame
  let answered : Stepped :=
    if c.transaction.active then
      (some c.poison,
        [.reply (errorFrame "ERR authentication/protocol control inside MULTI is not allowed")])
    else
      match control with
      | .error error => (some c, [.reply error.toFrame])
      | .ok (version, none) =>
        if c.identity.isNone then (some c, [noAuth])
        else
          let c := { c with protocol := version.getD c.protocol }
          (some c, [.reply (helloReply service.version c.protocol s.database.readonly
            service.connectionId)])
      | .ok (version, some _) =>
        c.verify service s (Bytes.eqIgnoreAsciiCase name (Bytes.ascii "hello")) version
  let fatal := match control with
    | .error error => error.isFatal
    | .ok _ => false
  (answered.1.bind fun c =>
    if fatal || 3 ≤ c.authenticationFailures || s.exhausted then none else some c.wait, answered.2)

/-- INFO with a section that does not exist. -/
def invalidInfo (name : Bytes) (frame : Frame) : Bool :=
  name = Bytes.ascii "info" &&
    (bulks? frame).any fun arguments => arguments.tail.any (!service.parser.validInfoName ·)

/-- One decoded frame. -/
def frame (c : Local) (lease : Option Lease) (frame : Frame) (s : Surroundings) : Stepped :=
  let name := requestName frame
  match c.expire service (lease.map Lease.policy) s.decoded s.reconnected with
  | none => (none, [])
  | some c =>
    if name = Bytes.ascii "hello" && service.security.isNone then c.hello service s frame
    else if service.security.isSome && (Bytes.eqIgnoreAsciiCase name (Bytes.ascii "auth") ||
        Bytes.eqIgnoreAsciiCase name (Bytes.ascii "hello")) then
      c.authenticate service s name frame
    else if service.security.isSome && c.identity.isNone then (some c.wait, [noAuth])
    else if lease.isSome && invalidInfo service name frame then
      (some c.poison.wait, [.reply RequestError.badSyntax.toFrame])
    else
      match service.parser.parse frame with
      | .error error =>
        (if error.isFatal then none else some c.poison.wait, [.reply error.toFrame])
      | .ok command => c.request service lease s name command (requestBytes frame)

/-! ### The other events -/

/-- What a reload leaves of the local state, and whether it closes the connection. A transport or a
verifier that is gone closes it. -/
def applyUpdate (c : Local) (policy : ClientPolicy) (digest : Bytes) (now : Int) : Local × Bool :=
  let close := service.security.any (· ≠ digest) ||
    c.identity.any fun proof => !proof.present service.primitives policy
  let after := if close || c.lapsedFor service policy now then c.reset
    else
      match c.identity with
      | none => c
      | some proof =>
        { c with transaction := c.transaction.revalidate service.primitives.decode policy proof.username }
  (after, close)

/-- The reload needs a new subscription. -/
def updateResets (c : Local) (policy : ClientPolicy) (digest : Bytes) (now : Int) : Bool :=
  (c.applyUpdate service policy digest now).2 || c.lapsedFor service policy now

def update (c : Local) (policy : ClientPolicy) (digest : Bytes) (now : Int) (reconnected : Bool) :
    Option Local :=
  if c.updateResets service policy digest now && !reconnected then none
  else
    let (after, close) := c.applyUpdate service policy digest now
    if close then none else some after

/-- A round begins. -/
def acquire (c : Local) (lease : Lease) (now : Int) (late reconnected : Bool) : Option Local :=
  match service.security with
  | none => some { c with phase := .holding none false }
  | some digest =>
    if lease.digest ≠ digest || !lease.current then none
    else if !c.everAuthenticated && late then none
    else
      (c.expire service (some lease.policy) now reconnected).map fun c =>
        { c with phase := .holding (some lease) false }

/-- One notification in a round, if the channel is still granted. -/
def deliver (c : Local) (lease : Option Lease) (message : Message) : Stepped :=
  if lease.all fun lease =>
      c.permits service lease.policy (Bytes.ascii "SUBSCRIBE") (.subscribe [message.channel]) then
    (some { c with phase := .holding lease true },
      [.notify message])
  else (some c.wait, [])

/-- One event. Those that do not fit the phase change nothing. -/
def step (c : Local) : Event → Stepped
  | .update policy digest now reconnected =>
    match c.phase, service.security with
    | .waiting, some _ => (c.update service policy digest now reconnected, [])
    | _, _ => (some c, [])
  | .lease lease now late reconnected =>
    match c.phase with
    | .waiting => (c.acquire service lease now late reconnected, [])
    | .holding .. => (some c, [])
  | .message message =>
    match c.phase with
    | .holding lease false => c.deliver service lease message
    | _ => (some c, [])
  | .frame frame s =>
    match c.phase with
    | .holding lease _ => c.frame service lease frame s
    | .waiting => (some c, [])
  | .idle => (some c.wait, [])
  | .close => (none, [])

/-- A run of the loop, with what each event handed on. It stops when the connection ends. -/
def run : Local → List Event → Option Local × List (Event × List Effect)
  | c, [] => (some c, [])
  | c, event :: events =>
    match c.step service event with
    | (none, effects) => (none, [(event, effects)])
    | (some after, effects) =>
      let rest := after.run events
      (rest.1, (event, effects) :: rest.2)

variable {service}

/-- Outside a round, requests and notifications wait. -/
theorem step_waiting {c : Local} (waiting : c.phase = .waiting) {event : Event}
    (round : (∃ frame s, event = .frame frame s) ∨ (∃ message, event = .message message) ∨ event = .idle) :
    c.step service event = (some c, []) := by
  rcases round with ⟨frame, s, rfl⟩ | ⟨message, rfl⟩ | rfl
  · simp only [step, waiting]
  · simp only [step, waiting]
  · show (some { c with phase := .waiting }, []) = _
    rw [← waiting]

/-- **What a reload leaves**: the transport and the verifier are still good, and the connection is reset,
or has no identity, or is revalidated. -/
theorem update_eq_some {c after : Local} {policy : ClientPolicy} {digest : Bytes} {now : Int}
    {reconnected : Bool} (updated : c.update service policy digest now reconnected = some after) :
    (∀ own, service.security = some own → own = digest) ∧
      (∀ proof, c.identity = some proof → proof.present service.primitives policy = true) ∧
      ((c.updateResets service policy digest now = true ∧ after = c.reset) ∨
        (c.updateResets service policy digest now = false ∧ c.lapsedFor service policy now = false ∧
          ((c.identity = none ∧ after = c) ∨ ∃ proof, c.identity = some proof ∧
            after = { c with transaction :=
              c.transaction.revalidate service.primitives.decode policy proof.username }))) := by
  unfold update at updated
  split_ifs at updated with failed
  dsimp only at updated
  split_ifs at updated with closes
  have resets : c.updateResets service policy digest now = c.lapsedFor service policy now := by
    unfold updateResets
    rw [Bool.eq_false_iff.mpr closes, Bool.false_or]
  cases updated
  unfold applyUpdate at closes ⊢
  dsimp only at closes ⊢
  obtain ⟨transport, listed⟩ := not_or.mp (mt (Bool.or_eq_true _ _).mpr closes)
  refine ⟨fun own accepted => ?_, fun proof known => ?_, ?_⟩
  · rw [accepted, Option.any_some] at transport
    exact not_not.mp (mt decide_eq_true transport)
  · rw [known, Option.any_some] at listed
    simpa using listed
  rw [resets]
  rw [Bool.eq_false_iff.mpr closes, Bool.false_or]
  cases lapsed : c.lapsedFor service policy now with
  | true => exact .inl ⟨rfl, rfl⟩
  | false =>
    refine .inr ⟨rfl, rfl, ?_⟩
    cases known : c.identity with
    | none => exact .inl ⟨rfl, rfl⟩
    | some proof => exact .inr ⟨proof, rfl, rfl⟩

/-- A reload leaves the phase. -/
theorem update_phase {c after : Local} {policy : ClientPolicy} {digest : Bytes} {now : Int}
    {reconnected : Bool} (updated : c.update service policy digest now reconnected = some after) :
    after.phase = c.phase := by
  obtain ⟨_, _, ⟨_, rfl⟩ | ⟨_, _, ⟨_, rfl⟩ | ⟨proof, _, rfl⟩⟩⟩ := update_eq_some updated <;> rfl

/-- What every step keeps, about the state and about what was handed on before it, every run keeps. -/
theorem run_invariant (Inv : Local → List (Event × List Effect) → Prop)
    (kept : ∀ c before event after effects, Inv c before →
      c.step service event = (some after, effects) → Inv after (before ++ [(event, effects)]))
    {events : List Event} {c after : Local} (before : List (Event × List Effect))
    {transcript : List (Event × List Effect)} (holds : Inv c before)
    (ran : c.run service events = (some after, transcript)) :
    Inv after (before ++ transcript) := by
  induction events generalizing c before transcript with
  | nil =>
    obtain ⟨same, rfl⟩ := Prod.mk.inj ran
    rw [List.append_nil]
    exact Option.some.inj same ▸ holds
  | cons event events ih =>
    unfold run at ran
    rcases stepped : c.step service event with ⟨_ | next, effects⟩
    · rw [stepped] at ran
      cases ran
    · rw [stepped] at ran
      obtain ⟨last, rfl⟩ := Prod.mk.inj ran
      have later : next.run service events = (some after, (next.run service events).2) :=
        Prod.ext last rfl
      rw [← List.singleton_append, ← List.append_assoc]
      exact ih _ (kept c before event next effects holds stepped) later

end Rounds

end Local

/-! ### Calm surroundings, to run examples in -/

/-- The worker of all keys. -/
def Database.ofWorker (w : Worker) (outcome : Appended) : Database :=
  ⟨w.readonly, fun keys => (w.watch keys outcome).1⟩

def sampleSurroundings : Surroundings where
  decoded := 0
  authorized := 0
  denied := 0
  transport := true
  admission := true
  lapsed := false
  database := .ofWorker (.retaining false) .written
  executed := .ok ()
  subscribed := false
  stillSubscribed := false
  reconnected := true
  unsubscribed := true
  fits := true
  verified := .error .authentication
  exhausted := false

end Sider.Connection

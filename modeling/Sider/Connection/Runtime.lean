/-
**Generations of the policy, and their activation.**

The server has one active generation behind a lock. Every operation holds a share of it: a handshake, a
round of a connection, a request that a worker still carries out for it, an operation of the internal
lane. A replacement is activated under the exclusive guard: it is examined, an update goes to the mailbox
of every registered session, and when each of them has been acknowledged the generation is exchanged.

A session acknowledges an update after it has revalidated its local state and its subscription, and when
it ends; an update nobody takes any more counts as acknowledged as well. `Runtime.step` is one move of any
party. Rounds are those of the connection loop (`Local.step`); what they hand to the hub is done there.
-/

import Sider.Connection.Loop
import Sider.Lib.RwLock
import Sider.PubSub.Revalidate

namespace Sider.Connection

open Resp PubSub

/-! ### Generations -/

/-- What a generation says about clients: the policy, and the digest of the transport. -/
structure ClientMaterial where
  policy : ClientPolicy
  digest : Bytes

/-- A validated configuration. The internal lane says which peers it trusts at a time. -/
structure Generation (Peer : Type) where
  number : Nat
  manifest : Bytes
  client : Option ClientMaterial
  internal : Option (Peer → Int → Bool)

/-- Reused and older numbers are refused, also with other contents. -/
def Generation.replacementOf {Peer : Type} (replacement active : Generation Peer) :
    Except SecurityError Bool :=
  if replacement.manifest = active.manifest then .ok false
  else if replacement.number ≤ active.number then .error .configuration
  else .ok true

/-! ### Sessions and the runtime -/

/-- An acknowledgement: the activation that waits for it, and the session. -/
abbrev Ticket := Nat × Nat

structure Update where
  policy : ClientPolicy
  digest : Bytes
  acknowledged : Ticket

/-- A registered connection. It has no subscription before it starts, and holds a share of a generation
while it is in a round. -/
structure Session (Peer : Type) where
  digest : Bytes
  mailbox : List Update
  closeAcknowledgements : List Ticket
  state : Local
  subscription : Option Nat
  held : Option (Generation Peer)

/-- How far an activation got: it waits for the lock, or for acknowledgements. -/
inductive Stage where
  | queued
  | revoking (awaited : List Ticket)

/-- The runtime: the shares outside rounds, the sessions that live, the internal sockets that are open,
and the activation that is under way. -/
structure Runtime (Peer : Type) where
  active : Generation Peer
  lock : RwLock
  shares : List (Generation Peer)
  sessions : OrdMap Nat (Session Peer)
  nextSession : Nat
  peers : OrdMap Nat Peer
  nextPeer : Nat
  hub : Hub
  activation : Option (Generation Peer × Stage)
  sent : Nat

/-- What connections run with: the service, with the transport each was accepted under, and the limits of
a subscription. -/
structure ServerConfig where
  service : Service
  maxChannels : Nat
  queueCapacity : Nat

def ServerConfig.serviceOf {Peer : Type} (config : ServerConfig) (session : Session Peer) : Service :=
  { config.service with security := some session.digest }

/-- The user may still read the channel. -/
def ServerConfig.allows (config : ServerConfig) (policy : ClientPolicy) (username : String)
    (channel : Bytes) : Bool :=
  (policy.authorize config.service.primitives.decode username (Bytes.ascii "SUBSCRIBE")
    (.subscribe [channel])).toBool

/-- What a round does to the hub. A transaction of a protected connection has no command for it, and
takes what is pending. -/
def handOn (id : Nat) (h : Hub) : Effect → Hub
  | .hub (.subscribe channels) => h.perform (.subscribe id channels)
  | .hub (.unsubscribe channels) => h.perform (.unsubscribe id channels)
  | .hub (.publish channel payload) => h.perform (.publish ⟨channel, payload⟩)
  | .submit .. => ((drain id).run.run h).2
  | _ => h

/-- The connection got a new identity or lost the one it had: it gets a new subscription. -/
def resubscribes (before after : Local) (effects : List Effect) : Bool :=
  (before.identity.isSome && after.identity.isNone) || effects.any fun effect =>
    match effect with
    | .authenticated _ => true
    | _ => false

/-! ### Moves -/

/-- What the parties do. `clone` and `detach` copy a share, for a request that outlives its round. -/
inductive Move (Peer : Type) where
  | share
  | clone (index : Nat)
  | detach (id : Nat)
  | release (index : Nat)
  | register (index : Nat) (digest : Bytes)
  | registerPeer (index : Nat) (peer : Peer)
  | closePeer (id : Nat)
  | open (id : Nat)
  | receive (id : Nat) (now : Int)
  | acquire (id : Nat) (now : Int) (current late : Bool)
  | message (id : Nat)
  | frame (id : Nat) (frame : Frame) (surroundings : Surroundings)
  | idle (id : Nat)
  | close (id : Nat)
  | activate (replacement : Generation Peer)
  | examine (now : Int) (clientCurrent internalCurrent : Bool)
  | complete

/-- What `activate` returned for a replacement. -/
abbrev Outcome (Peer : Type) := Generation Peer × Except SecurityError Bool

namespace Runtime

variable {Peer : Type}

def start (generation : Generation Peer) : Runtime Peer :=
  ⟨generation, .free, [], ∅, 0, ∅, 0, .new, none, 0⟩

def acknowledge (s : Runtime Peer) (tickets : List Ticket) : Runtime Peer :=
  { s with activation := s.activation.map fun pending =>
      match pending with
      | (replacement, .revoking awaited) =>
        (replacement, .revoking (awaited.filter fun ticket => ticket ∉ tickets))
      | pending => pending }

/-- The connection is gone: its subscription, its share and its session are dropped. -/
def finish (s : Runtime Peer) (id : Nat) (session : Session Peer) : Runtime Peer :=
  let s := { s with
    sessions := s.sessions.erase id
    hub := session.subscription.elim s.hub s.hub.drop
    lock := if session.held.isSome then s.lock.dropReads 1 else s.lock }
  s.acknowledge (session.closeAcknowledgements ++ session.mailbox.map Update.acknowledged)

section Sessions

variable (config : ServerConfig)

/-- Replace the subscription of a session. -/
def resubscribe (s : Runtime Peer) (session : Session Peer) : Option (Runtime Peer × Session Peer) :=
  match s.hub.connect config.maxChannels config.queueCapacity with
  | .error _ => none
  | .ok (fresh, hub) =>
    some ({ s with hub := session.subscription.elim hub hub.drop },
      { session with subscription := some fresh })

/-- The connection of a session starts. -/
def openSession (s : Runtime Peer) (id : Nat) (session : Session Peer) : Runtime Peer :=
  match s.resubscribe config session with
  | none => s.finish id session
  | some (s, session) => { s with sessions := s.sessions.insert id session }

/-- The session takes the first update of its mailbox. -/
def receive (s : Runtime Peer) (id : Nat) (session : Session Peer) (subscription : Nat) (update : Update)
    (now : Int) : Runtime Peer :=
  let service := config.serviceOf session
  let settled (s : Runtime Peer) (session : Session Peer) : Runtime Peer :=
    match session.state.update service update.policy update.digest now true with
    | none => s.finish id session
    | some state =>
      let session := { session with
        state := state
        closeAcknowledgements := session.closeAcknowledgements.dropLast }
      { s with sessions := s.sessions.insert id session }.acknowledge [update.acknowledged]
  let session := { session with
    mailbox := session.mailbox.tail
    closeAcknowledgements := session.closeAcknowledgements ++ [update.acknowledged] }
  if session.state.updateResets service update.policy update.digest now then
    match s.resubscribe config session with
    | none => s.finish id session
    | some (s, session) => settled s session
  else
    match session.state.identity with
    | none => settled s session
    | some proof =>
      settled { s with hub := s.hub.revalidate subscription (config.allows update.policy proof.username) }
        session

/-- The share of a round is given back when the round is over. -/
def keep (s : Runtime Peer) (id : Nat) (session : Session Peer) (state : Local) : Runtime Peer :=
  match state.phase with
  | .waiting => { s with
      lock := if session.held.isSome then s.lock.dropReads 1 else s.lock
      sessions := s.sessions.insert id { session with state := state, held := none } }
  | .holding .. => { s with sessions := s.sessions.insert id { session with state := state } }

/-- A step of the connection loop. -/
def follow (s : Runtime Peer) (id : Nat) (session : Session Peer) (subscription : Nat)
    (stepped : Local.Stepped) : Runtime Peer :=
  let s := { s with hub := stepped.2.foldl (handOn subscription) s.hub }
  match stepped.1 with
  | none => s.finish id session
  | some state =>
    if resubscribes session.state state stepped.2 then
      match s.resubscribe config session with
      | none => s.finish id session
      | some (s, session) => s.keep id session state
    else s.keep id session state

/-- A round begins with a share of the active generation. -/
def acquire (s : Runtime Peer) (id : Nat) (session : Session Peer) (subscription : Nat) (now : Int)
    (current late : Bool) : Runtime Peer :=
  match s.lock.tryRead, s.active.client with
  | some lock, some client =>
    let session := { session with held := some s.active }
    { s with lock := lock }.follow config id session subscription
      (session.state.step (config.serviceOf session)
        (.lease ⟨client.policy, client.digest, current⟩ now late true))
  | _, _ => s

/-- The oldest message of the subscription, for a round that has delivered none. -/
def message (s : Runtime Peer) (id : Nat) (session : Session Peer) (subscription : Nat) : Runtime Peer :=
  match session.state.phase, s.hub.tryMessage subscription with
  | .holding _ false, (some message, hub) =>
    { s with hub := hub }.follow config id session subscription
      (session.state.step (config.serviceOf session) (.message message))
  | _, _ => s

end Sessions

/-! ### Activation -/

/-- Updates go to the sessions, and internal sockets that are not trusted any more are closed. -/
def revoke (s : Runtime Peer) (replacement : Generation Peer) (client : ClientMaterial) (lock : RwLock)
    (now : Int) : Runtime Peer :=
  { s with
    lock := lock
    sessions := s.sessions.mapKeyed fun id session =>
      { session with mailbox := session.mailbox ++ [⟨client.policy, client.digest, (s.sent, id)⟩] }
    peers := match replacement.internal with
      | none => s.peers
      | some trusts => s.peers.filter fun _ peer => trusts peer now
    activation := some (replacement, .revoking (s.sessions.keys.map fun id => (s.sent, id)))
    sent := s.sent + 1 }

/-- The replacement is examined under the exclusive guard. -/
def examine (s : Runtime Peer) (replacement : Generation Peer) (lock : RwLock) (now : Int)
    (clientCurrent internalCurrent : Bool) : Runtime Peer × List (Outcome Peer) :=
  let rejected (result : Except SecurityError Bool) : Runtime Peer × List (Outcome Peer) :=
    ({ s with activation := none }, [(replacement, result)])
  if replacement.internal.isSome ≠ s.active.internal.isSome then rejected (.error .configuration)
  else
    match replacement.replacementOf s.active with
    | .error error => rejected (.error error)
    | .ok false => rejected (.ok false)
    | .ok true =>
      if !clientCurrent || (replacement.internal.isSome && !internalCurrent) then
        rejected (.error .transport)
      else
        match replacement.client with
        | none => rejected (.error .configuration)
        | some client => (s.revoke replacement client lock now, [])

section Steps

variable (config : ServerConfig)

/-- One move. Those that are not possible change nothing. -/
def step (s : Runtime Peer) : Move Peer → Runtime Peer × List (Outcome Peer)
  | .share =>
    match s.lock.tryRead with
    | none => (s, [])
    | some lock => ({ s with lock := lock, shares := s.shares ++ [s.active] }, [])
  | .clone index =>
    match s.shares[index]? with
    | none => (s, [])
    | some generation =>
      ({ s with
        lock := s.lock.clone
        shares := s.shares ++ [generation] }, [])
  | .detach id =>
    match (s.sessions.get? id).bind Session.held with
    | none => (s, [])
    | some generation =>
      ({ s with
        lock := s.lock.clone
        shares := s.shares ++ [generation] }, [])
  | .release index =>
    if index < s.shares.length then
      ({ s with lock := s.lock.dropReads 1, shares := s.shares.eraseIdx index }, [])
    else (s, [])
  | .register index digest =>
    if index < s.shares.length then
      ({ s with
        sessions := s.sessions.insert s.nextSession ⟨digest, [], [], .start, none, none⟩
        nextSession := s.nextSession + 1 }, [])
    else (s, [])
  | .registerPeer index peer =>
    if index < s.shares.length then
      ({ s with peers := s.peers.insert s.nextPeer peer, nextPeer := s.nextPeer + 1 }, [])
    else (s, [])
  | .closePeer id => ({ s with peers := s.peers.erase id }, [])
  | .open id =>
    match s.sessions.get? id with
    | some session =>
      if session.subscription.isNone then (s.openSession config id session, []) else (s, [])
    | none => (s, [])
  | .receive id now =>
    match s.sessions.get? id with
    | some session =>
      match session.state.phase, session.subscription, session.mailbox with
      | .waiting, some subscription, update :: _ =>
        (s.receive config id session subscription update now, [])
      | _, _, _ => (s, [])
    | none => (s, [])
  | .acquire id now current late =>
    match s.sessions.get? id with
    | some session =>
      match session.state.phase, session.subscription with
      | .waiting, some subscription =>
        (s.acquire config id session subscription now current late, [])
      | _, _ => (s, [])
    | none => (s, [])
  | .message id =>
    match s.sessions.get? id with
    | some session =>
      match session.subscription with
      | some subscription => (s.message config id session subscription, [])
      | none => (s, [])
    | none => (s, [])
  | .frame id frame surroundings =>
    match s.sessions.get? id with
    | some session =>
      match session.subscription with
      | some subscription =>
        (s.follow config id session subscription
          (session.state.step (config.serviceOf session) (.frame frame surroundings)), [])
      | none => (s, [])
    | none => (s, [])
  | .idle id =>
    match s.sessions.get? id with
    | some session =>
      match session.subscription with
      | some subscription =>
        (s.follow config id session subscription
          (session.state.step (config.serviceOf session) .idle), [])
      | none => (s, [])
    | none => (s, [])
  | .close id =>
    match s.sessions.get? id with
    | some session => (s.finish id session, [])
    | none => (s, [])
  | .activate replacement =>
    match s.activation with
    | some _ => (s, [])
    | none =>
      if replacement.client.isNone then (s, [(replacement, .error .configuration)])
      else ({ s with activation := some (replacement, .queued) }, [])
  | .examine now clientCurrent internalCurrent =>
    match s.activation, s.lock.tryWrite with
    | some (replacement, .queued), some lock =>
      s.examine replacement lock now clientCurrent internalCurrent
    | _, _ => (s, [])
  | .complete =>
    match s.activation with
    | some (replacement, .revoking []) =>
      ({ s with active := replacement, lock := s.lock.dropWrite, activation := none },
        [(replacement, .ok true)])
    | _ => (s, [])

/-- A run, with what the activations in it returned. -/
def run : Runtime Peer → List (Move Peer) → Runtime Peer × List (Outcome Peer)
  | s, [] => (s, [])
  | s, move :: moves =>
    let stepped := s.step config move
    let rest := stepped.1.run moves
    (rest.1, stepped.2 ++ rest.2)

end Steps

end Runtime

end Sider.Connection

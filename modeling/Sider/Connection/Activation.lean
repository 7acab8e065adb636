/-
**Activation is atomic and complete.**

`Base` is what holds of the runtime at every time: the lock counts the shares, every share is one of the
active generation, each session has a subscription of its own, and one without an identity is subscribed
to nothing. Beside it, an activation is either not under way among the sessions (`Quiet`: no update is
out), or every session has its update still to take, or has been revised by it (`Revoking`).

`run_activated`: in every run, an activation that succeeds finds no share of the generation it replaces
and no session that was not revised; one that is rejected changes nothing; numbers increase.
-/

import Sider.Connection.Authority
import Sider.Connection.Runtime

namespace Sider.Connection

open Resp PubSub Multimap FailingProgram

variable {Peer : Type} {client : ClientMaterial} {next s moved : Runtime Peer}
  {generation : Generation Peer} {lock : RwLock} {hub hub' : Hub} {config : ServerConfig}
  {awaited : List Ticket} {state : Local} {event : Event}

variable {active replacement : Generation Peer} {id sub : Nat} {session now : Session Peer}
  {after : Option (Session Peer)}

/-! ### The runtime between moves -/

/-- The shares a session holds. -/
def Session.holds (session : Session Peer) : Nat :=
  if session.held.isSome then 1 else 0

/-- A session of a sound runtime: it holds a share of the active generation in a round and none
otherwise, and without an identity it has neither queue nor subscriptions. -/
structure Session.Sound (session : Session Peer) (active : Generation Peer) (hub : Hub) (id : Nat) :
    Prop where
  rounds : session.held.isSome = true ↔ session.state.phase ≠ .waiting
  own : ∀ generation, session.held = some generation → generation = active
  guarded : Guarded (fun lease => active.client = some ⟨lease.policy, lease.digest⟩) session.state
    session.state.identity
  bare : session.state.identity = none → ∀ sub, session.subscription = some sub → hub.Bare sub
  unopened : session.subscription = none → session.state.phase = .waiting
  mine : ∀ ticket ∈ session.closeAcknowledgements ++ session.mailbox.map Update.acknowledged,
    ticket.2 = id

/-- Outside a round a session holds no share. -/
theorem Session.Sound.free {session : Session Peer} {id : Nat} (own : session.Sound active hub id)
    (waiting : session.state.phase = .waiting) : session.held = none := by
  have rounds := own.rounds
  rw [waiting] at rounds
  simpa using rounds

namespace Runtime

/-- The exclusive guard is out. -/
def exclusive (s : Runtime Peer) : Bool :=
  match s.activation with
  | some (_, .revoking _) => true
  | _ => false

structure Base (s : Runtime Peer) : Prop where
  client : s.active.client.isSome = true
  counts : s.lock.Counts (s.shares.length + s.sessions.total fun _ session => session.holds) s.exclusive
  shares : ∀ generation ∈ s.shares, generation = s.active
  hub : s.hub.Consistent
  numbered : ∀ id, id ∈ s.sessions → id < s.nextSession
  sessions : ∀ id session, s.sessions.get? id = some session → session.Sound s.active s.hub id
  seated : ∀ id session sub, s.sessions.get? id = some session → session.subscription = some sub →
    sub ∈ s.hub.guards
  apart : ∀ a b first second sub, s.sessions.get? a = some first → s.sessions.get? b = some second →
    first.subscription = some sub → second.subscription = some sub → a = b

/-- What a move of the connection with subscription `own` leaves of the others: they keep their
subscriptions, and who is subscribed to nothing gets nothing. If it is `strict`, they do not notice. -/
structure Spares (h : Hub) (own : Option Nat) (strict : Prop) (next : Hub) : Prop where
  consistent : next.Consistent
  stays : ∀ probe, probe ∈ h.guards → own ≠ some probe → probe ∈ next.guards
  bare : ∀ probe, probe ∈ h.guards → own ≠ some probe → h.Bare probe → next.Bare probe
  apart : strict → ∀ probe, probe ∈ h.guards → own ≠ some probe → h.Apart next probe

theorem spares_self {h : Hub} (holds : h.Consistent) (own : Option Nat) (strict : Prop) :
    Spares h own strict h :=
  ⟨holds, fun _ here _ => here, fun _ _ _ bare => bare, fun _ probe _ _ => .refl h probe⟩

/-- A further change that nobody else notices. -/
theorem Spares.apart_trans {h mid next : Hub} {own : Option Nat} {strict : Prop}
    (spares : Spares h own strict mid) (consistent : next.Consistent)
    (apart : ∀ probe, probe ∈ h.guards → own ≠ some probe → mid.Apart next probe) :
    Spares h own strict next where
  consistent := consistent
  stays := fun probe here other => (apart probe here other).stays (spares.stays probe here other)
  bare := fun probe here other bare => (apart probe here other).bare (spares.bare probe here other bare)
  apart := fun strict probe here other =>
    (spares.apart strict probe here other).trans (apart probe here other)

/-- **A move of one session.** What it leaves of the session is `after`. -/
structure Changed (s next : Runtime Peer) (id : Nat) (session : Session Peer)
    (after : Option (Session Peer)) : Prop where
  found : s.sessions.get? id = some session
  active : next.active = s.active
  shares : next.shares = s.shares
  peers : next.peers = s.peers
  nextSession : next.nextSession = s.nextSession
  activation : ∃ acknowledged : List Ticket, (∀ ticket ∈ acknowledged, ticket.2 = id) ∧
    next.activation = (s.acknowledge acknowledged).activation
  sessions : ∀ other, next.sessions.get? other = if other = id then after else s.sessions.get? other
  readers : next.lock.readers + session.holds = s.lock.readers + after.elim 0 Session.holds
  writer : next.lock.writer = s.lock.writer
  blocked : s.lock.writer = true → after.elim 0 Session.holds = 0
  hub : Spares s.hub session.subscription (s.lock.writer = true) next.hub
  seat : ∀ left sub, after = some left → left.subscription = some sub →
    sub ∈ next.hub.guards ∧ (session.subscription = some sub ∨ sub ∉ s.hub.guards)
  sound : ∀ left, after = some left → left.Sound s.active next.hub id

theorem exclusive_acknowledge (s : Runtime Peer) (tickets : List Ticket) :
    (s.acknowledge tickets).exclusive = s.exclusive := by
  unfold exclusive acknowledge
  rcases s.activation with _ | ⟨replacement, _ | awaited⟩ <;> rfl

theorem Changed.exclusive (changed : Changed s next id session after) :
    next.exclusive = s.exclusive := by
  obtain ⟨tickets, _, same⟩ := changed.activation
  rw [← exclusive_acknowledge s tickets]
  unfold Runtime.exclusive
  rw [same]

/-- The shares of the sessions, when one of them changes. -/
theorem Changed.total (changed : Changed s next id session after) :
    (next.sessions.total fun _ session => session.holds) + session.holds =
      (s.sessions.total fun _ session => session.holds) + after.elim 0 Session.holds := by
  have left := OrdMap.total_erase_of_some (fun _ (session : Session Peer) => session.holds) changed.found
  cases after with
  | none =>
    have same : next.sessions = s.sessions.erase id := OrdMap.ext_get? fun other => by
      rw [changed.sessions other, OrdMap.get?_erase]
    rw [same, Option.elim_none]
    omega
  | some after =>
    have same : next.sessions = s.sessions.insert id after := OrdMap.ext_get? fun other => by
      rw [changed.sessions other, OrdMap.get?_insert]
    rw [same, Option.elim_some, OrdMap.total_insert]
    omega

/-- **A move of one session keeps the base.** -/
theorem Base.changed (base : s.Base) (changed : Changed s next id session after) : next.Base := by
  have others : ∀ other value, next.sessions.get? other = some value → other ≠ id →
      s.sessions.get? other = some value := fun other value found different => by
    rw [changed.sessions other, if_neg different] at found
    exact found
  have here : ∀ value, next.sessions.get? id = some value → after = some value := fun value found => by
    rw [changed.sessions id, if_pos rfl] at found
    exact found
  -- Subscriptions of other sessions are not that of this one.
  have elsewhere : ∀ other value sub, s.sessions.get? other = some value → other ≠ id →
      value.subscription = some sub → session.subscription ≠ some sub :=
    fun other value sub found different has same =>
      different (base.apart other id value session sub found changed.found has same)
  refine ⟨changed.active ▸ base.client, ⟨?_, ?_, ?_⟩, ?_, changed.hub.consistent, ?_, ?_, ?_, ?_⟩
  · have counted := base.counts.readers
    have moved := changed.readers
    have total := changed.total
    rw [changed.shares]
    omega
  · rw [changed.writer, changed.exclusive]
    exact base.counts.writer
  · intro closed
    rw [changed.exclusive] at closed
    have none := base.counts.excludes closed
    have total := changed.total
    have blocked := changed.blocked (base.counts.writer.trans closed)
    rw [changed.shares]
    omega
  · rw [changed.shares, changed.active]
    exact base.shares
  · intro other inside
    rw [changed.nextSession]
    obtain ⟨value, found⟩ := OrdMap.mem_iff.mp inside
    by_cases same : other = id
    · exact same ▸ base.numbered id (OrdMap.mem_iff.mpr ⟨session, changed.found⟩)
    · exact base.numbered other (OrdMap.mem_iff.mpr ⟨value, others other value found same⟩)
  · intro other value found
    rw [changed.active]
    by_cases same : other = id
    · subst same
      exact changed.sound value (here value found)
    · have old := others other value found same
      have sound := base.sessions other value old
      refine { sound with bare := fun unknown sub has => ?_ }
      exact changed.hub.bare sub (base.seated other value sub old has)
        (elsewhere other value sub old same has)
        (sound.bare unknown sub has)
  · intro other value sub found has
    by_cases same : other = id
    · subst same
      exact (changed.seat value sub (here value found) has).1
    · have old := others other value found same
      exact changed.hub.stays sub (base.seated other value sub old has)
        (elsewhere other value sub old same has)
  · -- A subscription that is new is nobody else's.
    have fresh : ∀ other left value sub, after = some left → s.sessions.get? other = some value →
        other ≠ id → left.subscription = some sub → value.subscription = some sub → False := by
      intro other left value sub is old different mine theirs
      rcases (changed.seat left sub is mine).2 with kept | new
      · exact elsewhere other value sub old different theirs kept
      · exact new (base.seated other value sub old theirs)
    intro a b first second sub foundFirst foundSecond hasFirst hasSecond
    by_cases left : a = id <;> by_cases right : b = id
    · rw [left, right]
    · exact (fresh b first second sub (here first (left ▸ foundFirst)) (others b second foundSecond right)
        right hasFirst hasSecond).elim
    · exact (fresh a second first sub (here second (right ▸ foundSecond))
        (others a first foundFirst left) left hasSecond hasFirst).elim
    · exact base.apart a b first second sub (others a first foundFirst left)
        (others b second foundSecond right) hasFirst hasSecond

/-! ### Moves of a session -/

/-- In the middle of a move: the session is now `now`, which is not recorded yet, and the lock and the
hub have changed. -/
structure Under (s : Runtime Peer) (id : Nat) (session now : Session Peer) (lock : RwLock) (hub : Hub) :
    Prop where
  found : s.sessions.get? id = some session
  enough : session.holds ≤ s.lock.readers
  readers : lock.readers + session.holds = s.lock.readers + now.holds
  writer : lock.writer = s.lock.writer
  spares : Spares s.hub session.subscription (s.lock.writer = true) hub
  seat : ∀ sub, now.subscription = some sub →
    sub ∈ hub.guards ∧ (session.subscription = some sub ∨ sub ∉ s.hub.guards)
  mine : ∀ ticket ∈ now.closeAcknowledgements ++ now.mailbox.map Update.acknowledged, ticket.2 = id

theorem Base.under (base : s.Base) (found : s.sessions.get? id = some session) :
    Under s id session session s.lock s.hub where
  found := found
  enough := by
    have := OrdMap.le_total (fun _ (session : Session Peer) => session.holds) found
    have counted := base.counts.readers
    omega
  readers := rfl
  writer := rfl
  spares := spares_self base.hub _ _
  seat := fun sub has => ⟨base.seated id session sub found has, .inl has⟩
  mine := (base.sessions id session found).mine

/-- What a session gives back when its round is over. -/
theorem returned (now : Session Peer) (lock : RwLock) :
    (if now.held.isSome then lock.dropReads 1 else lock) = lock.dropReads now.holds := by
  unfold Session.holds
  split_ifs <;> rfl

section

variable (under : Under s id session now lock hub)

include under

/-- The subscription of the session is nobody else's. -/
theorem Under.elsewhere {probe : Nat} (own : probe ∈ s.hub.guards)
    (other : session.subscription ≠ some probe) : now.subscription ≠ some probe := by
  intro has
  rcases (under.seat probe has).2 with same | new
  · exact other same
  · exact new own

/-- The session ends. -/
theorem Under.finish :
    Changed s ({ s with lock := lock, hub := hub }.finish id now) id session none where
  found := under.found
  active := rfl
  shares := rfl
  peers := rfl
  nextSession := rfl
  activation := ⟨_, under.mine, rfl⟩
  sessions := fun other => OrdMap.get?_erase s.sessions id other
  readers := by
    have counted := under.readers
    have enough := under.enough
    show (if now.held.isSome then lock.dropReads 1 else lock).readers + session.holds = s.lock.readers + 0
    rw [returned]
    show lock.readers - now.holds + session.holds = s.lock.readers + 0
    omega
  writer := by
    show (if now.held.isSome then lock.dropReads 1 else lock).writer = s.lock.writer
    rw [returned]
    exact under.writer
  blocked := fun _ => rfl
  hub := by
    show Spares _ _ _ (now.subscription.elim hub hub.drop)
    cases has : now.subscription with
    | none => exact under.spares
    | some sub =>
      exact under.spares.apart_trans (under.spares.consistent.drop sub) fun probe own other =>
        Hub.apart_drop fun same => under.elsewhere own other (same ▸ has)
  seat := fun _ _ gone => by cases gone
  sound := fun _ gone => by cases gone

/-- The session gets another subscription, which is bare. -/
theorem Under.resubscribe {left : Session Peer}
    (ok : { s with lock := lock, hub := hub }.resubscribe config now = some (moved, left)) :
    ∃ fresh hub', moved = { s with lock := lock, hub := hub' } ∧
      left = { now with subscription := some fresh } ∧ hub'.Bare fresh ∧
      Under s id session left lock hub' := by
  unfold Runtime.resubscribe at ok
  split at ok
  · cases ok
  · rename_i fresh mid connected
    cases ok
    obtain ⟨consistent, new, seated, bare, others⟩ :=
      Hub.reconnect_spec under.spares.consistent connected fun sub has => (under.seat sub has).1
    have spares := under.spares.apart_trans consistent fun probe own other =>
      others probe (under.spares.stays probe own other) (under.elsewhere own other)
    refine ⟨fresh, _, rfl, rfl, bare, { under with spares := spares, seat := ?_ }⟩
    intro sub has
    cases has
    refine ⟨seated, ?_⟩
    by_cases same : session.subscription = some fresh
    · exact .inl same
    · exact .inr fun own => new (under.spares.stays fresh own same)

/-- The session acts on the hub. -/
theorem Under.stir (has : now.subscription = some sub) (stirred : hub.Stirred sub hub')
    (open_ : s.lock.writer = false) :
    Under s id session now lock hub' := {
  under with
  spares := {
    consistent := stirred.consistent
    stays := fun probe own other => stirred.stays probe (under.spares.stays probe own other)
    bare := fun probe own other bare => stirred.bare probe
      (fun same => under.elsewhere own other (same ▸ has)) (under.spares.bare probe own other bare)
    apart := fun closed => by
      rw [open_] at closed
      cases closed }
  seat := fun probe here => ⟨stirred.stays probe (under.seat probe here).1, (under.seat probe here).2⟩ }

end

/-- What is recorded of a session at the end of a move. -/
def settled (now : Session Peer) (state : Local) : Session Peer :=
  match state.phase with
  | .waiting => { now with state := state, held := none }
  | .holding .. => { now with state := state }

theorem settled_subscription (now : Session Peer) (state : Local) :
    (settled now state).subscription = now.subscription := by
  unfold settled
  split <;> rfl

theorem settled_holds (now : Session Peer) (state : Local) : (settled now state).holds ≤ now.holds := by
  unfold settled
  split
  · exact Nat.zero_le _
  · exact Nat.le_refl _

theorem keep_eq (s : Runtime Peer) (id : Nat) (now : Session Peer) (state : Local) :
    s.keep id now state =
      { s with
        lock := s.lock.dropReads (now.holds - (settled now state).holds)
        sessions := s.sessions.insert id (settled now state) } := by
  unfold Runtime.keep settled
  cases state.phase with
  | waiting =>
    rw [returned]
    rfl
  | holding =>
    have none : now.holds - Session.holds { now with state := state } = 0 := Nat.sub_self now.holds
    rw [none]
    rfl

theorem acknowledge_nil (s : Runtime Peer) : s.acknowledge [] = s := by
  have same : (s.acknowledge []).activation = s.activation := by
    unfold acknowledge
    rcases s.activation with _ | ⟨replacement, _ | awaited⟩ <;> simp
  show { s with activation := (s.acknowledge []).activation } = s
  rw [same]

/-- The move ends: the session is recorded, and some of its tickets are acknowledged. -/
theorem Under.record (under : Under s id session now lock hub) (tickets : List Ticket)
    (mine : ∀ ticket ∈ tickets, ticket.2 = id) (blocked : s.lock.writer = true → now.holds = 0)
    (sound : now.Sound s.active hub id) :
    Changed s ({ s with lock := lock, hub := hub, sessions := s.sessions.insert id now }.acknowledge
      tickets) id session (some now) where
  found := under.found
  active := rfl
  shares := rfl
  peers := rfl
  nextSession := rfl
  activation := ⟨tickets, mine, rfl⟩
  sessions := fun other => OrdMap.get?_insert s.sessions id other now
  readers := under.readers
  writer := under.writer
  blocked := blocked
  hub := under.spares
  seat := fun left sub is has => by
    cases is
    exact under.seat sub has
  sound := fun left is => Option.some.inj is ▸ sound

/-- The move ends, with the session in another state. -/
theorem Under.keep (under : Under s id session now lock hub) (open_ : s.lock.writer = false)
    (sound : (settled now state).Sound s.active hub id) :
    Changed s ({ s with lock := lock, hub := hub }.keep id now state) id session
      (some (settled now state)) := by
  have moved : Under s id session (settled now state)
      (lock.dropReads (now.holds - (settled now state).holds)) hub := {
    under with
    readers := by
      have counted := under.readers
      have enough := under.enough
      have fewer := settled_holds now state
      show lock.readers - (now.holds - (settled now state).holds) + session.holds =
        s.lock.readers + (settled now state).holds
      omega
    seat := fun sub has => under.seat sub ((settled_subscription now state).symm.trans has)
    mine := sound.mine }
  have changed := moved.record [] nofun
    (fun closed => by rw [open_] at closed; cases closed) sound
  rw [acknowledge_nil] at changed
  rw [keep_eq]
  exact changed

theorem settled_sound
    (mine : ∀ ticket ∈ now.closeAcknowledgements ++ now.mailbox.map Update.acknowledged, ticket.2 = id)
    (own : ∀ generation, now.held = some generation → generation = active)
    (guarded : Guarded (fun lease => active.client = some ⟨lease.policy, lease.digest⟩) state
      state.identity) (held : state.phase ≠ .waiting → now.held.isSome = true)
    (has : now.subscription = some sub) (bare : state.identity = none → hub.Bare sub) :
    (settled now state).Sound active hub id := by
  have subscribed : ∀ probe, now.subscription = some probe → sub = probe := fun probe same =>
    Option.some.inj (has.symm.trans same)
  have opened : now.subscription = none → state.phase = .waiting := fun missing => by
    rw [missing] at has
    cases has
  have bare := fun unknown probe same => subscribed probe same ▸ bare unknown
  unfold settled
  split
  · rename_i waiting
    exact ⟨by simp [waiting], nofun, guarded, bare, opened, mine⟩
  · rename_i holding
    exact ⟨by simp [holding, held], own, guarded, bare, opened, mine⟩

/-! ### Rounds -/

theorem handOn_stirred (holds : hub.Consistent) (sub : Nat) (effect : Effect) :
    hub.Stirred sub (handOn sub hub effect) := by
  unfold handOn
  split
  · dsimp only [Hub.perform]
    split
    · exact holds.stirred sub
    · rename_i found
      exact ((subscribeLocked_alters holds found _ _ _).private holds).stirred
  · dsimp only [Hub.perform]
    split
    · exact holds.stirred sub
    · rename_i found
      exact ((unsubscribeLocked_alters holds found _ _).private holds).stirred
  · exact Hub.publish_stirred holds sub _
  · exact (private_drain holds sub).stirred
  · exact holds.stirred sub

theorem foldl_handOn_stirred (holds : hub.Consistent) (sub : Nat) (effects : List Effect) :
    hub.Stirred sub (effects.foldl (handOn sub) hub) := by
  induction effects generalizing hub with
  | nil => exact holds.stirred sub
  | cons effect effects ih =>
    have first := handOn_stirred holds sub effect
    exact first.trans (ih first.consistent)

/-- Effects that do not act do not reach the hub. -/
theorem foldl_handOn_silent (sub : Nat) {effects : List Effect}
    (silent : ∀ effect ∈ effects, effect.acts = false) : effects.foldl (handOn sub) hub = hub := by
  induction effects with
  | nil => rfl
  | cons effect effects ih =>
    have same : handOn sub hub effect = hub := by
      have quiet := silent effect List.mem_cons_self
      cases effect <;> first | rfl | cases quiet
    rw [List.foldl_cons, same]
    exact ih fun other inside => silent other (List.mem_cons_of_mem _ inside)

/-- **A step of the connection loop is a move of its session.** -/
theorem Under.follow (under : Under s id session now lock hub) (has : now.subscription = some sub)
    (open_ : s.lock.writer = false) (config : ServerConfig) (stepped : Local.Stepped)
    (bare : now.state.identity = none → hub.Bare sub)
    (silent : now.state.identity = none → ∀ effect ∈ stepped.2, effect.acts = false)
    (own : ∀ generation, now.held = some generation → generation = s.active)
    (next : ∀ state, stepped.1 = some state →
      Guarded (fun lease => s.active.client = some ⟨lease.policy, lease.digest⟩) state state.identity ∧
        (state.phase ≠ .waiting → now.held.isSome = true)) :
    ∃ after, Changed s ({ s with lock := lock, hub := hub }.follow config id now sub stepped) id session
        after ∧
      ∀ left, after = some left →
        left.mailbox = now.mailbox ∧ left.closeAcknowledgements = now.closeAcknowledgements := by
  have mail : ∀ (now : Session Peer) (state : Local), (settled now state).mailbox = now.mailbox ∧
      (settled now state).closeAcknowledgements = now.closeAcknowledgements := by
    intro now state
    unfold settled
    split <;> exact ⟨rfl, rfl⟩
  have stirred := under.stir has (foldl_handOn_stirred under.spares.consistent sub stepped.2) open_
  unfold Runtime.follow
  dsimp only
  split
  · exact ⟨none, stirred.finish, fun _ gone => by cases gone⟩
  · rename_i state is
    obtain ⟨guarded, held⟩ := next state is
    split_ifs with resubscribes
    · split
      · exact ⟨none, stirred.finish, fun _ gone => by cases gone⟩
      · rename_i moved left connected
        obtain ⟨fresh, hub', rfl, rfl, clean, changed⟩ := stirred.resubscribe connected
        exact ⟨_, changed.keep open_ (settled_sound changed.mine own guarded held rfl fun _ => clean),
          fun _ same => Option.some.inj same ▸ mail _ _⟩
    · refine ⟨_, stirred.keep open_ (settled_sound stirred.mine own guarded held has fun unknown => ?_),
        fun _ same => Option.some.inj same ▸ mail _ _⟩
      -- Without a new subscription, the connection had no identity before.
      have before : now.state.identity = none := by
        cases known : now.state.identity with
        | none => rfl
        | some proof => simp [Connection.resubscribes, known, unknown] at resubscribes
      rw [foldl_handOn_silent sub (silent before)]
      exact bare before

/-! ### Stages of an activation -/

/-- No update is out. -/
def Quiet (s : Runtime Peer) : Prop :=
  ∀ id session, s.sessions.get? id = some session →
    session.mailbox = [] ∧ session.closeAcknowledgements = []

end Runtime

/-- What a session keeps under a policy after it was revalidated: an identity that is still listed and was
valid, and commands, watched keys, channels and pending messages that its user is still granted. -/
structure Session.Revalidated (config : ServerConfig) (policy : ClientPolicy) (hub : Hub)
    (session : Session Peer) (sub : Nat) (proof : CredentialProof) : Prop where
  known : session.state.identity = some proof
  present : proof.present config.service.primitives policy = true
  valid : ∃ now, proof.valid config.service.primitives policy now = true
  queue : ∀ queue, session.state.transaction.queue = some queue → ∀ command ∈ queue.commands,
    policy.authorize config.service.primitives.decode proof.username
      (Bytes.ascii (commandName command).text) command = .ok ()
  watched : session.state.transaction.watched = ∅ ∨
    policy.authorize config.service.primitives.decode proof.username (Bytes.ascii "WATCH")
      (.watch session.state.transaction.watched.keys) = .ok ()
  channels : ∀ channel ∈ items hub.subscribers sub, config.allows policy proof.username channel = true
  pending : ∀ guard, hub.guards.get? sub = some guard → ∀ message ∈ guard.queue.pending,
    config.allows policy proof.username message.channel = true

/-- **A session that an update has been applied to.** Its transport is that of the new generation, and it
has been reset or revalidated. -/
structure Session.Revised (config : ServerConfig) (client : ClientMaterial) (hub : Hub)
    (session : Session Peer) : Prop where
  transport : session.digest = client.digest
  cleaned : ∃ sub, session.subscription = some sub ∧
    ((session.state.identity = none ∧ session.state.transaction = .empty ∧ hub.Bare sub) ∨
      ∃ proof, session.Revalidated config client.policy hub sub proof)

/-- A session while an activation waits: its update is still to be taken, or has been applied. -/
structure Session.Answers (config : ServerConfig) (client : ClientMaterial) (awaited : List Ticket)
    (hub : Hub) (id : Nat) (session : Session Peer) : Prop where
  open_ : session.closeAcknowledgements = []
  either : (∃ round, session.mailbox = [⟨client.policy, client.digest, (round, id)⟩] ∧
      (round, id) ∈ awaited) ∨ (session.mailbox = [] ∧ session.Revised config client hub)

namespace Runtime

/-- An activation waits for acknowledgements. -/
structure Revoking (config : ServerConfig) (s : Runtime Peer) (replacement : Generation Peer)
    (awaited : List Ticket) : Prop where
  newer : s.active.number < replacement.number
  peers : ∀ trusts, replacement.internal = some trusts → ∀ id peer, s.peers.get? id = some peer →
    ∃ now, trusts peer now = true
  answers : ∃ client, replacement.client = some client ∧
    ∀ id session, s.sessions.get? id = some session → session.Answers config client awaited s.hub id

/-- The runtime at the stage its activation has reached. -/
def Staged (config : ServerConfig) (s : Runtime Peer) : Prop :=
  match s.activation with
  | none => s.Quiet
  | some (replacement, .queued) => replacement.client.isSome = true ∧ s.Quiet
  | some (replacement, .revoking awaited) => s.Revoking config replacement awaited

structure Sound (config : ServerConfig) (s : Runtime Peer) : Prop where
  base : s.Base
  staged : s.Staged config

section Stages

/-- A session that does not notice a change stays revised. -/
theorem revised_apart (revised : session.Revised config client hub)
    (apart : ∀ sub, session.subscription = some sub → hub.Apart hub' sub) :
    session.Revised config client hub' := by
  obtain ⟨sub, has, cleaned⟩ := revised.cleaned
  have same := apart sub has
  refine ⟨revised.transport, sub, has, ?_⟩
  rcases cleaned with ⟨unknown, empty, bare⟩ | ⟨proof, kept⟩
  · exact .inl ⟨unknown, empty, same.bare bare⟩
  · have channels : ∀ channel ∈ items hub'.subscribers sub,
        config.allows client.policy proof.username channel = true := fun channel inside => by
      unfold items at inside
      rw [same.subscribers] at inside
      exact kept.channels channel inside
    have pending : ∀ guard, hub'.guards.get? sub = some guard → ∀ message ∈ guard.queue.pending,
        config.allows client.policy proof.username message.channel = true := fun guard found =>
      kept.pending guard (same.guards.symm.trans found)
    exact .inr ⟨proof, ⟨kept.known, kept.present, kept.valid, kept.queue, kept.watched, channels, pending⟩⟩

theorem Changed.activation_open (changed : Changed s next id session after)
    (open_ : s.exclusive = false) : next.activation = s.activation := by
  obtain ⟨tickets, _, same⟩ := changed.activation
  rw [same]
  unfold Runtime.exclusive at open_
  unfold acknowledge
  revert open_
  rcases s.activation with _ | ⟨replacement, _ | awaited⟩
  · exact fun _ => rfl
  · exact fun _ => rfl
  · exact nofun

/-- While no update is out, the stage is kept as long as none gets out. -/
theorem Staged.of_quiet (staged : s.Staged config) (open_ : s.exclusive = false)
    (activation : next.activation = s.activation) (quiet : next.Quiet) : next.Staged config := by
  unfold Staged at staged ⊢
  unfold Runtime.exclusive at open_
  rw [activation]
  revert open_ staged
  rcases s.activation with _ | ⟨replacement, _ | awaited⟩
  · exact fun _ _ => quiet
  · exact fun staged _ => ⟨staged.1, quiet⟩
  · exact nofun

variable (sound : s.Sound config)

include sound

/-- No update is out, or every session answers to its own. -/
theorem Sound.stages : (s.exclusive = false ∧ s.Quiet) ∨
    ∃ replacement awaited client, s.activation = some (replacement, .revoking awaited) ∧
      replacement.client = some client ∧ ∀ id session, s.sessions.get? id = some session →
        session.Answers config client awaited s.hub id := by
  have staged := sound.staged
  unfold Staged at staged
  unfold Runtime.exclusive
  revert staged
  rcases s.activation with _ | ⟨replacement, _ | awaited⟩
  · exact fun staged => .inl ⟨rfl, staged⟩
  · exact fun staged => .inl ⟨rfl, staged.2⟩
  · intro staged
    obtain ⟨client, material, answers⟩ := staged.answers
    exact .inr ⟨replacement, awaited, client, rfl, material, answers⟩

theorem Sound.quiet (open_ : s.exclusive = false) : s.Quiet := by
  rcases sound.stages with ⟨_, quiet⟩ | ⟨_, _, _, closed, _⟩
  · exact quiet
  · rw [Runtime.exclusive, closed] at open_
    cases open_

/-- A move that keeps the runtime sound, and the active generation. -/
structure Keeps (config : ServerConfig) (s next : Runtime Peer) : Prop where
  sound : next.Sound config
  active : next.active = s.active

/-- A move of one session while no update is out. -/
theorem Sound.open_changed (open_ : s.exclusive = false) (changed : Changed s next id session after)
    (mail : ∀ left, after = some left → left.mailbox = session.mailbox ∧
      left.closeAcknowledgements = session.closeAcknowledgements) : Keeps config s next := by
  refine ⟨⟨sound.base.changed changed, sound.staged.of_quiet open_ (changed.activation_open open_) ?_⟩,
    changed.active⟩
  have quiet := sound.quiet open_
  intro other value found
  rw [changed.sessions other] at found
  split_ifs at found
  · obtain ⟨first, second⟩ := mail value found
    obtain ⟨none, none'⟩ := quiet id session changed.found
    exact ⟨first.trans none, second.trans none'⟩
  · exact quiet other value found

/-- A move of one session while updates are out. -/
theorem Sound.closed_changed (closed : s.activation = some (replacement, .revoking awaited))
    (material : replacement.client = some client) (changed : Changed s next id session after)
    (own : ∀ left awaited', after = some left →
      next.activation = some (replacement, .revoking awaited') →
      left.Answers config client awaited' next.hub id) : Keeps config s next := by
  have base := sound.base
  refine ⟨⟨base.changed changed, ?_⟩, changed.active⟩
  have exclusive : s.lock.writer = true := by
    rw [base.counts.writer, Runtime.exclusive, closed]
  obtain ⟨tickets, mine, moved⟩ := changed.activation
  have staged := sound.staged
  unfold Staged at staged ⊢
  rw [closed] at staged
  obtain ⟨other, same, answers⟩ := staged.answers
  cases material.symm.trans same
  have moved : next.activation =
      some (replacement, .revoking (awaited.filter fun ticket => ticket ∉ tickets)) := by
    rw [moved]
    unfold acknowledge
    rw [closed]
    rfl
  rw [moved]
  refine ⟨changed.active ▸ staged.newer, changed.peers ▸ staged.peers, client, material,
    fun other value found => ?_⟩
  rw [changed.sessions other] at found
  split_ifs at found with here
  · subst here
    exact own value _ found moved
  · obtain ⟨open_, either⟩ := answers other value found
    refine ⟨open_, ?_⟩
    rcases either with ⟨round, mailbox, waits⟩ | ⟨mailbox, revised⟩
    · refine .inl ⟨round, mailbox, List.mem_filter.mpr ⟨waits, ?_⟩⟩
      exact decide_eq_true fun acknowledged => here (mine _ acknowledged)
    · refine .inr ⟨mailbox, revised_apart revised fun sub has => ?_⟩
      refine changed.hub.apart exclusive sub (base.seated other value sub found has) fun same => here ?_
      exact base.apart other id value session sub found changed.found has same

end Stages

/-! ### Every move -/

/-- A session in a round holds a share, so that no exclusive guard is out. -/
theorem Base.open_of_round (base : s.Base) (found : s.sessions.get? id = some session)
    (round : session.state.phase ≠ .waiting) : s.exclusive = false := by
  refine base.counts.open_of_pos ?_
  have held : session.holds = 1 := if_pos ((base.sessions id session found).rounds.mpr round)
  have := OrdMap.le_total (fun _ (session : Session Peer) => session.holds) found
  omega

theorem Base.writer_of_open (base : s.Base) (open_ : s.exclusive = false) : s.lock.writer = false :=
  base.counts.writer.trans open_

/-- Outside a round nothing happens. -/
theorem follow_waiting (base : s.Base) (found : s.sessions.get? id = some session)
    (waiting : session.state.phase = .waiting) :
    s.follow config id session sub (some session.state, []) = s := by
  have free := (base.sessions id session found).free waiting
  have same : settled session session.state = session := by
    unfold settled
    rw [waiting, ← free]
  unfold Runtime.follow
  have stays : resubscribes session.state session.state [] = false := by
    unfold resubscribes
    cases session.state.identity <;> rfl
  dsimp only [List.foldl_nil]
  rw [stays, if_neg Bool.false_ne_true, keep_eq, same, Nat.sub_self, OrdMap.insert_of_get? found]
  rfl

section

variable (sound : s.Sound config)

include sound

section

variable (found : s.sessions.get? id = some session)

include found

section

variable (has : session.subscription = some sub)

include has

/-- An event of a round. -/
theorem Sound.round (round : session.state.phase ≠ .waiting) (stirred : s.hub.Stirred sub hub)
    (bare : s.hub.Bare sub → hub.Bare sub)
    (other : ∀ lease now late reconnected, event ≠ .lease lease now late reconnected) :
    Keeps config s ({ s with hub := hub }.follow config id session sub
      (session.state.step (config.serviceOf session) event)) := by
  have own := sound.base.sessions id session found
  have open_ := sound.base.open_of_round found round
  have writer := sound.base.writer_of_open open_
  have lawful : Lawful _ (config.serviceOf session) session.state _ event :=
    step_lawful rfl own.guarded event
      fun lease now late reconnected is => absurd is (other lease now late reconnected)
  obtain ⟨after, changed, mail⟩ := ((sound.base.under found).stir has stirred writer).follow has writer
    config (session.state.step (config.serviceOf session) event)
    (fun unknown => bare (own.bare unknown sub has)) lawful.anonymous own.own fun state is =>
      ⟨⟨fun _ same => same, (lawful.next state is).leased, (lawful.next state is).anonymous⟩,
        fun _ => own.rounds.mpr round⟩
  exact sound.open_changed open_ changed mail

theorem Sound.frame (round : (∃ frame s, event = .frame frame s) ∨ event = .idle) :
    Keeps config s (s.follow config id session sub
      (session.state.step (config.serviceOf session) event)) := by
  by_cases waiting : session.state.phase = .waiting
  · have idle : session.state.step (config.serviceOf session) event = (some session.state, []) :=
      Local.step_waiting waiting (round.imp_right .inr)
    rw [idle, follow_waiting sound.base found waiting]
    exact ⟨sound, rfl⟩
  · refine sound.round found has waiting (sound.base.hub.stirred sub) (fun bare => bare) ?_
    rintro lease now late reconnected rfl
    rcases round with ⟨frame, s, is⟩ | is <;> cases is

theorem Sound.message : Keeps config s (s.message config id session sub) := by
  unfold Runtime.message
  split
  · rename_i lease message hub phase received
    have moved : (s.hub.tryMessage sub).2 = hub := congrArg Prod.snd received
    have kept : s.hub.Private sub hub := moved ▸ Hub.private_tryMessage sound.base.hub sub
    refine sound.round found has (by rw [phase]; exact nofun) kept.stirred ?_
      nofun
    -- A bare subscription has no message to deliver.
    intro bare
    unfold Hub.tryMessage at received
    split at received
    · cases received
    · rename_i guard here
      rw [Channel.tryRecv_eq_none.mpr (bare.2 guard here)] at received
      cases received
  · exact ⟨sound, rfl⟩

end

theorem Sound.acquire (waiting : session.state.phase = .waiting)
    (has : session.subscription = some sub) (now : Int) (current late : Bool) :
    Keeps config s (s.acquire config id session sub now current late) := by
  have own := sound.base.sessions id session found
  unfold Runtime.acquire
  split
  · rename_i lock client given material
    obtain ⟨open_, _⟩ := sound.base.counts.tryRead given
    have writer := sound.base.writer_of_open open_
    have free := own.free waiting
    have taken : lock.readers = s.lock.readers + 1 ∧ lock.writer = s.lock.writer := by
      unfold RwLock.tryRead at given
      split_ifs at given
      cases given
      exact ⟨rfl, rfl⟩
    have under : Under s id session { session with held := some s.active } lock s.hub := {
      sound.base.under found with
      readers := by
        rw [taken.1, Session.holds, free]
        rfl
      writer := taken.2 }
    have lawful : Lawful _ (config.serviceOf session) session.state _
        (.lease ⟨client.policy, client.digest, current⟩ now late true) :=
      step_lawful rfl own.guarded _ fun lease _ _ _ is => by
        obtain ⟨rfl, _⟩ := Event.lease.inj is
        exact material
    obtain ⟨after, changed, mail⟩ := under.follow has writer config
      (session.state.step (config.serviceOf session)
        (.lease ⟨client.policy, client.digest, current⟩ now late true))
      (fun unknown => own.bare unknown sub has) lawful.anonymous
      (fun generation same => (Option.some.inj same).symm) fun state is =>
        ⟨⟨fun _ same => same, (lawful.next state is).leased, (lawful.next state is).anonymous⟩,
          fun _ => rfl⟩
    exact sound.open_changed open_ changed mail
  · exact ⟨sound, rfl⟩

end

theorem Sound.finish (changed : Changed s next id session none) : Keeps config s next := by
  rcases sound.stages with ⟨open_, _⟩ | ⟨replacement, awaited, client, closed, material, _⟩
  · exact sound.open_changed open_ changed fun _ gone => by cases gone
  · exact sound.closed_changed closed material changed fun _ _ gone => by cases gone

theorem Sound.openSession (found : s.sessions.get? id = some session)
    (closed : session.subscription = none) : Keeps config s (s.openSession config id session) := by
  have own := sound.base.sessions id session found
  have waiting := own.unopened closed
  have free : session.holds = 0 := if_neg (by simp [own.free waiting])
  have under := sound.base.under found
  unfold Runtime.openSession
  split
  · exact sound.finish under.finish
  · rename_i moved left connected
    obtain ⟨fresh, hub, rfl, rfl, bare, under⟩ := under.resubscribe connected
    have changed := under.record [] nofun (fun _ => free) {
      rounds := own.rounds
      own := own.own
      guarded := own.guarded
      bare := fun _ probe same => Option.some.inj same ▸ bare
      unopened := nofun
      mine := own.mine }
    rw [acknowledge_nil] at changed
    rcases sound.stages with ⟨open_, _⟩ | ⟨replacement, awaited, client, closed', material, answers⟩
    · exact sound.open_changed open_ changed fun left same => Option.some.inj same ▸ ⟨rfl, rfl⟩
    · refine sound.closed_changed closed' material changed fun left awaited' same still => ?_
      cases same
      obtain ⟨none, either⟩ := answers id session found
      refine ⟨none, .inl ?_⟩
      -- A session that has not started cannot have taken its update.
      rcases either with ⟨round, mailbox, waits⟩ | ⟨_, revised⟩
      · refine ⟨round, mailbox, ?_⟩
        rw [closed'] at still
        cases still
        exact waits
      · obtain ⟨sub, has, _⟩ := revised.cleaned
        rw [closed] at has
        cases has

end

/-- What a queue and watches keep under a policy is granted by it. -/
theorem revalidate_granted (decode : String → Option Bytes) (policy : ClientPolicy) (username : String)
    (t : Transaction) :
    (∀ queue, (t.revalidate decode policy username).queue = some queue → ∀ command ∈ queue.commands,
      policy.authorize decode username (Bytes.ascii (commandName command).text) command = .ok ()) ∧
    ((t.revalidate decode policy username).watched = ∅ ∨
      policy.authorize decode username (Bytes.ascii "WATCH")
        (.watch (t.revalidate decode policy username).watched.keys) = .ok ()) := by
  have accepts : ∀ {command : Command},
      (policy.authorize decode username (Bytes.ascii (commandName command).text) command).toBool = true →
      policy.authorize decode username (Bytes.ascii (commandName command).text) command = .ok () := by
    intro command fine
    cases decided : policy.authorize decode username (Bytes.ascii (commandName command).text) command with
    | ok => rfl
    | error => rw [decided] at fine; cases fine
  have queues : ∀ queue, (t.queue.map fun queue =>
        if queue.commands.any fun command =>
            !(policy.authorize decode username (Bytes.ascii (commandName command).text) command).toBool then
          { queue with commands := [], bytes := 0, permissionDenied := true }
        else queue) = some queue → ∀ command ∈ queue.commands,
      policy.authorize decode username (Bytes.ascii (commandName command).text) command = .ok () := by
    intro queue left command inside
    obtain ⟨old, _, rfl⟩ := Option.map_eq_some_iff.mp left
    split_ifs at inside with refused
    · cases inside
    · refine accepts ?_
      simp only [List.any_eq_true, not_exists, not_and, Bool.not_eq_true, Bool.not_eq_false'] at refused
      exact refused command inside
  unfold Transaction.revalidate
  by_cases drops : (!t.watched.isEmpty && !(policy.authorize decode username
      (Bytes.ascii (commandName (.watch t.watched.keys)).text) (.watch t.watched.keys)).toBool) = true
  · rw [if_pos drops]
    exact ⟨queues, .inl rfl⟩
  · rw [if_neg drops]
    refine ⟨queues, ?_⟩
    rw [Bool.and_eq_true, not_and_or] at drops
    rcases drops with empty | granted
    · exact .inl (OrdMap.isEmpty_iff.mp (by simpa using empty))
    · have name : (commandName (.watch t.watched.keys)).text = "WATCH" := rfl
      rw [← name]
      exact .inr (accepts (by simpa using granted))

/-- The end of an update. The session ends, or is recorded as revised with its ticket acknowledged. -/
theorem Sound.settle (sound : s.Sound config)
    (closed : s.activation = some (replacement, .revoking awaited))
    (material : replacement.client = some client) {now : Session Peer} {round : Nat}
    (under : Under s id session now s.lock hub) (state : now.state = session.state)
    (digest : now.digest = session.digest) (waiting : session.state.phase = .waiting)
    (free : now.held = none) (mailbox : now.mailbox = [])
    (open_ : now.closeAcknowledgements = [(round, id)]) (has : now.subscription = some sub)
    (time : Int) (cleaned : ∀ state,
      session.state.update (config.serviceOf session) client.policy client.digest time true = some state →
      (state.identity = none ∧ state.transaction = .empty ∧ hub.Bare sub) ∨
        ∃ proof, { now with state := state, closeAcknowledgements := [] }.Revalidated config client.policy
          hub sub proof) :
    Keeps config s (match now.state.update (config.serviceOf session) client.policy client.digest time
        true with
      | none => { s with hub := hub }.finish id now
      | some state => { s with
          hub := hub
          sessions := s.sessions.insert id { now with
            state := state
            closeAcknowledgements := now.closeAcknowledgements.dropLast } }.acknowledge
          [(round, id)]) := by
  have own := sound.base.sessions id session under.found
  rw [state, open_]
  cases updated : session.state.update (config.serviceOf session) client.policy client.digest time true with
  | none => exact sound.finish under.finish
  | some after =>
    have cleaned := cleaned after updated
    have bare : after.identity = none → hub.Bare sub := by
      intro unknown
      rcases cleaned with ⟨_, _, bare⟩ | ⟨proof, kept⟩
      · exact bare
      · have known := kept.known
        rw [show after.identity = none from unknown] at known
        cases known
    have phase := (Local.update_phase updated).trans waiting
    have fine : ({ now with state := after, closeAcknowledgements := [] } : Session Peer).Sound s.active
        hub id := {
      rounds := by simp [free, phase]
      own := fun generation held => by
        rw [show now.held = some generation from held] at free
        cases free
      guarded :=
        have guarded := own.guarded.update updated
        ⟨fun _ same => same, guarded.leased, guarded.anonymous⟩
      bare := fun unknown probe same => by
        cases has.symm.trans same
        exact bare unknown
      unopened := fun _ => phase
      mine := by
        rw [mailbox]
        exact fun _ inside => absurd inside List.not_mem_nil }
    have moved : Under s id session { now with state := after, closeAcknowledgements := [] } s.lock hub := {
      under with mine := fine.mine }
    have changed := moved.record [(round, id)] (fun ticket inside => by rw [List.mem_singleton.mp inside])
      (fun _ => if_neg (by simp [free])) fine
    refine sound.closed_changed closed material changed fun value awaited' is _ => ?_
    cases is
    exact ⟨rfl, .inr ⟨mailbox, digest.trans ((Local.update_eq_some updated).1 _ rfl), sub, has, cleaned⟩⟩

/-- **A session takes its update.** -/
theorem Sound.receive (sound : s.Sound config) (found : s.sessions.get? id = some session)
    (waiting : session.state.phase = .waiting) (has : session.subscription = some sub) {update : Update}
    {rest : List Update} (mailbox : session.mailbox = update :: rest) (now : Int) :
    Keeps config s (s.receive config id session sub update now) := by
  have own := sound.base.sessions id session found
  obtain ⟨replacement, awaited, client, closed, material, answers⟩ :
      ∃ replacement awaited client, s.activation = some (replacement, .revoking awaited) ∧
        replacement.client = some client ∧ ∀ id session, s.sessions.get? id = some session →
          session.Answers config client awaited s.hub id := by
    rcases sound.stages with ⟨_, quiet⟩ | staged
    · rw [(quiet id session found).1] at mailbox
      cases mailbox
    · exact staged
  obtain ⟨unacknowledged, either⟩ := answers id session found
  obtain ⟨round, mail⟩ : ∃ round, session.mailbox = [⟨client.policy, client.digest, (round, id)⟩] := by
    rcases either with ⟨round, is, _⟩ | ⟨empty, _⟩
    · exact ⟨round, is⟩
    · rw [empty] at mailbox
      cases mailbox
  obtain ⟨rfl, rfl⟩ : update = ⟨client.policy, client.digest, (round, id)⟩ ∧ rest = [] := by
    rw [mail] at mailbox
    exact ⟨(List.cons.inj mailbox).1.symm, (List.cons.inj mailbox).2.symm⟩
  have free := own.free waiting
  have before := sound.base.under found
  have under : Under s id session { session with
      mailbox := session.mailbox.tail
      closeAcknowledgements := session.closeAcknowledgements ++ [(round, id)] } s.lock s.hub := {
    before with
    mine := by
      rw [mail, unacknowledged]
      intro ticket inside
      rw [List.mem_singleton.mp inside] }
  have tail : session.mailbox.tail = [] := by rw [mail]; rfl
  have one : session.closeAcknowledgements ++ [(round, id)] = [(round, id)] := by rw [unacknowledged]; rfl
  unfold Runtime.receive
  dsimp only
  split_ifs with resets
  · split
    · exact sound.finish under.finish
    · rename_i moved left connected
      obtain ⟨fresh, hub, rfl, rfl, bare, under⟩ := under.resubscribe connected
      refine sound.settle closed material under rfl rfl waiting free tail one rfl now fun state updated => ?_
      obtain ⟨_, _, ⟨_, rfl⟩ | ⟨kept, _⟩⟩ := Local.update_eq_some updated
      · exact .inl ⟨rfl, rfl, bare⟩
      · rw [kept] at resets
        cases resets
  · split
    · rename_i unknown
      refine sound.settle closed material under rfl rfl waiting free tail one has now fun state updated => ?_
      obtain ⟨_, _, ⟨reset, _⟩ | ⟨_, _, ⟨_, rfl⟩ | ⟨proof, known, _⟩⟩⟩ := Local.update_eq_some updated
      · exact absurd reset resets
      · exact .inl ⟨unknown, own.guarded.anonymous unknown, own.bare unknown sub has⟩
      · rw [unknown] at known
        cases known
    · rename_i proof known
      obtain ⟨guard, here⟩ := OrdMap.mem_iff.mp (sound.base.seated id session sub found has)
      have revalidated := Hub.revalidate_spec sound.base.hub here
        (config.allows client.policy proof.username)
      have under : Under s id session { session with
          mailbox := session.mailbox.tail
          closeAcknowledgements := session.closeAcknowledgements ++ [(round, id)] } s.lock
          (s.hub.revalidate sub (config.allows client.policy proof.username)) := {
        under with
        spares := under.spares.apart_trans revalidated.consistent fun probe _ other =>
          revalidated.apart probe fun same => other (same ▸ has)
        seat := fun probe same => by
          cases has.symm.trans same
          obtain ⟨after, still, _⟩ := revalidated.pending guard here
          exact ⟨OrdMap.mem_iff.mpr ⟨after, still⟩, .inl has⟩ }
      refine sound.settle closed material under rfl rfl waiting free tail one has now fun state updated => ?_
      obtain ⟨_, listed, ⟨reset, _⟩ | ⟨_, lapsed, ⟨unknown, _⟩ | ⟨other, same, rfl⟩⟩⟩ :=
        Local.update_eq_some updated
      · exact absurd reset resets
      · rw [unknown] at known
        cases known
      cases known.symm.trans same
      obtain ⟨queue, watched⟩ := revalidate_granted config.service.primitives.decode client.policy
        proof.username session.state.transaction
      refine .inr ⟨proof, same, listed proof known, ⟨now, ?_⟩, queue, watched, ?_, ?_⟩
      · rw [Local.lapsedFor, known, Option.any_some, Bool.not_eq_false'] at lapsed
        exact lapsed
      · exact fun channel inside => ((revalidated.channels channel).mp inside).2
      · intro after still message inside
        obtain ⟨other, now_, pending⟩ := revalidated.pending guard here
        cases now_.symm.trans still
        rw [pending] at inside
        split_ifs at inside
        · exact (List.mem_filter.mp (List.mem_of_mem_take inside)).2
        · cases inside

/-- The stage depends on the sessions, the hub, the sockets and the active number only. -/
theorem Staged.congr (staged : s.Staged config) (activation : next.activation = s.activation)
    (active : next.active.number = s.active.number) (sessions : next.sessions = s.sessions)
    (hub : next.hub = s.hub)
    (peers : s.exclusive = true → ∀ id peer, next.peers.get? id = some peer →
      s.peers.get? id = some peer) : next.Staged config := by
  unfold Staged at staged ⊢
  unfold Runtime.exclusive at peers
  rw [activation]
  revert peers staged
  rcases s.activation with _ | ⟨replacement, _ | awaited⟩
  · intro quiet _ id session found
    exact quiet id session (sessions ▸ found)
  · rintro ⟨material, quiet⟩ _
    exact ⟨material, fun id session found => quiet id session (sessions ▸ found)⟩
  · intro revoking peers
    refine ⟨active ▸ revoking.newer, fun trusts is id peer found =>
      revoking.peers trusts is id peer (peers rfl id peer found), ?_⟩
    rw [sessions, hub]
    exact revoking.answers

section

variable (sound : s.Sound config)

include sound

/-- A change of the lock and of the shares outside rounds. -/
theorem Sound.shared {shares : List (Generation Peer)}
    (counts : lock.Counts (shares.length + s.sessions.total fun _ session => session.holds) s.exclusive)
    (active : ∀ generation ∈ shares, generation = s.active) :
    Sound config { s with lock := lock, shares := shares } := by
  exact ⟨{ sound.base with counts := counts, shares := active },
    sound.staged.congr rfl rfl rfl rfl fun _ _ _ found => found⟩

/-- A change of the internal sockets; under the exclusive guard none is added. -/
theorem Sound.repeered (peers : OrdMap Nat Peer) (nextPeer : Nat)
    (fewer : s.exclusive = true → ∀ id peer, peers.get? id = some peer → s.peers.get? id = some peer) :
    Sound config { s with peers := peers, nextPeer := nextPeer } :=
  ⟨{ sound.base with }, sound.staged.congr rfl rfl rfl rfl fewer⟩

/-- Another share of a generation that somebody holds. -/
theorem Sound.cloned (held : 0 < s.shares.length + s.sessions.total fun _ session => session.holds)
    (active : generation = s.active) :
    Sound config { s with lock := s.lock.clone, shares := s.shares ++ [generation] } := by
  refine sound.shared ?_ fun other inside => ?_
  · have cloned := sound.base.counts.clone held
    have size : (s.shares ++ [generation]).length = s.shares.length + 1 := List.length_append
    rw [size, Nat.add_right_comm]
    exact cloned
  · rcases List.mem_append.mp inside with old | new
    · exact sound.base.shares other old
    · rw [List.mem_singleton.mp new, active]

/-- Another activation, while no update is out. -/
theorem Sound.restaged {activation : Option (Generation Peer × Stage)} (open_ : s.exclusive = false)
    (still : exclusive { s with activation := activation } = false)
    (staged : Staged config { s with activation := activation }) :
    Sound config { s with activation := activation } := by
  refine ⟨{ sound.base with counts := ?_ }, staged⟩
  rw [still, ← open_]
  exact sound.base.counts

end

theorem newer_of_replacementOf (accepted : replacement.replacementOf active = .ok true) :
    active.number < replacement.number := by
  unfold Generation.replacementOf at accepted
  split_ifs at accepted with same older
  · cases accepted
  · exact Nat.lt_of_not_le older

/-- Under the exclusive guard nobody holds a share. -/
theorem nobody (unshared : s.shares.length +
    (s.sessions.total fun _ session => session.holds) = 0) :
    s.shares = [] ∧ ∀ id session, s.sessions.get? id = some session → session.held = none := by
  refine ⟨List.length_eq_zero_iff.mp (by omega), fun id session found => ?_⟩
  have free := OrdMap.le_total (fun _ (session : Session Peer) => session.holds) found
  have zero : session.holds = 0 := by omega
  unfold Session.holds at zero
  split_ifs at zero with held
  simpa using held

section

variable (sound : s.Sound config)

include sound

theorem Sound.open_of_share {index : Nat} (held : index < s.shares.length) : s.exclusive = false :=
  sound.base.counts.open_of_pos (by omega)

theorem Sound.register (open_ : s.exclusive = false) (digest : Bytes) :
    Sound config { s with
      sessions := s.sessions.insert s.nextSession ⟨digest, [], [], .start, none, none⟩
      nextSession := s.nextSession + 1 } := by
  have base := sound.base
  have fresh : s.sessions.get? s.nextSession = none :=
    OrdMap.get?_eq_none_iff.mpr fun inside => lt_irrefl _ (base.numbered _ inside)
  -- The session is the new one, or was there before.
  have either : ∀ id session, (s.sessions.insert s.nextSession
        (⟨digest, [], [], .start, none, none⟩ : Session Peer)).get? id = some session →
      (id = s.nextSession ∧ session = ⟨digest, [], [], .start, none, none⟩) ∨
        s.sessions.get? id = some session := by
    intro id session found
    rw [OrdMap.get?_insert] at found
    split_ifs at found with new
    · exact .inl ⟨new, (Option.some.inj found).symm⟩
    · exact .inr found
  refine ⟨⟨base.client, ?_, base.shares, base.hub, ?_, ?_, ?_, ?_⟩, ?_⟩
  · have total := OrdMap.total_insert_of_none (fun _ (session : Session Peer) => session.holds)
      (⟨digest, [], [], .start, none, none⟩ : Session Peer) fresh
    have none : Session.holds (⟨digest, [], [], .start, none, none⟩ : Session Peer) = 0 := rfl
    rw [total, none, Nat.zero_add]
    exact base.counts
  · intro id inside
    show id < s.nextSession + 1
    rcases OrdMap.mem_insert.mp inside with new | old
    · omega
    · have := base.numbered id old
      omega
  · intro id session found
    rcases either id session found with ⟨rfl, rfl⟩ | old
    · exact {
        rounds := by simp [Local.start]
        own := nofun
        guarded := .start
        bare := nofun
        unopened := fun _ => rfl
        mine := fun _ inside => absurd inside List.not_mem_nil }
    · exact base.sessions id session old
  · intro id session sub found has
    rcases either id session found with ⟨_, rfl⟩ | old
    · cases has
    · exact base.seated id session sub old has
  · intro a b first second sub foundFirst foundSecond hasFirst hasSecond
    rcases either a first foundFirst with ⟨_, rfl⟩ | old
    · cases hasFirst
    rcases either b second foundSecond with ⟨_, rfl⟩ | old'
    · cases hasSecond
    exact base.apart a b first second sub old old' hasFirst hasSecond
  · refine sound.staged.of_quiet open_ rfl fun id session found => ?_
    rcases either id session found with ⟨_, rfl⟩ | old
    · exact ⟨rfl, rfl⟩
    · exact sound.quiet open_ id session old

theorem Sound.revoke (queued : s.activation = some (replacement, .queued))
    (given : s.lock.tryWrite = some lock) (material : replacement.client = some client)
    (newer : s.active.number < replacement.number) (now : Int) :
    (s.revoke replacement client lock now).Sound config := by
  have base := sound.base
  obtain ⟨_, unshared, counts⟩ := base.counts.tryWrite given
  have quiet := sound.quiet (by rw [Runtime.exclusive, queued])
  -- Every session has its update in the mailbox, and is otherwise as before.
  have before : ∀ id session, (s.revoke replacement client lock now).sessions.get? id = some session →
      ∃ old, s.sessions.get? id = some old ∧ session = { old with
        mailbox := [⟨client.policy, client.digest, (s.sent, id)⟩] } := by
    intro id session found
    change (s.sessions.mapKeyed _).get? id = some session at found
    rw [OrdMap.get?_mapKeyed] at found
    obtain ⟨old, here, rfl⟩ := Option.map_eq_some_iff.mp found
    exact ⟨old, here, by rw [(quiet id old here).1]; rfl⟩
  refine ⟨⟨base.client, ?_, base.shares, base.hub, ?_, ?_, ?_, ?_⟩, ?_⟩
  · have total : ((s.revoke replacement client lock now).sessions.total fun _ session => session.holds) =
        s.sessions.total fun _ session => session.holds := by
      unfold Runtime.revoke
      rw [OrdMap.total_mapKeyed]
      rfl
    show lock.Counts (s.shares.length + _) true
    rw [total, unshared]
    exact counts
  · intro id inside
    obtain ⟨session, found⟩ := OrdMap.mem_iff.mp inside
    obtain ⟨old, here, _⟩ := before id session found
    exact base.numbered id (OrdMap.mem_iff.mpr ⟨old, here⟩)
  · intro id session found
    obtain ⟨old, here, rfl⟩ := before id session found
    have own := base.sessions id old here
    refine ⟨own.rounds, own.own, own.guarded, own.bare, own.unopened, fun ticket inside => ?_⟩
    rw [(quiet id old here).2] at inside
    rw [List.mem_singleton.mp inside]
  · intro id session sub found has
    obtain ⟨old, here, rfl⟩ := before id session found
    exact base.seated id old sub here has
  · intro a b first second sub foundFirst foundSecond hasFirst hasSecond
    obtain ⟨old, here, rfl⟩ := before a first foundFirst
    obtain ⟨old', here', rfl⟩ := before b second foundSecond
    exact base.apart a b old old' sub here here' hasFirst hasSecond
  · refine ⟨newer, fun trusts is id peer found => ?_, client, material, fun id session found => ?_⟩
    · rw [Runtime.revoke, is, OrdMap.get?_filter] at found
      obtain ⟨_, trusted⟩ := Option.filter_eq_some_iff.mp found
      exact ⟨now, trusted⟩
    · obtain ⟨old, here, rfl⟩ := before id session found
      exact ⟨(quiet id old here).2, .inl ⟨s.sent, rfl, List.mem_map.mpr
        ⟨id, OrdMap.mem_keys.mpr (OrdMap.mem_iff.mpr ⟨old, here⟩), rfl⟩⟩⟩

/-- **An activation succeeds**: nobody holds a share, and every session was revised. -/
theorem Sound.complete (closed : s.activation = some (replacement, .revoking [])) :
    Sound config { s with
      active := replacement, lock := s.lock.dropWrite, activation := none } ∧
    s.shares = [] ∧ (∀ id session, s.sessions.get? id = some session → session.held = none) ∧
    s.active.number < replacement.number ∧
    (∀ trusts, replacement.internal = some trusts → ∀ id peer, s.peers.get? id = some peer →
      ∃ now, trusts peer now = true) ∧
    ∃ client, replacement.client = some client ∧ ∀ id session, s.sessions.get? id = some session →
      session.Revised config client s.hub := by
  have base := sound.base
  have exclusive : s.exclusive = true := by rw [Runtime.exclusive, closed]
  have unshared := base.counts.excludes exclusive
  obtain ⟨shares, free⟩ := nobody unshared
  have staged := sound.staged
  unfold Staged at staged
  rw [closed] at staged
  obtain ⟨client, material, answers⟩ := staged.answers
  have revised : ∀ id session, s.sessions.get? id = some session →
      session.mailbox = [] ∧ session.closeAcknowledgements = [] ∧
        session.Revised config client s.hub := by
    intro id session found
    obtain ⟨open_, ⟨_, _, waits⟩ | ⟨mailbox, revised⟩⟩ := answers id session found
    · cases waits
    · exact ⟨mailbox, open_, revised⟩
  refine ⟨⟨⟨?_, ?_, ?_, base.hub, base.numbered, ?_, base.seated, base.apart⟩, ?_⟩, shares, free,
    staged.newer, staged.peers, client, material, fun id session found => (revised id session found).2.2⟩
  · rw [material]
    rfl
  · exact base.counts.dropWrite
  · intro generation inside
    rw [shares] at inside
    cases inside
  · intro id session found
    have own := base.sessions id session found
    have held := free id session found
    have waiting : session.state.phase = .waiting := by
      have rounds := own.rounds
      rw [held] at rounds
      simpa using rounds
    exact {
      rounds := own.rounds
      own := fun generation is => by
        rw [held] at is
        cases is
      guarded := {
        proven := own.guarded.proven
        leased := fun lease notified is => by
          rw [waiting] at is
          cases is
        anonymous := own.guarded.anonymous }
      bare := own.bare
      unopened := own.unopened
      mine := own.mine }
  · exact fun id session found => ⟨(revised id session found).1, (revised id session found).2.1⟩

end

/-- A replacement is rejected without effect, or its updates are sent. -/
theorem examine_cases (s : Runtime Peer) (replacement : Generation Peer) (lock : RwLock) (now : Int)
    (clientCurrent internalCurrent : Bool) :
    (∃ result, result ≠ .ok true ∧ s.examine replacement lock now clientCurrent internalCurrent =
      ({ s with activation := none }, [(replacement, result)])) ∨
    ∃ client, replacement.client = some client ∧ s.active.number < replacement.number ∧
      s.examine replacement lock now clientCurrent internalCurrent =
        (s.revoke replacement client lock now, []) := by
  unfold Runtime.examine
  by_cases lanes : replacement.internal.isSome ≠ s.active.internal.isSome
  · exact .inl ⟨.error .configuration, nofun, by rw [if_pos lanes]⟩
  rw [if_neg lanes]
  cases accepted : replacement.replacementOf s.active with
  | error error => exact .inl ⟨.error error, nofun, rfl⟩
  | ok fresh =>
    cases fresh with
    | false => exact .inl ⟨.ok false, nofun, rfl⟩
    | true =>
      by_cases stale : (!clientCurrent || (replacement.internal.isSome && !internalCurrent)) = true
      · exact .inl ⟨.error .transport, nofun, by rw [if_pos stale]⟩
      rw [if_neg stale]
      cases material : replacement.client with
      | none => exact .inl ⟨.error .configuration, nofun, rfl⟩
      | some client => exact .inr ⟨client, rfl, newer_of_replacementOf accepted, rfl⟩

/-- **What a move does.** It returns nothing and the active generation stays; it rejects a replacement and
changes nothing else; or an activation succeeds. -/
theorem Sound.step_cases (sound : s.Sound config) (move : Move Peer) :
    (Keeps config s (s.step config move).1 ∧ (s.step config move).2 = []) ∨
    (∃ replacement result, result ≠ .ok true ∧
      s.step config move = ({ s with activation := none }, [(replacement, result)]) ∧
      Sound config { s with activation := none }) ∨
    ∃ replacement, s.activation = some (replacement, .revoking []) ∧ s.step config move =
      ({ s with active := replacement, lock := s.lock.dropWrite, activation := none },
        [(replacement, .ok true)]) := by
  have base := sound.base
  have stays : Keeps config s s ∧ ([] : List (Outcome Peer)) = [] := ⟨⟨sound, rfl⟩, rfl⟩
  cases move with
  | share =>
    refine .inl ?_
    dsimp only [Runtime.step]
    split
    · exact stays
    · rename_i lock given
      obtain ⟨_, counts⟩ := base.counts.tryRead given
      refine ⟨⟨sound.shared ?_ fun generation inside => ?_, rfl⟩, rfl⟩
      · rw [List.length_append, List.length_singleton, Nat.add_right_comm]
        exact counts
      · rcases List.mem_append.mp inside with old | new
        · exact base.shares generation old
        · exact List.mem_singleton.mp new
  | clone index =>
    refine .inl ?_
    dsimp only [Runtime.step]
    split
    · exact stays
    · rename_i generation found
      obtain ⟨inside, rfl⟩ := List.getElem?_eq_some_iff.mp found
      exact ⟨⟨sound.cloned (by omega) (base.shares _ (List.getElem_mem inside)), rfl⟩, rfl⟩
  | detach id =>
    refine .inl ?_
    dsimp only [Runtime.step]
    split
    · exact stays
    · rename_i generation found
      obtain ⟨session, here, held⟩ := Option.bind_eq_some_iff.mp found
      have one : session.holds = 1 := if_pos (by rw [held]; rfl)
      have := OrdMap.le_total (fun _ (session : Session Peer) => session.holds) here
      exact ⟨⟨sound.cloned (by omega) ((base.sessions id session here).own generation held), rfl⟩, rfl⟩
  | release index =>
    refine .inl ?_
    dsimp only [Runtime.step]
    split_ifs with inside
    · refine ⟨⟨sound.shared ?_ fun generation member =>
        base.shares generation (List.mem_of_mem_eraseIdx member), rfl⟩, rfl⟩
      have counts := base.counts
      have size : s.shares.length + (s.sessions.total fun _ session => session.holds) =
          (s.shares.eraseIdx index).length + (s.sessions.total fun _ session => session.holds) + 1 := by
        rw [List.length_eraseIdx_of_lt inside]
        omega
      rw [size] at counts
      exact counts.dropReads
    · exact stays
  | register index digest =>
    refine .inl ?_
    dsimp only [Runtime.step]
    split_ifs with inside
    · exact ⟨⟨sound.register (sound.open_of_share inside) digest, rfl⟩, rfl⟩
    · exact stays
  | registerPeer index peer =>
    refine .inl ?_
    dsimp only [Runtime.step]
    split_ifs with inside
    · refine ⟨⟨sound.repeered _ _ fun closed => ?_, rfl⟩, rfl⟩
      rw [sound.open_of_share inside] at closed
      cases closed
    · exact stays
  | closePeer id =>
    refine .inl ⟨⟨sound.repeered _ s.nextPeer fun _ probe peer found => ?_, rfl⟩, rfl⟩
    rw [OrdMap.get?_erase] at found
    split_ifs at found
    exact found
  | «open» id =>
    refine .inl ?_
    dsimp only [Runtime.step]
    split
    · rename_i session found
      split_ifs with closed
      · exact ⟨sound.openSession found (by simpa using closed), rfl⟩
      · exact stays
    · exact stays
  | receive id now =>
    refine .inl ?_
    dsimp only [Runtime.step]
    split
    · rename_i session found
      split
      · rename_i sub update rest waiting has mailbox
        exact ⟨sound.receive found waiting has mailbox now, rfl⟩
      · exact stays
    · exact stays
  | acquire id now current late =>
    refine .inl ?_
    dsimp only [Runtime.step]
    split
    · rename_i session found
      split
      · rename_i sub waiting has
        exact ⟨sound.acquire found waiting has now current late, rfl⟩
      · exact stays
    · exact stays
  | message id =>
    refine .inl ?_
    dsimp only [Runtime.step]
    split
    · rename_i session found
      split
      · rename_i sub has
        exact ⟨sound.message found has, rfl⟩
      · exact stays
    · exact stays
  | frame id frame surroundings =>
    refine .inl ?_
    dsimp only [Runtime.step]
    split
    · rename_i session found
      split
      · rename_i sub has
        exact ⟨sound.frame found has (.inl ⟨frame, surroundings, rfl⟩), rfl⟩
      · exact stays
    · exact stays
  | idle id =>
    refine .inl ?_
    dsimp only [Runtime.step]
    split
    · rename_i session found
      split
      · rename_i sub has
        exact ⟨sound.frame found has (.inr rfl), rfl⟩
      · exact stays
    · exact stays
  | close id =>
    refine .inl ?_
    dsimp only [Runtime.step]
    split
    · rename_i session found
      exact ⟨sound.finish (base.under found).finish, rfl⟩
    · exact stays
  | activate replacement =>
    dsimp only [Runtime.step]
    split
    · exact .inl stays
    · rename_i idle
      have open_ : s.exclusive = false := by rw [Runtime.exclusive, idle]
      have quiet := sound.quiet open_
      split_ifs with missing
      · refine .inr (.inl ⟨replacement, .error .configuration, nofun, ?_, sound.restaged open_ rfl quiet⟩)
        rw [← idle]
      · refine .inl ⟨⟨sound.restaged open_ rfl ⟨?_, quiet⟩, rfl⟩, rfl⟩
        exact Option.isSome_iff_ne_none.mpr (by simpa using missing)
  | examine now clientCurrent internalCurrent =>
    dsimp only [Runtime.step]
    split
    · rename_i replacement lock queued given
      have open_ : s.exclusive = false := by rw [Runtime.exclusive, queued]
      rcases examine_cases s replacement lock now clientCurrent internalCurrent with
        ⟨result, wrong, is⟩ | ⟨client, material, newer, is⟩
      · exact .inr (.inl ⟨replacement, result, wrong, is, sound.restaged open_ rfl (sound.quiet open_)⟩)
      · rw [is]
        exact .inl ⟨⟨sound.revoke queued given material newer now, rfl⟩, rfl⟩
    · exact .inl stays
  | complete =>
    dsimp only [Runtime.step]
    split
    · rename_i replacement closed
      exact .inr (.inr ⟨replacement, closed, rfl⟩)
    · exact .inl stays

/-- **Every move keeps the runtime sound.** -/
theorem Sound.step (sound : s.Sound config) (move : Move Peer) : (s.step config move).1.Sound config := by
  rcases sound.step_cases move with ⟨kept, _⟩ | ⟨_, _, _, is, kept⟩ | ⟨_, closed, is⟩
  · exact kept.sound
  · rw [is]
    exact kept
  · rw [is]
    exact (sound.complete closed).1

/-! ### Runs -/

theorem start_sound (config : ServerConfig) (material : generation.client.isSome = true) :
    (start generation).Sound config where
  base := {
    client := material
    counts := RwLock.counts_free
    shares := nofun
    hub := Hub.consistent_new
    numbered := fun id inside => absurd inside (OrdMap.not_mem_empty id)
    sessions := fun _ _ found => by cases found
    seated := fun _ _ _ found => by cases found
    apart := fun _ _ _ _ _ found => by cases found }
  staged := fun _ _ found => by cases found

theorem Sound.run (sound : s.Sound config) (moves : List (Move Peer)) :
    (s.run config moves).1.Sound config := by
  induction moves generalizing s with
  | nil => exact sound
  | cons move moves ih => exact ih (sound.step move)

/-- The numbers of the generations that were activated. -/
def activated (outcomes : List (Outcome Peer)) : List Nat :=
  outcomes.filterMap fun outcome => match outcome with
    | (replacement, .ok true) => some replacement.number
    | _ => none

/-- **Numbers of active generations increase.** -/
theorem Sound.increases (sound : s.Sound config) (moves : List (Move Peer)) :
    List.IsChain (· < ·) (s.active.number :: activated (s.run config moves).2) ∧
      (s.active.number :: activated (s.run config moves).2).getLast? =
        some (s.run config moves).1.active.number := by
  induction moves generalizing s with
  | nil => exact ⟨List.IsChain.singleton _, rfl⟩
  | cons move moves ih =>
    obtain ⟨chain, last⟩ := ih (sound.step move)
    have split : activated (s.run config (move :: moves)).2 =
        activated (s.step config move).2 ++ activated ((s.step config move).1.run config moves).2 :=
      List.filterMap_append ..
    have ends : (s.run config (move :: moves)).1 = ((s.step config move).1.run config moves).1 := rfl
    rw [split, ends]
    rcases sound.step_cases move with ⟨kept, none_⟩ | ⟨replacement, result, wrong, is, _⟩ |
      ⟨replacement, closed, is⟩
    · rw [none_, ← kept.active]
      exact ⟨chain, last⟩
    · have silent : activated (s.step config move).2 = [] := by
        rw [is]
        rcases result with error | _ | _
        · rfl
        · rfl
        · exact absurd rfl wrong
      have same : (s.step config move).1.active = s.active := by rw [is]
      rw [silent, ← same]
      exact ⟨chain, last⟩
    · have newer := (sound.complete closed).2.2.2.1
      have counted : activated (s.step config move).2 = [replacement.number] := by rw [is]; rfl
      have now : (s.step config move).1.active.number = replacement.number := by rw [is]
      rw [counted]
      rw [now] at chain last
      exact ⟨List.IsChain.cons_cons newer chain, by rw [← last]; rfl⟩

/-- **Activation is atomic and complete.** In every run the shares that are held are of the active
generation. A move that makes an activation succeed finds no share held, and leaves every session that is
still open revised by the new policy and every internal socket trusted by it. One that rejects changes
nothing but the activation itself. The numbers of the generations that become active increase. -/
theorem run_activated (config : ServerConfig) {generation : Generation Peer}
    (material : generation.client.isSome = true) (moves : List (Move Peer)) (move : Move Peer) :
    let s := ((start generation).run config moves).1
    let stepped := s.step config move
    ((∀ held ∈ s.shares, held = s.active) ∧
      ∀ id session, s.sessions.get? id = some session → ∀ held, session.held = some held →
        held = s.active) ∧
    (∀ replacement, (replacement, .ok true) ∈ stepped.2 →
      s.shares = [] ∧ (∀ id session, s.sessions.get? id = some session → session.held = none) ∧
      stepped.1 = { s with active := replacement, lock := s.lock.dropWrite, activation := none } ∧
      (∀ trusts, replacement.internal = some trusts → ∀ id peer, stepped.1.peers.get? id = some peer →
        ∃ now, trusts peer now = true) ∧
      ∃ client, replacement.client = some client ∧ ∀ id session,
        stepped.1.sessions.get? id = some session → session.Revised config client stepped.1.hub) ∧
    (∀ replacement result, (replacement, result) ∈ stepped.2 → result ≠ .ok true →
      stepped.1 = { s with activation := none }) ∧
    (∀ replacement, move = .activate replacement → ∃ activation,
      stepped.1 = { s with activation := activation }) ∧
    List.IsChain (· < ·) (generation.number :: activated ((start generation).run config moves).2) ∧
    (generation.number :: activated ((start generation).run config moves).2).getLast? =
      some s.active.number := by
  have begun := start_sound config material
  have sound := begun.run moves
  have base := sound.base
  refine ⟨⟨base.shares, fun id session found => (base.sessions id session found).own⟩, ?_, ?_, ?_,
    begun.increases moves⟩
  · intro replacement succeeded
    rcases sound.step_cases move with ⟨_, none_⟩ | ⟨other, result, wrong, is, _⟩ | ⟨other, closed, is⟩
    · rw [none_] at succeeded
      cases succeeded
    · rw [is] at succeeded
      exact absurd (Prod.mk.inj (List.mem_singleton.mp succeeded)).2.symm wrong
    · rw [is] at succeeded
      obtain rfl : replacement = other := (Prod.mk.inj (List.mem_singleton.mp succeeded)).1
      obtain ⟨_, shares, free, _, peers, revised⟩ := sound.complete closed
      rw [is]
      exact ⟨shares, free, rfl, peers, revised⟩
  · intro replacement result rejected wrong
    rcases sound.step_cases move with ⟨_, none_⟩ | ⟨other, result', _, is, _⟩ | ⟨other, closed, is⟩
    · rw [none_] at rejected
      cases rejected
    · rw [is]
    · rw [is] at rejected
      exact absurd (Prod.mk.inj (List.mem_singleton.mp rejected)).2 wrong
  · rintro replacement rfl
    dsimp only [Runtime.step]
    split
    · exact ⟨_, rfl⟩
    · split_ifs <;> exact ⟨_, rfl⟩

/-! A user fills a queue under one generation, and another takes its place. -/

def knownGeneration (number : Nat) : Generation Unit :=
  ⟨number, [Fin.ofNat 256 number], some ⟨⟨[knownUser]⟩, []⟩, none⟩

def knownConfig : ServerConfig := ⟨knownService, 4, 4⟩

def knownMoves : List (Move Unit) :=
  [.share, .register 0 [], .release 0, .open 0] ++
    knownRequests.flatMap (fun words =>
      [.acquire 0 1 true false, .frame 0 (knownFrame words) knownSurroundings]) ++
    [.activate (knownGeneration 2), .examine 1 true true, .receive 0 1]

theorem run_activated_known : ∃ replacement : Generation Unit,
    let s := ((start (knownGeneration 1)).run knownConfig knownMoves).1
    (s.sessions.get? 0).any (fun session => session.state.identity = some knownProof ∧
        session.state.transaction.queued = some [.incr (Bytes.ascii "k")] ∧
        session.state.transaction.watched.keys = [Bytes.ascii "k"]) = true ∧
      (replacement, .ok true) ∈ (s.step knownConfig .complete).2 ∧
      ∃ client, replacement.client = some client ∧ ∀ id session,
        (s.step knownConfig .complete).1.sessions.get? id = some session →
          session.Revised knownConfig client (s.step knownConfig .complete).1.hub := by
  have succeeds : ((((start (knownGeneration 1)).run knownConfig knownMoves).1.step knownConfig
      .complete).2.any fun outcome => outcome.2.toOption.any id) = true := by decide +kernel
  obtain ⟨⟨replacement, result⟩, inside, success⟩ := List.any_eq_true.mp succeeds
  obtain rfl : result = .ok true := by
    rcases result with _ | _ | _
    · cases success
    · cases success
    · rfl
  refine ⟨replacement, by decide +kernel, inside, ?_⟩
  have activated := run_activated knownConfig (rfl : (knownGeneration 1).client.isSome = true) knownMoves
    .complete
  exact (activated.2.1 replacement inside).2.2.2.2

end Runtime

end Sider.Connection

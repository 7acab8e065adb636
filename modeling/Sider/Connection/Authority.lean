/-
**A protected connection acts with authority.**

`Granted` is the authority behind one command: the connection's identity, proven valid under the leased
policy at the time of the check, and a grant of the command to its user. `Authorized` says what each effect
needs: a command handed to the transaction, the database or the hub needs a grant of its own, and a queue
that is submitted one for each of its commands. The identity is always that of the latest successful
authentication, and a connection without one has neither queue nor watches (`Guarded`). A notification
needs an identity that was valid when the round began (`Fresh`).

`run_authorized`: in every run of a protected connection, everything handed on is authorized.
-/

import Sider.Connection.Loop

namespace Sider.Connection

open Resp PubSub

variable {policy : ClientPolicy} {kept after : Local} {now : Int} {reconnected : Bool}
  {event : Event} {effect : Effect} {bytes : Nat}

/-! ### Authority -/

section Authority

variable (service : Service)

/-- The user of this identity may give the command under this name. -/
def Granted (identity : Option CredentialProof) (policy : ClientPolicy) (now : Int) (name : Bytes)
    (command : Command) : Prop :=
  ∃ proof, identity = some proof ∧ proof.valid service.primitives policy now = true ∧
    policy.authorize service.primitives.decode proof.username name command = .ok ()

/-- What an effect of a request needs, for a connection of this identity with this queue. -/
def Authorized (identity : Option CredentialProof) (opened : Option (List Command))
    (policy : ClientPolicy) (s : Surroundings) : Effect → Prop
  | .handle name command => Granted service identity policy s.authorized name command
  | .execute command | .hub command =>
    ∃ name, Granted service identity policy s.authorized name command
  | .submit commands _ => opened = some commands ∧
    (∃ name, Granted service identity policy s.authorized name .exec) ∧ ∀ command ∈ commands,
      Granted service identity policy s.authorized (Bytes.ascii (commandName command).text) command
  | .notify _ => False
  | .reply _ | .answer _ | .authenticated _ => True

end Authority

/-- A command goes to the transaction, to the database or to the hub. -/
def Effect.acts : Effect → Bool
  | .handle .. | .execute _ | .submit .. | .hub _ => true
  | .reply _ | .answer _ | .notify _ | .authenticated _ => false

/-- The proof of the latest successful authentication. -/
def latestProof (latest : Option CredentialProof) (effects : List Effect) : Option CredentialProof :=
  effects.foldl (fun latest effect =>
    match effect with
    | .authenticated proof => some proof
    | _ => latest) latest

/-- The identity is that of the latest authentication, and nothing is kept without one. A lease that is
held is a good one. -/
structure Guarded (good : Lease → Prop) (c : Local) (latest : Option CredentialProof) : Prop where
  proven : ∀ proof, c.identity = some proof → latest = some proof
  leased : ∀ lease notified, c.phase = .holding lease notified → ∃ held, lease = some held ∧ good held
  anonymous : c.identity = none → c.transaction = .empty

section Steps

variable {service : Service} {c : Local} {identity latest : Option CredentialProof} {lease : Lease}
  {s : Surroundings} {name : Bytes} {command : Command} {opened : Option (List Command)}
  {good later : Lease → Prop}

theorem permits_iff : c.permits service policy name command = true ↔
    ∃ proof, c.identity = some proof ∧
      policy.authorize service.primitives.decode proof.username name command = .ok () := by
  unfold Local.permits
  cases c.identity with
  | none => simp
  | some proof =>
    simp only [Option.any_some, Option.some.injEq, exists_eq_left']
    cases policy.authorize service.primitives.decode proof.username name command <;>
      simp [Except.toBool]

theorem Guarded.start : Guarded good .start none :=
  ⟨nofun, nofun, fun _ => rfl⟩

theorem Guarded.wait (guarded : Guarded good c latest) : Guarded later c.wait latest :=
  ⟨guarded.proven, nofun, guarded.anonymous⟩

theorem Guarded.reset (guarded : Guarded good c latest) : Guarded good c.reset latest :=
  ⟨nofun, guarded.leased, fun _ => rfl⟩

theorem Guarded.poison (guarded : Guarded good c latest) : Guarded good c.poison latest where
  proven := guarded.proven
  leased := guarded.leased
  anonymous := fun none_ => by
    unfold Local.poison
    rw [guarded.anonymous none_]
    rfl

/-- Every effect of a request is authorized, and what follows is guarded. -/
structure Obeys (good : Lease → Prop) (service : Service) (identity : Option CredentialProof)
    (opened : Option (List Command)) (policy : ClientPolicy) (s : Surroundings)
    (latest : Option CredentialProof) (stepped : Local.Stepped) : Prop where
  acts : ∀ effect ∈ stepped.2, Authorized service identity opened policy s effect
  next : ∀ after, stepped.1 = some after → Guarded good after (latestProof latest stepped.2)

theorem obeys_ended (policy : ClientPolicy) : Obeys good service identity opened policy s latest (none, []) :=
  ⟨List.forall_mem_nil _, fun _ => nofun⟩

/-- A reply of the connection itself. -/
theorem obeys_reply (policy : ClientPolicy) {next : Option Local} {frame : Frame}
    (guarded : ∀ after, next = some after → Guarded good after latest) :
    Obeys good service identity opened policy s latest (next, [.reply frame]) :=
  ⟨fun effect member => by rw [List.mem_singleton.mp member]; trivial, guarded⟩

theorem guarded_some (guarded : Guarded good kept latest) :
    ∀ after, some kept = some after → Guarded good after latest :=
  fun _ same => Option.some.inj same ▸ guarded

/-! ### Requests -/

/-- An authorized effect before others. -/
theorem Obeys.cons {stepped : Local.Stepped}
    (obeys : Obeys good service c.identity opened policy s latest stepped)
    (fine : Authorized service c.identity opened policy s effect)
    (silent : latestProof latest [effect] = latest) :
    Obeys good service c.identity opened policy s latest (stepped.1, effect :: stepped.2) := by
  refine ⟨fun other member => ?_, fun after same => ?_⟩
  · rcases List.mem_cons.mp member with rfl | later
    · exact fine
    · exact obeys.acts other later
  · have split : latestProof latest (effect :: stepped.2) =
        latestProof (latestProof latest [effect]) stepped.2 := rfl
    rw [split, silent]
    exact obeys.next after same

/-- The commands queued in a transaction that is open. -/
def Transaction.queued (t : Transaction) : Option (List Command) :=
  t.queue.map Queue.commands

/-- What the transaction hands on for a command. -/
def ActsFor (command : Command) (t : Transaction) : Except DbError Action → Prop
  | .ok (.execute given) => given = command
  | .ok (.exec commands _) => command = .exec ∧ t.queued = some commands
  | _ => True

/-- The transaction passes on the command it was given, and submits a queue at EXEC only. -/
theorem handle_actsFor (config : ConnectionConfig) (database : Database) (t : Transaction)
    (command : Command) (bytes : Nat) (subscribed : Bool) :
    ActsFor command t (t.handle config database command bytes subscribed).1 := by
  unfold Transaction.handle
  split_ifs
  · rfl
  · trivial
  · trivial
  · split
    · trivial
    · trivial
    · unfold Transaction.exec
      split
      · trivial
      · rename_i queue found
        split_ifs
        · trivial
        · trivial
        · exact ⟨rfl, by rw [Transaction.queued, found]; rfl⟩
    · show ActsFor _ t (Except.map .answer (t.watch config database _).1)
      cases (t.watch config database _).1 <;> trivial
    · trivial
    · rfl
    · trivial

section

variable (guarded : Guarded good c latest)

include guarded

theorem obeys_securityExpired (policy : ClientPolicy) :
    Obeys later service identity opened policy s latest (c.securityExpired s) := by
  unfold Local.securityExpired
  split_ifs
  · exact obeys_ended policy
  · exact obeys_reply policy (guarded_some guarded.reset.wait)
  · exact obeys_ended policy

/-- The round ends, or the connection does. -/
theorem guarded_unless {condition : Prop} [Decidable condition] (after : Local)
    (same : (if condition then some c.wait else none) = some after) :
    Guarded later after latest := by
  split_ifs at same
  exact Option.some.inj same ▸ guarded.wait

theorem dispatch_obeys
    (granted : Granted service c.identity lease.policy s.authorized name command) :
    Obeys later service c.identity opened lease.policy s latest (c.dispatch (some lease) s name command) := by
  have single : ∀ {next : Option Local} {effect : Effect},
      Authorized service c.identity opened lease.policy s effect → latestProof latest [effect] = latest →
      (∀ after, next = some after → Guarded later after latest) →
      Obeys later service c.identity opened lease.policy s latest (next, [effect]) := by
    intro next effect fine silent kept
    exact ⟨fun other member => List.mem_singleton.mp member ▸ fine, fun after same =>
      silent.symm ▸ kept after same⟩
  unfold Local.dispatch
  split
  · exact single ⟨name, granted⟩ rfl (guarded_some guarded.wait)
  · exact single ⟨name, granted⟩ rfl (guarded_unless guarded)
  by_cases subscriber : (s.stillSubscribed && decide (c.protocol = 2)) = true
  · rw [if_pos subscriber]
    split <;> exact obeys_reply _ (guarded_some guarded.wait)
  rw [if_neg subscriber]
  split
  · split_ifs
    · exact single ⟨name, granted⟩ rfl (guarded_some guarded.wait)
    · exact obeys_reply _ (guarded_some guarded.wait)
  · exact single ⟨name, granted⟩ rfl (guarded_unless guarded)
  · by_cases lapsed : ((some lease).isSome && s.lapsed) = true
    · rw [if_pos lapsed]
      exact (obeys_securityExpired guarded lease.policy).cons ⟨name, granted⟩ rfl
    · rw [if_neg lapsed]
      exact single ⟨name, granted⟩ rfl (guarded_unless guarded)

theorem submit_obeys {commands : List Command} {watched : List WatchToken}
    (queued : opened = some commands)
    (granted : Granted service c.identity lease.policy s.authorized name .exec) :
    Obeys later service c.identity opened lease.policy s latest
      (c.submit service (some lease) s commands watched) := by
  unfold Local.submit
  dsimp only [Option.any_some, Option.isSome_some, Bool.true_and]
  by_cases refused : (c.identity.isNone || commands.any fun command =>
      !c.permits service lease.policy (Bytes.ascii (commandName command).text) command) = true
  · rw [if_pos refused]
    exact obeys_reply _ (guarded_some guarded.wait)
  obtain ⟨proof, identity, valid, _⟩ := id granted
  have fine : Authorized service c.identity opened lease.policy s (.submit commands watched) := by
    refine ⟨queued, ⟨name, granted⟩, fun command member => ⟨proof, identity, valid, ?_⟩⟩
    simp only [Bool.or_eq_true, List.any_eq_true, not_or, not_exists, not_and, Bool.not_eq_true,
      Bool.not_eq_false'] at refused
    obtain ⟨user, known, allowed⟩ := permits_iff.mp (refused.2 command member)
    cases identity.symm.trans known
    exact allowed
  split_ifs with lapsed fails
  · exact (obeys_securityExpired guarded lease.policy).cons fine rfl
  · exact ⟨fun other member => List.mem_singleton.mp member ▸ fine, guarded_some guarded.wait⟩
  · exact ⟨fun other member => List.mem_singleton.mp member ▸ fine, fun _ => nofun⟩

end

section

variable (guarded : Guarded good c latest)

include guarded

theorem perform_obeys
    (granted : Granted service c.identity lease.policy s.authorized name command) :
    Obeys later service c.identity c.transaction.queued lease.policy s latest
      (c.perform service (some lease) s name command bytes) := by
  have handled : ∀ t : Transaction, Guarded good { c with transaction := t } latest := fun t =>
    ⟨guarded.proven, guarded.leased, fun none_ => by
      obtain ⟨proof, identity, _⟩ := granted
      rw [show c.identity = none from none_] at identity
      cases identity⟩
  have acts := handle_actsFor service.config (s.authorizedDatabase (some lease)) c.transaction command
    bytes (s.subscribed && decide (c.protocol = 2))
  unfold Local.perform
  refine Obeys.cons ?_ granted rfl
  revert acts
  rcases c.transaction.handle service.config (s.authorizedDatabase (some lease)) command bytes
    (s.subscribed && decide (c.protocol = 2)) with ⟨error | action, t⟩
  · intro _
    cases error with
    | securityExpired => exact obeys_securityExpired (handled t) lease.policy
    | _ => exact obeys_ended lease.policy
  · intro acts
    cases action with
    | answer answer =>
      exact ⟨fun effect member => by rw [List.mem_singleton.mp member]; trivial,
        guarded_some (handled t).wait⟩
    | exec commands watched =>
      obtain ⟨rfl, queued⟩ : command = .exec ∧ c.transaction.queued = some commands := acts
      exact submit_obeys (handled t) queued granted
    | execute given =>
      obtain rfl : given = command := acts
      exact dispatch_obeys (handled t) granted

theorem request_obeys :
    Obeys later service c.identity c.transaction.queued lease.policy s latest
      (c.request service (some lease) s name command bytes) := by
  unfold Local.request
  dsimp only
  by_cases admitted : (!s.admission) = true
  · rw [if_pos admitted]
    exact obeys_ended _
  rw [if_neg admitted]
  by_cases allowed : (c.validFor service lease.policy s.authorized &&
      c.permits service lease.policy name command) = true
  · rw [if_neg (by simp [allowed])]
    split_ifs
    · exact obeys_reply _ (guarded_some guarded.poison.wait)
    · refine perform_obeys guarded ?_
      obtain ⟨valid, permitted⟩ := Bool.and_eq_true_iff.mp allowed
      obtain ⟨proof, known, granted⟩ := permits_iff.mp permitted
      rw [Local.validFor, known, Option.any_some] at valid
      exact ⟨proof, known, valid, granted⟩
  · rw [if_pos (by rw [Bool.not_eq_true'] ; exact Bool.eq_false_iff.mpr allowed)]
    split_ifs
    · exact obeys_reply _ (guarded_some guarded.reset.wait)
    · exact obeys_ended _
    · exact obeys_reply _ (guarded_some guarded.poison.wait)

/-! ### Authentication -/

theorem verify_obeys (policy : ClientPolicy) (hello : Bool) (version : Option Nat) :
    Obeys good service identity opened policy s latest (c.verify service s hello version) := by
  unfold Local.verify
  split
  · exact obeys_reply _ (guarded_some ⟨guarded.proven, guarded.leased, guarded.anonymous⟩)
  · rename_i proof _
    by_cases reconnects : s.reconnected = true
    · rw [if_pos reconnects]
      have verified : Guarded good { c with
          identity := some proof
          everAuthenticated := true
          authenticationFailures := 0
          transaction := .empty
          protocol := version.getD c.protocol } (some proof) :=
        ⟨fun _ same => same, guarded.leased, fun _ => rfl⟩
      refine ⟨fun effect member => ?_, guarded_some verified⟩
      rcases List.mem_pair.mp member with rfl | rfl <;> trivial
    · rw [if_neg reconnects]
      refine ⟨fun effect member => ?_, fun _ => nofun⟩
      rw [List.mem_singleton.mp member]
      trivial

theorem authenticate_obeys (policy : ClientPolicy) (frame : Frame) :
    Obeys later service identity opened policy s latest (c.authenticate service s name frame) := by
  -- The round ends after the answer, unless the answer closes the connection.
  have ends : ∀ {answered : Local.Stepped} (_ : Obeys good service identity opened policy s latest answered)
      (closes : Local → Prop) [DecidablePred closes],
      Obeys later service identity opened policy s latest
        (answered.1.bind fun c => if closes c then none else some c.wait, answered.2) := by
    intro answered obeys closes _
    refine ⟨obeys.acts, fun after same => ?_⟩
    obtain ⟨kept, found, left⟩ := Option.bind_eq_some_iff.mp same
    split_ifs at left
    exact Option.some.inj left ▸ (obeys.next kept found).wait
  refine ends ?_ _
  by_cases active : c.transaction.active = true
  · rw [if_pos active]
    exact obeys_reply _ (guarded_some guarded.poison)
  · rw [if_neg active]
    split
    · exact obeys_reply _ (guarded_some guarded)
    · split_ifs
      · exact obeys_reply _ (guarded_some guarded)
      · exact obeys_reply _ (guarded_some ⟨guarded.proven, guarded.leased, guarded.anonymous⟩)
    · exact verify_obeys guarded policy _ _

end

/-! ### Frames -/

/-- An expired credential leaves no identity; one that is valid stays. -/
theorem expire_cases (expired : c.expire service (some policy) now reconnected = some kept) :
    kept = c.reset ∨ (kept = c ∧ c.lapsedFor service policy now = false) := by
  unfold Local.expire at expired
  split_ifs at expired with lapsed reconnects
  · exact .inl (Option.some.inj expired).symm
  · exact .inr ⟨(Option.some.inj expired).symm, Bool.eq_false_iff.mpr lapsed⟩

theorem Guarded.expired (guarded : Guarded good c latest)
    (expired : c.expire service (some policy) now reconnected = some kept) :
    Guarded good kept latest := by
  rcases expire_cases expired with rfl | ⟨rfl, _⟩
  · exact guarded.reset
  · exact guarded

/-- A frame acts with the identity it finds, and with none if that one is expired. It ends the round, so
that what follows holds no lease, good or not. -/
theorem frame_obeys (isProtected : service.security.isSome = true) (guarded : Guarded good c latest)
    (frame : Frame) :
    ∃ identity, (identity = none ∨
        identity = c.identity ∧ c.lapsedFor service lease.policy s.decoded = false) ∧
      Obeys later service identity c.transaction.queued lease.policy s latest
        (c.frame service (some lease) frame s) := by
  unfold Local.frame
  dsimp only [Option.map_some]
  cases expired : c.expire service (some lease.policy) s.decoded s.reconnected with
  | none => exact ⟨none, .inl rfl, obeys_ended _⟩
  | some kept =>
    have guarded := guarded.expired expired
    dsimp only
    rw [if_neg (by simp [Option.isSome_iff_ne_none.mp isProtected])]
    by_cases control : (service.security.isSome &&
        (Bytes.eqIgnoreAsciiCase (requestName frame) (Bytes.ascii "auth") ||
          Bytes.eqIgnoreAsciiCase (requestName frame) (Bytes.ascii "hello"))) = true
    · rw [if_pos control]
      exact ⟨none, .inl rfl, authenticate_obeys guarded _ _⟩
    rw [if_neg control]
    by_cases anonymous : (service.security.isSome && kept.identity.isNone) = true
    · rw [if_pos anonymous]
      exact ⟨none, .inl rfl, obeys_reply _ (guarded_some guarded.wait)⟩
    -- Somebody is known here, so the credential was not expired and nothing was reset.
    rcases expire_cases expired with rfl | ⟨rfl, fresh⟩
    · rw [isProtected] at anonymous
      exact absurd rfl anonymous
    refine ⟨kept.identity, .inr ⟨rfl, fresh⟩, ?_⟩
    split_ifs
    · exact obeys_reply _ (guarded_some guarded.poison.wait)
    · split
      · refine obeys_reply _ fun after same => ?_
        split_ifs at same
        exact Option.some.inj same ▸ guarded.poison.wait
      · exact request_obeys guarded

theorem authorized_anonymous (authorized : Authorized service none opened policy s effect) :
    effect.acts = false := by
  cases effect with
  | reply | answer | notify | authenticated => rfl
  | handle => obtain ⟨_, missing, _⟩ := authorized; cases missing
  | execute | hub => obtain ⟨_, _, missing, _⟩ := authorized; cases missing
  | submit => obtain ⟨_, ⟨_, _, missing, _⟩, _⟩ := authorized; cases missing

/-! ### The other events -/

theorem Guarded.update {digest : Bytes} (guarded : Guarded good c latest)
    (updated : c.update service policy digest now reconnected = some after) :
    Guarded good after latest := by
  obtain ⟨_, _, ⟨_, rfl⟩ | ⟨_, _, ⟨_, rfl⟩ | ⟨proof, known, rfl⟩⟩⟩ := Local.update_eq_some updated
  · exact guarded.reset
  · exact guarded
  · exact ⟨guarded.proven, guarded.leased, fun missing => by
      rw [show c.identity = none from missing] at known
      cases known⟩

/-- What a step of a protected connection may do: what acts is a frame under a lease, and what is notified
is a message of a channel that the user may subscribe to. -/
structure Lawful (good : Lease → Prop) (service : Service) (c : Local) (latest : Option CredentialProof)
    (event : Event) : Prop where
  acts : ∀ effect ∈ (c.step service event).2, effect.acts = true →
    ∃ lease notified frame s, c.phase = .holding (some lease) notified ∧ event = .frame frame s ∧
      c.lapsedFor service lease.policy s.decoded = false ∧
      Authorized service c.identity c.transaction.queued lease.policy s effect
  notifies : ∀ message, .notify message ∈ (c.step service event).2 →
    ∃ lease proof, c.phase = .holding (some lease) false ∧ c.identity = some proof ∧
      lease.policy.authorize service.primitives.decode proof.username (Bytes.ascii "SUBSCRIBE")
        (.subscribe [message.channel]) = .ok ()
  next : ∀ after, (c.step service event).1 = some after →
    Guarded good after (latestProof latest (c.step service event).2)

/-- Nothing acts for a connection without an identity. -/
theorem Lawful.anonymous (lawful : Lawful good service c latest event) (unknown : c.identity = none) :
    ∀ effect ∈ (c.step service event).2, effect.acts = false := by
  refine fun effect member => Bool.eq_false_iff.mpr fun acts => ?_
  obtain ⟨_, _, _, _, _, _, _, authorized⟩ := lawful.acts effect member acts
  rw [unknown] at authorized
  rw [authorized_anonymous authorized] at acts
  cases acts

/-- A step that hands nothing on. -/
theorem lawful_silent (silent : (c.step service event).2 = [])
    (next : ∀ after, (c.step service event).1 = some after → Guarded good after latest) :
    Lawful good service c latest event := by
  refine ⟨fun effect member => ?_, fun message member => ?_, fun after same => ?_⟩
  · rw [silent] at member
    cases member
  · rw [silent] at member
    cases member
  · rw [silent]
    exact next after same

/-- A step that changes nothing. -/
theorem lawful_idle (idle : c.step service event = (some c, [])) (guarded : Guarded good c latest) :
    Lawful good service c latest event := by
  refine lawful_silent (by rw [idle]) fun after same => ?_
  rw [idle] at same
  exact Option.some.inj same ▸ guarded

theorem lawful_message (guarded : Guarded good c latest) (message : Message) :
    Lawful good service c latest (.message message) := by
  cases phase : c.phase with
  | waiting => exact lawful_idle (by simp only [Local.step, phase]) guarded
  | holding lease notified =>
    obtain ⟨lease, rfl, fine⟩ := guarded.leased lease notified phase
    cases notified with
    | true => exact lawful_idle (by simp only [Local.step, phase]) guarded
    | false =>
      have stepped : c.step service (.message message) = c.deliver service (some lease) message := by
        simp only [Local.step, phase]
      by_cases permitted : c.permits service lease.policy (Bytes.ascii "SUBSCRIBE")
          (.subscribe [message.channel]) = true
      · rw [Local.deliver, Option.all_some, if_pos permitted] at stepped
        refine ⟨fun effect member acts => ?_, fun other member => ?_, fun after same => ?_⟩
        · rw [stepped] at member
          rw [List.mem_singleton.mp member] at acts
          cases acts
        · rw [stepped] at member
          obtain rfl : other = message := Effect.notify.inj (List.mem_singleton.mp member)
          obtain ⟨proof, known, granted⟩ := permits_iff.mp permitted
          exact ⟨lease, proof, phase, known, granted⟩
        · rw [stepped] at same ⊢
          cases same
          exact ⟨guarded.proven, fun _ _ same => by cases same; exact ⟨lease, rfl, fine⟩, guarded.anonymous⟩
      · rw [Local.deliver, Option.all_some, if_neg permitted] at stepped
        refine lawful_silent (by rw [stepped]) fun after same => ?_
        rw [stepped] at same
        exact Option.some.inj same ▸ guarded.wait

section

variable (isProtected : service.security.isSome = true)

include isProtected

theorem Guarded.acquire (fine : good lease) {late : Bool} (guarded : Guarded good c latest)
    (acquired : c.acquire service lease now late reconnected = some after) :
    Guarded good after latest := by
  unfold Local.acquire at acquired
  split at acquired
  · rename_i open_
    rw [open_] at isProtected
    cases isProtected
  · split_ifs at acquired
    obtain ⟨kept, expired, rfl⟩ := Option.map_eq_some_iff.mp acquired
    have guarded := guarded.expired expired
    exact ⟨guarded.proven, fun _ _ same => by cases same; exact ⟨lease, rfl, fine⟩, guarded.anonymous⟩

theorem lawful_frame (guarded : Guarded good c latest) (frame : Frame) (s : Surroundings) :
    Lawful good service c latest (.frame frame s) := by
  cases phase : c.phase with
  | waiting => exact lawful_idle (by simp only [Local.step, phase]) guarded
  | holding lease notified =>
    obtain ⟨lease, rfl, fine⟩ := guarded.leased lease notified phase
    have stepped : c.step service (.frame frame s) = c.frame service (some lease) frame s := by
      simp only [Local.step, phase]
    obtain ⟨identity, known, obeys⟩ : ∃ identity, (identity = none ∨
        identity = c.identity ∧ c.lapsedFor service lease.policy s.decoded = false) ∧
        Obeys good service identity c.transaction.queued lease.policy s latest
          (c.frame service (some lease) frame s) := frame_obeys isProtected guarded frame
    rw [← stepped] at obeys
    refine ⟨fun effect member acts => ?_, fun message member => ?_, obeys.next⟩
    · have authorized := obeys.acts effect member
      rcases known with rfl | ⟨rfl, fresh⟩
      · rw [authorized_anonymous authorized] at acts
        cases acts
      · exact ⟨lease, notified, frame, s, phase, rfl, fresh, authorized⟩
    · exact (obeys.acts _ member).elim

theorem step_lawful (guarded : Guarded good c latest) (event : Event)
    (fine : ∀ lease now late reconnected,
      event = .lease lease now late reconnected → good lease) :
    Lawful good service c latest event := by
  cases event with
  | update policy digest now reconnected =>
    refine lawful_silent (by unfold Local.step; dsimp only; split <;> rfl) fun after same => ?_
    unfold Local.step at same
    dsimp only at same
    split at same
    · exact guarded.update same
    · exact Option.some.inj same ▸ guarded
  | lease lease now late reconnected =>
    refine lawful_silent (by unfold Local.step; dsimp only; split <;> rfl) fun after same => ?_
    unfold Local.step at same
    dsimp only at same
    split at same
    · exact guarded.acquire isProtected (fine _ _ _ _ rfl) same
    · exact Option.some.inj same ▸ guarded
  | message message => exact lawful_message guarded message
  | frame frame s => exact lawful_frame isProtected guarded frame s
  | idle => exact lawful_silent rfl fun after same => Option.some.inj same ▸ guarded.wait
  | close => exact lawful_silent rfl fun _ => nofun

end

/-! ### Runs -/

theorem latestProof_append (before effects : List Effect) :
    latestProof latest (before ++ effects) = latestProof (latestProof latest before) effects :=
  List.foldl_append

/-- A request ends the round, and so does the lack of one. -/
def Event.endsRound : Event → Bool
  | .frame .. | .idle => true
  | _ => false

/-- Whoever is known in a round had a valid credential when its lease was taken. -/
def Fresh (service : Service) (c : Local) (transcript : List (Event × List Effect)) : Prop :=
  ∀ lease notified proof, c.phase = .holding (some lease) notified → c.identity = some proof →
    ∃ earlier now late reconnected since,
      transcript = earlier ++ (.lease lease now late reconnected, []) :: since ∧
      (∀ entry ∈ since, entry.1.endsRound = false) ∧
      proof.valid service.primitives lease.policy now = true

section

variable {before : List (Event × List Effect)} {effects : List Effect}

theorem fresh_waiting (waiting : after.phase = .waiting) : Fresh service after before := by
  intro lease notified proof phase
  rw [waiting] at phase
  cases phase

/-- The round goes on. -/
theorem Fresh.append (fresh : Fresh service c before) (goesOn : event.endsRound = false) :
    Fresh service c (before ++ [(event, effects)]) := by
  intro lease notified proof phase known
  obtain ⟨earlier, now, late, reconnected, since, rfl, quiet, valid⟩ := fresh lease notified proof phase known
  refine ⟨earlier, now, late, reconnected, since ++ [(event, effects)], by simp,
    fun entry inside => ?_, valid⟩
  rcases List.mem_append.mp inside with old | new
  · exact quiet entry old
  · rw [List.mem_singleton.mp new, goesOn]

variable (isProtected : service.security.isSome = true) (guarded : Guarded good c latest)

include isProtected guarded

theorem frame_waits {frame : Frame} (left : (c.frame service (some lease) frame s).1 = some after) :
    after.phase = .waiting := by
  obtain ⟨_, _, obeys⟩ : ∃ identity, _ ∧ Obeys (fun _ => False) service identity c.transaction.queued
      lease.policy s latest (c.frame service (some lease) frame s) := frame_obeys isProtected guarded frame
  cases held : after.phase with
  | waiting => rfl
  | holding lease notified =>
    obtain ⟨_, _, none⟩ := (obeys.next after left).leased lease notified held
    exact none.elim

/-- Only a lease begins a round, and it is taken with a valid credential or none. -/
theorem step_fresh (fresh : Fresh service c before)
    (stepped : c.step service event = (some after, effects)) :
    Fresh service after (before ++ [(event, effects)]) := by
  cases event with
  | update policy digest now reconnected =>
    unfold Local.step at stepped
    dsimp only at stepped
    split at stepped
    · rename_i waiting _
      exact fresh_waiting ((Local.update_phase (Prod.mk.inj stepped).1).trans waiting)
    · cases stepped
      exact fresh.append rfl
  | lease lease now late reconnected =>
    unfold Local.step at stepped
    dsimp only at stepped
    split at stepped
    · obtain ⟨acquired, rfl⟩ := Prod.mk.inj stepped
      unfold Local.acquire at acquired
      split at acquired
      · rename_i open_
        rw [open_] at isProtected
        cases isProtected
      · split_ifs at acquired
        obtain ⟨kept, expired, rfl⟩ := Option.map_eq_some_iff.mp acquired
        rintro _ _ proof ⟨⟩ known
        refine ⟨before, now, late, reconnected, [], rfl, List.forall_mem_nil _, ?_⟩
        -- A credential that had lapsed left no identity.
        rcases expire_cases expired with rfl | ⟨rfl, valid⟩
        · cases known
        · rw [Local.lapsedFor, show kept.identity = some proof from known, Option.any_some,
            Bool.not_eq_false'] at valid
          exact valid
    · cases stepped
      exact fresh.append rfl
  | message message =>
    unfold Local.step at stepped
    dsimp only at stepped
    split at stepped
    · rename_i lease phase
      unfold Local.deliver at stepped
      split_ifs at stepped
      · cases stepped
        rintro lease _ proof ⟨⟩ known
        exact fresh.append rfl lease false proof phase known
      · cases stepped
        exact fresh_waiting rfl
    · cases stepped
      exact fresh.append rfl
  | frame frame s =>
    refine fresh_waiting ?_
    cases phase : c.phase with
    | waiting =>
      simp only [Local.step, phase] at stepped
      cases stepped
      exact phase
    | holding lease notified =>
      obtain ⟨lease, rfl, _⟩ := guarded.leased lease notified phase
      have same : c.step service (.frame frame s) = c.frame service (some lease) frame s := by
        simp only [Local.step, phase]
      exact frame_waits isProtected guarded (congrArg Prod.fst (same.symm.trans stepped))
  | idle =>
    cases stepped
    exact fresh_waiting rfl
  | close => cases stepped

end

theorem run_guarded (isProtected : service.security.isSome = true) {events : List Event}
    {transcript : List (Event × List Effect)}
    (ran : Local.start.run service events = (some c, transcript)) :
    Guarded (fun _ => True) c (latestProof none (transcript.flatMap Prod.snd)) ∧
      Fresh service c transcript := by
  refine Local.run_invariant (fun c before =>
      Guarded (fun _ => True) c (latestProof none (before.flatMap Prod.snd)) ∧ Fresh service c before)
    (fun c before event after effects holds stepped => ⟨?_, step_fresh isProtected holds.1 holds.2 stepped⟩)
    [] ⟨.start, fresh_waiting rfl⟩ ran
  have next := (step_lawful isProtected holds.1 event fun _ _ _ _ _ => trivial).next
  rw [stepped] at next
  rw [List.flatMap_append, latestProof_append, List.flatMap_singleton]
  exact next after rfl

/-- **A protected connection acts with authority.** In every run, what goes to the transaction, to the
database or to the hub is of a frame under a lease, by the identity of the latest authentication, valid and
granted under the leased policy at that step; a queue that is submitted is the one that was opened, with a
grant for each of its commands. A message is passed on to a user who is granted its channel and whose
credential was valid when the round began. Nothing acts and nothing is kept without an identity, and an
identity comes by authentication only. -/
theorem run_authorized (isProtected : service.security.isSome = true) {events : List Event}
    {transcript : List (Event × List Effect)}
    (ran : Local.start.run service events = (some c, transcript)) (event : Event) :
    let latest := latestProof none (transcript.flatMap Prod.snd)
    (∀ effect ∈ (c.step service event).2, effect.acts = true →
      ∃ lease notified frame s, c.phase = .holding (some lease) notified ∧ event = .frame frame s ∧
        c.lapsedFor service lease.policy s.decoded = false ∧ c.identity = latest ∧
        Authorized service latest c.transaction.queued lease.policy s effect) ∧
    (∀ message, .notify message ∈ (c.step service event).2 →
      ∃ lease proof, c.phase = .holding (some lease) false ∧ c.identity = some proof ∧
        latest = some proof ∧ lease.policy.authorize service.primitives.decode proof.username
          (Bytes.ascii "SUBSCRIBE") (.subscribe [message.channel]) = .ok () ∧
        ∃ earlier now late reconnected since,
          transcript = earlier ++ (.lease lease now late reconnected, []) :: since ∧
          (∀ entry ∈ since, entry.1.endsRound = false) ∧
          proof.valid service.primitives lease.policy now = true) ∧
    (c.identity = none → c.transaction = .empty ∧
      ∀ effect ∈ (c.step service event).2, effect.acts = false) ∧
    (∀ after proof, (c.step service event).1 = some after → after.identity = some proof →
      latestProof c.identity (c.step service event).2 = some proof) := by
  obtain ⟨guarded, fresh⟩ := run_guarded isProtected ran
  have lawful := step_lawful isProtected guarded event fun _ _ _ _ _ => trivial
  refine ⟨fun effect member acts => ?_, fun message member => ?_, fun unknown => ?_,
    fun after proof same known => ?_⟩
  · obtain ⟨lease, notified, frame, s, phase, rfl, fresh, authorized⟩ := lawful.acts effect member acts
    rcases known : c.identity with _ | proof
    · rw [known] at authorized
      rw [authorized_anonymous authorized] at acts
      cases acts
    · have proven := guarded.proven proof known
      exact ⟨lease, notified, frame, s, phase, rfl, fresh, proven.symm, proven ▸ known ▸ authorized⟩
  · obtain ⟨lease, proof, phase, known, granted⟩ := lawful.notifies message member
    exact ⟨lease, proof, phase, known, guarded.proven proof known, granted,
      fresh lease false proof phase known⟩
  · exact ⟨guarded.anonymous unknown, lawful.anonymous unknown⟩
  · have own : Guarded (fun _ => True) c c.identity :=
      ⟨fun _ same => same, guarded.leased, guarded.anonymous⟩
    have next := (step_lawful isProtected own event fun _ _ _ _ _ => trivial).next
    exact (next after same).proven proof known

end Steps

/-! A user authenticates, watches a key, opens a queue and fills it. -/

def knownUser : User where
  name := "u"
  credentials := [⟨"v", "0", "9"⟩]
  commands := [.watch, .multi, .incr, .exec]
  readKeys := ⟨[], [], true⟩
  writeKeys := ⟨[], [], true⟩
  publishChannels := ⟨[], [], true⟩
  subscribeChannels := ⟨[], [], true⟩
  infoSections := []

def knownProof : CredentialProof := ⟨"u", Bytes.ascii "v"⟩

def knownService : Service where
  config := ⟨.pair, false, 4, 4, 1024⟩
  primitives := ⟨fun _ => none, fun text => if text = "0" then some 0 else some 9, Bytes.ascii⟩
  parser := {
    parse := fun frame =>
      if requestName frame = Bytes.ascii "watch" then .ok (.watch [Bytes.ascii "k"])
      else if requestName frame = Bytes.ascii "multi" then .ok .multi
      else if requestName frame = Bytes.ascii "incr" then .ok (.incr (Bytes.ascii "k"))
      else .ok .exec
    validInfoName := fun _ => false }
  security := some []
  version := "0"
  connectionId := 0

def knownFrame (words : List String) : Frame :=
  arrayFrame (words.map fun word => bulkFrame (Bytes.ascii word))

def knownSurroundings : Surroundings :=
  { sampleSurroundings with decoded := 1, authorized := 1, verified := .ok knownProof }

/-- The requests that fill the queue. -/
def knownRequests : List (List String) := [["AUTH", "u", "p"], ["WATCH"], ["MULTI"], ["INCR"]]

def knownRound (words : List String) : List Event :=
  [.lease ⟨⟨[knownUser]⟩, [], true⟩ 1 false true, .frame (knownFrame words) knownSurroundings]

def knownEvents : List Event :=
  knownRequests.flatMap knownRound ++ (knownRound ["EXEC"]).take 1

def submits : Effect → Bool
  | .submit .. => true
  | _ => false

theorem run_authorized_known : ∃ c transcript event,
    Local.start.run knownService knownEvents = (some c, transcript) ∧
      ∃ effect ∈ (c.step knownService event).2, submits effect = true ∧
        ∃ lease notified frame s, c.phase = .holding (some lease) notified ∧ event = .frame frame s ∧
          c.lapsedFor knownService lease.policy s.decoded = false ∧
          c.identity = latestProof none (transcript.flatMap Prod.snd) ∧
          Authorized knownService (latestProof none (transcript.flatMap Prod.snd))
            c.transaction.queued lease.policy s effect := by
  have goes : ((Local.start.run knownService knownEvents).1.any fun c =>
      (knownRound ["EXEC"]).any fun event => (c.step knownService event).2.any submits) = true := by
    decide +kernel
  obtain ⟨c, last⟩ : ∃ c, (Local.start.run knownService knownEvents).1 = some c :=
    Option.isSome_iff_exists.mp (by decide +kernel)
  rw [last, Option.any_some] at goes
  obtain ⟨event, _, found⟩ := List.any_eq_true.mp goes
  obtain ⟨effect, member, submitted⟩ := List.any_eq_true.mp found
  have ran : Local.start.run knownService knownEvents = (some c, _) := Prod.ext last rfl
  have acts : effect.acts = true := by cases effect <;> first | rfl | cases submitted
  exact ⟨c, _, event, ran, effect, member, submitted, (run_authorized rfl ran event).1 effect member acts⟩

end Sider.Connection

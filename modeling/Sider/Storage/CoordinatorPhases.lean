/-
**The phases of the coordinated operations.**

`SameData` compares two stores apart from their watch registries. `Control.inert` marks the controls
that an owner without tentative state answers with no effect, and a channel is `Quiet` when its owner
has none and only inert controls wait. The phases of the protocol are triples over what holds of every
channel:

* preflight keeps every channel quiet, and every store;
* preparation keeps every store; if it returns every channel is quiet again, and if it stops the
  channels of the participants may not be, until the abort of each is answered;
* application leaves each participant's store with its own prepared result.

`executeCoordinated_triple` and `watchCoordinated_triple` put them together.
-/

import Sider.Storage.Coordinator
import Sider.Storage.Run

namespace Sider

open FailingProgram Store

variable {p : Prepared} {sent : Control} {o : Owner} {each failed : Nat → Channel → Prop}
  {mode : Mode} {s : System} {prepared : List (Nat × List Bytes × Prepared)}
  {log : List ResolvedBatch} {shard : Nat} {base : Nat → Store}
  {done owners : List (Nat × Prepared)} {gate : Admission} {c : Channel} {busy later : Nat → Prop}
  {ι : Type}

/-! ### Stores apart from their watches -/

namespace Store

variable {s t u : Store}

/-- The stores differ at most in their watch registry and the flag of a failed assertion. -/
def SameData (s t : Store) : Prop :=
  t = { s with watches := t.watches, fault := t.fault }

theorem SameData.refl (s : Store) : SameData s s := rfl

theorem SameData.trans (first : SameData s t) (second : SameData t u) : SameData s u := by
  unfold SameData at *
  rw [second, first]

theorem sameData_foldl {step : Store → ι → Store}
    (keeps : ∀ {s t : Store}, SameData s t → ∀ item, SameData (step s item) (step t item))
    (items : List ι) (same : SameData s t) :
    SameData (items.foldl step s) (items.foldl step t) := by
  induction items generalizing s t with
  | nil => exact same
  | cons item rest ih => exact ih (keeps same item)

theorem sameData_watch (s : Store) (keys : List Bytes) : SameData s (s.watch keys).2 := by
  rw [SameData, watch_store]

section

variable (same : SameData s t)

include same

theorem SameData.symm : SameData t s := by
  unfold SameData at *
  rw [same]

theorem sameData_removed (key : Bytes) : SameData (s.removed key) (t.removed key) := by
  have values : t.values = s.values := by rw [same]
  unfold removed
  rw [values]
  cases s.values.get? key with
  | none => exact same
  | some entry =>
    rw [same]
    rfl

theorem sameData_addEntry (key : Bytes) (image : Image) :
    SameData (s.addEntry key image) (t.addEntry key image) := by
  rw [same]
  rfl

theorem sameData_watches (left right : Registry) :
    SameData { s with watches := left } { t with watches := right } := by
  unfold SameData at *
  rw [same]

theorem sameData_putEntry (entry : Bytes × Option Image) :
    SameData (s.putEntry entry) (t.putEntry entry) := by
  unfold putEntry
  cases entry.2 with
  | none => exact same
  | some image =>
    exact sameData_addEntry (sameData_removed (sameData_watches same _ _) _) _ _

/-- Applying a result to stores with the same data. -/
theorem SameData.apply (p : Prepared) : SameData (s.apply p) (t.apply p) := by
  have started : SameData (s.started p) (t.started p) := by
    unfold SameData at *
    rw [same]
  exact sameData_foldl sameData_putEntry _ (sameData_foldl
    (fun same key => sameData_removed (sameData_watches same _ _) key) _ started)

end

/-- A result without entries changes no data. -/
theorem sameData_apply_nil (s : Store) (empty : p.entries = []) : SameData s (s.apply p) := by
  rw [Store.apply, empty]
  rfl

end Store

/-! ### Inert controls -/

/-- Without tentative state, the control has no effect on the data of an owner. -/
def Control.inert : Control → Bool
  | .begin .. | .apply .. => false
  | .applyWatch _ prepared _ => prepared.entries.isEmpty
  | _ => true

/-- The control has no effect on the data of an owner, whatever its tentative state. -/
def Control.tentative : Control → Bool
  | .apply .. | .applyWatch .. => false
  | _ => true

namespace Owner

/-- Only `apply` and `applyWatch` reach the store. -/
theorem tentative_step (o : Owner) (tentative : sent.tentative) :
    SameData o.store (o.coordinationControl sent).2.store := by
  cases sent with
  | apply | applyWatch => cases tentative
  | probe | clock | abort => exact SameData.refl _
  | checkWatches tokens time => exact sameData_watches (SameData.refl _) _ _
  | prepareWatch mode keys =>
    rw [coordinationControl]
    split_ifs <;> exact SameData.refl _
  | begin mode keys time =>
    rw [coordinationControl]
    split_ifs <;> exact SameData.refl _
  | candidate | accept | sealOwner =>
    rw [coordinationControl]
    cases o.coordinated <;> exact SameData.refl _

theorem inert_step (idle : o.coordinated = none) (inert : sent.inert) :
    (o.coordinationControl sent).2.coordinated = none ∧
      SameData o.store (o.coordinationControl sent).2.store := by
  cases sent with
  | apply | begin => cases inert
  | probe | clock => exact ⟨idle, SameData.refl _⟩
  | abort => exact ⟨rfl, SameData.refl _⟩
  | checkWatches tokens time => exact ⟨idle, sameData_watches (SameData.refl _) _ _⟩
  | prepareWatch mode keys =>
    rw [coordinationControl]
    split_ifs <;> exact ⟨idle, SameData.refl _⟩
  | candidate | accept | sealOwner =>
    rw [coordinationControl, idle]
    exact ⟨idle, SameData.refl _⟩
  | applyWatch mode prepared keys =>
    rw [coordinationControl]
    split_ifs
    · refine ⟨idle, ?_⟩
      have applied := sameData_apply_nil o.store (List.isEmpty_iff.mp inert)
      exact applied.trans (sameData_watch (o.store.apply prepared) keys)
    · exact ⟨idle, SameData.refl _⟩

theorem handleAll_append (o : Owner) (first second : List Control) :
    o.handleAll (first ++ second) = (o.handleAll first).handleAll second :=
  List.foldl_append

theorem handleAll_inert (idle : o.coordinated = none) {controls : List Control}
    (inert : ∀ sent ∈ controls, sent.inert) :
    (o.handleAll controls).coordinated = none ∧ SameData o.store (o.handleAll controls).store := by
  induction controls generalizing o with
  | nil => exact ⟨idle, SameData.refl _⟩
  | cons sent rest ih =>
    obtain ⟨still, same⟩ := inert_step idle (inert sent List.mem_cons_self)
    obtain ⟨final, later⟩ := ih still fun other member => inert other (List.mem_cons_of_mem _ member)
    exact ⟨final, same.trans later⟩

end Owner

namespace Channel

/-- The owner has no tentative state and only inert controls wait for it. -/
structure Quiet (c : Channel) : Prop where
  idle : c.owner.coordinated = none
  inert : ∀ sent ∈ c.queue, sent.inert

theorem Quiet.settled (quiet : c.Quiet) :
    c.settled.coordinated = none ∧ SameData c.owner.store c.settled.store :=
  Owner.handleAll_inert quiet.idle quiet.inert

theorem settled_advance (c : Channel) (n : Nat) : (c.advance n).settled = c.settled := by
  show (c.owner.handleAll (c.queue.take n)).handleAll (c.queue.drop n) = _
  rw [← Owner.handleAll_append, List.take_append_drop]
  rfl

theorem Quiet.advance (quiet : c.Quiet) (n : Nat) : (c.advance n).Quiet :=
  ⟨(Owner.handleAll_inert quiet.idle
      fun sent member => quiet.inert sent (List.mem_of_mem_take member)).1,
    fun sent member => quiet.inert sent (List.mem_of_mem_drop member)⟩

/-- Queue a control behind the others. -/
def push (c : Channel) (sent : Control) : Channel := ⟨c.owner, c.queue ++ [sent]⟩

theorem settled_push (c : Channel) (sent : Control) :
    (c.push sent).settled = (c.settled.coordinationControl sent).2 :=
  Owner.handleAll_append _ _ _

theorem Quiet.push (quiet : c.Quiet) (inert : sent.inert) : (c.push sent).Quiet := by
  refine ⟨quiet.idle, fun other member => ?_⟩
  rcases List.mem_append.mp member with inside | last
  · exact quiet.inert other inside
  · exact List.mem_singleton.mp last ▸ inert

/-- An owner that has answered everything. -/
theorem quiet_answered (idle : o.coordinated = none) : Quiet ⟨o, []⟩ :=
  ⟨idle, fun _ => nofun⟩

end Channel

/-! ### What holds of every channel -/

/-- The log and admission are as given, and each channel satisfies its predicate. -/
def Holds (log : List ResolvedBatch) (gate : Admission) (each : Nat → Channel → Prop) (s : System) : Prop :=
  s.log = log ∧ s.gate = gate ∧ ∀ shard, each shard (s.channels shard)

section Controls

variable {each after : Nat → Channel → Prop} {s : System}

theorem Holds.weaken (holds : Holds log gate each s) (le : ∀ i c, each i c → after i c) :
    Holds log gate after s :=
  ⟨holds.1, holds.2.1, fun i => le i _ (holds.2.2 i)⟩

theorem Holds.withChannel (holds : Holds log gate each s) {channel : Channel}
    (own : after shard channel) (others : ∀ i c, i ≠ shard → each i c → after i c) :
    Holds log gate after ({ s with fates := s.fates.tail }.withChannel shard channel) := by
  refine ⟨holds.1, holds.2.1, fun i => ?_⟩
  show after i (if i = shard then channel else s.channels i)
  split_ifs with same
  · exact same ▸ own
  · exact others i _ same (holds.2.2 i)

/-- What a control needs: how its answer and its silence change the channel it is sent to. -/
structure Sends (each after failed : Nat → Channel → Prop) (shard : Nat) (sent : Control) : Prop where
  answered : ∀ c, each shard c → after shard ⟨(c.settled.coordinationControl sent).2, []⟩
  queued : ∀ c n, each shard c → failed shard ((c.push sent).advance n)
  others : ∀ i c, i ≠ shard → each i c → after i c
  stopped : ∀ i c, each i c → failed i c
  thrown : ∀ i c, after i c → failed i c

/-- The value is read out of the answer of the settled owner. -/
structure Answered {α : Type} (each : Nat → Channel → Prop) (read : Answer → Except DbError α) (shard : Nat)
    (sent : Control) (value : α) (t : System) (c : Channel) : Prop where
  before : each shard c
  after : t.channels shard = ⟨(c.settled.coordinationControl sent).2, []⟩
  answer : read (c.settled.coordinationControl sent).1 = .ok value

section Ask

variable {α : Type} {read : Answer → Except DbError α} (sends : Sends each after failed shard sent)

include sends

/-- **A control is answered, refused or not answered in time.** -/
theorem ask_triple :
    Triple (Holds log gate each) (CoordM.ask read shard sent)
      (fun value t => Holds log gate after t ∧ ∃ c, Answered each read shard sent value t c)
      (Holds log gate failed) := by
  have answered : Triple (Holds log gate each) (CoordM.control shard sent)
      (fun answer t => Holds log gate after t ∧ ∃ c, each shard c ∧
        t.channels shard = ⟨(c.settled.coordinationControl sent).2, []⟩ ∧
        (c.settled.coordinationControl sent).1 = answer)
      (Holds log gate failed) := by
    intro s holds
    show Ends _ _ (CoordM.control shard sent s)
    unfold CoordM.control
    cases s.fates.headD .answered with
    | answered =>
      exact ⟨holds.withChannel (sends.answered _ (holds.2.2 shard)) sends.others,
        s.channels shard, holds.2.2 shard, if_pos rfl, rfl⟩
    | refused error => exact holds.weaken sends.stopped
    | silent handled error =>
      exact holds.withChannel (sends.queued _ handled (holds.2.2 shard))
        fun i c _ own => sends.stopped i c own
  refine Triple.bind answered fun answer => ?_
  cases value : read answer with
  | error error => exact Triple.throw fun t holds => holds.1.weaken sends.thrown
  | ok value =>
    refine Triple.pure fun t => ?_
    rintro ⟨holds, c, before, after, rfl⟩
    exact ⟨holds, c, before, after, value⟩

theorem ask_keeps :
    Triple (Holds log gate each) (CoordM.ask read shard sent) (fun _ => Holds log gate after)
      (Holds log gate failed) :=
  (ask_triple sends).after fun _ _ holds => holds.1

end Ask

end Controls

/-! ### The store of every owner is kept -/

/-- The channel's store is that of `base`, and unless the shard is busy the channel is quiet. -/
structure Loose (base : Nat → Store) (busy : Nat → Prop) (shard : Nat) (c : Channel) : Prop where
  same : SameData (base shard) c.settled.store
  quiet : ¬ busy shard → c.Quiet

section Loose

theorem Loose.mono (loose : Loose base busy shard c) (le : busy shard → later shard) :
    Loose base later shard c :=
  ⟨loose.same, fun free => loose.quiet fun own => free (le own)⟩

theorem Loose.queued (loose : Loose base busy shard c) (tentative : sent.tentative)
    (harmless : busy shard ∨ sent.inert) (n : Nat) :
    Loose base busy shard ((c.push sent).advance n) := by
  refine ⟨?_, fun free => ?_⟩
  · rw [Channel.settled_advance, Channel.settled_push]
    exact loose.same.trans (Owner.tentative_step _ tentative)
  · exact ((loose.quiet free).push (harmless.resolve_left free)).advance n

/-- A control that stays off the store, and off the tentative state of an idle shard. -/
theorem loose_sends (tentative : sent.tentative) (harmless : busy shard ∨ sent.inert) :
    Sends (Loose base busy) (Loose base busy) (Loose base busy) shard sent where
  answered c loose := by
    refine ⟨loose.same.trans (Owner.tentative_step _ tentative), fun free => ?_⟩
    exact Channel.quiet_answered
      (Owner.inert_step (loose.quiet free).settled.1 (harmless.resolve_left free)).1
  queued _ n loose := loose.queued tentative harmless n
  others _ _ _ loose := loose
  stopped _ _ loose := loose
  thrown _ _ loose := loose

/-- A control after which the owner has no tentative state. -/
theorem release_sends (tentative : sent.tentative) (inert : sent.inert)
    (releases : ∀ o : Owner, (o.coordinationControl sent).2.coordinated = none) :
    Sends (Loose base busy) (Loose base fun i => busy i ∧ i ≠ shard) (Loose base busy) shard sent where
  answered _ loose :=
    ⟨loose.same.trans (Owner.tentative_step _ tentative),
      fun _ => Channel.quiet_answered (releases _)⟩
  queued _ n loose := loose.queued tentative (.inr inert) n
  others _ _ other loose := loose.mono fun own => ⟨own, other⟩
  stopped _ _ loose := loose
  thrown _ _ loose := loose.mono And.left

theorem sealOwner_releases (o : Owner) :
    (o.coordinationControl .sealOwner).2.coordinated = none := by
  rw [Owner.coordinationControl]
  cases idle : o.coordinated with
  | none => exact idle
  | some owner => rfl

/-- A sealed batch lists the mutations of its entries. -/
theorem sealOwner_mutations (answer : (o.coordinationControl .sealOwner).1.toPrepared = .ok p) :
    p.batch.mutations = p.entries.map Mutation.ofEntry := by
  rw [Owner.coordinationControl] at answer
  cases idle : o.coordinated with
  | none =>
    rw [idle] at answer
    cases answer
  | some owner =>
    rw [idle] at answer
    cases answer
    rfl

end Loose

/-- Every store is that of `base`, and every channel is quiet. -/
abbrev Resting (log : List ResolvedBatch) (gate : Admission) (base : Nat → Store) : System → Prop :=
  Holds log gate (Loose base fun _ => False)

namespace Coordinator

open CoordM

section Phases

theorem preflight_triple (router : ShardRouter) (plan : TransactionPlan) (mode : Mode)
    (watched : List WatchToken) :
    Triple (Holds log gate (Loose base busy)) (preflight router plan mode watched)
      (fun _ => Holds log gate (Loose base busy)) (Holds log gate (Loose base busy)) := by
  refine Triple.bind (Triple.forM (fun _ => Holds log gate (Loose base busy)) fun _ shard _ _ => ?_)
    fun _ => ?_
  · refine Triple.bind (ask_keeps (loose_sends rfl (.inr rfl))) fun supported => ?_
    cases supported with
    | false => exact Triple.throw fun _ holds => holds
    | true => exact Triple.pure fun _ holds => holds
  refine Triple.bind (ask_keeps (loose_sends rfl (.inr rfl))) fun time => ?_
  refine Triple.bind ?_ fun _ => Triple.pure fun _ holds => holds
  generalize plan.participants = participants
  induction participants with
  | nil => exact Triple.pure fun _ holds => holds
  | cons owner rest ih =>
    refine Triple.bind (ask_keeps (loose_sends rfl (.inr rfl))) fun unchanged => ?_
    cases unchanged with
    | false => exact Triple.pure fun _ holds => holds
    | true => exact ih

theorem prepareCommand_triple (planned : CommandPlan) :
    Triple (Holds log gate (Loose base busy)) (prepareCommand planned)
      (fun _ => Holds log gate (Loose base busy)) (Holds log gate (Loose base busy)) := by
  unfold prepareCommand
  split_ifs
  · exact Triple.pure fun _ holds => holds
  refine Triple.bind (Triple.mapM (fun _ _ => Holds log gate (Loose base busy))
    fun _ _ fragment _ _ => ?_) fun prepared => ?_
  · refine Triple.bind (ask_triple (loose_sends rfl (.inr rfl))) fun candidate => ?_
    exact Triple.pure fun _ holds => holds.1
  cases planned.reply.assemble (prepared.map fun candidate => candidate.2.reply) with
  | error error => exact Triple.throw fun _ holds => holds
  | ok assembled =>
    dsimp only
    split_ifs
    · exact Triple.pure fun _ holds => holds
    refine Triple.bind (Triple.forM (fun _ => Holds log gate (Loose base busy))
      fun _ candidate _ _ => ?_) fun _ => Triple.pure fun _ holds => holds
    refine Triple.bind (ask_keeps (loose_sends rfl (.inr rfl))) fun accepted => ?_
    split_ifs
    · exact Triple.pure fun _ holds => holds
    · exact Triple.throw fun _ holds => holds

/-- What preparation returns: one result per participant, whose batch lists its entries. -/
structure Prepares (participants : List Nat) (owners : List (Nat × Prepared)) : Prop where
  shards : owners.map Prod.fst = participants
  mutations : ∀ owner ∈ owners, owner.2.batch.mutations = owner.2.entries.map Mutation.ofEntry

theorem sealAll_triple (participants : List Nat) :
    Triple (Holds log gate (Loose base (· ∈ participants))) (participants.mapM sealOne)
      (fun owners t => Prepares participants owners ∧ Resting log gate base t)
      (Holds log gate (Loose base (· ∈ participants))) := by
  have keeps : ∀ done owners shard rest, participants = done ++ shard :: rest →
      Triple (fun t => Prepares done owners ∧
          Holds log gate (Loose base fun i => i ∈ participants ∧ i ∉ done) t)
        (sealOne shard)
        (fun owner t => Prepares (done ++ [shard]) (owners ++ [owner]) ∧
          Holds log gate (Loose base fun i => i ∈ participants ∧ i ∉ done ++ [shard]) t)
        (Holds log gate (Loose base (· ∈ participants))) := by
    intro done owners shard _ _
    refine Triple.given fun prepares => ?_
    have sends : Sends (Loose base fun i => i ∈ participants ∧ i ∉ done)
        (Loose base fun i => (i ∈ participants ∧ i ∉ done) ∧ i ≠ shard)
        (Loose base fun i => i ∈ participants ∧ i ∉ done) shard .sealOwner :=
      release_sends rfl rfl sealOwner_releases
    refine Triple.bind ((ask_triple sends).imp (fun _ _ holds => holds)
      fun _ holds => holds.weaken fun i c loose => loose.mono And.left) fun p => ?_
    refine Triple.pure fun t => ?_
    rintro ⟨holds, c, answered⟩
    refine ⟨⟨?_, ?_⟩, holds.weaken fun i c loose => loose.mono ?_⟩
    · rw [List.map_append, prepares.shards]
      rfl
    · intro owner member
      rcases List.mem_append.mp member with early | last
      · exact prepares.mutations owner early
      · obtain rfl := List.mem_singleton.mp last
        exact sealOwner_mutations answered.answer
    · rintro ⟨⟨own, fresh⟩, other⟩
      exact ⟨own, by simp [fresh, other]⟩
  refine (Triple.mapM _ keeps).weaken (fun t holds => ⟨⟨rfl, fun _ => nofun⟩, ?_⟩)
    (fun owners t holds => ⟨holds.1, ?_⟩) fun _ holds => holds
  · exact holds.weaken fun i c loose => loose.mono fun own => ⟨own, List.not_mem_nil⟩
  · exact holds.2.weaken fun i c loose => loose.mono fun own => own.2 own.1

theorem prepare_triple (plan : TransactionPlan) (mode : Mode) (time : Clock) :
    Triple (Resting log gate base) (prepare plan mode time)
      (fun result t => Prepares plan.participants result.2 ∧
        Resting log gate base t)
      (Holds log gate (Loose base (· ∈ plan.participants))) := by
  have begun : Triple (Holds log gate (Loose base (· ∈ plan.participants)))
      (plan.participants.forM fun owner =>
        ask Answer.toDone owner (.begin mode (ownerKeys plan.commands owner) time))
      (fun _ => Holds log gate (Loose base (· ∈ plan.participants)))
      (Holds log gate (Loose base (· ∈ plan.participants))) := by
    refine Triple.forM (fun _ => Holds log gate (Loose base (· ∈ plan.participants)))
      fun done shard rest split => ?_
    have member : shard ∈ plan.participants := split ▸ List.mem_append_right _ List.mem_cons_self
    exact (ask_triple (loose_sends rfl (.inl member))).after (fun _ _ holds => holds.1)
  have commands := Triple.mapM (fun _ _ => Holds log gate (Loose base (· ∈ plan.participants)))
    fun _ _ planned rest (_ : plan.commands = _ ++ planned :: rest) => prepareCommand_triple planned
  have all : Triple (Holds log gate (Loose base (· ∈ plan.participants))) (prepare plan mode time)
      (fun result t => Prepares plan.participants result.2 ∧
        Resting log gate base t)
      (Holds log gate (Loose base (· ∈ plan.participants))) :=
    Triple.bind begun fun _ => Triple.bind commands fun replies =>
      Triple.bind (sealAll_triple plan.participants) fun owners => Triple.pure fun _ holds => holds
  exact all.weaken (fun _ holds => holds.weaken fun i c loose => loose.mono False.elim)
    (fun _ _ holds => holds) fun _ holds => holds

theorem abortAll_triple (participants : List Nat) :
    Triple (Holds log gate (Loose base (· ∈ participants))) (abortAll participants)
      (fun _ => Resting log gate base) fun _ => True := by
  have keeps : ∀ done shard rest, participants = done ++ shard :: rest →
      Triple (Holds log gate (Loose base fun i => i ∈ participants ∧ i ∉ done))
        (ask Answer.toDone shard .abort)
        (fun _ => Holds log gate (Loose base fun i => i ∈ participants ∧ i ∉ done ++ [shard]))
        fun _ => True := by
    intro done shard _ _
    refine (ask_triple (release_sends rfl rfl fun _ => rfl)).imp
      (fun _ t holds => holds.1.weaken fun i c loose => loose.mono ?_) fun _ _ => trivial
    rintro ⟨⟨own, fresh⟩, other⟩
    exact ⟨own, by simp [fresh, other]⟩
  refine (Triple.forM _ keeps).weaken (fun t holds => ?_) (fun _ t holds => ?_) fun _ _ => trivial
  · exact holds.weaken fun i c loose => loose.mono fun own => ⟨own, List.not_mem_nil⟩
  · exact holds.weaken fun i c loose => loose.mono fun own => own.2 own.1

/-- The store of each applied shard is the base store with its result. -/
structure Applied (base : Nat → Store) (owners : List (Nat × Prepared)) (shard : Nat) (c : Channel) :
    Prop where
  quiet : c.Quiet
  done : ∀ p, (shard, p) ∈ owners → SameData ((base shard).apply p) c.settled.store
  rest : shard ∉ owners.map Prod.fst → SameData (base shard) c.settled.store

theorem apply_answer (answer : (o.coordinationControl (.apply mode p)).1.toDone = .ok ()) :
    o.coordinated = none ∧
      (o.coordinationControl (.apply mode p)).2 = { o with store := o.store.apply p } := by
  rw [Owner.coordinationControl] at answer ⊢
  by_cases refused : (!o.supportsCoordinatedMode mode || o.coordinated.isSome) = true
  · rw [if_pos refused] at answer
    cases answer
  · rw [if_neg refused]
    refine ⟨?_, rfl⟩
    cases idle : o.coordinated with
    | none => rfl
    | some owner => simp [idle] at refused

/-- One more owner has applied its part. -/
theorem Applied.step (fresh : shard ∉ done.map Prod.fst) {channels : Nat → Channel}
    (others : ∀ i, i ≠ shard → Applied base done i (channels i))
    (before : Applied base done shard c) (own : channels shard = ⟨o, []⟩)
    (idle : o.coordinated = none) (effect : SameData (c.settled.store.apply p) o.store) (i : Nat) :
    Applied base (done ++ [(shard, p)]) i (channels i) := by
  by_cases same : i = shard
  · subst same
    rw [own]
    refine ⟨Channel.quiet_answered idle, fun q member => ?_, fun outside => absurd ?_ outside⟩
    · rcases List.mem_append.mp member with early | last
      · exact absurd (List.mem_map_of_mem early) fresh
      · obtain rfl := (Prod.mk.inj (List.mem_singleton.mp last)).2
        exact ((before.rest fresh).apply q).trans effect
    · simp
  · obtain ⟨quiet, applied, rest⟩ := others i same
    refine ⟨quiet, fun q member => applied q ?_, fun outside => rest fun inside => outside ?_⟩
    · rcases List.mem_append.mp member with early | last
      · exact early
      · exact absurd (Prod.mk.inj (List.mem_singleton.mp last)).1 same
    · rw [List.map_append]
      exact List.mem_append_left _ inside

/-- A control that only the shard it is sent to depends on. -/
theorem applied_sends (done : List (Nat × Prepared)) (shard : Nat) (sent : Control) :
    Sends (Applied base done) (fun i c => i ≠ shard → Applied base done i c) (fun _ _ => True) shard
      sent :=
  ⟨fun _ _ other => absurd rfl other, fun _ _ _ => trivial, fun _ _ _ applied _ => applied,
    fun _ _ _ => trivial, fun _ _ _ => trivial⟩

theorem askApply_triple (fresh : shard ∉ done.map Prod.fst) (mode : Mode) (p : Prepared) :
    Triple (Holds log gate (Applied base done)) (ask Answer.toDone shard (.apply mode p))
      (fun _ => Holds log gate (Applied base (done ++ [(shard, p)]))) fun _ => True := by
  refine (ask_triple (applied_sends done shard _)).imp (fun _ t => ?_)
    fun _ _ => trivial
  rintro ⟨holds, c, answered⟩
  obtain ⟨idle, effect⟩ := apply_answer answered.answer
  have after := answered.after
  rw [effect] at after
  exact ⟨holds.1, holds.2.1, Applied.step fresh holds.2.2 answered.before after idle (SameData.refl _)⟩

/-- The records a decision to go on has written. -/
def records (mode : Mode) (owners : List (Nat × Prepared)) : List ResolvedBatch :=
  if mode.durable && !(mergedMutations owners).isEmpty then [⟨.client, mergedMutations owners⟩] else []

/-- How a transaction ends with admission open. -/
def Ended (log : List ResolvedBatch) (base : Nat → Store) (mode : Mode) (participants : List Nat)
    (t : System) : Prop :=
  Resting log t.gate base t ∨
    ∃ owners, Prepares participants owners ∧
      Holds (log ++ records mode owners) t.gate (Applied base owners) t

/-- A guarded publication closes admission unless it is completed. -/
theorem guarded_triple {α : Type} {pre done : System → Prop} {publication : StateM System (α × Bool)}
    (publishes : StateProgram.Triple pre publication fun result t => result.2 = true → done t) :
    StateProgram.Triple pre (guarded publication) fun _ t => t.gate.isOpen = false ∨ done t := by
  refine StateProgram.Triple.bind publishes fun result => ?_
  obtain ⟨value, complete⟩ := result
  cases complete with
  | true => exact StateProgram.Triple.pure fun t holds => .inr (holds rfl)
  | false => exact fun t _ => .inl rfl

variable (env : Environment)

theorem applyAll_triple (mode : Mode) (nodup : (owners.map Prod.fst).Nodup) :
    Triple (Resting log gate base) (applyAll env mode owners)
      (fun _ => Holds log gate (Applied base owners)) fun _ => True := by
  unfold applyAll
  split
  · exact Triple.throw fun _ _ => trivial
  split
  · exact Triple.throw fun _ _ => trivial
  have keeps : ∀ done item rest, owners.zipIdx = done ++ item :: rest →
      Triple (Holds log gate (Applied base (done.map Prod.fst))) (applyOne env mode item)
        (fun _ => Holds log gate (Applied base ((done ++ [item]).map Prod.fst))) fun _ => True := by
    intro done item rest split
    have fresh : item.1.1 ∉ (done.map Prod.fst).map Prod.fst := by
      rw [← List.zipIdx_map_fst 0 owners, List.map_map] at nodup
      rw [List.map_map]
      exact fresh_of_nodup nodup split
    refine Triple.bind (askApply_triple fresh mode item.1.2) fun _ => ?_
    rw [List.map_append]
    split_ifs
    · exact Triple.throw fun _ _ => trivial
    · exact Triple.pure fun _ holds => holds
  have all := Triple.forM _ keeps
  rw [List.zipIdx_map_fst] at all
  refine Triple.bind (all.weaken (fun _ holds => holds.weaken fun i c loose => ?_)
    (fun _ _ holds => holds) fun _ holds => holds) fun _ => ?_
  · exact ⟨loose.quiet id, fun _ => nofun, fun _ => loose.same⟩
  · split_ifs
    · exact Triple.throw fun _ _ => trivial
    · exact Triple.pure fun _ holds => holds

theorem append_triple (batch : ResolvedBatch) :
    Triple (Holds log gate each) (append env batch)
      (fun decision t => match decision with
        | none => Holds (log ++ [batch]) gate each t
        | some _ => Holds log gate each t) fun _ => True := by
  unfold append
  cases env.append with
  | written =>
    refine Triple.bind (Triple.change fun s holds => ?_) fun _ => Triple.pure fun _ holds => holds
    exact ⟨congrArg (· ++ [batch]) holds.1, holds.2⟩
  | limit => exact Triple.pure fun _ holds => holds
  | failed recorded =>
    have changed : ∀ change : System → System,
        Triple (Holds log gate each) (modify change : CoordM Unit) (fun _ _ => True) fun _ => True :=
      fun _ => Triple.change fun _ _ => trivial
    exact Triple.bind (changed _) fun _ => Triple.throw fun _ _ => trivial

theorem logDecision_triple (mode : Mode) (owners : List (Nat × Prepared)) :
    Triple (Holds log gate each) (logDecision env mode owners)
      (fun decision t => match decision with
        | none => Holds (log ++ records mode owners) gate each t
        | some _ => Holds log gate each t) fun _ => True := by
  unfold logDecision records
  cases mode.durable with
  | false => exact Triple.pure fun s holds => by simpa using holds
  | true =>
    rw [if_pos rfl]
    split
    · exact Triple.throw fun _ _ => trivial
    dsimp only
    split
    · exact Triple.throw fun _ _ => trivial
    cases empty : (mergedMutations owners).isEmpty with
    | true => exact Triple.pure fun s holds => by simpa using holds
    | false => exact append_triple env ⟨.client, mergedMutations owners⟩

theorem publish_triple (plan : TransactionPlan) (nodup : plan.participants.Nodup) (mode : Mode)
    (time : Clock) :
    StateProgram.Triple (Resting log gate base) (publish env plan mode time)
      fun result t => result.2 = true → Ended log base mode plan.participants t := by
  refine StateProgram.Triple.bind (prepare_triple plan mode time).attempt fun prepared => ?_
  rcases prepared with error | ⟨replies, owners⟩
  · refine StateProgram.Triple.bind (abortAll_triple plan.participants).attempt fun aborted => ?_
    rcases aborted with failure | _
    · exact StateProgram.Triple.pure fun _ _ => nofun
    · exact StateProgram.Triple.pure fun t holds _ => .inl (holds.2.1 ▸ holds)
  · refine StateProgram.Triple.given fun prepares => ?_
    refine StateProgram.Triple.bind (logDecision_triple env mode owners).attempt fun decision => ?_
    rcases decision with error | _ | rejection
    · exact StateProgram.Triple.pure fun _ _ => nofun
    · have unique : (owners.map Prod.fst).Nodup := prepares.shards ▸ nodup
      refine StateProgram.Triple.bind (applyAll_triple env mode unique).attempt fun applied => ?_
      rcases applied with error | _
      · exact StateProgram.Triple.pure fun _ _ => nofun
      · exact StateProgram.Triple.pure fun t holds _ =>
          .inr ⟨owners, prepares, holds.2.1 ▸ holds⟩
    · exact StateProgram.Triple.pure fun t holds _ => .inl (holds.2.1 ▸ holds)

theorem run_triple (handle : DbHandle) (plan : TransactionPlan) (nodup : plan.participants.Nodup)
    (watched : List WatchToken) :
    StateProgram.Triple (Resting log gate base) (run env handle plan watched)
      fun _ t => t.gate.isOpen = false ∨ Resting log t.gate base t ∨
        ∃ mode, Coordinator.mode handle = some mode ∧ Ended log base mode plan.participants t := by
  unfold run
  cases chosen : Coordinator.mode handle with
  | none => exact StateProgram.Triple.pure fun t holds => .inr (.inl (holds.2.1 ▸ holds))
  | some mode =>
    refine StateProgram.Triple.bind (preflight_triple handle.router plan mode watched).attempt
      fun checked => ?_
    rcases checked with error | _ | time
    · exact StateProgram.Triple.pure fun t holds => .inr (.inl (holds.2.1 ▸ holds))
    · exact StateProgram.Triple.pure fun t holds => .inr (.inl (holds.2.1 ▸ holds))
    · exact (guarded_triple (publish_triple env plan nodup mode time)).weaken (fun _ holds => holds)
        fun _ t ends => ends.imp id fun ended => .inr ⟨mode, rfl, ended⟩

end Phases

/-! ### The whole operation -/

theorem transactionParticipants_nodup (router : ShardRouter) (commands : List Command)
    (watched : List Bytes) : (router.transactionParticipants commands watched).Nodup := by
  unfold ShardRouter.transactionParticipants
  dsimp only
  split_ifs
  · exact List.nodup_singleton 0
  · exact List.nodup_range.filter _

theorem planTransaction_participants {router : ShardRouter} {commands : List Command}
    {watched : List Bytes} {plan : TransactionPlan}
    (planned : router.planTransaction commands watched = .ok plan) :
    plan.participants = router.transactionParticipants commands watched := by
  obtain ⟨plans, _, same⟩ := bind_eq_ok planned
  cases same
  rfl

section

variable (env : Environment)

/-- An entry changes nothing and lets nobody in while admission is closed. -/
def Guards (entry : CoordM Unit) : Prop :=
  ∀ pre : System → Prop, Triple pre entry (fun _ t => t.gate.isOpen = true ∧ pre t) pre

theorem checkAdmission_guards : Guards checkAdmission := by
  intro pre s holds
  show Ends _ _ (s.gate.check, s)
  unfold Admission.check
  split_ifs with opened
  · exact ⟨opened, holds⟩
  · exact holds

theorem barrier_triple (pre : System → Prop) : Triple pre (barrier env) (fun _ => pre) pre := by
  intro s holds
  show Ends _ _ (env.entry, s)
  cases env.entry <;> exact holds

theorem enterBarrier_guards : Guards (enterBarrier env) := fun pre =>
  Triple.bind ((checkAdmission_guards pre).after fun _ _ holds => holds.2) fun _ =>
    Triple.bind (barrier_triple env pre) fun _ => checkAdmission_guards pre

/-- An operation behind an entry runs only while admission is open. -/
theorem admitted_triple {α : Type} {entry : CoordM Unit} (guards : Guards entry) {pre : System → Prop}
    {operation : StateM System (Except DbError α)} {post : Except DbError α → System → Prop}
    (refused : ∀ error t, pre t → post (.error error) t)
    (runs : StateProgram.Triple (fun t => t.gate.isOpen = true ∧ pre t) operation post) :
    StateProgram.Triple pre (admitted entry operation) post := by
  refine StateProgram.Triple.bind (guards pre).attempt fun entered => ?_
  rcases entered with error | _
  · exact StateProgram.Triple.pure (refused error)
  · exact runs

/-- The participants of a planned queue, in the mode of the handle. -/
def Selects (handle : DbHandle) (commands : List Command) (watched : List WatchToken) (mode : Mode)
    (participants : List Nat) : Prop :=
  Coordinator.mode handle = some mode ∧
    participants = handle.router.transactionParticipants commands (watched.map WatchToken.key)

theorem executeCoordinated_triple (handle : DbHandle) (commands : List Command)
    (watched : List WatchToken) :
    StateProgram.Triple (fun s => Resting log s.gate base s)
      (executeCoordinated env handle commands watched)
      fun _ t => t.gate.isOpen = false ∨ Resting log t.gate base t ∨
        ∃ mode participants, Selects handle commands watched mode participants ∧
          Ended log base mode participants t := by
  have idle : ∀ reply, StateProgram.Triple (fun s => Resting log s.gate base s)
      (pure reply : StateM System (Except DbError Reply))
      fun _ t => t.gate.isOpen = false ∨ Resting log t.gate base t ∨
        ∃ mode participants, Selects handle commands watched mode participants ∧
          Ended log base mode participants t :=
    fun _ => StateProgram.Triple.pure fun _ holds => .inr (.inl holds)
  unfold executeCoordinated
  split
  · exact idle _
  split
  · exact idle _
  split
  · exact idle _
  cases planned : handle.router.planTransaction commands (watched.map WatchToken.key) with
  | error error => exact idle _
  | ok plan =>
    have shards := planTransaction_participants planned
    have nodup : plan.participants.Nodup := shards ▸ transactionParticipants_nodup _ _ _
    refine admitted_triple (enterBarrier_guards env) (fun _ _ holds => .inr (.inl holds)) ?_
    rintro s ⟨_, holds⟩
    refine (run_triple env handle plan nodup watched s holds).imp id fun still => still.imp id ?_
    rintro ⟨mode, chosen, ended⟩
    exact ⟨mode, plan.participants, ⟨chosen, shards⟩, ended⟩

end

/-! ### WATCH -/

section Watch

/-- Every channel is quiet. -/
abbrev Quieted (log : List ResolvedBatch) (gate : Admission) : System → Prop :=
  Holds log gate fun _ => Channel.Quiet

theorem quiet_sends (inert : sent.inert) :
    Sends (fun _ => Channel.Quiet) (fun _ => Channel.Quiet) (fun _ => Channel.Quiet) shard sent where
  answered _ quiet := Channel.quiet_answered (Owner.inert_step quiet.settled.1 inert).1
  queued _ n quiet := (quiet.push inert).advance n
  others _ _ _ quiet := quiet
  stopped _ _ quiet := quiet
  thrown _ _ quiet := quiet

/-- An owner that has answered an expiration has no tentative state either. -/
theorem applyWatch_sends (mode : Mode) (p : Prepared) (keys : List Bytes) :
    Sends (fun _ => Channel.Quiet) (fun _ => Channel.Quiet) (fun _ _ => True) shard
      (.applyWatch mode p keys) where
  answered c quiet := by
    refine Channel.quiet_answered ?_
    rw [Owner.coordinationControl]
    split_ifs <;> exact quiet.settled.1
  queued _ _ _ := trivial
  others _ _ _ quiet := quiet
  stopped _ _ _ := trivial
  thrown _ _ _ := trivial

/-- The batches of a prepared WATCH list their entries. -/
def Listed (prepared : List (Nat × List Bytes × Prepared)) : Prop :=
  ∀ owner ∈ prepared, owner.2.2.batch.mutations = owner.2.2.entries.map Mutation.ofEntry

theorem prepareWatch_mutations {keys : List Bytes}
    (answer : (o.coordinationControl (.prepareWatch mode keys)).1.toPrepared = .ok p) :
    p.batch.mutations = p.entries.map Mutation.ofEntry := by
  rw [Owner.coordinationControl] at answer
  split_ifs at answer
  · have resolved : o.store.preparation (.command (.exists keys)) = some p :=
      congrArg some (Except.ok.inj answer)
    exact preparation_mutations resolved
  · cases answer

theorem prepareWatches_triple (mode : Mode) (groups : List (Nat × List Bytes)) :
    Triple (Quieted log gate) (prepareWatches mode groups)
      (fun result t => Quieted log gate t ∧ ∀ prepared, result = .ok prepared → Listed prepared)
      (Quieted log gate) := by
  induction groups with
  | nil =>
    refine Triple.pure fun _ holds => ⟨holds, ?_⟩
    rintro _ ⟨rfl⟩
    exact fun _ => nofun
  | cons group rest ih =>
    refine Triple.bind (ask_triple (quiet_sends rfl)) fun candidate => ?_
    split_ifs
    · exact Triple.pure fun _ holds => ⟨holds.1, fun _ => nofun⟩
    · rintro t ⟨holds, c, answered⟩
      refine Triple.bind ih (fun later => ?_) t holds
      refine Triple.pure fun _ holds => ⟨holds.1, fun prepared same => ?_⟩
      cases later with
      | error reply => cases same
      | ok found =>
        cases same
        intro owner member
        rcases List.mem_cons.mp member with rfl | inside
        · exact prepareWatch_mutations answered.answer
        · exact holds.2 found rfl owner inside

theorem sortedByKey_eq_nil {mutations : List Mutation} (empty : sortedByKey mutations = []) :
    mutations = [] := by
  have sorted := List.perm_insertionSort (fun left right : Mutation => left.key ≤ right.key) mutations
  exact (List.Perm.nil_eq (empty ▸ sorted)).symm

/-- Without mutations to log, no prepared result has an entry. -/
theorem entries_eq_nil {items : List ι} {result : ι → Prepared} (listed : ∀ item ∈ items,
      (result item).batch.mutations = (result item).entries.map Mutation.ofEntry)
    (empty : sortedByKey (items.flatMap fun item => (result item).batch.mutations) = []) :
    ∀ item ∈ items, (result item).entries = [] := by
  intro item member
  have own := List.flatMap_eq_nil_iff.mp (sortedByKey_eq_nil empty) item member
  rw [listed item member] at own
  exact List.map_eq_nil_iff.mp own

/-- Once every owner has answered, no control waits. What a failure leaves is up to the controls. -/
theorem applyWatches_triple (env : Environment) (mode : Mode) (quiet : ∀ i c, c.Quiet → failed i c)
    (sends : ∀ owner ∈ prepared, Sends (fun _ => Channel.Quiet) (fun _ => Channel.Quiet) failed owner.1
      (.applyWatch mode owner.2.2 owner.2.1)) :
    Triple (Quieted log gate) (applyWatches env mode prepared) (fun _ => Quieted log gate)
      (Holds log gate failed) := by
  unfold applyWatches
  split
  · exact Triple.throw fun _ holds => holds.weaken quiet
  refine Triple.bind (Triple.mapM (fun _ _ => Quieted log gate) fun _ _ owner rest split => ?_)
    fun _ => Triple.pure fun _ holds => holds
  exact (ask_triple (sends owner (split ▸ List.mem_append_right _ List.mem_cons_self))).after
    fun _ _ holds => holds.1

theorem publishWatch_triple (env : Environment) (mode : Mode) (listed : Listed prepared) :
    StateProgram.Triple (Quieted log gate) (publishWatch env mode prepared)
      fun result t => result.2 = true → ∀ shard, (t.channels shard).Quiet := by
  have kept : ∀ {log : List ResolvedBatch} result, StateProgram.Triple (Quieted log gate)
      (pure result : StateM System (Except DbError (Reply × List WatchToken) × Bool))
      fun result t => result.2 = true → ∀ shard, (t.channels shard).Quiet :=
    fun _ => StateProgram.Triple.pure fun _ holds _ => holds.2.2
  unfold publishWatch
  dsimp only
  cases empty : (watchMutations prepared).isEmpty with
  | true =>
    -- Without entries, whatever becomes of the controls, no tentative state is left.
    have entries := entries_eq_nil listed (List.isEmpty_iff.mp empty)
    have unlogged : Triple (Quieted log gate) (pure none : CoordM (Option Reply))
        (fun _ => Quieted log gate) (Quieted log gate) := Triple.pure fun _ holds => holds
    refine StateProgram.Triple.bind unlogged.attempt fun decision => ?_
    rcases decision with error | _ | rejection
    · exact StateProgram.Triple.pure fun _ _ => nofun
    · refine StateProgram.Triple.bind (applyWatches_triple env mode (fun _ _ quiet => quiet)
        fun owner member => quiet_sends (List.isEmpty_iff.mpr (entries owner member))).attempt
        fun tokens => ?_
      rcases tokens with error | tokens
      · exact kept _
      · exact kept _
    · exact kept _
  | false =>
    refine StateProgram.Triple.bind (append_triple env _).attempt fun decision => ?_
    rcases decision with error | _ | rejection
    · exact StateProgram.Triple.pure fun _ _ => nofun
    · refine StateProgram.Triple.bind (applyWatches_triple env mode (fun _ _ _ => trivial)
        fun owner _ => applyWatch_sends _ _ _).attempt fun tokens => ?_
      rcases tokens with error | tokens
      · exact StateProgram.Triple.pure fun _ _ => nofun
      · exact kept _
    · exact kept _

theorem runWatch_triple (env : Environment) (router : ShardRouter) (aof : AofHandle)
    (keys : List Bytes) :
    StateProgram.Triple (Quieted log gate) (runWatch env router aof keys)
      fun _ t => t.gate.isOpen = false ∨ ∀ shard, (t.channels shard).Quiet := by
  refine StateProgram.Triple.bind
    (prepareWatches_triple (.composed aof.writer) (keysByOwner router keys)).attempt fun result => ?_
  rcases result with error | reply | prepared
  · exact StateProgram.Triple.pure fun _ holds => .inr holds.2.2
  · exact StateProgram.Triple.pure fun _ holds => .inr holds.1.2.2
  · rintro s ⟨holds, listed⟩
    dsimp only
    split
    · exact .inr holds.2.2
    · exact guarded_triple (publishWatch_triple env _ (listed prepared rfl)) s holds

theorem watchCoordinated_triple (env : Environment) (handle : DbHandle) (keys : List Bytes) :
    StateProgram.Triple (fun s => Quieted log s.gate s) (watchCoordinated env handle keys)
      fun _ t => t.gate.isOpen = false ∨ ∀ shard, (t.channels shard).Quiet := by
  unfold watchCoordinated
  cases handle.composedAof with
  | none => exact StateProgram.Triple.pure fun _ holds => .inr holds.2.2
  | some aof =>
    dsimp only
    split
    · exact StateProgram.Triple.pure fun _ holds => .inr holds.2.2
    refine admitted_triple (enterBarrier_guards env) (fun _ _ holds => .inr holds.2.2) ?_
    exact fun s holds => runWatch_triple env handle.router aof keys s holds.2

end Watch

end Coordinator

end Sider

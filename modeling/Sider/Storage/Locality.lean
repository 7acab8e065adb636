/-
**Commands use only their own keys.**

`Local plain keys program` — the program is built from primitives on `keys`, and if `plain` holds it
stores no memory collection. `executeInner_local` shows it once for every command and the keys that
`Command.visitKeys` reports; each consequence is then one induction over how the program is built:

* `Local.related` — a relation between two stores that the primitives respect is respected by the
  whole program, which also returns the same result on both;
* `Local.keeps` — a property of one store that the primitives keep is kept by the whole program.

`Twin keys` (equal entries at `keys`, equal counters) and `Framed keys s` (entries elsewhere are those
of `s`) are the two instances used to compare a shadow with the store it was taken from. A third one,
`Inherits s`, says that a command creates no memory collection (`executeInner_inherits`).
-/

import Sider.Storage.MemorySound

namespace Sider

open StateProgram StoreM Store

variable {s t start : Store} {key : Bytes} {keys : List Bytes} {property : Store → Prop}
  {entry : Option Image} {now : Nat} {image : Image} {plain : Prop}

/-- Programs built from primitives on the given keys; plain ones store no memory collection. -/
inductive Local (plain : Prop) (keys : List Bytes) : (α : Type) → StoreM α → Prop
  | pure {α : Type} (value : α) : Local plain keys α (pure value)
  | bind {α β : Type} {first : StoreM α} {next : α → StoreM β} (head : Local plain keys α first)
      (tail : ∀ value, Local plain keys β (next value)) : Local plain keys β (first >>= next)
  | lookup {key : Bytes} (own : key ∈ keys) : Local plain keys _ (lookup key)
  | remove {key : Bytes} (own : key ∈ keys) : Local plain keys _ (remove key)
  | insert {key : Bytes} (own : key ∈ keys) (value : Value) (expiry : Option (Nat × Int))
      (allowed : plain → value.asMemory = none) :
      Local plain keys _ (insert key value expiry)
  | canReplace {key : Bytes} (own : key ∈ keys) (value : Value) :
      Local plain keys _ (canReplace key value)
  | resolve {key : Bytes} (own : key ∈ keys) (value : Value) :
      Local plain keys _ (resolveMemberDeadlines key value)
  | clock : Local plain keys _ clock
  | usedBytes : Local plain keys _ usedBytes
  | maxDatasetBytes : Local plain keys _ maxDatasetBytes
  | raiseWhen (condition : Bool) : Local plain keys _ (raiseWhen condition)

/-! ### Consequences -/

section Consequences

variable {α : Type} {program : StoreM α}

/-- A relation between stores that every primitive on `keys` respects. -/
structure Respected (keys : List Bytes) (rel : Store → Store → Prop) : Prop where
  image : ∀ {s t key}, rel s t → key ∈ keys → s.image? key = t.image? key
  clock : ∀ {s t}, rel s t → s.clock = t.clock
  config : ∀ {s t}, rel s t → s.config = t.config
  usedBytes : ∀ {s t}, rel s t → s.usedBytes = t.usedBytes
  removed : ∀ {s t key}, rel s t → key ∈ keys → rel (s.removed key) (t.removed key)
  installed : ∀ {s t key} (image : Image), rel s t → key ∈ keys →
    rel (s.installEntry key image) (t.installEntry key image)
  raised : ∀ {s t} (condition : Bool), rel s t →
    rel { s with fault := s.fault || condition } { t with fault := t.fault || condition }

variable {rel : Store → Store → Prop}

section

variable (respected : Respected keys rel)

include respected

theorem Respected.resolve (related : rel s t) (own : key ∈ keys) (value : Value) :
    s.resolveMemberDeadlines key value = t.resolveMemberDeadlines key value := by
  unfold Store.resolveMemberDeadlines
  rw [respected.image related own, respected.clock related]

theorem Respected.canReplace (related : rel s t) (own : key ∈ keys) (value : Value) :
    s.canReplace key value = t.canReplace key value := by
  unfold Store.canReplace
  rw [respected.image related own, respected.usedBytes related, respected.config related]

theorem Respected.inserted (related : rel s t) (own : key ∈ keys) (value : Value)
    (expiry : Option (Nat × Int)) :
    rel (s.inserted key value expiry) (t.inserted key value expiry) := by
  unfold Store.inserted
  rw [respected.resolve related own value]
  cases t.resolveMemberDeadlines key value with
  | ok deadlines => exact respected.installed _ related own
  | error error =>
    have raised := respected.raised true related
    simpa using raised

/-- **A respected relation is respected by every local program.** -/
theorem Local.related (isLocal : Local plain keys α program) : Related rel program program := by
  induction isLocal with
  | pure value => exact Related.pure rel value
  | bind _ _ head tail => exact Related.bind head tail
  | lookup own => exact fun s t related => ⟨respected.image related own, related⟩
  | remove own =>
    exact fun s t related => ⟨respected.image related own, respected.removed related own⟩
  | insert own value expiry _ =>
    exact fun s t related => ⟨rfl, respected.inserted related own value expiry⟩
  | canReplace own value =>
    exact fun s t related => ⟨respected.canReplace related own value, related⟩
  | resolve own value => exact fun s t related => ⟨respected.resolve related own value, related⟩
  | clock => exact fun s t related => ⟨respected.clock related, related⟩
  | usedBytes => exact fun s t related => ⟨respected.usedBytes related, related⟩
  | maxDatasetBytes =>
    exact fun s t related =>
      ⟨congrArg StoreConfig.maxDatasetBytes (respected.config related), related⟩
  | raiseWhen condition => exact fun s t related => ⟨rfl, respected.raised condition related⟩

end

/-- A property of one store that every primitive on `keys` keeps. -/
structure Kept (plain : Prop) (keys : List Bytes) (property : Store → Prop) : Prop where
  removed : ∀ {s key}, property s → key ∈ keys → property (s.removed key)
  installed : ∀ {s key} (image : Image), property s → key ∈ keys →
    (plain → image.value.asMemory = none) → property (s.installEntry key image)
  raised : ∀ {s} (condition : Bool), property s →
    property { s with fault := s.fault || condition }

theorem Kept.inserted (kept : Kept plain keys property) (holds : property s) (own : key ∈ keys)
    (value : Value) (expiry : Option (Nat × Int)) (allowed : plain → value.asMemory = none) :
    property (s.inserted key value expiry) := by
  unfold Store.inserted
  cases s.resolveMemberDeadlines key value with
  | ok deadlines => exact kept.installed _ holds own allowed
  | error error =>
    have raised := kept.raised true holds
    simpa using raised

/-- **A kept property is kept by every local program.** -/
theorem Local.keeps (kept : Kept plain keys property) (isLocal : Local plain keys α program) :
    Triple property program fun _ => property := by
  induction isLocal with
  | bind _ _ head tail => exact Triple.bind head tail
  | remove own => exact fun s holds => kept.removed holds own
  | insert own value expiry allowed =>
    exact fun s holds => kept.inserted holds own value expiry allowed
  | raiseWhen condition => exact fun s holds => kept.raised condition holds
  | _ => exact fun s holds => holds

end Consequences

/-! ### The two instances -/

/-- Equal entries at `keys`, and equal counters. -/
structure Twin (keys : List Bytes) (s t : Store) : Prop where
  entries : ∀ key ∈ keys, s.values.get? key = t.values.get? key
  generation : s.generation = t.generation
  clock : s.clock = t.clock
  config : s.config = t.config
  usedBytes : s.usedBytes = t.usedBytes
  fault : s.fault = t.fault

theorem Twin.image? (twin : Twin keys s t) (own : key ∈ keys) : s.image? key = t.image? key :=
  congrArg (Option.map Entry.toImage) (twin.entries key own)

theorem twin_removed (twin : Twin keys s t) (own : key ∈ keys) :
    Twin keys (s.removed key) (t.removed key) := by
  have same := twin.entries key own
  have entries : ∀ probe ∈ keys,
      (s.removed key).values.get? probe = (t.removed key).values.get? probe := by
    intro probe member
    rw [removed_values, removed_values, OrdMap.get?_erase, OrdMap.get?_erase,
      twin.entries probe member]
  cases found : t.values.get? key with
  | none =>
    have left : s.removed key = s := by unfold removed; rw [same, found]
    have right : t.removed key = t := by unfold removed; rw [found]
    rw [left, right]
    exact twin
  | some entry =>
    have left : s.removed key = s.removeEntry key entry := by unfold removed; rw [same, found]
    have right : t.removed key = t.removeEntry key entry := by unfold removed; rw [found]
    rw [left, right] at entries ⊢
    refine ⟨entries, ?_, twin.clock, twin.config, ?_, ?_⟩
    · exact congrArg (· + 1) twin.generation
    · exact congrArg (· - charge key entry.value) twin.usedBytes
    · show (s.fault || _) = (t.fault || _)
      rw [twin.fault, twin.usedBytes]

theorem twin_installEntry (image : Image) (twin : Twin keys s t) (own : key ∈ keys) :
    Twin keys (s.installEntry key image) (t.installEntry key image) := by
  have watched : Twin keys { s with watches := s.watches.invalidate key }
      { t with watches := t.watches.invalidate key } :=
    ⟨twin.entries, twin.generation, twin.clock, twin.config, twin.usedBytes, twin.fault⟩
  have dropped := twin_removed watched own
  refine ⟨fun probe member => ?_, ?_, dropped.clock, dropped.config, ?_, ?_⟩
  · show (OrdMap.insert _ key _).get? probe = (OrdMap.insert _ key _).get? probe
    rw [OrdMap.get?_insert, OrdMap.get?_insert, dropped.generation, dropped.entries probe member]
  · exact congrArg (· + 1) dropped.generation
  · exact congrArg (· + charge key image.value) dropped.usedBytes
  · show (_ || _) = (_ || _)
    rw [dropped.fault, dropped.usedBytes]

theorem twin_respected (keys : List Bytes) : Respected keys (Twin keys) where
  image := fun twin own => twin.image? own
  clock := fun twin => twin.clock
  config := fun twin => twin.config
  usedBytes := fun twin => twin.usedBytes
  removed := fun twin own => twin_removed twin own
  installed := fun image twin own => twin_installEntry image twin own
  raised := fun condition twin =>
    ⟨twin.entries, twin.generation, twin.clock, twin.config, twin.usedBytes,
      congrArg (· || condition) twin.fault⟩

/-- Entries away from `keys` are those of `start`, and an entry is one of `start` or stamped later. -/
structure Framed (keys : List Bytes) (start s : Store) : Prop where
  outside : ∀ key ∉ keys, s.values.get? key = start.values.get? key
  clock : s.clock = start.clock
  config : s.config = start.config
  generation : start.generation ≤ s.generation
  fresh : ∀ key entry, s.values.get? key = some entry →
    start.values.get? key = some entry ∨ start.generation < entry.generation

theorem framed_self (keys : List Bytes) (s : Store) : Framed keys s s :=
  ⟨fun _ _ => rfl, rfl, rfl, le_refl _, fun _ _ found => Or.inl found⟩

theorem framed_removed (framed : Framed keys start s) (own : key ∈ keys) :
    Framed keys start (s.removed key) where
  outside := fun probe other => by
    have different : probe ≠ key := fun same => other (same ▸ own)
    rw [removed_values, OrdMap.get?_erase_of_ne _ different]
    exact framed.outside probe other
  clock := (removed_clock s key).trans framed.clock
  config := (removed_config s key).trans framed.config
  generation := le_trans framed.generation (generation_le_removed s key)
  fresh := fun probe entry found => by
    rw [removed_values, OrdMap.get?_erase] at found
    split_ifs at found
    exact framed.fresh probe entry found

theorem framed_installEntry (image : Image) (framed : Framed keys start s) (own : key ∈ keys) :
    Framed keys start (s.installEntry key image) := by
  have watched : Framed keys start { s with watches := s.watches.invalidate key } :=
    ⟨framed.outside, framed.clock, framed.config, framed.generation, framed.fresh⟩
  have dropped := framed_removed watched own
  refine ⟨fun probe other => ?_, dropped.clock, dropped.config,
    le_trans dropped.generation (Nat.le_succ _), fun probe entry found => ?_⟩
  · have different : probe ≠ key := fun same => other (same ▸ own)
    show (OrdMap.insert _ key _).get? probe = _
    rw [OrdMap.get?_insert_of_ne _ _ different]
    exact dropped.outside probe other
  · change (OrdMap.insert _ key _).get? probe = some entry at found
    rw [OrdMap.get?_insert] at found
    split_ifs at found with same
    · cases found
      exact Or.inr (Nat.lt_succ_of_le dropped.generation)
    · exact dropped.fresh probe entry found

theorem framed_kept (plain : Prop) (keys : List Bytes) (start : Store) :
    Kept plain keys (Framed keys start) where
  removed := fun framed own => framed_removed framed own
  installed := fun image framed own _ => framed_installEntry image framed own
  raised := fun _ framed =>
    ⟨framed.outside, framed.clock, framed.config, framed.generation, framed.fresh⟩

/-- An entry with its old stamp is the old entry. -/
theorem Framed.entry_of_stamp {rest : Nat} (framed : Framed keys start s) (sound : Sound rest start)
    (same : start.stamp key = s.stamp key) : s.values.get? key = start.values.get? key := by
  unfold stamp at same
  cases found : s.values.get? key with
  | none =>
    rw [found, Option.map_none, Option.map_eq_none_iff] at same
    exact same.symm
  | some entry =>
    rcases framed.fresh key entry found with old | later
    · exact old.symm
    · rw [found] at same
      obtain ⟨before, at_, stamp⟩ := Option.map_eq_some_iff.mp same
      have bound := sound.stamped key before at_
      omega

/-! ### Every command is local -/

section Commands

variable {α β : Type}

theorem Local.foldlM {step : β → α → StoreM β} {items : List α}
    (steps : ∀ acc, ∀ item ∈ items, Local plain keys β (step acc item)) (acc : β) :
    Local plain keys β (items.foldlM step acc) := by
  induction items generalizing acc with
  | nil => exact Local.pure acc
  | cons item others ih =>
    refine Local.bind (steps acc item List.mem_cons_self) fun next => ?_
    exact ih (fun acc later member => steps acc later (List.mem_cons_of_mem _ member)) next

section

variable (own : key ∈ keys)

include own

theorem local_expireKey (now : Nat) : Local plain keys Unit (expireKey key now) := by
  refine Local.bind (Local.lookup own) fun image => ?_
  split_ifs
  · exact Local.bind (Local.remove own) fun _ => Local.pure _
  · exact Local.pure _

theorem local_storeWithinQuota {value : Value} (other : value.asMemory = none)
    (expiry : Option (Nat × Int)) (reply : Reply) :
    Local plain keys Reply (storeWithinQuota key value expiry reply) := by
  refine Local.bind (Local.canReplace own value) fun admitted => ?_
  split_ifs
  · exact Local.bind (Local.insert own value expiry fun _ => other) fun _ => Local.pure _
  · exact Local.pure _

/-- Expire the key, read it and answer. -/
theorem local_read {γ : Type} (now : Nat) {answer : Option Image → StoreM γ}
    (answers : ∀ entry, Local plain keys γ (answer entry)) :
    Local plain keys γ (do expireKey key now; let entry ← lookup key; answer entry) :=
  Local.bind (local_expireKey own now) fun _ => Local.bind (Local.lookup own) answers

theorem Acts.isLocal {program : StoreM Reply} (acts : Acts plain key entry program) :
    Local plain keys Reply program := by
  cases acts with
  | answer reply => exact Local.pure _
  | write other expiry reply => exact local_storeWithinQuota own other expiry reply
  | shrink _ other _ _ expiry reply =>
    exact Local.bind (Local.insert own _ expiry fun _ => other) fun _ => Local.pure reply
  | restamp _ free expiry reply =>
    exact Local.bind (Local.insert own _ expiry fun held => absurd held free) fun _ => Local.pure reply
  | remove _ reply => exact Local.bind (Local.remove own) fun _ => Local.pure reply

theorem Visits.isLocal {program : StoreM Reply} (visits : Visits plain key now program) :
    Local plain keys Reply program := by
  induction visits with
  | answer reply => exact Local.pure _
  | clock _ bodies => exact Local.bind Local.clock bodies
  | read bodies => exact local_read own now fun entry => (bodies entry).isLocal own

end

theorem local_mset (pairs : List (Bytes × Bytes)) (now : Nat) (own : ∀ pair ∈ pairs, pair.1 ∈ keys) :
    Local plain keys Reply (mset pairs now) := by
  have inside : ∀ key ∈ (OrdMap.ofList pairs).keys, key ∈ keys := by
    intro key member
    obtain ⟨pair, among, rfl⟩ := List.mem_map.mp
      (OrdMap.mem_ofList.mp (OrdMap.mem_keys.mp member))
    exact own pair among
  refine Local.bind (Local.foldlM (fun _ key member => local_expireKey (inside key member) now) ())
    fun _ => Local.bind Local.usedBytes fun used => ?_
  refine Local.bind (Local.foldlM (fun base key member => ?_) used) fun base => ?_
  · refine Local.bind (Local.lookup (inside key member)) fun entry => ?_
    split
    · exact Local.pure _
    · exact Local.bind (Local.raiseWhen _) fun _ => Local.pure _
  · refine Local.bind Local.maxDatasetBytes fun quota => ?_
    split_ifs
    · refine Local.bind (Local.foldlM (fun _ key member => ?_) ()) fun _ => Local.bind ?_ fun _ =>
        Local.pure _
      · exact Local.bind (Local.remove (inside key member)) fun _ => Local.pure _
      · refine Local.foldlM (fun _ pair member => ?_) ()
        exact Local.insert (inside _ (List.mem_map.mpr ⟨pair, member, rfl⟩)) _ _ fun _ => rfl
    · exact Local.pure _

/-- **A command uses only the keys it reports**, and only EXPIRE and PERSIST can store a memory
collection. -/
theorem executeInner_local (command : Command) :
    Local (command.rewrites = false) command.visitKeys Reply (executeInner command) := by
  have onKey : ∀ {key}, command.onKey key → command.visitKeys = [key] →
      Local (command.rewrites = false) command.visitKeys Reply (executeInner command) := by
    intro key own visitKeys
    obtain ⟨body, same, visits⟩ := executeInner_visits own
    rw [same, visitKeys]
    exact Local.bind Local.clock fun clock => (visits clock).isLocal (List.mem_singleton.mpr rfl)
  cases command with
  | hash | list | setCollection | sortedSet | get | set | setWithOptions | incr | decr | expire | ttl
  | persist => exact onKey rfl rfl
  | ping message => cases message <;> exact Local.bind Local.clock fun _ => Local.pure _
  | del keys =>
    refine Local.bind Local.clock fun clock =>
      Local.bind (Local.foldlM (fun count key own => ?_) 0) fun _ => Local.pure _
    exact Local.bind (local_expireKey own clock.now) fun _ =>
      Local.bind (Local.remove own) fun _ => Local.pure _
  | «exists» keys =>
    refine Local.bind Local.clock fun clock =>
      Local.bind (Local.foldlM (fun count key own => ?_) 0) fun _ => Local.pure _
    exact local_read own clock.now fun _ => Local.pure _
  | mGet keys =>
    refine Local.bind Local.clock fun clock =>
      Local.bind (Local.foldlM (fun replies key own => ?_) []) fun _ => Local.pure _
    exact local_read own clock.now fun _ => Local.pure _
  | mSet entries =>
    exact Local.bind Local.clock fun clock =>
      local_mset entries clock.now fun pair member => List.mem_map.mpr ⟨pair, member, rfl⟩
  | _ => exact Local.bind Local.clock fun _ => Local.pure _

/-- An action is plain, or writes back the value that was read. -/
theorem Acts.plain_or {program : StoreM Reply} (acts : Acts plain key entry program) :
    Acts True key entry program ∨
      ∃ image expiry reply, entry = some image ∧
        program = (do insert key image.value expiry; pure reply) := by
  cases acts with
  | answer reply granted => exact .inl (.answer reply granted)
  | write other expiry reply fine => exact .inl (.write other expiry reply fine)
  | shrink found other inhabited smaller expiry reply fine =>
    exact .inl (.shrink found other inhabited smaller expiry reply fine)
  | restamp found _ expiry reply => exact .inr ⟨_, expiry, reply, found, rfl⟩
  | remove found reply fine => exact .inl (.remove found reply fine)

/-! ### Commands create no memory collection -/

/-- Every memory collection of `s` was at its key in `start`, in an image that `kept` relates to the one it
is in now. -/
def Stems (kept : Collection → Image → Image → Prop) (start s : Store) : Prop :=
  ∀ key image collection, s.image? key = some image → image.value = .memory collection →
    ∃ old, start.image? key = some old ∧ kept collection old image

/-- Every memory collection of `s` was at its key in `start`. -/
abbrev Inherits : Store → Store → Prop :=
  Stems fun collection old _ => old.value = .memory collection

variable {start s : Store} {kept : Collection → Image → Image → Prop} {pre middle : Store → Prop}

theorem Inherits.trans {middle : Store} (first : Inherits start middle) (second : Inherits middle s) :
    Inherits start s := by
  intro key image collection found same
  obtain ⟨old, found, same⟩ := second key image collection found same
  exact first key old collection found same

theorem Stems.removed (stems : Stems kept start s) (key : Bytes) :
    Stems kept start (s.removed key) := by
  intro probe image collection found same
  rw [image?_removed] at found
  split_ifs at found
  exact stems probe image collection found same

theorem Stems.installEntry (stems : Stems kept start s)
    (allowed : ∀ collection, image.value = .memory collection →
      ∃ old, start.image? key = some old ∧ kept collection old image) :
    Stems kept start (s.installEntry key image) := by
  intro probe found collection hit same
  rw [image?_installEntry] at hit
  split_ifs at hit with own
  · cases hit
    exact own ▸ allowed collection same
  · exact stems probe found collection hit same

theorem stems_kept (isPlain : plain) (keys : List Bytes) (start : Store) :
    Kept plain keys (Stems kept start) where
  removed := fun stems _ => stems.removed _
  installed := fun image stems _ allowed =>
    stems.installEntry fun collection same => by
      have other := allowed isPlain
      rw [same] at other
      cases other
  raised := fun _ stems => stems

theorem clock_keeps : Triple pre clock fun _ => pre :=
  (clock_triple pre).weaken (fun _ holds => holds) fun _ _ holds => holds.1

/-- An action is plain, so that it stores no collection, or writes back the one that was read. -/
theorem Visits.stems {program : StoreM Reply} (visits : Visits plain key now program)
    (begins : ∀ s, pre s → Stems kept start s)
    (settles : Triple pre (expireKey key now) fun _ => middle)
    (goesOn : ∀ s, middle s → Stems kept start s)
    (restamps : ∀ image expiry (reply : Reply), Triple (fun s => middle s ∧ s.image? key = some image)
      (do insert key image.value expiry; pure reply) fun _ => Stems kept start) :
    Triple pre program fun _ => Stems kept start := by
  induction visits with
  | answer reply => exact Triple.pure begins
  | clock _ bodies => exact Triple.bind clock_keeps bodies
  | read bodies =>
    refine Triple.bind settles fun _ => Triple.bind (lookup_triple middle key) fun entry => ?_
    rcases (bodies entry).plain_or with acts | ⟨image, expiry, reply, rfl, same⟩
    · exact Triple.weaken ((acts.isLocal (List.mem_singleton.mpr rfl)).keeps
        (stems_kept trivial [key] start)) (fun _ holds => goesOn _ holds.1) fun _ _ holds => holds
    · rw [same]
      exact restamps image expiry reply

theorem executeInner_stems (begins : ∀ s, pre s → Stems kept start s)
    (visited : ∀ {plain key now program}, Visits plain key now program →
      Triple pre program fun _ => Stems kept start) (command : Command) :
    Triple pre (executeInner command) fun _ => Stems kept start := by
  by_cases isPlain : command.rewrites = false
  · exact ((executeInner_local command).keeps (stems_kept isPlain _ start)).weaken begins
      fun _ _ holds => holds
  · have onKey : ∀ {key}, command.onKey key →
        Triple pre (executeInner command) fun _ => Stems kept start := by
      intro key own
      obtain ⟨body, same, visits⟩ := executeInner_visits own
      rw [same]
      exact Triple.bind clock_keeps fun clock => visited (visits clock)
    cases command with
    | expire | persist => exact onKey rfl
    | _ => exact absurd rfl isPlain

/-- Writing back the value that was just read. -/
theorem insert_same_inherits (image : Image) (expiry : Option (Nat × Int)) (reply : Reply) :
    Triple (fun s => Inherits start s ∧ s.image? key = some image)
      (do insert key image.value expiry; pure reply) fun _ => Inherits start := by
  rintro s ⟨inherits, found⟩
  show Inherits start (s.inserted key image.value expiry)
  unfold Store.inserted
  cases s.resolveMemberDeadlines key image.value with
  | ok deadlines =>
    exact inherits.installEntry fun collection same => inherits key image collection found same
  | error error => exact inherits

/-- **A command creates no memory collection.** -/
theorem executeInner_inherits (command : Command) :
    Triple (Inherits start) (executeInner command) fun _ => Inherits start :=
  executeInner_stems (fun _ holds => holds) (fun visits => visits.stems (fun _ holds => holds)
    ((local_expireKey (List.mem_singleton.mpr rfl) _).keeps (stems_kept trivial _ start))
    (fun _ holds => holds) insert_same_inherits) command

/-! ### Memory operations are local -/

theorem local_applyMemoryEdit (own : key ∈ keys) (free : ¬plain) (collection : Collection) (edit : Edit) :
    Local plain keys _ (applyMemoryEdit key collection edit) := by
  unfold applyMemoryEdit
  split
  · exact Local.pure _
  · refine Local.bind (Local.canReplace own _) fun admitted => ?_
    split_ifs
    · refine Local.bind (Local.resolve own _) fun resolved => ?_
      split
      · exact Local.pure _
      · exact Local.bind (Local.lookup own) fun entry =>
          Local.bind (Local.insert own _ _ fun held => absurd held free) fun _ =>
          Local.pure _
    · exact Local.pure _

theorem local_memoryAbsent (own : key ∈ keys) (free : ¬plain) (operation : Operation) :
    Local plain keys _ (memoryAbsent key operation) := by
  unfold memoryAbsent
  cases operation with
  | create descriptor =>
    dsimp only
    split
    · exact Local.pure _
    · split
      · exact Local.pure _
      · refine Local.bind (Local.canReplace own _) fun admitted => ?_
        split_ifs
        · exact Local.bind (Local.insert own _ _ fun held => absurd held free) fun _ =>
          Local.pure _
        · exact Local.pure _
  | _ => exact Local.pure _

theorem local_memoryPresent (own : key ∈ keys) (free : ¬plain) (image : Image)
    (collection : Collection) (operation : Operation) :
    Local plain keys _ (memoryPresent key image collection operation) := by
  refine Local.bind Local.clock fun clock => ?_
  split
  · split_ifs <;> exact Local.pure _
  · exact Local.pure _
  · exact Local.pure _
  · split
    · exact Local.pure _
    · exact Local.pure _
    · refine Local.bind (local_applyMemoryEdit own free collection _) fun edited => ?_
      cases edited <;> exact Local.pure _

/-- **A memory operation uses only its key.** -/
theorem memoryInner_local (key : Bytes) (operation : Operation) :
    Local False [key] MemoryOutcome (memoryInner key operation) := by
  have own : key ∈ [key] := List.mem_singleton.mpr rfl
  refine Local.bind ?_ fun outcome => by cases outcome <;> exact Local.pure _
  unfold tryMemoryInner
  split_ifs
  · exact Local.pure _
  · split
    · exact Local.pure _
    · refine Local.bind Local.clock fun clock => local_read own clock.now fun entry => ?_
      split
      · exact local_memoryAbsent own not_false operation
      · split
        · exact local_memoryPresent own not_false _ _ operation
        · exact Local.pure _

end Commands

end Sider

/-
**What the commands on several keys do.**

EXISTS counts the occurrences of live keys, MGET reads each key in order, DEL counts each live key
once, and MSET installs the last value of each key if the charges fit. The final store is described by
the images of its keys. In each case the loop is followed by one induction over the keys.
-/

import Mathlib.Data.Finset.Card
import Sider.Storage.OneKey

namespace Sider

open StateProgram StoreM Store

namespace Store

variable {rest : Nat} {s : Store} {now : Nat}

/-! ### Purging several keys -/

/-- The store without those of the keys that have elapsed. -/
def purgeAll (now : Nat) (s : Store) (keys : List Bytes) : Store :=
  keys.foldl (purge now) s

theorem run_purgeAll (keys : List Bytes) (now : Nat) (s : Store) :
    (keys.foldlM (fun _ key => expireKey key now) ()).run s = ((), s.purgeAll now keys) := by
  induction keys generalizing s with
  | nil => rfl
  | cons key others ih =>
    show (others.foldlM (fun _ key => expireKey key now) ()).run ((expireKey key now).run s).2 = _
    rw [run_purge]
    exact ih _

theorem image?_purgeAll (keys : List Bytes) (s : Store) (key : Bytes) :
    (s.purgeAll now keys).image? key = if key ∈ keys then s.live? now key else s.image? key := by
  induction keys generalizing s with
  | nil => rfl
  | cons other others ih =>
    refine (ih (s.purge now other)).trans ?_
    rw [live?_purge, image?_purge]
    by_cases same : key = other
    · subst same
      simp
    · simp [same]

theorem Sound.purgeAll (holds : Sound rest s) (now : Nat) (keys : List Bytes) :
    Sound rest (s.purgeAll now keys) := by
  induction keys generalizing s with
  | nil => exact holds
  | cons key others ih => exact ih (holds.purge now key)

theorem purgeAll_clock (s : Store) (now : Nat) (keys : List Bytes) :
    (s.purgeAll now keys).clock = s.clock := by
  induction keys generalizing s with
  | nil => rfl
  | cons key others ih => exact (ih (s.purge now key)).trans (purge_clock s now key)

theorem purgeAll_config (s : Store) (now : Nat) (keys : List Bytes) :
    (s.purgeAll now keys).config = s.config := by
  induction keys generalizing s with
  | nil => rfl
  | cons key others ih => exact (ih (s.purge now key)).trans (purge_config s now key)

theorem framed_purgeAll (s : Store) (now : Nat) (keys : List Bytes) :
    Framed keys s (s.purgeAll now keys) := by
  have isLocal : Local False keys Unit (keys.foldlM (fun _ key => expireKey key now) ()) :=
    Local.foldlM (fun _ _ member => local_expireKey member now) ()
  have framed := isLocal.keeps (framed_kept _ keys s) s (framed_self keys s)
  rwa [run_purgeAll] at framed

/-! ### EXISTS and MGET -/

/-- A key holds an entry that has not elapsed. -/
def isLive (s : Store) (now : Nat) (key : Bytes) : Bool := (s.live? now key).isSome

theorem run_existsStep (count : Nat) (key : Bytes) (s : Store) :
    (existsStep now count key).run s =
      (count + if s.isLive now key then 1 else 0, s.purge now key) := by
  show (if (((expireKey key now).run s).2.image? key).isSome then count + 1 else count,
    ((expireKey key now).run s).2) = _
  rw [run_purge, image?_purge, if_pos rfl, isLive]
  split_ifs <;> rfl

/-- EXISTS counts the occurrences of live keys. -/
theorem run_exists (keys : List Bytes) (count : Nat) (s : Store) :
    (keys.foldlM (existsStep now) count).run s =
      (count + keys.countP (s.isLive now), s.purgeAll now keys) := by
  induction keys generalizing count s with
  | nil => rfl
  | cons key others ih =>
    show (others.foldlM (existsStep now) ((existsStep now count key).run s).1).run
      ((existsStep now count key).run s).2 = _
    have others_live : (s.purge now key).isLive now = s.isLive now := by
      funext probe
      unfold isLive
      rw [live?_purge]
    rw [run_existsStep, ih, List.countP_cons, others_live]
    exact Prod.ext (by dsimp only; omega) rfl

/-- What MGET answers for a key. -/
def stringReply (s : Store) (now : Nat) (key : Bytes) : Reply :=
  .bulk ((s.live? now key).bind fun image => image.value.asString)

/-- MGET answers each key in order. -/
theorem run_mGet (keys : List Bytes) (replies : List Reply) (s : Store) :
    (keys.foldlM (mGetStep now) replies).run s =
      (replies ++ keys.map (s.stringReply now), s.purgeAll now keys) := by
  induction keys generalizing replies s with
  | nil => exact Prod.ext (List.append_nil _).symm rfl
  | cons key others ih =>
    have step : (mGetStep now replies key).run s =
        (replies ++ [s.stringReply now key], s.purge now key) := by
      show (replies ++ [Reply.bulk ((((expireKey key now).run s).2.image? key).bind fun image =>
        image.value.asString)], ((expireKey key now).run s).2) = _
      rw [run_purge, image?_purge, if_pos rfl]
      rfl
    have others_read : (s.purge now key).stringReply now = s.stringReply now := by
      funext probe
      unfold stringReply
      rw [live?_purge]
    show (others.foldlM (mGetStep now) ((mGetStep now replies key).run s).1).run
      ((mGetStep now replies key).run s).2 = _
    rw [step, ih, others_read]
    exact Prod.ext (by simp) rfl

/-! ### DEL -/

/-- The store after deleting the keys. -/
def deleted (now : Nat) (s : Store) (keys : List Bytes) : Store :=
  keys.foldl (fun s key => (s.purge now key).removed key) s

theorem image?_deleted (keys : List Bytes) (s : Store) (probe : Bytes) :
    (s.deleted now keys).image? probe = if probe ∈ keys then none else s.image? probe := by
  induction keys generalizing s with
  | nil => rfl
  | cons key others ih =>
    refine (ih ((s.purge now key).removed key)).trans ?_
    rw [image?_removed, image?_purge]
    by_cases same : probe = key
    · subst same
      simp
    · simp [same]

/-- The live keys of a list, once each. -/
def liveKeys (s : Store) (now : Nat) (keys : List Bytes) : Finset Bytes :=
  keys.toFinset.filter fun key => s.isLive now key = true

theorem liveKeys_cons (s : Store) (key : Bytes) (keys : List Bytes) :
    (s.liveKeys now (key :: keys)).card =
      (if s.isLive now key then 1 else 0) +
        (((s.purge now key).removed key).liveKeys now keys).card := by
  have later : ∀ probe, ((s.purge now key).removed key).isLive now probe =
      (s.isLive now probe && probe ≠ key) := by
    intro probe
    unfold isLive live?
    rw [image?_removed, image?_purge]
    by_cases same : probe = key <;> simp [same]
  have rest : ((s.purge now key).removed key).liveKeys now keys =
      (s.liveKeys now (key :: keys)).erase key := by
    ext probe
    simp only [liveKeys, Finset.mem_filter, Finset.mem_erase, List.mem_toFinset, List.mem_cons,
      later, Bool.and_eq_true, decide_eq_true_eq]
    tauto
  rw [rest]
  by_cases live : s.isLive now key = true
  · have member : key ∈ s.liveKeys now (key :: keys) := by simp [liveKeys, live]
    rw [if_pos live, Finset.card_erase_of_mem member]
    have positive := Finset.card_pos.mpr ⟨key, member⟩
    omega
  · have absent : key ∉ s.liveKeys now (key :: keys) := by simp [liveKeys, live]
    rw [if_neg live, Finset.erase_eq_of_notMem absent]
    omega

/-- DEL counts each live key once. -/
theorem run_del (keys : List Bytes) (count : Nat) (s : Store) :
    (keys.foldlM (delStep now) count).run s =
      (count + (s.liveKeys now keys).card, s.deleted now keys) := by
  induction keys generalizing count s with
  | nil => rfl
  | cons key others ih =>
    have step : (delStep now count key).run s =
        (count + if s.isLive now key then 1 else 0, (s.purge now key).removed key) := by
      show (if (((expireKey key now).run s).2.image? key).isSome then count + 1 else count,
        ((expireKey key now).run s).2.removed key) = _
      rw [run_purge, image?_purge, if_pos rfl, isLive]
      split_ifs <;> rfl
    show (others.foldlM (delStep now) ((delStep now count key).run s).1).run
      ((delStep now count key).run s).2 = _
    rw [step, ih, liveKeys_cons]
    exact Prod.ext (by dsimp only; omega) rfl

/-! ### MSET -/

/-- The quota test of MSET on a store whose keys have been expired. -/
def msetAdmits (s : Store) (entries : OrdMap Bytes Bytes) : Bool :=
  (entries.entries.foldlM msetCharge (s.usedBytes - heldAll s entries.keys)).any fun usage =>
    usage ≤ s.config.maxDatasetBytes || usage ≤ s.usedBytes

/-- The store with the pairs installed. -/
def msetStore (s : Store) (entries : OrdMap Bytes Bytes) : Store :=
  ((insertPairs entries.entries).run (entries.keys.foldl removed s)).2

theorem run_mset (holds : Sound rest s) (pairs : List (Bytes × Bytes)) (now : Nat) :
    (mset pairs now).run s =
      if (s.purgeAll now (OrdMap.ofList pairs).keys).msetAdmits (OrdMap.ofList pairs) then
        (.ok, (s.purgeAll now (OrdMap.ofList pairs).keys).msetStore (OrdMap.ofList pairs))
      else (.error .outOfMemory, s.purgeAll now (OrdMap.ofList pairs).keys) := by
  unfold mset
  generalize OrdMap.ofList pairs = entries
  have purged := holds.purgeAll now entries.keys
  have covered := (foldl_removed_sound entries.nodup_keys purged).2
  have released := run_msetRelease purged
    (show heldAll (s.purgeAll now entries.keys) entries.keys ≤
      (s.purgeAll now entries.keys).usedBytes by omega)
  have start := run_purgeAll entries.keys now s
  rw [StateProgram.run_bind, start]
  generalize s.purgeAll now entries.keys = t at released
  rw [StateProgram.run_bind]
  show StateT.run (entries.keys.foldlM msetRelease t.usedBytes >>= _) t = _
  rw [StateProgram.run_bind, released]
  show StateT.run (if t.msetAdmits entries then _ else _ : StoreM Reply) t = _
  cases t.msetAdmits entries with
  | false => rfl
  | true =>
    show (Reply.ok, ((insertPairs entries.entries).run ((removeKeys entries.keys).run t).2).2) = _
    rw [run_removeKeys]
    rfl

/-- The image MSET installs. -/
def stringImage (value : Bytes) : Image := ⟨.string value, none, none, ∅⟩

theorem image?_insertPairs (pairs : List (Bytes × Bytes)) (s : Store) (probe : Bytes)
    (nodup : (pairs.map Prod.fst).Nodup) :
    ((insertPairs pairs).run s).2.image? probe =
      (((OrdMap.find pairs probe).map stringImage).or (s.image? probe)) := by
  induction pairs generalizing s with
  | nil => rfl
  | cons pair others ih =>
    obtain ⟨fresh, tail⟩ := List.nodup_cons.mp nodup
    show ((insertPairs others).run (s.inserted pair.1 (.string pair.2) none)).2.image? probe = _
    have inserted : s.inserted pair.1 (.string pair.2) none =
        s.installEntry pair.1 (stringImage pair.2) := rfl
    rw [ih _ tail, inserted, image?_installEntry, OrdMap.find_cons]
    by_cases same : probe = pair.1
    · have absent : OrdMap.find others probe = none := by
        cases found : OrdMap.find others probe with
        | none => rfl
        | some value =>
          exact absurd (List.mem_map.mpr ⟨_, OrdMap.mem_of_find_eq_some found, same⟩) fresh
      rw [absent, if_pos same, if_pos same]
      rfl
    · rw [if_neg same, if_neg same]

theorem image?_msetStore (s : Store) (entries : OrdMap Bytes Bytes) (probe : Bytes) :
    (s.msetStore entries).image? probe =
      ((entries.get? probe).map stringImage).or (s.image? probe) := by
  unfold msetStore
  rw [image?_insertPairs _ _ _ entries.nodup_keys, image?_foldl_removed]
  show (((entries.get? probe).map stringImage).or _) = _
  cases found : entries.get? probe with
  | some value => rfl
  | none =>
    have absent : probe ∉ entries.keys := fun member =>
      OrdMap.get?_eq_none_iff.mp found (OrdMap.mem_keys.mp member)
    rw [if_neg absent]

/-! ### Rejected commands -/

theorem visits_rejected {plain : Prop} {key : Bytes} {program : StoreM Reply} {error : ExecutionError}
    (visits : Visits plain key now program) (rejected : (program.run s).1 = .error error) :
    (program.run s).2 = s ∨ (program.run s).2 = s.purge now key := by
  induction visits with
  | answer reply => exact .inl rfl
  | clock _ bodies => exact bodies s.clock rejected
  | @read body acts =>
    have purged : (do expireKey key now; let entry ← lookup key; body entry : StoreM Reply).run s =
        (body ((s.purge now key).image? key)).run (s.purge now key) := by
      rw [StateProgram.run_bind, run_purge]
      rfl
    rw [purged] at rejected ⊢
    refine .inr ?_
    have act := acts ((s.purge now key).image? key)
    generalize body ((s.purge now key).image? key) = action at act rejected
    cases act with
    | answer reply => rfl
    | write _ _ _ fine =>
      rw [run_storeWithinQuota] at rejected ⊢
      split_ifs at rejected ⊢
      · exact absurd rejected (fine error)
      · rfl
    | shrink _ _ _ _ _ _ fine | restamp _ _ _ _ fine | remove _ _ fine =>
      exact absurd rejected (fine error)

/-- **A rejected command has no effect** but that keys it names may have gone whose deadline had
passed. -/
theorem executeInner_rejected (holds : Sound rest s) {command : Command} {error : ExecutionError}
    (rejected : ((executeInner command).run s).1 = .error error) :
    ∃ keys, (∀ key ∈ keys, key ∈ command.visitKeys) ∧
      ((executeInner command).run s).2 = s.purgeAll s.clock.now keys := by
  have onKey : ∀ {key}, command.onKey key → ((executeInner command).run s).2 = s ∨
      ((executeInner command).run s).2 = s.purge s.clock.now key := by
    intro key own
    obtain ⟨body, same, visits⟩ := executeInner_visits own
    rw [same] at rejected ⊢
    have kept := visits_rejected (visits s.clock) rejected
    exact kept
  cases command with
  | mSet entries =>
    have run : (executeInner (.mSet entries)).run s = (mset entries s.clock.now).run s := rfl
    rw [run, run_mset holds] at rejected ⊢
    split_ifs at rejected ⊢
    exact ⟨_, fun _ member => OrdMap.mem_ofList.mp (OrdMap.mem_keys.mp member), rfl⟩
  | del | «exists» | mGet => cases rejected
  | ping message => cases message <;> cases rejected
  | memory | info | echo | multi | exec | discard | watch | unwatch | subscribe | unsubscribe | publish =>
    exact ⟨[], List.forall_mem_nil _, rfl⟩
  | _ =>
    rcases onKey rfl with same | same
    · exact ⟨[], List.forall_mem_nil _, same⟩
    · exact ⟨_, fun _ member => member, same⟩

/-- INCR of a text. -/
theorem executeInner_rejected_incr :
    let s := ((executeInner (.set [107] [120])).run (withConfig ⟨1024, by decide, by decide⟩ ⟨0, 0, 9⟩ 0)).2
    ((executeInner (.incr [107])).run s).1 = .error .invalidInteger ∧
      ∃ keys, (∀ key ∈ keys, key ∈ [[107]]) ∧
        ((executeInner (.incr [107])).run s).2 = s.purgeAll 0 keys := by
  intro s
  have rejected : ((executeInner (.incr [107])).run s).1 = .error .invalidInteger := rfl
  exact ⟨rejected, executeInner_rejected (executeInner_sound _ _ (valid_withConfig ..).sound) rejected⟩

end Store

end Sider

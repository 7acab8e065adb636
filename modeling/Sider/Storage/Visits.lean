/-
**What a command does to its key.**

Every command on one key has the same shape (`Visits`): it may answer from the clock alone; otherwise it
expires its key, reads it, and then does one thing, which depends on what it read. `Acts` lists what that
can be, with what the rest of the development needs to know of it: nothing is rewritten without a quota
test unless it is no larger than what the key holds, only EXPIRE and PERSIST write back a value of any
type, and no answer other than that of the quota test is an out-of-memory error.

`executeInner_visits` goes through the commands once. Soundness, locality and the rest then take one case
for each action.
-/

import Sider.Storage.Execute

namespace Sider

open StoreM

variable {α γ : Type} {plain : Prop} {key : Bytes} {now : Nat} {entry : Option Image}
  {value stored : Value}

/-! ### Actions -/

/-- What a command may do to its key once it has read `entry` there; plain ones store no memory
collection. -/
inductive Acts (plain : Prop) (key : Bytes) (entry : Option Image) : StoreM Reply → Prop
  | answer (reply : Reply) (granted : reply ≠ .error .outOfMemory) : Acts plain key entry (pure reply)
  | write {value : Value} (other : value.asMemory = none) (expiry : Option (Nat × Int)) (reply : Reply)
      (fine : ∀ error, reply ≠ .error error) :
      Acts plain key entry (storeWithinQuota key value expiry reply)
  | shrink {value : Value} {image : Image} (found : entry = some image) (other : value.asMemory = none)
      (inhabited : value.inhabited = true) (smaller : value.size ≤ image.value.size)
      (expiry : Option (Nat × Int)) (reply : Reply) (fine : ∀ error, reply ≠ .error error) :
      Acts plain key entry (do insert key value expiry; pure reply)
  | restamp {image : Image} (found : entry = some image) (free : ¬plain) (expiry : Option (Nat × Int))
      (reply : Reply) (fine : ∀ error, reply ≠ .error error) :
      Acts plain key entry (do insert key image.value expiry; pure reply)
  | remove {image : Image} (found : entry = some image) (reply : Reply)
      (fine : ∀ error, reply ≠ .error error) :
      Acts plain key entry (do let _ ← remove key; pure reply)

/-- A program that answers, or expires its key, reads it and acts. -/
inductive Visits (plain : Prop) (key : Bytes) (now : Nat) : StoreM Reply → Prop
  | answer (reply : Reply) (granted : reply ≠ .error .outOfMemory) : Visits plain key now (pure reply)
  | clock {body : Clock → StoreM Reply} (bodies : ∀ clock, Visits plain key now (body clock)) :
      Visits plain key now (clock >>= body)
  | read {body : Option Image → StoreM Reply} (bodies : ∀ entry, Acts plain key entry (body entry)) :
      Visits plain key now (do expireKey key now; let entry ← lookup key; body entry)

/-! ### Sizes -/

theorem sum_le_of_sublist (f : α → Nat) {first second : List α} (sub : first.Sublist second) :
    (first.map f).sum ≤ (second.map f).sum :=
  (sub.map f).sum_le_sum fun _ _ => Nat.zero_le _

theorem entries_erase_sublist (m : OrdMap Bytes α) (key : Bytes) :
    (m.erase key).entries.Sublist m.entries :=
  List.filter_sublist

theorem countErase_sublist (keys : List Bytes) (m : OrdMap Bytes α) (count : Nat) :
    (keys.foldl countErase (m, count)).1.entries.Sublist m.entries := by
  induction keys generalizing m count with
  | nil => exact List.Sublist.refl _
  | cons key rest ih =>
    exact (ih _ _).trans (entries_erase_sublist m key)

/-- Nothing is counted as removed from an empty map. -/
theorem countErase_empty (keys : List Bytes) (count : Nat) :
    (keys.foldl countErase ((∅ : OrdMap Bytes α), count)).2 = count := by
  have erase : ∀ key, (∅ : OrdMap Bytes α).erase key = ∅ := fun key =>
    OrdMap.erase_of_get?_none (OrdMap.get?_empty key)
  induction keys with
  | nil => rfl
  | cons key rest ih =>
    exact ih

theorem scoreErase_sublist (members : List Bytes) (z : SortedSet) (count : Nat) :
    (members.foldl scoreErase (z, count)).1.ordered.entries.Sublist z.ordered.entries := by
  induction members generalizing z count with
  | nil => exact List.Sublist.refl _
  | cons member rest ih =>
    refine (ih _ _).trans ?_
    show (z.unlink member).entries.Sublist z.ordered.entries
    unfold SortedSet.unlink
    split
    · exact List.filter_sublist
    · exact List.Sublist.refl _

theorem scoreErase_empty (members : List Bytes) (z : SortedSet) (empty : z.members = ∅)
    (count : Nat) : (members.foldl scoreErase (z, count)).2 = count := by
  induction members generalizing z with
  | nil => rfl
  | cons member rest ih =>
    have absent : z.members.get? member = none := by rw [empty, OrdMap.get?_empty]
    have next : scoreErase (z, count) member = ((z.remove member).2, count) := by
      unfold scoreErase SortedSet.remove
      simp [absent]
    rw [List.foldl_cons, next]
    refine ih _ ?_
    show z.members.erase member = ∅
    rw [OrdMap.erase_of_get?_none absent, empty]

/-! ### Collections -/

theorem asHash_eq {fields : OrdMap Bytes Bytes} (viewed : stored.asHash = some fields) :
    stored = .hash fields := by
  cases stored <;> simp_all [Value.asHash]

theorem asList_eq {values : List Bytes} (viewed : stored.asList = some values) :
    stored = .list values := by
  cases stored <;> simp_all [Value.asList]

theorem asSet_eq {members : OrdSet Bytes} (viewed : stored.asSet = some members) :
    stored = .set members := by
  cases stored <;> simp_all [Value.asSet]

theorem asSortedSet_eq {members : SortedSet} (viewed : stored.asSortedSet = some members) :
    stored = .sortedSet members := by
  cases stored <;> simp_all [Value.asSortedSet]

theorem asMemory_eq {collection : Collection} (viewed : stored.asMemory = some collection) :
    stored = .memory collection := by
  cases stored <;> simp_all [Value.asMemory]

/-- A collection that the key holds, or the empty one of an absent key. -/
def Viewed {γ : Type} (view : Value → Option γ) (empty : γ) (entry : Option Image) (collection : γ) :
    Prop :=
  (entry = none ∧ collection = empty) ∨
    ∃ image, entry = some image ∧ view image.value = some collection

theorem withCollection_visits {view : Value → Option γ} {empty : γ}
    {body : γ → Option (Nat × Int) → StoreM Reply}
    (bodies : ∀ entry collection expiry, Viewed view empty entry collection →
      Acts plain key entry (body collection expiry)) :
    Visits plain key now (withCollection view empty key now body) := by
  refine .read fun entry => ?_
  cases entry with
  | none => exact bodies _ _ _ (.inl ⟨rfl, rfl⟩)
  | some image =>
    cases viewed : view image.value with
    | none =>
      simp only [viewed]
      exact .answer _ nofun
    | some collection =>
      simp only [viewed]
      exact bodies _ _ _ (.inr ⟨image, rfl, viewed⟩)

/-- A collection that shrank: what is left is stored, or the key removed. -/
theorem acts_shrunk {view : Value → Option γ} {empty collection : γ} (make : γ → Value)
    {isEmpty : Bool} {expiry : Option (Nat × Int)} {reply : Reply}
    (viewed : Viewed view empty entry collection) (other : value.asMemory = none)
    (kept : isEmpty = false → value.inhabited = true)
    (views : ∀ stored, view stored = some collection → stored = make collection)
    (nonempty : collection ≠ empty) (smaller : value.size ≤ (make collection).size)
    (fine : ∀ error, reply ≠ .error error) :
    Acts plain key entry (storeOrRemove key isEmpty value expiry reply) := by
  obtain ⟨_, same⟩ | ⟨image, found, viewed⟩ := viewed
  · exact absurd same nonempty
  · cases isEmpty with
    | true => exact .remove found reply fine
    | false =>
      rw [← views image.value viewed] at smaller
      exact .shrink found other (kept rfl) smaller expiry reply fine

theorem hash_visits (operation : HashCommand) : Visits plain key now (hash key operation now) := by
  refine withCollection_visits fun entry values expiry viewed => ?_
  cases operation with
  | set entries =>
    dsimp only
    split_ifs
    · exact .answer _ nofun
    · exact .write rfl _ _ nofun
  | delete fields =>
    dsimp only
    split_ifs with some
    · refine acts_shrunk Value.hash viewed rfl (fun kept => ?_) (fun _ => asHash_eq) ?_ ?_ nofun
      · simpa [Value.inhabited] using kept
      · rintro rfl
        rw [countErase_empty] at some
        exact absurd some (Nat.lt_irrefl 0)
      · exact sum_le_of_sublist _ (countErase_sublist fields values 0)
    · exact .answer _ nofun
  | _ => exact .answer _ nofun

theorem list_visits (operation : ListCommand) : Visits plain key now (list key operation now) := by
  refine withCollection_visits fun entry values expiry viewed => ?_
  cases operation with
  | push left incoming =>
    dsimp only
    split_ifs
    all_goals first | exact .answer _ nofun | exact .write rfl _ _ nofun
  | pop left =>
    dsimp only
    split
    · rename_i popped value result
      refine acts_shrunk Value.list viewed rfl (fun kept => ?_) (fun _ => asList_eq) ?_ ?_ nofun
      · simpa [Value.inhabited] using kept
      · rintro rfl
        cases left <;> cases result
      · refine sum_le_of_sublist _ ?_
        cases left
        · exact List.dropLast_sublist values
        · exact List.tail_sublist values
    · exact .answer _ nofun
  | _ => exact .answer _ nofun

theorem setCollection_visits (operation : SetCommand) :
    Visits plain key now (setCollection key operation now) := by
  refine withCollection_visits fun entry members expiry viewed => ?_
  cases operation with
  | add incoming =>
    dsimp only
    split_ifs
    · exact .write rfl _ _ nofun
    · exact .answer _ nofun
  | remove incoming =>
    dsimp only
    split_ifs with some
    · refine acts_shrunk Value.set viewed rfl (fun kept => ?_) (fun _ => asSet_eq) ?_ ?_ nofun
      · simpa [Value.inhabited] using kept
      · rintro rfl
        rw [countErase_empty] at some
        exact absurd some (Nat.lt_irrefl 0)
      · exact sum_le_of_sublist _ ((countErase_sublist incoming members 0).map Prod.fst)
    · exact .answer _ nofun
  | _ => exact .answer _ nofun

theorem sortedSet_visits (operation : SortedSetCommand) :
    Visits plain key now (sortedSet key operation now) := by
  refine withCollection_visits fun entry members expiry viewed => ?_
  cases operation with
  | add entries =>
    dsimp only
    split_ifs
    · exact .write rfl _ _ nofun
    · exact .answer _ nofun
  | remove incoming =>
    dsimp only
    split_ifs with some
    · refine acts_shrunk Value.sortedSet viewed rfl (fun kept => ?_) (fun _ => asSortedSet_eq) ?_ ?_ nofun
      · simpa [Value.inhabited] using kept
      · rintro rfl
        rw [scoreErase_empty _ _ rfl] at some
        exact absurd some (Nat.lt_irrefl 0)
      · have sub := ((scoreErase_sublist incoming members 0).map Prod.fst).map ofLex
        exact sum_le_of_sublist _ sub
    · exact .answer _ nofun
  | _ => exact .answer _ nofun

/-! ### Strings and expiry -/

theorem previousInteger_error {error : ExecutionError} (failed : previousInteger entry = .error error) :
    error ≠ .outOfMemory := by
  unfold previousInteger at failed
  split at failed
  · cases failed
  · split at failed
    · cases failed
      nofun
    · split at failed
      · cases failed
      · cases failed
        nofun

theorem increment_visits (delta : Int) : Visits plain key now (increment key delta now) := by
  refine .read fun entry => ?_
  cases previous : previousInteger entry with
  | error error => exact .answer _ fun same => previousInteger_error previous (Reply.error.inj same)
  | ok value =>
    dsimp only
    split
    · exact .answer _ nofun
    · exact .write rfl _ _ nofun

theorem set_visits (value : Bytes) (options : SetOptions) :
    Visits plain key now (set key value options now) := by
  refine .clock fun clock => ?_
  split
  · exact .answer _ nofun
  · refine .read fun previous => ?_
    split_ifs
    all_goals first | exact .answer _ nofun | exact .write rfl _ _ nofun

theorem expire_visits (free : ¬plain) (value : Int) (unit : ExpiryUnit) :
    Visits plain key now (expire key value unit now) := by
  refine .clock fun clock => ?_
  split
  · exact .answer _ nofun
  · rename_i millis _
    generalize (if 0 < millis then clock.deadline millis now else none) = deadline
    by_cases rejected : (decide (0 < millis) && deadline.isNone) = true
    · rw [if_pos rejected]
      exact .answer _ nofun
    · rw [if_neg rejected]
      refine .read fun entry => ?_
      cases entry with
      | none => exact .answer _ nofun
      | some image =>
        split_ifs
        · exact .remove rfl _ nofun
        · exact .restamp rfl free _ _ nofun

theorem persist_visits (free : ¬plain) : Visits plain key now (persist key now) := by
  refine .read fun entry => ?_
  cases entry with
  | none => exact .answer _ nofun
  | some image =>
    dsimp only
    split_ifs
    · exact .answer _ nofun
    · exact .restamp rfl free _ _ nofun

theorem ttl_visits (milliseconds : Bool) : Visits plain key now (ttl key milliseconds now) := by
  refine .read fun entry => ?_
  split
  · exact .answer _ nofun
  · split <;> exact .answer _ nofun

theorem getValue_visits : Visits plain key now (getValue key now) := by
  refine .read fun entry => ?_
  split
  · exact .answer _ nofun
  · split <;> exact .answer _ nofun

/-! ### Every command -/

/-- A command on one key, other than those on a list of keys. -/
def Command.onKey (key : Bytes) : Command → Prop
  | .get other | .hash other _ | .list other _ | .setCollection other _ | .sortedSet other _ => other = key
  | .set other _ | .setWithOptions other .. | .incr other | .decr other | .expire other .. => other = key
  | .ttl other _ | .persist other => other = key
  | _ => False

/-- The commands that write back the value they read, whatever its type. -/
def Command.rewrites : Command → Bool
  | .expire .. | .persist _ => true
  | _ => false

/-- **A command on one key visits it**, at the instant the clock reads. -/
theorem executeInner_visits {command : Command} (own : command.onKey key) :
    ∃ body : Clock → StoreM Reply, executeInner command = clock >>= body ∧
      ∀ clock, Visits (command.rewrites = false) key clock.now (body clock) := by
  cases command with
  | get other => obtain rfl := own; exact ⟨_, rfl, fun _ => getValue_visits⟩
  | hash other operation => obtain rfl := own; exact ⟨_, rfl, fun _ => hash_visits operation⟩
  | list other operation => obtain rfl := own; exact ⟨_, rfl, fun _ => list_visits operation⟩
  | setCollection other operation =>
    obtain rfl := own
    exact ⟨_, rfl, fun _ => setCollection_visits operation⟩
  | sortedSet other operation =>
    obtain rfl := own
    exact ⟨_, rfl, fun _ => sortedSet_visits operation⟩
  | set other value => obtain rfl := own; exact ⟨_, rfl, fun _ => set_visits value {}⟩
  | setWithOptions other value options =>
    obtain rfl := own
    exact ⟨_, rfl, fun _ => set_visits value options⟩
  | incr other => obtain rfl := own; exact ⟨_, rfl, fun _ => increment_visits 1⟩
  | decr other => obtain rfl := own; exact ⟨_, rfl, fun _ => increment_visits (-1)⟩
  | expire other value unit => obtain rfl := own; exact ⟨_, rfl, fun _ => expire_visits nofun value unit⟩
  | ttl other milliseconds => obtain rfl := own; exact ⟨_, rfl, fun _ => ttl_visits milliseconds⟩
  | persist other => obtain rfl := own; exact ⟨_, rfl, fun _ => persist_visits nofun⟩
  | _ => exact own.elim

end Sider

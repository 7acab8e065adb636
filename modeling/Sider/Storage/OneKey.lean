/-
**One command on two stores that agree at its key.**

An owner and a larger store hold the same entry at a key, and the larger one has room for whatever the
owner's quota admits. Every command on that key then answers the same on both, and they still agree
there, unless the owner's quota refuses the command; a refused command only drops an entry that has
elapsed (`executeQueued_serves`).

`Agrees` is the judgement for what a command does once its key has been expired; `Serves` is the one
for whole commands.
-/

import Sider.Storage.Sequential

namespace Sider

open StateProgram StoreM Store

variable {reply : Reply} {value : Value} {expiry : Option (Nat × Int)}
  {body : Option Image → StoreM Reply} {key : Bytes} {now : Nat} {program : StoreM Reply}
  {plain : Prop}

namespace Store

variable {rest : Nat} {s t : Store}

/-! ### Live entries -/

/-- The entry of a key, unless its deadline has elapsed. -/
def live? (s : Store) (now : Nat) (key : Bytes) : Option Image :=
  (s.image? key).filter fun image => !image.expired now

/-- The store without the key if its deadline has elapsed. -/
def purge (now : Nat) (s : Store) (key : Bytes) : Store :=
  if (s.image? key).any (Image.expired · now) then s.removed key else s

theorem run_purge (s : Store) (key : Bytes) (now : Nat) :
    (expireKey key now).run s = ((), s.purge now key) := by
  show (if (s.image? key).any (Image.expired · now) then do
    let _ ← remove key
    pure () else pure () : StoreM Unit).run s = _
  unfold purge
  split_ifs <;> rfl

theorem image?_purge (s : Store) (now : Nat) (key probe : Bytes) :
    (s.purge now key).image? probe = if probe = key then s.live? now key else s.image? probe := by
  unfold purge live?
  cases found : s.image? key with
  | none => split_ifs with same <;> simp_all
  | some image =>
    cases expired : image.expired now with
    | true =>
      rw [Option.any_some, if_pos expired, image?_removed]
      simp [Option.filter_some, expired]
    | false =>
      rw [Option.any_some, if_neg (by simp [expired])]
      split_ifs with same
      · rw [same, found]
        simp [Option.filter_some, expired]
      · rfl

theorem purge_clock (s : Store) (now : Nat) (key : Bytes) : (s.purge now key).clock = s.clock := by
  unfold purge
  split_ifs
  · exact removed_clock s key
  · rfl

theorem purge_config (s : Store) (now : Nat) (key : Bytes) : (s.purge now key).config = s.config := by
  unfold purge
  split_ifs
  · exact removed_config s key
  · rfl

theorem Sound.purge (holds : Sound rest s) (now : Nat) (key : Bytes) :
    Sound rest (s.purge now key) := by
  unfold Store.purge
  split_ifs
  · exact sound_removed holds key
  · exact holds

/-- What a key holds once it has been purged. -/
theorem live?_purge (s : Store) (now : Nat) (key probe : Bytes) :
    (s.purge now key).live? now probe = s.live? now probe := by
  show ((s.purge now key).image? probe).filter _ = _
  rw [image?_purge]
  split_ifs with same
  · subst same
    unfold live?
    simp
  · rfl

end Store

/-! ### Once the key has been expired -/

section Agrees

variable {s t : Store}

/-- The stores hold the same at the key, read the same clock, and `t` has room for what `s` admits. -/
structure Meets (key : Bytes) (s t : Store) : Prop where
  image : s.image? key = t.image? key
  clock : s.clock = t.clock
  room : ∀ value, s.canReplace key value = true → t.canReplace key value = true

/-- The quota of `s` refuses and the key is unchanged, or both stores answer and hold the same. -/
def Outcome (key : Bytes) (s : Store) (left right : Reply × Store) : Prop :=
  (left.1 = .error .outOfMemory ∧ left.2.image? key = s.image? key) ∨
    (left.1 ≠ .error .outOfMemory ∧ right.1 = left.1 ∧ right.2.image? key = left.2.image? key)

def Agrees (key : Bytes) (program : StoreM Reply) : Prop :=
  ∀ s t, Meets key s t → Outcome key s (program.run s) (program.run t)

theorem agrees_answer (granted : reply ≠ .error .outOfMemory) : Agrees key (pure reply) :=
  fun _ _ meets => .inr ⟨granted, rfl, meets.image.symm⟩

theorem agrees_lookup (bodies : ∀ entry, Agrees key (body entry)) :
    Agrees key (lookup key >>= body) := by
  intro s t meets
  show Outcome key s ((body (s.image? key)).run s) ((body (t.image? key)).run t)
  rw [← meets.image]
  exact bodies _ s t meets

theorem image?_inserted_congr (meets : Meets key s t) (value : Value) (expiry : Option (Nat × Int)) :
    (t.inserted key value expiry).image? key = (s.inserted key value expiry).image? key := by
  have resolved : t.resolveMemberDeadlines key value = s.resolveMemberDeadlines key value := by
    unfold Store.resolveMemberDeadlines
    rw [meets.image, meets.clock]
  unfold Store.inserted
  rw [resolved]
  cases s.resolveMemberDeadlines key value with
  | ok deadlines => rw [image?_installEntry, image?_installEntry, if_pos rfl, if_pos rfl]
  | error error => exact meets.image.symm

theorem run_storeWithinQuota (s : Store) : (storeWithinQuota key value expiry reply).run s =
    if s.canReplace key value then (reply, s.inserted key value expiry)
    else (.error .outOfMemory, s) := by
  show (if s.canReplace key value then do insert key value expiry; pure reply
    else pure (.error .outOfMemory) : StoreM Reply).run s = _
  split_ifs <;> rfl

section

variable (granted : reply ≠ .error .outOfMemory)

include granted

theorem agrees_insert : Agrees key (do insert key value expiry; pure reply) :=
  fun _ _ meets => .inr ⟨granted, rfl, image?_inserted_congr meets value expiry⟩

theorem agrees_remove : Agrees key (do let _ ← remove key; pure reply) := by
  intro s t meets
  refine .inr ⟨granted, rfl, ?_⟩
  show (t.removed key).image? key = (s.removed key).image? key
  rw [image?_removed, image?_removed, if_pos rfl, if_pos rfl]

theorem agrees_storeWithinQuota : Agrees key (storeWithinQuota key value expiry reply) := by
  intro s t meets
  rw [run_storeWithinQuota, run_storeWithinQuota]
  cases admitted : s.canReplace key value with
  | false => exact .inl ⟨rfl, rfl⟩
  | true =>
    rw [meets.room value admitted]
    exact agrees_insert granted s t meets

end

theorem Acts.agrees {entry : Option Image} (acts : Acts plain key entry program) :
    Agrees key program := by
  cases acts with
  | answer reply granted => exact agrees_answer granted
  | write _ _ reply fine => exact agrees_storeWithinQuota (fine _)
  | shrink _ _ _ _ _ reply fine => exact agrees_insert (fine _)
  | restamp _ _ _ reply fine => exact agrees_insert (fine _)
  | remove _ reply fine => exact agrees_remove (fine _)

end Agrees

/-! ### Whole commands -/

/-- The owner and the larger store before a command on the key. -/
structure Serving (key : Bytes) (now : Nat) (q u : Store) : Prop where
  image : q.image? key = u.image? key
  clock : q.clock = u.clock
  room : ∀ value, (q.purge now key).canReplace key value = true →
    (u.purge now key).canReplace key value = true

/-- A refused command leaves at the key what has not elapsed; any other one answers the same on both
stores and leaves them with the same there. -/
def Served (key : Bytes) (now : Nat) (u : Store) (left right : Reply × Store) : Prop :=
  (left.1 = .error .outOfMemory ∧ left.2.image? key = (u.purge now key).image? key) ∨
    (left.1 ≠ .error .outOfMemory ∧ right.1 = left.1 ∧ right.2.image? key = left.2.image? key)

def Serves (key : Bytes) (now : Nat) (program : StoreM Reply) : Prop :=
  ∀ q u, Serving key now q u → Served key now u (program.run q) (program.run u)

section Serves

theorem serves_answer (granted : reply ≠ .error .outOfMemory) : Serves key now (pure reply) :=
  fun _ _ serving => .inr ⟨granted, rfl, serving.image.symm⟩

/-- After the key has been expired both stores hold the same there. -/
theorem serves_expireKey {body : StoreM Reply} (agrees : Agrees key body) :
    Serves key now (do expireKey key now; body) := by
  intro q u serving
  have purged : (q.purge now key).image? key = (u.purge now key).image? key := by
    rw [image?_purge, image?_purge, if_pos rfl, if_pos rfl, Store.live?, serving.image]
    rfl
  have meets : Meets key (q.purge now key) (u.purge now key) :=
    ⟨purged, by rw [purge_clock, purge_clock, serving.clock], serving.room⟩
  have left : (do expireKey key now; body : StoreM Reply).run q = body.run (q.purge now key) := by
    show body.run ((expireKey key now).run q).2 = _
    rw [run_purge]
  have right : (do expireKey key now; body : StoreM Reply).run u = body.run (u.purge now key) := by
    show body.run ((expireKey key now).run u).2 = _
    rw [run_purge]
  rw [left, right]
  rcases agrees _ _ meets with ⟨refused, same⟩ | ⟨granted, reply, same⟩
  · exact .inl ⟨refused, same.trans purged⟩
  · exact .inr ⟨granted, reply, same⟩

theorem serves_clock {body : Clock → StoreM Reply} (bodies : ∀ clock, Serves key now (body clock)) :
    Serves key now (clock >>= body) := by
  intro q u serving
  show Served key now u ((body q.clock).run q) ((body u.clock).run u)
  rw [← serving.clock]
  exact bodies _ q u serving

theorem serves_read (bodies : ∀ entry, Agrees key (body entry)) :
    Serves key now (do expireKey key now; let entry ← lookup key; body entry) :=
  serves_expireKey (agrees_lookup bodies)

theorem Visits.serves (visits : Visits plain key now program) : Serves key now program := by
  induction visits with
  | answer reply granted => exact serves_answer granted
  | clock _ bodies => exact serves_clock bodies
  | read bodies => exact serves_read fun entry => (bodies entry).agrees

/-- **Commands on one key.** -/
theorem executeQueued_serves {command : Command} (own : command.onKey key) {q u : Store}
    (serving : Serving key q.clock.now q u) :
    Served key q.clock.now u ((executeQueued command).run q) ((executeQueued command).run u) := by
  have queued : executeQueued command = executeInner command := by
    cases command <;> first | exact own.elim | rfl
  obtain ⟨body, same, visits⟩ := executeInner_visits own
  rw [queued, same]
  show Served key q.clock.now u ((body q.clock).run q) ((body u.clock).run u)
  rw [← serving.clock]
  exact (visits q.clock).serves q u serving

end Serves

end Sider

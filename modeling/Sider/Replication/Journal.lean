/-
**The replication journal.**

The writer publishes every batch it has logged, as an encoded frame; the journal retains the latest
ones within a number of bytes and a number of batches. A subscriber asks for the batch after the last
one it was given: it gets that batch, waits at the head, or is told that it cannot be served.

* `Retained` — what holds of the journal: the retained batches are the last ones published, numbered
  without gaps up to the head, and their bytes are counted exactly.
* `journal_delivery` — in every run of publishers and subscribers, every subscriber has been given
  exactly the batches published after its first cursor, in order.
-/

import Sider.Persistence.Layout

namespace Sider.Replication

/-- A position in the history of one primary. -/
structure Cursor where
  epoch : Epoch
  sequence : Nat
  deriving DecidableEq

namespace Journal

structure Limits where
  maxBytes : Nat
  maxBatches : Nat
  maxFrameBytes : Nat
  deriving DecidableEq, Repr

inductive Error where
  | limit
  | epoch
  | sequence
  | lagged
  | closed
  deriving DecidableEq, Repr

structure Entry where
  cursor : Cursor
  frame : Bytes
  deriving DecidableEq

structure State where
  head : Cursor
  entries : List Entry
  bytes : Nat
  closed : Bool

/-! ### Operations -/

def Limits.refused (limits : Limits) : Bool :=
  limits.maxBytes = 0 || Machine.isizeMax < limits.maxBytes || limits.maxBatches = 0 ||
    limits.maxFrameBytes = 0 || limits.maxBytes < limits.maxFrameBytes

def new (head : Cursor) (limits : Limits) : Except Error State :=
  if limits.refused then .error .limit else .ok ⟨head, [], 0, false⟩

/-- One more frame does not fit. -/
def crowded (limits : Limits) (size : Nat) (entries : List Entry) (bytes : Nat) : Bool :=
  limits.maxBytes - size < bytes || limits.maxBatches ≤ entries.length

/-- Drop the oldest batches until one more frame fits; `none` where the source would panic. -/
def evict (limits : Limits) (size : Nat) : List Entry → Nat → Option (List Entry × Nat)
  | [], bytes => if crowded limits size [] bytes then none else some ([], bytes)
  | removed :: rest, bytes =>
    if crowded limits size (removed :: rest) bytes then
      evict limits size rest (bytes - removed.frame.length)
    else some (removed :: rest, bytes)

/-- Publish the next batch; `none` where the source would panic. -/
def publish (limits : Limits) (state : State) (sequence : Nat) (frame : Bytes) :
    Option (Except Error State) :=
  if frame.isEmpty ∨ limits.maxFrameBytes < frame.length then some (.error .limit)
  else if state.closed then some (.error .closed)
  else if Machine.checkedAdd state.head.sequence 1 ≠ some sequence then some (.error .sequence)
  else do
    let (kept, bytes) ← evict limits frame.length state.entries state.bytes
    let head := { state.head with sequence := sequence }
    some (.ok { state with
      head := head
      entries := kept ++ [⟨head, frame⟩]
      bytes := bytes + frame.length })

/-- The batch after a cursor, or nothing at the head. -/
def next (state : State) (cursor : Cursor) : Except Error (Option Entry) :=
  if state.closed then .error .closed
  else if cursor.epoch ≠ state.head.epoch then .error .epoch
  else if state.head.sequence < cursor.sequence then .error .sequence
  else if cursor.sequence = state.head.sequence then .ok none
  else match Machine.checkedAdd cursor.sequence 1 with
    | none => .error .sequence
    | some sequence =>
      match state.entries.head? with
      | none => .error .lagged
      | some oldest =>
        match Machine.checkedSub sequence oldest.cursor.sequence with
        | none => .error .lagged
        | some index =>
          match state.entries[index]? with
          | none => .error .lagged
          | some entry => .ok (some entry)

/-- `cursor` is the last position already delivered. -/
def subscribe (state : State) (cursor : Cursor) : Except Error Cursor := do
  let _ ← next state cursor
  .ok cursor

def close (state : State) : State :=
  { state with closed := true, entries := [], bytes := 0 }

/-! ### Retention -/

def totalBytes (entries : List Entry) : Nat :=
  (entries.map fun entry => entry.frame.length).sum

/-- What valid limits give. -/
structure Limits.Valid (limits : Limits) : Prop where
  bytes : limits.maxBytes ≤ Machine.isizeMax
  batches : 0 < limits.maxBatches
  frame : limits.maxFrameBytes ≤ limits.maxBytes

variable {history : List Entry} {base cursor : Cursor} {limits : Limits} {state : State}

theorem new_eq_ok {head : Cursor} (ok : new head limits = .ok state) :
    limits.Valid ∧ state = ⟨head, [], 0, false⟩ := by
  unfold new at ok
  split_ifs at ok with refused
  simp only [Limits.refused, Bool.or_eq_true, decide_eq_true_eq, not_or, Nat.not_lt] at refused
  exact ⟨⟨refused.1.1.1.2, Nat.pos_of_ne_zero refused.1.1.2, refused.2⟩, (Except.ok.inj ok).symm⟩

/-- **Eviction** drops some of the oldest batches, never finds the queue empty, and makes room. -/
theorem evict_eq {size : Nat} (valid : limits.Valid) (small : size ≤ limits.maxBytes)
    (entries : List Entry) :
    ∃ count, evict limits size entries (totalBytes entries) =
        some (entries.drop count, totalBytes (entries.drop count)) ∧
      totalBytes (entries.drop count) + size ≤ limits.maxBytes ∧
      (entries.drop count).length < limits.maxBatches := by
  induction entries with
  | nil =>
    have free : crowded limits size [] 0 = false := by
      have some_ := valid.batches
      simp [crowded]
      omega
    exact ⟨0, by rw [evict, totalBytes, List.map_nil, List.sum_nil, free]; rfl,
      by simpa [totalBytes] using small, valid.batches⟩
  | cons oldest entries ih =>
    cases full : crowded limits size (oldest :: entries) (totalBytes (oldest :: entries)) with
    | true =>
      obtain ⟨count, evicted, room, few⟩ := ih
      refine ⟨count + 1, ?_, room, few⟩
      rw [evict, full, show totalBytes (oldest :: entries) - oldest.frame.length = totalBytes entries by
        simp [totalBytes]]
      exact evicted
    | false =>
      simp only [crowded, Bool.or_eq_false_iff, decide_eq_false_iff_not] at full
      refine ⟨0, by rw [evict, crowded, if_neg (by simpa using full)]; rfl, ?_, ?_⟩
      · rw [List.drop_zero]
        omega
      · rw [List.drop_zero]
        omega

/-- What holds of a journal that started at `base`, when `history` was published since. -/
structure Retained (limits : Limits) (base : Cursor) (history : List Entry) (state : State) : Prop where
  numbered : ∀ (index : Nat) (entry : Entry), history[index]? = some entry →
    entry.cursor = ⟨base.epoch, base.sequence + index + 1⟩
  head : state.head = ⟨base.epoch, base.sequence + history.length⟩
  suffix : ∃ count, state.entries = history.drop count
  bytes : state.bytes = totalBytes state.entries
  maxBytes : state.bytes ≤ limits.maxBytes
  maxBatches : state.entries.length ≤ limits.maxBatches
  word : history ≠ [] → state.head.sequence < Machine.word

theorem retained_new (ok : new base limits = .ok state) : Retained limits base [] state := by
  obtain ⟨_, rfl⟩ := new_eq_ok ok
  exact ⟨nofun, rfl, ⟨0, rfl⟩, rfl, Nat.zero_le _, Nat.zero_le _,
    fun some_ => absurd rfl some_⟩

theorem retained_close (retained : Retained limits base history state) :
    Retained limits base history (close state) where
  numbered := retained.numbered
  head := retained.head
  suffix := ⟨history.length, (List.drop_length).symm⟩
  bytes := rfl
  maxBytes := Nat.zero_le _
  maxBatches := Nat.zero_le _
  word := retained.word

section Publish

/-- Publishing never panics; what it accepts is the next batch, which becomes the newest. -/
theorem publish_cases (valid : limits.Valid) (retained : Retained limits base history state)
    (sequence : Nat) (frame : Bytes) :
    (∃ error, publish limits state sequence frame = some (.error error)) ∨
    ∃ count, state.closed = false ∧ frame.length ≤ limits.maxFrameBytes ∧
      sequence = state.head.sequence + 1 ∧ sequence < Machine.word ∧
      totalBytes (state.entries.drop count) + frame.length ≤ limits.maxBytes ∧
      (state.entries.drop count).length < limits.maxBatches ∧
      publish limits state sequence frame = some (.ok { state with
        head := { state.head with sequence := sequence }
        entries := state.entries.drop count ++ [⟨{ state.head with sequence := sequence }, frame⟩]
        bytes := totalBytes (state.entries.drop count) + frame.length }) := by
  unfold publish
  by_cases refused : frame.isEmpty ∨ limits.maxFrameBytes < frame.length
  · exact .inl ⟨.limit, by rw [if_pos refused]⟩
  rw [if_neg refused]
  cases shut : state.closed with
  | true => exact .inl ⟨.closed, rfl⟩
  | false =>
    rw [if_neg (by decide)]
    by_cases numbered : Machine.checkedAdd state.head.sequence 1 ≠ some sequence
    · exact .inl ⟨.sequence, by rw [if_pos numbered]⟩
    rw [if_neg numbered]
    rw [not_or, Nat.not_lt] at refused
    obtain ⟨small, next⟩ := Machine.checkedAdd_eq_some.mp (not_not.mp numbered)
    obtain ⟨count, evicted, room, few⟩ :=
      evict_eq valid (refused.2.trans valid.frame) state.entries
    refine .inr ⟨count, rfl, refused.2, next.symm, next ▸ small, room, few, ?_⟩
    rw [retained.bytes, evicted]
    rfl

/-- The journal after a batch was accepted. -/
theorem retained_publish (valid : limits.Valid) (retained : Retained limits base history state)
    {sequence : Nat} {frame : Bytes} {after : State}
    (published : publish limits state sequence frame = some (.ok after)) :
    Retained limits base (history ++ [⟨⟨state.head.epoch, sequence⟩, frame⟩]) after := by
  rcases publish_cases valid retained sequence frame with refused | accepted
  · obtain ⟨error, refused⟩ := refused
    rw [refused] at published
    cases published
  obtain ⟨count, opened, _, rfl, small, room, few, accepted⟩ := accepted
  cases accepted.symm.trans published
  obtain ⟨dropped, suffix⟩ := retained.suffix
  have headed := retained.head
  refine ⟨fun index entry found => ?_, ?_, ?_, ?_, room, ?_, fun _ => small⟩
  · rw [List.getElem?_append] at found
    split_ifs at found with early
    · exact retained.numbered index entry found
    · rw [List.getElem?_singleton] at found
      split_ifs at found with last
      cases found
      rw [headed]
      refine congrArg (Cursor.mk base.epoch) ?_
      show base.sequence + history.length + 1 = base.sequence + index + 1
      omega
  · rw [headed, List.length_append]
    rfl
  · -- Everything dropped before, and now.
    refine ⟨min (dropped + count) history.length, ?_⟩
    rw [List.drop_append_of_le_length (Nat.min_le_right ..)]
    rw [suffix, List.drop_drop]
    rcases Nat.le_total (dropped + count) history.length with le | le
    · rw [Nat.min_eq_left le]
    · rw [Nat.min_eq_right le, List.drop_length, List.drop_eq_nil_of_le le]
  · simp [totalBytes]
  · rw [List.length_append]
    exact few

end Publish

/-! ### Delivery -/

section Next

variable (retained : Retained limits base history state)

include retained

/-- A cursor that can be served is one of the history. -/
theorem next_range {found : Option Entry} (ok : next state cursor = .ok found) :
    cursor.epoch = base.epoch ∧ base.sequence ≤ cursor.sequence ∧
      cursor.sequence ≤ base.sequence + history.length := by
  have headed := retained.head
  unfold next at ok
  split_ifs at ok with closed foreign beyond same
  · rw [headed] at foreign same
    have at_ : cursor.sequence = base.sequence + history.length := same
    exact ⟨not_not.mp foreign, by omega, by omega⟩
  · rw [headed] at foreign beyond
    refine ⟨not_not.mp foreign, ?_, Nat.le_of_not_lt beyond⟩
    split at ok
    · cases ok
    rename_i sequence added
    split at ok
    · cases ok
    rename_i oldest first
    split at ok
    · cases ok
    rename_i index counted
    obtain ⟨_, rfl⟩ := Machine.checkedAdd_eq_some.mp added
    obtain ⟨le, _⟩ := Machine.checkedSub_eq_some.mp counted
    obtain ⟨count, suffix⟩ := retained.suffix
    rw [suffix, List.head?_drop] at first
    rw [retained.numbered count oldest first] at le
    dsimp only at le
    omega

/-- **What a cursor of the history is given**: the batch after it while it is retained, and nothing at
the head. -/
theorem next_eq {position : Nat} (at_ : cursor = ⟨base.epoch, base.sequence + position⟩)
    (inside : position ≤ history.length) :
    next state cursor =
      if state.closed then .error .closed
      else match history[position]? with
        | none => .ok none
        | some entry => if entry ∈ state.entries then .ok (some entry) else .error .lagged := by
  subst at_
  have headed := retained.head
  unfold next
  cases state.closed with
  | true => rfl
  | false =>
    simp only [Bool.false_eq_true, if_false]
    rw [if_neg (by rw [headed]; exact not_not_intro rfl), if_neg (by rw [headed]; dsimp only; omega)]
    by_cases last : position = history.length
    · subst last
      rw [headed, if_pos rfl, List.getElem?_eq_none (le_refl _)]
    have early : position < history.length := by omega
    have word := retained.word (List.ne_nil_of_length_pos (by omega))
    rw [headed] at word
    rw [if_neg (by rw [headed]; dsimp only; omega), Machine.checkedAdd,
      if_pos (by dsimp only at word ⊢; omega), List.getElem?_eq_getElem early]
    dsimp only
    obtain ⟨count, suffix⟩ := retained.suffix
    -- The batch is retained exactly if it is not among those dropped.
    by_cases kept : count ≤ position
    · have first := retained.numbered count _
        (List.getElem?_eq_getElem (show count < history.length by omega))
      have here : state.entries[position - count]? = some history[position] := by
        rw [suffix, List.getElem?_drop, Nat.add_sub_cancel' kept, List.getElem?_eq_getElem early]
      rw [if_pos (List.mem_of_getElem? here), suffix, List.head?_drop,
        List.getElem?_eq_getElem (show count < history.length by omega)]
      dsimp only
      rw [first, Machine.checkedSub, if_pos (by dsimp only; omega), ← suffix]
      dsimp only
      rw [show base.sequence + position + 1 - (base.sequence + count + 1) = position - count by omega, here]
    · have gone : history[position] ∉ state.entries := by
        intro member
        obtain ⟨index, found⟩ := List.mem_iff_getElem?.mp (suffix ▸ member)
        rw [List.getElem?_drop] at found
        have number := retained.numbered position _ (List.getElem?_eq_getElem early)
        rw [retained.numbered _ _ found] at number
        have same := congrArg Cursor.sequence number
        dsimp only at same
        omega
      rw [if_neg gone, suffix, List.head?_drop]
      cases first : history[count]? with
      | none => rfl
      | some oldest =>
        dsimp only
        rw [retained.numbered count oldest first, Machine.checkedSub, if_neg (by dsimp only; omega)]

end Next

/-- A subscriber: where it started, the last position it was given, and all it was given. -/
structure Subscriber where
  start : Cursor
  cursor : Cursor
  received : List Entry

/-- A journal with its subscribers, and everything published so far. -/
structure System where
  state : State
  history : List Entry
  subscribers : List Subscriber

inductive Operation where
  | publish (sequence : Nat) (frame : Bytes)
  | subscribe (cursor : Cursor)
  | next (index : Nat)
  | close

/-- Hand a subscriber its next batch, if there is one. -/
def Subscriber.advance (state : State) (subscriber : Subscriber) : Subscriber :=
  match Journal.next state subscriber.cursor with
  | .ok (some entry) =>
    { subscriber with cursor := entry.cursor, received := subscriber.received ++ [entry] }
  | _ => subscriber

def step (limits : Limits) (system : System) : Operation → System
  | .publish sequence frame =>
    match publish limits system.state sequence frame with
    | some (.ok after) =>
      { system with
        state := after
        history := system.history ++ [⟨⟨system.state.head.epoch, sequence⟩, frame⟩] }
    | _ => system
  | .subscribe cursor =>
    match subscribe system.state cursor with
    | .ok cursor => { system with subscribers := system.subscribers ++ [⟨cursor, cursor, []⟩] }
    | .error _ => system
  | .next index =>
    { system with subscribers := system.subscribers.modify index (·.advance system.state) }
  | .close => { system with state := close system.state }

def run (limits : Limits) (initial : State) (operations : List Operation) : System :=
  operations.foldl (step limits) ⟨initial, [], []⟩

/-- What a subscriber has been given of the history. -/
structure Delivered (base : Cursor) (history : List Entry) (subscriber : Subscriber) : Prop where
  epoch : subscriber.start.epoch = base.epoch
  since : base.sequence ≤ subscriber.start.sequence
  cursor : subscriber.cursor =
    ⟨base.epoch, subscriber.start.sequence + subscriber.received.length⟩
  reached : subscriber.start.sequence + subscriber.received.length ≤
    base.sequence + history.length
  received : subscriber.received =
    (history.drop (subscriber.start.sequence - base.sequence)).take subscriber.received.length

variable {subscriber : Subscriber}

/-- More history does not change what was given. -/
theorem Delivered.publish (delivered : Delivered base history subscriber) (entry : Entry) :
    Delivered base (history ++ [entry]) subscriber := by
  obtain ⟨epoch, since, cursor, reached, received⟩ := delivered
  refine ⟨epoch, since, cursor, by rw [List.length_append]; omega, ?_⟩
  rw [List.drop_append_of_le_length (by omega), List.take_append_of_le_length]
  · exact received
  · rw [List.length_drop]
    omega

/-- The batches a subscriber has still to be given. -/
def Subscriber.pending (subscriber : Subscriber) (base : Cursor) (history : List Entry) : List Entry :=
  history.drop (subscriber.start.sequence - base.sequence + subscriber.received.length)

/-- What a subscriber is given when it asks, and what it is told otherwise. -/
inductive Advances (base : Cursor) (history : List Entry) (state : State) (subscriber : Subscriber) :
    Except Error (Option Entry) → Subscriber → Prop
  | given {entry : Entry} {rest : List Entry}
      (next : subscriber.pending base history = entry :: rest) :
      Advances base history state subscriber (.ok (some entry))
        { subscriber with cursor := entry.cursor, received := subscriber.received ++ [entry] }
  | waits (all : subscriber.pending base history = []) :
      Advances base history state subscriber (.ok none) subscriber
  | lagged {entry : Entry} {rest : List Entry}
      (next : subscriber.pending base history = entry :: rest) (dropped : entry ∉ state.entries) :
      Advances base history state subscriber (.error .lagged) subscriber
  | closed (shut : state.closed = true) :
      Advances base history state subscriber (.error .closed) subscriber

section Advance

variable (retained : Retained limits base history state) (delivered : Delivered base history subscriber)

include retained delivered

/-- **A subscriber is given exactly its next batch**, unless it has them all or cannot be served. -/
theorem advance_cases : Advances base history state subscriber (next state subscriber.cursor)
    (subscriber.advance state) := by
  obtain ⟨epoch, since, cursor, reached, received⟩ := delivered
  have place : base.sequence + (subscriber.start.sequence - base.sequence + subscriber.received.length) =
      subscriber.start.sequence + subscriber.received.length := by omega
  have asked := next_eq retained (cursor.trans (by rw [← place])) (by omega)
  unfold Subscriber.advance
  rw [asked]
  cases shut : state.closed with
  | true => exact .closed shut
  | false =>
    rw [if_neg (by decide)]
    cases found : history[subscriber.start.sequence - base.sequence + subscriber.received.length]? with
    | none => exact .waits (List.drop_eq_nil_of_le (List.getElem?_eq_none_iff.mp found))
    | some entry =>
      obtain ⟨inside, rfl⟩ := List.getElem?_eq_some_iff.mp found
      have next := List.drop_eq_getElem_cons inside
      dsimp only
      split_ifs with kept
      · exact .given next
      · exact .lagged next kept

theorem Delivered.advance : Delivered base history (subscriber.advance state) := by
  have advances := advance_cases retained delivered
  generalize subscriber.advance state = after, next state subscriber.cursor = answer at advances
  cases advances with
  | waits | lagged | closed => exact delivered
  | @given entry rest next =>
    obtain ⟨epoch, since, cursor, reached, received⟩ := delivered
    have at_ : history[subscriber.start.sequence - base.sequence + subscriber.received.length]? =
        some entry := by
      rw [← List.head?_drop]
      exact congrArg List.head? next
    obtain ⟨inside, _⟩ := List.getElem?_eq_some_iff.mp at_
    refine ⟨epoch, since, ?_, ?_, ?_⟩
    · rw [retained.numbered _ _ at_, List.length_append]
      refine congrArg (Cursor.mk base.epoch) ?_
      show base.sequence + _ + 1 = subscriber.start.sequence + (subscriber.received.length + 1)
      omega
    · show subscriber.start.sequence + (subscriber.received ++ [entry]).length ≤ _
      rw [List.length_append, List.length_singleton]
      omega
    · rw [← List.getElem?_drop] at at_
      rw [List.length_append, List.length_singleton, List.take_add_one, ← received, at_]
      rfl

end Advance

/-- What holds of a journal and its subscribers. -/
structure System.Sound (limits : Limits) (base : Cursor) (system : System) : Prop where
  retained : Retained limits base system.history system.state
  delivered : ∀ subscriber ∈ system.subscribers, Delivered base system.history subscriber

theorem step_sound {system : System} (valid : limits.Valid) (sound : system.Sound limits base)
    (operation : Operation) : (step limits system operation).Sound limits base := by
  obtain ⟨retained, delivered⟩ := sound
  cases operation with
  | publish sequence frame =>
    unfold step
    dsimp only
    split
    · rename_i after published
      exact ⟨retained_publish valid retained published,
        fun subscriber inside => (delivered subscriber inside).publish _⟩
    · exact ⟨retained, delivered⟩
  | subscribe cursor =>
    unfold step subscribe
    dsimp only
    cases found : Journal.next system.state cursor with
    | error error => exact ⟨retained, delivered⟩
    | ok entry =>
      obtain ⟨epoch, since, reached⟩ := next_range retained found
      refine ⟨retained, fun subscriber inside => ?_⟩
      rcases List.mem_append.mp inside with old | new
      · exact delivered subscriber old
      · rw [List.mem_singleton.mp new]
        exact ⟨epoch, since, by rw [← epoch]; rfl, reached, rfl⟩
  | next index =>
    refine ⟨retained, fun subscriber inside => ?_⟩
    have inside : subscriber ∈ system.subscribers.modify index (·.advance system.state) := inside
    obtain ⟨place, at_⟩ := List.mem_iff_getElem?.mp inside
    rw [List.getElem?_modify] at at_
    obtain ⟨old, found, rfl⟩ := Option.map_eq_some_iff.mp at_
    have before := delivered old (List.mem_of_getElem? found)
    split_ifs
    · exact before.advance retained
    · exact before
  | close => exact ⟨retained_close retained, delivered⟩

/-- **Every run keeps the journal and its deliveries sound.** -/
theorem run_sound {initial : State} (ok : new base limits = .ok initial)
    (operations : List Operation) : (run limits initial operations).Sound limits base := by
  obtain ⟨valid, _⟩ := new_eq_ok ok
  have start : System.Sound limits base ⟨initial, [], []⟩ :=
    ⟨retained_new ok, nofun⟩
  unfold run
  generalize (⟨initial, [], []⟩ : System) = system at start
  induction operations generalizing system with
  | nil => exact start
  | cons operation operations ih => exact ih _ (step_sound valid start operation)

/-- **Delivery.** In every run: the retained batches are numbered without gaps up to the head, their
bytes are counted exactly and within the limits, publishing never finds the queue empty and changes
nothing when it is refused, and a subscriber starts at the cursor it asked for. Every subscriber has been
given the batches published after its first cursor, in order, each once. When it asks, it is given exactly
the next one, waits because it has them all, or is told that it lags behind what is retained or that the
journal is closed; the others do not notice. -/
theorem journal_delivery {limits : Limits} {base : Cursor} {initial : State}
    (ok : new base limits = .ok initial) (operations : List Operation) :
    let system := run limits initial operations
    let after := fun operation => run limits initial (operations ++ [operation])
    (∀ (index : Nat) (entry : Entry), system.state.entries[index]? = some entry →
      entry.cursor.epoch = system.state.head.epoch ∧
        entry.cursor.sequence + system.state.entries.length = system.state.head.sequence + index + 1) ∧
    system.state.bytes = totalBytes system.state.entries ∧ system.state.bytes ≤ limits.maxBytes ∧
    system.state.entries.length ≤ limits.maxBatches ∧
    (∀ sequence frame, publish limits system.state sequence frame ≠ none ∧
      ∀ error, publish limits system.state sequence frame = some (.error error) →
        after (.publish sequence frame) = system) ∧
    (∀ (index : Nat) (entry : Entry), system.history[index]? = some entry →
      entry.cursor = ⟨base.epoch, base.sequence + index + 1⟩) ∧
    (∀ cursor, (after (.subscribe cursor)).subscribers = system.subscribers ++ [⟨cursor, cursor, []⟩] ∨
      (∃ error, subscribe system.state cursor = .error error) ∧ after (.subscribe cursor) = system) ∧
    ∀ (index : Nat) subscriber, system.subscribers[index]? = some subscriber →
      base.sequence ≤ subscriber.start.sequence ∧
      subscriber.received = (system.history.drop
        (subscriber.start.sequence - base.sequence)).take subscriber.received.length ∧
      (∃ next, (after (.next index)).subscribers[index]? = some next ∧
        Advances base system.history system.state subscriber
          (Journal.next system.state subscriber.cursor) next) ∧
      ∀ other, other ≠ index →
        (after (.next index)).subscribers[other]? = system.subscribers[other]? := by
  intro system after
  obtain ⟨valid, _⟩ := new_eq_ok ok
  obtain ⟨retained, delivered⟩ := run_sound ok operations
  have stepped : ∀ operation, after operation = step limits system operation := fun operation => by
    show (operations ++ [operation]).foldl _ _ = _
    rw [List.foldl_append]
    rfl
  refine ⟨fun index entry found => ?_, retained.bytes, retained.maxBytes, retained.maxBatches,
    fun sequence frame => ⟨?_, fun error refused => ?_⟩, retained.numbered, fun cursor => ?_,
    fun index subscriber found => ?_⟩
  · obtain ⟨count, suffix⟩ := retained.suffix
    rw [suffix, List.getElem?_drop] at found
    obtain ⟨inside, _⟩ := List.getElem?_eq_some_iff.mp found
    rw [retained.numbered _ _ found, retained.head, suffix, List.length_drop]
    refine ⟨rfl, ?_⟩
    dsimp only
    omega
  · rcases publish_cases valid retained sequence frame with ⟨error, refused⟩ | accepted
    · rw [refused]
      exact Option.some_ne_none _
    · obtain ⟨_, _, _, _, _, _, _, accepted⟩ := accepted
      rw [accepted]
      exact Option.some_ne_none _
  · rw [stepped, step, refused]
  · rw [stepped, step]
    unfold subscribe
    cases Journal.next system.state cursor with
    | error error => exact .inr ⟨⟨error, rfl⟩, rfl⟩
    | ok found => exact .inl rfl
  · have own := delivered subscriber (List.mem_of_getElem? found)
    refine ⟨own.since, own.received, ⟨subscriber.advance system.state, ?_, advance_cases retained own⟩,
      fun other different => ?_⟩
    · rw [stepped]
      show (system.subscribers.modify index _)[index]? = _
      rw [List.getElem?_modify, found]
      exact congrArg some (if_pos rfl)
    · rw [stepped]
      show (system.subscribers.modify index _)[other]? = _
      rw [List.getElem?_modify]
      simp only [if_neg (Ne.symm different), Option.map_eq_map, Option.map_id_fun', id]

/-- Room for one batch: the subscriber is given the first, which the second then replaces. -/
theorem journal_delivery_short :
    new ⟨.zero, 5⟩ ⟨10, 1, 5⟩ = .ok ⟨⟨.zero, 5⟩, [], 0, false⟩ ∧
    let operations := [.subscribe ⟨.zero, 5⟩, .publish 6 [1]]
    let system := run ⟨10, 1, 5⟩ ⟨⟨.zero, 5⟩, [], 0, false⟩ operations
    next system.state ⟨.zero, 5⟩ = .ok (some ⟨⟨.zero, 6⟩, [1]⟩) ∧
    ∃ after, (run ⟨10, 1, 5⟩ ⟨⟨.zero, 5⟩, [], 0, false⟩
        (operations ++ [.next 0])).subscribers[0]? = some after ∧
      Advances ⟨.zero, 5⟩ system.history system.state ⟨⟨.zero, 5⟩, ⟨.zero, 5⟩, []⟩
        (.ok (some ⟨⟨.zero, 6⟩, [1]⟩)) after ∧
      after.received = [⟨⟨.zero, 6⟩, [1]⟩] := by
  have opened : new ⟨.zero, 5⟩ ⟨10, 1, 5⟩ = .ok ⟨⟨.zero, 5⟩, [], 0, false⟩ := rfl
  refine ⟨opened, ?_⟩
  intro operations system
  obtain ⟨_, _, ⟨after, now, advances⟩, _⟩ := (journal_delivery opened operations).2.2.2.2.2.2.2 0
    ⟨⟨.zero, 5⟩, ⟨.zero, 5⟩, []⟩ rfl
  refine ⟨rfl, after, now, advances, ?_⟩
  cases now
  rfl

end Journal

end Sider.Replication

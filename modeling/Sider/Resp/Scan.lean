/-
**What the scanner knows.**

`Reading` is the invariant of a scan: the nodes so far stand for heads that fit the limits, the open
arrays are the levels these heads leave waiting (`waits`), the counters count them, and the heads take no
more bytes in their own encoding than have been read. Every step keeps it and none panics
(`step_sound`); when the scan completes nothing is left waiting (`Scanned`).

A step also does not depend on text that comes later (`step_append`), and one that asks for more text can
be taken up again (`step_resume`).
-/

import Sider.Resp.Numbers
import Sider.Resp.Preorder

namespace Sider.Resp

variable {payload : Payload} {s other : Scanner} {kind : Kind} {line : Line} {byte : Byte}
  {sawCr : Bool} {room : Except Failure Unit} {next later : Byte → Progress}
  {cursor length count : Nat}

theorem bind_congr_ok {ε α β : Type} {first : Except ε α} {next other : α → Except ε β}
    (same : ∀ value, first = .ok value → next value = other value) :
    (first >>= next) = (first >>= other) := by
  cases first with
  | error error => rfl
  | ok value => exact same value rfl

/-! ### Text that comes later -/

section Later

variable {finite : Bytes → Bool} {src : Bytes}

theorem payloadSlice_eq_ok {bytes : Bytes} :
    payloadSlice src payload = .ok bytes ↔ (payload.start ≤ payload.stop ∧ payload.stop ≤ src.length) ∧
      (src.drop payload.start).take (payload.stop - payload.start) = bytes := by
  unfold payloadSlice
  split
  · rename_i inside
    simp [inside]
  · rename_i outside
    exact iff_of_false nofun fun both => outside both.1

theorem length_slice (ordered : payload.start ≤ payload.stop) (inside : payload.stop ≤ src.length) :
    ((src.drop payload.start).take (payload.stop - payload.start)).length =
      payload.stop - payload.start := by
  rw [List.length_take, List.length_drop]
  omega

section

variable (inside : payload.stop ≤ src.length)

include inside

theorem payloadSlice_append (more : Bytes) :
    payloadSlice (src ++ more) payload = payloadSlice src payload := by
  unfold payloadSlice
  by_cases ordered : payload.start ≤ payload.stop
  · rw [if_pos ⟨ordered, by rw [List.length_append]; omega⟩, if_pos ⟨ordered, inside⟩,
      List.drop_append_of_le_length (by omega),
      List.take_append_of_le_length (by rw [List.length_drop]; omega)]
  · rw [if_neg fun both => ordered both.1, if_neg fun both => ordered both.1]

theorem finishLine_append (more : Bytes) :
    s.finishLine finite (src ++ more) kind payload = s.finishLine finite src kind payload := by
  cases kind <;> simp only [Scanner.finishLine, payloadSlice_append inside more]

theorem verbatimFormat_append (more : Bytes) :
    Scanner.verbatimFormat (src ++ more) payload = Scanner.verbatimFormat src payload := by
  unfold Scanner.verbatimFormat
  cases length : Machine.checkedSub payload.stop payload.start with
  | none => rfl
  | some size =>
    obtain ⟨_, same⟩ := Machine.checkedSub_eq_some.mp length
    by_cases short : size < 4
    · simp only [short, if_true]
    · have here : ((Machine.checkedAdd payload.start 3).bind fun position => (src ++ more)[position]?) =
          (Machine.checkedAdd payload.start 3).bind fun position => src[position]? := by
        refine Option.bind_congr fun position at_ => ?_
        obtain ⟨_, rfl⟩ := Machine.checkedAdd_eq_some.mp at_
        exact List.getElem?_append_left (by omega)
      rw [here]

theorem finishBulk_append (more : Bytes) :
    s.finishBulk (src ++ more) payload kind = s.finishBulk src payload kind := by
  unfold Scanner.finishBulk
  rw [verbatimFormat_append inside]

end

theorem readLine_append (inside : s.cursor < src.length) (more : Bytes) :
    s.readLine finite (src ++ more) line byte = s.readLine finite src line byte := by
  refine bind_congr_ok fun cursor sum => ?_
  obtain ⟨_, rfl⟩ := checkedAdd_eq_ok.mp sum
  split
  · split
    · rfl
    · cases offset : Machine.checkedSub (s.cursor + 1) 2 with
      | none => rfl
      | some stop =>
        obtain ⟨_, same⟩ := Machine.checkedSub_eq_some.mp offset
        exact finishLine_append (show stop ≤ src.length by omega) more
  · rfl

theorem readTerminator_append (inside : payload.stop ≤ src.length) (more : Bytes) :
    s.readTerminator (src ++ more) payload sawCr kind byte =
      s.readTerminator src payload sawCr kind byte := by
  unfold Scanner.readTerminator
  simp only [finishBulk_append inside more]

/-- A byte that has been read stays what it is; a missing one is asked for. -/
theorem read_append (more : Bytes) (same : ∀ byte, s.cursor < src.length → later byte = next byte) :
    s.read src room next = .incomplete s ∨
      s.read (src ++ more) room later = s.read src room next := by
  cases room with
  | error failure => exact .inr rfl
  | ok =>
    unfold Scanner.read
    by_cases inside : s.cursor < src.length
    · rw [List.getElem?_append_left inside, List.getElem?_eq_getElem inside]
      exact .inr (congrArg Scanner.goOn (same _ inside))
    · rw [List.getElem?_eq_none (show src.length ≤ s.cursor by omega)]
      exact .inl rfl

theorem read_incomplete (asks : s.read src room next = .incomplete other) : other = s := by
  unfold Scanner.read at asks
  split at asks
  · cases asks
  · split at asks
    · cases asks; rfl
    · unfold Scanner.goOn at asks
      split at asks <;> cases asks

theorem skipTo_append (more : Bytes) (reached : ¬(s.skipTo src payload).cursor < payload.stop) :
    s.skipTo (src ++ more) payload = s.skipTo src payload := by
  unfold Scanner.skipTo at reached ⊢
  split
  · rename_i before
    simp only [before, if_true] at reached
    have whole : min (src ++ more).length payload.stop = min src.length payload.stop := by
      rw [List.length_append]
      omega
    rw [whole]
  · rfl

theorem skipTo_again (s : Scanner) (payload : Payload) (more : Bytes) :
    (s.skipTo src payload).skipTo (src ++ more) payload = s.skipTo (src ++ more) payload := by
  by_cases reached : (s.skipTo src payload).cursor < payload.stop
  · unfold Scanner.skipTo at reached ⊢
    split
    · rename_i before
      simp only [before, if_true] at reached
      simp only [reached, if_true]
    · rename_i behind
      simp only [behind, if_false] at reached
  · rw [skipTo_append more reached]
    show (if _ < payload.stop then _ else _) = _
    rw [if_neg reached]

/-- A step that asks leaves the scanner as it was, or moved over a payload. -/
theorem step_incomplete {next : Scanner} (asks : s.step finite src = .incomplete next) :
    next = s ∨ ∃ payload sawCr kind, s.state = .bulk payload sawCr kind ∧ next = s.skipTo src payload := by
  unfold Scanner.step at asks
  cases state : s.state with
  | prefixByte =>
    rw [state] at asks
    exact .inl (read_incomplete asks)
  | line line =>
    rw [state] at asks
    exact .inl (read_incomplete asks)
  | bulk payload sawCr kind =>
    rw [state] at asks
    refine .inr ⟨payload, sawCr, kind, rfl, ?_⟩
    simp only [Scanner.stepBulk] at asks
    split at asks
    · cases asks; rfl
    · exact read_incomplete asks

/-- **A step that does not ask for more text is not changed by it.** -/
theorem step_append (more : Bytes) (content : ∀ next, s.step finite src ≠ .incomplete next) :
    s.step finite (src ++ more) = s.step finite src := by
  unfold Scanner.step at content ⊢
  cases state : s.state with
  | prefixByte =>
    rw [state] at content
    exact (read_append more fun _ _ => rfl).resolve_left (content s)
  | line line =>
    rw [state] at content
    exact (read_append more fun _ inside => readLine_append inside more).resolve_left (content s)
  | bulk payload sawCr kind =>
    rw [state] at content
    simp only [Scanner.stepBulk] at content ⊢
    by_cases reached : (s.skipTo src payload).cursor < payload.stop
    · rw [if_pos reached] at content
      exact absurd rfl (content _)
    · rw [if_neg reached] at content
      rw [skipTo_append more reached, if_neg reached, if_neg reached]
      exact (read_append more fun _ inside => readTerminator_append
        (show payload.stop ≤ src.length by omega) more).resolve_left (content _)

/-- **A step that asks for more text can be taken up again.** -/
theorem step_resume {next : Scanner} (more : Bytes) (asks : s.step finite src = .incomplete next) :
    next.step finite (src ++ more) = s.step finite (src ++ more) := by
  rcases step_incomplete asks with rfl | ⟨payload, sawCr, kind, state, rfl⟩
  · rfl
  · have kept : (s.skipTo src payload).state = s.state := by
      unfold Scanner.skipTo
      split <;> rfl
    unfold Scanner.step
    rw [kept, state]
    simp only [Scanner.stepBulk, skipTo_again]

end Later

/-! ### The invariant -/

/-- The levels of the frames still to come behind the one in progress. -/
def outstanding : List Nat → List Nat
  | [] => []
  | remaining :: outer => List.replicate (remaining - 1) (outer.length + 1) ++ outstanding outer

/-- The bytes of some heads in their own encoding. -/
def headBytes (heads : List Head) : Nat :=
  (heads.flatMap Head.bytes).length

theorem headBytes_append (heads : List Head) (head : Head) :
    headBytes (heads ++ [head]) = headBytes heads + head.bytes.length := by
  simp [headBytes, List.flatMap_append]

section Invariant

variable (finite : Bytes → Bool) (limits : RespLimits) (src : Bytes)

/-- The nodes, the open arrays and the counters belong to the heads read so far. -/
structure Track (s : Scanner) (heads : List Head) : Prop where
  same : s.limits = limits
  resolved : List.Forall₂ (fun (node : Node) head => node.head src = .ok head) s.nodes heads
  fits : ∀ head ∈ heads, head.Fits finite limits
  positive : ∀ remaining ∈ s.arrays, 0 < remaining
  levels : waits limits.maxDepth [0] heads = some (s.arrays.length :: outstanding s.arrays)
  counted : s.nodesStarted + s.pendingNodes = heads.length + (outstanding s.arrays).length + 1
  budget : s.nodesStarted + s.pendingNodes ≤ limits.maxNodes

/-- Where the scanner stands in the node in progress. -/
def Current (s : Scanner) (heads : List Head) : Prop :=
  match s.state with
  | .prefixByte => s.nodesStarted = heads.length ∧ headBytes heads ≤ s.cursor ∧
      s.cursor ≤ limits.maxFrameBytes
  | .line line => s.nodesStarted = heads.length + 1 ∧ headBytes heads ≤ line.start ∧
      line.payloadStart = line.start + 1 ∧
      (line.kind.isAggregate = true → s.arrays.length + 1 ≤ limits.maxDepth) ∧
      ∃ stop, line.payloadStart ≤ stop ∧ stop + line.sawCr.toNat = s.cursor ∧
        isText ((src.drop line.payloadStart).take (stop - line.payloadStart)) = true
  | .bulk payload sawCr kind => s.nodesStarted = heads.length + 1 ∧
      (kind = .bulk ∨ kind = .blobError ∨ kind = .verbatim) ∧ payload.start ≤ payload.stop ∧
      headBytes heads + (Bytes.decimal (payload.stop - payload.start : Nat)).length + 3 ≤ payload.start ∧
      (Bytes.decimal (payload.stop - payload.start : Nat)).length + 3 ≤ limits.maxLineBytes ∧
      payload.stop - payload.start ≤ limits.maxBulkBytes ∧ payload.stop + 2 ≤ limits.maxFrameBytes ∧
      (if sawCr then s.cursor = payload.stop + 1 else s.cursor ≤ payload.stop)

/-- **The invariant of a scan.** -/
structure Reading (s : Scanner) (heads : List Head) : Prop where
  track : Track finite limits src s heads
  bounded : s.cursor ≤ src.length
  current : Current limits src s heads

/-- A scan that has completed. -/
structure Scanned (s : Scanner) (heads : List Head) : Prop where
  same : s.limits = limits
  resolved : List.Forall₂ (fun (node : Node) head => node.head src = .ok head) s.nodes heads
  fits : ∀ head ∈ heads, head.Fits finite limits
  levels : waits limits.maxDepth [0] heads = some []
  budget : heads.length ≤ limits.maxNodes
  size : headBytes heads ≤ s.cursor
  small : s.cursor ≤ limits.maxFrameBytes
  bounded : s.cursor ≤ src.length

/-- What becomes of a byte keeps the invariant, with the cursor behind it. -/
def Sound (cursor : Nat) : Progress → Prop
  | .ok (false, next) => next.cursor = cursor ∧ ∃ heads, Reading finite limits src next heads
  | .ok (true, next) => next.cursor = cursor ∧ ∃ heads, Scanned finite limits src next heads
  | .error failure => failure ≠ .panic

variable {finite limits src}

theorem sound_malformed (reason : String) :
    Sound finite limits src cursor (malformed reason) := nofun

theorem sound_limitExceeded (limit : String) :
    Sound finite limits src cursor (limitExceeded limit) := nofun

/-- A check in front is harmless when it does not panic. -/
theorem sound_bind {α : Type} {first : Except Failure α} {next : α → Progress}
    (calm : first ≠ .error .panic)
    (rest : ∀ value, first = .ok value → Sound finite limits src cursor (next value)) :
    Sound finite limits src cursor (first >>= next) := by
  cases first with
  | error failure => exact fun wrong => calm (by rw [wrong])
  | ok value => exact rest value rfl

theorem requireFrameEnd_calm (s : Scanner) (stop : Nat) : s.requireFrameEnd stop ≠ .error .panic := by
  unfold Scanner.requireFrameEnd
  split
  · simp [limitExceeded]
  · simp

theorem requireFrameEnd_eq_ok {stop : Nat} :
    s.requireFrameEnd stop = .ok () ↔ stop ≤ s.limits.maxFrameBytes := by
  unfold Scanner.requireFrameEnd
  split
  · simp [limitExceeded]; omega
  · simp; omega

/-! ### Closing a node -/

/-- Finished elements leave the levels that were outstanding. -/
theorem finishArrays_ok {arrays : List Nat} (positive : ∀ remaining ∈ arrays, 0 < remaining) :
    ∃ left, Scanner.finishArrays arrays = .ok left ∧ (∀ remaining ∈ left, 0 < remaining) ∧
      outstanding arrays = if left.isEmpty then [] else left.length :: outstanding left := by
  induction arrays with
  | nil => exact ⟨[], rfl, positive, rfl⟩
  | cons remaining outer ih =>
    obtain ⟨here, others⟩ := List.forall_mem_cons.mp positive
    obtain ⟨rest, rfl⟩ := Nat.exists_eq_add_of_le' here
    have less : Machine.checkedSub (rest + 1) 1 = some rest := by simp [Machine.checkedSub]
    cases rest with
    | zero => exact ih others
    | succ rest =>
      refine ⟨(rest + 1) :: outer, rfl, List.forall_mem_cons.mpr ⟨Nat.succ_pos _, others⟩, ?_⟩
      simp [outstanding, List.replicate_succ]

variable {heads : List Head} {node : Node} {head : Head}

section

variable (track : Track finite limits src s heads)

include track

/-- Neither the cursor nor the state is tracked. -/
theorem Track.move (cursor : Nat) (state : State) :
    Track finite limits src { s with cursor := cursor, state := state } heads :=
  { track with }

theorem Track.resolve (resolved : node.head src = .ok head) :
    List.Forall₂ (fun (node : Node) head => node.head src = .ok head) (s.push node).nodes
      (heads ++ [head]) :=
  List.rel_append track.resolved (.cons resolved .nil)

theorem Track.fit (fits : head.Fits finite limits) :
    ∀ other ∈ heads ++ [head], other.Fits finite limits := by
  simpa [or_imp, forall_and] using ⟨track.fits, fits⟩

/-- The levels behind one more head. -/
theorem Track.wait (deep : head.nests = true → s.arrays.length + 1 ≤ limits.maxDepth) :
    waits limits.maxDepth [0] (heads ++ [head]) =
      some (List.replicate head.arity (s.arrays.length + 1) ++ outstanding s.arrays) := by
  rw [waits_append, track.levels, Option.bind_some]
  exact waits_cons.mpr ⟨deep, rfl⟩

/-- **A head without elements closes its node.** -/
theorem Track.finishNode (begun : s.nodesStarted = heads.length + 1)
    (resolved : node.head src = .ok head) (fits : head.Fits finite limits) (flat : head.arity = 0)
    (deep : head.nests = true → s.arrays.length + 1 ≤ limits.maxDepth)
    (size : headBytes heads + head.bytes.length ≤ s.cursor)
    (small : s.cursor ≤ limits.maxFrameBytes) (bounded : s.cursor ≤ src.length) :
    Sound finite limits src s.cursor (s.push node).finishNode := by
  obtain ⟨left, closed, positive, levels⟩ := finishArrays_ok track.positive
  have waiting := track.wait deep
  rw [flat, List.replicate_zero, List.nil_append, levels] at waiting
  have counted := track.counted
  have budget := track.budget
  rw [levels] at counted
  have resolves := track.resolve resolved
  show Sound finite limits src s.cursor (Scanner.finishArrays s.arrays >>= _)
  rw [closed]
  cases left with
  | nil =>
    refine ⟨rfl, heads ++ [head], track.same, resolves, track.fit fits, waiting, ?_, ?_, small, bounded⟩
    · rw [List.length_append, List.length_singleton]
      omega
    · rw [headBytes_append]
      exact size
  | cons remaining outer =>
    refine ⟨rfl, heads ++ [head], ⟨track.same, resolves, track.fit fits, positive, waiting, ?_, budget⟩,
      bounded, ?_, ?_, small⟩
    · simp only [List.isEmpty_cons, Bool.false_eq_true, if_false, List.length_cons] at counted
      rw [List.length_append, List.length_singleton]
      show s.nodesStarted + s.pendingNodes = heads.length + 1 + (outstanding (remaining :: outer)).length + 1
      omega
    · rw [List.length_append, List.length_singleton]
      exact begun
    · rw [headBytes_append]
      exact size

end

/-! ### Opening an array -/

theorem promise_eq_ok {pending : Nat} :
    s.promise length = .ok pending ↔ s.pendingNodes + length = pending ∧
      s.nodesStarted + pending ≤ s.limits.maxNodes ∧
      s.cursor + pending * 3 ≤ s.limits.maxFrameBytes := by
  obtain ⟨frameRange, _, _, nodeRange, _⟩ := s.limits.representable
  unfold Scanner.promise
  constructor
  · intro promised
    split at promised
    · cases promised
    rename_i sum first
    obtain ⟨_, rfl⟩ := Machine.checkedAdd_eq_some.mp first
    split at promised
    · cases promised
    rename_i declared second
    obtain ⟨_, rfl⟩ := Machine.checkedAdd_eq_some.mp second
    split at promised
    · cases promised
    split at promised
    · cases promised
    rename_i minimum third
    have product : minimum = (s.pendingNodes + length) * 3 := by
      unfold Machine.checkedMul at third
      split at third
      · cases third; rfl
      · cases third
    obtain ⟨stop, fourth, promised⟩ := bind_eq_ok_iff.mp promised
    obtain ⟨_, rfl⟩ := checkedAdd_eq_ok.mp fourth
    obtain ⟨_, fifth, promised⟩ := bind_eq_ok_iff.mp promised
    cases promised
    exact ⟨rfl, by omega, product ▸ requireFrameEnd_eq_ok.mp fifth⟩
  · rintro ⟨rfl, few, room⟩
    rw [Machine.checkedAdd_eq_some.mpr ⟨by omega, rfl⟩]
    dsimp only
    rw [Machine.checkedAdd_eq_some.mpr ⟨by omega, rfl⟩]
    have product : Machine.checkedMul (s.pendingNodes + length) 3 =
        some ((s.pendingNodes + length) * 3) := if_pos (by omega)
    simp only [if_neg (Nat.not_lt.mpr few), product]
    refine bind_eq_ok_iff.mpr ⟨_, checkedAdd_eq_ok.mpr ⟨by omega, rfl⟩, ?_⟩
    exact bind_eq_ok_iff.mpr ⟨(), requireFrameEnd_eq_ok.mpr room, rfl⟩

theorem promise_calm (length : Nat) : s.promise length ≠ .error .panic := by
  unfold Scanner.promise
  split
  · exact nofun
  split
  · exact nofun
  split
  · exact nofun
  split
  · exact nofun
  exact calm_bind (checkedAdd_calm _ _) fun stop =>
    calm_bind (requireFrameEnd_calm s stop) nofun

/-- **A head with elements to come opens a level; an empty one closes its node.** -/
theorem Track.openArray {opened : Aggregate} (track : Track finite limits src s heads)
    (begun : s.nodesStarted = heads.length + 1)
    (resolved : (Node.array (some length) kind).head src = .ok (.opens opened length))
    (fits : (Head.opens opened length).Fits finite limits)
    (deep : s.arrays.length + 1 ≤ limits.maxDepth)
    (size : headBytes heads + (Head.opens opened length).bytes.length ≤ s.cursor)
    (small : s.cursor ≤ limits.maxFrameBytes) (bounded : s.cursor ≤ src.length) :
    Sound finite limits src s.cursor (s.openArray kind length) := by
  refine sound_bind (promise_calm length) fun pending promised => ?_
  obtain ⟨rfl, few, _⟩ := promise_eq_ok.mp promised
  rw [track.same] at few
  have counted := track.counted
  by_cases some_ : 0 < length
  · obtain ⟨rest, rfl⟩ := Nat.exists_eq_add_of_le' some_
    refine ⟨rfl, heads ++ [.opens opened (rest + 1)], ⟨track.same, track.resolve resolved,
      track.fit fits, ?_, ?_, ?_, few⟩, bounded, ?_, ?_, small⟩
    · exact List.forall_mem_cons.mpr ⟨some_, track.positive⟩
    · exact track.wait fun _ => deep
    · rw [List.length_append, List.length_singleton]
      show s.nodesStarted + (s.pendingNodes + (rest + 1)) =
        heads.length + 1 + (List.replicate rest _ ++ outstanding s.arrays).length + 1
      rw [List.length_append, List.length_replicate]
      omega
    · rw [List.length_append, List.length_singleton]
      exact begun
    · rw [headBytes_append]
      exact size
  · obtain rfl : length = 0 := by omega
    have same : Track finite limits src { s with pendingNodes := s.pendingNodes + 0 } heads := track
    exact same.finishNode begun resolved fits rfl (fun _ => deep) size small bounded

/-! ### The end of a line -/

/-- The scanner behind a line whose content is `payload`. -/
structure LineEnd (finite : Bytes → Bool) (limits : RespLimits) (src : Bytes) (s : Scanner)
    (heads : List Head) (kind : Kind) (payload : Payload) : Prop where
  track : Track finite limits src s heads
  begun : s.nodesStarted = heads.length + 1
  size : headBytes heads + 1 ≤ payload.start
  ordered : payload.start ≤ payload.stop
  behind : payload.stop + 2 = s.cursor
  short : payload.stop - payload.start + 3 ≤ limits.maxLineBytes
  small : s.cursor ≤ limits.maxFrameBytes
  bounded : s.cursor ≤ src.length
  text : isText ((src.drop payload.start).take (payload.stop - payload.start)) = true
  deep : kind.isAggregate = true → s.arrays.length + 1 ≤ limits.maxDepth

section

variable (ended : LineEnd finite limits src s heads kind payload)

include ended

theorem LineEnd.slice :
    payloadSlice src payload = .ok ((src.drop payload.start).take (payload.stop - payload.start)) ∧
      ((src.drop payload.start).take (payload.stop - payload.start)).length =
        payload.stop - payload.start := by
  have ordered := ended.ordered
  have behind := ended.behind
  have bounded := ended.bounded
  exact ⟨payloadSlice_eq_ok.mpr ⟨⟨ordered, by omega⟩, rfl⟩, length_slice ordered (by omega)⟩

/-- A leaf that is one line, not longer than the one read. -/
theorem LineEnd.leaf {leaf : Leaf} (resolved : node.head src = .ok (.leaf leaf))
    (valid : leaf.wellFormed finite = true) (plain : leaf.payload = none)
    (shorter : leaf.content.length ≤ payload.stop - payload.start)
    (deep : (Head.leaf leaf).nests = true → kind.isAggregate = true) :
    Sound finite limits src s.cursor (s.push node).finishNode := by
  have ordered := ended.ordered
  have behind := ended.behind
  have size := ended.size
  have short := ended.short
  refine ended.track.finishNode ended.begun resolved ⟨valid, by omega, ?_⟩ rfl
    (fun nests => ended.deep (deep nests)) ?_ ended.small ended.bounded
  · intro value wrong
    rw [plain] at wrong
    cases wrong
  · show headBytes heads + leaf.bytes.length ≤ _
    rw [length_leaf, plain]
    show headBytes heads + (leaf.content.length + 3 + 0) ≤ s.cursor
    omega

/-- A payload of a length that is not longer than the line read. -/
theorem LineEnd.openBulk (bulky : kind = .bulk ∨ kind = .blobError ∨ kind = .verbatim)
    (shorter : (Bytes.decimal length).length ≤ payload.stop - payload.start) :
    Sound finite limits src s.cursor (s.openBulk kind length) := by
  have ordered := ended.ordered
  have behind := ended.behind
  have size := ended.size
  have short := ended.short
  unfold Scanner.openBulk
  split
  · exact sound_limitExceeded _
  rename_i bulk
  refine sound_bind (checkedAdd_calm _ _) fun stop first => ?_
  obtain ⟨_, rfl⟩ := checkedAdd_eq_ok.mp first
  refine sound_bind (checkedAdd_calm _ _) fun terminated second => ?_
  obtain ⟨_, rfl⟩ := checkedAdd_eq_ok.mp second
  refine sound_bind (requireFrameEnd_calm _ _) fun _ room => ?_
  rw [requireFrameEnd_eq_ok, ended.track.same] at room
  rw [ended.track.same] at bulk
  have span : s.cursor + length - s.cursor = length := by omega
  refine ⟨rfl, heads, ended.track.move _ _, ended.bounded, ended.begun, bulky, Nat.le_add_right _ _, ?_, ?_,
    ?_, room, Nat.le_add_right _ _⟩
  · show headBytes heads + (Bytes.decimal (s.cursor + length - s.cursor : Nat)).length + 3 ≤ s.cursor
    rw [span]
    omega
  · rw [span]
    omega
  · show s.cursor + length - s.cursor ≤ _
    omega

end

theorem elements_eq_ok (counted : Scanner.elements kind length = .ok count) :
    count = if kind = .map ∨ kind = .attributes then length * 2 else length := by
  unfold Scanner.elements at counted
  split at counted
  · rename_i paired
    unfold Machine.checkedMul at counted
    rw [if_pos paired]
    split_ifs at counted with fits
    · cases counted; rfl
    · cases counted
  · rename_i single
    rw [if_neg single]
    cases counted
    rfl

theorem elements_calm (length : Nat) : Scanner.elements kind length ≠ .error .panic := by
  unfold Scanner.elements
  split
  · split <;> exact nofun
  · exact nofun

section

variable (ended : LineEnd finite limits src s heads kind payload)

include ended

/-- A number of elements whose length is not longer than the line read. -/
theorem LineEnd.openArray (aggregate : kind.isAggregate = true)
    (counted : count = if kind = .map ∨ kind = .attributes then length * 2 else length)
    (shorter : (Bytes.decimal length).length ≤ payload.stop - payload.start) :
    Sound finite limits src s.cursor (s.openArray kind count) := by
  have ordered := ended.ordered
  have behind := ended.behind
  have size := ended.size
  have short := ended.short
  obtain ⟨opened, resolved, even, declared⟩ : ∃ opened : Aggregate,
      (Node.array (some count) kind).head src = .ok (.opens opened count) ∧
        (opened.paired = true → count % 2 = 0) ∧ opened.declared count = length := by
    cases kind with
    | array => exact ⟨.array, rfl, nofun, counted⟩
    | set => exact ⟨.set, rfl, nofun, counted⟩
    | push => exact ⟨.push, rfl, nofun, counted⟩
    | map =>
      rw [if_pos (.inl rfl)] at counted
      exact ⟨.map, rfl, fun _ => by omega, show count / 2 = length by omega⟩
    | attributes =>
      rw [if_pos (.inr rfl)] at counted
      exact ⟨.attributes, rfl, fun _ => by omega, show count / 2 = length by omega⟩
    | _ => cases aggregate
  refine ended.track.openArray ended.begun resolved ⟨even, ?_⟩ (ended.deep aggregate) ?_ ended.small
    ended.bounded
  · rw [declared]
    omega
  · show headBytes heads + (line _ _).length ≤ _
    rw [length_line, declared]
    omega

theorem LineEnd.finishLength {content : Bytes} {length : Option Nat}
    (counts : kind.isAggregate = true ∨ kind = .bulk ∨
      kind = .blobError ∨ kind = .verbatim) (long : content.length = payload.stop - payload.start)
    (read : parseLength content = .ok length) :
    Sound finite limits src s.cursor (s.finishLength kind length) := by
  cases length with
  | none =>
    have two := congrArg List.length (parseLength_eq_none read)
    rw [long] at two
    simp only [Scanner.finishLength]
    split
    · have shorter : (Leaf.bulk none).content.length ≤ payload.stop - payload.start := by rw [two]; rfl
      exact ended.leaf rfl rfl rfl shorter nofun
    split
    · rename_i array
      have shorter : Leaf.nullArray.content.length ≤ payload.stop - payload.start := by rw [two]; rfl
      exact ended.leaf rfl rfl rfl shorter fun _ => by rw [array]; rfl
    · exact sound_malformed _
  | some length =>
    have shorter := length_of_parseLength read
    rw [long] at shorter
    refine sound_bind (elements_calm length) fun count counted => ?_
    have doubled := elements_eq_ok counted
    split
    · rename_i bulky
      have single : count = length := by
        rw [doubled, if_neg]
        rcases bulky with rfl | rfl | rfl <;> simp
      rw [single]
      exact ended.openBulk bulky shorter
    · rename_i other
      exact ended.openArray (counts.resolve_right other) doubled shorter

/-- **The end of a line keeps the invariant.** -/
theorem LineEnd.finishLine :
    Sound finite limits src s.cursor (s.finishLine finite src kind payload) := by
  obtain ⟨slice, long⟩ := ended.slice
  have text := ended.text
  generalize (src.drop payload.start).take (payload.stop - payload.start) = content at slice long text
  have scalar : ∀ (node : Node) (leaf : Leaf), leaf.content = content → leaf.payload = none →
      leaf.wellFormed finite = true → (Head.leaf leaf).nests = false →
      node.head src = .ok (.leaf leaf) → Sound finite limits src s.cursor (s.push node).finishNode := by
    intro node leaf same plain valid flat resolved
    refine ended.leaf resolved valid plain (by rw [same, long]) fun nests => ?_
    rw [flat] at nests
    cases nests
  cases kind with
  | simple =>
    exact scalar (.simple payload) (.simple content) rfl rfl text rfl (by rw [Node.head, slice]; rfl)
  | error => exact scalar (.error payload) (.error content) rfl rfl text rfl (by rw [Node.head, slice]; rfl)
  | integer =>
    simp only [Scanner.finishLine, slice, ok_bind]
    refine sound_bind (parseInteger_calm content) fun value read => ?_
    have shorter : (Leaf.integer value).content.length ≤ payload.stop - payload.start :=
      long ▸ length_of_parseInteger read
    exact ended.leaf rfl rfl rfl shorter nofun
  | null =>
    simp only [Scanner.finishLine]
    split
    · exact sound_malformed _
    · exact scalar .null .null (List.length_eq_zero_iff.mp (by omega)).symm rfl rfl rfl rfl
  | boolean =>
    simp only [Scanner.finishLine, slice, ok_bind]
    refine sound_bind (parseBoolean_calm content) fun value read => ?_
    exact scalar (.boolean value) (.boolean value) (parseBoolean_eq_ok read).symm rfl rfl rfl rfl
  | double =>
    simp only [Scanner.finishLine, slice, ok_bind]
    split
    · exact sound_malformed _
    · rename_i valid
      rw [Bool.not_eq_true, Bool.not_eq_false'] at valid
      exact scalar (.scalar .double payload) (.double content) rfl rfl valid rfl
        (by rw [Node.head, slice]; rfl)
  | bigNumber =>
    simp only [Scanner.finishLine, slice, ok_bind]
    split
    · exact sound_malformed _
    · rename_i valid
      rw [Bool.not_eq_true, Bool.not_eq_false'] at valid
      exact scalar (.scalar .bigNumber payload) (.bigNumber content) rfl rfl valid rfl
        (by rw [Node.head, slice]; rfl)
  | _ =>
    simp only [Scanner.finishLine, slice, ok_bind]
    exact sound_bind (parseLength_calm content) fun length read =>
      ended.finishLength (by decide) long read

end

/-! ### Single bytes -/

theorem lineRoom_eq_ok :
    s.lineRoom line = .ok () ↔ s.cursor + (if line.sawCr then 1 else 2) ≤ s.limits.maxFrameBytes ∧
      line.start ≤ s.cursor + (if line.sawCr then 1 else 2) ∧
      s.cursor + (if line.sawCr then 1 else 2) - line.start ≤ s.limits.maxLineBytes := by
  have range := s.limits.representable.1
  unfold Scanner.lineRoom
  generalize (if line.sawCr then 1 else 2) = needed
  constructor
  · intro room
    obtain ⟨stop, sum, room⟩ := bind_eq_ok_iff.mp room
    obtain ⟨_, rfl⟩ := checkedAdd_eq_ok.mp sum
    obtain ⟨_, frame, room⟩ := bind_eq_ok_iff.mp room
    rw [requireFrameEnd_eq_ok] at frame
    split at room
    · cases room
    · rename_i length difference
      obtain ⟨behind, rfl⟩ := Machine.checkedSub_eq_some.mp difference
      split at room
      · cases room
      · exact ⟨frame, behind, by omega⟩
  · rintro ⟨frame, behind, short⟩
    refine bind_eq_ok_iff.mpr ⟨_, checkedAdd_eq_ok.mpr ⟨by omega, rfl⟩, ?_⟩
    refine bind_eq_ok_iff.mpr ⟨(), requireFrameEnd_eq_ok.mpr frame, ?_⟩
    rw [Machine.checkedSub_eq_some.mpr ⟨behind, rfl⟩]
    exact if_neg (by omega)

theorem lineRoom_calm (line : Line) : s.lineRoom line ≠ .error .panic := by
  refine calm_bind (checkedAdd_calm _ _) fun stop => calm_bind (requireFrameEnd_calm _ _) fun _ => ?_
  split
  · exact nofun
  split <;> exact nofun

theorem prefixRoom_calm : s.prefixRoom ≠ .error .panic := by
  unfold Scanner.prefixRoom
  split
  · exact calm_bind (checkedAdd_calm _ _) fun stop => requireFrameEnd_calm _ _
  · exact nofun

/-- The format check reads inside the payload. -/
theorem verbatimFormat_eq (ordered : payload.start ≤ payload.stop) (inside : payload.stop ≤ src.length)
    (range : payload.stop < Machine.word) :
    Scanner.verbatimFormat src payload =
      if isVerbatim ((src.drop payload.start).take (payload.stop - payload.start)) then .ok ()
      else malformed "invalid verbatim format" := by
  have long := length_slice ordered inside
  unfold Scanner.verbatimFormat isVerbatim
  rw [long, Machine.checkedSub_eq_some.mpr ⟨ordered, rfl⟩]
  by_cases short : payload.stop - payload.start < 4
  · simp only [short, if_true]
    rw [if_neg]
    simp only [Bool.and_eq_true, decide_eq_true_eq]
    omega
  · simp only [short, if_false]
    have sum : Machine.checkedAdd payload.start 3 = some (payload.start + 3) :=
      Machine.checkedAdd_eq_some.mpr ⟨by omega, rfl⟩
    have here : src[payload.start + 3]? = some src[payload.start + 3] := by simp
    have fourth : ((src.drop payload.start).take (payload.stop - payload.start))[3]? =
        some src[payload.start + 3] := by
      rw [List.getElem?_take_of_lt (by omega), List.getElem?_drop, here]
    rw [sum, Option.bind_some, here, fourth]
    by_cases colon : src[payload.start + 3] = 58
    · simp only [colon, ne_eq, not_true_eq_false, if_false, Nat.not_lt.mp short, decide_true,
        Bool.and_self, if_true]
    · simp [colon]

/-- The payload of a bulk with its terminator. -/
theorem Track.finishBulk (track : Track finite limits src s heads)
    (begun : s.nodesStarted = heads.length + 1)
    (bulky : kind = .bulk ∨ kind = .blobError ∨ kind = .verbatim)
    (ordered : payload.start ≤ payload.stop)
    (size : headBytes heads + (Bytes.decimal (payload.stop - payload.start : Nat)).length + 3 ≤
      payload.start)
    (short : (Bytes.decimal (payload.stop - payload.start : Nat)).length + 3 ≤ limits.maxLineBytes)
    (bulk : payload.stop - payload.start ≤ limits.maxBulkBytes)
    (frame : payload.stop + 2 ≤ limits.maxFrameBytes) (reached : s.cursor = payload.stop + 2)
    (bounded : s.cursor ≤ src.length) :
    Sound finite limits src s.cursor (s.finishBulk src payload kind) := by
  have range := limits.representable.1
  have slice : payloadSlice src payload =
      .ok ((src.drop payload.start).take (payload.stop - payload.start)) :=
    payloadSlice_eq_ok.mpr ⟨⟨ordered, by omega⟩, rfl⟩
  have format := verbatimFormat_eq ordered (show payload.stop ≤ src.length by omega) (by omega)
  have long := length_slice ordered (show payload.stop ≤ src.length by omega)
  generalize (src.drop payload.start).take (payload.stop - payload.start) = content at slice format long
  rw [← long] at size short bulk
  have whole : ∀ (node : Node) (leaf : Leaf), leaf.content = Bytes.decimal content.length →
      leaf.payload = some content → leaf.wellFormed finite = true →
      (Head.leaf leaf).nests = false → node.head src = .ok (.leaf leaf) →
      Sound finite limits src s.cursor (s.push node).finishNode := by
    intro node leaf header body valid flat resolved
    refine track.finishNode begun resolved ⟨valid, by rw [header]; exact short, ?_⟩ rfl ?_ ?_
      (by omega) bounded
    · intro value same
      rw [body] at same
      cases same
      exact bulk
    · intro nests
      rw [flat] at nests
      cases nests
    · show headBytes heads + leaf.bytes.length ≤ s.cursor
      rw [length_leaf, header, body]
      show headBytes heads + ((Bytes.decimal content.length).length + 3 + (content.length + 2)) ≤ _
      omega
  unfold Scanner.finishBulk
  rcases bulky with rfl | rfl | rfl
  · exact whole (.bulk (some payload)) (.bulk (some content)) rfl rfl rfl rfl (by rw [Node.head, slice]; rfl)
  · exact whole (.scalar .blobError payload) (.blobError content) rfl rfl rfl rfl
      (by rw [Node.head, slice]; rfl)
  · simp only [reduceCtorEq, if_false, if_true, format]
    cases valid : isVerbatim content with
    | false => exact sound_malformed _
    | true =>
      exact whole (.scalar .verbatim payload) (.verbatim content) rfl rfl valid rfl
        (by rw [Node.head, slice]; rfl)

theorem cursor_le_skipTo (inside : s.cursor ≤ src.length) :
    s.cursor ≤ (s.skipTo src payload).cursor := by
  unfold Scanner.skipTo
  split
  · rename_i before
    exact Nat.le_min.mpr ⟨inside, Nat.le_of_lt before⟩
  · exact Nat.le_refl _

section

variable (reading : Reading finite limits src s heads)

include reading

/-- **The first byte of a node.** -/
theorem Reading.readKind (state : s.state = .prefixByte) (inside : s.cursor < src.length) :
    Sound finite limits src (s.cursor + 1) (s.readKind byte) := by
  obtain ⟨track, _, current⟩ := reading
  unfold Current at current
  rw [state] at current
  obtain ⟨started, size, small⟩ := current
  unfold Scanner.readKind
  split
  · exact sound_malformed _
  rename_i kind _
  split
  · exact sound_limitExceeded _
  rename_i shallow
  split
  · exact sound_limitExceeded _
  rename_i begun counted
  obtain ⟨sum, few⟩ := Option.filter_eq_some_iff.mp counted
  obtain ⟨_, rfl⟩ := Machine.checkedAdd_eq_some.mp sum
  split
  · exact sound_malformed _
  rename_i pending less
  obtain ⟨some_, rfl⟩ := Machine.checkedSub_eq_some.mp less
  refine sound_bind (checkedAdd_calm _ _) fun cursor next => ?_
  obtain ⟨_, rfl⟩ := checkedAdd_eq_ok.mp next
  have total : s.nodesStarted + 1 + (s.pendingNodes - 1) = s.nodesStarted + s.pendingNodes := by omega
  have deep : kind.isAggregate = true → s.arrays.length + 1 ≤ limits.maxDepth := by
    intro aggregate
    rw [track.same] at shallow
    by_contra full
    exact shallow ⟨aggregate, by omega⟩
  exact ⟨rfl, heads, { track with counted := total ▸ track.counted, budget := total ▸ track.budget },
    inside, congrArg (· + 1) started, size, rfl, deep, s.cursor + 1, Nat.le_refl _, rfl,
    by simp [isText]⟩

/-- **A byte of a line.** -/
theorem Reading.readLine (state : s.state = .line line) (room : s.lineRoom line = .ok ())
    (here : src[s.cursor]? = some byte) :
    Sound finite limits src (s.cursor + 1) (s.readLine finite src line byte) := by
  obtain ⟨inside, _⟩ := List.getElem?_eq_some_iff.mp here
  obtain ⟨track, _, current⟩ := reading
  unfold Current at current
  rw [state] at current
  obtain ⟨begun, size, start, deep, stop, ordered, reached, text⟩ := current
  rw [lineRoom_eq_ok, track.same] at room
  obtain ⟨frame, _, short⟩ := room
  refine sound_bind (checkedAdd_calm _ _) fun cursor next => ?_
  obtain ⟨_, rfl⟩ := checkedAdd_eq_ok.mp next
  cases saw : line.sawCr with
  | true =>
    simp only [if_true]
    rw [saw] at reached frame short
    simp only [Bool.toNat_true, if_true] at reached frame short
    split
    · exact sound_malformed _
    have offset : Machine.checkedSub (s.cursor + 1) 2 = some stop :=
      Machine.checkedSub_eq_some.mpr ⟨by omega, by omega⟩
    rw [offset]
    have ended : LineEnd finite limits src { s with cursor := s.cursor + 1 } heads line.kind
        ⟨line.payloadStart, stop⟩ :=
      ⟨track.move _ s.state, begun, by show headBytes heads + 1 ≤ line.payloadStart; omega, ordered,
        by show stop + 2 = s.cursor + 1; omega,
        by show stop - line.payloadStart + 3 ≤ limits.maxLineBytes; omega, frame, inside, text, deep⟩
    exact ended.finishLine
  | false =>
    simp only [Bool.false_eq_true, if_false]
    rw [saw] at reached
    simp only [Bool.toNat_false, Nat.add_zero] at reached
    split
    · exact sound_malformed _
    rename_i noLf
    refine ⟨rfl, heads, track.move _ _, inside, begun, size, start, deep, ?_⟩
    by_cases isCr : byte = cr
    · refine ⟨stop, ordered, ?_, text⟩
      simp [isCr, reached]
    · refine ⟨stop + 1, Nat.le_succ_of_le ordered, ?_, ?_⟩
      · simp [isCr, reached]
      · have longer : stop + 1 - line.payloadStart = stop - line.payloadStart + 1 := by omega
        have last : (src.drop line.payloadStart)[stop - line.payloadStart]? = some byte := by
          rw [List.getElem?_drop, show line.payloadStart + (stop - line.payloadStart) = s.cursor by omega]
          exact here
        unfold isText at text ⊢
        rw [longer, List.take_add_one, last, List.all_append, text]
        simp [isCr, noLf]

/-- Moving over a payload keeps the invariant. -/
theorem Reading.skipTo (state : s.state = .bulk payload sawCr kind) :
    Reading finite limits src (s.skipTo src payload) heads := by
  unfold Scanner.skipTo
  split
  · obtain ⟨track, bounded, current⟩ := reading
    refine ⟨track.move _ s.state, Nat.min_le_left _ _, ?_⟩
    unfold Current at current ⊢
    simp only [state] at current ⊢
    obtain ⟨begun, bulky, ordered, size, short, bulk, frame, reached⟩ := current
    refine ⟨begun, bulky, ordered, size, short, bulk, frame, ?_⟩
    cases sawCr with
    | true =>
      simp only [if_true] at reached
      omega
    | false => exact Nat.min_le_right _ _
  · exact reading

/-- **A byte behind a payload.** -/
theorem Reading.readTerminator (state : s.state = .bulk payload sawCr kind)
    (behind : payload.stop ≤ s.cursor) (inside : s.cursor < src.length) :
    Sound finite limits src (s.cursor + 1) (s.readTerminator src payload sawCr kind byte) := by
  obtain ⟨track, _, current⟩ := reading
  unfold Current at current
  rw [state] at current
  obtain ⟨begun, bulky, ordered, size, short, bulk, frame, reached⟩ := current
  refine sound_bind (checkedAdd_calm _ _) fun cursor next => ?_
  obtain ⟨_, rfl⟩ := checkedAdd_eq_ok.mp next
  cases sawCr with
  | true =>
    simp only [if_true] at reached ⊢
    split
    · exact sound_malformed _
    · exact (track.move _ s.state).finishBulk begun bulky ordered size short bulk frame
        (by show s.cursor + 1 = payload.stop + 2; omega) inside
  | false =>
    simp only [Bool.false_eq_true, if_false] at reached ⊢
    split
    · exact sound_malformed _
    · refine ⟨rfl, heads, track.move _ _, inside, begun, bulky, ordered, size, short, bulk, frame, ?_⟩
      show s.cursor + 1 = payload.stop + 1
      omega

end

/-! ### Steps -/

/-- What a step leaves. -/
def SoundStep (finite : Bytes → Bool) (limits : RespLimits) (src : Bytes) (s : Scanner)
    (heads : List Head) : Incremental.Step Scanner Failure → Prop
  | .running next => s.cursor < next.cursor ∧ ∃ heads, Reading finite limits src next heads
  | .incomplete next => Reading finite limits src next heads
  | .complete next => s.cursor < next.cursor ∧ ∃ heads, Scanned finite limits src next heads
  | .failed failure => failure ≠ .panic

theorem read_sound (ahead : s.cursor ≤ other.cursor)
    (reading : Reading finite limits src other heads) (calm : room ≠ .error .panic)
    (sound : ∀ byte, room = .ok () → src[other.cursor]? = some byte →
      Sound finite limits src (other.cursor + 1) (next byte)) :
    SoundStep finite limits src s heads (other.read src room next) := by
  unfold Scanner.read
  cases room with
  | error failure => exact fun wrong => calm (by rw [wrong])
  | ok =>
    cases here : src[other.cursor]? with
    | none => exact reading
    | some byte =>
      have kept := sound byte rfl here
      simp only
      generalize next byte = outcome at kept ⊢
      rcases outcome with failure | ⟨_ | _, after⟩
      · exact kept
      · exact ⟨by rw [kept.1]; omega, kept.2⟩
      · exact ⟨by rw [kept.1]; omega, kept.2⟩

/-- **Every step keeps the invariant, and none panics.** -/
theorem step_sound (reading : Reading finite limits src s heads) :
    SoundStep finite limits src s heads (s.step finite src) := by
  unfold Scanner.step
  cases state : s.state with
  | prefixByte =>
    exact read_sound (Nat.le_refl _) reading prefixRoom_calm fun byte _ here =>
      reading.readKind state (List.getElem?_eq_some_iff.mp here).1
  | line line =>
    exact read_sound (Nat.le_refl _) reading (lineRoom_calm line) fun byte room here =>
      reading.readLine state room here
  | bulk payload sawCr kind =>
    have skipped := reading.skipTo state
    have kept : (s.skipTo src payload).state = .bulk payload sawCr kind := by
      unfold Scanner.skipTo
      split
      · exact state
      · exact state
    simp only [Scanner.stepBulk]
    split
    · exact skipped
    · refine read_sound (cursor_le_skipTo reading.bounded) skipped nofun
        fun byte _ here => skipped.readTerminator kept (by omega) (List.getElem?_eq_some_iff.mp here).1

end Invariant

end Sider.Resp

/-
**The RESP encoder.**

Two passes over a frame, each a loop over a stack of frames still to do. The first checks everything and
predicts the size (`encodedSize`), the second writes. The stack holds the next frame first; the source
keeps it last and pushes elements in reverse, which is the same order.

`encodedSize_eq_ok` is the first pass: it accepts exactly the frames that fit the limits, and predicts
`Frame.size`. `encode_eq_ok` is the whole encoder.
-/

import Sider.Resp.Frame

namespace Sider.Resp

variable {total size depth nodes fuel : Nat} {value : Bytes} {leaf : Leaf} {frame : Frame}
  {pending : List (Frame × Nat)}

inductive EncodeError where
  | invalidFrame (reason : String)
  | limitExceeded (limit : String)
  | invalidLimits (error : ConfigError)
  deriving DecidableEq, Repr

section Encoder

variable (finite : Bytes → Bool) (limits : RespLimits)

/-! ### The size of one node -/

/-- A sum that must not overflow or pass a limit. -/
def within (sum : Option Nat) (bound : Nat) (limit : String) : Except EncodeError Nat :=
  match sum.filter (· ≤ bound) with
  | some total => .ok total
  | none => .error (.limitExceeded limit)

def lineSize (content : Nat) : Except EncodeError Nat :=
  within (Machine.checkedAdd content 3) limits.maxLineBytes "max_line_bytes"

/-- A length line, the payload and its terminator. -/
def payloadSize (value : Bytes) : Except EncodeError Nat :=
  if limits.maxBulkBytes < value.length then .error (.limitExceeded "max_bulk_bytes")
  else do
    let size ← lineSize limits (Bytes.decimal value.length).length
    match (Machine.checkedAdd size value.length).bind (Machine.checkedAdd · 2) with
    | some total => .ok total
    | none => .error (.limitExceeded "max_frame_bytes")

/-- A line whose content has a format of its own. -/
def formatSize (value : Bytes) (valid : Bool) (reason : String) : Except EncodeError Nat := do
  let size ← lineSize limits value.length
  if !valid then .error (.invalidFrame reason) else .ok size

def nextDepth (depth : Nat) : Except EncodeError Nat :=
  within (Machine.checkedAdd depth 1) limits.maxDepth "max_depth"

def leafSize (leaf : Leaf) (depth : Nat) : Except EncodeError Nat :=
  match leaf with
  | .simple value | .error value =>
    formatSize limits value (isText value) "simple/error contains CR or LF"
  | .null => lineSize limits 0
  | .boolean _ => lineSize limits 1
  | .double value => formatSize limits value (validScalar finite .double value) "invalid RESP3 scalar"
  | .bigNumber value =>
    formatSize limits value (validScalar finite .bigNumber value) "invalid RESP3 scalar"
  | .blobError value => payloadSize limits value
  | .verbatim value =>
    if !isVerbatim value then .error (.invalidFrame "invalid verbatim format")
    else payloadSize limits value
  | .integer value => lineSize limits (Bytes.decimal value.val).length
  | .bulk none => lineSize limits 2
  | .bulk (some value) => payloadSize limits value
  | .nullArray => do
    let _ ← nextDepth limits depth
    lineSize limits 2

/-- The elements are budgeted before the stack grows. -/
def aggregateSize (kind : Aggregate) (items : List Frame) (depth nodes pending : Nat) :
    Except EncodeError Nat := do
  if kind.paired && items.length % 2 ≠ 0 then .error (.invalidFrame "odd map element count")
  else
    let _ ← nextDepth limits depth
    let _ ← within ((Machine.checkedAdd nodes pending).bind (Machine.checkedAdd · items.length))
      limits.maxNodes "max_nodes"
    lineSize limits (Bytes.decimal (kind.declared items.length)).length

def frameSize (frame : Frame) (depth nodes pending : Nat) : Except EncodeError Nat :=
  match frame with
  | .leaf leaf => leafSize finite limits leaf depth
  | .aggregate kind items => aggregateSize limits kind items depth nodes pending

/-! ### The two passes -/

/-- One frame for each unit of fuel; a frame has `Frame.count` nodes. -/
def sizeLoop : Nat → List (Frame × Nat) → Nat → Nat → Except EncodeError Nat
  | 0, _, _, size => .ok size
  | _ + 1, [], _, size => .ok size
  | fuel + 1, (frame, depth) :: pending, nodes, size => do
    let nodes ← within (Machine.checkedAdd nodes 1) limits.maxNodes "max_nodes"
    let delta ← frameSize finite limits frame depth nodes pending.length
    let size ← within (Machine.checkedAdd size delta) limits.maxFrameBytes "max_frame_bytes"
    sizeLoop fuel (frame.items.map (·, depth + 1) ++ pending) nodes size

def encodedSize (frame : Frame) : Except EncodeError Nat :=
  sizeLoop finite limits frame.count [(frame, 0)] 0 0

def encodeLoop : Nat → List Frame → Bytes → Bytes
  | 0, _, dst => dst
  | _ + 1, [], dst => dst
  | fuel + 1, frame :: pending, dst =>
    encodeLoop fuel (frame.items ++ pending) (dst ++ frame.head.bytes)

/-- Append a frame; on an error the output is what it was. -/
def encode (frame : Frame) (dst : Bytes) : Except EncodeError Unit × Bytes :=
  match limits.validate with
  | .error error => (.error (.invalidLimits error), dst)
  | .ok () =>
    match encodedSize finite limits frame with
    | .error error => (.error error, dst)
    | .ok size =>
      match Machine.checkedAdd dst.length size with
      | none => (.error (.limitExceeded "output capacity"), dst)
      | some _ => (.ok (), encodeLoop frame.count [frame] dst)

variable {finite limits}

/-! ### What one node costs -/

theorem within_eq_ok {sum : Option Nat} {bound : Nat} {limit : String} :
    within sum bound limit = .ok total ↔ sum = some total ∧ total ≤ bound := by
  unfold within
  cases sum with
  | none => simp
  | some value =>
    by_cases small : value ≤ bound
    · simp [Option.filter, small]
      exact fun same => same ▸ small
    · simp [Option.filter, small]
      omega

theorem lineSize_eq_ok {content : Nat} :
    lineSize limits content = .ok size ↔ content + 3 = size ∧ content + 3 ≤ limits.maxLineBytes := by
  have range := limits.representable.2.2.1
  unfold lineSize
  rw [within_eq_ok, Machine.checkedAdd_eq_some]
  omega

theorem payloadSize_eq_ok :
    payloadSize limits value = .ok size ↔
      ((Bytes.decimal value.length).length + 3 ≤ limits.maxLineBytes ∧
        value.length ≤ limits.maxBulkBytes) ∧
      (Bytes.decimal value.length).length + 3 + value.length + 2 = size ∧ size < Machine.word := by
  unfold payloadSize
  by_cases large : limits.maxBulkBytes < value.length
  · rw [if_pos large]
    exact ⟨fun wrong => by simp at wrong, fun ⟨⟨_, small⟩, _⟩ => by omega⟩
  rw [if_neg large, bind_eq_ok_iff]
  constructor
  · rintro ⟨header, sized, total⟩
    obtain ⟨rfl, short⟩ := lineSize_eq_ok.mp sized
    split at total
    · rename_i total' sum
      obtain ⟨middle, first, second⟩ := Option.bind_eq_some_iff.mp sum
      rw [Machine.checkedAdd_eq_some] at first second
      cases total
      exact ⟨⟨short, by omega⟩, by omega, by omega⟩
    · cases total
  · rintro ⟨⟨short, _⟩, rfl, fits⟩
    refine ⟨_, lineSize_eq_ok.mpr ⟨rfl, short⟩, ?_⟩
    have sum : (Machine.checkedAdd ((Bytes.decimal value.length).length + 3) value.length).bind
        (Machine.checkedAdd · 2) =
        some ((Bytes.decimal value.length).length + 3 + value.length + 2) :=
      Option.bind_eq_some_iff.mpr ⟨_, Machine.checkedAdd_eq_some.mpr ⟨by omega, rfl⟩,
        Machine.checkedAdd_eq_some.mpr ⟨fits, rfl⟩⟩
    rw [sum]

theorem formatSize_eq_ok {valid : Bool} {reason : String} :
    formatSize limits value valid reason = .ok size ↔
      valid = true ∧ value.length + 3 ≤ limits.maxLineBytes ∧ value.length + 3 = size := by
  unfold formatSize
  rw [bind_eq_ok_iff]
  constructor
  · rintro ⟨header, sized, checked⟩
    obtain ⟨rfl, short⟩ := lineSize_eq_ok.mp sized
    cases valid with
    | false => simp at checked
    | true => cases checked; exact ⟨rfl, short, rfl⟩
  · rintro ⟨rfl, short, rfl⟩
    exact ⟨_, lineSize_eq_ok.mpr ⟨rfl, short⟩, rfl⟩

theorem nextDepth_eq_ok {next : Nat} :
    nextDepth limits depth = .ok next ↔ depth + 1 = next ∧ depth + 1 ≤ limits.maxDepth := by
  have range := limits.representable.2.2.2.2
  unfold nextDepth
  rw [within_eq_ok, Machine.checkedAdd_eq_some]
  omega

/-- What the encoder has to find for a leaf at some depth. -/
def Leaf.Takes (finite : Bytes → Bool) (limits : RespLimits) (leaf : Leaf) (depth size : Nat) : Prop :=
  (Head.leaf leaf).Fits finite limits ∧
    ((Head.leaf leaf).nests = true → depth + 1 ≤ limits.maxDepth) ∧
    leaf.bytes.length = size ∧ size < Machine.word

theorem takes_line (plain : leaf.payload = none) :
    leaf.Takes finite limits depth size ↔ (leaf.wellFormed finite = true ∧
      ((Head.leaf leaf).nests = true → depth + 1 ≤ limits.maxDepth)) ∧
      leaf.content.length + 3 ≤ limits.maxLineBytes ∧ leaf.content.length + 3 = size := by
  have range := limits.representable.2.2.1
  simp only [Leaf.Takes, Head.Fits, length_leaf, plain]
  constructor
  · rintro ⟨⟨valid, short, _⟩, deep, same, _⟩
    exact ⟨⟨valid, deep⟩, short, same⟩
  · rintro ⟨⟨valid, deep⟩, short, rfl⟩
    exact ⟨⟨valid, short, nofun⟩, deep, rfl, by omega⟩

theorem takes_payload (payload : leaf.payload = some value)
    (content : leaf.content = Bytes.decimal value.length) (flat : (Head.leaf leaf).nests = false) :
    leaf.Takes finite limits depth size ↔
      leaf.wellFormed finite = true ∧ payloadSize limits value = .ok size := by
  simp only [Leaf.Takes, Head.Fits, payloadSize_eq_ok, length_leaf, payload, content, flat]
  constructor
  · rintro ⟨⟨valid, short, bulk⟩, _, same, fits⟩
    exact ⟨valid, ⟨short, bulk value rfl⟩, same, fits⟩
  · rintro ⟨valid, ⟨short, bulk⟩, same, fits⟩
    exact ⟨⟨valid, short, fun _ same => by cases same; exact bulk⟩, by simp, same, fits⟩

/-- **A leaf is accepted when it fits, at the size it has.** -/
theorem leafSize_eq_ok :
    leafSize finite limits leaf depth = .ok size ↔ leaf.Takes finite limits depth size := by
  cases leaf with
  | simple value | error value | double value | bigNumber value =>
    rw [takes_line rfl]
    simp [leafSize, formatSize_eq_ok, Leaf.wellFormed, Leaf.content, Head.nests]
  | null =>
    rw [takes_line rfl]
    simp [leafSize, lineSize_eq_ok, Leaf.wellFormed, Leaf.content, Head.nests, and_comm]
  | boolean value =>
    rw [takes_line rfl]
    have one : (Leaf.boolean value).content.length = 1 := by cases value <;> rfl
    simp [leafSize, lineSize_eq_ok, Leaf.wellFormed, one, Head.nests, and_comm]
  | integer value =>
    rw [takes_line rfl]
    simp [leafSize, lineSize_eq_ok, Leaf.wellFormed, Leaf.content, Head.nests, and_comm]
  | nullArray =>
    rw [takes_line rfl]
    have two : Leaf.nullArray.content.length = 2 := rfl
    simp [leafSize, bind_eq_ok_iff, nextDepth_eq_ok, lineSize_eq_ok, Leaf.wellFormed, two, Head.nests]
    tauto
  | bulk value =>
    cases value with
    | none =>
      rw [takes_line rfl]
      have two : (Leaf.bulk none).content.length = 2 := rfl
      simp [leafSize, lineSize_eq_ok, Leaf.wellFormed, two, Head.nests, and_comm]
    | some value =>
      rw [takes_payload rfl rfl rfl]
      simp [leafSize, Leaf.wellFormed]
  | blobError value =>
    rw [takes_payload rfl rfl rfl]
    simp [leafSize, Leaf.wellFormed]
  | verbatim value =>
    rw [takes_payload rfl rfl rfl]
    cases valid : isVerbatim value <;> simp [leafSize, Leaf.wellFormed, valid]

/-- **An aggregate is accepted when its head fits and its elements do in number.** -/
theorem aggregateSize_eq_ok {kind : Aggregate} {items : List Frame} {depth nodes pending size : Nat} :
    aggregateSize limits kind items depth nodes pending = .ok size ↔
      (Head.opens kind items.length).Fits finite limits ∧ depth + 1 ≤ limits.maxDepth ∧
        (nodes + pending + items.length ≤ limits.maxNodes) ∧
        (Head.opens kind items.length).bytes.length = size := by
  have range := limits.representable.2.2.2.1
  unfold aggregateSize Head.Fits
  simp only [Head.bytes, length_line]
  by_cases odd : (kind.paired && decide (items.length % 2 ≠ 0)) = true
  · rw [if_pos odd]
    simp only [Bool.and_eq_true, decide_eq_true_eq] at odd
    refine ⟨nofun, fun ⟨⟨even, _⟩, _⟩ => absurd (even odd.1) odd.2⟩
  · rw [if_neg odd]
    simp only [Bool.and_eq_true, decide_eq_true_eq, not_and, not_not] at odd
    simp only [bind_eq_ok_iff, nextDepth_eq_ok, lineSize_eq_ok, within_eq_ok, Option.bind_eq_some_iff,
      Machine.checkedAdd_eq_some]
    constructor
    · rintro ⟨_, ⟨rfl, deep⟩, _, ⟨⟨_, ⟨_, rfl⟩, _, rfl⟩, few⟩, rfl, short⟩
      exact ⟨⟨odd, short⟩, deep, few, rfl⟩
    · rintro ⟨⟨_, short⟩, deep, few, rfl⟩
      exact ⟨_, ⟨rfl, deep⟩, _, ⟨⟨_, ⟨by omega, rfl⟩, by omega, rfl⟩, few⟩, rfl, short⟩

theorem frameSize_eq_ok {pending : Nat} :
    frameSize finite limits frame depth nodes pending = .ok size ↔
      frame.head.Fits finite limits ∧ (frame.head.nests = true → depth + 1 ≤ limits.maxDepth) ∧
        (∀ kind items, frame = .aggregate kind items →
          nodes + pending + items.length ≤ limits.maxNodes) ∧
        frame.head.bytes.length = size ∧ size < Machine.word := by
  have range := limits.representable.2.2.1
  cases frame with
  | leaf value =>
    show leafSize finite limits value depth = .ok size ↔ _
    rw [leafSize_eq_ok]
    simp only [Leaf.Takes, Frame.head, Head.bytes, reduceCtorEq, false_implies, implies_true, true_and]
  | aggregate kind items =>
    show aggregateSize limits kind items depth nodes pending = .ok size ↔ _
    rw [@aggregateSize_eq_ok finite]
    simp only [Frame.head, Head.nests, true_implies, Frame.aggregate.injEq, and_imp]
    constructor
    · rintro ⟨fits, deep, few, rfl⟩
      have short := fits.2
      refine ⟨fits, deep, ?_, rfl, ?_⟩
      · rintro _ _ rfl rfl
        exact few
      · simp only [Head.bytes, length_line]
        omega
    · rintro ⟨fits, deep, few, rfl, _⟩
      exact ⟨fits, deep, few kind items rfl rfl, rfl⟩

/-! ### Whole frames -/

/-- The nodes of a stack. -/
def counts (pending : List (Frame × Nat)) : Nat := (pending.map fun entry => entry.1.count).sum

/-- The bytes of a stack. -/
def sizes (pending : List (Frame × Nat)) : Nat := (pending.map fun entry => entry.1.size).sum

theorem counts_step (frame : Frame) (depth : Nat) (pending : List (Frame × Nat)) :
    counts ((frame, depth) :: pending) =
      counts (frame.items.map (·, depth + 1) ++ pending) + 1 := by
  have items : (frame.items.map (·, depth + 1)).map (fun entry => entry.1.count) =
      frame.items.map Frame.count := by
    rw [List.map_map]
    rfl
  rw [counts, counts, List.map_cons, List.sum_cons, List.map_append, List.sum_append, items,
    Frame.count_eq frame]
  omega

theorem sizes_step (frame : Frame) (depth : Nat) (pending : List (Frame × Nat)) :
    sizes ((frame, depth) :: pending) =
      frame.head.bytes.length + sizes (frame.items.map (·, depth + 1) ++ pending) := by
  have items : (frame.items.map (·, depth + 1)).map (fun entry => entry.1.size) =
      frame.items.map Frame.size := by
    rw [List.map_map]
    rfl
  rw [sizes, sizes, List.map_cons, List.sum_cons, List.map_append, List.sum_append, items,
    Frame.size_eq frame, Nat.add_assoc]

theorem length_le_counts (pending : List (Frame × Nat)) : pending.length ≤ counts pending := by
  induction pending with
  | nil => exact Nat.zero_le _
  | cons entry others ih =>
    have positive := entry.1.count_pos
    simp only [counts, List.map_cons, List.sum_cons, List.length_cons] at ih ⊢
    omega

/-- Every frame of a stack is well formed and has room below its depth. -/
def Stacked (finite : Bytes → Bool) (limits : RespLimits) (pending : List (Frame × Nat)) : Prop :=
  ∀ entry ∈ pending, (∀ head ∈ entry.1.heads, head.Fits finite limits) ∧
    entry.1.depth ≤ limits.maxDepth - entry.2

theorem stacked_step :
    Stacked finite limits ((frame, depth) :: pending) ↔
      (frame.head.Fits finite limits ∧ (frame.head.nests = true → depth + 1 ≤ limits.maxDepth)) ∧
        Stacked finite limits (frame.items.map (·, depth + 1) ++ pending) := by
  unfold Stacked
  rw [List.forall_mem_cons, List.forall_mem_append, List.forall_mem_map, Frame.forall_heads,
    Frame.depth_le_iff]
  constructor
  · rintro ⟨⟨⟨head, items⟩, deep, deeper⟩, others⟩
    exact ⟨⟨head, deep⟩, fun item member => ⟨items item member, deeper item member⟩, others⟩
  · rintro ⟨⟨head, deep⟩, items, others⟩
    exact ⟨⟨⟨head, fun item member => (items item member).1⟩, deep,
      fun item member => (items item member).2⟩, others⟩

/-- One round of the first pass. -/
theorem sizeLoop_step :
    sizeLoop finite limits (fuel + 1) ((frame, depth) :: pending) nodes size = .ok total ↔
      (frame.head.Fits finite limits ∧ (frame.head.nests = true → depth + 1 ≤ limits.maxDepth)) ∧
        (∀ kind items, frame = .aggregate kind items →
          nodes + 1 + pending.length + items.length ≤ limits.maxNodes) ∧
        nodes + 1 ≤ limits.maxNodes ∧ size + frame.head.bytes.length ≤ limits.maxFrameBytes ∧
        sizeLoop finite limits fuel (frame.items.map (·, depth + 1) ++ pending) (nodes + 1)
          (size + frame.head.bytes.length) = .ok total := by
  have ranges := limits.representable
  rw [sizeLoop]
  simp only [bind_eq_ok_iff, within_eq_ok, Machine.checkedAdd_eq_some, frameSize_eq_ok]
  constructor
  · rintro ⟨_, ⟨⟨_, rfl⟩, few⟩, _, ⟨fits, deep, budget, rfl, _⟩, _, ⟨⟨_, rfl⟩, small⟩, rest⟩
    exact ⟨⟨fits, deep⟩, budget, few, small, rest⟩
  · rintro ⟨⟨fits, deep⟩, budget, few, small, rest⟩
    exact ⟨_, ⟨⟨by omega, rfl⟩, few⟩, _, ⟨fits, deep, budget, rfl, by omega⟩, _,
      ⟨⟨by omega, rfl⟩, small⟩, rest⟩

/-- With a round for every node, the first pass accepts what fits and adds up its size. -/
theorem sizeLoop_eq_ok (enough : counts pending ≤ fuel) (few : nodes ≤ limits.maxNodes)
    (small : size ≤ limits.maxFrameBytes) :
    sizeLoop finite limits fuel pending nodes size = .ok total ↔ Stacked finite limits pending ∧
      nodes + counts pending ≤ limits.maxNodes ∧ size + sizes pending ≤ limits.maxFrameBytes ∧
      size + sizes pending = total := by
  induction fuel generalizing pending nodes size with
  | zero =>
    have empty : pending = [] := by
      have := length_le_counts pending
      exact List.length_eq_zero_iff.mp (by omega)
    subst empty
    simp [sizeLoop, Stacked, counts, sizes, few, small]
  | succ fuel ih =>
    rcases pending with _ | ⟨⟨frame, depth⟩, others⟩
    · simp [sizeLoop, Stacked, counts, sizes, few, small]
    · rw [sizeLoop_step, stacked_step, counts_step, sizes_step]
      rw [counts_step] at enough
      have inside := length_le_counts (frame.items.map (·, depth + 1) ++ others)
      rw [List.length_append, List.length_map] at inside
      constructor
      · rintro ⟨head, _, more, room, rest⟩
        rw [ih (by omega) more room] at rest
        obtain ⟨stacked, nodes_, bytes, same⟩ := rest
        exact ⟨⟨head, stacked⟩, by omega, by omega, by omega⟩
      · rintro ⟨⟨head, stacked⟩, nodes_, bytes, same⟩
        refine ⟨head, ?_, by omega, by omega, (ih (by omega) (by omega) (by omega)).mpr
          ⟨stacked, by omega, by omega, by omega⟩⟩
        rintro kind items rfl
        have same : (Frame.aggregate kind items).items = items := rfl
        rw [same] at inside nodes_
        omega

/-- **The predicted size.** The first pass accepts exactly the frames that fit. -/
theorem encodedSize_eq_ok :
    encodedSize finite limits frame = .ok size ↔ frame.Fits finite limits ∧ frame.size = size := by
  unfold encodedSize
  have single : counts [(frame, 0)] = frame.count := by simp [counts]
  have bytes : sizes [(frame, 0)] = frame.size := by simp [sizes]
  rw [sizeLoop_eq_ok (Nat.le_of_eq single) (Nat.zero_le _) (Nat.zero_le _), single, bytes]
  simp only [Stacked, List.mem_singleton, forall_eq, Nat.zero_add, Nat.sub_zero]
  constructor
  · rintro ⟨⟨heads, depth⟩, count, small, same⟩
    exact ⟨⟨heads, depth, count, small⟩, same⟩
  · rintro ⟨⟨heads, depth, count, small⟩, same⟩
    exact ⟨⟨heads, depth⟩, count, small, same⟩

/-- The second pass writes the frames of the stack one after the other. -/
theorem encodeLoop_eq {pending : List Frame} (dst : Bytes)
    (enough : (pending.map Frame.count).sum ≤ fuel) :
    encodeLoop fuel pending dst = dst ++ pending.flatMap Frame.bytes := by
  induction fuel generalizing pending dst with
  | zero =>
    rcases pending with _ | ⟨frame, others⟩
    · simp [encodeLoop]
    · have positive := frame.count_pos
      rw [List.map_cons, List.sum_cons] at enough
      omega
  | succ fuel ih =>
    rcases pending with _ | ⟨frame, others⟩
    · simp [encodeLoop]
    · rw [encodeLoop, ih]
      · rw [List.flatMap_cons, Frame.bytes_eq frame, List.flatMap_append]
        simp only [List.append_assoc]
      · rw [List.map_cons, List.sum_cons, Frame.count_eq frame] at enough
        rw [List.map_append, List.sum_append]
        omega

/-- **The encoder.** It accepts exactly the frames that fit valid limits, and appends their bytes. -/
theorem encode_eq_ok {dst out : Bytes} :
    encode finite limits frame dst = (.ok (), out) ↔ limits.validate = .ok () ∧
      frame.Fits finite limits ∧ dst.length + frame.size < Machine.word ∧ out = dst ++ frame.bytes := by
  unfold encode
  cases limits.validate with
  | error error => simp
  | ok =>
    cases sized : encodedSize finite limits frame with
    | error error =>
      have refused : ¬frame.Fits finite limits := fun fits => by
        rw [encodedSize_eq_ok.mpr ⟨fits, rfl⟩] at sized
        cases sized
      simp [refused]
    | ok size =>
      obtain ⟨fits, rfl⟩ := encodedSize_eq_ok.mp sized
      have written : encodeLoop frame.count [frame] dst = dst ++ frame.bytes := by
        rw [encodeLoop_eq dst (by simp), List.flatMap_singleton]
      by_cases room : dst.length + frame.size < Machine.word
      · simp [Machine.checkedAdd, fits, room, written, eq_comm]
      · simp [Machine.checkedAdd, room]

/-- A refused frame leaves the output as it was. -/
theorem encode_error {dst out : Bytes} {error : EncodeError}
    (refused : encode finite limits frame dst = (.error error, out)) : out = dst := by
  unfold encode at refused
  split at refused
  · cases refused; rfl
  · split at refused
    · cases refused; rfl
    · split at refused
      · cases refused; rfl
      · cases refused

end Encoder

end Sider.Resp

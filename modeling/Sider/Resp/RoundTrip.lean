/-
**RESP round trip.**

The scanner reads back what the encoder writes: from the first byte of a head that fits, with room for
what the limits ask, it passes the head's bytes and keeps a node that stands for it (`consumes_head`).
Head after head this reads a whole frame (`decode_bytes`).
-/

import Mathlib.Logic.Relation
import Sider.Resp.Encoder
import Sider.Resp.Fragmentation

namespace Sider.Resp

open Incremental

variable {heads : List Head} {byte : Byte} {more content bytes value rest : Bytes} {kind : Kind}
  {leaf : Leaf} {payload : Payload} {frame : Frame} {next : Scanner}
  {length payloadStart start : Nat}

variable {finite : Bytes → Bool} {limits : RespLimits} {src : Bytes} {s : Scanner}

/-! ### Runs of the scanner -/

/-- The scanner goes on from one state to another. -/
def Reaches (finite : Bytes → Bool) (src : Bytes) : Scanner → Scanner → Prop :=
  Relation.ReflTransGen fun s next => s.step finite src = .running next

theorem Reaches.scans {result : Step Scanner Failure} (reaches : Reaches finite src s next)
    (scans : Scans (Scanner.step finite) src next result) :
    Scans (Scanner.step finite) src s result := by
  induction reaches using Relation.ReflTransGen.head_induction_on with
  | refl => exact scans
  | head first _ ih => exact .next first ih

theorem Reaches.reading (reaches : Reaches finite src s next)
    (reading : Reading finite limits src s heads) :
    ∃ heads, Reading finite limits src next heads := by
  induction reaches with
  | refl => exact ⟨heads, reading⟩
  | tail _ last ih =>
    obtain ⟨heads, reading⟩ := ih
    have sound := step_sound reading
    rw [last] at sound
    exact sound.2

theorem read_ok {room : Except Failure Unit} {next : Byte → Progress} (free : room = .ok ())
    (here : src[s.cursor]? = some byte) : s.read src room next = Scanner.goOn (next byte) := by
  unfold Scanner.read
  rw [free, here]

/-- The text from some position on, byte by byte. -/
theorem drop_cons {position : Nat} (text : src.drop position = byte :: more) :
    src[position]? = some byte ∧ src.drop (position + 1) = more := by
  constructor
  · have first := congrArg List.head? text
    rwa [List.head?_drop, List.head?_cons] at first
  · have rest := congrArg List.tail text
    rwa [List.tail_drop, List.tail_cons] at rest

/-! ### Lines -/

/-- One byte of a line is passed. -/
theorem step_line (state : s.state = .line ⟨kind, start, payloadStart, false⟩)
    (text : src.drop s.cursor = byte :: more) (noLf : byte ≠ lf) (behind : start ≤ s.cursor)
    (frame : s.cursor + 2 ≤ s.limits.maxFrameBytes)
    (short : s.cursor + 2 - start ≤ s.limits.maxLineBytes) :
    s.step finite src = .running { s with
      cursor := s.cursor + 1
      state := .line ⟨kind, start, payloadStart, decide (byte = cr)⟩ } := by
  have range := s.limits.representable.1
  have room : s.lineRoom ⟨kind, start, payloadStart, false⟩ = .ok () :=
    lineRoom_eq_ok.mpr ⟨frame, by show start ≤ s.cursor + 2; omega, short⟩
  have next : s.readLine finite src ⟨kind, start, payloadStart, false⟩ byte = .ok (false, { s with
      cursor := s.cursor + 1
      state := .line ⟨kind, start, payloadStart, decide (byte = cr)⟩ }) := by
    unfold Scanner.readLine
    rw [checkedAdd_eq_ok.mpr ⟨by omega, rfl⟩, ok_bind]
    simp [noLf]
  unfold Scanner.step
  rw [state]
  simp only [Scanner.stepLine]
  rw [read_ok room (drop_cons text).1, next]
  rfl

/-- The content of a line is passed byte by byte. -/
theorem reaches_content (state : s.state = .line ⟨kind, start, payloadStart, false⟩)
    (text : src.drop s.cursor = content ++ cr :: more) (clean : isText content = true)
    (behind : start ≤ s.cursor) (frame : s.cursor + content.length + 2 ≤ s.limits.maxFrameBytes)
    (short : s.cursor + content.length + 2 - start ≤ s.limits.maxLineBytes) :
    Reaches finite src s { s with
      cursor := s.cursor + content.length + 1
      state := .line ⟨kind, start, payloadStart, true⟩ } := by
  induction content generalizing s with
  | nil =>
    refine .single ?_
    rw [step_line state text (by decide) behind (by simpa using frame) (by simpa using short)]
    rfl
  | cons byte content ih =>
    unfold isText at clean
    simp only [List.all_cons, Bool.and_eq_true, decide_eq_true_eq] at clean
    obtain ⟨⟨noCr, noLf⟩, clean⟩ := clean
    simp only [List.length_cons] at frame short
    have first : s.step finite src = _ := step_line state text noLf behind (by omega) (by omega)
    rw [decide_eq_false noCr] at first
    have rest := ih (s := { s with
        cursor := s.cursor + 1
        state := .line ⟨kind, start, payloadStart, false⟩ }) rfl (drop_cons text).2 clean
      (Nat.le_succ_of_le behind)
      (by show s.cursor + 1 + content.length + 2 ≤ s.limits.maxFrameBytes; omega)
      (by show s.cursor + 1 + content.length + 2 - start ≤ s.limits.maxLineBytes; omega)
    refine .head first ?_
    have same : s.cursor + (byte :: content).length + 1 = s.cursor + 1 + content.length + 1 := by
      simp only [List.length_cons]
      omega
    rw [same]
    exact rest

/-- The scanner behind the line of a head. -/
def Scanner.behindLine (s : Scanner) (kind : Kind) (content : Bytes) : Scanner :=
  { s with
    nodesStarted := s.nodesStarted + 1
    pendingNodes := s.pendingNodes - 1
    cursor := s.cursor + content.length + 3
    state := .line ⟨kind, s.cursor, s.cursor + 1, true⟩ }

/-- What a head needs to be read from its first byte. -/
structure Ready (src : Bytes) (s : Scanner) (kind : Kind) (content more : Bytes) : Prop where
  state : s.state = .prefixByte
  text : src.drop s.cursor = line kind content ++ more
  clean : isText content = true
  deep : kind.isAggregate = true → s.arrays.length + 1 ≤ s.limits.maxDepth
  few : s.nodesStarted + 1 ≤ s.limits.maxNodes
  owed : 1 ≤ s.pendingNodes
  frame : s.cursor + content.length + 3 ≤ s.limits.maxFrameBytes
  short : content.length + 3 ≤ s.limits.maxLineBytes

/-- **A line is read up to its end.** -/
theorem Ready.reaches (ready : Ready src s kind content more) :
    ∃ last, Reaches finite src s last ∧ last.step finite src =
      Scanner.goOn ((s.behindLine kind content).finishLine finite src kind
        ⟨s.cursor + 1, s.cursor + 1 + content.length⟩) := by
  obtain ⟨state, text, clean, deep, few, owed, frame, short⟩ := ready
  obtain ⟨frameRange, _, _, nodeRange, _⟩ := s.limits.representable
  have text : src.drop s.cursor = kind.byte :: (content ++ cr :: lf :: more) := by
    rw [text]
    simp [line, crlf]
  obtain ⟨first, rest⟩ := drop_cons text
  -- the first byte
  have begins : s.step finite src = .running { s with
      nodesStarted := s.nodesStarted + 1
      pendingNodes := s.pendingNodes - 1
      cursor := s.cursor + 1
      state := .line ⟨kind, s.cursor, s.cursor + 1, false⟩ } := by
    have room : s.prefixRoom = .ok () := by
      unfold Scanner.prefixRoom
      split
      · rw [checkedAdd_eq_ok.mpr ⟨by omega, rfl⟩, ok_bind]
        exact requireFrameEnd_eq_ok.mpr (by omega)
      · rfl
    have shallow : ¬(kind.isAggregate = true ∧ s.limits.maxDepth ≤ s.arrays.length) := by
      rintro ⟨aggregate, full⟩
      have := deep aggregate
      omega
    have counted : (Machine.checkedAdd s.nodesStarted 1).filter (· ≤ s.limits.maxNodes) =
        some (s.nodesStarted + 1) :=
      Option.filter_eq_some_iff.mpr
        ⟨Machine.checkedAdd_eq_some.mpr ⟨by omega, rfl⟩, decide_eq_true few⟩
    unfold Scanner.step
    rw [state]
    simp only [Scanner.stepPrefix]
    rw [read_ok room first]
    simp only [Scanner.readKind, Kind.ofByte?_byte, if_neg shallow, counted,
      Machine.checkedSub_eq_some.mpr ⟨owed, rfl⟩]
    rw [checkedAdd_eq_ok.mpr ⟨by omega, rfl⟩]
    rfl
  -- the content and the carriage return
  have passes : Reaches finite src _ _ := reaches_content (s := { s with
      nodesStarted := s.nodesStarted + 1
      pendingNodes := s.pendingNodes - 1
      cursor := s.cursor + 1
      state := .line ⟨kind, s.cursor, s.cursor + 1, false⟩ }) rfl rest clean (Nat.le_succ _)
    (by show s.cursor + 1 + content.length + 2 ≤ s.limits.maxFrameBytes; omega)
    (by show s.cursor + 1 + content.length + 2 - s.cursor ≤ s.limits.maxLineBytes; omega)
  refine ⟨_, .head begins passes, ?_⟩
  -- the line feed
  have last : src[s.cursor + 1 + content.length + 1]? = some lf := by
    have at_ : src.drop (s.cursor + 1 + content.length) = cr :: lf :: more := by
      rw [← List.drop_drop, rest, List.drop_left]
    exact (drop_cons (drop_cons at_).2).1
  unfold Scanner.step
  simp only [Scanner.stepLine]
  rw [read_ok _ last]
  · unfold Scanner.readLine
    have sum : checkedAdd (s.cursor + 1 + content.length + 1) 1 =
        .ok (s.cursor + content.length + 3) := checkedAdd_eq_ok.mpr ⟨by omega, by omega⟩
    simp only [sum, ok_bind, if_true, ne_eq, not_true_eq_false, if_false]
    have offset : Machine.checkedSub (s.cursor + content.length + 3) 2 =
        some (s.cursor + 1 + content.length) := Machine.checkedSub_eq_some.mpr ⟨by omega, by omega⟩
    rw [offset]
    rfl
  · refine lineRoom_eq_ok.mpr ⟨?_, ?_, ?_⟩
    · show s.cursor + 1 + content.length + 1 + 1 ≤ s.limits.maxFrameBytes
      omega
    · show s.cursor ≤ s.cursor + 1 + content.length + 1 + 1
      omega
    · show s.cursor + 1 + content.length + 1 + 1 - s.cursor ≤ s.limits.maxLineBytes
      omega

/-! ### Contents -/

theorem isText_of_digits {digits : Bytes} (all : ∀ digit ∈ digits, Bytes.isDigit digit = true) :
    isText digits = true := by
  unfold isText
  rw [List.all_eq_true]
  intro byte member
  have digit := all byte member
  have noCr : byte ≠ cr := fun same => by rw [same] at digit; cases digit
  have noLf : byte ≠ lf := fun same => by rw [same] at digit; cases digit
  simp [noCr, noLf]

theorem isText_decimal (n : Nat) : isText (Bytes.decimal n) = true :=
  isText_of_digits fun _ member => Bytes.isDigit_of_mem_decimal member

theorem isText_cons (noCr : byte ≠ cr) (noLf : byte ≠ lf) (rest : isText bytes = true) :
    isText (byte :: bytes) = true := by
  unfold isText at rest ⊢
  rw [List.all_cons, rest]
  simp [noCr, noLf]

theorem isText_integer (value : Int) : isText (Bytes.decimal value) = true := by
  obtain ⟨n, rfl | rfl⟩ := Int.eq_nat_or_neg value
  · exact isText_decimal n
  · rcases Nat.eq_zero_or_pos n with rfl | positive
    · exact isText_decimal 0
    · rw [Bytes.decimal_neg positive]
      exact isText_cons (by decide) (by decide) (isText_decimal n)

theorem isText_bigNumber (valid : isBigNumber bytes = true) : isText bytes = true := by
  unfold isBigNumber at valid
  simp only [Bool.and_eq_true, List.all_eq_true] at valid
  obtain ⟨_, digits⟩ := valid
  split at digits
  · rename_i minus
    cases bytes with
    | nil => cases minus
    | cons byte others =>
      cases Option.some.inj minus
      exact isText_cons (by decide) (by decide) (isText_of_digits digits)
  · exact isText_of_digits digits

theorem isText_double (valid : isDouble finite bytes = true) : isText bytes = true := by
  unfold isDouble at valid
  simp only [Bool.or_eq_true, decide_eq_true_eq, Bool.and_eq_true, Bool.not_eq_true'] at valid
  rcases valid with ((rfl | rfl) | rfl) | ⟨_, solid⟩
  · decide
  · decide
  · decide
  · unfold isText
    rw [List.all_eq_true]
    intro byte member
    have dark := List.any_eq_false.mp solid byte member
    have noCr : byte ≠ cr := fun same => dark (by rw [same]; decide)
    have noLf : byte ≠ lf := fun same => dark (by rw [same]; decide)
    simp [noCr, noLf]

/-- The content of a well-formed leaf holds no line terminator. -/
theorem isText_content (valid : leaf.wellFormed finite = true) : isText leaf.content = true := by
  cases leaf with
  | simple value | error value => exact valid
  | integer value => exact isText_integer value.val
  | bulk value =>
    cases value with
    | none => decide
    | some value => exact isText_decimal value.length
  | nullArray | null => decide
  | boolean value => cases value <;> decide
  | double value => exact isText_double valid
  | bigNumber value => exact isText_bigNumber valid
  | blobError value | verbatim value => exact isText_decimal value.length

/-! ### Heads -/

/-- The scanner passes the bytes of a head and keeps a node that stands for it. -/
def Consumes (finite : Bytes → Bool) (src : Bytes) (s : Scanner) (head : Head) : Prop :=
  ∃ last complete next node, Reaches finite src s last ∧
    last.step finite src = Scanner.goOn (.ok (complete, next)) ∧
    next.cursor = s.cursor + head.bytes.length ∧ next.nodes = s.nodes ++ [node] ∧
    node.head src = .ok head ∧ next.state = .prefixByte

theorem finishNode_ok (positive : ∀ remaining ∈ s.arrays, 0 < remaining) (node : Node) :
    ∃ complete next, (s.push node).finishNode = .ok (complete, next) ∧ next.cursor = s.cursor ∧
      next.nodes = s.nodes ++ [node] ∧ next.state = .prefixByte := by
  obtain ⟨left, closed, _⟩ := finishArrays_ok positive
  refine ⟨left.isEmpty, { s.push node with state := .prefixByte, arrays := left }, ?_, rfl, rfl, rfl⟩
  show (Scanner.finishArrays s.arrays >>= _) = _
  rw [closed]
  rfl

/-- The end of a line that is a leaf of its own. -/
theorem finishLine_leaf (valid : leaf.wellFormed finite = true) (plain : leaf.payload = none)
    (slice : payloadSlice src payload = .ok leaf.content)
    (span : payload.start + leaf.content.length = payload.stop) :
    ∃ node, s.finishLine finite src leaf.kind payload = (s.push node).finishNode ∧
      node.head src = .ok (.leaf leaf) := by
  cases leaf with
  | simple value => exact ⟨.simple payload, rfl, by rw [Node.head, slice]; rfl⟩
  | error value => exact ⟨.error payload, rfl, by rw [Node.head, slice]; rfl⟩
  | integer value =>
    refine ⟨.integer value, ?_, rfl⟩
    simp only [Leaf.kind, Scanner.finishLine, slice, ok_bind, Leaf.content, parseInteger_decimal]
  | null =>
    have empty : payload.start = payload.stop := span
    refine ⟨.null, ?_, rfl⟩
    simp only [Leaf.kind, Scanner.finishLine, empty, ne_eq, not_true_eq_false, if_false]
  | boolean value =>
    have read : parseBoolean (Leaf.boolean value).content = .ok value := by cases value <;> rfl
    refine ⟨.boolean value, ?_, rfl⟩
    simp only [Leaf.kind, Scanner.finishLine, slice, ok_bind, read]
  | double value =>
    refine ⟨.scalar .double payload, ?_, by rw [Node.head, slice]; rfl⟩
    have valid : validScalar finite .double value = true := valid
    simp [Leaf.kind, Scanner.finishLine, slice, ok_bind, Leaf.content, valid]
  | bigNumber value =>
    refine ⟨.scalar .bigNumber payload, ?_, by rw [Node.head, slice]; rfl⟩
    have valid : validScalar finite .bigNumber value = true := valid
    simp [Leaf.kind, Scanner.finishLine, slice, ok_bind, Leaf.content, valid]
  | nullArray =>
    refine ⟨.array none .array, ?_, rfl⟩
    have read : parseLength Leaf.nullArray.content = .ok none := rfl
    simp only [Leaf.kind, Scanner.finishLine, slice, ok_bind, read, Scanner.finishLength, reduceCtorEq,
      if_false, if_true]
  | bulk value =>
    cases value with
    | none =>
      refine ⟨.bulk none, ?_, rfl⟩
      have read : parseLength (Leaf.bulk none).content = .ok none := rfl
      simp only [Leaf.kind, Scanner.finishLine, slice, ok_bind, read, Scanner.finishLength, if_true]
    | some value => cases plain
  | blobError value | verbatim value => cases plain

theorem Ready.slice (ready : Ready src s kind content more) :
    payloadSlice src ⟨s.cursor + 1, s.cursor + 1 + content.length⟩ = .ok content := by
  have rest : src.drop (s.cursor + 1) = content ++ (crlf ++ more) := by
    have text : src.drop s.cursor = kind.byte :: (content ++ (crlf ++ more)) := by
      rw [ready.text]
      simp [line]
    exact (drop_cons text).2
  have long := congrArg List.length rest
  rw [List.length_drop, List.length_append] at long
  refine payloadSlice_eq_ok.mpr ⟨⟨Nat.le_add_right _ _, ?_⟩, ?_⟩
  · show s.cursor + 1 + content.length ≤ src.length
    have some_ : 0 < (crlf ++ more).length := by simp [crlf]
    omega
  · rw [rest, Nat.add_sub_cancel_left, List.take_left]

/-- A leaf of one line. -/
theorem Ready.consumes_leaf (ready : Ready src s leaf.kind leaf.content more)
    (valid : leaf.wellFormed finite = true) (plain : leaf.payload = none)
    (positive : ∀ remaining ∈ s.arrays, 0 < remaining) : Consumes finite src s (.leaf leaf) := by
  obtain ⟨last, reaches, step⟩ := ready.reaches
  obtain ⟨node, finished, resolved⟩ := finishLine_leaf valid plain ready.slice rfl
  obtain ⟨complete, next, closed, cursor, nodes, state⟩ :=
    finishNode_ok (s := s.behindLine leaf.kind leaf.content) positive node
  rw [finished, closed] at step
  refine ⟨last, complete, next, node, reaches, step, ?_, nodes, resolved, state⟩
  rw [cursor]
  show s.cursor + leaf.content.length + 3 = s.cursor + leaf.bytes.length
  rw [length_leaf, plain]
  show _ = s.cursor + (leaf.content.length + 3 + 0)
  omega

/-! ### Payloads -/

/-- The cursor moves over the payload and reads the carriage return. -/
theorem step_payload (frame : s.cursor + value.length + 2 < Machine.word)
    (state : s.state = .bulk ⟨s.cursor, s.cursor + value.length⟩ false kind)
    (text : src.drop s.cursor = value ++ cr :: more) :
    s.step finite src = .running { s with
      cursor := s.cursor + value.length + 1
      state := .bulk ⟨s.cursor, s.cursor + value.length⟩ true kind } := by
  have long := congrArg List.length text
  simp only [List.length_drop, List.length_append, List.length_cons] at long
  have skipped : s.skipTo src ⟨s.cursor, s.cursor + value.length⟩ =
      { s with cursor := s.cursor + value.length } := by
    unfold Scanner.skipTo
    split
    · have reached : min src.length (s.cursor + value.length) = s.cursor + value.length := by omega
      simp only [reached]
    · rename_i empty
      have reached : s.cursor + value.length = s.cursor := by
        have : ¬s.cursor < s.cursor + value.length := empty
        omega
      rw [reached]
  have here : src[s.cursor + value.length]? = some cr := by
    have at_ : src.drop (s.cursor + value.length) = cr :: more := by
      rw [← List.drop_drop, text, List.drop_left]
    exact (drop_cons at_).1
  unfold Scanner.step
  rw [state]
  simp only [Scanner.stepBulk, skipped, Nat.lt_irrefl, if_false]
  rw [read_ok rfl here]
  unfold Scanner.readTerminator
  rw [checkedAdd_eq_ok.mpr ⟨by show s.cursor + value.length + 1 < _; omega, rfl⟩]
  rfl

/-- The line feed behind the payload. -/
theorem step_terminator (frame : payload.stop + 2 < Machine.word)
    (state : s.state = .bulk payload true kind) (reached : s.cursor = payload.stop + 1)
    (here : src[s.cursor]? = some lf) :
    s.step finite src = Scanner.goOn ({ s with cursor := payload.stop + 2 }.finishBulk src payload kind) := by
  have skipped : s.skipTo src payload = s := by
    unfold Scanner.skipTo
    rw [if_neg (by omega)]
  unfold Scanner.step
  rw [state]
  simp only [Scanner.stepBulk, skipped]
  rw [if_neg (by omega), read_ok rfl here]
  unfold Scanner.readTerminator
  rw [checkedAdd_eq_ok.mpr ⟨by omega, rfl⟩, reached]
  rfl

/-- The end of a payload. -/
theorem finishBulk_leaf (valid : leaf.wellFormed finite = true) (body : leaf.payload = some value)
    (slice : payloadSlice src payload = .ok value) (range : payload.stop < Machine.word) :
    ∃ node, s.finishBulk src payload leaf.kind = (s.push node).finishNode ∧
      node.head src = .ok (.leaf leaf) := by
  cases leaf with
  | bulk body_ =>
    cases body
    exact ⟨.bulk (some payload), rfl, by rw [Node.head, slice]; rfl⟩
  | blobError body_ =>
    cases body
    exact ⟨.scalar .blobError payload, rfl, by rw [Node.head, slice]; rfl⟩
  | verbatim body_ =>
    cases body
    refine ⟨.scalar .verbatim payload, ?_, by rw [Node.head, slice]; rfl⟩
    obtain ⟨⟨ordered, inside⟩, same⟩ := payloadSlice_eq_ok.mp slice
    have valid : isVerbatim value = true := valid
    have format : Scanner.verbatimFormat src payload = .ok () := by
      rw [verbatimFormat_eq ordered inside range, same, if_pos valid]
    simp only [Leaf.kind, Scanner.finishBulk, reduceCtorEq, if_false, if_true, format, ok_bind]
  | _ => cases body

/-- The end of a length line opens its payload. -/
theorem finishLine_payload (body : leaf.payload = some value)
    (slice : payloadSlice src payload = .ok leaf.content)
    (bulk : value.length ≤ s.limits.maxBulkBytes)
    (frame : s.cursor + value.length + 2 ≤ s.limits.maxFrameBytes) :
    s.finishLine finite src leaf.kind payload =
      .ok (false, { s with state := .bulk ⟨s.cursor, s.cursor + value.length⟩ false leaf.kind }) := by
  obtain ⟨frameRange, bulkRange, _⟩ := s.limits.representable
  have opened : ∀ kind, s.openBulk kind value.length =
      .ok (false, { s with state := .bulk ⟨s.cursor, s.cursor + value.length⟩ false kind }) := by
    intro kind
    unfold Scanner.openBulk
    rw [if_neg (by omega), checkedAdd_eq_ok.mpr ⟨by omega, rfl⟩, ok_bind,
      checkedAdd_eq_ok.mpr ⟨by omega, rfl⟩, ok_bind, requireFrameEnd_eq_ok.mpr frame]
    rfl
  have read := parseLength_decimal (show value.length < Machine.word by omega)
  cases leaf with
  | bulk body_ =>
    cases body
    simp [Leaf.kind, Scanner.finishLine, slice, ok_bind, Leaf.content, read, Scanner.finishLength,
      Scanner.elements, opened]
  | blobError body_ =>
    cases body
    simp [Leaf.kind, Scanner.finishLine, slice, ok_bind, Leaf.content, read, Scanner.finishLength,
      Scanner.elements, opened]
  | verbatim body_ =>
    cases body
    simp [Leaf.kind, Scanner.finishLine, slice, ok_bind, Leaf.content, read, Scanner.finishLength,
      Scanner.elements, opened]
  | _ => cases body

/-- A leaf with a payload. -/
theorem Ready.consumes_payload
    (ready : Ready src s leaf.kind leaf.content (value ++ cr :: lf :: more))
    (valid : leaf.wellFormed finite = true) (body : leaf.payload = some value)
    (bulk : value.length ≤ s.limits.maxBulkBytes)
    (frame : s.cursor + leaf.bytes.length ≤ s.limits.maxFrameBytes)
    (positive : ∀ remaining ∈ s.arrays, 0 < remaining) : Consumes finite src s (.leaf leaf) := by
  have range := s.limits.representable.1
  have size : leaf.bytes.length = leaf.content.length + 3 + (value.length + 2) := by
    rw [length_leaf, body]
    rfl
  obtain ⟨last, reaches, step⟩ := ready.reaches
  have rest : src.drop (s.behindLine leaf.kind leaf.content).cursor = value ++ cr :: lf :: more := by
    show src.drop (s.cursor + leaf.content.length + 3) = _
    have whole : s.cursor + leaf.content.length + 3 = s.cursor + (line leaf.kind leaf.content).length := by
      rw [length_line]
      omega
    rw [whole, ← List.drop_drop, ready.text, List.drop_left]
  generalize same : s.behindLine leaf.kind leaf.content = u at step rest
  have cursor : u.cursor = s.cursor + leaf.content.length + 3 := by rw [← same]; rfl
  have limits : u.limits = s.limits := by rw [← same]; rfl
  have nodes : u.nodes = s.nodes := by rw [← same]; rfl
  have arrays : u.arrays = s.arrays := by rw [← same]; rfl
  rw [finishLine_payload body ready.slice (limits ▸ bulk) (by rw [limits]; omega)] at step
  -- the payload, then its terminator
  have first : Scanner.step finite src
      { u with state := .bulk ⟨u.cursor, u.cursor + value.length⟩ false leaf.kind } = _ :=
    step_payload (by show u.cursor + value.length + 2 < _; omega) rfl rest
  have feed : src[u.cursor + value.length + 1]? = some lf := by
    have at_ : src.drop (u.cursor + value.length) = cr :: lf :: more := by
      rw [← List.drop_drop, rest, List.drop_left]
    exact (drop_cons (drop_cons at_).2).1
  have second : Scanner.step finite src { u with
      cursor := u.cursor + value.length + 1
      state := .bulk ⟨u.cursor, u.cursor + value.length⟩ true leaf.kind } = _ :=
    step_terminator (by show u.cursor + value.length + 2 < _; omega) rfl rfl feed
  have long := congrArg List.length rest
  simp only [List.length_drop, List.length_append, List.length_cons] at long
  have slice : payloadSlice src ⟨u.cursor, u.cursor + value.length⟩ = .ok value := by
    refine payloadSlice_eq_ok.mpr ⟨⟨Nat.le_add_right _ _, ?_⟩, ?_⟩
    · show u.cursor + value.length ≤ src.length
      omega
    · rw [rest, Nat.add_sub_cancel_left, List.take_left]
  obtain ⟨node, finished, resolved⟩ := finishBulk_leaf (s := { u with
      cursor := u.cursor + value.length + 2
      state := .bulk ⟨u.cursor, u.cursor + value.length⟩ true leaf.kind }) valid body slice
    (by show u.cursor + value.length < _; omega)
  obtain ⟨complete, next, closed, behind, kept, state⟩ := finishNode_ok (s := { u with
      cursor := u.cursor + value.length + 2
      state := .bulk ⟨u.cursor, u.cursor + value.length⟩ true leaf.kind }) (arrays ▸ positive) node
  refine ⟨_, complete, next, node, (reaches.tail step).tail first, ?_, ?_, ?_, resolved, state⟩
  · rw [second]
    exact congrArg Scanner.goOn (finished.trans closed)
  · rw [behind]
    show u.cursor + value.length + 2 = s.cursor + leaf.bytes.length
    omega
  · rw [kept]
    rw [nodes]

/-! ### Aggregates -/

/-- The end of a length line opens its elements. -/
theorem finishLine_opens {kind : Aggregate} (even : kind.paired = true → length % 2 = 0)
    (range : length < Machine.word)
    (slice : payloadSlice src payload = .ok (Bytes.decimal (kind.declared length))) :
    s.finishLine finite src kind.toKind payload = s.openArray kind.toKind length := by
  have small : kind.declared length ≤ length := by
    unfold Aggregate.declared
    split <;> omega
  have read := parseLength_decimal (show kind.declared length < Machine.word by omega)
  have counted : Scanner.elements kind.toKind (kind.declared length) = .ok length := by
    cases kind with
    | map | attributes =>
      have half : length / 2 * 2 = length := by have := even rfl; omega
      simp only [Scanner.elements, Aggregate.toKind, Aggregate.declared, Aggregate.paired, if_true,
        true_or, or_true, Machine.checkedMul, half, if_pos range]
    | array | set | push => rfl
  cases kind with
  | _ =>
    simp only [Aggregate.toKind] at counted
    simp [Aggregate.toKind, Scanner.finishLine, slice, ok_bind, read, Scanner.finishLength, counted]

/-- The opening of an aggregate. -/
theorem Ready.consumes_opens {kind : Aggregate}
    (ready : Ready src s kind.toKind (Bytes.decimal (kind.declared length)) more)
    (even : kind.paired = true → length % 2 = 0)
    (few : s.nodesStarted + s.pendingNodes + length ≤ s.limits.maxNodes)
    (room : s.cursor + (Head.opens kind length).bytes.length + (s.pendingNodes - 1 + length) * 3 ≤
      s.limits.maxFrameBytes) (positive : ∀ remaining ∈ s.arrays, 0 < remaining) :
    Consumes finite src s (.opens kind length) := by
  have owed := ready.owed
  have nodeRange := s.limits.representable.2.2.2.1
  have size : (Head.opens kind length).bytes.length = (Bytes.decimal (kind.declared length)).length + 3 :=
    length_line _ _
  obtain ⟨last, reaches, step⟩ := ready.reaches
  rw [finishLine_opens even (by omega) ready.slice] at step
  have promised : (s.behindLine kind.toKind (Bytes.decimal (kind.declared length))).promise length =
      .ok (s.pendingNodes - 1 + length) :=
    promise_eq_ok.mpr ⟨rfl, by
        show s.nodesStarted + 1 + (s.pendingNodes - 1 + length) ≤ s.limits.maxNodes
        omega, by
        show s.cursor + (Bytes.decimal (kind.declared length)).length + 3 +
          (s.pendingNodes - 1 + length) * 3 ≤ s.limits.maxFrameBytes
        omega⟩
  have resolved : (Node.array (some length) kind.toKind).head src = .ok (.opens kind length) := by
    cases kind <;> rfl
  unfold Scanner.openArray at step
  rw [promised, ok_bind] at step
  by_cases some_ : 0 < length
  · rw [if_pos some_] at step
    exact ⟨last, false, _, .array (some length) kind.toKind, reaches, step, by rw [size]; rfl, rfl, resolved,
      rfl⟩
  · rw [if_neg some_] at step
    obtain ⟨complete, next, closed, behind, kept, state⟩ := finishNode_ok
      (s := { s.behindLine kind.toKind (Bytes.decimal (kind.declared length)) with
        pendingNodes := s.pendingNodes - 1 + length }) positive (.array (some length) kind.toKind)
    rw [closed] at step
    exact ⟨last, complete, next, .array (some length) kind.toKind, reaches, step,
      by rw [behind, size]; rfl, kept, resolved, state⟩

/-- **The scanner reads any head that fits, with room for what it opens.** -/
theorem consumes_head {head : Head} (reading : Reading finite limits src s heads)
    (state : s.state = .prefixByte) (text : src.drop s.cursor = head.bytes ++ more)
    (fits : head.Fits finite limits)
    (deep : head.nests = true → s.arrays.length + 1 ≤ limits.maxDepth)
    (few : heads.length + 1 + (outstanding s.arrays).length + head.arity ≤ limits.maxNodes)
    (room : s.cursor + head.bytes.length + ((outstanding s.arrays).length + head.arity) * 3 ≤
      limits.maxFrameBytes) : Consumes finite src s head := by
  obtain ⟨track, _, current⟩ := reading
  unfold Current at current
  rw [state] at current
  have counted := track.counted
  have owed : s.pendingNodes = (outstanding s.arrays).length + 1 := by omega
  have same := track.same
  cases head with
  | leaf leaf =>
    obtain ⟨valid, short, bulk⟩ := fits
    have size := length_leaf leaf
    have room : s.cursor + leaf.bytes.length ≤ limits.maxFrameBytes := by
      have : (Head.leaf leaf).bytes = leaf.bytes := rfl
      rw [this] at room
      omega
    have ready : ∀ behind, leaf.bytes ++ more = line leaf.kind leaf.content ++ behind →
        Ready src s leaf.kind leaf.content behind := by
      intro behind split
      refine ⟨state, text.trans split, isText_content valid, fun aggregate => ?_, by rw [same]; omega,
        by omega, ?_, same ▸ short⟩
      · rw [same]
        refine deep ?_
        cases leaf with
        | nullArray => rfl
        | _ => cases aggregate
      · rw [same]
        omega
    cases body : leaf.payload with
    | none =>
      refine Ready.consumes_leaf (ready more ?_) valid body track.positive
      simp [Leaf.bytes, body]
    | some value =>
      refine Ready.consumes_payload (ready (value ++ cr :: lf :: more) ?_) valid body
        (same ▸ bulk value body) (same ▸ room) track.positive
      simp [Leaf.bytes, body, crlf]
  | opens kind length =>
    obtain ⟨even, short⟩ := fits
    have size : (Head.opens kind length).bytes.length =
        (Bytes.decimal (kind.declared length)).length + 3 := length_line _ _
    have arity : (Head.opens kind length).arity = length := rfl
    have ready : Ready src s kind.toKind (Bytes.decimal (kind.declared length)) more :=
      ⟨state, text, isText_decimal _, fun _ => same ▸ deep rfl, by rw [same]; omega, by omega,
        by rw [same]; omega, same ▸ short⟩
    exact ready.consumes_opens even (by rw [same]; omega) (by rw [same, owed, Nat.add_sub_cancel]; exact room)
      track.positive

/-! ### Frames -/

theorem resolved_unique {nodes : List Node} {first second : List Head}
    (left : List.Forall₂ (fun (node : Node) head => node.head src = .ok head) nodes first)
    (right : List.Forall₂ (fun (node : Node) head => node.head src = .ok head) nodes second) :
    first = second := by
  induction left generalizing second with
  | nil => cases right; rfl
  | cons here _ ih =>
    cases right with
    | cons other rest =>
      rw [here] at other
      cases other
      rw [ih rest]

theorem three_le_headBytes (heads : List Head) : heads.length * 3 ≤ headBytes heads := by
  induction heads with
  | nil => exact Nat.zero_le _
  | cons head heads ih =>
    have small : 3 ≤ head.bytes.length := by
      cases head with
      | leaf leaf =>
        show 3 ≤ leaf.bytes.length
        rw [length_leaf]
        omega
      | opens kind length =>
        show 3 ≤ (line _ _).length
        rw [length_line]
        omega
    have split : headBytes (head :: heads) = head.bytes.length + headBytes heads := by simp [headBytes]
    rw [split, List.length_cons]
    omega

/-- From the end of some heads the scanner reads the others and completes. -/
theorem scans_heads (fits : frame.Fits finite limits) (text : src = frame.bytes ++ rest)
    (ahead : List Head) (split : frame.heads = heads ++ ahead) (some_ : ahead ≠ [])
    (reading : Reading finite limits src s heads) (state : s.state = .prefixByte)
    (position : s.cursor = headBytes heads) :
    ∃ next, Scans (Scanner.step finite) src s (.complete next) ∧
      Scanned finite limits src next frame.heads ∧ next.cursor = frame.size := by
  have all : waits limits.maxDepth [0] frame.heads = some [] := by
    have whole : waits limits.maxDepth [0] (frame.heads ++ []) = waits limits.maxDepth [] [] :=
      waits_heads frame [] [] fits.depth
    rwa [List.append_nil] at whole
  have size : frame.size = headBytes frame.heads := rfl
  induction ahead generalizing s heads with
  | nil => exact absurd rfl some_
  | cons head ahead ih =>
    have before : waits limits.maxDepth (s.arrays.length :: outstanding s.arrays) (head :: ahead) =
        some [] := by
      rw [split, waits_append, reading.track.levels, Option.bind_some] at all
      exact all
    obtain ⟨deep, after⟩ := waits_cons.mp before
    have waiting := length_le_of_waits after
    rw [List.length_append, List.length_replicate] at waiting
    have total : headBytes frame.heads = headBytes heads + head.bytes.length + headBytes ahead := by
      rw [split]
      simp [headBytes, List.flatMap_append]
      omega
    have here : src.drop s.cursor = head.bytes ++ (ahead.flatMap Head.bytes ++ rest) := by
      have whole : src = heads.flatMap Head.bytes ++ (head.bytes ++ (ahead.flatMap Head.bytes ++ rest)) := by
        rw [text, Frame.bytes, split, List.flatMap_append, List.flatMap_cons]
        simp only [List.append_assoc]
      rw [whole, position, headBytes, List.drop_left]
    have number : frame.count = heads.length + (ahead.length + 1) := by
      rw [Frame.count, split, List.length_append, List.length_cons]
    have few := fits.count
    have small := fits.size
    have least := three_le_headBytes ahead
    obtain ⟨last, complete, next, node, reaches, step, cursor, nodes, resolved, begins⟩ :=
      consumes_head reading state here
        (fits.heads head (by rw [split]; simp)) deep (by omega) (by omega)
    have extended : headBytes (heads ++ [head]) = next.cursor := by
      rw [headBytes_append, cursor, position]
    have resolves : List.Forall₂ (fun (node : Node) head => node.head src = .ok head) next.nodes
        (heads ++ [head]) := by
      rw [nodes]
      exact List.rel_append reading.track.resolved (.cons resolved .nil)
    obtain ⟨_, there⟩ := reaches.reading reading
    have sound := step_sound there
    rw [step] at sound
    cases complete with
    | true =>
      obtain ⟨_, found, scanned⟩ := sound
      obtain rfl := resolved_unique scanned.resolved resolves
      -- nothing is left waiting, so nothing is left to read
      have nothing : ahead = [] := by
        have regrouped : frame.heads = heads ++ [head] ++ ahead := by rw [split]; simp
        rw [regrouped, waits_append, scanned.levels, Option.bind_some] at all
        cases ahead with
        | nil => rfl
        | cons _ _ => cases all
      subst nothing
      rw [split]
      exact ⟨next, reaches.scans (.stop step trivial), scanned, by rw [← extended, size, split]⟩
    | false =>
      obtain ⟨_, found, reads⟩ := sound
      obtain rfl := resolved_unique reads.track.resolved resolves
      have more : ahead ≠ [] := by
        rintro rfl
        rw [split, reads.track.levels] at all
        cases all
      obtain ⟨final, scans, done⟩ := ih (by rw [split]; simp) more reads begins extended.symm
      exact ⟨final, reaches.scans (.next step scans), done⟩

/-- **The decoder reads back what the encoder writes**, and leaves the bytes that follow. -/
theorem decode_bytes (valid : limits.validate = .ok ()) (fits : frame.Fits finite limits)
    (rest : Bytes) :
    (Decoder.fresh limits).decode finite (frame.bytes ++ rest) =
      (.ok (some frame), .fresh limits, rest) := by
  obtain ⟨next, scans, scanned, cursor⟩ := scans_heads fits rfl frame.heads rfl
    (by rw [Frame.heads_eq]; simp) (reading_fresh valid (frame.bytes ++ rest)) rfl rfl
  have attached : Attached finite limits (frame.bytes ++ rest) (.fresh limits) := attached_fresh valid _
  rw [attached.decode_frame scans scanned, cursor, Frame.size, List.drop_left]

/-- However the encoding of a frame and the text behind it are cut, the frame comes first and the rest is
decoded as if it stood alone. -/
theorem outcome_bytes {d : Decoder} (made : Decoder.new limits = .ok d)
    (fits : frame.Fits finite limits) {operations : List (Operation Byte)}
    (text : chunks operations = frame.bytes ++ rest) :
    d.outcome finite operations =
      (frame :: (d.outcome finite [.append rest]).1, (d.outcome finite [.append rest]).2) := by
  obtain ⟨valid, rfl⟩ := new_eq_ok made
  have lawful : Incremental.Decoder.Lawful (Decoder.decode finite) (Attached finite limits)
      (fun d => d.poisoned = true) := decode_lawful valid
  rw [outcome_eq made operations, text]
  have later := Session.settles_drain lawful (valid_after made [.append rest])
  have called : ((Decoder.fresh limits).after finite [.append (frame.bytes ++ rest)]).call
      (Decoder.decode finite) =
      { (Decoder.fresh limits).after finite [.append rest] with
        frames := [frame] ++ ((Decoder.fresh limits).after finite [.append rest]).frames } := by
    show Session.call (Decoder.decode finite) ⟨_, frame.bytes ++ rest, [], none⟩ = _
    unfold Session.call
    simp only [decode_bytes valid fits rest]
    rfl
  have settles := Session.settles_earlier [frame] later
  rw [← called, Session.settles_call] at settles
  exact (Session.settles_drain lawful
    (valid_after made [.append (frame.bytes ++ rest)])).unique settles

/-- **RESP round trip.** What the encoder accepts it appends in exactly the size it predicts, and a decoder
under the same limits returns the frame and leaves what follows, however the bytes arrive. Every frame a
decoder returns is accepted by the encoder, in no more bytes than were consumed. A refused frame leaves
the output as it was. -/
theorem resp_round_trip (finite : Bytes → Bool) (limits : RespLimits) :
    (∀ frame dst out, encode finite limits frame dst = (.ok (), out) →
      ∃ d bytes, Decoder.new limits = .ok d ∧ out = dst ++ bytes ∧
        encodedSize finite limits frame = .ok bytes.length ∧
        ∀ rest, d.decode finite (bytes ++ rest) = (.ok (some frame), d, rest) ∧
          ∀ operations, chunks operations = bytes ++ rest → d.outcome finite operations =
            (frame :: (d.outcome finite [.append rest]).1, (d.outcome finite [.append rest]).2)) ∧
    (∀ d operations, Decoder.new limits = .ok d → ∀ s, s = d.after finite operations →
      ∀ frame next rest, s.decoder.decode finite s.buffer = (.ok (some frame), next, rest) →
        ∃ size consumed, encodedSize finite limits frame = .ok size ∧ s.buffer = consumed ++ rest ∧
          size ≤ consumed.length ∧ ∀ dst : Bytes, dst.length + size < Machine.word →
            ∃ bytes, encode finite limits frame dst = (.ok (), dst ++ bytes) ∧ bytes.length = size) ∧
    ∀ frame dst error out, encode finite limits frame dst = (.error error, out) → out = dst := by
  refine ⟨?_, ?_, fun frame dst error out refused => encode_error refused⟩
  · intro frame dst out accepted
    obtain ⟨valid, fits, _, rfl⟩ := encode_eq_ok.mp accepted
    have made : Decoder.new limits = .ok (.fresh limits) := by
      unfold Decoder.new
      rw [valid]
      rfl
    exact ⟨.fresh limits, frame.bytes, made, rfl, encodedSize_eq_ok.mpr ⟨fits, rfl⟩, fun rest =>
      ⟨decode_bytes valid fits rest, fun operations text => outcome_bytes made fits text⟩⟩
  · intro d operations made s reached frame next rest called
    obtain ⟨valid, _⟩ := new_eq_ok made
    have session : Session.Valid (Attached finite limits) (fun d => d.poisoned = true) s :=
      reached ▸ valid_after made operations
    rcases session with ⟨attached, _⟩ | ⟨failed, _⟩
    · rcases attached.decode_cases with ⟨_, _, _, same⟩ | ⟨final, found, scanned, fits, _, _, same⟩ |
        ⟨_, _, _, same⟩
      · rw [same] at called
        cases called
      · rw [same] at called
        cases called
        have bounded := scanned.bounded
        refine ⟨frame.size, s.buffer.take final.cursor, encodedSize_eq_ok.mpr ⟨fits, rfl⟩,
          (List.take_append_drop _ _).symm, ?_, fun dst room =>
            ⟨frame.bytes, encode_eq_ok.mpr ⟨valid, fits, room, rfl⟩, rfl⟩⟩
        rw [List.length_take, Nat.min_eq_left bounded]
        exact scanned.size
      · rw [same] at called
        cases called
    · rw [decode_poisoned s.buffer failed] at called
      cases called

/-- An array of an integer and a null, with one byte behind it. -/
theorem resp_round_trip_array :
    encode (fun _ => false) .default (.aggregate .array [.leaf (.integer ⟨7, by decide⟩), .leaf .null]) [] =
        (.ok (), Bytes.ascii "*2\r\n:7\r\n_\r\n") ∧
      ∃ d : Decoder, d.decode (fun _ => false) (Bytes.ascii "*2\r\n:7\r\n_\r\n" ++ [43]) =
        (.ok (some (.aggregate .array [.leaf (.integer ⟨7, by decide⟩), .leaf .null])), d, [43]) := by
  have accepted : encode (fun _ => false) .default
      (.aggregate .array [.leaf (.integer ⟨7, by decide⟩), .leaf .null]) [] =
      (.ok (), Bytes.ascii "*2\r\n:7\r\n_\r\n") := rfl
  obtain ⟨d, bytes, _, same, _, decoded⟩ := (resp_round_trip (fun _ => false) .default).1 _ _ _ accepted
  exact ⟨accepted, d, same ▸ (decoded [43]).1⟩

end Sider.Resp

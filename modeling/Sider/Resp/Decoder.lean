/-
**The RESP decoder.**

The scanner reads a buffer that only grows and keeps its cursor, the open arrays and one node for every
head it has passed; payloads are offsets into the buffer. When the last array closes, the frame is built
from the nodes, last node first, and taken off the buffer.

Offsets are naturals with the checks the source makes. Where the source indexes, subtracts or advances
without a check, the model fails with `panic`. A decoder that has failed only ever answers `poisoned`, so
what else it holds is left as it was before the call.
-/

import Sider.Lib.Incremental
import Sider.Resp.Frame

namespace Sider.Resp

inductive ProtocolError where
  | malformed (reason : String)
  | limitExceeded (limit : String)
  | bufferChanged
  | poisoned
  deriving DecidableEq, Repr

/-- How a call ends without a result. -/
inductive Failure where
  | protocol (error : ProtocolError)
  | panic
  deriving DecidableEq, Repr

def malformed {α : Type} (reason : String) : Except Failure α :=
  .error (.protocol (.malformed reason))

def limitExceeded {α : Type} (limit : String) : Except Failure α :=
  .error (.protocol (.limitExceeded limit))

/-! ### The decoder -/

structure Payload where
  start : Nat
  stop : Nat
  deriving DecidableEq, Repr

/-- What is kept of a head. -/
inductive Node where
  | simple (payload : Payload)
  | error (payload : Payload)
  | integer (value : I64)
  | bulk (payload : Option Payload)
  | array (length : Option Nat) (kind : Kind)
  | scalar (kind : Kind) (payload : Payload)
  | null
  | boolean (value : Bool)
  deriving DecidableEq

/-- A line that has begun. -/
structure Line where
  kind : Kind
  start : Nat
  payloadStart : Nat
  sawCr : Bool
  deriving DecidableEq

/-- What the scanner expects next. -/
inductive State where
  | prefixByte
  | line (line : Line)
  | bulk (payload : Payload) (sawCr : Bool) (kind : Kind)
  deriving DecidableEq

/-- The fields a scan reads and writes. The arrays are a stack of the elements each still lacks, the
innermost first. -/
structure Scanner where
  limits : RespLimits
  cursor : Nat
  state : State
  nodes : List Node
  arrays : List Nat
  nodesStarted : Nat
  pendingNodes : Nat
  deriving DecidableEq

structure Decoder where
  scanner : Scanner
  previousLen : Nat
  poisoned : Bool
  deriving DecidableEq

/-- What becomes of a byte: whether it completes the frame, and the scanner behind it. -/
abbrev Progress := Except Failure (Bool × Scanner)

/-! ### Numbers -/

def checkedAdd (left right : Nat) : Except Failure Nat :=
  match Machine.checkedAdd left right with
  | some sum => .ok sum
  | none => limitExceeded "max_frame_bytes"

def payloadSlice (src : Bytes) (payload : Payload) : Except Failure Bytes :=
  if payload.start ≤ payload.stop ∧ payload.stop ≤ src.length then
    .ok ((src.drop payload.start).take (payload.stop - payload.start))
  else .error (.protocol .bufferChanged)

def I64.ofInt? (value : Int) : Option I64 :=
  if range : Machine.IsI64 value then some ⟨value, range⟩ else none

def I64.zero : I64 := ⟨0, by decide⟩

/-- Digits are subtracted, so that the least integer is reached without a negation. -/
def negatedDigits : I64 → Bytes → Except Failure I64
  | value, [] => .ok value
  | value, digit :: digits =>
    if !Bytes.isDigit digit then malformed "invalid integer"
    else
      match (I64.ofInt? (value.val * 10)).bind fun value =>
          I64.ofInt? (value.val - (digit.val - 48)) with
      | some value => negatedDigits value digits
      | none => malformed "integer out of range"

def parseInteger (bytes : Bytes) : Except Failure I64 :=
  let negative := bytes.head? = some 45
  let digits := if negative ∨ bytes.head? = some 43 then bytes.tail else bytes
  if digits.isEmpty then malformed "integer without digits"
  else do
    let value ← negatedDigits I64.zero digits
    if negative then .ok value
    else
      match I64.ofInt? (-value.val) with
      | some value => .ok value
      | none => malformed "integer out of range"

def lengthDigits : Nat → Bytes → Except Failure Nat
  | value, [] => .ok value
  | value, digit :: digits =>
    if !Bytes.isDigit digit then malformed "invalid length"
    else
      match (Machine.checkedMul value 10).bind (Machine.checkedAdd · (digit.val - 48)) with
      | some value => lengthDigits value digits
      | none => malformed "length out of range"

def parseLength (bytes : Bytes) : Except Failure (Option Nat) :=
  if bytes = Bytes.ascii "-1" then .ok none
  else if bytes.isEmpty then malformed "length without digits"
  else do
    let value ← lengthDigits 0 bytes
    .ok (some value)

def parseBoolean (bytes : Bytes) : Except Failure Bool :=
  if bytes = Bytes.ascii "t" then .ok true
  else if bytes = Bytes.ascii "f" then .ok false
  else malformed "invalid boolean"

/-! ### Nodes -/

namespace Scanner

/-- Before the first byte of a frame. -/
def fresh (limits : RespLimits) : Scanner :=
  ⟨limits, 0, .prefixByte, [], [], 0, 1⟩

def requireFrameEnd (s : Scanner) (stop : Nat) : Except Failure Unit :=
  if s.limits.maxFrameBytes < stop then limitExceeded "max_frame_bytes" else .ok ()

def push (s : Scanner) (node : Node) : Scanner :=
  { s with nodes := s.nodes ++ [node] }

/-- A finished element also finishes the arrays it is the last of. -/
def finishArrays : List Nat → Except Failure (List Nat)
  | [] => .ok []
  | remaining :: outer =>
    match Machine.checkedSub remaining 1 with
    | none => malformed "array already complete"
    | some left => if 0 < left then .ok (left :: outer) else finishArrays outer

def finishNode (s : Scanner) : Progress := do
  let arrays ← finishArrays s.arrays
  let s := { s with state := .prefixByte, arrays := arrays }
  .ok (arrays.isEmpty, s)

/-- A payload of a known length begins. -/
def openBulk (s : Scanner) (kind : Kind) (length : Nat) : Progress :=
  if s.limits.maxBulkBytes < length then limitExceeded "max_bulk_bytes"
  else do
    let stop ← checkedAdd s.cursor length
    let terminated ← checkedAdd stop 2
    s.requireFrameEnd terminated
    .ok (false, { s with state := .bulk ⟨s.cursor, stop⟩ false kind })

/-- The nodes and the least bytes that a new array promises. -/
def promise (s : Scanner) (length : Nat) : Except Failure Nat := do
  match Machine.checkedAdd s.pendingNodes length with
  | none => limitExceeded "max_nodes"
  | some pending =>
    match Machine.checkedAdd s.nodesStarted pending with
    | none => limitExceeded "max_nodes"
    | some declared =>
      if s.limits.maxNodes < declared then limitExceeded "max_nodes"
      else
        match Machine.checkedMul pending 3 with
        | none => limitExceeded "max_frame_bytes"
        | some minimum => do
          let stop ← checkedAdd s.cursor minimum
          s.requireFrameEnd stop
          .ok pending

def openArray (s : Scanner) (kind : Kind) (length : Nat) : Progress := do
  let pending ← s.promise length
  let s := { s with pendingNodes := pending }.push (.array (some length) kind)
  if 0 < length then .ok (false, { s with arrays := length :: s.arrays, state := .prefixByte })
  else s.finishNode

/-- A length counts bytes, elements or pairs. -/
def elements (kind : Kind) (length : Nat) : Except Failure Nat :=
  if kind = .map ∨ kind = .attributes then
    match Machine.checkedMul length 2 with
    | some doubled => .ok doubled
    | none => limitExceeded "max_nodes"
  else .ok length

def finishLength (s : Scanner) (kind : Kind) (length : Option Nat) : Progress :=
  match length with
  | none =>
    if kind = .bulk then (s.push (.bulk none)).finishNode
    else if kind = .array then (s.push (.array none kind)).finishNode
    else malformed "null RESP3 length"
  | some length => do
    let length ← elements kind length
    if kind = .bulk ∨ kind = .blobError ∨ kind = .verbatim then s.openBulk kind length
    else s.openArray kind length

section Scanning

variable (finite : Bytes → Bool) (src : Bytes) (s : Scanner)

def finishLine (kind : Kind) (payload : Payload) : Progress :=
  match kind with
  | .simple => (s.push (.simple payload)).finishNode
  | .error => (s.push (.error payload)).finishNode
  | .integer => do
    let bytes ← payloadSlice src payload
    let value ← parseInteger bytes
    (s.push (.integer value)).finishNode
  | .null =>
    if payload.start ≠ payload.stop then malformed "invalid null"
    else (s.push .null).finishNode
  | .boolean => do
    let bytes ← payloadSlice src payload
    let value ← parseBoolean bytes
    (s.push (.boolean value)).finishNode
  | .double | .bigNumber => do
    let bytes ← payloadSlice src payload
    if !validScalar finite kind bytes then malformed "invalid RESP3 scalar"
    else (s.push (.scalar kind payload)).finishNode
  | .bulk | .array | .blobError | .verbatim | .map | .set | .push | .attributes => do
    let bytes ← payloadSlice src payload
    let length ← parseLength bytes
    s.finishLength kind length

/-- The format byte of a verbatim payload, read without a check of the offsets. -/
def verbatimFormat (payload : Payload) : Except Failure Unit :=
  match Machine.checkedSub payload.stop payload.start with
  | none => .error .panic
  | some length =>
    if length < 4 then malformed "invalid verbatim format"
    else
      match (Machine.checkedAdd payload.start 3).bind fun position => src[position]? with
      | none => .error .panic
      | some byte => if byte ≠ 58 then malformed "invalid verbatim format" else .ok ()

def finishBulk (payload : Payload) (kind : Kind) : Progress :=
  if kind = .bulk then (s.push (.bulk (some payload))).finishNode
  else do
    if kind = .verbatim then verbatimFormat src payload else .ok ()
    (s.push (.scalar kind payload)).finishNode

/-! ### The scanner -/

/-- Go on from what became of a byte. -/
def goOn : Progress → Incremental.Step Scanner Failure
  | .ok (true, s) => .complete s
  | .ok (false, s) => .running s
  | .error failure => .failed failure

/-- Check for room, then read the byte at the cursor. -/
def read (room : Except Failure Unit) (next : Byte → Progress) : Incremental.Step Scanner Failure :=
  match room with
  | .error failure => .failed failure
  | .ok () =>
    match src[s.cursor]? with
    | none => .incomplete s
    | some byte => goOn (next byte)

/-- A frame that has begun needs three more bytes for its next node. -/
def prefixRoom : Except Failure Unit :=
  if 0 < s.nodesStarted then do
    let stop ← checkedAdd s.cursor 3
    s.requireFrameEnd stop
  else .ok ()

def readKind (byte : Byte) : Progress :=
  match Kind.ofByte? byte with
  | none => malformed "unknown prefix"
  | some kind =>
    if kind.isAggregate = true ∧ s.limits.maxDepth ≤ s.arrays.length then limitExceeded "max_depth"
    else
      match (Machine.checkedAdd s.nodesStarted 1).filter (· ≤ s.limits.maxNodes) with
      | none => limitExceeded "max_nodes"
      | some started =>
        match Machine.checkedSub s.pendingNodes 1 with
        | none => malformed "node without parent"
        | some pending => do
          let cursor ← checkedAdd s.cursor 1
          .ok (false, { s with
            nodesStarted := started
            pendingNodes := pending
            cursor := cursor
            state := .line ⟨kind, s.cursor, cursor, false⟩ })

def stepPrefix : Incremental.Step Scanner Failure :=
  s.read src s.prefixRoom s.readKind

/-- A line that can no longer fit its terminator cannot become a valid frame. -/
def lineRoom (line : Line) : Except Failure Unit := do
  let minimumEnd ← checkedAdd s.cursor (if line.sawCr then 1 else 2)
  s.requireFrameEnd minimumEnd
  match Machine.checkedSub minimumEnd line.start with
  | none => malformed "invalid line offset"
  | some length =>
    if s.limits.maxLineBytes < length then limitExceeded "max_line_bytes" else .ok ()

def readLine (line : Line) (byte : Byte) : Progress := do
  let cursor ← checkedAdd s.cursor 1
  let s := { s with cursor := cursor }
  if line.sawCr then
    if byte ≠ lf then malformed "CR without LF"
    else
      match Machine.checkedSub cursor 2 with
      | none => malformed "invalid line offset"
      | some stop => s.finishLine finite src line.kind ⟨line.payloadStart, stop⟩
  else if byte = lf then malformed "LF without CR"
  else .ok (false, { s with state := .line { line with sawCr := decide (byte = cr) } })

def stepLine (line : Line) : Incremental.Step Scanner Failure :=
  s.read src (s.lineRoom line) (s.readLine finite src line)

/-- The byte behind a payload, or behind its first terminator. -/
def readTerminator (payload : Payload) (sawCr : Bool) (kind : Kind) (byte : Byte) : Progress := do
  let cursor ← checkedAdd s.cursor 1
  let s := { s with cursor := cursor }
  if sawCr then
    if byte ≠ lf then malformed "invalid bulk terminator" else s.finishBulk src payload kind
  else if byte ≠ cr then malformed "invalid bulk terminator"
  else .ok (false, { s with state := .bulk payload true kind })

/-- The payload is binary: the cursor moves over it without looking. -/
def skipTo (payload : Payload) : Scanner :=
  if s.cursor < payload.stop then { s with cursor := min src.length payload.stop } else s

def stepBulk (payload : Payload) (sawCr : Bool) (kind : Kind) : Incremental.Step Scanner Failure :=
  let s := s.skipTo src payload
  if s.cursor < payload.stop then .incomplete s
  else s.read src (.ok ()) (s.readTerminator src payload sawCr kind)

/-- One step of the scanner. -/
def step : Incremental.Step Scanner Failure :=
  match s.state with
  | .prefixByte => s.stepPrefix src
  | .line line => s.stepLine finite src line
  | .bulk payload sawCr kind => s.stepBulk src payload sawCr kind

end Scanning

end Scanner

/-! ### Frames -/

/-- The head a node stands for, with its payload copied from the buffer. -/
def Node.head (src : Bytes) : Node → Except Failure Head
  | .simple payload => do .ok (.leaf (.simple (← payloadSlice src payload)))
  | .error payload => do .ok (.leaf (.error (← payloadSlice src payload)))
  | .integer value => .ok (.leaf (.integer value))
  | .bulk none => .ok (.leaf (.bulk none))
  | .bulk (some payload) => do .ok (.leaf (.bulk (some (← payloadSlice src payload))))
  | .array none _ => .ok (.leaf .nullArray)
  | .null => .ok (.leaf .null)
  | .boolean value => .ok (.leaf (.boolean value))
  | .scalar kind payload => do
    let value ← payloadSlice src payload
    match kind with
    | .double => .ok (.leaf (.double value))
    | .bigNumber => .ok (.leaf (.bigNumber value))
    | .blobError => .ok (.leaf (.blobError value))
    | .verbatim => .ok (.leaf (.verbatim value))
    | _ => malformed "unknown scalar"
  | .array (some length) kind =>
    match kind with
    | .map => .ok (.opens .map length)
    | .set => .ok (.opens .set length)
    | .push => .ok (.opens .push length)
    | .attributes => .ok (.opens .attributes length)
    | _ => .ok (.opens .array length)

/-- An aggregate takes its elements off the stack of frames. -/
def gather : Head → List Frame → Except Failure (List Frame)
  | .leaf value, frames => .ok (.leaf value :: frames)
  | .opens kind length, frames =>
    if frames.length < length then malformed "incomplete array"
    else .ok (.aggregate kind (frames.take length) :: frames.drop length)

/-- The frames of some nodes, the last node first. -/
def assemble (src : Bytes) : List Node → Except Failure (List Frame)
  | [] => .ok []
  | node :: nodes => do
    let frames ← assemble src nodes
    let head ← node.head src
    gather head frames

def materialize (src : Bytes) (nodes : List Node) : Except Failure Frame := do
  match ← assemble src nodes with
  | [] => malformed "frame without root"
  | [frame] => .ok frame
  | _ => malformed "frame with multiple roots"

namespace Decoder

/-- Between two frames. -/
def fresh (limits : RespLimits) : Decoder :=
  ⟨.fresh limits, 0, false⟩

def new (limits : RespLimits) : Except ConfigError Decoder := do
  limits.validate
  .ok (fresh limits)

def fail (d : Decoder) (failure : Failure) (src : Bytes) : Incremental.Call Decoder Failure Byte Frame :=
  (.error failure, { d with
    scanner := { d.scanner with nodes := [], arrays := [] }
    poisoned := true }, src)

/-- **One call.** A complete frame is taken off the buffer. -/
def decode (finite : Bytes → Bool) (d : Decoder) (src : Bytes) :
    Incremental.Call Decoder Failure Byte Frame :=
  if d.poisoned then (.error (.protocol .poisoned), d, src)
  else if src.length < d.previousLen then d.fail (.protocol .bufferChanged) src
  else
    match Incremental.scan (Scanner.step finite) src (src.length + 1) d.scanner with
    | .incomplete scanner => (.ok none, ⟨scanner, src.length, d.poisoned⟩, src)
    | .failed failure => d.fail failure src
    -- every step moves the cursor, so the scan does not run out of steps
    | .running _ => d.fail .panic src
    | .complete scanner =>
      match materialize src scanner.nodes with
      | .error failure => d.fail failure src
      | .ok frame =>
        -- `advance` panics past the end
        if src.length < scanner.cursor then d.fail .panic src
        else (.ok (some frame), ⟨.fresh scanner.limits, 0, d.poisoned⟩, src.drop scanner.cursor)

end Decoder

end Sider.Resp

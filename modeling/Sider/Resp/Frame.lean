/-
**RESP frames.**

A frame is a leaf or an aggregate of frames. `heads` lists a frame in the order it is written, one head
for every node: `Head.bytes` is what the head puts on the wire, so that `bytes` of a frame is the
concatenation over its heads, `size` its length and `count` the number of its nodes.

`Frame.Fits limits` collects what the five limits ask of a frame: every head is well formed and within
the line and bulk limits, and depth, node count and size are within theirs. Encoder and decoder are
compared through it.
-/

import Sider.Lib.Decimal
import Sider.Lib.Machine

namespace Sider.Resp

theorem bind_eq_ok_iff {ε α β : Type} {first : Except ε α} {next : α → Except ε β} {result : β} :
    (first >>= next) = .ok result ↔ ∃ value, first = .ok value ∧ next value = .ok result := by
  cases first with
  | error error => exact ⟨nofun, fun ⟨_, wrong, _⟩ => (nomatch wrong)⟩
  | ok value => exact ⟨fun same => ⟨value, rfl, same⟩, fun ⟨_, same, rest⟩ => by cases same; exact rest⟩

/-! ### Kinds -/

/-- The kinds of frames, told apart by their first byte. -/
inductive Kind where
  | simple | error | integer | bulk | array | null | boolean | double | bigNumber | blobError
  | verbatim | map | set | push | attributes
  deriving DecidableEq, Repr

namespace Kind

def all : List Kind :=
  [simple, error, integer, bulk, array, null, boolean, double, bigNumber, blobError, verbatim, map, set,
    push, attributes]

def char : Kind → Char
  | simple => '+'
  | error => '-'
  | integer => ':'
  | bulk => '$'
  | array => '*'
  | null => '_'
  | boolean => '#'
  | double => ','
  | bigNumber => '('
  | blobError => '!'
  | verbatim => '='
  | map => '%'
  | set => '~'
  | push => '>'
  | attributes => '|'

def byte (kind : Kind) : Byte :=
  Fin.ofNat 256 kind.char.toNat

def ofByte? (byte : Byte) : Option Kind :=
  all.find? fun kind => kind.byte = byte

@[simp] theorem ofByte?_byte (kind : Kind) : ofByte? kind.byte = some kind := by
  cases kind <;> rfl

/-- The kinds whose length counts elements. -/
def isAggregate : Kind → Bool
  | array | map | set | push | attributes => true
  | _ => false

end Kind

/-! ### Frames -/

def cr : Byte := 13

def lf : Byte := 10

def crlf : Bytes := [cr, lf]

/-- A signed 64-bit integer. -/
abbrev I64 := { value : Int // Machine.IsI64 value }

/-- Frames without elements. -/
inductive Leaf where
  | simple (value : Bytes)
  | error (value : Bytes)
  | integer (value : I64)
  | bulk (value : Option Bytes)
  | nullArray
  | null
  | boolean (value : Bool)
  | double (value : Bytes)
  | bigNumber (value : Bytes)
  | blobError (value : Bytes)
  | verbatim (value : Bytes)
  deriving DecidableEq

/-- Frames with elements. -/
inductive Aggregate where
  | array | map | set | push | attributes
  deriving DecidableEq, Repr

inductive Frame where
  | leaf (value : Leaf)
  | aggregate (kind : Aggregate) (items : List Frame)

namespace Aggregate

def toKind : Aggregate → Kind
  | array => .array
  | map => .map
  | set => .set
  | push => .push
  | attributes => .attributes

/-- Elements alternate between keys and values, and the length counts pairs. -/
def paired : Aggregate → Bool
  | map | attributes => true
  | _ => false

/-- The length written for a number of elements. -/
def declared (kind : Aggregate) (length : Nat) : Nat :=
  if kind.paired then length / 2 else length

end Aggregate

/-- What one node puts on the wire: a leaf, or the opening of an aggregate. -/
inductive Head where
  | leaf (value : Leaf)
  | opens (kind : Aggregate) (length : Nat)
  deriving DecidableEq

/-- A line: kind, content and terminator. -/
def line (kind : Kind) (content : Bytes) : Bytes :=
  kind.byte :: content ++ crlf

theorem length_line (kind : Kind) (content : Bytes) : (line kind content).length = content.length + 3 := by
  simp [line, crlf]

namespace Leaf

def kind : Leaf → Kind
  | simple _ => .simple
  | error _ => .error
  | integer _ => .integer
  | bulk _ => .bulk
  | nullArray => .array
  | null => .null
  | boolean _ => .boolean
  | double _ => .double
  | bigNumber _ => .bigNumber
  | blobError _ => .blobError
  | verbatim _ => .verbatim

/-- The content of the first line. -/
def content : Leaf → Bytes
  | simple value | error value | double value | bigNumber value => value
  | integer value => Bytes.decimal value.val
  | bulk none | nullArray => Bytes.ascii "-1"
  | bulk (some value) | blobError value | verbatim value => Bytes.decimal value.length
  | null => []
  | boolean value => Bytes.ascii (if value then "t" else "f")

/-- The payload after the first line. -/
def payload : Leaf → Option Bytes
  | bulk value => value
  | blobError value | verbatim value => some value
  | _ => none

def bytes (leaf : Leaf) : Bytes :=
  line leaf.kind leaf.content ++ (leaf.payload.map (· ++ crlf)).getD []

end Leaf

theorem length_leaf (leaf : Leaf) : leaf.bytes.length =
    leaf.content.length + 3 + (leaf.payload.elim 0 fun payload => payload.length + 2) := by
  unfold Leaf.bytes
  rw [List.length_append, length_line]
  cases leaf.payload <;> simp [crlf]

namespace Head

def bytes : Head → Bytes
  | leaf value => value.bytes
  | opens kind length => line kind.toKind (Bytes.decimal (kind.declared length))

/-- How many elements follow. -/
def arity : Head → Nat
  | leaf _ => 0
  | opens _ length => length

/-- The heads that need a level of their own. -/
def nests : Head → Bool
  | leaf .nullArray | opens _ _ => true
  | leaf _ => false

end Head

namespace Frame

mutual

/-- The heads of a frame, in the order they are written. -/
def heads : Frame → List Head
  | leaf value => [.leaf value]
  | aggregate kind items => .opens kind items.length :: headsAll items

def headsAll : List Frame → List Head
  | [] => []
  | frame :: frames => frame.heads ++ headsAll frames

end

mutual

/-- Levels of aggregates; a null array counts as one. -/
def depth : Frame → Nat
  | leaf .nullArray => 1
  | leaf _ => 0
  | aggregate _ items => depthAll items + 1

def depthAll : List Frame → Nat
  | [] => 0
  | frame :: frames => max frame.depth (depthAll frames)

end

/-- The encoding of a frame. -/
def bytes (frame : Frame) : Bytes :=
  frame.heads.flatMap Head.bytes

def size (frame : Frame) : Nat :=
  frame.bytes.length

/-- The nodes of a frame, itself included. -/
def count (frame : Frame) : Nat :=
  frame.heads.length

/-- What a frame writes before its elements. -/
def head : Frame → Head
  | leaf value => .leaf value
  | aggregate kind items => .opens kind items.length

def items : Frame → List Frame
  | leaf _ => []
  | aggregate _ items => items

theorem headsAll_eq (frames : List Frame) : headsAll frames = frames.flatMap heads := by
  induction frames with
  | nil => rfl
  | cons frame frames ih => rw [headsAll, ih, List.flatMap_cons]

theorem heads_eq (frame : Frame) : frame.heads = frame.head :: frame.items.flatMap heads := by
  cases frame with
  | leaf value => rfl
  | aggregate kind items => rw [heads, headsAll_eq]; rfl

theorem count_pos (frame : Frame) : 0 < frame.count := by
  unfold count
  rw [heads_eq]
  exact Nat.succ_pos _

theorem depthAll_le {frames : List Frame} {bound : Nat} :
    depthAll frames ≤ bound ↔ ∀ frame ∈ frames, frame.depth ≤ bound := by
  induction frames with
  | nil => simp [depthAll]
  | cons frame frames ih => simp [depthAll, ih]

section

variable (frame : Frame)

theorem arity_head : frame.head.arity = frame.items.length := by
  cases frame <;> rfl

theorem count_eq : frame.count = (frame.items.map count).sum + 1 := by
  unfold count
  rw [heads_eq, List.length_cons, List.length_flatMap]

theorem bytes_eq : frame.bytes = frame.head.bytes ++ frame.items.flatMap bytes := by
  unfold bytes
  rw [heads_eq, List.flatMap_cons, List.flatMap_assoc]

theorem size_eq : frame.size = frame.head.bytes.length + (frame.items.map size).sum := by
  unfold size
  rw [bytes_eq, List.length_append, List.length_flatMap]

theorem forall_heads {property : Head → Prop} :
    (∀ head ∈ frame.heads, property head) ↔
      property frame.head ∧ ∀ item ∈ frame.items, ∀ head ∈ item.heads, property head := by
  rw [heads_eq]
  simp only [List.mem_cons, List.mem_flatMap, forall_eq_or_imp, forall_exists_index, and_imp]
  exact and_congr_right fun _ => ⟨fun all item member head inside => all head item member inside,
    fun all head item member inside => all item member head inside⟩

/-- The depth a frame needs, one level at a time. -/
theorem depth_le_iff {bound level : Nat} :
    frame.depth ≤ bound - level ↔ (frame.head.nests = true → level + 1 ≤ bound) ∧
      ∀ item ∈ frame.items, item.depth ≤ bound - (level + 1) := by
  cases frame with
  | leaf value =>
    cases value with
    | nullArray =>
      simp only [depth, head, items, Head.nests, List.not_mem_nil, false_implies, implies_true,
        and_true, true_implies]
      omega
    | _ => simp [depth, head, items, Head.nests]
  | aggregate kind items =>
    rw [← depthAll_le]
    simp only [depth, head, Frame.items, Head.nests, true_implies]
    omega

end

/-- Induction over a frame and its elements. -/
theorem induct {motive : Frame → Prop} (leaf : ∀ value, motive (.leaf value))
    (aggregate : ∀ kind items, (∀ frame ∈ items, motive frame) → motive (.aggregate kind items))
    (frame : Frame) : motive frame := by
  have sized : ∀ (bound : Nat) (frame : Frame), frame.count ≤ bound → motive frame := by
    intro bound
    induction bound with
    | zero => exact fun frame small => absurd frame.count_pos (by omega)
    | succ bound ih =>
      intro frame small
      cases frame with
      | leaf value => exact leaf value
      | aggregate kind items =>
        refine aggregate kind items fun frame member => ih frame ?_
        have inside : frame.count ≤ (items.flatMap heads).length := by
          rw [List.length_flatMap]
          exact List.le_sum_of_mem (List.mem_map.mpr ⟨frame, member, rfl⟩)
        have all : (Frame.aggregate kind items).count = (items.flatMap heads).length + 1 := by
          unfold count
          rw [heads_eq]
          rfl
        omega
  exact sized frame.count frame (Nat.le_refl _)

end Frame

/-! ### Limits -/

/-- Budget for one frame; the values are `usize`. -/
structure RespLimits where
  maxFrameBytes : Nat
  maxBulkBytes : Nat
  maxLineBytes : Nat
  maxNodes : Nat
  maxDepth : Nat
  representable : maxFrameBytes < Machine.word ∧ maxBulkBytes < Machine.word ∧
    maxLineBytes < Machine.word ∧ maxNodes < Machine.word ∧ maxDepth < Machine.word
  deriving DecidableEq

/-- Why the limits are refused. -/
inductive ConfigError where
  | invalidRespLimits (reason : String)
  deriving DecidableEq, Repr

namespace RespLimits

def default : RespLimits where
  maxFrameBytes := 4 * 1024 * 1024
  maxBulkBytes := 1024 * 1024
  maxLineBytes := 1024
  maxNodes := 1024
  maxDepth := 16
  representable := by decide

def validate (limits : RespLimits) : Except ConfigError Unit :=
  if limits.maxFrameBytes = 0 ∨ limits.maxBulkBytes = 0 ∨ limits.maxLineBytes = 0
      ∨ limits.maxNodes = 0 ∨ limits.maxDepth = 0 then
    .error (.invalidRespLimits "all limits must be greater than zero")
  else if limits.maxFrameBytes < limits.maxBulkBytes then
    .error (.invalidRespLimits "max_bulk_bytes cannot exceed max_frame_bytes")
  else if limits.maxFrameBytes < limits.maxLineBytes then
    .error (.invalidRespLimits "max_line_bytes cannot exceed max_frame_bytes")
  else if 128 < limits.maxDepth then
    .error (.invalidRespLimits "max_depth cannot exceed 128")
  else .ok ()

end RespLimits

/-! ### Scalars -/

section Scalars

variable (finite : Bytes → Bool)

def isAsciiWhitespace (byte : Byte) : Bool :=
  byte.val = 9 || byte.val = 10 || byte.val = 12 || byte.val = 13 || byte.val = 32

/-- A big number: digits after an optional minus sign. -/
def isBigNumber (bytes : Bytes) : Bool :=
  let digits := if bytes.head? = some 45 then bytes.tail else bytes
  !digits.isEmpty && digits.all Bytes.isDigit

/-- A double: one of three names, or a text the standard parser reads as a finite number. -/
def isDouble (bytes : Bytes) : Bool :=
  bytes = Bytes.ascii "inf" || bytes = Bytes.ascii "-inf" || bytes = Bytes.ascii "nan"
    || (finite bytes && !bytes.any isAsciiWhitespace)

/-- The content of a double or big number line. -/
def validScalar (kind : Kind) (bytes : Bytes) : Bool :=
  if kind = .bigNumber then isBigNumber bytes else isDouble finite bytes

/-- The format of a verbatim text: three bytes and a colon. -/
def isVerbatim (value : Bytes) : Bool :=
  4 ≤ value.length && value[3]? = some 58

/-- No line terminator inside. -/
def isText (value : Bytes) : Bool :=
  value.all fun byte => byte ≠ cr && byte ≠ lf

/-- What a leaf must satisfy besides its size. -/
def Leaf.wellFormed : Leaf → Bool
  | .simple value | .error value => isText value
  | .double value => validScalar finite .double value
  | .bigNumber value => validScalar finite .bigNumber value
  | .verbatim value => isVerbatim value
  | _ => true

/-- A well-formed head within the line and bulk limits. -/
def Head.Fits (limits : RespLimits) : Head → Prop
  | .leaf value => value.wellFormed finite = true ∧ value.content.length + 3 ≤ limits.maxLineBytes ∧
      ∀ payload, value.payload = some payload → payload.length ≤ limits.maxBulkBytes
  | .opens kind length => (kind.paired = true → length % 2 = 0) ∧
      (Bytes.decimal (kind.declared length)).length + 3 ≤ limits.maxLineBytes

/-- **A frame within the limits.** -/
structure Frame.Fits (limits : RespLimits) (frame : Frame) : Prop where
  heads : ∀ head ∈ frame.heads, head.Fits finite limits
  depth : frame.depth ≤ limits.maxDepth
  count : frame.count ≤ limits.maxNodes
  size : frame.size ≤ limits.maxFrameBytes

end Scalars

end Sider.Resp

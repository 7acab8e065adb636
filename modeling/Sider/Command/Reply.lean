/-
**Replies on the wire.**

`Reply.toFrame` is the RESP2 form of a reply. In RESP3 nulls are one type (`resp3`), notifications are
pushes (`push`), and the replies of a few commands have a type of their own (`commandResp3`).
-/

import Sider.Command.Types
import Sider.Resp.Frame

namespace Sider

open Resp

/-- An `i64` from a wider integer, as a cast gives it. -/
def Resp.I64.cast (value : Int) : I64 :=
  ⟨value.bmod (2 ^ 64), by
    have low := Int.le_bmod (x := value) (m := 2 ^ 64) (by decide)
    have high := Int.bmod_lt (x := value) (m := 2 ^ 64) (by decide)
    norm_num [Machine.IsI64, Machine.i64Min, Machine.i64Max] at low high ⊢
    omega⟩

def bulkFrame (value : Bytes) : Frame :=
  .leaf (.bulk (some value))

def integerFrame (value : Int) : Frame :=
  .leaf (.integer (I64.cast value))

def arrayFrame (items : List Frame) : Frame :=
  .aggregate .array items

def errorFrame (text : String) : Frame :=
  .leaf (.error (Bytes.ascii text))

mutual

def Reply.toFrame : Reply → Frame
  | .pong => .leaf (.simple (Bytes.ascii "PONG"))
  | .ok => .leaf (.simple (Bytes.ascii "OK"))
  | .bulk value => .leaf (.bulk value)
  | .integer value => integerFrame value
  | .array values => arrayFrame (Reply.toFrames values)
  | .nullArray => .leaf .nullArray
  | .error failure => errorFrame failure.text

def Reply.toFrames : List Reply → List Frame
  | [] => []
  | reply :: replies => reply.toFrame :: Reply.toFrames replies

end

mutual

/-- RESP3 has one null. -/
def resp3 : Frame → Frame
  | .leaf (.bulk none) | .leaf .nullArray => .leaf .null
  | .aggregate .array items => .aggregate .array (resp3All items)
  | frame => frame

def resp3All : List Frame → List Frame
  | [] => []
  | frame :: frames => resp3 frame :: resp3All frames

end

/-- The commands whose RESP3 reply has a type of its own. -/
inductive TypedReply where
  | hgetall
  | smembers
  | zscore

def typedResp3 : TypedReply → Frame → Frame
  | .hgetall, .aggregate .array items => .aggregate .map (resp3All items)
  | .smembers, .aggregate .array items => .aggregate .set (resp3All items)
  | .zscore, .leaf (.bulk (some value)) => .leaf (.double value)
  | _, frame => resp3 frame

/-- A notification or a confirmation of one, in the protocol of its connection. -/
def push (protocol3 : Bool) : Frame → Frame
  | .aggregate .array items => if protocol3 then .aggregate .push (resp3All items) else arrayFrame items
  | frame => frame

/-- Members with their scores, as pairs; a single last frame is dropped. -/
def scorePairs : List Frame → List Frame
  | member :: score :: rest =>
    arrayFrame [member, match score with
      | .leaf (.bulk (some value)) => .leaf (.double value)
      | other => other] :: scorePairs rest
  | _ => []

def commandResp3 (command : Command) (frame : Frame) : Frame :=
  match command with
  | .hash _ .getAll => typedResp3 .hgetall frame
  | .setCollection _ .members => typedResp3 .smembers frame
  | .sortedSet _ (.score _) => typedResp3 .zscore frame
  | .sortedSet _ (.range _ _ true) =>
    match frame with
    | .aggregate .array items => arrayFrame (scorePairs items)
    | frame => resp3 frame
  | _ => resp3 frame

end Sider

/-
**Requests.**

A request is a non-empty array of non-null bulks. The connection reads its name and its size off the
frame, and parses AUTH and HELLO itself, before any other command.
-/

import Mathlib.Data.Nat.Log
import Sider.Command.Reply
import Sider.Security.Policy

namespace Sider

open Resp

/-! ### Refused requests -/

inductive RequestError where
  | invalidFormat
  | unsupportedHelloOptions
  | unsupportedProtocolVersion
  | invalidProtocolVersion
  | unknownCommand
  | wrongArity (name : String)
  | badSyntax
  | invalidInteger
  | invalidFloat
  | invalidSetExpiry
  | invalidExpiry (name : String)
  | memory (message : String)
  deriving DecidableEq, Repr

namespace RequestError

/-- A malformed request closes its connection. -/
def isFatal : RequestError → Bool
  | invalidFormat => true
  | _ => false

def text : RequestError → String
  | memory message => message
  | invalidFormat => "ERR invalid request format"
  | unsupportedHelloOptions => "ERR unsupported HELLO options"
  | unsupportedProtocolVersion => "NOPROTO unsupported protocol version"
  | invalidProtocolVersion => "ERR Protocol version is not an integer or out of range"
  | unknownCommand => "ERR unknown command"
  | wrongArity name => "ERR wrong number of arguments for '" ++ name ++ "' command"
  | badSyntax => "ERR syntax error"
  | invalidInteger => "ERR value is not an integer or out of range"
  | invalidFloat => "ERR value is not a valid float"
  | invalidSetExpiry => "ERR invalid expire time in 'set' command"
  | invalidExpiry name => "ERR invalid expire time in '" ++ name ++ "' command"

def toFrame (error : RequestError) : Frame :=
  errorFrame error.text

end RequestError

/-! ### What the connection reads -/

def bulk? : Frame → Option Bytes
  | .leaf (.bulk value) => value
  | _ => none

def parts? : Frame → Option (List Frame)
  | .aggregate .array parts => some parts
  | _ => none

/-- The arguments of an array of non-null bulks. -/
def bulks? (frame : Frame) : Option (List Bytes) :=
  (parts? frame).bind fun parts => parts.mapM bulk?

/-- The first part in lower case; empty if the frame has no name. -/
def requestName (frame : Frame) : Bytes :=
  match ((parts? frame).bind List.head?).bind bulk? with
  | some name => name.map Bytes.toAsciiLowercase
  | none => []

/-- The number of decimal digits. -/
def digits (value : Nat) : Nat := Nat.log 10 value + 1

/-- The size of an array of bulks on the wire; other parts are not counted. -/
def requestBytes (frame : Frame) : Nat :=
  match parts? frame with
  | some arguments =>
    arguments.foldl
      (fun size argument =>
        match bulk? argument with
        | some value => Machine.saturatingAdd (Machine.saturatingAdd size value.length)
            (digits value.length + 5)
        | none => size)
      (digits arguments.length + 3)
  | none => 0

/-! ### AUTH and HELLO -/

def bulkArguments (frame : Frame) : Except RequestError (List Bytes) :=
  match bulks? frame with
  | some (name :: rest) => .ok (name :: rest)
  | _ => .error .invalidFormat

def parseAuth (frame : Frame) : Except RequestError (Bytes × Bytes) := do
  match ← bulkArguments frame with
  | [_, username, password] => .ok (username, password)
  | _ => .error (.wrongArity "auth")

/-- The protocol of a version argument. -/
def parseVersion : Option Bytes → Except RequestError (Option Nat)
  | none => .ok none
  | some version =>
    if version = Bytes.ascii "2" then .ok (some 2)
    else if version = Bytes.ascii "3" then .ok (some 3)
    else if (parseDecimal version).isSome then .error .unsupportedProtocolVersion
    else .error .invalidProtocolVersion

structure HelloAuthentication where
  version : Option Nat
  authentication : Option (Bytes × Bytes)

def parseHelloAuth (frame : Frame) : Except RequestError HelloAuthentication := do
  let arguments ← bulkArguments frame
  let version ← parseVersion arguments[1]?
  match arguments.drop 2 with
  | [] => .ok ⟨version, none⟩
  | option :: rest =>
    if !Bytes.eqIgnoreAsciiCase option (Bytes.ascii "AUTH") then .error .unsupportedHelloOptions
    else
      match rest with
      | [username, password] => .ok ⟨version, some (username, password)⟩
      | _ => .error .badSyntax

def parseHello (frame : Frame) : Except RequestError (Option Nat) := do
  match ← bulkArguments frame with
  | name :: rest =>
    if !Bytes.eqIgnoreAsciiCase name (Bytes.ascii "HELLO") then .error .unknownCommand
    else if 1 < rest.length then .error .unsupportedHelloOptions
    else parseVersion rest.head?
  | [] => .error .invalidFormat

end Sider

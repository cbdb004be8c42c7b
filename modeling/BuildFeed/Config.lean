/-
# Configuration

How messages are dispatched, and how the program that uses this library
reports on itself. A section that is left out has its defaults; within a
section all but the parent policy has to be given. A queue for no message at
all is refused.

Key definitions: `ParentPolicy`, `Config`, `Config.validate`, `Config.ofText`.
-/
import BuildFeed.Error
import BuildFeed.Json.Value
import BuildFeed.Wire.Record

namespace BuildFeed

open Json Wire

/-- What a descriptor names as its parent if a client was not sent the
operation's own parent. -/
inductive ParentPolicy
  /-- The nearest ancestor that the client was sent. -/
  | nearestEnabledAncestor
  /-- Nothing, so that only the own parent is ever named. -/
  | ownParentOnly
  deriving Repr, DecidableEq

namespace ParentPolicy

instance : Inhabited ParentPolicy := ⟨nearestEnabledAncestor⟩

def wireName : ParentPolicy → String
  | nearestEnabledAncestor => "nearest_enabled_ancestor"
  | ownParentOnly => "omit"

def toValue (p : ParentPolicy) : Value := .text p.wireName

def decoder : Decoder ParentPolicy :=
  Decoder.oneOf ([nearestEnabledAncestor, ownParentOnly].map fun p => (p.wireName, p))

end ParentPolicy

/-- How messages are dispatched. -/
structure DispatchConfig where
  /-- The number of unread messages that a connection may have. -/
  queueCapacity : UInt64
  parentPolicy : ParentPolicy
  deriving Repr, DecidableEq

namespace DispatchConfig

instance : Inhabited DispatchConfig := ⟨⟨1024, default⟩⟩

def toValue (c : DispatchConfig) : Value :=
  .object [("listener_queue_capacity", .nat c.queueCapacity.toNat),
    ("parent_resolution", c.parentPolicy.toValue)]

def record : Record DispatchConfig :=
  DispatchConfig.mk <$> .required "listener_queue_capacity" Decoder.uint64
    <*> .defaulting "parent_resolution" default ParentPolicy.decoder

end DispatchConfig

/-- How the program reports on itself. -/
structure LogConfig where
  level : String
  json : Bool
  deriving Repr, DecidableEq

namespace LogConfig

instance : Inhabited LogConfig := ⟨⟨"info", false⟩⟩

def toValue (c : LogConfig) : Value :=
  .object [("log_level", .text c.level), ("json_logs", .bool c.json)]

def record : Record LogConfig :=
  LogConfig.mk <$> .required "log_level" Decoder.text <*> .required "json_logs" Decoder.bool

end LogConfig

/-- The whole configuration. -/
structure Config where
  dispatch : DispatchConfig
  log : LogConfig
  deriving Repr, DecidableEq, Inhabited

namespace Config

/-- Refuses what cannot be run. -/
def validate (c : Config) : Except Error Unit :=
  if c.dispatch.queueCapacity = 0 then .error .zeroCapacity else .ok ()

def toValue (c : Config) : Value :=
  .object [("dispatch", c.dispatch.toValue), ("observability", c.log.toValue)]

def record : Record Config :=
  Config.mk <$> .defaulting "dispatch" default DispatchConfig.record.decoder
    <*> .defaulting "observability" default LogConfig.record.decoder

def decoder : Decoder Config := record.decoder

/-- Reads a configuration and validates it. -/
def ofText (text : String) : Except Error Config :=
  match decode decoder text with
  | .error f => .error (.ofFault f)
  | .ok c => c.validate.map fun _ => c

end Config

end BuildFeed

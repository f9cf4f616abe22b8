import ConformanceHarness.Lib.Program
import ConformanceHarness.Scenario.ResponseRules
import ConformanceHarness.Trace

/-!
# A server session

What the two execution loops have in common. A session is a program over its
locals, the messages it has put on the channel and the events it has written; it
receives from a given list of client messages, whose end is a failing receive (a
closed channel, a message that does not decode, one only a server may send).
Channel sends and trace writes succeed, and a wait takes no time.

Three components are proof-only. `ioState` is the tracked state at the last send or
receive, and an event is stamped with it and with the tracked state at its own
emission. `performed` lists the steps of the session that touched the channel,
each with the state it started from. `delivered` lists the blocks or headers sent.
-/

namespace ConformanceHarness

open ConformanceHarness.Lib (Prog)

/-- What a server put on its channel. -/
inductive Wire (μ : Type) where
  | message (m : μ)
  /-- Bytes sent as they are, by a `raw_bytes` rule. -/
  | raw (bytes : List UInt8)
deriving Repr, DecidableEq

/-- An event, with the state the session tracked when its message crossed the
channel, and when the event was written. -/
structure Stamped (τ : Type) where
  event : TraceEvent
  before : τ
  after : τ
deriving Repr

/-- A step that touched the channel. -/
inductive SessionStep (τ ρ : Type) where
  /-- A client message received in `state`. -/
  | received (state : τ)
  /-- A send performed from `state` and `locals`. -/
  | sent (state : τ) (locals : ρ) (send : ScriptSend)
deriving Repr

/-- A session that tracks states in `τ`, has locals `ρ` and sends messages `μ`, some of
which deliver a `κ`. -/
structure Session (τ ρ μ κ : Type) where
  state : τ
  locals : ρ
  sent : List (Wire μ)
  trace : List (Stamped τ)
  ioState : τ
  performed : List (SessionStep τ ρ)
  delivered : List κ

/-- A part of a server. -/
abbrev Server (τ ρ μ κ : Type) : Type → Type := Prog (Session τ ρ μ κ) Fault

namespace Session

variable {τ ρ μ κ : Type}

/-- A session before anything happened. -/
def start (state : τ) (locals : ρ) : Session τ ρ μ κ where
  state := state
  locals := locals
  sent := []
  trace := []
  ioState := state
  performed := []
  delivered := []

/-- `*state = ..`. -/
def setState (state : τ) : Server τ ρ μ κ Unit := Prog.modify fun s => { s with state }

/-- An assignment to a local variable. -/
def update (f : ρ → ρ) : Server τ ρ μ κ Unit := Prog.modify fun s => { s with locals := f s.locals }

/-- `send_message`. -/
def sendMessage (m : μ) : Server τ ρ μ κ Unit :=
  Prog.modify fun s => { s with sent := s.sent ++ [.message m], ioState := s.state }

/-- `send_raw`. -/
def sendRaw (bytes : List UInt8) : Server τ ρ μ κ Unit :=
  Prog.modify fun s => { s with sent := s.sent ++ [.raw bytes], ioState := s.state }

/-- `tracer.emit`. -/
def emit (event : TraceEvent) : Server τ ρ μ κ Unit :=
  Prog.modify fun s => { s with trace := s.trace ++ [⟨event, s.ioState, s.state⟩] }

/-- Records that a client message was received. -/
def noteReceived : Server τ ρ μ κ Unit :=
  Prog.modify fun s =>
    { s with ioState := s.state, performed := s.performed ++ [.received s.state] }

/-- Records that `send` is about to be performed. -/
def noteSend (send : ScriptSend) : Server τ ρ μ κ Unit :=
  Prog.modify fun s => { s with performed := s.performed ++ [.sent s.state s.locals send] }

/-- Records that a block or a header is delivered. -/
def noteDelivered (source : κ) : Server τ ρ μ κ Unit :=
  Prog.modify fun s => { s with delivered := s.delivered ++ [source] }

end Session

/-- `rules[rule_idx..].iter().position(..)`, with the rule found; the rules given are
numbered from `ruleIdx`. -/
def nextRule (matchesOn : On → Bool) : Nat → List ScriptRule → Option (Nat × ScriptRule)
  | _, [] => none
  | ruleIdx, rule :: rest =>
    if matchesOn rule.on then some (ruleIdx, rule) else nextRule matchesOn (ruleIdx + 1) rest

/-- The `ResponseRuleApplied` event. -/
def ruleAppliedEvent (rulePos : Nat) (rule : ScriptRule) : TraceEvent :=
  TraceEvent.new .responseRuleApplied .internal
    (.object [("on", .string rule.onStr), ("rule_index", .ofLen rulePos),
      ("send", .string rule.send.kindStr)])

end ConformanceHarness

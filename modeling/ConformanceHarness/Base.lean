import Mathlib.Algebra.Group.Int.Defs
import Mathlib.Algebra.Group.Nat.Defs

/-!
# Faults, and the vocabulary every module shares

A Rust function of the harness can fail in two ways the model keeps apart: it
returns an `anyhow` error, or it panics. An error carries the chain of contexts
`anyhow` builds, outermost first; a panic carries only what went wrong.

`Point` and `Tip` are the types of `pallas_network::miniprotocols`.
-/

namespace ConformanceHarness

/-- How a call of the harness can stop short of a value. -/
inductive Fault where
  /-- An `anyhow::Error`, outermost context first. -/
  | err (chain : List String)
  /-- A panic: a slice out of range, a slice off a character boundary. -/
  | panic (reason : String)
deriving Repr, DecidableEq

/-- `anyhow::bail!` and `anyhow::anyhow!`. -/
def bail {α : Type} (message : String) : Except Fault α := .error (.err [message])

/-- `.context(..)` and `.with_context(..)`: wraps an error, lets a panic through. -/
def withContext {α : Type} (context : String) : Except Fault α → Except Fault α
  | .ok a => .ok a
  | .error (.err chain) => .error (.err (context :: chain))
  | .error (.panic reason) => .error (.panic reason)

@[simp] theorem withContext_ok {α : Type} {c : String} {a : α} :
    withContext c (.ok a) = .ok a := rfl

/-- Context changes the text of an error, never whether there is a value. -/
theorem withContext_eq_ok {α : Type} {c : String} {r : Except Fault α} {a : α} :
    withContext c r = .ok a ↔ r = .ok a := by
  cases r with
  | ok b => simp [withContext]
  | error f => cases f <;> simp [withContext]

/-- A computation that succeeds went through every step of it. -/
theorem bind_eq_ok {α β : Type} {x : Except Fault α} {f : α → Except Fault β} {b : β} :
    x >>= f = .ok b ↔ ∃ a, x = .ok a ∧ f a = .ok b := by
  cases x with
  | ok a => simp [bind, Except.bind]
  | error e => simp [bind, Except.bind]

/-- `.map(..).collect()` for a function that may panic. -/
def mapEntries {α β : Type} (f : α → Except Fault β) : List α → Except Fault (List β)
  | [] => .ok []
  | a :: rest =>
    match f a with
    | .error e => .error e
    | .ok b =>
      match mapEntries f rest with
      | .error e => .error e
      | .ok bs => .ok (b :: bs)

/-- A point on a chain. -/
inductive Point where
  | origin
  | specific (slot : UInt64) (hash : List UInt8)
deriving Repr, DecidableEq

/-- The tip a Chain-Sync server reports: a point and a block number. -/
structure Tip where
  point : Point
  blockNumber : UInt64
deriving Repr, DecidableEq

end ConformanceHarness

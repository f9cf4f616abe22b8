import ConformanceHarness.Miniprotocols.BlockFetch
import ConformanceHarness.Runner.Concurrent
import ConformanceHarness.Runner.FixtureFiles

/-!
# Captures of concurrent steps

How `StepKind::ChainSync` and `StepKind::BlockFetch` of `scenario/runner.rs` end if there is a
`--capture-fixture` or a `--capture-block-fixture` path. The files are shared by the steps of all
branches, and so are the flags in `RunnerState`. From the test of the flag to the last entry
there is no await, so a capture is what a branch does in one go: it is added to the `io` action at
the end of these steps.

A file operation can fail, and may have written some bytes before it does. The step fails with it.
-/

namespace ConformanceHarness

/-- The entry of a captured block. -/
def CapturedBlock.entry (cb : CapturedBlock) : BlockFixtureEntry where
  slot := cb.slot
  blockHash := encodeHex cb.blockHash
  blockCborHex := encodeHex cb.cbor

namespace Concurrent

open Lib
open Runner (LeafKind RunError)
open FixtureFile (textBytes)

/-- What a capture file is about. -/
inductive CaptureKind where
  | headers
  | blocks
deriving Repr, DecidableEq

/-- Where captures are written, and how. Paths that name one file are equal here. -/
structure CaptureSetting where
  serde : FixtureSerde
  /-- `to_string` of a `BlockFixtureEntry`. -/
  blockToString : BlockFixtureEntry → String
  captureFixturePath : Option String
  captureBlockFixturePath : Option String

def CaptureSetting.path (C : CaptureSetting) : CaptureKind → Option String
  | .headers => C.captureFixturePath
  | .blocks => C.captureBlockFixturePath

/-- What the steps of a kind capture. -/
def captureKind : LeafKind → Option CaptureKind
  | .chainSync => some .headers
  | .blockFetch => some .blocks
  | _ => none

/-- What a step has written behind the anchor of its file. -/
structure Written where
  kind : CaptureKind
  /-- The entries it has captured, a line each. -/
  lines : List String
  /-- As much of them as was written. -/
  bytes : List UInt8
  completed : Bool
  started : bytes <+: textBytes lines
  whole : completed = true → bytes = textBytes lines

/-- All of it was written. -/
def Written.all (kind : CaptureKind) (lines : List String) : Written where
  kind := kind
  lines := lines
  bytes := textBytes lines
  completed := true
  started := List.prefix_rfl
  whole := fun _ => rfl

/-- The files, and the flags of `RunnerState`. -/
structure CaptureFiles where
  file : String → FileBytes
  fixtureAnchorWritten : Bool
  blockFixtureAnchorWritten : Bool
  /-- Ghost: what has been written behind the anchors, in that order. -/
  written : List Written

namespace CaptureFiles

variable (f : CaptureFiles) (kind : CaptureKind) (path : String)

def anchorWritten : CaptureKind → Bool
  | .headers => f.fixtureAnchorWritten
  | .blocks => f.blockFixtureAnchorWritten

/-- `store(true)`. -/
def storeAnchorWritten : CaptureKind → CaptureFiles
  | .headers => { f with fixtureAnchorWritten := true }
  | .blocks => { f with blockFixtureAnchorWritten := true }

def setFile (file : FileBytes) : CaptureFiles := { f with file := Function.update f.file path file }

/-- `write_anchor`, unless it has been written. -/
def anchor : CaptureFiles :=
  if f.anchorWritten kind then f
  else (f.setFile path (some (FixtureFile.writeAnchor .origin (f.file path)))).storeAnchorWritten kind

/-- `append_entry`, for one entry after the other. -/
def appendEntries (lines : List String) : CaptureFiles :=
  f.setFile path
    (lines.foldl (fun file line => some (FixtureFile.appendEntry id line file)) (f.file path))

/-- What `append_entry` has written when it fails. -/
def appendBytes (bytes : List UInt8) : CaptureFiles :=
  f.setFile path (some (FixtureFile.openAppending (f.file path) ++ bytes))

def record (w : Written) : CaptureFiles := { f with written := f.written ++ [w] }

/-- A capture whose file operations succeed. -/
def capture (lines : List String) : CaptureFiles :=
  ((f.anchor kind path).appendEntries path lines).record (.all kind lines)

end CaptureFiles

/-- How a capture of some lines ends. -/
inductive Captures (kind : CaptureKind) (path : String) (lines : List String) (f : CaptureFiles) :
    CaptureFiles → Prog → Prop where
  | completed : Captures kind path lines f (f.capture kind path lines) .done
  /-- An `append_entry` fails. -/
  | cut {w : Written} (hkind : w.kind = kind) (hlines : w.lines = lines)
      (hcut : w.completed = false) (e : RunError) :
      Captures kind path lines f (((f.anchor kind path).appendBytes path w.bytes).record w)
        (.failed e)
  /-- `write_anchor` fails, whatever it leaves of the file. -/
  | unanchored (hfirst : f.anchorWritten kind = false) (file : FileBytes) (e : RunError) :
      Captures kind path lines f (f.setFile path file) (.failed e)

/-- The state of the runner, and the files. -/
structure CaptureState where
  runner : State
  /-- The step that has checked out a connection, by the number of the connection. -/
  user : Nat → Option (Leaf × LeafKind)
  files : CaptureFiles

/-- A run starts, with whatever is in the files. -/
def CaptureState.initial (file : String → FileBytes) : CaptureState where
  runner := .initial
  user := fun _ => none
  files := ⟨file, false, false, []⟩

/-- What the session of a step has captured, a line for each entry, whatever points it was about. -/
def Captured (C : CaptureSetting) (l : Leaf) : CaptureKind → List String → Prop
  | .headers, lines => ∃ points replies summary session',
    (ChainSyncClient.runChainSync points (l.params.count.getD 10) replies).run
      ChainSyncClient.session = (.ok summary, session') ∧
    lines = summary.capturedHeaders.map fun h => C.serde.entryToString h.entry
  | .blocks, lines => ∃ points replies summary session',
    (BlockFetchClient.runBlockFetch points (l.params.batchSize.getD 1).toNat replies).run
      BlockFetchClient.session = (.ok summary, session') ∧
    lines = summary.capturedBlocks.map fun cb => C.blockToString cb.entry

/-- The step that holds a connection, if there is a path for what it captures. -/
def writing (C : CaptureSetting) (held : List Action) (x : CaptureState) :
    Option (Leaf × CaptureKind × String) :=
  match held with
  | .checkedOut token :: _ => do
    let (l, leaf) ← x.user token.id
    let kind ← captureKind leaf
    let path ← C.path kind
    return (l, kind, path)
  | _ => none

/-- What becomes of the files at the end of a step. -/
inductive Ending (C : CaptureSetting) (held : List Action) (x : CaptureState) :
    CaptureFiles → Prog → Prop where
  | unwritten (hwriting : writing C held x = none) (rest : Prog) : Ending C held x x.files rest
  /-- The session has captured nothing. -/
  | nothing {l : Leaf} {kind : CaptureKind} {path : String}
      (hwriting : writing C held x = some (l, kind, path)) (hcaptured : Captured C l kind [])
      (rest : Prog) : Ending C held x x.files rest
  | captures {l : Leaf} {kind : CaptureKind} {path : String} {lines : List String}
      {files : CaptureFiles} {rest : Prog} (hwriting : writing C held x = some (l, kind, path))
      (hcaptured : Captured C l kind lines) (hlines : lines ≠ [])
      (h : Captures kind path lines x.files files rest) : Ending C held x files rest

/-- What an action does to the state and the files, and what it leaves to do. -/
def captureExec (S : Setting) (C : CaptureSetting) (held : List Action) (a : Action)
    (x x' : CaptureState) (rest : Prog) : Prop :=
  exec S held a x.runner x'.runner rest ∧
    match a with
    | .take side l leaf => x'.files = x.files ∧
      x'.user = match x.runner.conns.take side l.onName with
        | none => x.user
        | some (token, _) => Function.update x.user token.id (some (l, leaf))
    | .io => x'.user = x.user ∧ Ending C held x x'.files rest
    | _ => x'.files = x.files ∧ x'.user = x.user

/-- The runner, with its captures. -/
def captureMachine (S : Setting) (C : CaptureSetting) : Machine Action RunError CaptureState where
  exec := captureExec S C
  drop a x := { x with runner := drop a x.runner }
  ambient x x' := Ambient x.runner x'.runner ∧ x'.user = x.user ∧ x'.files = x.files

end Concurrent

end ConformanceHarness

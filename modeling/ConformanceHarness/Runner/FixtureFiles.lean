import ConformanceHarness.Lib.Lines
import ConformanceHarness.Runner.Capture
import ConformanceHarness.Scenario.BlockFixture

/-!
# Fixture files

The files of `scenario/fixture.rs` and `scenario/block_fixture.rs`, as bytes: `writeln!` ends a line
with a line feed, and `BufRead::lines` takes the lines apart and checks that each is UTF-8. File
operations succeed, and a file that cannot be opened is one that is not there.
-/

namespace ConformanceHarness

/-- A file, if it is there. -/
abbrev FileBytes := Option (List UInt8)

namespace FixtureFile

/-! ## Writing -/

/-- `OpenOptions` with `create`, `write` and `truncate`. -/
def openTruncated (_ : FileBytes) : List UInt8 := []

/-- `OpenOptions` with `create` and `append`. -/
def openAppending (file : FileBytes) : List UInt8 := file.getD []

/-- `writeln!`. -/
def writeln (text : String) (bytes : List UInt8) : List UInt8 := bytes ++ (strBytes text ++ [10])

/-- `fixture::write_anchor`. -/
def writeAnchor (anchor : Point) (file : FileBytes) : List UInt8 :=
  writeln (anchorLine anchor) (openTruncated file)

/-- `append_entry`, of entries whose `to_string` is given. -/
def appendEntry {α : Type} (toText : α → String) (entry : α) (file : FileBytes) : List UInt8 :=
  writeln (toText entry) (openAppending file)

/-- The bytes of some lines of text. -/
def textBytes (texts : List String) : List UInt8 :=
  (texts.map strBytes).flatMap fun line => line ++ [10]

theorem textBytes_append (texts texts' : List String) :
    textBytes (texts ++ texts') = textBytes texts ++ textBytes texts' := by
  rw [textBytes, List.map_append, List.flatMap_append]
  rfl

theorem textBytes_singleton (text : String) : textBytes [text] = strBytes text ++ [10] :=
  List.append_nil _

/-- An anchor is all that is left. -/
theorem writeAnchor_eq (anchor : Point) (file : FileBytes) :
    writeAnchor anchor file = textBytes [anchorLine anchor] := (textBytes_singleton _).symm

/-- Entries are added line by line. -/
theorem foldl_appendEntry {α : Type} {toText : α → String} (entries : List α)
    (bytes : List UInt8) :
    entries.foldl (fun file entry => some (appendEntry toText entry file)) (some bytes) =
      some (bytes ++ textBytes (entries.map toText)) := by
  induction entries generalizing bytes with
  | nil => exact congrArg some (List.append_nil bytes).symm
  | cons e rest ih =>
    have hone : appendEntry toText e (some bytes) = bytes ++ textBytes [toText e] := by
      rw [textBytes_singleton]
      rfl
    rw [List.foldl_cons, hone, ih, List.append_assoc, ← textBytes_append]
    rfl

/-! ## Reading -/

/-- `BufRead::lines`: the lines before the first one that is not UTF-8, and whether there is one. -/
def readLines : List (List UInt8) → List String × Bool
  | [] => ([], false)
  | line :: rest =>
    match String.fromUTF8? ⟨line.toArray⟩ with
    | none => ([], true)
    | some text =>
      let (texts, unreadable) := readLines rest
      (text :: texts, unreadable)

/-- The error for a line that is not UTF-8. -/
def notUtf8 {α : Type} : Except Fault α := bail "stream did not contain valid UTF-8"

/-- `load`, from what it does with lines. It takes them one by one, so what is wrong with a line
comes before a later line that cannot be read. -/
def load {α : Type} (name : String) (loadLines : Option (List String) → Except Fault α) :
    FileBytes → Except Fault α
  | none => loadLines none
  | some bytes =>
    match readLines (Lib.lines bytes) with
    | (texts, false) => loadLines (some texts)
    | ([], true) => withContext "reading anchor line" notUtf8
    | (texts, true) =>
      match loadLines (some texts) with
      | .error e => .error e
      | .ok _ =>
        let n := texts.length + 1
        withContext s!"reading line {n} of {name}" notUtf8

end FixtureFile

/-- `fixture::load`. -/
def Fixture.loadFile (fromStr : String → Option Value) (path : String) :
    FileBytes → Except Fault FixtureChain :=
  FixtureFile.load "fixture" (Fixture.load fromStr path)

/-- `block_fixture::load`. -/
def BlockFixture.loadFile (fromStr : String → Option Value) (path : String) :
    FileBytes → Except Fault BlockFixtureChain :=
  FixtureFile.load "block fixture" (BlockFixture.load fromStr path)

/-- `block_fixture::write_anchor`. -/
def BlockFixture.writeAnchor (file : FileBytes) : List UInt8 := FixtureFile.writeAnchor .origin file

/-- `#[derive(Serialize)]` for `BlockFixtureEntry`, as the value that is read back. -/
def BlockFixtureEntry.toValue (e : BlockFixtureEntry) : Value :=
  .object [("block_cbor_hex", .string e.blockCborHex), ("block_hash", .string e.blockHash),
    ("slot", .ofU64 e.slot)]

end ConformanceHarness

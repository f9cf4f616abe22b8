import ConformanceHarness.Proof.Capture
import ConformanceHarness.Runner.FixtureFiles

/-!
# Fixture files round-trip

What `write_anchor` and `append_entry` write, `load` reads: the anchor and the entries, in order,
and nothing of what was in the file before. Of `serde_json` it is assumed that it reads back what it
prints, and prints an entry on one line.
-/

namespace ConformanceHarness

open ConformanceHarness.Lib (lines OneLine)
open FixtureFile (textBytes)

/-- The JSON value of an anchor line. -/
def anchorValue : Point → Value
  | .origin => .object [("anchor", .bool true)]
  | .specific slot hash =>
    .object [("anchor", .bool true), ("block_hash", .string (encodeHex hash)),
      ("slot", .ofU64 slot)]

/-- The anchors a fixture can have: a hash has some bytes. -/
def IsAnchor : Point → Prop
  | .origin => True
  | .specific _ hash => hash ≠ []

/-- The text of an entry is on one line that is not blank, and is read back. -/
structure Printed {α : Type} (fromStr : String → Option Value) (toText : α → String)
    (toValue : α → Value) (a : α) : Prop where
  oneLine : OneLine (strBytes (toText a))
  notBlank : (toText a).toList.all Fixture.isWhiteSpace = false
  readsBack : fromStr (toText a) = some (toValue a)

/-- A file to which entries have been appended, one after the other. -/
def FixtureFile.appended {α : Type} (toText : α → String) (entries : List α)
    (bytes : List UInt8) : FileBytes :=
  entries.foldl (fun file entry => some (appendEntry toText entry file)) (some bytes)

namespace Proof

/-! ## Texts and their bytes -/

/-- The bytes of a character are control characters only if it is one. -/
theorem utf8EncodeChar_printable {c : Char} (h : 32 ≤ c.toNat) :
    ∀ b ∈ String.utf8EncodeChar c, 32 ≤ b := by
  have hv : 32 ≤ c.val.toNat := h
  rw [String.utf8EncodeChar]
  intro b hb
  rw [UInt8.le_iff_toNat_le]
  show 32 ≤ b.toNat
  split at hb
  · obtain rfl := List.mem_singleton.mp hb
    rw [UInt8.toNat_ofNat']
    omega
  · split at hb
    · simp only [List.mem_cons, List.not_mem_nil, or_false] at hb
      rcases hb with rfl | rfl <;> rw [UInt8.toNat_ofNat'] <;> omega
    · split at hb
      · simp only [List.mem_cons, List.not_mem_nil, or_false] at hb
        rcases hb with rfl | rfl | rfl <;> rw [UInt8.toNat_ofNat'] <;> omega
      · simp only [List.mem_cons, List.not_mem_nil, or_false] at hb
        rcases hb with rfl | rfl | rfl | rfl <;> rw [UInt8.toNat_ofNat'] <;> omega

/-- No control character is in the text. -/
def Printable (text : String) : Prop := ∀ c ∈ text.toList, 32 ≤ c.toNat

theorem printable_of_all {text : String}
    (h : text.toList.all (fun c => decide (32 ≤ c.toNat)) = true) : Printable text :=
  fun c hc => of_decide_eq_true (List.all_eq_true.mp h c hc)

theorem Printable.append {s t : String} (hs : Printable s) (ht : Printable t) :
    Printable (s ++ t) := by
  intro c hc
  rw [String.toList_append] at hc
  rcases List.mem_append.mp hc with hc | hc
  · exact hs c hc
  · exact ht c hc

/-- A text without control characters is on one line. -/
theorem Printable.oneLine {text : String} (h : Printable text) : OneLine (strBytes text) := by
  have hbytes : ∀ b ∈ strBytes text, 32 ≤ b := by
    intro b hb
    rw [← String.ofList_toList (s := text), strBytes_ofList] at hb
    obtain ⟨c, hc, hb⟩ := List.mem_flatMap.mp hb
    exact utf8EncodeChar_printable (h c hc) b hb
  constructor
  · intro hmem
    exact absurd (hbytes 10 hmem) (by decide)
  · intro hlast
    exact absurd (hbytes 13 (List.mem_of_getLast? hlast)) (by decide)

theorem printable_encodeHex (bytes : List UInt8) : Printable (encodeHex bytes) := by
  have hdigit : ∀ n < 16, 32 ≤ (Nat.digitChar n).toNat := by decide
  intro c hc
  rw [encodeHex, String.toList_ofList] at hc
  obtain ⟨b, -, hc⟩ := List.mem_flatMap.mp hc
  have hb := b.toNat_lt
  simp only [hexByte, List.mem_cons, List.not_mem_nil, or_false] at hc
  rcases hc with rfl | rfl
  · exact hdigit _ (by omega)
  · exact hdigit _ (by omega)

theorem printable_repr (n : Nat) : Printable n.repr := by
  intro c hc
  rw [Nat.toList_repr] at hc
  have hdigit := Nat.isDigit_of_mem_toDigits (by decide) (by decide) hc
  simp only [Char.isDigit, Bool.and_eq_true, decide_eq_true_eq, UInt32.le_iff_toNat_le] at hdigit
  have hle : 48 ≤ c.val.toNat := hdigit.1
  show 32 ≤ c.val.toNat
  omega

theorem printable_anchorLine (anchor : Point) : Printable (anchorLine anchor) := by
  have hopening : Printable "\x7b\"anchor\":true,\"block_hash\":\"" := printable_of_all rfl
  have hmiddle : Printable "\",\"slot\":" := printable_of_all rfl
  have hclosing : Printable "\x7d" := printable_of_all rfl
  have horigin : Printable "\x7b\"anchor\":true\x7d" := printable_of_all rfl
  cases anchor with
  | origin => exact horigin
  | specific slot hash =>
    exact (((hopening.append (printable_encodeHex hash)).append hmiddle).append
      (printable_repr slot.toNat)).append hclosing

/-! ## Files and lines -/

/-- An anchor is all that is left, and entries are added to it line by line. -/
theorem appended_writeAnchor {α : Type} {toText : α → String} {anchor : Point} (entries : List α)
    (previous : FileBytes) :
    FixtureFile.appended toText entries (FixtureFile.writeAnchor anchor previous) =
      some (textBytes (anchorLine anchor :: entries.map toText)) := by
  rw [FixtureFile.appended, FixtureFile.writeAnchor_eq, FixtureFile.foldl_appendEntry,
    ← FixtureFile.textBytes_append]
  rfl

/-- Text is read back from its bytes. -/
theorem readLines_strBytes (texts : List String) :
    FixtureFile.readLines (texts.map strBytes) = (texts, false) := by
  induction texts with
  | nil => rfl
  | cons text rest ih =>
    have hbytes : (⟨(strBytes text).toArray⟩ : ByteArray) = text.toByteArray := by
      rw [strBytes, Array.toArray_toList]
    have htext : String.fromUTF8? ⟨(strBytes text).toArray⟩ = some text := by
      rw [hbytes, String.fromUTF8?, dif_pos text.isValidUTF8]
      rfl
    rw [List.map_cons, FixtureFile.readLines, htext, ih]

/-- **The lines of a file are what is loaded**, if each is on one line. -/
theorem load_textBytes {α : Type} {name : String} {loadLines : Option (List String) → Except Fault α}
    {texts : List String} (h : ∀ text ∈ texts, OneLine (strBytes text)) :
    FixtureFile.load name loadLines (some (textBytes texts)) = loadLines (some texts) := by
  have hlines : lines (textBytes texts) = texts.map strBytes := by
    refine Lib.lines_flatMap fun line hline => ?_
    obtain ⟨text, htext, rfl⟩ := List.mem_map.mp hline
    exact h text htext
  rw [FixtureFile.load, hlines, readLines_strBytes]

/-! ## Anchors and entries -/

theorem encodeHex_not_empty {bytes : List UInt8} (h : bytes ≠ []) :
    (encodeHex bytes).isEmpty = false := by
  obtain ⟨b, rest, rfl⟩ := List.exists_cons_of_ne_nil h
  rw [encodeHex, String.isEmpty_eq_false_iff]
  intro hempty
  have hlist := congrArg String.toList hempty
  rw [String.toList_ofList, List.flatMap_cons] at hlist
  cases hlist

/-- An anchor is parsed from the value of its line. -/
theorem parseAnchor_anchorValue {anchor : Point} (h : IsAnchor anchor) :
    Fixture.parseAnchor (anchorValue anchor) = .ok anchor := by
  cases anchor with
  | origin => rfl
  | specific slot hash =>
    have hbytes : Fixture.decodeHex (encodeHex hash) = .ok hash := decodeHexWith_encodeHex ..
    show (if (encodeHex hash).isEmpty = true then _ else
      Fixture.parseAnchorPoint (.ofU64 slot) (.string (encodeHex hash))) = _
    rw [encodeHex_not_empty h, if_neg Bool.false_ne_true]
    have hslot : (Value.ofU64 slot).asU64 = some slot := rfl
    have htext : (Value.string (encodeHex hash)).asString = some (encodeHex hash) := rfl
    simp only [Fixture.parseAnchorPoint, hslot, htext, hbytes, withContext_ok]

variable {fromStr : String → Option Value}

theorem blockEntryFromValue_toValue (e : BlockFixtureEntry) :
    BlockFixture.entryFromValue e.toValue = some e := by
  have hslot : (Value.ofU64 e.slot).asU64 = some e.slot := rfl
  simp [BlockFixture.entryFromValue, BlockFixtureEntry.toValue, Value.asStruct, List.lookup_cons,
    Value.required, Value.asString, hslot]

theorem blockEntries_written {toText : BlockFixtureEntry → String} {n : Nat}
    {entries : List BlockFixtureEntry}
    (h : ∀ e ∈ entries, Printed fromStr toText BlockFixtureEntry.toValue e) :
    BlockFixture.loadEntries fromStr n (entries.map toText) = .ok entries := by
  induction entries generalizing n with
  | nil => rfl
  | cons e rest ih =>
    obtain ⟨-, hblank, hline⟩ := h e List.mem_cons_self
    have hrest := ih (n := n + 1) fun e' hmem => h e' (List.mem_cons_of_mem e hmem)
    rw [List.map_cons, BlockFixture.loadEntries, hblank, hline, if_neg Bool.false_ne_true,
      Option.bind_some, blockEntryFromValue_toValue]
    dsimp only
    rw [hrest]

theorem blockLoad_written {toText : BlockFixtureEntry → String} {path : String}
    {entries : List BlockFixtureEntry}
    (hanchor : fromStr (anchorLine .origin) = some (anchorValue .origin))
    (h : ∀ e ∈ entries, Printed fromStr toText BlockFixtureEntry.toValue e) :
    BlockFixture.load fromStr path (some (anchorLine .origin :: entries.map toText)) =
      .ok ⟨.origin, entries⟩ := by
  have hparse : BlockFixture.parseAnchor (anchorValue .origin) = .ok .origin := rfl
  rw [BlockFixture.load, hanchor]
  dsimp only
  rw [hparse, withContext_ok]
  dsimp only
  rw [blockEntries_written h]

/-- The lines of a file are each on one line. -/
theorem oneLine_written {α : Type} {toText : α → String} {toValue : α → Value} {anchor : Point}
    {entries : List α} (h : ∀ e ∈ entries, Printed fromStr toText toValue e) :
    ∀ text ∈ anchorLine anchor :: entries.map toText, OneLine (strBytes text) := by
  refine List.forall_mem_cons.mpr ⟨(printable_anchorLine anchor).oneLine, fun text htext => ?_⟩
  obtain ⟨e, he, rfl⟩ := List.mem_map.mp htext
  exact (h e he).oneLine

/-- **Fixture files round-trip**: what is loaded is the anchor and the entries that were written,
whatever was in the file before. -/
theorem fixture_files_round_trip (serde : FixtureSerde) (blockText : BlockFixtureEntry → String)
    (path : String) (previous : FileBytes) :
    (∀ anchor entries, IsAnchor anchor →
      serde.fromStr (anchorLine anchor) = some (anchorValue anchor) →
      (∀ e ∈ entries, Printed serde.fromStr serde.entryToString FixtureEntry.toValue e) →
        Fixture.loadFile serde.fromStr path
          (FixtureFile.appended serde.entryToString entries
            (FixtureFile.writeAnchor anchor previous)) = .ok ⟨anchor, entries⟩) ∧
      ∀ entries, serde.fromStr (anchorLine .origin) = some (anchorValue .origin) →
        (∀ e ∈ entries, Printed serde.fromStr blockText BlockFixtureEntry.toValue e) →
          BlockFixture.loadFile serde.fromStr path
            (FixtureFile.appended blockText entries (BlockFixture.writeAnchor previous)) =
              .ok ⟨.origin, entries⟩ := by
  constructor
  · intro anchor entries hvalid hanchor h
    rw [Fixture.loadFile, appended_writeAnchor, load_textBytes (oneLine_written h)]
    exact load_anchored hanchor (parseAnchor_anchorValue hvalid)
      fun e he => ⟨(h e he).notBlank, (h e he).readsBack⟩
  · intro entries hanchor h
    rw [BlockFixture.loadFile, BlockFixture.writeAnchor, appended_writeAnchor,
      load_textBytes (oneLine_written h)]
    exact blockLoad_written hanchor h

/-! ## A file of each kind -/

/-- A block as JSON text. -/
def blockText (e : BlockFixtureEntry) : String :=
  "\x7b\"slot\":" ++ s!"{e.slot}" ++ ",\"block_hash\":\"" ++ e.blockHash ++
    "\",\"block_cbor_hex\":\"" ++ e.blockCborHex ++ "\"\x7d"

/-- An anchor in the middle of the chain. -/
def midAnchor : Point := .specific 5 [5]

/-- A block at slot 7. -/
def plainBlock : BlockFixtureEntry := { slot := 7, blockHash := "07", blockCborHex := "8207" }

/-- `serde_json` on the texts of two anchors, a header and a block. -/
def fileSerde : FixtureSerde where
  fromStr line :=
    if line = anchorLine .origin then some (anchorValue .origin)
    else if line = anchorLine midAnchor then some (anchorValue midAnchor)
    else if line = entryText (plainEntry 6 6) then some (plainEntry 6 6).toValue
    else if line = blockText plainBlock then some plainBlock.toValue
    else none
  entryToString := entryText

/-- Two files that had something else in them. -/
theorem fixture_files_round_trip_mid :
    Fixture.loadFile fileSerde.fromStr "headers.jsonl"
        (FixtureFile.appended entryText [plainEntry 6 6]
          (FixtureFile.writeAnchor midAnchor (some [0xff, 10, 0xff]))) =
          .ok ⟨midAnchor, [plainEntry 6 6]⟩ ∧
      BlockFixture.loadFile fileSerde.fromStr "headers.jsonl"
        (FixtureFile.appended blockText [plainBlock]
          (BlockFixture.writeAnchor (some [0xff, 10, 0xff]))) = .ok ⟨.origin, [plainBlock]⟩ := by
  obtain ⟨hheaders, hblocks⟩ := fixture_files_round_trip fileSerde blockText "headers.jsonl"
    (some [0xff, 10, 0xff])
  refine ⟨hheaders midAnchor [plainEntry 6 6] (List.cons_ne_nil 5 []) rfl ?_,
    hblocks [plainBlock] rfl ?_⟩
  · have hline : OneLine (strBytes (entryText (plainEntry 6 6))) := by
      unfold OneLine
      decide
    exact List.forall_mem_singleton.mpr ⟨hline, entryText_not_blank _, rfl⟩
  · have hline : OneLine (strBytes (blockText plainBlock)) := by
      unfold OneLine
      decide
    exact List.forall_mem_singleton.mpr ⟨hline, by decide, rfl⟩

end Proof

end ConformanceHarness

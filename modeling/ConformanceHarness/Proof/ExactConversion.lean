import Mathlib.Data.List.Forall2
import ConformanceHarness.Proof.HexPairs
import ConformanceHarness.Proof.ResolvedScript

/-!
# Conversion is exact, but for signs

`rule_def_to_script` converts a rule exactly if each of its sends names one source of its content,
the sources are there, and hex texts can be read; what it makes has those contents, in the order of
the rule. A hex text can be read if its pairs are digits, but also if a pair is a plus sign and a
digit.
-/

namespace ConformanceHarness

/-! ## Rules that can be converted -/

/-- The sends a rule is written with. -/
def SendDef.subDefs : SendDef → List SendDef
  | .sendSequence sends => sends
  | single => [single]

/-- The hex texts in a send, by themselves or as its only source. -/
def SendDef.hexTexts : SendDef → List String
  | .rollForward _ text _ _ => text.toList
  | .block _ text => text.toList
  | .rawBytes text => [text]
  | _ => []

/-- The kind of a send, as it is written. -/
def SendDef.kind : SendDef → String
  | .rollForward .. => "roll_forward"
  | .rollBackward .. => "roll_backward"
  | .intersectFound .. => "intersect_found"
  | .intersectNotFound _ => "intersect_not_found"
  | .awaitReply _ => "await_reply"
  | .startBatch => "start_batch"
  | .block .. => "block"
  | .batchDone => "batch_done"
  | .noBlocks => "no_blocks"
  | .streamBatch .. => "stream_batch"
  | .wait _ => "wait"
  | .disconnect => "disconnect"
  | .rawBytes _ => "raw_bytes"
  | .sendSequence _ => "send_sequence"

section

variable (hex : String → Prop) (cs : Option FixtureChain) (bf : Option BlockFixtureChain)

/-- There is an entry with this index. -/
def HasEntry {α : Type} (entries : Option (List α)) (idx : UInt64) : Prop :=
  ∃ es, entries = some es ∧ idx.toNat < es.length

/-- Either an entry of a fixture or a text is named, and it is there. -/
def OneSource {α : Type} (entries : Option (List α)) :
    Option UInt64 → Option String → Prop
  | some idx, none => HasEntry entries idx
  | none, some text => hex text
  | some _, some _ => False
  | none, none => False

/-- Blocks are named by their indices, which are in range, or left to the request. -/
def StreamSource {α : Type} (entries : Option (List α)) :
    Option (List UInt64) → Option Bool → Prop
  | some indices, _ => ∃ es, entries = some es ∧ ∀ idx ∈ indices, idx.toNat < es.length
  | none, some true => True
  | none, _ => False

/-- A send has its content. -/
def SendDef.Sourced : SendDef → Prop
  | .rollForward idx text _ _ => OneSource hex (cs.map (·.entries)) idx text
  | .block idx text => OneSource hex (bf.map (·.entries)) idx text
  | .streamBatch indices fromRequest => StreamSource (bf.map (·.entries)) indices fromRequest
  | .rawBytes text => hex text
  | .sendSequence _ => False
  | _ => True

/-- All sends of a rule have their content, and no sequence is in another. -/
def ResponseRuleDef.Sourced (rule : ResponseRuleDef) : Prop :=
  ∀ d ∈ rule.send.subDefs, d.Sourced hex cs bf

end

/-! ## What they are converted to -/

section

variable (signs : Prop) (cs : Option FixtureChain) (bf : Option BlockFixtureChain)

/-- The content of a block, as it is named. -/
inductive BlockNamed : Option UInt64 → Option String → BlockSource → Prop where
  | entry {idx : UInt64} {chain : BlockFixtureChain} {e : BlockFixtureEntry}
      (hbf : bf = some chain) (he : chain.entries[idx.toNat]? = some e) :
      BlockNamed (some idx) none (.fixtureEntry e)
  | literal {text : String} {bytes : List UInt8} (h : HexPairs signs (strBytes text) bytes) :
      BlockNamed none (some text) (.literal bytes)

/-- The content of a header, as it is named. -/
inductive HeaderNamed (variant : Option UInt8) :
    Option UInt64 → Option String → HeaderSource → Prop where
  | entry {idx : UInt64} {chain : FixtureChain} {e : FixtureEntry}
      (hcs : cs = some chain) (he : chain.entries[idx.toNat]? = some e) :
      HeaderNamed variant (some idx) none (.fixtureEntry e)
  | literal {text : String} {bytes : List UInt8} (h : HexPairs signs (strBytes text) bytes) :
      HeaderNamed variant none (some text) (.literal bytes (variant.getD defaultHeaderVariant))

/-- The blocks of a batch, as they are named. -/
inductive StreamNamed : Option (List UInt64) → Option Bool → StreamBatchSources → Prop where
  | explicit {indices : List UInt64} {fromRequest : Option Bool} {chain : BlockFixtureChain}
      {entries : List BlockFixtureEntry} (hbf : bf = some chain)
      (h : List.Forall₂ (fun idx e => chain.entries[idx.toNat]? = some e) indices entries) :
      StreamNamed (some indices) fromRequest (.explicit (entries.map .fixtureEntry))
  | fromRequest : StreamNamed none (some true) .fromRequest

/-- A send and what it is converted to. -/
inductive SendNamed : SendDef → ScriptSend → Prop where
  | rollForward {idx : Option UInt64} {text : Option String} {variant : Option UInt8}
      {tip : Option TipSpec} {source : HeaderSource}
      (h : HeaderNamed signs cs variant idx text source) :
      SendNamed (.rollForward idx text variant tip) (.rollForward source tip)
  | rollBackward {point : String} {tip : Option TipSpec} :
      SendNamed (.rollBackward point tip) (.rollBackward point tip)
  | intersectFound {point : String} {tip : Option TipSpec} :
      SendNamed (.intersectFound point tip) (.intersectFound point tip)
  | intersectNotFound {tip : Option TipSpec} :
      SendNamed (.intersectNotFound tip) (.intersectNotFound tip)
  | awaitReply {holdSecs : UInt64} : SendNamed (.awaitReply holdSecs) (.awaitReply holdSecs)
  | startBatch : SendNamed .startBatch .startBatch
  | block {idx : Option UInt64} {text : Option String} {source : BlockSource}
      (h : BlockNamed signs bf idx text source) : SendNamed (.block idx text) (.block source)
  | batchDone : SendNamed .batchDone .batchDone
  | noBlocks : SendNamed .noBlocks .noBlocks
  | streamBatch {indices : Option (List UInt64)} {fromRequest : Option Bool}
      {sources : StreamBatchSources} (h : StreamNamed bf indices fromRequest sources) :
      SendNamed (.streamBatch indices fromRequest) (.streamBatch sources)
  | wait {durationSecs : UInt64} : SendNamed (.wait durationSecs) (.wait durationSecs)
  | disconnect : SendNamed .disconnect .disconnect
  | rawBytes {text : String} {bytes : List UInt8} (h : HexPairs signs (strBytes text) bytes) :
      SendNamed (.rawBytes text) (.rawBytes bytes)

/-- The send of a rule: a single one, or a sequence of single ones. -/
inductive RuleSendNamed : SendDef → ScriptSend → Prop where
  | single {d : SendDef} {send : ScriptSend} (h : SendNamed signs cs bf d send) :
      RuleSendNamed d send
  | sequence {ds : List SendDef} {sends : List ScriptSend}
      (h : List.Forall₂ (SendNamed signs cs bf) ds sends) :
      RuleSendNamed (.sendSequence ds) (.sendSequence sends)

end

/-- A rule is converted to what it says: the trigger and the kinds of its sends stay, contents are
those named, and no sequence is in another. -/
structure ConvertedExactly (cs : Option FixtureChain) (bf : Option BlockFixtureChain)
    (rule : ResponseRuleDef) (out : ScriptRule) : Prop where
  on : out.on = rule.on
  named : RuleSendNamed False cs bf rule.send out.send
  kinds : out.send.subSends.map (·.kindStr) = rule.send.subDefs.map (·.kind)
  flat : ∀ send ∈ out.send.subSends, ∀ sends, send ≠ .sendSequence sends

/-- **Conversion is exact**: a rule can be converted if it has its contents, with hex texts that are
valid, and is converted to what it says. -/
structure ConversionExact (cs : Option FixtureChain) (bf : Option BlockFixtureChain)
    (rule : ResponseRuleDef) : Prop where
  converted_iff : (∃ out, ruleDefToScript cs bf rule = .ok out) ↔ rule.Sourced ValidHex cs bf
  exactly : ∀ out, ruleDefToScript cs bf rule = .ok out → ConvertedExactly cs bf rule out

/-- The text can be read in pairs. -/
def Readable (signs : Prop) (text : String) : Prop :=
  ∃ bytes, HexPairs signs (strBytes text) bytes

/-- If the rule can be read otherwise, there is no sign in its hex texts. -/
def Unsigned (cs : Option FixtureChain) (bf : Option BlockFixtureChain)
    (rule : ResponseRuleDef) : Prop :=
  rule.Sourced (Readable True) cs bf →
    ∀ d ∈ rule.send.subDefs, ∀ text ∈ d.hexTexts, 43 ∉ strBytes text

namespace Proof

variable {cs : Option FixtureChain} {bf : Option BlockFixtureChain}

theorem decodeHexFor_eq_ok {what text : String} {bytes : List UInt8} :
    ResponseRules.decodeHexFor what text = .ok bytes ↔ HexPairs True (strBytes text) bytes := by
  rw [← @decodeHexWith_eq_ok _ _ fun _ => invalidDigit, ResponseRules.decodeHexFor,
    ResponseRules.decodeHex]
  rcases decodeHexWith (fun _ => invalidDigit) text with (_ | _) | bytes' <;> simp [bail]

theorem convertHeaderSource_eq_ok {variant : Option UInt8} {idx : Option UInt64}
    {text : Option String} {source : HeaderSource} :
    convertHeaderSource cs variant idx text = .ok source ↔
      HeaderNamed True cs variant idx text source := by
  constructor
  · intro h
    rcases idx with _ | idx <;> rcases text with _ | text
    · cases h
    · rw [convertHeaderSource] at h
      rcases hdecode : ResponseRules.decodeHexFor "header_cbor" text with f | bytes <;>
        rw [hdecode] at h
      · cases h
      · cases h
        exact .literal (decodeHexFor_eq_ok.mp hdecode)
    · rcases cs with _ | chain
      · cases h
      · rw [convertHeaderSource] at h
        rcases he : chain.entries[idx.toNat]? with _ | e <;> simp only [he] at h
        · cases h
        · cases h
          exact .entry rfl he
    · cases h
  · intro h
    cases h with
    | entry hcs he => simp only [convertHeaderSource, hcs, he]
    | literal h => rw [convertHeaderSource, decodeHexFor_eq_ok.mpr h]

theorem convertBlockSource_eq_ok {idx : Option UInt64} {text : Option String}
    {source : BlockSource} :
    convertBlockSource bf idx text = .ok source ↔ BlockNamed True bf idx text source := by
  constructor
  · intro h
    rcases idx with _ | idx <;> rcases text with _ | text
    · cases h
    · rw [convertBlockSource] at h
      rcases hdecode : ResponseRules.decodeHexFor "block_cbor" text with f | bytes <;>
        rw [hdecode] at h
      · cases h
      · cases h
        exact .literal (decodeHexFor_eq_ok.mp hdecode)
    · rcases bf with _ | chain
      · cases h
      · rw [convertBlockSource] at h
        rcases he : chain.entries[idx.toNat]? with _ | e <;> simp only [he] at h
        · cases h
        · cases h
          exact .entry rfl he
    · cases h
  · intro h
    cases h with
    | entry hbf he => simp only [convertBlockSource, hbf, he]
    | literal h => rw [convertBlockSource, decodeHexFor_eq_ok.mpr h]

/-- The entries are taken index by index. -/
theorem resolveBlockIndices_eq_ok {chain : BlockFixtureChain} {n : Nat} {indices : List UInt64}
    {sources : List BlockSource} :
    resolveBlockIndices chain n indices = .ok sources ↔ ∃ entries,
      List.Forall₂ (fun idx e => chain.entries[idx.toNat]? = some e) indices entries ∧
        sources = entries.map .fixtureEntry := by
  constructor
  · intro h
    induction indices generalizing n sources with
    | nil =>
      cases h
      exact ⟨[], .nil, rfl⟩
    | cons idx rest ih =>
      rw [resolveBlockIndices] at h
      rcases he : chain.entries[idx.toNat]? with _ | e <;> simp only [he] at h
      · cases h
      · rcases hrest : resolveBlockIndices chain (n + 1) rest with f | others <;>
          simp only [hrest] at h
        · cases h
        · cases h
          obtain ⟨entries, hentries, rfl⟩ := ih hrest
          exact ⟨e :: entries, .cons he hentries, rfl⟩
  · rintro ⟨entries, h, rfl⟩
    induction h generalizing n with
    | nil => rfl
    | cons he _ ih =>
      rw [resolveBlockIndices, he]
      dsimp only
      rw [ih]
      rfl

theorem convertStreamSources_eq_ok {indices : Option (List UInt64)} {fromRequest : Option Bool}
    {sources : StreamBatchSources} :
    convertStreamSources bf indices fromRequest = .ok sources ↔
      StreamNamed bf indices fromRequest sources := by
  constructor
  · intro h
    rcases indices with _ | indices
    · rcases fromRequest with _ | _ | _
      · cases h
      · cases h
      · cases h
        exact .fromRequest
    · rcases bf with _ | chain
      · cases h
      · obtain ⟨found, hfound, rfl⟩ := except_map_ok h
        obtain ⟨entries, hentries, rfl⟩ := resolveBlockIndices_eq_ok.mp hfound
        exact .explicit rfl hentries
  · intro h
    cases h with
    | explicit hbf h =>
      rw [hbf, convertStreamSources, resolveBlockIndices_eq_ok.mpr ⟨_, h, rfl⟩]
      rfl
    | fromRequest => rfl

/-- **A send is converted to what it names.** -/
theorem convertSendDef_eq_ok {d : SendDef} {send : ScriptSend} :
    convertSendDef cs bf d = .ok send ↔ SendNamed True cs bf d send := by
  constructor
  · intro h
    cases d with
    | rollForward idx text variant tip =>
      obtain ⟨source, hsource, rfl⟩ := except_map_ok h
      exact .rollForward (convertHeaderSource_eq_ok.mp hsource)
    | block idx text =>
      obtain ⟨source, hsource, rfl⟩ := except_map_ok h
      exact .block (convertBlockSource_eq_ok.mp hsource)
    | streamBatch indices fromRequest =>
      obtain ⟨sources, hsources, rfl⟩ := except_map_ok h
      exact .streamBatch (convertStreamSources_eq_ok.mp hsources)
    | rawBytes text =>
      obtain ⟨bytes, hbytes, rfl⟩ := except_map_ok h
      exact .rawBytes (decodeHexFor_eq_ok.mp hbytes)
    | sendSequence sends => cases h
    | _ =>
      cases h
      constructor
  · intro h
    cases h with
    | rollForward h => rw [convertSendDef, convertHeaderSource_eq_ok.mpr h]; rfl
    | block h => rw [convertSendDef, convertBlockSource_eq_ok.mpr h]; rfl
    | streamBatch h => rw [convertSendDef, convertStreamSources_eq_ok.mpr h]; rfl
    | rawBytes h => rw [convertSendDef, decodeHexFor_eq_ok.mpr h]; rfl
    | _ => rfl

/-! ## Which sends can be converted -/

section

variable {signs : Prop} {P Q : String → Prop} {d : SendDef} {send : ScriptSend}

theorem hasEntry_iff {α β : Type} {entries : β → List α} {chain : Option β} {idx : UInt64} :
    HasEntry (chain.map entries) idx ↔
      ∃ c e, chain = some c ∧ (entries c)[idx.toNat]? = some e := by
  constructor
  · rintro ⟨es, hes, hlt⟩
    obtain ⟨c, rfl, rfl⟩ := Option.map_eq_some_iff.mp hes
    exact ⟨c, _, rfl, List.getElem?_eq_getElem hlt⟩
  · rintro ⟨c, e, rfl, he⟩
    exact ⟨entries c, rfl, (List.getElem?_eq_some_iff.mp he).1⟩

theorem headerNamed_iff {variant : Option UInt8} {idx : Option UInt64} {text : Option String} :
    (∃ source, HeaderNamed signs cs variant idx text source) ↔
      OneSource (Readable signs) (cs.map (·.entries)) idx text := by
  constructor
  · rintro ⟨source, h⟩
    cases h with
    | entry hcs he => exact hasEntry_iff.mpr ⟨_, _, hcs, he⟩
    | literal h => exact ⟨_, h⟩
  · intro h
    rcases idx with _ | idx <;> rcases text with _ | text
    · exact h.elim
    · obtain ⟨bytes, hbytes⟩ := h
      exact ⟨_, .literal hbytes⟩
    · obtain ⟨chain, e, hcs, he⟩ := hasEntry_iff.mp h
      exact ⟨_, .entry hcs he⟩
    · exact h.elim

theorem blockNamed_iff {idx : Option UInt64} {text : Option String} :
    (∃ source, BlockNamed signs bf idx text source) ↔
      OneSource (Readable signs) (bf.map (·.entries)) idx text := by
  constructor
  · rintro ⟨source, h⟩
    cases h with
    | entry hbf he => exact hasEntry_iff.mpr ⟨_, _, hbf, he⟩
    | literal h => exact ⟨_, h⟩
  · intro h
    rcases idx with _ | idx <;> rcases text with _ | text
    · exact h.elim
    · obtain ⟨bytes, hbytes⟩ := h
      exact ⟨_, .literal hbytes⟩
    · obtain ⟨chain, e, hbf, he⟩ := hasEntry_iff.mp h
      exact ⟨_, .entry hbf he⟩
    · exact h.elim

theorem exists_forall₂_iff {α β : Type} {R : α → β → Prop} {l : List α} :
    (∃ l', List.Forall₂ R l l') ↔ ∀ a ∈ l, ∃ b, R a b := by
  induction l with
  | nil => exact iff_of_true ⟨[], .nil⟩ fun a ha => absurd ha List.not_mem_nil
  | cons a rest ih =>
    rw [List.forall_mem_cons, ← ih]
    constructor
    · rintro ⟨_, h⟩
      cases h with
      | cons hab hrest => exact ⟨⟨_, hab⟩, _, hrest⟩
    · rintro ⟨⟨b, hab⟩, l', hrest⟩
      exact ⟨b :: l', .cons hab hrest⟩

/-- Indices that are in range are those of some entries. -/
theorem exists_entries_iff {α : Type} {es : List α} {indices : List UInt64} :
    (∃ entries, List.Forall₂ (fun idx e => es[idx.toNat]? = some e) indices entries) ↔
      ∀ idx ∈ indices, idx.toNat < es.length := by
  rw [exists_forall₂_iff]
  refine forall₂_congr fun idx _ => ?_
  rw [← Option.isSome_iff_exists, isSome_getElem?]

theorem streamNamed_iff {indices : Option (List UInt64)} {fromRequest : Option Bool} :
    (∃ sources, StreamNamed bf indices fromRequest sources) ↔
      StreamSource (bf.map (·.entries)) indices fromRequest := by
  constructor
  · rintro ⟨sources, h⟩
    cases h with
    | explicit hbf h => exact ⟨_, by rw [hbf]; rfl, exists_entries_iff.mp ⟨_, h⟩⟩
    | fromRequest => trivial
  · intro h
    rcases indices with _ | indices
    · rcases fromRequest with _ | _ | _
      · exact h.elim
      · exact h.elim
      · exact ⟨_, .fromRequest⟩
    · obtain ⟨es, hes, hrange⟩ := h
      obtain ⟨chain, hbf, rfl⟩ := Option.map_eq_some_iff.mp hes
      obtain ⟨entries, hentries⟩ := exists_entries_iff.mpr hrange
      exact ⟨_, .explicit hbf hentries⟩

/-- **A send can be converted if it has its content.** -/
theorem sendNamed_iff :
    (∃ send, SendNamed signs cs bf d send) ↔ d.Sourced (Readable signs) cs bf := by
  constructor
  · rintro ⟨send, h⟩
    cases h with
    | rollForward h => exact headerNamed_iff.mp ⟨_, h⟩
    | block h => exact blockNamed_iff.mp ⟨_, h⟩
    | streamBatch h => exact streamNamed_iff.mp ⟨_, h⟩
    | rawBytes h => exact ⟨_, h⟩
    | _ => trivial
  · intro h
    cases d with
    | rollForward idx text variant tip =>
      obtain ⟨source, hsource⟩ := headerNamed_iff.mpr h
      exact ⟨_, .rollForward hsource⟩
    | block idx text =>
      obtain ⟨source, hsource⟩ := blockNamed_iff.mpr h
      exact ⟨_, .block hsource⟩
    | streamBatch indices fromRequest =>
      obtain ⟨sources, hsources⟩ := streamNamed_iff.mpr h
      exact ⟨_, .streamBatch hsources⟩
    | rawBytes text =>
      obtain ⟨bytes, hbytes⟩ := h
      exact ⟨_, .rawBytes hbytes⟩
    | sendSequence sends => exact h.elim
    | _ => exact ⟨_, by constructor⟩

theorem sourced_mono (h : d.Sourced P cs bf) (hmono : ∀ text ∈ d.hexTexts, P text → Q text) :
    d.Sourced Q cs bf := by
  cases d with
  | rollForward idx text variant tip =>
    rcases idx with _ | idx <;> rcases text with _ | text
    · exact h
    · exact hmono text (List.mem_singleton_self text) h
    · exact h
    · exact h
  | block idx text =>
    rcases idx with _ | idx <;> rcases text with _ | text
    · exact h
    · exact hmono text (List.mem_singleton_self text) h
    · exact h
    · exact h
  | rawBytes text => exact hmono text (List.mem_singleton_self text) h
  | _ => exact h

theorem hexTexts_sourced (h : d.Sourced P cs bf) : ∀ text ∈ d.hexTexts, P text := by
  intro text htext
  cases d with
  | rollForward idx text' variant tip =>
    obtain rfl := Option.mem_toList.mp htext
    rcases idx with _ | idx
    · exact h
    · exact h.elim
  | block idx text' =>
    obtain rfl := Option.mem_toList.mp htext
    rcases idx with _ | idx
    · exact h
    · exact h.elim
  | rawBytes text' =>
    obtain rfl := List.mem_singleton.mp htext
    exact h
  | _ => exact absurd htext List.not_mem_nil

/-- Without signs, the texts are read digit by digit. -/
theorem sendNamed_unsigned (h : SendNamed True cs bf d send)
    (hsign : ∀ text ∈ d.hexTexts, 43 ∉ strBytes text) : SendNamed False cs bf d send := by
  have hdigits : ∀ {text bytes}, text ∈ d.hexTexts → HexPairs True (strBytes text) bytes →
      HexPairs False (strBytes text) bytes :=
    fun htext hpairs => hexPairs_unsigned_iff.mpr ⟨hpairs, hsign _ htext⟩
  cases h with
  | rollForward h =>
    cases h with
    | entry hcs he => exact .rollForward (.entry hcs he)
    | literal h => exact .rollForward (.literal (hdigits (List.mem_singleton_self _) h))
  | block h =>
    cases h with
    | entry hbf he => exact .block (.entry hbf he)
    | literal h => exact .block (.literal (hdigits (List.mem_singleton_self _) h))
  | streamBatch h => exact .streamBatch h
  | rawBytes h => exact .rawBytes (hdigits (List.mem_singleton_self _) h)
  | _ => constructor

theorem sendNamed_kind (h : SendNamed signs cs bf d send) : send.kindStr = d.kind := by
  cases h <;> rfl

theorem sendNamed_flat (h : SendNamed signs cs bf d send) :
    d.subDefs = [d] ∧ send.subSends = [send] ∧ ∀ sends, send ≠ .sendSequence sends := by
  cases h <;> exact ⟨rfl, rfl, fun _ h => by cases h⟩

end

/-! ## Rules -/

section

variable {signs : Prop} {d : SendDef} {send : ScriptSend} {rule : ResponseRuleDef}

theorem convertSequence_eq_ok {i : Nat} {ds : List SendDef} {sends : List ScriptSend} :
    convertSequence cs bf i ds = .ok sends ↔ List.Forall₂ (SendNamed True cs bf) ds sends := by
  constructor
  · intro h
    induction ds generalizing i sends with
    | nil =>
      cases h
      exact .nil
    | cons d rest ih =>
      obtain ⟨send, others, rfl, hsend, hothers⟩ := convertSequence_cons h
      exact .cons (convertSendDef_eq_ok.mp hsend) (ih hothers)
  · intro h
    induction h generalizing i with
    | nil => rfl
    | @cons d send _ _ hsend _ ih =>
      have hsingle : ¬ d.isSequence = true := by
        intro hseq
        cases hsend <;> cases hseq
      rw [convertSequence, if_neg hsingle, convertSendDef_eq_ok.mpr hsend]
      dsimp only
      rw [ih]

theorem convertRuleSend_eq_ok :
    convertRuleSend cs bf d = .ok send ↔ RuleSendNamed True cs bf d send := by
  constructor
  · intro h
    by_cases hseq : d.isSequence = true
    · cases d with
      | sendSequence ds =>
        obtain ⟨sends, hsends, rfl⟩ := except_map_ok h
        exact .sequence (convertSequence_eq_ok.mp hsends)
      | _ => cases hseq
    · rw [convertRuleSend_single hseq] at h
      exact .single (convertSendDef_eq_ok.mp h)
  · intro h
    cases h with
    | single h =>
      have hsingle : ¬ d.isSequence = true := by
        intro hseq
        cases h <;> cases hseq
      rw [convertRuleSend_single hsingle, convertSendDef_eq_ok.mpr h]
    | sequence h =>
      rw [convertRuleSend, convertSequence_eq_ok.mpr h]
      rfl

/-- The sends, one by one. -/
theorem forall₂_of_named (h : RuleSendNamed signs cs bf d send) :
    List.Forall₂ (SendNamed signs cs bf) d.subDefs send.subSends := by
  cases h with
  | sequence h => exact h
  | single h =>
    obtain ⟨hdef, hsend, -⟩ := sendNamed_flat h
    rw [hdef, hsend]
    exact .cons h .nil

theorem exists_sequence (h : d.isSequence = true) : ∃ ds, d = .sendSequence ds := by
  cases d with
  | sendSequence ds => exact ⟨ds, rfl⟩
  | _ => cases h

theorem subDefs_single (h : ¬ d.isSequence = true) : d.subDefs = [d] := by
  cases d with
  | sendSequence ds => exact absurd rfl h
  | _ => rfl

/-- **A rule can be converted if its sends have their contents.** -/
theorem ruleSendNamed_iff : (∃ send, RuleSendNamed signs cs bf rule.send send) ↔
    rule.Sourced (Readable signs) cs bf := by
  have hsends : rule.Sourced (Readable signs) cs bf ↔
      ∃ sends, List.Forall₂ (SendNamed signs cs bf) rule.send.subDefs sends := by
    rw [exists_forall₂_iff, ResponseRuleDef.Sourced]
    exact forall₂_congr fun d _ => sendNamed_iff.symm
  rw [hsends]
  constructor
  · rintro ⟨send, h⟩
    exact ⟨send.subSends, forall₂_of_named h⟩
  · rintro ⟨sends, h⟩
    by_cases hseq : rule.send.isSequence = true
    · obtain ⟨ds, hds⟩ := exists_sequence hseq
      rw [hds] at h ⊢
      exact ⟨_, .sequence h⟩
    · rw [subDefs_single hseq] at h
      cases h with
      | cons h _ => exact ⟨_, .single h⟩

theorem ruleDefToScript_eq_ok {out : ScriptRule} (h : ruleDefToScript cs bf rule = .ok out) :
    out.on = rule.on ∧ RuleSendNamed True cs bf rule.send out.send := by
  obtain ⟨send, hsend, rfl⟩ := except_map_ok h
  exact ⟨rfl, convertRuleSend_eq_ok.mp hsend⟩

theorem exists_ruleDefToScript_iff :
    (∃ out, ruleDefToScript cs bf rule = .ok out) ↔ rule.Sourced (Readable True) cs bf := by
  rw [← ruleSendNamed_iff]
  constructor
  · rintro ⟨out, h⟩
    exact ⟨out.send, (ruleDefToScript_eq_ok h).2⟩
  · rintro ⟨send, h⟩
    refine ⟨{ on := rule.on, send, repeatable := false }, ?_⟩
    rw [ruleDefToScript, convertRuleSend_eq_ok.mpr h]
    rfl

/-- The kinds of the sends stay, and none is a sequence. -/
theorem sendsNamed_kinds {ds : List SendDef} {sends : List ScriptSend}
    (h : List.Forall₂ (SendNamed signs cs bf) ds sends) :
    sends.map (·.kindStr) = ds.map (·.kind) ∧ ∀ send ∈ sends, ∀ subs, send ≠ .sendSequence subs := by
  induction h with
  | nil => exact ⟨rfl, fun send hsend => absurd hsend List.not_mem_nil⟩
  | cons hsend _ ih =>
    obtain ⟨hkinds, hflat⟩ := ih
    refine ⟨?_, List.forall_mem_cons.mpr ⟨(sendNamed_flat hsend).2.2, hflat⟩⟩
    rw [List.map_cons, List.map_cons, sendNamed_kind hsend, hkinds]

theorem ruleSendNamed_unsigned (h : RuleSendNamed True cs bf d send)
    (hsign : ∀ sub ∈ d.subDefs, ∀ text ∈ sub.hexTexts, 43 ∉ strBytes text) :
    RuleSendNamed False cs bf d send := by
  cases h with
  | single h =>
    rw [(sendNamed_flat h).1] at hsign
    exact .single (sendNamed_unsigned h (hsign d (List.mem_singleton_self d)))
  | sequence h =>
    refine .sequence ?_
    rw [SendDef.subDefs] at hsign
    induction h with
    | nil => exact .nil
    | cons hsend _ ih =>
      obtain ⟨hfirst, hrest⟩ := List.forall_mem_cons.mp hsign
      exact .cons (sendNamed_unsigned hsend hfirst) (ih hrest)

/-- **What a rule is converted to**, if there are no signs in its hex texts. -/
theorem convertedExactly_of_unsigned {out : ScriptRule}
    (h : ruleDefToScript cs bf rule = .ok out)
    (hsign : ∀ d ∈ rule.send.subDefs, ∀ text ∈ d.hexTexts, 43 ∉ strBytes text) :
    ConvertedExactly cs bf rule out := by
  obtain ⟨hon, hnamed⟩ := ruleDefToScript_eq_ok h
  obtain ⟨hkinds, hflat⟩ := sendsNamed_kinds (forall₂_of_named hnamed)
  exact ⟨hon, ruleSendNamed_unsigned hnamed hsign, hkinds, hflat⟩

/-- **Conversion is exact exactly if** there is no rule that only a sign in a hex text keeps from
being as it should. -/
theorem conversionExact_iff : ConversionExact cs bf rule ↔ Unsigned cs bf rule := by
  constructor
  · intro h hreadable d hd text htext hplus
    have hvalid := h.converted_iff.mp (exists_ruleDefToScript_iff.mpr hreadable)
    have hhex := hexTexts_sourced (hvalid d hd) text htext
    exact (hexDigit_lt (hhex.2 43 hplus)).2 rfl
  · intro h
    constructor
    · rw [exists_ruleDefToScript_iff]
      constructor
      · intro hreadable d hd
        refine sourced_mono (hreadable d hd) fun text htext hread => ?_
        obtain ⟨bytes, hbytes⟩ := hread
        exact validHex_iff.mpr
          ⟨bytes, hexPairs_unsigned_iff.mpr ⟨hbytes, h hreadable d hd text htext⟩⟩
      · intro hvalid d hd
        refine sourced_mono (hvalid d hd) fun text _ hhex => ?_
        obtain ⟨bytes, hbytes⟩ := validHex_iff.mp hhex
        exact ⟨bytes, (hexPairs_unsigned_iff.mp hbytes).1⟩
    · intro out hout
      exact convertedExactly_of_unsigned hout (h (exists_ruleDefToScript_iff.mp ⟨out, hout⟩))

end

/-! ## Sessions -/

section

open ConformanceHarness.Lib (Prog)
open ConformanceHarness.Lib.Prog (FailsWith)
open Session BlockFetch

/-- What `execute_single_send` says of a sequence. -/
def nestedSequence : Fault :=
  .err ["SendSequence reached execute_single_send — this is a bug"]

/-- A text that begins with another letter. -/
theorem err_ne_nestedSequence {letter : Char} {text : String}
    (htext : text.toList.head? = some letter) (hletter : letter ≠ 'S') :
    Fault.err [text] ≠ nestedSequence := by
  intro h
  injection h with h
  injection h with h
  rw [h] at htext
  exact hletter (Option.some.inj htext).symm

theorem head?_append {letter : Char} {text : String} (h : text.toList.head? = some letter)
    (rest : String) : (text ++ rest).toList.head? = some letter := by
  rw [String.toList_append, List.head?_append, h]
  rfl

/-- The lenient decoder does not return errors. -/
theorem decodePairsLenient_error {text : List UInt8} {e : Fault}
    (h : decodePairsLenient text = .error e) : e ≠ nestedSequence := by
  fun_induction decodePairsLenient text with
  | case1 => cases h
  | case2 =>
    cases h
    decide
  | case3 => cases h
  | case4 a b rest hbound f hrest ih =>
    cases h
    exact ih hrest
  | case5 =>
    cases h
    decide

theorem sendNoBlocks_fails {P : Fault → Prop} {stateBefore : ServerBfState} :
    FailsWith P (sendNoBlocks stateBefore) :=
  .bind .modify fun _ => .bind .modify fun _ => .bind .modify fun _ => .modify

/-- A batch does not fail once its blocks are decoded. -/
theorem sendStream_fails {P : Fault → Prop} {stateBefore : ServerBfState}
    (entries : Option (List (BlockSource × List UInt8))) :
    FailsWith P (sendStream stateBefore entries) := by
  rcases entries with _ | _ | ⟨entry, rest⟩
  · exact sendNoBlocks_fails
  · exact sendNoBlocks_fails
  · intro s e s' h
    obtain ⟨s'', hrun, -⟩ := sendStream_run stateBefore (List.cons_ne_nil entry rest) s
    cases (Prod.mk.inj (h.symm.trans hrun)).1

theorem blockSourceBytes_error {source : BlockSource} {e : Fault}
    (h : blockSourceBytes source = .error e) : e ≠ nestedSequence := by
  cases source with
  | fixtureEntry entry => exact decodePairsLenient_error h
  | literal bytes => cases h

theorem mapEntries_error {α β : Type} {f : α → Except Fault β}
    (hf : ∀ a e, f a = .error e → e ≠ nestedSequence) {l : List α} {e : Fault}
    (h : mapEntries f l = .error e) : e ≠ nestedSequence := by
  induction l with
  | nil => cases h
  | cons a rest ih =>
    rw [mapEntries] at h
    rcases ha : f a with e' | b <;> rw [ha] at h
    · cases h
      exact hf a _ ha
    · dsimp only at h
      rcases hrest : mapEntries f rest with e' | bs <;> rw [hrest] at h
      · cases h
        exact ih hrest
      · cases h

theorem except_map_error {α β : Type} {f : α → β} {r : Except Fault α} {e : Fault}
    (h : r.map f = .error e) : r = .error e := by
  rcases r with e' | a
  · cases h
    rfl
  · cases h

theorem entryIdx_error {slot : UInt64} {hash : List UInt8} {i : Nat}
    {entries : List BlockFixtureEntry} {e : Fault}
    (h : BlockFixtureChain.entryIdx slot hash i entries = .error e) : e ≠ nestedSequence := by
  fun_induction BlockFixtureChain.entryIdx slot hash i entries with
  | case1 => cases h
  | case2 i entry rest hslot f hdecode =>
    cases h
    exact decodePairsLenient_error hdecode
  | case3 => cases h
  | case4 i entry rest hslot found hdecode hne ih => exact ih h
  | case5 i entry rest hslot ih => exact ih h

theorem findEntryIdx_error {chain : BlockFixtureChain} {p : Point} {e : Fault}
    (h : chain.findEntryIdx p = .error e) : e ≠ nestedSequence := by
  cases p with
  | origin => cases h
  | specific slot hash => exact entryIdx_error h

theorem findRange_error {chain : BlockFixtureChain} {fromPoint toPoint : Point} {e : Fault}
    (h : chain.findRange fromPoint toPoint = .error e) : e ≠ nestedSequence := by
  rw [BlockFixtureChain.findRange] at h
  rcases hfrom : chain.findEntryIdx fromPoint with f | _ | fromIdx <;> rw [hfrom] at h
  · cases h
    exact findEntryIdx_error hfrom
  · cases h
  · rcases hto : chain.findEntryIdx toPoint with f | _ | toIdx <;> rw [hto] at h
    · cases h
      exact findEntryIdx_error hto
    · cases h
    · by_cases hlt : toIdx < fromIdx
      · simp only [if_pos hlt] at h
        cases h
      · simp only [if_neg hlt] at h
        cases h

theorem streamEntries_error {request : BlockFetchRequest} {fixture : Option BlockFixtureChain}
    {sources : StreamBatchSources} {e : Fault}
    (h : streamEntries request fixture sources = .error e) : e ≠ nestedSequence := by
  cases sources with
  | explicit sources =>
    exact mapEntries_error (fun source e' hsource =>
      blockSourceBytes_error (except_map_error hsource)) (except_map_error h)
  | fromRequest =>
    cases request with
    | clientDone => cases h
    | requestRange fromPoint toPoint =>
      cases fixture with
      | none => cases h
      | some chain =>
        rw [streamEntries] at h
        rcases hrange : chain.findRange fromPoint toPoint with f | _ | entries <;>
          rw [hrange] at h
        · cases h
          exact findRange_error hrange
        · cases h
        · exact mapEntries_error (fun entry e' hentry =>
            decodePairsLenient_error (except_map_error hentry)) (except_map_error h)

theorem executeSingleSend_fails {send : ScriptSend} (h : ∀ sends, send ≠ .sendSequence sends)
    (request : BlockFetchRequest) (fixture : Option BlockFixtureChain)
    (stateBefore : ServerBfState) :
    FailsWith (· ≠ nestedSequence) (executeSingleSend send request fixture stateBefore) := by
  cases send with
  | sendSequence sends => exact absurd rfl (h sends)
  | noBlocks => exact .bind .modify fun _ => .bind sendNoBlocks_fails fun _ => .pure _
  | startBatch =>
    exact .bind .modify fun _ => .bind (.bind .modify fun _ => .bind .modify fun _ => .modify)
      fun _ => .pure _
  | block source =>
    refine .bind (.ofExcept fun e => blockSourceBytes_error) fun body => .bind .modify fun _ => ?_
    exact .bind (.bind .modify fun _ => .bind .modify fun _ => .bind .modify fun _ => .modify)
      fun _ => .pure _
  | batchDone =>
    refine .bind .modify fun _ => .get_bind fun s => ?_
    exact .bind (.bind .modify fun _ => .bind .modify fun _ => .modify) fun _ => .pure _
  | streamBatch sources =>
    refine .bind (.ofExcept fun e => streamEntries_error) fun entries => .bind .modify fun _ => ?_
    exact .bind (sendStream_fails entries) fun _ => .pure _
  | wait durationSecs => exact .pure _
  | disconnect => exact .pure _
  | rawBytes bytes =>
    exact .bind .modify fun _ => .bind .modify fun _ => .bind .modify fun _ => .pure _
  | _ =>
    refine .ofExcept fun e he => ?_
    cases he
    exact @err_ne_nestedSequence 'C' _ (head?_append (head?_append rfl _) _) (by decide)

theorem executeSequence_fails {sends : List ScriptSend}
    (h : ∀ send ∈ sends, ∀ subs, send ≠ .sendSequence subs) (request : BlockFetchRequest)
    (fixture : Option BlockFixtureChain) :
    FailsWith (· ≠ nestedSequence) (executeSequence request fixture sends) := by
  induction sends with
  | nil => exact .pure _
  | cons send rest ih =>
    obtain ⟨hsend, hrest⟩ := List.forall_mem_cons.mp h
    refine .get_bind fun s => .bind (executeSingleSend_fails hsend request fixture s.state) ?_
    intro done
    cases done with
    | true => exact .pure _
    | false => exact ih hrest

theorem executeSend_fails {send : ScriptSend}
    (h : ∀ sub ∈ send.subSends, ∀ sends, sub ≠ .sendSequence sends) (request : BlockFetchRequest)
    (fixture : Option BlockFixtureChain) (stateBefore : ServerBfState) :
    FailsWith (· ≠ nestedSequence) (executeSend send request fixture stateBefore) := by
  cases send with
  | sendSequence sends => exact executeSequence_fails h request fixture
  | _ =>
    exact executeSingleSend_fails (h _ (List.mem_singleton_self _)) request fixture stateBefore

/-- The loop, if no rule has a sequence in another. -/
theorem serveLoop_fails {rules : List ScriptRule}
    (h : ∀ rule ∈ rules, ∀ sub ∈ rule.send.subSends, ∀ sends, sub ≠ .sendSequence sends)
    (fixture : Option BlockFixtureChain) (ruleIdx : Nat) (incoming : List BlockFetchRequest) :
    FailsWith (· ≠ nestedSequence) (serveLoop rules fixture ruleIdx incoming) := by
  induction incoming generalizing ruleIdx with
  | nil => exact .pure ()
  | cons request incoming ih =>
    rw [serveLoop]
    have hreceive : FailsWith (· ≠ nestedSequence) (receive request) :=
      .bind .modify fun _ => .get_bind fun s => .bind .modify fun _ => .modify
    refine .bind hreceive fun _ => ?_
    split
    · exact .pure ()
    · refine .bind .modify fun _ => ?_
      split
      · refine .ofExcept fun e he => ?_
        cases he
        exact @err_ne_nestedSequence 's' _
          (head?_append (head?_append (head?_append (head?_append rfl _) _) _) _) (by decide)
      · rename_i pos rule hnext
        have hmem : rule ∈ rules := List.mem_of_mem_drop (nextRule_mem hnext)
        refine .bind (.bind .modify fun _ => .modify) fun _ => .get_bind fun s => ?_
        refine .bind (executeSend_fails (h rule hmem) request fixture s.state) fun done => ?_
        cases done with
        | true => exact .pure ()
        | false => exact ih _

/-- **Converted rules never make a session fail with a nested sequence.** -/
theorem executeBlockFetchScript_not_nested {rules : List ScriptRule}
    (h : ∀ rule ∈ rules, ∃ cs bf d, ruleDefToScript cs bf d = .ok rule)
    (fixture : Option BlockFixtureChain) (incoming : List BlockFetchRequest)
    (s : BlockFetchSession) :
    ((executeBlockFetchScript rules fixture incoming).run s).1 ≠ .error nestedSequence := by
  have hflat : ∀ rule ∈ rules, ∀ sub ∈ rule.send.subSends, ∀ sends, sub ≠ .sendSequence sends := by
    intro rule hrule
    obtain ⟨cs, bf, d, hd⟩ := h rule hrule
    exact (sendsNamed_kinds (forall₂_of_named (ruleDefToScript_eq_ok hd).2)).2
  have hfails : FailsWith (· ≠ nestedSequence) (executeBlockFetchScript rules fixture incoming) :=
    .bind .modify fun _ => .bind (serveLoop_fails hflat fixture 0 incoming) fun _ =>
      .get_bind fun _ => .bind .modify fun _ => .pure _
  intro herror
  exact hfails s nestedSequence _ (Prod.ext herror rfl) rfl

end

/-- **Conversion is exact exactly if** no sign in a hex text is all that is wrong with the rule; and
rules that have been converted never make a session fail with a nested sequence. -/
theorem rule_conversion_exact_iff (cs : Option FixtureChain) (bf : Option BlockFixtureChain)
    (rule : ResponseRuleDef) :
    (ConversionExact cs bf rule ↔ Unsigned cs bf rule) ∧
      ∀ rules fixture incoming, (∀ rule ∈ rules, ∃ cs bf d, ruleDefToScript cs bf d = .ok rule) →
        ((BlockFetch.executeBlockFetchScript rules fixture incoming).run BlockFetch.session).1 ≠
          .error nestedSequence := by
  refine ⟨conversionExact_iff, fun rules fixture incoming h => ?_⟩
  exact executeBlockFetchScript_not_nested h fixture incoming BlockFetch.session

/-- A rule whose hex text is a sign and a digit. -/
def signedRule : ResponseRuleDef := { on := .any, send := .rawBytes "+f" }

/-- **It is converted**, and sends the byte 15. -/
theorem signed_hex_converted :
    (ruleDefToScript none none signedRule).map (·.send.subSends.map (·.kindStr)) =
        .ok ["raw_bytes"] ∧
      ResponseRules.decodeHex "+f" = .ok [15] ∧ ¬ signedRule.Sourced ValidHex none none ∧
      ¬ ConversionExact none none signedRule := by
  have hsourced : ¬ signedRule.Sourced ValidHex none none := by
    intro h
    have hvalid : ValidHex "+f" := h (.rawBytes "+f") (List.mem_singleton_self _)
    revert hvalid
    decide
  refine ⟨by decide, by decide, hsourced, fun h => hsourced (h.converted_iff.mp ?_)⟩
  exact ⟨_, rfl⟩

end Proof

end ConformanceHarness

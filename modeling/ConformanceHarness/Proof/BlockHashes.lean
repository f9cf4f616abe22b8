import ConformanceHarness.Proof.PeerReferences
import ConformanceHarness.Proof.PeerServing
import ConformanceHarness.Proof.Delivery

/-!
# The length of block hashes

A block hash has 32 bytes. Three kinds of entries come to be on a chain: those of a fixture, which
are decoded without a look at their length; those of `peer_extends_chain`, whose hash `validate`
measures if it is written in the step; and those that are produced, whose hash is a digest.
-/

namespace ConformanceHarness.Concurrent

open ConformanceHarness.Lib
open ConformanceHarness.Lib.Scope (All live)
open ConformanceHarness.Proof
open ConformanceHarness.Proof.PeerServing (extendFromBlocks_chainEntries initialState_chainEntries)
open ConformanceHarness.Runner (LeafKind)

variable {S : Setting} {frame : Bool} {steps : List Loader.StepDef} {blake2b : List UInt8 → List UInt8}

/-! ## Hashes -/

/-- The hash has 32 bytes. -/
def Sized (e : ChainEntry) : Prop := e.blockHash.length = 32

/-- So have those of a peer's chain. -/
def AllSized (ps : PeerState) : Prop := ∀ e ∈ ps.chainEntries, Sized e

/-- So have those of all peers. -/
def HashesSized (net : RunState) : Prop := ∀ id ps, net.peers id = some ps → AllSized ps

/-- A pair of digits is a byte. -/
theorem decodePairs_length {describe : Nat → String} {i : Nat} {bs vs : List UInt8}
    (h : decodePairs describe i bs = .ok vs) : bs.length = 2 * vs.length := by
  fun_induction decodePairs describe i bs generalizing vs with
  | case1 =>
    obtain rfl := Except.ok.inj h
    rfl
  | case2 => cases h
  | case3 => cases h
  | case4 i a b rest hb v hv ws hrest ih =>
    obtain rfl := Except.ok.inj h
    have hlen := ih hrest
    simp only [List.length_cons]
    omega
  | case5 => cases h
  | case6 => cases h

theorem decodeHex_length {s : String} {bytes : List UInt8}
    (h : PeerState.decodeHex s = .ok bytes) : (strBytes s).length = 2 * bytes.length := by
  unfold PeerState.decodeHex decodeHexWith at h
  split at h
  · exact decodePairs_length h
  · exact nomatch h

/-! ## Fixtures -/

/-- The hashes of a fixture decode to 32 bytes. -/
def FixtureSized (chain : FixtureChain) : Prop :=
  ∀ e ∈ chain.entries, ∀ hash, PeerState.decodeHexUnchecked e.blockHash = .ok hash →
    hash.length = 32

theorem fromFixtureEntry_hash {e : FixtureEntry} {entry : ChainEntry}
    (h : ChainEntry.fromFixtureEntry e = .ok entry) :
    PeerState.decodeHexUnchecked e.blockHash = .ok entry.blockHash := by
  unfold ChainEntry.fromFixtureEntry at h
  split at h
  · exact nomatch h
  · next hash hhash =>
    split at h
    · exact nomatch h
    · obtain rfl := Except.ok.inj h
      exact hhash

/-- A peer without a fixture starts with an empty chain. -/
theorem initialState_empty {files : Files} {peer : Peer} {ps : PeerState}
    (hpath : peer.chainSyncFixture = none) (h : peer.initialState files = .ok ps) :
    ps.chainEntries = [] := by
  simp only [Peer.initialState, hpath] at h
  cases hblocks : peer.blockFetchFixture with
  | none =>
    rw [hblocks] at h
    obtain rfl := Except.ok.inj h
    rfl
  | some path =>
    rw [hblocks] at h
    obtain ⟨ps', hnew, h⟩ := bind_eq_ok.mp h
    obtain rfl := Except.ok.inj hnew
    obtain ⟨chain, -, h⟩ := bind_eq_ok.mp h
    exact extendFromBlocks_chainEntries h

theorem initialState_sized {files : Files} {peer : Peer} {ps : PeerState}
    (hfixture : ∀ path chain, peer.chainSyncFixture = some path →
      files.loadFixture path = .ok chain → FixtureSized chain)
    (h : peer.initialState files = .ok ps) : AllSized ps := by
  cases hpath : peer.chainSyncFixture with
  | none =>
    intro e he
    rw [initialState_empty hpath h] at he
    cases he
  | some path =>
    cases hload : files.loadFixture path with
    | error f =>
      simp only [Peer.initialState, hpath, hload] at h
      cases f <;> cases h
    | ok chain =>
      intro entry hentry
      obtain ⟨e, he, hfrom⟩ := mapEntries_mem (initialState_chainEntries hpath hload h) entry hentry
      exact hfixture path chain hpath hload e he _ (fromFixtureEntry_hash hfrom)

/-! ## Production -/

theorem produceSlot_sized (hlen : ∀ input, (blake2b input).length = 32) {id kind : String}
    {ctx : RuleContext} {ps : PeerState} {slot : UInt64} (h : AllSized ps) :
    AllSized (produceSlot blake2b id kind ctx ps slot).1 := by
  unfold produceSlot
  split
  · exact h
  · intro e he
    rcases List.mem_append.mp he with he | he
    · exact h e he
    · rw [List.mem_singleton.mp he]
      exact hlen _

theorem produceSlots_sized (hlen : ∀ input, (blake2b input).length = 32) {id kind : String}
    {ctx : RuleContext} {ps : PeerState} (slots : List UInt64) (h : AllSized ps) :
    AllSized (produceSlots blake2b id kind ctx ps slots).1 := by
  induction slots generalizing ps with
  | nil => exact h
  | cons slot rest ih =>
    rw [produceSlots_cons]
    exact ih (produceSlot_sized hlen h)

theorem applyLocked_sized (hlen : ∀ input, (blake2b input).length = 32) {order : List String}
    {net net' : RunState} {clock : Option UInt64} {old new : UInt64}
    (horder : net.peers.IterOrder order)
    (hnet : applyLocked blake2b order { net with currentSlot := clock } old new = some net')
    (h : HashesSized net) : HashesSized net' := by
  obtain ⟨⟨peers', events⟩, happly, rfl⟩ := Option.map_eq_some_iff.mp hnet
  intro id ps' hps'
  cases hps : net.peers id with
  | none =>
    have hnone := (applyProductionRules_none horder happly hps).1
    exact nomatch hps'.symm.trans hnone
  | some ps =>
    obtain ⟨ps'', evs, hproduce, hps'', -⟩ := applyProductionRules_peer horder happly hps
    obtain rfl := Option.some.inj (hps''.symm.trans hps')
    rcases producePeer_spec hproduce with ⟨-, rfl, -⟩ | ⟨rule, l, ctx, -, -, -, -, heq⟩
    · exact h id _ hps
    · rw [(Prod.mk.inj heq).1]
      exact produceSlots_sized hlen l (h id ps hps)

/-! ## `peer_extends_chain` -/

/-- A hash that substitution may change has 32 bytes after it. -/
def ExtensionSized (l : Leaf) : Prop :=
  ∀ text hash, l.step.get "block_hash" = some (.string text) → ¬ Unchanged text →
    l.params.blockHash = some hash → (strBytes hash).length = 64

/-- `validate` has measured the hash if it is written in the step. -/
theorem extension_literal {serdeError : Value → String} {step : Loader.StepDef} {text : String}
    (h : StepClean serdeError step) (hkind : step.kind = .leaf .peerExtendsChain)
    (hget : step.get "block_hash" = some (.string text)) (hliteral : Unchanged text) :
    (strBytes text).length = 64 := by
  obtain ⟨pos, before, -, hleaf⟩ := h.leaf hkind
  have herrors := Except.ok.inj hleaf
  unfold Loader.peerExtendsChainErrors at herrors
  rw [hget] at herrors
  have hmeasured := Loader.errorIf_eq_nil.mp (List.append_eq_nil_iff.mp herrors).2
  rw [(unchanged_iff.mp hliteral).2] at hmeasured
  simpa using hmeasured

/-- Only a text becomes a text. -/
theorem substituted_to_string {vars : VarStore} {v : Value} {text : String}
    (h : Substituted vars v (.string text)) : ∃ raw, v = .string raw := by
  cases v with
  | string raw => exact ⟨raw, rfl⟩
  | null => exact nomatch substituted_null h
  | bool b => exact nomatch substituted_bool h
  | number n => exact nomatch substituted_number h
  | array items =>
    obtain ⟨items', hitems, -⟩ := substituted_array h
    exact nomatch hitems
  | object fields =>
    obtain ⟨fields', hfields, -⟩ := substituted_object h
    exact nomatch hfields

theorem optionalString_some {o : Option Value} {text : String}
    (h : Value.optional Value.asString o = some (some text)) : o = some (.string text) := by
  cases o with
  | none => exact nomatch h
  | some v =>
    cases v with
    | string s =>
      obtain rfl := Option.some.inj (Option.some.inj h)
      rfl
    | null => exact nomatch Option.some.inj h
    | _ => exact nomatch h

/-- A step of an accepted scenario, whose hash has 32 bytes if substitution may have changed it. -/
theorem extension_sized {serdeError : Value → String} {l : Leaf}
    (hclean : StepClean serdeError l.step) (hstep : IsStep steps .peerExtendsChain l)
    (hextension : ExtensionSized l) {text : String} (hhash : l.params.blockHash = some text) :
    (strBytes text).length = 64 := by
  -- `validate` has seen to it that the field is there
  obtain ⟨pos, before, -, hleaf⟩ := hclean.leaf hstep.kind
  have herrors := (List.append_eq_nil_iff.mp (Except.ok.inj hleaf)).1
  have hthere : (l.step.get "block_hash").isNone = false :=
    Loader.errorIf_eq_nil.mp (List.flatMap_eq_nil_iff.mp herrors "block_hash" (by simp))
  cases hget : l.step.get "block_hash" with
  | none =>
    rw [hget] at hthere
    cases hthere
  | some v =>
    obtain ⟨vars, refs, hsub⟩ := hstep.substituted
    have hparams := hstep.params
    cases hraw : l.step.rawParams with
    | object fields =>
      rw [hraw] at hsub
      obtain ⟨fields', hfields', hall⟩ := substituted_object ⟨refs, hsub⟩
      rw [hfields'] at hparams
      have hread := StepParams.fromValue_blockHash hparams
      rw [hhash] at hread
      have hlookup := lookup_substituted hall "block_hash"
      have hfield : fields.lookup "block_hash" = some v := by
        have hsame := hget
        rwa [Loader.StepDef.get, hraw] at hsame
      rw [hfield, optionalString_some hread] at hlookup
      cases hlookup with
      | some hv =>
        obtain ⟨raw, rfl⟩ := substituted_to_string hv
        by_cases hliteral : Unchanged raw
        · obtain rfl := Value.string.inj (substituted_unchanged hliteral hv)
          exact extension_literal hclean hstep.kind hget hliteral
        · exact hextension raw text hget hliteral hhash
    | _ =>
      rw [Loader.StepDef.get, hraw] at hget
      cases hget

/-! ## Runs -/

/-- The condition under which an action may be executed: the fixture of a peer has hashes of 32
bytes, and so has an extension whose hash is not written in the step. -/
def HashesGiven (S : Setting) : Action → State → Prop
  | .initPeer peer, _ => ∀ path chain, peer.chainSyncFixture = some path →
    S.files.loadFixture path = .ok chain → FixtureSized chain
  | .extendChain l, _ => ExtensionSized l
  | _, _ => True

theorem sized_insert {peers : PeerMap} {id : String} {ps : PeerState} (hps : AllSized ps)
    (h : ∀ id ps, peers id = some ps → AllSized ps) :
    ∀ other ps', peers.insert id ps other = some ps' → AllSized ps' := by
  intro other ps' hother
  by_cases hid : other = id
  · subst hid
    rw [PeerMap.insert_self] at hother
    exact Option.some.inj hother ▸ hps
  · rw [PeerMap.insert_ne _ _ hid] at hother
    exact h other ps' hother

/-- **Preserved by every action** that is executed under the condition. -/
theorem hashesSized_preserves {serdeError : Value → String}
    (haccepted : Loader.Accepted serdeError S.scenario)
    (hlen : ∀ input, (S.blake2b input).length = 32) :
    Preserves ((machine S).when (HashesGiven S)) (Genuine S true S.scenario.steps)
      fun s => HashesSized s.net where
  exec := by
    intro held a s s' rest h ha hsized
    obtain ⟨hgiven, h⟩ := h
    refine ⟨?_, (exec_effect h ha).leaves.1⟩
    cases exec_net h with
    | vars vars hnet _ =>
      rw [hnet]
      exact hsized
    | begins vars _ hnet _ =>
      rw [hnet]
      exact hsized
    | inits peer ps hact hps hnet _ =>
      subst hact
      rw [hnet]
      exact sized_insert (initialState_sized hgiven hps) hsized
    | appends l hact hnet _ =>
      subst hact
      obtain ⟨id, entry, body, ps, hdecode, hps, -, hnet⟩ := peerExtendsChain_ok hnet
      obtain ⟨text, hhash, hbytes⟩ := (decodeExtension_gives hdecode).blockHash
      obtain ⟨hasChainSync, hsteps⟩ := (Loader.accepted_iff.mp haccepted).2.1
      have hclean := reachable_clean hsteps ha.reachable
      have htext := extension_sized hclean ha hgiven hhash
      rw [hnet]
      refine sized_insert ?_ hsized
      intro e he
      rcases List.mem_append.mp he with he | he
      · exact hsized id ps hps e he
      · rw [List.mem_singleton.mp he]
        have hdouble := decodeHex_length hbytes
        show entry.blockHash.length = 32
        omega
    | advances l order _ horder hnet _ =>
      obtain ⟨old, new, -, -, -, hmoved⟩ := advanceToSlot_ok hnet
      exact applyLocked_sized hlen horder hmoved hsized
    | ticks l order _ horder hnet _ =>
      obtain ⟨old, count, -, -, hmoved⟩ := tickSlots_ok hnet
      exact applyLocked_sized hlen horder hmoved hsized
    | dials l _ hnet _ _ =>
      rw [hnet]
      exact hsized
    | fetches l token outer _ _ _ hnet _ _ =>
      rw [hnet]
      exact hsized
  drop := by
    intro a s hsized
    show HashesSized (drop a s).net
    rwa [drop_net]
  ambient := by
    intro s s' h hsized
    rwa [ambient_net h]

/-- **Every chain entry carries a hash of 32 bytes**, in every state of a run in which the hashes
that `validate` does not measure have 32 bytes. -/
theorem hashes_sized {serdeError : Value → String}
    (haccepted : Loader.Accepted serdeError S.scenario)
    (hlen : ∀ input, (S.blake2b input).length = 32) {c : Prog} {s : State}
    (h : Scope.Reaches ((machine S).when (HashesGiven S)) (run S, .initial) (c, s)) :
    ∀ id ps, s.net.peers id = some ps → ∀ e ∈ ps.chainEntries, e.blockHash.length = 32 :=
  ((hashesSized_preserves haccepted hlen).reachesIn h (Code.genuine run_code)
    fun _ _ hps => nomatch hps).2

/-! ## A file with one header -/

/-- The line of a header with this hash. -/
def hashLine (hash : String) : String :=
  "\x7b\"slot\":10,\"block_hash\":\"" ++ hash ++ "\",\"block_number\":1,\"cbor_hex\":\"a0\"\x7d"

/-- It is the only one in the file that the only peer is declared with. -/
def hashSetting (hash : String) : Setting where
  blake2b := fun _ => zeroHash
  files :=
    { lines := fun _ => some [PeerServing.genesisLine, hashLine hash]
      fromStr := fun line =>
        if line = PeerServing.genesisLine then some (.object [("anchor", .bool true)])
        else if line = hashLine hash then
          some (.object [("block_hash", .string hash), ("block_number", .number (.unsigned 1)),
            ("cbor_hex", .string "a0"), ("slot", .number (.unsigned 10))])
        else none }
  scenario :=
    { name := "t"
      targetAddress := none
      network := some ⟨[⟨"p", some "chain.jsonl", none, none, none⟩], none⟩
      steps := [] }
  description := none
  networkMagic := 0
  expectedOutcome := none
  sutGenesisTimeUnix := none

theorem hashSetting_accepted (hash : String) :
    Loader.Accepted (fun _ => "") (hashSetting hash).scenario := by
  have hsteps : Loader.validateSteps (fun _ => "") 0 [] false = .ok ([], false) := by
    rw [Loader.validateSteps]
  have haddresses : Loader.validateConnectAddresses (hashSetting hash).scenario = [] := by
    refine Loader.errorIf_eq_nil.mpr ?_
    show ((Loader.collectConnectSteps [] 0).1.any _ && _) = false
    rw [Loader.collectConnectSteps]
    rfl
  have hpeers : ∀ network, Loader.walkAsPeerRefs network 0 [] = [] := by
    intro network
    rw [Loader.walkAsPeerRefs]
  exact Loader.accepted_iff.mpr ⟨rfl, ⟨false, hsteps⟩, rfl, haddresses, rfl, hpeers _⟩

/-- The peer's chain, once it is initialised. -/
theorem hashSetting_run {hash : String} {bytes : List UInt8}
    (hload : (hashSetting hash).files.loadFixture "chain.jsonl" =
      .ok ⟨.origin, [⟨10, hash, 1, "a0", defaultHeaderVariant⟩]⟩)
    (hbytes : PeerState.decodeHexUnchecked hash = .ok bytes) :
    ∃ c s, Scope.Reaches (machine (hashSetting hash)) (run (hashSetting hash), .initial) (c, s) ∧
      ∃ ps, s.net.peers "p" = some ps ∧
        ps.chainEntries = [⟨10, bytes, 1, [0xa0], defaultHeaderVariant⟩] := by
  have hheader : PeerState.decodeHexUnchecked "a0" = .ok [0xa0] := rfl
  let loaded : PeerState :=
    { PeerState.new with chainEntries := [⟨10, bytes, 1, [0xa0], defaultHeaderVariant⟩] }
  have hinit : Peer.initialState (hashSetting hash).files
      ⟨"p", some "chain.jsonl", none, none, none⟩ = .ok loaded := by
    simp only [Peer.initialState, hload, withContext_ok, PeerState.fromFixtureChain, mapEntries,
      ChainEntry.fromFixtureEntry, hbytes, hheader]
    rfl
  have hprelude := @prelude_network_comesTo (hashSetting hash) [] .initial _ _ rfl rfl
    (.bind (initPeer_comesTo hinit) .refl)
  obtain ⟨t, -, hreach⟩ := (ComesTo.inBind hprelude).reaches
  exact ⟨_, _, hreach, loaded, PeerMap.insert_self (fun _ => none) "p" loaded, rfl⟩

/-- **A fixture with a short hash is loaded.** -/
theorem short_hash_loaded : Loader.Accepted (fun _ => "") (hashSetting "aa").scenario ∧
    (∀ input, ((hashSetting "aa").blake2b input).length = 32) ∧
    ∃ c s, Scope.Reaches (machine (hashSetting "aa")) (run (hashSetting "aa"), .initial) (c, s) ∧
      ∃ id ps e, s.net.peers id = some ps ∧ e ∈ ps.chainEntries ∧ e.blockHash.length ≠ 32 := by
  obtain ⟨c, s, hreach, ps, hps, hchain⟩ := @hashSetting_run "aa" [0xaa] rfl rfl
  have hentry : ⟨10, [0xaa], 1, [0xa0], defaultHeaderVariant⟩ ∈ ps.chainEntries := by
    rw [hchain]
    exact List.mem_cons_self
  exact ⟨hashSetting_accepted "aa", fun _ => rfl, c, s, hreach, "p", ps, _, hps, hentry, by decide⟩

/-- Sixty-four digits. -/
def longHash : String := "aaaaaaaaaaaaaaaaaaaaaaaaaaaaaaaaaaaaaaaaaaaaaaaaaaaaaaaaaaaaaaaa"

theorem longHash_decodes :
    PeerState.decodeHexUnchecked longHash = .ok (List.replicate 32 0xaa) := by decide +kernel

theorem longHash_loaded : (hashSetting longHash).files.loadFixture "chain.jsonl" =
    .ok ⟨.origin, [⟨10, longHash, 1, "a0", defaultHeaderVariant⟩]⟩ := by decide +kernel

/-- The condition is met. -/
theorem longHash_given (a : Action) (s : State)
    (h : Genuine (hashSetting longHash) true (hashSetting longHash).scenario.steps a) :
    HashesGiven (hashSetting longHash) a s := by
  cases a with
  | initPeer peer =>
    obtain ⟨-, network, hnetwork, hpeer⟩ := h
    obtain rfl := Option.some.inj hnetwork
    obtain rfl := List.mem_singleton.mp hpeer
    intro path chain hpath hload e he hash hhash
    obtain rfl := Option.some.inj hpath
    obtain rfl := Except.ok.inj (longHash_loaded.symm.trans hload)
    obtain rfl := List.mem_singleton.mp he
    rw [← Except.ok.inj (longHash_decodes.symm.trans hhash)]
    exact List.length_replicate
  | extendChain l =>
    obtain ⟨root, hroot, -⟩ := IsStep.reachable h
    exact nomatch hroot
  | _ => trivial

theorem hashes_sized_long : ∃ (s : State) (ps : PeerState), s.net.peers "p" = some ps ∧
    ps.chainEntries ≠ [] ∧ ∀ e ∈ ps.chainEntries, e.blockHash.length = 32 := by
  obtain ⟨c, s, hreach, ps, hps, hchain⟩ := hashSetting_run longHash_loaded longHash_decodes
  have hall : Preserves (machine (hashSetting longHash))
      (Genuine (hashSetting longHash) true (hashSetting longHash).scenario.steps) fun _ => True :=
    preserves_of (fun _ _ _ _ _ _ _ _ => trivial) (fun _ _ _ => trivial) fun _ _ _ _ => trivial
  have hgiven := hall.reachesIn_when (fun a s ha _ => longHash_given a s ha) hreach
    (Code.genuine run_code) trivial
  have hsized := hashes_sized (hashSetting_accepted longHash) (fun _ => rfl) hgiven
  refine ⟨s, ps, hps, ?_, hsized "p" ps hps⟩
  rw [hchain]
  exact List.cons_ne_nil _ _

end ConformanceHarness.Concurrent

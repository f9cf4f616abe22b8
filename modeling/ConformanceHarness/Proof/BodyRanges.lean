import ConformanceHarness.Proof.Clock
import ConformanceHarness.Proof.PointLookup
import Mathlib.Data.List.Forall2

/-!
# Headers and bodies of one chain

A peer keeps its headers in the order they were appended and its bodies in a map, by
slot and hash. `serve_block_fetch` reads a range of bodies out of that map. That it is
the range of the same entries rests on two facts every step keeps:

* the slots of the chain **increase**, since production skips a slot the tip covers and
  `peer_extends_chain` refuses one;
* the **keys** of the map are the points of the chain, since both put a header and its
  body together. An extension without a body breaks this one.

A map iterates by slot and then by hash, so its keys come in the order of the chain.
-/

namespace ConformanceHarness

open Lib

/-- Where the body of an entry is stored. -/
def ChainEntry.key (e : ChainEntry) : UInt64 × List UInt8 := (e.slot, e.blockHash)

/-- The point of an entry. -/
def ChainEntry.point (e : ChainEntry) : Point := .specific e.slot e.blockHash

/-- `found` is the block of `e` in a fixture made of `store`: its point and its body. -/
def IsBlockOf (store : BlockStore) (e : ChainEntry) (found : BlockFixtureEntry) : Prop :=
  ∃ body, store[e.key]? = some body ∧ found.bodyBytes = .ok body ∧
    found = ⟨e.slot, encodeHex e.blockHash, encodeHex body⟩

/-- An extension of the peer's chain carries a body. -/
def CarriesBody (id : String) : Segment → Prop
  | .peerExtendsChain params => params.peerId = some id → params.blockBodyCbor.isSome
  | _ => True

/-- A run of a scenario whose extensions of the peer's chain all carry a body. -/
def RunsCarryingBodies (blake2b : List UInt8 → List UInt8) (id : String) (steps : List StepDef)
    (s s' : RunState) : Prop :=
  ∃ rest, Reaches (fun a s s' rest => Executes blake2b a s s' rest ∧ CarriesBody id a)
    (runSteps steps, s) (rest, s')

namespace Proof

/-! ## The invariant -/

/-- The chain's slots increase, and the bodies are those of the chain's entries. -/
structure BodiesAgree (ps : PeerState) : Prop where
  increasing : ps.chainEntries.Pairwise (·.slot < ·.slot)
  keys : ∀ key, key ∈ ps.blockStore ↔ key ∈ ps.chainEntries.map ChainEntry.key

theorem bodiesAgree_empty {ps : PeerState} (hchain : ps.chainEntries = [])
    (hstore : ps.blockStore = ∅) : BodiesAgree ps where
  increasing := by rw [hchain]; exact List.Pairwise.nil
  keys key := by rw [hchain, hstore]; simp

/-- Every entry is at or below the tip. -/
theorem BodiesAgree.le_tip {ps : PeerState} (h : BodiesAgree ps) {e : ChainEntry}
    (he : e ∈ ps.chainEntries) : ∃ tip, ps.chainTipSlot = some tip ∧ e.slot ≤ tip := by
  rcases List.eq_nil_or_concat ps.chainEntries with hnil | ⟨init, last, hinit⟩
  · rw [hnil] at he
    exact absurd he List.not_mem_nil
  · rw [List.concat_eq_append] at hinit
    refine ⟨last.slot, by rw [PeerState.chainTipSlot, hinit, List.getLast?_concat]; rfl, ?_⟩
    have hincreasing := h.increasing
    rw [hinit] at hincreasing he
    rcases List.mem_append.mp he with he | he
    · exact UInt64.le_of_lt ((List.pairwise_append.mp hincreasing).2.2 e he last
        List.mem_cons_self)
    · rw [List.mem_singleton.mp he]
      exact UInt64.le_refl _

/-- A header past the tip and its body, put together. -/
theorem BodiesAgree.append {ps : PeerState} (h : BodiesAgree ps) {entry : ChainEntry}
    (htip : ∀ tip, ps.chainTipSlot = some tip → tip < entry.slot) (body : List UInt8) :
    BodiesAgree { ps with
      chainEntries := ps.chainEntries ++ [entry]
      blockStore := ps.blockStore.insert entry.key body } where
  increasing := by
    refine List.pairwise_append.mpr ⟨h.increasing, List.pairwise_singleton _ _, ?_⟩
    intro e he e' he'
    rw [List.mem_singleton.mp he']
    obtain ⟨tip, ht, hle⟩ := h.le_tip he
    exact UInt64.lt_of_le_of_lt hle (htip tip ht)
  keys key := by
    rw [Std.ExtTreeMap.mem_insert, h.keys, List.map_append, List.mem_append,
      List.map_singleton, List.mem_singleton, Std.LawfulEqCmp.compare_eq_iff_eq, or_comm, eq_comm]

theorem BodiesAgree.produceSlot {blake2b : List UInt8 → List UInt8} {ps : PeerState}
    (h : BodiesAgree ps) (id kind : String) (ctx : RuleContext) (slot : UInt64) :
    BodiesAgree (produceSlot blake2b id kind ctx ps slot).1 := by
  unfold ConformanceHarness.produceSlot
  by_cases hcovers : ps.covers slot = true
  · rw [if_pos hcovers]
    exact h
  · rw [if_neg hcovers]
    -- the tip does not cover the slot, so the slot is past it
    have hpast : ∀ tip, ps.chainTipSlot = some tip →
        tip < (producedEntry blake2b id ctx ps slot).slot := by
      intro tip htip
      rw [PeerState.covers, htip] at hcovers
      exact UInt64.not_le.mp fun hle => hcovers (decide_eq_true hle)
    exact h.append hpast [0xa0]

theorem BodiesAgree.produceSlots {blake2b : List UInt8 → List UInt8} {id kind : String}
    {ctx : RuleContext} {slots : List UInt64} : ∀ {ps : PeerState}, BodiesAgree ps →
      BodiesAgree (produceSlots blake2b id kind ctx ps slots).1 := by
  induction slots with
  | nil => intro ps h; exact h
  | cons slot rest ih =>
      intro ps h
      rw [produceSlots_cons]
      exact ih (h.produceSlot id kind ctx slot)

theorem BodiesAgree.producePeer {blake2b : List UInt8 → List UInt8} {old new : UInt64} {id : String}
    {ps ps' : PeerState} {events : List ProductionEvent} (h : BodiesAgree ps)
    (hp : producePeer blake2b old new id ps = some (ps', events)) : BodiesAgree ps' := by
  obtain ⟨task, -, heq⟩ := Option.map_eq_some_iff.mp hp
  cases task with
  | none =>
      obtain ⟨rfl, -⟩ := Prod.mk.inj heq
      exact h
  | some task =>
      have hfst := congrArg Prod.fst heq
      dsimp only at hfst
      rw [← hfst]
      exact h.produceSlots

/-! ## Every step of a run -/

/-- Of the peer's state, if it has one. -/
def PeerAgrees (id : String) (s : RunState) : Prop :=
  ∀ ps, s.peers id = some ps → BodiesAgree ps

theorem PeerAgrees.applyLocked {blake2b : List UInt8 → List UInt8} {order : List String}
    {id : String} {s s' : RunState} {old new : UInt64} (h : PeerAgrees id s)
    (horder : s.peers.IterOrder order) (happlied : applyLocked blake2b order s old new = some s') :
    PeerAgrees id s' := by
  obtain ⟨⟨peers', events⟩, hc, rfl⟩ := Option.map_eq_some_iff.mp happlied
  intro ps' hps'
  have hps' : peers' id = some ps' := hps'
  rcases hps : s.peers id with _ | ps
  · exact nomatch (applyProductionRules_none horder hc hps).1.symm.trans hps'
  · obtain ⟨ps'', evs, hp, hps'', -⟩ := applyProductionRules_peer horder hc hps
    obtain rfl := Option.some.inj (hps''.symm.trans hps')
    exact (h ps hps).producePeer hp

/-- What `peer_extends_chain` decodes: its peer, and a body if it carries one. -/
theorem decodeExtension_ok {params : StepParams} {id : String} {entry : ChainEntry}
    {body : Option (List UInt8)} (h : decodeExtension params = .ok (id, entry, body)) :
    params.peerId = some id ∧ (params.blockBodyCbor.isSome → body.isSome) := by
  have hgives := decodeExtension_gives h
  refine ⟨hgives.peerId, fun hsome => ?_⟩
  obtain ⟨hex, hhex⟩ := Option.isSome_iff_exists.mp hsome
  obtain ⟨bytes, -, rfl⟩ := hgives.withBody hex hhex
  rfl

/-- Preserved by every segment that carries its body. -/
theorem peerAgrees_step {blake2b : List UInt8 → List UInt8} {id : String} {a : Segment}
    {s s' : RunState} {rest : Code Segment}
    (h : Executes blake2b a s s' rest ∧ CarriesBody id a) (hinv : PeerAgrees id s) :
    PeerAgrees id s' := by
  obtain ⟨hexec, hcarries⟩ := h
  cases a with
  | bookkeeping => rw [hexec.1]; exact hinv
  | substitute step => rw [hexec.1]; exact hinv
  | other =>
      obtain ⟨⟨vars, rfl⟩, -⟩ := hexec
      exact hinv
  | advanceToSlot params =>
      obtain ⟨order, horder, hexec⟩ := hexec
      split at hexec
      · exact hexec.elim
      · rw [hexec.1]; exact hinv
      · rename_i s'' hok
        obtain ⟨old, new, -, -, -, happlied⟩ := advanceToSlot_ok hok
        rw [hexec.1]
        have hinv' : PeerAgrees id { s with currentSlot := some new } := hinv
        exact hinv'.applyLocked horder happlied
  | tickSlots params =>
      obtain ⟨order, horder, hexec⟩ := hexec
      split at hexec
      · exact hexec.elim
      · rw [hexec.1]; exact hinv
      · rename_i s'' hok
        obtain ⟨old, count, -, -, happlied⟩ := tickSlots_ok hok
        rw [hexec.1]
        have hinv' : PeerAgrees id { s with currentSlot := some (old + count) } := hinv
        exact hinv'.applyLocked horder happlied
  | peerExtendsChain params =>
      simp only [Executes] at hexec
      split at hexec
      · rw [hexec.1]; exact hinv
      · rename_i s'' hok
        obtain ⟨other, entry, body, ps, hdecode, hps, htip, rfl⟩ := peerExtendsChain_ok hok
        rw [hexec.1]
        intro ps' hps'
        have hps' : s.peers.insert other (ps.extend entry body) id = some ps' := hps'
        by_cases hid : id = other
        · subst hid
          rw [PeerMap.insert_self] at hps'
          obtain rfl := Option.some.inj hps'
          obtain ⟨hpeer, hbody⟩ := decodeExtension_ok hdecode
          obtain ⟨bytes, rfl⟩ := Option.isSome_iff_exists.mp (hbody (hcarries hpeer))
          exact (hinv ps hps).append htip bytes
        · rw [PeerMap.insert_ne _ _ hid] at hps'
          exact hinv ps' hps'

/-! ## Reading a range -/

theorem blockKeyCmp_of_slot_lt {a b : UInt64 × List UInt8} (h : a.1 < b.1) :
    blockKeyCmp a b = .lt := by
  have hslot : compare a.1 b.1 = .lt := by
    show compareOfLessAndEq a.1 b.1 = .lt
    rw [compareOfLessAndEq, if_pos h]
  rw [blockKeyCmp, compareLex, compareOn, hslot]
  rfl

/-- The map iterates in the order of the chain. -/
theorem BodiesAgree.keys_eq {ps : PeerState} (h : BodiesAgree ps) :
    ps.blockStore.keys = ps.chainEntries.map ChainEntry.key := by
  have hasymm : Std.Asymm fun a b => blockKeyCmp a b = .lt := ⟨fun a b hab hba => by
    have hswap : blockKeyCmp a b = (blockKeyCmp b a).swap := Std.OrientedCmp.eq_swap
    rw [hab, hba] at hswap
    exact nomatch hswap⟩
  refine List.Pairwise.eq_of_mem_iff Std.ExtTreeMap.ordered_keys ?_ fun key => ?_
  · exact List.pairwise_map.mpr (h.increasing.imp blockKeyCmp_of_slot_lt)
  · rw [Std.ExtTreeMap.mem_keys, h.keys]

/-- A peer's fixture has the block of every entry, in the order of the chain. -/
theorem BodiesAgree.blocks {ps : PeerState} (h : BodiesAgree ps) :
    List.Forall₂ (IsBlockOf ps.blockStore) ps.chainEntries ps.toBlockFixtureChain.entries := by
  have hkeys : List.Forall₂ (fun e b => ChainEntry.key e = b.1) ps.chainEntries
      ps.blockStore.toList := by
    have heq : ps.chainEntries.map ChainEntry.key = ps.blockStore.toList.map Prod.fst := by
      rw [Std.ExtTreeMap.map_fst_toList_eq_keys, h.keys_eq]
    have hall := List.forall₂_eq_eq_eq.symm ▸ heq
    exact List.forall₂_map_right_iff.mp (List.forall₂_map_left_iff.mp hall)
  obtain ⟨hlength, hzip⟩ := List.forall₂_iff_zip.mp hkeys
  refine List.forall₂_map_right_iff.mpr (List.forall₂_iff_zip.mpr ⟨hlength, ?_⟩)
  intro e block hmem
  obtain ⟨⟨slot, hash⟩, body⟩ := block
  have hkey : e.key = (slot, hash) := hzip hmem
  have hstored := Std.ExtTreeMap.mem_toList_iff_getElem?_eq_some.mp (List.of_mem_zip hmem).2
  obtain ⟨rfl, rfl⟩ := Prod.mk.inj hkey
  exact ⟨body, hstored, decodePairsLenient_encodeHex body, rfl⟩

/-- The block of an entry has the point of the entry. -/
theorem BodiesAgree.point {ps : PeerState} (h : BodiesAgree ps) {n : Nat}
    (hn : n < ps.chainEntries.length) (hn' : n < ps.toBlockFixtureChain.entries.length) :
    ps.toBlockFixtureChain.entries[n].point = .ok ps.chainEntries[n].point := by
  obtain ⟨body, -, -, heq⟩ := h.blocks.get hn hn'
  rw [List.get_eq_getElem, List.get_eq_getElem] at heq
  rw [heq]
  exact point_eq_specific.mpr ⟨rfl, decodePairsLenient_encodeHex _⟩

theorem BodiesAgree.legible {ps : PeerState} (h : BodiesAgree ps) (p : Point) :
    ps.toBlockFixtureChain.Legible p := by
  refine legible_of_readable (fun b hb => ?_) p
  obtain ⟨n, hn, rfl⟩ := List.getElem_of_mem hb
  exact ⟨_, (point_eq_specific.mp (h.point (h.blocks.length_eq ▸ hn) hn)).2⟩

/-- An entry's block is the first at its point, as the slots increase. -/
theorem BodiesAgree.firstBlock {ps : PeerState} (h : BodiesAgree ps) {i : Nat} {e : ChainEntry}
    (he : ps.chainEntries[i]? = some e) : ps.toBlockFixtureChain.FirstBlock e.point i := by
  obtain ⟨hlt, rfl⟩ := List.getElem?_eq_some_iff.mp he
  have hlt' : i < ps.toBlockFixtureChain.entries.length := h.blocks.length_eq ▸ hlt
  refine ⟨⟨_, List.getElem?_eq_getElem hlt', h.point hlt hlt'⟩, fun b hb hat => ?_⟩
  obtain ⟨n, hn, rfl⟩ := List.mem_take_iff_getElem.mp hb
  have hni : n < i := Nat.lt_of_lt_of_le hn (Nat.min_le_left ..)
  rw [h.point (Nat.lt_trans hni hlt) (Nat.lt_trans hni hlt')] at hat
  have hslot := (Point.specific.inj (Except.ok.inj hat)).1
  exact UInt64.lt_irrefl _ (hslot ▸ List.pairwise_iff_getElem.mp h.increasing n i _ hlt hni)

theorem BodiesAgree.findRange {ps : PeerState} (h : BodiesAgree ps) {i j : Nat}
    {first last : ChainEntry} (hij : i ≤ j) (hfirst : ps.chainEntries[i]? = some first)
    (hlast : ps.chainEntries[j]? = some last) :
    ps.toBlockFixtureChain.findRange first.point last.point =
      .ok (some ((ps.toBlockFixtureChain.entries.take (j + 1)).drop i)) :=
  findRange_found (findEntryIdx_first (h.legible _) (h.firstBlock hfirst))
    (findEntryIdx_first (h.legible _) (h.firstBlock hlast)) hij

/-- **Header and body serving agree.** However a peer's chain has grown, by production or
by extensions with a body, the blocks from one entry to another are those of the entries
between, each once and in the order of the chain. -/
theorem range_of_entries {blake2b : List UInt8 → List UInt8} {id : String} {steps : List StepDef}
    {startSlot : Option UInt64} {peers : PeerMap} {vars : VarStore} {s : RunState}
    (h : RunsCarryingBodies blake2b id steps (RunState.initial startSlot peers vars) s)
    (hempty : ∀ ps, peers id = some ps → ps.chainEntries = [] ∧ ps.blockStore = ∅)
    {ps : PeerState} (hps : s.peers id = some ps) {i j : Nat} {first last : ChainEntry}
    (hij : i ≤ j) (hfirst : ps.chainEntries[i]? = some first)
    (hlast : ps.chainEntries[j]? = some last) :
    ∃ found, ps.toBlockFixtureChain.findRange first.point last.point = .ok (some found) ∧
      List.Forall₂ (IsBlockOf ps.blockStore) ((ps.chainEntries.take (j + 1)).drop i) found := by
  obtain ⟨rest, hreach⟩ := h
  have hagrees : PeerAgrees id s :=
    hreach.invariant (fun a s s' rest hs hi => peerAgrees_step hs hi)
      fun ps hps => bodiesAgree_empty (hempty ps hps).1 (hempty ps hps).2
  have hbodies := hagrees ps hps
  refine ⟨_, hbodies.findRange hij hfirst hlast, ?_⟩
  exact List.forall₂_drop i (List.forall₂_take (j + 1) hbodies.blocks)

/-! ## A scenario of one extension -/

/-- `peer_extends_chain` with a body. -/
def extendOnce : StepDef := .peerExtendsChain (.object [("peer_id", .string "p"),
  ("slot", .number (.unsigned 3)), ("block_number", .number (.unsigned 0)),
  ("block_hash", .string (String.ofList (List.replicate 64 'a'))),
  ("header_cbor", .string "a0"), ("block_body_cbor", .string "a1")])

/-- A network of one peer without a rule. -/
def idlePeers : PeerMap := PeerMap.insert (fun _ => none) "p" PeerState.new

/-- The entry the extension appends. -/
def extendedEntry : ChainEntry := ⟨3, List.replicate 32 0xaa, 0, [0xa0], defaultHeaderVariant⟩

/-- The peer after it. -/
def extendedPeer : PeerState := PeerState.new.extend extendedEntry (some [0xa1])

theorem extendOnce_runs (blake2b : List UInt8 → List UInt8) :
    RunsCarryingBodies blake2b "p" [extendOnce] (RunState.initial (some 5) idlePeers fun _ => none)
      { RunState.initial (some 5) idlePeers fun _ => none with
        peers := idlePeers.insert "p" extendedPeer } := by
  let afterExtension : Code Segment :=
    .seq (.seq (.seq .done (.act .bookkeeping)) (.act .bookkeeping)) .done
  refine ⟨afterExtension, ?_⟩
  refine .head (.seqStep (.seqStep (.act ⟨⟨rfl, Or.inl rfl⟩, trivial⟩))) ?_
  refine .head (.seqStep .seqDone) ?_
  refine .head (.seqStep (.act ⟨⟨rfl, rfl⟩, trivial⟩)) ?_
  refine .head (.seqStep (.seqStep (.seqStep (.act ?_)))) .refl
  exact ⟨⟨rfl, rfl⟩, fun _ => rfl⟩

theorem range_of_entries_extended : ∃ found,
    extendedPeer.toBlockFixtureChain.findRange extendedEntry.point extendedEntry.point =
      .ok (some found) ∧
        List.Forall₂ (IsBlockOf extendedPeer.blockStore) [extendedEntry] found := by
  refine range_of_entries (extendOnce_runs fun bytes => bytes) (fun ps hps => ?_)
    (PeerMap.insert_self idlePeers "p" extendedPeer) (Nat.le_refl 0) rfl rfl
  obtain rfl := Option.some.inj hps
  exact ⟨rfl, rfl⟩

end Proof

end ConformanceHarness

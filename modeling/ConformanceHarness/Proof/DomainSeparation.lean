import ConformanceHarness.Proof.BlockOrigins
import ConformanceHarness.Proof.BlockHashes
import ConformanceHarness.Lib.Splits

/-!
# What production hashes, and for whom

`synthetic_hash` feeds a name, a slot and a previous hash to Blake2b, one after the other. The
slot has eight bytes and a previous hash thirty-two, so the bytes say which name, which slot and
which hash they are made of. The name is what does not say whose it is: a peer hashes its id, a
fork before its slot `first:interval:fork`, and after it a zero byte and the marker. A timing is
never a marked name, and says the timing it comes from; but an id may be either.
-/

namespace ConformanceHarness.Proof

open ConformanceHarness Lib
open ConformanceHarness.Concurrent (AllSized HashesSized applyLocked_sized decodeHex_length
  sized_insert)

/-! ## Names -/

/-- Whose block is hashed. -/
inductive Origin where
  | peer (id : String)
  | preFork (firstSlot interval forkSlot : UInt64)
  | postFork (forkMarker : String)
deriving DecidableEq

/-- The name that is hashed. -/
def Origin.name : Origin → String
  | peer id => id
  | preFork firstSlot interval forkSlot => canonicalRoot firstSlot interval forkSlot
  | postFork forkMarker => "\x00" ++ forkMarker

/-- Whose block a peer produces at a slot. -/
def originOf (id : String) : ProductionRule → UInt64 → Origin
  | .forkedFromSlot firstSlot interval forkSlot forkMarker, slot =>
    if slot < forkSlot then .preFork firstSlot interval forkSlot else .postFork forkMarker
  | _, _ => .peer id

/-- A peer that is no fork has a fork's name for its id. -/
def Origin.TakesNameOf : Origin → Origin → Prop
  | peer id, preFork firstSlot interval forkSlot => id = canonicalRoot firstSlot interval forkSlot
  | peer id, postFork forkMarker => id = "\x00" ++ forkMarker
  | _, _ => False

theorem hashInputs_name {rule : ProductionRule} {ctx : RuleContext} {id : String} {slot : UInt64}
    {prev : List UInt8} (h : ruleContext rule = some ctx) :
    (hashInputs ctx id slot prev).1 = (originOf id rule slot).name := by
  cases rule with
  | forkedFromSlot first interval fork marker =>
      obtain rfl := Option.some.inj h
      rw [hashInputs, originOf]
      split <;> rfl
  | brokenPrevHash first interval brk wrong =>
      rw [ruleContext] at h
      split at h
      · obtain rfl := Option.some.inj h
        rw [hashInputs]
        split <;> rfl
      · obtain rfl := Option.some.inj h
        rw [hashInputs]
        split <;> rfl
      · cases h
  | none => obtain rfl := Option.some.inj h; rfl
  | everyNSlots first interval => obtain rfl := Option.some.inj h; rfl
  | atSlots slots => obtain rfl := Option.some.inj h; rfl
  | skipsSlots first interval skips => obtain rfl := Option.some.inj h; rfl

theorem canonicalRoot_toList (first interval fork : UInt64) :
    (canonicalRoot first interval fork).toList = Nat.toDigits 10 first.toNat ++ ':' ::
      (Nat.toDigits 10 interval.toNat ++ ':' :: Nat.toDigits 10 fork.toNat) := by
  have hdigits : ∀ a : UInt64, (toString a).toList = Nat.toDigits 10 a.toNat :=
    fun a => Nat.toList_repr
  have hcolon : (":" : String).toList = [':'] := rfl
  show (toString first ++ ":" ++ toString interval ++ ":" ++ toString fork).toList = _
  simp only [String.toList_append, hdigits, hcolon, List.append_assoc, List.cons_append,
    List.nil_append]

theorem colon_not_digit (n : Nat) : ':' ∉ Nat.toDigits 10 n := by
  intro h
  have := Nat.isDigit_of_mem_toDigits (by decide) (by decide) h
  exact absurd this (by decide)

theorem toDigits_inj {a b : UInt64} (h : Nat.toDigits 10 a.toNat = Nat.toDigits 10 b.toNat) :
    a = b := by
  have hval : a.toNat = b.toNat := by
    rw [← Nat.ofDigitChars_ten_toDigits (n := a.toNat), h, Nat.ofDigitChars_ten_toDigits]
  exact UInt64.toNat_inj.mp hval

/-- **A timing is read off its text**: the colons separate three numbers. -/
theorem canonicalRoot_inj {first interval fork first' interval' fork' : UInt64}
    (h : canonicalRoot first interval fork = canonicalRoot first' interval' fork') :
    first = first' ∧ interval = interval' ∧ fork = fork' := by
  have hlist := congrArg String.toList h
  rw [canonicalRoot_toList, canonicalRoot_toList] at hlist
  obtain ⟨hfirst, hrest⟩ := split_first hlist (colon_not_digit _) (colon_not_digit _)
  obtain ⟨hinterval, hfork⟩ := split_first hrest (colon_not_digit _) (colon_not_digit _)
  exact ⟨toDigits_inj hfirst, toDigits_inj hinterval, toDigits_inj hfork⟩

/-- A timing starts with a digit, a marked name does not. -/
theorem canonicalRoot_ne_marked {first interval fork : UInt64} {marker : String} :
    canonicalRoot first interval fork ≠ "\x00" ++ marker := by
  intro h
  have hlist := congrArg String.toList h
  rw [canonicalRoot_toList, String.toList_append] at hlist
  have hzero : ("\x00" : String).toList = [Char.ofNat 0] := rfl
  rw [hzero, List.singleton_append] at hlist
  cases hdigits : Nat.toDigits 10 first.toNat with
  | nil => exact Nat.toDigits_ne_nil hdigits
  | cons d rest =>
      rw [hdigits, List.cons_append] at hlist
      have hdigit : d.isDigit := Nat.isDigit_of_mem_toDigits (by decide) (by decide)
        (hdigits ▸ List.mem_cons_self)
      rw [(List.cons.inj hlist).1] at hdigit
      exact absurd hdigit (by decide)

/-- **A name says whose it is**, unless a peer has taken a fork's name. -/
theorem Origin.name_eq_iff {o o' : Origin} :
    o.name = o'.name ↔ o = o' ∨ o.TakesNameOf o' ∨ o'.TakesNameOf o := by
  cases o with
  | peer id =>
      cases o' with
      | peer id' => simp [name, TakesNameOf]
      | preFork first interval fork => simp [name, TakesNameOf]
      | postFork marker => simp [name, TakesNameOf]
  | preFork first interval fork =>
      cases o' with
      | peer id => simpa [name, TakesNameOf] using eq_comm
      | preFork first' interval' fork' =>
          simp only [name, TakesNameOf, or_false, preFork.injEq]
          refine ⟨canonicalRoot_inj, ?_⟩
          rintro ⟨rfl, rfl, rfl⟩
          rfl
      | postFork marker =>
          simpa [name, TakesNameOf] using canonicalRoot_ne_marked
  | postFork marker =>
      cases o' with
      | peer id => simpa [name, TakesNameOf] using eq_comm
      | preFork first interval fork =>
          simpa [name, TakesNameOf] using canonicalRoot_ne_marked.symm
      | postFork marker' =>
          simp only [name, TakesNameOf, or_false, postFork.injEq]
          refine ⟨fun h => ?_, fun h => by rw [h]⟩
          have hbytes := congrArg strBytes h
          rw [strBytes_append, strBytes_append] at hbytes
          exact strBytes_inj (List.append_cancel_left hbytes)

/-! ## The bytes that are hashed -/

/-- **A slot reads back from its bytes.** -/
theorem bigEndian_toBeBytes (v : UInt64) : bigEndian (toBeBytes v) = v.toNat := by
  have hv := v.toNat_lt
  have hlow : v.toUInt8.toNat = v.toNat % 256 := UInt64.toNat_toUInt8 v
  have htop : v.toNat / 2 ^ 56 % 256 = v.toNat / 2 ^ 56 := Nat.mod_eq_of_lt (by omega)
  simp only [bigEndian, toBeBytes, List.foldl_cons, List.foldl_nil, Nat.zero_mul, Nat.zero_add,
    top_byte_toNat v 56 (by decide), top_byte_toNat v 48 (by decide), top_byte_toNat v 40 (by decide),
    top_byte_toNat v 32 (by decide), top_byte_toNat v 24 (by decide), top_byte_toNat v 16 (by decide),
    top_byte_toNat v 8 (by decide), hlow, UInt64.reduceToNat]
  rw [htop, next_byte v.toNat rfl, next_byte v.toNat rfl, next_byte v.toNat rfl,
    next_byte v.toNat rfl, next_byte v.toNat rfl, next_byte v.toNat rfl, last_byte]

/-- **Name, slot and previous hash are read off the bytes**, if the hashes have one length. -/
theorem hashInput_inj {name name' : String} {slot slot' : UInt64} {prev prev' : List UInt8}
    (hlen : prev.length = prev'.length) :
    hashInput name slot prev = hashInput name' slot' prev' ↔
      name = name' ∧ slot = slot' ∧ prev = prev' := by
  constructor
  · intro h
    obtain ⟨hfront, hprev⟩ := List.append_inj' h hlen
    obtain ⟨hname, hslot⟩ := List.append_inj' hfront rfl
    have hval := congrArg bigEndian hslot
    rw [bigEndian_toBeBytes, bigEndian_toBeBytes] at hval
    exact ⟨strBytes_inj hname, UInt64.toNat_inj.mp hval, hprev⟩
  · rintro ⟨rfl, rfl, rfl⟩
    rfl

/-! ## The blocks of a run -/

section

variable {blake2b : List UInt8 → List UInt8} {start : Option UInt64} {peers : PeerMap}
  {vars : VarStore} {steps : List StepDef} {c : Code Segment} {s s' : RunState}

/-- Block `e`, produced by peer `id`, was hashed over `name`, its slot and `prev`, and is the block
of `origin`. -/
structure HashedFor (blake2b : List UInt8 → List UInt8) (s : RunState) (id : String)
    (e : ChainEntry) (name : String) (prev : List UInt8) (origin : Origin) : Prop where
  produced : e ∈ s.produced id
  hash : e.blockHash = syntheticHash blake2b name e.slot prev
  inputs : ∃ ps rule ctx before after, s.peers id = some ps ∧ ps.productionRule = some rule ∧
    ruleContext rule = some ctx ∧ ps.chainEntries = before ++ e :: after ∧
    name = (hashInputs ctx id e.slot (prevHash before)).1 ∧
    prev = (hashInputs ctx id e.slot (prevHash before)).2.1 ∧ origin = originOf id rule e.slot

/-- **Every produced block was hashed for somebody.** -/
theorem AllBuilt.hashedFor (h : AllBuilt blake2b s) {id : String} {e : ChainEntry}
    (he : e ∈ s.produced id) : ∃ name prev origin, HashedFor blake2b s id e name prev origin := by
  have hid := h id
  cases hps : s.peers id with
  | none =>
      rw [hps] at hid
      rw [hid.2] at he
      exact nomatch he
  | some ps =>
      rw [hps] at hid
      obtain ⟨event, -, hbuilt⟩ := forall₂_mem_right hid he
      obtain ⟨rule, ctx, hrule, hctx, -, before, after, hchain, hhash, -⟩ := hbuilt
      exact ⟨_, _, _, he, hhash, ps, rule, ctx, before, after, hps, hrule, hctx, hchain, rfl, rfl,
        rfl⟩

/-- The entry an explicit extension appends has a hash of 32 bytes. -/
def ExtendsSized : Segment → Prop
  | .peerExtendsChain params => ∀ id entry body, decodeExtension params = .ok (id, entry, body) →
    entry.blockHash.length = 32
  | _ => True

variable (blake2b) in
/-- A segment whose explicit extension, if it is one, carries a hash of 32 bytes. -/
abbrev ExecutesSized (a : Segment) (s s' : RunState) (rest : Code Segment) : Prop :=
  Executes blake2b a s s' rest ∧ ExtendsSized a

theorem hashesSized_step (hlen : ∀ input, (blake2b input).length = 32) {a : Segment}
    {rest : Code Segment} (h : ExecutesSized blake2b a s s' rest) (hinv : HashesSized s) :
    HashesSized s' := by
  obtain ⟨hexec, hsized⟩ := h
  rcases Executes.cases hexec with ⟨vars, heq⟩ | ⟨params, id, entry, body, ps, ha, -, hdecode, hps,
    heq⟩ | ⟨order, old, new, horder, hmoved⟩
  · rw [heq]
    exact hinv
  · rw [ha] at hsized
    rw [heq]
    refine sized_insert (fun e he => ?_) hinv
    rcases List.mem_append.mp he with he | he
    · exact hinv id ps hps e he
    · rw [List.mem_singleton.mp he]
      exact hsized id entry body hdecode
  · exact applyLocked_sized hlen horder hmoved hinv

/-- What a run keeps: each peer has the rule it was declared with, and the hashes have 32 bytes. -/
structure SizedRun (blake2b : List UInt8 → List UInt8) (peers : PeerMap) (s : RunState) : Prop where
  rules : SameRules peers s.peers
  sized : HashesSized s
  built : AllBuilt blake2b s

theorem sizedRun_step (hlen : ∀ input, (blake2b input).length = 32) {a : Segment}
    {rest : Code Segment} (h : ExecutesSized blake2b a s s' rest)
    (hinv : SizedRun blake2b peers s) : SizedRun blake2b peers s' where
  rules := by
    rcases Executes.cases h.1 with ⟨vars, heq⟩ | ⟨params, id, entry, body, ps, -, -, -, hps, heq⟩ |
      ⟨order, old, new, horder, hmoved⟩
    · rw [heq]
      exact hinv.rules
    · rw [heq]
      exact hinv.rules.extended hps entry body
    · obtain ⟨⟨peers', events⟩, hc, rfl⟩ := Option.map_eq_some_iff.mp hmoved
      exact hinv.rules.applied horder hc
  sized := hashesSized_step hlen h hinv.sized
  built := allBuilt_step h.1 hinv.built

theorem sizedRun_initial (hempty : ∀ id ps, peers id = some ps → ps.chainEntries = []) :
    SizedRun blake2b peers (RunState.initial start peers vars) where
  rules := fun _ => rfl
  sized := fun id ps hps e he => by
    rw [hempty id ps hps] at he
    exact nomatch he
  built := allBuilt_initial start peers vars

/-- A previous hash has 32 bytes: that of a block has, zeros have, and a `wrong_hash` that was
accepted has. -/
theorem HashedFor.prev_length {id : String} {e : ChainEntry} {name : String} {prev : List UInt8}
    {origin : Origin} (h : HashedFor blake2b s id e name prev origin)
    (hacc : AllAccepted peers start) (hrun : SizedRun blake2b peers s) : prev.length = 32 := by
  obtain ⟨ps, rule, ctx, before, after, hps, hrule, hctx, hchain, -, rfl, -⟩ := h.inputs
  have hprev : (prevHash before).length = 32 := by
    rcases List.eq_nil_or_concat' before with rfl | ⟨init, last, rfl⟩
    · exact List.length_replicate
    · rw [prevHash, List.getLast?_concat, Option.map_some, Option.getD_some]
      refine hrun.sized id ps hps last ?_
      rw [hchain]
      simp
  obtain ⟨ps₀, hps₀, hrule₀⟩ := hrun.rules.rule hps hrule
  have haccepted := hacc id ps₀ rule hps₀ hrule₀
  cases rule with
  | brokenPrevHash first interval brk wrong =>
      obtain ⟨hdouble, hdigits⟩ := Accepted.wrongHash haccepted
      obtain ⟨bytes, hbytes⟩ := decodeHex_of_digits hdouble hdigits
      have hlength : bytes.length = 32 := by
        have := decodeHex_length hbytes
        omega
      rw [ruleContext, hbytes] at hctx
      obtain rfl := Option.some.inj hctx
      rw [hashInputs]
      split
      · exact hlength
      · exact hprev
  | forkedFromSlot first interval fork marker =>
      obtain rfl := Option.some.inj hctx
      rw [hashInputs]
      split <;> exact hprev
  | none => obtain rfl := Option.some.inj hctx; exact hprev
  | everyNSlots first interval => obtain rfl := Option.some.inj hctx; exact hprev
  | atSlots slots => obtain rfl := Option.some.inj hctx; exact hprev
  | skipsSlots first interval skips => obtain rfl := Option.some.inj hctx; exact hprev

/-- Blocks of one peer are hashed for that peer, or for forks. -/
theorem originOf_takesNameOf {id : String} {rule : ProductionRule} {slot slot' : UInt64} :
    ¬ (originOf id rule slot).TakesNameOf (originOf id rule slot') := by
  cases rule with
  | forkedFromSlot first interval fork marker =>
      simp only [originOf]
      split <;> split <;> exact fun h => h
  | _ => exact fun h => h

/-- **Hash inputs are separated but for borrowed names.** In every run of a validated network that
starts from empty chains and whose explicit extensions carry hashes of 32 bytes, each produced
block was hashed for an origin, and for any two of them: equal inputs mean one slot, one previous
hash and one peer or one origin exactly if it is not the case that slot and previous hash agree
and one was produced under an id that is the name of the other, a fork's. -/
theorem domains_separate (hlen : ∀ input, (blake2b input).length = 32)
    (hempty : ∀ id ps, peers id = some ps → ps.chainEntries = []) (hacc : AllAccepted peers start)
    (h : Reaches (ExecutesSized blake2b) (runSteps steps, .initial start peers vars) (c, s)) :
    (∀ id e, e ∈ s.produced id → ∃ name prev origin, HashedFor blake2b s id e name prev origin) ∧
    ∀ id e name prev origin id' e' name' prev' origin',
      HashedFor blake2b s id e name prev origin → HashedFor blake2b s id' e' name' prev' origin' →
      ((hashInput name e.slot prev = hashInput name' e'.slot prev' →
          e.slot = e'.slot ∧ prev = prev' ∧ (id = id' ∨ origin = origin')) ↔
        ¬ (e.slot = e'.slot ∧ prev = prev' ∧
          (origin.TakesNameOf origin' ∨ origin'.TakesNameOf origin))) := by
  have hrun : SizedRun blake2b peers s :=
    h.invariant (fun _ _ _ _ hs hi => sizedRun_step hlen hs hi) (sizedRun_initial hempty)
  refine ⟨fun id e he => hrun.built.hashedFor he, ?_⟩
  intro id e name prev origin id' e' name' prev' origin' hblock hblock'
  have hinputs : hashInput name e.slot prev = hashInput name' e'.slot prev' ↔
      name = name' ∧ e.slot = e'.slot ∧ prev = prev' :=
    hashInput_inj ((hblock.prev_length hacc hrun).trans (hblock'.prev_length hacc hrun).symm)
  obtain ⟨ps, rule, ctx, _, _, hps, hrule, hctx, _, hname, _, rfl⟩ := hblock.inputs
  obtain ⟨ps', rule', ctx', _, _, hps', hrule', hctx', _, hname', _, rfl⟩ := hblock'.inputs
  rw [hinputs, hname, hname', hashInputs_name hctx, hashInputs_name hctx', Origin.name_eq_iff]
  constructor
  · rintro hsep ⟨hslot, hprev, htakes⟩
    obtain ⟨-, -, hsame⟩ := hsep ⟨Or.inr htakes, hslot, hprev⟩
    rcases hsame with rfl | hsame
    · -- one peer has one rule, so its blocks are forks or none is
      obtain rfl := Option.some.inj (hps.symm.trans hps')
      obtain rfl := Option.some.inj (hrule.symm.trans hrule')
      exact htakes.elim originOf_takesNameOf originOf_takesNameOf
    · rw [hsame] at htakes
      exact htakes.elim originOf_takesNameOf originOf_takesNameOf
  · rintro hapart ⟨hname, hslot, hprev⟩
    exact ⟨hslot, hprev, Or.inr (hname.resolve_right fun htakes => hapart ⟨hslot, hprev, htakes⟩)⟩

end

/-! ## A peer with the timing of a fork for its id -/

/-- An honest peer and a fork, both producing at slot 5. -/
def namesakes : List Peer :=
  [⟨"5:100:6", none, none, some (.everyNSlots 5 100), none⟩,
    ⟨"f", none, none, some (.forkedFromSlot 5 100 6 "m"), none⟩]

/-- The map they are initialised to. -/
def namesakePeers : PeerMap :=
  PeerMap.insert
    (PeerMap.insert (fun _ => none) "5:100:6"
      { PeerState.new with productionRule := some (.everyNSlots 5 100) })
    "f" { PeerState.new with productionRule := some (.forkedFromSlot 5 100 6 "m") }

/-- Blake2b-256 of `5:100:6`, slot 5 and 32 zero bytes: all that is hashed. -/
def namesakeDigest (_ : List UInt8) : List UInt8 :=
  [249, 22, 63, 31, 221, 99, 184, 240, 204, 128, 151, 239, 133, 196, 220, 5, 26, 39, 248, 9, 47,
    101, 196, 143, 44, 122, 253, 169, 149, 182, 82, 170]

theorem namesakePeers_iterOrder : namesakePeers.IterOrder ["5:100:6", "f"] := by
  refine ⟨by decide, fun id => ?_⟩
  by_cases hf : id = "f" <;> by_cases hroot : id = "5:100:6" <;>
    simp [namesakePeers, PeerMap.insert, hf, hroot]

theorem namesakePeers_eq {id : String} {ps : PeerState} (h : namesakePeers id = some ps) :
    ps = { PeerState.new with productionRule := some (.everyNSlots 5 100) } ∨
      ps = { PeerState.new with productionRule := some (.forkedFromSlot 5 100 6 "m") } := by
  rw [namesakePeers, PeerMap.insert, PeerMap.insert] at h
  split at h
  · exact Or.inr (Option.some.inj h).symm
  · split at h
    · exact Or.inl (Option.some.inj h).symm
    · cases h

theorem namesakePeers_empty (id : String) (ps : PeerState) (h : namesakePeers id = some ps) :
    ps.chainEntries = [] := by
  rcases namesakePeers_eq h with rfl | rfl <;> rfl

theorem namesakePeers_accepted : AllAccepted namesakePeers (some 0) := by
  intro id ps rule hps hrule pos
  rcases namesakePeers_eq hps with rfl | rfl <;>
    · obtain rfl := Option.some.inj hrule
      rfl

/-- Both peers after a tick to slot 7. -/
theorem namesakePeers_run : ∃ c s, applyLocked namesakeDigest ["5:100:6", "f"]
      (RunState.initial (some 7) namesakePeers fun _ => none) 0 7 = some s ∧
    Reaches (ExecutesSized namesakeDigest)
      (runSteps [tickSeven], .initial (some 0) namesakePeers fun _ => none) (c, s) := by
  obtain ⟨s, hs⟩ := Option.isSome_iff_exists.mp (show (applyLocked namesakeDigest ["5:100:6", "f"]
    (RunState.initial (some 7) namesakePeers fun _ => none) 0 7).isSome by rfl)
  obtain ⟨c, hreach⟩ := @tickSeven_allowed namesakeDigest (fun a _ => ExtendsSized a) _ _ _
    namesakePeers_iterOrder hs trivial trivial trivial
  exact ⟨c, s, hs, hreach⟩

theorem domains_separate_namesakes : ∃ s : RunState,
    (∀ id e, e ∈ s.produced id →
      ∃ name prev origin, HashedFor namesakeDigest s id e name prev origin) ∧
    ∀ id e name prev origin id' e' name' prev' origin',
      HashedFor namesakeDigest s id e name prev origin →
      HashedFor namesakeDigest s id' e' name' prev' origin' →
      ((hashInput name e.slot prev = hashInput name' e'.slot prev' →
          e.slot = e'.slot ∧ prev = prev' ∧ (id = id' ∨ origin = origin')) ↔
        ¬ (e.slot = e'.slot ∧ prev = prev' ∧
          (origin.TakesNameOf origin' ∨ origin'.TakesNameOf origin))) := by
  obtain ⟨c, s, -, hreach⟩ := namesakePeers_run
  exact ⟨s, domains_separate (fun _ => rfl) namesakePeers_empty namesakePeers_accepted hreach⟩

/-- **An honest block over a fork's input.** The network is accepted; at slot 5 both peers hash the
same bytes, and one block is honest while the other is a fork's. -/
theorem namesakes_share_an_input :
    (∀ scenario : Loader.Scenario, scenario.network = some ⟨namesakes, some 0⟩ →
      Loader.validateNetworkDeclaration scenario = []) ∧
    ∃ c s, Reaches (ExecutesSized namesakeDigest)
        (runSteps [tickSeven], .initial (some 0) namesakePeers fun _ => none) (c, s) ∧
      ∃ e e' name prev name' prev',
        HashedFor namesakeDigest s "5:100:6" e name prev (.peer "5:100:6") ∧
        HashedFor namesakeDigest s "f" e' name' prev' (.preFork 5 100 6) ∧
        hashInput name e.slot prev = hashInput name' e'.slot prev' := by
  constructor
  · intro scenario hnetwork
    rw [Loader.validateNetworkDeclaration, hnetwork]
    rfl
  · obtain ⟨c, s, hs, hreach⟩ := namesakePeers_run
    refine ⟨c, s, hreach, ?_⟩
    let honest := producedEntry namesakeDigest "5:100:6" .honest PeerState.new 5
    let forked := producedEntry namesakeDigest "f" (.forked 6 "m" "5:100:6") PeerState.new 5
    have hval : (applyLocked namesakeDigest ["5:100:6", "f"] (RunState.initial (some 7)
        namesakePeers fun _ => none) 0 7).map (fun s => (s.produced "5:100:6", s.produced "f",
          (s.peers "5:100:6").map fun ps => (ps.chainEntries, ps.productionRule),
          (s.peers "f").map fun ps => (ps.chainEntries, ps.productionRule))) =
        some ([honest], [forked], some ([honest], some (.everyNSlots 5 100)),
          some ([forked], some (.forkedFromSlot 5 100 6 "m"))) := rfl
    rw [hs] at hval
    obtain ⟨ha, hrest⟩ := Prod.mk.inj (Option.some.inj hval)
    obtain ⟨hb, hrest⟩ := Prod.mk.inj hrest
    obtain ⟨hpa, hpb⟩ := Prod.mk.inj hrest
    obtain ⟨ps, hps, hchain⟩ := Option.map_eq_some_iff.mp hpa
    obtain ⟨qs, hqs, hchain'⟩ := Option.map_eq_some_iff.mp hpb
    obtain ⟨hchain, hrule⟩ := Prod.mk.inj hchain
    obtain ⟨hchain', hrule'⟩ := Prod.mk.inj hchain'
    refine ⟨honest, forked, "5:100:6", zeroHash, "5:100:6", zeroHash, ?_, ?_, rfl⟩
    · refine ⟨?_, rfl, ps, _, .honest, [], [], hps, hrule, rfl, hchain, rfl, rfl, rfl⟩
      rw [ha]
      exact List.mem_singleton_self honest
    · refine ⟨?_, rfl, qs, _, forkContext 5 100 6 "m", [], [], hqs, hrule', rfl, hchain', rfl, rfl,
        rfl⟩
      rw [hb]
      exact List.mem_singleton_self forked

end ConformanceHarness.Proof

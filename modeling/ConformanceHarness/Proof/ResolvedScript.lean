import ConformanceHarness.Proof.Conversion
import ConformanceHarness.Proof.HexPairs
import ConformanceHarness.Proof.Substitution

/-!
# The script of a list of responses with references

`run_step` substitutes variables in a copy of a step's parameters, and the two steps
`serve_chain_sync` and `serve_block_fetch` take their list of responses from the
original. A list that can be read as it is written makes one script with and without
substitution exactly if none of the texts its rules consist of changes: conversion
forgets hex digits, but hex text has no reference in it.
-/

namespace ConformanceHarness

/-- One script, or none in both. -/
def SameScript (r r' : Except Fault (List ScriptRule)) : Prop := r.toOption = r'.toOption

/-- There is no script. -/
def NoScript (r : Except Fault (List ScriptRule)) : Prop := r.toOption = none

/-- The list can be read as it is written, and no text of its rules is changed by
substitution. -/
def ReadAsWritten (vars : VarStore) (responses : Value) : Prop :=
  ∃ rules, ruleDefsFromValue responses = some rules ∧
    ∀ rule ∈ rules, rule.substitute vars = some rule

namespace Proof

/-! ## Hex text has no reference in it -/

theorem hexBytes_of_hexPairs {signs : Prop} {text bytes : List UInt8}
    (h : HexPairs signs text bytes) : ∀ b ∈ text, b = 43 ∨ (hexDigit b).isSome := by
  induction h with
  | nil => exact fun b hb => absurd hb List.not_mem_nil
  | digits ha hb hrest ih =>
    exact List.forall_mem_cons.mpr ⟨.inr (Option.isSome_of_eq_some ha),
      List.forall_mem_cons.mpr ⟨.inr (Option.isSome_of_eq_some hb), ih⟩⟩
  | sign hsigns hb hrest ih =>
    exact List.forall_mem_cons.mpr ⟨.inl rfl,
      List.forall_mem_cons.mpr ⟨.inr (Option.isSome_of_eq_some hb), ih⟩⟩

/-- The bytes of a character are among those of the text. -/
theorem utf8_mem_strBytes {s : String} {c : Char} (h : c ∈ s.toList) {b : UInt8}
    (hb : b ∈ String.utf8EncodeChar c) : b ∈ strBytes s := by
  have hs := strBytes_ofList s.toList
  rw [String.ofList_toList] at hs
  rw [hs]
  exact List.mem_flatMap.mpr ⟨c, h, hb⟩

theorem plain_of_decodeHex {s : String} {bytes : List UInt8}
    (h : ResponseRules.decodeHex s = .ok bytes) : '$' ∉ s.toList := by
  intro hmem
  have hbyte : (36 : UInt8) ∈ strBytes s := utf8_mem_strBytes hmem (by decide)
  have hdigit := hexBytes_of_hexPairs (decodeHexWith_eq_ok.mp h) 36 hbyte
  revert hdigit
  decide

variable {vars : VarStore} {cs : Option FixtureChain} {bf : Option BlockFixtureChain}

theorem plain_of_decodeHexFor {what s : String} {bytes : List UInt8}
    (h : ResponseRules.decodeHexFor what s = .ok bytes) : '$' ∉ s.toList := by
  rw [ResponseRules.decodeHexFor] at h
  rcases hdecode : ResponseRules.decodeHex s with (_ | _) | bytes'
  · rw [hdecode] at h
    exact nomatch h
  · rw [hdecode] at h
    exact nomatch h
  · exact plain_of_decodeHex hdecode

theorem substituteString_plain {s : String} (h : '$' ∉ s.toList) :
    substituteString vars s = some s := by
  rw [substituteString, substituteText_plain h]

theorem substituteOptString_plain {s : String} (h : '$' ∉ s.toList) :
    substituteOptString vars (some s) = some (some s) := by
  rw [substituteOptString, substituteText_plain h]

/-! ## Conversion and substitution -/

/-- An optional text that was decoded is left as it is. -/
theorem headerCbor_unchanged {variant : Option UInt8} {idx : Option UInt64}
    {cbor : Option String} {source : HeaderSource}
    (h : convertHeaderSource cs variant idx cbor = .ok source) :
    substituteOptString vars cbor = some cbor := by
  rcases idx with _ | idx <;> rcases cbor with _ | hex
  · rfl
  · rw [convertHeaderSource] at h
    rcases hdecode : ResponseRules.decodeHexFor "header_cbor" hex with f | bytes
    · rw [hdecode] at h
      cases h
    · exact substituteOptString_plain (plain_of_decodeHexFor hdecode)
  · rfl
  · cases h

theorem blockCbor_unchanged {idx : Option UInt64} {cbor : Option String} {source : BlockSource}
    (h : convertBlockSource bf idx cbor = .ok source) :
    substituteOptString vars cbor = some cbor := by
  rcases idx with _ | idx <;> rcases cbor with _ | hex
  · rfl
  · rw [convertBlockSource] at h
    rcases hdecode : ResponseRules.decodeHexFor "block_cbor" hex with f | bytes
    · rw [hdecode] at h
      cases h
    · exact substituteOptString_plain (plain_of_decodeHexFor hdecode)
  · rfl
  · cases h

/-- **A send that converts to the same before and after is the same.** -/
theorem convertSendDef_unchanged {d d' : SendDef} {send : ScriptSend}
    (hsub : d.substitute vars = some d') (h : convertSendDef cs bf d = .ok send)
    (h' : convertSendDef cs bf d' = .ok send) : d' = d := by
  cases d with
  | rollForward idx cbor variant tip =>
    rw [SendDef.substitute] at hsub
    rw [convertSendDef] at h
    rcases hsource : convertHeaderSource cs variant idx cbor with f | source <;> rw [hsource] at h
    · cases h
    · rw [headerCbor_unchanged hsource, Option.bind_some] at hsub
      obtain ⟨tip', -, rfl⟩ := Option.map_eq_some_iff.mp hsub
      rw [convertSendDef, hsource] at h'
      obtain ⟨-, rfl⟩ := ScriptSend.rollForward.inj (Except.ok.inj (h.trans h'.symm))
      rfl
  | rollBackward point tip =>
    rw [SendDef.substitute] at hsub
    obtain ⟨point', -, hsub⟩ := Option.bind_eq_some_iff.mp hsub
    obtain ⟨tip', -, rfl⟩ := Option.map_eq_some_iff.mp hsub
    obtain ⟨rfl, rfl⟩ := ScriptSend.rollBackward.inj (Except.ok.inj (h.trans h'.symm))
    rfl
  | intersectFound point tip =>
    rw [SendDef.substitute] at hsub
    obtain ⟨point', -, hsub⟩ := Option.bind_eq_some_iff.mp hsub
    obtain ⟨tip', -, rfl⟩ := Option.map_eq_some_iff.mp hsub
    obtain ⟨rfl, rfl⟩ := ScriptSend.intersectFound.inj (Except.ok.inj (h.trans h'.symm))
    rfl
  | intersectNotFound tip =>
    rw [SendDef.substitute] at hsub
    obtain ⟨tip', -, rfl⟩ := Option.map_eq_some_iff.mp hsub
    obtain rfl := ScriptSend.intersectNotFound.inj (Except.ok.inj (h.trans h'.symm))
    rfl
  | block idx cbor =>
    rw [SendDef.substitute] at hsub
    rw [convertSendDef] at h
    rcases hsource : convertBlockSource bf idx cbor with f | source <;> rw [hsource] at h
    · cases h
    · rw [blockCbor_unchanged hsource] at hsub
      exact (Option.some.inj hsub).symm
  | rawBytes hex =>
    rw [SendDef.substitute] at hsub
    rw [convertSendDef] at h
    rcases hdecode : ResponseRules.decodeHexFor "raw_bytes" hex with f | bytes
    · rw [hdecode] at h
      cases h
    · rw [substituteString_plain (plain_of_decodeHexFor hdecode)] at hsub
      exact (Option.some.inj hsub).symm
  | sendSequence sends => cases h
  | _ => exact (Option.some.inj hsub).symm

theorem except_map_ok {α β : Type} {f : α → β} {r : Except Fault α} {b : β}
    (h : r.map f = .ok b) : ∃ a, r = .ok a ∧ f a = b := by
  rcases r with e | a
  · exact nomatch h
  · exact ⟨a, rfl, Except.ok.inj h⟩

/-- The first send of a sequence that converts, and the others. -/
theorem convertSequence_cons {d : SendDef} {rest : List SendDef} {i : Nat}
    {sends : List ScriptSend} (h : convertSequence cs bf i (d :: rest) = .ok sends) :
    ∃ send others, sends = send :: others ∧ convertSendDef cs bf d = .ok send ∧
      convertSequence cs bf (i + 1) rest = .ok others := by
  rw [convertSequence] at h
  by_cases hseq : d.isSequence
  · rw [if_pos hseq] at h
    cases h
  · rw [if_neg hseq] at h
    rcases hsend : convertSendDef cs bf d with f | send <;> rw [hsend] at h
    · cases h
    · dsimp only at h
      rcases hrest : convertSequence cs bf (i + 1) rest with f | others <;> rw [hrest] at h
      · cases h
      · exact ⟨send, others, (Except.ok.inj h).symm, rfl, rfl⟩

theorem convertSequence_unchanged {ds ds' : List SendDef} {i : Nat} {sends : List ScriptSend}
    (hsub : SendDef.substituteList vars ds = some ds') (h : convertSequence cs bf i ds = .ok sends)
    (h' : convertSequence cs bf i ds' = .ok sends) : ds' = ds := by
  induction ds generalizing ds' i sends with
  | nil => exact (Option.some.inj hsub).symm
  | cons d rest ih =>
    rw [SendDef.substituteList] at hsub
    rcases hd : d.substitute vars with _ | d' <;> rw [hd] at hsub
    · cases hsub
    · rcases hrest : SendDef.substituteList vars rest with _ | rest' <;> rw [hrest] at hsub
      · cases hsub
      · obtain rfl := Option.some.inj hsub
        obtain ⟨send, others, hsends, hsend, hothers⟩ := convertSequence_cons h
        obtain ⟨send', others', hsends', hsend', hothers'⟩ := convertSequence_cons h'
        obtain ⟨rfl, rfl⟩ := List.cons.inj (hsends.symm.trans hsends')
        rw [convertSendDef_unchanged hd hsend hsend', ih hrest hothers hothers']

theorem substitute_isSequence {d d' : SendDef} (hsub : d.substitute vars = some d') :
    d'.isSequence = d.isSequence := by
  cases d with
  | rollForward idx cbor variant tip =>
    rw [SendDef.substitute] at hsub
    obtain ⟨_, -, hsub⟩ := Option.bind_eq_some_iff.mp hsub
    obtain ⟨_, -, rfl⟩ := Option.map_eq_some_iff.mp hsub
    rfl
  | rollBackward point tip =>
    rw [SendDef.substitute] at hsub
    obtain ⟨_, -, hsub⟩ := Option.bind_eq_some_iff.mp hsub
    obtain ⟨_, -, rfl⟩ := Option.map_eq_some_iff.mp hsub
    rfl
  | intersectFound point tip =>
    rw [SendDef.substitute] at hsub
    obtain ⟨_, -, hsub⟩ := Option.bind_eq_some_iff.mp hsub
    obtain ⟨_, -, rfl⟩ := Option.map_eq_some_iff.mp hsub
    rfl
  | _ =>
    -- one text, or several sends, or nothing to substitute
    rw [SendDef.substitute] at hsub
    first
    | exact (Option.some.inj hsub) ▸ rfl
    | (obtain ⟨_, -, rfl⟩ := Option.map_eq_some_iff.mp hsub; rfl)

theorem convertRuleSend_unchanged {d d' : SendDef} {send : ScriptSend}
    (hsub : d.substitute vars = some d') (h : convertRuleSend cs bf d = .ok send)
    (h' : convertRuleSend cs bf d' = .ok send) : d' = d := by
  by_cases hseq : d.isSequence
  · cases d with
    | sendSequence ds =>
      rw [SendDef.substitute] at hsub
      obtain ⟨ds', hds, rfl⟩ := Option.map_eq_some_iff.mp hsub
      obtain ⟨sends, hsends, rfl⟩ := except_map_ok h
      obtain ⟨sends', hsends', heq⟩ := except_map_ok h'
      obtain rfl := ScriptSend.sendSequence.inj heq
      rw [convertSequence_unchanged hds hsends hsends']
    | _ => exact nomatch hseq
  · have hseq' : ¬ d'.isSequence := by
      rw [substitute_isSequence hsub]
      exact hseq
    rw [convertRuleSend_single hseq] at h
    rw [convertRuleSend_single hseq'] at h'
    exact convertSendDef_unchanged hsub h h'

/-- The first rule of a script, and the others. -/
theorem convertRules_cons {step : String} {rule : ResponseRuleDef} {rest : List ResponseRuleDef}
    {i : Nat} {script : List ScriptRule}
    (h : convertRules step cs bf i (rule :: rest) = .ok script) :
    ∃ send others, script = { on := rule.on, send, repeatable := false } :: others ∧
      convertRuleSend cs bf rule.send = .ok send ∧
      convertRules step cs bf (i + 1) rest = .ok others := by
  rw [convertRules] at h
  rcases hrule : withContext s!"{step}: responses[{i}]" (ruleDefToScript cs bf rule) with f | r <;>
    rw [hrule] at h
  · cases h
  · dsimp only at h
    rcases hrest : convertRules step cs bf (i + 1) rest with f | others <;> rw [hrest] at h
    · cases h
    · obtain ⟨send, hsend, rfl⟩ := except_map_ok (withContext_eq_ok.mp hrule)
      exact ⟨send, others, (Except.ok.inj h).symm, hsend, rfl⟩

/-- **Rules that convert to one script before and after are the same.** -/
theorem convertRules_unchanged {step : String} {rules rules' : List ResponseRuleDef} {i : Nat}
    {script : List ScriptRule} (hsub : rules.mapM (·.substitute vars) = some rules')
    (h : convertRules step cs bf i rules = .ok script)
    (h' : convertRules step cs bf i rules' = .ok script) :
    ∀ rule ∈ rules, rule.substitute vars = some rule := by
  induction rules generalizing rules' i script with
  | nil => exact fun rule hrule => absurd hrule List.not_mem_nil
  | cons rule rest ih =>
    rw [List.mapM_cons] at hsub
    obtain ⟨rule', hrule, hsub⟩ := Option.bind_eq_some_iff.mp hsub
    obtain ⟨rest', hrest, hsub⟩ := Option.bind_eq_some_iff.mp hsub
    obtain rfl := Option.some.inj hsub
    obtain ⟨send, others, hscript, hsend, hothers⟩ := convertRules_cons h
    obtain ⟨send', others', hscript', hsend', hothers'⟩ := convertRules_cons h'
    obtain ⟨hfirst, rfl⟩ := List.cons.inj (hscript.symm.trans hscript')
    obtain ⟨-, rfl, -⟩ := ScriptRule.mk.inj hfirst
    intro r hr
    rcases List.mem_cons.mp hr with rfl | hr
    · obtain ⟨d, hd, rfl⟩ := Option.map_eq_some_iff.mp hrule
      rw [ResponseRuleDef.substitute, hd, convertRuleSend_unchanged hd hsend hsend']
      rfl
    · exact ih hrest hothers hothers' r hr

/-- Rules that substitution leaves alone are read again. -/
theorem mapM_unchanged {rules : List ResponseRuleDef}
    (h : ∀ rule ∈ rules, rule.substitute vars = some rule) :
    rules.mapM (·.substitute vars) = some rules := by
  induction rules with
  | nil => rfl
  | cons rule rest ih =>
    rw [List.mapM_cons, h rule List.mem_cons_self,
      ih fun r hr => h r (List.mem_cons_of_mem rule hr)]
    rfl

/-! ## The exact condition -/

/-- **One script with and without substitution**: exactly if the list can be read as it is
written and no text of it changes, or there is no script either way. -/
theorem explicitScript_sameScript_iff {responses responses' : Value}
    (h : Substituted vars responses responses') (step : String) (cs : Option FixtureChain)
    (bf : Option BlockFixtureChain) :
    SameScript (explicitScript step cs bf responses) (explicitScript step cs bf responses') ↔
      ReadAsWritten vars responses ∨
        NoScript (explicitScript step cs bf responses) ∧
          NoScript (explicitScript step cs bf responses') := by
  constructor
  · intro hsame
    rcases hscript : explicitScript step cs bf responses with f | script
    · rw [hscript] at hsame
      exact .inr ⟨rfl, hsame.symm⟩
    · left
      have hscript' : explicitScript step cs bf responses' = .ok script := by
        rw [SameScript, hscript] at hsame
        rcases hs : explicitScript step cs bf responses' with f | script' <;> rw [hs] at hsame
        · cases hsame
        · rw [Option.some.inj hsame]
      rw [explicitScript] at hscript hscript'
      rcases hrules : ruleDefsFromValue responses with _ | rules <;> rw [hrules] at hscript
      · cases hscript
      · have hsub := ruleDefs_substituted h hrules
        rcases hrules' : ruleDefsFromValue responses' with _ | rules' <;> rw [hrules'] at hscript'
        · cases hscript'
        · rw [hrules'] at hsub
          exact ⟨rules, hrules, convertRules_unchanged hsub.symm hscript hscript'⟩
  · intro hcond
    rcases hcond with ⟨rules, hrules, hunchanged⟩ | ⟨hnone, hnone'⟩
    · have hsub := ruleDefs_substituted h hrules
      rw [mapM_unchanged hunchanged] at hsub
      rw [SameScript, explicitScript, explicitScript, hrules, hsub]
    · rw [SameScript, hnone, hnone']

/-- The responses of the parameters, before and after. -/
theorem responses_substituted {raw resolved responses : Value} {refs : List (String × String)}
    (hsub : substituteInValue raw vars = .ok (resolved, refs))
    (hresponses : raw.getField "responses" = some responses) :
    ∃ responses', resolved.getField "responses" = some responses' ∧
      Substituted vars responses responses' := by
  cases raw with
  | object fields =>
    obtain ⟨fields', rfl, hfields⟩ := substituted_object ⟨refs, hsub⟩
    have hlookup := lookup_substituted hfields "responses"
    rw [show fields.lookup "responses" = some responses from hresponses] at hlookup
    rw [Value.getField]
    generalize fields'.lookup "responses" = found at hlookup
    cases hlookup with
    | some h => exact ⟨_, rfl, h⟩
  | _ => exact nomatch hresponses

/-- **The two serve steps execute the script of the substituted responses** exactly if the
responses can be read as they are written and no text of them changes, or there is no
script either way. -/
theorem serve_sameScript_iff {raw resolved responses : Value} {refs : List (String × String)}
    (hsub : substituteInValue raw vars = .ok (resolved, refs))
    (hresponses : raw.getField "responses" = some responses) :
    (∀ cs awaitSecs,
      let executed := ServeChainSync.script cs awaitSecs (raw.getField "responses")
      let substituted := ServeChainSync.script cs awaitSecs (resolved.getField "responses")
      SameScript executed substituted ↔
        ReadAsWritten vars responses ∨ NoScript executed ∧ NoScript substituted) ∧
    ∀ bf noBlocksDefault,
      let executed := ServeBlockFetch.script bf noBlocksDefault (raw.getField "responses")
      let substituted := ServeBlockFetch.script bf noBlocksDefault (resolved.getField "responses")
      SameScript executed substituted ↔
        ReadAsWritten vars responses ∨ NoScript executed ∧ NoScript substituted := by
  obtain ⟨responses', hresponses', h⟩ := responses_substituted hsub hresponses
  rw [hresponses, hresponses']
  exact ⟨fun cs _ => explicitScript_sameScript_iff h ServeChainSync.step cs none,
    fun bf _ => explicitScript_sameScript_iff h ServeBlockFetch.step none bf⟩

/-- Parameters with one response, whose tip has this point. -/
def tipResponse (point : String) : Value :=
  .object [("responses", .array [.object [("on", .string "find_intersect"),
    ("send", .object [("kind", .string "intersect_not_found"),
      ("tip", .object [("block_number", .number (.unsigned 5)), ("point", .string point)])])]])]

/-- A store with a tip. -/
def tipVars : VarStore := VarStore.insert (fun _ => none) "tip"
  (.object [("block_number", .number (.unsigned 5)), ("point", .string "62:aabb")])

/-- A response without a reference makes the same script. -/
theorem serve_sameScript_iff_origin :
    SameScript (ServeChainSync.script none 30 ((tipResponse "origin").getField "responses"))
      (ServeChainSync.script none 30 ((tipResponse "origin").getField "responses")) := by
  have hsub : substituteInValue (tipResponse "origin") tipVars = .ok (tipResponse "origin", []) :=
    rfl
  refine ((serve_sameScript_iff hsub rfl).1 none 30).mpr (.inl ⟨_, rfl, ?_⟩)
  intro rule hrule
  obtain rfl := List.mem_singleton.mp hrule
  rfl

/-- A response with a reference does not, although it resolves. -/
theorem reference_in_tip_unresolved :
    substituteInValue (tipResponse "$tip.point") tipVars =
      .ok (tipResponse "62:aabb", [("$tip.point", "string")]) ∧
    ¬ SameScript (ServeChainSync.script none 30 ((tipResponse "$tip.point").getField "responses"))
      (ServeChainSync.script none 30 ((tipResponse "62:aabb").getField "responses")) := by
  refine ⟨rfl, fun h => ?_⟩
  have hscript : ∀ point,
      (ServeChainSync.script none 30 ((tipResponse point).getField "responses")).toOption =
        some [⟨.findIntersect, .intersectNotFound (some ⟨point, 5⟩), false⟩] := fun _ => rfl
  rw [SameScript, hscript, hscript] at h
  simp at h

end Proof

end ConformanceHarness

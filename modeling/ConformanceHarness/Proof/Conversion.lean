import Mathlib.Data.List.Forall2
import ConformanceHarness.Runner.Serve
import ConformanceHarness.Proof.SessionRules

/-!
# Conversion only looks entries up

`rule_def_to_script` takes entries from the fixtures of a step and does not look into
them. So from fixtures whose entries are related one by one it makes scripts whose
sends are related in the same way, or fails with both.

With a relation that says something about one entry and itself, this says where the
entries of a script come from.
-/

namespace ConformanceHarness

open ConformanceHarness.Lib.Prog (SameEnd)

section Relations

variable (H : FixtureEntry → FixtureEntry → Prop) (B : BlockFixtureEntry → BlockFixtureEntry → Prop)

/-- Headers from related entries, or the same literal header. -/
inductive HeaderRel : HeaderSource → HeaderSource → Prop where
  | entry {e e' : FixtureEntry} (h : H e e') : HeaderRel (.fixtureEntry e) (.fixtureEntry e')
  | literal (cbor : List UInt8) (variant : UInt8) :
      HeaderRel (.literal cbor variant) (.literal cbor variant)

/-- Blocks from related entries, or the same literal block. -/
inductive BlockRel : BlockSource → BlockSource → Prop where
  | entry {e e' : BlockFixtureEntry} (h : B e e') : BlockRel (.fixtureEntry e) (.fixtureEntry e')
  | literal (bytes : List UInt8) : BlockRel (.literal bytes) (.literal bytes)

/-- A send without an entry, and without another send, in it. -/
def ScriptSend.IsPlain : ScriptSend → Prop
  | rollForward .. => False
  | block _ => False
  | streamBatch (.explicit _) => False
  | sendSequence _ => False
  | _ => True

/-- Sends that differ in the entries they refer to. -/
inductive SendRel : ScriptSend → ScriptSend → Prop where
  | rollForward {source source' : HeaderSource} (tip : Option TipSpec)
      (h : HeaderRel H source source') :
        SendRel (.rollForward source tip) (.rollForward source' tip)
  | block {source source' : BlockSource} (h : BlockRel B source source') :
      SendRel (.block source) (.block source')
  | stream {sources sources' : List BlockSource} (h : List.Forall₂ (BlockRel B) sources sources') :
      SendRel (.streamBatch (.explicit sources)) (.streamBatch (.explicit sources'))
  | plain (send : ScriptSend) (h : send.IsPlain) : SendRel send send

/-- The sends of two rules: two single ones, or two sequences. -/
inductive RuleSendRel : ScriptSend → ScriptSend → Prop where
  | single {send send' : ScriptSend} (h : SendRel H B send send') : RuleSendRel send send'
  | sequence {sends sends' : List ScriptSend} (h : List.Forall₂ (SendRel H B) sends sends') :
      RuleSendRel (.sendSequence sends) (.sendSequence sends')

/-- Rules that differ in the entries they refer to. -/
structure RuleRel (rule rule' : ScriptRule) : Prop where
  on : rule.on = rule'.on
  repeatable : rule.repeatable = rule'.repeatable
  send : RuleSendRel H B rule.send rule'.send

/-- Fixtures with related entries. -/
def FixtureRel (cs cs' : Option FixtureChain) : Prop :=
  Option.Rel (fun c c' => List.Forall₂ H c.entries c'.entries) cs cs'

/-- Block fixtures with related entries. -/
def BlockFixtureRel (bf bf' : Option BlockFixtureChain) : Prop :=
  Option.Rel (fun c c' => List.Forall₂ B c.entries c'.entries) bf bf'

end Relations

namespace Proof

variable {H : FixtureEntry → FixtureEntry → Prop} {B : BlockFixtureEntry → BlockFixtureEntry → Prop}

/-- The single sends of related rules are related. -/
theorem ruleSendRel_subSends {send send' : ScriptSend} (h : RuleSendRel H B send send') :
    List.Forall₂ (SendRel H B) send.subSends send'.subSends := by
  cases h with
  | sequence h => exact h
  | single h =>
    have hsingle : List.Forall₂ (SendRel H B) [send] [send'] := .cons h .nil
    cases h with
    | rollForward tip h => exact hsingle
    | block h => exact hsingle
    | stream h => exact hsingle
    | plain send h =>
      cases send with
      | sendSequence sends => exact h.elim
      | _ => exact hsingle

/-- Lookups by index find related entries, or nothing in both. -/
theorem forall₂_getElem? {α β : Type} {R : α → β → Prop} {l : List α} {l' : List β}
    (h : List.Forall₂ R l l') (i : Nat) : Option.Rel R l[i]? l'[i]? := by
  induction h generalizing i with
  | nil => exact .none
  | cons hab _ ih =>
    cases i with
    | zero => exact .some hab
    | succ i => exact ih i

variable {cs cs' : Option FixtureChain} {bf bf' : Option BlockFixtureChain}

theorem convertHeaderSource_rel (hcs : FixtureRel H cs cs') (variant : Option UInt8)
    (headerFromFixture : Option UInt64) (headerCbor : Option String) :
    SameEnd (HeaderRel H) (convertHeaderSource cs variant headerFromFixture headerCbor)
      (convertHeaderSource cs' variant headerFromFixture headerCbor) := by
  rcases headerFromFixture with _ | idx <;> rcases headerCbor with _ | hex
  · trivial
  · rw [convertHeaderSource, convertHeaderSource]
    rcases ResponseRules.decodeHexFor "header_cbor" hex with f | cbor
    · trivial
    · exact .literal cbor _
  · cases hcs with
    | none => trivial
    | @some chain chain' h =>
      have hentry := forall₂_getElem? h idx.toNat
      rw [convertHeaderSource, convertHeaderSource]
      generalize chain.entries[idx.toNat]? = entry at hentry
      generalize chain'.entries[idx.toNat]? = entry' at hentry
      cases hentry with
      | none => trivial
      | some h => exact .entry h
  · trivial

theorem convertBlockSource_rel (hbf : BlockFixtureRel B bf bf') (blockFromFixture : Option UInt64)
    (blockCbor : Option String) :
    SameEnd (BlockRel B) (convertBlockSource bf blockFromFixture blockCbor)
      (convertBlockSource bf' blockFromFixture blockCbor) := by
  rcases blockFromFixture with _ | idx <;> rcases blockCbor with _ | hex
  · trivial
  · rw [convertBlockSource, convertBlockSource]
    rcases ResponseRules.decodeHexFor "block_cbor" hex with f | bytes
    · trivial
    · exact .literal bytes
  · cases hbf with
    | none => trivial
    | @some chain chain' h =>
      have hentry := forall₂_getElem? h idx.toNat
      rw [convertBlockSource, convertBlockSource]
      generalize chain.entries[idx.toNat]? = entry at hentry
      generalize chain'.entries[idx.toNat]? = entry' at hentry
      cases hentry with
      | none => trivial
      | some h => exact .entry h
  · trivial

theorem resolveBlockIndices_rel {chain chain' : BlockFixtureChain}
    (h : List.Forall₂ B chain.entries chain'.entries) (n : Nat) (indices : List UInt64) :
    SameEnd (List.Forall₂ (BlockRel B)) (resolveBlockIndices chain n indices)
      (resolveBlockIndices chain' n indices) := by
  induction indices generalizing n with
  | nil => exact List.Forall₂.nil
  | cons idx rest ih =>
    have hentry := forall₂_getElem? h idx.toNat
    have hrest := ih (n + 1)
    rw [resolveBlockIndices, resolveBlockIndices]
    generalize chain.entries[idx.toNat]? = entry at hentry
    generalize chain'.entries[idx.toNat]? = entry' at hentry
    cases hentry with
    | none => trivial
    | some h =>
      dsimp only
      generalize resolveBlockIndices chain (n + 1) rest = r at hrest
      generalize resolveBlockIndices chain' (n + 1) rest = r' at hrest
      rcases r with _ | sources <;> rcases r' with _ | sources'
      · trivial
      · exact hrest.elim
      · exact hrest.elim
      · exact List.Forall₂.cons (.entry h) hrest

/-- Lists of sources, explicit or from the request. -/
def StreamRel (B : BlockFixtureEntry → BlockFixtureEntry → Prop) :
    StreamBatchSources → StreamBatchSources → Prop
  | .explicit sources, .explicit sources' => List.Forall₂ (BlockRel B) sources sources'
  | .fromRequest, .fromRequest => True
  | _, _ => False

theorem convertStreamSources_rel (hbf : BlockFixtureRel B bf bf')
    (blockIndices : Option (List UInt64)) (blockCountFromRequest : Option Bool) :
    SameEnd (StreamRel B) (convertStreamSources bf blockIndices blockCountFromRequest)
      (convertStreamSources bf' blockIndices blockCountFromRequest) := by
  rcases blockIndices with _ | indices
  · rcases blockCountFromRequest with _ | _ | _ <;> trivial
  · cases hbf with
    | none => trivial
    | some h => exact (resolveBlockIndices_rel h 0 indices).map fun _ _ hsources => hsources

/-- **A send that is no sequence.** -/
theorem convertSendDef_rel (hcs : FixtureRel H cs cs') (hbf : BlockFixtureRel B bf bf')
    (d : SendDef) : SameEnd (SendRel H B) (convertSendDef cs bf d) (convertSendDef cs' bf' d) := by
  cases d with
  | rollForward headerFromFixture headerCbor variant tip =>
    exact (convertHeaderSource_rel hcs variant headerFromFixture headerCbor).map fun _ _ h =>
      .rollForward tip h
  | block blockFromFixture blockCbor =>
    exact (convertBlockSource_rel hbf blockFromFixture blockCbor).map fun _ _ h => .block h
  | streamBatch blockIndices blockCountFromRequest =>
    refine (convertStreamSources_rel hbf blockIndices blockCountFromRequest).map ?_
    intro sources sources' h
    cases sources <;> cases sources'
    · exact .stream h
    · exact h.elim
    · exact h.elim
    · exact .plain _ trivial
  | rawBytes hex =>
    rw [convertSendDef, convertSendDef]
    rcases ResponseRules.decodeHexFor "raw_bytes" hex with f | bytes
    · trivial
    · exact .plain _ trivial
  | sendSequence sends => trivial
  | _ => exact .plain _ trivial

theorem convertSequence_rel (hcs : FixtureRel H cs cs') (hbf : BlockFixtureRel B bf bf')
    (i : Nat) (sends : List SendDef) :
    SameEnd (List.Forall₂ (SendRel H B)) (convertSequence cs bf i sends)
      (convertSequence cs' bf' i sends) := by
  induction sends generalizing i with
  | nil => exact List.Forall₂.nil
  | cons sub rest ih =>
    have hsend := convertSendDef_rel hcs hbf sub
    have hrest := ih (i + 1)
    rw [convertSequence, convertSequence]
    by_cases hseq : sub.isSequence
    · rw [if_pos hseq, if_pos hseq]
      trivial
    · rw [if_neg hseq, if_neg hseq]
      generalize convertSendDef cs bf sub = r at hsend
      generalize convertSendDef cs' bf' sub = r' at hsend
      rcases r with _ | send <;> rcases r' with _ | send'
      · trivial
      · exact hsend.elim
      · exact hsend.elim
      · dsimp only
        generalize convertSequence cs bf (i + 1) rest = r at hrest
        generalize convertSequence cs' bf' (i + 1) rest = r' at hrest
        rcases r with _ | sends <;> rcases r' with _ | sends'
        · trivial
        · exact hrest.elim
        · exact hrest.elim
        · exact List.Forall₂.cons hsend hrest

theorem convertRuleSend_single {d : SendDef} (h : ¬ d.isSequence) :
    convertRuleSend cs bf d = convertSendDef cs bf d := by
  cases d with
  | sendSequence sends => exact absurd rfl h
  | _ => rfl

theorem convertRuleSend_rel (hcs : FixtureRel H cs cs') (hbf : BlockFixtureRel B bf bf')
    (d : SendDef) :
    SameEnd (RuleSendRel H B) (convertRuleSend cs bf d) (convertRuleSend cs' bf' d) := by
  by_cases hseq : d.isSequence
  · cases d with
    | sendSequence sends =>
      exact (convertSequence_rel hcs hbf 0 sends).map fun _ _ h => .sequence h
    | _ => exact nomatch hseq
  · rw [convertRuleSend_single hseq, convertRuleSend_single hseq]
    exact (convertSendDef_rel hcs hbf d).imp fun _ _ h => .single h

theorem ruleDefToScript_rel (hcs : FixtureRel H cs cs') (hbf : BlockFixtureRel B bf bf')
    (rule : ResponseRuleDef) :
    SameEnd (RuleRel H B) (ruleDefToScript cs bf rule) (ruleDefToScript cs' bf' rule) :=
  (convertRuleSend_rel hcs hbf rule.send).map fun _ _ h => ⟨rfl, rfl, h⟩

theorem sameEnd_withContext {α β : Type} {A : α → β → Prop} {r : Except Fault α}
    {r' : Except Fault β} (h : SameEnd A r r') (context context' : String) :
    SameEnd A (withContext context r) (withContext context' r') := by
  rcases r with (_ | _) | a <;> rcases r' with (_ | _) | b <;> exact h

theorem convertRules_rel (hcs : FixtureRel H cs cs') (hbf : BlockFixtureRel B bf bf')
    (step : String) (i : Nat) (defs : List ResponseRuleDef) :
    SameEnd (List.Forall₂ (RuleRel H B)) (convertRules step cs bf i defs)
      (convertRules step cs' bf' i defs) := by
  induction defs generalizing i with
  | nil => exact List.Forall₂.nil
  | cons d rest ih =>
    have hrule := sameEnd_withContext (ruleDefToScript_rel hcs hbf d) s!"{step}: responses[{i}]"
      s!"{step}: responses[{i}]"
    have hrest := ih (i + 1)
    rw [convertRules, convertRules]
    generalize withContext s!"{step}: responses[{i}]" (ruleDefToScript cs bf d) = r at hrule
    generalize withContext s!"{step}: responses[{i}]" (ruleDefToScript cs' bf' d) = r' at hrule
    rcases r with _ | rule <;> rcases r' with _ | rule'
    · trivial
    · exact hrule.elim
    · exact hrule.elim
    · dsimp only
      generalize convertRules step cs bf (i + 1) rest = r at hrest
      generalize convertRules step cs' bf' (i + 1) rest = r' at hrest
      rcases r with _ | rules <;> rcases r' with _ | rules'
      · trivial
      · exact hrest.elim
      · exact hrest.elim
      · exact List.Forall₂.cons hrule hrest

/-- **Scripts of one list of responses, with related fixtures.** -/
theorem explicitScript_rel (hcs : FixtureRel H cs cs') (hbf : BlockFixtureRel B bf bf')
    (step : String) (responses : Value) :
    SameEnd (List.Forall₂ (RuleRel H B)) (explicitScript step cs bf responses)
      (explicitScript step cs' bf' responses) := by
  rw [explicitScript, explicitScript]
  rcases ruleDefsFromValue responses with _ | defs
  · trivial
  · exact convertRules_rel hcs hbf step 0 defs

/-- **Where the entries of a script come from.** -/
theorem explicitScript_entries {P : FixtureEntry → Prop} {Q : BlockFixtureEntry → Prop}
    (hcs : ∀ chain, cs = some chain → ∀ e ∈ chain.entries, P e)
    (hbf : ∀ chain, bf = some chain → ∀ e ∈ chain.entries, Q e) {step : String} {responses : Value}
    {rules : List ScriptRule} (h : explicitScript step cs bf responses = .ok rules) :
    ∀ rule ∈ rules, RuleRel (fun e _ => P e) (fun e _ => Q e) rule rule := by
  have hcs' : FixtureRel (fun e _ => P e) cs cs := by
    cases cs with
    | none => exact .none
    | some chain => exact .some (List.forall₂_same.mpr (hcs chain rfl))
  have hbf' : BlockFixtureRel (fun e _ => Q e) bf bf := by
    cases bf with
    | none => exact .none
    | some chain => exact .some (List.forall₂_same.mpr (hbf chain rfl))
  have hrel := explicitScript_rel hcs' hbf' step responses
  rw [h] at hrel
  exact List.forall₂_same.mp hrel

end Proof

end ConformanceHarness

import ConformanceHarness.Lib.Splits
import ConformanceHarness.Proof.StepRuns
import ConformanceHarness.Proof.TraceFile
import ConformanceHarness.Runner.Simulation

/-!
# How the branches of a parallel step end

A branch stores a flag and then emits its terminal event; the `parallel` step emits one for
every branch whose flags say nothing. A branch that is dropped in between has stored its flag,
so nobody reports it. This module counts the terminal events of a branch: there is one attempt
to emit such an event, unless the branch was dropped with a flag stored.
-/

namespace ConformanceHarness.Proof

open Lib Future Runner

/-! ## Terminal events -/

/-- The kinds of events that say how a branch has ended. -/
def isTerminalKind : EventKind → Bool
  | .parallelBranchCompleted => true
  | .parallelBranchFailed => true
  | .parallelBranchAborted => true
  | _ => false

/-- The branch index of an event. -/
def branchOf (event : TraceEvent) : Option UInt64 :=
  (event.payload.getField "branch").bind Value.asU64

/-- A terminal event for the branch `bi` of the `parallel` step at `p`, emitted by the branch or
by the step. -/
def isTerminal (p : Path) (bi : Nat) (e : Emitted) : Bool :=
  decide (e.path = p ∨ e.path = .branch bi :: p) && isTerminalKind e.event.kind &&
    decide (branchOf e.event = some (UInt64.ofNat bi))

/-- How many terminal events of the branch were emitted, whether they were written or not. -/
def terminals (p : Path) (bi : Nat) (record : Record) : Nat :=
  (emissions record).countP (isTerminal p bi)

/-- Whether the entry stores `completed` or `failed` for the branch at `q`. -/
def stores (q : Path) : Label runner → Bool
  | .did ⟨r, .storeCompleted⟩ _ => r = q
  | .did ⟨r, .storeFailed⟩ _ => r = q
  | _ => false

section

variable {p q : Path} {bi : Nat} {record record' : Record}

theorem terminals_append :
    terminals p bi (record ++ record') = terminals p bi record + terminals p bi record' := by
  rw [terminals, emissions, List.filterMap_append, List.countP_append]
  rfl

theorem terminals_cons {x : Label runner} : terminals p bi (x :: record) =
    (if (emitted x).any (isTerminal p bi) then 1 else 0) + terminals p bi record := by
  rw [terminals, emissions, List.filterMap_cons]
  rcases emitted x with _ | e
  · exact (Nat.zero_add _).symm
  · exact (List.countP_cons ..).trans (Nat.add_comm _ _)

/-- The flags of a branch are what has been stored. -/
theorem flagsOf_stored :
    ((flagsOf q record).1 || (flagsOf q record).2.1) = record.any (stores q) := by
  have hfold : ∀ flags : Flags, ((record.foldl (flagsStep q) flags).1 ||
      (record.foldl (flagsStep q) flags).2.1) =
        (flags.1 || flags.2.1 || record.any (stores q)) := by
    induction record with
    | nil => intro flags; exact (Bool.or_false _).symm
    | cons x rest ih =>
        intro flags
        rw [List.foldl_cons, ih, List.any_cons, ← Bool.or_assoc]
        congr 1
        rcases x with ⟨⟨r, call⟩, b⟩ | _
        · cases call with
          | storeCompleted => by_cases h : r = q <;> simp [flagsStep, stores, h]
          | storeFailed => by_cases h : r = q <;> simp [flagsStep, stores, h]
          | storeLastStep si => by_cases h : r = q <;> simp [flagsStep, stores, h]
          | _ => exact (Bool.or_false _).symm
        · exact (Bool.or_false _).symm
  exact hfold (false, false, 0)

/-- The entry has nothing to do with the end of the branch. -/
def Unrelated (p : Path) (bi : Nat) (x : Label runner) : Prop :=
  stores (.branch bi :: p) x = false ∧ (emitted x).any (isTerminal p bi) = false

theorem unrelated_of_place {x : Label runner} (hp : x.place ≠ p)
    (hq : x.place ≠ .branch bi :: p) : Unrelated p bi x := by
  rcases x with ⟨⟨r, call⟩, b⟩ | _
  · have hr : r ≠ p := hp
    have hr' : r ≠ .branch bi :: p := hq
    cases call with
    | emit event => exact ⟨rfl, by simp [emitted, isTerminal, hr, hr']⟩
    | storeCompleted => exact ⟨decide_eq_false hr', rfl⟩
    | storeFailed => exact ⟨decide_eq_false hr', rfl⟩
    | _ => exact ⟨rfl, rfl⟩
  · exact ⟨rfl, rfl⟩

theorem unrelated_emit {event : TraceEvent} {r : Except RunError Unit}
    (h : isTerminalKind event.kind = false) : Unrelated p bi (.did ⟨q, .emit event⟩ r) :=
  ⟨rfl, by simp [emitted, isTerminal, h]⟩

theorem unrelated_of_below {s : Seg} {x : Label runner}
    (h : AtOrBelow (s :: .branch bi :: p) x.place) :
    Unrelated p bi x := by
  have hlength := h.length_le
  rw [List.length_cons, List.length_cons] at hlength
  refine unrelated_of_place ?_ ?_
  · intro hplace
    rw [hplace] at hlength
    omega
  · intro hplace
    rw [hplace, List.length_cons] at hlength
    omega

theorem isTerminal_completed : isTerminal p bi ⟨.branch bi :: p, branchCompleted bi⟩ = true := by
  simp [isTerminal, isTerminalKind, branchCompleted, internal, branchOf, TraceEvent.new,
    Value.getField, Value.ofLen, Value.ofU64, Value.asU64]

theorem isTerminal_failed {si : Nat} {e : RunError} :
    isTerminal p bi ⟨.branch bi :: p, branchFailed bi si e⟩ = true := by
  simp [isTerminal, isTerminalKind, branchFailed, internal, branchOf, TraceEvent.new,
    Value.getField, Value.ofLen, Value.ofU64, Value.asU64]

theorem isTerminal_aborted {bj last : Nat} : isTerminal p bi ⟨p, branchAborted bj last⟩ =
    decide (UInt64.ofNat bj = UInt64.ofNat bi) := by
  simp [isTerminal, isTerminalKind, branchAborted, internal, branchOf, TraceEvent.new,
    Value.getField, Value.ofLen, Value.ofU64, Value.asU64]

theorem terminals_unrelated (h : ∀ x ∈ record, Unrelated p bi x) :
    record.any (stores (.branch bi :: p)) = false ∧ terminals p bi record = 0 := by
  induction record with
  | nil => exact ⟨rfl, rfl⟩
  | cons x rest ih =>
      obtain ⟨hstores, hterm⟩ := ih fun y hy => h y (List.mem_cons_of_mem _ hy)
      obtain ⟨hx, hx'⟩ := h x List.mem_cons_self
      rw [List.any_cons, hx, hstores, terminals_cons, hx', hterm]
      exact ⟨rfl, rfl⟩

end

/-! ## One branch -/

/-- What a branch can have recorded, and what is left of it. -/
inductive BranchEnd (p : Path) (bi : Nat) (record : Record) (c : Run) : Prop where
  | working (hstored : record.any (stores (.branch bi :: p)) = false)
      (hterm : terminals p bi record = 0) (hfin : c.finished = false)
  /-- It has stored a flag, and waits to emit the event. -/
  | reporting (hstored : record.any (stores (.branch bi :: p)) = true)
      (hterm : terminals p bi record = 0) (hfin : c.finished = false)
  | reported (hstored : record.any (stores (.branch bi :: p)) = true)
      (hterm : terminals p bi record = 1) (hfin : c.finished = true)
  /-- Its `ParallelBranchStarted` could not be written. -/
  | unstarted (hstored : record.any (stores (.branch bi :: p)) = false)
      (hterm : terminals p bi record = 0) (herr : c.failed = true)

theorem BranchEnd.prepend {p : Path} {bi : Nat} {record record' : Record} {c : Run}
    (h : BranchEnd p bi record c) (hquiet : ∀ x ∈ record', Unrelated p bi x) :
    BranchEnd p bi (record' ++ record) c := by
  obtain ⟨hstored', hterm'⟩ := terminals_unrelated hquiet
  have hany : (record' ++ record).any (stores (.branch bi :: p)) =
      record.any (stores (.branch bi :: p)) := by
    rw [List.any_append, hstored', Bool.false_or]
  have hcount : terminals p bi (record' ++ record) = terminals p bi record := by
    rw [terminals_append, hterm', Nat.zero_add]
  cases h with
  | working hstored hterm hfin => exact .working (hany.trans hstored) (hcount.trans hterm) hfin
  | reporting hstored hterm hfin => exact .reporting (hany.trans hstored) (hcount.trans hterm) hfin
  | reported hstored hterm hfin => exact .reported (hany.trans hstored) (hcount.trans hterm) hfin
  | unstarted hstored hterm herr => exact .unstarted (hany.trans hstored) (hcount.trans hterm) herr

section

variable {p : Path} {bi : Nat} {record : Record} {c : Run}

/-- The end of a branch: the flag, and then the event. -/
theorem branchEnd_report {store : Call} {b : store.Answer} {event : TraceEvent} {l : Record}
    (hstore : stores (.branch bi :: p) (.did ⟨.branch bi :: p, store⟩ b) = true)
    (hquiet : emitted (.did ⟨.branch bi :: p, store⟩ b) = none)
    (hevent : isTerminal p bi ⟨.branch bi :: p, event⟩ = true)
    (h : (l = [] ∧ c.finished = false) ∨
      ∃ r, l = [.did ⟨.branch bi :: p, .emit event⟩ r] ∧ c.finished = true) :
    BranchEnd p bi (.did ⟨.branch bi :: p, store⟩ b :: l) c := by
  have hstored : ∀ l : Record, List.any (.did ⟨.branch bi :: p, store⟩ b :: l)
      (stores (.branch bi :: p)) = true := by
    intro l
    rw [List.any_cons, hstore, Bool.true_or]
  rcases h with ⟨rfl, hfin⟩ | ⟨r, rfl, hfin⟩
  · refine .reporting (hstored _) ?_ hfin
    rw [terminals_cons, hquiet]
    rfl
  · refine .reported (hstored _) ?_ hfin
    rw [terminals_cons, hquiet, terminals_cons,
      show emitted (.did ⟨.branch bi :: p, .emit event⟩ r) =
      some ⟨.branch bi :: p, event⟩ from rfl, Option.any_some, hevent]
    rfl

theorem runBranch_unfinished (steps : List Runner.StepDef) (q : Path) (si : Nat) :
    (runBranch steps q bi si).finished = false := by
  cases steps with
  | nil => rfl
  | cons step rest =>
      rw [runBranch]
      rfl

theorem runBranch_end (steps : List Runner.StepDef) (si : Nat)
    (h : (runBranch steps (.branch bi :: p) bi si).Runs record c) : BranchEnd p bi record c := by
  induction steps generalizing record si with
  | nil =>
      rcases Runs.ask h with ⟨rfl, rfl⟩ | ⟨b, l, rfl, hrest⟩
      · exact .working rfl rfl rfl
      · refine branchEnd_report (decide_eq_true rfl) rfl isTerminal_completed ?_
        rcases emit_runs hrest with ⟨rfl, hfin⟩ | ⟨e, rfl, rfl⟩ | ⟨l', rfl, hk⟩
        · exact Or.inl ⟨rfl, hfin⟩
        · exact Or.inr ⟨_, rfl, rfl⟩
        · obtain ⟨rfl, rfl⟩ := Runs.ret hk
          exact Or.inr ⟨_, rfl, rfl⟩
  | cons step rest ih =>
      rw [runBranch] at h
      rcases Runs.ask h with ⟨rfl, rfl⟩ | ⟨b, l, rfl, hrest⟩
      · exact .working rfl rfl rfl
      -- the step itself, which is below the branch
      have hstep : ∀ {l t},
        (runStepWith (.branch bi :: p) si step (Runner.executeStep step)).Runs l t →
          ∀ x ∈ Label.did (S := runner) ⟨.branch bi :: p, .storeLastStep si⟩ b :: l,
            Unrelated p bi x := by
        intro l t hruns x hx
        rcases List.mem_cons.mp hx with rfl | hx
        · exact ⟨rfl, rfl⟩
        · exact unrelated_of_below (hruns.within (runStep_stays (q := .branch bi :: p)) x hx)
      rcases hrest.bind with ⟨t, hruns, rfl⟩ | ⟨r, l₁, l₂, rfl, hruns, hafter⟩
      · obtain ⟨hstored, hterm⟩ := terminals_unrelated (hstep hruns)
        refine .working hstored hterm (finished_bind fun r => ?_)
        cases r with
        | ok a => exact runBranch_unfinished rest _ _
        | error e => rfl
      · rw [← List.cons_append]
        refine BranchEnd.prepend ?_ (hstep hruns)
        cases r with
        | ok a => exact ih (si + 1) hafter
        | error e =>
            rcases Runs.ask hafter with ⟨rfl, rfl⟩ | ⟨b', l, rfl, hfailed⟩
            · exact .working rfl rfl rfl
            · have hterminal : isTerminal p bi ⟨.branch bi :: p, branchFailed bi si e⟩ = true :=
                isTerminal_failed
              refine branchEnd_report (decide_eq_true rfl) rfl hterminal ?_
              rcases Runs.ask hfailed with ⟨rfl, rfl⟩ | ⟨r, l', rfl, hk⟩
              · exact Or.inl ⟨rfl, rfl⟩
              · obtain ⟨rfl, rfl⟩ := Runs.ret hk
                exact Or.inr ⟨r, rfl, rfl⟩

/-- **How far a branch is.** -/
theorem branch_end {steps : List Runner.StepDef} (h : (emit (.branch bi :: p) (branchStarted bi)
    (runBranch steps (.branch bi :: p) bi 0)).Runs record c) : BranchEnd p bi record c := by
  have hstarted : ∀ r,
    ∀ x ∈ [Label.did (S := runner) ⟨.branch bi :: p, .emit (branchStarted bi)⟩ r],
      Unrelated p bi x := by
    intro r x hx
    rw [List.mem_singleton.mp hx]
    exact unrelated_emit rfl
  rcases emit_runs h with ⟨rfl, hfin⟩ | ⟨e, rfl, rfl⟩ | ⟨l, rfl, hrest⟩
  · exact .working rfl rfl hfin
  · obtain ⟨hstored, hterm⟩ := terminals_unrelated (hstarted (.error e))
    exact .unstarted hstored hterm rfl
  · exact (runBranch_end steps 0 hrest).prepend (hstarted (.ok ()))

end

/-! ## The parallel step -/

/-- `parallel_completed`. -/
def isCompletion : Label runner → Bool
  | .did ⟨_, .emit event⟩ _ => event.kind = .parallelCompleted
  | _ => false

/-- What the reports of aborted branches record: those of the branches from `bi` on, `n` of
them. -/
inductive Aborts (p : Path) : Nat → Nat → Record → Prop where
  | done {bi} : Aborts p bi 0 []
  | silent {bi n record} {flags : Flags} (hflags : (flags.1 || flags.2.1) = true)
      (h : Aborts p (bi + 1) n record) : Aborts p bi (n + 1) (.did ⟨p, .load bi⟩ flags :: record)
  | aborted {bi n record r} {flags : Flags} (hflags : (flags.1 || flags.2.1) = false)
      (h : Aborts p (bi + 1) n record) : Aborts p bi (n + 1) (.did ⟨p, .load bi⟩ flags ::
        .did ⟨p, .emit (branchAborted bi flags.2.2)⟩ r :: record)

theorem emitAborted_runs {p : Path} {k rest : Run} {n bi : Nat} {record : Record}
    (h : (emitAborted p k bi n).Runs record rest) :
    (∀ x ∈ record, isCompletion x = false) ∨
      ∃ l₁ l₂, record = l₁ ++ l₂ ∧ Aborts p bi n l₁ ∧ k.Runs l₂ rest := by
  induction n generalizing bi record with
  | zero => exact Or.inr ⟨[], record, rfl, .done, h⟩
  | succ n ih =>
      rcases Runs.ask h with ⟨rfl, -⟩ | ⟨⟨completed, failed, last⟩, l, rfl, hrest⟩
      · exact Or.inl fun x hx => nomatch hx
      by_cases hflags : (completed || failed) = true
      · have hsilent : (!completed && !failed) = false := by
          rw [← Bool.not_or, hflags]
          rfl
        simp only [hsilent] at hrest
        rcases ih hrest with hnone | ⟨l₁, l₂, rfl, haborts, hk⟩
        · refine Or.inl fun x hx => ?_
          rcases List.mem_cons.mp hx with rfl | hx
          · rfl
          · exact hnone x hx
        · exact Or.inr ⟨_ :: l₁, l₂, rfl, .silent hflags haborts, hk⟩
      · rw [Bool.not_eq_true] at hflags
        have haborted : (!completed && !failed) = true := by
          rw [← Bool.not_or, hflags]
          rfl
        simp only [haborted] at hrest
        rcases Runs.ask hrest with ⟨rfl, -⟩ | ⟨r, l, rfl, hafter⟩
        · refine Or.inl fun x hx => ?_
          rw [List.mem_singleton.mp hx]
          rfl
        rcases ih hafter with hnone | ⟨l₁, l₂, rfl, haborts, hk⟩
        · refine Or.inl fun x hx => ?_
          rcases List.mem_cons.mp hx with rfl | hx
          · rfl
          · rcases List.mem_cons.mp hx with rfl | hx
            · rfl
            · exact hnone x hx
        · exact Or.inr ⟨_ :: _ :: l₁, l₂, rfl, .aborted hflags haborts, hk⟩

/-- What is at the path of a step and says nothing about its branches. -/
def Quiet (p : Path) (x : Label runner) : Prop :=
  x.place = p ∧ (∀ bi, Unrelated p bi x) ∧ isCompletion x = false ∧
    ∃ call b, x = .did ⟨p, call⟩ b ∧ ∀ bi, call ≠ .load bi

theorem quiet_of_framing {p : Path} {x : Label runner} (h : Framing p x) : Quiet p x := by
  obtain ⟨rfl, hframing⟩ := h
  rcases x with ⟨⟨p, call⟩, r⟩ | _
  · cases call with
    | emit event =>
        have hkind : isTerminalKind event.kind = false ∧ event.kind ≠ .parallelCompleted := by
          revert hframing
          rcases event with ⟨kind, _⟩
          cases kind <;> simp [isFraming, isTerminalKind]
        exact ⟨rfl, fun bi => unrelated_emit hkind.1, decide_eq_false hkind.2, _, r, rfl,
          fun bi heq => by cases heq⟩
    | drain which =>
        exact ⟨rfl, fun bi => ⟨rfl, rfl⟩, rfl, _, r, rfl, fun bi heq => by cases heq⟩
    | snapshot params =>
        exact ⟨rfl, fun bi => ⟨rfl, rfl⟩, rfl, _, r, rfl, fun bi heq => by cases heq⟩
    | _ => cases hframing
  · cases hframing

/-- What the execution of a `parallel` step has recorded when it emits `parallel_completed`. -/
inductive Ended (p : Path) (branches : List (List Runner.StepDef)) : Record → Prop where
  | returned {pre l branches'} (hpre : ∀ x ∈ pre, Quiet p x)
      (hruns : Branches (branchFutures branches p 0) l branches')
      (hall : ∀ c ∈ branches', c = .ret (.ok ())) : Ended p branches (pre ++ l)
  | aborted {pre l branches' l'} (hpre : ∀ x ∈ pre, Quiet p x)
      (hruns : Branches (branchFutures branches p 0) l branches')
      (haborts : Aborts p 0 branches.length l') :
      Ended p branches (pre ++ (l ++ (drops p branches' ++ l')))

section

variable {p : Path} {branches : List (List Runner.StepDef)} {branches' : List Run} {l : Record}

/-- The branches stay below the path of the step. -/
theorem branches_below (h : Branches (branchFutures branches p 0) l branches') :
    ∀ x ∈ l, ∃ s, AtOrBelow (s :: p) x.place := by
  refine h.within (P := fun x => ∃ s, AtOrBelow (s :: p) x.place) fun c hc => ?_
  obtain ⟨i, hget⟩ := List.mem_iff_getElem?.mp hc
  exact Within.imp (branchFutures_stays branches p 0 i c hget) fun x hx => ⟨.branch (0 + i), hx⟩

theorem branches_place (h : Branches (branchFutures branches p 0) l branches') {x : Label runner}
    (hx : x ∈ l) : x.place ≠ p := by
  obtain ⟨s, hs⟩ := branches_below h x hx
  intro hplace
  rw [hplace] at hs
  exact not_atOrBelow_self s p hs

theorem aborts_not_completion {n bi : Nat} (h : Aborts p bi n l) :
    ∀ x ∈ l, isCompletion x = false := by
  induction h with
  | done => exact fun x hx => nomatch hx
  | silent _ _ ih =>
      intro x hx
      rcases List.mem_cons.mp hx with rfl | hx
      · rfl
      · exact ih x hx
  | aborted _ _ ih =>
      intro x hx
      rcases List.mem_cons.mp hx with rfl | hx
      · rfl
      · rcases List.mem_cons.mp hx with rfl | hx
        · rfl
        · exact ih x hx

/-- `parallel_completed` is the first of what is left to do. -/
theorem completion_first {a b : Record} {x : Label runner} {result : Except RunError Unit}
    {rest : Run}
    (h : (emit p (parallelCompleted result) (.ret result)).Runs (a ++ x :: b) rest) : a = [] := by
  cases a with
  | nil => rfl
  | cons y a =>
      rcases emit_runs h with ⟨heq, -⟩ | ⟨e, heq, -⟩ | ⟨record, heq, hrest⟩
      · exact nomatch heq
      · exact absurd (List.cons.inj heq).2 (by simp)
      · obtain ⟨rfl, -⟩ := Runs.ret hrest
        exact absurd (List.cons.inj heq).2 (by simp)

/-- **A parallel step that emits `parallel_completed`** has seen its branches return, or has
left those behind that had not, and reported on each. -/
theorem ended_of_runs {q : Path} {idx : Nat} {common : Common} {a b : Record} {x : Label runner}
    {rest : Run} (h : (Runner.runStep q idx (.parallel common branches)).Runs (a ++ x :: b) rest)
    (hplace : x.place = .step idx :: q) (hcompletion : isCompletion x = true) :
    Ended (.step idx :: q) branches a := by
  obtain ⟨pre, exec, post, resolved, body, hrecord, hpre, hpost, hexec⟩ :=
    (stepRun_of_runs h).around
  have hnot : ∀ {l : Record}, (∀ y ∈ l, isCompletion y = false) → x ∉ l := by
    intro l hl hmem
    rw [hl x hmem] at hcompletion
    exact nomatch hcompletion
  obtain ⟨m, hm, -⟩ := split_before hrecord
    (hnot fun y hy => (quiet_of_framing (hpost y hy)).2.2.1)
  obtain ⟨m', rfl, rfl⟩ := split_after hm.symm
    (hnot fun y hy => (quiet_of_framing (hpre y hy)).2.2.1)
  rw [Runner.executeStep] at hexec
  rcases hparams : StepParams.fromValue resolved with _ | params
  · simp only [hparams] at hexec
    exact absurd (Runs.ret hexec).1 (by simp)
  simp only [hparams] at hexec
  rcases emit_runs hexec with ⟨heq, -⟩ | ⟨e, heq, -⟩ | ⟨l, heq, hjoin⟩
  · exact absurd heq (by simp)
  · refine absurd (heq ▸ List.mem_append_cons_self) (hnot fun y hy => ?_)
    rw [List.mem_singleton.mp hy]
    rfl
  -- `ParallelStarted` is written, and the branches have been started
  obtain ⟨m'', rfl, rfl⟩ := split_after (c := [_]) heq (hnot fun y hy => by
    rw [List.mem_singleton.mp hy]
    rfl)
  rw [← List.append_assoc]
  have hpre' : ∀ y ∈ pre ++ [Label.did (S := runner) ⟨.step idx :: q,
      .emit (parallelStarted branches.length)⟩ (.ok ())], Quiet (.step idx :: q) y := by
    intro y hy
    rcases List.mem_append.mp hy with hy | hy
    · exact quiet_of_framing (hpre y hy)
    · rw [List.mem_singleton.mp hy]
      exact ⟨rfl, fun bi => unrelated_emit rfl, rfl, _, _, rfl, nofun⟩
  rcases Runs.join hjoin with ⟨branches', hb, -⟩ | ⟨branches', l₁, l₂, heq, hb, hend⟩
  · exact absurd hplace (branches_place hb List.mem_append_cons_self)
  · obtain ⟨m₁, rfl, rfl⟩ := split_after heq fun hmem => branches_place hb hmem hplace
    generalize hl₂ : m₁ ++ x :: m = l₂ at hend
    cases hend with
    | returned hall hrest =>
        subst hl₂
        obtain rfl := completion_first hrest
        rw [List.append_nil]
        exact .returned hpre' hb hall
    | aborted _ hrest =>
        obtain ⟨m₂, rfl, rfl⟩ := split_after hl₂ (hnot fun y hy => by
          obtain ⟨i, rfl⟩ := mem_drops hy
          rfl)
        rcases emitAborted_runs hrest with hnone | ⟨l₄, l₅, heq, haborts, hrest⟩
        · exact absurd List.mem_append_cons_self (hnot hnone)
        · obtain ⟨m₃, rfl, rfl⟩ := split_after heq (hnot (aborts_not_completion haborts))
          obtain rfl := completion_first hrest
          rw [List.append_nil]
          exact .aborted hpre' hb haborts

/-! ## One attempt a branch -/

theorem ofNat_inj {a b : Nat} (ha : a < 2 ^ 64) (hb : b < 2 ^ 64)
    (h : UInt64.ofNat a = UInt64.ofNat b) : a = b := by
  have hnat := congrArg UInt64.toNat h
  rw [UInt64.toNat_ofNat', UInt64.toNat_ofNat', Nat.mod_eq_of_lt ha, Nat.mod_eq_of_lt hb] at hnat
  exact hnat

variable {bi : Nat}

theorem terminals_aborted {bj last : Nat} {r : Except RunError Unit} :
    terminals p bi (.did ⟨p, .emit (branchAborted bj last)⟩ r :: l) =
      (if UInt64.ofNat bj = UInt64.ofNat bi then 1 else 0) + terminals p bi l := by
  rw [terminals_cons, show emitted (.did ⟨p, .emit (branchAborted bj last)⟩ r) =
    some ⟨p, branchAborted bj last⟩ from rfl, Option.any_some, isTerminal_aborted]
  by_cases h : UInt64.ofNat bj = UInt64.ofNat bi <;> simp [h]

/-- Nothing is reported of the branches before. -/
theorem aborts_earlier {n bj : Nat} (h : Aborts p bj n l) (hsize : bj + n ≤ 2 ^ 64)
    (hbi : bi < bj) : terminals p bi l = 0 := by
  induction h with
  | done => rfl
  | silent _ _ ih =>
      rw [terminals_cons, ih (by omega) (by omega)]
      rfl
  | aborted _ _ ih =>
      rw [terminals_cons, terminals_aborted, ih (by omega) (by omega)]
      rw [if_neg fun heq => absurd (ofNat_inj (by omega) (by omega) heq) (by omega)]
      rfl

/-- A branch is reported exactly if its flags, when they are loaded, say nothing. -/
theorem aborts_terminals {n bj : Nat} (h : Aborts p bj n l) (hsize : bj + n ≤ 2 ^ 64)
    (hfrom : bj ≤ bi) (hto : bi < bj + n) :
    ∃ (a b : Record) (flags : Flags), l = a ++ .did ⟨p, .load bi⟩ flags :: b ∧
      terminals p bi l = if flags.1 || flags.2.1 then 0 else 1 := by
  induction h with
  | done => omega
  | @silent bj n l flags hflags haborts ih =>
      rcases Nat.lt_or_eq_of_le hfrom with hlt | rfl
      · obtain ⟨a, b, flags', rfl, hterm⟩ := ih (by omega) hlt (by omega)
        refine ⟨_ :: a, b, flags', rfl, ?_⟩
        rw [terminals_cons, hterm]
        exact Nat.zero_add _
      · refine ⟨[], _, flags, rfl, ?_⟩
        rw [terminals_cons, aborts_earlier haborts (by omega) (by omega), hflags]
        rfl
  | @aborted bj n l r flags hflags haborts ih =>
      rcases Nat.lt_or_eq_of_le hfrom with hlt | rfl
      · obtain ⟨a, b, flags', rfl, hterm⟩ := ih (by omega) hlt (by omega)
        refine ⟨_ :: _ :: a, b, flags', rfl, ?_⟩
        rw [terminals_cons, terminals_aborted, hterm,
          if_neg fun heq => absurd (ofNat_inj (by omega) (by omega) heq) (by omega), Nat.zero_add]
        exact Nat.zero_add _
      · refine ⟨[], _, flags, rfl, ?_⟩
        rw [terminals_cons, terminals_aborted, aborts_earlier haborts (by omega) (by omega), hflags]
        simp [emitted]

theorem aborts_at {n bj : Nat} (h : Aborts p bj n l) :
    ∀ x ∈ l, x.place = p ∧ (∀ q, stores q x = false) ∧ ∀ r i, x ≠ .dropped r i := by
  induction h with
  | done => exact fun x hx => nomatch hx
  | silent _ _ ih =>
      intro x hx
      rcases List.mem_cons.mp hx with rfl | hx
      · exact ⟨rfl, fun q => rfl, nofun⟩
      · exact ih x hx
  | aborted _ _ ih =>
      intro x hx
      rcases List.mem_cons.mp hx with rfl | hx
      · exact ⟨rfl, fun q => rfl, nofun⟩
      · rcases List.mem_cons.mp hx with rfl | hx
        · exact ⟨rfl, fun q => rfl, nofun⟩
        · exact ih x hx

/-- What is unrelated to the end of a branch may be left out. -/
theorem related_recordAt {P : Path → Prop} [DecidablePred P]
    (h : ∀ x ∈ l, ¬ P x.place → Unrelated p bi x) :
    (recordAt P l).any (stores (.branch bi :: p)) = l.any (stores (.branch bi :: p)) ∧
      terminals p bi (recordAt P l) = terminals p bi l := by
  induction l with
  | nil => exact ⟨rfl, rfl⟩
  | cons x l ih =>
      obtain ⟨hany, hterm⟩ := ih fun y hy => h y (List.mem_cons_of_mem _ hy)
      by_cases hx : P x.place
      · rw [recordAt_cons hx, List.any_cons, List.any_cons, terminals_cons, terminals_cons, hany,
          hterm]
        exact ⟨rfl, rfl⟩
      · obtain ⟨hstores, hnot⟩ := h x List.mem_cons_self hx
        rw [recordAt_cons_away hx, List.any_cons, terminals_cons, hstores, hnot, hany, hterm]
        exact ⟨(Bool.false_or _).symm, (Nat.zero_add _).symm⟩

/-- What the branches have recorded says how far each one is. -/
theorem branches_end (hruns : Branches (branchFutures branches p 0) l branches')
    (hbi : bi < branches.length) : ∃ c, branches'[bi]? = some c ∧ BranchEnd p bi l c := by
  have hget : (branchFutures branches p 0)[bi]? = some (emit (.branch bi :: p) (branchStarted bi)
      (runBranch branches[bi] (.branch bi :: p) bi 0)) := by
    rw [branchFutures_getElem, List.getElem?_eq_getElem hbi, Nat.zero_add]
    rfl
  have hstays : ∀ j d, (branchFutures branches p 0)[j]? = some d →
      Stays (AtOrBelow (.branch j :: p)) d := by
    intro j d hgetj
    have h := branchFutures_stays branches p 0 j d hgetj
    rwa [Nat.zero_add] at h
  obtain ⟨c, hc, hrunsc⟩ := hruns.branch hget (hstays bi _ hget) fun j d hj hgetj =>
    (hstays j d hgetj).imp fun r hr hr' => hj (Seg.branch.inj (seg_unique hr hr'))
  refine ⟨c, hc, ?_⟩
  have hrelated : ∀ x ∈ l, ¬ AtOrBelow (.branch bi :: p) x.place → Unrelated p bi x := by
    intro x hx hnot
    refine unrelated_of_place (branches_place hruns hx) fun hplace => hnot ?_
    exact atOrBelow_of_eq hplace
  obtain ⟨hany, hterm⟩ := related_recordAt hrelated
  cases branch_end hrunsc with
  | working hstored hcount hfin => exact .working (hany ▸ hstored) (hterm ▸ hcount) hfin
  | reporting hstored hcount hfin => exact .reporting (hany ▸ hstored) (hterm ▸ hcount) hfin
  | reported hstored hcount hfin => exact .reported (hany ▸ hstored) (hterm ▸ hcount) hfin
  | unstarted hstored hcount herr => exact .unstarted (hany ▸ hstored) (hterm ▸ hcount) herr

/-- The branch was dropped when it had stored a flag. -/
def LeftBehind (p : Path) (bi : Nat) (record : Record) : Prop :=
  .dropped p bi ∈ record ∧ ((flagsOf (.branch bi :: p) record).1 ||
    (flagsOf (.branch bi :: p) record).2.1) = true

/-- **One attempt a branch.** When `parallel_completed` is emitted, one terminal event of every
branch has been emitted, unless the branch was dropped with a flag stored. -/
theorem Ended.attempts {record : Record} (h : Ended p branches record)
    (hsize : branches.length ≤ 2 ^ 64) (hbi : bi < branches.length)
    (hloads : ∀ (a b : Record) (flags : Flags), record = a ++ .did ⟨p, .load bi⟩ flags :: b →
      (flags.1 || flags.2.1) = a.any (stores (.branch bi :: p))) :
    (LeftBehind p bi record → terminals p bi record = 0) ∧
      (¬ LeftBehind p bi record → terminals p bi record = 1) := by
  rw [LeftBehind, flagsOf_stored]
  have hquiet : ∀ {pre : Record}, (∀ x ∈ pre, Quiet p x) →
      pre.any (stores (.branch bi :: p)) = false ∧ terminals p bi pre = 0 ∧
        .dropped p bi ∉ pre := by
    intro pre hpre
    obtain ⟨hstored, hterm⟩ := terminals_unrelated fun x hx => (hpre x hx).2.1 bi
    refine ⟨hstored, hterm, fun hx => ?_⟩
    obtain ⟨-, -, -, call, b, heq, -⟩ := hpre _ hx
    exact nomatch heq
  cases h with
  | @returned pre l branches' hpre hruns hall =>
      obtain ⟨c, hc, hend⟩ := branches_end hruns hbi
      obtain ⟨-, hterm, hnot⟩ := hquiet hpre
      obtain rfl := hall c (List.mem_of_getElem? hc)
      have hdropped : .dropped p bi ∉ pre ++ l := by
        intro hx
        rcases List.mem_append.mp hx with hx | hx
        · exact hnot hx
        · exact branches_place hruns hx rfl
      rw [terminals_append, hterm, Nat.zero_add]
      refine ⟨fun hleft => absurd hleft.1 hdropped, fun _ => ?_⟩
      cases hend with
      | working _ _ hfin => exact nomatch hfin
      | reporting _ _ hfin => exact nomatch hfin
      | reported _ hcount _ => exact hcount
      | unstarted _ _ herr => exact nomatch herr
  | @aborted pre l branches' l' hpre hruns haborts =>
      obtain ⟨c, hc, hend⟩ := branches_end hruns hbi
      obtain ⟨hstored, hterm, hnot⟩ := hquiet hpre
      have hdrops : ∀ x ∈ drops p branches', Unrelated p bi x := by
        intro x hx
        obtain ⟨i, rfl⟩ := mem_drops hx
        exact ⟨rfl, rfl⟩
      obtain ⟨hstored', hterm'⟩ := terminals_unrelated hdrops
      have hstored'' : ∀ {m : Record}, m ⊆ l' → m.any (stores (.branch bi :: p)) = false := by
        intro m hm
        rw [List.any_eq_false]
        intro x hx
        rw [(aborts_at haborts x (hm hx)).2.1]
        exact Bool.false_ne_true
      have hdropped : .dropped p bi ∈ pre ++ (l ++ (drops p branches' ++ l')) ↔
          c.finished = false := by
        constructor
        · intro hx
          rcases List.mem_append.mp hx with hx | hx
          · exact absurd hx hnot
          rcases List.mem_append.mp hx with hx | hx
          · exact absurd rfl (branches_place hruns hx)
          rcases List.mem_append.mp hx with hx | hx
          · obtain ⟨d, hd, hfin⟩ := dropped_mem_drops.mp hx
            obtain rfl := Option.some.inj (hc.symm.trans hd)
            exact hfin
          · exact absurd rfl ((aborts_at haborts _ hx).2.2 p bi)
        · intro hfin
          exact List.mem_append_right _ (List.mem_append_right _ (List.mem_append_left _
            (dropped_mem_drops.mpr ⟨c, hc, hfin⟩)))
      -- the flags the step finds are those the branch has stored
      obtain ⟨a, b, flags, rfl, haborted⟩ :=
        aborts_terminals haborts (by omega) (Nat.zero_le bi) (by omega)
      have hflags := hloads (pre ++ (l ++ (drops p branches' ++ a))) b flags (by simp)
      rw [List.any_append, List.any_append, List.any_append, hstored, hstored',
        hstored'' (List.subset_append_left a _), Bool.or_false, Bool.or_false,
          Bool.false_or] at hflags
      rw [hflags] at haborted
      have hany : (pre ++ (l ++ (drops p branches' ++ (a ++ .did ⟨p, .load bi⟩ flags :: b)))).any
          (stores (.branch bi :: p)) = l.any (stores (.branch bi :: p)) := by
        rw [List.any_append, List.any_append, List.any_append, hstored, hstored',
          hstored'' (List.Subset.refl _), Bool.or_false, Bool.or_false, Bool.false_or]
      rw [hany, hdropped, terminals_append, terminals_append, terminals_append, hterm, hterm',
        haborted, Nat.zero_add, Nat.zero_add]
      cases hend with
      | working hs hcount hfin => simp [hs, hcount]
      | reporting hs hcount hfin => simp [hs, hcount, hfin]
      | reported hs hcount hfin => simp [hs, hcount, hfin]
      | unstarted hs hcount herr => simp [hs, hcount]

end

/-! ## Terminal events in the trace -/

section

variable {files : Files} {scenario : Scenario} {events : List OwnEvent} {vars : VarStore} {q : Path}
  {idx bi : Nat} {common : Common} {branches : List (List Runner.StepDef)} {before after : Record}
  {x : Label runner} {rest : Run}

/-- **One terminal event a branch.** When the `parallel` step at this path emits
`parallel_completed`, the trace holds exactly one terminal event of a branch exactly if those
that were emitted have been written, and the branch was not dropped with a flag stored. -/
theorem parallel_terminal_iff
    (hrun : ScenarioRun files scenario events vars (before ++ x :: after) rest)
    (hstep : Locates scenario.steps root q idx (.parallel common branches))
    (hplace : x.place = .step idx :: q) (hcompletion : isCompletion x = true)
    (hsize : branches.length ≤ 2 ^ 64) (hbi : bi < branches.length) :
    (trace before).countP (isTerminal (.step idx :: q) bi) = 1 ↔
      (∀ y ∈ before, ∀ e, emitted y = some e → isTerminal (.step idx :: q) bi e = true →
        written y = some e) ∧ ¬ LeftBehind (.step idx :: q) bi before := by
  have hself : AtOrBelow (.step idx :: q) (.step idx :: q) := List.suffix_refl _
  have hat : AtOrBelow (.step idx :: q) x.place := hplace ▸ hself
  obtain ⟨rest', hruns, -⟩ := local_run hrun.runs hstep
    ⟨_, List.mem_append_right _ List.mem_cons_self, hat⟩
  rw [recordAt_append, recordAt_cons hat] at hruns
  have hrelated : ∀ x ∈ before, ¬ AtOrBelow (.step idx :: q) x.place →
      Unrelated (.step idx :: q) bi x := by
    intro x _ hnot
    refine unrelated_of_place (fun hplace => hnot ?_) fun hplace => hnot ?_
    · exact atOrBelow_of_eq hplace
    · rw [hplace]
      exact atOrBelow_cons _ _
  obtain ⟨hany, hterm⟩ := related_recordAt hrelated
  have hloads : ∀ (a b : Record) (flags : Flags), recordAt (AtOrBelow (.step idx :: q)) before =
      a ++ .did ⟨.step idx :: q, .load bi⟩ flags :: b →
      (flags.1 || flags.2.1) = a.any (stores (.branch bi :: .step idx :: q)) := by
    intro a b flags hsplit
    obtain ⟨l₁, l₂, rfl, rfl⟩ := recordAt_split hsplit
    have hanswer : flags = flagsOf (.branch bi :: .step idx :: q) l₁ :=
      hrun.answered l₁ _ ⟨.step idx :: q, .load bi⟩ flags
        (by rw [List.append_assoc, List.cons_append])
    rw [hanswer, flagsOf_stored]
    exact (related_recordAt fun x hx => hrelated x (List.mem_append_left _ hx)).1.symm
  obtain ⟨hleft, hone⟩ := (ended_of_runs hruns hplace hcompletion).attempts hsize hbi hloads
  have hbehind : LeftBehind (.step idx :: q) bi (recordAt (AtOrBelow (.step idx :: q)) before) ↔
      LeftBehind (.step idx :: q) bi before := by
    rw [LeftBehind, LeftBehind, flagsOf_stored, flagsOf_stored, hany, mem_recordAt]
    exact and_congr_left fun _ => and_iff_left hself
  rw [hbehind, hterm] at hleft hone
  obtain ⟨hle, hwritten⟩ := trace_countP before (isTerminal (.step idx :: q) bi)
  rw [← hwritten]
  by_cases hbad : LeftBehind (.step idx :: q) bi before
  · have hzero := hleft hbad
    rw [terminals] at hzero
    constructor
    · intro hcount
      omega
    · exact fun h => absurd hbad h.2
  · have hcount := hone hbad
    rw [terminals] at hcount
    rw [hcount, and_iff_left hbad]

end

/-- Two branches that take turns at the trace. The first one fails, and is waiting to say so when
the second one is done; it is dropped while it waits to say that. -/
def takingTurns : Record :=
  simulated noFiles sideBySide (fun _ => none)
    (List.replicate 6 ([0], .ok ()) ++
      [0, 0, 1, 1, 0, 1, 0, 1, 0, 1, 0, 0, 1, 1, 0, 0, 1, 0, 0, 1, 1, 0].map
        (fun i => ([0, i], .ok ())) ++
      List.replicate 4 ([0], .ok ()))

/-- Where the step emits `parallel_completed`. -/
theorem takingTurns_split : ∃ x, takingTurns = takingTurns.take 31 ++ x :: takingTurns.drop 32 ∧
    x.place = [.step 0, .scenario] ∧ isCompletion x = true := by
  have hcompletion : takingTurns[31]?.map isCompletion = some true := by decide +kernel
  have hplace : takingTurns[31]?.map Label.place = some [.step 0, .scenario] := by decide +kernel
  obtain ⟨x, hx, hkind⟩ := Option.map_eq_some_iff.mp hcompletion
  rw [hx] at hplace
  exact ⟨x, split_of_getElem hx, Option.some.inj hplace, hkind⟩

/-- The branch that failed has its event, and it is the only one. -/
theorem takingTurns_failed :
    (∀ y ∈ takingTurns.take 31, ∀ e, emitted y = some e →
      isTerminal [.step 0, .scenario] 0 e = true → written y = some e) ∧
      ¬ LeftBehind [.step 0, .scenario] 0 (takingTurns.take 31) := by
  have hrun : ScenarioRun noFiles sideBySide [] (fun _ => none) takingTurns _ :=
    simulated_run (by decide +kernel)
  obtain ⟨x, hsplit, hplace, hcompletion⟩ := takingTurns_split
  rw [hsplit] at hrun
  exact (parallel_terminal_iff hrun (.here rfl) hplace hcompletion (by decide) (by decide)).mp
    (by decide +kernel)

/-- The other branch has none: it has neither completed, failed nor been aborted. -/
theorem branch_without_terminal : ∃ before x after rest,
    ScenarioRun noFiles sideBySide [] (fun _ => none) (before ++ x :: after) rest ∧
    Locates sideBySide.steps root root 0 besides ∧
    Label.place x = [.step 0, .scenario] ∧ isCompletion x = true ∧
    (∀ y ∈ before, ∀ e, emitted y = some e → written y = some e) ∧
    (trace before).countP (isTerminal [.step 0, .scenario] 1) = 0 := by
  have hrun : ScenarioRun noFiles sideBySide [] (fun _ => none) takingTurns _ :=
    simulated_run (by decide +kernel)
  obtain ⟨x, hsplit, hplace, hcompletion⟩ := takingTurns_split
  rw [hsplit] at hrun
  have hwritten : Written (takingTurns.take 31) := written_of_length (by decide +kernel)
  exact ⟨_, x, _, _, hrun, .here rfl, hplace, hcompletion, hwritten, by decide +kernel⟩

end ConformanceHarness.Proof

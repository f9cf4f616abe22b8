import ConformanceHarness.Lib.Alarms

/-!
# Every future comes to an end

A future is a tree, and every step goes down in it. So no run goes on for ever, however its
branches take turns. And a future that has not returned can go on if its requests are answered:
nothing in it waits for anything else. Together this means that every run can be completed.
-/

namespace ConformanceHarness.Lib.Future

variable {S : Interface}

/-! ## No run goes on for ever -/

/-- A step leads from the second to the first. -/
def Next (t' t : Future S) : Prop := ∃ ls, Step t ls t'

/-- One of the branches takes a step. -/
def NextBranch (branches' branches : List (Future S)) : Prop :=
  ∃ i c c', branches[i]? = some c ∧ Next c' c ∧ branches' = branches.set i c'

section

variable {c : Future S} {branches rest : List (Future S)} {p : S.Place}
  {k : Except S.Error Unit → Future S}

/-- Either the first branch takes a step, or one of the others. -/
theorem acc_cons (hc : Acc Next c) (hrest : Acc NextBranch rest) :
    Acc NextBranch (c :: rest) := by
  induction hc generalizing rest with
  | intro c _ ihc =>
      induction hrest with
      | intro rest hnext ihrest =>
          refine Acc.intro _ ?_
          rintro branches' ⟨i, d, d', hget, hstep, rfl⟩
          cases i with
          | zero =>
              obtain rfl := Option.some.inj hget
              exact ihc d' hstep (Acc.intro rest hnext)
          | succ i => exact ihrest _ ⟨i, d, d', hget, hstep, rfl⟩

theorem acc_join (hbranches : Acc NextBranch branches) (hk : ∀ r, Acc Next (k r)) :
    Acc Next (.join p branches k) := by
  induction hbranches with
  | intro branches _ ih =>
      refine Acc.intro _ ?_
      rintro t' ⟨ls, hstep⟩
      cases hstep with
      | branch _ hget h => exact ih _ ⟨_, _, _, hget, ⟨_, h⟩, rfl⟩
      | joined _ => exact hk _
      | aborted _ => exact hk _

end

mutual

theorem acc_next (t : Future S) : Acc Next t := by
  cases t with
  | ret r =>
      refine Acc.intro _ ?_
      rintro t' ⟨ls, hstep⟩
      cases hstep
  | ask i k =>
      refine Acc.intro _ ?_
      rintro t' ⟨ls, hstep⟩
      cases hstep with
      | ask b => exact acc_next (k b)
  | join p branches k => exact acc_join (acc_nextBranch branches) fun r => acc_next (k r)

theorem acc_nextBranch (branches : List (Future S)) : Acc NextBranch branches := by
  cases branches with
  | nil =>
      refine Acc.intro _ ?_
      rintro branches' ⟨i, c, c', hget, -⟩
      rw [List.getElem?_nil] at hget
      cases hget
  | cons c rest => exact acc_cons (acc_next c) (acc_nextBranch rest)

end

/-- What one step records: an allowed answer, or nothing but branches that are dropped. -/
inductive Taken (Allowed : (i : S.Request) → S.Answer i → Prop) : List (Label S) → Prop where
  | did {i b} (h : Allowed i b) : Taken Allowed [.did i b]
  | dropped {ls} (h : ∀ x ∈ ls, ∃ p j, x = .dropped p j) : Taken Allowed ls

theorem exists_error {t : Future S} (h : t.failed = true) : ∃ e, t = .ret (.error e) := by
  rcases t with (e | _) | _ | _
  · exact ⟨e, rfl⟩
  all_goals cases h

theorem eq_ok {t : Future S} (hfin : t.finished = true) (halive : t.failed = false) :
    t = .ret (.ok ()) := by
  obtain ⟨e | _, rfl⟩ := exists_ret hfin
  · cases halive
  · rfl

section

variable {Allowed : (i : S.Request) → S.Answer i → Prop}

mutual

/-- **A future that has not returned can take a step.** -/
theorem exists_step (hallowed : ∀ i, ∃ b, Allowed i b) (t : Future S)
    (hopen : t.finished = false) : ∃ ls t', Step t ls t' ∧ Taken Allowed ls := by
  cases t with
  | ret r => cases hopen
  | ask i k =>
      obtain ⟨b, hb⟩ := hallowed i
      exact ⟨_, _, .ask b, .did hb⟩
  | join p branches k =>
      by_cases hfailed : ∃ d ∈ branches, d.failed = true
      · obtain ⟨d, hd, hfailed⟩ := hfailed
        obtain ⟨e, rfl⟩ := exists_error hfailed
        refine ⟨_, _, .aborted hd, .dropped fun x hx => ?_⟩
        obtain ⟨j, rfl⟩ := mem_drops hx
        exact ⟨p, j, rfl⟩
      have halive : ∀ d ∈ branches, d.failed = false :=
        fun d hd => Bool.eq_false_iff.mpr fun h => hfailed ⟨d, hd, h⟩
      rcases exists_branchStep hallowed branches with hall | ⟨i, c, ls, c', hget, hstep, htaken⟩
      · refine ⟨_, _, .joined fun c hc => ?_, .dropped (List.forall_mem_nil _)⟩
        exact eq_ok (hall c hc) (halive c hc)
      · exact ⟨_, _, .branch halive hget hstep, htaken⟩

theorem exists_branchStep (hallowed : ∀ i, ∃ b, Allowed i b) (branches : List (Future S)) :
    (∀ c ∈ branches, c.finished = true) ∨
      ∃ (i : Nat) (c : Future S) (ls : List (Label S)) (c' : Future S),
        branches[i]? = some c ∧ Step c ls c' ∧ Taken Allowed ls := by
  cases branches with
  | nil => exact Or.inl (List.forall_mem_nil _)
  | cons c rest =>
      cases hfin : c.finished with
      | false =>
          obtain ⟨ls, c', hstep, htaken⟩ := exists_step hallowed c hfin
          exact Or.inr ⟨0, c, ls, c', rfl, hstep, htaken⟩
      | true =>
          rcases exists_branchStep hallowed rest with hall | ⟨i, d, ls, d', hget, h⟩
          · exact Or.inl (List.forall_mem_cons.mpr ⟨hfin, hall⟩)
          · exact Or.inr ⟨i + 1, d, ls, d', hget, h⟩

end

end

/-! ## Every run can be completed -/

section

variable {Faithful : List (Label S) → (i : S.Request) → S.Answer i → Prop}
  {Allowed : (i : S.Request) → S.Answer i → Prop} {Good : Label S → Prop}
  {record ls : List (Label S)} {t rest : Future S}

theorem Answered.taken (h : Answered Faithful record) (htaken : Taken Allowed ls)
    (hallowed : ∀ i b, Allowed i b → Faithful record i b) : Answered Faithful (record ++ ls) := by
  refine h.append fun before after i b heq => ?_
  cases htaken with
  | did hb =>
      cases before with
      | nil =>
          obtain ⟨hdid, -⟩ := List.cons.inj heq
          cases hdid
          rw [List.append_nil]
          exact hallowed _ _ hb
      | cons y before =>
          exact absurd (List.cons.inj heq).2.symm
            (List.append_ne_nil_of_right_ne_nil before (List.cons_ne_nil _ _))
  | dropped hdropped =>
      obtain ⟨p, j, hx⟩ := hdropped (.did i b) (heq ▸ List.mem_append_cons_self)
      cases hx

theorem Taken.good (h : Taken Allowed ls) (hdid : ∀ i b, Allowed i b → Good (.did i b))
    (hdropped : ∀ p j, Good (.dropped p j)) : ∀ x ∈ ls, Good x := by
  cases h with
  | did hb => exact List.forall_mem_singleton.mpr (hdid _ _ hb)
  | dropped h =>
      intro x hx
      obtain ⟨p, j, rfl⟩ := h x hx
      exact hdropped p j

/-- **A run that makes sense can be completed to one**, with nothing but good entries if every
request has an answer that makes one. -/
theorem Runs.completed (hanswers : ∀ before i, ∃ b, Faithful before i b ∧ Good (.did i b))
    (hdropped : ∀ p j, Good (.dropped p j)) (h : Runs t record rest)
    (hanswered : Answered Faithful record) :
    ∃ l r, Runs t (record ++ l) (.ret r) ∧ Answered Faithful (record ++ l) ∧ ∀ x ∈ l, Good x := by
  induction acc_next rest generalizing record with
  | intro rest _ ih =>
      cases hfin : rest.finished with
      | true =>
          obtain ⟨r, rfl⟩ := exists_ret hfin
          refine ⟨[], r, ?_⟩
          rw [List.append_nil]
          exact ⟨h, hanswered, List.forall_mem_nil _⟩
      | false =>
          obtain ⟨ls, rest', hstep, htaken⟩ := exists_step (hanswers record) rest hfin
          have hnext : Runs t (record ++ ls) rest' := by
            rw [← List.append_nil ls]
            exact h.trans (.head hstep .refl)
          have hsense := hanswered.taken htaken fun i b hb => hb.1
          obtain ⟨l, r, hruns, hall, hgood⟩ := ih rest' ⟨ls, hstep⟩ hnext hsense
          rw [List.append_assoc] at hruns hall
          have hgood' := htaken.good (fun i b hb => hb.2) hdropped
          exact ⟨ls ++ l, r, hruns, hall, List.forall_mem_append.mpr ⟨hgood', hgood⟩⟩

end

end ConformanceHarness.Lib.Future

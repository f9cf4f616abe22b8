import ConformanceHarness.Lib.Parts

/-!
# Loops that end early

A loop goes through its rounds one after the other and ends with the first that fails. So a
run of it is made of rounds that have returned, and of at most one more. `Runs.loop` takes a
run apart like this; what a round records at places of its own can then be looked up in the
record of the whole loop.
-/

namespace ConformanceHarness.Lib.Future

variable {S : Interface}

/-- The rounds from `i` on and before `k` have returned, and have recorded this. -/
inductive Rounds (f : Nat → Future S) (i : Nat) : Nat → List (Label S) → Prop where
  | nil : Rounds f i i []
  | snoc {k : Nat} {ls l : List (Label S)} (h : Rounds f i k ls)
      (hround : Runs (f k) l (.ret (.ok ()))) : Rounds f i (k + 1) (ls ++ l)

/-- How far a loop over `n` rounds has come. -/
inductive LoopRun (f : Nat → Future S) (i n : Nat) : List (Label S) → Future S → Prop where
  | returned {ls : List (Label S)} (h : Rounds f i (i + n) ls) : LoopRun f i n ls (.ret (.ok ()))
  | failed {k : Nat} {ls l : List (Label S)} {e : S.Error} (hk : k < i + n) (h : Rounds f i k ls)
      (hround : Runs (f k) l (.ret (.error e))) : LoopRun f i n (ls ++ l) (.ret (.error e))
  | going {k : Nat} {ls l : List (Label S)} {t rest : Future S} (hk : k < i + n)
      (h : Rounds f i k ls) (hround : Runs (f k) l t) (hopen : t.finished = false)
      (hfin : rest.finished = false) : LoopRun f i n (ls ++ l) rest

variable {f : Nat → Future S} {i k n : Nat} {ls l : List (Label S)} {t : Future S}

theorem Rounds.cons (hround : Runs (f i) l (.ret (.ok ()))) (h : Rounds f (i + 1) k ls) :
    Rounds f i k (l ++ ls) := by
  induction h with
  | nil =>
      rw [List.append_nil, ← List.nil_append l]
      exact .snoc .nil hround
  | snoc _ hlast ih =>
      rw [← List.append_assoc]
      exact .snoc ih hlast

theorem LoopRun.cons (hround : Runs (f i) l (.ret (.ok ()))) (h : LoopRun f (i + 1) n ls t) :
    LoopRun f i (n + 1) (l ++ ls) t := by
  cases h with
  | returned h =>
      rw [Nat.add_right_comm] at h
      exact .returned (h.cons hround)
  | failed hk h hlast =>
      rw [← List.append_assoc]
      exact .failed (by omega) (h.cons hround) hlast
  | going hk h hlast hopen hfin =>
      rw [← List.append_assoc]
      exact .going (by omega) (h.cons hround) hlast hopen hfin

/-- **A loop ends with the first round that fails.** -/
theorem Runs.loop (h : Runs (loop f i n) ls t) : LoopRun f i n ls t := by
  induction n generalizing i ls with
  | zero =>
      obtain ⟨rfl, rfl⟩ := Runs.ret h
      exact .returned .nil
  | succ n ih =>
      have hlt : i < i + (n + 1) := by omega
      rcases Runs.andThen h with ⟨t', hround, rfl⟩ | ⟨l₁, l₂, rfl, hround, hrest⟩
      · rw [← List.nil_append ls]
        rcases t' with (e | _) | _ | _
        · exact .failed hlt .nil hround
        · -- the round has returned, and the next has done nothing yet
          rw [List.nil_append, ← List.append_nil ls]
          exact (ih .refl).cons hround
        · exact .going hlt .nil hround rfl rfl
        · exact .going hlt .nil hround rfl rfl
      · exact (ih hrest).cons hround

/-! ## Rounds at places of their own -/

section

variable {P : Nat → S.Place → Prop} {m : Nat}

theorem Rounds.away (hP : ∀ m m', m ≠ m' → At (fun p => ¬ P m p) (f m')) (h : Rounds f i k ls)
    (hm : k ≤ m) : ∀ x ∈ ls, ¬ P m x.place := by
  induction h with
  | nil => exact fun x hx => nomatch hx
  | @snoc k _ _ _ hround ih =>
      intro x hx
      rcases List.mem_append.mp hx with hx | hx
      · exact ih (by omega) x hx
      · exact hround.within (hP m k (by omega)) x hx

variable [∀ m, DecidablePred (P m)]

/-- What is recorded at the places of a round is what that round has recorded there. -/
theorem Rounds.round (hP : ∀ m m', m ≠ m' → At (fun p => ¬ P m p) (f m')) (h : Rounds f i k ls)
    (him : i ≤ m) (hmk : m < k) :
    ∃ l, l ⊆ ls ∧ Runs (f m) l (.ret (.ok ())) ∧ recordAt (P m) ls = recordAt (P m) l := by
  induction h with
  | nil => omega
  | @snoc k ls l hinit hround ih =>
      rw [recordAt_append]
      rcases Nat.lt_or_eq_of_le (Nat.lt_succ_iff.mp hmk) with hlt | rfl
      · obtain ⟨l', hsub, hruns, heq⟩ := ih hlt
        refine ⟨l', List.subset_append_of_subset_left l hsub, hruns, ?_⟩
        rw [recordAt_none (hround.within (hP m k (by omega))), List.append_nil, heq]
      · refine ⟨l, List.subset_append_right ls l, hround, ?_⟩
        rw [recordAt_none (hinit.away hP (Nat.le_refl m)), List.nil_append]

end

end ConformanceHarness.Lib.Future

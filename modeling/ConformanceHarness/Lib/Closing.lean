import ConformanceHarness.Lib.RuleScript

/-!
# What programs log, and how servers end

Part of a state is a log. If what a program adds to it depends on its result alone, the log of a
run can be read off the results of its parts.

How the run of a server ends may depend on its state. It can be foretold from a view of the state
if the outcome of every rule depends on that view and says what becomes of it: the server runs
through exactly if every request finds a rule, and every rule chosen has an outcome.
-/

namespace ConformanceHarness.Lib

variable {σ ε α β γ χ : Type}

namespace Prog

variable {log : σ → List γ}

/-- What `x` adds to the log depends on its result alone. -/
def Logs (log : σ → List γ) (added : Except ε α → List γ) (x : Prog σ ε α) : Prop :=
  ∀ s, log (x.run s).2 = log s ++ added (x.run s).1

/-- `x` returns, and adds nothing to the log. -/
def Silent (log : σ → List γ) (x : Prog σ ε α) : Prop :=
  ∀ s, ∃ a s', x.run s = (.ok a, s') ∧ log s' = log s

theorem Silent.pure (a : α) : Silent log (pure a : Prog σ ε α) := fun s => ⟨a, s, rfl, rfl⟩

theorem Silent.modify {f : σ → σ} (h : ∀ s, log (f s) = log s) :
    Silent log (modify f : Prog σ ε Unit) := fun s => ⟨(), f s, rfl, h s⟩

theorem Silent.bind {x : Prog σ ε α} {f : α → Prog σ ε β} (hx : Silent log x)
    (hf : ∀ a, Silent log (f a)) : Silent log (x >>= f) := by
  intro s
  obtain ⟨a, s₁, hrun, hsame⟩ := hx s
  obtain ⟨b, s₂, hrun', hsame'⟩ := hf a s₁
  exact ⟨b, s₂, (run_bind_ok hrun).trans hrun', hsame'.trans hsame⟩

theorem Logs.pure {added : Except ε α → List γ} {a : α} (h : added (.ok a) = []) :
    Logs log added (pure a : Prog σ ε α) := by
  intro s
  rw [run_pure, h, List.append_nil]

theorem Logs.ofExcept {added : Except ε α → List γ} {r : Except ε α} (h : added r = []) :
    Logs log added (ofExcept r : Prog σ ε α) := by
  intro s
  rw [run_ofExcept, h, List.append_nil]

/-- What follows a read of the state may depend on the state read. -/
theorem Logs.get_bind {added : Except ε β → List γ} {f : σ → Prog σ ε β}
    (h : ∀ s, Logs log added (f s)) : Logs log added (get >>= f) := fun s => h s s

theorem Logs.bind {first : Except ε α → List γ} {rest : α → Except ε β → List γ}
    {added : Except ε β → List γ} {x : Prog σ ε α} {f : α → Prog σ ε β} (hx : Logs log first x)
    (hf : ∀ a, Logs log (rest a) (f a)) (herror : ∀ e, first (.error e) = added (.error e))
    (hok : ∀ a r, first (.ok a) ++ rest a r = added r) : Logs log added (x >>= f) := by
  intro s
  have hfirst := hx s
  rcases hrun : x.run s with ⟨_ | a, s'⟩ <;> rw [hrun] at hfirst
  · rw [run_bind_error hrun, ← herror]
    exact hfirst
  · rw [run_bind_ok hrun, hf a s', ← hok a, ← List.append_assoc, ← hfirst]

/-- `x` ends as foretold: with an error, or with a view of the state and a flag. -/
def EndsAs (log : σ → List γ) (view : σ → χ) (x : Prog σ ε Bool) (s : σ) :
    Except ε (χ × Bool) → Prop
  | .error e => ∃ s', x.run s = (.error e, s') ∧ log s' = log s
  | .ok (c, done) => ∃ s', x.run s = (.ok done, s') ∧ log s' = log s ∧ view s' = c

/-- A loop goes on after a step unless the step ends it. -/
theorem EndsAs.loop {view : σ → χ} {x : Prog σ ε Bool} {rest : Prog σ ε Unit} {s : σ}
    {outcome : Except ε (χ × Bool)} (h : EndsAs log view x s outcome) (goesOn : χ → Prop)
    (hrest : ∀ s', ∃ r s'', rest.run s' = (r, s'') ∧ log s'' = log s' ∧
      (r.isOk = true ↔ goesOn (view s'))) :
    ∃ r s', (x >>= fun done => if done then Pure.pure () else rest).run s = (r, s') ∧
      log s' = log s ∧
      (r.isOk = true ↔ ∃ c done, outcome = .ok (c, done) ∧ (done = true ∨ goesOn c)) := by
  rcases outcome with e | ⟨c, done⟩
  · obtain ⟨s', hrun, hsame⟩ := h
    refine ⟨.error e, s', run_bind_error hrun, hsame, iff_of_false Bool.false_ne_true ?_⟩
    rintro ⟨c, done, hok, -⟩
    exact nomatch hok
  · obtain ⟨s', hrun, hsame, rfl⟩ := h
    rw [run_bind_ok hrun]
    cases done with
    | true =>
      exact ⟨.ok (), s', rfl, hsame, iff_of_true rfl ⟨view s', true, rfl, .inl rfl⟩⟩
    | false =>
      obtain ⟨r, s'', hrest, hsame', hiff⟩ := hrest s'
      refine ⟨r, s'', hrest, hsame'.trans hsame, hiff.trans ?_⟩
      constructor
      · intro hgo
        exact ⟨view s', false, rfl, .inr hgo⟩
      · rintro ⟨c, done, hok, hgo⟩
        obtain ⟨rfl, rfl⟩ := Prod.mk.inj (Except.ok.inj hok)
        exact hgo.resolve_left Bool.false_ne_true

end Prog

/-! ## Servers -/

namespace Script

variable {ρ κ : Type} {S : Script σ ε ρ α} {log : σ → List γ} {view : σ → χ}
  {outcome : ρ → α → χ → Except ε (χ × Bool)}

variable (S) in
/-- Every request finds a rule that has an outcome, up to one that ends the session. -/
def Completes (outcome : ρ → α → χ → Except ε (χ × Bool)) (st : Strategy ρ α κ) :
    κ → χ → List α → Prop
  | _, _, [] => True
  | k, c, request :: rest =>
    S.isLast request = true ∨ ∃ pos rule, st.select k request = some (pos, rule) ∧
      ∃ c' done, outcome rule request c = .ok (c', done) ∧
        (done = true ∨ Completes outcome st (st.advance k pos rule) c' rest)

variable (S log view outcome) in
/-- The rules of a server have the outcomes foretold, and nothing it does is logged. -/
structure Foretold : Prop where
  receive : ∀ request s, ∃ s', (S.receive request).run s = (.ok (), s') ∧ log s' = log s ∧
    (S.isLast request = false → view s' = view s)
  accept : ∀ request s, ∃ s', (S.accept request).run s = (.ok (), s') ∧ log s' = log s ∧
    view s' = view s
  fire : ∀ pos rule request s,
    Prog.EndsAs log view (S.fire pos rule request) s (outcome rule request (view s))

/-- **A server runs through exactly if its rules let it.** -/
theorem Foretold.loop (h : S.Foretold log view outcome) (st : Strategy ρ α κ) (requests : List α) :
    ∀ (k : κ) (s : σ), ∃ r s', (S.loop st k requests).run s = (r, s') ∧ log s' = log s ∧
      (r.isOk = true ↔ S.Completes outcome st k (view s) requests) := by
  induction requests with
  | nil =>
    intro k s
    exact ⟨.ok (), s, rfl, rfl, iff_of_true rfl trivial⟩
  | cons request rest ih =>
    intro k s
    obtain ⟨s₁, hreceive, hlog₁, hview₁⟩ := h.receive request s
    rw [Completes]
    by_cases hlast : S.isLast request = true
    · refine ⟨.ok (), s₁, ?_, hlog₁, iff_of_true rfl (.inl hlast)⟩
      rw [loop_last hlast, Prog.run_bind_ok hreceive]
      rfl
    · obtain ⟨s₂, haccept, hlog₂, hview₂⟩ := h.accept request s₁
      have hview : view s₂ = view s := hview₂.trans (hview₁ (Bool.not_eq_true _ ▸ hlast))
      have hlog : log s₂ = log s := hlog₂.trans hlog₁
      rcases hselect : st.select k request with _ | ⟨pos, rule⟩
      · refine ⟨.error (S.exhausted request), s₂, ?_, hlog, iff_of_false Bool.false_ne_true ?_⟩
        · rw [loop_none (Bool.not_eq_true _ ▸ hlast) hselect, Prog.run_bind_ok hreceive,
            Prog.run_bind_ok haccept]
          rfl
        · rintro (hdone | ⟨pos, rule, hsome, -⟩)
          · exact hlast hdone
          · exact nomatch hsome
      · rw [loop_some (Bool.not_eq_true _ ▸ hlast) hselect, Prog.run_bind_ok hreceive,
          Prog.run_bind_ok haccept]
        have hfire := h.fire pos rule request s₂
        rw [hview] at hfire
        obtain ⟨r, s', hrun, hlog', hiff⟩ := hfire.loop
          (fun c => S.Completes outcome st (st.advance k pos rule) c rest)
          (ih (st.advance k pos rule))
        refine ⟨r, s', hrun, hlog'.trans hlog, hiff.trans ?_⟩
        constructor
        · intro hcompletes
          exact .inr ⟨pos, rule, rfl, hcompletes⟩
        · rintro (hdone | ⟨pos', rule', hsome, hcompletes⟩)
          · exact absurd hdone hlast
          · obtain ⟨rfl, rfl⟩ := Prod.mk.inj (Option.some.inj hsome)
            exact hcompletes

end Script

end ConformanceHarness.Lib

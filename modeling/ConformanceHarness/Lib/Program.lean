/-!
# Programs with a state that can fail

A program reads and writes a state and ends in a value or a fault. A fault does
not undo anything: the state it leaves is the state it stopped in, which is what
distinguishes this from a state monad over `Except`.

Four ways to reason about such programs. `Within` bounds what a program does to its
state by a reflexive and transitive relation, however it ends; an invariant `I` is
the relation `I s → I s'`. `Returns` does so for the runs that end in a value only, and
`FailsWith` bounds the faults that a run can end in.
`Simulates` compares two programs step for step, for states related by some `R`.
-/

namespace ConformanceHarness.Lib

/-- A program over the state `σ`, with faults `ε` and results `α`. -/
def Prog (σ ε α : Type) : Type := σ → Except ε α × σ

namespace Prog

variable {σ τ ε α β γ δ : Type}

/-- Runs a program. -/
def run (x : Prog σ ε α) (s : σ) : Except ε α × σ := x s

instance : Monad (Prog σ ε) where
  pure a := fun s => (.ok a, s)
  bind x f := fun s =>
    match x s with
    | (.ok a, s') => f a s'
    | (.error e, s') => (.error e, s')

/-- The state. -/
def get : Prog σ ε σ := fun s => (.ok s, s)

/-- Changes the state. -/
def modify (f : σ → σ) : Prog σ ε Unit := fun s => (.ok (), f s)

/-- A computation that does not look at the state. -/
def ofExcept (r : Except ε α) : Prog σ ε α := fun s => (r, s)

@[simp] theorem run_pure (a : α) (s : σ) : (pure a : Prog σ ε α).run s = (.ok a, s) := rfl

@[simp] theorem run_modify (f : σ → σ) (s : σ) :
    (modify f : Prog σ ε Unit).run s = (.ok (), f s) := rfl

@[simp] theorem run_ofExcept (r : Except ε α) (s : σ) :
    (ofExcept r : Prog σ ε α).run s = (r, s) := rfl

theorem run_bind (x : Prog σ ε α) (f : α → Prog σ ε β) (s : σ) :
    (x >>= f).run s = match x.run s with
      | (.ok a, s') => (f a).run s'
      | (.error e, s') => (.error e, s') := rfl

/-- A program whose first part returns goes on with the rest. -/
theorem run_bind_ok {x : Prog σ ε α} {f : α → Prog σ ε β} {s s' : σ} {a : α}
    (h : x.run s = (.ok a, s')) : (x >>= f).run s = (f a).run s' := by
  rw [run_bind, h]

/-- A program whose first part stops stops there. -/
theorem run_bind_error {x : Prog σ ε α} {f : α → Prog σ ε β} {s s' : σ} {e : ε}
    (h : x.run s = (.error e, s')) : (x >>= f).run s = (.error e, s') := by
  rw [run_bind, h]

@[simp] theorem run_get_bind (f : σ → Prog σ ε β) (s : σ) :
    (get >>= f : Prog σ ε β).run s = (f s).run s := rfl

@[simp] theorem run_modify_bind (g : σ → σ) (f : Unit → Prog σ ε β) (s : σ) :
    (modify g >>= f : Prog σ ε β).run s = (f ()).run (g s) := rfl

@[simp] theorem run_pure_bind (a : α) (f : α → Prog σ ε β) (s : σ) :
    (pure a >>= f : Prog σ ε β).run s = (f a).run s := rfl

@[simp] theorem run_ofExcept_ok_bind (a : α) (f : α → Prog σ ε β) (s : σ) :
    (ofExcept (.ok a) >>= f : Prog σ ε β).run s = (f a).run s := rfl

@[simp] theorem run_ofExcept_error_bind (e : ε) (f : α → Prog σ ε β) (s : σ) :
    (ofExcept (.error e) >>= f : Prog σ ε β).run s = (.error e, s) := rfl

/-- What is returned at the end does not matter to the state. -/
theorem run_bind_pure_snd (x : Prog σ ε α) (f : α → β) (s : σ) :
    ((x >>= fun a => pure (f a) : Prog σ ε β).run s).2 = (x.run s).2 := by
  rw [run_bind]
  rcases x.run s with ⟨_ | a, s'⟩ <;> rfl

theorem bind_assoc (x : Prog σ ε α) (f : α → Prog σ ε β) (g : β → Prog σ ε γ) :
    x >>= f >>= g = x >>= fun a => f a >>= g := by
  funext s
  show ((x >>= f) >>= g).run s = (x >>= fun a => f a >>= g).run s
  rw [run_bind, run_bind, run_bind]
  rcases x.run s with ⟨_ | a, s'⟩
  · rfl
  · exact (run_bind (f a) g s').symm

/-! ## One program after another -/

/-- The programs of a list, one after another, until one says that it is the last. -/
def inTurn (x : α → Prog σ ε Bool) : List α → Prog σ ε Bool
  | [] => pure false
  | a :: rest => do
    if ← x a then return true
    else inTurn x rest

@[simp] theorem run_inTurn_nil (x : α → Prog σ ε Bool) (s : σ) :
    (inTurn x []).run s = (.ok false, s) := rfl

/-- However `x` ends, the state it leaves is `R`-related to the one it started in. -/
def Within (R : σ → σ → Prop) (x : Prog σ ε α) : Prop := ∀ s, R s (x.run s).2

section Within

variable {R : σ → σ → Prop}

theorem Within.pure (refl : ∀ s, R s s) (a : α) : Within R (pure a : Prog σ ε α) := refl

theorem Within.ofExcept (refl : ∀ s, R s s) (r : Except ε α) :
    Within R (ofExcept r : Prog σ ε α) := refl

theorem Within.modify {f : σ → σ} (h : ∀ s, R s (f s)) : Within R (modify f : Prog σ ε Unit) := h

/-- What comes after keeps the relation to any state before. -/
theorem Within.after (trans : ∀ a b c, R a b → R b c → R a c) {x : Prog σ ε α}
    {f : α → Prog σ ε β} {r s : σ} (hx : R r (x.run s).2) (hf : ∀ a, Within R (f a)) :
    R r ((x >>= f).run s).2 := by
  rw [run_bind]
  rcases hrun : x.run s with ⟨e | a, s'⟩ <;> rw [hrun] at hx
  · exact hx
  · exact trans r s' _ hx (hf a s')

theorem Within.bind (trans : ∀ a b c, R a b → R b c → R a c) {x : Prog σ ε α}
    {f : α → Prog σ ε β} (hx : Within R x) (hf : ∀ a, Within R (f a)) : Within R (x >>= f) :=
  fun s => Within.after trans (hx s) hf

/-- What follows a read of the state may depend on the state read. -/
theorem Within.get_bind {f : σ → Prog σ ε β} (h : ∀ s, R s ((f s).run s).2) :
    Within R (get >>= f) := h

theorem Within.inTurn (refl : ∀ s, R s s) (trans : ∀ a b c, R a b → R b c → R a c)
    {x : α → Prog σ ε Bool} {l : List α} (h : ∀ a ∈ l, Within R (x a)) :
    Within R (Prog.inTurn x l) := by
  induction l with
  | nil => exact Within.pure refl false
  | cons a rest ih =>
    refine Within.bind trans (h a List.mem_cons_self) fun done => ?_
    cases done with
    | true => exact Within.pure refl true
    | false => exact ih fun b hb => h b (List.mem_cons_of_mem a hb)

end Within

/-! ## What a program can fail with -/

/-- If `x` fails, it is with such a fault. -/
def FailsWith (P : ε → Prop) (x : Prog σ ε α) : Prop := ∀ s e s', x.run s = (.error e, s') → P e

section FailsWith

variable {P : ε → Prop}

theorem FailsWith.pure (a : α) : FailsWith P (pure a : Prog σ ε α) := by
  intro s e s' h
  cases (Prod.mk.inj h).1

theorem FailsWith.modify {f : σ → σ} : FailsWith P (modify f : Prog σ ε Unit) := by
  intro s e s' h
  cases (Prod.mk.inj h).1

theorem FailsWith.ofExcept {r : Except ε α} (h : ∀ e, r = .error e → P e) :
    FailsWith P (ofExcept r : Prog σ ε α) := fun _ e _ hrun => h e (Prod.mk.inj hrun).1

theorem FailsWith.bind {x : Prog σ ε α} {f : α → Prog σ ε β} (hx : FailsWith P x)
    (hf : ∀ a, FailsWith P (f a)) : FailsWith P (x >>= f) := by
  intro s e s' h
  rw [run_bind] at h
  rcases hrun : x.run s with ⟨e' | a, s''⟩ <;> rw [hrun] at h
  · obtain ⟨herror, -⟩ := Prod.mk.inj h
    cases herror
    exact hx s e s'' hrun
  · exact hf a s'' e s' h

/-- What follows a read of the state may depend on the state read. -/
theorem FailsWith.get_bind {f : σ → Prog σ ε β} (h : ∀ s, FailsWith P (f s)) :
    FailsWith P (get >>= f) := fun s => h s s

end FailsWith

/-! ## What a program that returns did -/

/-- If `x` returns, the state it leaves is `R`-related to the one it started in. -/
def Returns (R : σ → σ → Prop) (x : Prog σ ε α) : Prop :=
  ∀ s a s', x.run s = (.ok a, s') → R s s'

section Returns

variable {R : σ → σ → Prop}

theorem Within.returns {x : Prog σ ε α} (h : Within R x) : Returns R x := by
  intro s a s' hrun
  have hend := h s
  rw [hrun] at hend
  exact hend

/-- What returns has returned all the way. -/
theorem bind_returned {x : Prog σ ε α} {f : α → Prog σ ε β} {s s' : σ} {b : β}
    (h : (x >>= f).run s = (.ok b, s')) :
    ∃ a t, x.run s = (.ok a, t) ∧ (f a).run t = (.ok b, s') := by
  rw [run_bind] at h
  rcases hx : x.run s with ⟨e | a, t⟩ <;> rw [hx] at h
  · exact nomatch (Prod.mk.inj h).1
  · exact ⟨a, t, rfl, h⟩

theorem Returns.bind (trans : ∀ a b c, R a b → R b c → R a c) {x : Prog σ ε α}
    {f : α → Prog σ ε β} (hx : Returns R x) (hf : ∀ a, Returns R (f a)) : Returns R (x >>= f) := by
  intro s b s' hrun
  obtain ⟨a, t, hfirst, hrest⟩ := bind_returned hrun
  exact trans s t s' (hx s a t hfirst) (hf a t b s' hrest)

theorem Returns.get_bind {f : σ → Prog σ ε β} (h : ∀ s, Returns R (f s)) :
    Returns R (get >>= f) := fun s b s' hrun => h s s b s' hrun

end Returns

/-! ## Two programs side by side -/

/-- Both return, with related results, or both stop. -/
def SameEnd (A : α → β → Prop) : Except ε α → Except ε β → Prop
  | .ok a, .ok b => A a b
  | .error _, .error _ => True
  | _, _ => False

theorem SameEnd.refl (r : Except ε α) : SameEnd Eq r r := by
  rcases r with _ | a
  · trivial
  · rfl

theorem SameEnd.imp {A A' : α → β → Prop} {r : Except ε α} {r' : Except ε β}
    (h : SameEnd A r r') (himp : ∀ a b, A a b → A' a b) : SameEnd A' r r' := by
  rcases r with _ | a <;> rcases r' with _ | b
  · trivial
  · exact h.elim
  · exact h.elim
  · exact himp a b h

theorem SameEnd.map {A : α → β → Prop} {B : γ → δ → Prop} {f : α → γ} {g : β → δ}
    {r : Except ε α} {r' : Except ε β} (h : SameEnd A r r') (hfg : ∀ a b, A a b → B (f a) (g b)) :
    SameEnd B (r.map f) (r'.map g) := by
  rcases r with _ | a <;> rcases r' with _ | b
  · trivial
  · exact h.elim
  · exact h.elim
  · exact hfg a b h

/-- From related states, both end the same way and in related states. -/
def Simulates (R : σ → τ → Prop) (A : α → β → Prop) (x : Prog σ ε α) (y : Prog τ ε β) : Prop :=
  ∀ s t, R s t → SameEnd A (x.run s).1 (y.run t).1 ∧ R (x.run s).2 (y.run t).2

theorem Simulates.pure {R : σ → τ → Prop} {A : α → β → Prop} {a : α} {b : β} (h : A a b) :
    Simulates R A (pure a : Prog σ ε α) (pure b : Prog τ ε β) := fun _ _ hR => ⟨h, hR⟩

theorem Simulates.ofExcept {R : σ → τ → Prop} {A : α → β → Prop} {r : Except ε α}
    {r' : Except ε β} (h : SameEnd A r r') :
    Simulates R A (ofExcept r : Prog σ ε α) (ofExcept r' : Prog τ ε β) := fun _ _ hR => ⟨h, hR⟩

theorem Simulates.modify {R : σ → τ → Prop} {f : σ → σ} {g : τ → τ}
    (h : ∀ s t, R s t → R (f s) (g t)) :
    Simulates R (fun _ _ => True) (modify f : Prog σ ε Unit) (modify g : Prog τ ε Unit) :=
  fun s t hR => ⟨trivial, h s t hR⟩

theorem Simulates.get {R : σ → τ → Prop} :
    Simulates R R (get : Prog σ ε σ) (get : Prog τ ε τ) := fun _ _ hR => ⟨hR, hR⟩

theorem Simulates.bind {R : σ → τ → Prop} {A : α → β → Prop} {B : γ → δ → Prop}
    {x : Prog σ ε α} {y : Prog τ ε β} {f : α → Prog σ ε γ} {g : β → Prog τ ε δ}
    (hxy : Simulates R A x y) (hfg : ∀ a b, A a b → Simulates R B (f a) (g b)) :
    Simulates R B (x >>= f) (y >>= g) := by
  intro s t hR
  obtain ⟨hend, hR'⟩ := hxy s t hR
  rw [run_bind, run_bind]
  rcases hx : x.run s with ⟨_ | a, s'⟩ <;> rcases hy : y.run t with ⟨_ | b, t'⟩ <;>
    rw [hx, hy] at hend hR'
  · exact ⟨trivial, hR'⟩
  · exact hend.elim
  · exact hend.elim
  · exact hfg a b hend s' t' hR'

end Prog

end ConformanceHarness.Lib

import Mathlib.Logic.Relation

/-!
# Structured concurrency over a shared state

A program is a tree: atomic actions, sequencing, and branches that run side by
side. A step runs one action of one branch to its end, so the state is shared
but an action is never interrupted. A branch that fails takes the branches next
to it down with it, wherever they are.

What an action does is a relation: it may touch the state, and it leaves a
residual program behind. An action can therefore look at the state and decide
what comes next, repeat itself, or fail.

Nothing here is about a particular program. `Reaches.invariant` is the rule a
user needs: a property of the state that every action preserves holds after any
interleaving.
-/

namespace ConformanceHarness.Lib

/-- A program over atomic actions `α`, or what is left of one. -/
inductive Code (α : Type) where
  | done
  | failed
  | act (a : α)
  | seq (first second : Code α)
  /-- Branches side by side. -/
  | par (branches : List (Code α))

namespace Code

variable {α : Type}

/-- The programs of a list, one after the other. -/
def sequence : List (Code α) → Code α
  | [] => done
  | c :: rest => seq c (sequence rest)

/-- `n` copies of a program, one after the other. -/
def times (c : Code α) : Nat → Code α
  | 0 => done
  | n + 1 => seq c (times c n)

mutual

/-- The program with other actions. -/
def map {β : Type} (f : α → β) : Code α → Code β
  | done => done
  | failed => failed
  | act a => act (f a)
  | seq first second => seq (map f first) (map f second)
  | par branches => par (mapAll f branches)

def mapAll {β : Type} (f : α → β) : List (Code α) → List (Code β)
  | [] => []
  | c :: rest => map f c :: mapAll f rest

end

end Code

section

variable {α σ : Type}

/-- One step of one branch. -/
inductive Step (exec : α → σ → σ → Code α → Prop) : Code α × σ → Code α × σ → Prop where
  | act {a : α} {s s' : σ} {rest : Code α} (h : exec a s s' rest) : Step exec (.act a, s) (rest, s')
  | seqStep {c c' second : Code α} {s s' : σ} (h : Step exec (c, s) (c', s')) :
      Step exec (.seq c second, s) (.seq c' second, s')
  | seqDone {second : Code α} {s : σ} : Step exec (.seq .done second, s) (second, s)
  | seqFailed {second : Code α} {s : σ} : Step exec (.seq .failed second, s) (.failed, s)
  | parStep {before after : List (Code α)} {c c' : Code α} {s s' : σ}
      (h : Step exec (c, s) (c', s')) :
      Step exec (.par (before ++ c :: after), s) (.par (before ++ c' :: after), s')
  | parDone {branches : List (Code α)} {s : σ} (h : ∀ c ∈ branches, c = .done) :
      Step exec (.par branches, s) (.done, s)
  /-- The others are dropped where they stand. -/
  | parFailed {branches : List (Code α)} {s : σ} (h : .failed ∈ branches) :
      Step exec (.par branches, s) (.failed, s)

/-- Any number of steps. -/
abbrev Reaches (exec : α → σ → σ → Code α → Prop) : Code α × σ → Code α × σ → Prop :=
  Relation.ReflTransGen (Step exec)

/-- A step changes the state the way some action does, or not at all. -/
theorem Step.state {exec : α → σ → σ → Code α → Prop} {x y : Code α × σ} (h : Step exec x y) :
    y.2 = x.2 ∨ ∃ a rest, exec a x.2 y.2 rest := by
  induction h with
  | act h => exact Or.inr ⟨_, _, h⟩
  | seqStep _ ih => exact ih
  | seqDone => exact Or.inl rfl
  | seqFailed => exact Or.inl rfl
  | parStep _ ih => exact ih
  | parDone _ => exact Or.inl rfl
  | parFailed _ => exact Or.inl rfl

/-- **The invariant rule.** What every action preserves, every run preserves. -/
theorem Reaches.invariant {exec : α → σ → σ → Code α → Prop} {Inv : σ → Prop}
    (hstep : ∀ a s s' rest, exec a s s' rest → Inv s → Inv s') {x y : Code α × σ}
    (h : Reaches exec x y) (hinit : Inv x.2) : Inv y.2 := by
  induction h with
  | refl => exact hinit
  | tail _ hlast ih =>
      rcases hlast.state with heq | ⟨a, rest, hexec⟩
      · rw [heq]
        exact ih
      · exact hstep a _ _ rest hexec ih

/-- A run of the first program is a run of the two in sequence. -/
theorem Reaches.inSeq {exec : α → σ → σ → Code α → Prop} {c c' : Code α} {s s' : σ}
    (h : Reaches exec (c, s) (c', s')) (second : Code α) :
    Reaches exec (.seq c second, s) (.seq c' second, s') :=
  Relation.ReflTransGen.lift (fun x : Code α × σ => (Code.seq x.1 second, x.2))
    (fun _ _ hstep => Step.seqStep hstep) _ _ h

/-- The second program runs when the first is done. -/
theorem Reaches.seq {exec : α → σ → σ → Code α → Prop} {c second c' : Code α} {s s' s'' : σ}
    (h : Reaches exec (c, s) (.done, s')) (h' : Reaches exec (second, s') (c', s'')) :
    Reaches exec (.seq c second, s) (c', s'') :=
  (h.inSeq second).trans (.head .seqDone h')

/-- A run of one branch is a run of all. -/
theorem Reaches.inPar {exec : α → σ → σ → Code α → Prop} {c c' : Code α} {s s' : σ}
    (h : Reaches exec (c, s) (c', s')) (before after : List (Code α)) :
    Reaches exec (.par (before ++ c :: after), s) (.par (before ++ c' :: after), s') :=
  Relation.ReflTransGen.lift (fun x : Code α × σ => (Code.par (before ++ x.1 :: after), x.2))
    (fun _ _ hstep => Step.parStep hstep) _ _ h

/-- A step under fewer actions is a step. -/
theorem Step.mono {exec exec' : α → σ → σ → Code α → Prop}
    (hsub : ∀ a s s' rest, exec a s s' rest → exec' a s s' rest) {x y : Code α × σ}
    (h : Step exec x y) : Step exec' x y := by
  induction h with
  | act h => exact .act (hsub _ _ _ _ h)
  | seqStep _ ih => exact .seqStep ih
  | seqDone => exact .seqDone
  | seqFailed => exact .seqFailed
  | parStep _ ih => exact .parStep ih
  | parDone h => exact .parDone h
  | parFailed h => exact .parFailed h

/-- A run under fewer actions is a run. -/
theorem Reaches.mono {exec exec' : α → σ → σ → Code α → Prop}
    (hsub : ∀ a s s' rest, exec a s s' rest → exec' a s s' rest) {x y : Code α × σ}
    (h : Reaches exec x y) : Reaches exec' x y := by
  induction h with
  | refl => exact .refl
  | tail _ hlast ih => exact .tail ih (hlast.mono hsub)

end

end ConformanceHarness.Lib

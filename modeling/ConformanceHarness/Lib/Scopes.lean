import Mathlib.Data.List.Perm.Basic
import Mathlib.Logic.Relation

/-!
# Scopes that own what they hold

Structured concurrency with errors and destructors. A program is a tree: atomic actions, an
action with a body during which it is *held*, a body with what follows on success and on an
error, and branches that run side by side. The first branch that fails takes the others down
with it, wherever they stand.

What a scope holds is released when the scope ends, with an error or without, and also when a
branch around it is dropped in the middle. The actions that a program is at, and those it holds
at that point, are its `live` actions: they are what is dropped with a branch.

Nothing here is about a particular program. `Keeps` is what a user has to show of single
actions, and `Keeps.reaches` is the rule: an invariant of the state and of the live actions
holds after any interleaving. `Simulates` relates two machines, and `Simulates.reachesIn` their
runs. `ReachesIn.bind_cases` takes a run of a sequence apart, and `Triple` is what is known of a state once a part of a program has come to an end, and `Throughout`
what is known of all the states on the way.
-/

namespace ConformanceHarness.Lib

/-- A program over the actions `α` that can fail with an `ε`, or what is left of one. -/
inductive Scope (α ε : Type) where
  | done
  | failed (e : ε)
  | act (a : α)
  /-- `a` is held until the body has come to an end. -/
  | hold (a : α) (body : Scope α ε)
  | bind (body onOk : Scope α ε) (onErr : ε → Scope α ε)
  /-- Branches side by side. -/
  | par (branches : List (Scope α ε))

namespace Scope

variable {α ε : Type}

/-- One after the other; the second is not started if the first fails. -/
def seq (first second : Scope α ε) : Scope α ε := bind first second failed

/-- The second follows, however the first ends. -/
def always (first second : Scope α ε) : Scope α ε := bind first second fun _ => second

/-- Programs one after the other, whether they fail or not, and then `last`. -/
def alwaysAll (cs : List (Scope α ε)) (last : Scope α ε) : Scope α ε := cs.foldr always last

/-- It has come to an end. -/
inductive Finished : Scope α ε → Prop where
  | done : Finished done
  | failed (e : ε) : Finished (failed e)

mutual

/-- The actions a program is at, and those it holds there. -/
def live : Scope α ε → List α
  | done => []
  | failed _ => []
  | act a => [a]
  | hold a body => a :: live body
  | bind body _ _ => live body
  | par branches => liveAll branches

def liveAll : List (Scope α ε) → List α
  | [] => []
  | c :: rest => live c ++ liveAll rest

end

theorem liveAll_append (before after : List (Scope α ε)) :
    liveAll (before ++ after) = liveAll before ++ liveAll after := by
  induction before with
  | nil => rfl
  | cons c rest ih => rw [List.cons_append, liveAll, liveAll, ih, List.append_assoc]

/-- Every action of the program has `P`. -/
inductive All (P : α → Prop) : Scope α ε → Prop where
  | done : All P done
  | failed (e : ε) : All P (failed e)
  | act {a : α} (h : P a) : All P (act a)
  | hold {a : α} {body : Scope α ε} (h : P a) (hbody : All P body) : All P (hold a body)
  | bind {body onOk : Scope α ε} {onErr : ε → Scope α ε} (hbody : All P body) (hok : All P onOk)
      (herr : ∀ e, All P (onErr e)) : All P (bind body onOk onErr)
  | par {branches : List (Scope α ε)} (h : ∀ c ∈ branches, All P c) : All P (par branches)

/-- Every action that the program has not come to yet has `P`. -/
inductive Later (P : α → Prop) : Scope α ε → Prop where
  | done : Later P done
  | failed (e : ε) : Later P (failed e)
  | act (a : α) : Later P (act a)
  | hold (a : α) {body : Scope α ε} (hbody : Later P body) : Later P (hold a body)
  | bind {body onOk : Scope α ε} {onErr : ε → Scope α ε} (hbody : Later P body)
      (hok : All P onOk) (herr : ∀ e, All P (onErr e)) : Later P (bind body onOk onErr)
  | par {branches : List (Scope α ε)} (h : ∀ c ∈ branches, Later P c) : Later P (par branches)

section

variable {P Q : α → Prop}

theorem All.imp (himp : ∀ a, P a → Q a) {c : Scope α ε} (h : All P c) : All Q c := by
  induction h with
  | done => exact .done
  | failed e => exact .failed e
  | act h => exact .act (himp _ h)
  | hold h _ ih => exact .hold (himp _ h) ih
  | bind _ _ _ ihbody ihok iherr => exact .bind ihbody ihok iherr
  | par _ ih => exact .par ih

theorem All.and {c : Scope α ε} (h : All P c) (h' : All Q c) : All (fun a => P a ∧ Q a) c := by
  induction h with
  | done => exact .done
  | failed e => exact .failed e
  | act h =>
    cases h' with
    | act h' => exact .act ⟨h, h'⟩
  | hold h _ ih =>
    cases h' with
    | hold h' hbody => exact .hold ⟨h, h'⟩ (ih hbody)
  | bind _ _ _ ihbody ihok iherr =>
    cases h' with
    | bind hbody hok herr => exact .bind (ihbody hbody) (ihok hok) fun e => iherr e (herr e)
  | par _ ih =>
    cases h' with
    | par h' => exact .par fun c hc => ih c hc (h' c hc)

theorem All.later {c : Scope α ε} (h : All P c) : Later P c := by
  induction h with
  | done => exact .done
  | failed e => exact .failed e
  | act _ => exact .act _
  | hold _ _ ih => exact .hold _ ih
  | bind _ hok herr ihbody _ _ => exact .bind ihbody hok herr
  | par _ ih => exact .par ih

theorem mem_liveAll {branches : List (Scope α ε)} {a : α} :
    a ∈ liveAll branches ↔ ∃ c ∈ branches, a ∈ live c := by
  induction branches with
  | nil => simp [liveAll]
  | cons c rest ih => simp [liveAll, ih]

theorem All.live {c : Scope α ε} (h : All P c) : ∀ a ∈ live c, P a := by
  induction h with
  | done => simp [Scope.live]
  | failed e => simp [Scope.live]
  | act h => simpa [Scope.live] using h
  | hold h _ ih => simpa [Scope.live] using And.intro h ih
  | bind _ _ _ ihbody _ _ => exact ihbody
  | par _ ih =>
    intro a ha
    rw [Scope.live] at ha
    obtain ⟨c, hc, hmem⟩ := mem_liveAll.mp ha
    exact ih c hc a hmem

theorem All.seq {first second : Scope α ε} (h : All P first) (h' : All P second) :
    All P (first.seq second) := .bind h h' .failed

theorem All.always {first second : Scope α ε} (h : All P first) (h' : All P second) :
    All P (first.always second) := .bind h h' fun _ => h'

theorem All.alwaysAll {cs : List (Scope α ε)} {last : Scope α ε} (h : ∀ c ∈ cs, All P c)
    (hlast : All P last) : All P (alwaysAll cs last) := by
  induction cs with
  | nil => exact hlast
  | cons c rest ih =>
    have hrest := ih fun d hd => h d (List.mem_cons_of_mem _ hd)
    exact (h c List.mem_cons_self).always hrest

end

/-- A program that has come to an end has no live actions. -/
theorem Finished.live {c : Scope α ε} (h : Finished c) : live c = [] := by
  cases h <;> rfl

end Scope

open Scope

/-- What the actions of a program do. -/
structure Machine (α ε σ : Type) where
  /-- What an action can do to the state, and what it leaves to do. The first argument is what
  the scopes around it hold, innermost first. -/
  exec : List α → α → σ → σ → Scope α ε → Prop
  /-- What becomes of the state when a live action is dropped, or what is held is released. -/
  drop : α → σ → σ
  /-- What the surroundings can do at any time. -/
  ambient : σ → σ → Prop

namespace Machine

variable {α ε σ : Type}

/-- The machine whose actions are only executed where `C` holds. -/
def when (M : Machine α ε σ) (C : α → σ → Prop) : Machine α ε σ :=
  { M with exec := fun held a s s' rest => C a s ∧ M.exec held a s s' rest }

/-- Several live actions are dropped, one after the other. -/
def dropAll (M : Machine α ε σ) (as : List α) (s : σ) : σ := as.foldl (fun s a => M.drop a s) s

end Machine

section

variable {α ε σ : Type}

/-- One step of one branch, or of the surroundings. -/
inductive Scope.Step (M : Machine α ε σ) :
    List α → Scope α ε → σ → Scope α ε → σ → Prop where
  | act {held : List α} {a : α} {s s' : σ} {rest : Scope α ε} (h : M.exec held a s s' rest) :
      Step M held (.act a) s rest s'
  | ambient {held : List α} {c : Scope α ε} {s s' : σ} (h : M.ambient s s') :
      Step M held c s c s'
  | holdStep {held : List α} {a : α} {body body' : Scope α ε} {s s' : σ}
      (h : Step M (a :: held) body s body' s') : Step M held (.hold a body) s (.hold a body') s'
  | holdDone {held : List α} {a : α} {s : σ} : Step M held (.hold a .done) s .done (M.drop a s)
  | holdFailed {held : List α} {a : α} {s : σ} {e : ε} :
      Step M held (.hold a (.failed e)) s (.failed e) (M.drop a s)
  | bindStep {held : List α} {body body' onOk : Scope α ε} {onErr : ε → Scope α ε} {s s' : σ}
      (h : Step M held body s body' s') :
      Step M held (.bind body onOk onErr) s (.bind body' onOk onErr) s'
  | bindDone {held : List α} {onOk : Scope α ε} {onErr : ε → Scope α ε} {s : σ} :
      Step M held (.bind .done onOk onErr) s onOk s
  | bindFailed {held : List α} {onOk : Scope α ε} {onErr : ε → Scope α ε} {s : σ} {e : ε} :
      Step M held (.bind (.failed e) onOk onErr) s (onErr e) s
  /-- A branch goes on, as long as none has failed. -/
  | branchStep {held : List α} {before after : List (Scope α ε)} {c c' : Scope α ε} {s s' : σ}
      (hgoing : ∀ e, .failed e ∉ before ++ after) (h : Step M held c s c' s') :
      Step M held (.par (before ++ c :: after)) s (.par (before ++ c' :: after)) s'
  | parDone {held : List α} {branches : List (Scope α ε)} {s : σ}
      (h : ∀ c ∈ branches, c = .done) : Step M held (.par branches) s .done s
  /-- The others are dropped where they stand, in any order. -/
  | parFailed {held order : List α} {branches : List (Scope α ε)} {s : σ} {e : ε}
      (h : .failed e ∈ branches) (horder : order.Perm (liveAll branches)) :
      Step M held (.par branches) s (.failed e) (M.dropAll order s)

/-- Any number of steps. -/
abbrev Scope.ReachesIn (M : Machine α ε σ) (held : List α) :
    Scope α ε × σ → Scope α ε × σ → Prop :=
  Relation.ReflTransGen fun x y => Scope.Step M held x.1 x.2 y.1 y.2

/-- A run of a whole program. -/
abbrev Scope.Reaches (M : Machine α ε σ) : Scope α ε × σ → Scope α ε × σ → Prop :=
  ReachesIn M []

/-! ## The invariant rules -/

/-- What a user shows of an invariant of the state and the live actions, and of a property of all
the actions of the program. An action is `Fresh` if it holds nothing yet, so that it may be
started at any time. -/
structure Keeps (M : Machine α ε σ) (P Fresh : α → Prop) (I : List α → σ → Prop) : Prop where
  perm : ∀ {l l' : List α} {s : σ}, l.Perm l' → I l s → I l' s
  exec : ∀ {held others : List α} {a : α} {s s' : σ} {rest : Scope α ε},
    M.exec held a s s' rest → P a → I (a :: (held ++ others)) s →
      I (live rest ++ (held ++ others)) s'
  leaves : ∀ {held : List α} {a : α} {s s' : σ} {rest : Scope α ε},
    M.exec held a s s' rest → P a → All P rest ∧ Later Fresh rest
  start : ∀ {a : α} {l : List α} {s : σ}, Fresh a → I l s → I (a :: l) s
  drop : ∀ {a : α} {l : List α} {s : σ}, I (a :: l) s → I l (M.drop a s)
  ambient : ∀ {l : List α} {s s' : σ}, M.ambient s s' → I l s → I l s'

namespace Keeps

variable {M : Machine α ε σ} {P Fresh : α → Prop} {I : List α → σ → Prop}

theorem startAll (hI : Keeps M P Fresh I) {new l : List α} {s : σ} (hnew : ∀ a ∈ new, Fresh a)
    (h : I l s) : I (new ++ l) s := by
  induction new with
  | nil => exact h
  | cons a rest ih =>
    have hrest := ih fun b hb => hnew b (List.mem_cons_of_mem _ hb)
    exact hI.start (hnew a List.mem_cons_self) hrest

theorem dropAll (hI : Keeps M P Fresh I) {as l : List α} {s : σ} (h : I (as ++ l) s) :
    I l (M.dropAll as s) := by
  induction as generalizing s with
  | nil => exact h
  | cons a rest ih => exact ih (hI.drop h)

/-- A body sees what is held around it among the others. -/
theorem live_hold (a : α) (body : Scope α ε) (held others : List α) :
    (live (.hold a body) ++ (held ++ others)).Perm (live body ++ ((a :: held) ++ others)) :=
  List.perm_middle.symm

/-- A branch sees the live actions of the other branches among the others. -/
theorem live_par (before after : List (Scope α ε)) (c : Scope α ε) (held others : List α) :
    (live (.par (before ++ c :: after)) ++ (held ++ others)).Perm
      (live c ++ (held ++ (others ++ (liveAll before ++ liveAll after)))) := by
  rw [live, liveAll_append, liveAll]
  have hfirst : (liveAll before ++ (live c ++ liveAll after)).Perm
      (live c ++ (liveAll before ++ liveAll after)) := by
    rw [← List.append_assoc, ← List.append_assoc]
    exact List.perm_append_comm.append_right _
  refine (hfirst.append_right _).trans ?_
  rw [List.append_assoc]
  refine List.Perm.append_left _ ?_
  refine List.perm_append_comm.trans ?_
  rw [List.append_assoc]

/-- One step. -/
theorem step (hI : Keeps M P Fresh I) {held : List α} {c c' : Scope α ε} {s s' : σ}
    (h : Scope.Step M held c s c' s') (hall : All P c) (hlater : Later Fresh c) :
    (All P c' ∧ Later Fresh c') ∧ ∀ others, I (live c ++ (held ++ others)) s →
      I (live c' ++ (held ++ others)) s' := by
  induction h with
  | act h =>
    cases hall with
    | act ha => exact ⟨hI.leaves h ha, fun others hinv => hI.exec h ha hinv⟩
  | ambient h => exact ⟨⟨hall, hlater⟩, fun others hinv => hI.ambient h hinv⟩
  | @holdStep held a body body' s s' _ ih =>
    -- what is held moves to the others while the body takes its step
    cases hall with
    | hold ha hbodyAll =>
      cases hlater with
      | hold _ hbody =>
        obtain ⟨⟨hall', hlater'⟩, hstep⟩ := ih hbodyAll hbody
        refine ⟨⟨.hold ha hall', .hold _ hlater'⟩, ?_⟩
        intro others hinv
        have hbefore := hI.perm (live_hold a body held others) hinv
        exact hI.perm (live_hold a body' held others).symm (hstep others hbefore)
  | holdDone => exact ⟨⟨.done, .done⟩, fun others hinv => hI.drop hinv⟩
  | holdFailed => exact ⟨⟨.failed _, .failed _⟩, fun others hinv => hI.drop hinv⟩
  | bindStep _ ih =>
    cases hall with
    | bind hbodyAll hokAll herrAll =>
      cases hlater with
      | bind hbody hok herr =>
        obtain ⟨⟨hall', hlater'⟩, hstep⟩ := ih hbodyAll hbody
        exact ⟨⟨.bind hall' hokAll herrAll, .bind hlater' hok herr⟩, hstep⟩
  | bindDone =>
    cases hall with
    | bind _ hokAll _ =>
      cases hlater with
      | bind _ hok _ => exact ⟨⟨hokAll, hok.later⟩, fun others hinv => hI.startAll hok.live hinv⟩
  | @bindFailed _ _ _ _ e =>
    cases hall with
    | bind _ _ herrAll =>
      cases hlater with
      | bind _ _ herr =>
        exact ⟨⟨herrAll e, (herr e).later⟩, fun others hinv => hI.startAll (herr e).live hinv⟩
  | @branchStep held before after c c' s s' _ _ ih =>
    -- the other branches are among the others while this one takes its step
    cases hall with
    | par hbranchesAll =>
      cases hlater with
      | par hbranches =>
        obtain ⟨⟨hall', hlater'⟩, hstep⟩ := ih (hbranchesAll c List.mem_append_cons_self)
          (hbranches c List.mem_append_cons_self)
        have hrest : ∀ {Q : Scope α ε → Prop}, (∀ d ∈ before ++ c :: after, Q d) → Q c' →
            ∀ d ∈ before ++ c' :: after, Q d := by
          intro Q hbefore hc' d hd
          rcases List.mem_append.mp hd with hd | hd
          · exact hbefore d (List.mem_append_left _ hd)
          · rcases List.mem_cons.mp hd with rfl | hd
            · exact hc'
            · exact hbefore d (List.mem_append_right _ (List.mem_cons_of_mem _ hd))
        refine ⟨⟨.par (hrest hbranchesAll hall'), .par (hrest hbranches hlater')⟩, ?_⟩
        intro others hinv
        have hbefore := hI.perm (live_par before after c held others) hinv
        exact hI.perm (live_par before after c' held others).symm (hstep _ hbefore)
  | parDone h =>
    refine ⟨⟨.done, .done⟩, ?_⟩
    intro others hinv
    rename_i branches s
    -- a branch that is done has no live action
    have hnone : liveAll branches = [] := by
      refine List.eq_nil_iff_forall_not_mem.mpr ?_
      intro a ha
      obtain ⟨c, hc, hmem⟩ := mem_liveAll.mp ha
      rw [h c hc] at hmem
      exact nomatch hmem
    rwa [live, hnone] at hinv
  | parFailed _ horder =>
    refine ⟨⟨.failed _, .failed _⟩, ?_⟩
    intro others hinv
    -- the live actions of every branch are dropped, in the order they are met
    exact hI.dropAll (hI.perm (horder.symm.append_right _) hinv)

/-- **The invariant rule**, next to other programs that stand still. -/
theorem reachesBeside (hI : Keeps M P Fresh I) {held others : List α} {x y : Scope α ε × σ}
    (h : ReachesIn M held x y) (hall : All P x.1) (hlater : Later Fresh x.1)
    (hinit : I (live x.1 ++ (held ++ others)) x.2) :
    (All P y.1 ∧ Later Fresh y.1) ∧ I (live y.1 ++ (held ++ others)) y.2 := by
  induction h with
  | refl => exact ⟨⟨hall, hlater⟩, hinit⟩
  | tail _ hlast ih =>
    obtain ⟨⟨hallBefore, hlaterBefore⟩, hinv⟩ := ih
    obtain ⟨hafter, hstep⟩ := hI.step hlast hallBefore hlaterBefore
    exact ⟨hafter, hstep others hinv⟩

/-- **The invariant rule.** -/
theorem reachesIn (hI : Keeps M P Fresh I) {held : List α} {x y : Scope α ε × σ}
    (h : ReachesIn M held x y) (hall : All P x.1) (hlater : Later Fresh x.1)
    (hinit : I (live x.1 ++ held) x.2) :
    (All P y.1 ∧ Later Fresh y.1) ∧ I (live y.1 ++ held) y.2 := by
  have hinv := @reachesBeside _ _ _ _ _ _ _ hI held [] x y h hall hlater
  rw [List.append_nil] at hinv
  exact hinv hinit

theorem reaches (hI : Keeps M P Fresh I) {x y : Scope α ε × σ} (h : Scope.Reaches M x y)
    (hall : All P x.1) (hlater : Later Fresh x.1) (hinit : I (live x.1) x.2) :
    (All P y.1 ∧ Later Fresh y.1) ∧ I (live y.1) y.2 := by
  have hinv := hI.reachesIn h hall hlater (by rwa [List.append_nil])
  rwa [List.append_nil] at hinv

end Keeps

/-- What a user shows of an invariant of the state alone, and of a property of all the actions
of the program. -/
structure Preserves (M : Machine α ε σ) (P : α → Prop) (Inv : σ → Prop) : Prop where
  exec : ∀ {held : List α} {a : α} {s s' : σ} {rest : Scope α ε},
    M.exec held a s s' rest → P a → Inv s → Inv s' ∧ All P rest
  drop : ∀ {a : α} {s : σ}, Inv s → Inv (M.drop a s)
  ambient : ∀ {s s' : σ}, M.ambient s s' → Inv s → Inv s'

namespace Preserves

variable {M : Machine α ε σ} {P : α → Prop} {Inv : σ → Prop}

theorem dropAll (hInv : Preserves M P Inv) {as : List α} {s : σ} (h : Inv s) :
    Inv (M.dropAll as s) := by
  induction as generalizing s with
  | nil => exact h
  | cons a rest ih => exact ih (hInv.drop h)

theorem step (hInv : Preserves M P Inv) {held : List α} {c c' : Scope α ε} {s s' : σ}
    (h : Scope.Step M held c s c' s') (hall : All P c) (hinit : Inv s) : All P c' ∧ Inv s' := by
  induction h with
  | act h =>
    cases hall with
    | act ha => exact (hInv.exec h ha hinit).symm
  | ambient h => exact ⟨hall, hInv.ambient h hinit⟩
  | holdStep _ ih =>
    cases hall with
    | hold ha hbody =>
      obtain ⟨hbody', hinv⟩ := ih hbody hinit
      exact ⟨.hold ha hbody', hinv⟩
  | holdDone => exact ⟨.done, hInv.drop hinit⟩
  | holdFailed => exact ⟨.failed _, hInv.drop hinit⟩
  | bindStep _ ih =>
    cases hall with
    | bind hbody hok herr =>
      obtain ⟨hbody', hinv⟩ := ih hbody hinit
      exact ⟨.bind hbody' hok herr, hinv⟩
  | bindDone =>
    cases hall with
    | bind _ hok _ => exact ⟨hok, hinit⟩
  | @bindFailed _ _ _ _ e =>
    cases hall with
    | bind _ _ herr => exact ⟨herr e, hinit⟩
  | branchStep _ _ ih =>
    cases hall with
    | par hbranches =>
      obtain ⟨hbranch, hinv⟩ := ih (hbranches _ List.mem_append_cons_self) hinit
      refine ⟨.par ?_, hinv⟩
      intro d hd
      rcases List.mem_append.mp hd with hd | hd
      · exact hbranches d (List.mem_append_left _ hd)
      · rcases List.mem_cons.mp hd with rfl | hd
        · exact hbranch
        · exact hbranches d (List.mem_append_right _ (List.mem_cons_of_mem _ hd))
  | parDone _ => exact ⟨.done, hinit⟩
  | parFailed _ _ => exact ⟨.failed _, hInv.dropAll hinit⟩

/-- **The invariant rule**, for the state alone. -/
theorem reachesIn (hInv : Preserves M P Inv) {held : List α} {x y : Scope α ε × σ}
    (h : ReachesIn M held x y) (hall : All P x.1) (hinit : Inv x.2) : All P y.1 ∧ Inv y.2 := by
  induction h with
  | refl => exact ⟨hall, hinit⟩
  | tail _ hlast ih => exact hInv.step hlast ih.1 ih.2

end Preserves

/-! ## Runs, put together and taken apart -/

variable {M : Machine α ε σ} {held : List α}

theorem Scope.ReachesIn.exec {a : α} {s s' : σ} {rest : Scope α ε}
    (h : M.exec held a s s' rest) : ReachesIn M held (.act a, s) (rest, s') := .single (.act h)

theorem Scope.ReachesIn.inBind {c c' onOk : Scope α ε} {onErr : ε → Scope α ε} {s s' : σ}
    (h : ReachesIn M held (c, s) (c', s')) :
    ReachesIn M held (.bind c onOk onErr, s) (.bind c' onOk onErr, s') :=
  Relation.ReflTransGen.lift (fun x : Scope α ε × σ => (Scope.bind x.1 onOk onErr, x.2))
    (fun _ _ hstep => Step.bindStep hstep) _ _ h

/-- What follows a program that is done. -/
theorem Scope.ReachesIn.bind {c onOk c' : Scope α ε} {onErr : ε → Scope α ε} {s s' s'' : σ}
    (h : ReachesIn M held (c, s) (.done, s')) (h' : ReachesIn M held (onOk, s') (c', s'')) :
    ReachesIn M held (.bind c onOk onErr, s) (c', s'') :=
  h.inBind.trans (.head .bindDone h')

theorem Scope.ReachesIn.inHold {a : α} {c c' : Scope α ε} {s s' : σ}
    (h : ReachesIn M (a :: held) (c, s) (c', s')) :
    ReachesIn M held (.hold a c, s) (.hold a c', s') :=
  Relation.ReflTransGen.lift (fun x : Scope α ε × σ => (Scope.hold a x.1, x.2))
    (fun _ _ hstep => Step.holdStep hstep) _ _ h

/-- A branch next to branches that have not failed. -/
theorem Scope.ReachesIn.inBranch {before after : List (Scope α ε)} {c c' : Scope α ε} {s s' : σ}
    (hgoing : ∀ e, .failed e ∉ before ++ after) (h : ReachesIn M held (c, s) (c', s')) :
    ReachesIn M held (.par (before ++ c :: after), s) (.par (before ++ c' :: after), s') :=
  Relation.ReflTransGen.lift
    (fun x : Scope α ε × σ => (Scope.par (before ++ x.1 :: after), x.2))
    (fun _ _ hstep => Step.branchStep hgoing hstep) _ _ h

/-- Where a run of a program with a continuation can be. -/
theorem Scope.ReachesIn.bind_cases {c onOk : Scope α ε} {onErr : ε → Scope α ε} {s : σ}
    {y : Scope α ε × σ} (h : ReachesIn M held (.bind c onOk onErr, s) y) :
    (∃ c', y.1 = .bind c' onOk onErr ∧ ReachesIn M held (c, s) (c', y.2)) ∨
      (∃ s', ReachesIn M held (c, s) (.done, s') ∧ ReachesIn M held (onOk, s') y) ∨
      ∃ e s', ReachesIn M held (c, s) (.failed e, s') ∧ ReachesIn M held (onErr e, s') y := by
  induction h with
  | refl => exact Or.inl ⟨c, rfl, .refl⟩
  | @tail x y _ hlast ih =>
    rcases ih with ⟨c', hx, hruns⟩ | ⟨s', hruns, hafter⟩ | ⟨e, s', hruns, hafter⟩
    · obtain ⟨x, t⟩ := x
      obtain ⟨y, t'⟩ := y
      dsimp only at hx hlast hruns ⊢
      subst hx
      cases hlast with
      | ambient h => exact Or.inl ⟨c', rfl, hruns.tail (.ambient h)⟩
      | bindStep h => exact Or.inl ⟨_, rfl, hruns.tail h⟩
      | bindDone => exact Or.inr (Or.inl ⟨_, hruns, .refl⟩)
      | bindFailed => exact Or.inr (Or.inr ⟨_, _, hruns, .refl⟩)
    · exact Or.inr (Or.inl ⟨s', hruns, hafter.tail hlast⟩)
    · exact Or.inr (Or.inr ⟨e, s', hruns, hafter.tail hlast⟩)

/-- A program that has come to an end stays so, whatever the surroundings do. -/
theorem Scope.ReachesIn.finished_cases {c : Scope α ε} {s : σ} {y : Scope α ε × σ}
    (h : ReachesIn M held (c, s) y) (hc : Finished c) :
    y.1 = c ∧ Relation.ReflTransGen M.ambient s y.2 := by
  induction h with
  | refl => exact ⟨rfl, .refl⟩
  | @tail x y _ hlast ih =>
    obtain ⟨x, t⟩ := x
    obtain ⟨y, t'⟩ := y
    obtain ⟨rfl, hambient⟩ := ih
    dsimp only at hlast
    cases hc with
    | done =>
      cases hlast with
      | ambient h => exact ⟨rfl, hambient.tail h⟩
    | failed e =>
      cases hlast with
      | ambient h => exact ⟨rfl, hambient.tail h⟩

/-- Where a run of an action can be. -/
theorem Scope.ReachesIn.act_cases {a : α} {s : σ} {y : Scope α ε × σ}
    (h : ReachesIn M held (.act a, s) y) :
    (y.1 = .act a ∧ Relation.ReflTransGen M.ambient s y.2) ∨
      ∃ t t' rest, Relation.ReflTransGen M.ambient s t ∧ M.exec held a t t' rest ∧
        ReachesIn M held (rest, t') y := by
  induction h with
  | refl => exact Or.inl ⟨rfl, .refl⟩
  | @tail x y _ hlast ih =>
    rcases ih with ⟨hx, hambient⟩ | ⟨t, t', rest, hambient, hexec, hafter⟩
    · obtain ⟨x, t⟩ := x
      obtain ⟨y, t'⟩ := y
      obtain rfl : x = .act a := hx
      dsimp only at hlast
      cases hlast with
      | ambient h => exact Or.inl ⟨rfl, hambient.tail h⟩
      | act h => exact Or.inr ⟨t, _, _, hambient, h, .refl⟩
    · exact Or.inr ⟨t, t', rest, hambient, hexec, hafter.tail hlast⟩

/-- What `M` can do from a state, `N` can do from every state that is related to it. -/
structure Machine.Simulates {τ : Type} (M : Machine α ε σ) (N : Machine α ε τ)
    (R : σ → τ → Prop) : Prop where
  exec : ∀ {held : List α} {a : α} {s s' : σ} {rest : Scope α ε} {t : τ},
    M.exec held a s s' rest → R s t → ∃ t', N.exec held a t t' rest ∧ R s' t'
  drop : ∀ {a : α} {s : σ} {t : τ}, R s t → R (M.drop a s) (N.drop a t)
  ambient : ∀ {s s' : σ} {t : τ}, M.ambient s s' → R s t → ∃ t', N.ambient t t' ∧ R s' t'

namespace Machine.Simulates

variable {τ : Type} {N : Machine α ε τ} {R : σ → τ → Prop}

theorem dropAll (hsim : M.Simulates N R) {as : List α} {s : σ} {t : τ} (h : R s t) :
    R (M.dropAll as s) (N.dropAll as t) := by
  induction as generalizing s t with
  | nil => exact h
  | cons a rest ih => exact ih (hsim.drop h)

theorem step (hsim : M.Simulates N R) {c c' : Scope α ε} {s s' : σ} {t : τ}
    (h : Scope.Step M held c s c' s') (hR : R s t) : ∃ t', Scope.Step N held c t c' t' ∧ R s' t' := by
  induction h with
  | act h =>
    obtain ⟨t', hexec, hR'⟩ := hsim.exec h hR
    exact ⟨t', .act hexec, hR'⟩
  | ambient h =>
    obtain ⟨t', hambient, hR'⟩ := hsim.ambient h hR
    exact ⟨t', .ambient hambient, hR'⟩
  | holdStep _ ih =>
    obtain ⟨t', hstep, hR'⟩ := ih hR
    exact ⟨t', .holdStep hstep, hR'⟩
  | holdDone => exact ⟨_, .holdDone, hsim.drop hR⟩
  | holdFailed => exact ⟨_, .holdFailed, hsim.drop hR⟩
  | bindStep _ ih =>
    obtain ⟨t', hstep, hR'⟩ := ih hR
    exact ⟨t', .bindStep hstep, hR'⟩
  | bindDone => exact ⟨t, .bindDone, hR⟩
  | bindFailed => exact ⟨t, .bindFailed, hR⟩
  | branchStep hgoing _ ih =>
    obtain ⟨t', hstep, hR'⟩ := ih hR
    exact ⟨t', .branchStep hgoing hstep, hR'⟩
  | parDone h => exact ⟨t, .parDone h, hR⟩
  | parFailed h horder => exact ⟨_, .parFailed h horder, hsim.dropAll hR⟩

/-- **The simulation rule.** -/
theorem reachesIn (hsim : M.Simulates N R) {x y : Scope α ε × σ} {t : τ}
    (h : ReachesIn M held x y) (hR : R x.2 t) :
    ∃ t', ReachesIn N held (x.1, t) (y.1, t') ∧ R y.2 t' := by
  induction h with
  | refl => exact ⟨t, .refl, hR⟩
  | tail _ hlast ih =>
    obtain ⟨t₁, hruns, hR₁⟩ := ih
    obtain ⟨t₂, hstep, hR₂⟩ := hsim.step hlast hR₁
    exact ⟨t₂, hruns.tail hstep, hR₂⟩

end Machine.Simulates

theorem Scope.Step.of_when {C : α → σ → Prop} {c c' : Scope α ε} {s s' : σ}
    (h : Scope.Step (M.when C) held c s c' s') : Scope.Step M held c s c' s' := by
  induction h with
  | act h => exact .act h.2
  | ambient h => exact .ambient h
  | holdStep _ ih => exact .holdStep ih
  | holdDone => exact .holdDone
  | holdFailed => exact .holdFailed
  | bindStep _ ih => exact .bindStep ih
  | bindDone => exact .bindDone
  | bindFailed => exact .bindFailed
  | branchStep hgoing _ ih => exact .branchStep hgoing ih
  | parDone h => exact .parDone h
  | parFailed h horder => exact .parFailed h horder

/-- A run whose actions are executed under a condition is a run. -/
theorem Scope.ReachesIn.of_when {C : α → σ → Prop} {x y : Scope α ε × σ}
    (h : ReachesIn (M.when C) held x y) : ReachesIn M held x y := by
  induction h with
  | refl => exact .refl
  | tail _ hlast ih => exact .tail ih hlast.of_when

/-- A step of a program whose actions are only executed where the condition holds. -/
theorem Preserves.step_when {P : α → Prop} {Inv : σ → Prop} {C : α → σ → Prop}
    (hC : ∀ a s, P a → Inv s → C a s) {c c' : Scope α ε} {s s' : σ}
    (h : Scope.Step M held c s c' s') (hall : All P c) (hinv : Inv s) :
    Scope.Step (M.when C) held c s c' s' := by
  induction h with
  | act h =>
    cases hall with
    | act ha => exact .act ⟨hC _ _ ha hinv, h⟩
  | ambient h => exact .ambient h
  | holdStep _ ih =>
    cases hall with
    | hold _ hbody => exact .holdStep (ih hbody hinv)
  | holdDone => exact .holdDone
  | holdFailed => exact .holdFailed
  | bindStep _ ih =>
    cases hall with
    | bind hbody _ _ => exact .bindStep (ih hbody hinv)
  | bindDone => exact .bindDone
  | bindFailed => exact .bindFailed
  | branchStep hgoing _ ih =>
    cases hall with
    | par hbranches => exact .branchStep hgoing (ih (hbranches _ List.mem_append_cons_self) hinv)
  | parDone h => exact .parDone h
  | parFailed h horder => exact .parFailed h horder

/-- A run of a program whose actions are only executed where the condition holds. -/
theorem Preserves.reachesIn_when {P : α → Prop} {Inv : σ → Prop} {C : α → σ → Prop}
    (hInv : Preserves M P Inv) (hC : ∀ a s, P a → Inv s → C a s) {x y : Scope α ε × σ}
    (h : ReachesIn M held x y) (hall : All P x.1) (hinit : Inv x.2) :
    ReachesIn (M.when C) held x y := by
  induction h with
  | refl => exact .refl
  | tail hruns hlast ih =>
    obtain ⟨hall', hinv⟩ := hInv.reachesIn hruns hall hinit
    exact .tail ih (Preserves.step_when hC hlast hall' hinv)

/-- A step of a program whose actions are only executed where the condition holds; it may be known
of the state afterwards. -/
theorem Keeps.step_when {P Fresh : α → Prop} {I : List α → σ → Prop} (hI : Keeps M P Fresh I)
    {C : α → σ → Prop} {Q : σ → Prop}
    (hC : ∀ held others a s s' rest, M.exec held a s s' rest → P a → I (a :: (held ++ others)) s →
      Q s' → C a s) {c c' : Scope α ε} {s s' : σ} (h : Scope.Step M held c s c' s')
    (hall : All P c) (hQ : Q s') :
    ∀ others, I (live c ++ (held ++ others)) s → Scope.Step (M.when C) held c s c' s' := by
  induction h with
  | act h =>
    intro others hinv
    cases hall with
    | act ha => exact .act ⟨hC _ others _ _ _ _ h ha hinv hQ, h⟩
  | ambient h => exact fun _ _ => .ambient h
  | holdStep _ ih =>
    intro others hinv
    cases hall with
    | hold _ hbody => exact .holdStep (ih hbody hQ others (hI.perm (live_hold _ _ _ _) hinv))
  | holdDone => exact fun _ _ => .holdDone
  | holdFailed => exact fun _ _ => .holdFailed
  | bindStep _ ih =>
    intro others hinv
    cases hall with
    | bind hbody _ _ => exact .bindStep (ih hbody hQ others hinv)
  | bindDone => exact fun _ _ => .bindDone
  | bindFailed => exact fun _ _ => .bindFailed
  | branchStep hgoing _ ih =>
    intro others hinv
    cases hall with
    | par hbranches =>
      have hbranch := hbranches _ List.mem_append_cons_self
      exact .branchStep hgoing (ih hbranch hQ _ (hI.perm (live_par _ _ _ _ _) hinv))
  | parDone h => exact fun _ _ => .parDone h
  | parFailed h horder => exact fun _ _ => .parFailed h horder

/-- A run of such a program. -/
theorem Keeps.reaches_when {P Fresh : α → Prop} {I : List α → σ → Prop} (hI : Keeps M P Fresh I)
    {C : α → σ → Prop} {Q : σ → Prop}
    (hC : ∀ held others a s s' rest, M.exec held a s s' rest → P a → I (a :: (held ++ others)) s →
      Q s' → C a s)
    (hback : ∀ c c' s s', All P c → Scope.Step M [] c s c' s' → Q s' → Q s)
    {x y : Scope α ε × σ} (h : Scope.Reaches M x y) (hall : All P x.1) (hlater : Later Fresh x.1)
    (hinit : I (live x.1) x.2) (hQ : Q y.2) : Scope.Reaches (M.when C) x y := by
  induction h with
  | refl => exact .refl
  | tail hruns hlast ih =>
    obtain ⟨⟨hallBefore, -⟩, hinv⟩ := hI.reaches hruns hall hlater hinit
    have hbefore := hback _ _ _ _ hallBefore hlast hQ
    have hstep := hI.step_when hC hlast hallBefore hQ []
    rw [List.append_nil, List.append_nil] at hstep
    exact .tail (ih hbefore) (hstep hinv)

/-! ## Pre- and postconditions -/

/-- What the surroundings do leaves it true. -/
def Machine.Stable (M : Machine α ε σ) (P : σ → Prop) : Prop :=
  ∀ s s', M.ambient s s' → P s → P s'

theorem Machine.Stable.all {P : σ → Prop} (hP : M.Stable P) {s s' : σ}
    (h : Relation.ReflTransGen M.ambient s s') (hs : P s) : P s' := by
  induction h with
  | refl => exact hs
  | tail _ hlast ih => exact hP _ _ hlast ih

/-- From a state with `P`, a run of `c` that comes to an end leaves one with `Q` if it is done,
and one with `E e` if it has failed with `e`. -/
def Scope.Triple (M : Machine α ε σ) (held : List α) (P : σ → Prop) (c : Scope α ε)
    (Q : σ → Prop) (E : ε → σ → Prop) : Prop :=
  ∀ s y, P s → ReachesIn M held (c, s) y → (y.1 = .done → Q y.2) ∧ ∀ e, y.1 = .failed e → E e y.2

namespace Scope.Triple

variable {P P' Q Q' R : σ → Prop} {E E' : ε → σ → Prop} {c onOk : Scope α ε}
  {onErr : ε → Scope α ε}

theorem weaken (h : Triple M held P c Q E) (hP : ∀ s, P' s → P s) (hQ : ∀ s, Q s → Q' s)
    (hE : ∀ e s, E e s → E' e s) : Triple M held P' c Q' E' := by
  intro s y hs hreach
  obtain ⟨hok, herr⟩ := h s y (hP s hs) hreach
  exact ⟨fun hy => hQ _ (hok hy), fun e hy => hE e _ (herr e hy)⟩

theorem done (hQ : M.Stable Q) : Triple M held Q .done Q E := by
  intro s y hs hreach
  obtain ⟨hy, hambient⟩ := hreach.finished_cases .done
  refine ⟨fun _ => hQ.all hambient hs, ?_⟩
  intro e he
  rw [hy] at he
  exact nomatch he

theorem failed {e : ε} (hE : M.Stable (E e)) : Triple M held (E e) (.failed e) Q E := by
  intro s y hs hreach
  obtain ⟨hy, hambient⟩ := hreach.finished_cases (.failed e)
  rw [hy]
  refine ⟨fun h => (nomatch h), ?_⟩
  intro e' he
  obtain rfl := Scope.failed.inj he
  exact hE.all hambient hs

/-- What an action can do, and what it leaves to do. -/
theorem act {a : α} (hP : M.Stable P)
    (hexec : ∀ s s' rest, P s → M.exec held a s s' rest →
      ∃ R, R s' ∧ Triple M held R rest Q E) : Triple M held P (.act a) Q E := by
  intro s y hs hreach
  rcases hreach.act_cases with ⟨hy, -⟩ | ⟨t, t', rest, hambient, hstep, hafter⟩
  · rw [hy]
    exact ⟨fun h => (nomatch h), fun e h => (nomatch h)⟩
  · obtain ⟨R, hR, hrest⟩ := hexec t t' rest (hP.all hambient hs) hstep
    exact hrest t' y hR hafter

theorem bind (hbody : Triple M held P c R E') (hok : Triple M held R onOk Q E)
    (herr : ∀ e, Triple M held (E' e) (onErr e) Q E) :
    Triple M held P (.bind c onOk onErr) Q E := by
  intro s y hs hreach
  rcases hreach.bind_cases with ⟨c', hy, -⟩ | ⟨s', hruns, hafter⟩ | ⟨e, s', hruns, hafter⟩
  · rw [hy]
    exact ⟨fun h => (nomatch h), fun e h => (nomatch h)⟩
  · exact hok s' y ((hbody s _ hs hruns).1 rfl) hafter
  · exact herr e s' y ((hbody s _ hs hruns).2 e rfl) hafter

theorem seq {second : Scope α ε} (hE : ∀ e, M.Stable (E e)) (hfirst : Triple M held P c R E)
    (hsecond : Triple M held R second Q E) : Triple M held P (c.seq second) Q E :=
  hfirst.bind hsecond fun e => .failed (hE e)

theorem always {second : Scope α ε} (hfirst : Triple M held P c R fun _ => R)
    (hsecond : Triple M held R second Q E) : Triple M held P (c.always second) Q E :=
  hfirst.bind hsecond fun _ => hsecond

end Scope.Triple

/-- What all the actions of a program preserve holds when it has come to an end. -/
theorem Preserves.triple {P : α → Prop} {Inv : σ → Prop} (hInv : Preserves M P Inv)
    {c : Scope α ε} (hall : All P c) : Scope.Triple M held Inv c Inv fun _ => Inv := by
  intro s y hs hreach
  have hy := (hInv.reachesIn hreach hall hs).2
  exact ⟨fun _ => hy, fun _ _ => hy⟩

/-- From a state with `P`, all states of a run of `c` have `Inv`. -/
def Scope.Throughout (M : Machine α ε σ) (held : List α) (P : σ → Prop) (c : Scope α ε)
    (Inv : σ → Prop) : Prop :=
  ∀ s y, P s → ReachesIn M held (c, s) y → Inv y.2

/-- All the actions of a program preserve it. -/
theorem Preserves.throughout {P : α → Prop} {Inv : σ → Prop} (hInv : Preserves M P Inv)
    {c : Scope α ε} (hall : All P c) : Scope.Throughout M held Inv c Inv :=
  fun _ _ hs hreach => (hInv.reachesIn hreach hall hs).2

namespace Scope.Throughout

variable {P R Inv : σ → Prop} {E : ε → σ → Prop} {c second : Scope α ε}

theorem done (hInv : M.Stable Inv) : Throughout M held Inv .done Inv :=
  fun _ _ hs hreach => hInv.all (hreach.finished_cases .done).2 hs

/-- An action, and what it leaves to do. -/
theorem act {a : α} (hP : M.Stable P) (hPInv : ∀ s, P s → Inv s)
    (hexec : ∀ s s' rest, P s → M.exec held a s s' rest → ∃ R, R s' ∧ Throughout M held R rest Inv) :
    Throughout M held P (.act a) Inv := by
  intro s y hs hreach
  rcases hreach.act_cases with ⟨-, hambient⟩ | ⟨t, t', rest, hambient, hstep, hafter⟩
  · exact hPInv _ (hP.all hambient hs)
  · obtain ⟨R, hR, hrest⟩ := hexec t t' rest (hP.all hambient hs) hstep
    exact hrest t' y hR hafter

/-- A part, and what follows once it is done. -/
theorem seq (hInv : M.Stable Inv) (hfirst : Throughout M held P c Inv)
    (hmiddle : Triple M held P c R E) (hsecond : Throughout M held R second Inv) :
    Throughout M held P (c.seq second) Inv := by
  intro s y hs hreach
  rcases hreach.bind_cases with ⟨c', -, hruns⟩ | ⟨t, hruns, hafter⟩ | ⟨e, t, hruns, hafter⟩
  · exact hfirst s (c', y.2) hs hruns
  · exact hsecond t y ((hmiddle s _ hs hruns).1 rfl) hafter
  · exact hInv.all (hafter.finished_cases (.failed e)).2 (hfirst s _ hs hruns)

/-- What holds throughout holds at the end. -/
theorem triple (h : Throughout M held P c Inv) : Triple M held P c Inv fun _ => Inv :=
  fun s y hs hreach => ⟨fun _ => h s y hs hreach, fun _ _ => h s y hs hreach⟩

end Scope.Throughout

section

variable {P Fresh : α → Prop} {I : List α → σ → Prop}

/-- An invariant of a program that is under way holds of what is around it once it is over. -/
theorem Keeps.tripleLive (hI : Keeps M P Fresh I) {c : Scope α ε} (hall : All P c)
    (hlater : Later Fresh c) :
    Scope.Triple M held (fun s => I (live c ++ held) s) c (I held) fun _ => I held := by
  intro s y hs hreach
  have hinv := (hI.reachesIn hreach hall hlater hs).2
  refine ⟨?_, ?_⟩
  · intro hy
    rwa [hy] at hinv
  · intro e hy
    rwa [hy] at hinv

/-- The same of a program that has not started. -/
theorem Keeps.triple (hI : Keeps M P Fresh I) {c : Scope α ε} (hall : All P c)
    (hfresh : All Fresh c) : Scope.Triple M held (I held) c (I held) fun _ => I held :=
  (hI.tripleLive hall hfresh.later).weaken (fun _ hs => hI.startAll hfresh.live hs) (fun _ h => h)
    fun _ _ h => h

end

end

end ConformanceHarness.Lib

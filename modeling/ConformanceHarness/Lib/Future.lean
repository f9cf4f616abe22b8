import Mathlib.Data.List.Basic

/-!
# Futures that await

A task asks its surroundings for something, waits for the answer, and goes on with it.
Between two requests any other task may run, so a request is also a point where a task can
be left standing. Branches run side by side until all of them have returned or the first
one has failed; that one takes the others down with it, wherever they stand.

Nothing here says what the surroundings answer. A run records every request with its
answer, and every branch that is dropped; a user restricts the runs to those whose record
makes sense. Each request and each join has a *place*. The record of one branch is then
the part of the whole record at the places of that branch, which is how one reasons about
a branch on its own: `Branches.branch`.
-/

namespace ConformanceHarness.Lib

/-- What futures ask for, where, and how they fail. -/
structure Interface where
  Request : Type
  Answer : Request → Type
  Place : Type
  place : Request → Place
  Error : Type

/-- A future, or what is left of one. -/
inductive Future (S : Interface) where
  | ret (r : Except S.Error Unit)
  | ask (i : S.Request) (k : S.Answer i → Future S)
  /-- Branches side by side, and what follows when they have come to an end. -/
  | join (at_ : S.Place) (branches : List (Future S)) (k : Except S.Error Unit → Future S)

/-- An entry of the record of a run. -/
inductive Label (S : Interface) where
  | did (i : S.Request) (b : S.Answer i)
  /-- The branch of this number was dropped by the join at this place. -/
  | dropped (at_ : S.Place) (branch : Nat)

variable {S : Interface}

/-- Where an entry was made. -/
def Label.place : Label S → S.Place
  | did i _ => S.place i
  | dropped p _ => p

namespace Future

/-- It has returned. -/
def finished : Future S → Bool
  | ret _ => true
  | _ => false

/-- It has returned an error. -/
def failed : Future S → Bool
  | ret (.error _) => true
  | _ => false

/-- Goes on with the result. -/
def bind (f : Except S.Error Unit → Future S) : Future S → Future S
  | ret r => f r
  | ask i k => ask i fun b => (k b).bind f
  | join p branches k => join p branches fun r => (k r).bind f

/-- One after the other; the second is not started if the first fails. -/
def andThen (t u : Future S) : Future S :=
  t.bind fun
    | .ok () => u
    | .error e => ret (.error e)

/-- Futures one after the other. -/
def sequence : List (Future S) → Future S
  | [] => ret (.ok ())
  | t :: rest => t.andThen (sequence rest)

/-- `f i`, `f (i + 1)`, and so on, `n` times. -/
def loop (f : Nat → Future S) : Nat → Nat → Future S
  | _, 0 => ret (.ok ())
  | i, n + 1 => (f i).andThen (loop f (i + 1) n)

/-- What a join records about the branches it leaves behind. -/
def drops (p : S.Place) (branches : List (Future S)) : List (Label S) :=
  ((List.range branches.length).filter fun i => (branches[i]?.map finished) = some false).map
    (.dropped p)

/-- Between two requests. -/
inductive Step : Future S → List (Label S) → Future S → Prop where
  | ask {i : S.Request} {k : S.Answer i → Future S} (b : S.Answer i) :
      Step (.ask i k) [.did i b] (k b)
  /-- A branch goes on, as long as none has failed. -/
  | branch {p : S.Place} {branches : List (Future S)} {i : Nat} {c c' : Future S}
      {ls : List (Label S)} {k : Except S.Error Unit → Future S}
      (halive : ∀ d ∈ branches, d.failed = false) (hget : branches[i]? = some c)
      (h : Step c ls c') : Step (.join p branches k) ls (.join p (branches.set i c') k)
  | joined {p : S.Place} {branches : List (Future S)} {k : Except S.Error Unit → Future S}
      (h : ∀ c ∈ branches, c = .ret (.ok ())) : Step (.join p branches k) [] (k (.ok ()))
  /-- The first failure drops every branch that has not returned. -/
  | aborted {p : S.Place} {branches : List (Future S)} {k : Except S.Error Unit → Future S}
      {e : S.Error} (h : .ret (.error e) ∈ branches) :
      Step (.join p branches k) (drops p branches) (k (.error e))

/-- Any number of steps, and their record, oldest entry first. -/
inductive Runs : Future S → List (Label S) → Future S → Prop where
  | refl {t : Future S} : Runs t [] t
  | head {t t' t'' : Future S} {ls ls' : List (Label S)} (h : Step t ls t')
      (hrest : Runs t' ls' t'') :
      Runs t (ls ++ ls') t''

/-! ## Runs of a composed future -/

theorem Runs.ret {r : Except S.Error Unit} {ls : List (Label S)} {t : Future S}
    (h : Runs (.ret r) ls t) : ls = [] ∧ t = .ret r := by
  cases h with
  | refl => exact ⟨rfl, rfl⟩
  | head hstep _ => nomatch hstep

theorem Runs.ask {i : S.Request} {k : S.Answer i → Future S} {ls : List (Label S)} {t : Future S}
    (h : Runs (.ask i k) ls t) :
    (ls = [] ∧ t = .ask i k) ∨ ∃ b rest, ls = .did i b :: rest ∧ Runs (k b) rest t := by
  cases h with
  | refl => exact Or.inl ⟨rfl, rfl⟩
  | head hstep hrest =>
      cases hstep with
      | ask b => exact Or.inr ⟨b, _, rfl, hrest⟩

/-- A step of a composed future is one of its first part, until that has returned. -/
theorem Step.bind {f : Except S.Error Unit → Future S} {t u : Future S} {ls : List (Label S)}
    (h : Step (t.bind f) ls u) :
    (∃ r, t = .ret r) ∨ ∃ t', Step t ls t' ∧ u = t'.bind f := by
  cases t with
  | ret r => exact Or.inl ⟨r, rfl⟩
  | ask i k =>
      cases h with
      | ask b => exact Or.inr ⟨k b, .ask b, rfl⟩
  | join p branches k =>
      right
      rw [Future.bind] at h
      generalize hk : (fun r => (k r).bind f) = k' at h
      cases h with
      | branch halive hget hstep => exact ⟨_, .branch halive hget hstep, by rw [Future.bind, hk]⟩
      | joined hall => exact ⟨_, .joined hall, by rw [← hk]⟩
      | aborted hmem => exact ⟨_, .aborted hmem, by rw [← hk]⟩

/-- A run of a composed future is one of its first part, or goes through it. -/
theorem Runs.bind {f : Except S.Error Unit → Future S} {t u : Future S} {ls : List (Label S)}
    (h : Runs (t.bind f) ls u) :
    (∃ t', Runs t ls t' ∧ u = t'.bind f) ∨
      ∃ r l₁ l₂, ls = l₁ ++ l₂ ∧ Runs t l₁ (.ret r) ∧ Runs (f r) l₂ u := by
  generalize hx : t.bind f = x at h
  induction h generalizing t with
  | refl => exact Or.inl ⟨t, .refl, hx.symm⟩
  | @head x y u l l' hstep hrest ih =>
      subst hx
      rcases hstep.bind with ⟨r, rfl⟩ | ⟨t', hstep', rfl⟩
      · exact Or.inr ⟨r, [], l ++ l', rfl, .refl, .head hstep hrest⟩
      · rcases ih rfl with ⟨t'', hruns, rfl⟩ | ⟨r, l₁, l₂, rfl, hruns, hafter⟩
        · exact Or.inl ⟨t'', .head hstep' hruns, rfl⟩
        · exact Or.inr ⟨r, l ++ l₁, l₂, (List.append_assoc ..).symm, .head hstep' hruns, hafter⟩

/-- Two in a row: the first has not returned a value, or the second has been started. -/
theorem Runs.andThen {t u v : Future S} {ls : List (Label S)} (h : Runs (t.andThen u) ls v) :
    (∃ t', Runs t ls t' ∧ v = t'.andThen u) ∨
      ∃ l₁ l₂, ls = l₁ ++ l₂ ∧ Runs t l₁ (.ret (.ok ())) ∧ Runs u l₂ v := by
  rcases h.bind with ⟨t', hruns, rfl⟩ | ⟨r, l₁, l₂, rfl, hruns, hafter⟩
  · exact Or.inl ⟨t', hruns, rfl⟩
  · cases r with
    | ok a => exact Or.inr ⟨l₁, l₂, rfl, hruns, hafter⟩
    | error e =>
        obtain ⟨rfl, rfl⟩ := Runs.ret hafter
        exact Or.inl ⟨_, (List.append_nil l₁).symm ▸ hruns, rfl⟩

theorem Runs.trans {t u v : Future S} {ls ls' : List (Label S)} (h : Runs t ls u)
    (h' : Runs u ls' v) : Runs t (ls ++ ls') v := by
  induction h with
  | refl => exact h'
  | head hstep _ ih =>
      rw [List.append_assoc]
      exact .head hstep (ih h')

/-! ## Branches -/

/-- The steps of branches that run side by side. -/
inductive Branches : List (Future S) → List (Label S) → List (Future S) → Prop where
  | refl {branches : List (Future S)} : Branches branches [] branches
  | head {branches branches' : List (Future S)} {i : Nat} {c c' : Future S}
      {ls ls' : List (Label S)} (halive : ∀ d ∈ branches, d.failed = false)
      (hget : branches[i]? = some c) (h : Step c ls c')
      (hrest : Branches (branches.set i c') ls' branches') :
      Branches branches (ls ++ ls') branches'

/-- How a join can have ended, and what it went on with. -/
inductive Joined (p : S.Place) (k : Except S.Error Unit → Future S) :
    List (Future S) → List (Label S) → Future S → Prop where
  | returned {branches : List (Future S)} {ls : List (Label S)} {t : Future S}
      (hall : ∀ c ∈ branches, c = .ret (.ok ())) (hrest : Runs (k (.ok ())) ls t) :
      Joined p k branches ls t
  | aborted {branches : List (Future S)} {e : S.Error} {ls : List (Label S)} {t : Future S}
      (hmem : .ret (.error e) ∈ branches) (hrest : Runs (k (.error e)) ls t) :
      Joined p k branches (drops p branches ++ ls) t

/-- A run of a join is one of its branches, and perhaps of what follows them. -/
theorem Runs.join {p : S.Place} {branches : List (Future S)} {k : Except S.Error Unit → Future S}
    {ls : List (Label S)} {t : Future S} (h : Runs (.join p branches k) ls t) :
    (∃ branches', Branches branches ls branches' ∧ t = .join p branches' k) ∨
      ∃ branches' l₁ l₂, ls = l₁ ++ l₂ ∧ Branches branches l₁ branches' ∧
        Joined p k branches' l₂ t := by
  generalize hx : Future.join p branches k = x at h
  induction h generalizing branches with
  | refl => exact Or.inl ⟨branches, .refl, hx.symm⟩
  | @head x y u l l' hstep hrest ih =>
      subst hx
      cases hstep with
      | branch halive hget hstep =>
          rcases ih rfl with ⟨branches', hb, rfl⟩ | ⟨branches', l₁, l₂, rfl, hb, hend⟩
          · exact Or.inl ⟨branches', .head halive hget hstep hb, rfl⟩
          · exact Or.inr ⟨branches', l ++ l₁, l₂, (List.append_assoc ..).symm,
              .head halive hget hstep hb, hend⟩
      | joined hall =>
          exact Or.inr ⟨branches, [], [] ++ l', rfl, .refl, .returned hall hrest⟩
      | aborted hmem => exact Or.inr ⟨branches, [], _, rfl, .refl, .aborted hmem hrest⟩

theorem Branches.length_eq {branches branches' : List (Future S)} {ls : List (Label S)}
    (h : Branches branches ls branches') : branches'.length = branches.length := by
  induction h with
  | refl => rfl
  | head _ _ _ _ ih => rw [ih, List.length_set]

/-! ## What a future can record -/

/-- Everything the future can ever record has `P`. -/
inductive Within (P : Label S → Prop) : Future S → Prop where
  | ret {r : Except S.Error Unit} : Within P (.ret r)
  | ask {i : S.Request} {k : S.Answer i → Future S} (hdid : ∀ b, P (.did i b))
      (h : ∀ b, Within P (k b)) : Within P (.ask i k)
  | join {p : S.Place} {branches : List (Future S)} {k : Except S.Error Unit → Future S}
      (hdropped : ∀ i, P (.dropped p i)) (hbranches : ∀ c ∈ branches, Within P c)
      (h : ∀ r, Within P (k r)) : Within P (.join p branches k)

section Within

variable {P Q : Label S → Prop}

theorem Within.imp {t : Future S} (h : Within P t) (himp : ∀ x, P x → Q x) : Within Q t := by
  induction h with
  | ret => exact .ret
  | ask hdid _ ih => exact .ask (fun b => himp _ (hdid b)) ih
  | join hdropped _ _ ihb ih => exact .join (fun i => himp _ (hdropped i)) ihb ih

theorem Within.bind {t : Future S} {f : Except S.Error Unit → Future S} (h : Within P t)
    (hf : ∀ r, Within P (f r)) : Within P (t.bind f) := by
  induction h with
  | ret => exact hf _
  | ask hdid _ ih => exact .ask hdid ih
  | join hdropped hbranches _ _ ih => exact .join hdropped hbranches ih

theorem Within.andThen {t u : Future S} (h : Within P t) (hu : Within P u) :
    Within P (t.andThen u) := by
  refine h.bind ?_
  intro r
  cases r with
  | ok a => exact hu
  | error e => exact .ret

theorem Within.loop {f : Nat → Future S} {n : Nat} : ∀ {i : Nat},
    (∀ j, i ≤ j → Within P (f j)) → Within P (Future.loop f i n) := by
  induction n with
  | zero => intro i _; exact .ret
  | succ n ih =>
      intro i h
      exact (h i (Nat.le_refl i)).andThen (ih fun j hj => h j (Nat.le_of_succ_le hj))

theorem mem_drops {p : S.Place} {branches : List (Future S)} {x : Label S}
    (h : x ∈ drops p branches) : ∃ i, x = .dropped p i := by
  obtain ⟨i, _, rfl⟩ := List.mem_map.mp h
  exact ⟨i, rfl⟩

/-- The branches a join leaves behind are those that have not returned. -/
theorem dropped_mem_drops {p : S.Place} {branches : List (Future S)} {i : Nat} :
    .dropped p i ∈ drops p branches ↔ ∃ c, branches[i]? = some c ∧ c.finished = false := by
  constructor
  · intro h
    obtain ⟨j, hj, heq⟩ := List.mem_map.mp h
    obtain ⟨-, rfl⟩ := Label.dropped.inj heq
    have hfin := of_decide_eq_true (List.mem_filter.mp hj).2
    exact Option.map_eq_some_iff.mp hfin
  · rintro ⟨c, hget, hfin⟩
    refine List.mem_map.mpr ⟨i, List.mem_filter.mpr ⟨?_, ?_⟩, rfl⟩
    · exact List.mem_range.mpr (List.getElem?_eq_some_iff.mp hget).1
    · rw [hget, Option.map_some, hfin]
      rfl

theorem Step.within {t t' : Future S} {ls : List (Label S)} (h : Step t ls t')
    (ht : Within P t) : (∀ x ∈ ls, P x) ∧ Within P t' := by
  induction h with
  | ask b =>
      cases ht with
      | ask hdid hk =>
          refine ⟨?_, hk b⟩
          intro x hx
          rw [List.mem_singleton.mp hx]
          exact hdid b
  | branch _ hget _ ih =>
      cases ht with
      | join hdropped hbranches hk =>
          obtain ⟨hls, hc'⟩ := ih (hbranches _ (List.mem_of_getElem? hget))
          refine ⟨hls, .join hdropped ?_ hk⟩
          intro d hd
          rcases List.mem_or_eq_of_mem_set hd with hd | rfl
          · exact hbranches d hd
          · exact hc'
  | joined _ =>
      cases ht with
      | join _ _ hk => exact ⟨fun x hx => (nomatch hx), hk _⟩
  | aborted _ =>
      cases ht with
      | join hdropped _ hk =>
          refine ⟨?_, hk _⟩
          intro x hx
          obtain ⟨i, rfl⟩ := mem_drops hx
          exact hdropped i

theorem Branches.within {branches branches' : List (Future S)} {ls : List (Label S)}
    (h : Branches branches ls branches') (hall : ∀ c ∈ branches, Within P c) : ∀ x ∈ ls, P x := by
  induction h with
  | refl => intro x hx; exact nomatch hx
  | head _ hget hstep _ ih =>
      obtain ⟨hls, hc'⟩ := hstep.within (hall _ (List.mem_of_getElem? hget))
      intro x hx
      rcases List.mem_append.mp hx with hx | hx
      · exact hls x hx
      · refine ih ?_ x hx
        intro d hd
        rcases List.mem_or_eq_of_mem_set hd with hd | rfl
        · exact hall d hd
        · exact hc'

theorem Runs.within {t t' : Future S} {ls : List (Label S)} (h : Runs t ls t')
    (ht : Within P t) : ∀ x ∈ ls, P x := by
  induction h with
  | refl => intro x hx; exact nomatch hx
  | head hstep _ ih =>
      obtain ⟨hls, ht'⟩ := hstep.within ht
      intro x hx
      rcases List.mem_append.mp hx with hx | hx
      · exact hls x hx
      · exact ih ht' x hx

end Within

/-- Everything the future can ever record is at a place with `P`. -/
abbrev At (P : S.Place → Prop) (t : Future S) : Prop := Within (fun x => P x.place) t

section At

variable {P Q : S.Place → Prop}

theorem At.imp {t : Future S} (h : At P t) (himp : ∀ p, P p → Q p) : At Q t :=
  Within.imp h fun x => himp x.place

theorem At.ask {i : S.Request} {k : S.Answer i → Future S} (hplace : P (S.place i))
    (h : ∀ b, At P (k b)) : At P (.ask i k) := Within.ask (fun _ => hplace) h

theorem At.join {p : S.Place} {branches : List (Future S)} {k : Except S.Error Unit → Future S}
    (hplace : P p) (hbranches : ∀ c ∈ branches, At P c) (h : ∀ r, At P (k r)) :
    At P (.join p branches k) := Within.join (fun _ => hplace) hbranches h

theorem At.bind {t : Future S} {f : Except S.Error Unit → Future S} (h : At P t)
    (hf : ∀ r, At P (f r)) : At P (t.bind f) := Within.bind h hf

theorem At.andThen {t u : Future S} (h : At P t) (hu : At P u) : At P (t.andThen u) :=
  Within.andThen h hu

theorem At.loop {f : Nat → Future S} {n i : Nat} (h : ∀ j, i ≤ j → At P (f j)) :
    At P (Future.loop f i n) := Within.loop h

end At

/-! ## One branch of a join -/

/-- The entries of a record at the places with `P`. -/
def recordAt (P : S.Place → Prop) [DecidablePred P] (ls : List (Label S)) : List (Label S) :=
  ls.filter fun x => P x.place

section

variable {P : S.Place → Prop} [DecidablePred P]

@[simp] theorem recordAt_append {ls ls' : List (Label S)} :
    recordAt P (ls ++ ls') = recordAt P ls ++ recordAt P ls' := List.filter_append ..

@[simp] theorem recordAt_nil : recordAt P ([] : List (Label S)) = [] := rfl

theorem recordAt_cons {x : Label S} {ls : List (Label S)} (h : P x.place) :
    recordAt P (x :: ls) = x :: recordAt P ls := List.filter_cons_of_pos (decide_eq_true h)

theorem recordAt_cons_away {x : Label S} {ls : List (Label S)} (h : ¬ P x.place) :
    recordAt P (x :: ls) = recordAt P ls :=
  List.filter_cons_of_neg fun hp => h (of_decide_eq_true hp)

theorem mem_recordAt {ls : List (Label S)} {x : Label S} :
    x ∈ recordAt P ls ↔ x ∈ ls ∧ P x.place := by
  rw [recordAt, List.mem_filter, decide_eq_true_iff]

theorem recordAt_self {ls : List (Label S)} (h : ∀ x ∈ ls, P x.place) : recordAt P ls = ls :=
  List.filter_eq_self.mpr fun x hx => decide_eq_true (h x hx)

theorem recordAt_none {ls : List (Label S)} (h : ∀ x ∈ ls, ¬ P x.place) : recordAt P ls = [] :=
  List.filter_eq_nil_iff.mpr fun x hx hp => h x hx (of_decide_eq_true hp)

/-- An entry that is found at the places is found in the record. -/
theorem recordAt_split {ls a b : List (Label S)} {x : Label S} (h : recordAt P ls = a ++ x :: b) :
    ∃ l₁ l₂, ls = l₁ ++ x :: l₂ ∧ recordAt P l₁ = a := by
  obtain ⟨l₁, l₂, rfl, ha, hb⟩ := List.filter_eq_append_iff.mp h
  obtain ⟨m₁, m₂, rfl, hm₁, -, -⟩ := List.filter_eq_cons_iff.mp hb
  refine ⟨l₁ ++ m₁, m₂, (List.append_assoc ..).symm, ?_⟩
  rw [recordAt_append, recordAt, ha, recordAt_none fun y hy hp => hm₁ y hy (decide_eq_true hp),
    List.append_nil]

/-- Narrower places are looked up in the record of wider ones. -/
theorem recordAt_recordAt {Q : S.Place → Prop} [DecidablePred Q] {ls : List (Label S)}
    (himp : ∀ p, Q p → P p) : recordAt Q (recordAt P ls) = recordAt Q ls := by
  rw [recordAt, recordAt, recordAt, List.filter_filter]
  refine List.filter_congr ?_
  intro x _
  by_cases hq : Q x.place
  · simp [hq, himp _ hq]
  · simp [hq]

/-- **A branch on its own.** What a join records at the places of one branch is a run of that
branch, if the other branches are elsewhere. -/
theorem Branches.branch {branches branches' : List (Future S)} {ls : List (Label S)}
    (h : Branches branches ls branches') {i : Nat} {c : Future S} (hget : branches[i]? = some c)
    (hc : At P c) (hothers : ∀ j d, j ≠ i → branches[j]? = some d → At (fun p => ¬ P p) d) :
    ∃ c', branches'[i]? = some c' ∧ Runs c (recordAt P ls) c' := by
  induction h generalizing c with
  | refl => exact ⟨c, hget, .refl⟩
  | @head branches branches' j d d' l l' _ hgetj hstep _ ih =>
      rw [recordAt_append]
      have hlt : j < branches.length := (List.getElem?_eq_some_iff.mp hgetj).1
      by_cases hij : j = i
      · -- the branch itself steps
        subst hij
        obtain rfl := Option.some.inj (hgetj.symm.trans hget)
        obtain ⟨hl, hd'⟩ := hstep.within hc
        have hothers' : ∀ m d, m ≠ j → (branches.set j d')[m]? = some d →
            At (fun p => ¬ P p) d := by
          intro m d hm hgetm
          rw [List.getElem?_set_ne (Ne.symm hm)] at hgetm
          exact hothers m d hm hgetm
        obtain ⟨c', hc', hruns⟩ := ih (List.getElem?_set_self hlt) hd' hothers'
        rw [recordAt_self hl]
        exact ⟨c', hc', .head hstep hruns⟩
      · obtain ⟨hl, hd'⟩ := hstep.within (hothers j d hij hgetj)
        have hothers' : ∀ m e, m ≠ i → (branches.set j d')[m]? = some e →
            At (fun p => ¬ P p) e := by
          intro m e hm hgetm
          rw [List.getElem?_set] at hgetm
          split at hgetm
          · exact Option.some.inj hgetm ▸ hd'
          · exact hothers m e hm hgetm
        rw [recordAt_none hl, List.nil_append]
        exact ih (by rw [List.getElem?_set_ne hij]; exact hget) hc hothers'

end

/-! ## Records that make sense -/

/-- Every answer in the record is one that `Faithful` allows after what was recorded before. -/
def Answered (Faithful : List (Label S) → (i : S.Request) → S.Answer i → Prop)
    (ls : List (Label S)) : Prop :=
  ∀ before after i b, ls = before ++ .did i b :: after → Faithful before i b

section Answered

variable {Faithful : List (Label S) → (i : S.Request) → S.Answer i → Prop}

theorem Answered.nil : Answered Faithful [] := by
  intro before after i b h
  exact absurd h.symm (List.append_ne_nil_of_right_ne_nil before (List.cons_ne_nil _ _))

theorem Answered.append {ls ls' : List (Label S)} (h : Answered Faithful ls)
    (h' : ∀ before after i b, ls' = before ++ .did i b :: after → Faithful (ls ++ before) i b) :
    Answered Faithful (ls ++ ls') := by
  intro before after i b heq
  rcases List.append_eq_append_iff.mp heq with ⟨mid, rfl, hmid⟩ | ⟨mid, rfl, hmid⟩
  · exact h' mid after i b hmid
  · cases mid with
    | nil =>
        have hfirst := h' [] after i b hmid.symm
        rwa [List.append_nil, List.append_nil] at hfirst
    | cons x mid =>
        obtain ⟨rfl, -⟩ := List.cons.inj hmid
        exact h before mid i b rfl

end Answered

/-! ## Following a schedule -/

/-- The error a join ends with. -/
def firstError : List (Future S) → Option S.Error
  | [] => none
  | .ret (.error e) :: _ => some e
  | _ :: rest => firstError rest

/-- One step of the branch that the path leads to. -/
def advance (answer : (i : S.Request) → S.Answer i) :
    List Nat → Future S → Option (Future S × List (Label S))
  | [], .ask i k => some (k (answer i), [.did i (answer i)])
  | [], .join p branches k =>
    match firstError branches with
    | some e => some (k (.error e), drops p branches)
    | none => if branches.all finished then some (k (.ok ()), []) else none
  | i :: path, .join p branches k =>
    if branches.any failed then none
    else
      match branches[i]? with
      | none => none
      | some c =>
        (advance answer path c).map fun (c', ls) => (.join p (branches.set i c') k, ls)
  | _, _ => none

/-- The steps of a schedule. Each entry says which branch goes on, and how the request it
makes is answered after what was recorded before. -/
def follow {χ : Type} (answer : List (Label S) → χ → (i : S.Request) → S.Answer i) :
    List (List Nat × χ) → List (Label S) → Future S → Option (Future S × List (Label S))
  | [], ls, t => some (t, ls)
  | (path, c) :: rest, ls, t =>
    match advance (answer ls c) path t with
    | none => none
    | some (t', ls') => follow answer rest (ls ++ ls') t'

theorem firstError_mem {branches : List (Future S)} {e : S.Error}
    (h : firstError branches = some e) : .ret (.error e) ∈ branches := by
  induction branches using firstError.induct with
  | case1 => exact nomatch h
  | case2 e' rest =>
      obtain rfl := Option.some.inj h
      exact List.mem_cons_self
  | case3 t rest hne ih =>
      rw [firstError] at h
      · exact List.mem_cons_of_mem _ (ih h)
      · exact hne

theorem firstError_none {branches : List (Future S)} (h : firstError branches = none)
    (hall : branches.all finished = true) : ∀ c ∈ branches, c = .ret (.ok ()) := by
  induction branches using firstError.induct with
  | case1 => exact fun c hc => nomatch hc
  | case2 e' rest => exact nomatch h
  | case3 t rest hne ih =>
      rw [firstError] at h
      · rw [List.all_cons, Bool.and_eq_true] at hall
        intro c hc
        rcases List.mem_cons.mp hc with rfl | hc
        · rcases c with (_ | _) | _ | _
          · exact absurd rfl (hne _)
          · rfl
          · exact nomatch hall.1
          · exact nomatch hall.1
        · exact ih h hall.2 c hc
      · exact hne

theorem advance_step {answer : (i : S.Request) → S.Answer i} {path : List Nat} {t t' : Future S}
    {ls : List (Label S)} (h : advance answer path t = some (t', ls)) : Step t ls t' := by
  induction path generalizing t t' ls with
  | nil =>
      cases t with
      | ret r => exact nomatch h
      | ask i k =>
          obtain ⟨rfl, rfl⟩ := Prod.mk.inj (Option.some.inj h)
          exact .ask _
      | join p branches k =>
          rw [advance] at h
          rcases herror : firstError branches with _ | e
          · simp only [herror] at h
            split at h
            · next hall =>
                obtain ⟨rfl, rfl⟩ := Prod.mk.inj (Option.some.inj h)
                exact .joined (firstError_none herror hall)
            · exact nomatch h
          · simp only [herror] at h
            obtain ⟨rfl, rfl⟩ := Prod.mk.inj (Option.some.inj h)
            exact .aborted (firstError_mem herror)
  | cons i path ih =>
      cases t with
      | ret r => exact nomatch h
      | ask j k => exact nomatch h
      | join p branches k =>
          rw [advance] at h
          split at h
          · exact nomatch h
          · next halive =>
              rcases hget : branches[i]? with _ | c <;> rw [hget] at h
              · exact nomatch h
              · obtain ⟨⟨c', l⟩, hadv, heq⟩ := Option.map_eq_some_iff.mp h
                obtain ⟨rfl, rfl⟩ := Prod.mk.inj heq
                refine .branch ?_ hget (ih hadv)
                intro d hd
                rw [List.any_eq_true] at halive
                by_contra hfail
                exact halive ⟨d, hd, by simpa using hfail⟩

/-- A schedule that can be followed is a run. -/
theorem follow_runs {χ : Type} {answer : List (Label S) → χ → (i : S.Request) → S.Answer i}
    {schedule : List (List Nat × χ)} {ls₀ ls : List (Label S)} {t t' : Future S}
    (h : follow answer schedule ls₀ t = some (t', ls)) : ∃ l, ls = ls₀ ++ l ∧ Runs t l t' := by
  induction schedule generalizing ls₀ t with
  | nil =>
      obtain ⟨rfl, rfl⟩ := Prod.mk.inj (Option.some.inj h)
      exact ⟨[], (List.append_nil _).symm, .refl⟩
  | cons entry rest ih =>
      obtain ⟨path, c⟩ := entry
      rw [follow] at h
      rcases hadv : advance (answer ls₀ c) path t with _ | ⟨t₁, l₁⟩ <;> rw [hadv] at h
      · exact nomatch h
      · obtain ⟨l, rfl, hruns⟩ := ih h
        exact ⟨l₁ ++ l, List.append_assoc .., .head (advance_step hadv) hruns⟩

/-- One step records a request with its answer, or else no request. -/
theorem advance_record {answer : (i : S.Request) → S.Answer i} {path : List Nat} {t t' : Future S}
    {ls : List (Label S)} (h : advance answer path t = some (t', ls)) :
    (∃ i, ls = [.did i (answer i)]) ∨ ∀ x ∈ ls, ∃ p j, x = .dropped p j := by
  induction path generalizing t t' ls with
  | nil =>
      cases t with
      | ret r => exact nomatch h
      | ask i k =>
          obtain ⟨rfl, rfl⟩ := Prod.mk.inj (Option.some.inj h)
          exact Or.inl ⟨i, rfl⟩
      | join p branches k =>
          right
          rw [advance] at h
          rcases herror : firstError branches with _ | e
          · simp only [herror] at h
            split at h
            · obtain ⟨rfl, rfl⟩ := Prod.mk.inj (Option.some.inj h)
              exact fun x hx => nomatch hx
            · exact nomatch h
          · simp only [herror] at h
            obtain ⟨rfl, rfl⟩ := Prod.mk.inj (Option.some.inj h)
            intro x hx
            obtain ⟨j, rfl⟩ := mem_drops hx
            exact ⟨p, j, rfl⟩
  | cons i path ih =>
      cases t with
      | ret r => exact nomatch h
      | ask j k => exact nomatch h
      | join p branches k =>
          rw [advance] at h
          split at h
          · exact nomatch h
          · rcases hget : branches[i]? with _ | c
            · simp only [hget] at h
              exact nomatch h
            · simp only [hget] at h
              obtain ⟨⟨c', l⟩, hadv, heq⟩ := Option.map_eq_some_iff.mp h
              obtain ⟨rfl, rfl⟩ := Prod.mk.inj heq
              exact ih hadv

/-- If every answer is allowed where it is given, the record makes sense. -/
theorem follow_answered {χ : Type} {answer : List (Label S) → χ → (i : S.Request) → S.Answer i}
    {Faithful : List (Label S) → (i : S.Request) → S.Answer i → Prop}
    (hanswer : ∀ ls c i, Faithful ls i (answer ls c i)) {schedule : List (List Nat × χ)}
    {ls₀ ls : List (Label S)} {t t' : Future S} (h : follow answer schedule ls₀ t = some (t', ls))
    (h₀ : Answered Faithful ls₀) : Answered Faithful ls := by
  induction schedule generalizing ls₀ t with
  | nil =>
      obtain ⟨-, rfl⟩ := Prod.mk.inj (Option.some.inj h)
      exact h₀
  | cons entry rest ih =>
      obtain ⟨path, c⟩ := entry
      rw [follow] at h
      rcases hadv : advance (answer ls₀ c) path t with _ | ⟨t₁, l₁⟩
      · simp only [hadv] at h
        exact nomatch h
      · simp only [hadv] at h
        refine ih h (h₀.append ?_)
        intro before after i b heq
        rcases advance_record hadv with ⟨j, rfl⟩ | hdropped
        · cases before with
          | nil =>
              obtain ⟨hdid, -⟩ := List.cons.inj heq
              obtain ⟨rfl, hb⟩ := Label.did.inj hdid
              rw [List.append_nil, ← eq_of_heq hb]
              exact hanswer _ _ _
          | cons y before => exact absurd (List.cons.inj heq).2.symm (by simp)
        · obtain ⟨p, j, hx⟩ := hdropped (.did i b) (heq ▸ List.mem_append_cons_self)
          exact nomatch hx

end Future

end ConformanceHarness.Lib

import ConformanceHarness.Lib.Loops

/-!
# Futures that swallow no failure

Some entries of a record tell of a failure. A future is *alarmed* by them if it returns no
value once it has recorded one, whatever else it does. So a value that is returned says
that nothing has failed anywhere. This carries over from the parts of a future to the whole if
every part's error ends the whole in an error: such a future is *doomed*. The other way round,
a future that *admits* its failures returns no error unless it has recorded one. If both hold,
the record decides how the future has ended: `Runs.ok_iff`.
-/

namespace ConformanceHarness.Lib.Future

variable {S : Interface}

theorem exists_ret {t : Future S} (h : t.finished = true) : ∃ r, t = .ret r := by
  cases t with
  | ret r => exact ⟨r, rfl⟩
  | ask i k => exact nomatch h
  | join p branches k => exact nomatch h

/-! ## Branches -/

/-- Every branch has run for itself. -/
theorem Branches.each {branches branches' : List (Future S)} {ls : List (Label S)}
    (h : Branches branches ls branches') {i : Nat} {c : Future S} (hget : branches[i]? = some c) :
    ∃ c' l, branches'[i]? = some c' ∧ Runs c l c' := by
  induction h generalizing c with
  | refl => exact ⟨c, [], hget, .refl⟩
  | @head branches branches' j d d' l l' _ hgetj hstep _ ih =>
      by_cases hij : j = i
      · subst hij
        obtain rfl := Option.some.inj (hgetj.symm.trans hget)
        obtain ⟨c', m, hget', hruns⟩ :=
          ih (List.getElem?_set_self (List.getElem?_eq_some_iff.mp hgetj).1)
        exact ⟨c', l ++ m, hget', .head hstep hruns⟩
      · exact ih (by rw [List.getElem?_set_ne hij]; exact hget)

/-- What branches have recorded was recorded by one of them. -/
theorem Branches.mem {branches branches' : List (Future S)} {ls : List (Label S)}
    (h : Branches branches ls branches') {x : Label S} (hx : x ∈ ls) :
    ∃ c ∈ branches, ∃ c' ∈ branches', ∃ l, Runs c l c' ∧ x ∈ l := by
  suffices hbranch : ∃ (i : Nat) (c c' : Future S) (l : List (Label S)),
      branches[i]? = some c ∧ branches'[i]? = some c' ∧ Runs c l c' ∧ x ∈ l by
    obtain ⟨i, c, c', l, hget, hget', hruns, hmem⟩ := hbranch
    exact ⟨c, List.mem_of_getElem? hget, c', List.mem_of_getElem? hget', l, hruns, hmem⟩
  induction h with
  | refl => exact nomatch hx
  | @head branches branches' j d d' l l' _ hgetj hstep hrest ih =>
      have hself : (branches.set j d')[j]? = some d' :=
        List.getElem?_set_self (List.getElem?_eq_some_iff.mp hgetj).1
      rcases List.mem_append.mp hx with hx | hx
      · obtain ⟨c', m, hget', hruns⟩ := hrest.each hself
        exact ⟨j, d, c', l ++ m, hgetj, hget', .head hstep hruns, List.mem_append_left _ hx⟩
      · obtain ⟨i, c, c', m, hget, hget', hruns, hmem⟩ := ih hx
        by_cases hij : j = i
        · subst hij
          obtain rfl := Option.some.inj (hself.symm.trans hget)
          exact ⟨j, d, c', l ++ m, hgetj, hget', .head hstep hruns, List.mem_append_right _ hmem⟩
        · rw [List.getElem?_set_ne hij] at hget
          exact ⟨i, c, c', m, hget, hget', hruns, hmem⟩

/-- **The first failure is the last step**: what fails does so in the last step that any
branch takes. -/
theorem Branches.last_failed {branches branches' : List (Future S)} {ls : List (Label S)}
    {i : Nat} {e : S.Error} (h : Branches branches ls branches')
    (hget : branches'[i]? = some (.ret (.error e))) (halive : ∀ d ∈ branches, d.failed = false) :
    ∃ before l between c, ls = before ++ l ∧ Branches branches before between ∧
      between[i]? = some c ∧ Step c l (.ret (.error e)) := by
  induction h with
  | refl => exact nomatch halive _ (List.mem_of_getElem? hget)
  | @head branches branches' j d d' l l' _ hgetj hstep hrest ih =>
      cases hrest with
      | refl =>
          have hself := List.getElem?_set_self (List.getElem?_eq_some_iff.mp hgetj).1 (a := d')
          by_cases hij : j = i
          · subst hij
            obtain rfl := Option.some.inj (hself.symm.trans hget)
            exact ⟨[], l, branches, d, List.append_nil l, .refl, hgetj, hstep⟩
          · rw [List.getElem?_set_ne hij] at hget
            exact nomatch halive _ (List.mem_of_getElem? hget)
      | head halive' hget' hstep' hrest' =>
          obtain ⟨before, last, between, c, heq, hb, hc, hlast⟩ := ih hget halive'
          exact ⟨l ++ before, last, between, c, by rw [heq, List.append_assoc],
            .head halive hgetj hstep hb, hc, hlast⟩

/-- A join ends as the one branch does that can fail. -/
theorem Runs.join_decided {P : S.Place → Prop} [DecidablePred P] {p : S.Place}
    {branches : List (Future S)} {ls : List (Label S)} {r : Except S.Error Unit} {i : Nat}
    {c : Future S} (h : Runs (.join p branches .ret) ls (.ret r)) (hget : branches[i]? = some c)
    (hp : ¬ P p) (hc : At P c)
    (hothers : ∀ j d, j ≠ i → branches[j]? = some d →
      At (fun p => ¬ P p) d ∧ ∀ l e, ¬ Runs d l (.ret (.error e))) :
    Runs c (recordAt P ls) (.ret r) := by
  rcases Runs.join h with ⟨branches', -, heq⟩ | ⟨branches', l₁, l₂, rfl, hb, hend⟩
  · exact nomatch heq
  obtain ⟨c', hget', hruns⟩ := hb.branch hget hc fun j d hj hd => (hothers j d hj hd).1
  cases hend with
  | returned hall hrest =>
      obtain ⟨rfl, heq⟩ := Runs.ret hrest
      rw [List.append_nil, heq, ← hall c' (List.mem_of_getElem? hget')]
      exact hruns
  | @aborted e _ _ hmem hrest =>
      obtain ⟨rfl, heq⟩ := Runs.ret hrest
      have hnone : recordAt P (drops p branches') = [] := by
        refine recordAt_none fun x hx => ?_
        obtain ⟨j, rfl⟩ := mem_drops hx
        exact hp
      rw [List.append_nil, recordAt_append, hnone, List.append_nil, heq]
      -- no other branch has failed
      obtain ⟨j, hj⟩ := List.mem_iff_getElem?.mp hmem
      have hlt : j < branches.length := by
        rw [← hb.length_eq]
        exact (List.getElem?_eq_some_iff.mp hj).1
      obtain ⟨d', l, hd', hd⟩ := hb.each (List.getElem?_eq_getElem hlt)
      obtain rfl := Option.some.inj (hj.symm.trans hd')
      by_cases hij : j = i
      · subst hij
        rw [Option.some.inj (hj.symm.trans hget')]
        exact hruns
      · exact absurd hd ((hothers j _ hij (List.getElem?_eq_getElem hlt)).2 l e)

/-! ## Doomed futures -/

/-- It returns no value. -/
def Doomed (t : Future S) : Prop := ∀ ls, ¬ Runs t ls (.ret (.ok ()))

theorem Doomed.error (e : S.Error) : Doomed (.ret (.error e) : Future S) := by
  intro ls h
  exact nomatch (Runs.ret h).2

theorem Doomed.ask {i : S.Request} {k : S.Answer i → Future S} (h : ∀ b, Doomed (k b)) :
    Doomed (.ask i k) := by
  intro ls hruns
  rcases Runs.ask hruns with ⟨-, heq⟩ | ⟨b, rest, -, hrest⟩
  · exact nomatch heq
  · exact h b rest hrest

/-! ## Alarmed futures -/

/-- Whenever it returns a value, it has recorded none of these. -/
def Alarmed (F : Label S → Prop) (t : Future S) : Prop :=
  ∀ ls, Runs t ls (.ret (.ok ())) → ∀ x ∈ ls, ¬ F x

section

variable {F : Label S → Prop} {t u : Future S}

theorem Doomed.alarmed (h : Doomed t) : Alarmed F t := fun ls hruns => absurd hruns (h ls)

theorem Alarmed.ret {r : Except S.Error Unit} : Alarmed F (.ret r) := by
  intro ls h x hx
  rw [(Runs.ret h).1] at hx
  exact nomatch hx

/-- An answer that tells of a failure dooms what follows. -/
theorem Alarmed.ask {i : S.Request} {k : S.Answer i → Future S}
    (hdoomed : ∀ b, F (.did i b) → Doomed (k b)) (h : ∀ b, Alarmed F (k b)) :
    Alarmed F (.ask i k) := by
  intro ls hruns x hx
  rcases Runs.ask hruns with ⟨rfl, -⟩ | ⟨b, rest, rfl, hrest⟩
  · exact nomatch hx
  · rcases List.mem_cons.mp hx with rfl | hx
    · exact fun hfails => hdoomed b hfails rest hrest
    · exact h b rest hrest x hx

theorem Alarmed.ask_quiet {i : S.Request} {k : S.Answer i → Future S} (hquiet : ∀ b, ¬ F (.did i b))
    (h : ∀ b, Alarmed F (k b)) : Alarmed F (.ask i k) :=
  .ask (fun b hfails => absurd hfails (hquiet b)) h

theorem Alarmed.bind {f : Except S.Error Unit → Future S} (h : Alarmed F t)
    (hdoomed : ∀ e, Doomed (f (.error e))) (hok : Alarmed F (f (.ok ()))) :
    Alarmed F (t.bind f) := by
  intro ls hruns x hx
  rcases Runs.bind hruns with ⟨t', ht, heq⟩ | ⟨r, l₁, l₂, rfl, ht, hafter⟩
  · cases t' with
    | ret r =>
        cases r with
        | error e => exact absurd (heq ▸ .refl) (hdoomed e [])
        | ok a => exact h ls ht x hx
    | ask i k => exact nomatch heq
    | join p branches k => exact nomatch heq
  · cases r with
    | error e => exact absurd hafter (hdoomed e l₂)
    | ok a =>
        rcases List.mem_append.mp hx with hx | hx
        · exact h l₁ ht x hx
        · exact hok l₂ hafter x hx

theorem Alarmed.andThen (h : Alarmed F t) (hu : Alarmed F u) : Alarmed F (t.andThen u) :=
  h.bind (fun e => .error e) hu

theorem Alarmed.loop {f : Nat → Future S} {n : Nat} : ∀ {i : Nat}, (∀ j, Alarmed F (f j)) →
    Alarmed F (Future.loop f i n) := by
  induction n with
  | zero => exact fun _ => .ret
  | succ n ih => exact fun h => (h _).andThen (ih h)

/-- A branch that fails takes the join down with it. -/
theorem Alarmed.join {p : S.Place} {branches : List (Future S)} {k : Except S.Error Unit → Future S}
    (h : ∀ c ∈ branches, Alarmed F c) (hdoomed : ∀ e, Doomed (k (.error e)))
    (hok : Alarmed F (k (.ok ()))) : Alarmed F (.join p branches k) := by
  intro ls hruns x hx
  rcases Runs.join hruns with ⟨branches', -, heq⟩ | ⟨branches', l₁, l₂, rfl, hb, hend⟩
  · exact nomatch heq
  · cases hend with
    | aborted _ hrest => exact absurd hrest (hdoomed _ _)
    | returned hall hrest =>
        rcases List.mem_append.mp hx with hx | hx
        · obtain ⟨c, hc, c', hc', l, hbranch, hmem⟩ := hb.mem hx
          rw [hall c' hc'] at hbranch
          exact h c hc l hbranch x hmem
        · exact hok l₂ hrest x hx

end

/-! ## Futures that own up -/

/-- Whenever it returns an error, it has recorded one of these, or the error is excused. -/
def Admits (F : Label S → Prop) (Excused : S.Error → Prop) (t : Future S) : Prop :=
  ∀ ls e, Runs t ls (.ret (.error e)) → (∃ x ∈ ls, F x) ∨ Excused e

section

variable {F : Label S → Prop} {Excused : S.Error → Prop} {t : Future S}

theorem Admits.ok : Admits F Excused (.ret (.ok ()) : Future S) := by
  intro ls e h
  cases (Runs.ret h).2

theorem Admits.error {e : S.Error} (he : Excused e) : Admits F Excused (.ret (.error e)) := by
  intro ls e' h
  obtain rfl := Except.error.inj (Future.ret.inj (Runs.ret h).2)
  exact Or.inr he

/-- An answer tells of a failure, or what follows owns up. -/
theorem Admits.ask {i : S.Request} {k : S.Answer i → Future S}
    (h : ∀ b, F (.did i b) ∨ Admits F Excused (k b)) : Admits F Excused (.ask i k) := by
  intro ls e hruns
  rcases Runs.ask hruns with ⟨-, heq⟩ | ⟨b, rest, rfl, hrest⟩
  · cases heq
  · rcases h b with hb | hk
    · exact Or.inl ⟨_, List.mem_cons_self, hb⟩
    · refine (hk rest e hrest).imp_left ?_
      rintro ⟨x, hx, hF⟩
      exact ⟨x, List.mem_cons_of_mem _ hx, hF⟩

/-- Whatever the first part does, the second owns up. -/
theorem Admits.bind {f : Except S.Error Unit → Future S} (h : ∀ r, Admits F Excused (f r)) :
    Admits F Excused (t.bind f) := by
  intro ls e hruns
  rcases Runs.bind hruns with ⟨t', -, heq⟩ | ⟨r, l₁, l₂, rfl, -, hafter⟩
  · cases t' with
    | ret r =>
        refine (h r [] e (heq ▸ .refl)).imp_left ?_
        rintro ⟨x, hx, -⟩
        cases hx
    | ask i k => cases heq
    | join p branches k => cases heq
  · refine (h r l₂ e hafter).imp_left ?_
    rintro ⟨x, hx, hF⟩
    exact ⟨x, List.mem_append_right _ hx, hF⟩

/-- **What is recorded decides the result**, up to the errors that are excused. -/
theorem Runs.ok_iff {ls : List (Label S)} {r : Except S.Error Unit} (h : Runs t ls (.ret r))
    (halarmed : Alarmed F t) (hadmits : Admits F Excused t) :
    (r = .ok () ↔ ∀ x ∈ ls, ¬ F x) ∨ ∃ e, r = .error e ∧ Excused e := by
  cases r with
  | ok a => exact Or.inl (iff_of_true rfl (halarmed ls h))
  | error e =>
      refine (hadmits ls e h).imp ?_ fun he => ⟨e, rfl, he⟩
      rintro ⟨x, hx, hF⟩
      exact iff_of_false (fun heq => by cases heq) fun hnone => hnone x hx hF

end

end ConformanceHarness.Lib.Future

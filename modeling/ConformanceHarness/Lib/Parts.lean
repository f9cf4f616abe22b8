import ConformanceHarness.Lib.Future

/-!
# Parts of a future

`u` is a part of `t` at some places if whatever `t` records there is a run of `u`. This is
how one reasons about a piece of a large future on its own: once it is known to be a part,
nothing about the rest of the future matters, and neither does what runs next to it.

The rules follow the constructors. A part of the first of two futures in a row, of the
second, of one round of a loop and of one branch of a join is a part of the whole, as long
as the rest of the whole stays away from its places. If the whole returns then so has the
part, unless a join has dropped it: `Covers p i` says that the branch `i` of a join at `p`
has the part in it.
-/

namespace ConformanceHarness.Lib.Future

variable {S : Interface} {P : S.Place → Prop} [DecidablePred P] {Covers : S.Place → Nat → Prop}

/-- A branch that had the part in it was dropped. -/
def Dropped (Covers : S.Place → Nat → Prop) (ls : List (Label S)) : Prop :=
  ∃ p i, .dropped p i ∈ ls ∧ Covers p i

theorem Dropped.mono {ls ls' : List (Label S)} (h : Dropped Covers ls) (hsub : ls ⊆ ls') :
    Dropped Covers ls' := by
  obtain ⟨p, i, hmem, hcovers⟩ := h
  exact ⟨p, i, hsub hmem, hcovers⟩

/-- At the places with `P`, the future `t` does what `u` does. -/
def Part (P : S.Place → Prop) [DecidablePred P] (Covers : S.Place → Nat → Prop)
    (u t : Future S) : Prop :=
  ∀ ls t', Runs t ls t' → (∃ x ∈ ls, P x.place) →
    ∃ u', Runs u (recordAt P ls) u' ∧
      (t'.finished = true → u'.finished = true ∨ Dropped Covers ls)

/-- A future that stays away from the places does nothing there. -/
theorem Part.of_away {u t : Future S} (h : At (fun p => ¬ P p) t) : Part P Covers u t := by
  rintro ls t' hruns ⟨x, hx, hp⟩
  exact absurd hp (hruns.within h x hx)

theorem Part.refl {t : Future S} (h : At P t) : Part P Covers t t := by
  intro ls t' hruns _
  rw [recordAt_self (hruns.within h)]
  exact ⟨t', hruns, Or.inl⟩

theorem Part.ask {u : Future S} {i : S.Request} {k : S.Answer i → Future S}
    (haway : ¬ P (S.place i)) (h : ∀ b, Part P Covers u (k b)) : Part P Covers u (.ask i k) := by
  rintro ls t' hruns ⟨x, hx, hp⟩
  rcases Runs.ask hruns with ⟨rfl, -⟩ | ⟨b, rest, rfl, hrest⟩
  · exact nomatch hx
  · have hmem : x ∈ rest := by
      rcases List.mem_cons.mp hx with rfl | hx
      · exact absurd hp haway
      · exact hx
    obtain ⟨u', hu, hend⟩ := h b rest t' hrest ⟨x, hmem, hp⟩
    refine ⟨u', (recordAt_cons_away (x := .did i b) haway).symm ▸ hu, ?_⟩
    intro hfin
    exact (hend hfin).imp_right fun hd => hd.mono (List.subset_cons_self _ _)

theorem finished_of_bind {t : Future S} {f : Except S.Error Unit → Future S}
    (h : (t.bind f).finished = true) : ∃ r, t = .ret r := by
  cases t with
  | ret r => exact ⟨r, rfl⟩
  | ask i k => exact nomatch h
  | join p branches k => exact nomatch h

/-- A part of the first of two. -/
theorem Part.bind {u t : Future S} {f : Except S.Error Unit → Future S} (h : Part P Covers u t)
    (haway : ∀ r, At (fun p => ¬ P p) (f r)) : Part P Covers u (t.bind f) := by
  rintro ls t' hruns ⟨x, hx, hp⟩
  rcases hruns.bind with ⟨t₁, hfirst, rfl⟩ | ⟨r, l₁, l₂, rfl, hfirst, hafter⟩
  · obtain ⟨u', hu, hend⟩ := h ls t₁ hfirst ⟨x, hx, hp⟩
    refine ⟨u', hu, ?_⟩
    intro hfin
    obtain ⟨r, rfl⟩ := finished_of_bind hfin
    exact hend rfl
  · have hl₂ := hafter.within (haway r)
    have hmem : x ∈ l₁ := by
      rcases List.mem_append.mp hx with hx | hx
      · exact hx
      · exact absurd hp (hl₂ x hx)
    obtain ⟨u', hu, hend⟩ := h l₁ (.ret r) hfirst ⟨x, hmem, hp⟩
    rw [recordAt_append, recordAt_none hl₂, List.append_nil]
    exact ⟨u', hu, fun _ => (hend rfl).imp_right fun hd => hd.mono (List.subset_append_left _ _)⟩

/-- A part of the second of two. -/
theorem Part.bind_after {u t : Future S} {f : Except S.Error Unit → Future S}
    (haway : At (fun p => ¬ P p) t) (h : ∀ r, Part P Covers u (f r)) :
    Part P Covers u (t.bind f) := by
  rintro ls t' hruns ⟨x, hx, hp⟩
  rcases hruns.bind with ⟨t₁, hfirst, rfl⟩ | ⟨r, l₁, l₂, rfl, hfirst, hafter⟩
  · exact absurd hp (hfirst.within haway x hx)
  · have hl₁ := hfirst.within haway
    have hmem : x ∈ l₂ := by
      rcases List.mem_append.mp hx with hx | hx
      · exact absurd hp (hl₁ x hx)
      · exact hx
    obtain ⟨u', hu, hend⟩ := h r l₂ t' hafter ⟨x, hmem, hp⟩
    rw [recordAt_append, recordAt_none hl₁, List.nil_append]
    refine ⟨u', hu, ?_⟩
    intro hfin
    exact (hend hfin).imp_right fun hd => hd.mono (List.subset_append_right _ _)

theorem Part.andThen {u t v : Future S} (h : Part P Covers u t)
    (haway : At (fun p => ¬ P p) v) : Part P Covers u (t.andThen v) := by
  refine h.bind ?_
  intro r
  cases r with
  | ok a => exact haway
  | error e => exact .ret

theorem Part.andThen_after {u t v : Future S} (haway : At (fun p => ¬ P p) t)
    (h : Part P Covers u v) : Part P Covers u (t.andThen v) := by
  refine Part.bind_after haway ?_
  intro r
  cases r with
  | ok a => exact h
  | error e => exact .of_away .ret

/-- A part of one round of a loop. -/
theorem Part.loop {u : Future S} {f : Nat → Future S} {n m : Nat} (h : Part P Covers u (f m))
    (haway : ∀ j, j ≠ m → At (fun p => ¬ P p) (f j)) :
    ∀ {i : Nat}, Part P Covers u (Future.loop f i n) := by
  induction n with
  | zero => intro i; exact .of_away .ret
  | succ n ih =>
      intro i
      by_cases him : i = m
      · subst him
        refine h.andThen (At.loop ?_)
        intro j hj
        exact haway j (by omega)
      · exact .andThen_after (haway i him) ih

/-- A part of one branch of a join. -/
theorem Part.join {u c : Future S} {p : S.Place} {branches : List (Future S)}
    {k : Except S.Error Unit → Future S} {i : Nat} {Q : S.Place → Prop} [DecidablePred Q]
    (himp : ∀ q, P q → Q q) (hplace : ¬ P p) (hget : branches[i]? = some c)
    (hc : At Q c)
    (hothers : ∀ j d, j ≠ i → branches[j]? = some d → At (fun p => ¬ Q p) d)
    (hk : ∀ r, At (fun p => ¬ P p) (k r)) (hcovers : Covers p i) (h : Part P Covers u c) :
    Part P Covers u (.join p branches k) := by
  rintro ls t' hruns ⟨x, hx, hp⟩
  -- what the branch has recorded is what the join has recorded at its places
  have hbranch : ∀ {l branches'}, Branches branches l branches' → x ∈ l →
      ∃ c' u', branches'[i]? = some c' ∧ Runs u (recordAt P l) u' ∧
        (c'.finished = true → u'.finished = true ∨ Dropped Covers l) := by
    intro l branches' hb hmem
    obtain ⟨c', hc', hrunsc⟩ := hb.branch hget hc hothers
    obtain ⟨u', hu, hend⟩ := h _ c' hrunsc ⟨x, mem_recordAt.mpr ⟨hmem, himp _ hp⟩, hp⟩
    rw [recordAt_recordAt himp] at hu
    refine ⟨c', u', hc', hu, ?_⟩
    intro hfin
    exact (hend hfin).imp_right fun hd => hd.mono fun y hy => (mem_recordAt.mp hy).1
  rcases Runs.join hruns with ⟨branches', hb, rfl⟩ | ⟨branches', l₁, l₂, rfl, hb, hend⟩
  · obtain ⟨-, u', -, hu, -⟩ := hbranch hb hx
    exact ⟨u', hu, fun hfin => nomatch hfin⟩
  · have hl₂ : ∀ y ∈ l₂, ¬ P y.place := by
      cases hend with
      | returned _ hrest => exact hrest.within (hk _)
      | aborted _ hrest =>
          intro y hy
          rcases List.mem_append.mp hy with hy | hy
          · obtain ⟨i, rfl⟩ := mem_drops hy
            exact hplace
          · exact hrest.within (hk _) y hy
    have hmem : x ∈ l₁ := by
      rcases List.mem_append.mp hx with hx | hx
      · exact hx
      · exact absurd hp (hl₂ x hx)
    obtain ⟨c', u', hc', hu, hfin⟩ := hbranch hb hmem
    rw [recordAt_append, recordAt_none hl₂, List.append_nil]
    refine ⟨u', hu, fun _ => ?_⟩
    by_cases hdone : c'.finished = true
    · exact (hfin hdone).imp_right fun hd => hd.mono (List.subset_append_left _ _)
    · -- the branch was left standing, so the join has dropped it
      right
      cases hend with
      | returned hall _ =>
          rw [hall c' (List.mem_of_getElem? hc')] at hdone
          exact absurd rfl hdone
      | aborted _ _ =>
          refine ⟨p, i, List.mem_append_right _ (List.mem_append_left _ ?_), hcovers⟩
          exact dropped_mem_drops.mpr ⟨c', hc', (Bool.not_eq_true _).mp hdone⟩

end ConformanceHarness.Lib.Future

/-!
# Lists ascending along a key

A list whose keys strictly increase, as one grows that is only ever appended to past its last
key. The part of it up to a bound is a prefix, so it grows with the bound and with the list.
-/

namespace ConformanceHarness.Lib

section

variable {α κ : Type} [LT κ]

/-- The keys strictly increase. -/
def Ascending (key : α → κ) (l : List α) : Prop := l.Pairwise fun a b => key a < key b

variable {key : α → κ} {l : List α} {a : α}

theorem Ascending.nil : Ascending key [] := List.Pairwise.nil

theorem Ascending.tail (h : Ascending key (a :: l)) : Ascending key l := (List.pairwise_cons.mp h).2

theorem Ascending.head_lt (h : Ascending key (a :: l)) {b : α} (hb : b ∈ l) : key a < key b :=
  (List.pairwise_cons.mp h).1 b hb

end

section

variable {α κ : Type} [LE κ] [LT κ] [Std.IsLinearOrder κ] [Std.LawfulOrderLT κ]
  {key : α → κ} {l l' : List α} {a : α}

/-- **One more element, past the last one.** -/
theorem Ascending.snoc (h : Ascending key l) (hlast : ∀ b, l.getLast? = some b → key b < key a) :
    Ascending key (l ++ [a]) := by
  refine List.pairwise_append.mpr ⟨h, List.pairwise_singleton _ _, fun x hx y hy => ?_⟩
  obtain rfl := List.mem_singleton.mp hy
  -- `x` is the last element or comes before it
  rcases List.eq_nil_or_concat l with rfl | ⟨init, b, hl⟩
  · exact nomatch hx
  rw [List.concat_eq_append] at hl
  subst hl
  have hb : key b < key y := hlast b List.getLast?_concat
  rcases List.mem_append.mp hx with hx | hx
  · have hxb : key x < key b := (List.pairwise_append.mp h).2.2 x hx b List.mem_cons_self
    exact Std.lt_trans hxb hb
  · rw [List.mem_singleton.mp hx]
    exact hb

variable [DecidableLE κ]

/-- The part up to a bound is at the beginning. -/
theorem Ascending.filter_begins (h : Ascending key l) (bound : κ) :
    l.filter (fun x => key x ≤ bound) <+: l := by
  induction l with
  | nil => exact List.nil_prefix
  | cons x rest ih =>
      by_cases hx : key x ≤ bound
      · rw [List.filter_cons, if_pos (decide_eq_true hx)]
        exact List.cons_prefix_cons.mpr ⟨rfl, ih h.tail⟩
      · -- past the bound nothing is left
        have hnone : (x :: rest).filter (fun x => key x ≤ bound) = [] := by
          refine List.filter_eq_nil_iff.mpr fun y hy hle => hx ?_
          rcases List.mem_cons.mp hy with rfl | hy
          · exact of_decide_eq_true hle
          · exact Std.le_trans (Std.le_of_lt (h.head_lt hy)) (of_decide_eq_true hle)
        rw [hnone]
        exact List.nil_prefix

/-- With a higher bound there is more of the list, at its end. -/
theorem Ascending.filter_prefix {lo hi : κ} (h : Ascending key l) (hle : lo ≤ hi) :
    l.filter (fun x => key x ≤ lo) <+: l.filter fun x => key x ≤ hi := by
  have hup : Ascending key (l.filter fun x => key x ≤ hi) := h.filter _
  have hbegins := hup.filter_begins lo
  rw [List.filter_filter] at hbegins
  have hboth : ∀ x ∈ l, (decide (key x ≤ lo) && decide (key x ≤ hi)) = decide (key x ≤ lo) := by
    intro x _
    by_cases hx : key x ≤ lo
    · rw [decide_eq_true hx, decide_eq_true (Std.le_trans hx hle)]
      rfl
    · rw [decide_eq_false hx, Bool.false_and]
  rwa [List.filter_congr hboth] at hbegins

/-- **What is up to a bound stays**, as the bound rises and the list is appended to. -/
theorem Ascending.filter_prefix_of_prefix {lo hi : κ} (h : Ascending key l) (hle : lo ≤ hi)
    (hsub : l <+: l') :
    l.filter (fun x => key x ≤ lo) <+: l'.filter fun x => key x ≤ hi :=
  (h.filter_prefix hle).trans (hsub.filter _)

end

end ConformanceHarness.Lib

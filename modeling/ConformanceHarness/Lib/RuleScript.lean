import ConformanceHarness.Lib.Program
import Mathlib.Data.List.TakeWhile

/-!
# Servers that answer by a list of rules

A server answers each request by a rule of a list. Which one is a matter of
*strategy*. The one a reader expects marks the rules that are used up: it answers by the
first rule that matches and is not marked. A cheaper one keeps a single index and looks
at the rules from there on, so that whatever it passes over is gone.

The two choose the same rules for exactly those requests whose rules stand in order:
after a rule that is used up, only rules further down are chosen (`choices_eq_iff`). It
is always so if all requests match the same rules.

A server that runs by a strategy is `Script.loop`, and `Script.log` is what it answered.
-/

namespace ConformanceHarness.Lib

variable {σ ε ρ α κ κ' : Type}

/-- The first element that is accepted, with its position; positions count from `i`. -/
def firstAt (accepts : Nat → ρ → Bool) : Nat → List ρ → Option (Nat × ρ)
  | _, [] => none
  | i, a :: rest => if accepts i a then some (i, a) else firstAt accepts (i + 1) rest

theorem firstAt_some {accepts : Nat → ρ → Bool} {l : List ρ} : ∀ {i n : Nat} {a : ρ},
    firstAt accepts i l = some (n, a) → ∃ j, n = i + j ∧ l[j]? = some a ∧ accepts n a ∧
      ∀ j' b, j' < j → l[j']? = some b → accepts (i + j') b = false := by
  induction l with
  | nil => intro i n a h; simp [firstAt] at h
  | cons b rest ih =>
    intro i n a h
    rw [firstAt] at h
    by_cases hb : accepts i b
    · rw [if_pos hb] at h
      obtain ⟨rfl, rfl⟩ := Prod.mk.inj (Option.some.inj h)
      exact ⟨0, rfl, rfl, hb, fun j' b hj' => absurd hj' (Nat.not_lt_zero j')⟩
    · rw [if_neg hb] at h
      obtain ⟨j, hn, hget, haccepts, hbefore⟩ := ih h
      refine ⟨j + 1, by omega, hget, haccepts, fun j' c hj' hc => ?_⟩
      cases j' with
      | zero =>
        obtain rfl := Option.some.inj hc
        exact Bool.eq_false_iff.mpr hb
      | succ j' =>
        rw [← Nat.add_assoc, Nat.add_right_comm]
        exact hbefore j' c (Nat.lt_of_succ_lt_succ hj') hc

theorem firstAt_none {accepts : Nat → ρ → Bool} {l : List ρ} : ∀ {i : Nat},
    firstAt accepts i l = none → ∀ j b, l[j]? = some b → accepts (i + j) b = false := by
  induction l with
  | nil => intro i _ j b hb; exact nomatch hb
  | cons a rest ih =>
    intro i h j b hb
    rw [firstAt] at h
    by_cases ha : accepts i a
    · rw [if_pos ha] at h
      exact nomatch h
    · rw [if_neg ha] at h
      cases j with
      | zero =>
        obtain rfl := Option.some.inj hb
        exact Bool.eq_false_iff.mpr ha
      | succ j =>
        rw [← Nat.add_assoc, Nat.add_right_comm]
        exact ih h j b hb

/-- `found` is the first element of `l`, from position `from` on, that is accepted. -/
structure IsFirst (accepts : Nat → ρ → Bool) (start : Nat) (l : List ρ) (pos : Nat) (a : ρ) :
    Prop where
  start_le : start ≤ pos
  get : l[pos]? = some a
  accepted : accepts pos a
  before : ∀ j b, start ≤ j → j < pos → l[j]? = some b → accepts j b = false

/-- Searching from a position on finds the first element accepted there. -/
theorem firstAt_drop_some {accepts : Nat → ρ → Bool} {l : List ρ} {start pos : Nat} {a : ρ}
    (h : firstAt accepts start (l.drop start) = some (pos, a)) : IsFirst accepts start l pos a := by
  obtain ⟨j, rfl, hget, haccepts, hbefore⟩ := firstAt_some h
  rw [List.getElem?_drop] at hget
  refine ⟨Nat.le_add_right start j, hget, haccepts, fun i b hi hlt hb => ?_⟩
  obtain ⟨d, rfl⟩ := Nat.exists_eq_add_of_le hi
  exact hbefore d b (by omega) (by rw [List.getElem?_drop]; exact hb)

theorem firstAt_drop_none {accepts : Nat → ρ → Bool} {l : List ρ} {start : Nat}
    (h : firstAt accepts start (l.drop start) = none) :
    ∀ j b, start ≤ j → l[j]? = some b → accepts j b = false := by
  intro j b hj hb
  obtain ⟨d, rfl⟩ := Nat.exists_eq_add_of_le hj
  exact firstAt_none h d b (by rw [List.getElem?_drop]; exact hb)

/-- There is at most one. -/
theorem IsFirst.unique {accepts : Nat → ρ → Bool} {l : List ρ} {start pos pos' : Nat} {a a' : ρ}
    (h : IsFirst accepts start l pos a) (h' : IsFirst accepts start l pos' a') :
    pos = pos' ∧ a = a' := by
  have hpos : pos = pos' := by
    rcases Nat.lt_trichotomy pos pos' with hlt | heq | hlt
    · exact absurd (h'.before pos a h.start_le hlt h.get) (by simp [h.accepted])
    · exact heq
    · exact absurd (h.before pos' a' h'.start_le hlt h'.get) (by simp [h'.accepted])
  subst hpos
  exact ⟨rfl, Option.some.inj (h.get.symm.trans h'.get)⟩

theorem IsFirst.firstAt_drop {accepts : Nat → ρ → Bool} {l : List ρ} {start pos : Nat} {a : ρ}
    (h : IsFirst accepts start l pos a) : firstAt accepts start (l.drop start) = some (pos, a) := by
  rcases hfound : firstAt accepts start (l.drop start) with _ | ⟨pos', a'⟩
  · exact absurd (firstAt_drop_none hfound pos a h.start_le h.get) (by simp [h.accepted])
  · obtain ⟨rfl, rfl⟩ := h.unique (firstAt_drop_some hfound)
    rfl

/-! ## Strategies -/

/-- How the rule for a request is chosen, and what is remembered of the choice. -/
structure Strategy (ρ α κ : Type) where
  select : κ → α → Option (Nat × ρ)
  advance : κ → Nat → ρ → κ

namespace Strategy

/-- The positions chosen for a list of requests; it ends where no rule is left. -/
def choices (st : Strategy ρ α κ) : κ → List α → List (Option Nat)
  | _, [] => []
  | k, request :: rest =>
    match st.select k request with
    | none => [none]
    | some (pos, rule) => some pos :: st.choices (st.advance k pos rule) rest

/-- The positions of the rules that are chosen. -/
def fired (st : Strategy ρ α κ) (k : κ) (requests : List α) : List Nat :=
  (st.choices k requests).filterMap id

/-- The rules come from this list. -/
def ChoosesFrom (st : Strategy ρ α κ) (rules : List ρ) : Prop :=
  ∀ k request pos rule, st.select k request = some (pos, rule) → rules[pos]? = some rule

theorem fired_none {st : Strategy ρ α κ} {k : κ} {request : α} {rest : List α}
    (h : st.select k request = none) : st.fired k (request :: rest) = [] := by
  rw [fired, choices, h]
  rfl

theorem fired_some {st : Strategy ρ α κ} {k : κ} {request : α} {rest : List α} {pos : Nat}
    {rule : ρ}
    (h : st.select k request = some (pos, rule)) :
    st.fired k (request :: rest) = pos :: st.fired (st.advance k pos rule) rest := by
  rw [fired, choices, h]
  rfl

end Strategy

/-! ## One index, or a mark for each rule -/

/-- A list of rules, of which some are not used up when they are chosen. -/
structure RuleList (ρ α : Type) where
  rules : List ρ
  matchesOn : α → ρ → Bool
  repeatable : ρ → Bool

namespace RuleList

variable (R : RuleList ρ α)

/-- The rule at `pos` is not used up. -/
def repeatableAt (pos : Nat) : Bool := (R.rules[pos]?.map R.repeatable).getD false

/-- The first rule from an index on that matches; it moves the index past it. -/
def byIndex : Strategy ρ α Nat where
  select idx request := firstAt (fun _ rule => R.matchesOn request rule) idx (R.rules.drop idx)
  advance idx pos rule := if R.repeatable rule then idx else pos + 1

/-- The first rule that matches and is not used up; it is used up by it. -/
def byConsumption : Strategy ρ α (List Nat) where
  select consumed request :=
    firstAt (fun pos rule => R.matchesOn request rule && !consumed.contains pos) 0 R.rules
  advance consumed pos rule := if R.repeatable rule then consumed else pos :: consumed

/-- The rules for these requests stand in order: after a rule that is used up, only rules
further down the list are chosen. -/
def InOrder (requests : List α) : Prop :=
  (R.byConsumption.fired [] requests).Pairwise fun p q => R.repeatableAt p = true ∨ p < q

variable {R}

theorem byIndex_some {idx pos : Nat} {request : α} {rule : ρ}
    (h : R.byIndex.select idx request = some (pos, rule)) :
    IsFirst (fun _ rule => R.matchesOn request rule) idx R.rules pos rule := firstAt_drop_some h

theorem byConsumption_some {consumed : List Nat} {pos : Nat} {request : α} {rule : ρ}
    (h : R.byConsumption.select consumed request = some (pos, rule)) :
    IsFirst (fun pos rule => R.matchesOn request rule && !consumed.contains pos) 0 R.rules pos
      rule := firstAt_drop_some h

theorem byConsumption_matches {consumed : List Nat} {pos : Nat} {request : α} {rule : ρ}
    (h : R.byConsumption.select consumed request = some (pos, rule)) :
    R.matchesOn request rule = true ∧ pos ∉ consumed := by
  have haccepted := (byConsumption_some h).accepted
  simpa using haccepted

/-- Nothing is left from an index on if nothing is left at all. -/
theorem byIndex_none {consumed : List Nat} {idx : Nat} {request : α}
    (hconsumed : ∀ c ∈ consumed, c < idx)
    (h : R.byConsumption.select consumed request = none) : R.byIndex.select idx request = none := by
  rcases hsel : R.byIndex.select idx request with _ | ⟨pos, rule⟩
  · rfl
  · have hfirst := byIndex_some hsel
    have hnone := firstAt_none h pos rule hfirst.get
    rw [Nat.zero_add] at hnone
    have hnot : pos ∉ consumed := fun hmem => by
      have := hconsumed pos hmem
      have := hfirst.start_le
      omega
    simp [hfirst.accepted, hnot] at hnone

/-- From an index on, below which everything used up lies, both find the same rule, unless
there is one left below. -/
theorem byIndex_of_le {consumed : List Nat} {idx pos : Nat} {request : α} {rule : ρ}
    (hconsumed : ∀ c ∈ consumed, c < idx)
    (h : R.byConsumption.select consumed request = some (pos, rule)) (hle : idx ≤ pos) :
    R.byIndex.select idx request = some (pos, rule) := by
  have hfirst := byConsumption_some h
  refine IsFirst.firstAt_drop ⟨hle, hfirst.get, (byConsumption_matches h).1, ?_⟩
  intro j b hj hlt hb
  have hbefore := hfirst.before j b (Nat.zero_le j) hlt hb
  have hnot : j ∉ consumed := fun hmem => Nat.not_lt.mpr hj (hconsumed j hmem)
  simpa [hnot] using hbefore

theorem repeatableAt_eq {pos : Nat} {rule : ρ} (h : R.rules[pos]? = some rule) :
    R.repeatableAt pos = R.repeatable rule := by
  rw [repeatableAt, h]
  rfl

/-- The two strategies from an index and a set of marks below it. -/
theorem choices_eq_iff_from (requests : List α) : ∀ {idx : Nat} {consumed : List Nat},
    (∀ c ∈ consumed, c < idx) →
    (R.byIndex.choices idx requests = R.byConsumption.choices consumed requests ↔
      (∀ p ∈ R.byConsumption.fired consumed requests, idx ≤ p) ∧
        (R.byConsumption.fired consumed requests).Pairwise
          fun p q => R.repeatableAt p = true ∨ p < q) := by
  induction requests with
  | nil =>
    intro idx consumed _
    exact iff_of_true rfl ⟨fun p hp => (List.not_mem_nil hp).elim, List.Pairwise.nil⟩
  | cons request rest ih =>
    intro idx consumed hconsumed
    rcases hdoc : R.byConsumption.select consumed request with _ | ⟨pos, rule⟩
    · rw [Strategy.fired_none hdoc, Strategy.choices, Strategy.choices, hdoc,
        byIndex_none hconsumed hdoc]
      exact iff_of_true rfl ⟨fun p hp => (List.not_mem_nil hp).elim, List.Pairwise.nil⟩
    · rw [Strategy.fired_some hdoc, List.forall_mem_cons, List.pairwise_cons]
      by_cases hle : idx ≤ pos
      · have hrep := repeatableAt_eq (byConsumption_some hdoc).get
        rw [Strategy.choices, Strategy.choices, hdoc, byIndex_of_le hconsumed hdoc hle]
        dsimp only
        rw [List.cons.injEq, and_iff_right rfl]
        by_cases hrule : R.repeatable rule = true
        · -- the rule stays, and so do index and marks
          have hidx : R.byIndex.advance idx pos rule = idx := if_pos hrule
          have hmarks : R.byConsumption.advance consumed pos rule = consumed := if_pos hrule
          rw [hidx, hmarks, ih hconsumed]
          constructor
          · intro h
            exact ⟨⟨hle, h.1⟩, fun q _ => .inl (hrep.trans hrule), h.2⟩
          · intro h
            exact ⟨h.1.2, h.2.2⟩
        · -- the rule is used up: what follows has to be past it
          have hidx : R.byIndex.advance idx pos rule = pos + 1 := if_neg hrule
          have hmarks : R.byConsumption.advance consumed pos rule = pos :: consumed := if_neg hrule
          have hbelow : ∀ c ∈ pos :: consumed, c < pos + 1 := by
            intro c hc
            rcases List.mem_cons.mp hc with rfl | hc
            · exact Nat.lt_succ_self c
            · have := hconsumed c hc
              omega
          rw [hidx, hmarks, ih hbelow]
          constructor
          · intro h
            refine ⟨⟨hle, fun q hq => ?_⟩, fun q hq => .inr (h.1 q hq), h.2⟩
            have := h.1 q hq
            omega
          · intro h
            refine ⟨fun q hq => ?_, h.2.2⟩
            rcases h.2.1 q hq with hbad | hlt
            · exact absurd (hrep.symm.trans hbad) hrule
            · exact hlt
      · -- the rule below the index is out of reach of the index
        refine iff_of_false (fun heq => ?_) fun h => hle h.1.1
        rw [Strategy.choices, Strategy.choices, hdoc] at heq
        rcases hsel : R.byIndex.select idx request with _ | ⟨pos', rule'⟩ <;> rw [hsel] at heq
        · exact nomatch heq
        · have hpos := Option.some.inj (List.cons.inj heq).1
          exact hle (hpos ▸ (byIndex_some hsel).start_le)

/-- **One index chooses what marks choose exactly if the rules stand in order.** -/
theorem choices_eq_iff (requests : List α) :
    R.byIndex.choices 0 requests = R.byConsumption.choices [] requests ↔ R.InOrder requests := by
  rw [choices_eq_iff_from requests fun c hc => (List.not_mem_nil hc).elim]
  exact and_iff_right fun p _ => Nat.zero_le p

/-- What is chosen matches some request, and was not used up. -/
theorem fired_spec {requests : List α} : ∀ {consumed : List Nat} {q : Nat},
    q ∈ R.byConsumption.fired consumed requests →
    q ∉ consumed ∧ ∃ request ∈ requests, ∃ rule, R.rules[q]? = some rule ∧
      R.matchesOn request rule = true := by
  induction requests with
  | nil => intro consumed q hq; exact (List.not_mem_nil hq).elim
  | cons request rest ih =>
    intro consumed q hq
    rcases hdoc : R.byConsumption.select consumed request with _ | ⟨pos, rule⟩
    · rw [Strategy.fired_none hdoc] at hq
      exact (List.not_mem_nil hq).elim
    · rw [Strategy.fired_some hdoc] at hq
      rcases List.mem_cons.mp hq with rfl | hq
      · exact ⟨(byConsumption_matches hdoc).2, request, List.mem_cons_self, rule,
          (byConsumption_some hdoc).get, (byConsumption_matches hdoc).1⟩
      · obtain ⟨hnot, r, hr, hrule⟩ := ih hq
        refine ⟨fun hmem => hnot ?_, r, List.mem_cons_of_mem request hr, hrule⟩
        show q ∈ (if R.repeatable rule then consumed else pos :: consumed)
        split
        · exact hmem
        · exact List.mem_cons_of_mem pos hmem

/-- **Requests that match the same rules are answered in order.** -/
theorem inOrder_of_uniform {requests : List α}
    (huniform : ∀ r ∈ requests, ∀ r' ∈ requests, R.matchesOn r = R.matchesOn r') :
    R.InOrder requests := by
  have hfrom : ∀ (rest : List α), (∀ r ∈ rest, r ∈ requests) → ∀ consumed : List Nat,
      (R.byConsumption.fired consumed rest).Pairwise fun p q => R.repeatableAt p = true ∨
        p < q := by
    intro rest
    induction rest with
    | nil => intro _ consumed; exact List.Pairwise.nil
    | cons request rest ih =>
      intro hsub consumed
      obtain ⟨hrequest, hrest⟩ := List.forall_mem_cons.mp hsub
      rcases hdoc : R.byConsumption.select consumed request with _ | ⟨pos, rule⟩
      · rw [Strategy.fired_none hdoc]
        exact List.Pairwise.nil
      · rw [Strategy.fired_some hdoc, List.pairwise_cons]
        refine ⟨fun q hq => ?_, ih hrest _⟩
        obtain ⟨hnot, r, hr, rule', hget, hmatch⟩ := fired_spec hq
        rw [huniform r (hrest r hr) request hrequest] at hmatch
        have hfirst := byConsumption_some hdoc
        rw [repeatableAt_eq hfirst.get]
        by_cases hrule : R.repeatable rule = true
        · exact .inl hrule
        · right
          have hmarks : R.byConsumption.advance consumed pos rule = pos :: consumed := if_neg hrule
          rw [hmarks] at hnot
          obtain ⟨hne, hq⟩ := not_or.mp (mt List.mem_cons.mpr hnot)
          -- `q` was there to be chosen before `pos` was, so it is not above it
          rcases Nat.lt_or_ge pos q with hlt | hge
          · exact hlt
          · have hbefore := hfirst.before q rule' (Nat.zero_le q) (by omega) hget
            simp [hmatch, hq] at hbefore
  exact hfrom requests (fun r hr => hr) []

/-! ### Rules that are all used up -/

/-- A flagged rule that answers a request answers every later one of its kind. -/
def KeepsFiring {β : Type} (kind : α → β) (flags : List Bool) (log : List (α × Option Nat)) :
    Prop :=
  log.Pairwise fun a b => ∀ pos, a.2 = some pos → flags[pos]? = some true → kind b.1 = kind a.1 →
    b.2 = some pos

variable (R) in
/-- Each request takes the list up to the first rule that matches it. None that takes a
flagged rule is followed by another of its kind. -/
def NeverAgain {β : Type} (kind : α → β) : List (ρ × Bool) → List α → Prop
  | _, [] => True
  | rules, request :: rest =>
    match rules.dropWhile fun rule => !R.matchesOn request rule.1 with
    | [] => True
    | (_, flag) :: others =>
      (flag = true → ∀ later ∈ rest, kind later ≠ kind request) ∧ NeverAgain kind others rest

/-- The index only grows. -/
theorem byIndex_choices_ge {requests : List α} : ∀ {idx pos : Nat},
    some pos ∈ R.byIndex.choices idx requests → idx ≤ pos := by
  induction requests with
  | nil => intro idx pos h; exact (List.not_mem_nil h).elim
  | cons request rest ih =>
    intro idx pos h
    rw [Strategy.choices] at h
    rcases hsel : R.byIndex.select idx request with _ | ⟨first, rule⟩ <;> rw [hsel] at h
    · exact nomatch List.mem_singleton.mp h
    · have hle := (byIndex_some hsel).start_le
      rcases List.mem_cons.mp h with heq | h
      · rw [Option.some.inj heq]
        exact hle
      · have hrest := ih h
        have hadvance : idx ≤ R.byIndex.advance idx first rule := by
          show idx ≤ if R.repeatable rule then idx else first + 1
          split
          · exact Nat.le_refl idx
          · exact Nat.le_succ_of_le hle
        exact Nat.le_trans hadvance hrest

/-- Taking the list up to its first match, next to the flags. -/
theorem dropWhile_zip_some {flags : List Bool} (hflags : flags.length = R.rules.length)
    {request : α} {idx pos : Nat} {rule : ρ}
    (h : IsFirst (fun _ rule => R.matchesOn request rule) idx R.rules pos rule) :
    ∃ flag, flags[pos]? = some flag ∧
      ((R.rules.zip flags).drop idx).dropWhile (fun z => !R.matchesOn request z.1) =
        (rule, flag) :: (R.rules.zip flags).drop (pos + 1) := by
  have hlt : pos < R.rules.length := (List.getElem?_eq_some_iff.mp h.get).1
  obtain ⟨flag, hflag⟩ : ∃ flag, flags[pos]? = some flag :=
    ⟨flags[pos], List.getElem?_eq_getElem (by omega)⟩
  refine ⟨flag, hflag, ?_⟩
  have hget : (R.rules.zip flags)[pos]? = some (rule, flag) :=
    List.getElem?_zip_eq_some.mpr ⟨h.get, hflag⟩
  obtain ⟨hpos, hpair⟩ := List.getElem?_eq_some_iff.mp hget
  have hsplit : (R.rules.zip flags).drop idx = ((R.rules.zip flags).drop idx).take (pos - idx) ++
      (rule, flag) :: (R.rules.zip flags).drop (pos + 1) := by
    have happend := List.take_append_drop (pos - idx) ((R.rules.zip flags).drop idx)
    rw [List.drop_drop, Nat.add_sub_cancel' h.start_le, List.drop_eq_getElem_cons hpos,
      hpair] at happend
    exact happend.symm
  rw [hsplit, List.dropWhile_append_of_pos, List.dropWhile_cons_of_neg]
  · simpa using h.accepted
  · -- nothing before the first match is a match
    intro z hz
    obtain ⟨j, hj⟩ := List.mem_iff_getElem?.mp hz
    have hjlt : j < pos - idx := by
      rcases Nat.lt_or_ge j (pos - idx) with hlt | hge
      · exact hlt
      · rw [List.getElem?_take_eq_none hge] at hj
        exact nomatch hj
    rw [List.getElem?_take_of_lt hjlt, List.getElem?_drop] at hj
    have hrule := (List.getElem?_zip_eq_some.mp hj).1
    have hno := h.before (idx + j) z.1 (Nat.le_add_right idx j) (by omega) hrule
    simpa using hno

theorem dropWhile_zip_none {flags : List Bool} {request : α} {idx : Nat}
    (h : R.byIndex.select idx request = none) :
    ((R.rules.zip flags).drop idx).dropWhile (fun z => !R.matchesOn request z.1) = [] := by
  refine List.dropWhile_eq_nil_iff.mpr fun z hz => ?_
  obtain ⟨j, hj⟩ := List.mem_iff_getElem?.mp hz
  rw [List.getElem?_drop] at hj
  have hrule := (List.getElem?_zip_eq_some.mp hj).1
  have hno := firstAt_drop_none h (idx + j) z.1 (Nat.le_add_right idx j) hrule
  simpa using hno

/-- **Rules that are all used up keep firing exactly if none has to fire again.** -/
theorem keepsFiring_iff {β : Type} {kind : α → β} {flags : List Bool}
    (hused : ∀ rule ∈ R.rules, R.repeatable rule = false)
    (hflags : flags.length = R.rules.length) (log : List (α × Option Nat)) : ∀ {idx : Nat},
    log.map Prod.snd = R.byIndex.choices idx (log.map Prod.fst) →
    (KeepsFiring kind flags log ↔
      R.NeverAgain kind ((R.rules.zip flags).drop idx) (log.map Prod.fst)) := by
  induction log with
  | nil => intro idx _; exact iff_of_true List.Pairwise.nil trivial
  | cons entry rest ih =>
    intro idx hlog
    obtain ⟨request, chosen⟩ := entry
    rw [List.map_cons, List.map_cons, Strategy.choices] at hlog
    rw [List.map_cons, NeverAgain]
    rcases hsel : R.byIndex.select idx request with _ | ⟨pos, rule⟩ <;> rw [hsel] at hlog
    · have hnil : rest = [] := List.map_eq_nil_iff.mp (List.cons.inj hlog).2
      rw [dropWhile_zip_none hsel, hnil]
      exact iff_of_true (List.pairwise_singleton _ _) trivial
    · obtain ⟨rfl, hrest⟩ := List.cons.inj hlog
      have hfirst := byIndex_some hsel
      have hadvance : R.byIndex.advance idx pos rule = pos + 1 :=
        if_neg (by rw [hused rule (List.mem_of_getElem? hfirst.get)]; exact Bool.false_ne_true)
      rw [hadvance] at hrest
      obtain ⟨flag, hflag, hdrop⟩ := dropWhile_zip_some hflags hfirst
      rw [hdrop, KeepsFiring, List.pairwise_cons, ← KeepsFiring, ih hrest]
      refine and_congr_left fun _ => ?_
      constructor
      · intro h htrue later hlater heq
        obtain ⟨entry, hentry, rfl⟩ := List.mem_map.mp hlater
        have hsame := h entry hentry pos rfl (hflag.trans (congrArg some htrue)) heq
        -- but what is chosen later is past it
        have hmem : some pos ∈ R.byIndex.choices (pos + 1) (rest.map Prod.fst) := by
          rw [← hrest, ← hsame]
          exact List.mem_map_of_mem hentry
        exact absurd (byIndex_choices_ge hmem) (Nat.not_succ_le_self pos)
      · intro h entry hentry pos' hpos' hflag' heq
        obtain rfl := Option.some.inj hpos'
        have htrue : flag = true := Option.some.inj (hflag.symm.trans hflag')
        exact absurd heq (h htrue entry.1 (List.mem_map_of_mem hentry))

end RuleList

/-! ## A server -/

/-- A server that answers requests by the rules of a list. -/
structure Script (σ ε ρ α : Type) extends RuleList ρ α where
  /-- A request that ends the session. -/
  isLast : α → Bool
  receive : α → Prog σ ε Unit
  /-- What is done before a rule is chosen. -/
  accept : α → Prog σ ε Unit
  /-- A rule's answer: whether it ends the session. -/
  fire : Nat → ρ → α → Prog σ ε Bool
  /-- The error if no rule is left. -/
  exhausted : α → ε

namespace Script

variable (S : Script σ ε ρ α)

/-- The server, choosing its rules by a strategy. -/
def loop (st : Strategy ρ α κ) : κ → List α → Prog σ ε Unit
  | _, [] => pure ()
  | k, request :: rest => do
    S.receive request
    if S.isLast request then pure ()
    else do
      S.accept request
      match st.select k request with
      | none => Prog.ofExcept (.error (S.exhausted request))
      | some (pos, rule) =>
        if ← S.fire pos rule request then pure ()
        else loop st (st.advance k pos rule) rest

/-- What the server answers from `s` on: each request that reaches a choice, with the rule
chosen for it. -/
def log (st : Strategy ρ α κ) : κ → List α → σ → List (α × Option Nat)
  | _, [], _ => []
  | k, request :: rest, s =>
    match (S.receive request).run s with
    | (.error _, _) => []
    | (.ok (), received) =>
      if S.isLast request then []
      else match (S.accept request).run received with
        | (.error _, _) => []
        | (.ok (), accepted) =>
          match st.select k request with
          | none => [(request, none)]
          | some (pos, rule) =>
            (request, some pos) ::
              match (S.fire pos rule request).run accepted with
              | (.ok false, fired) => log st (st.advance k pos rule) rest fired
              | _ => []

/-- Every request is answered by the first rule that matches it and is not used up, and
there is an error exactly if there is none. -/
def FiresAsMarked (requests : List α) (s : σ) : Prop :=
  (S.log S.byIndex 0 requests s).map Prod.snd =
    S.byConsumption.choices [] ((S.log S.byIndex 0 requests s).map Prod.fst)

variable {S}

theorem loop_last {st : Strategy ρ α κ} {k : κ} {request : α} {rest : List α}
    (hlast : S.isLast request = true) :
    S.loop st k (request :: rest) = S.receive request >>= fun _ => pure () := by
  rw [loop, if_pos hlast]

theorem loop_none {st : Strategy ρ α κ} {k : κ} {request : α} {rest : List α}
    (hlast : S.isLast request = false) (hsel : st.select k request = none) :
    S.loop st k (request :: rest) = S.receive request >>= fun _ =>
      S.accept request >>= fun _ => Prog.ofExcept (.error (S.exhausted request)) := by
  rw [loop, hlast, hsel]
  rfl

theorem loop_some {st : Strategy ρ α κ} {k : κ} {request : α} {rest : List α} {pos : Nat} {rule : ρ}
    (hlast : S.isLast request = false) (hsel : st.select k request = some (pos, rule)) :
    S.loop st k (request :: rest) = S.receive request >>= fun _ =>
      S.accept request >>= fun _ => S.fire pos rule request >>= fun done =>
        if done then pure () else S.loop st (st.advance k pos rule) rest := by
  rw [loop, hlast, hsel]
  rfl

/-- The rules in the log are those the strategy chooses. -/
theorem log_choices (st : Strategy ρ α κ) (requests : List α) : ∀ (k : κ) (s : σ),
    (S.log st k requests s).map Prod.snd = st.choices k ((S.log st k requests s).map Prod.fst) := by
  induction requests with
  | nil => intro k s; rfl
  | cons request rest ih =>
    intro k s
    rw [log]
    split
    · rfl
    · split
      · rfl
      · split
        · rfl
        · rcases hsel : st.select k request with _ | ⟨pos, rule⟩
          · simp [Strategy.choices, hsel]
          · dsimp only
            rw [List.map_cons, List.map_cons, Strategy.choices, hsel]
            dsimp only
            split
            · rw [ih]
            · rfl

/-- The rule at a position is the same for both strategies. -/
theorem select_rule {R : RuleList ρ α} {idx : Nat} {consumed : List Nat} {request : α} {pos : Nat}
    {rule rule' : ρ} (h : R.byIndex.select idx request = some (pos, rule))
    (h' : R.byConsumption.select consumed request = some (pos, rule')) : rule = rule' :=
  Option.some.inj ((RuleList.byIndex_some h).get.symm.trans (RuleList.byConsumption_some h').get)

/-- Where both strategies choose the same rules, the server does the same. -/
theorem run_eq_of_choices (requests : List α) : ∀ (idx : Nat) (consumed : List Nat) (s : σ),
    (S.log S.byIndex idx requests s).map Prod.snd =
      S.byConsumption.choices consumed ((S.log S.byIndex idx requests s).map Prod.fst) →
    (S.loop S.byIndex idx requests).run s = (S.loop S.byConsumption consumed requests).run s := by
  induction requests with
  | nil => intro idx consumed s _; rfl
  | cons request rest ih =>
    intro idx consumed s h
    rw [log] at h
    rw [loop, loop, Prog.run_bind, Prog.run_bind]
    rcases hreceive : (S.receive request).run s with ⟨_ | _, received⟩
    · rfl
    rw [hreceive] at h
    dsimp only at h ⊢
    by_cases hlast : S.isLast request = true
    · rw [if_pos hlast, if_pos hlast]
    rw [if_neg hlast] at h
    rw [if_neg hlast, if_neg hlast, Prog.run_bind, Prog.run_bind]
    rcases haccept : (S.accept request).run received with ⟨_ | _, accepted⟩
    · rfl
    rw [haccept] at h
    dsimp only at h ⊢
    rcases hidx : S.byIndex.select idx request with _ | ⟨pos, rule⟩ <;>
      rcases hdoc : S.byConsumption.select consumed request with _ | ⟨pos', rule'⟩ <;>
        simp only [hidx, List.map_cons, List.map_nil, Strategy.choices, hdoc] at h
    · rfl
    · exact nomatch h
    · exact nomatch h
    · obtain ⟨hpos, htail⟩ := List.cons.inj h
      obtain rfl := Option.some.inj hpos
      obtain rfl := select_rule hidx hdoc
      dsimp only
      rw [Prog.run_bind, Prog.run_bind]
      rcases hfire : (S.fire pos rule request).run accepted with ⟨_ | done, fired⟩
      · rfl
      rw [hfire] at htail
      cases done with
      | true => rfl
      | false => exact ih _ _ fired htail

/-- **A server with one index fires as marked exactly if the rules for the requests it
answers stand in order.** -/
theorem firesAsMarked_iff (requests : List α) (s : σ) :
    S.FiresAsMarked requests s ↔ S.InOrder ((S.log S.byIndex 0 requests s).map Prod.fst) := by
  rw [FiresAsMarked, log_choices, RuleList.choices_eq_iff]

/-- A server that fires as marked is the server that marks. -/
theorem FiresAsMarked.run_eq {requests : List α} {s : σ} (h : S.FiresAsMarked requests s) :
    (S.loop S.byIndex 0 requests).run s = (S.loop S.byConsumption [] requests).run s :=
  run_eq_of_choices requests 0 [] s h

end Script

end ConformanceHarness.Lib

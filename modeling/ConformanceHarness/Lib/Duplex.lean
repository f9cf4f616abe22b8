import Mathlib.Data.List.Basic
import Mathlib.Logic.Relation

/-!
# Two parties and the channels between them

A party is given by what it has said once it has heard some messages. It can be slow to say it,
and the channels can be slow to deliver it, but it takes nothing back, and each channel keeps the
order.

Such a conversation comes to the same end whatever is delivered first: what has been delivered is
always a beginning of what will be delivered in the end, and what is missing can still be. To know
the end it is enough to know messages that account for each other, and that the parties get
through: after fewer messages than that, there is always one more to come.
-/

namespace ConformanceHarness.Lib.Duplex

open Relation (ReflTransGen)

variable {α β : Type}

/-- What a party has said, by what it has heard. -/
@[ext]
structure Party (ι ο : Type) where
  tells : List ι → List ο
  takesNothingBack : ∀ {heard more : List ι}, heard <+: more → tells heard <+: tells more

/-- What has been delivered. -/
@[ext]
structure State (α β : Type) where
  toRight : List α
  toLeft : List β

/-- Nothing has been delivered. -/
def State.initial : State α β := ⟨[], []⟩

/-- The number of messages delivered. -/
def State.size (x : State α β) : Nat := x.toRight.length + x.toLeft.length

/-- What has been delivered in `x` has been delivered in `y`, and perhaps more. -/
structure Below (x y : State α β) : Prop where
  toRight : x.toRight <+: y.toRight
  toLeft : x.toLeft <+: y.toLeft

section

variable (left : Party β α) (right : Party α β)

/-- One more message is delivered, in either direction. -/
inductive Step : State α β → State α β → Prop where
  | toRight {x : State α β} {m : α} (hsaid : x.toRight ++ [m] <+: left.tells x.toLeft) :
      Step x { x with toRight := x.toRight ++ [m] }
  | toLeft {x : State α β} {m : β} (hsaid : x.toLeft ++ [m] <+: right.tells x.toRight) :
      Step x { x with toLeft := x.toLeft ++ [m] }

/-- What conversations come to. -/
def Reachable (x : State α β) : Prop := ReflTransGen (Step left right) .initial x

/-- Nothing is delivered that has not been said. -/
structure Sound (x : State α β) : Prop where
  toRight : x.toRight <+: left.tells x.toLeft
  toLeft : x.toLeft <+: right.tells x.toRight

/-- All that has been said has been delivered. -/
structure Quiet (x : State α β) : Prop where
  toRight : x.toRight = left.tells x.toLeft
  toLeft : x.toLeft = right.tells x.toRight

/-- Every conversation comes to `q`, whatever is delivered first. -/
structure ComesTo (q : State α β) : Prop where
  /-- At any time, what has been delivered is a beginning of what is delivered in `q`. -/
  below : ∀ x, Reachable left right x → Below x q
  /-- What is missing can still be delivered. -/
  goesOn : ∀ x, Reachable left right x → ReflTransGen (Step left right) x q
  /-- Where nothing more can be delivered, nothing is missing. -/
  ends : ∀ x, Reachable left right x → (∀ y, ¬ Step left right x y) → x = q

end

section

variable {left : Party β α} {right : Party α β} {x y q : State α β}

theorem Step.size (h : Step left right x y) : y.size = x.size + 1 := by
  cases h with
  | toRight hsaid => simp only [State.size, List.length_append, List.length_singleton]; omega
  | toLeft hsaid => simp only [State.size, List.length_append, List.length_singleton]; omega

theorem Below.size (h : Below x y) : x.size ≤ y.size :=
  Nat.add_le_add h.toRight.length_le h.toLeft.length_le

/-! ## What is delivered was said -/

theorem Sound.step (hx : Sound left right x) (h : Step left right x y) : Sound left right y := by
  cases h with
  | toRight hsaid =>
    exact ⟨hsaid, hx.toLeft.trans (right.takesNothingBack (List.prefix_append _ _))⟩
  | toLeft hsaid =>
    exact ⟨hx.toRight.trans (left.takesNothingBack (List.prefix_append _ _)), hsaid⟩

theorem sound_of_reachable (h : Reachable left right x) : Sound left right x := by
  induction h with
  | refl => exact ⟨List.nil_prefix, List.nil_prefix⟩
  | tail _ hstep ih => exact ih.step hstep

/-- A list with a message more to come. -/
theorem exists_snoc_prefix {γ : Type} {l m : List γ} (h : l <+: m) (hne : l ≠ m) :
    ∃ c, l ++ [c] <+: m := by
  obtain ⟨rest, rfl⟩ := h
  cases rest with
  | nil => exact absurd (List.append_nil l).symm hne
  | cons c rest => exact ⟨c, rest, by rw [List.append_assoc, List.singleton_append]⟩

/-- As long as something that has been said is on its way, it can be delivered. -/
theorem Sound.quiet_of_stuck (h : Sound left right x) (hstuck : ∀ y, ¬ Step left right x y) :
    Quiet left right x := by
  constructor
  · by_contra hne
    obtain ⟨m, hm⟩ := exists_snoc_prefix h.toRight hne
    exact hstuck _ (.toRight hm)
  · by_contra hne
    obtain ⟨m, hm⟩ := exists_snoc_prefix h.toLeft hne
    exact hstuck _ (.toLeft hm)

/-! ## Where a conversation ends -/

/-- No conversation goes beyond messages that account for each other. -/
theorem Quiet.below_step (hq : Quiet left right q) (hx : Below x q) (h : Step left right x y) :
    Below y q := by
  cases h with
  | toRight hsaid =>
    refine ⟨hsaid.trans ?_, hx.toLeft⟩
    rw [hq.toRight]
    exact left.takesNothingBack hx.toLeft
  | toLeft hsaid =>
    refine ⟨hx.toRight, hsaid.trans ?_⟩
    rw [hq.toLeft]
    exact right.takesNothingBack hx.toRight

theorem Quiet.below (hq : Quiet left right q) (h : Reachable left right x) : Below x q := by
  induction h with
  | refl => exact ⟨List.nil_prefix, List.nil_prefix⟩
  | tail _ hstep ih => exact hq.below_step ih hstep

/-- What has been delivered can be completed if nothing short of `q` is quiet. -/
theorem goesOn_of_below (hq : Quiet left right q)
    (hnone : ∀ x, Below x q → Quiet left right x → x = q) (hsound : Sound left right x)
    (hbelow : Below x q) : ReflTransGen (Step left right) x q := by
  induction hn : q.size - x.size using Nat.strongRecOn generalizing x with
  | _ n ih =>
    by_cases hstuck : ∀ y, ¬ Step left right x y
    · rw [hnone x hbelow (hsound.quiet_of_stuck hstuck)]
    · obtain ⟨y, hstep⟩ := not_forall_not.mp hstuck
      have hbelow' := hq.below_step hbelow hstep
      have hsize := hstep.size
      have hle := hbelow'.size
      exact .head hstep (ih _ (by omega) (hsound.step hstep) hbelow' rfl)

/-- **Messages that account for each other are where every conversation ends**, if after fewer of
the left party's messages there is always one more. -/
theorem comesTo (hq : Quiet left right q)
    (hmore : ∀ heard, heard <+: q.toRight → heard ≠ q.toRight →
      heard.length < (left.tells (right.tells heard)).length) : ComesTo left right q := by
  have hnone : ∀ x, Below x q → Quiet left right x → x = q := by
    intro x hbelow hquiet
    have hright : x.toRight = q.toRight := by
      by_contra hne
      have hlt := hmore x.toRight hbelow.toRight hne
      rw [← hquiet.toLeft, ← hquiet.toRight] at hlt
      exact Nat.lt_irrefl _ hlt
    exact State.ext hright (by rw [hquiet.toLeft, hright, ← hq.toLeft])
  refine ⟨fun x hx => hq.below hx, fun x hx =>
    goesOn_of_below hq hnone (sound_of_reachable hx) (hq.below hx), fun x hx hstuck => ?_⟩
  exact hnone x (hq.below hx) ((sound_of_reachable hx).quiet_of_stuck hstuck)

/-- **A party that goes on to the next message of its agenda with each message that has been
answered** comes to the end of it. -/
theorem comesTo_of_turns {agenda : List α} (hturn : ∀ heard, heard <+: agenda →
    left.tells (right.tells heard) = agenda.take (heard.length + 1)) :
    ComesTo left right ⟨agenda, right.tells agenda⟩ := by
  refine comesTo ⟨?_, rfl⟩ fun heard hbegins hne => ?_
  · exact ((hturn agenda List.prefix_rfl).trans (List.take_of_length_le (Nat.le_succ _))).symm
  · have hlt : heard.length < agenda.length :=
      Nat.lt_of_le_of_ne hbegins.length_le fun heq => hne (hbegins.eq_of_length heq)
    rw [hturn heard hbegins, List.length_take]
    omega

end

end ConformanceHarness.Lib.Duplex

import Mathlib.Data.List.TakeWhile
import ConformanceHarness.Scenario.Vars

/-!
# Taking texts apart

What `split_once`, `find("${")`, `trim_end_matches` and `parse` answer, said with the text put
together again: the parts are those of the first match, and a number is that of its digits.
-/

namespace ConformanceHarness

/-- `"${"`. -/
def opening : List Char := ['$', '\x7b']

/-- Digits, and at least one. -/
def Decimal (cs : List Char) : Prop := cs ≠ [] ∧ ∀ c ∈ cs, c.isDigit = true

namespace Proof

/-! ## The first of a character -/

/-- **`split_once` finds the first.** -/
theorem splitOnce_eq_some {c : Char} {cs before after : List Char} :
    splitOnce c cs = some (before, after) ↔ cs = before ++ c :: after ∧ c ∉ before := by
  induction cs generalizing before with
  | nil =>
    rw [splitOnce]
    constructor
    · intro h
      cases h
    · rintro ⟨h, -⟩
      cases before <;> cases h
  | cons d rest ih =>
    rw [splitOnce]
    by_cases hd : d = c
    · rw [if_pos hd]
      constructor
      · intro h
        obtain ⟨rfl, rfl⟩ := Prod.mk.inj (Option.some.inj h)
        exact ⟨by rw [hd, List.nil_append], List.not_mem_nil⟩
      · rintro ⟨h, hnot⟩
        cases before with
        | nil =>
          obtain ⟨-, rfl⟩ := List.cons.inj h
          rfl
        | cons e before =>
          obtain ⟨rfl, -⟩ := List.cons.inj h
          exact absurd (hd ▸ List.mem_cons_self) hnot
    · rw [if_neg hd, Option.map_eq_some_iff]
      constructor
      · rintro ⟨⟨b, a⟩, hsplit, heq⟩
        obtain ⟨rfl, rfl⟩ := Prod.mk.inj heq
        obtain ⟨rfl, hnot⟩ := ih.mp hsplit
        refine ⟨rfl, fun hmem => ?_⟩
        rcases List.mem_cons.mp hmem with h | h
        · exact hd h.symm
        · exact hnot h
      · rintro ⟨h, hnot⟩
        cases before with
        | nil => exact absurd (List.cons.inj h).1 hd
        | cons e before =>
          obtain ⟨rfl, hrest⟩ := List.cons.inj h
          exact ⟨(before, after),
            ih.mpr ⟨hrest, fun hmem => hnot (List.mem_cons_of_mem d hmem)⟩, rfl⟩

theorem splitOnce_eq_none {c : Char} {cs : List Char} : splitOnce c cs = none ↔ c ∉ cs := by
  constructor
  · intro hnone hmem
    obtain ⟨before, after, rfl, hnot⟩ := List.eq_append_cons_of_mem hmem
    have hsome : splitOnce c (before ++ c :: after) = some (before, after) :=
      splitOnce_eq_some.mpr ⟨rfl, hnot⟩
    rw [hnone] at hsome
    cases hsome
  · intro hnot
    rcases hsplit : splitOnce c cs with _ | ⟨before, after⟩
    · rfl
    · obtain ⟨rfl, -⟩ := splitOnce_eq_some.mp hsplit
      exact absurd (List.mem_append_right before List.mem_cons_self) hnot

/-! ## The first placeholder -/

/-- **`find("${")` finds the first.** -/
theorem splitTemplate_eq_some {cs before after : List Char} :
    splitTemplate cs = some (before, after) ↔
      cs = before ++ opening ++ after ∧ ¬ opening <:+: before := by
  induction cs using splitTemplate.induct generalizing before with
  | case1 =>
    rw [splitTemplate]
    constructor
    · intro h
      cases h
    · rintro ⟨h, -⟩
      cases before <;> cases h
  | case2 rest =>
    rw [splitTemplate]
    constructor
    · intro h
      obtain ⟨rfl, rfl⟩ := Prod.mk.inj (Option.some.inj h)
      exact ⟨rfl, fun hinfix => absurd hinfix.length_le (by decide)⟩
    · rintro ⟨h, hnot⟩
      rcases before with _ | ⟨d, _ | ⟨e, before⟩⟩
      · obtain ⟨-, h⟩ := List.cons.inj h
        obtain ⟨-, rfl⟩ := List.cons.inj h
        rfl
      · obtain ⟨-, h⟩ := List.cons.inj h
        obtain ⟨h, -⟩ := List.cons.inj h
        exact absurd h (by decide)
      · obtain ⟨hd, h⟩ := List.cons.inj h
        obtain ⟨he, -⟩ := List.cons.inj h
        rw [← hd, ← he] at hnot
        exact absurd (List.prefix_append opening before).isInfix hnot
  | case3 d rest hne ih =>
    rw [splitTemplate, Option.map_eq_some_iff]
    · constructor
      · rintro ⟨⟨b, a⟩, hsplit, heq⟩
        obtain ⟨rfl, rfl⟩ := Prod.mk.inj heq
        obtain ⟨rfl, hnot⟩ := ih.mp hsplit
        refine ⟨rfl, fun hinfix => ?_⟩
        rcases List.infix_cons_iff.mp hinfix with hprefix | hinfix
        · -- the match would start at `d`
          obtain ⟨more, hmore⟩ := hprefix
          obtain ⟨rfl, rfl⟩ := List.cons.inj hmore
          exact hne (more ++ opening ++ a) rfl rfl
        · exact hnot hinfix
      · rintro ⟨h, hnot⟩
        cases before with
        | nil =>
          obtain ⟨hd, hrest⟩ := List.cons.inj h
          exact (hne after hd hrest).elim
        | cons e before =>
          obtain ⟨rfl, hrest⟩ := List.cons.inj h
          exact ⟨(before, after), ih.mpr ⟨hrest, fun hinfix =>
            hnot (List.infix_cons hinfix)⟩, rfl⟩
    · exact hne

theorem splitTemplate_eq_none {cs : List Char} :
    splitTemplate cs = none ↔ ¬ opening <:+: cs := by
  constructor
  · intro hnone hinfix
    induction cs using splitTemplate.induct with
    | case1 => exact absurd hinfix.length_le (by decide)
    | case2 rest =>
      rw [splitTemplate] at hnone
      cases hnone
    | case3 d rest hne ih =>
      rw [splitTemplate, Option.map_eq_none_iff] at hnone
      · rcases List.infix_cons_iff.mp hinfix with ⟨more, hmore⟩ | hinfix
        · obtain ⟨hd, hrest⟩ := List.cons.inj hmore
          exact hne more hd.symm hrest.symm
        · exact ih hnone hinfix
      · exact hne
  · intro hnot
    rcases hsplit : splitTemplate cs with _ | ⟨before, after⟩
    · rfl
    · obtain ⟨rfl, -⟩ := splitTemplate_eq_some.mp hsplit
      exact absurd ⟨before, after, rfl⟩ hnot

/-! ## Numbers -/

/-- Reading on makes a number no smaller. -/
theorem le_ofDigitChars (cs : List Char) (acc : Nat) : acc ≤ Nat.ofDigitChars 10 cs acc := by
  induction cs generalizing acc with
  | nil => rw [Nat.ofDigitChars_nil]
  | cons c rest ih =>
    rw [Nat.ofDigitChars_cons]
    have hrest := ih (10 * acc + (c.toNat - '0'.toNat))
    omega

theorem parseDigits_eq_ok {cs : List Char} {acc n : Nat} (hacc : acc < 2 ^ 64) :
    parseDigits acc cs = .ok n ↔
      (∀ c ∈ cs, c.isDigit = true) ∧ Nat.ofDigitChars 10 cs acc = n ∧ n < 2 ^ 64 := by
  induction cs generalizing acc with
  | nil =>
    rw [parseDigits, Nat.ofDigitChars_nil]
    constructor
    · intro h
      obtain rfl := Except.ok.inj h
      exact ⟨fun c hc => absurd hc List.not_mem_nil, rfl, hacc⟩
    · rintro ⟨-, rfl, -⟩
      rfl
  | cons c rest ih =>
    have hstep : acc * 10 + (c.toNat - 48) = 10 * acc + (c.toNat - '0'.toNat) := by
      rw [Nat.mul_comm]
      rfl
    rw [parseDigits, Nat.ofDigitChars_cons, hstep]
    dsimp only
    by_cases hdigit : c.isDigit = true
    · rw [if_pos hdigit]
      by_cases hlt : 10 * acc + (c.toNat - '0'.toNat) < 2 ^ 64
      · rw [if_pos hlt, ih hlt, List.forall_mem_cons, and_iff_right hdigit]
      · rw [if_neg hlt]
        constructor
        · intro h
          cases h
        · rintro ⟨-, rfl, hn⟩
          exact absurd (Nat.lt_of_le_of_lt (le_ofDigitChars rest _) hn) hlt
    · rw [if_neg hdigit]
      constructor
      · intro h
        cases h
      · rintro ⟨hall, -, -⟩
        exact absurd (hall c List.mem_cons_self) hdigit

theorem decimal_not_mem {cs : List Char} (h : Decimal cs) {c : Char} (hc : c.isDigit = false) :
    c ∉ cs := by
  intro hmem
  rw [h.2 c hmem] at hc
  cases hc

/-- **`parse` reads digits, and a sign before them.** -/
theorem parseUnsigned_eq_ok {cs : List Char} {n : Nat} :
    parseUnsigned cs = .ok n ↔ ∃ digits, (cs = digits ∨ cs = '+' :: digits) ∧ Decimal digits ∧
      Nat.ofDigitChars 10 digits 0 = n ∧ n < 2 ^ 64 := by
  have hzero : 0 < 2 ^ 64 := by decide
  have hplus : '+'.isDigit = false := by decide
  fun_cases parseUnsigned cs with
  | case1 =>
    constructor
    · intro h
      cases h
    · rintro ⟨digits, rfl | h, hdec, -⟩
      · exact absurd rfl hdec.1
      · cases h
  | case2 =>
    constructor
    · intro h
      cases h
    · rintro ⟨digits, rfl | h, hdec, -⟩
      · exact absurd List.mem_cons_self (decimal_not_mem hdec hplus)
      · obtain ⟨-, rfl⟩ := List.cons.inj h
        exact absurd rfl hdec.1
  | case3 digits hne =>
    rw [parseDigits_eq_ok hzero]
    constructor
    · rintro ⟨hall, hvalue, hlt⟩
      exact ⟨digits, .inr rfl, ⟨fun h => hne h, hall⟩, hvalue, hlt⟩
    · rintro ⟨other, rfl | h, hdec, hvalue, hlt⟩
      · exact absurd List.mem_cons_self (decimal_not_mem hdec hplus)
      · obtain ⟨-, rfl⟩ := List.cons.inj h
        exact ⟨hdec.2, hvalue, hlt⟩
  | case4 _ hnil _ hsigned =>
    rw [parseDigits_eq_ok hzero]
    constructor
    · rintro ⟨hall, hvalue, hlt⟩
      exact ⟨cs, .inl rfl, ⟨fun h => hnil h, hall⟩, hvalue, hlt⟩
    · rintro ⟨digits, rfl | h, hdec, hvalue, hlt⟩
      · exact ⟨hdec.2, hvalue, hlt⟩
      · exact absurd h (hsigned digits)

/-- A number that fits is read back from its digits. -/
theorem parseUnsigned_toDigits {n : Nat} (h : n < 2 ^ 64) :
    parseUnsigned (Nat.toDigits 10 n) = .ok n := by
  refine parseUnsigned_eq_ok.mpr ⟨Nat.toDigits 10 n, .inl rfl, ⟨Nat.toDigits_ne_nil, ?_⟩,
    Nat.ofDigitChars_ten_toDigits, h⟩
  intro c hc
  exact Nat.isDigit_of_mem_toDigits (by decide) (by decide) hc

/-! ## Brackets at the end -/

/-- **`trim_end_matches` leaves what the brackets at the end are added to.** -/
theorem trimEndBrackets_append {body : List Char} (h : body.getLast? ≠ some ']') (n : Nat) :
    trimEndBrackets (body ++ List.replicate n ']') = body := by
  have hall : ∀ c ∈ List.replicate n ']', decide (c = ']') = true := fun c hc =>
    decide_eq_true (List.eq_of_mem_replicate hc)
  rw [trimEndBrackets, List.reverse_append, List.reverse_replicate,
    List.dropWhile_append_of_pos hall]
  rcases hbody : body.reverse with _ | ⟨c, rest⟩
  · rw [List.reverse_eq_nil_iff.mp hbody]
    rfl
  · rw [List.getLast?_eq_head?_reverse, hbody] at h
    have hc : c ≠ ']' := fun hc => h (congrArg some hc)
    rw [List.dropWhile_cons_of_neg (p := fun a => decide (a = ']')) (mt of_decide_eq_true hc),
      ← hbody, List.reverse_reverse]

/-- What is left when brackets are taken from the end. -/
theorem trimEndBrackets_split (cs : List Char) :
    ∃ n, cs = trimEndBrackets cs ++ List.replicate n ']' := by
  have htaken : ∀ c ∈ cs.reverse.takeWhile (· = ']'), c = ']' := by
    intro c hc
    have htest := List.mem_takeWhile_imp hc
    exact of_decide_eq_true htest
  refine ⟨(cs.reverse.takeWhile (· = ']')).length, ?_⟩
  rw [← List.reverse_inj, List.reverse_append, List.reverse_replicate, trimEndBrackets,
    List.reverse_reverse, ← List.eq_replicate_of_mem htaken, List.takeWhile_append_dropWhile]

end Proof

end ConformanceHarness

import ConformanceHarness.Hex

/-!
# What the strict loop reads

The strict loop reads its text in pairs. A pair is two hex digits, or a plus sign and one digit:
`from_str_radix` takes a sign.
-/

namespace ConformanceHarness

/-- The bytes that the pairs of a text stand for. A pair with a sign counts if `signs`. -/
inductive HexPairs (signs : Prop) : List UInt8 → List UInt8 → Prop where
  | nil : HexPairs signs [] []
  | digits {a b h l : UInt8} {text bytes : List UInt8} (ha : hexDigit a = some h)
      (hb : hexDigit b = some l) (hrest : HexPairs signs text bytes) :
      HexPairs signs (a :: b :: text) ((h * 16 + l) :: bytes)
  | sign {b l : UInt8} {text bytes : List UInt8} (hsigns : signs) (hb : hexDigit b = some l)
      (hrest : HexPairs signs text bytes) : HexPairs signs (43 :: b :: text) (l :: bytes)

variable {signs : Prop} {text bytes : List UInt8} {s : String}

theorem hexDigit_lt_of_eq {b l : UInt8} (h : hexDigit b = some l) : b < 0x80 ∧ b ≠ 43 :=
  hexDigit_lt (Option.isSome_of_eq_some h)

theorem HexPairs.isCharBoundary (h : HexPairs signs text bytes) :
    isCharBoundary text = true := by
  cases h with
  | nil => rfl
  | digits ha hb hrest => simp [ConformanceHarness.isCharBoundary, (hexDigit_lt_of_eq ha).1]
  | sign hsigns hb hrest => rfl

theorem HexPairs.length_even (h : HexPairs signs text bytes) : text.length % 2 = 0 := by
  induction h with
  | nil => rfl
  | digits ha hb hrest ih =>
    rw [List.length_cons, List.length_cons]
    omega
  | sign hsigns hb hrest ih =>
    rw [List.length_cons, List.length_cons]
    omega

namespace Proof

theorem u8FromStrRadix16_eq_some {a b v : UInt8} :
    u8FromStrRadix16 a b = some v ↔ a = 43 ∧ hexDigit b = some v ∨
      ∃ h l, hexDigit a = some h ∧ hexDigit b = some l ∧ v = h * 16 + l := by
  rw [u8FromStrRadix16]
  by_cases hplus : a = 43
  · rw [if_pos hplus]
    constructor
    · exact fun hb => .inl ⟨hplus, hb⟩
    · rintro (⟨-, hb⟩ | ⟨h, l, ha, -, -⟩)
      · exact hb
      · exact absurd hplus (hexDigit_lt_of_eq ha).2
  · rw [if_neg hplus]
    rcases hexDigit a with _ | h <;> rcases hexDigit b with _ | l <;> simp [hplus, eq_comm]

/-- **The loop reads pairs**, and signs too. -/
theorem decodePairs_eq_ok {describe : Nat → String} {i : Nat} :
    decodePairs describe i text = .ok bytes ↔ HexPairs True text bytes := by
  constructor
  · intro h
    fun_induction decodePairs describe i text generalizing bytes with
    | case1 =>
      cases h
      exact .nil
    | case2 => cases h
    | case3 => cases h
    | case4 i a b rest hbound v hv vs hrest ih =>
      cases h
      rcases u8FromStrRadix16_eq_some.mp hv with ⟨rfl, hb⟩ | ⟨h, l, ha, hb, rfl⟩
      · exact .sign trivial hb (ih hrest)
      · exact .digits ha hb (ih hrest)
    | case5 => cases h
    | case6 => cases h
  · intro h
    induction h generalizing i with
    | nil => rfl
    | digits ha hb hrest ih =>
      have hpair := u8FromStrRadix16_eq_some.mpr (.inr ⟨_, _, ha, hb, rfl⟩)
      have hbound := (HexPairs.digits ha hb hrest).isCharBoundary
      rw [decodePairs, if_pos (by rw [hbound, hrest.isCharBoundary]; rfl), hpair]
      dsimp only
      rw [ih]
    | sign hsigns hb hrest ih =>
      have hpair := u8FromStrRadix16_eq_some.mpr (.inl ⟨rfl, hb⟩)
      have hbound := (HexPairs.sign hsigns hb hrest).isCharBoundary
      rw [decodePairs, if_pos (by rw [hbound, hrest.isCharBoundary]; rfl), hpair]
      dsimp only
      rw [ih]

theorem decodeHexWith_eq_ok {describe : Nat → String} :
    decodeHexWith describe s = .ok bytes ↔ HexPairs True (strBytes s) bytes := by
  rw [decodeHexWith]
  by_cases heven : (strBytes s).length % 2 = 0
  · rw [if_pos heven, decodePairs_eq_ok]
  · rw [if_neg heven]
    exact iff_of_false (fun h => by cases h) fun h => heven h.length_even

/-- Without a sign, the pairs are digits. -/
theorem hexPairs_unsigned_iff :
    HexPairs False text bytes ↔ HexPairs True text bytes ∧ 43 ∉ text := by
  constructor
  · intro h
    induction h with
    | nil => exact ⟨.nil, List.not_mem_nil⟩
    | digits ha hb hrest ih =>
      refine ⟨.digits ha hb ih.1, fun hmem => ?_⟩
      rcases List.mem_cons.mp hmem with heq | hmem
      · exact (hexDigit_lt_of_eq ha).2 heq.symm
      · rcases List.mem_cons.mp hmem with heq | hmem
        · exact (hexDigit_lt_of_eq hb).2 heq.symm
        · exact ih.2 hmem
    | sign hsigns hb hrest ih => exact hsigns.elim
  · rintro ⟨h, hplus⟩
    induction h with
    | nil => exact .nil
    | digits ha hb hrest ih =>
      exact .digits ha hb (ih fun hmem => hplus (List.mem_cons_of_mem _
        (List.mem_cons_of_mem _ hmem)))
    | sign hsigns hb hrest ih => exact absurd List.mem_cons_self hplus

/-- **Valid hex is pairs of digits.** -/
theorem validHex_iff : ValidHex s ↔ ∃ bytes, HexPairs False (strBytes s) bytes := by
  constructor
  · intro h
    obtain ⟨bytes, hdecode, -⟩ := h.decode fun _ => invalidDigit
    refine ⟨bytes, hexPairs_unsigned_iff.mpr ⟨decodeHexWith_eq_ok.mp hdecode, fun hmem => ?_⟩⟩
    exact (hexDigit_lt (h.2 43 hmem)).2 rfl
  · rintro ⟨bytes, h⟩
    refine ⟨h.length_even, ?_⟩
    generalize strBytes s = text at h
    induction h with
    | nil => exact fun b hb => absurd hb List.not_mem_nil
    | digits ha hb hrest ih =>
      exact List.forall_mem_cons.mpr ⟨Option.isSome_of_eq_some ha,
        List.forall_mem_cons.mpr ⟨Option.isSome_of_eq_some hb, ih⟩⟩
    | sign hsigns hb hrest ih => exact hsigns.elim

end Proof

end ConformanceHarness

import ConformanceHarness.Base

/-!
# Hex text

The source decodes hex in eight places. Five use one strict loop and three a
lenient one; the two loops are written here once, over the UTF-8 bytes of the
text, because `&s[i..i + 2]` slices *bytes*: it panics when an end is out of
range or falls inside a character. `u8::from_str_radix` reads the two bytes, and
accepts a leading `+`.
-/

namespace ConformanceHarness

/-- The UTF-8 bytes of a `str`. -/
def strBytes (s : String) : List UInt8 := s.toByteArray.data.toList

/-- `is_char_boundary` at the position where `rest` begins. -/
def isCharBoundary : List UInt8 → Bool
  | [] => true
  | b :: _ => b < 0x80 || 0xC0 ≤ b

/-- The value of one ASCII hex digit. -/
def hexDigit (b : UInt8) : Option UInt8 :=
  if 48 ≤ b && b ≤ 57 then some (b - 48)
  else if 97 ≤ b && b ≤ 102 then some (b - 87)
  else if 65 ≤ b && b ≤ 70 then some (b - 55)
  else none

/-- `u8::from_str_radix(_, 16)` on a slice of the two bytes `a` and `b`. -/
def u8FromStrRadix16 (a b : UInt8) : Option UInt8 :=
  if a = 43 then hexDigit b
  else match hexDigit a, hexDigit b with
    | some h, some l => some (h * 16 + l)
    | _, _ => none

/-- The panic of `&s[i..i + 2]`. -/
def slicePanic : Fault := .panic "byte index is out of bounds or not a char boundary"

/-- The strict loop from offset `i` on; `describe` is the text of a bad pair's error. -/
def decodePairs (describe : Nat → String) : Nat → List UInt8 → Except Fault (List UInt8)
  | _, [] => .ok []
  | _, [_] => .error slicePanic
  | i, a :: b :: rest =>
    if isCharBoundary (a :: b :: rest) && isCharBoundary rest then
      match u8FromStrRadix16 a b with
      | none => bail (describe i)
      | some v =>
        match decodePairs describe (i + 2) rest with
        | .ok vs => .ok (v :: vs)
        | .error e => .error e
    else .error slicePanic

/-- The strict decoder: even length, then every pair must parse. -/
def decodeHexWith (describe : Nat → String) (s : String) : Except Fault (List UInt8) :=
  if (strBytes s).length % 2 = 0 then decodePairs describe 0 (strBytes s)
  else bail "odd-length hex string"

/-- The text `ParseIntError` displays for a pair that is not hex. -/
def invalidDigit : String := "invalid digit found in string"

/-- The lenient loop: pairs that do not parse are dropped, and nothing checks the length. -/
def decodePairsLenient : List UInt8 → Except Fault (List UInt8)
  | [] => .ok []
  | [_] => .error slicePanic
  | a :: b :: rest =>
    if isCharBoundary (a :: b :: rest) && isCharBoundary rest then
      match decodePairsLenient rest with
      | .ok vs => .ok ((u8FromStrRadix16 a b).toList ++ vs)
      | .error e => .error e
    else .error slicePanic

/-- `format!("{b:02x}")`. -/
def hexByte (b : UInt8) : List Char :=
  [Nat.digitChar (b.toNat / 16), Nat.digitChar (b.toNat % 16)]

/-- `encode_hex`: two lower-case digits a byte. -/
def encodeHex (bytes : List UInt8) : String := String.ofList (bytes.flatMap hexByte)

/-- Even length, and nothing but hex digits. -/
def ValidHex (s : String) : Prop :=
  (strBytes s).length % 2 = 0 ∧ ∀ b ∈ strBytes s, (hexDigit b).isSome

instance (s : String) : Decidable (ValidHex s) :=
  @instDecidableAnd _ _ (Nat.decEq _ _) (List.decidableBAll _ _)

/-! ## Encoding, then decoding -/

theorem strBytes_append (s t : String) : strBytes (s ++ t) = strBytes s ++ strBytes t := by
  simp [strBytes, String.toByteArray_append]

/-- A string is determined by its bytes. -/
theorem strBytes_inj {s t : String} (h : strBytes s = strBytes t) : s = t := by
  exact String.toByteArray_inj.mp (ByteArray.ext (Array.toList_inj.mp h))

theorem strBytes_ofList (cs : List Char) :
    strBytes (String.ofList cs) = cs.flatMap String.utf8EncodeChar := by
  simp [strBytes, List.utf8Encode]

/-- Sixteen digits, each of one byte that reads back as its value. -/
theorem utf8EncodeChar_digitChar {n : Nat} (h : n < 16) :
    ∃ d : UInt8, String.utf8EncodeChar (Nat.digitChar n) = [d] ∧ d < 0x80 ∧ d ≠ 43 ∧
      hexDigit d = some (UInt8.ofNat n) := by
  have all : ∀ n < 16, ∃ d ∈ ((List.range 128).map UInt8.ofNat),
      String.utf8EncodeChar (Nat.digitChar n) = [d] ∧ d < 0x80 ∧ d ≠ 43 ∧
        hexDigit d = some (UInt8.ofNat n) := by decide
  obtain ⟨d, -, hd⟩ := all n h
  exact ⟨d, hd⟩

/-- A byte's two digits: neither is a continuation byte, and the pair parses back. -/
theorem hexByte_bytes (b : UInt8) :
    ∃ h l : UInt8, (hexByte b).flatMap String.utf8EncodeChar = [h, l] ∧ h < 0x80 ∧ l < 0x80 ∧
      (hexDigit h).isSome ∧ (hexDigit l).isSome ∧ u8FromStrRadix16 h l = some b := by
  have hb := b.toNat_lt
  obtain ⟨h, h1, h2, h3, h4⟩ := utf8EncodeChar_digitChar (n := b.toNat / 16) (by omega)
  obtain ⟨l, l1, l2, l3, l4⟩ := utf8EncodeChar_digitChar (n := b.toNat % 16) (by omega)
  refine ⟨h, l, by simp [hexByte, h1, l1], h2, l2, by simp [h4], by simp [l4], ?_⟩
  have hval : UInt8.ofNat (b.toNat / 16) * 16 + UInt8.ofNat (b.toNat % 16) = b := by
    apply UInt8.toNat_inj.mp
    simp only [UInt8.toNat_add, UInt8.toNat_mul, UInt8.toNat_ofNat', UInt8.reduceToNat]
    omega
  simp [u8FromStrRadix16, h3, h4, l4, hval]

theorem strBytes_encodeHex_cons (b : UInt8) (bs : List UInt8) :
    strBytes (encodeHex (b :: bs)) =
      (hexByte b).flatMap String.utf8EncodeChar ++ strBytes (encodeHex bs) := by
  simp only [encodeHex, strBytes_ofList, List.flatMap_cons, List.flatMap_append]

@[simp] theorem strBytes_encodeHex_nil : strBytes (encodeHex []) = [] := by
  simp only [encodeHex, strBytes_ofList, List.flatMap_nil]

/-- Encoded text starts on a character boundary. -/
theorem isCharBoundary_encodeHex (bs : List UInt8) :
    isCharBoundary (strBytes (encodeHex bs)) = true := by
  cases bs with
  | nil => simp [isCharBoundary]
  | cons b bs =>
    obtain ⟨h, l, heq, hh, _⟩ := hexByte_bytes b
    rw [strBytes_encodeHex_cons, heq]
    simp [isCharBoundary, hh]

/-- `encode_hex` writes valid hex. -/
theorem validHex_encodeHex (bs : List UInt8) : ValidHex (encodeHex bs) := by
  induction bs with
  | nil => simp [ValidHex]
  | cons b bs ih =>
    obtain ⟨h, l, heq, _, _, dh, dl, _⟩ := hexByte_bytes b
    obtain ⟨hlen, hall⟩ := ih
    rw [ValidHex, strBytes_encodeHex_cons, heq]
    refine ⟨by simp only [List.cons_append, List.nil_append, List.length_cons]; omega, ?_⟩
    intro c hc
    simp only [List.cons_append, List.nil_append, List.mem_cons] at hc
    rcases hc with rfl | rfl | hc
    · exact dh
    · exact dl
    · exact hall c hc

/-- **Reading back what `encode_hex` wrote**, with the lenient loop. -/
@[simp] theorem decodePairsLenient_encodeHex (bs : List UInt8) :
    decodePairsLenient (strBytes (encodeHex bs)) = .ok bs := by
  induction bs with
  | nil => simp [decodePairsLenient]
  | cons b bs ih =>
    obtain ⟨h, l, heq, hh, _, _, _, hval⟩ := hexByte_bytes b
    have hb : isCharBoundary (h :: l :: strBytes (encodeHex bs)) = true := by
      simp [isCharBoundary, hh]
    rw [strBytes_encodeHex_cons, heq]
    simp [decodePairsLenient, ih, hval, hb, isCharBoundary_encodeHex]

/-! ## On valid hex every decoder agrees -/

/-- What the strict loop reads, the lenient loop reads too. -/
theorem decodePairsLenient_of_decodePairs {describe : Nat → String} {i : Nat} {bs vs : List UInt8}
    (h : decodePairs describe i bs = .ok vs) : decodePairsLenient bs = .ok vs := by
  fun_induction decodePairs describe i bs generalizing vs with
  | case1 => exact h
  | case2 => exact nomatch h
  | case3 => exact nomatch h
  | case4 i a b rest hb v hv ws hrest ih =>
    obtain rfl := Except.ok.inj h
    rw [decodePairsLenient, if_pos hb, ih hrest, hv]
    rfl
  | case5 => exact nomatch h
  | case6 => exact nomatch h

theorem decodePairsLenient_of_decodeHexWith {describe : Nat → String} {s : String}
    {bytes : List UInt8} (h : decodeHexWith describe s = .ok bytes) :
    decodePairsLenient (strBytes s) = .ok bytes := by
  rw [decodeHexWith] at h
  by_cases heven : (strBytes s).length % 2 = 0
  · rw [if_pos heven] at h
    exact decodePairsLenient_of_decodePairs h
  · rw [if_neg heven] at h
    exact nomatch h

theorem hexDigit_lt {b : UInt8} (h : (hexDigit b).isSome) : b < 0x80 ∧ b ≠ 43 := by
  simp only [hexDigit] at h
  split at h
  · grind
  · split at h
    · grind
    · split at h
      · grind
      · simp at h

theorem isCharBoundary_of_hex {bs : List UInt8} (h : ∀ b ∈ bs, (hexDigit b).isSome) :
    isCharBoundary bs = true := by
  cases bs with
  | nil => rfl
  | cons b bs =>
    have := (hexDigit_lt (h b List.mem_cons_self)).1
    simp [isCharBoundary, this]

theorem u8FromStrRadix16_of_hex {a b : UInt8} (ha : (hexDigit a).isSome)
    (hb : (hexDigit b).isSome) : (u8FromStrRadix16 a b).isSome := by
  obtain ⟨x, hx⟩ := Option.isSome_iff_exists.mp ha
  obtain ⟨y, hy⟩ := Option.isSome_iff_exists.mp hb
  simp [u8FromStrRadix16, (hexDigit_lt ha).2, hx, hy]

/-- Pairs of hex digits decode, to the same bytes in both loops. -/
theorem decodePairs_of_hex (describe : Nat → String) :
    ∀ (i : Nat) (bs : List UInt8), bs.length % 2 = 0 → (∀ b ∈ bs, (hexDigit b).isSome) →
      ∃ vs, decodePairs describe i bs = .ok vs ∧ decodePairsLenient bs = .ok vs
  | _, [], _, _ => ⟨[], rfl, rfl⟩
  | _, [_], hlen, _ => by simp at hlen
  | i, a :: b :: rest, hlen, hall => by
    have hrest : ∀ c ∈ rest, (hexDigit c).isSome := fun c hc => hall c (by simp [hc])
    obtain ⟨vs, h1, h2⟩ := decodePairs_of_hex describe (i + 2) rest
      (by simp only [List.length_cons] at hlen; omega) hrest
    obtain ⟨v, hv⟩ := Option.isSome_iff_exists.mp
      (u8FromStrRadix16_of_hex (hall a (by simp)) (hall b (by simp)))
    have hb1 := isCharBoundary_of_hex hall
    have hb2 := isCharBoundary_of_hex hrest
    exact ⟨v :: vs, by simp [decodePairs, hb1, hb2, hv, h1],
      by simp [decodePairsLenient, hb1, hb2, hv, h2]⟩

/-- **Valid hex decodes**, strictly and leniently, to one and the same byte string. -/
theorem ValidHex.decode {s : String} (h : ValidHex s) (describe : Nat → String) :
    ∃ vs, decodeHexWith describe s = .ok vs ∧ decodePairsLenient (strBytes s) = .ok vs := by
  obtain ⟨vs, h1, h2⟩ := decodePairs_of_hex describe 0 _ h.1 h.2
  exact ⟨vs, by rw [decodeHexWith, if_pos h.1, h1], h2⟩

/-- The strict decoder reads back what `encode_hex` wrote. -/
@[simp] theorem decodeHexWith_encodeHex (describe : Nat → String) (bs : List UInt8) :
    decodeHexWith describe (encodeHex bs) = .ok bs := by
  obtain ⟨vs, h1, h2⟩ := (validHex_encodeHex bs).decode describe
  rw [decodePairsLenient_encodeHex] at h2
  rw [h1, h2]

/-! ## Lower-case hex -/

/-- A lower-case hex digit. -/
def isLowerDigit (b : UInt8) : Bool := (48 ≤ b && b ≤ 57) || (97 ≤ b && b ≤ 102)

/-- Even length, and nothing but lower-case hex digits: what `encode_hex` writes. -/
def LowerHex (s : String) : Prop :=
  (strBytes s).length % 2 = 0 ∧ ∀ b ∈ strBytes s, isLowerDigit b = true

instance (s : String) : Decidable (LowerHex s) :=
  @instDecidableAnd _ _ (Nat.decEq _ _) (List.decidableBAll _ _)

/-- A lower-case digit is the one its value is written as. -/
theorem digitChar_of_lowerDigit {b : UInt8} (h : isLowerDigit b = true) :
    ∃ n < 16, hexDigit b = some (UInt8.ofNat n) ∧
      String.utf8EncodeChar (Nat.digitChar n) = [b] := by
  have all : ∀ m < 128, isLowerDigit (UInt8.ofNat m) = true → ∃ n < 16,
      hexDigit (UInt8.ofNat m) = some (UInt8.ofNat n) ∧
        String.utf8EncodeChar (Nat.digitChar n) = [UInt8.ofNat m] := by decide
  have hlt : b.toNat < 128 := by
    simp only [isLowerDigit, Bool.or_eq_true, Bool.and_eq_true, decide_eq_true_eq,
      UInt8.le_iff_toNat_le] at h
    simp only [UInt8.reduceToNat] at h
    omega
  have hb := all b.toNat hlt
  rw [UInt8.ofNat_toNat] at hb
  exact hb h

theorem LowerHex.valid {s : String} (h : LowerHex s) : ValidHex s := by
  refine ⟨h.1, fun b hb => ?_⟩
  obtain ⟨n, -, hn, -⟩ := digitChar_of_lowerDigit (h.2 b hb)
  rw [hn]
  rfl

/-- Two lower-case digits are written again as they were. -/
theorem hexByte_of_lowerDigits {a b v : UInt8} (ha : isLowerDigit a = true)
    (hb : isLowerDigit b = true) (hv : u8FromStrRadix16 a b = some v) :
    (hexByte v).flatMap String.utf8EncodeChar = [a, b] := by
  obtain ⟨m, hm, hma, hmc⟩ := digitChar_of_lowerDigit ha
  obtain ⟨n, hn, hnb, hnc⟩ := digitChar_of_lowerDigit hb
  have hplus : a ≠ 43 := by
    rintro rfl
    exact absurd ha (by decide)
  rw [u8FromStrRadix16, if_neg hplus, hma, hnb] at hv
  have hval : v.toNat = m * 16 + n := by
    rw [← Option.some.inj hv]
    simp only [UInt8.toNat_add, UInt8.toNat_mul, UInt8.toNat_ofNat', UInt8.reduceToNat]
    omega
  have hhigh : v.toNat / 16 = m := by omega
  have hlow : v.toNat % 16 = n := by omega
  simp [hexByte, hhigh, hlow, hmc, hnc]

/-- **Writing back what was read** from lower-case hex. -/
theorem LowerHex.encode {s : String} (h : LowerHex s) {bytes : List UInt8}
    (hread : decodePairsLenient (strBytes s) = .ok bytes) : encodeHex bytes = s := by
  apply strBytes_inj
  obtain ⟨-, hall⟩ := h
  generalize strBytes s = text at hread hall
  fun_induction decodePairsLenient text generalizing bytes with
  | case1 =>
    cases hread
    exact strBytes_encodeHex_nil
  | case2 => exact nomatch hread
  | case3 a b rest hbound vs hrest ih =>
    have hrestAll : ∀ c ∈ rest, isLowerDigit c = true := fun c hc =>
      hall c (List.mem_cons_of_mem _ (List.mem_cons_of_mem _ hc))
    have ha : isLowerDigit a = true := hall a List.mem_cons_self
    have hb : isLowerDigit b = true := hall b (List.mem_cons_of_mem _ List.mem_cons_self)
    obtain ⟨m, -, hma, -⟩ := digitChar_of_lowerDigit ha
    obtain ⟨n, -, hnb, -⟩ := digitChar_of_lowerDigit hb
    obtain ⟨v, hv⟩ := Option.isSome_iff_exists.mp
      (u8FromStrRadix16_of_hex (Option.isSome_of_eq_some hma) (Option.isSome_of_eq_some hnb))
    rw [hv] at hread
    cases hread
    show strBytes (encodeHex (v :: vs)) = a :: b :: rest
    rw [strBytes_encodeHex_cons, hexByte_of_lowerDigits ha hb hv, ih hrest hrestAll]
    rfl
  | case4 => exact nomatch hread
  | case5 => exact nomatch hread

end ConformanceHarness

import Mathlib.Data.List.Forall2
import ConformanceHarness.Miniprotocols.ChainSyncServer
import ConformanceHarness.Miniprotocols.LeiosNotifyServer
import ConformanceHarness.Proof.HexPairs
import ConformanceHarness.Scenario.BlockFixture
import ConformanceHarness.Scenario.PeerState
import ConformanceHarness.Scenario.ResponseRules

/-!
# The hex decoders on arbitrary text

What hex text is, by its characters, and how far the decoders of the source follow it. Four
are strict and four lenient. None of them looks at characters: they slice bytes, and
`from_str_radix` reads a pair with its own syntax.
-/

namespace ConformanceHarness

/-- The value of a character `0-9`, `a-f`, `A-F`. -/
def hexValue (c : Char) : Option UInt8 :=
  if '0' ≤ c ∧ c ≤ '9' then some (UInt8.ofNat (c.toNat - '0'.toNat))
  else if 'a' ≤ c ∧ c ≤ 'f' then some (UInt8.ofNat (10 + (c.toNat - 'a'.toNat)))
  else if 'A' ≤ c ∧ c ≤ 'F' then some (UInt8.ofNat (10 + (c.toNat - 'A'.toNat)))
  else none

/-- The bytes that hex text stands for, two characters a byte; none if the text is not hex. -/
def hexText : List Char → Option (List UInt8)
  | [] => some []
  | [_] => none
  | c :: d :: rest =>
    match hexValue c, hexValue d, hexText rest with
    | some h, some l, some bytes => some ((h * 16 + l) :: bytes)
    | _, _, _ => none

/-- The strict loop stops with an error: after pairs that it reads, it meets two bytes that it
does not, at a place where it can slice. -/
def StopsAtBadPair (text : List UInt8) : Prop :=
  ∃ before bytes a b rest, text = before ++ a :: b :: rest ∧ HexPairs True before bytes ∧
    isCharBoundary (a :: b :: rest) = true ∧ isCharBoundary rest = true ∧
      u8FromStrRadix16 a b = none

/-- The lenient loop drops everything: it can slice everywhere, and reads no pair. -/
inductive NoReadablePair : List UInt8 → Prop where
  | nil : NoReadablePair []
  | cons {a b : UInt8} {rest : List UInt8} (hstart : isCharBoundary (a :: b :: rest) = true)
      (hend : isCharBoundary rest = true) (hbad : u8FromStrRadix16 a b = none)
      (hrest : NoReadablePair rest) : NoReadablePair (a :: b :: rest)

/-- `decode` accepts `s` as hex, with its bytes, or returns an error. -/
structure DecodesExactly (decode : String → Except Fault (List UInt8)) (s : String) : Prop where
  accepts : ∀ bytes, decode s = .ok bytes ↔ hexText s.toList = some bytes
  rejects : hexText s.toList = none → ∃ chain, decode s = .error (.err chain)

/-- `decode` returns the bytes of hex text, and nothing for other text. -/
def DecodesLeniently (decode : String → Except Fault (List UInt8)) (s : String) : Prop :=
  decode s = .ok ((hexText s.toList).getD [])

namespace Proof

variable {text bytes : List UInt8} {cs : List Char} {s : String}

/-! ## Characters and bytes -/

/-- A byte that is a digit is a character that is one. -/
theorem hexValue_of_hexDigit {b v : UInt8} (h : hexDigit b = some v) :
    ∃ c, String.utf8EncodeChar c = [b] ∧ hexValue c = some v := by
  have all : ∀ m < 128, ∀ v ∈ hexDigit (UInt8.ofNat m),
      String.utf8EncodeChar (Char.ofNat m) = [UInt8.ofNat m] ∧
        hexValue (Char.ofNat m) = some v := by decide +kernel
  have hlt : b.toNat < 128 := by simpa using UInt8.lt_iff_toNat_lt.mp (hexDigit_lt_of_eq h).1
  have hb := all b.toNat hlt v
  rw [UInt8.ofNat_toNat] at hb
  exact ⟨_, hb h⟩

/-- And the other way round. -/
theorem hexDigit_of_hexValue {c : Char} {v : UInt8} (h : hexValue c = some v) :
    ∃ b, String.utf8EncodeChar c = [b] ∧ hexDigit b = some v := by
  have all : ∀ m < 128, ∀ v ∈ hexValue (Char.ofNat m),
      String.utf8EncodeChar (Char.ofNat m) = [UInt8.ofNat m] ∧
        hexDigit (UInt8.ofNat m) = some v := by decide +kernel
  have hlt : c.toNat < 128 := by
    rw [hexValue] at h
    simp only [Char.le_def, UInt32.le_iff_toNat_le, ← Char.toNat_val] at h ⊢
    split at h
    · rename_i hrange
      simp only [Char.reduceVal, UInt32.reduceToNat] at hrange
      omega
    · split at h
      · rename_i hrange
        simp only [Char.reduceVal, UInt32.reduceToNat] at hrange
        omega
      · split at h
        · rename_i hrange
          simp only [Char.reduceVal, UInt32.reduceToNat] at hrange
          omega
        · cases h
  have hc := all c.toNat hlt v
  rw [Char.ofNat_toNat] at hc
  exact ⟨_, hc h⟩

/-- Hex text is text of even length that consists of hex digits. -/
theorem hexText_isSome_iff :
    (hexText cs).isSome ↔ cs.length % 2 = 0 ∧ ∀ c ∈ cs, (hexValue c).isSome := by
  fun_induction hexText cs with
  | case1 => simp
  | case2 => simp
  | case3 c d rest h l bytes hrest hd hc ih =>
    rw [hrest] at ih
    simp only [Option.isSome_some, true_iff] at ih
    refine iff_of_true rfl ⟨by simp only [List.length_cons]; omega, ?_⟩
    exact List.forall_mem_cons.mpr ⟨by rw [hc]; rfl, List.forall_mem_cons.mpr
      ⟨by rw [hd]; rfl, ih.2⟩⟩
  | case4 c d rest hnone ih =>
    simp only [Option.isSome_none, Bool.false_eq_true, false_iff, not_and]
    intro hlen hall
    obtain ⟨h, hc⟩ := Option.isSome_iff_exists.mp (hall c (by simp))
    obtain ⟨l, hd⟩ := Option.isSome_iff_exists.mp (hall d (by simp))
    have hrest : (hexText rest).isSome := ih.mpr ⟨by simp at hlen; omega,
      fun e he => hall e (by simp [he])⟩
    obtain ⟨bytes, hbytes⟩ := Option.isSome_iff_exists.mp hrest
    exact hnone h l bytes hc hd hbytes

theorem hexPairs_of_hexText (htext : hexText cs = some bytes) :
    HexPairs False (cs.flatMap String.utf8EncodeChar) bytes := by
  fun_induction hexText cs generalizing bytes with
  | case1 =>
    cases htext
    exact .nil
  | case2 => cases htext
  | case3 c d rest h l bytes' hrest hd hc ih =>
    cases htext
    obtain ⟨a, hca, ha⟩ := hexDigit_of_hexValue hc
    obtain ⟨b, hdb, hb⟩ := hexDigit_of_hexValue hd
    simp only [List.flatMap_cons, hca, hdb, List.cons_append, List.nil_append]
    exact .digits ha hb (ih hrest)
  | case4 => cases htext

theorem hexText_of_hexPairs (h : HexPairs False text bytes) :
    ∃ cs : List Char, cs.flatMap String.utf8EncodeChar = text ∧ hexText cs = some bytes := by
  induction h with
  | nil => exact ⟨[], rfl, rfl⟩
  | digits ha hb hrest ih =>
    obtain ⟨cs, rfl, hbytes⟩ := ih
    obtain ⟨c, hca, hc⟩ := hexValue_of_hexDigit ha
    obtain ⟨d, hdb, hd⟩ := hexValue_of_hexDigit hb
    refine ⟨c :: d :: cs, by simp [hca, hdb], ?_⟩
    rw [hexText, hc, hd, hbytes]
  | sign hsigns hb hrest ih => exact hsigns.elim

/-- **Hex text is the text whose bytes are pairs of digits.** -/
theorem hexText_eq_some_iff :
    hexText s.toList = some bytes ↔ HexPairs False (strBytes s) bytes := by
  constructor
  · intro h
    have hpairs := hexPairs_of_hexText h
    rwa [← strBytes_ofList, String.ofList_toList] at hpairs
  · intro h
    obtain ⟨cs, hcs, hbytes⟩ := hexText_of_hexPairs h
    have hs : s = String.ofList cs := strBytes_inj (by rw [strBytes_ofList, hcs])
    rw [hs, String.toList_ofList, hbytes]

theorem validHex_iff_hexText : ValidHex s ↔ (hexText s.toList).isSome := by
  rw [validHex_iff, Option.isSome_iff_exists]
  simp only [hexText_eq_some_iff]

/-! ## The strict decoders -/

/-- A pair that is read starts on a character boundary. -/
theorem isCharBoundary_of_read {a b v : UInt8} {rest : List UInt8}
    (h : u8FromStrRadix16 a b = some v) : isCharBoundary (a :: rest) = true := by
  rcases u8FromStrRadix16_eq_some.mp h with ⟨rfl, -⟩ | ⟨hi, lo, ha, -, -⟩
  · rfl
  · simp [isCharBoundary, (hexDigit_lt_of_eq ha).1]

theorem HexPairs.isCharBoundary_append {signs : Prop} {tail : List UInt8}
    (h : HexPairs signs text bytes) (htail : isCharBoundary tail = true) :
    isCharBoundary (text ++ tail) = true := by
  cases h with
  | nil => exact htail
  | digits ha hb hrest => exact isCharBoundary_of_read (u8FromStrRadix16_eq_some.mpr
      (.inr ⟨_, _, ha, hb, rfl⟩))
  | sign hsigns hb hrest => rfl

/-- A pair that is read, and the loop goes on after it. -/
theorem decodePairs_cons {describe : Nat → String} {i : Nat} {a b v : UInt8} {rest : List UInt8}
    (hpair : u8FromStrRadix16 a b = some v) (hrest : isCharBoundary rest = true) :
    decodePairs describe i (a :: b :: rest) = (decodePairs describe (i + 2) rest).map (v :: ·) := by
  rw [decodePairs, if_pos (by rw [isCharBoundary_of_read hpair, hrest]; rfl), hpair]
  dsimp only
  rcases decodePairs describe (i + 2) rest with f | vs <;> rfl

/-- **Where the strict loop returns an error.** -/
theorem decodePairs_eq_err {describe : Nat → String} {i : Nat} :
    (∃ chain, decodePairs describe i text = .error (.err chain)) ↔ StopsAtBadPair text := by
  constructor
  · rintro ⟨chain, herr⟩
    fun_induction decodePairs describe i text with
    | case1 => cases herr
    | case2 => cases herr
    | case3 i a b rest hbound hbad =>
      rw [Bool.and_eq_true] at hbound
      exact ⟨[], [], a, b, rest, rfl, .nil, hbound.1, hbound.2, hbad⟩
    | case4 => cases herr
    | case5 i a b rest hbound v hv e hrest ih =>
      cases herr
      obtain ⟨before, bytes, a', b', rest', rfl, hbefore, hstart, hend, hbad⟩ := ih hrest
      rcases u8FromStrRadix16_eq_some.mp hv with ⟨rfl, hb⟩ | ⟨h, l, ha, hb, rfl⟩
      · exact ⟨_, _, a', b', rest', rfl, .sign trivial hb hbefore, hstart, hend, hbad⟩
      · exact ⟨_, _, a', b', rest', rfl, .digits ha hb hbefore, hstart, hend, hbad⟩
    | case6 => cases herr
  · rintro ⟨before, bytes, a, b, rest, rfl, hbefore, hstart, hend, hbad⟩
    induction hbefore generalizing i with
    | nil =>
      rw [List.nil_append, decodePairs, if_pos (by rw [hstart, hend]; rfl), hbad]
      exact ⟨_, rfl⟩
    | digits ha hb hrest ih =>
      obtain ⟨chain, hchain⟩ := @ih (i + 2)
      rw [List.cons_append, List.cons_append, decodePairs_cons (u8FromStrRadix16_eq_some.mpr
        (.inr ⟨_, _, ha, hb, rfl⟩)) (HexPairs.isCharBoundary_append hrest hstart), hchain]
      exact ⟨chain, rfl⟩
    | sign hsigns hb hrest ih =>
      obtain ⟨chain, hchain⟩ := @ih (i + 2)
      rw [List.cons_append, List.cons_append, decodePairs_cons (u8FromStrRadix16_eq_some.mpr
        (.inl ⟨rfl, hb⟩)) (HexPairs.isCharBoundary_append hrest hstart), hchain]
      exact ⟨chain, rfl⟩

theorem decodeHexWith_eq_err {describe : Nat → String} :
    (∃ chain, decodeHexWith describe s = .error (.err chain)) ↔
      (strBytes s).length % 2 = 1 ∨ StopsAtBadPair (strBytes s) := by
  rw [decodeHexWith]
  by_cases heven : (strBytes s).length % 2 = 0
  · rw [if_pos heven, decodePairs_eq_err]
    have hodd : ¬ (strBytes s).length % 2 = 1 := by omega
    simp [hodd]
  · rw [if_neg heven]
    exact iff_of_true ⟨_, rfl⟩ (.inl (by omega))

/-- Text that the strict decoder accepts is not text it returns an error for. -/
theorem not_err_of_pairs {describe : Nat → String} (h : HexPairs True (strBytes s) bytes) :
    ¬ ((strBytes s).length % 2 = 1 ∨ StopsAtBadPair (strBytes s)) := by
  rw [← @decodeHexWith_eq_err s describe]
  rintro ⟨chain, hchain⟩
  rw [decodeHexWith_eq_ok.mpr h] at hchain
  cases hchain

/-- **A strict decoder is exact where its text is hex or it returns an error.** -/
theorem decodesExactly_iff (describe : Nat → String) (s : String) :
    DecodesExactly (decodeHexWith describe) s ↔
      ValidHex s ∨ (strBytes s).length % 2 = 1 ∨ StopsAtBadPair (strBytes s) := by
  constructor
  · intro h
    rcases htext : hexText s.toList with _ | bytes
    · exact .inr (decodeHexWith_eq_err.mp (h.rejects htext))
    · exact .inl (validHex_iff_hexText.mpr (by rw [htext]; rfl))
  · rintro (hvalid | herr)
    · obtain ⟨bytes, hbytes⟩ := Option.isSome_iff_exists.mp (validHex_iff_hexText.mp hvalid)
      have hpairs := (hexPairs_unsigned_iff.mp (hexText_eq_some_iff.mp hbytes)).1
      have hread := (@decodeHexWith_eq_ok _ _ describe).mpr hpairs
      refine ⟨fun bytes' => ?_, fun hnone => by rw [hnone] at hbytes; cases hbytes⟩
      rw [hread, hbytes, Except.ok.injEq, Option.some.injEq]
    · obtain ⟨chain, hchain⟩ := (@decodeHexWith_eq_err s describe).mpr herr
      refine ⟨fun bytes => iff_of_false (fun h => ?_) (fun h => ?_), fun _ => ⟨chain, hchain⟩⟩
      · rw [hchain] at h
        cases h
      · exact @not_err_of_pairs _ _ describe
          (hexPairs_unsigned_iff.mp (hexText_eq_some_iff.mp h)).1 herr

/-- **The four strict decoders accept exactly hex, on which texts.** They differ in the words of
their errors only. -/
theorem strictDecoders_exact_iff (s : String) :
    (DecodesExactly Scenario.decodeHex s ∧ DecodesExactly PeerState.decodeHex s ∧
        DecodesExactly ResponseRules.decodeHex s ∧ DecodesExactly LeiosNotify.decodeHex s) ↔
      ValidHex s ∨ (strBytes s).length % 2 = 1 ∨ StopsAtBadPair (strBytes s) := by
  simp only [Scenario.decodeHex, PeerState.decodeHex, ResponseRules.decodeHex,
    LeiosNotify.decodeHex, decodesExactly_iff, and_self]

/-- A sign is read as a digit, and a character that a slice cuts is a panic. -/
theorem strictDecoders_accept_sign :
    ¬ (∀ s, DecodesExactly Scenario.decodeHex s ∧ DecodesExactly PeerState.decodeHex s ∧
        DecodesExactly ResponseRules.decodeHex s ∧ DecodesExactly LeiosNotify.decodeHex s) ∧
      Scenario.decodeHex "+5" = .ok [5] ∧ Scenario.decodeHex "a€" = .error slicePanic := by
  have hsign : Scenario.decodeHex "+5" = .ok [5] := by decide
  refine ⟨fun hall => ?_, hsign, by decide⟩
  have htext := ((hall "+5").1.accepts [5]).mp hsign
  exact absurd htext (by decide)

/-! ## The lenient decoders -/

/-- **When the lenient loop returns nothing.** -/
theorem decodePairsLenient_eq_nil : decodePairsLenient text = .ok [] ↔ NoReadablePair text := by
  constructor
  · intro h
    fun_induction decodePairsLenient text with
    | case1 => exact .nil
    | case2 => cases h
    | case3 a b rest hbound vs hrest ih =>
      rw [Bool.and_eq_true] at hbound
      obtain ⟨hpair, rfl⟩ := List.append_eq_nil_iff.mp (Except.ok.inj h)
      have hbad : u8FromStrRadix16 a b = none := by
        rcases hv : u8FromStrRadix16 a b with _ | v
        · rfl
        · rw [hv] at hpair
          cases hpair
      exact .cons hbound.1 hbound.2 hbad (ih hrest)
    | case4 => cases h
    | case5 => cases h
  · intro h
    induction h with
    | nil => rfl
    | cons hstart hend hbad hrest ih =>
      rw [decodePairsLenient, if_pos (by rw [hstart, hend]; rfl), ih, hbad]
      rfl

theorem decodePairsLenient_of_pairs (h : HexPairs True text bytes) :
    decodePairsLenient text = .ok bytes :=
  decodePairsLenient_of_decodePairs
    ((@decodePairs_eq_ok text bytes (fun _ => invalidDigit) 0).mpr h)

/-- The loop of the three decoders that drop what they cannot read. -/
theorem decodesLeniently_iff (s : String) :
    DecodesLeniently (fun s => decodePairsLenient (strBytes s)) s ↔
      ValidHex s ∨ NoReadablePair (strBytes s) := by
  rw [DecodesLeniently]
  rcases htext : hexText s.toList with _ | bytes
  · have hinvalid : ¬ ValidHex s := by
      rw [validHex_iff_hexText, htext]
      decide
    rw [Option.getD_none, decodePairsLenient_eq_nil]
    simp [hinvalid]
  · have hvalid : ValidHex s := by
      rw [validHex_iff_hexText, htext]
      rfl
    have hpairs := (hexPairs_unsigned_iff.mp (hexText_eq_some_iff.mp htext)).1
    exact iff_of_true (decodePairsLenient_of_pairs hpairs) (.inl hvalid)

/-- Where nothing can be read, the strict loop stops at once. -/
theorem NoReadablePair.stops (h : NoReadablePair text) : text = [] ∨ StopsAtBadPair text := by
  cases h with
  | nil => exact .inl rfl
  | cons hstart hend hbad hrest => exact .inr ⟨[], [], _, _, _, rfl, .nil, hstart, hend, hbad⟩

theorem fixture_decodeHexUnchecked_ok (h : HexPairs True (strBytes s) bytes) :
    Fixture.decodeHexUnchecked s = .ok bytes := by
  rw [Fixture.decodeHexUnchecked, Fixture.decodeHex, decodeHexWith_eq_ok.mpr h]

/-- The decoder that fails as a whole, where the others find nothing to read. -/
theorem fixture_decodeHexUnchecked_nil (h : NoReadablePair (strBytes s)) :
    Fixture.decodeHexUnchecked s = .ok [] := by
  rcases NoReadablePair.stops h with hempty | hstop
  · exact fixture_decodeHexUnchecked_ok (by rw [hempty]; exact .nil)
  · obtain ⟨chain, hchain⟩ :=
      (@decodeHexWith_eq_err s fun _ => invalidDigit).mpr (.inr hstop)
    rw [Fixture.decodeHexUnchecked, Fixture.decodeHex, hchain]

/-- **The four lenient decoders agree exactly on hex and on text without a readable pair.** -/
theorem lenientDecoders_agree_iff (s : String) :
    (DecodesLeniently Fixture.decodeHexUnchecked s ∧
        DecodesLeniently BlockFixtureEntry.decodeHexUnchecked s ∧
        DecodesLeniently PeerState.decodeHexUnchecked s ∧
        DecodesLeniently ChainSync.decodeHexStr s) ↔
      ValidHex s ∨ NoReadablePair (strBytes s) := by
  have hdrop := decodesLeniently_iff s
  constructor
  · rintro ⟨-, hblock, -, -⟩
    exact hdrop.mp hblock
  · intro h
    have hloop := hdrop.mpr h
    refine ⟨?_, hloop, hloop, hloop⟩
    rw [DecodesLeniently] at hloop ⊢
    rcases h with hvalid | hnone
    · obtain ⟨bytes, hbytes⟩ := Option.isSome_iff_exists.mp (validHex_iff_hexText.mp hvalid)
      rw [hbytes, Option.getD_some]
      exact fixture_decodeHexUnchecked_ok
        (hexPairs_unsigned_iff.mp (hexText_eq_some_iff.mp hbytes)).1
    · rw [fixture_decodeHexUnchecked_nil hnone, ← decodePairsLenient_eq_nil.mpr hnone]
      exact hloop

/-- A bad pair before a good one: nothing for one decoder, the good pair for the others. An odd
text is nothing for that one, and a panic for the others. -/
theorem lenientDecoders_disagree :
    ¬ (∀ s, DecodesLeniently Fixture.decodeHexUnchecked s ∧
        DecodesLeniently BlockFixtureEntry.decodeHexUnchecked s ∧
        DecodesLeniently PeerState.decodeHexUnchecked s ∧
        DecodesLeniently ChainSync.decodeHexStr s) ∧
      Fixture.decodeHexUnchecked "zz11" = .ok [] ∧ ChainSync.decodeHexStr "zz11" = .ok [17] ∧
      Fixture.decodeHexUnchecked "123" = .ok [] ∧
      ChainSync.decodeHexStr "123" = .error slicePanic := by
  have hdrop : ChainSync.decodeHexStr "zz11" = .ok [17] := by decide
  refine ⟨fun hall => ?_, by decide, hdrop, by decide, by decide⟩
  have hnil : ChainSync.decodeHexStr "zz11" = .ok ((hexText "zz11".toList).getD []) :=
    (hall "zz11").2.2.2
  rw [hdrop] at hnil
  exact absurd hnil (by decide)

end Proof

end ConformanceHarness

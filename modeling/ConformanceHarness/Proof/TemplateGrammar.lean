import ConformanceHarness.Proof.TextSplits
import ConformanceHarness.Scenario.Offsets

/-!
# The grammar of templates

A template is literal text and placeholders `${name}`, read from the left: a placeholder begins at
the first `"${"` and ends at the first `'}'` after it. `expand_template` works on byte offsets; it
is shown to do what a reader of characters does, and that is to write the pieces one after
another, each placeholder as the value of its variable.
-/

namespace ConformanceHarness

/-- A part of a template. -/
inductive Piece where
  | literal (text : List Char)
  | placeholder (name : String)

/-- What stands in a text for a number or a text. -/
def Value.rendered : Value → Option (List Char)
  | .number n => some n.text.toList
  | .string s => some s.toList
  | _ => none

namespace Piece

/-- What is written for a part of a template. -/
def text (vars : VarStore) : Piece → Option (List Char)
  | .literal text => some text
  | .placeholder name => (vars name).bind Value.rendered

/-- The name of a placeholder. -/
def name? : Piece → Option String
  | .literal _ => none
  | .placeholder name => some name

end Piece

/-- What is written for a template of these pieces, when all of them can be written. -/
def writtenPieces (vars : VarStore) (pieces : List Piece) : Option (List Char) :=
  (pieces.mapM (Piece.text vars)).map List.flatten

/-- A text, split from the left into literal text and placeholders that are all closed. -/
inductive Splits : List Char → List Piece → Prop where
  | literal {text : List Char} : ¬ opening <:+: text → Splits text [.literal text]
  | placeholder {text name rest : List Char} {pieces : List Piece} :
      ¬ opening <:+: text → '\x7d' ∉ name → Splits rest pieces →
      Splits (text ++ opening ++ (name ++ '\x7d' :: rest))
        (.literal text :: .placeholder (String.ofList name) :: pieces)

namespace Proof

/-! ## Offsets of characters -/

section

open Offsets

variable {before after : List Char}

theorem byteLen_pos (c : Char) (cs : List Char) : 0 < byteLen (c :: cs) := by
  rw [byteLen]
  exact Nat.add_pos_left c.utf8Size_pos _

/-- Slicing where a character begins. -/
theorem sliceTo_byteLen (before after : List Char) :
    sliceTo (byteLen before) (before ++ after) = .ok before := by
  induction before with
  | nil => cases after <;> rfl
  | cons c before ih =>
    obtain ⟨n, hn⟩ := Nat.exists_eq_add_one.mpr (byteLen_pos c before)
    have hle : c.utf8Size ≤ n + 1 := by
      rw [← hn, byteLen]
      exact Nat.le_add_right _ _
    have hrest : n + 1 - c.utf8Size = byteLen before := by
      rw [← hn, byteLen, Nat.add_sub_cancel_left]
    rw [hn, List.cons_append, sliceTo, if_pos hle, hrest, ih]
    rfl

theorem sliceFrom_byteLen (before after : List Char) :
    sliceFrom (byteLen before) (before ++ after) = .ok after := by
  induction before with
  | nil => cases after <;> rfl
  | cons c before ih =>
    obtain ⟨n, hn⟩ := Nat.exists_eq_add_one.mpr (byteLen_pos c before)
    have hle : c.utf8Size ≤ n + 1 := by
      rw [← hn, byteLen]
      exact Nat.le_add_right _ _
    have hrest : n + 1 - c.utf8Size = byteLen before := by
      rw [← hn, byteLen, Nat.add_sub_cancel_left]
    rw [hn, List.cons_append, sliceFrom, if_pos hle, hrest, ih]

/-- The offset after a text of one more character. -/
theorem byteLen_append (before after : List Char) :
    byteLen (before ++ after) = byteLen before + byteLen after := by
  induction before with
  | nil => exact (Nat.zero_add _).symm
  | cons c before ih => rw [List.cons_append, byteLen, ih, byteLen, Nat.add_assoc]

/-- The offset at which a placeholder opens is that of the text before it. -/
theorem find_opening (cs : List Char) :
    find opening cs = (splitTemplate cs).map fun parts => byteLen parts.1 := by
  induction cs using splitTemplate.induct with
  | case1 => rfl
  | case2 rest => rfl
  | case3 d rest hne ih =>
    have hprefix : opening.isPrefixOf (d :: rest) = false := by
      refine Bool.eq_false_iff.mpr fun h => ?_
      obtain ⟨more, hmore⟩ := List.isPrefixOf_iff_prefix.mp h
      obtain ⟨hd, hrest⟩ := List.cons.inj hmore
      exact hne more hd.symm hrest.symm
    rw [find, hprefix, if_neg Bool.false_ne_true, ih, splitTemplate, Option.map_map,
      Option.map_map]
    · rfl
    · exact hne

theorem find_char (c : Char) (cs : List Char) :
    find [c] cs = (splitOnce c cs).map fun parts => byteLen parts.1 := by
  induction cs with
  | nil => rfl
  | cons d rest ih =>
    rw [find, splitOnce, List.isPrefixOf, List.isPrefixOf_nil_left, Bool.and_true]
    by_cases hd : d = c
    · rw [if_pos hd, if_pos (beq_iff_eq.mpr hd.symm)]
      rfl
    · rw [if_neg hd, if_neg fun h => hd (beq_iff_eq.mp h).symm, ih, Option.map_map,
        Option.map_map]
      rfl

/-- The slices around a placeholder's opening. -/
theorem slices_opening {cs : List Char} (h : splitTemplate cs = some (before, after)) :
    sliceTo (byteLen before) cs = .ok before ∧
      sliceFrom (byteLen before + 2) cs = .ok after := by
  obtain ⟨rfl, -⟩ := splitTemplate_eq_some.mp h
  have htwo : byteLen before + 2 = byteLen (before ++ opening) := by
    rw [byteLen_append]
    rfl
  refine ⟨?_, ?_⟩
  · rw [List.append_assoc, sliceTo_byteLen]
  · rw [htwo, sliceFrom_byteLen]

/-- The slices around the brace that closes it. -/
theorem slices_closing {cs : List Char} (h : splitOnce '\x7d' cs = some (before, after)) :
    sliceTo (byteLen before) cs = .ok before ∧
      sliceFrom (byteLen before + 1) cs = .ok after := by
  obtain ⟨rfl, -⟩ := splitOnce_eq_some.mp h
  have hone : byteLen before + 1 = byteLen (before ++ ['\x7d']) := by
    rw [byteLen_append]
    rfl
  have hafter := sliceFrom_byteLen (before ++ ['\x7d']) after
  rw [List.append_assoc, List.singleton_append] at hafter
  refine ⟨sliceTo_byteLen before _, ?_⟩
  rw [hone, hafter]

end

/-! ## The loop, by characters -/

section

variable {template : String} {vars : VarStore} {cs before after name rest : List Char}

/-- No placeholder is left. -/
theorem expandTemplate_last (h : splitTemplate cs = none) :
    expandTemplate template vars cs = .ok (cs, []) := by
  unfold expandTemplate
  split
  · rfl
  · next hopen =>
    rw [h] at hopen
    cases hopen

theorem expandTemplate_unclosed (hopen : splitTemplate cs = some (before, after))
    (hclose : splitOnce '\x7d' after = none) : expandTemplate template vars cs =
      bail ("unclosed '$\x7b' in template string: " ++ String.quote template) := by
  unfold expandTemplate
  split
  · next hnone =>
    rw [hopen] at hnone
    cases hnone
  · next hsome =>
    obtain ⟨rfl, rfl⟩ := Prod.mk.inj (Option.some.inj (hopen.symm.trans hsome))
    split
    · rfl
    · next hsome =>
      rw [hclose] at hsome
      cases hsome

/-- A placeholder is written, and then the rest. -/
theorem expandTemplate_placeholder (hopen : splitTemplate cs = some (before, after))
    (hclose : splitOnce '\x7d' after = some (name, rest)) : expandTemplate template vars cs =
      (Offsets.renderPlaceholder vars name).bind fun rendered =>
        (expandTemplate template vars rest).map fun r =>
          (before ++ rendered.toList ++ r.1, String.ofList name :: r.2) := by
  rw [expandTemplate]
  split
  · next hnone =>
    rw [hopen] at hnone
    cases hnone
  · next hsome =>
    obtain ⟨rfl, rfl⟩ := Prod.mk.inj (Option.some.inj (hopen.symm.trans hsome))
    split
    · next hnone =>
      rw [hclose] at hnone
      cases hnone
    · next hsome =>
      obtain ⟨rfl, rfl⟩ := Prod.mk.inj (Option.some.inj (hclose.symm.trans hsome))
      rw [Offsets.renderPlaceholder]
      dsimp only
      rcases hfound : vars (String.ofList name) with _ | v
      · rfl
      · rcases hrest : expandTemplate template vars rest with _ | ⟨text, names⟩ <;>
          cases v <;> rfl

theorem expandLoop_last (result : List Char) (expanded : List String)
    (h : splitTemplate cs = none) :
    Offsets.expandLoop template vars result expanded cs = .ok (result ++ cs, expanded) := by
  have hfind := find_opening cs
  rw [h, Option.map_none] at hfind
  rw [Offsets.expandLoop]
  split
  · rfl
  · next hsome =>
    rw [opening, hsome] at hfind
    cases hfind

theorem expandLoop_unclosed (result : List Char) (expanded : List String)
    (hopen : splitTemplate cs = some (before, after)) (hclose : splitOnce '\x7d' after = none) :
    Offsets.expandLoop template vars result expanded cs =
      bail ("unclosed '$\x7b' in template string: " ++ String.quote template) := by
  have hfind := find_opening cs
  have hfindClose := find_char '\x7d' after
  have hslices := slices_opening hopen
  rw [hopen, Option.map_some, opening] at hfind
  rw [hclose, Option.map_none] at hfindClose
  unfold Offsets.expandLoop
  simp only [hfind, hslices.1]
  split
  · next herr =>
    rw [hslices.2] at herr
    cases herr
  · next hok =>
    obtain rfl := Except.ok.inj (hslices.2.symm.trans hok)
    rw [hfindClose]

theorem expandLoop_placeholder (result : List Char) (expanded : List String)
    (hopen : splitTemplate cs = some (before, after))
    (hclose : splitOnce '\x7d' after = some (name, rest)) :
    Offsets.expandLoop template vars result expanded cs =
      (Offsets.renderPlaceholder vars name).bind fun rendered =>
        Offsets.expandLoop template vars (result ++ before ++ rendered.toList)
          (expanded ++ [String.ofList name]) rest := by
  have hfind := find_opening cs
  have hfindClose := find_char '\x7d' after
  have hslices := slices_opening hopen
  have hslicesClose := slices_closing hclose
  rw [hopen, Option.map_some, opening] at hfind
  rw [hclose, Option.map_some] at hfindClose
  rw [Offsets.expandLoop]
  simp only [hfind, hslices.1]
  split
  · next herr =>
    rw [hslices.2] at herr
    cases herr
  · next hok =>
    obtain rfl := Except.ok.inj (hslices.2.symm.trans hok)
    simp only [hfindClose, hslicesClose.1]
    rcases Offsets.renderPlaceholder vars name with e | rendered
    · rfl
    · dsimp only
      split
      · next herr =>
        rw [hslicesClose.2] at herr
        cases herr
      · next hok =>
        obtain rfl := Except.ok.inj (hslicesClose.2.symm.trans hok)
        rfl

end

/-- **The loop on offsets does what the one on characters does**, after what it has written. -/
theorem expandLoop_eq (template : String) (vars : VarStore) (result : List Char)
    (expanded : List String) (cs : List Char) :
    Offsets.expandLoop template vars result expanded cs =
      (expandTemplate template vars cs).map fun r => (result ++ r.1, expanded ++ r.2) := by
  induction hlen : cs.length using Nat.strongRecOn generalizing result expanded cs with
  | ind n ih =>
    rcases hopen : splitTemplate cs with _ | ⟨before, after⟩
    · rw [expandLoop_last result expanded hopen, expandTemplate_last hopen, Except.map,
        List.append_nil]
    · rcases hclose : splitOnce '\x7d' after with _ | ⟨name, rest⟩
      · rw [expandLoop_unclosed result expanded hopen hclose,
          expandTemplate_unclosed hopen hclose]
        rfl
      · have hlt : rest.length < n := by
          have hafter := splitTemplate_length hopen
          have hrest := splitOnce_length hclose
          omega
        rw [expandLoop_placeholder result expanded hopen hclose,
          expandTemplate_placeholder hopen hclose]
        rcases Offsets.renderPlaceholder vars name with e | rendered
        · rfl
        · have hrest := ih rest.length hlt (result ++ before ++ rendered.toList)
            (expanded ++ [String.ofList name]) rest rfl
          rw [Except.bind, Except.bind, hrest]
          rcases expandTemplate template vars rest with e | ⟨text, names⟩
          · rfl
          · simp only [Except.map, List.append_assoc, List.singleton_append]

/-- The source's loop and the model's recursion agree. -/
theorem expandTemplate_eq (template : String) (vars : VarStore) :
    Offsets.expandTemplate template vars = expandTemplate template vars template.toList := by
  rw [Offsets.expandTemplate, expandLoop_eq]
  rcases expandTemplate template vars template.toList with e | ⟨text, names⟩ <;> rfl

/-! ## Reading the grammar -/

theorem splits_last {cs : List Char} (h : splitTemplate cs = none) :
    Splits cs [.literal cs] :=
  .literal (splitTemplate_eq_none.mp h)

theorem splits_placeholder {cs before after name rest : List Char} {pieces : List Piece}
    (hopen : splitTemplate cs = some (before, after))
    (hclose : splitOnce '\x7d' after = some (name, rest)) (hrest : Splits rest pieces) :
    Splits cs (.literal before :: .placeholder (String.ofList name) :: pieces) := by
  obtain ⟨rfl, hbefore⟩ := splitTemplate_eq_some.mp hopen
  obtain ⟨rfl, hname⟩ := splitOnce_eq_some.mp hclose
  exact .placeholder hbefore hname hrest

/-- How a text splits is decided from the left. -/
theorem splits_cases {cs : List Char} {pieces : List Piece} (h : Splits cs pieces) :
    (splitTemplate cs = none ∧ pieces = [.literal cs]) ∨
      ∃ before after name rest more, splitTemplate cs = some (before, after) ∧
        splitOnce '\x7d' after = some (name, rest) ∧ Splits rest more ∧
        pieces = .literal before :: .placeholder (String.ofList name) :: more := by
  cases h with
  | literal htext => exact .inl ⟨splitTemplate_eq_none.mpr htext, rfl⟩
  | placeholder htext hname hrest =>
    exact .inr ⟨_, _, _, _, _, splitTemplate_eq_some.mpr ⟨rfl, htext⟩,
      splitOnce_eq_some.mpr ⟨rfl, hname⟩, hrest, rfl⟩

/-- **A template splits in one way.** -/
theorem splits_unique {cs : List Char} {pieces others : List Piece} (h : Splits cs pieces)
    (hother : Splits cs others) : pieces = others := by
  induction h generalizing others with
  | literal htext =>
    rcases splits_cases hother with ⟨-, rfl⟩ | ⟨before, after, name, rest, more, hopen, -⟩
    · rfl
    · rw [splitTemplate_eq_none.mpr htext] at hopen
      cases hopen
  | @placeholder text name rest pieces htext hname hrest ih =>
    have hopenHere := splitTemplate_eq_some.mpr
      ⟨(rfl : text ++ opening ++ (name ++ '\x7d' :: rest) = _), htext⟩
    have hcloseHere := splitOnce_eq_some.mpr ⟨(rfl : name ++ '\x7d' :: rest = _), hname⟩
    rcases splits_cases hother with
      ⟨hnone, -⟩ | ⟨before, after, name', rest', more, hopen, hclose, hmore, rfl⟩
    · rw [hopenHere] at hnone
      cases hnone
    · obtain ⟨rfl, rfl⟩ := Prod.mk.inj (Option.some.inj (hopenHere.symm.trans hopen))
      obtain ⟨rfl, rfl⟩ := Prod.mk.inj (Option.some.inj (hcloseHere.symm.trans hclose))
      rw [ih hmore]

section

variable {template : String} {vars : VarStore} {cs name text : List Char}
  {names : List String}

/-- A placeholder is written when its variable is a number or a text. -/
theorem renderPlaceholder_eq_ok {rendered : String} :
    Offsets.renderPlaceholder vars name = .ok rendered ↔
      (vars (String.ofList name)).bind Value.rendered = some rendered.toList := by
  rw [Offsets.renderPlaceholder]
  dsimp only
  rcases vars (String.ofList name) with _ | v
  · constructor <;> intro h <;> cases h
  · cases v with
    | number n =>
      constructor
      · intro h
        rw [← Except.ok.inj h]
        rfl
      · intro h
        exact congrArg Except.ok (String.toList_inj.mp (Option.some.inj h))
    | string s =>
      constructor
      · intro h
        rw [← Except.ok.inj h]
        rfl
      · intro h
        exact congrArg Except.ok (String.toList_inj.mp (Option.some.inj h))
    | null => constructor <;> intro h <;> cases h
    | bool b => constructor <;> intro h <;> cases h
    | array items => constructor <;> intro h <;> cases h
    | object fields => constructor <;> intro h <;> cases h

theorem renderPlaceholder_ne_panic (reason : String) :
    Offsets.renderPlaceholder vars name ≠ .error (.panic reason) := by
  rw [Offsets.renderPlaceholder]
  dsimp only
  rcases vars (String.ofList name) with _ | v
  · intro h
    cases h
  · cases v <;> intro h <;> cases h

theorem expandTemplate_ne_panic (reason : String) :
    expandTemplate template vars cs ≠ .error (.panic reason) := by
  induction hlen : cs.length using Nat.strongRecOn generalizing cs with
  | ind n ih =>
    rcases hopen : splitTemplate cs with _ | ⟨before, after⟩
    · rw [expandTemplate_last hopen]
      intro h
      cases h
    · rcases hclose : splitOnce '\x7d' after with _ | ⟨name, rest⟩
      · rw [expandTemplate_unclosed hopen hclose]
        intro h
        cases h
      · have hlt : rest.length < n := by
          have hafter := splitTemplate_length hopen
          have hrest := splitOnce_length hclose
          omega
        rw [expandTemplate_placeholder hopen hclose]
        rcases hrender : Offsets.renderPlaceholder vars name with e | rendered
        · rw [Except.bind]
          intro h
          exact renderPlaceholder_ne_panic reason (hrender.trans (Except.error.inj h ▸ rfl))
        · rw [Except.bind]
          rcases hexpand : expandTemplate template vars rest with e | r
          · intro h
            exact ih rest.length hlt rfl (hexpand.trans h)
          · intro h
            cases h

theorem writtenPieces_literal : writtenPieces vars [.literal text] = some text := by
  rw [writtenPieces, List.mapM_cons, List.mapM_nil]
  exact congrArg some List.flatten_singleton

theorem writtenPieces_placeholder {before : List Char} {more : List Piece} {n : String} :
    writtenPieces vars (.literal before :: .placeholder n :: more) = some text ↔
      ∃ value text', (vars n).bind Value.rendered = some value ∧
        writtenPieces vars more = some text' ∧ text = before ++ (value ++ text') := by
  rw [writtenPieces, List.mapM_cons, List.mapM_cons, Piece.text, Piece.text]
  rcases (vars n).bind Value.rendered with _ | value
  · constructor
    · intro h
      cases h
    · rintro ⟨value, text', h, -⟩
      cases h
  · rw [writtenPieces]
    rcases more.mapM (Piece.text vars) with _ | texts
    · constructor
      · intro h
        cases h
      · rintro ⟨value', text', -, h, -⟩
        cases h
    · constructor
      · intro h
        exact ⟨value, texts.flatten, rfl, rfl, (Option.some.inj h).symm⟩
      · rintro ⟨value', text', hvalue, htext, rfl⟩
        obtain rfl := Option.some.inj hvalue
        obtain rfl := Option.some.inj htext
        rfl

/-- What the expansion of a text with a placeholder is made of. -/
theorem expandTemplate_placeholder_eq_ok {before after rest : List Char}
    (hopen : splitTemplate cs = some (before, after))
    (hclose : splitOnce '\x7d' after = some (name, rest)) :
    expandTemplate template vars cs = .ok (text, names) ↔
      ∃ value text' names', (vars (String.ofList name)).bind Value.rendered = some value ∧
        expandTemplate template vars rest = .ok (text', names') ∧
        text = before ++ (value ++ text') ∧ names = String.ofList name :: names' := by
  rw [expandTemplate_placeholder hopen hclose]
  constructor
  · intro h
    rcases hrender : Offsets.renderPlaceholder vars name with e | rendered
    · rw [hrender] at h
      cases h
    · rcases hexpand : expandTemplate template vars rest with e | ⟨text', names'⟩
      · rw [hrender, hexpand] at h
        cases h
      · rw [hrender, hexpand] at h
        obtain ⟨rfl, rfl⟩ := Prod.mk.inj (Except.ok.inj h)
        exact ⟨_, _, _, renderPlaceholder_eq_ok.mp hrender, rfl, List.append_assoc _ _ _, rfl⟩
  · rintro ⟨value, text', names', hvalue, hexpand, rfl, rfl⟩
    have hrender : Offsets.renderPlaceholder vars name = .ok (String.ofList value) := by
      rw [renderPlaceholder_eq_ok, String.toList_ofList]
      exact hvalue
    rw [hrender, hexpand, Except.bind, Except.map, String.toList_ofList, List.append_assoc]

/-- **A text is expanded when it splits into pieces that can be written**, and then they are. -/
theorem expandTemplate_eq_ok :
    expandTemplate template vars cs = .ok (text, names) ↔
      ∃ pieces, Splits cs pieces ∧ writtenPieces vars pieces = some text ∧
        names = pieces.filterMap Piece.name? := by
  induction hlen : cs.length using Nat.strongRecOn generalizing cs text names with
  | ind n ih =>
    rcases hopen : splitTemplate cs with _ | ⟨before, after⟩
    · rw [expandTemplate_last hopen]
      constructor
      · intro h
        obtain ⟨rfl, rfl⟩ := Prod.mk.inj (Except.ok.inj h)
        exact ⟨_, splits_last hopen, writtenPieces_literal, rfl⟩
      · rintro ⟨pieces, hsplits, htext, rfl⟩
        obtain rfl := splits_unique hsplits (splits_last hopen)
        obtain rfl := Option.some.inj (writtenPieces_literal.symm.trans htext)
        rfl
    · rcases hclose : splitOnce '\x7d' after with _ | ⟨name, rest⟩
      · rw [expandTemplate_unclosed hopen hclose]
        constructor
        · intro h
          cases h
        · rintro ⟨pieces, hsplits, -⟩
          -- no text splits at a placeholder that stays open
          rcases splits_cases hsplits with ⟨hnone, -⟩ | ⟨b, a, name, rest, more, ho, hc, -⟩
          · rw [hopen] at hnone
            cases hnone
          · obtain ⟨rfl, rfl⟩ := Prod.mk.inj (Option.some.inj (hopen.symm.trans ho))
            rw [hclose] at hc
            cases hc
      · have hlt : rest.length < n := by
          have hafter := splitTemplate_length hopen
          have hrest := splitOnce_length hclose
          omega
        rw [expandTemplate_placeholder_eq_ok hopen hclose]
        constructor
        · rintro ⟨value, text', names', hvalue, hexpand, rfl, rfl⟩
          obtain ⟨pieces, hsplits, htext, rfl⟩ := (ih _ hlt rfl).mp hexpand
          exact ⟨_, splits_placeholder hopen hclose hsplits,
            writtenPieces_placeholder.mpr ⟨value, text', hvalue, htext, rfl⟩, rfl⟩
        · rintro ⟨pieces, hsplits, htext, rfl⟩
          rcases splits_cases hsplits with
            ⟨hnone, -⟩ | ⟨b, a, name', rest', more, ho, hc, hmore, rfl⟩
          · rw [hopen] at hnone
            cases hnone
          · obtain ⟨rfl, rfl⟩ := Prod.mk.inj (Option.some.inj (hopen.symm.trans ho))
            obtain ⟨rfl, rfl⟩ := Prod.mk.inj (Option.some.inj (hclose.symm.trans hc))
            obtain ⟨value, text', hvalue, hmoreText, rfl⟩ := writtenPieces_placeholder.mp htext
            exact ⟨value, text', _, hvalue, (ih _ hlt rfl).mpr ⟨more, hmore, hmoreText, rfl⟩,
              rfl, rfl⟩

end

/-- Pieces can be written when their names are those of numbers and texts. -/
theorem writtenPieces_isSome {vars : VarStore} {pieces : List Piece} :
    (writtenPieces vars pieces).isSome = true ↔ ∀ name ∈ pieces.filterMap Piece.name?,
      ((vars name).bind Value.rendered).isSome = true := by
  rw [writtenPieces, Option.isSome_map]
  induction pieces with
  | nil => exact ⟨fun _ name hmem => absurd hmem List.not_mem_nil, fun _ => rfl⟩
  | cons piece rest ih =>
    have hcons : ((piece :: rest).mapM (Piece.text vars)).isSome = true ↔
        (piece.text vars).isSome = true ∧ (rest.mapM (Piece.text vars)).isSome = true := by
      rw [List.mapM_cons]
      rcases piece.text vars with _ | text
      · exact ⟨fun h => absurd h Bool.false_ne_true, fun h => absurd h.1 Bool.false_ne_true⟩
      · rcases rest.mapM (Piece.text vars) with _ | texts
        · exact ⟨fun h => absurd h Bool.false_ne_true, fun h => absurd h.2 Bool.false_ne_true⟩
        · exact ⟨fun _ => ⟨rfl, rfl⟩, fun _ => rfl⟩
    rw [hcons, ih]
    cases piece with
    | literal text => exact ⟨fun h => h.2, fun h => ⟨rfl, h⟩⟩
    | placeholder name =>
      rw [List.filterMap_cons_some (f := Piece.name?) (a := .placeholder name) rfl,
        List.forall_mem_cons]
      rfl

/-- **Expansion is its grammar.** No template makes `expand_template` panic. It succeeds exactly
when the template splits from the left into literal text and closed placeholders whose names are
those of numbers and texts; there is one way to split it, what is written is the pieces in order,
with the values as they are, and the names are those of the placeholders. -/
theorem expandTemplate_grammar (template : String) (vars : VarStore) :
    (∀ reason, Offsets.expandTemplate template vars ≠ .error (.panic reason)) ∧
      ((∃ r, Offsets.expandTemplate template vars = .ok r) ↔
        ∃ pieces, Splits template.toList pieces ∧
          ∀ name ∈ pieces.filterMap Piece.name?, ∃ v value, vars name = some v ∧
            v.rendered = some value) ∧
      ∀ text names, Offsets.expandTemplate template vars = .ok (text, names) ↔
        ∃ pieces, Splits template.toList pieces ∧
          (∀ others, Splits template.toList others → others = pieces) ∧
          writtenPieces vars pieces = some text ∧ names = pieces.filterMap Piece.name? := by
  rw [expandTemplate_eq]
  refine ⟨expandTemplate_ne_panic, ?_, fun text names => ?_⟩
  · have hbound : ∀ name, ((vars name).bind Value.rendered).isSome = true ↔
        ∃ v value, vars name = some v ∧ v.rendered = some value := by
      intro name
      rw [Option.isSome_iff_exists]
      constructor
      · rintro ⟨value, h⟩
        obtain ⟨v, hv, hvalue⟩ := Option.bind_eq_some_iff.mp h
        exact ⟨v, value, hv, hvalue⟩
      · rintro ⟨v, value, hv, hvalue⟩
        exact ⟨value, Option.bind_eq_some_iff.mpr ⟨v, hv, hvalue⟩⟩
    constructor
    · rintro ⟨⟨text, names⟩, h⟩
      obtain ⟨pieces, hsplits, htext, -⟩ := expandTemplate_eq_ok.mp h
      refine ⟨pieces, hsplits, fun name hmem => (hbound name).mp ?_⟩
      exact writtenPieces_isSome.mp (Option.isSome_iff_exists.mpr ⟨text, htext⟩) name hmem
    · rintro ⟨pieces, hsplits, hnames⟩
      have hsome := writtenPieces_isSome.mpr fun name hmem => (hbound name).mpr (hnames name hmem)
      obtain ⟨text, htext⟩ := Option.isSome_iff_exists.mp hsome
      exact ⟨(text, _), expandTemplate_eq_ok.mpr ⟨pieces, hsplits, htext, rfl⟩⟩
  · rw [expandTemplate_eq_ok]
    constructor
    · rintro ⟨pieces, hsplits, htext, rfl⟩
      exact ⟨pieces, hsplits, fun others h => splits_unique h hsplits, htext, rfl⟩
    · rintro ⟨pieces, hsplits, -, htext, rfl⟩
      exact ⟨pieces, hsplits, htext, rfl⟩

end Proof

end ConformanceHarness

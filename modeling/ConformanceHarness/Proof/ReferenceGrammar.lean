import ConformanceHarness.Proof.TextSplits

/-!
# The grammar of references

`resolve_ref` takes a reference apart with `strip_prefix`, `split_once`, `find` and
`trim_end_matches`. `$name`, `$name.field` and `$name[i]` are what it documents. It also takes an
index with a sign before it, and one that is closed by any number of brackets, or by none.
-/

namespace ConformanceHarness

/-! ## As documented -/

/-- The documented references, and what they refer to. -/
inductive Reference (vars : VarStore) : String → Value → Prop where
  | whole {name : String} {v : Value} (hname : vars name = some v) : Reference vars ("$" ++ name) v
  | field {name field : String} {fields : List (String × Value)} {v : Value}
      (hname : vars name = some (.object fields)) (hfield : fields.lookup field = some v) :
      Reference vars ("$" ++ name ++ "." ++ field) v
  | element {name digits : String} {items : List Value} {v : Value}
      (hname : vars name = some (.array items)) (hdigits : Decimal digits.toList)
      (hitem : items[Nat.ofDigitChars 10 digits.toList 0]? = some v) :
      Reference vars ("$" ++ name ++ "[" ++ digits ++ "]") v

/-- References to an element in range that are not as documented: the index has a sign, or it is
not closed by exactly one bracket. -/
inductive SlackIndex (vars : VarStore) : String → Value → Prop where
  | intro {name digits : String} {items : List Value} {v : Value} (signed : Bool) (brackets : Nat)
      (hname : vars name = some (.array items)) (hdigits : Decimal digits.toList)
      (hitem : items[Nat.ofDigitChars 10 digits.toList 0]? = some v)
      (hslack : signed = true ∨ brackets ≠ 1) :
      SlackIndex vars ("$" ++ name ++ "[" ++ (if signed then "+" else "") ++ digits ++
        String.ofList (List.replicate brackets ']')) v

/-- The names of a store have no separator of the grammar in them. -/
def CleanNames (vars : VarStore) : Prop :=
  ∀ name, (vars name).isSome → '.' ∉ name.toList ∧ '[' ∉ name.toList ∧ ']' ∉ name.toList

/-- The lists of a store are those a `Vec` can hold. -/
def FitsUsize (vars : VarStore) : Prop :=
  ∀ name items, vars name = some (.array items) → items.length ≤ 2 ^ 64

namespace Proof

variable {vars : VarStore} {e : String} {v : Value}

/-! ## As read -/

/-- What `resolve_ref` takes for a reference to `v`, without the dollar sign. -/
inductive Resolves (vars : VarStore) (v : Value) : List Char → Prop where
  | whole {name : List Char} (hdot : '.' ∉ name) (hbracket : '[' ∉ name)
      (hname : vars (String.ofList name) = some v) : Resolves vars v name
  | field {name field : List Char} {base : Value} (hdot : '.' ∉ name)
      (hname : vars (String.ofList name) = some base)
      (hfield : base.getField (String.ofList field) = some v) : Resolves vars v (name ++ '.' :: field)
  | element {name index : List Char} {base : Value} {idx : Nat} (hdot : '.' ∉ name ++ '[' :: index)
      (hbracket : '[' ∉ name) (hindex : parseUnsigned (trimEndBrackets index) = .ok idx)
      (hname : vars (String.ofList name) = some base) (hitem : base.getIndex idx = some v) :
      Resolves vars v (name ++ '[' :: index)

theorem resolves_of_ok {rest : List Char} (h : resolveRef e vars = .ok v)
    (htext : e.toList = '$' :: rest) : Resolves vars v rest := by
  rw [resolveRef, htext] at h
  split at h
  · next rest' heq =>
    obtain rfl := (List.cons.inj heq).2
    rcases hdot : splitOnce '.' rest with _ | ⟨name, field⟩
    · rw [hdot] at h
      dsimp only at h
      rcases hbracket : splitOnce '[' rest with _ | ⟨name, index⟩
      · rw [hbracket] at h
        dsimp only at h
        rcases hname : vars (String.ofList rest) with _ | w
        · rw [hname] at h
          cases h
        · rw [hname] at h
          obtain rfl := Except.ok.inj h
          exact .whole (splitOnce_eq_none.mp hdot) (splitOnce_eq_none.mp hbracket) hname
      · rw [hbracket] at h
        dsimp only at h
        obtain ⟨rfl, hnot⟩ := splitOnce_eq_some.mp hbracket
        rcases hindex : parseUnsigned (trimEndBrackets index) with message | idx
        · rw [hindex] at h
          cases h
        · rw [hindex] at h
          dsimp only at h
          rcases hname : vars (String.ofList name) with _ | base
          · rw [hname] at h
            cases h
          · rw [hname] at h
            dsimp only at h
            rcases hitem : base.getIndex idx with _ | w
            · rw [hitem] at h
              cases h
            · rw [hitem] at h
              obtain rfl := Except.ok.inj h
              exact .element (splitOnce_eq_none.mp hdot) hnot hindex hname hitem
    · rw [hdot] at h
      dsimp only at h
      obtain ⟨rfl, hnot⟩ := splitOnce_eq_some.mp hdot
      rcases hname : vars (String.ofList name) with _ | base
      · rw [hname] at h
        cases h
      · rw [hname] at h
        dsimp only at h
        rcases hfield : base.getField (String.ofList field) with _ | w
        · rw [hfield] at h
          cases h
        · rw [hfield] at h
          obtain rfl := Except.ok.inj h
          exact .field hnot hname hfield
  · next hne => exact absurd rfl (hne rest)

theorem resolveRef_of_resolves {rest : List Char} (h : Resolves vars v rest)
    (htext : e.toList = '$' :: rest) : resolveRef e vars = .ok v := by
  rw [resolveRef, htext]
  split
  · next rest' heq =>
    obtain rfl := (List.cons.inj heq).2
    cases h with
    | whole hdot hbracket hname =>
      rw [splitOnce_eq_none.mpr hdot, splitOnce_eq_none.mpr hbracket]
      dsimp only
      rw [hname]
    | field hdot hname hfield =>
      rw [splitOnce_eq_some.mpr ⟨rfl, hdot⟩]
      dsimp only
      rw [hname]
      dsimp only
      rw [hfield]
    | element hdot hbracket hindex hname hitem =>
      rw [splitOnce_eq_none.mpr hdot, splitOnce_eq_some.mpr ⟨rfl, hbracket⟩]
      dsimp only
      rw [hindex]
      dsimp only
      rw [hname]
      dsimp only
      rw [hitem]
  · next hne => exact absurd rfl (hne rest)

/-- **What `resolve_ref` accepts**, for any store. -/
theorem resolveRef_eq_ok :
    resolveRef e vars = .ok v ↔ ∃ rest, e.toList = '$' :: rest ∧ Resolves vars v rest := by
  constructor
  · intro h
    have hdollar : ∃ rest, e.toList = '$' :: rest := by
      rw [resolveRef] at h
      split at h
      · next rest heq => exact ⟨rest, heq⟩
      · cases h
    obtain ⟨rest, htext⟩ := hdollar
    exact ⟨rest, htext, resolves_of_ok h htext⟩
  · rintro ⟨rest, htext, h⟩
    exact resolveRef_of_resolves h htext

/-! ## As documented, and beyond -/

theorem eq_of_toList {cs : List Char} (h : e.toList = cs) : e = String.ofList cs := by
  rw [← h, String.ofList_toList]

/-- An index, its sign and its brackets are read as the index. -/
theorem trimmed_index {digits : List Char} (h : Decimal digits) (signed : Bool) (brackets : Nat) :
    trimEndBrackets ((if signed then ['+'] else []) ++ digits ++ List.replicate brackets ']') =
      (if signed then ['+'] else []) ++ digits := by
  refine trimEndBrackets_append ?_ brackets
  have hlast : ((if signed then ['+'] else []) ++ digits).getLast? = digits.getLast? := by
    rw [List.getLast?_append, List.getLast?_eq_some_getLast h.1]
    rfl
  rw [hlast]
  intro hlast
  exact decimal_not_mem h (by decide) (List.mem_of_getLast? hlast)

/-- `name[i]` without the dollar sign, with or without a sign and however many brackets. -/
def indexText (name digits : List Char) (signed : Bool) (brackets : Nat) : List Char :=
  name ++ '[' :: ((if signed then ['+'] else []) ++ digits ++ List.replicate brackets ']')

theorem element_toList (name digits : String) :
    ("$" ++ name ++ "[" ++ digits ++ "]").toList =
      '$' :: indexText name.toList digits.toList false 1 := by
  simp [indexText]

theorem slack_toList (name digits : String) (signed : Bool) (brackets : Nat) :
    ("$" ++ name ++ "[" ++ (if signed then "+" else "") ++ digits ++
      String.ofList (List.replicate brackets ']')).toList =
      '$' :: indexText name.toList digits.toList signed brackets := by
  cases signed <;> simp [indexText]

theorem indexText_no_dot {name digits : List Char} (hname : '.' ∉ name) (hdigits : Decimal digits)
    (signed : Bool) (brackets : Nat) : '.' ∉ indexText name digits signed brackets := by
  intro hmem
  rcases List.mem_append.mp hmem with hmem | hmem
  · exact hname hmem
  rcases List.mem_cons.mp hmem with hmem | hmem
  · exact absurd hmem (by decide)
  rcases List.mem_append.mp hmem with hmem | hmem
  · rcases List.mem_append.mp hmem with hmem | hmem
    · cases signed with
      | false => exact List.not_mem_nil hmem
      | true => exact absurd (List.mem_singleton.mp hmem) (by decide)
    · exact decimal_not_mem hdigits (by decide) hmem
  · exact absurd (List.eq_of_mem_replicate hmem) (by decide)

/-- A text that refers to an element. -/
theorem resolves_element {name digits : List Char} {items : List Value} (hnames : CleanNames vars)
    (hfits : FitsUsize vars) (hname : vars (String.ofList name) = some (.array items))
    (hdigits : Decimal digits) (hitem : items[Nat.ofDigitChars 10 digits 0]? = some v)
    (signed : Bool) (brackets : Nat) :
    Resolves vars v (indexText name digits signed brackets) := by
  obtain ⟨hdot, hbracket, -⟩ := hnames (String.ofList name) (Option.isSome_of_eq_some hname)
  rw [String.toList_ofList] at hdot hbracket
  have hlt : Nat.ofDigitChars 10 digits 0 < 2 ^ 64 := by
    obtain ⟨hin, -⟩ := List.getElem?_eq_some_iff.mp hitem
    exact Nat.lt_of_lt_of_le hin (hfits _ _ hname)
  have hget : (Value.array items).getIndex (Nat.ofDigitChars 10 digits 0) = some v := hitem
  refine .element (indexText_no_dot hdot hdigits signed brackets) hbracket ?_ hname hget
  rw [trimmed_index hdigits]
  refine parseUnsigned_eq_ok.mpr ⟨digits, ?_, hdigits, rfl, hlt⟩
  cases signed with
  | false => exact .inl rfl
  | true => exact .inr rfl

theorem reference_of_resolves {rest : List Char} (h : Resolves vars v rest)
    (htext : e.toList = '$' :: rest) : Reference vars e v ∨ SlackIndex vars e v := by
  have he : e = "$" ++ String.ofList rest := by
    rw [eq_of_toList htext, String.ofList_cons]
    rfl
  subst he
  cases h with
  | whole hdot hbracket hname => exact .inl (.whole hname)
  | @field name field base hdot hname hfield =>
    cases base with
    | object fields =>
      have he : "$" ++ String.ofList (name ++ '.' :: field) =
          "$" ++ String.ofList name ++ "." ++ String.ofList field :=
        String.toList_inj.mp (by simp)
      rw [he]
      exact .inl (.field hname hfield)
    | _ => cases hfield
  | @element name index base idx hdot hbracket hindex hname hitem =>
    cases base with
    | array items =>
      obtain ⟨digits, hsign, hdigits, rfl, -⟩ := parseUnsigned_eq_ok.mp hindex
      obtain ⟨brackets, hsplit⟩ := trimEndBrackets_split index
      obtain ⟨signed, hsigned⟩ : ∃ signed : Bool,
          trimEndBrackets index = (if signed then ['+'] else []) ++ digits := by
        rcases hsign with hsign | hsign
        · exact ⟨false, hsign⟩
        · exact ⟨true, hsign⟩
      rw [hsigned] at hsplit
      have hdecimal : Decimal (String.ofList digits).toList := by
        rw [String.toList_ofList]
        exact hdigits
      have hitem' : items[Nat.ofDigitChars 10 (String.ofList digits).toList 0]? = some v := by
        rw [String.toList_ofList]
        exact hitem
      by_cases hslack : signed = true ∨ brackets ≠ 1
      · have he : "$" ++ String.ofList (name ++ '[' :: index) =
            "$" ++ String.ofList name ++ "[" ++ (if signed then "+" else "") ++
              String.ofList digits ++ String.ofList (List.replicate brackets ']') := by
          rw [hsplit]
          cases signed <;> exact String.toList_inj.mp (by simp)
        rw [he]
        exact .inr (.intro signed brackets hname hdecimal hitem' hslack)
      · obtain ⟨hunsigned, hone⟩ := not_or.mp hslack
        have he : "$" ++ String.ofList (name ++ '[' :: index) =
            "$" ++ String.ofList name ++ "[" ++ String.ofList digits ++ "]" := by
          rw [hsplit, Bool.eq_false_iff.mpr hunsigned, not_not.mp hone]
          exact String.toList_inj.mp (by simp)
        rw [he]
        exact .inl (.element hname hdecimal hitem')
    | _ => cases hitem

/-- **What `resolve_ref` accepts**: the documented references, and slack ones. -/
theorem resolveRef_eq_ok_iff (hnames : CleanNames vars) (hfits : FitsUsize vars) :
    resolveRef e vars = .ok v ↔ Reference vars e v ∨ SlackIndex vars e v := by
  rw [resolveRef_eq_ok]
  constructor
  · rintro ⟨rest, htext, h⟩
    exact reference_of_resolves h htext
  · rintro (h | h)
    · cases h with
      | @whole name v hname =>
        obtain ⟨hdot, hbracket, -⟩ := hnames name (Option.isSome_of_eq_some hname)
        refine ⟨name.toList, by simp, .whole hdot hbracket ?_⟩
        rw [String.ofList_toList]
        exact hname
      | @field name field fields v hname hfield =>
        obtain ⟨hdot, -, -⟩ := hnames name (Option.isSome_of_eq_some hname)
        have hname' : vars (String.ofList name.toList) = some (.object fields) := by
          rw [String.ofList_toList]
          exact hname
        have hget : (Value.object fields).getField (String.ofList field.toList) = some v := by
          rw [String.ofList_toList]
          exact hfield
        exact ⟨name.toList ++ '.' :: field.toList, by simp, .field hdot hname' hget⟩
      | @element name digits items v hname hdigits hitem =>
        have hname' : vars (String.ofList name.toList) = some (.array items) := by
          rw [String.ofList_toList]
          exact hname
        exact ⟨_, element_toList name digits,
          resolves_element hnames hfits hname' hdigits hitem false 1⟩
    · cases h with
      | @intro name digits items v signed brackets hname hdigits hitem hslack =>
        have hname' : vars (String.ofList name.toList) = some (.array items) := by
          rw [String.ofList_toList]
          exact hname
        exact ⟨_, slack_toList name digits signed brackets,
          resolves_element hnames hfits hname' hdigits hitem signed brackets⟩

/-- The parts of two such texts are the same. -/
theorem indexText_inj {name name' digits digits' : List Char} {signed signed' : Bool}
    {brackets brackets' : Nat} (hname : '[' ∉ name) (hname' : '[' ∉ name')
    (hdigits : Decimal digits) (hdigits' : Decimal digits')
    (h : indexText name digits signed brackets = indexText name' digits' signed' brackets') :
    signed = signed' ∧ brackets = brackets' := by
  -- both are what stands after the first bracket
  have hfirst := splitOnce_eq_some.mpr ⟨h, hname'⟩
  rw [indexText, splitOnce_eq_some.mpr ⟨rfl, hname⟩] at hfirst
  obtain ⟨-, hindex⟩ := Prod.mk.inj (Option.some.inj hfirst)
  have htrimmed := congrArg trimEndBrackets hindex
  rw [trimmed_index hdigits, trimmed_index hdigits'] at htrimmed
  constructor
  · -- a sign would be a digit of the other
    have hplus : '+'.isDigit = false := by decide
    cases signed with
    | false =>
      cases signed' with
      | false => rfl
      | true =>
        have hdigit : digits = '+' :: digits' := htrimmed
        rw [hdigit] at hdigits
        exact absurd List.mem_cons_self (decimal_not_mem hdigits hplus)
    | true =>
      cases signed' with
      | false =>
        have hdigit : digits' = '+' :: digits := htrimmed.symm
        rw [hdigit] at hdigits'
        exact absurd List.mem_cons_self (decimal_not_mem hdigits' hplus)
      | true => rfl
  · rw [htrimmed] at hindex
    have hlength := congrArg List.length (List.append_cancel_left hindex)
    rw [List.length_replicate, List.length_replicate] at hlength
    exact hlength

/-- No slack reference is a documented one, to whatever value. -/
theorem slackIndex_not_reference (hnames : CleanNames vars) {w : Value}
    (h : SlackIndex vars e v) : ¬ Reference vars e w := by
  intro h'
  obtain ⟨name, digits, items, signed, brackets, hname, hdigits, hslack, htext⟩ :
      ∃ (name digits : String) (items : List Value) (signed : Bool) (brackets : Nat),
        vars name = some (.array items) ∧ Decimal digits.toList ∧ (signed = true ∨ brackets ≠ 1) ∧
        e.toList = '$' :: indexText name.toList digits.toList signed brackets := by
    cases h with
    | @intro name digits items v signed brackets hname hdigits hitem hslack =>
      exact ⟨name, digits, items, signed, brackets, hname, hdigits, hslack,
        slack_toList name digits signed brackets⟩
  obtain ⟨hdot, hbracket, -⟩ := hnames name (Option.isSome_of_eq_some hname)
  cases h' with
  | @whole name' w hname' =>
    obtain ⟨-, hbracket', -⟩ := hnames name' (Option.isSome_of_eq_some hname')
    have hwhole : ("$" ++ name').toList = '$' :: name'.toList := by simp
    have hsame : name'.toList = indexText name.toList digits.toList signed brackets :=
      (List.cons.inj (hwhole.symm.trans htext)).2
    rw [hsame] at hbracket'
    exact hbracket' (List.mem_append_right _ List.mem_cons_self)
  | @field name' field fields w hname' hfield =>
    have hfieldText : ("$" ++ name' ++ "." ++ field).toList =
        '$' :: (name'.toList ++ '.' :: field.toList) := by simp
    have hsame := (List.cons.inj (hfieldText.symm.trans htext)).2
    refine indexText_no_dot hdot hdigits signed brackets ?_
    rw [← hsame]
    exact List.mem_append_right _ List.mem_cons_self
  | @element name' digits' items' w hname' hdigits' hitem' =>
    obtain ⟨-, hbracket', -⟩ := hnames name' (Option.isSome_of_eq_some hname')
    have hsame := (List.cons.inj ((element_toList name' digits').symm.trans htext)).2
    obtain ⟨rfl, rfl⟩ := indexText_inj hbracket' hbracket hdigits' hdigits hsame
    rcases hslack with hsigned | hone
    · cases hsigned
    · exact hone rfl

/-- **`resolve_ref` accepts exactly the documented references**, but for slack ones. -/
theorem resolveRef_documented_iff (hnames : CleanNames vars) (hfits : FitsUsize vars) (e : String) :
    (∀ v, resolveRef e vars = .ok v ↔ Reference vars e v) ↔ ¬ ∃ v, SlackIndex vars e v := by
  constructor
  · rintro h ⟨v, hslack⟩
    have hok := (resolveRef_eq_ok_iff hnames hfits).mpr (.inr hslack)
    exact slackIndex_not_reference hnames hslack ((h v).mp hok)
  · intro hno v
    rw [resolveRef_eq_ok_iff hnames hfits, or_iff_left fun h => hno ⟨v, h⟩]

/-! ## An index that is not closed -/

/-- A store with the list `xs`, of one element. -/
def oneList : VarStore := fun name => if name = "xs" then some (.array [.null]) else none

theorem oneList_clean : CleanNames oneList := by
  intro name hbound
  by_cases hname : name = "xs"
  · rw [hname]
    decide
  · rw [oneList, if_neg hname] at hbound
    cases hbound

theorem oneList_fits : FitsUsize oneList := by
  intro name items hbound
  rw [oneList] at hbound
  split at hbound
  · cases hbound
    decide
  · cases hbound

theorem decimal_zero : Decimal "0".toList :=
  ⟨List.cons_ne_nil '0' [], List.forall_mem_singleton.mpr rfl⟩

/-- `$xs[0]` is read as documented. -/
theorem closed_index_documented :
    resolveRef "$xs[0]" oneList = .ok .null ↔ Reference oneList "$xs[0]" .null := by
  refine (resolveRef_documented_iff oneList_clean oneList_fits "$xs[0]").mpr ?_ .null
  rintro ⟨v, hslack⟩
  have hbound : oneList "xs" = some (.array [.null]) := rfl
  have helement : Reference oneList ("$" ++ "xs" ++ "[" ++ "0" ++ "]") .null :=
    .element hbound decimal_zero rfl
  exact slackIndex_not_reference oneList_clean hslack helement

/-- `$xs[0` is taken for `$xs[0]`. -/
theorem open_index_accepted : CleanNames oneList ∧ FitsUsize oneList ∧
    resolveRef "$xs[0" oneList = .ok .null ∧ ¬ Reference oneList "$xs[0" .null := by
  have hbound : oneList "xs" = some (.array [.null]) := rfl
  have hslack : SlackIndex oneList ("$" ++ "xs" ++ "[" ++ (if false then "+" else "") ++ "0" ++
      String.ofList (List.replicate 0 ']')) .null :=
    .intro false 0 hbound decimal_zero rfl (.inr (by decide))
  exact ⟨oneList_clean, oneList_fits, rfl, slackIndex_not_reference oneList_clean hslack⟩

end Proof

end ConformanceHarness

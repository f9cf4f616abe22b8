import Mathlib.Data.Nat.Digits.Defs

/-!
# CBOR data items

RFC 8949: a data item begins with a head, an initial byte that holds a major type and five
bits of additional information, and up to eight bytes of argument after it. The decoder reads
one item from the front of some bytes, or nothing if they do not begin with a well-formed one.

The preferred head of an argument is the shortest one. What is read from it is the argument,
and no other head with that argument is shorter.
-/

namespace ConformanceHarness.Lib.Cbor

/-- A data item. -/
inductive Item where
  | unsigned (n : Nat)
  /-- The number `-1 - n`. -/
  | negative (n : Nat)
  | bytes (content : List UInt8)
  | text (content : String)
  | array (items : List Item)
  | map (entries : List (Item × Item))
  | tagged (number : Nat) (item : Item)
  /-- 20 is false, 21 true, 22 null, 23 undefined. -/
  | simple (value : Nat)
  /-- The bits of a float of 2, 4 or 8 bytes. -/
  | float (width bits : Nat)

/-- The head of a data item; no argument is an indefinite length, or a break. -/
structure Head where
  major : Nat
  info : Nat
  argument : Option Nat
deriving Repr, DecidableEq

/-! ## Heads -/

/-- The number that some bytes are, the highest one first. -/
def ofBigEndian (bytes : List UInt8) : Nat := Nat.ofDigits 256 (bytes.reverse.map UInt8.toNat)

/-- The lowest `k` bytes of a number, the highest one first. -/
def toBigEndian : Nat → Nat → List UInt8
  | 0, _ => []
  | k + 1, n => UInt8.ofNat (n / 256 ^ k) :: toBigEndian k n

/-- The head at the front of some bytes, and what comes after it. -/
def readHead : List UInt8 → Option (Head × List UInt8)
  | [] => none
  | initial :: rest =>
    let major := initial.toNat / 32
    let info := initial.toNat % 32
    if info < 24 then some (⟨major, info, some info⟩, rest)
    else if info < 28 then
      let width := 2 ^ (info - 24)
      if rest.length < width then none
      else some (⟨major, info, some (ofBigEndian (rest.take width))⟩, rest.drop width)
    else if info = 31 then some (⟨major, info, none⟩, rest)
    else none

/-! ## Items -/

variable {α : Type}

/-- `n` readings, one after the other. -/
def readMany (read : List UInt8 → Option (α × List UInt8)) :
    Nat → List UInt8 → Option (List α × List UInt8)
  | 0, bytes => some ([], bytes)
  | n + 1, bytes => do
    let (a, rest) ← read bytes
    let (more, rest) ← readMany read n rest
    return (a :: more, rest)

/-- Readings up to a break, at most `limit` of them. -/
def readUntilBreak (read : List UInt8 → Option (α × List UInt8)) :
    Nat → List UInt8 → Option (List α × List UInt8)
  | 0, bytes => if bytes.head? = some 0xff then some ([], bytes.tail) else none
  | limit + 1, bytes =>
    if bytes.head? = some 0xff then some ([], bytes.tail)
    else do
      let (a, rest) ← read bytes
      let (more, rest) ← readUntilBreak read limit rest
      return (a :: more, rest)

/-- As many readings as the argument of a head says, or readings up to a break. -/
def readCounted (read : List UInt8 → Option (α × List UInt8)) (count : Option Nat)
    (bytes : List UInt8) : Option (List α × List UInt8) :=
  match count with
  | some n => readMany read n bytes
  | none => readUntilBreak read bytes.length bytes

/-- A key and its value. -/
def readPair (read : List UInt8 → Option (α × List UInt8)) (bytes : List UInt8) :
    Option ((α × α) × List UInt8) := do
  let (key, rest) ← read bytes
  let (value, rest) ← read rest
  return ((key, value), rest)

/-- `length` bytes of content. -/
def readContent (length : Nat) (bytes : List UInt8) : Option (List UInt8 × List UInt8) :=
  if bytes.length < length then none else some (bytes.take length, bytes.drop length)

/-- A chunk of a string of indefinite length: a string of that major type, of definite length. -/
def readChunk (major : Nat) (bytes : List UInt8) : Option (List UInt8 × List UInt8) := do
  let (head, rest) ← readHead bytes
  if head.major = major then readContent (← head.argument) rest else none

/-- The chunks of a string; a string of definite length is one. -/
def readString (major : Nat) (length : Option Nat) (bytes : List UInt8) :
    Option (List (List UInt8) × List UInt8) :=
  match length with
  | some n => (readContent n bytes).map fun (content, rest) => ([content], rest)
  | none => readUntilBreak (readChunk major) bytes.length bytes

/-- The text of chunks that are each UTF-8. -/
def textOf (chunks : List (List UInt8)) : Option String :=
  (chunks.mapM fun chunk => String.fromUTF8? ⟨chunk.toArray⟩).map String.join

/-- What a head of major type 7 with an argument says. -/
def simpleOrFloat (info argument : Nat) : Option Item :=
  if info < 24 then some (.simple argument)
  else if info = 24 then if argument < 32 then none else some (.simple argument)
  else some (.float (2 ^ (info - 24)) argument)

/-- The item at the front of some bytes, nested less than `depth` deep, and what comes after. -/
def readItem : Nat → List UInt8 → Option (Item × List UInt8)
  | 0, _ => none
  | depth + 1, bytes => do
    let (head, rest) ← readHead bytes
    match head.major, head.argument with
    | 0, some n => return (.unsigned n, rest)
    | 1, some n => return (.negative n, rest)
    | 2, length =>
      let (chunks, rest) ← readString 2 length rest
      return (.bytes chunks.flatten, rest)
    | 3, length =>
      let (chunks, rest) ← readString 3 length rest
      return (.text (← textOf chunks), rest)
    | 4, count =>
      let (items, rest) ← readCounted (readItem depth) count rest
      return (.array items, rest)
    | 5, count =>
      let (entries, rest) ← readCounted (readPair (readItem depth)) count rest
      return (.map entries, rest)
    | 6, some number =>
      let (item, rest) ← readItem depth rest
      return (.tagged number item, rest)
    | 7, some argument => return (← simpleOrFloat head.info argument, rest)
    | _, _ => none

/-- The decoder: no item is nested deeper than it has bytes. -/
def decode (bytes : List UInt8) : Option (Item × List UInt8) := readItem bytes.length bytes

/-! ## Big-endian numbers -/

theorem ofBigEndian_cons (b : UInt8) (bytes : List UInt8) :
    ofBigEndian (b :: bytes) = b.toNat * 256 ^ bytes.length + ofBigEndian bytes := by
  simp only [ofBigEndian, List.reverse_cons, List.map_append, List.map_cons, List.map_nil,
    Nat.ofDigits_append, Nat.ofDigits_singleton, List.length_map, List.length_reverse]
  rw [Nat.add_comm, Nat.mul_comm]

theorem ofBigEndian_lt (bytes : List UInt8) : ofBigEndian bytes < 256 ^ bytes.length := by
  induction bytes with
  | nil => exact Nat.one_pos
  | cons b bytes ih =>
    have hb := b.toNat_lt
    rw [ofBigEndian_cons, List.length_cons, Nat.pow_succ, Nat.mul_comm (256 ^ _) 256]
    calc b.toNat * 256 ^ bytes.length + ofBigEndian bytes
      _ < b.toNat * 256 ^ bytes.length + 256 ^ bytes.length := Nat.add_lt_add_left ih _
      _ = (b.toNat + 1) * 256 ^ bytes.length := by rw [Nat.add_mul, Nat.one_mul]
      _ ≤ 256 * 256 ^ bytes.length := Nat.mul_le_mul_right _ (by omega)

@[simp] theorem toBigEndian_length (k n : Nat) : (toBigEndian k n).length = k := by
  induction k with
  | zero => rfl
  | succ k ih => rw [toBigEndian, List.length_cons, ih]

/-- The lowest `k` bytes of a number are the number modulo `256 ^ k`. -/
theorem ofBigEndian_toBigEndian (k n : Nat) : ofBigEndian (toBigEndian k n) = n % 256 ^ k := by
  induction k with
  | zero => rw [Nat.pow_zero, Nat.mod_one, toBigEndian]; rfl
  | succ k ih =>
    have hbyte : (UInt8.ofNat (n / 256 ^ k)).toNat = n / 256 ^ k % 256 := UInt8.toNat_ofNat'
    rw [toBigEndian, ofBigEndian_cons, ih, toBigEndian_length, hbyte, Nat.pow_succ, Nat.mod_mul,
      Nat.add_comm, Nat.mul_comm (256 ^ k)]

/-! ## The preferred head -/

/-- How many bytes of argument the shortest head of `n` has. -/
def argumentWidth (n : Nat) : Nat :=
  if n < 24 then 0 else if n < 2 ^ 8 then 1 else if n < 2 ^ 16 then 2
  else if n < 2 ^ 32 then 4 else 8

/-- The additional information of that head. -/
def argumentInfo (n : Nat) : Nat :=
  if n < 24 then n else if n < 2 ^ 8 then 24 else if n < 2 ^ 16 then 25
  else if n < 2 ^ 32 then 26 else 27

/-- The preferred head of a major type and an argument. -/
def preferredHead (major n : Nat) : List UInt8 :=
  UInt8.ofNat (32 * major + argumentInfo n) :: toBigEndian (argumentWidth n) n

@[simp] theorem preferredHead_length (major n : Nat) :
    (preferredHead major n).length = argumentWidth n + 1 := by
  rw [preferredHead, List.length_cons, toBigEndian_length]

theorem argumentInfo_lt (n : Nat) : argumentInfo n < 28 := by
  simp only [argumentInfo]
  split_ifs <;> omega

/-- An argument of 24 or more is in the bytes after the initial one. -/
theorem argument_follows {n : Nat} (hn : 24 ≤ n) (hmax : n < 2 ^ 64) :
    24 ≤ argumentInfo n ∧ argumentWidth n = 2 ^ (argumentInfo n - 24) ∧
      n < 256 ^ argumentWidth n := by
  simp only [argumentInfo, argumentWidth]
  split_ifs <;> omega

/-- **What is read from the preferred head is its argument.** -/
theorem readHead_preferredHead {major n : Nat} (hmajor : major < 8) (hmax : n < 2 ^ 64)
    (rest : List UInt8) :
    readHead (preferredHead major n ++ rest) = some (⟨major, argumentInfo n, some n⟩, rest) := by
  have hlt := argumentInfo_lt n
  have hinitial : (UInt8.ofNat (32 * major + argumentInfo n)).toNat =
      32 * major + argumentInfo n := by
    rw [UInt8.toNat_ofNat']
    omega
  have hdiv : (32 * major + argumentInfo n) / 32 = major := by omega
  have hmod : (32 * major + argumentInfo n) % 32 = argumentInfo n := by omega
  simp only [preferredHead, List.cons_append, readHead, hinitial, hdiv, hmod]
  by_cases hn : n < 24
  · have hinfo : argumentInfo n = n := if_pos hn
    have hwidth : argumentWidth n = 0 := if_pos hn
    rw [hinfo, if_pos hn, hwidth]
    rfl
  · obtain ⟨hinfo, hwidth, hfits⟩ := argument_follows (Nat.le_of_not_lt hn) hmax
    have hlength : (toBigEndian (argumentWidth n) n).length = 2 ^ (argumentInfo n - 24) := by
      rw [toBigEndian_length, hwidth]
    rw [if_neg (by omega), if_pos hlt, if_neg (by rw [List.length_append]; omega),
      List.take_left' hlength, List.drop_left' hlength, ofBigEndian_toBigEndian,
      Nat.mod_eq_of_lt hfits]

/-- An argument that fits into so many bytes, which a head can have, needs no more. -/
theorem argumentWidth_le {n k : Nat} (hk : k < 4) (hn : n < 256 ^ 2 ^ k) :
    argumentWidth n ≤ 2 ^ k := by
  simp only [argumentWidth]
  obtain rfl | rfl | rfl | rfl : k = 0 ∨ k = 1 ∨ k = 2 ∨ k = 3 := by omega
  all_goals split_ifs <;> omega

/-- **No head with that argument is shorter.** -/
theorem preferredHead_le {bytes rest : List UInt8} {major info n : Nat}
    (h : readHead bytes = some (⟨major, info, some n⟩, rest)) :
    (preferredHead major n).length + rest.length ≤ bytes.length := by
  rw [preferredHead_length]
  rcases bytes with _ | ⟨initial, tail⟩
  · cases h
  · simp only [readHead] at h
    split_ifs at h with hshort hlong hmissing
    · cases h
      have hwidth : argumentWidth (initial.toNat % 32) = 0 := if_pos hshort
      rw [hwidth, List.length_cons]
      omega
    · cases h
      have hbound := ofBigEndian_lt (tail.take (2 ^ (initial.toNat % 32 - 24)))
      rw [List.length_take_of_le (Nat.le_of_not_lt hmissing)] at hbound
      have hwidth := argumentWidth_le (by omega) hbound
      rw [List.length_drop, List.length_cons]
      omega
    · cases h

/-! ## Reading items -/

theorem readItem_unsigned {bytes rest : List UInt8} {info n : Nat} (depth : Nat)
    (h : readHead bytes = some (⟨0, info, some n⟩, rest)) :
    readItem (depth + 1) bytes = some (.unsigned n, rest) := by
  rw [readItem, h]
  rfl

theorem readItem_simple {bytes rest : List UInt8} {info n : Nat} (depth : Nat)
    (h : readHead bytes = some (⟨7, info, some n⟩, rest)) (hinfo : info < 24) :
    readItem (depth + 1) bytes = some (.simple n, rest) := by
  rw [readItem, h]
  simp [simpleOrFloat, hinfo]

theorem readItem_array {bytes middle rest : List UInt8} {info n depth : Nat} {items : List Item}
    (h : readHead bytes = some (⟨4, info, some n⟩, middle))
    (hitems : readMany (readItem depth) n middle = some (items, rest)) :
    readItem (depth + 1) bytes = some (.array items, rest) := by
  rw [readItem, h]
  simp [readCounted, hitems]

theorem readMany_cons {read : List UInt8 → Option (α × List UInt8)} {n : Nat} {a : α}
    {more : List α} {bytes middle rest : List UInt8} (hfirst : read bytes = some (a, middle))
    (hmore : readMany read n middle = some (more, rest)) :
    readMany read (n + 1) bytes = some (a :: more, rest) := by
  simp [readMany, hfirst, hmore]

theorem simpleOrFloat_ne_unsigned (info argument n : Nat) :
    simpleOrFloat info argument ≠ some (.unsigned n) := by
  rw [simpleOrFloat]
  split_ifs <;> simp

/-- A number is read from its head alone. -/
theorem readHead_of_unsigned {depth n : Nat} {bytes rest : List UInt8}
    (h : readItem depth bytes = some (.unsigned n, rest)) :
    ∃ info, readHead bytes = some (⟨0, info, some n⟩, rest) := by
  cases depth with
  | zero => cases h
  | succ depth =>
    rw [readItem, Option.bind_eq_bind, Option.bind_eq_some_iff] at h
    obtain ⟨⟨⟨major, info, argument⟩, tail⟩, hhead, hitem⟩ := h
    dsimp only at hitem
    split at hitem
    · cases hitem
      exact ⟨info, hhead⟩
    -- every other major type gives another kind of item
    all_goals simp [Option.bind_eq_some_iff, simpleOrFloat_ne_unsigned] at hitem

/-- `bytes` is a shortest encoding of a number. -/
structure Shortest (n : Nat) (bytes : List UInt8) : Prop where
  encodes : decode bytes = some (.unsigned n, [])
  least : ∀ other, decode other = some (.unsigned n, []) → bytes.length ≤ other.length

/-- **The preferred head of a number is a shortest encoding of it.** -/
theorem shortest_preferredHead {n : Nat} (hmax : n < 2 ^ 64) : Shortest n (preferredHead 0 n) := by
  have hhead := readHead_preferredHead (Nat.succ_pos 7) hmax []
  rw [List.append_nil] at hhead
  refine ⟨?_, fun other hother => ?_⟩
  · rw [decode, preferredHead_length]
    exact readItem_unsigned _ hhead
  · obtain ⟨info, hread⟩ := readHead_of_unsigned hother
    exact preferredHead_le hread

end ConformanceHarness.Lib.Cbor

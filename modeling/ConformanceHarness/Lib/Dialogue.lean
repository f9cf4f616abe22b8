import ConformanceHarness.Lib.Asking
import ConformanceHarness.Lib.Duplex

/-!
# One question after the other

A party that has some questions to ask, and asks each once it could read the answer to the one
before. When all of them are answered, it has a last word. The other party has an answer to the
first of them, and to the next, as far as it goes; from there on it is silent.

They come to the first question that is not answered, or whose answer cannot be read, or to the
last word.
-/

namespace ConformanceHarness.Lib.Dialogue

open ConformanceHarness.Lib.Asking (Answer)
open ConformanceHarness.Lib.Duplex

variable {α β γ ε : Type}

/-! ## Reading -/

/-- What is read of some answers, up to the first that cannot be. -/
def reading (reads : β → Except ε γ) : List β → List γ × Option ε
  | [] => ([], none)
  | m :: heard =>
    match reads m with
    | .error e => ([], some e)
    | .ok a => (a :: (reading reads heard).1, (reading reads heard).2)

section

variable {reads : β → Except ε γ} {m : β} {a : γ} {e : ε} {heard more : List β}

theorem reading_error (h : reads m = .error e) : reading reads (m :: heard) = ([], some e) := by
  rw [reading, h]

theorem reading_ok (h : reads m = .ok a) : reading reads (m :: heard) =
    (a :: (reading reads heard).1, (reading reads heard).2) := by
  rw [reading, h]

/-- What is read of the first answers is read first. -/
theorem reading_take (k : Nat) :
    (reading reads (heard.take k)).1 = (reading reads heard).1.take k := by
  induction heard generalizing k with
  | nil => rw [List.take_nil, reading, List.take_nil]
  | cons m heard ih =>
    cases k with
    | zero => rw [List.take_zero, List.take_zero, reading]
    | succ k =>
      rw [List.take_succ_cons]
      cases h : reads m with
      | error e => rw [reading_error h, reading_error h, List.take_nil]
      | ok a => rw [reading_ok h, reading_ok h, List.take_succ_cons, ih]

theorem length_reading_le : (reading reads heard).1.length ≤ heard.length := by
  induction heard with
  | nil => exact Nat.le_refl 0
  | cons m heard ih =>
    cases h : reads m with
    | error e => rw [reading_error h]; exact Nat.zero_le _
    | ok a => rw [reading_ok h]; exact Nat.succ_le_succ ih

theorem reading_mono (h : heard <+: more) : (reading reads heard).1 <+: (reading reads more).1 := by
  rw [List.prefix_iff_eq_take.mp h, reading_take]
  exact List.take_prefix _ _

/-- With as much as there is to read, and the answer after it, everything is known. -/
theorem reading_take_of_lt {k : Nat} (h : (reading reads heard).1.length < k) :
    reading reads (heard.take k) = reading reads heard := by
  induction heard generalizing k with
  | nil => rw [List.take_nil]
  | cons m heard ih =>
    cases k with
    | zero => exact absurd h (Nat.not_lt_zero _)
    | succ k =>
      rw [List.take_succ_cons]
      cases hread : reads m with
      | error e => rw [reading_error hread, reading_error hread]
      | ok a =>
        rw [reading_ok hread, List.length_cons] at h
        rw [reading_ok hread, reading_ok hread, ih (Nat.lt_of_succ_lt_succ h)]

end

/-! ## What is said -/

section

variable (reads : β → Except ε γ) (questions : List α) (last : α) (answers : List β)

/-- How many of the answers are read. -/
def progress : Nat := min questions.length (reading reads answers).1.length

/-- What is said in the end. -/
def conversation : State α β where
  toRight := (questions ++ [last]).take (progress reads questions answers + 1)
  toLeft := answers.take (min (progress reads questions answers + 1) questions.length)

/-- A party that asks the questions. -/
def Inquires (left : Party β α) : Prop :=
  ∀ heard, left.tells heard = (questions ++ [last]).take (progress reads questions heard + 1)

/-- A party that has these answers, and falls silent where it has none. -/
structure Answers (right : Party α β) : Prop where
  answered : ∀ k, k ≤ questions.length → k ≤ answers.length + 1 →
    right.tells (questions.take k) = answers.take k
  atLast : questions.length ≤ answers.length →
    right.tells (questions ++ [last]) = answers.take questions.length

end

theorem progress_le_questions (reads : β → Except ε γ) (questions : List α) (answers : List β) :
    progress reads questions answers ≤ questions.length := Nat.min_le_left _ _

theorem progress_le_answers (reads : β → Except ε γ) (questions : List α) (answers : List β) :
    progress reads questions answers ≤ answers.length :=
  Nat.le_trans (Nat.min_le_right _ _) length_reading_le

section

variable {reads : β → Except ε γ} {questions : List α} {last : α} {answers : List β}
  {left : Party β α} {right : Party α β}

/-- With more answers, no fewer of them are read. -/
theorem progress_mono {more : List β} (h : answers <+: more) :
    progress reads questions answers ≤ progress reads questions more := by
  have hle := (@reading_mono _ _ _ reads _ _ h).length_le
  rw [progress, progress]
  omega

theorem progress_take (k : Nat) :
    progress reads questions (answers.take k) = min k (progress reads questions answers) := by
  rw [progress, progress, reading_take, List.length_take]
  omega

/-- What is heard in the end is read as all the answers are. -/
theorem reading_conversation :
    (reading reads (conversation reads questions last answers).toLeft).1.take questions.length =
      (reading reads answers).1.take questions.length := by
  rw [conversation, reading_take, List.take_take, progress]
  by_cases hall : questions.length ≤ (reading reads answers).1.length
  · rw [Nat.min_eq_left hall, Nat.min_eq_right (Nat.le_succ _), Nat.min_self]
  · rw [List.take_of_length_le (by omega), List.take_of_length_le (by omega)]

/-- And so is what cannot be read, if it comes to that. -/
theorem reading_conversation_of_lt (h : (reading reads answers).1.length < questions.length) :
    reading reads (conversation reads questions last answers).toLeft = reading reads answers :=
  reading_take_of_lt (by rw [progress]; omega)

/-- What the other party says to the first part of the conversation. -/
theorem Answers.tells (hright : Answers questions last answers right) {k : Nat}
    (hk : k ≤ progress reads questions answers + 1) :
    right.tells ((questions ++ [last]).take k) = answers.take (min k questions.length) := by
  have hle := progress_le_answers reads questions answers
  have hle' := progress_le_questions reads questions answers
  by_cases hin : k ≤ questions.length
  · rw [List.take_append_of_le_length hin, Nat.min_eq_left hin]
    exact hright.answered k hin (Nat.le_trans hk (Nat.succ_le_succ hle))
  · -- the last word comes after all questions have been answered
    have hall : questions.length ≤ answers.length := by omega
    rw [Nat.min_eq_right (Nat.le_of_not_le hin), List.take_of_length_le
      (by rw [List.length_append, List.length_singleton]; omega)]
    exact hright.atLast hall

/-- What is heard in the end is what has been said. -/
theorem Answers.tells_conversation (hright : Answers questions last answers right) :
    right.tells (conversation reads questions last answers).toRight =
      (conversation reads questions last answers).toLeft := hright.tells (Nat.le_refl _)

/-- **They come to the first question that is not answered, or to the last word.** -/
theorem comesTo (hleft : Inquires reads questions last left)
    (hright : Answers questions last answers right) :
    ComesTo left right (conversation reads questions last answers) := by
  let p := progress reads questions answers
  have hp : p ≤ questions.length := progress_le_questions reads questions answers
  have hagenda : (conversation reads questions last answers).toRight.length = p + 1 := by
    rw [conversation, List.length_take, List.length_append, List.length_singleton]
    omega
  have hstate : conversation reads questions last answers =
      ⟨(conversation reads questions last answers).toRight,
        right.tells (conversation reads questions last answers).toRight⟩ := by
    rw [hright.tells_conversation]
  rw [hstate]
  refine comesTo_of_turns fun heard hbegins => ?_
  have hlen : heard.length ≤ p + 1 := hagenda ▸ hbegins.length_le
  have hheard : heard = (questions ++ [last]).take heard.length := by
    rw [conversation] at hbegins
    have htake := List.prefix_iff_eq_take.mp hbegins
    rwa [List.take_take, Nat.min_eq_left hlen] at htake
  rw [hheard, hright.tells hlen, hleft, progress_take, ← hheard, conversation, List.take_take]
  congr 1
  omega

end

/-! ## Answering turn by turn -/

/-- How many questions there are before the last word. -/
def asked [DecidableEq α] (last : α) (heard : List α) : Nat :=
  (heard.takeWhile fun m => decide (m ≠ last)).length

section

variable {σ : Type} (turn : σ → Answer β × σ)

/-- What comes of so many questions, if a state determines what comes of one and the next state. -/
def responses : σ → Nat → List β
  | _, 0 => []
  | s, n + 1 =>
    match (turn s).1 with
    | .sends m => m :: responses (turn s).2 n
    | .silent => responses (turn s).2 n
    | .ends => []

/-- What comes of them before the first that is not answered. -/
def leading : σ → Nat → List β
  | _, 0 => []
  | s, n + 1 =>
    match (turn s).1 with
    | .sends m => m :: leading (turn s).2 n
    | _ => []

variable {turn} {s : σ} {n k : Nat}

@[simp] theorem responses_zero : responses turn s 0 = [] := rfl

theorem responses_mono (hle : k ≤ n) : responses turn s k <+: responses turn s n := by
  induction n generalizing s k with
  | zero =>
    obtain rfl := Nat.le_zero.mp hle
    exact List.prefix_rfl
  | succ n ih =>
    cases k with
    | zero => exact List.nil_prefix
    | succ k =>
      have hmore := @ih (turn s).2 k (Nat.le_of_succ_le_succ hle)
      rw [responses, responses]
      cases (turn s).1 with
      | sends m => exact (List.prefix_cons_inj m).mpr hmore
      | silent => exact hmore
      | ends => exact List.prefix_rfl

theorem length_leading_le : (leading turn s n).length ≤ n := by
  induction n generalizing s with
  | zero => exact Nat.le_refl 0
  | succ n ih =>
    rw [leading]
    cases (turn s).1 with
    | sends m => exact Nat.succ_le_succ ih
    | silent => exact Nat.zero_le _
    | ends => exact Nat.zero_le _

/-- Up to the first question that is not answered, there is a response to each. -/
theorem responses_leading (hn : k ≤ n) (hk : k ≤ (leading turn s n).length + 1) :
    responses turn s k = (leading turn s n).take k := by
  induction k generalizing s n with
  | zero => rw [List.take_zero]; rfl
  | succ k ih =>
    obtain ⟨n, rfl⟩ :=
      Nat.exists_eq_succ_of_ne_zero (Nat.ne_of_gt (Nat.lt_of_lt_of_le k.succ_pos hn))
    rw [leading] at hk
    rw [responses, leading]
    cases h : (turn s).1 with
    | sends m =>
      rw [h] at hk
      exact congrArg (m :: ·) (ih (Nat.le_of_succ_le_succ hn) (Nat.le_of_succ_le_succ hk))
    | silent =>
      rw [h] at hk
      rw [Nat.le_zero.mp (Nat.le_of_succ_le_succ hk), List.take_nil]
      rfl
    | ends => rw [List.take_nil]

end

section

variable [DecidableEq α] {questions : List α} {last : α} {heard more : List α}

theorem asked_mono (h : heard <+: more) : asked last heard ≤ asked last more := by
  obtain ⟨rest, rfl⟩ := h
  induction heard with
  | nil => exact Nat.zero_le _
  | cons m heard ih =>
    rw [List.cons_append, asked, asked]
    by_cases hm : m = last
    · rw [List.takeWhile_cons_of_neg (by simpa using hm)]
      exact Nat.zero_le _
    · rw [List.takeWhile_cons_of_pos (by simpa using hm), List.takeWhile_cons_of_pos
        (by simpa using hm)]
      exact Nat.succ_le_succ ih

theorem asked_append (h : last ∉ heard) : asked last (heard ++ more) =
    heard.length + asked last more := by
  rw [asked, List.takeWhile_append_of_pos fun m hm => by simpa using ne_of_mem_of_not_mem hm h,
    List.length_append]
  rfl

/-- Before the last word, all that is said is asked. -/
theorem asked_of_not_mem (h : last ∉ heard) : asked last heard = heard.length := by
  have happend := @asked_append α _ last heard [] h
  rwa [List.append_nil] at happend

/-- **A party that answers turn by turn has the answers that come before it falls silent.** -/
theorem answers_of_turns {σ : Type} {turn : σ → Answer β × σ} {s : σ} {right : Party α β}
    (hlast : last ∉ questions)
    (hright : ∀ heard, right.tells heard = responses turn s (asked last heard)) :
    Answers questions last (leading turn s questions.length) right where
  answered := by
    intro k hk hle
    rw [hright, asked_of_not_mem fun h => hlast (List.mem_of_mem_take h), List.length_take,
      Nat.min_eq_left hk]
    exact responses_leading hk hle
  atLast := by
    intro hle
    have hnone : asked last [last] = 0 := by
      rw [asked, List.takeWhile_cons_of_neg (by simp)]
      rfl
    rw [hright, asked_append hlast, hnone, Nat.add_zero]
    exact responses_leading (Nat.le_refl _) (Nat.le_succ_of_le hle)

end

end ConformanceHarness.Lib.Dialogue

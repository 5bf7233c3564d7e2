/- The cut of a sequence after each end mark. What follows the last mark is a piece too, unless it
   is empty. -/
namespace LineCalculator.Text
variable {α : Type}

def joinPiece (isEnd : α → Bool) (x : α) (pieces : List (List α)) : List (List α) :=
  if isEnd x then [x] :: pieces
  else
    match pieces with
    | [] => [[x]]
    | piece :: rest => (x :: piece) :: rest

def cutAfter (isEnd : α → Bool) (xs : List α) : List (List α) := xs.foldr (joinPiece isEnd) []

def isComplete (isEnd : α → Bool) (piece : List α) : Bool := piece.getLast?.any isEnd

@[simp] theorem cutAfter_nil (isEnd : α → Bool) : cutAfter isEnd ([] : List α) = [] := rfl

@[simp] theorem cutAfter_cons (isEnd : α → Bool) (x : α) (xs : List α) :
    cutAfter isEnd (x :: xs) = joinPiece isEnd x (cutAfter isEnd xs) := rfl

theorem cutAfter_flatten (isEnd : α → Bool) (xs : List α) : (cutAfter isEnd xs).flatten = xs := by
  induction xs with
  | nil => rfl
  | cons x xs ih =>
    rw [cutAfter_cons]
    unfold joinPiece
    split
    · simp [ih]
    · split
      · next h => rw [h] at ih; simp [← ih]
      · next h => rw [h] at ih; simp [← ih]

theorem cutAfter_of_clear {isEnd : α → Bool} {xs : List α} (some : xs ≠ [])
    (clear : ∀ x ∈ xs, isEnd x = false) : cutAfter isEnd xs = [xs] := by
  induction xs with
  | nil => contradiction
  | cons x xs ih =>
    have mid : isEnd x = false := clear x (by simp)
    cases xs with
    | nil => simp [joinPiece, mid]
    | cons y ys =>
      rw [cutAfter_cons, ih (by simp) fun z mem => clear z (by simp [mem])]
      simp [joinPiece, mid]

theorem cutAfter_append_end {isEnd : α → Bool} {xs : List α} (clear : ∀ x ∈ xs, isEnd x = false)
    {e : α} (mark : isEnd e = true) (rest : List α) :
    cutAfter isEnd (xs ++ e :: rest) = (xs ++ [e]) :: cutAfter isEnd rest := by
  induction xs with
  | nil => simp [joinPiece, mark]
  | cons x xs ih =>
    have mid : isEnd x = false := clear x (by simp)
    rw [List.cons_append, cutAfter_cons, ih fun z mem => clear z (by simp [mem])]
    simp [joinPiece, mid]

theorem isComplete_append_end {isEnd : α → Bool} (xs : List α) {e : α} (mark : isEnd e = true) :
    isComplete isEnd (xs ++ [e]) = true := by
  simp [isComplete, mark]

theorem isComplete_of_clear {isEnd : α → Bool} {xs : List α} (clear : ∀ x ∈ xs, isEnd x = false) :
    isComplete isEnd xs = false := by
  unfold isComplete
  cases last : xs.getLast? with
  | none => rfl
  | some x => exact clear x (List.mem_of_getLast? last)

/-- Induction piece by piece: a sequence is empty, or has no end mark, or is a piece with its end mark in
    front of another. -/
theorem cut_induction (isEnd : α → Bool) {motive : List α → Prop} (nil : motive [])
    (rest : ∀ xs, xs ≠ [] → (∀ x ∈ xs, isEnd x = false) → motive xs)
    (piece : ∀ xs e others, (∀ x ∈ xs, isEnd x = false) → isEnd e = true → motive others →
      motive (xs ++ e :: others)) (xs : List α) : motive xs := by
  -- the front is what has been passed of the current piece
  have general : ∀ front : List α, (∀ x ∈ front, isEnd x = false) → motive (front ++ xs) := by
    induction xs with
    | nil =>
      intro front clear
      rw [List.append_nil]
      by_cases none : front = []
      · exact none ▸ nil
      · exact rest front none clear
    | cons x xs ih =>
      intro front clear
      cases mark : isEnd x with
      | true => exact piece front x xs clear mark (ih [] (by simp))
      | false =>
        have longer := ih (front ++ [x]) (by
          intro y mem
          rcases List.mem_append.mp mem with old | new
          · exact clear y old
          · rwa [List.mem_singleton.mp new])
        simpa using longer
  exact general [] (by simp)

end LineCalculator.Text

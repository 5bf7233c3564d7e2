import LineCalculator.Console.Input

/- What a console writes for an input, piece by piece. An input is cut into pieces of which the last one only
   may be incomplete, and so is what is left of it when whole pieces are taken out. -/
namespace LineCalculator.Console
variable {ω : Type} [Output ω]

/-- What a console writes for an input: for each piece that it hears, and at the end. -/
structure Minutes where
  answers : List (List UInt8 × List UInt8)
  closing : List UInt8

def Minutes.written (minutes : Minutes) : List UInt8 := minutes.answers.flatMap Prod.snd ++ minutes.closing

def minutes (ending : Ending) (console : Console ω) : List (List UInt8) → Minutes
  | [] =>
    match ending with
    | .closed => ⟨[], (console.print goodbye.toList).written⟩
    | .broken => ⟨[], []⟩
  | piece :: rest =>
    if ending = .broken ∧ Text.isComplete isNewline piece = false then ⟨[], []⟩
    else
      let first := console.hear (lineText piece)
      match first.result with
      | .ok .more =>
        let later := first.console.minutes ending rest
        { later with answers := (piece, first.written) :: later.answers }
      | _ => ⟨[(piece, first.written)], []⟩

section
variable {ending : Ending} {console : Console ω} {piece : List UInt8} {rest : List (List UInt8)}
  (heard : ¬(ending = .broken ∧ Text.isComplete isNewline piece = false))
include heard

theorem minutes_of_more (more : (console.hear (lineText piece)).result = .ok .more) :
    console.minutes ending (piece :: rest) =
      let later := (console.hear (lineText piece)).console.minutes ending rest
      { later with answers := (piece, (console.hear (lineText piece)).written) :: later.answers } := by
  simp only [minutes, if_neg heard, more]

theorem minutes_of_stop (stop : (console.hear (lineText piece)).result ≠ .ok .more) :
    console.minutes ending (piece :: rest) = ⟨[(piece, (console.hear (lineText piece)).written)], []⟩ := by
  simp only [minutes, if_neg heard]

end

theorem minutes_of_skipped {ending : Ending} {piece : List UInt8} (console : Console ω)
    (rest : List (List UInt8)) (skipped : ending = .broken ∧ Text.isComplete isNewline piece = false) :
    console.minutes ending (piece :: rest) = ⟨[], []⟩ := by
  rw [minutes, if_pos skipped]

theorem readPieces_written (ending : Ending) (console : Console ω) (pieces : List (List UInt8)) :
    (console.readPieces ending pieces).1.written = (console.minutes ending pieces).written := by
  induction console, pieces using run_induction (ω := ω) ending with
  | nil console => cases ending <;> rfl
  | skipped console piece rest skipped =>
    rw [readPieces_of_skipped console rest skipped, minutes_of_skipped console rest skipped]
    rfl
  | more console piece rest heard more ih =>
    rw [readPieces_of_more heard more, minutes_of_more heard more]
    simp only [ih, Minutes.written, List.flatMap_cons, List.append_assoc]
  | stop console piece rest heard stop =>
    rw [readPieces_of_stop heard stop, minutes_of_stop heard stop]
    simp [Minutes.written, Effect.map]

theorem cutAfter_filter (p : List UInt8 → Bool) (bytes : List UInt8) :
    Text.cutAfter isNewline ((Text.cutAfter isNewline bytes).filter p).flatten =
      (Text.cutAfter isNewline bytes).filter p := by
  induction bytes using Text.cut_induction isNewline with
  | nil => rfl
  | rest bytes some clear =>
    rw [Text.cutAfter_of_clear some clear]
    cases kept : p bytes with
    | true => simpa [kept] using Text.cutAfter_of_clear some clear
    | false => simp [kept]
  | piece bytes newline others clear mark ih =>
    rw [Text.cutAfter_append_end clear mark]
    cases kept : p (bytes ++ [newline]) with
    | true =>
      rw [List.filter_cons_of_pos kept, List.flatten_cons, List.append_assoc, List.singleton_append,
        Text.cutAfter_append_end clear mark, ih]
    | false =>
      rw [List.filter_cons_of_neg (by simp [kept]), ih]

end LineCalculator.Console

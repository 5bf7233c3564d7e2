import Mathlib.Data.List.Induction
import LineCalculator.Proofs.Console.Hearing

/- The same steps over an output that takes all bytes and over one that takes so many. While the bytes
   fit, nothing tells the two apart; the step whose bytes do not fit is cut short there and fails, and
   nothing is written after it. -/
namespace LineCalculator

def Console.withRoom (console : Console Room) (room : Room) : Console Room :=
  { console with output := room }

theorem Console.withRoom_of_output {console : Console Room} {room : Room}
    (same : console.output = room) : console.withRoom room = console := by
  rw [withRoom, ← same]

namespace Effect
variable {α β : Type}

structure Free (effect : Effect Room α) : Prop where
  output : effect.console.output = none
  written : effect.result ≠ .error (.io Room.writeFailed)

/-- The effect over an output that takes all bytes, and the one over an output that takes so many. -/
inductive Limits (limit : Nat) (free tight : Effect Room α) : Prop where
  | fits (whole : free.written.length ≤ limit)
      (same : tight = { free with
        console := free.console.withRoom (some (limit - free.written.length)) })
  | full (exceeds : limit < free.written.length) (part : tight.written = free.written.take limit)
      (filled : tight.console.output = some 0) (failed : tight.result = .error (.io Room.writeFailed))

variable {limit : Nat} {free tight : Effect Room α}

theorem Free.map (f : α → β) (h : free.Free) : (free.map f).Free := by
  refine ⟨h.output, ?_⟩
  intro failed
  exact h.written (Except.map_eq_error_iff.mp failed)

theorem Limits.map (f : α → β) (h : Limits limit free tight) :
    Limits limit (free.map f) (tight.map f) := by
  cases h with
  | fits whole same => exact .fits whole (by rw [same]; rfl)
  | full exceeds part filled failed => exact .full exceeds part filled (Except.map_eq_error_iff.mpr failed)

theorem Limits.prepend {bytes : List UInt8} (room : bytes.length ≤ limit)
    (h : Limits (limit - bytes.length) free tight) :
    Limits limit { free with written := bytes ++ free.written }
      { tight with written := bytes ++ tight.written } := by
  cases h with
  | fits whole same =>
    refine .fits ?_ ?_
    · rw [List.length_append]
      omega
    · rw [same, List.length_append, Nat.sub_sub]
  | full exceeds part filled failed =>
    refine .full ?_ ?_ filled failed
    · rw [List.length_append]
      omega
    · rw [part, List.take_append, List.take_of_length_le room]

end Effect

namespace Console
variable (console : Console Room) (limit : Nat)

theorem print_free (text : List Char) : ((console.withRoom none).print text).Free :=
  ⟨rfl, by simp [print, write, withRoom, Output.put, Room.put]⟩

theorem print_limits (text : List Char) :
    Effect.Limits limit ((console.withRoom none).print text)
      ((console.withRoom (some limit)).print text) := by
  by_cases fits : (Utf8.encode (text ++ ['\n'])).length ≤ limit
  · refine .fits fits ?_
    simp [print, write, withRoom, Output.put, Room.put, fits]
  · refine .full (Nat.lt_of_not_le fits) ?_ ?_ ?_
    all_goals simp [print, write, withRoom, Output.put, Room.put, fits]

theorem speech_withRoom (room : Room) (line : List Char) :
    (console.withRoom room).speech line = console.speech line := rfl

theorem hear_free (line : List Char) : ((console.withRoom none).hear line).Free := by
  cases said : (console.withRoom none).speech line with
  | none =>
    rw [hear_of_speech_none said]
    exact ⟨rfl, by simp⟩
  | some text =>
    rw [hear_of_speech_some said]
    exact (print_free { console with vars := console.vars.heard line } text).map _

theorem hear_limits (line : List Char) :
    Effect.Limits limit ((console.withRoom none).hear line)
      ((console.withRoom (some limit)).hear line) := by
  have alike := speech_withRoom console
  cases said : console.speech line with
  | none =>
    rw [hear_of_speech_none ((alike none line).trans said),
      hear_of_speech_none ((alike (some limit) line).trans said)]
    exact .fits (Nat.zero_le limit) rfl
  | some text =>
    rw [hear_of_speech_some ((alike none line).trans said),
      hear_of_speech_some ((alike (some limit) line).trans said)]
    exact (print_limits { console with vars := console.vars.heard line } limit text).map _

theorem readPieces_free (ending : Ending) (pieces : List (List UInt8)) :
    (readPieces ending (console.withRoom none) pieces).1.Free := by
  induction pieces generalizing console with
  | nil =>
    cases ending with
    | closed => exact console.print_free goodbye.toList
    | broken => exact ⟨rfl, by simp [readPieces, readFailed, Room.writeFailed]⟩
  | cons piece rest ih =>
    have first := console.hear_free (lineText piece)
    by_cases skipped : ending = .broken ∧ Text.isComplete isNewline piece = false
    · rw [readPieces_of_skipped (console.withRoom none) rest skipped]
      exact ⟨rfl, by simp [readFailed, Room.writeFailed]⟩
    · by_cases more : ((console.withRoom none).hear (lineText piece)).result = .ok .more
      · have later := ih ((console.withRoom none).hear (lineText piece)).console
        rw [withRoom_of_output first.output] at later
        rw [readPieces_of_more skipped more]
        exact ⟨later.output, later.written⟩
      · rw [readPieces_of_stop skipped more]
        exact first.map _

theorem readPieces_full {ending : Ending} {piece : List UInt8} (rest : List (List UInt8))
    (heard : ¬(ending = .broken ∧ Text.isComplete isNewline piece = false))
    (exceeds : limit < ((console.withRoom none).hear (lineText piece)).written.length)
    (part : ((console.withRoom (some limit)).hear (lineText piece)).written =
      ((console.withRoom none).hear (lineText piece)).written.take limit)
    (filled : ((console.withRoom (some limit)).hear (lineText piece)).console.output = some 0)
    (failed : ((console.withRoom (some limit)).hear (lineText piece)).result =
      .error (.io Room.writeFailed)) :
    limit < (readPieces ending (console.withRoom none) (piece :: rest)).1.written.length ∧
      (readPieces ending (console.withRoom none) (piece :: rest)).1.Limits limit
        (readPieces ending (console.withRoom (some limit)) (piece :: rest)).1 := by
  have stop : ((console.withRoom (some limit)).hear (lineText piece)).result ≠ .ok .more := by
    rw [failed]
    simp
  have ends : (((console.withRoom (some limit)).hear (lineText piece)).map
      fun _ => ()).result = .error (.io Room.writeFailed) := Except.map_eq_error_iff.mpr failed
  rw [readPieces_of_stop heard stop]
  by_cases more : ((console.withRoom none).hear (lineText piece)).result = .ok .more
  · -- without a limit the console may go on, but this line already goes past the limit
    rw [readPieces_of_more heard more]
    have longer : ∀ later : List UInt8,
        limit < (((console.withRoom none).hear (lineText piece)).written ++ later).length := by
      intro later
      rw [List.length_append]
      omega
    refine ⟨longer _, .full (longer _) ?_ filled ends⟩
    rw [List.take_append_of_le_length (Nat.le_of_lt exceeds)]
    exact part
  · rw [readPieces_of_stop heard more]
    exact ⟨exceeds, .full exceeds part filled ends⟩

theorem readPieces_limits (ending : Ending) (pieces : List (List UInt8)) :
    (readPieces ending (console.withRoom none) pieces).1.Limits limit
        (readPieces ending (console.withRoom (some limit)) pieces).1 ∧
      ((readPieces ending (console.withRoom none) pieces).1.written.length ≤ limit →
        (readPieces ending (console.withRoom (some limit)) pieces).2 =
          (readPieces ending (console.withRoom none) pieces).2) := by
  induction pieces generalizing console limit with
  | nil =>
    cases ending with
    | closed => exact ⟨console.print_limits limit goodbye.toList, fun _ => rfl⟩
    | broken => exact ⟨.fits (Nat.zero_le limit) rfl, fun _ => rfl⟩
  | cons piece rest ih =>
    by_cases skipped : ending = .broken ∧ Text.isComplete isNewline piece = false
    · rw [readPieces_of_skipped (console.withRoom none) rest skipped,
        readPieces_of_skipped (console.withRoom (some limit)) rest skipped]
      exact ⟨.fits (Nat.zero_le limit) rfl, fun _ => rfl⟩
    · have first := console.hear_free (lineText piece)
      cases console.hear_limits limit (lineText piece) with
      | fits whole same =>
        by_cases more : ((console.withRoom none).hear (lineText piece)).result = .ok .more
        · have ⟨later, left⟩ := ih ((console.withRoom none).hear (lineText piece)).console
            (limit - ((console.withRoom none).hear (lineText piece)).written.length)
          rw [withRoom_of_output first.output] at later left
          rw [readPieces_of_more skipped more, readPieces_of_more skipped (by rw [same]; exact more), same]
          refine ⟨later.prepend whole, ?_⟩
          intro all
          rw [List.length_append] at all
          exact left (by omega)
        · rw [readPieces_of_stop skipped more, readPieces_of_stop skipped (by rw [same]; exact more)]
          exact ⟨(Effect.Limits.fits whole same).map _, fun _ => rfl⟩
      | full exceeds part filled failed =>
        obtain ⟨longer, limits⟩ := console.readPieces_full limit rest skipped exceeds part filled failed
        exact ⟨limits, fun all => absurd all (Nat.not_le_of_lt longer)⟩

theorem perform_free (step : Step) : ((console.withRoom none).perform step).effect.Free := by
  cases step with
  | line text => exact (console.hear_free text).map some
  | input bytes ending => exact (console.readPieces_free ending _).map _

theorem perform_limits (step : Step) :
    ((console.withRoom none).perform step).effect.Limits limit
        ((console.withRoom (some limit)).perform step).effect ∧
      (((console.withRoom none).perform step).effect.written.length ≤ limit →
        ((console.withRoom (some limit)).perform step).unread =
          ((console.withRoom none).perform step).unread) := by
  cases step with
  | line text => exact ⟨(console.hear_limits limit text).map some, fun _ => rfl⟩
  | input bytes ending =>
    obtain ⟨effects, left⟩ := console.readPieces_limits limit ending (Text.cutAfter isNewline bytes)
    exact ⟨effects.map _, fun whole => congrArg some (left whole)⟩

def performedAll (console : Console Room) (steps : List Step) : Console Room :=
  steps.foldl (fun console step => (console.perform step).effect.console) console

def writtenAll (console : Console Room) (steps : List Step) : List UInt8 :=
  (console.performAll steps).flatMap fun answer => answer.effect.written

theorem performAll_append (console : Console Room) (before later : List Step) :
    console.performAll (before ++ later) =
      console.performAll before ++ (console.performedAll before).performAll later := by
  induction before generalizing console with
  | nil => rfl
  | cons step rest ih =>
    simp only [List.cons_append, performAll]
    rw [ih]
    rfl

theorem writtenAll_append (console : Console Room) (before : List Step) (step : Step) :
    console.writtenAll (before ++ [step]) =
      console.writtenAll before ++ ((console.performedAll before).perform step).effect.written := by
  simp [writtenAll, performAll_append, performAll]

theorem performedAll_append (console : Console Room) (before : List Step) (step : Step) :
    console.performedAll (before ++ [step]) =
      ((console.performedAll before).perform step).effect.console := by
  rw [performedAll, List.foldl_append]
  rfl

theorem perform_full {console : Console Room} (full : console.output = some 0) (step : Step) :
    (console.perform step).effect.written = [] ∧
      (console.perform step).effect.console.output = some 0 ∧
      (((console.withRoom none).perform step).effect.written ≠ [] →
        (console.perform step).effect.result = .error (.io Room.writeFailed)) := by
  have ⟨effects, _⟩ := console.perform_limits 0 step
  rw [withRoom_of_output full] at effects
  cases effects with
  | fits whole same =>
    have nothing := List.eq_nil_of_length_eq_zero (Nat.le_zero.mp whole)
    rw [same]
    exact ⟨nothing, by simp [withRoom], fun something => absurd nothing something⟩
  | full exceeds part filled failed => exact ⟨part, filled, fun _ => failed⟩

/-- Two consoles after the same steps, which wrote so many bytes without a limit: there is room left for
    the others, and the output is all that differs, or the output with the limit is full. -/
inductive Tracks (limit used : Nat) (free tight : Console Room) : Prop where
  | room (fits : used ≤ limit) (same : tight = free.withRoom (some (limit - used)))
  | full (exceeds : limit < used) (filled : tight.output = some 0)

variable {limit : Nat} {free tight : Console Room}

theorem Tracks.perform {used : Nat} (h : Tracks limit used free tight) (unlimited : free.output = none)
    (step : Step) :
    (tight.perform step).effect.written = (free.perform step).effect.written.take (limit - used) ∧
      Tracks limit (used + (free.perform step).effect.written.length)
        (free.perform step).effect.console (tight.perform step).effect.console := by
  cases h with
  | room fits same =>
    have ⟨effects, _⟩ := free.perform_limits (limit - used) step
    rw [withRoom_of_output unlimited, ← same] at effects
    cases effects with
    | fits whole same =>
      rw [same, List.take_of_length_le whole]
      exact ⟨rfl, .room (by omega) (by rw [Nat.sub_sub])⟩
    | full exceeds part filled failed => exact ⟨part, .full (by omega) filled⟩
  | full exceeds filled =>
    obtain ⟨nothing, still, _⟩ := perform_full filled step
    rw [nothing, Nat.sub_eq_zero_of_le (Nat.le_of_lt exceeds), List.take_zero]
    exact ⟨rfl, .full (by omega) still⟩

theorem Tracks.alike {used : Nat} (h : Tracks limit used free tight) (unlimited : free.output = none)
    {step : Step} (fits : used + (free.perform step).effect.written.length ≤ limit) :
    (tight.perform step).effect.written = (free.perform step).effect.written ∧
      (tight.perform step).effect.result = (free.perform step).effect.result ∧
      (tight.perform step).unread = (free.perform step).unread ∧
      (tight.perform step).effect.console.vars = (free.perform step).effect.console.vars := by
  cases h with
  | full exceeds filled => omega
  | room room same =>
    have ⟨effects, left⟩ := free.perform_limits (limit - used) step
    rw [withRoom_of_output unlimited, ← same] at effects left
    cases effects with
    | fits enough same => exact ⟨by rw [same], by rw [same], left enough, by rw [same]; rfl⟩
    | full exceeds => omega

theorem Tracks.fails {used : Nat} (h : Tracks limit used free tight) (unlimited : free.output = none)
    {step : Step} (room : used ≤ limit)
    (exceeds : limit < used + (free.perform step).effect.written.length) :
    (tight.perform step).effect.result = .error (.io Room.writeFailed) ∧
      (tight.perform step).effect.result ≠ (free.perform step).effect.result := by
  cases h with
  | full before filled => omega
  | room room same =>
    have ⟨effects, _⟩ := free.perform_limits (limit - used) step
    have sound := free.perform_free step
    rw [withRoom_of_output unlimited] at sound
    rw [withRoom_of_output unlimited, ← same] at effects
    cases effects with
    | fits enough => omega
    | full _ _ _ failed =>
      refine ⟨failed, ?_⟩
      rw [failed]
      exact fun alike => sound.written alike.symm

theorem Tracks.filled {used : Nat} (h : Tracks limit used free tight) (exceeds : limit < used) :
    tight.output = some 0 := by
  cases h with
  | room fits same => omega
  | full before filled => exact filled

theorem performedAll_free (console : Console Room) (steps : List Step) :
    ((console.withRoom none).performedAll steps).output = none := by
  induction steps using List.reverseRecOn with
  | nil => rfl
  | append_singleton before step ih =>
    have unlimited := ((console.withRoom none).performedAll before).perform_free step
    rw [withRoom_of_output ih] at unlimited
    rw [performedAll_append]
    exact unlimited.output

theorem performedAll_tracks (console : Console Room) (limit : Nat) (steps : List Step) :
    (console.withRoom (some limit)).writtenAll steps =
        ((console.withRoom none).writtenAll steps).take limit ∧
      Tracks limit ((console.withRoom none).writtenAll steps).length
        ((console.withRoom none).performedAll steps)
        ((console.withRoom (some limit)).performedAll steps) := by
  induction steps using List.reverseRecOn with
  | nil => exact ⟨by simp [writtenAll, performAll], .room (Nat.zero_le limit) rfl⟩
  | append_singleton before step ih =>
    obtain ⟨taken, tracks⟩ := ih
    obtain ⟨part, after⟩ := tracks.perform (console.performedAll_free before) step
    rw [writtenAll_append, writtenAll_append, performedAll_append, performedAll_append, taken, part,
      List.take_append, List.length_append]
    exact ⟨rfl, after⟩

/-- The step has something to write: an output that takes all would take it. -/
def Speaks (console : Console Room) (step : Step) : Prop :=
  ((console.withRoom none).perform step).effect.written ≠ []

instance (console : Console Room) (step : Step) : Decidable (console.Speaks step) :=
  inferInstanceAs (Decidable (¬ _ = []))

/-- With a limit the output takes the first bytes of what it takes without one. A step whose bytes fit is
    answered as without a limit, the step whose bytes go past it fails, and every later step takes nothing
    and fails if it has something to write. -/
theorem perform_within_limit (console : Console Room) (limit : Nat) :
    let free := console.withRoom none
    let tight := console.withRoom (some limit)
    (∀ steps, tight.writtenAll steps = (free.writtenAll steps).take limit) ∧
    ∀ before step,
      let whole := (free.performedAll before).perform step
      let part := (tight.performedAll before).perform step
      ((free.writtenAll (before ++ [step])).length ≤ limit →
        part.effect.written = whole.effect.written ∧ part.effect.result = whole.effect.result ∧
          part.unread = whole.unread ∧ part.effect.console.vars = whole.effect.console.vars) ∧
      ((free.writtenAll before).length ≤ limit →
        limit < (free.writtenAll (before ++ [step])).length →
          part.effect.result = .error (.io Room.writeFailed) ∧
            part.effect.result ≠ whole.effect.result) ∧
      (limit < (free.writtenAll before).length →
        part.effect.written = [] ∧
          ((tight.performedAll before).Speaks step →
            part.effect.result = .error (.io Room.writeFailed))) := by
  intro free tight
  refine ⟨fun steps => (performedAll_tracks console limit steps).1, ?_⟩
  intro before step whole part
  have unlimited : (free.performedAll before).output = none := performedAll_free console before
  have tracked : Tracks limit (free.writtenAll before).length (free.performedAll before)
      (tight.performedAll before) := (performedAll_tracks console limit before).2
  rw [writtenAll_append, List.length_append]
  refine ⟨fun fits => tracked.alike unlimited fits, fun room exceeds => ?_, fun exceeds => ?_⟩
  · exact tracked.fails unlimited room exceeds
  · obtain ⟨nothing, _, fails⟩ := perform_full (tracked.filled exceeds) step
    exact ⟨nothing, fails⟩

theorem perform_within_limit_of_newline :
    let session : Console Room := start .value false none
    let before := [Step.line "7".toList]
    let step := Step.input (Utf8.encode "40+2\n5".toList) .closed
    let tight := session.withRoom (some 4)
    tight.writtenAll (before ++ [step, .line "9".toList]) = Utf8.encode "7\n42".toList ∧
      ((tight.performedAll before).perform step).effect.result = .error (.io Room.writeFailed) ∧
      ((tight.performedAll (before ++ [step])).perform (.line "9".toList)).effect.written = [] ∧
      ((tight.performedAll (before ++ [step])).perform (.line "9".toList)).effect.result =
        .error (.io Room.writeFailed) := by
  intro session before step tight
  obtain ⟨taken, answers⟩ := perform_within_limit session 4
  refine ⟨(taken _).trans rfl, ?_, ?_⟩
  · exact ((answers before step).2.1 (by decide) (by decide)).1
  · have ⟨nothing, fails⟩ := (answers (before ++ [step]) (.line "9".toList)).2.2 (by decide)
    exact ⟨nothing, fails (by decide)⟩

end Console
end LineCalculator

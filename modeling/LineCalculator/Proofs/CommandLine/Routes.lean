import LineCalculator.Proofs.CommandLine.Arguments
import LineCalculator.Proofs.CommandLine.Creation
import LineCalculator.Proofs.CommandLine.Hosting

/- What a run shows depends on the view, the content and the JSON setting alone: not on where the content comes
   from, on which side a switch is given, or on whether there is a log. -/
namespace LineCalculator

namespace Console
variable {ω : Type} [Output ω] (console : Console ω) (json : Bool)

theorem hear_of_value (shown : console.view = .value) (line : List Char) :
    ({ console with json := json } : Console ω).hear line =
      { console.hear line with console := { (console.hear line).console with json := json } } := by
  have same : ({ console with json := json } : Console ω).speech line = console.speech line := by
    simp only [speech, reply, shown]
  cases said : console.speech line with
  | none => rw [hear_of_speech_none (same.trans said), hear_of_speech_none said]
  | some text =>
    rw [hear_of_speech_some (same.trans said), hear_of_speech_some said]
    rfl

theorem view_hear (line : List Char) : (console.hear line).console.view = console.view := by
  cases said : console.speech line with
  | none => rw [hear_of_speech_none said]
  | some text =>
    rw [hear_of_speech_some said]
    rfl

theorem readPieces_of_value (shown : console.view = .value) (pieces : List (List UInt8)) :
    (({ console with json := json } : Console ω).readPieces .closed pieces).1.written =
      (console.readPieces .closed pieces).1.written := by
  induction console, pieces using run_induction (ω := ω) .closed with
  | nil console => rfl
  | skipped console piece rest skipped => nomatch skipped.1
  | more console piece rest heard more ih =>
    have same := hear_of_value console json shown (lineText piece)
    rw [readPieces_of_more heard more, readPieces_of_more heard (by rw [same]; exact more), same]
    simp only
    rw [ih ((view_hear console _).trans shown)]
  | stop console piece rest heard stop =>
    have same := hear_of_value console json shown (lineText piece)
    rw [readPieces_of_stop heard stop, readPieces_of_stop heard (by rw [same]; exact stop), same]
    rfl

theorem transcript_value (json other : Bool) (content : List UInt8) :
    transcript .value json content = transcript .value other content :=
  readPieces_of_value (start .value other (none : Room)) json rfl _

end Console

namespace CommandLine
open Console Invocation FileSystem

/-- The arguments ask for this view and file, with these switches, whichever side each is on. -/
def Gives (view : View) (file : Option (List Char)) (given : List Switch) (arguments : List (List Char)) : Prop :=
  ∃ front back, Asks view file front back arguments ∧ given = front ++ back

variable {δ : Type} [FileSystem δ]

/-- What is opened, if anything, is not the log. -/
def Apart (disk : δ) (file : Option (List Char)) : Prop := ∀ path ∈ file, ¬ LeadsTo disk logName path

inductive Supplies (disk : δ) (input content : List UInt8) : Option (List Char) → Prop where
  | input (same : input = content) : Supplies disk input content none
  | file {path : List Char} (opens : open? disk path = some (.file content)) :
      Supplies disk input content (some path)

variable {disk made : δ} {input content : List UInt8} {view : View} {file : Option (List Char)}
  {json : Bool}

theorem quiet_congr (same : ∀ path ∈ file, open? made path = open? disk path) :
    quiet made input view json file = { quiet disk input view json file with disk := made } := by
  cases file with
  | none => rfl
  | some path =>
    simp only [quiet, same path rfl]
    cases open? disk path with
    | none => rfl
    | some entry => cases entry <;> rfl

theorem disk_quiet : (quiet disk input view json file).disk = disk :=
  congrArg Outcome.disk (quiet_congr fun _ _ => rfl)

theorem quiet_of_supplies (supplied : Supplies disk input content file) :
    quiet disk input view json file = ⟨0, transcript view json content, none, disk⟩ := by
  cases supplied with
  | input same => simp [quiet, same]
  | file opens => simp [quiet, opens]

theorem quiet_value (json other : Bool) :
    quiet disk input .value json file = quiet disk input .value other file := by
  simp only [quiet, transcript_value json other]

section
variable {given : List Switch} {arguments : List (List Char)} (gives : Gives view file given arguments)
include gives

theorem run_eq (disk : δ) (input : List UInt8) :
    run disk input arguments = .of (attend view file (.ofList given)) disk input := by
  obtain ⟨front, back, asks, rfl⟩ := gives
  rw [run, perform, ofArguments?_eq_console_iff.mpr ⟨front, back, asks, rfl⟩]

theorem run_of_quiet (off : .log ∉ given) (disk : δ) (input : List UInt8) :
    run disk input arguments = quiet disk input view (.json ∈ given) file := by
  simp [run_eq gives, of_attend, Switches.ofList, off]

theorem run_of_logged (logged : .log ∈ given) (creates : create? disk logName = some made)
    (input : List UInt8) :
    run disk input arguments = quiet made input view (.json ∈ given) file := by
  simp [run_eq gives, of_attend, Switches.ofList, logged, creates]

theorem run_of_barred (logged : .log ∈ given) (barred : create? disk logName = none) (input : List UInt8) :
    run disk input arguments = ⟨1, [], some logComplaint, disk⟩ := by
  simp [run_eq gives, of_attend, Switches.ofList, logged, barred]

theorem open?_run [LawfulFileSystem δ] (logged : .log ∈ given)
    (creatable : (create? disk logName).isSome = true) (input : List UInt8) :
    ∃ log, open? (run disk input arguments).disk logName = some (.file log) := by
  obtain ⟨made, creates⟩ := Option.isSome_iff_exists.mp creatable
  refine ⟨[], ?_⟩
  rw [run_of_logged gives logged creates, disk_quiet]
  exact LawfulFileSystem.open?_of_created creates

theorem run_but_disk [LawfulFileSystem δ]
    (apart : .log ∈ given → (create? disk logName).isSome = true ∧ Apart disk file) (input : List UInt8) :
    ∃ after, run disk input arguments =
      { quiet disk input view (.json ∈ given) file with disk := after } := by
  by_cases logged : .log ∈ given
  · obtain ⟨creatable, elsewhere⟩ := apart logged
    obtain ⟨made, creates⟩ := Option.isSome_iff_exists.mp creatable
    refine ⟨made, (run_of_logged gives logged creates input).trans (quiet_congr ?_)⟩
    exact fun path mem => LawfulFileSystem.open?_of_apart creates (elsewhere path mem)
  · exact ⟨disk, (run_of_quiet gives logged disk input).trans (quiet_congr fun _ _ => rfl)⟩

end

theorem run_missing [LawfulFileSystem δ] {path : List Char} {given : List Switch}
    {arguments : List (List Char)} (gives : Gives view (some path) given arguments)
    (missing : open? disk path = none ∨ open? disk path = some .directory)
    (apart : .log ∈ given → ¬ LeadsTo disk logName path) (input : List UInt8) :
    (run disk input arguments).code = 1 ∧ (run disk input arguments).output = [] := by
  by_cases barred : .log ∈ given ∧ create? disk logName = none
  · simp [run_of_barred gives barred.1 barred.2]
  · have fits : .log ∈ given → (create? disk logName).isSome = true ∧ Apart disk (some path) := by
      intro logged
      refine ⟨Option.isSome_iff_ne_none.mpr fun none => barred ⟨logged, none⟩, ?_⟩
      rintro _ ⟨⟩
      exact apart logged
    obtain ⟨after, same⟩ := run_but_disk gives fits input
    rw [same]
    rcases missing with missing | missing <;> simp [quiet, missing]

theorem disk_run (disk : δ) (input : List UInt8) {arguments : List (List Char)}
    (off : ∀ view file given, Gives view file given arguments → .log ∉ given) :
    (run disk input arguments).disk = disk := by
  cases asked : ofArguments? arguments with
  | none => simp [run, perform, asked, Outcome.of, Host.usage]
  | some invocation =>
    cases invocation with
    | version => simp [run, perform, asked, Outcome.of, Host.write]
    | help => simp [run, perform, asked, Outcome.of, Host.usage]
    | console view file switches =>
      obtain ⟨front, back, asks, rfl⟩ := ofArguments?_eq_console_iff.mp asked
      have gives : Gives view file (front ++ back) arguments := ⟨front, back, asks, rfl⟩
      rw [run_of_quiet gives (off view file _ gives), disk_quiet]

structure RoutesAgree (disk : δ) (input : List UInt8) : Prop where
  /-- By whatever route a content comes, the run ends well and shows what a fresh console writes for it. -/
  content : ∀ view file given arguments content, Gives view file given arguments →
    Supplies disk input content file →
    (.log ∈ given → (create? disk logName).isSome = true ∧ Apart disk file) →
    ∃ after, run disk input arguments = ⟨0, transcript view (.json ∈ given) content, none, after⟩
  /-- It does not matter on which side of the command a switch is given. -/
  sides : ∀ view file given given' arguments arguments', Gives view file given arguments →
    Gives view file given' arguments' → (∀ s, s ∈ given ↔ s ∈ given') →
    run disk input arguments = run disk input arguments'
  /-- Where values are shown, it does not matter whether JSON is asked for. -/
  json : ∀ file given given' arguments arguments', Gives .value file given arguments →
    Gives .value file given' arguments' → (.log ∈ given ↔ .log ∈ given') →
    run disk input arguments = run disk input arguments'
  /-- A log that can be made changes nothing but the files. -/
  log : ∀ view file given given' arguments arguments', Gives view file given arguments →
    Gives view file given' arguments' → (.json ∈ given ↔ .json ∈ given') →
    (create? disk logName).isSome = true → Apart disk file →
    { run disk input arguments with disk := disk } = { run disk input arguments' with disk := disk }
  made : ∀ view file given arguments, Gives view file given arguments → .log ∈ given →
    (create? disk logName).isSome = true →
    ∃ log, open? (run disk input arguments).disk logName = some (.file log)
  untouched : ∀ arguments, (∀ view file given, Gives view file given arguments → .log ∉ given) →
    (run disk input arguments).disk = disk
  /-- A file that is missing or a directory is refused before anything is shown. -/
  refused : ∀ view path given arguments, Gives view (some path) given arguments →
    (open? disk path = none ∨ open? disk path = some .directory) →
    (.log ∈ given → ¬ LeadsTo disk logName path) →
    (run disk input arguments).code = 1 ∧ (run disk input arguments).output = []

/-- Over any file system, any files in it and any input, all routes to a console agree. -/
theorem run_by_any_route [LawfulFileSystem δ] (disk : δ) (input : List UInt8) : RoutesAgree disk input where
  content := by
    intro view file given arguments content gives supplied apart
    obtain ⟨after, shown⟩ := run_but_disk gives apart input
    exact ⟨after, by rw [shown, quiet_of_supplies supplied]⟩
  sides := by
    intro view file given given' arguments arguments' gives gives' same
    rw [run_eq gives, run_eq gives', Switches.ofList_congr same]
  json := by
    intro file given given' arguments arguments' gives gives' same
    have log : decide (Switch.log ∈ given) = decide (Switch.log ∈ given') := decide_eq_decide.mpr same
    rw [run_eq gives, run_eq gives', of_attend, of_attend, Switches.ofList, Switches.ofList, log]
    simp only [quiet_value (decide (Switch.json ∈ given)) (decide (Switch.json ∈ given'))]
  log := by
    intro view file given given' arguments arguments' gives gives' same creatable apart
    obtain ⟨after, first⟩ := run_but_disk gives (fun _ => ⟨creatable, apart⟩) input
    obtain ⟨after', second⟩ := run_but_disk gives' (fun _ => ⟨creatable, apart⟩) input
    have json : decide (Switch.json ∈ given) = decide (Switch.json ∈ given') := decide_eq_decide.mpr same
    rw [first, second, json]
  made := fun _ _ _ _ gives logged creatable => open?_run gives logged creatable input
  untouched := fun _ off => disk_run disk input off
  refused := fun _ _ _ _ gives missing apart => run_missing gives missing apart input

theorem run_by_any_route_each :
    let content := Utf8.encode "x = 2\n-x".toList
    let disk : Disk := ⟨[(["data".toList, "in.txt".toList], .file content),
      (["home".toList, "sub".toList], .directory)], ["home".toList]⟩
    let logged := ["--log".toList, "tokenize".toList, "/data/in.txt".toList]
    (∃ after, run disk [] logged = ⟨0, Utf8.encode "- x\nBye!\n".toList, none, after⟩) ∧
      (∃ after, run disk [] ["tokenize".toList, "../data/in.txt".toList] =
        ⟨0, Utf8.encode "- x\nBye!\n".toList, none, after⟩) ∧
      run disk [] logged = run disk [] ["tokenize".toList, "/data/in.txt".toList, "--log".toList] ∧
      (run disk [] logged).output = (run disk [] ["tokenize".toList, "/data/in.txt".toList]).output ∧
      (run disk [] logged).disk.isFile logName = true ∧
      (∃ after, run disk content [] = ⟨0, Utf8.encode "-2\nBye!\n".toList, none, after⟩) ∧
      run disk content [] = run disk content ["evaluate".toList, "--json".toList] ∧
      (run disk content ["postfix".toList, "--".toList, "sub".toList]).code = 1 := by
  intro content disk logged
  have front : Gives .tokens (some "/data/in.txt".toList) [.log] logged :=
    ⟨[.log], [], .switch .log (by decide) (.command rfl (.file rfl (by decide) .nil)), rfl⟩
  have back : Gives .tokens (some "/data/in.txt".toList) [.log]
      ["tokenize".toList, "/data/in.txt".toList, "--log".toList] :=
    ⟨[], [.log], .command rfl (.file rfl (by decide) (.switch .log (by decide) .nil)), rfl⟩
  have plain : Gives .tokens (some "/data/in.txt".toList) [] ["tokenize".toList, "/data/in.txt".toList] :=
    ⟨[], [], .command rfl (.file rfl (by decide) .nil), rfl⟩
  have above : Gives .tokens (some "../data/in.txt".toList) []
      ["tokenize".toList, "../data/in.txt".toList] :=
    ⟨[], [], .command rfl (.file rfl (by decide) .nil), rfl⟩
  have bare : Gives .value none [] [] := ⟨[], [], .nil, rfl⟩
  have json : Gives .value none [.json] ["evaluate".toList, "--json".toList] :=
    ⟨[], [.json], .command rfl (.switch .json (by decide) .nil), rfl⟩
  have directory : Gives .postfixTokens (some "sub".toList) [] ["postfix".toList, "--".toList, "sub".toList] :=
    ⟨[], [], .command rfl (.separated (by decide)), rfl⟩
  have creatable : (create? disk logName).isSome = true := by decide
  have apart : Apart disk (some "/data/in.txt".toList) := by
    rintro _ ⟨⟩ ⟨made, creates, leads⟩
    cases creates
    revert leads
    decide
  have silent := run_by_any_route disk []
  have spoken := run_by_any_route disk content
  obtain ⟨after, root⟩ := silent.content _ _ _ _ content front (.file (by decide)) fun _ => ⟨creatable, apart⟩
  obtain ⟨after', parent⟩ := silent.content _ _ _ _ content above (.file (by decide)) nofun
  obtain ⟨after'', value⟩ := spoken.content _ _ _ _ content bare (.input rfl) nofun
  have alike := silent.log _ _ _ _ _ _ front plain (by decide) creatable apart
  obtain ⟨log, made⟩ := silent.made _ _ _ _ front (by decide) creatable
  refine ⟨⟨after, root⟩, ⟨after', parent⟩, ?_, ?_, ?_, ⟨after'', value⟩, ?_, ?_⟩
  · exact silent.sides _ _ _ _ _ _ front back (by simp)
  · exact (Outcome.mk.inj alike).2.1
  · rw [Disk.isFile, made]
  · exact spoken.json _ _ _ _ _ bare json (by decide)
  · exact (spoken.refused _ _ _ _ directory (Or.inr (by decide)) nofun).1

end CommandLine
end LineCalculator

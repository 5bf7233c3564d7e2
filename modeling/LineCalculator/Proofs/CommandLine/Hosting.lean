import LineCalculator.CommandLine.Run
import LineCalculator.Proofs.Console.Lasting

/- The program on a file system. Served a whole content, a console writes what it writes when it reads the content,
   so a run comes to what stands where its file is. -/
namespace LineCalculator

/-- What a console that has heard nothing yet writes for a whole content. -/
def Console.transcript (view : View) (json : Bool) (content : List UInt8) : List UInt8 :=
  ((start view json (none : Room)).read content .closed).1.written

namespace World
open Console
variable {δ : Type} [FileSystem δ]

def serve (world : World δ) (console : Console Room) (entry : Entry) : Bool × World δ :=
  (CommandLine.serve console entry : StateM (World δ) Bool).run world

def write (world : World δ) (bytes : List UInt8) : World δ :=
  { world with written := bytes :: world.written }

section
variable (world : World δ) (console : Console Room) {content piece rest : List UInt8}

theorem serve_nil :
    world.serve console (.file []) = (true, world.write (console.print goodbye.toList).written) := rfl

theorem serve_of_more (front : Text.cutAfter isNewline content = piece :: Text.cutAfter isNewline rest)
    (more : (console.hear (lineText piece)).result = .ok .more) :
    world.serve console (.file content) =
      (world.write (console.hear (lineText piece)).written).serve
        (console.hear (lineText piece)).console (.file rest) := by
  simp [serve, CommandLine.serve, forIn, Entry.pieces, front, more, Host.write, write]

theorem serve_of_done (front : Text.cutAfter isNewline content = piece :: Text.cutAfter isNewline rest)
    (done : (console.hear (lineText piece)).result = .ok .done) :
    world.serve console (.file content) =
      (true, world.write (console.hear (lineText piece)).written) := by
  simp [serve, CommandLine.serve, forIn, Entry.pieces, front, done, Host.write, write]
  rfl

end

/-- A content is served to a good end, and what is written for it, piece by piece, is what the console writes
    when it reads the content. -/
def Serves (console : Console Room) (content : List UInt8) : Prop :=
  ∀ world : World δ, ∃ written, world.serve console (.file content) =
    (true, { world with written := written ++ world.written }) ∧
      written.reverse.flatten = (console.read content .closed).1.written

theorem serves_nil (console : Console Room) : Serves (δ := δ) console [] := by
  intro world
  exact ⟨[_], serve_nil world console, by simp [Console.read, readPieces]⟩

theorem serves_of_front {console : Console Room} (lasting : Output.Lasting console.output)
    {content piece rest : List UInt8}
    (front : Text.cutAfter isNewline content = piece :: Text.cutAfter isNewline rest)
    (later : ∀ {after : Console Room}, Output.Lasting after.output → Serves (δ := δ) after rest) :
    Serves (δ := δ) console content := by
  have heard : ¬(Ending.closed = .broken ∧ Text.isComplete isNewline piece = false) := by simp
  have result := result_of_lasting lasting (lineText piece)
  intro world
  cases demand : Demand.ofLine (lineText piece) with
  | more =>
    rw [demand] at result
    obtain ⟨output, still, after⟩ := console_of_lasting lasting (lineText piece)
    have lasts : Output.Lasting (console.hear (lineText piece)).console.output := by rwa [after]
    obtain ⟨written, served, same⟩ := later lasts (world.write (console.hear (lineText piece)).written)
    refine ⟨written ++ [(console.hear (lineText piece)).written], ?_, ?_⟩
    · rw [serve_of_more world console front result, served]
      simp [write]
    · rw [Console.read, front, readPieces_of_more heard result]
      simp [same, Console.read]
  | done =>
    rw [demand] at result
    refine ⟨[(console.hear (lineText piece)).written], serve_of_done world console front result, ?_⟩
    rw [Console.read, front, readPieces_of_stop heard (by simp [result])]
    simp [Effect.map]

theorem serves {console : Console Room} (lasting : Output.Lasting console.output) (content : List UInt8) :
    Serves (δ := δ) console content := by
  induction content using Text.cut_induction isNewline generalizing console with
  | nil => exact serves_nil console
  | rest bytes some clear =>
    exact serves_of_front lasting (Text.cutAfter_of_clear some clear) fun _ => serves_nil _
  | piece bytes newline others clear mark ih =>
    exact serves_of_front lasting (Text.cutAfter_append_end clear mark others) ih

end World

namespace CommandLine
open Console
variable {δ : Type} [FileSystem δ]

/-- What a run without a log comes to, by what stands where its file is. -/
def quiet (disk : δ) (input : List UInt8) (view : View) (json : Bool) (file : Option (List Char)) : Outcome δ :=
  match file with
  | none => ⟨0, transcript view json input, none, disk⟩
  | some path =>
    match FileSystem.open? disk path with
    | none => ⟨1, [], some (openComplaint path), disk⟩
    | some .directory => ⟨1, [], some abortComplaint, disk⟩
    | some (.file content) => ⟨0, transcript view json content, none, disk⟩

theorem run_serve_file (world : World δ) (view : View) (json : Bool) (content : List UInt8) :
    ∃ written, StateT.run (serve (start view json none) (Entry.file content)) world =
      (pure (true, { world with written := written ++ world.written }) : Id _) ∧
        written.reverse.flatten = transcript view json content := by
  have lasting : Output.Lasting (start view json (none : Room)).output := Room.lasting_none
  exact World.serves lasting content world

theorem run_serve_directory (world : World δ) (console : Console Room) :
    StateT.run (serve console Entry.directory) world = (pure (false, world) : Id _) := rfl

theorem of_present (disk : δ) (input : List UInt8) (view : View) (json : Bool) (file : Option (List Char)) :
    Outcome.of (present view json file) disk input = quiet disk input view json file := by
  cases file with
  | none =>
    obtain ⟨written, served, same⟩ := run_serve_file ⟨disk, input, [], none⟩ view json input
    simp [Outcome.of, present, Host.input, quiet, served, same]
  | some path =>
    cases opened : FileSystem.open? disk path with
    | none => simp [Outcome.of, present, Host.open?, quiet, opened, refuse, Host.complain]
    | some entry =>
      cases entry with
      | file content =>
        obtain ⟨written, served, same⟩ := run_serve_file ⟨disk, input, [], none⟩ view json content
        simp [Outcome.of, present, Host.open?, quiet, opened, served, same]
      | directory =>
        simp [Outcome.of, present, Host.open?, quiet, opened, refuse, Host.complain, run_serve_directory]

theorem of_attend (disk : δ) (input : List UInt8) (view : View) (file : Option (List Char))
    (switches : Switches) :
    Outcome.of (attend view file switches) disk input =
      match if switches.log then FileSystem.create? disk logName else some disk with
      | none => ⟨1, [], some logComplaint, disk⟩
      | some disk => quiet disk input view switches.json file := by
  cases log : switches.log with
  | false =>
    simp only [Outcome.of, attend, log]
    exact of_present disk input view switches.json file
  | true =>
    cases created : FileSystem.create? disk logName with
    | none => simp [Outcome.of, attend, log, Host.create, created, refuse, Host.complain]
    | some made =>
      simp only [← of_present, if_true]
      simp [attend, Outcome.of, log, Host.create, created]

end CommandLine
end LineCalculator

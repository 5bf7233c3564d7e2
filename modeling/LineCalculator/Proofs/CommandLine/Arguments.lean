import Mathlib.Tactic.Tauto
import LineCalculator.CommandLine.Invocation

/- The arguments that ask for a console, as a relation: switches on either side of the command, each at most
   once on its side, and behind the command at most one file. -/
namespace LineCalculator

inductive Switch where
  | json
  | log
  deriving DecidableEq, Repr

namespace Switch

def text : Switch → List Char
  | .json => "--json".toList
  | .log => "--log".toList

def name : Switch → List Char
  | .json => "json".toList
  | .log => "log".toList

theorem ofText_text (s : Switch) : Argument.ofText s.text = .long s.name := by
  cases s <;> rfl

end Switch

def Switches.ofList (given : List Switch) : Switches := ⟨.json ∈ given, .log ∈ given⟩

namespace Invocation

def separator : List Char := "--".toList

/-- The arguments behind a command: the file that they name, and the switches among them. -/
inductive Tail : Option (List Char) → List Switch → List (List Char) → Prop where
  | nil : Tail none [] []
  | separator : Tail none [] [separator]
  | separated {path : List Char} (named : path ≠ []) : Tail (some path) [] [Invocation.separator, path]
  | file {path : List Char} {given : List Switch} {arguments : List (List Char)}
      (plain : Argument.ofText path = .plain path) (named : path ≠ []) (rest : Tail none given arguments) :
      Tail (some path) given (path :: arguments)
  | switch {file : Option (List Char)} {given : List Switch} {arguments : List (List Char)} (s : Switch)
      (fresh : s ∉ given) (rest : Tail file given arguments) : Tail file (s :: given) (s.text :: arguments)

/-- The arguments that ask for a view of a file, or of the standard input, with the switches in front of the
    command and behind it. Without a command they ask for the values. -/
inductive Asks : View → Option (List Char) → List Switch → List Switch → List (List Char) → Prop where
  | nil : Asks .value none [] [] []
  | separator : Asks .value none [] [] [separator]
  | command {word : List Char} {view : View} {file : Option (List Char)} {back : List Switch}
      {arguments : List (List Char)} (command : View.ofCommand? word = some view)
      (tail : Tail file back arguments) : Asks view file [] back (word :: arguments)
  | switch {view : View} {file : Option (List Char)} {front back : List Switch}
      {arguments : List (List Char)} (s : Switch) (fresh : s ∉ front)
      (rest : Asks view file front back arguments) : Asks view file (s :: front) back (s.text :: arguments)

end Invocation

namespace Switches
variable {given seen : List Switch} {s : Switch}

theorem add?_of_fresh (fresh : s ∉ seen) : (ofList seen).add? s.name = some (ofList (s :: seen)) := by
  cases s <;> simp [add?, ofList, Switch.name, fresh]

theorem add?_eq_some {name : List Char} {more : Switches} (h : (ofList seen).add? name = some more) :
    ∃ s, s ∉ seen ∧ name = s.name ∧ more = ofList (s :: seen) := by
  unfold add? at h
  split at h
  · next json => exact ⟨.json, by simpa [ofList] using json.2, json.1, by simpa [ofList] using h.symm⟩
  · split at h
    · next log => exact ⟨.log, by simpa [ofList] using log.2, log.1, by simpa [ofList] using h.symm⟩
    · contradiction

theorem ofList_congr (same : ∀ s, s ∈ given ↔ s ∈ seen) : ofList given = ofList seen := by
  simp [ofList, same]

theorem ofList_move (s : Switch) (seen given : List Switch) :
    ofList (s :: seen ++ given) = ofList (seen ++ s :: given) :=
  ofList_congr (by grind)

theorem fresh_behind (new : s ∉ given) (fresh : ∀ x ∈ s :: given, x ∉ seen) : ∀ x ∈ given, x ∉ s :: seen := by
  intro x mem
  have apart : x ≠ s := fun same => new (same ▸ mem)
  simpa [apart] using fresh x (by simp [mem])

theorem union_ofList (front back : List Switch) :
    (ofList front).union (ofList back) = ofList (front ++ back) := by
  simp [union, ofList]

end Switches

namespace Argument
variable {argument : List Char}

theorem ofText_eq_separator (h : ofText argument = .separator) : argument = Invocation.separator := by
  unfold ofText at h
  split at h
  · rfl
  all_goals contradiction

theorem ofText_eq_long {s : Switch} (h : ofText argument = .long s.name) : argument = s.text := by
  unfold ofText at h
  split at h
  · contradiction
  · rw [long.inj h]
    cases s <;> rfl
  all_goals contradiction

theorem ofText_eq_plain {text : List Char} (h : ofText argument = .plain text) : text = argument := by
  unfold ofText at h
  split at h
  all_goals first | contradiction | exact (plain.inj h).symm

end Argument

namespace Invocation
variable {view : View} {file held : Option (List Char)} {front back given seen : List Switch}
  {arguments : List (List Char)} {before switches : Switches} {invocation : Invocation}

theorem addFile?_eq_some_iff {text name : List Char} :
    addFile? held text = some name ↔ held = none ∧ text ≠ [] ∧ name = text := by
  unfold addFile?
  split
  · next free => simp [free, eq_comm]
  · next taken => simp; tauto

theorem ofCommand?_separated :
    ofCommand? view before switches held true arguments = some invocation ↔
      (arguments = [] ∧ invocation = .console view held (before.union switches)) ∨
        ∃ path, arguments = [path] ∧ held = none ∧ path ≠ [] ∧
          invocation = .console view (some path) (before.union switches) := by
  match arguments with
  | [] => simp [ofCommand?, eq_comm]
  | [path] =>
    by_cases free : held = none ∧ path ≠ []
    · simp [ofCommand?, addFile?, free, eq_comm]
    · simp [ofCommand?, addFile?, free]
      tauto
  | path :: next :: rest =>
    by_cases free : held = none ∧ path ≠ []
    · simp [ofCommand?, addFile?, free]
    · simp [ofCommand?, addFile?, free]

theorem ofCommand?_separator (rest : List (List Char)) :
    ofCommand? view before switches held false (separator :: rest) =
      ofCommand? view before switches held true rest := by
  simp [ofCommand?, separator, Argument.ofText]

theorem ofCommand?_plain {path : List Char} (plain : Argument.ofText path = .plain path)
    (rest : List (List Char)) :
    ofCommand? view before switches held false (path :: rest) =
      (addFile? held path).bind fun name => ofCommand? view before switches (some name) false rest := by
  simp only [ofCommand?, plain]
  cases addFile? held path <;> rfl

theorem ofCommand?_switch (s : Switch) (rest : List (List Char)) :
    ofCommand? view before switches held false (s.text :: rest) =
      (switches.add? s.name).bind fun more => ofCommand? view before more held false rest := by
  have noHelp : s.name ≠ "help".toList := by cases s <;> decide
  simp only [ofCommand?, s.ofText_text, if_neg noHelp]
  cases switches.add? s.name <;> rfl

theorem ofCommand?_of_tail (tail : Tail file given arguments) (view : View) (before : Switches)
    (fresh : ∀ s ∈ given, s ∉ seen) (free : held = none ∨ file = none) :
    ofCommand? view before (.ofList seen) held false arguments =
      some (.console view (held.or file) (before.union (.ofList (seen ++ given)))) := by
  -- The induction is on the arguments still to come, so what has been read is left free.
  induction tail generalizing seen held with
  | nil => simp [ofCommand?]
  | separator =>
    rw [ofCommand?_separator]
    simp [ofCommand?]
  | @separated path named =>
    obtain rfl : held = none := by simpa using free
    rw [ofCommand?_separator, ofCommand?_separated]
    simp [named]
  | @file path given arguments plain named rest ih =>
    obtain rfl : held = none := by simpa using free
    rw [ofCommand?_plain plain, addFile?_eq_some_iff.mpr ⟨rfl, named, rfl⟩, Option.bind_some,
      ih fresh (Or.inr rfl)]
    rfl
  | @switch file given arguments s new rest ih =>
    have later := Switches.fresh_behind new fresh
    rw [ofCommand?_switch, Switches.add?_of_fresh (fresh s (by simp)), Option.bind_some, ih later free,
      Switches.ofList_move]

theorem tail_of_ofCommand? {shown : View} {file : Option (List Char)} {all : Switches}
    (h : ofCommand? view before (.ofList seen) held false arguments = some (.console shown file all)) :
    shown = view ∧ ∃ named given, Tail named given arguments ∧ (∀ s ∈ given, s ∉ seen) ∧
      (held = none ∨ named = none) ∧ file = held.or named ∧
      all = before.union (.ofList (seen ++ given)) := by
  induction arguments generalizing seen held with
  | nil =>
    obtain ⟨rfl, rfl, rfl⟩ : view = shown ∧ held = file ∧ before.union (.ofList seen) = all := by
      simpa [ofCommand?] using h
    exact ⟨rfl, none, [], .nil, by simp, Or.inr rfl, by simp, by simp⟩
  | cons argument rest ih =>
    cases form : Argument.ofText argument with
    | separator =>
      obtain rfl := Argument.ofText_eq_separator form
      rw [ofCommand?_separator, ofCommand?_separated] at h
      rcases h with ⟨rfl, asked⟩ | ⟨path, rfl, rfl, named, asked⟩
      · cases asked
        exact ⟨rfl, none, [], .separator, by simp, Or.inr rfl, by simp, by simp⟩
      · cases asked
        exact ⟨rfl, some path, [], .separated named, by simp, Or.inl rfl, by simp, by simp⟩
    | long name =>
      simp only [ofCommand?, form, Bool.false_eq_true, if_false] at h
      split at h
      · simp at h
      · split at h
        · next more added =>
          obtain ⟨s, new, rfl, rfl⟩ := Switches.add?_eq_some added
          obtain rfl := Argument.ofText_eq_long form
          obtain ⟨rfl, named, given, tail, fresh, free, rfl, rfl⟩ := ih h
          refine ⟨rfl, named, s :: given, .switch s (by grind) tail, by grind, free, rfl, ?_⟩
          rw [Switches.ofList_move]
        · contradiction
    | short letter =>
      simp only [ofCommand?, form, Bool.false_eq_true, if_false] at h
      split at h <;> simp at h
    | plain text =>
      obtain rfl := Argument.ofText_eq_plain form
      rw [ofCommand?_plain form] at h
      obtain ⟨name, added, later⟩ := Option.bind_eq_some_iff.mp h
      obtain ⟨rfl, named, rfl⟩ := addFile?_eq_some_iff.mp added
      obtain ⟨rfl, other, given, tail, fresh, free, rfl, rfl⟩ := ih later
      obtain rfl : other = none := by simpa using free
      exact ⟨rfl, some name, given, .file form named tail, fresh, Or.inl rfl, rfl, rfl⟩

theorem ofSwitches?_switch (s : Switch) (rest : List (List Char)) :
    ofSwitches? switches (s.text :: rest) =
      (switches.add? s.name).bind fun more => ofSwitches? more rest := by
  have noVersion : s.name ≠ "version".toList := by cases s <;> decide
  have noHelp : s.name ≠ "help".toList := by cases s <;> decide
  simp only [ofSwitches?, s.ofText_text, if_neg noVersion, if_neg noHelp]
  cases switches.add? s.name <;> rfl

theorem ofSwitches?_command {word : List Char} (command : View.ofCommand? word = some view)
    (rest : List (List Char)) :
    ofSwitches? switches (word :: rest) = ofCommand? view switches .none none false rest := by
  have plain : Argument.ofText word = .plain word := by
    unfold View.ofCommand? at command
    split at command
    · next same =>
      rw [same]
      rfl
    · split at command
      · next same =>
        rw [same]
        rfl
      · split at command
        · next same =>
          rw [same]
          rfl
        · contradiction
  simp only [ofSwitches?, plain, command]

theorem ofSwitches?_of_asks (asks : Asks view file front back arguments) (fresh : ∀ s ∈ front, s ∉ seen) :
    ofSwitches? (.ofList seen) arguments = some (.console view file (.ofList (seen ++ (front ++ back)))) := by
  induction asks generalizing seen with
  | nil => simp [ofSwitches?]
  | separator => simp [ofSwitches?, Invocation.separator, Argument.ofText]
  | @command word view file back arguments command tail =>
    have read : ofCommand? view (.ofList seen) (.ofList []) none false arguments = _ :=
      ofCommand?_of_tail tail view (.ofList seen) (by simp) (Or.inl rfl)
    rw [Switches.union_ofList, Option.none_or] at read
    rw [ofSwitches?_command command]
    exact read
  | @switch view file front back arguments s new rest ih =>
    have later := Switches.fresh_behind new fresh
    rw [ofSwitches?_switch, Switches.add?_of_fresh (fresh s (by simp)), Option.bind_some, ih later,
      Switches.ofList_move]
    rfl

theorem asks_of_ofSwitches? (h : ofSwitches? (.ofList seen) arguments = some (.console view file switches)) :
    ∃ front back, Asks view file front back arguments ∧ (∀ s ∈ front, s ∉ seen) ∧
      switches = .ofList (seen ++ (front ++ back)) := by
  induction arguments generalizing seen with
  | nil =>
    obtain ⟨rfl, rfl, rfl⟩ : View.value = view ∧ none = file ∧ .ofList seen = switches := by
      simpa [ofSwitches?] using h
    exact ⟨[], [], .nil, by simp, by simp⟩
  | cons argument rest ih =>
    cases form : Argument.ofText argument with
    | separator =>
      obtain rfl := Argument.ofText_eq_separator form
      obtain ⟨rfl, rfl, rfl, rfl⟩ :
          rest = [] ∧ View.value = view ∧ none = file ∧ .ofList seen = switches := by
        simpa [ofSwitches?, form] using h
      exact ⟨[], [], .separator, by simp, by simp⟩
    | long name =>
      simp only [ofSwitches?, form] at h
      split at h
      · simp at h
      · split at h
        · simp at h
        · split at h
          · next more added =>
            obtain ⟨s, new, rfl, rfl⟩ := Switches.add?_eq_some added
            obtain rfl := Argument.ofText_eq_long form
            obtain ⟨front, back, asks, fresh, rfl⟩ := ih h
            refine ⟨s :: front, back, .switch s (by grind) asks, by grind, ?_⟩
            rw [Switches.ofList_move]
            rfl
          · contradiction
    | short letter =>
      simp only [ofSwitches?, form] at h
      split at h
      · simp at h
      · split at h <;> simp at h
    | plain text =>
      obtain rfl := Argument.ofText_eq_plain form
      simp only [ofSwitches?, form] at h
      split at h
      · next shown command =>
        have read : ofCommand? shown (.ofList seen) (.ofList []) none false rest = _ := h
        obtain ⟨rfl, named, given, tail, _, _, rfl, rfl⟩ := tail_of_ofCommand? read
        exact ⟨[], given, .command command tail, by simp, by simp [Switches.union_ofList]⟩
      · split at h <;> simp at h

theorem ofArguments?_eq_console_iff :
    ofArguments? arguments = some (.console view file switches) ↔
      ∃ front back, Asks view file front back arguments ∧ switches = .ofList (front ++ back) := by
  constructor
  · intro h
    have read : ofSwitches? (.ofList []) arguments = _ := h
    obtain ⟨front, back, asks, _, same⟩ := asks_of_ofSwitches? read
    exact ⟨front, back, asks, same⟩
  · rintro ⟨front, back, asks, rfl⟩
    have read : ofSwitches? (.ofList []) arguments = _ := ofSwitches?_of_asks asks (by simp)
    exact read

end Invocation
end LineCalculator

import LineCalculator.Guarded
import LineCalculator.Proofs.Expression.Arrangement
import LineCalculator.Proofs.Expression.Faults
import LineCalculator.Proofs.Expression.LongestRuns
import LineCalculator.Proofs.Expression.Meaning
import LineCalculator.Proofs.Request.Bytewise

/- No guard is ever needed. Each step finds what it relies on, because of what another has checked: runs are
   made of digits or letters, a counted sign is there, and what waits or is placed is of a known kind. -/
namespace LineCalculator

/-- A run of digits is read as the number that it writes; how other bytes are read is left open. -/
def ReadsDigits (parse : List UInt8 → Option Int) : Prop :=
  ∀ bytes, bytes ≠ [] → (∀ b ∈ bytes, Scanner.isDigit b = true) →
    parse bytes = some (Int.ofNat (Nat.ofDigitChars 10 (bytes.map Char.ofUInt8) 0))

theorem Scanner.isDigit_of_mem_map {bytes : List UInt8} (digits : ∀ b ∈ bytes, isDigit b = true) :
    ∀ c ∈ bytes.map Char.ofUInt8, c.isDigit = true := by
  intro c mem
  obtain ⟨b, inside, rfl⟩ := List.mem_map.mp mem
  exact digits b inside

theorem Bytewise.magnitude?_of_digits {bytes : List UInt8} (filled : bytes ≠ [])
    (digits : ∀ b ∈ bytes, Scanner.isDigit b = true) :
    magnitude? bytes = some (Nat.ofDigitChars 10 (bytes.map Char.ofUInt8) 0) := by
  have decoded := Utf8.decode?_ascii fun b mem => Scanner.ascii_of_isDigit (digits b mem)
  rw [magnitude?, decoded, Option.bind_some, Decimal.readNat?_eq_some_iff]
  exact ⟨⟨by simpa using filled, Scanner.isDigit_of_mem_map digits⟩, rfl⟩

namespace Guarded
variable {parse : List UInt8 → Option Int}

section
variable (reads : ReadsDigits parse)
include reads

theorem parse_eq {bytes : List UInt8} (filled : bytes ≠ [])
    (digits : ∀ b ∈ bytes, Scanner.isDigit b = true) :
    ∃ n : Nat, Bytewise.magnitude? bytes = some n ∧ parse bytes = some (n : Int) :=
  ⟨_, Bytewise.magnitude?_of_digits filled digits, reads bytes filled digits⟩

theorem scanToken_eq {s : Scanner} (lookup : Lookup) (here : s.start = s.current)
    (more : s.current < s.source.size) :
    scanToken parse lookup s =
      ((s.scanToken lookup).1.item.mapError .fault, (s.scanToken lookup).2) := by
  simp only [scanToken, Scanner.scanToken]
  by_cases digit : Scanner.isDigit s.peek = true
  · have run := Scanner.slice_skip here more Scanner.isDigit rfl
    have digits : ∀ b ∈ (s.advance.skip Scanner.isDigit rfl).slice, Scanner.isDigit b = true := by
      rw [run]
      exact List.forall_mem_cons.mpr ⟨digit, List.all_eq_true.mp List.all_takeWhile⟩
    obtain ⟨n, read, parsed⟩ := parse_eq reads (by simp [run]) digits
    rw [Bytewise.magnitude?] at read
    simp only [if_pos digit, scanNumber, Scanner.scanNumber, parsed, read]
    rfl
  · by_cases letter : Scanner.isLetter s.peek = true
    · obtain ⟨text, decoded⟩ :
          ∃ text, Utf8.decode? (s.advance.skip Scanner.isLetter rfl).slice = some text :=
        ⟨_, Scanner.decode_slice_skip here more rfl letter fun _ => Scanner.ascii_of_isLetter⟩
      simp only [if_neg digit, if_pos letter, scanWord, Scanner.scanWord, decoded, Option.getD_some]
      cases value : lookup text <;> simp [Guard.need, value, bind, Except.bind, Except.mapError]
    · simp only [if_neg digit, if_neg letter]

theorem scan_lexeme {s : Scanner} (more : s.current < s.source.size) (lookup : Lookup) :
    ∃ l after, scanToken parse lookup { s with start := s.current } =
        ((l.read lookup s.afterOperand).item.mapError .fault, after) ∧
      s.cursor.rest = l :: after.cursor.rest := by
  obtain ⟨l, after, scan, parted, _⟩ :=
    Scanner.scanToken_eq (s := { s with start := s.current }) lookup rfl more
  have same := scanToken_eq (s := { s with start := s.current }) reads lookup rfl more
  rw [scan] at same
  exact ⟨l, after, same, parted⟩

theorem feed_eq {σ : Type} (take : σ → Token → Except Stop σ) (lookup : Lookup) (state : σ)
    (s : Scanner) :
    feed parse lookup take state s =
      (Lexeme.items lookup s.afterOperand s.cursor.rest).foldlM
        (fun state item => item.mapError .fault >>= take state) state := by
  -- The induction is on the lexemes that are left, one for each token.
  induction left : s.cursor.rest generalizing state s with
  | nil =>
    have ended : s.atEnd = true := by
      by_contra inside
      obtain ⟨l, after, _, parted⟩ := scan_lexeme reads (by simpa [Scanner.atEnd] using inside) lookup
      rw [left] at parted
      contradiction
    rw [feed, if_pos ended]
    rfl
  | cons l rest ih =>
    have more : s.current < s.source.size := by
      by_contra ended
      rw [Scanner.cursor_of_atEnd (Nat.le_of_not_lt ended)] at left
      contradiction
    have inside : s.atEnd = false := by simpa [Scanner.atEnd] using more
    obtain ⟨first, after, scan, parted⟩ := scan_lexeme reads more lookup
    obtain ⟨rfl, others⟩ := List.cons.inj (left.symm.trans parted)
    rw [feed]
    simp only [inside, scan]
    cases item : (l.read lookup s.afterOperand).item with
    | error fault =>
      rw [Lexeme.items_cons_of_error item]
      rfl
    | ok t =>
      rw [Lexeme.items_cons_of_ok item, List.foldlM_cons]
      simp only [Except.mapError, bind, Except.bind]
      cases taken : take state t with
      | error stop => rfl
      | ok next => exact ih next { after with afterOperand := t.endsOperand } others.symm

end

theorem popWhile_eq (leaves : Token → Bool) (yard : Yard) :
    popWhile leaves yard = .ok (yard.release leaves) := by
  obtain ⟨stack, placed⟩ := yard
  induction stack generalizing placed with
  | nil => simp [popWhile, Yard.release]
  | cons top below ih =>
    rw [popWhile]
    cases leave : leaves top with
    | true => simp [popToOutput, ih, Yard.release, leave]
    | false => simp [Yard.release, leave]

theorem step_eq (yard : Yard) (t : Token) : step yard t = (yard.step t).mapError .fault := by
  cases t <;> simp [step, popWhile_eq, Yard.step, Except.mapError, Except.map]

theorem drain_eq {stack : List Token} (waiting : ∀ x ∈ stack, x.endsOperand = false) (placed : List Token) :
    drain placed stack = (Yard.finish ⟨stack, placed⟩).mapError .fault := by
  induction stack generalizing placed with
  | nil => simp [drain, Yard.finish, Except.mapError]
  | cons top below ih =>
    obtain ⟨own, others⟩ := List.forall_mem_cons.mp waiting
    have later := ih others (top :: placed)
    cases top with
    | opening => rfl
    | operation o => simp [drain, later, Yard.finish, Token.isParenthesis]
    | sign s => simp [drain, later, Yard.finish, Token.isParenthesis]
    | _ => contradiction

theorem convert_eq {yard : Yard} (waiting : ∀ x ∈ yard.stack, x.endsOperand = false)
    (items : List (Except Fault Token)) :
    (items.foldlM (fun yard item => item.mapError .fault >>= step yard) yard >>= fun last =>
        drain last.placed last.stack) =
      (yard.convert items).result.mapError .fault := by
  induction items generalizing yard with
  | nil => exact drain_eq waiting yard.placed
  | cons item rest ih =>
    cases item with
    | error fault => rfl
    | ok t =>
      have first : ((Except.ok t).mapError .fault >>= step yard) = (yard.step t).mapError .fault :=
        step_eq yard t
      rw [List.foldlM_cons, first, Yard.convert]
      cases moved : yard.step t with
      | error fault => rfl
      | ok next => exact ih (Yard.waiting_step waiting moved)

theorem collect_eq (front : List Token) (items : List (Except Fault Token)) :
    items.foldlM (fun tokens item => item.mapError Stop.fault >>= fun t => .ok (tokens ++ [t])) front =
      ((items.mapM id).map (front ++ ·)).mapError .fault := by
  induction items generalizing front with
  | nil => simp [Except.map, Except.mapError, pure, Except.pure]
  | cons item rest ih =>
    rw [List.foldlM_cons, List.mapM_cons]
    cases item with
    | error fault => rfl
    | ok t =>
      have later := ih (front ++ [t])
      simp only [Except.mapError, bind, Except.bind, id_eq] at later ⊢
      rw [later]
      cases rest.mapM id <;> simp [Except.map, pure, Except.pure]

theorem plain_of_ofText {lookup : Lookup} {text : List Char} {out : List Token}
    (converted : Postfix.ofText lookup text = .ok out) : ∀ t ∈ out, t.isParenthesis = false := by
  obtain ⟨ts, _, run⟩ := Yard.convert_eq_ok converted
  obtain ⟨last, taken, finished⟩ := Except.bind_eq_ok_iff.mp run
  obtain ⟨closed, rfl⟩ := Yard.finish_eq_ok finished
  obtain ⟨placed, stack, traces⟩ := Yard.traces_of_steps taken
  intro t mem
  rcases List.mem_append.mp mem with early | late
  · rw [List.mem_reverse, ← traces.placed_eq] at early
    obtain ⟨x, inside, rfl⟩ := List.mem_map.mp early
    exact traces.plain x inside
  · have inside : t ≠ .opening := fun same => closed (same ▸ late)
    exact (Token.of_waiting (Yard.waiting_of_steps taken t late) inside).1

theorem push_eq {t : Token} (plain : t.isParenthesis = false) (stack : List Int) :
    push stack t = (Postfix.push stack t).mapError .fault := by
  cases t with
  | operation o =>
    match o, stack with
    | .divide, right :: left :: below =>
      by_cases zero : right = 0
      · simp [push, Postfix.push, zero, Operation.apply, Except.map, Except.mapError]
      · simp [push, Postfix.push, zero, Operation.apply, Except.map, Except.mapError, quotient?, Guard.need]
    | .divide, [] => rfl
    | .divide, [_] => rfl
    | .add, _ => rfl
    | .subtract, _ => rfl
    | .multiply, _ => rfl
  | opening => contradiction
  | closing => contradiction
  | number n => rfl
  | reference name n => rfl
  | sign s => rfl

theorem pushAll_eq {tokens : List Token} (plain : ∀ t ∈ tokens, t.isParenthesis = false) (stack : List Int) :
    tokens.foldlM push stack = (tokens.foldlM Postfix.push stack).mapError .fault := by
  induction tokens generalizing stack with
  | nil => rfl
  | cons t rest ih =>
    obtain ⟨own, others⟩ := List.forall_mem_cons.mp plain
    rw [List.foldlM_cons, List.foldlM_cons, Except.mapError_bind, push_eq own]
    exact congrArg _ (funext (ih others))

section
variable (reads : ReadsDigits parse)
include reads

theorem feed_text {σ : Type} (take : σ → Token → Except Stop σ) (lookup : Lookup) (state : σ)
    (text : List Char) :
    feed parse lookup take state (.ofBytes (Utf8.encode text)) =
      (Token.items lookup text).foldlM (fun state item => item.mapError .fault >>= take state) state := by
  have left : (Scanner.ofBytes (Utf8.encode text)).cursor.rest =
      Lexeme.cut ((Utf8.encode text).map Char.ofUInt8) := by
    simp [Scanner.cursor, Scanner.unread, Scanner.ofBytes]
  have same : Lexeme.items lookup false (Lexeme.cut ((Utf8.encode text).map Char.ofUInt8)) =
      Token.items lookup text := by
    rw [Lexeme.items, Reading.all_encode, Token.items]
  rw [feed_eq reads, left, ← same]
  rfl

theorem tokens_eq (lookup : Lookup) (text : List Char) :
    tokens parse lookup text = (Token.ofText lookup text).mapError .fault := by
  rw [tokens, feed_text reads, collect_eq, Token.ofText]
  cases (Token.items lookup text).mapM id <;> rfl

theorem postfixTokens_eq (lookup : Lookup) (text : List Char) :
    postfixTokens parse lookup text = (Postfix.ofText lookup text).mapError .fault := by
  have none : ∀ x ∈ Yard.empty.stack, x.endsOperand = false := List.forall_mem_nil _
  rw [postfixTokens, feed_text reads]
  exact convert_eq none (Token.items lookup text)

theorem value_eq (lookup : Lookup) (text : List Char) :
    value parse lookup text = (Postfix.ofText lookup text >>= Postfix.value).mapError .fault := by
  rw [value, postfixTokens_eq reads]
  cases converted : Postfix.ofText lookup text with
  | error fault => rfl
  | ok out =>
    have pushed := pushAll_eq (plain_of_ofText converted) []
    calc (out.foldlM push [] >>= fun stack => (Postfix.single stack).mapError .fault)
        = (out.foldlM Postfix.push [] >>= Postfix.single).mapError .fault := by
          rw [pushed, ← Except.mapError_bind]
      _ = (Postfix.value out).mapError .fault := rfl

theorem literal?_eq (text : List Char) : literal? parse text = .ok (Bytewise.readInt? text) := by
  have parts : Bytewise.readInt? text =
      (Bytewise.readNat? (Bytewise.splitSign (Utf8.encode text)).2).map fun n : Nat =>
        if (Bytewise.splitSign (Utf8.encode text)).1 then -(n : Int) else n := rfl
  simp only [literal?, parts, Bytewise.readNat?]
  split
  · rfl
  · next passed =>
    simp only [Bool.or_eq_true, Bool.not_eq_true', not_or, List.isEmpty_iff, Bool.not_eq_false] at passed
    obtain ⟨n, read, parsed⟩ := parse_eq reads passed.1 (List.all_eq_true.mp passed.2)
    rw [read, parsed]
    rfl

theorem rightSide_eq (text : List Char) :
    rightSide parse text =
      match RightSide.ofText? text with
      | some right => .ok right
      | none => .error (.fault .invalidAssignment) := by
  rw [rightSide, literal?_eq reads, ← Bytewise.rightSide?_eq, Bytewise.rightSide?]
  cases Bytewise.readInt? text with
  | some n => rfl
  | none =>
    simp only [bind, Except.bind]
    split <;> rfl

theorem request_eq (line : List Char) :
    request parse line = (Request.ofLine line).mapError .fault := by
  have count : (Utf8.encode line).count '='.toUInt8 = line.count '=' := Utf8.count_encode (by decide) line
  simp only [request, Request.ofLine, count]
  cases number : line.count '=' with
  | zero => rfl
  | succ n =>
    cases n with
    | zero =>
      have mem : '=' ∈ line := List.count_pos_iff.mp (by omega)
      simp only [Bytewise.parts?_of_mem mem, Bytewise.isWord_eq, rightSide_eq reads, Guard.need, bind,
        Except.bind]
      split
      · cases RightSide.ofText? (line.dropWhile (· ≠ '=')).tail <;> rfl
      · rfl
    | succ n => rfl

theorem answer_eq (vars : Variables) (line : List Char) :
    answer parse vars line = ((Line.answer vars line).1.mapError .fault, (Line.answer vars line).2) := by
  rw [answer, Line.answer, request_eq reads]
  cases asked : Request.ofLine (Text.dropBlanks line) with
  | error fault => rfl
  | ok request =>
    cases request with
    | expression text =>
      have plain : vars.value text = (Postfix.ofText vars.get? text >>= Postfix.value) := by
        rw [Request.ofLine_eq_expression asked, Variables.value_dropBlanks]
        rfl
      have valued : (value parse vars.get? text).map some = ((vars.value text).map some).mapError .fault := by
        rw [plain, Except.mapError_map, value_eq reads]
      exact congrArg (·, vars) valued
    | assignment target right =>
      simp only [Except.mapError]
      cases vars.rightValue right <;> rfl

end

theorem readsDigits_decimal : ReadsDigits fun bytes => (Utf8.decode? bytes).bind Decimal.readInt? := by
  intro bytes filled digits
  have decoded := Utf8.decode?_ascii fun b mem => Scanner.ascii_of_isDigit (digits b mem)
  have number := Bytewise.magnitude?_of_digits filled digits
  rw [Bytewise.magnitude?, decoded, Option.bind_some] at number
  have unsigned := Decimal.readInt?_of_digits (Scanner.isDigit_of_mem_map digits)
  simp only [decoded, Option.bind_some, unsigned, number]
  rfl

end Guarded

/-- The guarded steps answer what a line answers and stop at its own faults only, so no guard ever acts, over
    whatever text and variables, and however bytes that are no digits would be read. What has been judged an
    assignment is one when it is answered: it has no value, or it copies an unknown variable. -/
theorem Line.guards_unneeded {parse : List UInt8 → Option Int} (reads : ReadsDigits parse) (vars : Variables)
    (text : List Char) :
    Guarded.answer parse vars text = ((answer vars text).1.mapError .fault, (answer vars text).2) ∧
    Guarded.tokens parse vars.get? (Text.dropBlanks text) = (vars.tokens text).mapError .fault ∧
    Guarded.postfixTokens parse vars.get? (Text.dropBlanks text) = (vars.postfixTokens text).mapError .fault ∧
    ∀ target right, Request.ofLine (Text.dropBlanks text) = .ok (.assignment target right) →
      (answer vars (Text.dropBlanks text)).1 = .ok none ∨
        (answer vars (Text.dropBlanks text)).1 = .error .unknownVariable := by
  refine ⟨Guarded.answer_eq reads vars text, Guarded.tokens_eq reads _ _,
    Guarded.postfixTokens_eq reads _ _, ?_⟩
  intro target right asked
  cases value : vars.rightValue right with
  | ok n =>
    left
    simp [answer, asked, value]
  | error fault =>
    right
    simp [answer, asked, value, Variables.rightValue_eq_error value]

theorem Line.guards_unneeded_zero_divisor :
    let parse := fun bytes => (Utf8.decode? bytes).bind Decimal.readInt?
    let vars := Variables.empty.assign ['x'] 7
    Guarded.answer parse vars "6 / (x - 7)".toList = (.error (.fault .divisionByZero), vars) ∧
      Request.ofLine (Text.dropBlanks "y = z".toList) = .ok (.assignment ['y'] (.copyOf ['z'])) ∧
      ((answer vars (Text.dropBlanks "y = z".toList)).1 = .ok none ∨
        (answer vars (Text.dropBlanks "y = z".toList)).1 = .error .unknownVariable) := by
  intro parse vars
  have divided : answer vars "6 / (x - 7)".toList = (.error .divisionByZero, vars) := by rfl
  have copied : Request.ofLine (Text.dropBlanks "y = z".toList) = .ok (.assignment ['y'] (.copyOf ['z'])) := by
    decide
  obtain ⟨answered, _⟩ := guards_unneeded Guarded.readsDigits_decimal vars "6 / (x - 7)".toList
  obtain ⟨_, _, _, assigned⟩ := guards_unneeded Guarded.readsDigits_decimal vars "y = z".toList
  rw [divided] at answered
  exact ⟨answered, copied, assigned _ _ copied⟩

/-- Guards act where nothing has been checked before them. -/
example : Guarded.drain [] [.closing] = .error (.guard .noClosing) ∧
    Guarded.popToOutput .empty = .error (.guard .waitingToken) ∧
    Guarded.push [] .opening = .error (.guard .noParenthesis) := ⟨rfl, rfl, rfl⟩

example : (Guarded.answer (fun _ => none) .empty "x = 1".toList).1 = .error (.guard .literalNumber) := by
  decide

end LineCalculator

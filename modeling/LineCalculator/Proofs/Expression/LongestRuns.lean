import LineCalculator.Proofs.Expression.Faults
import LineCalculator.Proofs.Expression.Places
import LineCalculator.Proofs.Expression.Scanning

/- What a scanner reads from any bytes, said of the longest runs in them: one token for each lexeme in front of
   the first that is none in its place, then its fault, then nothing any more. -/
namespace LineCalculator

namespace Lexeme

/-- The lexemes are the text in longest runs of digits, longest runs of letters, and single marks. -/
structure Cuts (text : List Char) (lexemes : List Lexeme) : Prop where
  spelled : lexemes.flatMap Lexeme.text = text
  proper : ∀ l ∈ lexemes, l.Proper
  apart : Apart lexemes

theorem cuts_iff {text : List Char} {lexemes : List Lexeme} : Cuts text lexemes ↔ lexemes = cut text := by
  constructor
  · rintro ⟨rfl, proper, apart⟩
    exact (cut_flatMap_text proper apart).symm
  · rintro rfl
    exact ⟨cut_text text, cut_proper text, cut_apart text⟩

instance (text : List Char) (lexemes : List Lexeme) : Decidable (Cuts text lexemes) :=
  decidable_of_iff _ cuts_iff.symm

def asked : Lexeme → Option Name
  | .word name => some name
  | _ => none

def token (lookup : Lookup) (ended : Bool) : Lexeme → Token
  | .digits text => .number (Nat.ofDigitChars 10 text 0)
  | .word name => .reference name ((lookup name).getD 0)
  | .mark '+' => if ended then .operation .add else .sign .plus
  | .mark '-' => if ended then .operation .subtract else .sign .minus
  | .mark '*' => .operation .multiply
  | .mark '/' => .operation .divide
  | .mark '(' => .opening
  | .mark _ => .closing

/-- What is read of lexemes that are all tokens in their places. -/
def readings (lookup : Lookup) (ended : Bool) : List Lexeme → List Reading
  | [] => []
  | l :: rest => ⟨.ok (l.token lookup ended), l.asked⟩ :: readings lookup l.endsOperand rest

variable {lookup : Lookup} {ended : Bool} {l : Lexeme} {t : Token} {before lexemes : List Lexeme}

theorem asked_read (lookup : Lookup) (ended : Bool) (l : Lexeme) : (l.read lookup ended).asked = l.asked := by
  cases l with
  | digits text => cases value : Decimal.readNat? text <;> simp [Lexeme.read, value, asked]
  | word name => cases value : lookup name <;> simp [Lexeme.read, value, asked]
  | mark c => rfl

theorem token_of_read (read : (l.read lookup ended).item = .ok t) : t = l.token lookup ended := by
  rcases read_eq_ok read with ⟨text, n, rfl, value, rfl⟩ | ⟨name, n, rfl, value, rfl⟩ | ⟨c, rfl, mark⟩
  · rw [token, (Decimal.readNat?_eq_some_iff.mp value).2]
  · rw [token, value, Option.getD_some]
  · rcases Token.ofMark_eq_ok mark with ⟨o, rfl, rfl, rfl⟩ | ⟨s, rfl, rfl, rfl⟩ | ⟨rfl, rfl⟩ | ⟨rfl, rfl⟩
    · cases o <;> rfl
    · cases s <;> rfl
    · rfl
    · rfl

theorem read_of_good (proper : l.Proper) (good : ¬ l.Bad lookup ended) :
    l.read lookup ended = ⟨.ok (l.token lookup ended), l.asked⟩ := by
  obtain ⟨t, read⟩ := read_of_not_bad proper good
  rw [← asked_read lookup ended, ← token_of_read read, ← read]

theorem read_of_bad (bad : l.Bad lookup ended) :
    l.read lookup ended = ⟨.error .invalidExpression, l.asked⟩ := by
  have refused : (l.read lookup ended).item = .error .invalidExpression := by
    cases item : (l.read lookup ended).item with
    | ok t => exact absurd bad (not_bad_of_read item)
    | error fault => rw [read_eq_error item]
  rw [← asked_read lookup ended, ← refused]

theorem all_of_good (proper : ∀ l ∈ before, l.Proper) (good : Good lookup ended before)
    (rest : List Lexeme) :
    Reading.all lookup ended (before ++ rest) =
      readings lookup ended before ++ Reading.all lookup (endedBy ended before) rest := by
  induction before generalizing ended with
  | nil => rfl
  | cons l before ih =>
    obtain ⟨fine, others⟩ := good_cons_iff.mp good
    have here := read_of_good (proper l (by simp)) fine
    have behind : (l.token lookup ended).endsOperand = l.endsOperand :=
      endsOperand_of_read (congrArg Reading.item here)
    have later := ih (fun m mem => proper m (by simp [mem])) others
    simp only [List.cons_append, Reading.all, readings, here, behind, later, endedBy_cons]

theorem all_of_bad (bad : l.Bad lookup ended) (rest : List Lexeme) :
    Reading.all lookup ended (l :: rest) = [⟨.error .invalidExpression, l.asked⟩] := by
  simp only [Reading.all, read_of_bad bad]

end Lexeme

theorem Cursor.calls_eq_all (lookup : Lookup) (cursor : Cursor) (n : Nat) :
    cursor.calls lookup n =
      (List.range n).map fun i => (Reading.all lookup cursor.afterOperand cursor.rest)[i]? := by
  induction n generalizing cursor with
  | zero => rfl
  | succ n ih =>
    obtain ⟨rest, ended⟩ := cursor
    rw [List.range_succ_eq_map, List.map_cons, List.map_map]
    simp only [calls, ih]
    cases rest with
    | nil => simp [next, Reading.all, Function.comp_def]
    | cons l rest =>
      cases item : (l.read lookup ended).item with
      | ok t => simp [next, Reading.all, item, Function.comp_def]
      | error fault => simp [next, Reading.all, item, Function.comp_def]

theorem Scanner.calls_eq_all (lookup : Lookup) (source : List UInt8) (n : Nat) :
    (ofBytes source).calls lookup n =
      (List.range n).map fun i => (Reading.all lookup false (Lexeme.cut (source.map Char.ofUInt8)))[i]? := by
  have start : (ofBytes source).cursor = ⟨Lexeme.cut (source.map Char.ofUInt8), false⟩ := by
    simp [cursor, unread, ofBytes]
  rw [calls_eq, start, Cursor.calls_eq_all]

theorem Reading.filterMap_asked_range (readings : List Reading) (n : Nat) :
    ((List.range n).map (readings[·]?)).filterMap (·.bind Reading.asked) =
      (readings.take n).filterMap Reading.asked := by
  induction n generalizing readings with
  | zero => rfl
  | succ n ih =>
    rw [List.range_succ_eq_map, List.map_cons, List.map_map]
    cases readings with
    | nil => simp [Function.comp_def]
    | cons first rest =>
      have later := ih rest
      simp only [List.filterMap_cons, List.getElem?_cons_zero, Option.bind_some, List.take_succ_cons,
        Function.comp_def, List.getElem?_cons_succ, later]

theorem Lexeme.map_asked_readings (lookup : Lookup) (ended : Bool) (lexemes : List Lexeme) :
    (readings lookup ended lexemes).map Reading.asked = lexemes.map asked := by
  induction lexemes generalizing ended with
  | nil => rfl
  | cons l rest ih => simp [readings, ih]

theorem Scanner.asked_of_calls {lookup : Lookup} {s : Scanner} {readings : List Reading} {lexemes : List Lexeme}
    {n : Nat} (calls : s.calls lookup n = (List.range n).map (readings[·]?))
    (same : readings.map Reading.asked = lexemes.map Lexeme.asked) :
    (s.calls lookup n).filterMap (·.bind Reading.asked) = (lexemes.take n).filterMap Lexeme.asked := by
  calc (s.calls lookup n).filterMap (·.bind Reading.asked)
      = (readings.take n).filterMap Reading.asked := by rw [calls, Reading.filterMap_asked_range]
    _ = ((readings.map Reading.asked).take n).filterMap id := by
      rw [← List.map_take, List.filterMap_map, Function.id_comp]
    _ = (lexemes.take n).filterMap Lexeme.asked := by
      rw [same, ← List.map_take, List.filterMap_map, Function.id_comp]

/-- Any bytes are cut into longest runs of digits, longest runs of letters and single marks in one way only.
    The calls of a scanner give, one by one, what is read of the lexemes in front of the first bad one, then
    its fault, and nothing ever after. The words up to there are asked for once each, in their order. -/
theorem Scanner.calls_exact (lookup : Lookup) (source : List UInt8) :
    ∃ lexemes, (∀ other, Lexeme.Cuts (source.map Char.ofUInt8) other ↔ other = lexemes) ∧
      (Lexeme.Good lookup false lexemes → ∀ n,
        (ofBytes source).calls lookup n =
          (List.range n).map ((Lexeme.readings lookup false lexemes)[·]?) ∧
        ((ofBytes source).calls lookup n).filterMap (·.bind Reading.asked) =
          (lexemes.take n).filterMap Lexeme.asked) ∧
      ∀ before bad rest, lexemes = before ++ bad :: rest → Lexeme.Good lookup false before →
        bad.Bad lookup (Lexeme.endedBy false before) → ∀ n,
          (ofBytes source).calls lookup n = (List.range n).map
            ((Lexeme.readings lookup false before ++ [⟨.error .invalidExpression, bad.asked⟩])[·]?) ∧
          ((ofBytes source).calls lookup n).filterMap (·.bind Reading.asked) =
            ((before ++ [bad]).take n).filterMap Lexeme.asked := by
  have proper := Lexeme.cut_proper (source.map Char.ofUInt8)
  refine ⟨Lexeme.cut (source.map Char.ofUInt8), fun _ => Lexeme.cuts_iff, ?_, ?_⟩
  · intro good n
    have all := Lexeme.all_of_good proper good []
    simp only [List.append_nil, Reading.all] at all
    have calls := calls_eq_all lookup source n
    rw [all] at calls
    exact ⟨calls, asked_of_calls calls (Lexeme.map_asked_readings ..)⟩
  · intro before bad rest parts good faulty n
    rw [parts] at proper
    have all := Lexeme.all_of_good (fun l mem => proper l (by simp [mem])) good (bad :: rest)
    rw [Lexeme.all_of_bad faulty] at all
    have calls := calls_eq_all lookup source n
    rw [parts, all] at calls
    have same : (Lexeme.readings lookup false before ++ [Reading.mk (.error .invalidExpression) bad.asked]).map
        Reading.asked = (before ++ [bad]).map Lexeme.asked := by
      simp [Lexeme.map_asked_readings]
    exact ⟨calls, asked_of_calls calls same⟩

theorem Scanner.calls_exact_of_zero_byte :
    (ofBytes [48, 55, 97, 45, 0, 98]).calls (fun name => if name = ['a'] then some 5 else none) 6 =
      [some ⟨.ok (.number 7), none⟩, some ⟨.ok (.reference ['a'] 5), some ['a']⟩,
        some ⟨.ok (.operation .subtract), none⟩, some ⟨.error .invalidExpression, none⟩, none, none] := by
  obtain ⟨lexemes, unique, _, stops⟩ := calls_exact (fun name => if name = ['a'] then some 5 else none)
    [48, 55, 97, 45, 0, 98]
  have cut : [.digits ['0', '7'], .word ['a'], .mark '-', .mark '\x00', .word ['b']] = lexemes :=
    (unique _).mp (by decide)
  exact (stops [.digits ['0', '7'], .word ['a'], .mark '-'] (.mark '\x00') [.word ['b']] cut.symm
    (by decide) (by decide) 6).1

theorem Lexeme.foreign_of_wide {c : Char} (wide : 0x80 ≤ c.toNat) :
    (mark c).Proper ∧ ∀ lookup ended, (mark c).Bad lookup ended := by
  refine ⟨⟨?_, ?_⟩, fun _ _ => .foreign ?_⟩
  · refine Bool.eq_false_iff.mpr fun digit => ?_
    have bound := (Char.isDigit_iff_toNat.mp digit).2
    exact absurd (Nat.le_trans wide bound) (by decide)
  · refine Bool.eq_false_iff.mpr fun letter => ?_
    have bound := (toNat_bounds_of_isAlpha letter).2
    omega
  · intro mem
    simp only [List.mem_cons, List.not_mem_nil, or_false] at mem
    rcases mem with rfl | rfl | rfl | rfl | rfl | rfl <;> exact absurd wide (by decide)

theorem Reading.all_append_foreign {lookup : Lookup} {c d : Char}
    (strange : ∀ ended, (Lexeme.mark c).Bad lookup ended) (other : ∀ ended, (Lexeme.mark d).Bad lookup ended)
    (ended : Bool) (before rest others : List Lexeme) :
    all lookup ended (before ++ .mark c :: rest) = all lookup ended (before ++ .mark d :: others) := by
  induction before generalizing ended with
  | nil => exact (Lexeme.all_of_bad (strange ended) rest).trans (Lexeme.all_of_bad (other ended) others).symm
  | cons l before ih =>
    simp only [List.cons_append, all, ih]

theorem Reading.all_encode (lookup : Lookup) (text : List Char) :
    all lookup false (Lexeme.cut ((Utf8.encode text).map Char.ofUInt8)) =
      all lookup false (Lexeme.cut text) := by
  rcases Utf8.map_encode text with same | ⟨front, c, rest, d, others, parts, wide, bytes, large⟩
  · rw [same]
  · -- character and first byte are marks of no expression, and nothing is read behind such a mark
    obtain ⟨mark, strange⟩ := Lexeme.foreign_of_wide wide
    obtain ⟨markByte, strangeByte⟩ := Lexeme.foreign_of_wide large
    rw [parts] at bytes ⊢
    rw [bytes, Lexeme.cut_append_mark mark, Lexeme.cut_append_mark markByte,
      all_append_foreign (strange lookup) (strangeByte lookup)]

theorem Scanner.calls_encode (lookup : Lookup) (text : List Char) (n : Nat) :
    (ofBytes (Utf8.encode text)).calls lookup n = (Cursor.ofText text).calls lookup n := by
  rw [calls_eq_all, Cursor.calls_eq_all, Cursor.ofText, Reading.all_encode]

end LineCalculator

import LineCalculator.Expression.Scanner
import LineCalculator.Proofs.Expression.Reading
import LineCalculator.Proofs.Text.Ascii

/- A scanner moves over bytes as a cursor moves over the lexemes that they are cut into: a run that is skipped
   byte by byte is the longest one, and the byte that is seen at the end never belongs to it. -/
namespace LineCalculator

namespace Scanner
variable {s : Scanner}

def unread (s : Scanner) : List UInt8 := s.source.toList.drop s.current

def cursor (s : Scanner) : Cursor := ⟨Lexeme.cut (s.unread.map Char.ofUInt8), s.afterOperand⟩

theorem unread_of_atEnd (ended : s.source.size ≤ s.current) : s.unread = [] := by
  simp [unread, ended]

theorem unread_of_not_atEnd (more : s.current < s.source.size) : s.unread = s.peek :: s.advance.unread := by
  have bound : s.current < s.source.toList.length := more
  rw [unread, List.drop_eq_getElem_cons bound]
  simp [peek, advance, unread, more]

theorem skip_eq (belongs : UInt8 → Bool) (ends : belongs 0 = false) (s : Scanner) :
    s.skip belongs ends = { s with current := s.current + (s.unread.takeWhile belongs).length } := by
  induction s using skip.induct belongs ends with
  | case1 s more ih =>
    have before : s.current < s.source.size := by
      by_contra after
      rw [peek_eq_zero_of_atEnd (Nat.le_of_not_lt after), ends] at more
      contradiction
    rw [skip, dif_pos more, ih, unread_of_not_atEnd before, List.takeWhile_cons_of_pos more]
    simp only [advance, List.length_cons, Nat.add_assoc, Nat.add_comm 1]
  | case2 s stop =>
    have none : s.unread.takeWhile belongs = [] := by
      by_cases before : s.current < s.source.size
      · rw [unread_of_not_atEnd before, List.takeWhile_cons_of_neg stop]
      · rw [unread_of_atEnd (Nat.le_of_not_lt before), List.takeWhile_nil]
    rw [skip, dif_neg stop, none]
    rfl

theorem unread_skip (belongs : UInt8 → Bool) (ends : belongs 0 = false) (s : Scanner) :
    (s.skip belongs ends).unread = s.unread.dropWhile belongs := by
  have parted : s.unread.takeWhile belongs ++ s.unread.dropWhile belongs = s.unread :=
    List.takeWhile_append_dropWhile
  calc (s.skip belongs ends).unread
      = s.unread.drop (s.unread.takeWhile belongs).length := by
        rw [skip_eq, unread, unread, List.drop_drop]
    _ = (s.unread.takeWhile belongs ++ s.unread.dropWhile belongs).drop
          (s.unread.takeWhile belongs).length := by rw [parted]
    _ = s.unread.dropWhile belongs := List.drop_left

theorem slice_skip (here : s.start = s.current) (more : s.current < s.source.size)
    (belongs : UInt8 → Bool) (ends : belongs 0 = false) :
    (s.advance.skip belongs ends).slice = s.peek :: s.advance.unread.takeWhile belongs := by
  have front : s.unread.take ((s.advance.unread.takeWhile belongs).length + 1) =
      s.peek :: s.advance.unread.takeWhile belongs := by
    rw [unread_of_not_atEnd more, List.take_succ_cons]
    congr 1
    exact (List.prefix_iff_eq_take.mp (List.takeWhile_prefix belongs)).symm
  rw [← front, skip_eq, slice, Array.toList_extract, List.extract_eq_take_drop]
  simp only [advance, here, unread]
  congr 1
  omega

theorem cut_run {belongs : UInt8 → Bool} {l : Lexeme} {b : UInt8} {rest : List UInt8} (proper : l.Proper)
    (takes : ∀ x, l.takes (Char.ofUInt8 x) = belongs x)
    (text : l.text = (b :: rest.takeWhile belongs).map Char.ofUInt8) :
    Lexeme.cut ((b :: rest).map Char.ofUInt8) =
      l :: Lexeme.cut ((rest.dropWhile belongs).map Char.ofUInt8) := by
  have parts : (b :: rest).map Char.ofUInt8 = l.text ++ (rest.dropWhile belongs).map Char.ofUInt8 := by
    rw [text, ← List.map_append, List.cons_append, List.takeWhile_append_dropWhile]
  rw [parts]
  refine Lexeme.cut_append_of_stop proper ?_
  intro c first
  rw [List.head?_map] at first
  obtain ⟨x, next, rfl⟩ := Option.map_eq_some_iff.mp first
  have stop := List.head?_dropWhile_not belongs rest
  rw [next] at stop
  rw [takes]
  exact stop

theorem ascii_of_isDigit {b : UInt8} (digit : isDigit b = true) : b.toNat < 0x80 := by
  have bound := (Char.isDigit_iff_toNat.mp digit).2
  rw [Utf8.toNat_ofUInt8] at bound
  exact Nat.lt_of_le_of_lt bound (by decide)

theorem ascii_of_isLetter {b : UInt8} (letter : isLetter b = true) : b.toNat < 0x80 := by
  have bound := (toNat_bounds_of_isAlpha letter).2
  rw [Utf8.toNat_ofUInt8] at bound
  omega

theorem decode_slice_skip (here : s.start = s.current) (more : s.current < s.source.size)
    {belongs : UInt8 → Bool} (ends : belongs 0 = false) (own : belongs s.peek = true)
    (ascii : ∀ x, belongs x = true → x.toNat < 0x80) :
    Utf8.decode? (s.advance.skip belongs ends).slice =
      some ((s.peek :: s.advance.unread.takeWhile belongs).map Char.ofUInt8) := by
  rw [slice_skip here more]
  apply Utf8.decode?_ascii
  intro x mem
  rcases List.mem_cons.mp mem with rfl | inside
  · exact ascii _ own
  · exact ascii _ (List.all_eq_true.mp List.all_takeWhile x inside)

theorem run_skip (here : s.start = s.current) (more : s.current < s.source.size) {belongs : UInt8 → Bool}
    (ends : belongs 0 = false) (own : belongs s.peek = true) (ascii : ∀ x, belongs x = true → x.toNat < 0x80)
    {l : Lexeme} (takes : ∀ x, l.takes (Char.ofUInt8 x) = belongs x) (proper : l.Proper)
    (text : l.text = (s.peek :: s.advance.unread.takeWhile belongs).map Char.ofUInt8) :
    Utf8.decode? (s.advance.skip belongs ends).slice = some l.text ∧
      s.cursor.rest = l :: (s.advance.skip belongs ends).cursor.rest := by
  constructor
  · rw [text]
    exact decode_slice_skip here more ends own ascii
  · rw [cursor, cursor, unread_skip, unread_of_not_atEnd more]
    exact cut_run proper takes text

theorem scanNumber_eq {text : List Char} (decoded : Utf8.decode? (s.skip isDigit rfl).slice = some text)
    (lookup : Lookup) (ended : Bool) :
    s.scanNumber = ((Lexeme.digits text).read lookup ended, s.skip isDigit rfl) := by
  simp only [scanNumber, decoded, Option.bind_some, Lexeme.read]
  cases Decimal.readNat? text <;> rfl

theorem scanWord_eq {text : List Char} (decoded : Utf8.decode? (s.skip isLetter rfl).slice = some text)
    (lookup : Lookup) (ended : Bool) :
    s.scanWord lookup = ((Lexeme.word text).read lookup ended, s.skip isLetter rfl) := by
  simp only [scanWord, decoded, Option.getD_some, Lexeme.read]
  cases lookup text <;> rfl

theorem scanToken_eq (lookup : Lookup) (here : s.start = s.current) (more : s.current < s.source.size) :
    ∃ l after, s.scanToken lookup = (l.read lookup s.afterOperand, after) ∧
      s.cursor.rest = l :: after.cursor.rest ∧ after.afterOperand = s.afterOperand := by
  have kept : ∀ belongs ends, (s.advance.skip belongs ends).afterOperand = s.afterOperand := by
    intro belongs ends
    rw [skip_eq]
    rfl
  by_cases digit : isDigit s.peek = true
  · have proper : (Lexeme.digits ((s.peek :: s.advance.unread.takeWhile isDigit).map Char.ofUInt8)).Proper := by
      refine ⟨by simp, ?_⟩
      simpa using ⟨digit, List.all_eq_true.mp List.all_takeWhile⟩
    obtain ⟨decoded, parted⟩ :=
      run_skip here more rfl digit (fun _ => ascii_of_isDigit) (fun _ => rfl) proper rfl
    refine ⟨_, _, ?_, parted, kept isDigit rfl⟩
    simp only [scanToken, if_pos digit]
    exact scanNumber_eq decoded lookup s.afterOperand
  · by_cases letter : isLetter s.peek = true
    · have proper : (Lexeme.word ((s.peek :: s.advance.unread.takeWhile isLetter).map Char.ofUInt8)).Proper := by
        refine (Name.isWord_iff _).mpr ⟨by simp, ?_⟩
        simpa using ⟨letter, List.all_eq_true.mp List.all_takeWhile⟩
      obtain ⟨decoded, parted⟩ :=
        run_skip here more rfl letter (fun _ => ascii_of_isLetter) (fun _ => rfl) proper rfl
      refine ⟨_, _, ?_, parted, kept isLetter rfl⟩
      simp only [scanToken, if_neg digit, if_pos letter]
      exact scanWord_eq decoded lookup s.afterOperand
    · refine ⟨.mark (Char.ofUInt8 s.peek), s.advance, ?_, ?_, rfl⟩
      · simp only [scanToken, if_neg digit, if_neg letter]
        rfl
      · have mark : (Lexeme.mark (Char.ofUInt8 s.peek)).Proper :=
          ⟨Bool.eq_false_iff.mpr digit, Bool.eq_false_iff.mpr letter⟩
        rw [cursor, cursor, unread_of_not_atEnd more, List.map_cons]
        exact Lexeme.cut_mark_cons mark _

theorem cursor_of_atEnd (ended : s.source.size ≤ s.current) : s.cursor = ⟨[], s.afterOperand⟩ := by
  rw [cursor, unread_of_atEnd ended]
  rfl

theorem next_eq (lookup : Lookup) (s : Scanner) :
    (s.next lookup).1 = (s.cursor.next lookup).1 ∧
      (s.next lookup).2.cursor = (s.cursor.next lookup).2 := by
  by_cases more : s.current < s.source.size
  · obtain ⟨l, after, scan, parted, kept⟩ := scanToken_eq (s := { s with start := s.current }) lookup rfl more
    have rest : s.cursor = ⟨l :: after.cursor.rest, s.afterOperand⟩ := by
      rw [← parted]
      rfl
    have inside : s.atEnd = false := by simpa [atEnd] using more
    simp only [next, inside, scan, rest, Cursor.next]
    cases item : (l.read lookup s.afterOperand).item with
    | ok t => exact ⟨rfl, rfl⟩
    | error fault =>
      have ended : cursor { after with current := after.source.size } = ⟨[], after.afterOperand⟩ :=
        cursor_of_atEnd (Nat.le_refl _)
      exact ⟨rfl, ended.trans (by rw [kept])⟩
  · have ended : s.source.size ≤ s.current := Nat.le_of_not_lt more
    have atEnd : s.atEnd = true := by simpa [Scanner.atEnd] using ended
    simp only [next, atEnd, cursor_of_atEnd ended, Cursor.next]
    exact ⟨rfl, cursor_of_atEnd ended⟩

theorem calls_eq (lookup : Lookup) (s : Scanner) (n : Nat) :
    s.calls lookup n = s.cursor.calls lookup n := by
  induction n generalizing s with
  | zero => rfl
  | succ n ih =>
    obtain ⟨reading, after⟩ := next_eq lookup s
    simp only [calls, Cursor.calls]
    rw [ih, reading, after]

end Scanner
end LineCalculator

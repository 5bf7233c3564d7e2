import Mathlib.Data.List.TakeWhile
import LineCalculator.Proofs.Text.Ascii
import LineCalculator.Request.Bytewise

/- Judging a line by its bytes is judging it by its characters: no byte of a character outside ASCII is taken
   for an equals sign, a letter, a digit or a sign, and what has passed as digits has a number. -/
namespace LineCalculator

namespace Utf8

theorem encode_cons (c : Char) (text : List Char) :
    encode (c :: text) = String.utf8EncodeChar c ++ encode text := rfl

theorem encode_cons_ascii {c : Char} (ascii : c.toNat < 0x80) (text : List Char) :
    encode (c :: text) = c.toUInt8 :: encode text := by
  rw [encode_cons, encodeChar_ascii ascii]
  rfl

theorem encode_isEmpty (text : List Char) : (encode text).isEmpty = text.isEmpty := by
  cases text with
  | nil => rfl
  | cons c text =>
    have some : String.utf8EncodeChar c ≠ [] := String.utf8EncodeChar_ne_nil
    simp [encode_cons, some]

theorem toNat_toUInt8 {c : Char} (ascii : c.toNat < 0x80) : c.toUInt8.toNat = c.toNat := by
  have size : c.toUInt8.toNat = c.toNat % 256 := UInt8.toNat_ofNat'
  omega

theorem toUInt8_inj {c d : Char} (first : c.toNat < 0x80) (second : d.toNat < 0x80) :
    c.toUInt8 = d.toUInt8 ↔ c = d := by
  constructor
  · intro same
    apply Char.toNat_inj.mp
    rw [← toNat_toUInt8 first, same, toNat_toUInt8 second]
  · intro same
    rw [same]

section
variable {belongs : Char → Bool} (ascii : ∀ c, belongs c = true → c.toNat < 0x80)
include ascii

theorem not_belongs_of_wide {c : Char} (wide : 0x80 ≤ c.toNat) : belongs c = false := by
  cases inside : belongs c with
  | false => rfl
  | true =>
    have narrow := ascii c inside
    omega

theorem all_encode (text : List Char) :
    (encode text).all (fun b => belongs (Char.ofUInt8 b)) = text.all belongs := by
  induction text with
  | nil => rfl
  | cons c text ih =>
    by_cases narrow : c.toNat < 0x80
    · have back : Char.ofUInt8 c.toUInt8 = c := ofUInt8_ofNat narrow
      rw [encode_cons_ascii narrow, List.all_cons, List.all_cons, back, ih]
    · have wide : 0x80 ≤ c.toNat := Nat.le_of_not_lt narrow
      obtain ⟨b, more, bytes, large⟩ := encodeChar_wide wide
      have other : belongs c = false := not_belongs_of_wide ascii wide
      have foreign : belongs (Char.ofUInt8 b) = false :=
        not_belongs_of_wide ascii (by rwa [toNat_ofUInt8])
      simp [encode_cons, bytes, other, foreign]

end

section
variable {m : Char} (ascii : m.toNat < 0x80)
include ascii

theorem count_encode (text : List Char) : (encode text).count m.toUInt8 = text.count m := by
  induction text with
  | nil => rfl
  | cons c text ih =>
    by_cases narrow : c.toNat < 0x80
    · have same : (c.toUInt8 == m.toUInt8) = (c == m) := by
        rw [Bool.eq_iff_iff, beq_iff_eq, beq_iff_eq, toUInt8_inj narrow ascii]
      rw [encode_cons_ascii narrow, List.count_cons, List.count_cons, ih, same]
    · have wide : 0x80 ≤ c.toNat := Nat.le_of_not_lt narrow
      have none : (String.utf8EncodeChar c).count m.toUInt8 = 0 := by
        rw [List.count_eq_zero]
        intro mem
        have large := wide_of_mem_encodeChar wide _ mem
        rw [toNat_toUInt8 ascii] at large
        omega
      have apart : c ≠ m := by
        intro same
        rw [same] at wide
        omega
      rw [encode_cons, List.count_append, none, ih, List.count_cons_of_ne apart, Nat.zero_add]

theorem head?_encode (text : List Char) :
    (encode text).head? = some m.toUInt8 ↔ text.head? = some m := by
  cases text with
  | nil => simp [encode]
  | cons c text =>
    by_cases narrow : c.toNat < 0x80
    · rw [encode_cons_ascii narrow, List.head?_cons, List.head?_cons, Option.some_inj, Option.some_inj,
        toUInt8_inj narrow ascii]
    · have wide : 0x80 ≤ c.toNat := Nat.le_of_not_lt narrow
      obtain ⟨b, more, bytes, large⟩ := encodeChar_wide wide
      rw [encode_cons, bytes, List.cons_append, List.head?_cons, List.head?_cons, Option.some_inj,
        Option.some_inj]
      constructor
      · intro same
        rw [same, toNat_toUInt8 ascii] at large
        omega
      · intro same
        rw [same] at wide
        omega

end

theorem decode?_encode_ascii {text : List Char} (ascii : ∀ c ∈ text, c.toNat < 0x80) :
    decode? (encode text) = some text := by
  have narrow : ∀ b ∈ text.map Char.toUInt8, b.toNat < 0x80 := by
    intro b mem
    obtain ⟨c, inside, rfl⟩ := List.mem_map.mp mem
    rw [toNat_toUInt8 (ascii c inside)]
    exact ascii c inside
  have back : (text.map Char.toUInt8).map Char.ofUInt8 = text := by
    rw [List.map_map]
    calc text.map (Char.ofUInt8 ∘ Char.toUInt8)
        = text.map fun c => c := List.map_congr_left fun c mem => ofUInt8_ofNat (ascii c mem)
      _ = text := List.map_id' text
  have decoded : decode? (encode ((text.map Char.toUInt8).map Char.ofUInt8)) =
      some ((text.map Char.toUInt8).map Char.ofUInt8) := by
    rw [encode_ascii narrow, decode?_ascii narrow]
  rwa [back] at decoded

end Utf8

namespace Bytewise

theorem isWord_eq (text : List Char) : isWord text = Name.isWord text := by
  have ascii : ∀ c : Char, c.isAlpha = true → c.toNat < 0x80 := by
    intro c letter
    have bound := (toNat_bounds_of_isAlpha letter).2
    omega
  have letters : (Utf8.encode text).all Scanner.isLetter = text.all Char.isAlpha :=
    Utf8.all_encode ascii text
  simp only [isWord, Name.isWord, Utf8.encode_isEmpty, letters]

theorem ascii_of_isDigit {c : Char} (digit : c.isDigit = true) : c.toNat < 0x80 := by
  have bound : c.toNat ≤ 57 := (Char.isDigit_iff_toNat.mp digit).2
  omega

theorem magnitude?_encode {text : List Char} (digits : ∀ c ∈ text, c.isDigit = true) :
    magnitude? (Utf8.encode text) = Decimal.readNat? text := by
  have decoded := Utf8.decode?_encode_ascii fun c mem => ascii_of_isDigit (digits c mem)
  rw [magnitude?, decoded, Option.bind_some]

theorem readNat?_encode (text : List Char) : readNat? (Utf8.encode text) = Decimal.readNat? text := by
  have same : (Utf8.encode text).all Scanner.isDigit = text.all Char.isDigit :=
    Utf8.all_encode (fun _ => ascii_of_isDigit) text
  simp only [readNat?, Utf8.encode_isEmpty, same, Bool.or_eq_true, Bool.not_eq_true', List.isEmpty_iff]
  split
  · next refused =>
    have none : ¬(text ≠ [] ∧ text.all Char.isDigit = true) := by
      intro both
      rcases refused with empty | other
      · exact both.1 empty
      · rw [both.2] at other
        contradiction
    rw [Decimal.readNat?, if_neg none]
  · next passed =>
    have digits : text.all Char.isDigit = true := by
      cases all : text.all Char.isDigit with
      | true => rfl
      | false => exact absurd (Or.inr all) passed
    exact magnitude?_encode (List.all_eq_true.mp digits)

theorem splitSign_encode (text : List Char) :
    splitSign (Utf8.encode text) =
      if text.head? = some '-' then (true, Utf8.encode text.tail)
      else if text.head? = some '+' then (false, Utf8.encode text.tail)
      else (false, Utf8.encode text) := by
  have tail : ∀ m : Char, m.toNat < 0x80 → text.head? = some m →
      (Utf8.encode text).tail = Utf8.encode text.tail := by
    intro m ascii head
    obtain ⟨rest, parts⟩ := List.head?_eq_some_iff.mp head
    rw [parts, Utf8.encode_cons_ascii ascii, List.tail_cons, List.tail_cons]
  have minus : (Utf8.encode text).head? = some '-'.toUInt8 ↔ _ := Utf8.head?_encode (by decide) text
  have plus : (Utf8.encode text).head? = some '+'.toUInt8 ↔ _ := Utf8.head?_encode (by decide) text
  simp only [splitSign, minus, plus]
  split
  · next first => rw [tail '-' (by decide) first]
  · split
    · next first => rw [tail '+' (by decide) first]
    · rfl

theorem readInt?_eq (text : List Char) : readInt? text = Decimal.readInt? text := by
  have parts : readInt? text = (readNat? (splitSign (Utf8.encode text)).2).map fun n : Nat =>
      if (splitSign (Utf8.encode text)).1 then -(n : Int) else n := rfl
  rw [parts, splitSign_encode]
  by_cases minus : text.head? = some '-'
  · obtain ⟨digits, rfl⟩ := List.head?_eq_some_iff.mp minus
    simp [readNat?_encode, Decimal.readInt?]
  · by_cases plus : text.head? = some '+'
    · obtain ⟨digits, rfl⟩ := List.head?_eq_some_iff.mp plus
      simp [readNat?_encode, Decimal.readInt?]
    · have unsigned : Decimal.readInt? text = (Decimal.readNat? text).map fun n : Nat => (n : Int) := by
        unfold Decimal.readInt?
        split
        · exact absurd rfl minus
        · exact absurd rfl plus
        · rfl
      simp [minus, plus, readNat?_encode, unsigned]

theorem rightSide?_eq (text : List Char) : rightSide? text = RightSide.ofText? text := by
  rw [rightSide?, readInt?_eq, isWord_eq]
  rfl

theorem parts?_of_mem {line : List Char} (mem : '=' ∈ line) :
    parts? line = some (line.takeWhile (· ≠ '='), (line.dropWhile (· ≠ '=')).tail) := by
  unfold parts?
  split
  · next none =>
    have clear := List.dropWhile_eq_nil_iff.mp none '=' mem
    simp at clear
  · next c right parted => rw [parted, List.tail_cons]

theorem request_eq (line : List Char) : request line = Request.ofLine line := by
  have count : (Utf8.encode line).count '='.toUInt8 = line.count '=' := Utf8.count_encode (by decide) line
  simp only [request, Request.ofLine, count]
  cases number : line.count '=' with
  | zero => rfl
  | succ n =>
    cases n with
    | zero =>
      have mem : '=' ∈ line := List.count_pos_iff.mp (by omega)
      have parted := parts?_of_mem mem
      cases word : Name.isWord (line.takeWhile (· ≠ '=')) with
      | false => simp only [parted, isWord_eq, word, Bool.false_eq_true, if_false]
      | true =>
        cases side : RightSide.ofText? (line.dropWhile (· ≠ '=')).tail with
        | none => simp only [parted, isWord_eq, rightSide?_eq, word, side, if_true]
        | some right => simp only [parted, isWord_eq, rightSide?_eq, word, side, if_true]
    | succ n => rfl

end Bytewise
end LineCalculator

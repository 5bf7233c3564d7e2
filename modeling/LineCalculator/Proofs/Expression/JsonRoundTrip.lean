import LineCalculator.Expression.TokenReader
import Mathlib.Tactic.SplitIfs

/- Reading tokens back from their JSON text. Each part of the text is read from the front of whatever begins
   with it, so parts that stand one after another are read one after another; and no part has a character
   below the space. -/
namespace LineCalculator
namespace JsonString

theorem hexValue?_hexDigit : ∀ n, n < 16 → hexValue? (hexDigit n) = some n := by decide

theorem body?_letter {letter c : Char} (stands : unescape? letter = some c) (rest : List Char) :
    body? ('\\' :: letter :: rest) = (body? rest).map (Prod.map (c :: ·) id) := by
  have named : letter ≠ 'u' := by
    rintro rfl
    contradiction
  simp [body?, stands, named]

theorem body?_escape (c : Char) (rest : List Char) :
    body? (escape c ++ rest) = (body? rest).map (Prod.map (c :: ·) id) := by
  have letter : ∀ {letter : Char} {n : Nat}, c.toNat = n → unescape? letter = some (Char.ofNat n) →
      body? (['\\', letter] ++ rest) = (body? rest).map (Prod.map (c :: ·) id) := by
    intro letter n code stands
    apply body?_letter
    rw [stands, ← code, Char.ofNat_toNat]
  unfold escape
  split_ifs with quote backslash backspace tab newline feed carriage control
  · exact letter (congrArg Char.toNat quote) rfl
  · exact letter (congrArg Char.toNat backslash) rfl
  · exact letter backspace rfl
  · exact letter tab rfl
  · exact letter newline rfl
  · exact letter feed rfl
  · exact letter carriage rfl
  · have high := hexValue?_hexDigit (c.toNat / 16) (by omega)
    have low := hexValue?_hexDigit (c.toNat % 16) (by omega)
    have whole : Char.ofNat (16 * (c.toNat / 16) + c.toNat % 16) = c := by
      rw [Nat.div_add_mod, Char.ofNat_toNat]
    simp [body?, high, low, whole]
  · simp [body?, backslash, Nat.le_of_not_lt control]

theorem body?_quoted (text rest : List Char) :
    body? (text.flatMap escape ++ '"' :: rest) = some (text, rest) := by
  induction text with
  | nil => rfl
  | cons c text ih =>
    rw [List.flatMap_cons, List.append_assoc, body?_escape, ih]
    rfl

def Printable (text : List Char) : Prop := ∀ c ∈ text, 0x20 ≤ c.toNat

@[simp] theorem printable_nil : Printable [] := by
  simp [Printable]

@[simp] theorem printable_cons {c : Char} {text : List Char} :
    Printable (c :: text) ↔ 0x20 ≤ c.toNat ∧ Printable text := by
  simp [Printable]

@[simp] theorem printable_append {a b : List Char} : Printable (a ++ b) ↔ Printable a ∧ Printable b := by
  simp [Printable, or_imp, forall_and]

@[simp] theorem printable_escape (c : Char) : Printable (escape c) := by
  have digit : ∀ n, n < 16 → 0x20 ≤ (hexDigit n).toNat := by decide
  unfold escape
  split_ifs with quote backslash backspace tab newline feed carriage control
  iterate 7 exact by simp
  · have high := digit (c.toNat / 16) (by omega)
    have low := digit (c.toNat % 16) (by omega)
    simp [high, low]
  · simpa using control

@[simp] theorem printable_quote (text : List Char) : Printable (quote text) := by
  have escapes : Printable (text.flatMap escape) := by
    intro d mem
    obtain ⟨c, _, inside⟩ := List.mem_flatMap.mp mem
    exact printable_escape c d inside
  simp [quote, escapes]

end JsonString

namespace JsonReader
variable {α β : Type} {reader : JsonReader α} {text more : List Char} {a : α}

/-- The reader takes this text from the front of any that begins with it, and gives this result. -/
def Reads (reader : JsonReader α) (text : List Char) (a : α) : Prop :=
  ∀ rest, reader.run (text ++ rest) = some (a, rest)

theorem Reads.bind (reads : reader.Reads text a) {next : α → JsonReader β} {b : β}
    (behind : (next a).Reads more b) : (reader >>= next).Reads (text ++ more) b := by
  intro rest
  rw [List.append_assoc, StateT.run_bind, reads]
  exact behind rest

theorem reads_pure (a : α) : (pure a : JsonReader α).Reads [] a := fun _ => rfl

theorem Reads.map (reads : reader.Reads text a) (f : α → β) : (f <$> reader).Reads text (f a) := by
  rw [← List.append_nil text, map_eq_pure_bind]
  exact reads.bind (reads_pure _)

theorem run_or (first second : JsonReader α) (input : List Char) :
    (first <|> second).run input = (first.run input <|> second.run input) := rfl

theorem Reads.or {other : JsonReader α} (reads : reader.Reads text a) : (reader <|> other).Reads text a := by
  intro rest
  rw [run_or, reads]
  rfl

theorem Reads.or_right {other : JsonReader α} (reads : reader.Reads text a)
    (fails : ∀ rest, other.run (text ++ rest) = none) : (other <|> reader).Reads text a := by
  intro rest
  rw [run_or, fails, reads]
  rfl

theorem reads_expect (text : List Char) : (expect text).Reads text () := by
  intro rest
  simp [expect, StateT.run]

theorem reads_string (text : List Char) : string.Reads (JsonString.quote text) text := by
  apply (reads_expect ['"']).bind
  intro rest
  have body := JsonString.body?_quoted text rest
  simpa [StateT.run] using body

theorem reads_integer (n : Int) : integer.Reads (JsonString.quote (Decimal.ofInt n)) n := by
  rw [← List.append_nil (JsonString.quote _)]
  apply (reads_string _).bind
  intro rest
  rw [Decimal.readInt?_ofInt]
  rfl

theorem reads_label {label : α → String} {choices : List α} {text : String}
    (first : choices.find? (fun b => (label b).toList = text.toList) = some a) :
    (labelled label choices).Reads (JsonString.quote text.toList) a := by
  rw [← List.append_nil (JsonString.quote _)]
  apply (reads_string _).bind
  intro rest
  rw [first]
  rfl

end JsonReader

namespace Token
open JsonString JsonReader

variable {t : Token}

theorem reads_member {key : String} {value : List Char} (reads : (ofKey key.toList).Reads value t) :
    ofMember.Reads (member key value) t := by
  have parts : member key value = ['\x7b'] ++ (quote key.toList ++ ([':'] ++ (value ++ (['\x7d'] ++ [])))) := by
    simp [member]
  rw [parts]
  apply (reads_expect _).bind
  apply (reads_string _).bind
  apply (reads_expect _).bind
  apply reads.bind
  apply (reads_expect _).bind
  exact reads_pure t

theorem reads_reference (name : Name) (n : Int) :
    (ofKey "Identifier".toList).Reads (('\x7b' :: quote "name".toList ++ [':']) ++ (quote name ++
      ((',' :: quote "value".toList ++ [':']) ++ (quote (Decimal.ofInt n) ++ (['\x7d'] ++ [])))))
      (.reference name n) := by
  apply (reads_expect _).bind
  apply (reads_string _).bind
  apply (reads_expect _).bind
  apply (reads_integer _).bind
  apply (reads_expect _).bind
  exact reads_pure _

theorem reads_parenthesis {label : String}
    (first : parentheses.find? (fun b => b.1.toList = label.toList) = some (label, t)) :
    parenthesis.Reads (quote label.toList) t :=
  (reads_label first).map Prod.snd

theorem run_ofMember_quote (text rest : List Char) : ofMember.run (quote text ++ rest) = none := rfl

theorem reads_json (t : Token) : ofJson.Reads t.json t := by
  cases t with
  | number n =>
    have reads : (ofKey "Number".toList).Reads (quote (Decimal.ofInt n)) (.number n) :=
      (reads_integer n).map _
    exact (reads_member reads).or
  | reference name n =>
    have reads : ofJson.Reads _ _ := (reads_member (reads_reference name n)).or
    simpa [json] using reads
  | operation o =>
    have reads : (ofKey "BinaryOp".toList).Reads (quote o.label.toList) (.operation o) :=
      (reads_label (by cases o <;> decide)).map _
    exact (reads_member reads).or
  | sign s =>
    have reads : (ofKey "UnaryOp".toList).Reads (quote s.label.toList) (.sign s) :=
      (reads_label (by cases s <;> decide)).map _
    exact (reads_member reads).or
  | opening =>
    have reads : parenthesis.Reads (quote "LeftParen".toList) opening := reads_parenthesis (by decide)
    exact reads.or_right (run_ofMember_quote _)
  | closing =>
    have reads : parenthesis.Reads (quote "RightParen".toList) closing := reads_parenthesis (by decide)
    exact reads.or_right (run_ofMember_quote _)

theorem jsonList_cons (t : Token) (ts : List Token) :
    jsonList (t :: ts) = ['['] ++ (t.json ++ (ts.flatMap (fun u => ',' :: u.json) ++ [']'])) := by
  induction ts generalizing t with
  | nil => simp [jsonList, List.intercalate]
  | cons u ts ih =>
    have later := ih u
    simp only [jsonList, List.intercalate, List.map_cons, List.cons_append, List.cons.injEq,
      true_and, List.nil_append] at later
    simp [jsonList, List.intercalate, later]

theorem run_close_json (t : Token) (rest : List Char) : (expect [']']).run (t.json ++ rest) = none := by
  cases t <;> rfl

theorem reads_closed : (do expect [']']; return [] : JsonReader (List Token)).Reads [']'] [] :=
  (reads_expect [']']).bind (reads_pure [])

theorem reads_later (ts : List Token) {most : Nat} (few : ts.length < most) :
    (laterOfJson most).Reads (ts.flatMap (fun u => ',' :: u.json) ++ [']']) ts := by
  induction ts generalizing most with
  | nil =>
    obtain ⟨most, rfl⟩ := Nat.exists_eq_add_one.mpr few
    exact reads_closed.or
  | cons t ts ih =>
    obtain ⟨most, rfl⟩ := Nat.exists_eq_add_one.mpr (Nat.zero_lt_of_lt few)
    have parts : (t :: ts).flatMap (fun u => ',' :: u.json) ++ [']'] =
        [','] ++ (t.json ++ (ts.flatMap (fun u => ',' :: u.json) ++ [']'] ++ [])) := by
      simp
    rw [parts]
    refine Reads.or_right ?_ (fun rest => rfl)
    apply (reads_expect _).bind
    apply (reads_json t).bind
    apply (ih (Nat.lt_of_succ_lt_succ few)).bind
    exact reads_pure _

theorem reads_list (ts : List Token) {most : Nat} (few : ts.length ≤ most) :
    (listOfJson most).Reads (jsonList ts) ts := by
  cases ts with
  | nil => exact (reads_expect ['[']).bind reads_closed.or
  | cons t ts =>
    have parts : jsonList (t :: ts) =
        ['['] ++ (t.json ++ (ts.flatMap (fun u => ',' :: u.json) ++ [']'] ++ [])) := by
      simp [jsonList_cons]
    rw [parts]
    apply (reads_expect _).bind
    refine Reads.or_right ?_ ?_
    · apply (reads_json t).bind
      apply (reads_later ts few).bind
      exact reads_pure _
    · intro rest
      rw [List.append_assoc, StateT.run_bind, run_close_json]
      rfl

theorem length_le_jsonList (ts : List Token) : ts.length ≤ (jsonList ts).length := by
  have later : ∀ us : List Token, us.length ≤ (us.flatMap fun u => ',' :: u.json).length := by
    intro us
    induction us with
    | nil => exact Nat.le_refl _
    | cons u us ih =>
      simp only [List.flatMap_cons, List.length_append, List.length_cons]
      omega
  cases ts with
  | nil => exact Nat.zero_le _
  | cons t ts =>
    have few := later ts
    simp only [jsonList_cons, List.length_append, List.length_cons]
    omega

theorem ofJsonList?_jsonList (ts : List Token) : ofJsonList? (jsonList ts) = some ts := by
  have read := reads_list ts (length_le_jsonList ts) []
  rw [List.append_nil] at read
  rw [ofJsonList?, read]

theorem jsonList_injective {ts us : List Token} (same : jsonList ts = jsonList us) : ts = us := by
  have read := ofJsonList?_jsonList ts
  rw [same, ofJsonList?_jsonList] at read
  exact (Option.some.inj read).symm

@[simp] theorem printable_member {key : String} {value : List Char} :
    Printable (member key value) ↔ Printable value := by
  simp [member]

theorem printable_json (t : Token) : Printable t.json := by
  cases t <;> simp [json]

theorem printable_jsonList (ts : List Token) : Printable (jsonList ts) := by
  cases ts with
  | nil => simp [jsonList]
  | cons t ts =>
    have later : Printable (ts.flatMap fun u => ',' :: u.json) := by
      intro c mem
      obtain ⟨u, _, inside⟩ := List.mem_flatMap.mp mem
      have printable : Printable (',' :: u.json) := by simp [printable_json]
      exact printable c inside
    simp [jsonList_cons, printable_json, later]

end Token
end LineCalculator

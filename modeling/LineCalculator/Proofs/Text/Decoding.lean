import Mathlib.Data.List.Basic
import LineCalculator.Proofs.Text.Ascii

/- Decoding is exact where it replaces nothing. The bytes of a text are decoded to the text; and if no character
   of what is decoded is the replacement, the bytes are those of what is decoded. -/
namespace LineCalculator.Utf8

def IllFormed (bytes : List UInt8) : Prop := ∀ text, encode text ≠ bytes

def tail : Nat → Nat → List UInt8
  | 0, _ => []
  | k + 1, v => UInt8.ofNat (v / 64 ^ k % 64 + 0x80) :: tail k v

theorem encodeChar_ofNat {v : Nat} (valid : v.isValidChar) :
    String.utf8EncodeChar (Char.ofNat v) =
      if v ≤ 0x7f then [UInt8.ofNat v]
      else if v ≤ 0x7ff then UInt8.ofNat (v / 64 % 32 + 0xc0) :: tail 1 v
      else if v ≤ 0xffff then UInt8.ofNat (v / 4096 % 16 + 0xe0) :: tail 2 v
      else UInt8.ofNat (v / 262144 % 8 + 0xf0) :: tail 3 v := by
  have number : (Char.ofNat v).val.toNat = v := by
    rcases toNat_ofNat_cases v with ⟨_, same⟩ | ⟨invalid, _⟩
    · exact same
    · contradiction
  simp only [String.utf8EncodeChar, number, tail, Nat.reducePow, Nat.div_one]

namespace Pending

/-- The bits read so far are the first of the number, and the byte of the next six is one that may follow. -/
structure Begins (p : Pending) (v : Nat) : Prop where
  bits : v / 64 ^ (p.later + 1) = p.bits
  low : p.low ≤ v / 64 ^ p.later % 64 + 0x80
  high : v / 64 ^ p.later % 64 + 0x80 ≤ p.high

theorem Begins.char {b v : Nat} {p : Pending} (lead : ofLead? b = some p) (begins : p.Begins v) :
    String.utf8EncodeChar (Char.ofNat v) = UInt8.ofNat b :: tail (p.later + 1) v := by
  obtain ⟨bits, low, high⟩ := begins
  unfold ofLead? at lead
  repeat' split at lead
  all_goals
    cases lead
  all_goals
    simp only [Nat.reduceAdd, Nat.reducePow, Nat.div_one] at bits low high
  all_goals
    have valid : v.isValidChar := by
      unfold Nat.isValidChar
      omega
    rw [encodeChar_ofNat valid, if_neg (by omega)]
  · rw [if_pos (by omega), show v / 64 % 32 + 0xc0 = b by omega]
  · rw [if_neg (by omega), if_pos (by omega), show v / 4096 % 16 + 0xe0 = b by omega]
  · rw [if_neg (by omega), if_pos (by omega), show v / 4096 % 16 + 0xe0 = b by omega]
  · rw [if_neg (by omega), if_pos (by omega), show v / 4096 % 16 + 0xe0 = b by omega]
  · rw [if_neg (by omega), if_neg (by omega), show v / 262144 % 8 + 0xf0 = b by omega]
  · rw [if_neg (by omega), if_neg (by omega), show v / 262144 % 8 + 0xf0 = b by omega]
  · rw [if_neg (by omega), if_neg (by omega), show v / 262144 % 8 + 0xf0 = b by omega]

theorem exists_begins {v : Nat} (valid : v.isValidChar) (wide : 0x80 ≤ v) :
    ∃ b p, b < 256 ∧ 0x80 ≤ b ∧ ofLead? b = some p ∧ p.Begins v := by
  unfold Nat.isValidChar at valid
  have begins : ∀ {later low high : Nat}, low ≤ v / 64 ^ later % 64 + 0x80 →
      v / 64 ^ later % 64 + 0x80 ≤ high → Begins ⟨low, high, later, v / 64 ^ (later + 1)⟩ v :=
    fun low high => ⟨rfl, low, high⟩
  have cases : v < 0x800 ∨ 0x800 ≤ v ∧ v < 0x1000 ∨ 0xd000 ≤ v ∧ v < 0xd800 ∨
      0x1000 ≤ v ∧ v < 0x10000 ∧ v / 4096 ≠ 0xd ∨ 0x10000 ≤ v ∧ v < 0x40000 ∨
      0x40000 ≤ v ∧ v < 0x100000 ∨ 0x100000 ≤ v := by omega
  rcases cases with two | e0 | ed | three | f0 | four | f4
  · refine ⟨v / 64 + 0xc0, ⟨0x80, 0xBF, 0, v / 64⟩, by omega, by omega, ?_, begins (by omega) (by omega)⟩
    rw [ofLead?, if_pos (by omega), Nat.add_sub_cancel]
  · have bits : v / 4096 = 0 := by omega
    refine ⟨0xe0, ⟨0xA0, 0xBF, 1, 0⟩, by omega, by omega, rfl, ?_⟩
    rw [← bits]
    exact begins (by omega) (by omega)
  · have bits : v / 4096 = 0xd := by omega
    refine ⟨0xed, ⟨0x80, 0x9F, 1, 0xd⟩, by omega, by omega, rfl, ?_⟩
    rw [← bits]
    exact begins (by omega) (by omega)
  · refine ⟨v / 4096 + 0xe0, ⟨0x80, 0xBF, 1, v / 4096⟩, by omega, by omega, ?_, begins (by omega) (by omega)⟩
    rw [ofLead?, if_neg (by omega), if_neg (by omega), if_neg (by omega), if_pos (by omega),
      Nat.add_sub_cancel]
  · have bits : v / 262144 = 0 := by omega
    refine ⟨0xf0, ⟨0x90, 0xBF, 2, 0⟩, by omega, by omega, rfl, ?_⟩
    rw [← bits]
    exact begins (by omega) (by omega)
  · refine ⟨v / 262144 + 0xf0, ⟨0x80, 0xBF, 2, v / 262144⟩, by omega, by omega, ?_,
      begins (by omega) (by omega)⟩
    rw [ofLead?, if_neg (by omega), if_neg (by omega), if_neg (by omega), if_neg (by omega),
      if_neg (by omega), if_pos (by omega), Nat.add_sub_cancel]
  · have bits : v / 262144 = 4 := by omega
    refine ⟨0xf4, ⟨0x80, 0x8F, 2, 4⟩, by omega, by omega, rfl, ?_⟩
    rw [← bits]
    exact begins (by omega) (by omega)

theorem high_of_lead {b : Nat} {p : Pending} (lead : ofLead? b = some p) : p.high ≤ 0xBF := by
  unfold ofLead? at lead
  repeat' split at lead
  all_goals
    cases lead
  all_goals
    simp only
    omega

/-- The bytes are the front of every character that the pending one can still become. -/
structure Front (p : Pending) (part : List UInt8) : Prop where
  low : 0x80 ≤ p.low
  high : p.high ≤ 0xBF
  char : ∀ v, p.Begins v → String.utf8EncodeChar (Char.ofNat v) = part ++ tail (p.later + 1) v

variable {low high later bits v : Nat} {part : List UInt8} {byte : UInt8}

theorem front_of_lead {p : Pending} (lead : ofLead? byte.toNat = some p) : p.Front [byte] := by
  refine ⟨(wide_of_lead lead).low, high_of_lead lead, ?_⟩
  intro v begins
  rw [begins.char lead, UInt8.ofNat_toNat, List.singleton_append]

theorem Front.next (front : Front ⟨low, high, later, bits⟩ part) (least : low ≤ byte.toNat)
    (most : byte.toNat ≤ high) (six : v / 64 ^ later = bits * 64 + (byte.toNat - 0x80)) :
    String.utf8EncodeChar (Char.ofNat v) = part ++ [byte] ++ tail later v := by
  have lowest : 0x80 ≤ low := front.low
  have highest : high ≤ 0xBF := front.high
  have bits' : v / 64 ^ (later + 1) = bits := by
    rw [Nat.pow_succ, ← Nat.div_div_eq_div_mul, six]
    omega
  have here : v / 64 ^ later % 64 + 0x80 = byte.toNat := by omega
  have begins : Begins ⟨low, high, later, bits⟩ v := ⟨bits', by rwa [here], by rwa [here]⟩
  rw [front.char v begins, tail, here, UInt8.ofNat_toNat, List.append_assoc, List.singleton_append]

theorem Front.more (front : Front ⟨low, high, later + 1, bits⟩ part) (least : low ≤ byte.toNat)
    (most : byte.toNat ≤ high) :
    Front ⟨0x80, 0xBF, later, bits * 64 + (byte.toNat - 0x80)⟩ (part ++ [byte]) :=
  ⟨Nat.le_refl _, Nat.le_refl _, fun _ begins => front.next least most begins.bits⟩

theorem Front.complete (front : Front ⟨low, high, 0, bits⟩ part) (least : low ≤ byte.toNat)
    (most : byte.toNat ≤ high) :
    String.utf8EncodeChar (Char.ofNat (bits * 64 + (byte.toNat - 0x80))) = part ++ [byte] := by
  have whole := front.next least most (Nat.div_one _)
  rwa [tail, List.append_nil] at whole

end Pending

namespace Decoder
variable {read : List Char} {p : Pending} {v : Nat}

theorem toNat_tail_byte (v k : Nat) : (UInt8.ofNat (v / 64 ^ k % 64 + 0x80)).toNat = v / 64 ^ k % 64 + 0x80 := by
  rw [UInt8.toNat_ofNat']
  omega

theorem run_tail (begins : p.Begins v) :
    (tail (p.later + 1) v).foldl step ⟨read, some p⟩ = ⟨Char.ofNat v :: read, none⟩ := by
  obtain ⟨low, high, later, bits⟩ := p
  obtain ⟨first, least, most⟩ := begins
  simp only at first least most
  induction later generalizing low high bits with
  | zero =>
    have whole : bits * 64 + (v / 64 ^ 0 % 64 + 0x80 - 0x80) = v := by
      rw [← first, Nat.pow_zero, Nat.div_one]
      omega
    simp only [tail, List.foldl_cons, List.foldl_nil, step, toNat_tail_byte, least, most, and_self, if_true, whole]
  | succ later ih =>
    have more : bits * 64 + (v / 64 ^ (later + 1) % 64 + 0x80 - 0x80) = v / 64 ^ (later + 1) := by
      rw [← first, Nat.pow_succ 64 (later + 1), ← Nat.div_div_eq_div_mul]
      omega
    rw [tail, List.foldl_cons, step]
    simp only [toNat_tail_byte, least, most, and_self, if_true, more]
    exact ih 0x80 0xBF _ rfl (by omega) (by omega)

/-- The bytes so far are those of the text that is read and of the front of the character that is begun. -/
structure Exact (d : Decoder) (bytes : List UInt8) : Prop where
  closed : d.pending = none → bytes = encode d.read.reverse
  begun : ∀ p ∈ d.pending, ∃ part, bytes = encode d.read.reverse ++ part ∧ p.Front part

theorem encode_reverse_cons (c : Char) (text : List Char) :
    encode (c :: text).reverse = encode text.reverse ++ String.utf8EncodeChar c := by
  simp [encode]

theorem exact_of_read {bytes : List UInt8} (same : bytes = encode read.reverse) : Exact ⟨read, none⟩ bytes :=
  ⟨fun _ => same, by simp⟩

theorem exact_of_front {bytes part : List UInt8} (same : bytes = encode read.reverse ++ part)
    (front : p.Front part) : Exact ⟨read, some p⟩ bytes := by
  refine ⟨by simp, ?_⟩
  intro q only
  cases only
  exact ⟨part, same, front⟩

theorem mem_lead {c : Char} (mem : c ∈ read) (b : Nat) : c ∈ (lead read b).read := by
  unfold lead
  split
  · exact List.mem_cons_of_mem _ mem
  · split
    · exact mem
    · exact List.mem_cons_of_mem _ mem

theorem lead_exact {bytes : List UInt8} {byte : UInt8} (same : bytes = encode read.reverse)
    (clear : replacement ∉ (lead read byte.toNat).read) : (lead read byte.toNat).Exact (bytes ++ [byte]) := by
  unfold lead at clear ⊢
  split
  · next ascii =>
    apply exact_of_read
    rw [encode_reverse_cons, ofNat_toNat_of_ascii ascii, encodeChar_ofUInt8 ascii, same]
  · next wide =>
    rw [if_neg wide] at clear
    cases begun : Pending.ofLead? byte.toNat with
    | none => simp [begun] at clear
    | some p => exact exact_of_front (by rw [same]) (Pending.front_of_lead begun)

theorem step_exact {d : Decoder} {bytes : List UInt8} (before : d.Exact bytes) {byte : UInt8}
    (clear : replacement ∉ (d.step byte).read) : (d.step byte).Exact (bytes ++ [byte]) := by
  obtain ⟨read, pending⟩ := d
  cases pending with
  | none => exact lead_exact (before.closed rfl) clear
  | some p =>
    obtain ⟨low, high, later, bits⟩ := p
    obtain ⟨part, same, front⟩ := before.begun _ rfl
    simp only [step] at clear ⊢
    split
    · next inside =>
      cases later with
      | zero =>
        apply exact_of_read
        rw [encode_reverse_cons, front.complete inside.1 inside.2, same, List.append_assoc]
      | succ later =>
        exact exact_of_front (by rw [same, List.append_assoc]) (front.more inside.1 inside.2)
    · next outside =>
      -- the character that was begun would be replaced
      rw [if_neg outside] at clear
      exact absurd (mem_lead (List.mem_cons_self ..) _) clear

theorem mem_run_of_mem {d : Decoder} {c : Char} (mem : c ∈ d.read) (bytes : List UInt8) :
    c ∈ (bytes.foldl step d).read := by
  induction bytes generalizing d with
  | nil => exact mem
  | cons byte bytes ih =>
    apply ih
    unfold step
    split
    · exact mem_lead mem _
    · split
      · split
        · exact List.mem_cons_of_mem _ mem
        · exact mem
      · exact mem_lead (List.mem_cons_of_mem _ mem) _

theorem run_exact {d : Decoder} {before bytes : List UInt8} (start : d.Exact before)
    (clear : replacement ∉ (bytes.foldl step d).read) : (bytes.foldl step d).Exact (before ++ bytes) := by
  induction bytes generalizing d before with
  | nil => simpa using start
  | cons byte bytes ih =>
    have still : replacement ∉ (d.step byte).read := fun mem => clear (mem_run_of_mem mem bytes)
    have rest := ih (step_exact start still) clear
    rwa [List.append_assoc] at rest

end Decoder

theorem Decoder.run_char (read : List Char) (c : Char) :
    (String.utf8EncodeChar c).foldl step ⟨read, none⟩ = ⟨c :: read, none⟩ := by
  by_cases wide : 0x80 ≤ c.toNat
  · have valid : c.toNat.isValidChar := c.valid
    obtain ⟨b, p, small, large, lead, begins⟩ := Pending.exists_begins valid wide
    have byte : (UInt8.ofNat b).toNat = b := by
      rw [UInt8.toNat_ofNat']
      omega
    have first : step ⟨read, none⟩ (UInt8.ofNat b) = ⟨read, some p⟩ := by
      simp only [step, byte, Decoder.lead, if_neg (Nat.not_lt.mpr large), lead]
    have char := begins.char lead
    rw [Char.ofNat_toNat] at char
    rw [char, List.foldl_cons, first, run_tail begins, Char.ofNat_toNat]
  · have ascii : c.toNat < 0x80 := Nat.lt_of_not_le wide
    have byte : (UInt8.ofNat c.toNat).toNat = c.toNat := by
      rw [UInt8.toNat_ofNat']
      omega
    rw [encodeChar_ascii ascii, List.foldl_cons, List.foldl_nil, step]
    simp only [byte, Decoder.lead, if_pos ascii, Char.ofNat_toNat]

theorem decodeLossy_encode (text : List Char) : decodeLossy (encode text) = text := by
  have run : ∀ (text read : List Char), (encode text).foldl Decoder.step ⟨read, none⟩ =
      ⟨text.reverse ++ read, none⟩ := by
    intro text
    induction text with
    | nil => exact fun _ => rfl
    | cons c text ih =>
      intro read
      have parts : encode (c :: text) = String.utf8EncodeChar c ++ encode text := rfl
      rw [parts, List.foldl_append, Decoder.run_char, ih]
      simp
  rw [decodeLossy, run text []]
  simp [Decoder.finish]

theorem mem_decodeLossy_of_byte {bytes : List UInt8} {byte : UInt8} (ascii : byte.toNat < 0x80)
    (mem : byte ∈ bytes) : Char.ofNat byte.toNat ∈ decodeLossy bytes := by
  obtain ⟨before, after, rfl⟩ := List.append_of_mem mem
  rw [decodeLossy_append_ascii before after ascii]
  simp

theorem encode_decodeLossy {bytes : List UInt8} (clear : replacement ∉ decodeLossy bytes) :
    encode (decodeLossy bytes) = bytes := by
  have start : Decoder.Exact ⟨[], none⟩ [] := Decoder.exact_of_read rfl
  unfold decodeLossy Decoder.finish at clear ⊢
  cases last : (bytes.foldl Decoder.step ⟨[], none⟩).pending with
  | some p => simp [last] at clear
  | none =>
    have still : replacement ∉ (bytes.foldl Decoder.step ⟨[], none⟩).read := by simpa [last] using clear
    exact ((Decoder.run_exact start still).closed last).symm

theorem replacement_mem_of_illFormed {bytes : List UInt8} (bad : IllFormed bytes) :
    replacement ∈ decodeLossy bytes := by
  apply Classical.byContradiction
  intro clear
  exact bad _ (encode_decodeLossy clear)

theorem illFormed_iff (bytes : List UInt8) : IllFormed bytes ↔ encode (decodeLossy bytes) ≠ bytes := by
  constructor
  · exact fun bad => bad _
  · rintro lost text rfl
    rw [decodeLossy_encode] at lost
    exact lost rfl

instance : DecidablePred IllFormed := fun bytes => decidable_of_iff _ (illFormed_iff bytes).symm

theorem head?_decodeLossy_iff {byte : UInt8} (some : 0 < byte.toNat) (ascii : byte.toNat < 0x80)
    (bytes : List UInt8) :
    (decodeLossy bytes).head? = Option.some (Char.ofNat byte.toNat) ↔ bytes.head? = Option.some byte := by
  have code : (Char.ofNat byte.toNat).toNat = byte.toNat := toNat_ofNat_of_ascii ascii
  constructor
  · intro first
    have mem : Char.ofNat byte.toNat ∈ decodeLossy bytes := List.mem_of_mem_head? first
    obtain ⟨other, inside, same⟩ := mem_decodeLossy_ascii (by omega) (by omega) mem
    obtain rfl : byte = other := UInt8.toNat_inj.mp (code.symm.trans same)
    obtain ⟨before, after, rfl, fresh⟩ := List.eq_append_cons_of_mem inside
    -- what stands before the first such byte is decoded to a text without the character
    by_cases none : before = []
    · simp [none]
    · rw [decodeLossy_append_ascii before after ascii, List.head?_append_of_ne_nil _ (decodeLossy_ne_nil none)]
        at first
      obtain ⟨other, early, again⟩ :=
        mem_decodeLossy_ascii (by omega) (by omega) (List.mem_of_mem_head? first)
      obtain rfl : byte = other := UInt8.toNat_inj.mp (code.symm.trans again)
      exact absurd early fresh
  · intro first
    obtain ⟨rest, rfl⟩ := List.head?_eq_some_iff.mp first
    have parts := decodeLossy_append_ascii [] rest ascii
    rw [List.nil_append] at parts
    rw [parts]
    rfl

end LineCalculator.Utf8

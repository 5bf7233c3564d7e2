import LineCalculator.Proofs.Text.Lossy

/- ASCII text in bytes: each character is the one byte of its number. No byte of any other character is in
   that range. -/
namespace LineCalculator.Utf8

theorem toNat_ofUInt8 (b : UInt8) : (Char.ofUInt8 b).toNat = b.toNat := UInt8.toNat_toUInt32 b

theorem ofNat_toNat_of_ascii {b : UInt8} (ascii : b.toNat < 0x80) : Char.ofNat b.toNat = Char.ofUInt8 b := by
  apply Char.toNat_inj.mp
  rw [toNat_ofNat_of_ascii ascii, toNat_ofUInt8]

theorem encodeChar_ascii {c : Char} (ascii : c.toNat < 0x80) :
    String.utf8EncodeChar c = [UInt8.ofNat c.toNat] := by
  have small : c.val.toNat ≤ 0x7f := Nat.le_of_lt_succ ascii
  simp only [String.utf8EncodeChar, small, if_true]
  rfl

theorem encodeChar_ofUInt8 {b : UInt8} (ascii : b.toNat < 0x80) :
    String.utf8EncodeChar (Char.ofUInt8 b) = [b] := by
  rw [encodeChar_ascii (by rwa [toNat_ofUInt8]), toNat_ofUInt8, UInt8.ofNat_toNat]

theorem ofUInt8_ofNat {c : Char} (ascii : c.toNat < 0x80) : Char.ofUInt8 (UInt8.ofNat c.toNat) = c := by
  apply Char.toNat_inj.mp
  rw [toNat_ofUInt8, UInt8.toNat_ofNat']
  omega

theorem decodeLossy_ascii {bytes : List UInt8} (ascii : ∀ b ∈ bytes, b.toNat < 0x80) :
    decodeLossy bytes = bytes.map Char.ofUInt8 := by
  induction bytes with
  | nil => rfl
  | cons b bytes ih =>
    have first : b.toNat < 0x80 := ascii b (by simp)
    have parted : decodeLossy (b :: bytes) = Char.ofNat b.toNat :: decodeLossy bytes :=
      decodeLossy_append_ascii [] bytes first
    rw [parted, ofNat_toNat_of_ascii first, ih fun x mem => ascii x (by simp [mem]), List.map_cons]

theorem encode_ascii {bytes : List UInt8} (ascii : ∀ b ∈ bytes, b.toNat < 0x80) :
    encode (bytes.map Char.ofUInt8) = bytes := by
  induction bytes with
  | nil => rfl
  | cons b bytes ih =>
    have rest := ih fun x mem => ascii x (by simp [mem])
    rw [encode] at rest ⊢
    rw [List.map_cons, List.flatMap_cons, rest, encodeChar_ofUInt8 (ascii b (by simp)),
      List.singleton_append]

theorem decode?_ascii {bytes : List UInt8} (ascii : ∀ b ∈ bytes, b.toNat < 0x80) :
    decode? bytes = some (bytes.map Char.ofUInt8) := by
  simp [decode?, decodeLossy_ascii ascii, encode_ascii ascii]

theorem encodeChar_wide {c : Char} (wide : 0x80 ≤ c.toNat) :
    ∃ b more, String.utf8EncodeChar c = b :: more ∧ 0x80 ≤ b.toNat := by
  have large : 0x7f < c.val.toNat := wide
  simp only [String.utf8EncodeChar]
  split
  · omega
  · split
    · refine ⟨_, _, rfl, ?_⟩
      rw [UInt8.toNat_ofNat']
      omega
    · split
      · refine ⟨_, _, rfl, ?_⟩
        rw [UInt8.toNat_ofNat']
        omega
      · refine ⟨_, _, rfl, ?_⟩
        rw [UInt8.toNat_ofNat']
        omega

theorem wide_of_mem_encodeChar {c : Char} (wide : 0x80 ≤ c.toNat) :
    ∀ b ∈ String.utf8EncodeChar c, 0x80 ≤ b.toNat := by
  have large : 0x7f < c.val.toNat := wide
  simp only [String.utf8EncodeChar, if_neg (Nat.not_le_of_lt large)]
  repeat' split
  all_goals
    simp only [List.forall_mem_cons, UInt8.toNat_ofNat', List.not_mem_nil, false_implies, implies_true,
      and_true]
    omega

theorem map_encode (text : List Char) :
    (encode text).map Char.ofUInt8 = text ∨
      ∃ front c rest d others, text = front ++ c :: rest ∧ 0x80 ≤ c.toNat ∧
        (encode text).map Char.ofUInt8 = front ++ d :: others ∧ 0x80 ≤ d.toNat := by
  induction text with
  | nil => exact Or.inl rfl
  | cons c text ih =>
    have parts : encode (c :: text) = String.utf8EncodeChar c ++ encode text := rfl
    rw [parts, List.map_append]
    by_cases wide : 0x80 ≤ c.toNat
    · obtain ⟨b, more, bytes, large⟩ := encodeChar_wide wide
      rw [bytes]
      exact Or.inr ⟨[], c, text, Char.ofUInt8 b, _, rfl, wide, rfl, by rwa [toNat_ofUInt8]⟩
    · have ascii : c.toNat < 0x80 := Nat.lt_of_not_le wide
      rw [encodeChar_ascii ascii, List.map_singleton, ofUInt8_ofNat ascii]
      rcases ih with all | ⟨front, x, rest, d, others, text, wide, bytes, large⟩
      · exact Or.inl (by rw [all, List.singleton_append])
      · exact Or.inr ⟨c :: front, x, rest, d, others, by rw [text, List.cons_append], wide,
          by rw [bytes, List.singleton_append, List.cons_append], large⟩

end LineCalculator.Utf8

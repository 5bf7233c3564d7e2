import Mathlib.Algebra.Group.Nat.Defs
import LineCalculator.Text.Utf8

/- Lossy decoding at an ASCII byte. Such a byte continues no character, so what is pending ends before
   it, and no other bytes are read as its character: a text may be cut there before it is decoded. -/
namespace LineCalculator.Utf8

theorem toNat_ofNat_cases (n : Nat) :
    n.isValidChar ∧ (Char.ofNat n).toNat = n ∨ ¬ n.isValidChar ∧ (Char.ofNat n).toNat = 0 := by
  by_cases valid : n.isValidChar
  · have char : Char.ofNat n = Char.ofNatAux n valid := dif_pos valid
    exact .inl ⟨valid, by rw [char]; rfl⟩
  · have nul : (Char.ofNat n).val = 0 := congrArg Char.val (dif_neg valid)
    exact .inr ⟨valid, congrArg UInt32.toNat nul⟩

theorem toNat_ofNat_of_ascii {n : Nat} (ascii : n < 0x80) : (Char.ofNat n).toNat = n := by
  have valid : n.isValidChar := Or.inl (by omega)
  rcases toNat_ofNat_cases n with ⟨_, same⟩ | ⟨invalid, _⟩
  · exact same
  · contradiction

/-- No ASCII byte continues the pending character, and it will not be an ASCII character. -/
structure Pending.Wide (p : Pending) : Prop where
  low : 0x80 ≤ p.low
  least : 0x80 ≤ (p.bits * 64 + (p.low - 0x80)) * 64 ^ p.later

theorem Pending.wide_of_lead {b : Nat} {p : Pending} (h : ofLead? b = some p) : p.Wide := by
  unfold ofLead? at h
  repeat' split at h
  all_goals
    cases h
    try constructor
  all_goals
    dsimp only
    omega

namespace Decoder

def Wide (d : Decoder) : Prop := ∀ p ∈ d.pending, p.Wide

theorem lead_wide (read : List Char) (b : Nat) : (lead read b).Wide := by
  unfold lead
  split
  · simp [Wide]
  · split
    · next p begun => simpa [Wide] using Pending.wide_of_lead begun
    · simp [Wide]

theorem step_wide {d : Decoder} (wide : d.Wide) (byte : UInt8) : (d.step byte).Wide := by
  unfold step
  split
  · exact lead_wide d.read byte.toNat
  · next p begun =>
    have ⟨low, least⟩ := wide p (by simp [begun])
    split
    · next inside =>
      split
      · simp [Wide]
      · next later more =>
        have grows : p.bits * 64 + (p.low - 0x80) ≤ p.bits * 64 + (byte.toNat - 0x80) := by omega
        simp only [Wide, Option.mem_some_iff, forall_eq']
        refine ⟨Nat.le_refl _, ?_⟩
        calc 0x80
            ≤ (p.bits * 64 + (p.low - 0x80)) * 64 ^ p.later := least
          _ ≤ (p.bits * 64 + (byte.toNat - 0x80)) * 64 ^ p.later := Nat.mul_le_mul_right _ grows
          _ = ((p.bits * 64 + (byte.toNat - 0x80)) * 64 + (0x80 - 0x80)) * 64 ^ later := by
            rw [more, Nat.pow_succ', Nat.sub_self, Nat.add_zero, Nat.mul_assoc]
    · exact lead_wide _ byte.toNat

theorem step_ascii {d : Decoder} (wide : d.Wide) {byte : UInt8} (ascii : byte.toNat < 0x80) :
    d.step byte = ⟨Char.ofNat byte.toNat :: d.finish.reverse, none⟩ := by
  unfold step finish
  cases begun : d.pending with
  | none => simp [lead, ascii]
  | some p =>
    have low := (wide p (by simp [begun])).low
    have outside : ¬(p.low ≤ byte.toNat ∧ byte.toNat ≤ p.high) := by omega
    simp [outside, lead, ascii]

theorem run_wide {d : Decoder} (wide : d.Wide) (bytes : List UInt8) : (bytes.foldl step d).Wide := by
  induction bytes generalizing d with
  | nil => exact wide
  | cons byte bytes ih => exact ih (step_wide wide byte)

theorem step_append (read before : List Char) (pending : Option Pending) (byte : UInt8) :
    step ⟨read ++ before, pending⟩ byte =
      ⟨(step ⟨read, pending⟩ byte).read ++ before, (step ⟨read, pending⟩ byte).pending⟩ := by
  have leads : ∀ text : List Char, lead (text ++ before) byte.toNat =
      ⟨(lead text byte.toNat).read ++ before, (lead text byte.toNat).pending⟩ := by
    intro text
    unfold lead
    split
    · rfl
    · split <;> rfl
  cases pending with
  | none => exact leads read
  | some p =>
    simp only [step]
    split
    · split <;> rfl
    · exact leads (replacement :: read)

theorem run_append (read before : List Char) (pending : Option Pending) (bytes : List UInt8) :
    (bytes.foldl step ⟨read ++ before, pending⟩).finish =
      before.reverse ++ (bytes.foldl step ⟨read, pending⟩).finish := by
  induction bytes generalizing read pending with
  | nil => cases pending <;> simp [finish]
  | cons byte bytes ih => rw [List.foldl_cons, step_append, ih, List.foldl_cons]

theorem finish_step_ne_nil (d : Decoder) (byte : UInt8) : (d.step byte).finish ≠ [] := by
  have leads : ∀ text : List Char, (lead text byte.toNat).finish ≠ [] := by
    intro text
    unfold lead
    split
    · simp [finish]
    · split <;> simp [finish]
  unfold step
  split
  · exact leads d.read
  · split
    · split <;> simp [finish]
    · exact leads (replacement :: d.read)

theorem mem_step {d : Decoder} (wide : d.Wide) {byte : UInt8} {c : Char} (some : 0 < c.toNat)
    (ascii : c.toNat < 0x80) (mem : c ∈ (d.step byte).read) : c ∈ d.read ∨ c.toNat = byte.toNat := by
  have other : c ≠ replacement := by
    rintro rfl
    contradiction
  have leads : ∀ text : List Char, c ∈ (lead text byte.toNat).read → c ∈ text ∨ c.toNat = byte.toNat := by
    intro text inside
    unfold lead at inside
    split at inside
    · next small =>
      rcases List.mem_cons.mp inside with rfl | old
      · exact .inr (toNat_ofNat_of_ascii small)
      · exact .inl old
    · split at inside
      · exact .inl inside
      · exact .inl ((List.mem_cons.mp inside).resolve_left other)
  unfold step at mem
  split at mem
  · exact leads d.read mem
  · next p begun =>
    have ⟨_, least⟩ := wide p (by simp [begun])
    split at mem
    · split at mem
      · next complete =>
        rcases List.mem_cons.mp mem with whole | old
        · -- a completed character is never this small: no overlong form is continued
          rw [complete, Nat.pow_zero, Nat.mul_one] at least
          have code := congrArg Char.toNat whole
          rcases toNat_ofNat_cases (p.bits * 64 + (byte.toNat - 0x80)) with ⟨_, same⟩ | ⟨_, nul⟩
          · omega
          · omega
        · exact .inl old
      · exact .inl mem
    · rcases leads _ mem with old | own
      · exact .inl ((List.mem_cons.mp old).resolve_left other)
      · exact .inr own

theorem mem_run {d : Decoder} (wide : d.Wide) {bytes : List UInt8} {c : Char} (some : 0 < c.toNat)
    (ascii : c.toNat < 0x80) (mem : c ∈ (bytes.foldl step d).read) :
    c ∈ d.read ∨ ∃ byte ∈ bytes, c.toNat = byte.toNat := by
  induction bytes generalizing d with
  | nil => exact .inl mem
  | cons byte bytes ih =>
    rcases ih (step_wide wide byte) mem with early | ⟨later, inside, same⟩
    · rcases mem_step wide some ascii early with old | own
      · exact .inl old
      · exact .inr ⟨byte, by simp, own⟩
    · exact .inr ⟨later, by simp [inside], same⟩

end Decoder

theorem decodeLossy_append_ascii (before after : List UInt8) {byte : UInt8} (ascii : byte.toNat < 0x80) :
    decodeLossy (before ++ byte :: after) =
      decodeLossy before ++ Char.ofNat byte.toNat :: decodeLossy after := by
  have wide := Decoder.run_wide (d := ⟨[], none⟩) (by simp [Decoder.Wide]) before
  rw [decodeLossy, List.foldl_append, List.foldl_cons, Decoder.step_ascii wide ascii]
  have parted := Decoder.run_append [] (Char.ofNat byte.toNat :: (decodeLossy before).reverse) none after
  simpa [decodeLossy] using parted

theorem decodeLossy_ne_nil {bytes : List UInt8} (some : bytes ≠ []) : decodeLossy bytes ≠ [] := by
  rw [decodeLossy, ← List.dropLast_concat_getLast some, List.foldl_append]
  exact Decoder.finish_step_ne_nil _ (bytes.getLast some)

theorem mem_decodeLossy_ascii {bytes : List UInt8} {c : Char} (some : 0 < c.toNat)
    (ascii : c.toNat < 0x80) (mem : c ∈ decodeLossy bytes) : ∃ byte ∈ bytes, c.toNat = byte.toNat := by
  have other : c ≠ replacement := by
    rintro rfl
    contradiction
  have inside : c ∈ (bytes.foldl Decoder.step ⟨[], none⟩).read := by
    unfold decodeLossy Decoder.finish at mem
    split at mem <;> simpa [other] using mem
  have none : c ∉ ([] : List Char) := by simp
  exact (Decoder.mem_run (by simp [Decoder.Wide]) some ascii inside).resolve_left none

end LineCalculator.Utf8

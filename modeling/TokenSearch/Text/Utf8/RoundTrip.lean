import TokenSearch.Text.Utf8

/-!
# The round trip through UTF-8

Reading the bytes of a text gives the text back, whether malformed sequences are refused or
replaced. The bytes of a character are followed through the states of the reader one by one.
-/

namespace TokenSearch.Text.Utf8

theorem toNat_toUInt8 {n : Nat} (h : n < 256) : n.toUInt8.toNat = n :=
  Nat.mod_eq_of_lt h

theorem readFrom_cons {state : Option Pending} {n : Nat} (h : n < 256) (bs : List UInt8) :
    readFrom state (n.toUInt8 :: bs) = (step state n).1 ++ readFrom (step state n).2 bs := by
  cases state <;> simp only [readFrom, toNat_toUInt8 h]

theorem step_continue {bits low high further b : Nat} (h : low ≤ b ∧ b ≤ high) :
    step (some ⟨bits, low, high, further + 1⟩) b =
      ([], some ⟨bits * 0x40 + (b - 0x80), 0x80, 0xBF, further⟩) := by
  simp only [step, if_pos h]

theorem step_complete {bits low high b : Nat} (h : low ≤ b ∧ b ≤ high) :
    step (some ⟨bits, low, high, 0⟩) b =
      ([some (Char.ofNat (bits * 0x40 + (b - 0x80)))], none) := by
  simp only [step, if_pos h]

theorem step_lead {b : Nat} {pending : Pending} (hb : 0x80 ≤ b) (h : lead? b = some pending) :
    step none b = ([], some pending) := by
  simp only [step, first, if_neg (Nat.not_lt.2 hb), h]

theorem toNat_range (c : Char) :
    c.toNat < 0xD800 ∨ (0xDFFF < c.toNat ∧ c.toNat < 0x110000) := c.valid

/-- The bytes of a character are read as that character. -/
theorem readFrom_encodeChar (c : Char) (bs : List UInt8) :
    readFrom none (encodeChar c ++ bs) = some c :: readFrom none bs := by
  have hrange := toNat_range c
  unfold encodeChar
  simp only
  split
  · rename_i h
    rw [List.cons_append, List.nil_append, readFrom_cons (by omega)]
    simp only [step, first, if_pos h, Char.ofNat_toNat, List.cons_append, List.nil_append]
  · split
    · rename_i h1 h2
      have hlead : lead? (0xC0 + c.toNat / 0x40) = some ⟨c.toNat / 0x40, 0x80, 0xBF, 0⟩ := by
        unfold lead?
        rw [if_pos (by omega), Nat.add_sub_cancel_left]
      rw [List.cons_append, List.cons_append, List.nil_append, readFrom_cons (by omega),
        step_lead (by omega) hlead, readFrom_cons (by omega), step_complete (by omega)]
      have hbits : c.toNat / 0x40 * 0x40 + (0x80 + c.toNat % 0x40 - 0x80) = c.toNat := by omega
      simp only [hbits, Char.ofNat_toNat, List.nil_append, List.cons_append]
    · split
      · rename_i h1 h2 h3
        obtain ⟨low, high, hlead, hlow, hhigh⟩ : ∃ low high,
            lead? (0xE0 + c.toNat / 0x1000) = some ⟨c.toNat / 0x1000, low, high, 1⟩ ∧
              low ≤ 0x80 + c.toNat / 0x40 % 0x40 ∧ 0x80 + c.toNat / 0x40 % 0x40 ≤ high := by
          unfold lead?
          rw [if_neg (by omega)]
          split
          · exact ⟨_, _, congrArg (fun n => some (Pending.mk n _ _ _)) (by omega),
              by omega, by omega⟩
          · split
            · exact ⟨_, _, congrArg (fun n => some (Pending.mk n _ _ _)) (by omega),
                by omega, by omega⟩
            · rw [if_pos (by omega), Nat.add_sub_cancel_left]
              exact ⟨_, _, rfl, by omega, by omega⟩
        rw [List.cons_append, List.cons_append, List.cons_append, List.nil_append,
          readFrom_cons (by omega), step_lead (by omega) hlead, readFrom_cons (by omega),
          step_continue ⟨hlow, hhigh⟩, readFrom_cons (by omega), step_complete (by omega)]
        have hbits : (c.toNat / 0x1000 * 0x40 + (0x80 + c.toNat / 0x40 % 0x40 - 0x80)) * 0x40 +
            (0x80 + c.toNat % 0x40 - 0x80) = c.toNat := by omega
        simp only [hbits, Char.ofNat_toNat, List.nil_append, List.cons_append]
      · rename_i h1 h2 h3
        obtain ⟨low, high, hlead, hlow, hhigh⟩ : ∃ low high,
            lead? (0xF0 + c.toNat / 0x40000) = some ⟨c.toNat / 0x40000, low, high, 2⟩ ∧
              low ≤ 0x80 + c.toNat / 0x1000 % 0x40 ∧ 0x80 + c.toNat / 0x1000 % 0x40 ≤ high := by
          unfold lead?
          rw [if_neg (by omega), if_neg (by omega), if_neg (by omega), if_neg (by omega)]
          split
          · exact ⟨_, _, congrArg (fun n => some (Pending.mk n _ _ _)) (by omega),
              by omega, by omega⟩
          · split
            · rw [Nat.add_sub_cancel_left]
              exact ⟨_, _, rfl, by omega, by omega⟩
            · rw [if_pos (by omega)]
              exact ⟨_, _, congrArg (fun n => some (Pending.mk n _ _ _)) (by omega),
                  by omega, by omega⟩
        rw [List.cons_append, List.cons_append, List.cons_append, List.cons_append,
          List.nil_append, readFrom_cons (by omega), step_lead (by omega) hlead,
          readFrom_cons (by omega), step_continue ⟨hlow, hhigh⟩, readFrom_cons (by omega),
          step_continue (by omega), readFrom_cons (by omega), step_complete (by omega)]
        have hbits : ((c.toNat / 0x40000 * 0x40 + (0x80 + c.toNat / 0x1000 % 0x40 - 0x80)) * 0x40 +
            (0x80 + c.toNat / 0x40 % 0x40 - 0x80)) * 0x40 + (0x80 + c.toNat % 0x40 - 0x80) =
            c.toNat := by omega
        simp only [hbits, Char.ofNat_toNat, List.nil_append, List.cons_append]

/-- A written text is read back. -/
theorem read_encode (cs : List Char) : read (encode cs) = cs.map some := by
  unfold read
  induction cs with
  | nil => rfl
  | cons c cs ih =>
    rw [encode, List.flatMap_cons, readFrom_encodeChar, List.map_cons]
    exact congrArg _ ih

theorem decode?_encode (cs : List Char) : decode? (encode cs) = some cs := by
  rw [decode?, read_encode]
  induction cs with
  | nil => rfl
  | cons c cs ih => simp [List.mapM_cons, ih]

theorem decodeLossy_encode (cs : List Char) : decodeLossy (encode cs) = cs := by
  rw [decodeLossy, read_encode, List.map_map]
  exact List.map_id cs

end TokenSearch.Text.Utf8

import CleanCtx.Library.Cursor

/-!
Varints of the binary wire (`ir/binary_wire.rs`): seven bits a byte, low group
first, and a continuation bit on every byte but the last. The reader inverts
the writer on every 64-bit word, up to the ten-byte ones.
-/
namespace CleanCtx

theorem toNat_shiftRight_seven (v : UInt64) : (v >>> 7).toNat = v.toNat / 128 := by
  simp [UInt64.toNat_shiftRight, Nat.shiftRight_eq_div_pow]

/-- The bytes `write_varint` pushes. -/
def writeVarint (value : UInt64) : List UInt8 :=
  if value < 128 then [value.toUInt8]
  else ((value.toUInt8 &&& 0x7F) ||| 0x80) :: writeVarint (value >>> 7)
termination_by value.toNat
decreasing_by
  rename_i h
  have hge : 128 ≤ value.toNat := by simpa using UInt64.le_iff_toNat_le.mp (UInt64.not_lt.mp h)
  rw [toNat_shiftRight_seven]
  omega

/-- The loop of `read_varint` at byte `index`, where the shift is `7 * index`. -/
def readVarintFrom (index : Nat) (value : UInt64) : List UInt8 → Option (UInt64 × Nat)
  | [] => none
  | byte :: rest =>
      if index ≥ 10 ∨ (index = 9 ∧ byte &&& 0xFE ≠ 0) then none
      else
        let value := value ||| ((byte &&& 0x7F).toUInt64 <<< UInt64.ofNat (7 * index))
        if byte &&& 0x80 = 0 then some (value, index + 1)
        else readVarintFrom (index + 1) value rest

def readVarint (data : List UInt8) : Option (UInt64 × Nat) := readVarintFrom 0 0 data

theorem forall_byte {p : UInt8 → Prop} (h : ∀ n : Fin 256, p (UInt8.ofNat n)) (b : UInt8) : p b := by
  have := h ⟨b.toNat, b.toNat_lt⟩
  simpa using this

theorem last_byte (b : UInt8) : b.toNat < 128 →
    b &&& 0x80 = 0 ∧ (b &&& 0x7F).toNat = b.toNat :=
  forall_byte (p := fun b => b.toNat < 128 → b &&& 0x80 = 0 ∧ (b &&& 0x7F).toNat = b.toNat)
    (by decide +kernel) b

theorem tenth_byte (b : UInt8) : b.toNat < 2 → b &&& 0xFE = 0 :=
  forall_byte (p := fun b => b.toNat < 2 → b &&& 0xFE = 0) (by decide +kernel) b

theorem continued_byte (b : UInt8) :
    ((b &&& 0x7F) ||| 0x80) &&& 0x80 ≠ 0 ∧
      (((b &&& 0x7F) ||| 0x80) &&& 0x7F).toNat = b.toNat % 128 :=
  forall_byte (p := fun b => ((b &&& 0x7F) ||| 0x80) &&& 0x80 ≠ 0 ∧
    (((b &&& 0x7F) ||| 0x80) &&& 0x7F).toNat = b.toNat % 128) (by decide +kernel) b

theorem toNat_or_group {value : UInt64} {byte : UInt8} {index group : Nat} (hindex : index ≤ 9)
    (hvalue : value.toNat < 2 ^ (7 * index)) (hbyte : (byte &&& 0x7F).toNat = group)
    (hfits : group * 2 ^ (7 * index) < 2 ^ 64) :
    (value ||| ((byte &&& 0x7F).toUInt64 <<< UInt64.ofNat (7 * index))).toNat =
      value.toNat + group * 2 ^ (7 * index) := by
  have hshift : (UInt64.ofNat (7 * index)).toNat % 64 = 7 * index := by
    have hsmall : 7 * index < 64 := by omega
    rw [UInt64.toNat_ofNat', Nat.mod_eq_of_lt (Nat.lt_trans hsmall (by decide)),
      Nat.mod_eq_of_lt hsmall]
  have hgroup : ((byte &&& 0x7F).toUInt64 <<< UInt64.ofNat (7 * index)).toNat =
      2 ^ (7 * index) * group := by
    rw [UInt64.toNat_shiftLeft, hshift, UInt8.toNat_toUInt64, hbyte, Nat.shiftLeft_eq,
      Nat.mod_eq_of_lt hfits, Nat.mul_comm]
  rw [UInt64.toNat_or, hgroup, Nat.or_comm, ← Nat.two_pow_add_eq_or_of_lt hvalue]
  rw [Nat.mul_comm group, Nat.add_comm]

/-- The reader loop resumed at `index` reads a whole encoding and adds it to the value. -/
theorem readVarintFrom_writeVarint (v : UInt64) (index : Nat) (value : UInt64)
    (rest : List UInt8) (hindex : index ≤ 9) (hvalue : value.toNat < 2 ^ (7 * index))
    (hfits : v.toNat * 2 ^ (7 * index) < 2 ^ 64) :
    ∃ result, readVarintFrom index value (writeVarint v ++ rest) =
        some (result, index + (writeVarint v).length) ∧
      result.toNat = value.toNat + v.toNat * 2 ^ (7 * index) := by
  induction v using writeVarint.induct generalizing index value with
  | case1 v hlt =>
      have hv : v.toNat < 128 := by simpa using UInt64.lt_iff_toNat_lt.mp hlt
      have hbyte : v.toUInt8.toNat = v.toNat := by
        rw [UInt64.toNat_toUInt8]
        omega
      obtain ⟨hlast, hgroup⟩ := last_byte v.toUInt8 (by omega)
      have hguard : ¬ (index ≥ 10 ∨ (index = 9 ∧ v.toUInt8 &&& 0xFE ≠ 0)) := by
        rintro (h | ⟨rfl, h⟩)
        · omega
        · exact h (tenth_byte _ (by omega))
      rw [writeVarint, if_pos hlt]
      simp only [List.singleton_append, readVarintFrom, if_neg hguard, if_pos hlast,
        List.length_singleton]
      exact ⟨_, rfl, toNat_or_group hindex hvalue (hgroup.trans hbyte) hfits⟩
  | case2 v hge ih =>
      have hv : 128 ≤ v.toNat := by simpa using UInt64.le_iff_toNat_le.mp (UInt64.not_lt.mp hge)
      have hindex' : index ≤ 8 := by
        by_contra h
        have hindex9 : index = 9 := by omega
        rw [hindex9] at hfits
        omega
      obtain ⟨hmore, hgroup⟩ := continued_byte v.toUInt8
      have hbyte : v.toUInt8.toNat % 128 = v.toNat % 128 := by
        rw [UInt64.toNat_toUInt8]
        omega
      have hguard : ¬ (index ≥ 10 ∨
          (index = 9 ∧ ((v.toUInt8 &&& 0x7F) ||| 0x80) &&& 0xFE ≠ 0)) := by
        rintro (h | ⟨h, -⟩) <;> omega
      have hpow : 2 ^ (7 * (index + 1)) = 2 ^ (7 * index) * 128 := by
        rw [Nat.mul_add, Nat.pow_add]
      have hsplit : v.toNat * 2 ^ (7 * index) =
          v.toNat % 128 * 2 ^ (7 * index) + v.toNat / 128 * 2 ^ (7 * (index + 1)) := by
        rw [hpow, Nat.mul_comm (2 ^ (7 * index)) 128, ← Nat.mul_assoc, ← Nat.add_mul]
        congr 1
        omega
      have hor := toNat_or_group (by omega : index ≤ 9) hvalue (hgroup.trans hbyte) (by omega)
      obtain ⟨result, hrun, hresult⟩ := ih (index + 1) _ (by omega)
        (by
          rw [hor, hpow]
          have hlow : v.toNat % 128 * 2 ^ (7 * index) ≤ 127 * 2 ^ (7 * index) :=
            Nat.mul_le_mul_right _ (by omega)
          omega)
        (by rw [toNat_shiftRight_seven]; omega)
      rw [writeVarint, if_neg hge]
      simp only [List.cons_append, readVarintFrom, if_neg hguard, if_neg hmore,
        List.length_cons]
      refine ⟨result, ?_, ?_⟩
      · rw [hrun]
        congr 2
        omega
      · rw [hresult, hor, toNat_shiftRight_seven]
        omega

theorem readVarint_writeVarint (v : UInt64) (rest : List UInt8) :
    readVarint (writeVarint v ++ rest) = some (v, (writeVarint v).length) := by
  obtain ⟨result, hrun, hresult⟩ :=
    readVarintFrom_writeVarint v 0 0 rest (by omega) (by decide) (by simpa using v.toNat_lt)
  have hv : result = v := UInt64.toNat_inj.mp (by simpa using hresult)
  rw [readVarint, hrun, hv, Nat.zero_add]

theorem writeVarint_ne_nil (v : UInt64) : writeVarint v ≠ [] := by
  rw [writeVarint]
  split <;> simp

def groupsValue : List UInt8 → Nat
  | [] => 0
  | byte :: rest => byte.toNat % 128 + 128 * groupsValue rest

theorem group_byte (b : UInt8) : (b &&& 0x7F).toNat = b.toNat % 128 :=
  forall_byte (p := fun b => (b &&& 0x7F).toNat = b.toNat % 128) (by decide +kernel) b

theorem tenth_group (b : UInt8) : b &&& 0xFE = 0 → b.toNat % 128 < 2 :=
  forall_byte (p := fun b => b &&& 0xFE = 0 → b.toNat % 128 < 2) (by decide +kernel) b

/-- What the reader loop answers at `index` adds the groups it reads to the value, exactly. -/
theorem readVarintFrom_eq_some {data : List UInt8} {index n : Nat} {value result : UInt64}
    (hvalue : value.toNat < 2 ^ (7 * index))
    (h : readVarintFrom index value data = some (result, n)) :
    index < n ∧ n ≤ 10 ∧ n ≤ index + data.length ∧
      result.toNat = value.toNat + groupsValue (data.take (n - index)) * 2 ^ (7 * index) := by
  induction data generalizing index value with
  | nil => cases h
  | cons byte rest ih =>
      rw [readVarintFrom] at h
      split at h
      · cases h
      · next hguard =>
        obtain ⟨hindex, htenth⟩ := not_or.mp hguard
        have hgroup : byte.toNat % 128 < 128 := Nat.mod_lt _ (by decide)
        have hfits : byte.toNat % 128 * 2 ^ (7 * index) < 2 ^ 64 := by
          by_cases hnine : index = 9
          · have hlow := tenth_group byte (not_not.mp (not_and.mp htenth hnine))
            rw [hnine]
            omega
          · calc byte.toNat % 128 * 2 ^ (7 * index)
                ≤ 127 * 2 ^ (7 * index) := Nat.mul_le_mul_right _ (by omega)
              _ ≤ 127 * 2 ^ (7 * 8) :=
                  Nat.mul_le_mul_left _ (Nat.pow_le_pow_right (by decide) (by omega))
              _ < 2 ^ 64 := by decide
        have hor := toNat_or_group (by omega : index ≤ 9) hvalue (group_byte byte) hfits
        simp only at h
        split at h
        · obtain ⟨rfl, rfl⟩ := Prod.mk.injEq .. ▸ Option.some.inj h
          refine ⟨by omega, by omega, by simp, ?_⟩
          rw [hor, Nat.add_sub_cancel_left, List.take_succ_cons, List.take_zero, groupsValue,
            groupsValue, Nat.mul_zero, Nat.add_zero]
        · have hpow : 2 ^ (7 * (index + 1)) = 128 * 2 ^ (7 * index) := by
            rw [Nat.mul_add, Nat.pow_add, Nat.mul_comm]
          have hnext : value.toNat + byte.toNat % 128 * 2 ^ (7 * index) <
              2 ^ (7 * (index + 1)) := by
            rw [hpow]
            have hle : byte.toNat % 128 * 2 ^ (7 * index) ≤ 127 * 2 ^ (7 * index) :=
              Nat.mul_le_mul_right _ (by omega)
            omega
          obtain ⟨hlt, hten, hlength, hresult⟩ := ih (by rw [hor]; exact hnext) h
          refine ⟨by omega, hten, by rw [List.length_cons]; omega, ?_⟩
          obtain ⟨k, hk⟩ : ∃ k, n - index = k + 1 := ⟨n - index - 1, by omega⟩
          have hk' : n - (index + 1) = k := by omega
          rw [hresult, hor, hk, hk', List.take_succ_cons, groupsValue, hpow, Nat.add_mul,
            ← Nat.mul_assoc, Nat.mul_comm _ 128, Nat.add_assoc]

/-- The reader inverts the writer, and what it answers is the value of the bytes it consumed. -/
theorem varint_exact :
    (∀ (v : UInt64) (suffix : List UInt8),
      readVarint (writeVarint v ++ suffix) = some (v, (writeVarint v).length)) ∧
    ∀ (data : List UInt8) (v : UInt64) (n : Nat), readVarint data = some (v, n) →
      1 ≤ n ∧ n ≤ 10 ∧ n ≤ data.length ∧ v.toNat = groupsValue (data.take n) := by
  refine ⟨readVarint_writeVarint, fun data v n h => ?_⟩
  obtain ⟨hpos, hten, hlength, hvalue⟩ := readVarintFrom_eq_some (by decide) h
  refine ⟨hpos, hten, by simpa using hlength, ?_⟩
  simpa using hvalue

theorem varint_exact_threeHundred :
    1 ≤ 2 ∧ 2 ≤ 10 ∧ 2 ≤ [(0xAC : UInt8), 0x02, 0x07].length ∧
      (300 : UInt64).toNat = groupsValue ([(0xAC : UInt8), 0x02, 0x07].take 2) :=
  varint_exact.2 [0xAC, 0x02, 0x07] 300 2 (by decide)

end CleanCtx

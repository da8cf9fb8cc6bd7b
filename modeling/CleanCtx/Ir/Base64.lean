import CleanCtx.Library.Json
import CleanCtx.Ir.BinaryRoundTrip

/-!
Base64 and the JSON wrapper of the binary wire (`ir/binary_wire.rs`). The encoder takes three bytes
at a time; the decoder shifts six bits at a time into a 32-bit buffer and takes a byte out as soon
as it holds eight. After every four characters the buffer is empty again.
-/
namespace CleanCtx
namespace Binary

def chars : List Char :=
  "ABCDEFGHIJKLMNOPQRSTUVWXYZabcdefghijklmnopqrstuvwxyz0123456789+/".toList

/-- `CHARS[index]`; the six bits of an index never leave the table. -/
def charAt (index : UInt32) : Char := chars.getD index.toNat '='

def triple (b0 b1 b2 : UInt8) : UInt32 :=
  (b0.toUInt32 <<< 16) ||| (b1.toUInt32 <<< 8) ||| b2.toUInt32

/-- One pass of the loop over `data.chunks(3)`; an absent byte is zero. -/
def base64Chars : List UInt8 → List Char
  | [] => []
  | [b0] =>
      let triple := triple b0 0 0
      [charAt ((triple >>> 18) &&& 0x3F), charAt ((triple >>> 12) &&& 0x3F), '=', '=']
  | [b0, b1] =>
      let triple := triple b0 b1 0
      [charAt ((triple >>> 18) &&& 0x3F), charAt ((triple >>> 12) &&& 0x3F),
        charAt ((triple >>> 6) &&& 0x3F), '=']
  | b0 :: b1 :: b2 :: rest =>
      let triple := triple b0 b1 b2
      charAt ((triple >>> 18) &&& 0x3F) :: charAt ((triple >>> 12) &&& 0x3F) ::
        charAt ((triple >>> 6) &&& 0x3F) :: charAt (triple &&& 0x3F) :: base64Chars rest

def base64Encode (data : List UInt8) : String := String.ofList (base64Chars data)

def decodeChar (c : UInt8) : Option UInt32 :=
  if 0x41 ≤ c ∧ c ≤ 0x5A then some (c - 0x41).toUInt32
  else if 0x61 ≤ c ∧ c ≤ 0x7A then some ((c - 0x61).toUInt32 + 26)
  else if 0x30 ≤ c ∧ c ≤ 0x39 then some ((c - 0x30).toUInt32 + 52)
  else if c = 0x2B then some 62
  else if c = 0x2F then some 63
  else none

/-- The loop of `base64_decode` from a buffer and the bits it holds: the bytes pushed from here. -/
def base64Loop (buffer bitsCollected : UInt32) : List UInt8 → Option (List UInt8)
  | [] => some []
  | b :: rest =>
      if b = 0x3D then some []
      else
        match decodeChar b with
        | none => none
        | some value =>
            let buffer := (buffer <<< 6) ||| value
            let bitsCollected := bitsCollected + 6
            if bitsCollected ≥ 8 then
              let bitsCollected := bitsCollected - 8
              let byte := (buffer >>> bitsCollected).toUInt8
              (base64Loop (buffer &&& ((1 <<< bitsCollected) - 1)) bitsCollected rest).map
                (byte :: ·)
            else base64Loop buffer bitsCollected rest

def base64Decode (data : String) : Option (List UInt8) := base64Loop 0 0 (utf8 data)

def irToBinaryWireJson (ir : CompiledIR) : Rust Value := do
  let bytes ← encode ir
  .ok (.object [
    ("file", .string ir.fileId),
    ("v", .ofU64 ir.version),
    ("encoding", .string "binary"),
    ("data", .string (base64Encode bytes))])

def binaryWireJsonToIr (value : Value) : Option CompiledIR := do
  let fileId ← (value.get "file").bind Value.asStr
  let version ← (value.get "v").bind Value.asU64
  let data ← (value.get "data").bind Value.asStr
  let bytes ← base64Decode data
  let ir ← (decode bytes).toOption
  if ir.fileId = fileId ∧ ir.version = version then some ir else none

/-- The byte that spells six bits, and what the decoder makes of it. -/
theorem charAt_spells : ∀ n : Fin 64,
    String.utf8EncodeChar (charAt (UInt32.ofNat n)) =
        [UInt8.ofNat (charAt (UInt32.ofNat n)).toNat] ∧
      UInt8.ofNat (charAt (UInt32.ofNat n)).toNat ≠ 0x3D ∧
      decodeChar (UInt8.ofNat (charAt (UInt32.ofNat n)).toNat) = some (UInt32.ofNat n) := by
  decide +kernel

theorem toNat_shift_or {buffer value : UInt32} (hbuffer : buffer.toNat < 2 ^ 26)
    (hvalue : value.toNat < 64) :
    ((buffer <<< 6) ||| value).toNat = buffer.toNat * 64 + value.toNat := by
  have hshift : (buffer <<< 6).toNat = 2 ^ 6 * buffer.toNat := by
    rw [UInt32.toNat_shiftLeft]
    simp only [UInt32.reduceToNat, Nat.reduceMod, Nat.shiftLeft_eq]
    omega
  rw [UInt32.toNat_or, hshift, ← Nat.two_pow_add_eq_or_of_lt hvalue, Nat.mul_comm]

theorem toNat_triple (b0 b1 b2 : UInt8) :
    (triple b0 b1 b2).toNat = b0.toNat * 65536 + b1.toNat * 256 + b2.toNat := by
  have h0 := b0.toNat_lt
  have h1 := b1.toNat_lt
  have h2 := b2.toNat_lt
  have hhigh : (b0.toUInt32 <<< 16).toNat = 2 ^ 16 * b0.toNat := by
    rw [UInt32.toNat_shiftLeft, UInt8.toNat_toUInt32]
    simp only [UInt32.reduceToNat, Nat.reduceMod, Nat.shiftLeft_eq]
    omega
  have hmiddle : (b1.toUInt32 <<< 8).toNat = 2 ^ 8 * b1.toNat := by
    rw [UInt32.toNat_shiftLeft, UInt8.toNat_toUInt32]
    simp only [UInt32.reduceToNat, Nat.reduceMod, Nat.shiftLeft_eq]
    omega
  have hlow : 2 ^ 8 * b1.toNat + b2.toNat = 2 ^ 8 * b1.toNat ||| b2.toNat :=
    Nat.two_pow_add_eq_or_of_lt h2 b1.toNat
  have hall : 2 ^ 16 * b0.toNat + (2 ^ 8 * b1.toNat + b2.toNat) =
      2 ^ 16 * b0.toNat ||| (2 ^ 8 * b1.toNat + b2.toNat) :=
    Nat.two_pow_add_eq_or_of_lt (by omega) b0.toNat
  rw [triple, UInt32.toNat_or, UInt32.toNat_or, hhigh, hmiddle, UInt8.toNat_toUInt32, Nat.or_assoc,
    ← hlow, ← hall]
  omega

theorem toNat_six (t shift : UInt32) (hshift : shift.toNat < 32) :
    ((t >>> shift) &&& 0x3F).toNat = t.toNat / 2 ^ shift.toNat % 64 := by
  rw [UInt32.toNat_and, UInt32.toNat_shiftRight, Nat.mod_eq_of_lt hshift,
    Nat.shiftRight_eq_div_pow]
  exact Nat.and_two_pow_sub_one_eq_mod _ 6

theorem toNat_kept (buffer : UInt32) (bits : UInt32) (hbits : bits.toNat < 32) :
    (buffer &&& ((1 <<< bits) - 1)).toNat = buffer.toNat % 2 ^ bits.toNat := by
  have hone : ((1 : UInt32) <<< bits).toNat = 2 ^ bits.toNat := by
    rw [UInt32.toNat_shiftLeft, Nat.mod_eq_of_lt hbits, Nat.shiftLeft_eq]
    simp only [UInt32.reduceToNat, Nat.one_mul]
    exact Nat.mod_eq_of_lt (Nat.pow_lt_pow_right (by decide) hbits)
  have hle : (1 : UInt32) ≤ 1 <<< bits := by
    rw [UInt32.le_iff_toNat_le, hone]
    exact Nat.one_le_two_pow
  rw [UInt32.toNat_and, UInt32.toNat_sub_of_le _ _ hle, hone]
  exact Nat.and_two_pow_sub_one_eq_mod _ _

theorem toNat_byte (buffer : UInt32) (bits : UInt32) (hbits : bits.toNat < 32) :
    (buffer >>> bits).toUInt8.toNat = buffer.toNat / 2 ^ bits.toNat % 256 := by
  rw [UInt32.toNat_toUInt8, UInt32.toNat_shiftRight, Nat.mod_eq_of_lt hbits,
    Nat.shiftRight_eq_div_pow]

def spelled (l : List Char) : List UInt8 := l.flatMap String.utf8EncodeChar

/-- One character of the alphabet. -/
theorem base64Loop_charAt {value : UInt32} (hvalue : value.toNat < 64)
    (buffer bitsCollected : UInt32) (rest : List Char) :
    base64Loop buffer bitsCollected (spelled (charAt value :: rest)) =
      if bitsCollected + 6 ≥ 8 then
        (base64Loop (((buffer <<< 6) ||| value) &&& ((1 <<< (bitsCollected + 6 - 8)) - 1))
            (bitsCollected + 6 - 8) (spelled rest)).map
          ((((buffer <<< 6) ||| value) >>> (bitsCollected + 6 - 8)).toUInt8 :: ·)
      else base64Loop ((buffer <<< 6) ||| value) (bitsCollected + 6) (spelled rest) := by
  obtain ⟨hbytes, hpad, hdecode⟩ := charAt_spells ⟨value.toNat, hvalue⟩
  rw [UInt32.ofNat_toNat] at hbytes hpad hdecode
  rw [spelled, List.flatMap_cons, hbytes, List.singleton_append, base64Loop, if_neg hpad, hdecode]
  rfl

/-- A character that completes a byte. The buffer and the character split into the byte and what
stays. -/
theorem base64Loop_byte {buffer bitsCollected value left next : UInt32} {byte : UInt8}
    (hbuffer : buffer.toNat < 64) (hvalue : value.toNat < 64)
    (hfull : bitsCollected + 6 ≥ 8) (hleft : bitsCollected + 6 - 8 = left) (hsmall : left.toNat < 32)
    (hbyte : (buffer.toNat * 64 + value.toNat) / 2 ^ left.toNat = byte.toNat)
    (hnext : next.toNat = (buffer.toNat * 64 + value.toNat) % 2 ^ left.toNat) (rest : List Char) :
    base64Loop buffer bitsCollected (spelled (charAt value :: rest)) =
      (base64Loop next left (spelled rest)).map (byte :: ·) := by
  have hor := toNat_shift_or (by omega : buffer.toNat < 2 ^ 26) hvalue
  have hpushed : (((buffer <<< 6) ||| value) >>> left).toUInt8 = byte := by
    apply UInt8.toNat_inj.mp
    rw [toNat_byte _ _ hsmall, hor, hbyte]
    exact Nat.mod_eq_of_lt byte.toNat_lt
  have hkept : ((buffer <<< 6) ||| value) &&& ((1 <<< left) - 1) = next := by
    apply UInt32.toNat_inj.mp
    rw [toNat_kept _ _ hsmall, hor, hnext]
  rw [base64Loop_charAt hvalue, if_pos hfull, hleft, hpushed, hkept]

theorem base64Loop_start {value : UInt32} (hvalue : value.toNat < 64) (rest : List Char) :
    base64Loop 0 0 (spelled (charAt value :: rest)) = base64Loop value 6 (spelled rest) := by
  have hor : ((0 : UInt32) <<< 6) ||| value = value := by
    apply UInt32.toNat_inj.mp
    rw [toNat_shift_or (by decide) hvalue]
    simp
  rw [base64Loop_charAt hvalue, if_neg (by decide), hor]
  rfl

/-- The first two characters of a chunk give its first byte. -/
theorem base64Loop_first {b0 b1 b2 : UInt8} {next : UInt32} (hnext : next.toNat = b1.toNat / 16)
    (rest : List Char) :
    base64Loop 0 0 (spelled (charAt ((triple b0 b1 b2 >>> 18) &&& 0x3F) ::
        charAt ((triple b0 b1 b2 >>> 12) &&& 0x3F) :: rest)) =
      (base64Loop next 4 (spelled rest)).map (b0 :: ·) := by
  have h0 := b0.toNat_lt
  have h1 := b1.toNat_lt
  have h2 := b2.toNat_lt
  have hhigh := toNat_six (triple b0 b1 b2) 18 (by decide)
  have hlow := toNat_six (triple b0 b1 b2) 12 (by decide)
  rw [toNat_triple] at hhigh hlow
  simp only [UInt32.reduceToNat, Nat.reducePow] at hhigh hlow
  rw [base64Loop_start (by omega)]
  refine base64Loop_byte (by omega) (by omega) (by decide) rfl (by decide) ?_ ?_ rest
  · simp only [UInt32.reduceToNat, UInt32.reduceAdd, UInt32.reduceSub, Nat.reducePow]
    omega
  · simp only [UInt32.reduceToNat, UInt32.reduceAdd, UInt32.reduceSub, Nat.reducePow]
    omega

theorem base64Loop_second {b0 b1 b2 : UInt8} {buffer next : UInt32}
    (hbuffer : buffer.toNat = b1.toNat / 16) (hnext : next.toNat = b2.toNat / 64)
    (rest : List Char) :
    base64Loop buffer 4 (spelled (charAt ((triple b0 b1 b2 >>> 6) &&& 0x3F) :: rest)) =
      (base64Loop next 2 (spelled rest)).map (b1 :: ·) := by
  have h0 := b0.toNat_lt
  have h1 := b1.toNat_lt
  have h2 := b2.toNat_lt
  have hsix := toNat_six (triple b0 b1 b2) 6 (by decide)
  rw [toNat_triple] at hsix
  simp only [UInt32.reduceToNat, Nat.reducePow] at hsix
  refine base64Loop_byte (by omega) (by omega) (by decide) rfl (by decide) ?_ ?_ rest
  · simp only [UInt32.reduceToNat, UInt32.reduceAdd, UInt32.reduceSub, Nat.reducePow]
    omega
  · simp only [UInt32.reduceToNat, UInt32.reduceAdd, UInt32.reduceSub, Nat.reducePow]
    omega

theorem base64Loop_third {b0 b1 b2 : UInt8} {buffer : UInt32}
    (hbuffer : buffer.toNat = b2.toNat / 64) (rest : List Char) :
    base64Loop buffer 2 (spelled (charAt (triple b0 b1 b2 &&& 0x3F) :: rest)) =
      (base64Loop 0 0 (spelled rest)).map (b2 :: ·) := by
  have h2 := b2.toNat_lt
  have hsix : (triple b0 b1 b2 &&& 0x3F).toNat = (triple b0 b1 b2).toNat % 64 := by
    rw [UInt32.toNat_and]
    exact Nat.and_two_pow_sub_one_eq_mod _ 6
  rw [toNat_triple] at hsix
  refine base64Loop_byte (by omega) (by omega) (by decide) rfl (by decide) ?_ ?_ rest
  · simp only [UInt32.reduceToNat, UInt32.reduceAdd, UInt32.reduceSub, Nat.reducePow]
    omega
  · simp only [UInt32.reduceToNat, UInt32.reduceAdd, UInt32.reduceSub, Nat.reducePow]
    omega

theorem base64Loop_base64Chars (data : List UInt8) :
    base64Loop 0 0 (spelled (base64Chars data)) = some data := by
  induction data using base64Chars.induct with
  | case1 => rfl
  | case2 b0 =>
      exact base64Loop_first (show (0 : UInt32).toNat = _ from rfl) ['=', '=']
  | case3 b0 b1 =>
      obtain ⟨next, hnext⟩ : ∃ next : UInt32, next.toNat = b1.toNat / 16 :=
        ⟨UInt32.ofNat (b1.toNat / 16), by
          rw [UInt32.toNat_ofNat', Nat.mod_eq_of_lt (by have := b1.toNat_lt; omega)]⟩
      refine (base64Loop_first hnext _).trans ?_
      rw [base64Loop_second hnext (show (0 : UInt32).toNat = _ from rfl)]
      rfl
  | case4 b0 b1 b2 rest ih =>
      obtain ⟨next, hnext⟩ : ∃ next : UInt32, next.toNat = b1.toNat / 16 :=
        ⟨UInt32.ofNat (b1.toNat / 16), by
          rw [UInt32.toNat_ofNat', Nat.mod_eq_of_lt (by have := b1.toNat_lt; omega)]⟩
      obtain ⟨next', hnext'⟩ : ∃ next : UInt32, next.toNat = b2.toNat / 64 :=
        ⟨UInt32.ofNat (b2.toNat / 64), by
          rw [UInt32.toNat_ofNat', Nat.mod_eq_of_lt (by have := b2.toNat_lt; omega)]⟩
      refine (base64Loop_first hnext _).trans ?_
      rw [base64Loop_second hnext hnext', base64Loop_third hnext', ih]
      rfl

theorem base64Decode_base64Encode (data : List UInt8) :
    base64Decode (base64Encode data) = some data := by
  rw [base64Decode, base64Encode, utf8_eq_flatMap, String.toList_ofList]
  exact base64Loop_base64Chars data

/-- Base64 loses no byte, so the JSON wrapper returns what the binary wire returns. -/
theorem base64_roundTrips :
    (∀ data : List UInt8, base64Decode (base64Encode data) = some data) ∧
    ∀ (ir : CompiledIR) (bytes : List UInt8), encode ir = .ok bytes → decode bytes = .ok ir →
      ∃ value, irToBinaryWireJson ir = .ok value ∧ binaryWireJsonToIr value = some ir := by
  refine ⟨base64Decode_base64Encode, fun ir bytes hencode hdecode => ?_⟩
  refine ⟨_, by rw [irToBinaryWireJson, hencode]; rfl, ?_⟩
  simp [binaryWireJsonToIr, List.lookup_cons, base64Decode_base64Encode, hdecode, Except.toOption]

theorem base64_roundTrips_class :
    ∃ value, irToBinaryWireJson
        ⟨"f", [.defClass "C1" "Shape", .defMethod "C1" "M1" "area"], 1⟩ = .ok value ∧
      binaryWireJsonToIr value =
        some ⟨"f", [.defClass "C1" "Shape", .defMethod "C1" "M1" "area"], 1⟩ :=
  base64_roundTrips.2 _ [204, 2, 4, 1, 7, 5, 68, 69, 70, 95, 67, 2, 67, 49, 5, 83, 104, 97, 112,
      101, 5, 68, 69, 70, 95, 77, 2, 77, 49, 4, 97, 114, 101, 97, 1, 102, 6, 2, 0, 1, 2, 1, 1, 4, 5]
    ((encode_ok _).trans (congrArg Except.ok (by decide +kernel))) (by decide +kernel)

end Binary
end CleanCtx

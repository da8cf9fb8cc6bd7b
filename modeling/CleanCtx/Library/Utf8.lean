import Mathlib.Data.List.Basic

/-!
The bytes of a string, and the strings that bytes spell.
-/
namespace CleanCtx

def utf8 (s : String) : List UInt8 := s.toUTF8.data.toList

/-- `String::from_utf8`. -/
def fromUtf8 (bytes : List UInt8) : Option String := String.fromUTF8? ⟨bytes.toArray⟩

theorem utf8_fromUTF8 (s : String) : String.fromUTF8? ⟨(utf8 s).toArray⟩ = some s := by
  have hbytes : (⟨(utf8 s).toArray⟩ : ByteArray) = s.toByteArray := by simp [utf8]
  rw [hbytes]
  simp only [String.fromUTF8?, dif_pos s.isValidUTF8]
  rfl

theorem utf8_of_fromUtf8 {bytes : List UInt8} {s : String} (h : fromUtf8 bytes = some s) :
    utf8 s = bytes := by
  unfold fromUtf8 String.fromUTF8? at h
  split at h
  · rw [← Option.some.inj h]
    rfl
  · cases h

theorem utf8_eq_flatMap (s : String) : utf8 s = s.toList.flatMap String.utf8EncodeChar := by
  have hbytes : s.toUTF8 = s.toList.utf8Encode := String.utf8Encode_toList.symm
  rw [utf8, hbytes, List.utf8Encode]
  simp

theorem utf8EncodeChar_of_mem {c : Char} {b : UInt8} (hb : b ∈ String.utf8EncodeChar c)
    (hascii : b.toNat < 128) : c.toNat = b.toNat := by
  unfold String.utf8EncodeChar at hb
  dsimp only at hb
  split at hb
  · next hle =>
    rw [List.mem_singleton] at hb
    rw [hb, UInt8.toNat_ofNat']
    change c.val.toNat = c.val.toNat % 2 ^ 8
    omega
  · have hhigh : ∀ n, 128 ≤ n → n < 256 → b ≠ UInt8.ofNat n := by
      rintro n hge hlt rfl
      rw [UInt8.toNat_ofNat', Nat.mod_eq_of_lt hlt] at hascii
      omega
    split at hb
    · simp only [List.mem_cons, List.not_mem_nil, or_false] at hb
      rcases hb with hb | hb <;> exact absurd hb (hhigh _ (by omega) (by omega))
    · split at hb
      · simp only [List.mem_cons, List.not_mem_nil, or_false] at hb
        rcases hb with hb | hb | hb <;> exact absurd hb (hhigh _ (by omega) (by omega))
      · simp only [List.mem_cons, List.not_mem_nil, or_false] at hb
        rcases hb with hb | hb | hb | hb <;> exact absurd hb (hhigh _ (by omega) (by omega))

theorem mem_utf8_iff {s : String} {c : Char} {b : UInt8} (hcode : c.toNat = b.toNat)
    (hascii : b.toNat < 128) : b ∈ utf8 s ↔ c ∈ s.toList := by
  rw [utf8_eq_flatMap, List.mem_flatMap]
  constructor
  · rintro ⟨found, hfound, hb⟩
    obtain rfl : found = c :=
      Char.toNat_inj.mp ((utf8EncodeChar_of_mem hb hascii).trans hcode.symm)
    exact hfound
  · intro hc
    refine ⟨c, hc, ?_⟩
    have hle : c.val.toNat ≤ 0x7f := by
      change c.toNat ≤ 0x7f
      omega
    rw [String.utf8EncodeChar, if_pos hle, List.mem_singleton]
    exact UInt8.toNat_inj.mp (by rw [← hcode, UInt8.toNat_ofNat']; change c.val.toNat = _; omega)

theorem utf8EncodeChar_ne_nil (c : Char) : String.utf8EncodeChar c ≠ [] := by
  intro h
  have hsize := c.utf8Size_pos
  rw [← String.length_utf8EncodeChar, h] at hsize
  exact absurd hsize (Nat.lt_irrefl 0)

/-- The first character of an encoded text is determined, and so is what follows. -/
theorem utf8EncodeChar_append_inj {c d : Char} {l l' : List UInt8}
    (h : String.utf8EncodeChar c ++ l = String.utf8EncodeChar d ++ l') : c = d ∧ l = l' := by
  have hfirst : ∀ (e : Char) (m : List UInt8),
      (String.utf8EncodeChar e ++ m).toByteArray.utf8DecodeChar? 0 = some e := by
    intro e m
    rw [List.toByteArray_append]
    exact ByteArray.utf8DecodeChar?_utf8EncodeChar_append
  obtain rfl : c = d := Option.some.inj ((hfirst c l).symm.trans (h ▸ hfirst d l'))
  exact ⟨rfl, List.append_cancel_left h⟩

/-- A character that is found in the bytes of a text is a character of the text. -/
theorem flatMap_utf8EncodeChar_split {text : List Char} {c : Char} {u v : List UInt8}
    (h : text.flatMap String.utf8EncodeChar = u ++ (String.utf8EncodeChar c ++ v)) :
    ∃ before after, text = before ++ c :: after ∧ before.flatMap String.utf8EncodeChar = u ∧
      after.flatMap String.utf8EncodeChar = v := by
  induction text generalizing u with
  | nil =>
      have hnil := (List.append_eq_nil_iff.mp (List.append_eq_nil_iff.mp h.symm).2).1
      exact absurd hnil (utf8EncodeChar_ne_nil c)
  | cons d text ih =>
      rw [List.flatMap_cons] at h
      cases u with
      | nil =>
          obtain ⟨rfl, rfl⟩ := utf8EncodeChar_append_inj h
          exact ⟨[], text, rfl, rfl, rfl⟩
      | cons b u =>
          rcases List.append_eq_append_iff.mp h with ⟨w, hu, hrest⟩ | ⟨w, hd, hrest⟩
          · obtain ⟨before, after, rfl, rfl, hafter⟩ := ih hrest
            exact ⟨d :: before, after, rfl, by rw [List.flatMap_cons, hu], hafter⟩
          · cases w with
            | nil =>
                obtain ⟨before, after, rfl, hbefore, hafter⟩ := ih (u := []) hrest.symm
                refine ⟨d :: before, after, rfl, ?_, hafter⟩
                rw [List.flatMap_cons, hbefore, hd, List.append_nil, List.append_nil]
            | cons b' w =>
                -- The character would start inside the encoding of another one.
                obtain ⟨rest, hc⟩ : ∃ rest, String.utf8EncodeChar c = b' :: rest := by
                  cases hc : String.utf8EncodeChar c with
                  | nil => exact absurd hc (utf8EncodeChar_ne_nil c)
                  | cons first rest =>
                      rw [hc, List.cons_append, List.cons_append, List.cons.injEq] at hrest
                      exact ⟨rest, by rw [hrest.1]⟩
                have hstart : b'.IsUTF8FirstByte := by
                  have hzero := (@UInt8.isUTF8FirstByte_getElem_utf8EncodeChar c 0
                    (by rw [hc]; exact Nat.zero_lt_succ _)).mpr rfl
                  simpa only [hc, List.getElem_cons_zero] using hzero
                have hinside := (@UInt8.isUTF8FirstByte_getElem_utf8EncodeChar d
                  (b :: u).length (by rw [hd]; simp)).mp
                    (by simpa only [hd, List.getElem_append_right (Nat.le_refl _), Nat.sub_self,
                      List.getElem_cons_zero] using hstart)
                exact absurd hinside (Nat.succ_ne_zero _)

end CleanCtx

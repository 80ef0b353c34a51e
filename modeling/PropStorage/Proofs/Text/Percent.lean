import PropStorage.Proofs.Text.Spans
import PropStorage.Text.Percent

/-!
# Percent-encoding keeps texts apart

An encoded text holds only unreserved characters and `%` (`isEncoded_of_mem`), and it determines the
text (`encode_append_inj`), even where a separator follows.
-/

namespace PropStorage.Percent

/-! ## Bytes of a text -/

theorem toList_loop (bs : ByteArray) (i : Nat) (before : List UInt8) :
    ByteArray.toList.loop bs i before = before.reverse ++ bs.data.toList.drop i := by
  fun_induction ByteArray.toList.loop bs i before with
  | case1 i before h ih =>
    have hlt : i < bs.data.toList.length := h
    have hget : bs.get! i = bs.data.toList[i] := by
      rw [Array.getElem_toList]
      exact getElem!_pos bs.data i h
    rw [ih, List.drop_eq_getElem_cons h, hget]
    simp
  | case2 i before h =>
    rw [List.drop_eq_nil_of_le (Nat.le_of_not_lt h), List.append_nil]

/-- The bytes of a text determine it. -/
theorem toUTF8_toList_inj {s t : String} (h : s.toUTF8.toList = t.toUTF8.toList) : s = t := by
  rw [ByteArray.toList, ByteArray.toList, toList_loop, toList_loop] at h
  refine String.toByteArray_inj.1 (ByteArray.ext (Array.toList_inj.1 ?_))
  simpa using h

/-! ## Encoded bytes -/

/-- Whether a character can stand in an encoded text. -/
def isEncoded (c : Char) : Bool := c.isAlphanum || c ∈ ['-', '_', '.', '~', '%']

theorem hexDigit_inj {m n : Nat} (hm : m < 16) (hn : n < 16) (h : hexDigit m = hexDigit n) :
    m = n := by
  have : ∀ i j : Fin 16, hexDigit i = hexDigit j → i.val = j.val := by decide
  exact this ⟨m, hm⟩ ⟨n, hn⟩ h

theorem isEncoded_hexDigit {n : Nat} (h : n < 16) : isEncoded (hexDigit n) = true := by
  have : ∀ i : Fin 16, isEncoded (hexDigit i) = true := by decide
  exact this ⟨n, h⟩

theorem toNat_ofNat_byte (b : UInt8) : (Char.ofNat b.toNat).toNat = b.toNat := by
  have hvalid : b.toNat.isValidChar := .inl (Nat.lt_trans b.toNat_lt (by decide))
  rw [Char.ofNat, dif_pos hvalid]
  rfl

theorem isEncoded_encodeByte {b : UInt8} {c : Char} (h : c ∈ encodeByte b) :
    isEncoded c = true := by
  have hb : b.toNat < 256 := b.toNat_lt
  rw [encodeByte] at h
  split at h
  · rename_i hfree
    rw [List.mem_singleton.1 h]
    simp only [isUnreserved, Bool.or_eq_true, decide_eq_true_eq] at hfree
    simp only [isEncoded, Bool.or_eq_true, decide_eq_true_eq, List.mem_cons]
    rcases hfree with (((h | h) | h) | h) | h
    · exact .inl h
    all_goals simp [h]
  · simp only [List.mem_cons, List.not_mem_nil, or_false] at h
    rcases h with rfl | rfl | rfl
    · rfl
    · exact isEncoded_hexDigit (by omega)
    · exact isEncoded_hexDigit (by omega)

theorem ne_percent {b : UInt8} (h : isUnreserved b = true) : Char.ofNat b.toNat ≠ '%' := by
  intro heq
  rw [isUnreserved, heq] at h
  exact absurd h (by decide)

/-- No byte's encoding is the beginning of another's. -/
theorem encodeByte_append_inj {a b : UInt8} {rest rest' : List Char}
    (h : encodeByte a ++ rest = encodeByte b ++ rest') : a = b ∧ rest = rest' := by
  have ha : a.toNat < 256 := a.toNat_lt
  have hb : b.toNat < 256 := b.toNat_lt
  rw [encodeByte, encodeByte] at h
  split at h <;> split at h
  · obtain ⟨hchar, hrest⟩ := List.cons.inj h
    have hnat := congrArg Char.toNat hchar
    rw [toNat_ofNat_byte, toNat_ofNat_byte] at hnat
    exact ⟨UInt8.toNat_inj.1 hnat, hrest⟩
  · rename_i hfree _
    exact absurd (List.cons.inj h).1 (ne_percent hfree)
  · rename_i _ hfree
    exact absurd (List.cons.inj h).1.symm (ne_percent hfree)
  · simp only [List.cons_append, List.nil_append, List.cons.injEq, true_and] at h
    obtain ⟨hhigh, hlow, hrest⟩ := h
    have hhigh := hexDigit_inj (by omega) (by omega) hhigh
    have hlow := hexDigit_inj (by omega) (by omega) hlow
    exact ⟨UInt8.toNat_inj.1 (by omega), hrest⟩

theorem encodeByte_ne_nil (b : UInt8) : encodeByte b ≠ [] := by
  rw [encodeByte]
  split <;> exact List.cons_ne_nil _ _

/-! ## Encoded texts -/

theorem isEncoded_of_mem {s : String} {c : Char} (h : c ∈ encode s) : isEncoded c = true := by
  obtain ⟨b, -, hc⟩ := List.mem_flatMap.1 h
  exact isEncoded_encodeByte hc

theorem flatMap_encodeByte_inj {as bs : List UInt8}
    (h : as.flatMap encodeByte = bs.flatMap encodeByte) : as = bs := by
  induction as generalizing bs with
  | nil =>
    cases bs with
    | nil => rfl
    | cons b bs =>
      rw [List.flatMap_nil, List.flatMap_cons] at h
      exact absurd (List.append_eq_nil_iff.1 h.symm).1 (encodeByte_ne_nil b)
  | cons a as ih =>
    cases bs with
    | nil =>
      rw [List.flatMap_nil, List.flatMap_cons] at h
      exact absurd (List.append_eq_nil_iff.1 h).1 (encodeByte_ne_nil a)
    | cons b bs =>
      rw [List.flatMap_cons, List.flatMap_cons] at h
      obtain ⟨rfl, hrest⟩ := encodeByte_append_inj h
      rw [ih hrest]

theorem encode_injective {s t : String} (h : encode s = encode t) : s = t :=
  toUTF8_toList_inj (flatMap_encodeByte_inj h)

/-- A text is determined by its encoding and what follows, which starts with a separator. -/
theorem encode_append_inj {s t : String} {rest rest' : List Char}
    (hr : Text.Stops isEncoded rest) (hr' : Text.Stops isEncoded rest')
    (h : encode s ++ rest = encode t ++ rest') : s = t ∧ rest = rest' := by
  obtain ⟨hencode, hrest⟩ := Text.span_inj (fun c hc => isEncoded_of_mem hc) hr
    (fun c hc => isEncoded_of_mem hc) hr' h
  exact ⟨encode_injective hencode, hrest⟩

end PropStorage.Percent

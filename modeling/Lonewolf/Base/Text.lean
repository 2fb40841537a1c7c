import Mathlib

/-!
# Texts and bytes

A `str` is the list of its characters. Its length in bytes is that of its UTF-8 encoding, and its order the
lexicographic order of the characters, which for UTF-8 is that of the bytes. The second half is the byte codec of
length-prefixed formats: little-endian 32-bit numbers and length-prefixed texts, with both round trips.
-/

namespace Texts

abbrev Text := List Char

abbrev Bytes := List UInt8

namespace Text

variable (t : Text)

/-- `str::as_bytes`. -/
def utf8 : Bytes := t.flatMap String.utf8EncodeChar

/-- `str::len`. -/
def byteLen : Nat := (t.map Char.utf8Size).sum

@[simp] theorem byteLen_nil : byteLen [] = 0 := rfl

@[simp] theorem byteLen_append (u : Text) : byteLen (t ++ u) = byteLen t + byteLen u := by
  simp [byteLen]

@[simp] theorem byteLen_cons (c : Char) (t : Text) : byteLen (c :: t) = c.utf8Size + byteLen t := by
  simp [byteLen]

@[simp] theorem length_utf8 : (utf8 t).length = byteLen t := by
  induction t with
  | nil => rfl
  | cons c t ih =>
    rw [utf8, List.flatMap_cons, List.length_append, String.length_utf8EncodeChar, byteLen_cons]
    exact congrArg _ ih

/-- `str::from_utf8`. -/
def ofUtf8? (bytes : Bytes) : Option Text := bytes.toByteArray.utf8Decode?.map Array.toList

theorem toByteArray_utf8 : (utf8 t).toByteArray = t.utf8Encode := rfl

@[simp] theorem ofUtf8?_utf8 : ofUtf8? (utf8 t) = some t := by
  rw [ofUtf8?, toByteArray_utf8, List.utf8Decode?_utf8Encode]
  simp

theorem utf8_of_ofUtf8? {bytes : Bytes} {t : Text} (h : ofUtf8? bytes = some t) : utf8 t = bytes := by
  obtain ⟨chars, hchars, rfl⟩ := Option.map_eq_some_iff.mp h
  have hvalid : bytes.toByteArray.IsValidUTF8 := by
    rw [← ByteArray.isSome_utf8Decode?_iff, hchars]
    rfl
  obtain ⟨t, ht⟩ := hvalid
  rw [ht, List.utf8Decode?_utf8Encode] at hchars
  cases hchars
  have hdata := congrArg (fun b => b.data.toList) (ht.trans (toByteArray_utf8 t).symm)
  simpa using hdata.symm

end Text

/-! ### Prefix ranges

Keys made of a first part, a separator and a second part. When nothing lies strictly between the
separator and its successor, the keys of one first part are exactly a half-open range, whatever other
first parts extend it. -/

section PrefixRange

variable {α : Type*} [LinearOrder α] {sep next : α}

theorem mem_prefix_range_iff (hlt : sep < next) (hbetween : ∀ c, sep ≤ c → c < next → c = sep) (first key : List α) :
    (first ++ [sep] ≤ key ∧ key < first ++ [next]) ↔ ∃ rest, key = first ++ sep :: rest := by
  induction first generalizing key with
  | nil =>
    cases key with
    | nil => simp
    | cons c rest =>
      simp only [List.nil_append, ← not_lt, List.cons_lt_cons_iff, List.not_lt_nil, and_false,
        or_false, List.cons.injEq]
      constructor
      · rintro ⟨hle, hc⟩
        exact ⟨rest, hbetween c (not_lt.mp hle) hc, rfl⟩
      · rintro ⟨_, rfl, _⟩
        exact ⟨lt_irrefl c, hlt⟩
  | cons a first ih =>
    cases key with
    | nil => simp [← not_lt]
    | cons c rest =>
      have htail := ih rest
      simp only [List.cons_append, ← not_lt, List.cons_lt_cons_iff, List.cons.injEq,
        not_or, not_and] at htail ⊢
      constructor
      · rintro ⟨⟨hca, hle⟩, hac | ⟨rfl, hlt⟩⟩
        · exact absurd hac hca
        · obtain ⟨tail, heq⟩ := htail.mp ⟨hle rfl, hlt⟩
          exact ⟨tail, rfl, heq⟩
      · rintro ⟨tail, rfl, heq⟩
        obtain ⟨hle, hlt⟩ := htail.mpr ⟨tail, heq⟩
        exact ⟨⟨lt_irrefl c, fun _ => hle⟩, .inr ⟨rfl, hlt⟩⟩

theorem append_lt_append_iff (first : List α) {key key' : List α} : first ++ key < first ++ key' ↔ key < key' := by
  induction first with
  | nil => rfl
  | cons c first ih => simp only [List.cons_append, List.cons_lt_cons_iff, lt_irrefl, false_or, true_and, ih]

end PrefixRange

/-! ### Little-endian numbers and length-prefixed texts -/

/-- `u32::MAX + 1`. -/
def u32Bound : Nat := 2 ^ 32

/-- `u32::to_le_bytes`. -/
def leBytes (n : Nat) : Bytes :=
  [UInt8.ofNat n, UInt8.ofNat (n / 256), UInt8.ofNat (n / 65536), UInt8.ofNat (n / 16777216)]

/-- `u32::from_le_bytes` of the first four bytes, and the rest. -/
def takeLe : Bytes → Option (Nat × Bytes)
  | a :: b :: c :: d :: rest =>
    some (a.toNat + 256 * b.toNat + 65536 * c.toNat + 16777216 * d.toNat, rest)
  | _ => none

@[simp] theorem length_leBytes (n : Nat) : (leBytes n).length = 4 := rfl

theorem takeLe_leBytes {n : Nat} (h : n < u32Bound) (rest : Bytes) : takeLe (leBytes n ++ rest) = some (n, rest) := by
  simp only [leBytes, List.cons_append, List.nil_append, takeLe, UInt8.toNat_ofNat', Option.some.injEq,
    Prod.mk.injEq, and_true]
  unfold u32Bound at h
  omega

theorem takeLe_eq_some {bytes rest : Bytes} {n : Nat} (h : takeLe bytes = some (n, rest)) :
    n < u32Bound ∧ bytes = leBytes n ++ rest := by
  match bytes, h with
  | a :: b :: c :: d :: tail, h =>
    simp only [takeLe, Option.some.injEq, Prod.mk.injEq] at h
    obtain ⟨rfl, rfl⟩ := h
    have ha := a.toNat_lt
    have hb := b.toNat_lt
    have hc := c.toNat_lt
    have hd := d.toNat_lt
    refine ⟨by unfold u32Bound; omega, ?_⟩
    simp only [leBytes, List.cons_append, List.nil_append, List.cons.injEq, and_true,
      ← UInt8.toNat_inj, UInt8.toNat_ofNat']
    omega

/-- The first `len` bytes as a text, and the rest. -/
def takeText (len : Nat) (bytes : Bytes) : Option (Text × Bytes) :=
  if len ≤ bytes.length then (Text.ofUtf8? (bytes.take len)).map fun t => (t, bytes.drop len)
  else none

theorem takeText_utf8 (t : Text) (rest : Bytes) : takeText t.byteLen (t.utf8 ++ rest) = some (t, rest) := by
  have hlen : t.byteLen = t.utf8.length := t.length_utf8.symm
  rw [takeText, if_pos (by simp), hlen, List.take_left, List.drop_left, Text.ofUtf8?_utf8, Option.map_some]

theorem takeText_eq_some {len : Nat} {bytes rest : Bytes} {t : Text}
    (h : takeText len bytes = some (t, rest)) : t.byteLen = len ∧ bytes = t.utf8 ++ rest := by
  unfold takeText at h
  split at h
  · rename_i hlen
    obtain ⟨t', ht', heq⟩ := Option.map_eq_some_iff.mp h
    cases heq
    have hutf8 := Text.utf8_of_ofUtf8? ht'
    refine ⟨?_, by rw [hutf8, List.take_append_drop]⟩
    rw [← Text.length_utf8, hutf8, List.length_take, Nat.min_eq_left hlen]
  · cases h

end Texts

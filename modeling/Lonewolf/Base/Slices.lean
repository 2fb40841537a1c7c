import Lonewolf.Base.Text

/-!
# Parts of a text

Splitting a text at its first separator, cutting it at an offset in bytes, and the parts between separators,
with the lemmas that put the pieces together again.
-/

namespace Texts

namespace Text

def splitOnce (sep : Char) : Text → Option (Text × Text)
  | [] => none
  | c :: t => if c = sep then some ([], t) else (splitOnce sep t).map fun (before, after) => (c :: before, after)

/-- `&text[..offset]`, down to the start of a character. -/
def takeBytes : Nat → Text → Text
  | _, [] => []
  | offset, c :: t => if offset < c.utf8Size then [] else c :: takeBytes (offset - c.utf8Size) t

/-- `&text[offset..]`. -/
def dropBytes : Nat → Text → Text
  | _, [] => []
  | offset, c :: t => if offset = 0 then c :: t else dropBytes (offset - c.utf8Size) t

variable {sep : Char} {t : Text}

theorem splitOnce_append (before after : Text) (h : sep ∉ before) :
    splitOnce sep (before ++ sep :: after) = some (before, after) := by
  induction before with
  | nil => exact if_pos rfl
  | cons c before ih =>
    rw [List.mem_cons, not_or] at h
    rw [List.cons_append, splitOnce, if_neg (Ne.symm h.1), ih h.2]
    rfl

theorem splitOnce_eq_none (h : sep ∉ t) : splitOnce sep t = none := by
  induction t with
  | nil => rfl
  | cons c t ih =>
    rw [List.mem_cons, not_or] at h
    rw [splitOnce, if_neg (Ne.symm h.1), ih h.2]
    rfl

@[simp] theorem takeBytes_append (t u : Text) : takeBytes (byteLen t) (t ++ u) = t := by
  induction t with
  | nil => cases u <;> simp [takeBytes, Char.utf8Size_pos]
  | cons c t ih => rw [List.cons_append, takeBytes, byteLen_cons, if_neg (by omega), Nat.add_sub_cancel_left, ih]

theorem byteLen_takeBytes_le (offset : Nat) (t : Text) : byteLen (takeBytes offset t) ≤ offset := by
  induction t generalizing offset with
  | nil => exact Nat.zero_le _
  | cons c t ih =>
    rw [takeBytes]
    split
    · exact Nat.zero_le _
    · have hrest := ih (offset - c.utf8Size)
      rw [byteLen_cons]
      omega

@[simp] theorem dropBytes_append (t u : Text) : dropBytes (byteLen t) (t ++ u) = u := by
  induction t with
  | nil => cases u <;> rfl
  | cons c t ih =>
    have hpos := c.utf8Size_pos
    rw [List.cons_append, dropBytes, byteLen_cons, if_neg (by omega), Nat.add_sub_cancel_left, ih]

@[simp] theorem takeBytes_self (t : Text) : takeBytes (byteLen t) t = t := by
  have happend := takeBytes_append t []
  rwa [List.append_nil] at happend

@[simp] theorem dropBytes_zero (t : Text) : dropBytes 0 t = t := by
  cases t <;> rfl

theorem mem_intercalate {c : Char} {parts : List Text} (h : c ∈ [sep].intercalate parts) :
    c = sep ∨ ∃ part ∈ parts, c ∈ part := by
  induction parts with
  | nil => cases h
  | cons part parts ih =>
    cases parts with
    | nil =>
      rw [List.intercalate_singleton] at h
      exact .inr ⟨part, List.mem_cons_self, h⟩
    | cons next parts =>
      rw [List.intercalate_cons_cons, List.mem_append, List.mem_append, List.mem_singleton] at h
      rcases h with (h | h) | h
      · exact .inr ⟨part, List.mem_cons_self, h⟩
      · exact .inl h
      · rcases ih h with heq | ⟨part', hmem, hc⟩
        · exact .inl heq
        · exact .inr ⟨part', List.mem_cons_of_mem part hmem, hc⟩

theorem eq_or_mem_splitOn {c : Char} (h : c ∈ t) : c = sep ∨ ∃ part ∈ t.splitOn sep, c ∈ part := by
  apply mem_intercalate
  rwa [List.intercalate_splitOn]

end Text

end Texts

import Lonewolf.Xmpp.Parser

/-!
# The spacing of attributes

Before the reader takes a tag apart, `validate_attribute_spacing` (`parser/names.rs`) goes once over the bytes behind
the name of the tag. What is left to scan stands for the position of the source.
-/

namespace Lonewolf.Xmpp.Names

open Computability

def isXmlWhitespace (byte : UInt8) : Bool :=
  [' '.toUInt8, '\t'.toUInt8, '\r'.toUInt8, '\n'.toUInt8].contains byte

def isName (byte : UInt8) : Bool := !isXmlWhitespace byte && byte != '='.toUInt8

/-- An apostrophe or a double quote. -/
def isQuote (byte : UInt8) : Bool := byte == 0x27 || byte == 0x22

/-- What is left behind a quoted value and the white space before it. -/
def quotedValue (bytes : List UInt8) : Except ParseError (List UInt8) :=
  match bytes.dropWhile isXmlWhitespace with
  | [] => .error .notWellFormed
  | quote :: rest =>
    if isQuote quote then
      match rest.dropWhile (· != quote) with
      | [] => .error .notWellFormed
      | _ :: rest => .ok rest
    else .error .notWellFormed

/-- What is left behind an attribute that begins with its name. -/
def assignment (bytes : List UInt8) : Except ParseError (List UInt8) :=
  -- the position has not moved
  if (bytes.dropWhile isName).length = bytes.length then .error .notWellFormed
  else match (bytes.dropWhile isName).dropWhile isXmlWhitespace with
    | [] => .error .notWellFormed
    | byte :: rest => if byte = '='.toUInt8 then quotedValue rest else .error .notWellFormed

/-! ### The grammar -/

def spaces : Language UInt8 := {t | ∀ byte ∈ t, isXmlWhitespace byte}

def names : Language UInt8 := {t | t ≠ [] ∧ ∀ byte ∈ t, isName byte}

/-- A value ends at the first quote that matches. -/
def quotedValues : Language UInt8 :=
  {t | ∃ quote value, isQuote quote ∧ quote ∉ value ∧ t = quote :: (value ++ [quote])}

def assignments : Language UInt8 := names * (spaces * ({['='.toUInt8]} * (spaces * quotedValues)))

def someSpaces : Language UInt8 := {t | t ≠ [] ∧ ∀ byte ∈ t, isXmlWhitespace byte}

def attributes : Language UInt8 := someSpaces * assignments

variable {bytes rest : List UInt8}

theorem dropWhile_eq_iff {p : UInt8 → Bool} :
    bytes.dropWhile p = rest ↔ (∀ byte ∈ rest.head?, p byte = false) ∧ ∃ t, (∀ byte ∈ t, p byte) ∧ t ++ rest = bytes := by
  constructor
  · rintro rfl
    refine ⟨fun byte hbyte => ?_, bytes.takeWhile p, fun _ => List.mem_takeWhile_imp, List.takeWhile_append_dropWhile⟩
    have hhead := List.head?_dropWhile_not p bytes
    rwa [Option.mem_def.mp hbyte] at hhead
  · rintro ⟨hhead, t, hall, rfl⟩
    rw [List.dropWhile_append_of_pos hall]
    cases rest with
    | nil => rfl
    | cons byte rest => exact List.dropWhile_cons_of_neg (by simp [hhead byte rfl])

theorem quotedValue_eq_ok : quotedValue bytes = .ok rest ↔ ∃ t ∈ spaces * quotedValues, t ++ rest = bytes := by
  constructor
  · intro h
    unfold quotedValue at h
    split at h
    · cases h
    next quote inner hspace =>
      obtain ⟨-, space, hspaces, rfl⟩ := dropWhile_eq_iff.mp hspace
      split at h
      next hquote =>
        split at h
        · cases h
        next closing after hvalue =>
          cases h
          obtain ⟨hclosing, value, hall, rfl⟩ := dropWhile_eq_iff.mp hvalue
          obtain rfl : closing = quote := by simpa using hclosing closing rfl
          have hnot : closing ∉ value := fun hmem => by simpa using hall closing hmem
          exact ⟨_, Language.append_mem_mul hspaces ⟨closing, value, hquote, hnot, rfl⟩, by simp⟩
      · cases h
  · rintro ⟨_, ⟨space, hspace, _, ⟨quote, value, hquote, hnot, rfl⟩, rfl⟩, rfl⟩
    have hblank : isXmlWhitespace quote = false := by
      simp only [isQuote, Bool.or_eq_true, beq_iff_eq] at hquote
      rcases hquote with rfl | rfl <;> decide
    have hopen : (space ++ quote :: (value ++ [quote]) ++ rest).dropWhile isXmlWhitespace =
        quote :: (value ++ quote :: rest) :=
      dropWhile_eq_iff.mpr ⟨by simpa using hblank, space, hspace, by simp⟩
    have hclose : (value ++ quote :: rest).dropWhile (· != quote) = quote :: rest :=
      dropWhile_eq_iff.mpr ⟨by simp, value, fun byte hmem => by simpa using ne_of_mem_of_not_mem hmem hnot, rfl⟩
    simp only [quotedValue, hopen, if_pos hquote, hclose]

theorem assignment_eq_ok : assignment bytes = .ok rest ↔ ∃ t ∈ assignments, t ++ rest = bytes := by
  constructor
  · intro h
    unfold assignment at h
    split at h
    · cases h
    next hmoved =>
      split at h
      · cases h
      next byte inner hspace =>
        split at h
        next heq =>
          subst heq
          obtain ⟨t, ht, rfl⟩ := quotedValue_eq_ok.mp h
          obtain ⟨-, space, hspaces, hname⟩ := dropWhile_eq_iff.mp hspace
          obtain ⟨-, name, hall, hbytes⟩ := dropWhile_eq_iff.mp hname.symm
          have hne : name ≠ [] := by
            rintro rfl
            rw [← hname, ← hbytes] at hmoved
            exact hmoved rfl
          exact ⟨_, Language.append_mem_mul ⟨hne, hall⟩ (Language.append_mem_mul hspaces
            (Language.append_mem_mul rfl ht)), by simp [← hbytes]⟩
        · cases h
  · rintro ⟨_, ⟨name, ⟨hne, hname⟩, _, ⟨space, hspace, _, ⟨_, rfl, t, ht, rfl⟩, rfl⟩, rfl⟩, rfl⟩
    have hassign : (space ++ '='.toUInt8 :: (t ++ rest)).dropWhile isXmlWhitespace = '='.toUInt8 :: (t ++ rest) :=
      dropWhile_eq_iff.mpr ⟨fun _ hbyte => Option.some.inj hbyte ▸ rfl, space, hspace, rfl⟩
    have hbehind : (name ++ (space ++ (['='.toUInt8] ++ t)) ++ rest).dropWhile isName =
        space ++ '='.toUInt8 :: (t ++ rest) := by
      refine dropWhile_eq_iff.mpr ⟨fun byte hbyte => ?_, name, hname, by simp⟩
      cases space with
      | nil => obtain rfl := Option.some.inj hbyte; rfl
      | cons first space =>
        obtain rfl := Option.some.inj hbyte
        rw [isName, hspace first List.mem_cons_self]
        rfl
    have hmoved : ¬(space ++ '='.toUInt8 :: (t ++ rest)).length =
        (name ++ (space ++ (['='.toUInt8] ++ t)) ++ rest).length := by
      have hpos := List.length_pos_iff.mpr hne
      simp only [List.length_append, List.length_cons, List.length_nil]
      omega
    simp only [assignment, hbehind, if_neg hmoved, hassign, if_true]
    exact quotedValue_eq_ok.mpr ⟨t, ht, rfl⟩

theorem length_of_assignment (h : assignment (bytes.dropWhile isXmlWhitespace) = .ok rest) :
    rest.length < bytes.length := by
  obtain ⟨_, ⟨name, ⟨hne, -⟩, t, -, rfl⟩, heq⟩ := assignment_eq_ok.mp h
  obtain ⟨-, space, -, rfl⟩ := dropWhile_eq_iff.mp heq.symm
  have hpos := List.length_pos_iff.mpr hne
  simp only [List.length_append]
  omega

def validateAttributeSpacing (bytes : List UInt8) : Except ParseError Unit :=
  match bytes.head? with
  | none => .ok ()
  | some byte =>
    if !isXmlWhitespace byte then .error .notWellFormed
    else if bytes.dropWhile isXmlWhitespace = [] then .ok ()
    else match _h : assignment (bytes.dropWhile isXmlWhitespace) with
      | .error error => .error error
      | .ok rest => validateAttributeSpacing rest
termination_by bytes.length
decreasing_by exact length_of_assignment _h

theorem exists_attribute_iff :
    (∃ t ∈ attributes, t ++ rest = bytes) ↔
      bytes.head?.any isXmlWhitespace ∧ assignment (bytes.dropWhile isXmlWhitespace) = .ok rest := by
  rw [assignment_eq_ok]
  constructor
  · rintro ⟨_, ⟨space, ⟨hne, hspace⟩, t, ht, rfl⟩, rfl⟩
    have hdrop : (space ++ t ++ rest).dropWhile isXmlWhitespace = t ++ rest := by
      refine dropWhile_eq_iff.mpr ⟨fun byte hbyte => ?_, space, hspace, by simp⟩
      obtain ⟨name, ⟨hname, hall⟩, after, -, rfl⟩ := ht
      cases name with
      | nil => exact absurd rfl hname
      | cons first name =>
        obtain rfl := Option.some.inj hbyte
        have hfirst := hall first List.mem_cons_self
        simp only [isName, Bool.and_eq_true, Bool.not_eq_true'] at hfirst
        exact hfirst.1
    refine ⟨?_, t, ht, hdrop.symm⟩
    cases space with
    | nil => exact absurd rfl hne
    | cons first space => exact hspace first List.mem_cons_self
  · rintro ⟨hhead, t, ht, heq⟩
    obtain ⟨hstop, space, hspace, rfl⟩ := dropWhile_eq_iff.mp heq.symm
    refine ⟨space ++ t, Language.append_mem_mul ⟨?_, hspace⟩ ht, by simp⟩
    rintro rfl
    rw [List.nil_append] at hhead
    cases hfirst : (t ++ rest).head? with
    | none => rw [hfirst] at hhead; cases hhead
    | some byte =>
      rw [hfirst] at hhead
      exact absurd hhead (by simp [hstop byte hfirst])

theorem mem_accepted :
    bytes ∈ attributes∗ * spaces ↔ bytes.dropWhile isXmlWhitespace = [] ∨ bytes.head?.any isXmlWhitespace ∧
      ∃ rest ∈ attributes∗ * spaces, assignment (bytes.dropWhile isXmlWhitespace) = .ok rest := by
  have hunfold : attributes∗ * spaces = spaces + attributes * (attributes∗ * spaces) := by
    nth_rewrite 1 [← Language.one_add_self_mul_kstar_eq_kstar]
    rw [add_mul, one_mul, mul_assoc]
  nth_rewrite 1 [hunfold]
  rw [Language.mem_add, Language.mem_mul]
  refine or_congr List.dropWhile_eq_nil_iff.symm ⟨?_, ?_⟩
  · rintro ⟨t, ht, rest, hrest, heq⟩
    obtain ⟨hhead, hassign⟩ := exists_attribute_iff.mp ⟨t, ht, heq⟩
    exact ⟨hhead, rest, hrest, hassign⟩
  · rintro ⟨hhead, rest, hrest, hassign⟩
    obtain ⟨t, ht, heq⟩ := exists_attribute_iff.mpr ⟨hhead, hassign⟩
    exact ⟨t, ht, rest, hrest, heq⟩

/-- Accepted are the bytes of the grammar: attributes behind some white space, and white space at the end. -/
theorem attribute_spacing_grammar (bytes : List UInt8) :
    validateAttributeSpacing bytes = .ok () ↔ bytes ∈ attributes∗ * spaces := by
  fun_induction validateAttributeSpacing bytes with
  | case1 bytes hhead =>
    rw [List.head?_eq_none_iff.mp hhead, mem_accepted]
    simp
  | case2 bytes byte hhead hblank =>
    have hdrop : bytes.dropWhile isXmlWhitespace ≠ [] := fun hnil => by
      simp [List.dropWhile_eq_nil_iff.mp hnil byte (List.mem_of_head? hhead)] at hblank
    rw [mem_accepted]
    simp_all
  | case3 bytes byte hhead hblank hdrop => exact iff_of_true rfl (mem_accepted.mpr (.inl hdrop))
  | case4 bytes byte hhead hblank hdrop error herror =>
    refine iff_of_false (by simp) fun hmem => ?_
    obtain hnil | ⟨-, rest, -, hok⟩ := mem_accepted.mp hmem
    · exact hdrop hnil
    · cases herror.symm.trans hok
  | case5 bytes byte hhead hblank hdrop rest hrest ih =>
    refine ih.trans (Iff.trans ?_ mem_accepted.symm)
    simp_all

end Lonewolf.Xmpp.Names

import Lonewolf.Base.XmlReader

/-!
# The text of character data and of attribute values

What XML 1.0 says that a parser passes on for the text between two tags and for an attribute value: line ends are
normalized, references are replaced by their characters, and in an attribute value white space that is not from a
reference becomes a space. A character that XML does not know, or a malformed reference, is refused.
-/

namespace XmlReading

open Texts

/-- The production `Char`. -/
def xmlChar (c : Char) : Bool :=
  c = '\t' || c = '\n' || c = '\r' || (' ' ≤ c && c ≤ '\ud7ff') || ('\ue000' ≤ c && c ≤ '\ufffd') ||
    (Char.ofNat 0x10000 ≤ c && c ≤ Char.ofNat 0x10ffff)

/-- The production `S`. -/
def whiteSpace (c : Char) : Bool := c = ' ' || c = '\t' || c = '\n' || c = '\r'

/-- Line ends are a line feed, also those that are a carriage return or both. -/
def normalizeLineEnds : Text → Text
  | '\r' :: '\n' :: text => '\n' :: normalizeLineEnds text
  | '\r' :: text => '\n' :: normalizeLineEnds text
  | c :: text => c :: normalizeLineEnds text
  | [] => []

def predefined : List (Text × Char) :=
  [("amp".toList, '&'), ("lt".toList, '<'), ("gt".toList, '>'), ("apos".toList, '\''), ("quot".toList, '"')]

def digitValue (base : Nat) (c : Char) : Option Nat :=
  let value :=
    if '0' ≤ c ∧ c ≤ '9' then c.toNat - '0'.toNat
    else if 'a' ≤ c ∧ c ≤ 'f' then c.toNat - 'a'.toNat + 10
    else if 'A' ≤ c ∧ c ≤ 'F' then c.toNat - 'A'.toNat + 10
    else base
  if value < base then some value else none

def referenceNumber (base : Nat) (digits : Text) : Option Nat :=
  if digits = [] then none
  else digits.foldlM (fun number c => (digitValue base c).map (number * base + ·)) 0

/-- A character reference is to a character that XML knows. -/
def characterOf (number : Nat) : Option Char :=
  if number.isValidChar ∧ xmlChar (Char.ofNat number) then some (Char.ofNat number) else none

/-- What a reference stands for, by the text between `&` and `;`. -/
def resolveReference : Text → Option Char
  | '#' :: 'x' :: digits => (referenceNumber 16 digits).bind characterOf
  | '#' :: digits => (referenceNumber 10 digits).bind characterOf
  | name => predefined.lookup name

/-- The reading of one character: outside of references there is no text that was read of one. -/
def readCharacter (inAttribute : Bool) : Option Text → Char → Option (Option Text × List Char)
  | none, c =>
    if c = '&' then some (some [], [])
    else if xmlChar c then some (none, [if inAttribute && whiteSpace c then ' ' else c])
    else none
  | some reference, c =>
    if c = ';' then (resolveReference reference).map fun character => (none, [character])
    else some (some (reference ++ [c]), [])

/-- The characters that are passed on for a text. -/
def readText (inAttribute : Bool) (text : Text) : Option Text :=
  match run (readCharacter inAttribute) none (normalizeLineEnds text) with
  | some (none, output) => some output
  | _ => none

variable {text : Text}

theorem normalizeLineEnds_of_not_mem (h : '\r' ∉ text) : normalizeLineEnds text = text := by
  induction text with
  | nil => rfl
  | cons c text ih =>
    obtain ⟨hc, htext⟩ := not_or.mp (List.mem_cons.not.mp h)
    have hne : c ≠ '\r' := Ne.symm hc
    rw [normalizeLineEnds]
    · rw [ih htext]
    · exact fun _ heq => absurd heq hne
    · exact fun heq => absurd heq hne

/-- A text that is read as the characters of another one: each is there itself or as a reference. -/
def StandsFor (inAttribute : Bool) (piece : Text) (c : Char) : Prop :=
  (piece = [c] ∧ c ≠ '&' ∧ (inAttribute = true → whiteSpace c = true → c = ' ')) ∨
    ∃ name, piece = '&' :: name ++ [';'] ∧ '&' ∉ name ∧ ';' ∉ name ∧ resolveReference name = some c

variable {inAttribute : Bool}

theorem StandsFor.runs {piece : Text} {c : Char} (h : StandsFor inAttribute piece c)
    (hc : xmlChar c = true) : Runs (readCharacter inAttribute) none piece none [c] := by
  rcases h with ⟨rfl, hne, hspace⟩ | ⟨name, rfl, -, hname, hresolve⟩
  · refine Runs.single ?_
    rw [readCharacter, if_neg hne, if_pos hc]
    by_cases hwhite : (inAttribute && whiteSpace c) = true
    · obtain ⟨hattribute, hwhite'⟩ := Bool.and_eq_true_iff.mp hwhite
      rw [if_pos hwhite, hspace hattribute hwhite']
    · rw [if_neg hwhite]
  · have hopen : Runs (readCharacter inAttribute) none ['&'] (some []) [] := .single rfl
    have hcollect : Runs (readCharacter inAttribute) (some []) name (some ([] ++ name)) [] := by
      refine Runs.collect name (S := some) (fun read d hd => ?_) []
      have hd : d ≠ ';' := fun heq => hname (heq ▸ hd)
      rw [readCharacter, if_neg hd]
    have hclose : Runs (readCharacter inAttribute) (some name) [';'] none [c] := by
      refine Runs.single ?_
      rw [readCharacter, if_pos rfl, hresolve]
      rfl
    exact (hopen.append hcollect).append hclose

variable {write : Char → Text}

theorem readText_flatMap (hwrite : ∀ c, StandsFor inAttribute (write c) c) (hchars : ∀ c ∈ text, xmlChar c = true)
    (hreturn : '\r' ∉ text.flatMap write) : readText inAttribute (text.flatMap write) = some text := by
  have hruns : Runs (readCharacter inAttribute) none (text.flatMap write) none (text.flatMap fun c => [c]) :=
    Runs.flatMap text fun c hc => (hwrite c).runs (hchars c hc)
  rw [List.flatMap_singleton'] at hruns
  unfold readText
  rw [normalizeLineEnds_of_not_mem hreturn, hruns]

/-- What follows an ampersand makes it a reference. -/
def StartsReference (text : Text) : Prop :=
  ∃ name rest c, text = name ++ ';' :: rest ∧ ';' ∉ name ∧ resolveReference name = some c

theorem startsReference_of_flatMap {before after : Text} (hwrite : ∀ c, StandsFor inAttribute (write c) c)
    (h : text.flatMap write = before ++ '&' :: after) : StartsReference after := by
  induction text generalizing before with
  | nil =>
    have hlength := congrArg List.length h
    simp at hlength
  | cons c text ih =>
    rw [List.flatMap_cons, List.append_eq_append_iff] at h
    rcases h with ⟨rest, -, hrest⟩ | ⟨rest, hpiece, hrest⟩
    · exact ih hrest
    · cases rest with
      | nil =>
        have hempty : text.flatMap write = [] ++ '&' :: after := hrest.symm
        exact ih hempty
      | cons d rest =>
        obtain ⟨rfl, rfl⟩ := List.cons.inj hrest
        rcases hwrite c with ⟨hsame, hne, -⟩ | ⟨name, hname, hamp, hsemi, hresolve⟩
        · -- a character that stands for itself is no ampersand
          have hmem : '&' ∈ [c] := by
            rw [← hsame, hpiece]
            simp
          exact absurd (List.mem_singleton.mp hmem).symm hne
        · rw [hname] at hpiece
          cases before with
          | nil =>
            obtain ⟨-, hpiece⟩ := List.cons.inj hpiece
            refine ⟨name, text.flatMap write, c, ?_, hsemi, hresolve⟩
            rw [← hpiece]
            simp
          | cons e before =>
            obtain ⟨-, hpiece⟩ := List.cons.inj hpiece
            have hmem : '&' ∈ name ++ [';'] := by
              rw [show name ++ [';'] = before ++ '&' :: rest from hpiece]
              simp
            rcases List.mem_append.mp hmem with hmem | hmem
            · exact absurd hmem hamp
            · cases List.mem_singleton.mp hmem

end XmlReading

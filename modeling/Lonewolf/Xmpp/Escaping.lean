import Lonewolf.Base.XmlText
import Lonewolf.Xmpp.Xml

/-!
# Escaped text

What `escape` writes is read back as the text by any reader that follows XML 1.0, as character data and as an
attribute value.
-/

namespace Lonewolf.Xmpp

open Texts XmlReading

theorem textChar_eq (c : Char) : textChar c = xmlChar c := by
  simp only [textChar, xmlChar, between]

variable {inAttribute : Bool}

theorem escapeReplacement_eq_none {c : Char} (h : escapeReplacement c inAttribute = none) :
    c ≠ '&' ∧ c ≠ '<' ∧ c ≠ '>' ∧ c ≠ '\r' ∧ (inAttribute = true → c ≠ '"' ∧ c ≠ '\t' ∧ c ≠ '\n') := by
  unfold escapeReplacement at h
  split_ifs at h
  cases inAttribute <;> simp_all

def special : List Char := ['&', ';', '<', '>', '\r', '"']

/-- A reference to a character, with nothing special in its name. -/
def RefersTo (piece : Text) (c : Char) : Prop :=
  ∃ name, piece = '&' :: name ++ [';'] ∧ resolveReference name = some c ∧ ∀ d ∈ name, d ∉ special

theorem refersTo_of_all (name : Text) {c : Char} (hresolve : resolveReference name = some c)
    (hall : (name.all fun d => decide (d ∉ special)) = true) : RefersTo ('&' :: name ++ [';']) c :=
  ⟨name, rfl, hresolve, fun d hd => of_decide_eq_true (List.all_eq_true.mp hall d hd)⟩

theorem refersTo_replacement {c : Char} {replacement : Text}
    (h : escapeReplacement c inAttribute = some replacement) : RefersTo replacement c := by
  have hamp : RefersTo "&amp;".toList '&' := refersTo_of_all "amp".toList rfl rfl
  have hlt : RefersTo "&lt;".toList '<' := refersTo_of_all "lt".toList rfl rfl
  have hgt : RefersTo "&gt;".toList '>' := refersTo_of_all "gt".toList rfl rfl
  have hquot : RefersTo "&quot;".toList '"' := refersTo_of_all "quot".toList rfl rfl
  have htab : RefersTo "&#x9;".toList '\t' := refersTo_of_all "#x9".toList rfl rfl
  have hline : RefersTo "&#xA;".toList '\n' := refersTo_of_all "#xA".toList rfl rfl
  have hreturn : RefersTo "&#xD;".toList '\r' := refersTo_of_all "#xD".toList rfl rfl
  unfold escapeReplacement at h
  split_ifs at h with h1 h2 h3 h4 h5 h6 h7 <;> obtain rfl := Option.some.inj h
  · rw [h1]
    exact hamp
  · rw [h2]
    exact hlt
  · rw [h3]
    exact hgt
  · rw [of_decide_eq_true (Bool.and_eq_true_iff.mp h4).1]
    exact hquot
  · rw [of_decide_eq_true (Bool.and_eq_true_iff.mp h5).1]
    exact htab
  · rw [of_decide_eq_true (Bool.and_eq_true_iff.mp h6).1]
    exact hline
  · rw [h7]
    exact hreturn

theorem escaped_standsFor (inAttribute : Bool) (c : Char) : StandsFor inAttribute (escaped inAttribute c) c := by
  cases h : escapeReplacement c inAttribute with
  | none =>
    obtain ⟨hamp, -, -, hreturn, hattribute⟩ := escapeReplacement_eq_none h
    refine .inl ⟨by rw [escaped, h]; rfl, hamp, fun hin hwhite => ?_⟩
    obtain ⟨-, htab, hline⟩ := hattribute hin
    simpa [whiteSpace, htab, hline, hreturn] using hwhite
  | some replacement =>
    obtain ⟨name, hname, hresolve, hspecial⟩ := refersTo_replacement h
    refine .inr ⟨name, by rw [escaped, h]; exact hname, fun hmem => ?_, fun hmem => ?_, hresolve⟩
    · exact hspecial '&' hmem (by decide)
    · exact hspecial ';' hmem (by decide)

theorem not_mem_escaped {c d : Char} (hd : d ∈ ['<', '>', '\r'] ∨ inAttribute = true ∧ d = '"') :
    d ∉ escaped inAttribute c := by
  have hspecial : d ∈ special ∧ d ≠ '&' ∧ d ≠ ';' := by
    rcases hd with hd | ⟨-, rfl⟩
    · simp only [List.mem_cons, List.not_mem_nil, or_false] at hd
      rcases hd with rfl | rfl | rfl <;> decide
    · decide
  intro hmem
  cases h : escapeReplacement c inAttribute with
  | none =>
    obtain ⟨-, hlt, hgt, hreturn, hattribute⟩ := escapeReplacement_eq_none h
    rw [escaped, h] at hmem
    obtain rfl : d = c := List.mem_singleton.mp hmem
    rcases hd with hd | ⟨hin, hquot⟩
    · simp only [List.mem_cons, List.not_mem_nil, or_false] at hd
      rcases hd with hd | hd | hd
      · exact hlt hd
      · exact hgt hd
      · exact hreturn hd
    · exact (hattribute hin).1 hquot
  | some replacement =>
    obtain ⟨name, hname, -, hnone⟩ := refersTo_replacement h
    rw [escaped, h, Option.getD_some, hname, List.mem_append, List.mem_cons, List.mem_singleton] at hmem
    rcases hmem with (hmem | hmem) | hmem
    · exact hspecial.2.1 hmem
    · exact hnone d hmem hspecial.1
    · exact hspecial.2.2 hmem

theorem not_mem_escape {d : Char} (hd : d ∈ ['<', '>', '\r'] ∨ inAttribute = true ∧ d = '"')
    (text : Text) : d ∉ escape text inAttribute := by
  rw [escape_eq]
  intro hmem
  obtain ⟨c, -, hc⟩ := List.mem_flatMap.mp hmem
  exact not_mem_escaped hd hc

/-- Escaped text is read back as it was, in both positions, and holds nothing that a reader would take for markup, for
a reference that is none or for the end of the text, and no carriage return. -/
theorem escaped_text_reads_back {text : Text} (htext : validateText text = .ok ()) (inAttribute : Bool) :
    readText inAttribute (escape text inAttribute) = some text ∧
    '<' ∉ escape text inAttribute ∧
    (∀ before after, escape text inAttribute = before ++ '&' :: after → StartsReference after) ∧
    '\r' ∉ escape text inAttribute ∧
    ¬ "]]>".toList <:+: escape text inAttribute ∧
    (inAttribute = true → '"' ∉ escape text inAttribute) := by
  have hchars : ∀ c ∈ text, xmlChar c = true := by
    unfold validateText at htext
    split at htext
    · next hall =>
      intro c hc
      rw [← textChar_eq]
      exact List.all_eq_true.mp hall c hc
    · cases htext
  have hreturn : '\r' ∉ escape text inAttribute := not_mem_escape (.inl (by decide)) text
  refine ⟨?_, not_mem_escape (.inl (by decide)) text, fun before after hafter => ?_, hreturn, fun hwithin => ?_,
    fun hin => not_mem_escape (.inr ⟨hin, rfl⟩) text⟩
  · rw [escape_eq] at hreturn ⊢
    exact readText_flatMap (escaped_standsFor inAttribute) hchars hreturn
  · rw [escape_eq] at hafter
    exact startsReference_of_flatMap (escaped_standsFor inAttribute) hafter
  · exact not_mem_escape (.inl (by decide)) text (hwithin.subset (show '>' ∈ "]]>".toList by decide))

theorem escaped_text_reads_back_sample :
    validateText "\"a\r\n&]]>".toList = .ok () ∧
      readText true (escape "\"a\r\n&]]>".toList true) = some "\"a\r\n&]]>".toList :=
  ⟨rfl, (escaped_text_reads_back rfl true).1⟩

end Lonewolf.Xmpp

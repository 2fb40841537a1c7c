import Lonewolf.Xmpp.Jid

/-!
# XML text

`stanza/xml.rs`: which names and texts can be stored, and how a text is escaped when it is written.
-/

namespace Lonewolf.Xmpp

open Texts

def clientNamespace : Text := "jabber:client".toList

def serverNamespace : Text := "jabber:server".toList

def streamNamespace : Text := "http://etherx.jabber.org/streams".toList

def xmlNamespace : Text := "http://www.w3.org/XML/1998/namespace".toList

def xmlnsNamespace : Text := "http://www.w3.org/2000/xmlns/".toList

/-- `BuildError`, without the failures of the arena. -/
inductive BuildError where
  | invalidName
  | invalidNamespace
  | invalidText
  | duplicateAttribute
  | reservedAttribute
  | missingIqId
  | invalidIqPayload
  | invalidErrorPayload
  | missingServerAddresses
  | notIqRequest
  | invalidErrorSource
  | treeLimitExceeded
  deriving DecidableEq

def nameStart (c : Char) : Bool :=
  between 'A' 'Z' c || c = '_' || between 'a' 'z' c || between '\u00c0' '\u00d6' c ||
    between '\u00d8' '\u00f6' c || between '\u00f8' '\u02ff' c || between '\u0370' '\u037d' c ||
    between '\u037f' '\u1fff' c || between '\u200c' '\u200d' c || between '\u2070' '\u218f' c ||
    between '\u2c00' '\u2fef' c || between '\u3001' '\ud7ff' c || between '\uf900' '\ufdcf' c ||
    between '\ufdf0' '\ufffd' c || between (Char.ofNat 0x10000) (Char.ofNat 0xeffff) c

def nameChar (c : Char) : Bool :=
  nameStart c || c = '-' || c = '.' || between '0' '9' c || c = '\u00b7' || between '\u0300' '\u036f' c ||
    between '\u203f' '\u2040' c

def textChar (c : Char) : Bool :=
  c = '\t' || c = '\n' || c = '\r' || between ' ' '\ud7ff' c || between '\ue000' '\ufffd' c ||
    between (Char.ofNat 0x10000) (Char.ofNat 0x10ffff) c

def validateText (text : Text) : Except BuildError Unit :=
  if text.all textChar then .ok () else .error .invalidText

/-- The local names of `validate_name`. -/
def validLocalName (name : Text) : Bool :=
  match name with
  | [] => false
  | c :: rest => nameStart c && rest.all nameChar

def validateName (name ns : Text) (inAttribute : Bool) : Except BuildError Unit :=
  if !validLocalName name then .error .invalidName
  else if ns = xmlnsNamespace || (inAttribute && ns.isEmpty && name = "xmlns".toList) then .error .invalidNamespace
  else validateText ns

def escapeReplacement (c : Char) (inAttribute : Bool) : Option Text :=
  if c = '&' then some "&amp;".toList
  else if c = '<' then some "&lt;".toList
  else if c = '>' then some "&gt;".toList
  else if c = '"' && inAttribute then some "&quot;".toList
  -- Character references bypass XML whitespace normalization.
  else if c = '\t' && inAttribute then some "&#x9;".toList
  else if c = '\n' && inAttribute then some "&#xA;".toList
  else if c = '\r' then some "&#xD;".toList
  else none

/-- The loop of `escape`; `pending` is the text from `start` to `index`. -/
def escapeFrom (inAttribute : Bool) (pending : Text) : Text → Text
  | [] => pending
  | c :: text =>
    match escapeReplacement c inAttribute with
    | none => escapeFrom inAttribute (pending ++ [c]) text
    | some replacement => pending ++ replacement ++ escapeFrom inAttribute [] text

def escape (text : Text) (inAttribute : Bool) : Text := escapeFrom inAttribute [] text

/-- `attribute`: a name that is written as it is, and its value. -/
def writeAttribute (name value : Text) : Text :=
  " ".toList ++ (name ++ ("=\"".toList ++ (escape value true ++ "\"".toList)))

def escaped (inAttribute : Bool) (c : Char) : Text := (escapeReplacement c inAttribute).getD [c]

theorem escapeFrom_eq (inAttribute : Bool) (pending text : Text) :
    escapeFrom inAttribute pending text = pending ++ text.flatMap (escaped inAttribute) := by
  induction text generalizing pending with
  | nil => simp [escapeFrom]
  | cons c text ih =>
    cases hc : escapeReplacement c inAttribute with
    | none => simp [escapeFrom, hc, ih, escaped]
    | some replacement => simp [escapeFrom, hc, ih, escaped]

theorem escape_eq (text : Text) (inAttribute : Bool) : escape text inAttribute = text.flatMap (escaped inAttribute) :=
  escapeFrom_eq inAttribute [] text

end Lonewolf.Xmpp

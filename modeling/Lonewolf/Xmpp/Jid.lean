import Lonewolf.Base.Slices
import Lonewolf.Roster.Types

/-!
# JIDs

`jid/mod.rs`: an address is split into its parts, each part is prepared, and the prepared parts are put
together again, with the offsets of the parts in the text. The profiles, the processing of domain names and
the tables of Unicode are those of other libraries, and are parameters here.
-/

namespace Lonewolf.Xmpp

open Texts Text

/-! ### What other libraries provide -/

inductive GeneralCategory where
  | uppercaseLetter | lowercaseLetter | titlecaseLetter | modifierLetter | otherLetter
  | nonspacingMark | spacingMark | enclosingMark
  | decimalNumber | letterNumber | otherNumber
  | spaceSeparator | lineSeparator | paragraphSeparator
  | control | format | privateUse | surrogate | unassigned
  | dashPunctuation | openPunctuation | closePunctuation | connectorPunctuation | initialPunctuation
  | finalPunctuation | otherPunctuation
  | mathSymbol | currencySymbol | modifierSymbol | otherSymbol
  deriving DecidableEq

inductive HangulSyllableType where
  | leadingJamo | vowelJamo | trailingJamo | other
  deriving DecidableEq

inductive Script where
  | greek | hebrew | hiragana | katakana | han | other
  deriving DecidableEq

inductive ProcessingSuccess where
  | passthrough
  | wroteToSink

/-- What a call to `Uts46::process` returns, with what it writes to its sinks. -/
structure Processed where
  success : ProcessingSuccess
  unicode : Text
  ascii : Text

/-- The text that the processing comes to. -/
def Processed.output (processed : Processed) (mapped : Text) : Text :=
  match processed.success with
  | .passthrough => mapped
  | .wroteToSink => processed.unicode

/-- The name as it is in the DNS. -/
def Processed.dnsName (processed : Processed) (mapped : Text) : Text :=
  if processed.ascii.isEmpty then processed.output mapped else processed.ascii

/-- The profiles of PRECIS, the processing of UTS #46, the Unicode properties, and IPv6 addresses. -/
structure Unicode where
  usernameCaseMapped : Text → Option Text
  opaqueString : Text → Option Text
  widthMappingRule : Text → Option Text
  normalizationRule : Text → Option Text
  process : Text → Option Processed
  verifyDnsLength : Text → Bool
  isUppercase : Char → Bool
  toLowercase : Char → List Char
  changesWhenNfkcCasefolded : Char → Bool
  hangulSyllableType : Char → HangulSyllableType
  generalCategory : Char → GeneralCategory
  script : Char → Script
  Ipv6Addr : Type
  parseIpv6 : Text → Option Ipv6Addr
  displayIpv6 : Ipv6Addr → Text

/-! ### Errors and lengths -/

def maxPartLen : Nat := 1023

def maxInputPartLen : Nat := 16 * maxPartLen

inductive JidPart where
  | localpart
  | domainpart
  | resourcepart
  deriving DecidableEq

inductive JidError where
  | emptyPart (part : JidPart)
  | partTooLong (part : JidPart)
  | invalidPart (part : JidPart)
  deriving DecidableEq

def checkLength (text : Text) (part : JidPart) : Except JidError Unit :=
  if text.isEmpty then .error (.emptyPart part)
  else if maxPartLen < text.byteLen then .error (.partTooLong part)
  else .ok ()

def checkInputLength (input : Text) (part : JidPart) : Except JidError Unit :=
  if input.isEmpty then .error (.emptyPart part)
  else if maxInputPartLen < input.byteLen then .error (.partTooLong part)
  else .ok ()

/-- An early return of an error. -/
def rejectIf (condition : Bool) (error : JidError) : Except JidError Unit :=
  if condition then .error error else .ok ()

def containsAny (text : Text) (chars : List Char) : Bool := text.any (chars.contains ·)

/-! ### Characters and labels of a domain -/

section Labels

variable (unicode : Unicode)

def between (first last c : Char) : Bool := first ≤ c && c ≤ last

def validIdnaCharacter (c : Char) : Bool :=
  if between 'a' 'z' c || between '0' '9' c ||
      ['-', '\u00df', '\u03c2', '\u06fd', '\u06fe', '\u0f0b', '\u3007', '\u00b7', '\u0375', '\u05f3',
        '\u05f4'].contains c ||
      between '\u0660' '\u0669' c || between '\u06f0' '\u06f9' c ||
      ['\u30fb', '\u200c', '\u200d'].contains c then true
  else if ['\u0640', '\u07fa', '\u302e', '\u302f', '\u303b'].contains c || between '\u3031' '\u3035' c ||
      between '\u20d0' '\u20ff' c || between (Char.ofNat 0x1d100) (Char.ofNat 0x1d24f) c then false
  else if unicode.changesWhenNfkcCasefolded c || unicode.hangulSyllableType c ≠ .other then false
  else match unicode.generalCategory c with
    | .lowercaseLetter | .uppercaseLetter | .otherLetter | .decimalNumber | .modifierLetter | .nonspacingMark
    | .spacingMark => true
    | _ => false

/-- `valid_context` of a character with the label before and after it. -/
def validContext (label before : Text) (c : Char) (after : Text) : Bool :=
  if c = '\u00b7' then before.getLast? = some 'l' && after.head? = some 'l'
  else if c = '\u0375' then after.head?.any fun next => unicode.script next = .greek
  else if c = '\u05f3' || c = '\u05f4' then before.getLast?.any fun previous => unicode.script previous = .hebrew
  else if c = '\u30fb' then label.any fun c =>
    unicode.script c = .hiragana || unicode.script c = .katakana || unicode.script c = .han
  else if between '\u0660' '\u0669' c then !label.any (between '\u06f0' '\u06f9')
  else if between '\u06f0' '\u06f9' c then !label.any (between '\u0660' '\u0669')
  else true

/-- The characters of a label from some position on. -/
def validLabelFrom (label before : Text) : Text → Bool
  | [] => true
  | c :: after =>
    validIdnaCharacter unicode c && validContext unicode label before c after &&
      validLabelFrom label (before ++ [c]) after

def validIdnaLabel (label : Text) : Bool := validLabelFrom unicode label [] label

end Labels

/-! ### The parts -/

section Prepare

variable (unicode : Unicode) (input : Text)

def prepareLocalpart : Except JidError Text := do
  checkInputLength input .localpart
  let output ← (unicode.usernameCaseMapped input).elim (.error (.invalidPart .localpart)) .ok
  rejectIf (containsAny output ['"', '&', '\'', '/', ':', '<', '>', '@']) (.invalidPart .localpart)
  checkLength output .localpart
  return output

def prepareResourcepart : Except JidError Text := do
  checkInputLength input .resourcepart
  let output ← (unicode.opaqueString input).elim (.error (.invalidPart .resourcepart)) .ok
  checkLength output .resourcepart
  return output

def ideographicDots : List Char := ['\u3002', '\uff0e', '\uff61']

/-- `input.strip_suffix(..).unwrap_or(input)` for a final dot. -/
def stripDot : Text :=
  if input.getLast?.any fun c => c = '.' || ideographicDots.contains c then input.dropLast else input

/-- `input.strip_prefix('[').and_then(|s| s.strip_suffix(']'))`. -/
def stripBrackets : Option Text :=
  match input with
  | '[' :: inner => if inner.getLast? = some ']' then some inner.dropLast else none
  | _ => none

def ipLiteral : Except JidError Text := do
  let inner ← (stripBrackets input).elim (.error (.invalidPart .domainpart)) .ok
  let address ← (unicode.parseIpv6 inner).elim (.error (.invalidPart .domainpart)) .ok
  let text : Text := '[' :: (unicode.displayIpv6 address ++ [']'])
  rejectIf (maxPartLen < text.byteLen) (.partTooLong .domainpart)
  return text

/-- The dots of other scripts as dots. -/
def mapDots : Text := input.map fun c => if ideographicDots.contains c then '.' else c

def isAscii (text : Text) : Bool := text.all fun c => c.toNat < 128

/-- Width mapping and normalization, for a text that is not ASCII. -/
def mapWidth (text : Text) : Option Text :=
  if isAscii text then some text else (unicode.widthMappingRule text).bind unicode.normalizationRule

/-- The characters that may be given to the processing. -/
def validMapped (c : Char) : Bool :=
  c = '.' || validIdnaCharacter unicode c ||
    (unicode.isUppercase c && (unicode.toLowercase c).all (validIdnaCharacter unicode))

/-- The part of `prepare_domainpart` for a name. -/
def prepareName : Except JidError Text := do
  let mapped ← (mapWidth unicode (mapDots input)).elim (.error (.invalidPart .domainpart)) .ok
  rejectIf (!mapped.all (validMapped unicode)) (.invalidPart .domainpart)
  let processed ← (unicode.process mapped).elim (.error (.invalidPart .domainpart)) .ok
  let output := processed.output mapped
  checkLength output .domainpart
  rejectIf (!unicode.verifyDnsLength (processed.dnsName mapped) ||
    !(output.splitOn '.').all (validIdnaLabel unicode)) (.invalidPart .domainpart)
  return output

def prepareDomainpart : Except JidError Text := do
  let input := stripDot input
  checkInputLength input .domainpart
  rejectIf (containsAny input ['@', '/']) (.invalidPart .domainpart)
  if input.head? = some '[' then ipLiteral unicode input else prepareName unicode input

end Prepare

/-! ### The address -/

/-- `NonZeroU16::new(value as u16)`. -/
def nonZeroU16 (value : Nat) : Option Nat := if value % 2 ^ 16 = 0 then none else some (value % 2 ^ 16)

/-- `JidRef`: the text, and where the localpart ends and the resourcepart starts, in bytes. -/
@[ext] structure JidRef where
  text : Text
  localpartEnd : Option Nat
  resourcepartStart : Option Nat
  deriving DecidableEq

namespace JidRef

variable (jid : JidRef)

def bareLen : Nat := (jid.resourcepartStart.map (· - 1)).getD jid.text.byteLen

def localpart : Option Text := jid.localpartEnd.map fun offset => jid.text.takeBytes offset

def domainpart : Text :=
  let start := (jid.localpartEnd.map (· + 1)).getD 0
  (jid.text.takeBytes jid.bareLen).dropBytes start

def resourcepart : Option Text := jid.resourcepartStart.map fun start => jid.text.dropBytes start

def bare : JidRef := ⟨jid.text.takeBytes jid.bareLen, jid.localpartEnd, none⟩

end JidRef

/-- `Jid`: the text that the arena holds, and the part of it that is the address. -/
structure Jid where
  text : Text
  textLen : Fin (2 ^ 16)
  localpartEnd : Option Nat
  resourcepartStart : Option Nat
  deriving DecidableEq

/-- `clone_in`; the arena has room for the text. -/
def JidRef.cloneIn (jid : JidRef) : Jid :=
  ⟨jid.text, .ofNat _ jid.text.byteLen, jid.localpartEnd, jid.resourcepartStart⟩

def Jid.resolve (jid : Jid) : JidRef :=
  ⟨jid.text.takeBytes jid.textLen, jid.localpartEnd, jid.resourcepartStart⟩

def Jid.bare (jid : Jid) : Jid :=
  { jid with
    textLen := (jid.resourcepartStart.map fun start => .ofNat _ (start - 1)).getD jid.textLen
    resourcepartStart := none }

/-- The checks of `compose_parts`. -/
def checkParts (localpart : Option Text) (domainpart : Text) (resourcepart : Option Text) :
    Except JidError Unit := do
  localpart.forM fun localpart => do
    checkLength localpart .localpart
    rejectIf (containsAny localpart ['@', '/']) (.invalidPart .localpart)
  checkLength domainpart .domainpart
  rejectIf (containsAny domainpart ['@', '/']) (.invalidPart .domainpart)
  resourcepart.forM fun resourcepart => checkLength resourcepart .resourcepart

def composeParts (localpart : Option Text) (domainpart : Text) (resourcepart : Option Text) :
    Except JidError JidRef := do
  checkParts localpart domainpart resourcepart
  let localLen := (localpart.map byteLen).getD 0
  let bare : Text := (localpart.map (· ++ ['@'])).getD [] ++ domainpart
  return {
    text := bare ++ (resourcepart.map ('/' :: ·)).getD []
    localpartEnd := nonZeroU16 localLen
    resourcepartStart := resourcepart.bind fun _ => nonZeroU16 (bare.byteLen + 1) }

section Parse

variable (unicode : Unicode)

/-- A part that may be absent. -/
def prepareOptional (prepare : Text → Except JidError Text) : Option Text → Except JidError (Option Text)
  | some input => do return some (← prepare input)
  | none => return none

def fromTrustedParts (localpart : Option Text) (domainpart : Text) (resourcepart : Option Text) :
    Except JidError Jid := do
  return (← composeParts localpart domainpart resourcepart).cloneIn

def fromParts (localpart : Option Text) (domainpart : Text) (resourcepart : Option Text) :
    Except JidError Jid := do
  let localpart ← prepareOptional (prepareLocalpart unicode) localpart
  let domainpart ← prepareDomainpart unicode domainpart
  let resourcepart ← prepareOptional (prepareResourcepart unicode) resourcepart
  fromTrustedParts localpart domainpart resourcepart

/-- The parts of an address as it is written. -/
def splitAddress (input : Text) : Option Text × Text × Option Text :=
  let (bare, resourcepart) := match splitOnce '/' input with
    | some (bare, resource) => (bare, some resource)
    | none => (input, none)
  let (localpart, domainpart) := match splitOnce '@' bare with
    | some (local', domain) => (some local', domain)
    | none => (none, bare)
  (localpart, domainpart, resourcepart)

def parse (input : Text) : Except JidError Jid :=
  let (localpart, domainpart, resourcepart) := splitAddress input
  fromParts unicode localpart domainpart resourcepart

/-- `with_resource_in` of a resolved address. -/
def JidRef.withResource (jid : JidRef) (resourcepart : Text) : Except JidError Jid := do
  let resourcepart ← prepareResourcepart unicode resourcepart
  fromTrustedParts jid.localpart jid.domainpart (some resourcepart)

def Jid.withResource (jid : Jid) (resourcepart : Text) : Except JidError Jid := do
  let resourcepart ← prepareResourcepart unicode resourcepart
  let current := jid.resolve
  return (← composeParts current.localpart current.domainpart (some resourcepart)).cloneIn

/-- `with_canonical_jid`, with an absent result for data that is reported as corrupt. -/
def withCanonicalJid (text : Text) (maxLen : Nat) : Option JidRef :=
  if maxLen < text.byteLen then none
  else match parse unicode text with
    | .ok jid => if jid.resolve.text ≠ text then none else some jid.resolve
    | .error _ => none

end Parse

end Lonewolf.Xmpp

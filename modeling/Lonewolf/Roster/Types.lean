import Lonewolf.Base.Text

/-!
# Roster data

The types of `lonewolf-storage`'s `account/key.rs` and `roster/`: account keys, roster JIDs, items with their
subscription, quotas and errors. A canonical JID text is what the JID parser returns for it. The parser rests on
string-preparation tables that are not part of the repository, so it is a parameter; of a canonical text it is only
assumed that it holds no NUL.
-/

namespace Lonewolf

open Texts

/-- `Jid::parse_in`, resolved to the text of the parsed JID. -/
structure JidSyntax where
  parse : Text → Option Text

/-- `MAX_JID_LEN`: three parts of at most 1023 bytes and two separators. -/
def maxJidLen : Nat := 3 * 1023 + 2

/-- The check of `with_canonical_jid`: the text is short enough and parses to itself. -/
def JidSyntax.canonical (syn : JidSyntax) (text : Text) : Bool :=
  text.byteLen ≤ maxJidLen && syn.parse text == some text

def nul : Char := Char.ofNat 0

/-- `RosterJid`: a canonical JID text. -/
@[ext] structure RosterJid (syn : JidSyntax) where
  text : Text
  canonical : syn.canonical text = true
  noNul : nul ∉ text
  deriving DecidableEq

/-- The text before the first `@` is there and is not empty. -/
def hasUsername (text : Text) : Bool := text.contains '@' && text.head? != some '@'

/-- The text after the first `@`, or all of it. -/
def domainOf (text : Text) : Text :=
  if text.contains '@' then (text.dropWhile (· ≠ '@')).drop 1 else text

def RosterJid.domain {syn : JidSyntax} (jid : RosterJid syn) : Text := domainOf jid.text

/-- `AccountKey`: the canonical bare JID of a user. -/
@[ext] structure AccountKey (syn : JidSyntax) where
  jid : RosterJid syn
  bare : '/' ∉ jid.text
  named : hasUsername jid.text = true
  deriving DecidableEq

namespace AccountKey

variable {syn : JidSyntax}

def text (account : AccountKey syn) : Text := account.jid.text

def domain (account : AccountKey syn) : Text := account.jid.domain

/-- `AccountKey::try_from(&RosterJid)`. -/
def ofRosterJid? (jid : RosterJid syn) : Option (AccountKey syn) :=
  if h : '/' ∉ jid.text ∧ hasUsername jid.text = true then some ⟨jid, h.1, h.2⟩ else none

@[simp] theorem ofRosterJid?_jid (account : AccountKey syn) : ofRosterJid? account.jid = some account := by
  rw [ofRosterJid?, dif_pos ⟨account.bare, account.named⟩]

theorem ofRosterJid?_eq_some {jid : RosterJid syn} {account : AccountKey syn} :
    ofRosterJid? jid = some account ↔ account.jid = jid := by
  constructor
  · intro h
    unfold ofRosterJid? at h
    split at h
    · cases h
      rfl
    · cases h
  · rintro rfl
    exact ofRosterJid?_jid account

theorem jid_injective : Function.Injective (jid : AccountKey syn → RosterJid syn) :=
  fun a b h => by ext1; exact h

end AccountKey

/-- `HostLookup`: what the configuration says about a domain. -/
structure HostLookup where
  federates : Text → Bool
  isLocalHost : Text → Bool

inductive SubscriptionState where
  | none
  | to
  | from'
  | both
  deriving DecidableEq, Repr, Inhabited

structure RosterSubscription where
  state : SubscriptionState := .none
  pendingOut : Bool := false
  approved : Bool := false
  deriving DecidableEq, Repr, Inhabited

@[ext] structure RosterItem (syn : JidSyntax) where
  jid : RosterJid syn
  name : Option Text
  groups : List Text
  subscription : RosterSubscription
  deriving DecidableEq

/-- `usize::MAX + 1` and `u64::MAX + 1`. -/
def wordSize : Nat := 2 ^ 64

def checkedAdd (a b : Nat) : Option Nat := if a + b < wordSize then some (a + b) else none

theorem checkedAdd_eq_some {a b c : Nat} : checkedAdd a b = some c ↔ a + b < wordSize ∧ a + b = c := by
  unfold checkedAdd
  split <;> simp [*]

theorem checkedAdd_eq_none {a b : Nat} : checkedAdd a b = none ↔ wordSize ≤ a + b := by
  unfold checkedAdd
  split <;> simp <;> omega

/-- `RosterQuota`, with both bounds positive machine words. -/
structure RosterQuota where
  maxItems : Nat
  maxBytes : Nat
  maxItems_pos : 0 < maxItems
  maxBytes_pos : 0 < maxBytes
  maxItems_lt : maxItems < wordSize
  maxBytes_lt : maxBytes < wordSize
  deriving DecidableEq

def RosterQuota.default : RosterQuota where
  maxItems := 1000
  maxBytes := 2097152
  maxItems_pos := by decide
  maxBytes_pos := by decide
  maxItems_lt := by decide
  maxBytes_lt := by decide

def maxGroupsPerItem : Nat := 8

/-- The kinds of `StorageError` the modelled code raises itself. -/
inductive StorageErrorKind where
  | corruptData
  | other
  deriving DecidableEq, Repr

inductive RosterError where
  | valueTooLarge
  | pendingLimitExceeded
  | quotaExceeded
  | noAccount
  | storage (kind : StorageErrorKind)
  deriving DecidableEq, Repr

/-- `RosterMutation`: a value and the version its change produced. -/
structure RosterMutation (α : Type) where
  version : Nat
  value : α
  deriving DecidableEq

/-- `PendingSubscription`: a stored request, as the serialised stanza it came in. -/
structure PendingSubscription (syn : JidSyntax) where
  sender : RosterJid syn
  stanza : Bytes
  deriving DecidableEq

end Lonewolf

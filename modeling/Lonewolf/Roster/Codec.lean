import Lonewolf.Roster.Types

/-!
# The item codec

How `roster/redb.rs` writes an item as bytes and reads it back: two header bytes with the subscription, the optional
name, and the groups. Reading an encoded item gives the item, encoding what was read gives the bytes, and the header
can be read or replaced without touching the rest.
-/

namespace Lonewolf.Roster

open Texts

variable {syn : JidSyntax}

/-- The error the decoders raise on malformed bytes. -/
def corrupt : RosterError := .storage .corruptData

variable {α : Type}

def orCorrupt : Option α → Except RosterError α
  | some a => .ok a
  | none => .error corrupt

def orTooLarge : Option α → Except RosterError α
  | some a => .ok a
  | none => .error .valueTooLarge

variable {o : Option α} {a : α}

theorem orTooLarge_eq_ok : orTooLarge o = .ok a ↔ o = some a := by
  cases o <;> simp [orTooLarge]

theorem orTooLarge_eq_error {e : RosterError} : orTooLarge o = .error e ↔ o = none ∧ .valueTooLarge = e := by
  cases o <;> simp [orTooLarge]

theorem orCorrupt_eq_ok : orCorrupt o = .ok a ↔ o = some a := by
  cases o <;> simp [orCorrupt]

/-! ### Header -/

def stateByte : SubscriptionState → UInt8
  | .none => 0
  | .to => 1
  | .from' => 2
  | .both => 3

def flagByte (subscription : RosterSubscription) : UInt8 :=
  (if subscription.pendingOut then (1 : UInt8) else 0) ||| ((if subscription.approved then (1 : UInt8) else 0) <<< 1)

def encodeSubscription (subscription : RosterSubscription) : Bytes :=
  [stateByte subscription.state, flagByte subscription]

def decodeState (byte : UInt8) : Option SubscriptionState :=
  if byte = 0 then some .none
  else if byte = 1 then some .to
  else if byte = 2 then some .from'
  else if byte = 3 then some .both
  else none

/-- The header of an item, and the bytes after it. -/
def takeSubscription? : Bytes → Option (RosterSubscription × Bytes)
  | state :: flags :: rest =>
    match decodeState state with
    | some state =>
      if flags &&& 0xfc ≠ 0 then none
      else some (⟨state, flags &&& 1 ≠ 0, flags &&& 2 ≠ 0⟩, rest)
    | none => none
  | _ => none

def decodeSubscription (bytes : Bytes) : Except RosterError RosterSubscription :=
  orCorrupt ((takeSubscription? bytes).map Prod.fst)

@[simp] theorem decodeState_stateByte (state : SubscriptionState) : decodeState (stateByte state) = some state := by
  cases state <;> rfl

theorem stateByte_of_decodeState {byte : UInt8} {state : SubscriptionState}
    (h : decodeState byte = some state) : stateByte state = byte := by
  unfold decodeState at h
  split at h
  · cases h
    exact Eq.symm ‹byte = 0›
  · split at h
    · cases h
      exact Eq.symm ‹byte = 1›
    · split at h
      · cases h
        exact Eq.symm ‹byte = 2›
      · split at h
        · cases h
          exact Eq.symm ‹byte = 3›
        · cases h

@[simp] theorem takeSubscription?_encode (subscription : RosterSubscription) (rest : Bytes) :
    takeSubscription? (encodeSubscription subscription ++ rest) = some (subscription, rest) := by
  obtain ⟨state, pendingOut, approved⟩ := subscription
  simp only [encodeSubscription, List.cons_append, List.nil_append, takeSubscription?, decodeState_stateByte]
  cases pendingOut <;> cases approved <;> simp [flagByte] <;> decide

private theorem flag_cases : ∀ n : Fin 256, UInt8.ofNat n &&& 0xfc = 0 → n.val < 4 := by decide +kernel

private theorem flagByte_of_valid {flags : UInt8} (h : flags &&& 0xfc = 0) (state : SubscriptionState) :
    flagByte ⟨state, flags &&& 1 ≠ 0, flags &&& 2 ≠ 0⟩ = flags := by
  have hlt := flag_cases ⟨flags.toNat, flags.toNat_lt⟩ (by simpa using h)
  have hcases : flags = 0 ∨ flags = 1 ∨ flags = 2 ∨ flags = 3 := by
    simp only [← UInt8.toNat_inj, UInt8.reduceToNat]
    simp only at hlt
    omega
  rcases hcases with rfl | rfl | rfl | rfl <;> simp [flagByte] <;> decide

theorem takeSubscription?_eq_some {bytes rest : Bytes} {subscription : RosterSubscription}
    (h : takeSubscription? bytes = some (subscription, rest)) : bytes = encodeSubscription subscription ++ rest := by
  match bytes, h with
  | state :: flags :: tail, h =>
    simp only [takeSubscription?] at h
    cases hstate : decodeState state with
    | none => simp [hstate] at h
    | some decoded =>
      rw [hstate] at h
      simp only at h
      split at h
      · cases h
      · rename_i hflags
        cases h
        rw [encodeSubscription, flagByte_of_valid (not_not.mp hflags), stateByte_of_decodeState hstate]
        rfl

variable {bytes : Bytes}

theorem decodeSubscription_eq_ok {subscription : RosterSubscription} :
    decodeSubscription bytes = .ok subscription ↔ ∃ rest, bytes = encodeSubscription subscription ++ rest := by
  rw [decodeSubscription, orCorrupt_eq_ok, Option.map_eq_some_iff]
  constructor
  · rintro ⟨⟨decoded, rest⟩, h, rfl⟩
    exact ⟨rest, takeSubscription?_eq_some h⟩
  · rintro ⟨rest, rfl⟩
    exact ⟨(subscription, rest), takeSubscription?_encode subscription rest, rfl⟩

@[simp] theorem decodeSubscription_encode (subscription : RosterSubscription) (rest : Bytes) :
    decodeSubscription (encodeSubscription subscription ++ rest) = .ok subscription :=
  decodeSubscription_eq_ok.mpr ⟨rest, rfl⟩

/-! ### Items -/

/-- The fold step of `encoded_item_size`: a group with its length. -/
def addGroup (len : Nat) (group : Text) : Option Nat := do checkedAdd (← checkedAdd len 4) group.byteLen

/-- `encoded_item_size`: ten fixed bytes, the name, and each group with its length. -/
def encodedItemSize (item : RosterItem syn) : Except RosterError Nat :=
  orTooLarge do
    let groups ← item.groups.foldlM addGroup 0
    checkedAdd (← checkedAdd 10 ((item.name.map Text.byteLen).getD 0)) groups

/-- `append_bytes`: the length as a `u32`, then the bytes. -/
def encodeText (t : Text) : Except RosterError Bytes :=
  if t.byteLen < u32Bound then .ok (leBytes t.byteLen ++ t.utf8) else .error .valueTooLarge

/-- `append_optional`: the greatest `u32` stands for no name. -/
def encodeName : Option Text → Except RosterError Bytes
  | some name => if name.byteLen < u32Bound - 1 then encodeText name else .error .valueTooLarge
  | none => .ok (leBytes (u32Bound - 1))

def encodeGroups : List Text → Except RosterError Bytes
  | [] => .ok []
  | group :: rest => do
      let bytes ← encodeText group
      let tail ← encodeGroups rest
      return bytes ++ tail

def encodeItem (item : RosterItem syn) : Except RosterError Bytes := do
  let _ ← encodedItemSize item
  let name ← encodeName item.name
  if item.groups.length < u32Bound then
    let groups ← encodeGroups item.groups
    return encodeSubscription item.subscription ++ (name ++ (leBytes item.groups.length ++ groups))
  else throw .valueTooLarge

def takeName (bytes : Bytes) : Option (Option Text × Bytes) := do
  let (len, rest) ← takeLe bytes
  if len = u32Bound - 1 then return (none, rest)
  else
    let (name, rest) ← takeText len rest
    return (some name, rest)

/-- `take_string`, once for each group. -/
def takeGroups : Nat → Bytes → Option (List Text × Bytes)
  | 0, bytes => some ([], bytes)
  | count + 1, bytes => do
      let (len, rest) ← takeLe bytes
      let (group, rest) ← takeText len rest
      let (groups, rest) ← takeGroups count rest
      return (group :: groups, rest)

/-- What an item holds besides its JID. -/
def takeItem (bytes : Bytes) : Option (RosterSubscription × Option Text × List Text) := do
  let (subscription, rest) ← takeSubscription? bytes
  let (name, rest) ← takeName rest
  let (count, rest) ← takeLe rest
  let (groups, rest) ← takeGroups count rest
  if rest = [] then return (subscription, name, groups) else none

def decodeItem (jid : RosterJid syn) (bytes : Bytes) : Except RosterError (RosterItem syn) :=
  orCorrupt ((takeItem bytes).map fun (subscription, name, groups) => ⟨jid, name, groups, subscription⟩)

/-- The bytes after the name, which is skipped by its length. -/
def skipName (bytes : Bytes) : Option Bytes := do
  let (len, rest) ← takeLe bytes
  if len = u32Bound - 1 then return rest
  else if len ≤ rest.length then return rest.drop len
  else none

/-- The group count of an encoded item. -/
def groupCount? : Bytes → Option Nat
  | _ :: _ :: rest => do
      let (count, _) ← takeLe (← skipName rest)
      return count
  | _ => none

/-- `check_item`: the bounds that are read before an item is decoded. -/
def checkItem (bytes : Bytes) (quota : RosterQuota) : Except RosterError Unit :=
  if quota.maxBytes < bytes.length then .error .quotaExceeded
  else
    match groupCount? bytes with
    | none => .error corrupt
    | some count => if maxGroupsPerItem < count then .error .quotaExceeded else .ok ()

/-! ### Sizes and round trips -/

/-- The size of an item as a plain sum. -/
def itemLen (item : RosterItem syn) : Nat :=
  10 + (item.name.map Text.byteLen).getD 0 + (item.groups.map fun group => 4 + group.byteLen).sum

private theorem foldlM_groups (groups : List Text) (start total : Nat) :
    groups.foldlM addGroup start = some total → start + (groups.map fun group => 4 + group.byteLen).sum = total := by
  induction groups generalizing start with
  | nil =>
    intro h
    cases h
    simp
  | cons group groups ih =>
    intro h
    simp only [List.foldlM_cons, addGroup, Option.bind_eq_bind, Option.bind_eq_some_iff, checkedAdd_eq_some] at h
    obtain ⟨_, ⟨_, ⟨_, rfl⟩, _, rfl⟩, hrest⟩ := h
    have := ih _ hrest
    simp only [List.map_cons, List.sum_cons]
    omega

variable {item : RosterItem syn}

theorem encodedItemSize_eq_ok {size : Nat}
    (h : encodedItemSize item = .ok size) : size = itemLen item ∧ size < wordSize := by
  rw [encodedItemSize, orTooLarge_eq_ok] at h
  simp only [Option.bind_eq_bind, Option.bind_eq_some_iff, checkedAdd_eq_some] at h
  obtain ⟨groups, hgroups, _, ⟨_, rfl⟩, hlt, rfl⟩ := h
  have := foldlM_groups _ _ _ hgroups
  refine ⟨?_, hlt⟩
  unfold itemLen
  omega

theorem encodeText_eq_ok {t : Text} :
    encodeText t = .ok bytes ↔ t.byteLen < u32Bound ∧ leBytes t.byteLen ++ t.utf8 = bytes := by
  unfold encodeText
  split <;> simp [*]

theorem encodeName_some {name : Text} :
    encodeName (some name) = .ok bytes ↔ name.byteLen < u32Bound - 1 ∧ leBytes name.byteLen ++ name.utf8 = bytes := by
  simp only [encodeName]
  split
  · rename_i hlt
    rw [encodeText_eq_ok]
    exact ⟨fun h => ⟨hlt, h.2⟩, fun h => ⟨by omega, h.2⟩⟩
  · simp [*]

variable {name : Option Text}

theorem length_encodeName (h : encodeName name = .ok bytes) : bytes.length = 4 + (name.map Text.byteLen).getD 0 := by
  cases name with
  | none =>
    cases h
    rfl
  | some name =>
    obtain ⟨_, rfl⟩ := encodeName_some.mp h
    simp

variable {groups : List Text}

theorem encodeGroups_cons {group : Text} :
    encodeGroups (group :: groups) = .ok bytes ↔
      ∃ first rest, encodeText group = .ok first ∧ encodeGroups groups = .ok rest ∧
        first ++ rest = bytes := by
  simp only [encodeGroups, bind, Except.bind, pure, Except.pure]
  cases encodeText group with
  | error e => simp
  | ok first => cases encodeGroups groups <;> simp

theorem length_encodeGroups (h : encodeGroups groups = .ok bytes) :
    bytes.length = (groups.map fun group => 4 + group.byteLen).sum := by
  induction groups generalizing bytes with
  | nil =>
    cases h
    rfl
  | cons group groups ih =>
    obtain ⟨first, rest, hfirst, hrest, rfl⟩ := encodeGroups_cons.mp h
    obtain ⟨_, rfl⟩ := encodeText_eq_ok.mp hfirst
    simp [ih hrest, Nat.add_assoc]

theorem encodeItem_eq_ok :
    encodeItem item = .ok bytes ↔
      (∃ size, encodedItemSize item = .ok size) ∧ item.groups.length < u32Bound ∧
        ∃ name groups, encodeName item.name = .ok name ∧ encodeGroups item.groups = .ok groups ∧
          encodeSubscription item.subscription ++ (name ++ (leBytes item.groups.length ++ groups)) = bytes := by
  simp only [encodeItem, bind, Except.bind, pure, Except.pure]
  cases encodedItemSize item with
  | error e => simp
  | ok size =>
    cases encodeName item.name with
    | error e => simp
    | ok name =>
      by_cases hlen : item.groups.length < u32Bound
      · cases encodeGroups item.groups <;> simp [hlen]
      · simp [hlen, throw, throwThe, MonadExceptOf.throw]

theorem length_encodeItem (h : encodeItem item = .ok bytes) : bytes.length = itemLen item := by
  obtain ⟨_, _, name, groups, hname, hgroups, rfl⟩ := encodeItem_eq_ok.mp h
  simp only [encodeSubscription, List.length_append, List.length_cons, List.length_nil, length_leBytes,
    length_encodeName hname, length_encodeGroups hgroups, itemLen]
  omega

theorem takeName_encodeName (h : encodeName name = .ok bytes)
    (rest : Bytes) : takeName (bytes ++ rest) = some (name, rest) := by
  cases name with
  | none =>
    cases h
    rw [takeName, takeLe_leBytes (by decide)]
    rfl
  | some name =>
    obtain ⟨hlt, rfl⟩ := encodeName_some.mp h
    rw [takeName, List.append_assoc, takeLe_leBytes (by omega)]
    simp only [Option.bind_eq_bind, Option.bind_some, takeText_utf8]
    rw [if_neg (by omega)]
    rfl

theorem takeGroups_encodeGroups (h : encodeGroups groups = .ok bytes) (rest : Bytes) :
    takeGroups groups.length (bytes ++ rest) = some (groups, rest) := by
  induction groups generalizing bytes with
  | nil =>
    cases h
    rfl
  | cons group groups ih =>
    obtain ⟨first, tail, hfirst, htail, rfl⟩ := encodeGroups_cons.mp h
    obtain ⟨hlen, rfl⟩ := encodeText_eq_ok.mp hfirst
    rw [List.length_cons, takeGroups]
    simp only [List.append_assoc, takeLe_leBytes hlen, takeText_utf8, ih htail, Option.bind_eq_bind,
      Option.bind_some, pure]

theorem takeItem_encodeItem (h : encodeItem item = .ok bytes) :
    takeItem bytes = some (item.subscription, item.name, item.groups) := by
  obtain ⟨_, hlen, name, groups, hname, hgroups, rfl⟩ := encodeItem_eq_ok.mp h
  have htail := takeGroups_encodeGroups hgroups []
  rw [List.append_nil] at htail
  simp only [takeItem, takeSubscription?_encode, takeName_encodeName hname, takeLe_leBytes hlen, htail,
    Option.bind_eq_bind, Option.bind_some]
  rfl

theorem decodeItem_encodeItem (h : encodeItem item = .ok bytes) : decodeItem item.jid bytes = .ok item := by
  rw [decodeItem, takeItem_encodeItem h]
  rfl

private theorem foldlM_groups_of_lt (groups : List Text) (start : Nat)
    (h : start + (groups.map fun group => 4 + group.byteLen).sum < wordSize) :
    groups.foldlM addGroup start = some (start + (groups.map fun group => 4 + group.byteLen).sum) := by
  induction groups generalizing start with
  | nil => simp
  | cons group groups ih =>
    simp only [List.map_cons, List.sum_cons] at h ⊢
    have hstep : addGroup start group = some (start + 4 + group.byteLen) := by
      rw [addGroup, checkedAdd, if_pos (by omega)]
      exact if_pos (by omega)
    rw [List.foldlM_cons, hstep, Option.bind_eq_bind, Option.bind_some, ih _ (by omega)]
    congr 1
    omega

theorem encodedItemSize_of_lt (h : itemLen item < wordSize) : encodedItemSize item = .ok (itemLen item) := by
  unfold itemLen at h
  rw [encodedItemSize, orTooLarge_eq_ok, foldlM_groups_of_lt _ _ (by omega)]
  simp only [Option.bind_eq_bind, Option.bind_some]
  rw [checkedAdd, if_pos (by omega), Option.bind_some, checkedAdd, if_pos (by omega), itemLen, Nat.zero_add]

/-- The lengths and the count fit the `u32` fields (the greatest length stands for no name) and the size a `usize`. -/
structure WithinLimits (item : RosterItem syn) : Prop where
  name : ∀ name ∈ item.name, name.byteLen < u32Bound - 1
  groups : ∀ group ∈ item.groups, group.byteLen < u32Bound
  count : item.groups.length < u32Bound
  size : itemLen item < wordSize

theorem exists_encodeName : (∃ bytes, encodeName name = .ok bytes) ↔ ∀ text ∈ name, text.byteLen < u32Bound - 1 := by
  cases name with
  | none => simp [encodeName]
  | some text => simp [encodeName_some]

theorem exists_encodeGroups :
    (∃ bytes, encodeGroups groups = .ok bytes) ↔ ∀ group ∈ groups, group.byteLen < u32Bound := by
  induction groups with
  | nil => simp [encodeGroups]
  | cons group groups ih =>
    rw [List.forall_mem_cons, ← ih]
    constructor
    · intro h
      obtain ⟨_, h⟩ := h
      obtain ⟨first, rest, hfirst, hrest, _⟩ := encodeGroups_cons.mp h
      exact ⟨(encodeText_eq_ok.mp hfirst).1, rest, hrest⟩
    · intro h
      obtain ⟨hgroup, rest, hrest⟩ := h
      exact ⟨_, encodeGroups_cons.mpr ⟨_, rest, encodeText_eq_ok.mpr ⟨hgroup, rfl⟩, hrest, rfl⟩⟩

theorem exists_encodeItem : (∃ bytes, encodeItem item = .ok bytes) ↔ WithinLimits item := by
  constructor
  · intro h
    obtain ⟨bytes, h⟩ := h
    obtain ⟨⟨size, hsize⟩, hcount, name, groups, hname, hgroups, _⟩ := encodeItem_eq_ok.mp h
    obtain ⟨rfl, hlt⟩ := encodedItemSize_eq_ok hsize
    exact ⟨exists_encodeName.mp ⟨name, hname⟩, exists_encodeGroups.mp ⟨groups, hgroups⟩, hcount, hlt⟩
  · intro h
    obtain ⟨name, hname⟩ := exists_encodeName.mpr h.name
    obtain ⟨groups, hgroups⟩ := exists_encodeGroups.mpr h.groups
    exact ⟨_, encodeItem_eq_ok.mpr ⟨⟨_, encodedItemSize_of_lt h.size⟩, h.count, name, groups, hname, hgroups, rfl⟩⟩

theorem takeName_eq_some {bytes rest : Bytes} (h : takeName bytes = some (name, rest)) :
    ∃ first, encodeName name = .ok first ∧ bytes = first ++ rest := by
  simp only [takeName, Option.bind_eq_bind, Option.bind_eq_some_iff] at h
  obtain ⟨⟨len, tail⟩, hlen, h⟩ := h
  obtain ⟨hbound, rfl⟩ := takeLe_eq_some hlen
  simp only at h
  split at h
  · rename_i heq
    cases h
    exact ⟨_, rfl, by rw [heq]⟩
  · rename_i hne
    obtain ⟨⟨t, tail'⟩, ht, heq⟩ := Option.bind_eq_some_iff.mp h
    simp only [pure, Option.some.injEq, Prod.mk.injEq] at heq
    obtain ⟨rfl, rfl⟩ := heq
    obtain ⟨hsize, rfl⟩ := takeText_eq_some ht
    exact ⟨_, encodeName_some.mpr ⟨by omega, rfl⟩, by rw [hsize, List.append_assoc]⟩

theorem takeGroups_eq_some {count : Nat} {bytes rest : Bytes} (h : takeGroups count bytes = some (groups, rest)) :
    groups.length = count ∧ ∃ first, encodeGroups groups = .ok first ∧ bytes = first ++ rest := by
  induction count generalizing bytes groups with
  | zero =>
    cases h
    exact ⟨rfl, [], rfl, rfl⟩
  | succ count ih =>
    simp only [takeGroups, Option.bind_eq_bind, Option.bind_eq_some_iff] at h
    obtain ⟨⟨len, tail⟩, hlen, ⟨group, tail'⟩, hgroup, ⟨groups', tail''⟩, hgroups, heq⟩ := h
    cases heq
    obtain ⟨hbound, rfl⟩ := takeLe_eq_some hlen
    obtain ⟨rfl, rfl⟩ := takeText_eq_some hgroup
    obtain ⟨hcount, rest', hrest, rfl⟩ := ih hgroups
    refine ⟨by rw [List.length_cons, hcount], _,
      encodeGroups_cons.mpr ⟨_, rest', encodeText_eq_ok.mpr ⟨hbound, rfl⟩, hrest, rfl⟩, ?_⟩
    simp only [List.append_assoc]

theorem encodeItem_of_decodeItem {jid : RosterJid syn} (hlen : bytes.length < wordSize)
    (h : decodeItem jid bytes = .ok item) : encodeItem item = .ok bytes := by
  rw [decodeItem, orCorrupt_eq_ok, Option.map_eq_some_iff] at h
  obtain ⟨⟨subscription, name, groups⟩, htake, rfl⟩ := h
  simp only [takeItem, Option.bind_eq_bind, Option.bind_eq_some_iff] at htake
  obtain ⟨⟨sub, rest⟩, hsub, ⟨name', rest'⟩, hname, ⟨count, rest''⟩, hcount, ⟨groups', tail⟩, hgroups,
    hend⟩ := htake
  simp only at hend
  split at hend
  · rename_i hnil
    cases hend
    obtain rfl := takeSubscription?_eq_some hsub
    obtain ⟨nameBytes, hnameBytes, rfl⟩ := takeName_eq_some hname
    obtain ⟨hbound, rfl⟩ := takeLe_eq_some hcount
    obtain ⟨rfl, groupBytes, hgroupBytes, rfl⟩ := takeGroups_eq_some hgroups
    subst hnil
    have hsize : itemLen ⟨jid, name, groups, subscription⟩ < wordSize := by
      simp only [encodeSubscription, List.length_append, List.length_cons, List.length_nil,
        length_leBytes, length_encodeName hnameBytes, length_encodeGroups hgroupBytes] at hlen
      simp only [itemLen]
      omega
    exact encodeItem_eq_ok.mpr ⟨⟨_, encodedItemSize_of_lt hsize⟩, hbound, nameBytes, groupBytes,
      hnameBytes, hgroupBytes, by rw [List.append_nil]⟩
  · cases hend

theorem skipName_encodeName (h : encodeName name = .ok bytes)
    (rest : Bytes) : skipName (bytes ++ rest) = some rest := by
  cases name with
  | none =>
    cases h
    rw [skipName, takeLe_leBytes (by decide)]
    rfl
  | some name =>
    obtain ⟨hlt, rfl⟩ := encodeName_some.mp h
    rw [skipName, List.append_assoc, takeLe_leBytes (by omega)]
    simp only [Option.bind_eq_bind, Option.bind_some]
    rw [if_neg (by omega), if_pos (by simp)]
    have hdrop : (name.utf8 ++ rest).drop name.byteLen = rest := by
      rw [← name.length_utf8, List.drop_left]
    rw [hdrop]
    rfl

section

variable (h : encodeItem item = .ok bytes)
include h

theorem groupCount?_encodeItem : groupCount? bytes = some item.groups.length := by
  obtain ⟨_, hlen, name, groups, hname, _, rfl⟩ := encodeItem_eq_ok.mp h
  simp only [encodeSubscription, List.cons_append, List.nil_append, groupCount?,
    skipName_encodeName hname, takeLe_leBytes hlen, Option.bind_eq_bind, Option.bind_some]
  rfl

theorem checkItem_encodeItem {quota : RosterQuota} (hbytes : bytes.length ≤ quota.maxBytes)
    (hgroups : item.groups.length ≤ maxGroupsPerItem) : checkItem bytes quota = .ok () := by
  simp only [checkItem, groupCount?_encodeItem h]
  rw [if_neg (by omega), if_neg (by omega)]

theorem decodeSubscription_encodeItem : decodeSubscription bytes = .ok item.subscription := by
  obtain ⟨_, _, _, _, _, _, rfl⟩ := encodeItem_eq_ok.mp h
  exact decodeSubscription_encode _ _

end

/-- The bytes of an item with the header replaced, as `copy_subscription` writes them. -/
def patchSubscription (bytes : Bytes) (subscription : RosterSubscription) : Bytes :=
  encodeSubscription subscription ++ bytes.drop 2

theorem encodeItem_patch (h : encodeItem item = .ok bytes) (subscription : RosterSubscription) :
    encodeItem { item with subscription := subscription } = .ok (patchSubscription bytes subscription) := by
  obtain ⟨hsize, hlen, name, groups, hname, hgroups, rfl⟩ := encodeItem_eq_ok.mp h
  exact encodeItem_eq_ok.mpr ⟨hsize, hlen, name, groups, hname, hgroups, rfl⟩

end Lonewolf.Roster

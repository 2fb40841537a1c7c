import Lonewolf.Xmpp.Rescoping

/-!
# The archive stage

`stages/archive.rs`: before a message is routed, the archive handlers of its local sender and recipient enter it in
one transaction, and the stanza gets the recipient's archive id. Ids that claim to be the recipient's are taken out.
What a handler selects and stores, and whether a write transaction can be begun and committed, is left open.
-/

namespace Lonewolf.Stages

open Texts Xmpp Decimals Transactions

inductive ArchiveDirection where
  | sent
  | received
deriving DecidableEq

structure ArchiveRequest (syn : JidSyntax) where
  owner : AccountKey syn
  direction : ArchiveDirection
  peer : Jid
  stanza : Stanza
  receivedAt : ℕ

inductive ArchiveOutcome where
  | archived (id : ℕ)
  | skipped
deriving DecidableEq

/-- A handler works on the tables of an open transaction. -/
structure ArchiveHandler (syn : JidSyntax) (σ ε : Type) where
  selects : ArchiveRequest syn → Bool
  archive : ArchiveRequest syn → σ → Except ε (ArchiveOutcome × σ)

/-- The handlers of the hosts, the clock, and how storage answers. -/
structure Stage (syn : JidSyntax) (σ ε : Type) where
  archiveHandler : Text → Option (ArchiveHandler syn σ ε)
  now : ℕ
  beginsWrite : Bool
  commits : Bool

structure StageFailure where
deriving DecidableEq

structure Archived where
  stanza : Stanza
  sent : Option ℕ
  received : Option ℕ
deriving DecidableEq

inductive ArchiveStep (ε : Type) where
  | accepted (archived : Archived)
  | rejected (stanza : Stanza) (error : ε)
deriving DecidableEq

def stanzaIdNamespace : Text := "urn:xmpp:sid:0".toList

def attributeOf (element : Element) (name ns : Text) : Option Text :=
  (element.data.attributes.find? (Attribute.matches name ns)).map Attribute.value

variable {syn : JidSyntax} {σ ε : Type}

/-- The handler of an owner with its request, when it selects the message. -/
def selected (handler : Option (ArchiveHandler syn σ ε)) (owner : Option (AccountKey syn))
    (direction : ArchiveDirection) (peer : Option Jid) (routed : Stanza) (now : ℕ) :
    Except StageFailure (Option (ArchiveHandler syn σ ε × ArchiveRequest syn)) :=
  match owner, handler with
  | some owner, some handler =>
    match peer with
    | some peer =>
      let request := ⟨owner, direction, peer, routed, now⟩
      .ok (if handler.selects request then some (handler, request) else none)
    | none => .error ⟨⟩
  | _, _ => .ok none

def archiveOne (request : Option (ArchiveHandler syn σ ε × ArchiveRequest syn)) (tables : σ) :
    Except ε (Option ℕ × σ) :=
  match request with
  | none => .ok (none, tables)
  | some (handler, request) =>
    match handler.archive request tables with
    | .ok (.archived id, tables) => .ok (some id, tables)
    | .ok (.skipped, tables) => .ok (none, tables)
    | .error error => .error error

def entries (sent received : Option (ArchiveHandler syn σ ε × ArchiveRequest syn)) (tables : σ) :
    Except ε (Option ℕ × Option ℕ × σ) := do
  let (sent, tables) ← archiveOne sent tables
  let (received, tables) ← archiveOne received tables
  return (sent, received, tables)

/-- The transaction: a failed or an empty one is dropped, and the tables are as before. -/
def Stage.commitEntries (stage : Stage syn σ ε) (sent received : Option (ArchiveHandler syn σ ε × ArchiveRequest syn))
    (tables : σ) : Except StageFailure (Except ε (Option ℕ × Option ℕ)) × σ :=
  if sent.isNone && received.isNone then (.ok (.ok (none, none)), tables)
  else if !stage.beginsWrite then (.error ⟨⟩, tables)
  else match entries sent received tables with
    | .error error => (.ok (.error error), tables)
    | .ok (sent, received, written) =>
      if sent.isSome || received.isSome then
        if stage.commits then (.ok (.ok (sent, received)), written) else (.error ⟨⟩, tables)
      else (.ok (.ok (none, none)), tables)

/-- A child that gives an id in the name of the recipient. -/
def spoofed (recipient : AccountKey syn) (child : Element) : Bool :=
  child.data.name == "stanza-id".toList && child.data.ns == stanzaIdNamespace &&
    attributeOf child "by".toList [] == some recipient.text

def stanzaId (recipient : AccountKey syn) (id : ℕ) : Except BuildError Element := do
  let builder ← ElementBuilder.new "stanza-id".toList stanzaIdNamespace
  let builder ← builder.withAttribute "id".toList [] (decimal id)
  let builder ← builder.withAttribute "by".toList [] recipient.text
  builder.build

/-- The stanza without the spoofed ids, and with the one that was given. -/
def stamp (recipient : AccountKey syn) (received : Option ℕ) (routed : Stanza) : Except BuildError Stanza := do
  let children ← received.toList.mapM (stanzaId recipient)
  let (builder, _) ← routed.toBuilderInFiltered (fun child => !spoofed recipient child) ⟨[]⟩
  (children.foldl StanzaBuilder.child builder).build

def restamp (recipient : Option (AccountKey syn)) (received : Option ℕ) (routed : Stanza) : Except BuildError Stanza :=
  match recipient with
  | some recipient =>
    if routed.children.any (spoofed recipient) || received.isSome then stamp recipient received routed
    else .ok routed
  | none => .ok routed

/-- The recipient, unless the message is to oneself. -/
def otherThan (sender recipient : Option (AccountKey syn)) : Option (AccountKey syn) :=
  recipient.filter fun recipient => some recipient ≠ sender

def Stage.handlerOf (stage : Stage syn σ ε) (owner : Option (AccountKey syn)) : Option (ArchiveHandler syn σ ε) :=
  owner.bind fun owner => stage.archiveHandler owner.domain

/-- The requests to the handlers of the sender and of a recipient other than the sender. -/
def Stage.requests (stage : Stage syn σ ε) (routed : Stanza) (sender recipient : Option (AccountKey syn)) :
    Except StageFailure (Option (ArchiveHandler syn σ ε × ArchiveRequest syn) ×
      Option (ArchiveHandler syn σ ε × ArchiveRequest syn)) :=
  match selected (stage.handlerOf sender) sender .sent routed.header.toJid routed stage.now,
    selected (stage.handlerOf recipient) recipient .received routed.header.fromJid routed stage.now with
  | .ok sent, .ok received => .ok (sent, received)
  | _, _ => .error ⟨⟩

/-- `archive`, with the tables it leaves. -/
def Stage.archive (stage : Stage syn σ ε) (tables : σ) (routed : Stanza)
    (sender recipient : Option (AccountKey syn)) : Except StageFailure (ArchiveStep ε) × σ :=
  if routed.header.stanzaType = .message .error then (.ok (.accepted ⟨routed, none, none⟩), tables)
  else
    let recipient := otherThan sender recipient
    if (stage.handlerOf sender).isNone && (stage.handlerOf recipient).isNone then
      (.ok (.accepted ⟨routed, none, none⟩), tables)
    else
      match stage.requests routed sender recipient with
      | .error failure => (.error failure, tables)
      | .ok (sent, received) =>
        match stage.commitEntries sent received tables with
        | (.ok (.ok (sent, received)), tables) =>
          match restamp (recipient.filter fun _ => (stage.handlerOf recipient).isSome) received routed with
          | .ok stanza => (.ok (.accepted ⟨stanza, sent, received⟩), tables)
          | .error _ => (.error ⟨⟩, tables)
        | (.ok (.error error), tables) => (.ok (.rejected routed error), tables)
        | (.error failure, tables) => (.error failure, tables)

/-! ### The stanza that is routed -/

/-- A copy of a child: the contexts of its prefixes apart, it is the child. -/
structure SameChild (copy child : Element) : Prop where
  data : ({ copy.data with namespaces := .empty } : ElementData) = { child.data with namespaces := .empty }
  children : copy.children.bare = child.children.bare

theorem SameChild.spoofed_eq {copy child : Element} (h : SameChild copy child) (recipient : AccountKey syn) :
    spoofed recipient copy = spoofed recipient child := by
  obtain ⟨hname, hns, -, hattributes⟩ := ElementData.mk.inj h.data
  simp only [spoofed, attributeOf, hname, hns, hattributes]

theorem sameChild_of_cloneChildren {keep : Element → Bool} {children : List Element} {arena : Arena}
    {copies : NamespaceCopies} {result : List Element × Arena × NamespaceCopies}
    (h : Stanza.cloneChildren keep children arena copies = .ok result) :
    List.Forall₂ SameChild result.1 (children.filter keep) := by
  induction children generalizing arena copies result with
  | nil =>
    cases h
    exact .nil
  | cons child rest ih =>
    simp only [Stanza.cloneChildren] at h
    split at h
    · next hkeep =>
      simp only [except_bind_eq_ok, except_pure_eq_ok] at h
      obtain ⟨copied, hcopied, built, hbuilt, tail, htail, rfl⟩ := h
      obtain ⟨-, hdata, hchildren⟩ := (child.toBuilder_yields arena copies).of_ok hcopied
      obtain ⟨-, rfl⟩ := build_eq_ok_iff.mp hbuilt
      rw [List.filter_cons_of_pos hkeep]
      exact .cons ⟨hdata, hchildren⟩ (ih htail)
    · next hkeep =>
      rw [List.filter_cons_of_neg (by simpa using hkeep)]
      exact ih h

theorem setAttribute_first {name value : Text} {attributes result : List Attribute}
    (hnew : attributes.findIdx? (Attribute.matches name []) = none)
    (h : setAttribute attributes name [] value = .ok result) : result = attributes ++ [⟨name, [], value⟩] := by
  simp only [setAttribute, hnew, except_bind_eq_ok, except_pure_eq_ok] at h
  obtain ⟨_, -, _, -, rfl⟩ := h
  rfl

variable {recipient : AccountKey syn}

theorem stanzaId_spec {id : ℕ} {element : Element} (h : stanzaId recipient id = .ok element) :
    spoofed recipient element = true ∧ attributeOf element "id".toList [] = some (decimal id) := by
  simp only [stanzaId, ElementBuilder.new, ElementBuilder.withAttribute, except_bind_eq_ok, except_pure_eq_ok] at h
  obtain ⟨builder, ⟨_, -, rfl⟩, _, ⟨first, hfirst, rfl⟩, _, ⟨second, hsecond, rfl⟩, hbuild⟩ := h
  obtain rfl := setAttribute_first rfl hfirst
  obtain rfl := setAttribute_first rfl hsecond
  obtain ⟨-, rfl⟩ := build_eq_ok_iff.mp hbuild
  simp [spoofed, attributeOf, ElementBuilder.withAttributes, Attribute.matches]

/-- What a recipient may rely on in a stanza that was routed for a message. -/
structure Unforged (recipient : AccountKey syn) (received : Option ℕ) (routed stanza : Stanza) : Prop where
  own : ∀ child ∈ stanza.children, spoofed recipient child → ∃ id, received = some id ∧
    attributeOf child "id".toList [] = some (decimal id)
  once : stanza.children.countP (spoofed recipient) ≤ 1
  kept : List.Forall₂ SameChild (stanza.children.filter fun child => !spoofed recipient child)
    (routed.children.filter fun child => !spoofed recipient child)

theorem unspoofed_copies {copies children : List Element}
    (h : List.Forall₂ SameChild copies children) (hclean : ∀ child ∈ children, spoofed recipient child = false) :
    ∀ copy ∈ copies, spoofed recipient copy = false := by
  induction h with
  | nil => simp
  | cons hsame _ ih =>
    rw [List.forall_mem_cons] at hclean ⊢
    exact ⟨hsame.spoofed_eq recipient ▸ hclean.1, ih hclean.2⟩

theorem children_foldl_child (added : List Element) (builder : StanzaBuilder) :
    (added.foldl StanzaBuilder.child builder).children = builder.children ++ added := by
  induction added generalizing builder with
  | nil => simp
  | cons element added ih => simp [ih, StanzaBuilder.child]

variable {routed stanza : Stanza}

theorem Unforged.of_children {received : Option ℕ} {copies added : List Element}
    (hsame : List.Forall₂ SameChild copies (routed.children.filter fun child => !spoofed recipient child))
    (hadded : received.toList.mapM (stanzaId recipient) = .ok added) (hchildren : stanza.children = copies ++ added) :
    Unforged recipient received routed stanza := by
  have hclean : ∀ copy ∈ copies, spoofed recipient copy = false :=
    unspoofed_copies hsame fun child hchild => by simpa using (List.mem_filter.mp hchild).2
  have hcount : copies.countP (spoofed recipient) = 0 := List.countP_eq_zero.mpr fun copy hcopy => by
    simp [hclean copy hcopy]
  have hfilter : (copies.filter fun child => !spoofed recipient child) = copies :=
    List.filter_eq_self.mpr fun copy hcopy => by simp [hclean copy hcopy]
  cases received with
  | none =>
    obtain rfl : [] = added := Except.ok.inj hadded
    rw [List.append_nil] at hchildren
    refine ⟨fun child hchild hspoofed => ?_, by simp [hchildren, hcount], by rw [hchildren, hfilter]; exact hsame⟩
    rw [hclean child (hchildren ▸ hchild)] at hspoofed
    cases hspoofed
  | some id =>
    simp only [Option.toList_some, List.mapM_cons, List.mapM_nil, except_bind_eq_ok, except_pure_eq_ok] at hadded
    obtain ⟨element, helement, _, rfl, rfl⟩ := hadded
    obtain ⟨hspoofed, hid⟩ := stanzaId_spec helement
    refine ⟨fun child hchild hchild' => ⟨id, rfl, ?_⟩, by simp [hchildren, hcount, hspoofed], ?_⟩
    · rw [hchildren, List.mem_append, List.mem_singleton] at hchild
      rcases hchild with hchild | rfl
      · rw [hclean child hchild] at hchild'
        cases hchild'
      · exact hid
    · rw [hchildren, List.filter_append, hfilter]
      simpa [hspoofed] using hsame

theorem unforged_stamp {received : Option ℕ}
    (h : stamp recipient received routed = .ok stanza) : Unforged recipient received routed stanza := by
  simp only [stamp, except_bind_eq_ok, StanzaBuilder.build, except_pure_eq_ok] at h
  obtain ⟨added, hadded, ⟨builder, arena⟩, hbuilder, _, -, rfl⟩ := h
  simp only [Stanza.toBuilderInFiltered, except_bind_eq_ok, except_pure_eq_ok] at hbuilder
  obtain ⟨_, -, copies, hcopies, hbuilder⟩ := hbuilder
  cases hbuilder
  exact .of_children (sameChild_of_cloneChildren hcopies) hadded (children_foldl_child added _)

theorem SameChild.refl (child : Element) : SameChild child child :=
  ⟨rfl, rfl⟩

theorem unforged_restamp {received : Option ℕ}
    (h : restamp (some recipient) received routed = .ok stanza) : Unforged recipient received routed stanza := by
  simp only [restamp] at h
  split at h
  · exact unforged_stamp h
  · next hnone =>
    -- nothing is spoofed and no id was given
    obtain ⟨hclean, hreceived⟩ := not_or.mp (by simpa only [Bool.or_eq_true] using hnone)
    cases h
    obtain rfl : received = none := by simpa using hreceived
    have hall : (routed.children.filter fun child => !spoofed recipient child) = routed.children :=
      List.filter_eq_self.mpr fun child hchild => by simpa using fun h => hclean (List.any_eq_true.mpr ⟨child, hchild, h⟩)
    refine Unforged.of_children ?_ rfl (List.append_nil routed.children).symm
    rw [hall]
    exact List.forall₂_same.mpr fun child _ => .refl child

/-! ### What is committed -/

variable {stage : Stage syn σ ε} {sent received : Option (ArchiveHandler syn σ ε × ArchiveRequest syn)}
  {tables committed : σ}

theorem commitEntries_atomic (stage : Stage syn σ ε)
    (sent received : Option (ArchiveHandler syn σ ε × ArchiveRequest syn)) (tables : σ) :
    (stage.commitEntries sent received tables).2 = tables ∨
      ∃ first second,
        entries sent received tables = .ok (first, second, (stage.commitEntries sent received tables).2) := by
  unfold Stage.commitEntries
  split
  · exact .inl rfl
  split
  · exact .inl rfl
  split
  · exact .inl rfl
  · next first second written hentries =>
    split
    · split
      · exact .inr ⟨first, second, hentries⟩
      · exact .inl rfl
    · exact .inl rfl

theorem archiveOne_eq_some {id : ℕ} (h : archiveOne received tables = .ok (some id, committed)) :
    ∃ handler request, received = some (handler, request) ∧
      handler.archive request tables = .ok (.archived id, committed) := by
  unfold archiveOne at h
  split at h
  · cases h
  · next handler request =>
    split at h
    · next harchive =>
      cases h
      exact ⟨handler, request, rfl, harchive⟩
    · cases h
    · cases h

theorem committed_of_received {first : Option ℕ} {id : ℕ}
    (h : stage.commitEntries sent received tables = (.ok (.ok (first, some id)), committed)) :
    ∃ handler request written, received = some (handler, request) ∧
      handler.archive request written = .ok (.archived id, committed) := by
  unfold Stage.commitEntries at h
  split at h
  · cases h
  split at h
  · cases h
  split at h
  · cases h
  · next sentId receivedId written hentries =>
    split at h
    · split at h
      · cases h
        simp only [entries, except_bind_eq_ok, except_pure_eq_ok] at hentries
        obtain ⟨⟨_, middle⟩, -, ⟨_, _⟩, hreceived, heq⟩ := hentries
        cases heq
        obtain ⟨handler, request, hrequest, harchive⟩ := archiveOne_eq_some hreceived
        exact ⟨handler, request, middle, hrequest, harchive⟩
      · cases h
    · cases h

variable {routed : Stanza}

theorem selected_eq_some {handler chosen : ArchiveHandler syn σ ε} {owner : AccountKey syn}
    {direction : ArchiveDirection} {peer : Option Jid} {now : ℕ} {request : ArchiveRequest syn}
    (h : selected (some handler) (some owner) direction peer routed now = .ok (some (chosen, request))) :
    chosen = handler ∧ ∃ peer, request = ⟨owner, direction, peer, routed, now⟩ := by
  simp only [selected] at h
  split at h
  · next peer =>
    split at h
    · cases h
      exact ⟨rfl, peer, rfl⟩
    · cases h
  · cases h

theorem selected_of_requests {handler chosen : ArchiveHandler syn σ ε} {sender : Option (AccountKey syn)}
    {owner : AccountKey syn} {request : ArchiveRequest syn} (hhandler : stage.handlerOf (some owner) = some handler)
    (h : stage.requests routed sender (some owner) = .ok (sent, some (chosen, request))) :
    chosen = handler ∧ ∃ peer, request = ⟨owner, .received, peer, routed, stage.now⟩ := by
  simp only [Stage.requests, hhandler] at h
  split at h
  · next hreceived =>
    cases h
    exact selected_eq_some hreceived
  · cases h

theorem archive_cases (stage : Stage syn σ ε) (tables : σ) (routed : Stanza)
    (sender recipient : Option (AccountKey syn)) :
    (stage.archive tables routed sender recipient = (.ok (.accepted ⟨routed, none, none⟩), tables) ∧
      (routed.header.stanzaType = .message .error ∨ stage.handlerOf (otherThan sender recipient) = none)) ∨
    (stage.archive tables routed sender recipient).2 = tables ∧
      (∀ a, (stage.archive tables routed sender recipient).1 ≠ .ok (.accepted a)) ∨
    ∃ sent received, stage.requests routed sender (otherThan sender recipient) = .ok (sent, received) ∧
      (stage.archive tables routed sender recipient).2 = (stage.commitEntries sent received tables).2 ∧
      ∀ a, (stage.archive tables routed sender recipient).1 = .ok (.accepted a) →
        (stage.commitEntries sent received tables).1 = .ok (.ok (a.sent, a.received)) ∧
        restamp ((otherThan sender recipient).filter fun _ =>
          (stage.handlerOf (otherThan sender recipient)).isSome) a.received routed = .ok a.stanza := by
  unfold Stage.archive
  split
  · exact .inl ⟨rfl, .inl ‹_›⟩
  dsimp only
  split
  · next hnone =>
    exact .inl ⟨rfl, .inr (Option.isNone_iff_eq_none.mp (Bool.and_eq_true_iff.mp hnone).2)⟩
  split
  · exact .inr (.inl ⟨rfl, by simp⟩)
  · next sent received hrequests =>
    refine .inr (.inr ⟨sent, received, hrequests, ?_⟩)
    split
    · next hcommit =>
      rw [hcommit]
      split
      · next hstamp =>
        refine ⟨rfl, fun a ha => ?_⟩
        cases ha
        exact ⟨rfl, hstamp⟩
      · exact ⟨rfl, by simp⟩
    · next hcommit =>
      rw [hcommit]
      exact ⟨rfl, by simp⟩
    · next hcommit =>
      rw [hcommit]
      exact ⟨rfl, by simp⟩

/-- Of a message for a recipient with an archive handler, error messages and messages to oneself apart, the
stanza that is routed carries an id in the recipient's name only if the handler gave it and it is committed,
at most one, and its other children are those of the message. The entries of sender and recipient are
committed together or not at all. -/
theorem archive_unforged (stage : Stage syn σ ε) (tables : σ) (routed : Stanza)
    (sender recipient : Option (AccountKey syn)) :
    (∀ a, (stage.archive tables routed sender recipient).1 = .ok (.accepted a) →
      routed.header.stanzaType = .message .error ∨ recipient = sender → a.stanza = routed) ∧
    (∀ a owner handler, (stage.archive tables routed sender recipient).1 = .ok (.accepted a) →
      routed.header.stanzaType ≠ .message .error → recipient = some owner → sender ≠ some owner →
      stage.archiveHandler owner.domain = some handler →
        Unforged owner a.received routed a.stanza ∧
        ∀ id, a.received = some id → ∃ peer written,
          handler.archive ⟨owner, .received, peer, routed, stage.now⟩ written =
            .ok (.archived id, (stage.archive tables routed sender recipient).2)) ∧
    ((stage.archive tables routed sender recipient).2 = tables ∨
      ∃ sent received first second,
        stage.requests routed sender (otherThan sender recipient) = .ok (sent, received) ∧
        entries sent received tables =
          .ok (first, second, (stage.archive tables routed sender recipient).2)) := by
  have hcases := archive_cases stage tables routed sender recipient
  refine ⟨fun a ha hunchanged => ?_, fun a owner handler ha herror hrecipient hsender hhandler => ?_, ?_⟩
  · rcases hcases with ⟨heq, -⟩ | ⟨-, hnot⟩ | ⟨sent, received, -, -, haccepted⟩
    · rw [heq] at ha
      cases ha
      rfl
    · exact absurd ha (hnot a)
    · rcases hunchanged with herror | rfl
      · rw [Stage.archive, if_pos herror] at ha
        cases ha
        rfl
      · have hself : otherThan recipient recipient = none := by
          cases recipient <;> simp [otherThan]
        have hstamp := (haccepted a ha).2
        rw [hself] at hstamp
        exact (Except.ok.inj hstamp).symm
  · have hother : otherThan sender recipient = some owner := by
      simpa [otherThan, hrecipient, Option.filter_eq_some_iff] using Ne.symm hsender
    have howner : stage.handlerOf (some owner) = some handler := hhandler
    rcases hcases with ⟨-, hnone⟩ | ⟨-, hnot⟩ | ⟨sent, received, hrequests, htables, haccepted⟩
    · rw [hother, howner] at hnone
      rcases hnone with hnone | hnone
      · exact absurd hnone herror
      · cases hnone
    · exact absurd ha (hnot a)
    · obtain ⟨hcommit, hstamp⟩ := haccepted a ha
      rw [hother, howner] at hstamp
      refine ⟨unforged_restamp hstamp, fun id hid => ?_⟩
      have hpair : stage.commitEntries sent received tables =
          (.ok (.ok (a.sent, some id)), (stage.archive tables routed sender recipient).2) :=
        Prod.ext (hid ▸ hcommit) htables.symm
      obtain ⟨chosen, request, written, rfl, harchive⟩ := committed_of_received hpair
      rw [hother] at hrequests
      obtain ⟨rfl, peer, rfl⟩ := selected_of_requests howner hrequests
      exact ⟨peer, written, harchive⟩
  · rcases hcases with ⟨heq, -⟩ | ⟨htables, -⟩ | ⟨sent, received, hrequests, htables, -⟩
    · exact .inl (congrArg Prod.snd heq)
    · exact .inl htables
    · rw [htables]
      refine (commitEntries_atomic stage sent received tables).imp_right ?_
      rintro ⟨first, second, hentries⟩
      exact ⟨sent, received, first, second, hrequests, hentries⟩

/-! ### Messages with a forged id -/

/-- Case does not matter in a JID. -/
def localhost : JidSyntax := ⟨fun text => some (text.map Char.toLower)⟩

def bob : AccountKey localhost :=
  ⟨⟨"bob@localhost".toList, by decide, by decide⟩, by decide, by decide⟩

def bobJid : Jid := ⟨bob.text, ⟨13, by decide⟩, some 3, none⟩

/-- Every host has a handler that archives everything under the id 7. -/
def archivingStage : Stage localhost Unit Empty :=
  ⟨fun _ => some ⟨fun _ => true, fun _ tables => .ok (.archived 7, tables)⟩, 0, true, true⟩

/-- A message from and to bob with an id, of the archive of `archive`, that the sender made up. -/
def forged (type : MessageType) (archive : Text) : Stanza :=
  ⟨⟨.message type, none, .client, some bobJid, some bobJid, none, none⟩, .empty, [],
    [⟨⟨"stanza-id".toList, stanzaIdNamespace, .empty,
      [⟨"id".toList, [], "forged".toList⟩, ⟨"by".toList, [], archive⟩]⟩, .nil⟩]⟩

theorem archive_unforged_replaced :
    ∃ stanza, (archivingStage.archive () (forged .chat bob.text) none (some bob)).1 =
        .ok (.accepted ⟨stanza, none, some 7⟩) ∧
      Unforged bob (some 7) (forged .chat bob.text) stanza ∧
      stanza.children.map (attributeOf · "id".toList []) = [some "7".toList] := by
  refine ⟨_, rfl, ?_, by decide⟩
  exact ((archive_unforged archivingStage () (forged .chat bob.text) none (some bob)).2.1 _ bob _ rfl (by decide) rfl
    (by simp) rfl).1

/-- An error message, a message to oneself, and one that spells the recipient in another way, is routed
with the forged id. -/
theorem forged_id_routed :
    (forged .error bob.text).children.all (spoofed bob) ∧
    (archivingStage.archive () (forged .error bob.text) none (some bob)).1 =
      .ok (.accepted ⟨forged .error bob.text, none, none⟩) ∧
    (forged .chat bob.text).children.all (spoofed bob) ∧
    (archivingStage.archive () (forged .chat bob.text) (some bob) (some bob)).1 =
      .ok (.accepted ⟨forged .chat bob.text, some 7, none⟩) ∧
    localhost.parse "BOB@localhost".toList = some bob.text ∧
    ∃ stanza, (archivingStage.archive () (forged .chat "BOB@localhost".toList) none (some bob)).1 =
        .ok (.accepted ⟨stanza, none, some 7⟩) ∧
      stanza.children.map (attributeOf · "id".toList []) = [some "forged".toList, some "7".toList] ∧
      stanza.children.map (attributeOf · "by".toList []) = [some "BOB@localhost".toList, some bob.text] := by
  exact ⟨by decide, rfl, by decide, rfl, by decide, _, rfl, by decide, by decide⟩

end Lonewolf.Stages

import Lonewolf.Roster.Forget
import Lonewolf.Roster.Ledger
import Lonewolf.Roster.Preservation

/-!
# One server

The operations on the rosters of one server, each a write transaction that is committed when it succeeds:
subscription stanzas of the server's users (`handle_subscription` in `c2s/stream/bound/mod.rs`) and of remote users
(`s2s/ingress/presence.rs`), roster sets, and the creation and deletion of accounts (`lonewolf-admin/src/api.rs`,
`account_deletion.rs`). The limits may change from one operation to the next, as after a restart; the hosts stay.
-/

namespace Lonewolf.Roster

open Texts Transactions Transitions

variable {syn : JidSyntax}

/-! ### Operations -/

section Operations

variable (site : Site) (limits : Limits)

/-- The stanza goes to the other server as it is, and nothing is written. -/
def routeRemote (sender : AccountKey syn) (target : RosterJid syn) (kind : SubscriptionKind) :
    HandlerTx (Option (List (Effect syn))) :=
  if site.hosts.federates sender.domain then return some [.routeRemote kind sender target]
  else throw (.stanza .remoteServerNotFound)

/-- `handle_subscription`: the sender's host has the first say, and the receiver's host goes on in the same
transaction. The result is absent when the transaction is dropped. `full` tells that the stanza was sent to
a resource, and `matched` that this resource is there. -/
def handleSubscription (sender : AccountKey syn) (target : RosterJid syn) (full matched : Bool)
    (kind : SubscriptionKind) (stored : Bytes) : HandlerTx (Option (List (Effect syn))) :=
  if site.mounted sender.domain then do
    match ← sendSubscription limits site.hosts sender target full kind with
    | .handled effects => return some effects
    | .continue' =>
      if !site.hosts.isLocalHost target.domain then routeRemote site sender target kind
      else if kind != .subscribe && full && !matched then return none
      else if site.mounted target.domain then
        return some (← receive limits site.hosts sender.jid target kind stored)
      else throw (.stanza .serviceUnavailable)
  else if site.hosts.isLocalHost target.domain then return none
  else routeRemote site sender target kind

/-- `subscription` of the ingress: a stanza from another server to an account here. -/
def receiveInbound (sender target : RosterJid syn) (kind : SubscriptionKind) (stored : Bytes) :
    HandlerTx (Option (List (Effect syn))) :=
  if site.hosts.isLocalHost target.domain && hasUsername target.text then
    if site.mounted target.domain then
      do return some (← receive limits site.hosts sender target kind stored)
    else throw (.stanza .serviceUnavailable)
  else return none

/-- A roster request of an account, answered by the account's host. -/
def onHost (owner : AccountKey syn) (request : HandlerTx (List (Effect syn))) :
    HandlerTx (Option (List (Effect syn))) :=
  if site.mounted owner.domain then do return some (← request)
  else throw (.stanza .serviceUnavailable)

variable (account : AccountKey syn)

/-- `delete_account`; an account that is not there is no error. -/
def eraseAccount : HandlerTx Unit :=
  Tx.write fun w => ((), { w with tables := { w.tables with accounts := w.tables.accounts.erase account.text } })

/-- `delete` of `account_deletion.rs`, as far as the rosters are concerned: the record is deleted first, and
the extension then forgets the account with a snapshot from before. -/
def deleteAccount : HandlerTx (Option (List (Effect syn))) := do
  let before ← Tx.read fun w => .ok w.committed
  eraseAccount account
  if site.mounted account.domain then
    let deliveries ← forgetAccount limits site.hosts before account
    return some (deliveries.run []).2
  else return some []

/-- `create`: an account that exists is not created again. -/
def createAccount (t : Tables) : Option Tables :=
  if account.text ∈ t.accounts then none else some { t with accounts := insert account.text t.accounts }

/-- What a transaction commits, and what is delivered then. -/
def committed (x : HandlerTx (Option (List (Effect syn)))) (t : Tables) : Option (Tables × List (Effect syn)) :=
  match x.run ⟨t, t⟩ with
  | (.ok (some effects), w) => some (w.tables, effects)
  | _ => none

end Operations

inductive Operation (syn : JidSyntax) where
  | presence (sender : AccountKey syn) (target : RosterJid syn) (full matched : Bool) (kind : SubscriptionKind)
      (stored : Bytes)
  | inbound (sender target : RosterJid syn) (kind : SubscriptionKind) (stored : Bytes)
  | set (owner : AccountKey syn) (jid : RosterJid syn) (name : Option Text) (groups : List Text)
  | remove (owner : AccountKey syn) (jid : RosterJid syn)
  | create (account : AccountKey syn)
  | delete (account : AccountKey syn)

namespace Operation

/-- The tables that an operation commits, if it does, and what it delivers. -/
def commit (site : Site) (limits : Limits) : Operation syn → Tables → Option (Tables × List (Effect syn))
  | presence sender target full matched kind stored =>
    committed (handleSubscription site limits sender target full matched kind stored)
  | inbound sender target kind stored => committed (receiveInbound site limits sender target kind stored)
  | set owner jid name groups => committed (onHost site owner (setItem limits owner jid name groups))
  | remove owner jid => committed (onHost site owner (removeContact limits site.hosts owner jid))
  | create account => fun t => (createAccount account t).map fun t' => (t', [])
  | delete account => committed (deleteAccount site limits account)

/-- A stanza comes in for a host that federates, and from a server that has proved its domain; that domain
is not one of ours. -/
def Admissible (site : Site) : Operation syn → Prop
  | inbound sender target _ _ =>
    site.hosts.federates target.domain = true ∧ site.hosts.isLocalHost sender.domain = false
  | _ => True

end Operation

/-- A server from empty roster tables on, with any accounts. -/
def server (syn : JidSyntax) (site : Site) : System Tables where
  init t := t.items = ∅ ∧ t.versions = ∅ ∧ t.pending = ∅
  step t t' := ∃ (limits : Limits) (op : Operation syn) (effects : List (Effect syn)),
    op.Admissible site ∧ op.commit site limits t = some (t', effects)

theorem committed_eq_some {x : HandlerTx (Option (List (Effect syn)))} {t t' : Tables} {effects : List (Effect syn)} :
    committed x t = some (t', effects) ↔ ∃ w, x.run ⟨t, t⟩ = (.ok (some effects), w) ∧ w.tables = t' := by
  unfold committed
  rcases x.run ⟨t, t⟩ with ⟨r, w⟩
  rcases r with e | (_ | effects')
  · simp
  · simp
  · simp [and_comm]

/-! ### What an operation does -/

section Carried

variable {site : Site} {limits : Limits} {w w' : Write} {effects : List (Effect syn)} {sender : AccountKey syn}
  {target : RosterJid syn} {full matched : Bool} {kind : SubscriptionKind} {stored : Bytes}

theorem run_routeRemote :
    (routeRemote site sender target kind).run w = (.ok (some effects), w') ↔
      site.hosts.federates sender.domain = true ∧ [.routeRemote kind sender target] = effects ∧ w = w' := by
  simp [routeRemote, Tx.run_ite_eq, Tx.run_pure_eq, Tx.run_throw_eq]

theorem run_handleSubscription (h : w.tables.WellFormed syn)
    (hrun : (handleSubscription site limits sender target full matched kind stored).run w = (.ok (some effects), w')) :
    site.mounted sender.domain = true ∧
        ((sendSubscription limits site.hosts sender target full kind).run w = (.ok (.handled effects), w') ∨
          site.mounted target.domain = true ∧
            (receive limits site.hosts sender.jid target kind stored).run w = (.ok effects, w')) ∨
      ¬ site.mounted sender.domain = true ∧ [.routeRemote kind sender target] = effects ∧ w = w' := by
  rw [handleSubscription, Tx.run_ite_eq] at hrun
  rcases hrun with ⟨hsender, hrun⟩ | ⟨hsender, hrun⟩
  · refine .inl ⟨hsender, ?_⟩
    simp only [Tx.run_bind_eq] at hrun
    obtain ⟨sent, w₁, hsend, hrun⟩ := hrun
    cases sent with
    | handled effects' =>
      obtain ⟨heq, rfl⟩ := Tx.run_pure_eq.mp hrun
      cases heq
      exact .inl hsend
    | continue' =>
      simp only [Tx.run_ite_eq, run_routeRemote, Tx.run_pure_eq, Tx.run_throw_eq, Tx.run_bind_eq, reduceCtorEq,
        false_and, and_false, false_or, or_false] at hrun
      rcases run_sendSubscription h hsend with ⟨_, _, hsend⟩ | ⟨_, heq, _⟩ | ⟨hstays, _, rfl⟩
      · obtain ⟨_, _, _, heq, _⟩ := run_sendRemoteSubscription h hsend
        cases heq
      · cases heq
      · -- The handler has settled what goes to another server from a host that federates.
        rcases hrun with ⟨hremote, hfederates, _⟩ | ⟨_, _, htarget, _, _, hreceive, heq, rfl⟩
        · exact absurd (Bool.and_eq_true_iff.mpr ⟨hfederates, hremote⟩) hstays
        · cases heq
          exact .inr ⟨htarget, hreceive⟩
  · simp only [Tx.run_ite_eq, run_routeRemote, Tx.run_pure_eq, reduceCtorEq, false_and, and_false, false_or] at hrun
    exact .inr ⟨hsender, hrun.2.2⟩

theorem run_receiveInbound {sender : RosterJid syn} (h : w.tables.WellFormed syn)
    (hadmissible : site.hosts.federates target.domain = true ∧ site.hosts.isLocalHost sender.domain = false)
    (hrun : (receiveInbound site limits sender target kind stored).run w = (.ok (some effects), w')) :
    site.mounted target.domain = true ∧ TakenIn w w' sender target kind stored effects := by
  simp only [receiveInbound, Tx.run_ite_eq, Tx.run_bind_eq, Tx.run_pure_eq, Tx.run_throw_eq, reduceCtorEq,
    false_and, and_false, or_false] at hrun
  obtain ⟨_, hmounted, _, _, hreceive, heq, rfl⟩ := hrun
  cases heq
  rw [receive, hadmissible.1, hadmissible.2] at hreceive
  exact ⟨hmounted, run_receiveRemote h hreceive⟩

theorem run_onHost {owner : AccountKey syn} {request : HandlerTx (List (Effect syn))}
    (hrun : (onHost site owner request).run w = (.ok (some effects), w')) :
    site.mounted owner.domain = true ∧ request.run w = (.ok effects, w') := by
  simp only [onHost, Tx.run_ite_eq, Tx.run_bind_eq, Tx.run_pure_eq, Tx.run_throw_eq, and_false, or_false] at hrun
  obtain ⟨hmounted, _, _, hrequest, heq, rfl⟩ := hrun
  cases heq
  exact ⟨hmounted, hrequest⟩

section

variable (site : Site) (w w' : Write) (effects : List (Effect syn))

/-- What the operations on rosters make of the book when they are carried out, and what they send to other
servers. -/
inductive Carried : Operation syn → Prop where
  | sendRemote {sender contact : AccountKey syn} {full matched kind stored : _}
      (hserves : site.Serves (w.book syn) sender)
      (hfederates : site.hosts.federates sender.domain = true)
      (hremote : site.hosts.isLocalHost contact.domain = false)
      (hleads : Leads w w' ((w.book syn).sendRemote sender contact.jid kind))
      (hout : outgoing effects =
        if (w.book syn).routes sender contact.jid kind then [⟨kind, sender, contact⟩] else []) :
      Carried (.presence sender contact.jid full matched kind stored)
  | sendLocal {sender target full matched kind stored : _} (hserves : site.Serves (w.book syn) sender)
      (hcases : granted ((w.book syn).sub sender target) = true ∨ (w.book syn).asked sender target = false)
      (hleads : Leads w w' ((w.book syn).sendLocal sender target kind)) (hout : outgoing effects = []) :
      Carried (.presence sender target full matched kind stored)
  | receiveLocal {sender contact : AccountKey syn} {full matched found kind stored : _}
      (hserves : site.Serves (w.book syn) sender)
      (htarget : site.mounted contact.domain = true)
      (hfound : found = true ↔ (w.book syn).hasAccount contact)
      (hleads : Leads w w' ((w.book syn).receiveLocal sender contact found stored kind))
      (hout : outgoing effects = []) :
      Carried (.presence sender contact.jid full matched kind stored)
  | route {sender : AccountKey syn} {target full matched kind stored : _}
      (hmounted : ¬ site.mounted sender.domain = true)
      (heffects : effects = [.routeRemote kind sender target]) (hsame : w' = w) :
      Carried (.presence sender target full matched kind stored)
  | ignore {sender target kind stored : _} (heffects : effects = []) (hsame : w' = w) :
      Carried (.inbound sender target kind stored)
  | receiveRemote {contact owner : AccountKey syn} {kind stored : _} (hserves : site.Serves (w.book syn) owner)
      (hfederates : site.hosts.federates owner.domain = true)
      (hremote : site.hosts.isLocalHost contact.domain = false)
      (hleads : Leads w w' ((w.book syn).receiveRemote owner contact.jid stored kind))
      (hout : outgoing effects =
        (((w.book syn).replies owner contact.jid kind).map (⟨·, owner, contact⟩)).toList) :
      Carried (.inbound contact.jid owner.jid kind stored)
  | set {owner jid name groups : _} {item : RosterItem syn} (hserves : site.Serves (w.book syn) owner)
      (hview : item.subscription = (w.book syn).view owner jid)
      (hleads : Leads w w' (((w.book syn).setItem owner jid (some item)).advance owner))
      (hout : outgoing effects = []) : Carried (.set owner jid name groups)
  | remove {owner jid : _} {removal : Removal syn} (hserves : site.Serves (w.book syn) owner)
      (heffects : effects = removalEffects site.hosts owner jid (storedLocalAccount site.hosts w.tables jid) removal)
      (hsome : ((w.book syn).item owner jid).isSome)
      (hview : removal.subscription = (w.book syn).view owner jid)
      (hasked : removal.pendingRequest = (w.book syn).asked owner jid)
      (hleads : Leads w w'
        ((w.book syn).removeContact owner jid (storedLocalAccount site.hosts w.tables jid))) :
      Carried (.remove owner jid)

end

theorem carried_presence (h : w.tables.WellFormed syn)
    (hrun : (handleSubscription site limits sender target full matched kind stored).run w = (.ok (some effects), w')) :
    Carried site w w' effects (.presence sender target full matched kind stored) ∧ Recorded w w' effects := by
  obtain ⟨hsender, hsend | ⟨htarget, hreceive⟩⟩ | ⟨hsender, rfl, rfl⟩ := run_handleSubscription h hrun
  · rcases run_sendSubscription h hsend with
      ⟨hfederates, hremote, hsend⟩ | ⟨_, heq, hhas, hout, hleads, hcases, hrecorded⟩ | ⟨_, heq, _⟩
    · obtain ⟨contact, _, hcontact, heq, hhas, hleads, hout, hrecorded⟩ := run_sendRemoteSubscription h hsend
      cases heq
      obtain rfl := AccountKey.ofRosterJid?_eq_some.mp hcontact
      exact ⟨.sendRemote ⟨hhas, hsender⟩ hfederates hremote hleads hout, hrecorded⟩
    · cases heq
      exact ⟨.sendLocal ⟨hhas, hsender⟩ hcases hleads hout, hrecorded⟩
    · cases heq
  · obtain ⟨contact, rfl, hhas, found, hfound, hleads, hout, hrecorded⟩ :=
      run_receiveLocal h (site.mounted_local _ hsender) hreceive
    exact ⟨.receiveLocal ⟨hhas, hsender⟩ htarget hfound hleads hout, hrecorded⟩
  · exact ⟨.route hsender rfl rfl, .unchanged rfl⟩

theorem carried_inbound {sender : RosterJid syn} (h : w.tables.WellFormed syn)
    (hadmissible : site.hosts.federates target.domain = true ∧ site.hosts.isLocalHost sender.domain = false)
    (hrun : (receiveInbound site limits sender target kind stored).run w = (.ok (some effects), w')) :
    Carried site w w' effects (.inbound sender target kind stored) ∧ Recorded w w' effects := by
  obtain ⟨hmounted, ⟨rfl, rfl, _⟩ | ⟨contact, owner, rfl, rfl, hhas, hleads, hout, hrecorded⟩⟩ :=
    run_receiveInbound h hadmissible hrun
  · exact ⟨.ignore rfl rfl, .unchanged rfl⟩
  · exact ⟨.receiveRemote ⟨hhas, hmounted⟩ hadmissible.1 hadmissible.2 hleads hout, hrecorded⟩

/-- An operation that commits is one on accounts, or has been carried out and announced. -/
theorem Operation.cases_of_commit {op : Operation syn} {t t' : Tables} (h : t.WellFormed syn)
    (hadmissible : op.Admissible site) (hcommit : op.commit site limits t = some (t', effects)) :
    (∃ X, op = .create X ∧ createAccount X t = some t' ∧ effects = []) ∨
      (∃ X w', op = .delete X ∧ (deleteAccount site limits X).run ⟨t, t⟩ = (.ok (some effects), w') ∧
        w'.tables = t') ∨
      ∃ w', w'.tables = t' ∧ Carried site ⟨t, t⟩ w' effects op ∧ Recorded ⟨t, t⟩ w' effects := by
  cases op with
  | presence sender target full matched kind stored =>
    obtain ⟨w, hrun, rfl⟩ := committed_eq_some.mp hcommit
    exact .inr (.inr ⟨w, rfl, carried_presence h hrun⟩)
  | inbound sender target kind stored =>
    obtain ⟨w, hrun, rfl⟩ := committed_eq_some.mp hcommit
    exact .inr (.inr ⟨w, rfl, carried_inbound h hadmissible hrun⟩)
  | set owner jid name groups =>
    obtain ⟨w, hrun, rfl⟩ := committed_eq_some.mp hcommit
    obtain ⟨hmounted, hset⟩ := run_onHost hrun
    obtain ⟨hhas, item, hview, hleads, hout, hrecorded⟩ := run_setItem h hset
    exact .inr (.inr ⟨w, rfl, .set ⟨hhas, hmounted⟩ hview hleads hout, hrecorded⟩)
  | remove owner jid =>
    obtain ⟨w, hrun, rfl⟩ := committed_eq_some.mp hcommit
    obtain ⟨hmounted, hremove⟩ := run_onHost hrun
    obtain ⟨hhas, removal, heffects, hsome, hview, hasked, hleads, hrecorded⟩ := run_removeContact h hremove
    exact .inr (.inr ⟨w, rfl, .remove ⟨hhas, hmounted⟩ heffects hsome hview hasked hleads, hrecorded⟩)
  | create account =>
    obtain ⟨t'', hcreate, heq⟩ := Option.map_eq_some_iff.mp hcommit
    cases heq
    exact .inl ⟨account, rfl, hcreate, rfl⟩
  | delete account =>
    obtain ⟨w, hrun, rfl⟩ := committed_eq_some.mp hcommit
    exact .inr (.inl ⟨account, w, rfl, hrun, rfl⟩)

end Carried

end Lonewolf.Roster

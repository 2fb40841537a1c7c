import Lonewolf.Base.Decimal
import Lonewolf.Roster.Versions

/-!
# Answers to a roster get

`get` of `roster/mod.rs` and `versioning.rs`: a client that presents the current version is answered with nothing.
What was issued under a version is compared with what is stored when a client presents it, over the whole history of
an account. The deletion of an account takes its counter away, so a version says something only about one life of the
account.
-/

namespace Lonewolf.Roster

open Texts Transactions Transitions Decimals

variable {syn : JidSyntax}

/-! ### The answer -/

inductive Answer where
  | full (stamped : Bool)
  | unchanged

/-- `known.parse::<u64>()`. -/
def parseVersion (known : Text) : Option Nat := readUnsigned wordSize known

def answer (known : Option Text) (snapshot : RosterSnapshot syn) : Answer :=
  match known with
  | none => .full false
  | some known => if parseVersion known = some snapshot.version then .unchanged else .full true

/-- The payload of `build_response`: the items and, for a client that asked for it, the version. -/
structure RosterResponse (syn : JidSyntax) where
  items : List (RosterItem syn)
  version : Option Nat
  deriving DecidableEq

/-- `get`, with the version that the client presents; an absent result is the empty answer. -/
def get (limits : Limits) (t : Tables) (owner : AccountKey syn) (known : Option Text) :
    Except HandlerError (Option (RosterResponse syn)) := do
  if known.any fun known => parseVersion known = some (t.rosterVersion owner) then return none
  let snapshot ← (t.roster owner (quota limits owner)).mapError
    (rosterQuotaError "roster_read" (quota limits owner))
  match answer known snapshot with
  | .full stamped => return some ⟨snapshot.items, if stamped then some snapshot.version else none⟩
  | .unchanged => return none

/-! ### The history of what is issued -/

/-- A version that may be issued to a client, in a push or in a result; `life` is the number of deletions of
the owner before it was committed or read. -/
structure Stamp (syn : JidSyntax) where
  owner : AccountKey syn
  version : Nat
  life : Nat
  deriving DecidableEq

/-- A version string was issued: the life it is from, and what was committed when it was issued. -/
structure Issue where
  life : Nat
  tables : Tables

/-- The committed tables with what has happened before: the deletions of each account, the versions that
have been pushed or read, and the last issue of each version string to each account. -/
structure History (syn : JidSyntax) where
  tables : Tables
  lives : AccountKey syn → Nat
  stamps : List (Stamp syn)
  issued : AccountKey syn → Text → Option Issue

def Operation.lives (lives : AccountKey syn → Nat) : Operation syn → AccountKey syn → Nat
  | .delete account => Function.update lives account (lives account + 1)
  | _ => lives

/-- The versions in the pushes of an operation. -/
def stampsOf (lives : AccountKey syn → Nat) (effects : List (Effect syn)) : List (Stamp syn) :=
  (pushes effects).map fun e => ⟨e.owner, e.version, lives e.owner⟩

def History.issue (s : History syn) (stamp : Stamp syn) : History syn :=
  { s with issued := fun o known =>
      if o = stamp.owner ∧ known = decimal stamp.version then some ⟨stamp.life, s.tables⟩ else s.issued o known }

/-- A push or a result goes to any number of sessions, and none when there are none, at any time after the
commit or the read. -/
inductive HistoryStep (site : Site) : History syn → History syn → Prop where
  | commit {s : History syn} {limits : Limits} {op : Operation syn} {t' : Tables} {effects : List (Effect syn)}
      (hadmissible : op.Admissible site) (hcommit : op.commit site limits s.tables = some (t', effects)) :
      HistoryStep site s ⟨t', op.lives s.lives, s.stamps ++ stampsOf s.lives effects, s.issued⟩
  | read {s : History syn} {limits : Limits} {owner : AccountKey syn} {known : Option Text}
      {items : List (RosterItem syn)} {version : Nat}
      (hget : get limits s.tables owner known = .ok (some ⟨items, some version⟩)) :
      HistoryStep site s { s with stamps := s.stamps ++ [⟨owner, version, s.lives owner⟩] }
  | issue {s : History syn} {stamp : Stamp syn} (hstamp : stamp ∈ s.stamps) : HistoryStep site s (s.issue stamp)

def history (syn : JidSyntax) (site : Site) : System (History syn) where
  init s := (server syn site).init s.tables ∧ s.lives = (fun _ => 0) ∧ s.stamps = [] ∧ s.issued = fun _ _ => none
  step := HistoryStep site

/-! ### What an answer says -/

section Get

variable {limits : Limits} {t : Tables} {owner : AccountKey syn}

theorem version_of_roster {quota : RosterQuota} {snapshot : RosterSnapshot syn}
    (h : t.roster owner quota = .ok snapshot) : snapshot.version = t.rosterVersion owner := by
  unfold Tables.roster at h
  obtain ⟨items, _, heq⟩ := except_bind_eq_ok.mp h
  cases heq
  rfl

theorem get_eq_ok {known : Option Text} {response : Option (RosterResponse syn)}
    (h : get limits t owner known = .ok response) :
    (known.bind parseVersion = some (t.rosterVersion owner) ∧ response = none) ∨
      (known.bind parseVersion ≠ some (t.rosterVersion owner) ∧
        ∃ items, response = some ⟨items, if known.isSome then some (t.rosterVersion owner) else none⟩) := by
  have hmatch : (known.any fun known => decide (parseVersion known = some (t.rosterVersion owner))) =
      decide (known.bind parseVersion = some (t.rosterVersion owner)) := by
    cases known <;> simp
  unfold get at h
  rw [hmatch] at h
  by_cases hcurrent : known.bind parseVersion = some (t.rosterVersion owner)
  · rw [if_pos (decide_eq_true hcurrent)] at h
    exact .inl ⟨hcurrent, (Except.ok.inj h).symm⟩
  · rw [if_neg (by rw [decide_eq_true_eq]; exact hcurrent)] at h
    obtain ⟨snapshot, hroster, h⟩ := except_bind_eq_ok.mp h
    have hversion : snapshot.version = t.rosterVersion owner := by
      cases hread : t.roster owner (quota limits owner) with
      | error => rw [hread] at hroster; cases hroster
      | ok snapshot' =>
        rw [hread] at hroster
        cases hroster
        exact version_of_roster hread
    refine .inr ⟨hcurrent, snapshot.items, ?_⟩
    have hanswer : answer known snapshot = .full known.isSome := by
      cases known with
      | none => rfl
      | some known =>
        refine if_neg ?_
        rw [hversion]
        exact hcurrent
    simp only [hanswer] at h
    rw [← hversion]
    exact (Except.ok.inj h).symm

end Get

/-! ### Versions in one life -/

theorem Operation.lives_eq {lives : AccountKey syn → Nat} {op : Operation syn} {o : AccountKey syn}
    (hop : op ≠ .delete o) : op.lives lives o = lives o := by
  cases op with
  | delete account => exact Function.update_of_ne (fun heq => hop (by rw [heq])) _ _
  | presence | inbound | set | remove | create => rfl

theorem Operation.le_lives (lives : AccountKey syn → Nat) (op : Operation syn) (o : AccountKey syn) :
    lives o ≤ op.lives lives o := by
  by_cases hop : op = .delete o
  · rw [hop, Operation.lives, Function.update_self]
    omega
  · rw [Operation.lives_eq hop]

theorem Operation.lives_delete (lives : AccountKey syn → Nat) (o : AccountKey syn) :
    (Operation.delete o).lives lives o = lives o + 1 := Function.update_self ..

theorem Operation.ne_delete_of_life {lives : AccountKey syn → Nat} {op : Operation syn} {o : AccountKey syn}
    {life : Nat} (hle : life ≤ lives o) (hlife : life = op.lives lives o) : op ≠ .delete o ∧ life = lives o := by
  have hop : op ≠ .delete o := by
    rintro rfl
    rw [Operation.lives_delete] at hlife
    omega
  rw [Operation.lives_eq hop] at hlife
  exact ⟨hop, hlife⟩

theorem Follows.version_le {o : AccountKey syn} {r r' : OwnRoster syn} {es : List (Edit syn)}
    (h : Follows o r es r') {e : Edit syn} (he : e ∈ es) : e.version ≤ r'.version := by
  have hmem : e.version ∈ List.range' (r.version + 1) es.length := by
    rw [← h.versions]
    exact List.mem_map_of_mem he
  have hle := (List.mem_range'_1.mp hmem).2
  rw [h.version_eq]
  omega

section Commit

variable {site : Site} {limits : Limits} {op : Operation syn} {t t' : Tables} {effects : List (Effect syn)}
  {o : AccountKey syn}

theorem rosterVersion_le (h : t.WellFormed syn) (hadmissible : op.Admissible site)
    (hcommit : op.commit site limits t = some (t', effects)) (hop : op ≠ .delete o) :
    t.rosterVersion o ≤ t'.rosterVersion o := by
  obtain ⟨es, _, hfollows, _, _⟩ := notified_of_commit h hadmissible hcommit hop
  have hversion : t'.rosterVersion o = t.rosterVersion o + es.length := hfollows.version_eq
  omega

theorem push_version_le (h : t.WellFormed syn) (hadmissible : op.Admissible site)
    (hcommit : op.commit site limits t = some (t', effects)) {e : Edit syn} (he : e ∈ pushes effects)
    (hop : op ≠ .delete e.owner) :
    e.version ≤ t'.rosterVersion e.owner := by
  obtain ⟨es, hidden, hfollows, hperm, _⟩ := notified_of_commit h hadmissible hcommit hop
  have hmem : e ∈ es := by
    rw [hperm.mem_iff, List.mem_append, pushesOf, List.mem_filter]
    exact .inl ⟨he, decide_eq_true rfl⟩
  exact hfollows.version_le hmem

end Commit

/-- A version of the current life is no later than the one stored; and since a string was issued in the
current life there have been no operations but such that count the versions up. -/
structure Stamped (site : Site) (s : History syn) : Prop where
  sound : Sound syn site s.tables
  stamps : ∀ stamp ∈ s.stamps, stamp.life ≤ s.lives stamp.owner ∧
    (stamp.life = s.lives stamp.owner → stamp.version ≤ s.tables.rosterVersion stamp.owner)
  issued : ∀ o known issue, s.issued o known = some issue → issue.life ≤ s.lives o ∧
    (issue.life = s.lives o → ∃ version effects, known = decimal version ∧
      version ≤ issue.tables.rosterVersion o ∧ Sound syn site issue.tables ∧
      Since site o issue.tables effects s.tables)

namespace Stamped

variable {site : Site} {s : History syn}

theorem commit (h : Stamped site s) {limits : Limits} {op : Operation syn} {t' : Tables} {effects : List (Effect syn)}
    (hadmissible : op.Admissible site) (hcommit : op.commit site limits s.tables = some (t', effects)) :
    Stamped site ⟨t', op.lives s.lives, s.stamps ++ stampsOf s.lives effects, s.issued⟩ where
  sound := sound_step h.sound ⟨limits, op, effects, hadmissible, hcommit⟩
  stamps := by
    intro stamp hmem
    rcases List.mem_append.mp hmem with hmem | hmem
    · obtain ⟨hle, hversion⟩ := h.stamps stamp hmem
      refine ⟨hle.trans (op.le_lives _ _), fun hlife => ?_⟩
      obtain ⟨hop, hlife⟩ := Operation.ne_delete_of_life hle hlife
      exact (hversion hlife).trans (rosterVersion_le h.sound.wellFormed hadmissible hcommit hop)
    · obtain ⟨e, he, rfl⟩ := List.mem_map.mp hmem
      refine ⟨op.le_lives _ _, fun hlife => ?_⟩
      obtain ⟨hop, _⟩ := Operation.ne_delete_of_life le_rfl hlife
      exact push_version_le h.sound.wellFormed hadmissible hcommit he hop
  issued := by
    intro o known issue hissued
    obtain ⟨hle, hsince⟩ := h.issued o known issue hissued
    refine ⟨hle.trans (op.le_lives _ _), fun hlife => ?_⟩
    obtain ⟨hop, hlife⟩ := Operation.ne_delete_of_life hle hlife
    obtain ⟨version, _, hknown, hversion, hsound, hrun⟩ := hsince hlife
    exact ⟨version, _, hknown, hversion, hsound, hrun.step hadmissible hcommit hop⟩

theorem read (h : Stamped site s) {limits : Limits} {owner : AccountKey syn} {known : Option Text}
    {items : List (RosterItem syn)} {version : Nat}
    (hget : get limits s.tables owner known = .ok (some ⟨items, some version⟩)) :
    Stamped site { s with stamps := s.stamps ++ [⟨owner, version, s.lives owner⟩] } where
  sound := h.sound
  stamps := by
    intro stamp hmem
    rcases List.mem_append.mp hmem with hmem | hmem
    · exact h.stamps stamp hmem
    · rw [List.mem_singleton.mp hmem]
      refine ⟨le_rfl, fun _ => ?_⟩
      rcases get_eq_ok hget with ⟨_, hnone⟩ | ⟨_, items', heq⟩
      · cases hnone
      · cases known with
        | none => cases heq
        | some known =>
          cases heq
          exact le_rfl
  issued := h.issued

theorem issue (h : Stamped site s) {stamp : Stamp syn} (hstamp : stamp ∈ s.stamps) :
    Stamped site (s.issue stamp) where
  sound := h.sound
  stamps := h.stamps
  issued := by
    intro o known issue hissued
    simp only [History.issue] at hissued
    split at hissued
    case isTrue hsame =>
      obtain ⟨rfl, rfl⟩ := hsame
      cases hissued
      obtain ⟨hle, hversion⟩ := h.stamps stamp hstamp
      exact ⟨hle, fun hlife => ⟨stamp.version, _, rfl, hversion hlife, h.sound, .refl⟩⟩
    case isFalse => exact h.issued o known issue hissued

theorem of_reachable (hs : (history syn site).Reachable s) : Stamped site s := by
  apply hs.invariant
  · rintro s ⟨hinit, _, hstamps, hissued⟩
    refine ⟨sound_init hinit, ?_, ?_⟩
    · rw [hstamps]
      exact fun _ hmem => absurd hmem List.not_mem_nil
    · intro o known issue
      rw [hissued]
      exact nofun
  · intro s s' _ h hstep
    cases hstep with
    | commit hadmissible hcommit => exact h.commit hadmissible hcommit
    | read hget => exact h.read hget
    | issue hstamp => exact h.issue hstamp

end Stamped

/-- **Truth of an empty answer.** A client that presents a version string and is answered with nothing: if
the account has not been deleted since what was last issued under this string was committed or read, then
the items are those that were committed when it was issued. -/
theorem unchanged_answer_truthful {site : Site} {s : History syn} (hs : (history syn site).Reachable s)
    {limits : Limits} {o : AccountKey syn} {known : Text} (hget : get limits s.tables o (some known) = .ok none)
    {issue : Issue} (hissued : s.issued o known = some issue) (hlife : issue.life = s.lives o) :
    (s.tables.book syn).item o = (issue.tables.book syn).item o := by
  obtain ⟨version, effects, rfl, hversion, hsound, hrun⟩ := ((Stamped.of_reachable hs).issued o known issue hissued).2 hlife
  have hcurrent : parseVersion (decimal version) = some (s.tables.rosterVersion o) := by
    rcases get_eq_ok hget with ⟨hcurrent, _⟩ | ⟨_, items, hsome⟩
    · exact hcurrent
    · cases hsome
  have heq : s.tables.rosterVersion o = version := eq_of_readUnsigned_decimal hcurrent
  -- the versions have not moved, so there was no change
  obtain ⟨es, _, hfollows, _, _⟩ := hrun.notified hsound
  have hcount : s.tables.rosterVersion o = issue.tables.rosterVersion o + es.length := hfollows.version_eq
  have hnil : es = [] := List.eq_nil_of_length_eq_zero (by omega)
  rw [hnil] at hfollows
  exact (congrArg OwnRoster.item hfollows.result).symm

/-! `alice` adds `bob` and hears of version 1; the account is deleted and created again, and a session that
has not asked for the roster adds `carol`. -/

def History.perform (s : History plainSyntax) (op : Operation plainSyntax) : History plainSyntax :=
  match op.commit sampleSite (fun _ => {}) s.tables with
  | some (t', effects) => ⟨t', op.lives s.lives, s.stamps ++ stampsOf s.lives effects, s.issued⟩
  | none => s

theorem reachable_perform {s : History plainSyntax} (hs : (history plainSyntax sampleSite).Reachable s)
    {op : Operation plainSyntax} (hadmissible : op.Admissible sampleSite) :
    (history plainSyntax sampleSite).Reachable (s.perform op) := by
  rw [History.perform]
  split
  case h_1 hcommit => exact hs.step (.commit hadmissible hcommit)
  case h_2 => exact hs

def addedBob : History plainSyntax :=
  History.perform ⟨{ accounts := {alice.text} }, fun _ => 0, [], fun _ _ => none⟩ (.set alice bob.jid none [])

def heardVersion : History plainSyntax := addedBob.issue ⟨alice, 1, 0⟩

theorem reachable_heardVersion : (history plainSyntax sampleSite).Reachable heardVersion := by
  have hadded : (history plainSyntax sampleSite).Reachable addedBob :=
    reachable_perform (.init ⟨⟨rfl, rfl, rfl⟩, rfl, rfl, rfl⟩) trivial
  refine hadded.step (.issue ?_)
  have hstamps : addedBob.stamps = [⟨alice, 1, 0⟩] := by decide +kernel
  rw [hstamps]
  exact List.mem_singleton_self _

theorem unchanged_answer_truthful_heardVersion :
    get (fun _ => {}) heardVersion.tables alice (some ['1']) = .ok none ∧
      (heardVersion.tables.book plainSyntax).item alice = (addedBob.tables.book plainSyntax).item alice := by
  have hget : get (fun _ => {}) heardVersion.tables alice (some ['1']) = .ok none := by decide +kernel
  have hissued : heardVersion.issued alice ['1'] = some ⟨0, addedBob.tables⟩ := rfl
  exact ⟨hget, unchanged_answer_truthful reachable_heardVersion hget hissued rfl⟩

def secondLife : History plainSyntax :=
  ((heardVersion.perform (.delete alice)).perform (.create alice)).perform (.set alice carol.jid none [])

/-- The counter starts again, so `alice`'s client, which has `bob` in its roster, is told that nothing has
changed. -/
theorem unchanged_answer_of_second_life :
    (history plainSyntax sampleSite).Reachable secondLife ∧
      get (fun _ => {}) secondLife.tables alice (some ['1']) = .ok none ∧
      ∃ issue, secondLife.issued alice ['1'] = some issue ∧
        (issue.tables.book plainSyntax).item alice bob.jid = some ⟨bob.jid, none, [], {}⟩ ∧
        (secondLife.tables.book plainSyntax).item alice bob.jid = none ∧
        (secondLife.tables.book plainSyntax).item alice carol.jid = some ⟨carol.jid, none, [], {}⟩ := by
  have hdeleted : (history plainSyntax sampleSite).Reachable (heardVersion.perform (.delete alice)) :=
    reachable_perform reachable_heardVersion trivial
  have hcreated : (history plainSyntax sampleSite).Reachable
      ((heardVersion.perform (.delete alice)).perform (.create alice)) := reachable_perform hdeleted trivial
  have hreachable : (history plainSyntax sampleSite).Reachable secondLife := reachable_perform hcreated trivial
  have hissued : secondLife.issued alice ['1'] = some ⟨0, addedBob.tables⟩ := rfl
  exact ⟨hreachable, by decide +kernel, _, hissued, by decide +kernel, by decide +kernel, by decide +kernel⟩

end Lonewolf.Roster

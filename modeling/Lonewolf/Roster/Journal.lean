import Lonewolf.Roster.Book
import Lonewolf.Roster.Subscription

/-!
# Item changes and their pushes

The changes of items that a transaction makes, in their order: each puts or removes one item of one owner and takes
the owner's version one further. What the handlers deliver is compared with them: a push tells one change, with the
version right after it, and a change that no push tells comes with the retirement of the owner's sessions.
-/

namespace Lonewolf.Roster

variable {syn : JidSyntax}

/-- The items and the versions of all owners. -/
@[ext] structure Rosters (syn : JidSyntax) where
  item : AccountKey syn → RosterJid syn → Option (RosterItem syn)
  version : AccountKey syn → Nat

def Book.rosters (b : Book syn) : Rosters syn := ⟨b.item, b.version⟩

/-- An item is put or, when it is absent, removed; the owner is then at the version. -/
structure Edit (syn : JidSyntax) where
  owner : AccountKey syn
  version : Nat
  jid : RosterJid syn
  item : Option (RosterItem syn)
  deriving DecidableEq

def Rosters.edit (r : Rosters syn) (e : Edit syn) : Rosters syn where
  item o j := if o = e.owner ∧ j = e.jid then e.item else r.item o j
  version o := if o = e.owner then r.version o + 1 else r.version o

/-- The rosters after some changes, each of them stamped with the version it led to. -/
inductive Journals : Rosters syn → List (Edit syn) → Rosters syn → Prop where
  | nil (r : Rosters syn) : Journals r [] r
  | cons {r r' : Rosters syn} {e : Edit syn} {es : List (Edit syn)}
      (hversion : e.version = r.version e.owner + 1) (h : Journals (r.edit e) es r') :
      Journals r (e :: es) r'

namespace Journals

variable {r r' r'' : Rosters syn} {es es' : List (Edit syn)}

theorem trans (h : Journals r es r') (h' : Journals r' es' r'') : Journals r (es ++ es') r'' := by
  induction h with
  | nil => exact h'
  | cons hversion _ ih => exact .cons hversion (ih h')

theorem of_eq (h : r' = r) : Journals r [] r' := by
  rw [h]
  exact .nil r

theorem single {owner : AccountKey syn} {jid : RosterJid syn} {item : Option (RosterItem syn)} :
    Journals r [⟨owner, r.version owner + 1, jid, item⟩] (r.edit ⟨owner, r.version owner + 1, jid, item⟩) :=
  .cons rfl (.nil _)

end Journals

/-! ### One owner -/

/-- The roster of one owner, as a client holds it. -/
@[ext] structure OwnRoster (syn : JidSyntax) where
  version : Nat
  item : RosterJid syn → Option (RosterItem syn)

def Rosters.own (r : Rosters syn) (o : AccountKey syn) : OwnRoster syn := ⟨r.version o, r.item o⟩

/-- A client applies a push: the item is as the push has it, and so is the version. -/
def OwnRoster.apply (r : OwnRoster syn) (e : Edit syn) : OwnRoster syn :=
  ⟨e.version, fun j => if j = e.jid then e.item else r.item j⟩

/-- One roster becomes another through some changes of its owner, which count the versions up one by one. -/
structure Follows (o : AccountKey syn) (r : OwnRoster syn) (es : List (Edit syn)) (r' : OwnRoster syn) :
    Prop where
  owner : ∀ e ∈ es, e.owner = o
  versions : es.map Edit.version = List.range' (r.version + 1) es.length
  result : es.foldl OwnRoster.apply r = r'

namespace Follows

variable {o : AccountKey syn} {r r' r'' : OwnRoster syn} {es es' : List (Edit syn)}

theorem nil (o : AccountKey syn) (r : OwnRoster syn) : Follows o r [] r :=
  ⟨fun _ hmem => absurd hmem List.not_mem_nil, rfl, rfl⟩

theorem cons {e : Edit syn} (howner : e.owner = o) (hversion : e.version = r.version + 1)
    (h : Follows o (r.apply e) es r') : Follows o r (e :: es) r' where
  owner := by
    intro e' hmem
    rcases List.mem_cons.mp hmem with heq | hmem
    · rw [heq, howner]
    · exact h.owner e' hmem
  versions := by
    rw [List.map_cons, h.versions, List.length_cons, List.range'_succ, hversion]
    show _ :: List.range' (e.version + 1) es.length = _
    rw [hversion]
  result := h.result

variable (h : Follows o r es r')
include h

theorem version_eq : r'.version = r.version + es.length := by
  have hversions := h.versions
  have hresult := h.result
  clear h
  induction es generalizing r with
  | nil =>
    rw [← hresult]
    rfl
  | cons e es ih =>
    rw [List.map_cons, List.length_cons, List.range'_succ, List.cons.injEq] at hversions
    obtain ⟨hversion, hversions⟩ := hversions
    rw [← hversion] at hversions
    have hrest : r'.version = (r.apply e).version + es.length := ih hversions hresult
    rw [hrest, List.length_cons]
    show e.version + es.length = _
    omega

theorem trans (h' : Follows o r' es' r'') : Follows o r (es ++ es') r'' where
  owner := List.forall_mem_append.mpr ⟨h.owner, h'.owner⟩
  versions := by
    rw [List.map_append, h.versions, h'.versions, h.version_eq, List.length_append, ← List.range'_append_1]
    congr 2
    omega
  result := by
    rw [List.foldl_append, h.result, h'.result]

theorem sorted : es.Pairwise fun e e' => e.version < e'.version := by
  have hsorted : (es.map Edit.version).Pairwise (· < ·) := by
    rw [h.versions]
    exact List.pairwise_lt_range' ..
  exact List.pairwise_map.mp hsorted

theorem of_perm (hperm : es'.Perm es) (hsorted : es'.Pairwise fun e e' => e.version < e'.version) :
    Follows o r es' r' := by
  have heq : es' = es := hperm.eq_of_pairwise (fun e e' _ _ hlt hgt => absurd hlt hgt.asymm) hsorted h.sorted
  rw [heq]
  exact h

end Follows

theorem Follows.once {o : AccountKey syn} {r r' : Rosters syn} {jid : RosterJid syn}
    (hversion : r'.version o = r.version o + 1) (hothers : ∀ j, j ≠ jid → r'.item o j = r.item o j) :
    Follows o (r.own o) [⟨o, r.version o + 1, jid, r'.item o jid⟩] (r'.own o) := by
  have hresult : r'.own o = (r.own o).apply ⟨o, r.version o + 1, jid, r'.item o jid⟩ := by
    ext1
    · exact hversion
    · funext j
      show r'.item o j = if j = jid then r'.item o jid else r.item o j
      split
      case isTrue hj => rw [hj]
      case isFalse hj => exact hothers j hj
  rw [hresult]
  exact .cons rfl rfl (.nil o _)

theorem Rosters.own_eq {o : AccountKey syn} {r r' : Rosters syn} (hversion : r'.version o = r.version o)
    (hitem : ∀ j, r'.item o j = r.item o j) : r'.own o = r.own o :=
  OwnRoster.ext hversion (funext hitem)

theorem Journals.own {r r' : Rosters syn} {es : List (Edit syn)} (h : Journals r es r') (o : AccountKey syn) :
    Follows o (r.own o) (es.filter fun e => e.owner = o) (r'.own o) := by
  induction h with
  | nil => exact .nil o _
  | @cons r r' e es hversion _ ih =>
    by_cases ho : e.owner = o
    · rw [List.filter_cons_of_pos (by simpa using ho)]
      refine .cons ho (by rw [hversion, ho]; rfl) ?_
      have hedit : (r.own o).apply e = (r.edit e).own o := by
        ext1
        · show e.version = if o = e.owner then r.version o + 1 else r.version o
          rw [if_pos ho.symm, hversion, ho]
        · funext j
          show (if j = e.jid then e.item else r.item o j) =
            if o = e.owner ∧ j = e.jid then e.item else r.item o j
          simp only [ho, true_and]
      rw [hedit]
      exact ih
    · rw [List.filter_cons_of_neg (by simpa using ho)]
      have hedit : (r.edit e).own o = r.own o := by
        have hne : ¬ o = e.owner := fun heq => ho heq.symm
        ext1
        · exact if_neg hne
        · funext j
          exact if_neg fun heq => hne heq.1
      rw [← hedit]
      exact ih

/-! ### Changes and pushes -/

/-- What a mutation says of the changes that were made. -/
inductive Reported (owner : AccountKey syn) : ItemMutation syn → List (Edit syn) → Prop where
  | none : Reported owner none []
  | push (mutation : RosterMutation (RosterItem syn)) :
      Reported owner (some (.push mutation)) [⟨owner, mutation.version, mutation.value.jid, some mutation.value⟩]
  | unavailable (version : Nat) (jid : RosterJid syn) (item : RosterItem syn) :
      Reported owner (some (.unavailable version)) [⟨owner, version, jid, some item⟩]

/-- The change that a delivery tells. -/
def editOf : Effect syn → Option (Edit syn)
  | .push owner mutation => some ⟨owner, mutation.version, mutation.value.jid, some mutation.value⟩
  | .pushRemoval owner contact version => some ⟨owner, version, contact, none⟩
  | _ => none

def pushes (effects : List (Effect syn)) : List (Edit syn) := effects.filterMap editOf

@[simp] theorem pushes_nil : pushes ([] : List (Effect syn)) = [] := rfl

@[simp] theorem pushes_append (effects effects' : List (Effect syn)) :
    pushes (effects ++ effects') = pushes effects ++ pushes effects' :=
  List.filterMap_append

theorem pushes_cons (effect : Effect syn) (effects : List (Effect syn)) :
    pushes (effect :: effects) = (editOf effect).toList ++ pushes effects := by
  unfold pushes
  cases h : editOf effect with
  | none => rw [List.filterMap_cons_none h]; rfl
  | some edit => rw [List.filterMap_cons_some h]; rfl

@[simp] theorem pushes_deliverIf (c : Bool) (effect : Effect syn) :
    pushes (deliverIf c effect) = if c then (editOf effect).toList else [] := by
  cases c with
  | false => rfl
  | true =>
    show pushes [effect] = _
    rw [pushes_cons, pushes_nil, List.append_nil, if_pos rfl]

@[simp] theorem pushes_retirements (changes : List (AccountKey syn × ItemMutation syn)) :
    pushes (retirements changes) = [] := by
  rw [pushes, List.filterMap_eq_nil_iff]
  intro effect heffect
  obtain ⟨owner, _, rfl⟩ := List.mem_map.mp heffect
  rfl

variable {changes : List (AccountKey syn × ItemMutation syn)}

theorem mem_retirements {owner : AccountKey syn} {version : Nat} (h : (owner, some (.unavailable version)) ∈ changes) :
    .retireInterested owner ∈ retirements changes := by
  apply List.mem_map.mpr
  refine ⟨owner, ?_, rfl⟩
  rw [List.mem_eraseDups, List.mem_filterMap]
  exact ⟨_, h, rfl⟩

def pushesOf (o : AccountKey syn) (effects : List (Effect syn)) : List (Edit syn) :=
  (pushes effects).filter fun e => e.owner = o

theorem pushesOf_append (o : AccountKey syn) (effects effects' : List (Effect syn)) :
    pushesOf o (effects ++ effects') = pushesOf o effects ++ pushesOf o effects' := by
  rw [pushesOf, pushes_append, List.filter_append]
  rfl

/-- Every change is pushed, or the owner's sessions are retired; nothing else is pushed. -/
def Announces (effects : List (Effect syn)) (es : List (Edit syn)) : Prop :=
  ∃ hidden, es.Perm (pushes effects ++ hidden) ∧ ∀ e ∈ hidden, .retireInterested e.owner ∈ effects

/-- The changes of some mutations are announced by deliveries that push each of them and retire the
sessions of those that cannot be pushed. -/
theorem announces_of_mutations {effects : List (Effect syn)} {ess : List (List (Edit syn))}
    (h : List.Forall₂ (fun change es => Reported change.1 change.2 es) changes ess)
    (hpushes : (pushes effects).Perm (changes.flatMap fun change => pushes (pushNow change.1 change.2)))
    (hretired : ∀ owner version, (owner, some (.unavailable version)) ∈ changes → .retireInterested owner ∈ effects) :
    Announces effects ess.flatten := by
  suffices hsplit : ∃ hidden, ess.flatten.Perm
      ((changes.flatMap fun change => pushes (pushNow change.1 change.2)) ++ hidden) ∧
        ∀ e ∈ hidden, .retireInterested e.owner ∈ effects by
    obtain ⟨hidden, hperm, hhidden⟩ := hsplit
    exact ⟨hidden, hperm.trans (hpushes.symm.append_right hidden), hhidden⟩
  clear hpushes
  induction h with
  | nil => exact ⟨[], .nil, fun _ hmem => by cases hmem⟩
  | @cons change es changes ess hreported _ ih =>
    obtain ⟨owner, mutation⟩ := change
    obtain ⟨hidden, hperm, hhidden⟩ := ih fun owner version hmem =>
      hretired owner version (List.mem_cons_of_mem _ hmem)
    rw [List.flatten_cons, List.flatMap_cons]
    cases hreported with
    | none => exact ⟨hidden, hperm, hhidden⟩
    | push mutation => exact ⟨hidden, hperm.cons _, hhidden⟩
    | unavailable version jid item =>
      refine ⟨⟨owner, version, jid, some item⟩ :: hidden, ?_, ?_⟩
      · exact (hperm.cons _).trans List.perm_middle.symm
      · intro e hmem
        rcases List.mem_cons.mp hmem with heq | hmem
        · rw [heq]
          exact hretired owner version List.mem_cons_self
        · exact hhidden e hmem

/-- The same for one owner: its roster becomes another through changes that are pushed, unless its sessions
are retired. -/
def Notified (o : AccountKey syn) (r : OwnRoster syn) (effects : List (Effect syn)) (r' : OwnRoster syn) : Prop :=
  ∃ es hidden, Follows o r es r' ∧ es.Perm (pushesOf o effects ++ hidden) ∧
    (hidden ≠ [] → .retireInterested o ∈ effects)

namespace Notified

variable {o : AccountKey syn} {r r' r'' : OwnRoster syn} {effects effects' : List (Effect syn)}

theorem of_eq (heq : r' = r) (hpushes : pushesOf o effects = []) : Notified o r effects r' := by
  rw [heq]
  refine ⟨[], [], .nil o r, ?_, fun hne => absurd rfl hne⟩
  rw [hpushes]
  exact .nil

theorem once {e : Edit syn} (h : Follows o r [e] r')
    (hpush : pushesOf o effects = [e] ∨ pushesOf o effects = [] ∧ .retireInterested o ∈ effects) :
    Notified o r effects r' := by
  rcases hpush with hpushes | ⟨hpushes, hretired⟩
  · refine ⟨[e], [], h, ?_, fun hne => absurd rfl hne⟩
    rw [hpushes]
    exact .refl [e]
  · refine ⟨[e], [e], h, ?_, fun _ => hretired⟩
    rw [hpushes]
    exact .refl [e]

theorem trans (h : Notified o r effects r') (h' : Notified o r' effects' r'') :
    Notified o r (effects ++ effects') r'' := by
  obtain ⟨es, hidden, hfollows, hperm, hhidden⟩ := h
  obtain ⟨es', hidden', hfollows', hperm', hhidden'⟩ := h'
  refine ⟨es ++ es', hidden ++ hidden', hfollows.trans hfollows', ?_, ?_⟩
  · rw [pushesOf_append]
    refine (hperm.append hperm').trans ?_
    rw [List.append_assoc, List.append_assoc]
    exact List.Perm.append_left _ (List.perm_append_comm_assoc ..)
  · intro hne
    rw [List.mem_append]
    by_cases hnil : hidden = []
    · right
      rw [hnil, List.nil_append] at hne
      exact hhidden' hne
    · exact .inl (hhidden hnil)

end Notified

theorem Journals.notified {r r' : Rosters syn} {es : List (Edit syn)} {effects : List (Effect syn)}
    (h : Journals r es r') (hannounced : Announces effects es) (o : AccountKey syn) :
    Notified o (r.own o) effects (r'.own o) := by
  obtain ⟨hidden, hperm, hhidden⟩ := hannounced
  refine ⟨_, hidden.filter fun e => e.owner = o, h.own o, ?_, ?_⟩
  · have hfiltered := hperm.filter fun e => e.owner = o
    rw [List.filter_append] at hfiltered
    exact hfiltered
  · intro hne
    obtain ⟨e, hmem⟩ := List.exists_mem_of_ne_nil _ hne
    obtain ⟨hmem, howner⟩ := List.mem_filter.mp hmem
    rw [← of_decide_eq_true howner]
    exact hhidden e hmem

end Lonewolf.Roster

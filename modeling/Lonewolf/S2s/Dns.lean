import Mathlib

/-!
# Answers of the DNS

`answer_records` of `s2s/dns/mod.rs`: the aliases of a name are followed through a message, and the records of the
name at the end are its answer. Names are compared as the library does it, by any `==`; classes and types of
records are their codes.
-/

namespace Lonewolf.S2s.Dns

inductive RData (Name Data : Type) where
  | cname (target : Name)
  | other (kind : Nat) (data : Data)

def RData.recordType {Name Data : Type} : RData Name Data → Nat
  | .cname _ => 5
  | .other kind _ => kind

structure Record (Name Data : Type) where
  name : Name
  dnsClass : Nat
  data : RData Name Data

inductive QueryError where
  | unavailable
  deriving DecidableEq

section

variable {Name Data : Type} [BEq Name]

def isIn (record : Record Name Data) : Bool := record.dnsClass == 1

/-- The closure of `find_map`. -/
def aliasOf (name : Name) (record : Record Name Data) : Option Name :=
  if record.name == name && isIn record then
    match record.data with
    | .cname target => some target
    | .other _ _ => none
  else none

def firstAlias (answers : List (Record Name Data)) (name : Name) : Option Name := answers.findSome? (aliasOf name)

def recordsOf (answers : List (Record Name Data)) (kind : Nat) (name : Name) : List (RData Name Data) :=
  (answers.filter fun record =>
    record.name == name && isIn record && record.data.recordType == kind).map Record.data

/-- The loop with the hops that are left. The names that are looked up come with the result. -/
def followAliases (answers : List (Record Name Data)) (kind : Nat) :
    Nat → List Name → Name → List Name × Except QueryError (List (RData Name Data))
  | 0, _, _ => ([], .error .unavailable)
  | hops + 1, visited, name =>
    if visited.any (· == name) then ([], .error .unavailable)
    else
      match firstAlias answers name with
      | some target =>
        let (names, result) := followAliases answers kind hops (visited ++ [name]) target
        (name :: names, result)
      | none => ([name], .ok (recordsOf answers kind name))

def answerRecords (answers : List (Record Name Data)) (query : Name) (kind : Nat) :
    List Name × Except QueryError (List (RData Name Data)) :=
  followAliases answers kind 9 [] query

/-! ### Chains of aliases -/

/-- The record is a CNAME of class IN that leads from the name to the target. -/
def Record.Leads (record : Record Name Data) (name target : Name) : Prop :=
  record.name == name ∧ record.dnsClass = 1 ∧ record.data = .cname target

/-- The first CNAME of the name leads to the target. -/
def FirstLeads (answers : List (Record Name Data)) (name target : Name) : Prop :=
  ∃ before record after, answers = before ++ record :: after ∧ record.Leads name target ∧
    ∀ earlier ∈ before, ∀ other, ¬ earlier.Leads name other

theorem aliasOf_eq_some {record : Record Name Data} {name target : Name} :
    aliasOf name record = some target ↔ record.Leads name target := by
  unfold aliasOf Record.Leads isIn
  cases record.data <;> simp [and_assoc]

theorem aliasOf_eq_none {record : Record Name Data} {name : Name} :
    aliasOf name record = none ↔ ∀ target, ¬ record.Leads name target := by
  simp only [Option.eq_none_iff_forall_ne_some, ne_eq, aliasOf_eq_some]

theorem firstAlias_eq_some {answers : List (Record Name Data)} {name target : Name} :
    firstAlias answers name = some target ↔ FirstLeads answers name target := by
  simp only [firstAlias, List.findSome?_eq_some_iff, aliasOf_eq_some, aliasOf_eq_none, FirstLeads]

theorem firstAlias_eq_none {answers : List (Record Name Data)} {name : Name} :
    firstAlias answers name = none ↔ ∀ record ∈ answers, ∀ target, ¬ record.Leads name target := by
  simp only [firstAlias, List.findSome?_eq_none_iff, aliasOf_eq_none]

/-- Each name is the first alias of the one before. -/
def Aliases (answers : List (Record Name Data)) (names : List Name) : Prop :=
  names.IsChain fun name target => firstAlias answers name = some target

def Distinct (names : List Name) : Prop := names.Pairwise fun name later => (name == later) = false

variable {answers : List (Record Name Data)} {kind hops : Nat} {visited : List Name} {name : Name}

theorem length_followAliases_le : (followAliases answers kind hops visited name).1.length ≤ hops := by
  fun_induction followAliases answers kind hops visited name with
  | case1 => exact Nat.le_refl 0
  | case2 => exact Nat.zero_le _
  | case3 _ _ _ _ _ _ _ _ heq ih =>
    rw [heq] at ih
    exact Nat.succ_le_succ ih
  | case4 => exact Nat.succ_le_succ (Nat.zero_le _)

theorem distinct_append (hvisited : Distinct visited) :
    Distinct (visited ++ [name]) ↔ visited.any (· == name) = false := by
  simp only [Distinct, List.pairwise_append, List.any_eq_false] at hvisited ⊢
  simp [hvisited]

/-- What the loop finds from a name on: the chain that ends within the hops, or one that comes back or goes on. -/
theorem followAliases_eq (hvisited : Distinct visited) :
    (∀ records, (followAliases answers kind hops visited name).2 = .ok records ↔
      ∃ rest last, Aliases answers (name :: rest) ∧ (name :: rest).getLast? = some last ∧
        firstAlias answers last = none ∧ Distinct (visited ++ name :: rest) ∧ rest.length < hops ∧
        records = recordsOf answers kind last) ∧
    ((followAliases answers kind hops visited name).2 = .error .unavailable ↔
      ∃ rest, Aliases answers (name :: rest) ∧
        (rest.length = hops ∨ ¬ Distinct (visited ++ name :: rest))) := by
  induction hops generalizing visited name with
  | zero => exact ⟨by simp [followAliases], by simpa [followAliases] using ⟨[], .singleton _, .inl rfl⟩⟩
  | succ hops ih =>
    rw [followAliases]
    by_cases hany : visited.any (· == name) = true
    · have hagain (rest : List Name) : ¬ Distinct (visited ++ name :: rest) := fun hdistinct => by
        have hfront : Distinct (visited ++ [name]) := hdistinct.sublist (by simp)
        rw [distinct_append hvisited, hany] at hfront
        cases hfront
      rw [if_pos hany]
      exact ⟨by simp [hagain], by simpa using ⟨[], .singleton _, .inr (hagain [])⟩⟩
    · have hnew : Distinct (visited ++ [name]) := (distinct_append hvisited).mpr (by simpa using hany)
      rw [if_neg hany]
      cases hfirst : firstAlias answers name with
      | none =>
        have hend {rest : List Name} (hchain : Aliases answers (name :: rest)) : rest = [] := by
          cases rest with
          | nil => rfl
          | cons next rest => cases hfirst.symm.trans (List.isChain_cons_cons.mp hchain).1
        refine ⟨fun records => ⟨fun hrecords => ?_, ?_⟩, nofun, ?_⟩
        · cases hrecords
          exact ⟨[], name, .singleton _, rfl, hfirst, hnew, Nat.succ_pos _, rfl⟩
        · rintro ⟨rest, last, hchain, hlast, -, -, -, rfl⟩
          obtain rfl := hend hchain
          cases hlast
          rfl
        · rintro ⟨rest, hchain, hlong | hagain⟩
          · obtain rfl := hend hchain
            cases hlong
          · obtain rfl := hend hchain
            exact absurd hnew hagain
      | some target =>
        obtain ⟨hok, herror⟩ := @ih (visited ++ [name]) target hnew
        simp only [← List.append_cons] at hok herror
        refine ⟨fun records => (hok records).trans ⟨?_, ?_⟩, herror.trans ⟨?_, ?_⟩⟩
        · rintro ⟨rest, last, hchain, hlast, hnone, hdistinct, hshort, hrecords⟩
          exact ⟨target :: rest, last, .cons_cons hfirst hchain, hlast, hnone, hdistinct,
            Nat.succ_lt_succ hshort, hrecords⟩
        · rintro ⟨_ | ⟨next, rest⟩, last, hchain, hlast, hnone, hdistinct, hshort, hrecords⟩
          · cases hlast
            cases hfirst.symm.trans hnone
          · obtain ⟨hstep, hchain⟩ := List.isChain_cons_cons.mp hchain
            cases hfirst.symm.trans hstep
            exact ⟨rest, last, hchain, hlast, hnone, hdistinct, Nat.lt_of_succ_lt_succ hshort, hrecords⟩
        · rintro ⟨rest, hchain, hreason⟩
          exact ⟨target :: rest, .cons_cons hfirst hchain, hreason.imp_left (congrArg Nat.succ)⟩
        · rintro ⟨_ | ⟨next, rest⟩, hchain, hreason⟩
          · exact absurd hnew (hreason.resolve_left (Nat.succ_ne_zero hops).symm)
          · obtain ⟨hstep, hchain⟩ := List.isChain_cons_cons.mp hchain
            cases hfirst.symm.trans hstep
            exact ⟨rest, hchain, hreason.imp_left Nat.succ.inj⟩

/-- Nine names at most are looked up. The answer is that of the last name of a chain of at most eight aliases with no
name twice, when there is one; there is none when the aliases come back to a name or there are more of them. -/
theorem answer_records_follow (answers : List (Record Name Data)) (query : Name) (kind : Nat) :
    (answerRecords answers query kind).1.length ≤ 9 ∧
      (∀ records, (answerRecords answers query kind).2 = .ok records ↔
        ∃ rest last, (query :: rest).IsChain (FirstLeads answers) ∧ (query :: rest).getLast? = some last ∧
          (∀ record ∈ answers, ∀ target, ¬ record.Leads last target) ∧ Distinct (query :: rest) ∧ rest.length ≤ 8 ∧
          records = (answers.filter fun record => record.name == last && record.dnsClass == 1 &&
            record.data.recordType == kind).map Record.data) ∧
      ((answerRecords answers query kind).2 = .error .unavailable ↔
        ∃ rest, (query :: rest).IsChain (FirstLeads answers) ∧ (rest.length = 9 ∨ ¬ Distinct (query :: rest))) := by
  obtain ⟨hok, herror⟩ := @followAliases_eq _ _ _ answers kind 9 [] query .nil
  simp only [Nat.lt_succ_iff, Aliases, firstAlias_eq_some, firstAlias_eq_none, List.nil_append] at hok herror
  exact ⟨length_followAliases_le, hok, herror⟩

end

/-- Two records of a name that has an alias, between records of another class, type or owner. -/
def aliasedAnswers : List (Record String Nat) :=
  [⟨"b", 3, .other 1 10⟩, ⟨"a", 1, .cname "b"⟩, ⟨"b", 1, .other 1 11⟩, ⟨"a", 1, .cname "c"⟩,
    ⟨"b", 1, .other 28 12⟩, ⟨"c", 1, .other 1 13⟩, ⟨"b", 1, .other 1 14⟩]

theorem answer_records_follow_aliased :
    ∃ rest, ("a" :: rest).IsChain (FirstLeads aliasedAnswers) ∧ rest.length ≤ 8 ∧
      (answerRecords aliasedAnswers "a" 1).2 = .ok [.other 1 11, .other 1 14] := by
  have hrecords : (answerRecords aliasedAnswers "a" 1).2 = .ok [.other 1 11, .other 1 14] := rfl
  obtain ⟨rest, last, hchain, -, -, -, hlength, -⟩ :=
    ((answer_records_follow aliasedAnswers "a" 1).2.1 _).mp hrecords
  exact ⟨rest, hchain, hlength, hrecords⟩

end Lonewolf.S2s.Dns

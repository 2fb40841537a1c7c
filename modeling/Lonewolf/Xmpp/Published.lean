import Lonewolf.Base.Transition
import Lonewolf.Xmpp.StoredAttributes

/-!
# Published slices

Any number of builders over one arena, and the slices that were finished. A builder is changed by its own
operations only, and a finished slice by nothing.
-/

namespace Lonewolf.Xmpp.Storage

open Texts Transitions

/-! ### Builders over one arena -/

structure State (α : Type) where
  arena : Arena α
  /-- A builder that was finished or dropped leaves its place empty. -/
  builders : List (Option SliceBuilder)
  published : List StoredSlice

inductive Label (ι : Type) where
  | create
  | derive (slice : Nat)
  | edit (builder : Nat) (operation : ι)
  | finish (builder : Nat)
  | drop (builder : Nat)
  /-- Memory comes and goes. -/
  | memory (available : Bool)
  /-- A string that is stored by something else. -/
  | store (text : Text)

def Label.target {ι : Type} : Label ι → Option Nat
  | .edit builder _ | .finish builder | .drop builder => some builder
  | _ => none

namespace State

variable {α ι : Type} (run : ι → Edit α Unit)

def builder? (s : State α) (index : Nat) : Option SliceBuilder := (s.builders[index]?).join

def add (s : State α) (builder : SliceBuilder) : State α := { s with builders := s.builders ++ [some builder] }

def step (s : State α) : Label ι → Option (State α)
  | .create => some (s.add .new)
  | .derive slice => (s.published[slice]?).map fun slice => s.add (.fromSlice slice)
  | .edit index operation =>
    (s.builder? index).map fun builder =>
      let (builder, arena) := ((run operation).run (builder, s.arena)).2
      { s with arena := arena, builders := s.builders.set index (some builder) }
  | .finish index =>
    (s.builder? index).map fun builder =>
      { s with builders := s.builders.set index none, published := s.published ++ [builder.finish] }
  | .drop index => (s.builder? index).map fun _ => { s with builders := s.builders.set index none }
  | .memory available => some { s with arena := { s.arena with available := available } }
  | .store text =>
    if s.arena.available then
      some { s with arena := { s.arena with strings := s.arena.strings ++ [text] } }
    else none

/-- An arena without slices. -/
def Initial (s : State α) : Prop := s.arena.slices = [] ∧ s.builders = [] ∧ s.published = []

def system : System (State α) where
  init := Initial
  step s t := ∃ label, s.step run label = some t

end State

/-! ### Invariant -/

variable {builder builder' : SliceBuilder} {result : Except Fault Unit}

section Invariant

variable {α ι : Type} {run : ι → Edit α Unit} {Good : Arena α → List α → Prop} {s t : State α}

/-- Operations of one kind, and what they keep of the values that are stored. -/
structure Operates (run : ι → Edit α Unit) (Good : Arena α → List α → Prop) : Prop where
  nil : ∀ arena, Good arena []
  later : ∀ (arena arena' : Arena α) {values}, arena'.identity = arena.identity → arena.strings <+: arena'.strings →
    Good arena values → Good arena' values
  run : ∀ {builder builder' arena arena' operation result}, builder.slice.Sound arena →
    Good arena (builder.slice.contents arena) → (run operation).run (builder, arena) = (result, builder', arena') →
    Extends builder arena builder' arena' ∧ Good arena' (builder'.slice.contents arena')

/-- The slice is stored, and so is what is in it. -/
structure StoredSlice.Holds (Good : Arena α → List α → Prop) (slice : StoredSlice) (arena : Arena α) : Prop where
  sound : slice.Sound arena
  good : Good arena (slice.contents arena)

/-- What a builder may write is read by no other builder and is in no slice that was finished. -/
structure Inv (Good : Arena α → List α → Prop) (s : State α) : Prop where
  builders : ∀ {index builder}, s.builder? index = some builder → builder.slice.Holds Good s.arena
  published : ∀ slice ∈ s.published, slice.Holds Good s.arena
  others : ∀ {index builder block}, s.builder? index = some builder → builder.own = some block →
    ∀ {other builder'}, other ≠ index → s.builder? other = some builder' → builder'.slice.block ≠ some block
  finished : ∀ {index builder block}, s.builder? index = some builder → builder.own = some block →
    ∀ slice ∈ s.published, slice.block ≠ some block

theorem builder?_set {index other : Nat} {builder : Option SliceBuilder} (h : index < s.builders.length) :
    (State.builder? { s with builders := s.builders.set index builder } other) =
      if other = index then builder else s.builder? other := by
  unfold State.builder?
  split
  next heq =>
    subst heq
    rw [List.getElem?_set_self h]
    rfl
  next hne => rw [List.getElem?_set_ne (Ne.symm hne)]

variable {index : Nat}

theorem lt_of_builder? {builder : SliceBuilder} (h : s.builder? index = some builder) : index < s.builders.length := by
  by_contra hge
  rw [State.builder?, List.getElem?_eq_none (Nat.not_lt.mp hge)] at h
  cases h

theorem builder?_add (h : (s.add builder).builder? index = some builder') :
    s.builder? index = some builder' ∨ (index = s.builders.length ∧ builder' = builder) := by
  unfold State.builder? State.add at h
  simp only at h
  rcases Nat.lt_trichotomy index s.builders.length with hlt | rfl | hgt
  · rw [List.getElem?_append_left hlt] at h
    exact .inl h
  · rw [List.getElem?_append_right le_rfl, Nat.sub_self] at h
    cases h
    exact .inr ⟨rfl, rfl⟩
  · rw [List.getElem?_eq_none (by simp; omega)] at h
    cases h

variable {slice : StoredSlice} {arena : Arena α}

theorem StoredSlice.Sound.block_lt {block : Nat} (h : slice.Sound arena)
    (hblock : slice.block = some block) : block < arena.slices.length := by
  obtain ⟨handle, hmem, rfl⟩ := Option.map_eq_some_iff.mp hblock
  exact (h.stored handle hmem).2.1

theorem block_of_own {builder : SliceBuilder} {block : Nat} (h : builder.own = some block) :
    builder.slice.block = some block := by
  obtain ⟨-, handle, hmem, rfl⟩ := own_eq_some.mp h
  exact Option.map_eq_some_iff.mpr ⟨handle, hmem, rfl⟩

theorem Extends.holds {arena arena' : Arena α}
    (hoperates : Operates run Good) (h : Extends builder arena builder' arena') (hslice : slice.Holds Good arena)
    (hown : ∀ block, builder.own = some block → slice.block ≠ some block) :
    slice.Holds Good arena' ∧ slice.contents arena' = slice.contents arena := by
  obtain ⟨hsound, hcontents⟩ := h.contents hslice.sound fun handle hmem heq =>
    hown handle.index heq (Option.map_eq_some_iff.mpr ⟨handle, hmem, rfl⟩)
  refine ⟨⟨hsound, ?_⟩, hcontents⟩
  rw [hcontents]
  exact hoperates.later arena arena' h.identity h.strings hslice.good

theorem inv_add {builder : SliceBuilder} (hinv : Inv Good s) (hholds : builder.slice.Holds Good s.arena)
    (hown : builder.own = none) (hapart : ∀ {index builder' block}, s.builder? index = some builder' →
      builder'.own = some block → builder.slice.block ≠ some block) : Inv Good (s.add builder) where
  builders h := by
    rcases builder?_add h with hold | ⟨-, rfl⟩
    · exact hinv.builders hold
    · exact hholds
  published := hinv.published
  others h hblock _ _ hne h' := by
    rcases builder?_add h with hold | ⟨-, rfl⟩
    · rcases builder?_add h' with hold' | ⟨-, rfl⟩
      · exact hinv.others hold hblock hne hold'
      · exact hapart hold hblock
    · rw [hown] at hblock
      cases hblock
  finished h hblock := by
    rcases builder?_add h with hold | ⟨-, rfl⟩
    · exact hinv.finished hold hblock
    · rw [hown] at hblock
      cases hblock

def State.edited (s : State α) (index : Nat) (builder : SliceBuilder) (arena : Arena α) : State α :=
  { s with arena := arena, builders := s.builders.set index (some builder) }

theorem step_edit {operation : ι} (h : s.builder? index = some builder)
    (hrun : (run operation).run (builder, s.arena) = (result, builder', arena)) :
    s.step run (.edit index operation) = some (s.edited index builder' arena) := by
  rw [State.step, h, Option.map_some, hrun]
  rfl

theorem builder?_edited {index other : Nat} {builder builder' found : SliceBuilder}
    (h : s.builder? index = some builder) (hfound : (s.edited index builder' arena).builder? other = some found) :
    (other = index ∧ found = builder') ∨ (other ≠ index ∧ s.builder? other = some found) := by
  have hset : (s.edited index builder' arena).builder? other =
      if other = index then some builder' else s.builder? other := builder?_set (lt_of_builder? h)
  by_cases heq : other = index
  · rw [if_pos heq] at hset
    exact .inl ⟨heq, (Option.some.inj (hset.symm.trans hfound)).symm⟩
  · rw [if_neg heq] at hset
    exact .inr ⟨heq, hset.symm.trans hfound⟩

theorem inv_edited {operation : ι} (hoperates : Operates run Good) (hinv : Inv Good s)
    (h : s.builder? index = some builder) (hrun : (run operation).run (builder, s.arena) = (result, builder', arena)) :
    Inv Good (s.edited index builder' arena) := by
  have hholds := hinv.builders h
  obtain ⟨hextends, hgood⟩ := hoperates.run hholds.sound hholds.good hrun
  have hother : ∀ {other found}, other ≠ index → s.builder? other = some found → found.slice.Holds Good arena := by
    intro other found hne hfound
    exact (hextends.holds hoperates (hinv.builders hfound) fun block hown =>
      hinv.others h hown hne hfound).1
  -- A block that the changed builder owns was its own already, or is new and nobody else's.
  have hnew : ∀ {block : Nat} {slice : StoredSlice}, builder'.own = some block → slice.Sound s.arena →
      (builder.own = some block → slice.block ≠ some block) → slice.block ≠ some block := by
    intro block slice hown hsound hapart heq
    exact hapart (hextends.own block (hsound.block_lt heq) hown) heq
  refine ⟨fun hfound => ?_, fun slice hmem => ?_, fun hfound hown other found hne hfound' => ?_,
    fun hfound hown slice hmem => ?_⟩
  · rcases builder?_edited h hfound with ⟨rfl, rfl⟩ | ⟨hindex, hold⟩
    · exact ⟨hextends.sound, hgood⟩
    · exact hother hindex hold
  · exact (hextends.holds hoperates (hinv.published slice hmem) fun block hown => hinv.finished h hown slice hmem).1
  · rcases builder?_edited h hfound with ⟨rfl, rfl⟩ | ⟨hindex, hold⟩
    · rcases builder?_edited h hfound' with ⟨rfl, -⟩ | ⟨-, hold'⟩
      · exact absurd rfl hne
      · exact hnew hown (hinv.builders hold').sound fun hown' => hinv.others h hown' hne hold'
    · rcases builder?_edited h hfound' with ⟨rfl, rfl⟩ | ⟨-, hold'⟩
      · intro heq
        have hlt := (hinv.builders hold).sound.block_lt (block_of_own hown)
        exact hinv.others hold hown hne h (hextends.block _ hlt heq)
      · exact hinv.others hold hown hne hold'
  · rcases builder?_edited h hfound with ⟨rfl, rfl⟩ | ⟨hindex, hold⟩
    · exact hnew hown (hinv.published slice hmem).sound fun hown' => hinv.finished h hown' slice hmem
    · exact hinv.finished hold hown slice hmem

def State.without (s : State α) (index : Nat) : State α := { s with builders := s.builders.set index none }

theorem builder?_without {index other : Nat} {builder found : SliceBuilder} (h : s.builder? index = some builder)
    (hfound : (s.without index).builder? other = some found) : other ≠ index ∧ s.builder? other = some found := by
  have hset : (s.without index).builder? other = if other = index then none else s.builder? other :=
    builder?_set (lt_of_builder? h)
  by_cases heq : other = index
  · rw [if_pos heq, hfound] at hset
    cases hset
  · rw [if_neg heq, hfound] at hset
    exact ⟨heq, hset.symm⟩

theorem inv_without {builder : SliceBuilder} (hinv : Inv Good s) (h : s.builder? index = some builder) :
    Inv Good (s.without index) where
  builders hfound := hinv.builders (builder?_without h hfound).2
  published := hinv.published
  others hfound hown _ _ hne hfound' :=
    hinv.others (builder?_without h hfound).2 hown hne (builder?_without h hfound').2
  finished hfound hown := hinv.finished (builder?_without h hfound).2 hown

theorem inv_finish {builder : SliceBuilder} (hinv : Inv Good s) (h : s.builder? index = some builder) :
    Inv Good { s.without index with published := s.published ++ [builder.finish] } := by
  have hinv' := inv_without hinv h
  refine ⟨hinv'.builders, List.forall_mem_append.mpr ⟨hinv.published, List.forall_mem_singleton.mpr (hinv.builders h)⟩,
    hinv'.others, fun {other found block} hfound hown => ?_⟩
  obtain ⟨hne, hfound'⟩ := builder?_without h hfound
  exact List.forall_mem_append.mpr
    ⟨hinv.finished hfound' hown, List.forall_mem_singleton.mpr (hinv.others hfound' hown hne.symm h)⟩

variable {label : Label ι}

section

variable (hoperates : Operates run Good)
include hoperates

theorem inv_arena {strings : List Text} {available : Bool} (hinv : Inv Good s) (hstrings : s.arena.strings <+: strings)
    : Inv Good { s with arena := { s.arena with strings := strings, available := available } } := by
  have hholds : ∀ {slice : StoredSlice}, slice.Holds Good s.arena →
      slice.Holds Good { s.arena with strings := strings, available := available } := by
    intro slice hslice
    exact ⟨⟨hslice.sound.stored, hslice.sound.empty⟩, hoperates.later s.arena _ rfl hstrings hslice.good⟩
  exact ⟨fun hfound => hholds (hinv.builders hfound), fun slice hmem => hholds (hinv.published slice hmem),
    hinv.others, hinv.finished⟩

theorem inv_step (hinv : Inv Good s) (h : s.step run label = some t) : Inv Good t := by
  cases label with
  | create =>
    cases h
    exact inv_add hinv ⟨⟨nofun, fun _ => rfl⟩, hoperates.nil _⟩ rfl fun _ _ => nofun
  | derive index =>
    obtain ⟨slice, hslice, rfl⟩ := Option.map_eq_some_iff.mp h
    have hmem := List.mem_of_getElem? hslice
    exact inv_add hinv (hinv.published slice hmem) rfl fun hfound hown => hinv.finished hfound hown slice hmem
  | edit index operation =>
    obtain ⟨builder, hbuilder, rfl⟩ := Option.map_eq_some_iff.mp h
    exact inv_edited hoperates hinv hbuilder rfl
  | finish index =>
    obtain ⟨builder, hbuilder, rfl⟩ := Option.map_eq_some_iff.mp h
    exact inv_finish hinv hbuilder
  | drop index =>
    obtain ⟨builder, hbuilder, rfl⟩ := Option.map_eq_some_iff.mp h
    exact inv_without hinv hbuilder
  | memory available =>
    cases h
    exact inv_arena hoperates hinv List.prefix_rfl
  | store text =>
    simp only [State.step] at h
    split at h
    · cases h
      exact inv_arena hoperates hinv (List.prefix_append _ _)
    · cases h

theorem inv_reachable (h : (State.system run).Reachable s) : Inv Good s := by
  refine h.invariant (fun s hinit => ?_) fun s t _ hinv hstep => ?_
  · obtain ⟨-, hbuilders, hpublished⟩ := hinit
    have hnone : ∀ {index builder}, s.builder? index ≠ some builder := by
      intro index builder hfound
      rw [State.builder?, hbuilders] at hfound
      cases hfound
    exact ⟨fun hfound => absurd hfound hnone, by simp [hpublished], fun hfound => absurd hfound hnone,
      fun hfound => absurd hfound hnone⟩
  · obtain ⟨label, hlabel⟩ := hstep
    exact inv_step hoperates hinv hlabel

end

/-! ### Runs -/

theorem holds_step (hoperates : Operates run Good) (hinv : Inv Good s)
    (h : s.step run label = some t) (hslice : slice.Holds Good s.arena)
    (hapart : ∀ {index builder block}, label.target = some index → s.builder? index = some builder →
      builder.own = some block → slice.block ≠ some block) :
    slice.contents t.arena = slice.contents s.arena ∧ t.arena.identity = s.arena.identity ∧
      s.arena.strings <+: t.arena.strings := by
  cases label with
  | create | memory =>
    cases h
    exact ⟨rfl, rfl, List.prefix_rfl⟩
  | derive | finish | drop =>
    obtain ⟨_, -, rfl⟩ := Option.map_eq_some_iff.mp h
    exact ⟨rfl, rfl, List.prefix_rfl⟩
  | edit index operation =>
    obtain ⟨builder, hbuilder, rfl⟩ := Option.map_eq_some_iff.mp h
    have hholds := hinv.builders hbuilder
    obtain ⟨hextends, -⟩ := hoperates.run hholds.sound hholds.good rfl
    exact ⟨(hextends.holds hoperates hslice fun block hown => hapart rfl hbuilder hown).2, hextends.identity,
      hextends.strings⟩
  | store text =>
    simp only [State.step] at h
    split at h
    · cases h
      exact ⟨rfl, rfl, List.prefix_append _ _⟩
    · cases h

theorem published_step (h : s.step run label = some t) (hmem : slice ∈ s.published) : slice ∈ t.published := by
  cases label with
  | create | memory =>
    cases h
    exact hmem
  | derive | edit | drop =>
    obtain ⟨_, -, rfl⟩ := Option.map_eq_some_iff.mp h
    exact hmem
  | finish index =>
    obtain ⟨_, -, rfl⟩ := Option.map_eq_some_iff.mp h
    exact List.mem_append_left _ hmem
  | store text =>
    simp only [State.step] at h
    split at h
    · cases h
      exact hmem
    · cases h

variable (hoperates : Operates run Good)
include hoperates

theorem slice_step (hinv : Inv Good s) (h : s.step run label = some t) (hmem : slice ∈ s.published) :
    slice.contents t.arena = slice.contents s.arena ∧ t.arena.identity = s.arena.identity ∧
      s.arena.strings <+: t.arena.strings :=
  holds_step hoperates hinv h (hinv.published slice hmem) fun _ hbuilder hown => hinv.finished hbuilder hown slice hmem

end Invariant

/-! ### Operations -/

/-- The operations of `SliceBuilder`. -/
inductive Operation (α : Type) where
  | push (value : α)
  | set (index : Nat) (value : α)
  | remove (index : Nat)
  | retain (keep : α → Option Bool)

namespace Operation

variable {α : Type}

def run : Operation α → Edit α Unit
  | push value => SliceBuilder.push value
  | set index value => SliceBuilder.set index value
  | remove index => SliceBuilder.remove index
  | retain keep => SliceBuilder.retain keep

def onList : Operation α → Except Fault Unit → List α → List α
  | push value, result, values => unlessFault result (values ++ [value]) values
  | set index value, result, values => unlessFault result (values.set index value) values
  | remove index, result, values => unlessFault result (values.eraseIdx index) values
  | retain keep, result, values => retained keep values result

/-- Why an operation on a list fails when there is memory. -/
def Refuses : Operation α → List α → Fault → Prop
  | push _, values, fault => fault = .capacityOverflow ∧ usizeLimit ≤ 2 * values.length
  | set index _, values, fault | remove index, values, fault => fault = .index ∧ values.length ≤ index
  | retain keep, values, fault => fault = .wrongArena ∧ ∃ value ∈ values, keep value = none

variable {operation : Operation α}

theorem changes {arena arena' : Arena α} (hsound : builder.slice.Sound arena)
    (h : operation.run.run (builder, arena) = (result, builder', arena')) :
    Changes builder arena builder' arena' (operation.onList result (builder.slice.contents arena)) ∧
      Fails result arena (operation.Refuses (builder.slice.contents arena)) := by
  cases operation with
  | push value =>
    have hspec := push_spec hsound h
    rwa [← hsound.length_contents] at hspec
  | set index value =>
    obtain ⟨hchanges, -, -, hfails⟩ := set_spec hsound h
    rw [← hsound.length_contents] at hfails
    exact ⟨hchanges, hfails⟩
  | remove index =>
    have hspec := remove_spec hsound h
    rwa [← hsound.length_contents] at hspec
  | retain keep => exact retain_spec hsound h

/-- The values that an operation stores have the property. -/
def Stores (P : α → Prop) : Operation α → Prop
  | push value | set _ value => P value
  | _ => True

theorem mem_onList {P : α → Prop} {values : List α} (hstores : operation.Stores P) (hvalues : ∀ value ∈ values, P value)
    : ∀ value ∈ operation.onList result values, P value := by
  intro value hmem
  cases operation with
  | push added =>
    cases result with
    | error fault => exact hvalues value hmem
    | ok _ =>
      exact List.forall_mem_append.mpr ⟨hvalues, List.forall_mem_singleton.mpr hstores⟩ value hmem
  | set index added =>
    cases result with
    | error fault => exact hvalues value hmem
    | ok _ =>
      rcases List.mem_or_eq_of_mem_set hmem with hmem | rfl
      · exact hvalues value hmem
      · exact hstores
  | remove index =>
    cases result with
    | error fault => exact hvalues value hmem
    | ok _ => exact hvalues value (List.mem_of_mem_eraseIdx hmem)
  | retain keep => exact hvalues value (mem_retained hmem)

theorem operates : Operates (run : Operation α → Edit α Unit) fun _ _ => True :=
  ⟨fun _ => trivial, fun _ _ _ _ _ _ => trivial, fun hsound _ hrun => ⟨(changes hsound hrun).1.extension, trivial⟩⟩

end Operation

theorem contents_step {α : Type} {P : α → Prop} {label : Label (Operation α)} {s t : State α}
    (hreach : (State.system Operation.run).Reachable s) (h : s.step Operation.run label = some t)
    (hlabel : ∀ index operation, label = .edit index operation → operation.Stores P)
    (hbuilders : ∀ {index builder}, s.builder? index = some builder → ∀ value ∈ builder.slice.contents s.arena, P value)
    (hpublished : ∀ slice ∈ s.published, ∀ value ∈ slice.contents s.arena, P value) :
    (∀ {index builder}, t.builder? index = some builder → ∀ value ∈ builder.slice.contents t.arena, P value) ∧
      ∀ slice ∈ t.published, ∀ value ∈ slice.contents t.arena, P value := by
  have hinv := inv_reachable Operation.operates hreach
  cases label with
  | create =>
    cases h
    refine ⟨fun hfound => ?_, hpublished⟩
    rcases builder?_add hfound with hold | ⟨-, rfl⟩
    · exact hbuilders hold
    · simp [StoredSlice.contents, SliceBuilder.new]
  | derive index =>
    obtain ⟨slice, hslice, rfl⟩ := Option.map_eq_some_iff.mp h
    refine ⟨fun hfound => ?_, hpublished⟩
    rcases builder?_add hfound with hold | ⟨-, rfl⟩
    · exact hbuilders hold
    · exact hpublished slice (List.mem_of_getElem? hslice)
  | edit index operation =>
    obtain ⟨builder, hbuilder, -⟩ := Option.map_eq_some_iff.mp h
    rcases hrun : operation.run.run (builder, s.arena) with ⟨result, builder', arena⟩
    have hchanges := (Operation.changes (hinv.builders hbuilder).sound hrun).1
    rw [step_edit hbuilder hrun] at h
    cases h
    refine ⟨fun hfound => ?_, fun slice hmem => ?_⟩
    · rcases builder?_edited hbuilder hfound with ⟨rfl, rfl⟩ | ⟨hne, hold⟩
      · intro value hmem
        exact Operation.mem_onList (hlabel _ operation rfl) (hbuilders hbuilder) value (hchanges.contents ▸ hmem)
      · have hsame := (hchanges.extension.holds Operation.operates (hinv.builders hold) fun block hown =>
          hinv.others hbuilder hown hne hold).2
        exact fun value hmem => hbuilders hold value (hsame ▸ hmem)
    · have hsame := (hchanges.extension.holds Operation.operates (hinv.published slice hmem) fun block hown =>
        hinv.finished hbuilder hown slice hmem).2
      exact fun value hmem' => hpublished slice hmem value (hsame ▸ hmem')
  | finish index =>
    obtain ⟨builder, hbuilder, rfl⟩ := Option.map_eq_some_iff.mp h
    exact ⟨fun hfound => hbuilders (builder?_without hbuilder hfound).2,
      List.forall_mem_append.mpr ⟨hpublished, List.forall_mem_singleton.mpr (hbuilders hbuilder)⟩⟩
  | drop index =>
    obtain ⟨builder, hbuilder, rfl⟩ := Option.map_eq_some_iff.mp h
    exact ⟨fun hfound => hbuilders (builder?_without hbuilder hfound).2, hpublished⟩
  | memory available =>
    cases h
    exact ⟨hbuilders, hpublished⟩
  | store text =>
    simp only [State.step] at h
    split at h
    · cases h
      exact ⟨hbuilders, hpublished⟩
    · cases h

/-- The operations of `AttributesBuilder`. -/
inductive AttributeOperation where
  | set (name ns value : Text)
  | remove (name ns : Text)
  | append (values : List Attribute)

namespace AttributeOperation

def run : AttributeOperation → Edit StoredAttribute Unit
  | set name ns value => AttributesBuilder.set name ns value
  | remove name ns => AttributesBuilder.remove name ns
  | append values => AttributesBuilder.appendFrom values

/-- The operation on lists of attributes. When it fails nothing changes, except that some of the attributes may
have been appended. -/
def Effect : AttributeOperation → Except Fault Unit → List Attribute → List Attribute → Prop
  | set name ns value, .ok _, before, after => setAttribute before name ns value = .ok after
  | remove name ns, .ok _, before, after => removeAttribute before name ns = after
  | append values, .ok _, before, after => appendAttributes before values = .ok after
  | append values, .error _, before, after => ∃ count, after = before ++ values.take count
  | _, .error _, before, after => after = before

theorem rewrites {operation : AttributeOperation} {arena arena' : Arena StoredAttribute} (h : Attributed builder arena)
    (hrun : operation.run.run (builder, arena) = (result, builder', arena')) :
    Rewrites builder arena builder' arena' ∧
      operation.Effect result (attributesOf builder arena) (attributesOf builder' arena') := by
  cases operation with
  | set name ns value =>
    have happlies := (setAttribute_leads h).of_run hrun
    refine ⟨happlies.rewrites, ?_⟩
    cases result with
    | ok _ => exact happlies.done rfl
    | error fault => exact happlies.failed fault rfl
  | remove name ns =>
    have happlies := (removeAttribute_leads h).of_run hrun
    refine ⟨happlies.rewrites, ?_⟩
    cases result with
    | ok _ => exact Except.ok.inj (happlies.done rfl)
    | error fault => exact happlies.failed fault rfl
  | append values =>
    have happends := (appendFrom_leads h).of_run hrun
    refine ⟨happends.rewrites, ?_⟩
    cases result with
    | ok _ => exact happends.done rfl
    | error fault => exact happends.failed fault rfl

end AttributeOperation

end Lonewolf.Xmpp.Storage

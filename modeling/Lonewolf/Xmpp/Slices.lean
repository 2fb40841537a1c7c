import Lonewolf.Xmpp.Storage

/-!
# What slice builders do

An operation on a builder writes only storage that is the builder's own, and changes the list that the builder
reads as the operation on lists does.
-/

namespace Lonewolf.Xmpp.Storage

open Texts Transactions Blocks

variable {α : Type}

/-! ### Storage of a builder -/

/-- The handle is of the arena, and its storage holds the slice. -/
structure StoredSlice.Sound (slice : StoredSlice) (arena : Arena α) : Prop where
  stored : ∀ handle ∈ slice.values, handle.identity = arena.identity ∧ handle.index < arena.slices.length ∧
    slice.len ≤ (arena.slices.read handle.index).length
  empty : slice.values = none → slice.len = 0

def StoredSlice.contents (slice : StoredSlice) (arena : Arena α) : List α :=
  (slice.values.elim [] fun handle => arena.slices.read handle.index).take slice.len

def StoredSlice.block (slice : StoredSlice) : Option Nat := slice.values.map (·.index)

/-- The block that the builder may write. -/
def SliceBuilder.own (builder : SliceBuilder) : Option Nat :=
  if builder.writable then builder.slice.block else none

/-- An operation took one builder and its arena to another: of the blocks there were, only the builder's own may
have changed, and the builder has the storage it had or storage that is new. -/
structure Extends (builder : SliceBuilder) (arena : Arena α) (builder' : SliceBuilder) (arena' : Arena α) : Prop where
  identity : arena'.identity = arena.identity
  available : arena'.available = arena.available
  strings : arena.strings <+: arena'.strings
  slices : arena.slices.length ≤ arena'.slices.length
  kept : ∀ block < arena.slices.length, builder.own ≠ some block →
    arena'.slices.read block = arena.slices.read block
  own : ∀ block < arena.slices.length, builder'.own = some block → builder.own = some block
  block : ∀ block < arena.slices.length, builder'.slice.block = some block → builder.slice.block = some block
  sound : builder'.slice.Sound arena'

section

variable {builder builder' builder'' : SliceBuilder} {arena arena' arena'' : Arena α} {slice : StoredSlice}

theorem StoredSlice.Sound.get (h : slice.Sound arena) : slice.get arena = .ok (slice.contents arena) := by
  obtain ⟨values, len⟩ := slice
  cases values with
  | none => simp [StoredSlice.get, StoredSlice.contents]
  | some handle =>
    obtain ⟨hidentity, -, hlen⟩ := h.stored handle rfl
    have hlen' : ¬(arena.slices.read handle.index).length < len := Nat.not_lt.mpr hlen
    simp [StoredSlice.get, Arena.get, hidentity, hlen', StoredSlice.contents, bind, Except.bind]

theorem StoredSlice.Sound.length_contents (h : slice.Sound arena) : (slice.contents arena).length = slice.len := by
  obtain ⟨values, len⟩ := slice
  cases values with
  | none =>
    have hzero : len = 0 := h.empty rfl
    simp [StoredSlice.contents, hzero]
  | some handle =>
    obtain ⟨-, -, hlen⟩ := h.stored handle rfl
    simpa [StoredSlice.contents] using hlen

theorem extends_len {len : Nat} (h : StoredSlice.Sound { builder.slice with len := len } arena) :
    Extends builder arena { builder with slice := { builder.slice with len := len } } arena :=
  ⟨rfl, rfl, List.prefix_rfl, le_rfl, fun _ _ _ => rfl, fun _ _ hown => hown, fun _ _ hblock => hblock, h⟩

theorem Extends.refl (h : builder.slice.Sound arena) : Extends builder arena builder arena := extends_len h

theorem Extends.trans (h : Extends builder arena builder' arena') (h' : Extends builder' arena' builder'' arena'') :
    Extends builder arena builder'' arena'' where
  identity := h'.identity.trans h.identity
  available := h'.available.trans h.available
  strings := h.strings.trans h'.strings
  slices := h.slices.trans h'.slices
  kept block hblock hown := by
    have hown' : builder'.own ≠ some block := fun heq => hown (h.own block hblock heq)
    rw [h'.kept block (hblock.trans_le h.slices) hown', h.kept block hblock hown]
  own block hblock hown := h.own block hblock (h'.own block (hblock.trans_le h.slices) hown)
  block block hblock heq := h.block block hblock (h'.block block (hblock.trans_le h.slices) heq)
  sound := h'.sound

theorem Extends.contents (h : Extends builder arena builder' arena') (hslice : slice.Sound arena)
    (hown : ∀ handle ∈ slice.values, builder.own ≠ some handle.index) :
    slice.Sound arena' ∧ slice.contents arena' = slice.contents arena := by
  have hread : ∀ handle ∈ slice.values,
      arena'.slices.read handle.index = arena.slices.read handle.index := fun handle hmem =>
    h.kept handle.index (hslice.stored handle hmem).2.1 (hown handle hmem)
  refine ⟨⟨fun handle hmem => ?_, hslice.empty⟩, ?_⟩
  · obtain ⟨hidentity, hlt, hlen⟩ := hslice.stored handle hmem
    refine ⟨hidentity.trans h.identity.symm, hlt.trans_le h.slices, ?_⟩
    rw [hread handle hmem]
    exact hlen
  · obtain ⟨values, len⟩ := slice
    cases values with
    | none => rfl
    | some handle =>
      simp only [StoredSlice.contents, Option.elim_some]
      rw [hread handle rfl]

end

/-! ### Reads and writes -/

section Steps

variable {builder builder' : SliceBuilder} {arena arena' : Arena α}

theorem own_eq_some {block : Nat} :
    builder.own = some block ↔ builder.writable = true ∧ ∃ handle ∈ builder.slice.values, handle.index = block := by
  unfold SliceBuilder.own StoredSlice.block
  split <;> simp_all

/-- The builder may write this storage. -/
structure Owns (builder : SliceBuilder) (handle : Handle) : Prop where
  values : builder.slice.values = some handle
  writable : builder.writable = true

variable {handle : Handle}

theorem Owns.own (h : Owns builder handle) : builder.own = some handle.index :=
  own_eq_some.mpr ⟨h.writable, handle, h.values, rfl⟩

theorem Owns.contents (h : Owns builder handle) :
    builder.slice.contents arena = (arena.slices.read handle.index).take builder.slice.len := by
  rw [StoredSlice.contents, h.values, Option.elim_some]

variable {result : Except Fault Unit}

theorem modify_spec {f : List α → Except Fault (List α)} (hsound : builder.slice.Sound arena)
    (hown : Owns builder handle) (hlength : ∀ block values, f block = .ok values → values.length = block.length)
    (h : (modify handle f).run (builder, arena) = (result, builder', arena')) :
    builder' = builder ∧ Extends builder arena builder arena' ∧
      (result = .ok () → ∃ values, f (arena.slices.read handle.index) = .ok values ∧
        arena'.slices.read handle.index = values) ∧
      (∀ fault, result = .error fault → arena' = arena ∧ f (arena.slices.read handle.index) = .error fault) := by
  obtain ⟨hidentity, hlt, hlen⟩ := hsound.stored handle hown.values
  have hget : arena.get handle = .ok (arena.slices.read handle.index) := by
    rw [Arena.get, if_neg (not_not.mpr hidentity)]
  have hrun : modify handle f (builder, arena) = (result, builder', arena') := h
  simp only [modify, hget] at hrun
  cases hf : f (arena.slices.read handle.index) with
  | error fault =>
    have hbind : (Except.ok (arena.slices.read handle.index) >>= f) = .error fault := hf
    rw [hbind] at hrun
    cases hrun
    exact ⟨rfl, .refl hsound, nofun, fun _ heq => ⟨rfl, by cases heq; rfl⟩⟩
  | ok values =>
    have hbind : (Except.ok (arena.slices.read handle.index) >>= f) = .ok values := hf
    rw [hbind] at hrun
    cases hrun
    have hread : (arena.slices.replace handle.index values).read handle.index = values :=
      Store.read_replace_self hlt
    refine ⟨rfl, ⟨rfl, rfl, List.prefix_rfl, ?_, fun block _ hne => ?_, fun _ _ heq => heq, fun _ _ heq => heq, ?_⟩,
      fun _ => ⟨values, rfl, hread⟩, nofun⟩
    · exact Store.length_replace.ge
    · refine Store.read_replace_of_ne fun heq => hne ?_
      rw [hown.own, heq]
    · refine ⟨fun other hother => ?_, hsound.empty⟩
      obtain rfl : handle = other := Option.some.inj (hown.values.symm.trans hother)
      refine ⟨hidentity, by rw [Store.length_replace]; exact hlt, ?_⟩
      rw [hread, hlength _ _ hf]
      exact hlen

variable {index : Nat} {value : α}

theorem write_spec (hsound : builder.slice.Sound arena) (hown : Owns builder handle)
    (h : (write handle index value).run (builder, arena) = (result, builder', arena')) :
    builder' = builder ∧ Extends builder arena builder arena' ∧
      (arena'.slices.read handle.index).length = (arena.slices.read handle.index).length ∧
      (result = .ok () → arena'.slices.read handle.index = (arena.slices.read handle.index).set index value) ∧
      (∀ fault, result = .error fault →
        arena' = arena ∧ (arena.slices.read handle.index).length ≤ index ∧ fault = .index) := by
  obtain ⟨rfl, hextends, hok, herror⟩ := modify_spec hsound hown (by
    intro block values hvalues
    split at hvalues
    · cases hvalues
      exact List.length_set
    · cases hvalues) h
  have hset : result = .ok () → arena'.slices.read handle.index = (arena.slices.read handle.index).set index value := by
    intro heq
    obtain ⟨values, hvalues, hread⟩ := hok heq
    split at hvalues
    · cases hvalues
      exact hread
    · cases hvalues
  have hfault : ∀ fault, result = .error fault →
      arena' = arena ∧ (arena.slices.read handle.index).length ≤ index ∧ fault = .index := by
    intro fault heq
    obtain ⟨hsame, hvalues⟩ := herror fault heq
    split at hvalues
    · cases hvalues
    next hnot =>
      cases hvalues
      exact ⟨hsame, Nat.not_lt.mp hnot, rfl⟩
  refine ⟨rfl, hextends, ?_, hset, hfault⟩
  cases result with
  | ok _ => rw [hset rfl, List.length_set]
  | error fault => rw [(hfault fault rfl).1]

/-- The values after an index move down by one. -/
theorem copyWithin_spec {len : Nat} (hsound : builder.slice.Sound arena) (hown : Owns builder handle)
    (hindex : index < len) (hlen : len ≤ (arena.slices.read handle.index).length)
    (h : (copyWithin handle (index + 1) len index).run (builder, arena) = (result, builder', arena')) :
    builder' = builder ∧ result = .ok () ∧ Extends builder arena builder arena' ∧
      (arena'.slices.read handle.index).length = (arena.slices.read handle.index).length ∧
      (arena'.slices.read handle.index).take (len - 1) = ((arena.slices.read handle.index).take len).eraseIdx index := by
  obtain ⟨rfl, hextends, hok, hfault⟩ := modify_spec hsound hown (by
    intro block values hvalues
    split at hvalues
    · cases hvalues
      simp only [List.length_append, List.length_take, List.length_drop]
      omega
    · cases hvalues) h
  cases result with
  | error fault =>
    have hvalues := (hfault fault rfl).2
    rw [if_pos (by omega)] at hvalues
    cases hvalues
  | ok _ =>
    obtain ⟨values, hvalues, hblock⟩ := hok rfl
    rw [if_pos (by omega)] at hvalues
    cases hvalues
    refine ⟨rfl, rfl, hextends, ?_, ?_⟩
    · rw [hblock]
      simp only [List.length_append, List.length_take, List.length_drop]
      omega
    · rw [hblock, List.eraseIdx_eq_take_drop_succ, List.take_take, Nat.min_eq_left (by omega), ← List.append_assoc,
        List.take_append_of_le_length, List.take_of_length_le]
      all_goals
        simp only [List.length_append, List.length_take, List.length_drop]
        omega

/-! ### New storage -/

def Arena.withBlock (arena : Arena α) (values : List α) : Arena α :=
  { arena with slices := arena.slices.alloc values }

theorem contents_withBlock {slice : StoredSlice} (h : slice.Sound arena) (values : List α) :
    slice.Sound (arena.withBlock values) ∧ slice.contents (arena.withBlock values) = slice.contents arena := by
  have hextends : Extends (.fromSlice slice) arena (.fromSlice slice) (arena.withBlock values) :=
    { identity := rfl
      available := rfl
      strings := List.prefix_rfl
      slices := by simp [Arena.withBlock]
      kept := fun block hblock _ => Store.read_alloc_of_lt hblock
      own := fun _ _ hown => hown
      block := fun _ _ hblock => hblock
      sound := by
        refine ⟨fun handle hmem => ?_, h.empty⟩
        obtain ⟨hidentity, hlt, hlen⟩ := h.stored handle hmem
        refine ⟨hidentity, ?_, ?_⟩
        · simp only [Arena.withBlock, Store.length_alloc]
          omega
        · rw [Arena.withBlock, Store.read_alloc_of_lt hlt]
          exact hlen }
  exact hextends.contents h fun handle _ => nofun

theorem at?_run (hsound : builder.slice.Sound arena) (index : Nat) :
    (SliceBuilder.at? index).run (builder, arena) =
      (((builder.slice.contents arena)[index]?).elim (.error .index) .ok, builder, arena) := by
  have hget : builder.asSlice arena = .ok (builder.slice.contents arena) := hsound.get
  show ((do
      let values ← builder.asSlice arena
      (values[index]?).elim (.error .index) .ok), builder, arena) = _
  rw [hget]
  rfl

variable {values : List α}

theorem write_withBlock (h : index < values.length) :
    (write ⟨arena.identity, arena.slices.length⟩ index value).run (builder, arena.withBlock values) =
      (.ok (), builder, arena.withBlock (values.set index value)) := by
  simp [Tx.run, write, modify, Arena.get, Arena.withBlock, h, bind, Except.bind]

variable {fill : α}

theorem copyValues_run {capacity count : Nat} (hsound : builder.slice.Sound arena) (hcount : count ≤ builder.slice.len)
    (hcapacity : builder.slice.len ≤ capacity) :
    (SliceBuilder.copyValues ⟨arena.identity, arena.slices.length⟩ count).run
        (builder, arena.withBlock (List.replicate capacity fill)) =
      (.ok (), builder, arena.withBlock
        ((builder.slice.contents arena).take count ++ List.replicate (capacity - count) fill)) := by
  induction count with
  | zero => simp [SliceBuilder.copyValues, Tx.run_pure_eq]
  | succ count ih =>
    have hlength := hsound.length_contents
    have hlt : count < (builder.slice.contents arena).length := by omega
    have hvalue : (builder.slice.contents arena)[count]? = some (builder.slice.contents arena)[count] :=
      List.getElem?_eq_getElem hlt
    have hset : ((builder.slice.contents arena).take count ++ List.replicate (capacity - count) fill).set count
        (builder.slice.contents arena)[count] =
        (builder.slice.contents arena).take (count + 1) ++ List.replicate (capacity - (count + 1)) fill := by
      obtain ⟨rest, hrest⟩ : ∃ rest, capacity - count = rest + 1 := ⟨capacity - count - 1, by omega⟩
      have hrest' : capacity - (count + 1) = rest := by omega
      have htake : ((builder.slice.contents arena).take count).length = count := by
        rw [List.length_take]
        omega
      rw [hrest, hrest', List.replicate_succ, List.set_append_right _ _ htake.le, htake, Nat.sub_self,
        List.set_cons_zero, List.take_succ_eq_append_getElem hlt, List.append_assoc]
      rfl
    obtain ⟨hsound', hcontents⟩ := contents_withBlock hsound
      ((builder.slice.contents arena).take count ++ List.replicate (capacity - count) fill)
    rw [SliceBuilder.copyValues, Tx.run_bind_of_ok (ih (by omega)), Tx.run_bind_of_ok (t := _) (a := _) ?_,
      write_withBlock, hset]
    · simp
      omega
    · rw [at?_run hsound', hcontents, hvalue]
      rfl

theorem capacity_cases (current len : Nat) :
    (SliceBuilder.capacity current len = .error .capacityOverflow ∧ current < len ∧ usizeLimit ≤ 2 * current) ∨
      ∃ capacity, SliceBuilder.capacity current len = .ok capacity ∧ len ≤ capacity := by
  unfold SliceBuilder.capacity
  split
  · split
    · exact .inl ⟨rfl, ‹_›, ‹_›⟩
    · exact .inr ⟨_, rfl, by omega⟩
  · exact .inr ⟨_, rfl, le_rfl⟩

/-- An operation fails when there is no memory, or for the reason that is given. -/
def Fails {β : Type} (result : Except Fault β) (arena : Arena α) (reason : Fault → Prop) : Prop :=
  ∀ fault, result = .error fault → (fault = .allocation ∧ arena.available = false) ∨ reason fault

theorem Fails.error {β γ : Type} {fault : Fault} {reason reason' : Fault → Prop}
    (h : Fails (.error fault : Except Fault β) arena reason) (himp : reason fault → reason' fault) :
    Fails (.error fault : Except Fault γ) arena reason' := fun _ heq =>
  Except.error.inj heq ▸ (h fault rfl).imp_right himp

/-- Storage for so many values is the builder's own, and the builder reads as before; or there was none to have. -/
structure Prepares (required : Nat) (builder : SliceBuilder) (arena : Arena α) (result : Except Fault Handle)
    (builder' : SliceBuilder) (arena' : Arena α) : Prop where
  extension : Extends builder arena builder' arena'
  len : builder'.slice.len = builder.slice.len
  contents : builder'.slice.contents arena' = builder.slice.contents arena
  owns : ∀ handle, result = .ok handle →
    Owns builder' handle ∧ required ≤ (arena'.slices.read handle.index).length
  fails : Fails result arena fun fault =>
    fault = .capacityOverflow ∧ builder.slice.len < required ∧ usizeLimit ≤ 2 * builder.slice.len

variable {required : Nat}

theorem prepares_of_error {fault : Fault} (hsound : builder.slice.Sound arena)
    (hfails : (fault = .allocation ∧ arena.available = false) ∨
      fault = .capacityOverflow ∧ builder.slice.len < required ∧ usizeLimit ≤ 2 * builder.slice.len) :
    Prepares required builder arena (.error fault) builder arena :=
  ⟨.refl hsound, rfl, rfl, nofun, fun _ heq => Except.error.inj heq ▸ hfails⟩

@[simp] theorem len_run : (SliceBuilder.len : Edit α Nat).run (builder, arena) =
    (.ok builder.slice.len, builder, arena) := rfl

theorem prepares_adopted (hlen : builder.slice.len ≤ required) (hroom : required ≤ values.length)
    (hvalues : values.take builder.slice.len = builder.slice.contents arena) :
    Prepares required builder arena (.ok ⟨arena.identity, arena.slices.length⟩)
      ⟨⟨some ⟨arena.identity, arena.slices.length⟩, builder.slice.len⟩, true⟩ (arena.withBlock values) where
  extension :=
    { identity := rfl
      available := rfl
      strings := List.prefix_rfl
      slices := by simp [Arena.withBlock]
      kept := fun block hblock _ => Store.read_alloc_of_lt hblock
      own := fun block hblock heq => by
        obtain rfl : arena.slices.length = block := Option.some.inj heq
        exact absurd hblock (Nat.lt_irrefl _)
      block := fun block hblock heq => by
        obtain rfl : arena.slices.length = block := Option.some.inj heq
        exact absurd hblock (Nat.lt_irrefl _)
      sound := by
        refine ⟨fun handle hmem => ?_, nofun⟩
        obtain rfl : ⟨arena.identity, arena.slices.length⟩ = handle := Option.some.inj hmem
        refine ⟨rfl, by simp [Arena.withBlock], ?_⟩
        simpa [Arena.withBlock] using hlen.trans hroom }
  len := rfl
  contents := by
    rw [← hvalues]
    simp [StoredSlice.contents, Arena.withBlock]
  owns handle heq := by
    obtain rfl : ⟨arena.identity, arena.slices.length⟩ = handle := Except.ok.inj heq
    exact ⟨⟨rfl, rfl⟩, by simpa [Arena.withBlock] using hroom⟩
  fails _ heq := nomatch heq

theorem copyOut_spec {result : Except Fault Handle} (hsound : builder.slice.Sound arena)
    (hlen : builder.slice.len ≤ required)
    (h : (SliceBuilder.copyOut required fill).run (builder, arena) = (result, builder', arena')) :
    Prepares required builder arena result builder' arena' := by
  rw [SliceBuilder.copyOut, Tx.run_bind_of_ok len_run] at h
  have hread : (Tx.read fun _ => SliceBuilder.capacity builder.slice.len required : Edit α Nat).run (builder, arena) =
      (SliceBuilder.capacity builder.slice.len required, builder, arena) := rfl
  rcases capacity_cases builder.slice.len required with ⟨hcapacity, hover⟩ | ⟨capacity, hcapacity, hroom⟩
  · rw [Tx.run_bind_of_error (hread.trans (congrArg (·, builder, arena) hcapacity))] at h
    cases h
    exact prepares_of_error hsound (.inr ⟨rfl, hover⟩)
  · rw [Tx.run_bind_of_ok (hread.trans (congrArg (·, builder, arena) hcapacity))] at h
    cases havailable : arena.available with
    | false =>
      have halloc : (tryAllocSliceFill capacity fill).run (builder, arena) = (.error .allocation, builder, arena) := by
        simp [Tx.run, tryAllocSliceFill, havailable]
      rw [Tx.run_bind_of_error halloc] at h
      cases h
      exact prepares_of_error hsound (.inl ⟨rfl, havailable⟩)
    | true =>
      have halloc : (tryAllocSliceFill capacity fill).run (builder, arena) =
          (.ok ⟨arena.identity, arena.slices.length⟩, builder,
            arena.withBlock (List.replicate capacity fill)) := by
        simp [Tx.run, tryAllocSliceFill, havailable, Arena.withBlock]
      rw [Tx.run_bind_of_ok halloc, Tx.run_bind_of_ok (copyValues_run hsound le_rfl (hlen.trans hroom))] at h
      cases h
      have hlength := hsound.length_contents
      refine prepares_adopted hlen ?_ ?_
      · rw [List.length_append, List.length_replicate, List.length_take, hlength]
        omega
      · rw [List.take_of_length_le hlength.le, List.take_append_of_le_length hlength.ge,
          List.take_of_length_le hlength.le]

theorem reusable_eq (hsound : builder.slice.Sound arena) (required : Nat) :
    ∃ reused, builder.reusable required arena = .ok reused ∧
      ∀ handle, reused = some handle → Owns builder handle ∧ required ≤ (arena.slices.read handle.index).length := by
  unfold SliceBuilder.reusable
  split
  · exact ⟨none, rfl, nofun⟩
  next handle hvalues =>
    split
    next hwritable =>
      obtain ⟨hidentity, -, -⟩ := hsound.stored handle hvalues
      rw [Arena.get, if_neg (not_not.mpr hidentity)]
      refine ⟨_, rfl, fun other heq => ?_⟩
      split at heq
      next hle =>
        cases heq
        exact ⟨⟨hvalues, hwritable⟩, hle⟩
      next => cases heq
    next => exact ⟨none, rfl, nofun⟩

theorem prepare_run {reused : Option Handle} (h : builder.reusable required arena = .ok reused) :
    (SliceBuilder.prepare required fill).run (builder, arena) =
      reused.elim ((SliceBuilder.copyOut required fill).run (builder, arena)) fun handle =>
        (.ok handle, builder, arena) := by
  rw [SliceBuilder.prepare, Tx.run_bind_of_ok (a := reused) (t := (builder, arena))]
  · cases reused <;> rfl
  · exact Tx.run_read_eq.mpr ⟨h, rfl⟩

theorem prepare_spec {result : Except Fault Handle} (hsound : builder.slice.Sound arena)
    (hlen : builder.slice.len ≤ required)
    (h : (SliceBuilder.prepare required fill).run (builder, arena) = (result, builder', arena')) :
    Prepares required builder arena result builder' arena' := by
  obtain ⟨reused, hreused, howns⟩ := reusable_eq hsound required
  rw [prepare_run hreused] at h
  cases reused with
  | none => exact copyOut_spec hsound hlen h
  | some handle =>
    cases h
    exact ⟨.refl hsound, rfl, rfl, fun other heq => by cases heq; exact howns handle rfl, nofun⟩

/-! ### Operations -/

theorem extends_setLen {len : Nat} (hsound : builder.slice.Sound arena)
    (hown : Owns builder handle) (hlen : len ≤ (arena.slices.read handle.index).length) :
    Extends builder arena { builder with slice := { builder.slice with len := len } } arena := by
  refine extends_len ⟨fun other hother => ?_, fun hnone => absurd (hown.values.symm.trans hnone) nofun⟩
  obtain rfl : handle = other := Option.some.inj (hown.values.symm.trans hother)
  exact ⟨(hsound.stored handle hown.values).1, (hsound.stored handle hown.values).2.1, hlen⟩

/-- What becomes of a builder: its storage, and the list that it reads. -/
structure Changes (builder : SliceBuilder) (arena : Arena α) (builder' : SliceBuilder) (arena' : Arena α)
    (values : List α) : Prop where
  extension : Extends builder arena builder' arena'
  contents : builder'.slice.contents arena' = values

theorem Prepares.changes {result : Except Fault Handle} (h : Prepares required builder arena result builder' arena') :
    Changes builder arena builder' arena' (builder.slice.contents arena) := ⟨h.extension, h.contents⟩

/-- A list that is changed unless the operation fails. -/
def unlessFault (result : Except Fault Unit) (changed values : List α) : List α :=
  match result with
  | .ok _ => changed
  | .error _ => values

section

variable (hsound : builder.slice.Sound arena)
include hsound

theorem push_spec (h : (SliceBuilder.push value).run (builder, arena) = (result, builder', arena')) :
    Changes builder arena builder' arena'
        (unlessFault result (builder.slice.contents arena ++ [value]) (builder.slice.contents arena)) ∧
      Fails result arena fun fault => fault = .capacityOverflow ∧ usizeLimit ≤ 2 * builder.slice.len := by
  rw [SliceBuilder.push, Tx.run_bind_of_ok len_run] at h
  by_cases hlimit : usizeLimit ≤ builder.slice.len + 1
  · rw [if_pos hlimit] at h
    cases h
    refine ⟨⟨.refl hsound, rfl⟩, fun _ heq => .inr ⟨(Except.error.inj heq).symm, ?_⟩⟩
    unfold usizeLimit at hlimit ⊢
    omega
  rw [if_neg hlimit] at h
  have hread : (Tx.read fun _ => .ok () : Edit α Unit).run (builder, arena) = (.ok (), builder, arena) := rfl
  rw [Tx.run_bind_of_ok hread] at h
  rcases hprepare : (SliceBuilder.prepare (builder.slice.len + 1) value).run (builder, arena) with
    ⟨prepared, first, second⟩
  have hspec := prepare_spec hsound (Nat.le_succ _) hprepare
  cases prepared with
  | error fault =>
    rw [Tx.run_bind_of_error hprepare] at h
    cases h
    exact ⟨hspec.changes, hspec.fails.error fun hover => ⟨hover.1, hover.2.2⟩⟩
  | ok handle =>
    obtain ⟨hown, hroom⟩ := hspec.owns handle rfl
    rw [Tx.run_bind_of_ok hprepare] at h
    rcases hwrite : (write handle builder.slice.len value).run (first, second) with ⟨written, third, fourth⟩
    obtain ⟨rfl, hextends, hlength, hset, hfault⟩ := write_spec hspec.extension.sound hown hwrite
    cases written with
    | error fault => exact absurd (hfault fault rfl).2.1 (by omega)
    | ok _ =>
      have hroom' : builder.slice.len + 1 ≤ (fourth.slices.read handle.index).length := hlength ▸ hroom
      rw [Tx.run_bind_of_ok hwrite] at h
      cases h
      refine ⟨⟨(hspec.extension.trans hextends).trans (extends_setLen hextends.sound hown hroom'), ?_⟩, nofun⟩
      rw [unlessFault, ← hspec.contents, hown.contents, hspec.len]
      simp only [StoredSlice.contents, hown.values, Option.elim_some, hset rfl]
      rw [List.take_succ_eq_append_getElem (by rw [List.length_set]; omega), List.getElem_set_self,
        List.take_set_of_le le_rfl]

theorem set_spec (h : (SliceBuilder.set index value).run (builder, arena) = (result, builder', arena')) :
    Changes builder arena builder' arena'
        (unlessFault result ((builder.slice.contents arena).set index value) (builder.slice.contents arena)) ∧
      builder'.slice.len = builder.slice.len ∧ (result = .ok () → ∃ handle, Owns builder' handle) ∧
      Fails result arena fun fault => fault = .index ∧ builder.slice.len ≤ index := by
  rw [SliceBuilder.set, Tx.run_bind_of_ok len_run] at h
  rcases hprepare : (SliceBuilder.prepare builder.slice.len value).run (builder, arena) with
    ⟨prepared, first, second⟩
  have hspec := prepare_spec hsound le_rfl hprepare
  cases prepared with
  | error fault =>
    rw [Tx.run_bind_of_error hprepare] at h
    cases h
    exact ⟨hspec.changes, hspec.len, nofun, hspec.fails.error fun hover => absurd hover.2.1 (Nat.lt_irrefl _)⟩
  | ok handle =>
    obtain ⟨hown, hroom⟩ := hspec.owns handle rfl
    rw [Tx.run_bind_of_ok hprepare] at h
    obtain ⟨rfl, hextends, -, hset, hfault⟩ := write_spec hspec.extension.sound hown h
    refine ⟨⟨hspec.extension.trans hextends, ?_⟩, hspec.len, fun _ => ⟨handle, hown⟩, fun fault heq => ?_⟩
    · cases result with
      | ok _ => rw [unlessFault, ← hspec.contents, hown.contents, hown.contents, hset rfl, List.take_set]
      | error fault => rw [(hfault fault rfl).1, unlessFault, hspec.contents]
    · obtain ⟨-, hindex, hfault⟩ := hfault fault heq
      exact .inr ⟨hfault, hroom.trans hindex⟩

theorem set_of_owns (hown : Owns builder handle) (hindex : index < builder.slice.len) (value : α) :
    ((SliceBuilder.set index value).run (builder, arena)).1 = .ok () := by
  obtain ⟨hidentity, -, hlen⟩ := hsound.stored handle hown.values
  have hget : arena.get handle = .ok (arena.slices.read handle.index) := by
    rw [Arena.get, if_neg (not_not.mpr hidentity)]
  have hreused : SliceBuilder.reusable builder.slice.len builder arena = .ok (some handle) := by
    rw [SliceBuilder.reusable, hown.values]
    simp [hown.writable, hget, bind, Except.bind, pure, Except.pure, hlen]
  have hprepare : (SliceBuilder.prepare builder.slice.len value).run (builder, arena) =
      (.ok handle, builder, arena) := prepare_run hreused
  rw [SliceBuilder.set, Tx.run_bind_of_ok len_run, Tx.run_bind_of_ok hprepare]
  simp [Tx.run, write, modify, hget, bind, Except.bind, hindex.trans_le hlen]

theorem remove_spec (h : (SliceBuilder.remove index).run (builder, arena) = (result, builder', arena')) :
    Changes builder arena builder' arena'
        (unlessFault result ((builder.slice.contents arena).eraseIdx index) (builder.slice.contents arena)) ∧
      Fails result arena fun fault => fault = .index ∧ builder.slice.len ≤ index := by
  have hlength := hsound.length_contents
  rw [SliceBuilder.remove] at h
  by_cases hindex : builder.slice.len ≤ index
  · have hat : (SliceBuilder.at? index).run (builder, arena) = (.error .index, builder, arena) := by
      rw [at?_run hsound, List.getElem?_eq_none (by omega)]
      rfl
    rw [Tx.run_bind_of_error hat] at h
    cases h
    exact ⟨⟨.refl hsound, rfl⟩, fun _ heq => .inr ⟨(Except.error.inj heq).symm, hindex⟩⟩
  obtain ⟨value, hvalue⟩ : ∃ value, (builder.slice.contents arena)[index]? = some value :=
    ⟨_, List.getElem?_eq_getElem (by omega)⟩
  have hat : (SliceBuilder.at? index).run (builder, arena) = (.ok value, builder, arena) := by
    rw [at?_run hsound, hvalue]
    rfl
  rw [Tx.run_bind_of_ok hat, Tx.run_bind_of_ok len_run] at h
  rcases hprepare : (SliceBuilder.prepare builder.slice.len value).run (builder, arena) with
    ⟨prepared, first, second⟩
  have hspec := prepare_spec hsound le_rfl hprepare
  cases prepared with
  | error fault =>
    rw [Tx.run_bind_of_error hprepare] at h
    cases h
    exact ⟨hspec.changes, hspec.fails.error fun hover => absurd hover.2.1 (Nat.lt_irrefl _)⟩
  | ok handle =>
    obtain ⟨hown, hroom⟩ := hspec.owns handle rfl
    rw [Tx.run_bind_of_ok hprepare] at h
    rcases hcopy : (copyWithin handle (index + 1) builder.slice.len index).run (first, second) with
      ⟨copied, third, fourth⟩
    obtain ⟨rfl, rfl, hextends, hlength', hmoved⟩ :=
      copyWithin_spec hspec.extension.sound hown (Nat.lt_of_not_le hindex) hroom hcopy
    rw [Tx.run_bind_of_ok hcopy] at h
    cases h
    refine ⟨⟨(hspec.extension.trans hextends).trans (extends_setLen hextends.sound hown (by omega)), ?_⟩, nofun⟩
    rw [unlessFault, ← hspec.contents, hown.contents, hspec.len, ← hmoved]
    simp only [StoredSlice.contents, hown.values, Option.elim_some]

end

/-! ### Retaining -/

section Retain

variable (keep : α → Option Bool)

def keptOf (values : List α) : List α := values.filter fun value => keep value = some true

/-- What a loop leaves that ends early: the values that were kept so far are in front, and nothing else moved. -/
def compacted (values : List α) : List α :=
  let kept := keptOf keep (values.takeWhile fun value => (keep value).isSome)
  kept ++ values.drop kept.length

/-- The list that is left by `retain`. -/
def retained (values : List α) : Except Fault Unit → List α
  | .ok _ => keptOf keep values
  | .error .wrongArena => compacted keep values
  | .error _ => values

variable {keep}

theorem keptOf_take_succ (hindex : index < values.length) {kept : Bool} (hkeep : keep values[index] = some kept) :
    keptOf keep (values.take (index + 1)) =
      keptOf keep (values.take index) ++ if kept then [values[index]] else [] := by
  rw [keptOf, List.take_succ_eq_append_getElem hindex, List.filter_append]
  cases kept <;> simp [keptOf, hkeep]

theorem length_keptOf_take_le : (keptOf keep (values.take index)).length ≤ index :=
  (List.length_filter_le _ _).trans (List.length_take_le _ _)

theorem mem_retained (h : value ∈ retained keep values result) : value ∈ values := by
  unfold retained at h
  split at h
  · exact List.mem_of_mem_filter h
  · rcases List.mem_append.mp h with h | h
    · exact (List.takeWhile_prefix _).subset (List.mem_of_mem_filter h)
    · exact List.mem_of_mem_drop h
  · exact h

theorem set_kept {kept values : List α} (h : kept.length < values.length) :
    (kept ++ values.drop kept.length).set kept.length value =
      (kept ++ [value]) ++ values.drop (kept ++ [value]).length := by
  rw [List.set_append_right _ _ le_rfl, Nat.sub_self, List.drop_eq_getElem_cons h, List.set_cons_zero,
    List.length_append, List.length_singleton, List.append_assoc]
  rfl

theorem compacted_eq (hanswers : ∀ other ∈ values.take index, (keep other).isSome = true)
    (hvalue : values[index]? = some value) (hkeep : keep value = none) :
    compacted keep values =
      keptOf keep (values.take index) ++ values.drop (keptOf keep (values.take index)).length := by
  have htake : values.takeWhile (fun value => (keep value).isSome) = values.take index := by
    obtain ⟨hlt, rfl⟩ := List.getElem?_eq_some_iff.mp hvalue
    conv_lhs => rw [← List.take_append_drop index values, List.drop_eq_getElem_cons hlt]
    rw [List.takeWhile_append_of_pos hanswers, List.takeWhile_cons_of_neg (by simp [hkeep]), List.append_nil]
  rw [compacted, htake]

/-- The loop at an index: what is kept of the values before it is in front, and a builder that has moved a value
owns its storage. -/
structure Retaining (keep : α → Option Bool) (values : List α) (index : Nat) (builder : SliceBuilder)
    (arena : Arena α) : Prop where
  sound : builder.slice.Sound arena
  len : builder.slice.len = values.length
  contents : builder.slice.contents arena =
    keptOf keep (values.take index) ++ values.drop (keptOf keep (values.take index)).length
  answers : ∀ value ∈ values.take index, (keep value).isSome = true
  storage : builder.slice.contents arena = values ∨ ∃ handle, Owns builder handle

section

variable (h : Retaining keep values index builder arena) (hindex : index < values.length)
include h hindex

theorem Retaining.getElem? : (builder.slice.contents arena)[index]? = some values[index] := by
  rw [h.contents, List.getElem?_append_right length_keptOf_take_le, List.getElem?_drop,
    Nat.add_sub_cancel' length_keptOf_take_le, List.getElem?_eq_getElem hindex]

theorem Retaining.answers_succ (hkeep : (keep values[index]).isSome = true) :
    ∀ value ∈ values.take (index + 1), (keep value).isSome = true := by
  intro value hmem
  rw [List.take_succ_eq_append_getElem hindex, List.mem_append, List.mem_singleton] at hmem
  rcases hmem with hmem | rfl
  · exact h.answers value hmem
  · exact hkeep

theorem Retaining.skip (hkeep : keep values[index] = some false) :
    Retaining keep values (index + 1) builder arena where
  sound := h.sound
  len := h.len
  contents := by
    rw [keptOf_take_succ hindex hkeep, if_neg nofun, List.append_nil]
    exact h.contents
  answers := h.answers_succ hindex (by rw [hkeep]; rfl)
  storage := h.storage

theorem Retaining.move (hkeep : keep values[index] = some true)
    (hrun : (SliceBuilder.moveBack index (keptOf keep (values.take index)).length values[index]).run
      (builder, arena) = (result, builder', arena')) :
    Extends builder arena builder' arena' ∧
      (result = .ok () → Retaining keep values (index + 1) builder' arena') ∧
      ∀ fault, result = .error fault →
        (fault = .allocation ∧ arena.available = false) ∧ builder'.slice.contents arena' = values := by
  have hlength : (keptOf keep (values.take index)).length ≤ index := length_keptOf_take_le
  have hanswers := h.answers_succ hindex (by rw [hkeep]; rfl)
  have hcontents : (builder.slice.contents arena).set (keptOf keep (values.take index)).length values[index] =
      keptOf keep (values.take (index + 1)) ++ values.drop (keptOf keep (values.take (index + 1))).length := by
    rw [h.contents, set_kept (by omega), keptOf_take_succ hindex hkeep, if_pos rfl]
  unfold SliceBuilder.moveBack at hrun
  split at hrun
  next hsame =>
    obtain ⟨rfl, heq⟩ := Prod.mk.inj hrun
    cases heq
    refine ⟨.refl h.sound, fun _ => ⟨h.sound, h.len, ?_, hanswers, h.storage⟩, nofun⟩
    have hself : (builder.slice.contents arena).set (keptOf keep (values.take index)).length values[index] =
        builder.slice.contents arena := by
      obtain ⟨hlt, hvalue⟩ := List.getElem?_eq_some_iff.mp (h.getElem? hindex)
      rw [hsame, ← hvalue, List.set_getElem_self]
    rw [← hself, hcontents]
  next hne =>
    obtain ⟨hchanges, hlen, howns, hfault⟩ := set_spec h.sound hrun
    have hlt : (keptOf keep (values.take index)).length < builder.slice.len := by
      rw [h.len]
      omega
    refine ⟨hchanges.extension, fun hok => ?_, fun fault herror =>
      ⟨(hfault fault herror).resolve_right fun hover => absurd hover.2 (Nat.not_le.mpr hlt), ?_⟩⟩
    · refine ⟨hchanges.extension.sound, hlen.trans h.len, ?_, hanswers, .inr (howns hok)⟩
      rw [hchanges.contents, hok, unlessFault, hcontents]
    · rw [hchanges.contents, herror, unlessFault]
      rcases h.storage with hsame | ⟨handle, hown⟩
      · exact hsame
      · have hok := set_of_owns h.sound hown hlt values[index]
        rw [hrun, herror] at hok
        cases hok

end

theorem extends_shrink {len : Nat} (hsound : builder.slice.Sound arena) (hlen : len ≤ builder.slice.len) :
    Extends builder arena { builder with slice := { builder.slice with len := len } } arena := by
  refine extends_len ⟨fun handle hmem => ?_, fun hnone => Nat.le_zero.mp (hlen.trans (hsound.empty hnone).le)⟩
  obtain ⟨hidentity, hlt, hle⟩ := hsound.stored handle hmem
  exact ⟨hidentity, hlt, hlen.trans hle⟩

theorem retainFrom_spec {index left : Nat}
    (h : Retaining keep values index builder arena) (hleft : index + left = values.length)
    (hrun : (SliceBuilder.retainFrom keep index left (keptOf keep (values.take index)).length).run (builder, arena) =
      (result, builder', arena')) :
    Changes builder arena builder' arena' (retained keep values result) ∧
      Fails result arena fun fault => fault = .wrongArena ∧ ∃ value ∈ values, keep value = none := by
  induction left generalizing index builder arena with
  | zero =>
    have hindex : index = values.length := hleft
    cases hrun
    have hlen : (keptOf keep (values.take index)).length ≤ builder.slice.len := by
      rw [h.len, ← hindex]
      exact length_keptOf_take_le
    refine ⟨⟨extends_shrink h.sound hlen, ?_⟩, nofun⟩
    have hcontents := congrArg (List.take (keptOf keep (values.take index)).length) h.contents
    rw [List.take_left', StoredSlice.contents, List.take_take, Nat.min_eq_left hlen] at hcontents
    · rw [StoredSlice.contents, hcontents, retained, hindex, List.take_length]
    · rfl
  | succ left ih =>
    have hindex : index < values.length := by omega
    have hat : (SliceBuilder.at? index).run (builder, arena) = (.ok values[index], builder, arena) := by
      rw [at?_run h.sound, h.getElem? hindex]
      rfl
    rw [SliceBuilder.retainFrom, Tx.run_bind_of_ok hat] at hrun
    cases hkeep : keep values[index] with
    | none =>
      rw [hkeep] at hrun
      cases hrun
      refine ⟨⟨.refl h.sound, ?_⟩, fun _ heq =>
        .inr ⟨(Except.error.inj heq).symm, _, List.getElem_mem hindex, hkeep⟩⟩
      rw [retained, compacted_eq h.answers (List.getElem?_eq_getElem hindex) hkeep, h.contents]
    | some kept =>
      have hsucc := keptOf_take_succ hindex hkeep
      rw [hkeep] at hrun
      cases kept with
      | false =>
        refine ih (h.skip hindex hkeep) (by omega) ?_
        rw [hsucc, if_neg nofun, List.append_nil]
        exact hrun
      | true =>
        rcases hmove : (SliceBuilder.moveBack index (keptOf keep (values.take index)).length values[index]).run
          (builder, arena) with ⟨moved, first, second⟩
        obtain ⟨hextends, hok, hfault⟩ := h.move hindex hkeep hmove
        cases moved with
        | error fault =>
          have hstop := (Tx.run_bind_of_error hmove).symm.trans hrun
          cases hstop
          obtain ⟨⟨rfl, hmemory⟩, hvalues⟩ := hfault fault rfl
          exact ⟨⟨hextends, hvalues⟩, fun _ heq => .inl ⟨(Except.error.inj heq).symm, hmemory⟩⟩
        | ok _ =>
          obtain ⟨hrest, hfails⟩ := ih (hok rfl) (by omega) (by
            rw [hsucc, if_pos rfl, List.length_append, List.length_singleton]
            exact (Tx.run_bind_of_ok hmove).symm.trans hrun)
          exact ⟨⟨hextends.trans hrest.extension, hrest.contents⟩, fun fault heq =>
            hextends.available ▸ hfails fault heq⟩

theorem retain_spec (hsound : builder.slice.Sound arena)
    (h : (SliceBuilder.retain keep).run (builder, arena) = (result, builder', arena')) :
    Changes builder arena builder' arena' (retained keep (builder.slice.contents arena) result) ∧
      Fails result arena fun fault => fault = .wrongArena ∧ ∃ value ∈ builder.slice.contents arena, keep value = none := by
  rw [SliceBuilder.retain, Tx.run_bind_of_ok len_run] at h
  have hlength := hsound.length_contents
  have hinit : Retaining keep (builder.slice.contents arena) 0 builder arena :=
    ⟨hsound, hlength.symm, by simp [keptOf], by simp, .inl rfl⟩
  have hleft : 0 + builder.slice.len = (builder.slice.contents arena).length := by omega
  exact retainFrom_spec hinit hleft h

end Retain

end Steps

end Lonewolf.Xmpp.Storage

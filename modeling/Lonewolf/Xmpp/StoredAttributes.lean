import Lonewolf.Xmpp.Slices

/-!
# Stored attributes

The attributes of a builder are handles of strings that are never written again. Read through them, an operation
on stored attributes is the operation on lists of attributes.
-/

namespace Lonewolf.Xmpp.Storage

open Texts Transactions

variable {arena arena' : Arena StoredAttribute} {builder builder' : SliceBuilder}

/-! ### Strings -/

/-- The handle is of a string of the arena. -/
def Handle.Names (handle : Handle) (arena : Arena StoredAttribute) : Prop :=
  handle.identity = arena.identity ∧ handle.index < arena.strings.length

def Handle.string (handle : Handle) (arena : Arena StoredAttribute) : Text := arena.strings.getD handle.index []

structure StoredAttribute.Sound (stored : StoredAttribute) (arena : Arena StoredAttribute) : Prop where
  name : stored.name.localName.Names arena
  ns : stored.name.ns.Names arena
  value : stored.value.Names arena

/-- The attribute that is stored. -/
def StoredAttribute.resolved (arena : Arena StoredAttribute) (stored : StoredAttribute) : Attribute :=
  ⟨stored.name.localName.string arena, stored.name.ns.string arena, stored.value.string arena⟩

/-- The arena has the strings it had, and perhaps more. -/
structure Keeps (arena arena' : Arena StoredAttribute) : Prop where
  identity : arena'.identity = arena.identity
  strings : arena.strings <+: arena'.strings

theorem Extends.keeps (h : Extends builder arena builder' arena') : Keeps arena arena' := ⟨h.identity, h.strings⟩

theorem Handle.Names.getStr {handle : Handle} (h : handle.Names arena) :
    arena.getStr handle = .ok (handle.string arena) := by
  rw [Arena.getStr, if_neg (not_not.mpr h.1)]
  rfl

theorem Keeps.names {handle : Handle} (hkeeps : Keeps arena arena') (h : handle.Names arena) :
    handle.Names arena' ∧ handle.string arena' = handle.string arena := by
  refine ⟨⟨h.1.trans hkeeps.identity.symm, h.2.trans_le hkeeps.strings.length_le⟩, ?_⟩
  obtain ⟨rest, hrest⟩ := hkeeps.strings
  simp only [Handle.string, List.getD_eq_getElem?_getD]
  rw [← hrest, List.getElem?_append_left h.2]

variable {stored : StoredAttribute}

theorem Keeps.sound (hkeeps : Keeps arena arena') (h : stored.Sound arena) :
    stored.Sound arena' ∧ stored.resolved arena' = stored.resolved arena := by
  obtain ⟨hname, hname'⟩ := hkeeps.names h.name
  obtain ⟨hns, hns'⟩ := hkeeps.names h.ns
  obtain ⟨hvalue, hvalue'⟩ := hkeeps.names h.value
  refine ⟨⟨hname, hns, hvalue⟩, ?_⟩
  rw [StoredAttribute.resolved, hname', hns', hvalue', StoredAttribute.resolved]

/-- The attributes of a list are all stored. -/
def SoundList (arena : Arena StoredAttribute) (values : List StoredAttribute) : Prop :=
  ∀ stored ∈ values, stored.Sound arena

def resolveAll (arena : Arena StoredAttribute) (values : List StoredAttribute) : List Attribute :=
  values.map (StoredAttribute.resolved arena)

variable {values : List StoredAttribute}

theorem Keeps.soundList (hkeeps : Keeps arena arena') (h : SoundList arena values) :
    SoundList arena' values ∧ resolveAll arena' values = resolveAll arena values :=
  ⟨fun stored hmem => (hkeeps.sound (h stored hmem)).1,
    List.map_congr_left fun stored hmem => (hkeeps.sound (h stored hmem)).2⟩

/-! ### Looking up -/

variable {name ns : Text}

theorem matches_eq (h : stored.Sound arena) :
    stored.name.matches name ns arena = .ok (Attribute.matches name ns (stored.resolved arena)) := by
  simp only [StoredName.matches, h.name.getStr, h.ns.getStr, Attribute.matches, StoredAttribute.resolved, bind,
    Except.bind, pure, Except.pure]
  by_cases hname : stored.name.localName.string arena = name
  · simp only [hname, if_true, decide_true, Bool.true_and]
    exact congrArg Except.ok (decide_eq_decide.mpr Iff.rfl)
  · simp [hname]

theorem findFrom_eq (h : SoundList arena values) (index : Nat) :
    AttributesBuilder.findFrom name ns arena index values =
      .ok (((resolveAll arena values).findIdx? (Attribute.matches name ns)).map (· + index)) := by
  induction values generalizing index with
  | nil => rfl
  | cons stored values ih =>
    have hrest := ih (fun other hmem => h other (List.mem_cons_of_mem stored hmem)) (index + 1)
    simp only [AttributesBuilder.findFrom, matches_eq (h stored List.mem_cons_self), bind, Except.bind, hrest,
      resolveAll, List.map_cons, List.findIdx?_cons]
    split
    next => simp [pure, Except.pure]
    next =>
      rw [Option.map_map]
      congr 2
      funext found
      simp only [Function.comp_apply]
      omega

theorem find_eq (hsound : builder.slice.Sound arena) (h : SoundList arena (builder.slice.contents arena)) :
    AttributesBuilder.find name ns builder arena =
      .ok ((resolveAll arena (builder.slice.contents arena)).findIdx? (Attribute.matches name ns)) := by
  have hget : builder.asSlice arena = .ok (builder.slice.contents arena) := hsound.get
  simp only [AttributesBuilder.find, hget, bind, Except.bind, findFrom_eq h]
  simp

/-! ### Operations -/

/-- A builder of attributes whose storage is sound and whose attributes are stored. -/
structure Attributed (builder : SliceBuilder) (arena : Arena StoredAttribute) : Prop where
  slice : builder.slice.Sound arena
  list : SoundList arena (builder.slice.contents arena)

def attributesOf (builder : SliceBuilder) (arena : Arena StoredAttribute) : List Attribute :=
  resolveAll arena (builder.slice.contents arena)

/-- What becomes of a builder of attributes. -/
structure Rewrites (builder : SliceBuilder) (arena : Arena StoredAttribute) (builder' : SliceBuilder)
    (arena' : Arena StoredAttribute) : Prop where
  extension : Extends builder arena builder' arena'
  attributed : Attributed builder' arena'

theorem Rewrites.refl (h : Attributed builder arena) : Rewrites builder arena builder arena := ⟨.refl h.slice, h⟩

theorem Rewrites.trans {builder'' : SliceBuilder} {arena'' : Arena StoredAttribute}
    (h : Rewrites builder arena builder' arena') (h' : Rewrites builder' arena' builder'' arena'') :
    Rewrites builder arena builder'' arena'' := ⟨h.extension.trans h'.extension, h'.attributed⟩

/-- Strings may be stored, and nothing else changes. -/
structure Stores (builder : SliceBuilder) (arena : Arena StoredAttribute)
    (after : SliceBuilder × Arena StoredAttribute) : Prop where
  same : after.1 = builder
  rewrites : Rewrites builder arena builder after.2
  attributes : attributesOf builder after.2 = attributesOf builder arena

/-- The handle is of this string. -/
def Handle.Is (handle : Handle) (t : Text) (arena : Arena StoredAttribute) : Prop :=
  handle.Names arena ∧ handle.string arena = t

theorem Handle.Is.later {handle : Handle} {t : Text} (h : handle.Is t arena) (hkeeps : Keeps arena arena') :
    handle.Is t arena' := by
  obtain ⟨hnames, hstring⟩ := hkeeps.names h.1
  exact ⟨hnames, hstring.trans h.2⟩

theorem Stores.refl (h : Attributed builder arena) : Stores builder arena (builder, arena) := ⟨rfl, .refl h, rfl⟩

variable {after : SliceBuilder × Arena StoredAttribute}

theorem Stores.keeps (h : Stores builder arena after) :
    Keeps arena after.2 := h.rewrites.extension.keeps

theorem Stores.trans {first second : SliceBuilder × Arena StoredAttribute} (h : Stores builder arena first)
    (h' : Stores first.1 first.2 second) : Stores builder arena second := by
  obtain ⟨builder', arena'⟩ := first
  obtain ⟨rfl, hrewrites, hsame⟩ := h
  exact ⟨h'.same, hrewrites.trans h'.rewrites, h'.attributes.trans hsame⟩

theorem Stores.attributed (h : Stores builder arena after) : Attributed after.1 after.2 := by
  rw [h.same]
  exact h.rewrites.attributed

theorem Stores.reads (h : Stores builder arena after) : attributesOf after.1 after.2 = attributesOf builder arena := by
  rw [h.same]
  exact h.attributes

section

variable (h : Attributed builder arena)
include h

theorem tryAllocStr_leads {t : Text} :
    (tryAllocStr t).Leads (builder, arena) fun result after =>
      Stores builder arena after ∧ ∀ handle, result = .ok handle → handle.Is t after.2 := by
  apply Tx.leads_of_run
  intro result after hrun
  have hrun' : tryAllocStr t (builder, arena) = (result, after) := hrun
  simp only [tryAllocStr] at hrun'
  split at hrun'
  next =>
    cases hrun'
    have hkeeps : Keeps arena { arena with strings := arena.strings ++ [t] } := ⟨rfl, List.prefix_append _ _⟩
    obtain ⟨hlist, hresolve⟩ := hkeeps.soundList h.list
    have hslice : builder.slice.Sound { arena with strings := arena.strings ++ [t] } :=
      ⟨h.slice.stored, h.slice.empty⟩
    refine ⟨⟨rfl, ⟨⟨rfl, rfl, hkeeps.strings, le_rfl, fun _ _ _ => rfl, fun _ _ heq => heq, fun _ _ heq => heq,
      hslice⟩, hslice, hlist⟩, hresolve⟩, fun handle heq => ?_⟩
    cases heq
    exact ⟨⟨rfl, by simp⟩, by simp [Handle.string]⟩
  next =>
    cases hrun'
    exact ⟨.refl h, nofun⟩

theorem check_leads {valid : Except BuildError Unit} :
    (check valid : Edit StoredAttribute Unit).Leads (builder, arena) fun result after =>
      Stores builder arena after ∧ (result = .ok () → valid = .ok ()) := by
  apply Tx.leads_read
  refine ⟨.refl h, fun hok => ?_⟩
  cases valid with
  | ok _ => rfl
  | error error => cases hok

theorem newName_leads :
    (newName name ns : Edit StoredAttribute StoredName).Leads (builder, arena) fun result after =>
      Stores builder arena after ∧ ∀ stored, result = .ok stored → validateName name ns true = .ok () ∧
        stored.localName.Is name after.2 ∧ stored.ns.Is ns after.2 := by
  refine Tx.leads_bind (check_leads h) ?_ fun _ _ hcheck => ⟨hcheck.1, nofun⟩
  rintro _ first ⟨hfirst, hvalid⟩
  refine Tx.leads_bind (tryAllocStr_leads hfirst.attributed) ?_ fun _ _ halloc => ⟨hfirst.trans halloc.1, nofun⟩
  rintro localName second ⟨hsecond, hlocal⟩
  refine Tx.leads_bind (tryAllocStr_leads hsecond.attributed) ?_ fun _ _ halloc =>
    ⟨(hfirst.trans hsecond).trans halloc.1, nofun⟩
  rintro ns third ⟨hthird, hns⟩
  refine Tx.leads_pure ⟨(hfirst.trans hsecond).trans hthird, fun stored heq => ?_⟩
  cases heq
  exact ⟨hvalid rfl, (hlocal _ rfl).later hthird.keeps, hns _ rfl⟩

end

theorem Changes.rewrites (h : Changes builder arena builder' arena' values) (hlist : SoundList arena values) :
    Rewrites builder arena builder' arena' ∧ attributesOf builder' arena' = resolveAll arena values := by
  obtain ⟨hlist', hresolve⟩ := h.extension.keeps.soundList hlist
  rw [attributesOf, h.contents, hresolve]
  exact ⟨⟨h.extension, h.extension.sound, by rw [h.contents]; exact hlist'⟩, rfl⟩

/-- What an operation does to the attributes: on success this list, on failure nothing. -/
structure Edits (builder : SliceBuilder) (arena : Arena StoredAttribute) (edited : List Attribute)
    (result : Except Fault Unit) (after : SliceBuilder × Arena StoredAttribute) : Prop where
  rewrites : Rewrites builder arena after.1 after.2
  done : result = .ok () → attributesOf after.1 after.2 = edited
  failed : ∀ fault, result = .error fault → attributesOf after.1 after.2 = attributesOf builder arena

variable {result : Except Fault Unit} {edited : List Attribute}

theorem Stores.edits {middle after : SliceBuilder × Arena StoredAttribute} (h : Stores builder arena middle)
    (h' : Edits middle.1 middle.2 edited result after) :
    Edits builder arena edited result after := by
  obtain ⟨builder', arena'⟩ := middle
  obtain ⟨rfl, hrewrites, hsame⟩ := h
  exact ⟨hrewrites.trans h'.rewrites, h'.done, fun fault heq => (h'.failed fault heq).trans hsame⟩

theorem Stores.failed {fault : Fault}
    (h : Stores builder arena after) : Edits builder arena edited (.error fault) after := by
  obtain ⟨builder', arena'⟩ := after
  obtain ⟨rfl, hrewrites, hsame⟩ := h
  exact ⟨hrewrites, nofun, fun _ _ => hsame⟩

section

variable (h : Attributed builder arena)
include h

theorem edits_of_changes (hlist : SoundList arena values)
    (hchanges : Changes builder arena builder' arena' (unlessFault result values (builder.slice.contents arena))) :
    Edits builder arena (resolveAll arena values) result (builder', arena') := by
  cases result with
  | ok _ =>
    obtain ⟨hrewrites, hattributes⟩ := hchanges.rewrites hlist
    exact ⟨hrewrites, fun _ => hattributes, nofun⟩
  | error fault =>
    obtain ⟨hrewrites, hattributes⟩ := hchanges.rewrites h.list
    exact ⟨hrewrites, nofun, fun _ _ => hattributes⟩

theorem push_leads (hstored : stored.Sound arena) : (SliceBuilder.push stored).Leads (builder, arena)
      (Edits builder arena (attributesOf builder arena ++ [stored.resolved arena])) := by
  apply Tx.leads_of_run
  rintro result ⟨builder', arena'⟩ hrun
  have hlist : SoundList arena (builder.slice.contents arena ++ [stored]) :=
    List.forall_mem_append.mpr ⟨h.list, List.forall_mem_singleton.mpr hstored⟩
  have hedits := edits_of_changes h hlist (push_spec h.slice hrun).1
  rwa [resolveAll, List.map_append] at hedits

theorem set_leads {index : Nat} (hstored : stored.Sound arena) : (SliceBuilder.set index stored).Leads (builder, arena)
      (Edits builder arena ((attributesOf builder arena).set index (stored.resolved arena))) := by
  apply Tx.leads_of_run
  rintro result ⟨builder', arena'⟩ hrun
  have hlist : SoundList arena ((builder.slice.contents arena).set index stored) := by
    intro other hmem
    rcases List.mem_or_eq_of_mem_set hmem with hmem | rfl
    · exact h.list other hmem
    · exact hstored
  have hedits := edits_of_changes h hlist (set_spec h.slice hrun).1
  rwa [resolveAll, List.map_set] at hedits

theorem remove_leads {index : Nat} : (SliceBuilder.remove index).Leads (builder, arena)
      (Edits builder arena ((attributesOf builder arena).eraseIdx index)) := by
  apply Tx.leads_of_run
  rintro result ⟨builder', arena'⟩ hrun
  have hlist : SoundList arena ((builder.slice.contents arena).eraseIdx index) := fun other hmem =>
    h.list other (List.mem_of_mem_eraseIdx hmem)
  have hedits := edits_of_changes h hlist (remove_spec h.slice hrun).1
  rwa [resolveAll, ← List.eraseIdx_map] at hedits

theorem find_leads :
    (Tx.read fun (builder, arena) => AttributesBuilder.find name ns builder arena :
      Edit StoredAttribute (Option Nat)).Leads (builder, arena) fun result after =>
        Stores builder arena after ∧ result = .ok ((attributesOf builder arena).findIdx? (Attribute.matches name ns)) :=
  Tx.leads_read ⟨.refl h, find_eq h.slice h.list⟩

theorem storedName_leads {found : Option Nat}
    (hfound : (attributesOf builder arena).findIdx? (Attribute.matches name ns) = found) :
    (AttributesBuilder.storedName name ns found).Leads (builder, arena) fun result after =>
      Stores builder arena after ∧ ∀ stored, result = .ok stored →
        stored.localName.Is name after.2 ∧ stored.ns.Is ns after.2 := by
  cases found with
  | none =>
    apply Tx.leads_of_run
    intro result after hrun
    obtain ⟨hstores, hname⟩ := (newName_leads h).of_run hrun
    exact ⟨hstores, fun stored hok => (hname stored hok).2⟩
  | some index =>
    have hat : (SliceBuilder.at? index : Edit StoredAttribute StoredAttribute).Leads (builder, arena)
        fun result after => Stores builder arena after ∧
          result = ((builder.slice.contents arena)[index]?).elim (.error .index) .ok := by
      apply Tx.leads_of_run
      intro result after hrun
      rw [at?_run h.slice] at hrun
      cases hrun
      exact ⟨.refl h, rfl⟩
    refine Tx.leads_bind hat ?_ fun _ _ hat => ⟨hat.1, nofun⟩
    rintro stored after ⟨hstores, hvalue⟩
    refine Tx.leads_pure ⟨hstores, fun other heq => ?_⟩
    cases heq
    obtain ⟨hlt, hmatches, -⟩ := List.findIdx?_eq_some_iff_getElem.mp hfound
    have hmem : (builder.slice.contents arena)[index]? = some stored := by
      cases hget : (builder.slice.contents arena)[index]? with
      | none =>
        rw [hget] at hvalue
        cases hvalue
      | some other =>
        rw [hget] at hvalue
        cases hvalue
        rfl
    obtain ⟨hlt', rfl⟩ := List.getElem?_eq_some_iff.mp hmem
    have hsound := h.list _ (List.getElem_mem hlt')
    simp only [attributesOf, resolveAll, List.getElem_map, Attribute.matches, Bool.and_eq_true,
      decide_eq_true_eq] at hmatches
    exact ⟨Handle.Is.later ⟨hsound.name, hmatches.1⟩ hstores.keeps,
      Handle.Is.later ⟨hsound.ns, hmatches.2⟩ hstores.keeps⟩

end

/-- The list with the attribute at the index where one was found, or at the end. -/
def placed (attributes : List Attribute) (value : Attribute) : Option Nat → List Attribute
  | some index => attributes.set index value
  | none => attributes ++ [value]

theorem store_leads {found : Option Nat} (h : Attributed builder arena) (hstored : stored.Sound arena) :
    (AttributesBuilder.store stored found).Leads (builder, arena)
      (Edits builder arena (placed (attributesOf builder arena) (stored.resolved arena) found)) := by
  cases found with
  | none => exact push_leads h hstored
  | some index => exact set_leads h hstored

theorem setAttribute_eq {attributes : List Attribute} {name ns value : Text}
    (hname : validateName name ns true = .ok ()) (hvalue : validateText value = .ok ()) :
    setAttribute attributes name ns value =
      .ok (placed attributes ⟨name, ns, value⟩ (attributes.findIdx? (Attribute.matches name ns))) := by
  simp only [setAttribute, hname, hvalue, bind, Except.bind]
  split
  next index hfound =>
    rw [hfound]
    rfl
  next hfound =>
    rw [hfound]
    rfl

/-- What an operation that can refuse its arguments does to the attributes. -/
structure Applies (operation : List Attribute → Except BuildError (List Attribute)) (builder : SliceBuilder)
    (arena : Arena StoredAttribute) (result : Except Fault Unit)
    (after : SliceBuilder × Arena StoredAttribute) : Prop where
  rewrites : Rewrites builder arena after.1 after.2
  done : result = .ok () → operation (attributesOf builder arena) = .ok (attributesOf after.1 after.2)
  failed : ∀ fault, result = .error fault → attributesOf after.1 after.2 = attributesOf builder arena

variable {operation : List Attribute → Except BuildError (List Attribute)}

theorem Stores.refuses {fault : Fault} (h : Stores builder arena after) :
    Applies operation builder arena (.error fault) after := by
  have hedits : Edits builder arena [] (.error fault) after := h.failed
  exact ⟨hedits.rewrites, nofun, hedits.failed⟩

theorem Edits.applies (h : Edits builder arena edited result after)
    (hoperation : operation (attributesOf builder arena) = .ok edited) : Applies operation builder arena result after :=
  ⟨h.rewrites, fun hok => by rw [hoperation, h.done hok], h.failed⟩

theorem setAttribute_leads {name ns value : Text} (h : Attributed builder arena) :
    (AttributesBuilder.set name ns value).Leads (builder, arena)
      (Applies (fun attributes => setAttribute attributes name ns value) builder arena) := by
  refine Tx.leads_bind (check_leads h) ?_ fun _ _ hcheck => hcheck.1.refuses
  rintro _ first ⟨hfirst, hname⟩
  refine Tx.leads_bind (check_leads hfirst.attributed) ?_ fun _ _ hcheck => (hfirst.trans hcheck.1).refuses
  rintro _ second ⟨hsecond, hvalue⟩
  have hchecked := hfirst.trans hsecond
  refine Tx.leads_bind (find_leads hchecked.attributed) ?_ fun _ _ hfind => (hchecked.trans hfind.1).refuses
  rintro found third ⟨hthird, hfound⟩
  have hsearched := hchecked.trans hthird
  have hfound' : (attributesOf third.1 third.2).findIdx? (Attribute.matches name ns) = found := by
    rw [hthird.reads]
    exact (Except.ok.inj hfound).symm
  refine Tx.leads_bind (storedName_leads hsearched.attributed hfound') ?_ fun _ _ hstored =>
    (hsearched.trans hstored.1).refuses
  rintro stored fourth ⟨hfourth, hstored⟩
  have hnamed := hsearched.trans hfourth
  refine Tx.leads_bind (tryAllocStr_leads hnamed.attributed) ?_ fun _ _ halloc => (hnamed.trans halloc.1).refuses
  rintro text fifth ⟨hfifth, htext⟩
  have hready := hnamed.trans hfifth
  obtain ⟨hlocal, hns⟩ := hstored stored rfl
  have hlocal' := hlocal.later hfifth.keeps
  have hns' := hns.later hfifth.keeps
  have htext' := htext text rfl
  have hsound : StoredAttribute.Sound ⟨stored, text⟩ fifth.2 := ⟨hlocal'.1, hns'.1, htext'.1⟩
  have hresolved : StoredAttribute.resolved fifth.2 ⟨stored, text⟩ = ⟨name, ns, value⟩ := by
    rw [StoredAttribute.resolved, hlocal'.2, hns'.2, htext'.2]
  apply Tx.leads_of_run
  intro result after hrun
  have hedits := hready.edits ((store_leads hready.attributed hsound).of_run hrun)
  refine hedits.applies ?_
  rw [setAttribute_eq (hname rfl) (hvalue rfl), hready.reads, hresolved, ← hfound', hthird.reads, hchecked.reads]

theorem removeAttribute_leads (h : Attributed builder arena) : (AttributesBuilder.remove name ns).Leads (builder, arena)
      (Applies (fun attributes => .ok (removeAttribute attributes name ns)) builder arena) := by
  refine Tx.leads_bind (find_leads h) ?_ fun _ _ hfind => hfind.1.refuses
  rintro found first ⟨hfirst, hfound⟩
  have hfound' : (attributesOf builder arena).findIdx? (Attribute.matches name ns) = found :=
    (Except.ok.inj hfound).symm
  cases found with
  | none =>
    refine Tx.leads_pure ⟨?_, fun _ => ?_, nofun⟩
    · rw [hfirst.same]
      exact hfirst.rewrites
    · rw [removeAttribute, hfound', hfirst.reads]
  | some index =>
    apply Tx.leads_of_run
    intro result after hrun
    have hedits := hfirst.edits ((remove_leads hfirst.attributed).of_run hrun)
    refine hedits.applies ?_
    rw [removeAttribute, hfound', hfirst.reads]

/-- What an operation that appends one attribute after another does: when it fails, some were appended. -/
structure Appends (values : List Attribute) (builder : SliceBuilder) (arena : Arena StoredAttribute)
    (result : Except Fault Unit) (after : SliceBuilder × Arena StoredAttribute) : Prop where
  rewrites : Rewrites builder arena after.1 after.2
  done : result = .ok () → appendAttributes (attributesOf builder arena) values = .ok (attributesOf after.1 after.2)
  failed : ∀ fault, result = .error fault →
    ∃ count, attributesOf after.1 after.2 = attributesOf builder arena ++ values.take count

variable {values : List Attribute}

theorem Stores.appendsNone {fault : Fault} (h : Stores builder arena after) :
    Appends values builder arena (.error fault) after := by
  have hedits : Edits builder arena [] (.error fault) after := h.failed
  exact ⟨hedits.rewrites, nofun, fun _ _ => ⟨0, by simpa using hedits.failed fault rfl⟩⟩

theorem Appends.cons {value : Attribute} {middle after : SliceBuilder × Arena StoredAttribute}
    (hvalid : validateName value.name value.ns true = .ok ())
    (h : Edits builder arena (attributesOf builder arena ++ [value]) (.ok ()) middle)
    (h' : Appends values middle.1 middle.2 result after) : Appends (value :: values) builder arena result after where
  rewrites := h.rewrites.trans h'.rewrites
  done hok := by
    have hrest := h'.done hok
    rw [h.done rfl] at hrest
    simpa [appendAttributes, hvalid, bind, Except.bind, pure, Except.pure] using hrest
  failed fault heq := by
    obtain ⟨count, hcount⟩ := h'.failed fault heq
    refine ⟨count + 1, ?_⟩
    rw [hcount, h.done rfl, List.take_succ_cons, List.append_assoc, List.singleton_append]

theorem appendFrom_leads (h : Attributed builder arena) :
    (AttributesBuilder.appendFrom values).Leads (builder, arena) (Appends values builder arena) := by
  induction values generalizing builder arena with
  | nil => exact Tx.leads_pure ⟨.refl h, fun _ => rfl, nofun⟩
  | cons value values ih =>
    refine Tx.leads_bind (newName_leads h) ?_ fun _ _ hname => hname.1.appendsNone
    rintro stored first ⟨hfirst, hstored⟩
    obtain ⟨hvalid, hlocal, hns⟩ := hstored stored rfl
    refine Tx.leads_bind (tryAllocStr_leads hfirst.attributed) ?_ fun _ _ halloc =>
      (hfirst.trans halloc.1).appendsNone
    rintro text second ⟨hsecond, htext⟩
    have hready := hfirst.trans hsecond
    have hlocal' := hlocal.later hsecond.keeps
    have hns' := hns.later hsecond.keeps
    have htext' := htext text rfl
    have hsound : StoredAttribute.Sound ⟨stored, text⟩ second.2 := ⟨hlocal'.1, hns'.1, htext'.1⟩
    have hresolved : StoredAttribute.resolved second.2 ⟨stored, text⟩ = value := by
      rw [StoredAttribute.resolved, hlocal'.2, hns'.2, htext'.2]
    refine Tx.leads_bind (push_leads hready.attributed hsound) ?_ fun fault after hpush => ?_
    · intro _ third hpush
      have hedits := hready.edits hpush
      rw [hresolved, hready.reads] at hedits
      apply Tx.leads_of_run
      intro result after hrun
      exact Appends.cons hvalid hedits ((ih hpush.rewrites.attributed).of_run hrun)
    · have hedits := hready.edits hpush
      exact ⟨hedits.rewrites, nofun, fun _ _ => ⟨0, by simpa using hedits.failed fault rfl⟩⟩

end Lonewolf.Xmpp.Storage

import Lonewolf.Base.Transaction
import Lonewolf.Xmpp.Jid

/-!
# Canonical addresses

An address that the parser returns is made of parts that their preparation leaves alone. Its text splits
into these parts again, so that it parses to itself, and the checks of stored addresses accept it.
-/

namespace Lonewolf.Xmpp

open Texts Text Transactions

/-- What is taken from the profiles, from UTS #46 and from the Unicode tables. -/
structure Unicode.Lawful (unicode : Unicode) : Prop where
  username_again : ∀ t u, unicode.usernameCaseMapped t = some u → unicode.usernameCaseMapped u = some u
  opaque_again : ∀ t u, unicode.opaqueString t = some u → unicode.opaqueString u = some u
  /-- Processing the output again gives the same output and the same name in the DNS. -/
  process_again : ∀ t processed, unicode.process t = some processed →
    ∃ again, unicode.process (processed.output t) = some again ∧
      again.output (processed.output t) = processed.output t ∧
      again.dnsName (processed.output t) = processed.dnsName t
  /-- The output of the processing is mapped to its width and normalized. -/
  width_output : ∀ t processed, unicode.process t = some processed →
    (unicode.widthMappingRule (processed.output t)).bind unicode.normalizationRule = some (processed.output t)
  /-- A name in the DNS that ends with a dot fails the check of its length. -/
  dns_length : ∀ t processed, unicode.process t = some processed → (processed.output t).getLast? = some '.' →
    unicode.verifyDnsLength (processed.dnsName t) = false
  category_bracket : unicode.generalCategory '[' = .openPunctuation
  category_dots : ∀ c ∈ ideographicDots, unicode.generalCategory c = .otherPunctuation
  address_again : ∀ address, unicode.parseIpv6 (unicode.displayIpv6 address) = some address

/-! ### The checks and the preparation -/

section Preparation

variable {unicode : Unicode} {input output t : Text} {part : JidPart}

theorem checkLength_eq_ok : checkLength t part = .ok () ↔ t ≠ [] ∧ t.byteLen ≤ maxPartLen := by
  cases t with
  | nil => simp [checkLength]
  | cons c t => simp [checkLength]

theorem checkInputLength_of_checkLength (h : checkLength t part = .ok ()) : checkInputLength t part = .ok () := by
  obtain ⟨hne, hlen⟩ := checkLength_eq_ok.mp h
  have hfits : ¬ maxInputPartLen < t.byteLen := by
    unfold maxInputPartLen
    omega
  rw [checkInputLength, if_neg (by rwa [List.isEmpty_iff]), if_neg hfits]

theorem containsAny_eq_false {chars : List Char} : containsAny t chars = false ↔ ∀ c ∈ chars, c ∉ t := by
  simp only [containsAny, List.any_eq_false, List.contains_iff_mem]
  exact ⟨fun h c hc ht => h c ht hc, fun h c ht hc => h c hc ht⟩

variable {error : JidError}

theorem rejectIf_eq_ok {condition : Bool} : rejectIf condition error = .ok () ↔ condition = false := by
  cases condition <;> simp [rejectIf]

theorem elim_error_eq_ok {α : Type} {o : Option α} {a : α} :
    o.elim (.error error) .ok = (.ok a : Except JidError α) ↔ o = some a := by
  cases o <;> simp

theorem prepareLocalpart_eq_ok : prepareLocalpart unicode input = .ok output ↔
    checkInputLength input .localpart = .ok () ∧ unicode.usernameCaseMapped input = some output ∧
      containsAny output ['"', '&', '\'', '/', ':', '<', '>', '@'] = false ∧
      checkLength output .localpart = .ok () := by
  simp only [prepareLocalpart, except_bind_eq_ok, exists_unit, rejectIf_eq_ok, elim_error_eq_ok, except_pure_eq_ok]
  constructor
  · rintro ⟨hinput, mapped, hmapped, hchars, hlength, rfl⟩
    exact ⟨hinput, hmapped, hchars, hlength⟩
  · rintro ⟨hinput, hmapped, hchars, hlength⟩
    exact ⟨hinput, output, hmapped, hchars, hlength, rfl⟩

theorem prepareLocalpart_again (hlawful : unicode.Lawful) (h : prepareLocalpart unicode input = .ok output) :
    prepareLocalpart unicode output = .ok output := by
  obtain ⟨-, hmapped, hchars, hlength⟩ := prepareLocalpart_eq_ok.mp h
  exact prepareLocalpart_eq_ok.mpr
    ⟨checkInputLength_of_checkLength hlength, hlawful.username_again _ _ hmapped, hchars, hlength⟩

theorem prepareResourcepart_eq_ok : prepareResourcepart unicode input = .ok output ↔
    checkInputLength input .resourcepart = .ok () ∧ unicode.opaqueString input = some output ∧
      checkLength output .resourcepart = .ok () := by
  simp only [prepareResourcepart, except_bind_eq_ok, exists_unit, elim_error_eq_ok, except_pure_eq_ok]
  constructor
  · rintro ⟨hinput, mapped, hmapped, hlength, rfl⟩
    exact ⟨hinput, hmapped, hlength⟩
  · rintro ⟨hinput, hmapped, hlength⟩
    exact ⟨hinput, output, hmapped, hlength, rfl⟩

theorem prepareResourcepart_again (hlawful : unicode.Lawful) (h : prepareResourcepart unicode input = .ok output) :
    prepareResourcepart unicode output = .ok output := by
  obtain ⟨-, hmapped, hlength⟩ := prepareResourcepart_eq_ok.mp h
  exact prepareResourcepart_eq_ok.mpr
    ⟨checkInputLength_of_checkLength hlength, hlawful.opaque_again _ _ hmapped, hlength⟩

end Preparation

/-! ### Domains -/

section Domains

variable {unicode : Unicode} {input output t : Text}

theorem ipLiteral_eq_ok : ipLiteral unicode input = .ok output ↔
    ∃ inner address, stripBrackets input = some inner ∧ unicode.parseIpv6 inner = some address ∧
      output = '[' :: (unicode.displayIpv6 address ++ [']']) ∧ output.byteLen ≤ maxPartLen := by
  simp only [ipLiteral, except_bind_eq_ok, exists_unit, rejectIf_eq_ok, elim_error_eq_ok, except_pure_eq_ok,
    decide_eq_false_iff_not, Nat.not_lt]
  constructor
  · rintro ⟨inner, hinner, address, haddress, hlen, rfl⟩
    exact ⟨inner, address, hinner, haddress, rfl, hlen⟩
  · rintro ⟨inner, address, hinner, haddress, rfl, hlen⟩
    exact ⟨inner, hinner, address, haddress, hlen, rfl⟩

theorem stripBrackets_brackets (t : Text) : stripBrackets ('[' :: (t ++ [']'])) = some t := by
  simp [stripBrackets]

theorem ipLiteral_again (hlawful : unicode.Lawful) (h : ipLiteral unicode input = .ok output) :
    ipLiteral unicode output = .ok output := by
  obtain ⟨inner, address, -, -, rfl, hlen⟩ := ipLiteral_eq_ok.mp h
  exact ipLiteral_eq_ok.mpr
    ⟨_, address, stripBrackets_brackets _, hlawful.address_again address, rfl, hlen⟩

theorem prepareName_eq_ok : prepareName unicode input = .ok output ↔
    ∃ mapped processed, mapWidth unicode (mapDots input) = some mapped ∧
      mapped.all (validMapped unicode) = true ∧ unicode.process mapped = some processed ∧
      processed.output mapped = output ∧ checkLength output .domainpart = .ok () ∧
      unicode.verifyDnsLength (processed.dnsName mapped) = true ∧
      (output.splitOn '.').all (validIdnaLabel unicode) = true := by
  simp only [prepareName, except_bind_eq_ok, exists_unit, rejectIf_eq_ok, elim_error_eq_ok, except_pure_eq_ok,
    Bool.or_eq_false_iff, Bool.not_eq_false']
  constructor
  · rintro ⟨mapped, hmapped, hall, processed, hprocessed, hlen, ⟨hdns, hlabels⟩, rfl⟩
    exact ⟨mapped, processed, hmapped, hall, hprocessed, rfl, hlen, hdns, hlabels⟩
  · rintro ⟨mapped, processed, hmapped, hall, hprocessed, rfl, hlen, hdns, hlabels⟩
    exact ⟨mapped, hmapped, hall, processed, hprocessed, hlen, ⟨hdns, hlabels⟩, rfl⟩

theorem valid_of_validLabelFrom {label before rest : Text} {c : Char}
    (h : validLabelFrom unicode label before rest = true) (hc : c ∈ rest) : validIdnaCharacter unicode c = true := by
  induction rest generalizing before with
  | nil => cases hc
  | cons d rest ih =>
    rw [validLabelFrom, Bool.and_eq_true, Bool.and_eq_true] at h
    rcases List.mem_cons.mp hc with rfl | hmem
    · exact h.1.1
    · exact ih h.2 hmem

theorem valid_of_labels (h : (t.splitOn '.').all (validIdnaLabel unicode) = true) {c : Char} (hc : c ∈ t) :
    c = '.' ∨ validIdnaCharacter unicode c = true := by
  refine (eq_or_mem_splitOn hc).imp_right ?_
  rintro ⟨label, hlabel, hmem⟩
  exact valid_of_validLabelFrom (List.all_eq_true.mp h label hlabel) hmem

theorem not_valid_bracket (hlawful : unicode.Lawful) : validIdnaCharacter unicode '[' = false := by
  have hcategory := hlawful.category_bracket
  simp [validIdnaCharacter, between, hcategory]

theorem not_valid_dots (hlawful : unicode.Lawful) {c : Char} (hc : c ∈ ideographicDots) :
    validIdnaCharacter unicode c = false := by
  have hcategory := hlawful.category_dots c hc
  simp only [ideographicDots, List.mem_cons, List.not_mem_nil, or_false] at hc
  rcases hc with rfl | rfl | rfl <;> simp [validIdnaCharacter, between, hcategory]

theorem mapDots_of_valid (h : ∀ c ∈ t, c ∉ ideographicDots) : mapDots t = t := by
  rw [mapDots]
  conv_rhs => rw [← List.map_id t]
  apply List.map_congr_left
  intro c hc
  rw [if_neg (by rw [List.contains_iff_mem]; exact h c hc), id]

theorem stripDot_of_getLast (h : ∀ c, t.getLast? = some c → c ≠ '.' ∧ c ∉ ideographicDots) : stripDot t = t := by
  rw [stripDot, if_neg]
  cases hlast : t.getLast? with
  | none => simp
  | some c =>
    obtain ⟨hdot, hother⟩ := h c hlast
    simp [hdot, hother]

theorem prepareDomainpart_eq_ok : prepareDomainpart unicode input = .ok output ↔
    checkInputLength (stripDot input) .domainpart = .ok () ∧ containsAny (stripDot input) ['@', '/'] = false ∧
      (if (stripDot input).head? = some '[' then ipLiteral unicode (stripDot input)
        else prepareName unicode (stripDot input)) = .ok output := by
  simp only [prepareDomainpart, except_bind_eq_ok, exists_unit, rejectIf_eq_ok]

theorem prepareName_again (hlawful : unicode.Lawful) (h : prepareName unicode input = .ok output) :
    output.head? ≠ some '[' ∧ stripDot output = output ∧ prepareName unicode output = .ok output := by
  obtain ⟨mapped, processed, -, -, hprocessed, rfl, hlen, hdns, hlabels⟩ := prepareName_eq_ok.mp h
  have hvalid : ∀ c ∈ processed.output mapped, c = '.' ∨ validIdnaCharacter unicode c = true :=
    fun c hc => valid_of_labels hlabels hc
  have hdots : ∀ c ∈ processed.output mapped, c ∉ ideographicDots := by
    intro c hc hdot
    rcases hvalid c hc with rfl | hchar
    · exact absurd hdot (by decide)
    · rw [not_valid_dots hlawful hdot] at hchar
      cases hchar
  refine ⟨?_, ?_, ?_⟩
  · intro hhead
    rcases hvalid '[' (List.mem_of_mem_head? hhead) with heq | hchar
    · exact absurd heq (by decide)
    · rw [not_valid_bracket hlawful] at hchar
      cases hchar
  · apply stripDot_of_getLast
    intro c hlast
    refine ⟨?_, hdots c (List.mem_of_getLast? hlast)⟩
    rintro rfl
    rw [hlawful.dns_length mapped processed hprocessed hlast] at hdns
    cases hdns
  · obtain ⟨again, hagain, hout, hname⟩ := hlawful.process_again mapped processed hprocessed
    have hwidth : mapWidth unicode (processed.output mapped) = some (processed.output mapped) := by
      unfold mapWidth
      split
      · rfl
      · exact hlawful.width_output mapped processed hprocessed
    refine prepareName_eq_ok.mpr ⟨processed.output mapped, again, ?_, ?_, hagain, hout, hlen, ?_, hlabels⟩
    · rw [mapDots_of_valid hdots, hwidth]
    · rw [List.all_eq_true]
      intro c hc
      rcases hvalid c hc with rfl | hchar
      · rfl
      · simp [validMapped, hchar]
    · rw [hname, hdns]

theorem prepareDomainpart_again (hlawful : unicode.Lawful) (h : prepareDomainpart unicode input = .ok output)
    (hlength : checkLength output .domainpart = .ok ()) (hchars : containsAny output ['@', '/'] = false) :
    prepareDomainpart unicode output = .ok output := by
  obtain ⟨-, -, hprepared⟩ := prepareDomainpart_eq_ok.mp h
  have hinput := checkInputLength_of_checkLength hlength
  rw [prepareDomainpart_eq_ok]
  split at hprepared
  · obtain ⟨_, address, -, -, rfl, hlen⟩ := ipLiteral_eq_ok.mp hprepared
    have hstrip : stripDot ('[' :: (unicode.displayIpv6 address ++ [']'])) =
        '[' :: (unicode.displayIpv6 address ++ [']']) := by
      apply stripDot_of_getLast
      intro c hlast
      rw [← List.cons_append, List.getLast?_append] at hlast
      cases hlast
      decide
    rw [hstrip, if_pos List.head?_cons]
    exact ⟨hinput, hchars, ipLiteral_again hlawful hprepared⟩
  · obtain ⟨hhead, hstrip, hname⟩ := prepareName_again hlawful hprepared
    rw [hstrip, if_neg hhead]
    exact ⟨hinput, hchars, hname⟩

end Domains

/-! ### Parts that can be put together -/

/-- A part between the separators. -/
structure Fits (t : Text) : Prop where
  nonempty : t ≠ []
  short : t.byteLen ≤ maxPartLen
  noAt : '@' ∉ t
  noSlash : '/' ∉ t

/-- The parts of an address. -/
@[ext] structure Parts where
  localpart : Option Text
  domainpart : Text
  resourcepart : Option Text
  localpart_fits : ∀ t ∈ localpart, Fits t
  domainpart_fits : Fits domainpart
  resourcepart_fits : ∀ t ∈ resourcepart, t ≠ [] ∧ t.byteLen ≤ maxPartLen

/-- The text of an address in an arena fits in the 16 bits that its length is stored in. -/
theorem JidRef.resolve_cloneIn_of_lt {jid : JidRef} (h : jid.text.byteLen < 2 ^ 16) : jid.cloneIn.resolve = jid := by
  rw [JidRef.cloneIn, Jid.resolve, Fin.val_ofNat, Nat.mod_eq_of_lt h, takeBytes_self]

theorem Jid.resolve_clone (jid : Jid) : jid.resolve.cloneIn.resolve = jid.resolve :=
  JidRef.resolve_cloneIn_of_lt (lt_of_le_of_lt (byteLen_takeBytes_le jid.textLen jid.text) jid.textLen.isLt)

namespace Parts

variable (parts : Parts)

def bareText : Text := (parts.localpart.map (· ++ ['@'])).getD [] ++ parts.domainpart

def text : Text := parts.bareText ++ (parts.resourcepart.map ('/' :: ·)).getD []

/-- The address that is made of the parts. -/
def address : JidRef where
  text := parts.text
  localpartEnd := parts.localpart.map byteLen
  resourcepartStart := parts.resourcepart.map fun _ => parts.bareText.byteLen + 1

def bare : Parts := { parts with resourcepart := none, resourcepart_fits := by simp }

theorem noSlash_bareText : '/' ∉ parts.bareText := by
  rw [bareText, List.mem_append, not_or]
  refine ⟨?_, parts.domainpart_fits.noSlash⟩
  cases hlocal : parts.localpart with
  | none => simp
  | some t => simpa using (parts.localpart_fits t hlocal).noSlash

theorem byteLen_bareText : parts.bareText.byteLen ≤ 2 * maxPartLen + 1 := by
  have hdomain := parts.domainpart_fits.short
  cases hlocal : parts.localpart with
  | none =>
    simp only [bareText, hlocal, Option.map_none, Option.getD_none, List.nil_append]
    omega
  | some t =>
    have hlen := (parts.localpart_fits t hlocal).short
    have hat : Char.utf8Size '@' = 1 := rfl
    simp only [bareText, hlocal, Option.map_some, Option.getD_some, byteLen_append, byteLen_cons, hat, byteLen_nil]
    omega

theorem byteLen_text : parts.text.byteLen ≤ maxJidLen := by
  have hbare := parts.byteLen_bareText
  unfold maxJidLen
  unfold maxPartLen at hbare
  cases hresource : parts.resourcepart with
  | none =>
    simp only [text, hresource, Option.map_none, Option.getD_none, List.append_nil]
    omega
  | some t =>
    have hlen := (parts.resourcepart_fits t hresource).2
    have hslash : Char.utf8Size '/' = 1 := rfl
    simp only [text, hresource, Option.map_some, Option.getD_some, byteLen_append, byteLen_cons, hslash]
    unfold maxPartLen at hlen
    omega

theorem splitAddress_text : splitAddress parts.text = (parts.localpart, parts.domainpart, parts.resourcepart) := by
  have hbare : splitOnce '@' parts.bareText = parts.localpart.map fun t => (t, parts.domainpart) := by
    cases hlocal : parts.localpart with
    | none =>
      simp only [bareText, hlocal, Option.map_none, Option.getD_none, List.nil_append]
      exact splitOnce_eq_none parts.domainpart_fits.noAt
    | some t =>
      simp only [bareText, hlocal, Option.map_some, Option.getD_some, List.append_assoc, List.cons_append,
        List.nil_append]
      exact splitOnce_append t parts.domainpart (parts.localpart_fits t hlocal).noAt
  have htext : splitOnce '/' parts.text = parts.resourcepart.map fun t => (parts.bareText, t) := by
    cases hresource : parts.resourcepart with
    | none =>
      simp only [text, hresource, Option.map_none, Option.getD_none, List.append_nil]
      exact splitOnce_eq_none parts.noSlash_bareText
    | some t =>
      simp only [text, hresource, Option.map_some, Option.getD_some]
      exact splitOnce_append parts.bareText t parts.noSlash_bareText
  unfold splitAddress
  rw [htext]
  cases hresource : parts.resourcepart with
  | none =>
    have hsame : parts.text = parts.bareText := by simp [text, hresource]
    simp only [Option.map_none, hsame, hbare]
    cases hlocal : parts.localpart with
    | none => simp [bareText, hlocal]
    | some t => rfl
  | some r =>
    simp only [Option.map_some, hbare]
    cases hlocal : parts.localpart with
    | none => simp [bareText, hlocal]
    | some t => rfl

@[simp] theorem bareLen_address : parts.address.bareLen = parts.bareText.byteLen := by
  cases hresource : parts.resourcepart <;> simp [JidRef.bareLen, address, text, hresource]

theorem takeBytes_text : parts.text.takeBytes parts.bareText.byteLen = parts.bareText :=
  takeBytes_append _ _

@[simp] theorem localpart_address : parts.address.localpart = parts.localpart := by
  cases hlocal : parts.localpart with
  | none => simp [JidRef.localpart, address, hlocal]
  | some t => simp [JidRef.localpart, address, text, bareText, hlocal]

@[simp] theorem domainpart_address : parts.address.domainpart = parts.domainpart := by
  have htake : parts.address.text.takeBytes parts.bareText.byteLen = parts.bareText := parts.takeBytes_text
  rw [JidRef.domainpart, bareLen_address, htake]
  cases hlocal : parts.localpart with
  | none => simp [address, bareText, hlocal]
  | some t =>
    have hlen : byteLen t + 1 = byteLen (t ++ ['@']) := by
      rw [byteLen_append]
      rfl
    simp only [address, bareText, hlocal, Option.map_some, Option.getD_some, hlen, dropBytes_append]

@[simp] theorem resourcepart_address : parts.address.resourcepart = parts.resourcepart := by
  cases hresource : parts.resourcepart with
  | none => simp [JidRef.resourcepart, address, hresource]
  | some t =>
    have htext : parts.text = (parts.bareText ++ ['/']) ++ t := by simp [text, hresource]
    have hlen : parts.bareText.byteLen + 1 = byteLen (parts.bareText ++ ['/']) := by
      rw [byteLen_append]
      rfl
    simp only [JidRef.resourcepart, address, hresource, Option.map_some, htext, hlen, dropBytes_append]

theorem text_bare : parts.bare.text = parts.bareText := by
  simp [text, bare, bareText]

theorem bare_address : parts.address.bare = parts.bare.address := by
  rw [JidRef.bare, bareLen_address]
  exact JidRef.ext (parts.takeBytes_text.trans parts.text_bare.symm) rfl rfl

theorem textLen_lt : parts.text.byteLen < 2 ^ 16 :=
  lt_of_le_of_lt parts.byteLen_text (by decide)

@[simp] theorem resolve_cloneIn : parts.address.cloneIn.resolve = parts.address :=
  JidRef.resolve_cloneIn_of_lt parts.textLen_lt

theorem resolve_bare : parts.address.cloneIn.bare.resolve = parts.bare.address := by
  rw [← bare_address, JidRef.bare, bareLen_address]
  have hlen : parts.bareText.byteLen % 65536 = parts.bareText.byteLen :=
    Nat.mod_eq_of_lt (lt_of_le_of_lt parts.byteLen_bareText (by decide))
  cases hresource : parts.resourcepart with
  | none =>
    have hsame : parts.text = parts.bareText := by simp [text, hresource]
    simp [Jid.bare, Jid.resolve, JidRef.cloneIn, address, hresource, hsame, hlen]
  | some t => simp [Jid.bare, Jid.resolve, JidRef.cloneIn, address, hresource, hlen]

end Parts

theorem nonZeroU16_of_lt {n : Nat} (hpos : 0 < n) (hlt : n < 2 ^ 16) : nonZeroU16 n = some n := by
  rw [nonZeroU16, Nat.mod_eq_of_lt hlt, if_neg (by omega)]

theorem fits_iff {t : Text} : (t ≠ [] ∧ t.byteLen ≤ maxPartLen) ∧ containsAny t ['@', '/'] = false ↔ Fits t := by
  rw [containsAny_eq_false]
  constructor
  · rintro ⟨⟨hne, hlen⟩, hchars⟩
    exact ⟨hne, hlen, hchars '@' (by decide), hchars '/' (by decide)⟩
  · intro h
    refine ⟨⟨h.nonempty, h.short⟩, fun c hc => ?_⟩
    simp only [List.mem_cons, List.not_mem_nil, or_false] at hc
    rcases hc with rfl | rfl
    · exact h.noAt
    · exact h.noSlash

theorem byteLen_pos {t : Text} (h : t ≠ []) : 0 < t.byteLen := by
  cases t with
  | nil => exact absurd rfl h
  | cons c t =>
    have hpos := c.utf8Size_pos
    rw [byteLen_cons]
    omega

theorem forM_eq_ok {α : Type} {o : Option α} {f : α → Except JidError PUnit} :
    o.forM f = .ok () ↔ ∀ a ∈ o, f a = .ok () := by
  cases o <;> simp [Option.forM, pure, Except.pure]

theorem checkParts_eq_ok {localpart : Option Text} {domainpart : Text} {resourcepart : Option Text} :
    checkParts localpart domainpart resourcepart = .ok () ↔
      (∀ t ∈ localpart, Fits t) ∧ Fits domainpart ∧ ∀ t ∈ resourcepart, t ≠ [] ∧ t.byteLen ≤ maxPartLen := by
  simp only [checkParts, except_bind_eq_ok, exists_unit, rejectIf_eq_ok, forM_eq_ok, fits_iff, checkLength_eq_ok]
  rw [← and_assoc (b := containsAny domainpart ['@', '/'] = false), fits_iff]

theorem composeParts_eq_ok {localpart : Option Text} {domainpart : Text} {resourcepart : Option Text}
    {jid : JidRef} (h : composeParts localpart domainpart resourcepart = .ok jid) :
    ∃ parts : Parts, parts.localpart = localpart ∧ parts.domainpart = domainpart ∧
      parts.resourcepart = resourcepart ∧ jid = parts.address := by
  simp only [composeParts, except_bind_eq_ok, exists_unit, except_pure_eq_ok] at h
  obtain ⟨hcheck, rfl⟩ := h
  obtain ⟨hlocal, hdomain, hresource⟩ := checkParts_eq_ok.mp hcheck
  let parts : Parts := ⟨localpart, domainpart, resourcepart, hlocal, hdomain, hresource⟩
  refine ⟨parts, rfl, rfl, rfl, JidRef.ext rfl ?_ ?_⟩
  · cases localpart with
    | none => rfl
    | some t =>
      have hlen : t.byteLen < 2 ^ 16 := lt_of_le_of_lt (hlocal t rfl).short (by decide)
      exact nonZeroU16_of_lt (byteLen_pos (hlocal t rfl).nonempty) hlen
  · cases resourcepart with
    | none => rfl
    | some t =>
      have hlen : parts.bareText.byteLen + 1 < 2 ^ 16 :=
        lt_of_le_of_lt (Nat.succ_le_succ parts.byteLen_bareText) (by decide)
      exact nonZeroU16_of_lt (Nat.succ_pos _) hlen

theorem composeParts_parts (parts : Parts) :
    composeParts parts.localpart parts.domainpart parts.resourcepart = .ok parts.address := by
  have hcheck : checkParts parts.localpart parts.domainpart parts.resourcepart = .ok () :=
    checkParts_eq_ok.mpr ⟨parts.localpart_fits, parts.domainpart_fits, parts.resourcepart_fits⟩
  cases hcompose : composeParts parts.localpart parts.domainpart parts.resourcepart with
  | error e =>
    rw [composeParts, hcheck] at hcompose
    cases hcompose
  | ok jid =>
    obtain ⟨parts', hlocal, hdomain, hresource, rfl⟩ := composeParts_eq_ok hcompose
    rw [Parts.ext hlocal hdomain hresource]

/-! ### Addresses that parse -/

/-- The parts are left alone by their preparation. -/
structure Prepared (unicode : Unicode) (parts : Parts) : Prop where
  localpart : ∀ t ∈ parts.localpart, prepareLocalpart unicode t = .ok t
  domainpart : prepareDomainpart unicode parts.domainpart = .ok parts.domainpart
  resourcepart : ∀ t ∈ parts.resourcepart, prepareResourcepart unicode t = .ok t

variable {prepare : Text → Except JidError Text} {o : Option Text} {o' : Option Text}

theorem prepareOptional_eq_ok :
    prepareOptional prepare o = .ok o' ↔
      (o = none ∧ o' = none) ∨ ∃ t t', o = some t ∧ o' = some t' ∧ prepare t = .ok t' := by
  cases o with
  | none => simp [prepareOptional, pure, Except.pure, eq_comm]
  | some t =>
    simp only [prepareOptional, except_bind_eq_ok, except_pure_eq_ok]
    constructor
    · rintro ⟨t', ht', rfl⟩
      exact .inr ⟨t, t', rfl, rfl, ht'⟩
    · rintro (⟨h, -⟩ | ⟨_, t', h, rfl, ht'⟩)
      · cases h
      · cases h
        exact ⟨t', ht', rfl⟩

theorem prepareOptional_self (h : ∀ t ∈ o, prepare t = .ok t) : prepareOptional prepare o = .ok o := by
  rw [prepareOptional_eq_ok]
  cases o with
  | none => exact .inl ⟨rfl, rfl⟩
  | some t => exact .inr ⟨t, t, rfl, rfl, h t rfl⟩

theorem prepareOptional_again (hstable : ∀ t u, prepare t = .ok u → prepare u = .ok u)
    (h : prepareOptional prepare o = .ok o') : ∀ t ∈ o', prepare t = .ok t := by
  intro u hu
  rcases prepareOptional_eq_ok.mp h with ⟨-, rfl⟩ | ⟨t, t', -, rfl, ht'⟩
  · cases hu
  · cases hu
    exact hstable t _ ht'

section Parsing

variable {unicode : Unicode} {input : Text} {jid : Jid} {parts : Parts}

theorem prepared_of_parse (hlawful : unicode.Lawful) (h : parse unicode input = .ok jid) :
    ∃ parts, Prepared unicode parts ∧ jid = parts.address.cloneIn := by
  simp only [parse, fromParts, fromTrustedParts, except_bind_eq_ok, except_pure_eq_ok] at h
  obtain ⟨localpart, hlocal, domainpart, hdomain, resourcepart, hresource, ref, hcompose, rfl⟩ := h
  obtain ⟨parts, rfl, rfl, rfl, rfl⟩ := composeParts_eq_ok hcompose
  obtain ⟨hlength, hchars⟩ := fits_iff.mpr parts.domainpart_fits
  refine ⟨parts, ⟨?_, ?_, ?_⟩, rfl⟩
  · exact prepareOptional_again (fun _ _ => prepareLocalpart_again hlawful) hlocal
  · exact prepareDomainpart_again hlawful hdomain (checkLength_eq_ok.mpr hlength) hchars
  · exact prepareOptional_again (fun _ _ => prepareResourcepart_again hlawful) hresource

variable (h : Prepared unicode parts)
include h

theorem parse_text : parse unicode parts.text = .ok parts.address.cloneIn := by
  simp only [parse, parts.splitAddress_text, fromParts, fromTrustedParts, prepareOptional_self h.localpart,
    h.domainpart, prepareOptional_self h.resourcepart, bind, Except.bind, composeParts_parts]
  rfl

theorem Prepared.bare : Prepared unicode parts.bare :=
  ⟨h.localpart, h.domainpart, fun _ ht => nomatch ht⟩

theorem parse_withResource (resourcepart : Text) :
    parse unicode (parts.bareText ++ '/' :: resourcepart) = parts.address.withResource unicode resourcepart := by
  have hsplit : splitAddress (parts.bareText ++ '/' :: resourcepart) =
      (parts.localpart, parts.domainpart, some resourcepart) := by
    have hbare := parts.bare.splitAddress_text
    unfold splitAddress at hbare ⊢
    rw [splitOnce_append _ _ parts.noSlash_bareText]
    rw [parts.text_bare, splitOnce_eq_none parts.noSlash_bareText] at hbare
    simp only [Prod.mk.injEq] at hbare ⊢
    exact ⟨hbare.1, hbare.2.1, trivial⟩
  simp only [parse, hsplit, fromParts, prepareOptional_self h.localpart, h.domainpart, JidRef.withResource,
    Parts.localpart_address, Parts.domainpart_address]
  cases hresource : prepareResourcepart unicode resourcepart with
  | error e => simp [prepareOptional, hresource, bind, Except.bind]
  | ok t => simp [prepareOptional, hresource, bind, Except.bind, pure, Except.pure]

theorem withCanonicalJid_parts {maxLen : Nat} (hlen : parts.text.byteLen ≤ maxLen) :
    withCanonicalJid unicode parts.text maxLen = some parts.address := by
  rw [withCanonicalJid, if_neg (Nat.not_lt.mpr hlen), parse_text h]
  have hsame : parts.address.text = parts.text := rfl
  simp [hsame]

end Parsing

/-- The addresses of rosters, with the parser of this module. -/
def Unicode.jidSyntax (unicode : Unicode) : JidSyntax where
  parse input := match parse unicode input with
    | .ok jid => some jid.resolve.text
    | .error _ => none

/-- A parsed address is a fixed point of the parser, with the offsets of its parts, and agrees with its bare
form, its full forms and the checks of what is stored. -/
theorem parsed_jid_canonical (unicode : Unicode) (hlawful : unicode.Lawful) (input : Text) (jid : Jid)
    (h : parse unicode input = .ok jid) :
    parse unicode jid.resolve.text = .ok jid ∧
    jid.resolve.text = (jid.resolve.localpart.map (· ++ ['@'])).getD [] ++ jid.resolve.domainpart ++
      (jid.resolve.resourcepart.map ('/' :: ·)).getD [] ∧
    (∀ t ∈ jid.resolve.localpart, '@' ∉ t ∧ '/' ∉ t) ∧
    ('@' ∉ jid.resolve.domainpart ∧ '/' ∉ jid.resolve.domainpart) ∧
    (jid.textLen = jid.text.byteLen ∧ jid.text.byteLen < 2 ^ 16 ∧
      jid.localpartEnd = jid.resolve.localpart.map byteLen ∧ (∀ n ∈ jid.localpartEnd, 0 < n ∧ n < 2 ^ 16) ∧
      jid.resourcepartStart = jid.resolve.resourcepart.map (fun _ => jid.resolve.bare.text.byteLen + 1) ∧
      ∀ n ∈ jid.resourcepartStart, 0 < n ∧ n < 2 ^ 16) ∧
    (jid.bare.resolve = jid.resolve.bare ∧
      ∃ bare, parse unicode jid.resolve.bare.text = .ok bare ∧ bare.resolve = jid.bare.resolve) ∧
    (∀ resource, jid.withResource unicode resource = parse unicode (jid.resolve.bare.text ++ '/' :: resource) ∧
      jid.resolve.withResource unicode resource = parse unicode (jid.resolve.bare.text ++ '/' :: resource)) ∧
    withCanonicalJid unicode jid.resolve.text maxJidLen = some jid.resolve ∧
    withCanonicalJid unicode jid.resolve.bare.text (2 * maxPartLen + 1) = some jid.resolve.bare ∧
    unicode.jidSyntax.canonical jid.resolve.text = true := by
  obtain ⟨parts, hprepared, rfl⟩ := prepared_of_parse hlawful h
  have htext : parts.address.text = parts.text := rfl
  have hbare : parts.bare.address.text = parts.bareText := parts.text_bare
  have hparse := parse_text hprepared
  have hstart : parts.bareText.byteLen + 1 < 2 ^ 16 :=
    lt_of_le_of_lt (Nat.succ_le_succ parts.byteLen_bareText) (by decide)
  rw [parts.resolve_cloneIn, parts.resolve_bare, parts.bare_address, htext, hbare]
  refine ⟨hparse, ?_, ?_, ?_, ⟨?_, ?_, ?_, ?_, ?_, ?_⟩, ⟨rfl, ?_⟩, ?_, ?_, ?_, ?_⟩
  · rw [parts.localpart_address, parts.domainpart_address, parts.resourcepart_address]
    rfl
  · rw [parts.localpart_address]
    exact fun t ht => ⟨(parts.localpart_fits t ht).noAt, (parts.localpart_fits t ht).noSlash⟩
  · rw [parts.domainpart_address]
    exact ⟨parts.domainpart_fits.noAt, parts.domainpart_fits.noSlash⟩
  · exact Nat.mod_eq_of_lt parts.textLen_lt
  · exact parts.textLen_lt
  · rw [parts.localpart_address]
    rfl
  · intro n hn
    obtain ⟨t, ht, rfl⟩ := Option.map_eq_some_iff.mp hn
    have hfits := parts.localpart_fits t ht
    exact ⟨byteLen_pos hfits.nonempty, lt_of_le_of_lt hfits.short (by decide)⟩
  · rw [parts.resourcepart_address]
    rfl
  · intro n hn
    obtain ⟨t, -, rfl⟩ := Option.map_eq_some_iff.mp hn
    exact ⟨Nat.succ_pos _, hstart⟩
  · exact ⟨_, parts.text_bare ▸ parse_text hprepared.bare, parts.bare.resolve_cloneIn⟩
  · intro resource
    rw [parse_withResource hprepared]
    refine ⟨?_, rfl⟩
    rw [Jid.withResource, parts.resolve_cloneIn]
    rfl
  · exact withCanonicalJid_parts hprepared parts.byteLen_text
  · rw [← parts.text_bare]
    refine withCanonicalJid_parts hprepared.bare ?_
    rw [parts.text_bare]
    exact parts.byteLen_bareText
  · have hsyntax : unicode.jidSyntax.parse parts.text = some parts.text := by
      simp only [Unicode.jidSyntax, hparse, parts.resolve_cloneIn, htext]
    simp [JidSyntax.canonical, parts.byteLen_text, hsyntax]

/-- Tables for the addresses that are written in ASCII, with one IPv6 address. -/
def asciiTables : Unicode where
  usernameCaseMapped t := if isAscii t then some (t.map Char.toLower) else none
  opaqueString t := if isAscii t then some t else none
  widthMappingRule := some
  normalizationRule := some
  process t := if isAscii t then some ⟨.wroteToSink, t.map Char.toLower, []⟩ else none
  verifyDnsLength t := t.getLast? ≠ some '.'
  isUppercase := Char.isUpper
  toLowercase c := [c.toLower]
  changesWhenNfkcCasefolded := Char.isUpper
  hangulSyllableType _ := .other
  generalCategory c := if c = '[' then .openPunctuation else .otherPunctuation
  script _ := .other
  Ipv6Addr := Unit
  parseIpv6 t := if t = [':', ':', '1'] then some () else none
  displayIpv6 _ := [':', ':', '1']

theorem isAscii_lower {t : Text} (h : isAscii t = true) :
    isAscii (t.map Char.toLower) = true ∧ (t.map Char.toLower).map Char.toLower = t.map Char.toLower := by
  have hchar : ∀ n < 128, (Char.ofNat n).toLower.toNat < 128 := by decide
  have hall : ∀ c ∈ t, c.toLower.toNat < 128 := by
    intro c hc
    have hlt : c.toNat < 128 := by simpa using List.all_eq_true.mp h c hc
    simpa using hchar c.toNat hlt
  exact ⟨by simpa [isAscii] using hall, by simp⟩

theorem asciiTables_process {t : Text} {processed : Processed} (h : asciiTables.process t = some processed) :
    isAscii t = true ∧ processed = ⟨.wroteToSink, t.map Char.toLower, []⟩ := by
  simp only [asciiTables] at h
  split at h
  next hascii =>
    cases h
    exact ⟨hascii, rfl⟩
  next => cases h

theorem lawful_asciiTables : asciiTables.Lawful where
  username_again t u h := by
    simp only [asciiTables] at h ⊢
    split at h
    next hascii =>
      cases h
      obtain ⟨hlower, hagain⟩ := isAscii_lower hascii
      rw [if_pos hlower, hagain]
    next => cases h
  opaque_again t u h := by
    simp only [asciiTables] at h ⊢
    split at h
    next hascii =>
      cases h
      rw [if_pos hascii]
    next => cases h
  process_again t processed h := by
    obtain ⟨hascii, rfl⟩ := asciiTables_process h
    obtain ⟨hlower, hagain⟩ := isAscii_lower hascii
    exact ⟨⟨.wroteToSink, (t.map Char.toLower).map Char.toLower, []⟩, if_pos hlower, hagain, hagain⟩
  width_output t processed h := rfl
  dns_length t processed h hlast := by
    obtain ⟨-, rfl⟩ := asciiTables_process h
    have hname : asciiTables.verifyDnsLength (t.map Char.toLower) = false := decide_eq_false fun hne => hne hlast
    exact hname
  category_bracket := rfl
  category_dots c hc := by
    simp only [ideographicDots, List.mem_cons, List.not_mem_nil, or_false] at hc
    rcases hc with rfl | rfl | rfl <;> rfl
  address_again _ := rfl

def balconyInput : Text := "Juliet@Example.COM./Balcony".toList

def balcony : Jid := ⟨"juliet@example.com/Balcony".toList, ⟨26, by decide⟩, some 6, some 19⟩

theorem parsed_jid_canonical_balcony : parse asciiTables balconyInput = .ok balcony ∧
    parse asciiTables balcony.resolve.text = .ok balcony :=
  have hparse : parse asciiTables balconyInput = .ok balcony := by rfl
  ⟨hparse, (parsed_jid_canonical asciiTables lawful_asciiTables balconyInput balcony hparse).1⟩

end Lonewolf.Xmpp

import Lonewolf.Base.Deliveries

/-!
# The limited reader

`parser/input.rs`: the reader that limits the bytes of a stanza. It skips the white space before a stanza without
charging it, and gives the footer of the stream a limit of its own when it sees its first two bytes, in one piece or
in two. The parser above it is any consumer of bytes that ends an event, if not with an error, only with `>`.
-/

namespace Lonewolf.Xmpp

open Deliveries

/-- Applies separately to the XML declaration, stream header, and stream footer. -/
def maxStreamHeaderBytes : Nat := 16384

def isWhitespace (byte : UInt8) : Bool :=
  [' '.toUInt8, '\t'.toUInt8, '\r'.toUInt8, '\n'.toUInt8].contains byte

structure LimitedReader where
  remaining : Nat
  limit : Nat
  skipWhitespace : Bool
  whitespaceSkipped : Bool
  openingBracket : Bool

/-- The result of a poll; `underflow` stands for a subtraction that would wrap. -/
inductive Poll where
  | pending
  | failed (limit : Nat)
  | underflow
  | ready (available : List UInt8)
  deriving DecidableEq

namespace LimitedReader

/-- `new`, and `reset` that leaves the inner reader as it is. -/
def new (limit : Nat) : LimitedReader := ⟨limit, limit, true, false, false⟩

/-- The loop of `poll_fill_buf` over white space, with the rounds after which it yields. The result tells whether
the loop has ended. -/
def skip : Nat → LimitedReader → Input UInt8 → Bool × LimitedReader × Input UInt8
  -- Endless stream whitespace must not monopolize the executor.
  | 0, reader, input => (false, reader, input)
  | rounds + 1, reader, input =>
    if !reader.skipWhitespace then (true, reader, input)
    else match input.poll with
      | (none, input) => (false, reader, input)
      | (some available, input) =>
        let whitespace := (available.takeWhile isWhitespace).length
        if whitespace = 0 then (true, { reader with skipWhitespace := false }, input)
        else skip rounds { reader with whitespaceSkipped := true } (input.consume whitespace)

variable (reader : LimitedReader)

def consumed : Nat := reader.limit - reader.remaining

/-- The first byte of an event is looked at. -/
def noteBracket (available : List UInt8) : LimitedReader :=
  if reader.consumed = 0 then { reader with openingBracket := available.head? = some '<'.toUInt8 } else reader

/-- What is available is the beginning of the stream footer, or goes on with it. -/
def isFooter (available : List UInt8) : Bool :=
  (reader.consumed = 0 && ['<'.toUInt8, '/'.toUInt8].isPrefixOf available) ||
    (reader.consumed = 1 && reader.openingBracket && available.head? = some '/'.toUInt8)

/-- The stream footer has its own budget, independent of stanza size. -/
def takeFooter : LimitedReader :=
  { reader with limit := maxStreamHeaderBytes, remaining := maxStreamHeaderBytes - reader.consumed }

/-- The end of `poll_fill_buf`. -/
def offer (available : List UInt8) : Poll × LimitedReader :=
  if reader.remaining = 0 then (.failed reader.limit, reader) else (.ready (available.take reader.remaining), reader)

/-- What `poll_fill_buf` does with what is available. -/
def fill (available : List UInt8) : Poll × LimitedReader :=
  if reader.limit < reader.remaining then (.underflow, reader)
  else
    let reader := reader.noteBracket available
    if reader.isFooter available then
      if maxStreamHeaderBytes < reader.consumed then (.underflow, reader) else reader.takeFooter.offer available
    else reader.offer available

def pollFillBuf (input : Input UInt8) : Poll × LimitedReader × Input UInt8 :=
  match skip 64 reader input with
  | (false, reader, input) => (.pending, reader, input)
  | (true, reader, input) =>
    if reader.remaining = 0 ∧ ¬(reader.limit = 1 ∧ reader.openingBracket) then (.failed reader.limit, reader, input)
    else match input.poll with
      | (none, input) => (.pending, reader, input)
      | (some available, input) =>
        let (result, reader) := reader.fill available
        (result, reader, input)

/-- `consume`; no reader is left when the counter would wrap. -/
def consume (amount : Nat) : Option LimitedReader :=
  if reader.remaining < amount then none else some { reader with remaining := reader.remaining - amount }

end LimitedReader

/-! ### A parser on top of the reader -/

/-- A parser, as far as the reader can tell: when an event is complete the limit of the next one is set. -/
structure Consumer (σ : Type) where
  next : σ → UInt8 → σ
  completes : σ → UInt8 → Option Nat
  /-- An event is complete with `>`, and no limit is zero. -/
  completes_end : ∀ {state byte limit}, completes state byte = some limit → byte = '>'.toUInt8 ∧ 0 < limit

inductive Entry where
  | skipped (byte : UInt8)
  | seen (byte : UInt8)
  /-- An event is complete, with the limit, the bytes that were charged, and whether white space came before. -/
  | completed (limit charged : Nat) (whitespaceSkipped : Bool)
  deriving DecidableEq

inductive Outcome where
  | failed (limit : Nat)
  | underflow
  | ended
  deriving DecidableEq

/-- The reader over its transport, the state of the parser, and what has happened. -/
structure Session (σ : Type) where
  reader : LimitedReader
  input : Input UInt8
  state : σ
  log : List Entry

variable {σ : Type}

/-- The bytes that the parser takes of what is available: at most so many, and none after the end of an event. -/
def Consumer.take (consumer : Consumer σ) : σ → Nat → List UInt8 → List UInt8 × σ × Option Nat
  | state, 0, _ => ([], state, none)
  | state, _, [] => ([], state, none)
  | state, count + 1, byte :: rest =>
    match consumer.completes state byte with
    | some limit => ([byte], consumer.next state byte, some limit)
    | none =>
      let (bytes, state, completed) := consumer.take (consumer.next state byte) count rest
      (byte :: bytes, state, completed)

/-- The parser polls once, and takes at most so many bytes of what is there. -/
def Session.poll (consumer : Consumer σ) (session : Session σ) (count : Nat) : Session σ × Option Outcome :=
  let (result, reader, input) := session.reader.pollFillBuf session.input
  let skipped := session.input.bytes.take (session.input.bytes.length - input.bytes.length)
  let session := { session with reader := reader, input := input, log := session.log ++ skipped.map .skipped }
  match result with
  | .pending => (session, none)
  | .failed limit => (session, some (.failed limit))
  | .underflow => (session, some .underflow)
  | .ready available =>
    if available.isEmpty then (session, some .ended)
    else
      let (bytes, state, completed) := consumer.take session.state count available
      match reader.consume bytes.length with
      | none => (session, some .underflow)
      | some reader =>
        let input := input.consume bytes.length
        let log := session.log ++ bytes.map .seen
        match completed with
        | none => (⟨reader, input, state, log⟩, none)
        | some limit =>
          let entry := .completed reader.limit reader.consumed reader.whitespaceSkipped
          (⟨.new limit, input, state, log ++ [entry]⟩, none)

/-- The parser polls until there is an outcome or it polls no more. -/
def Session.run (consumer : Consumer σ) : List Nat → Session σ → Session σ × Option Outcome
  | [], session => (session, none)
  | count :: counts, session =>
    match session.poll consumer count with
    | (session, none) => session.run consumer counts
    | (session, some outcome) => (session, some outcome)

/-! ### The same for single bytes -/

/-- The limit that holds, the bytes that were charged, and what the reader knows about the bytes before. -/
structure Charge where
  limit : Nat
  charged : Nat
  skip : Bool
  skipped : Bool
  opening : Bool

namespace Charge

def new (limit : Nat) : Charge := ⟨limit, 0, true, false, false⟩

/-- The footer of the stream begins with `</`. -/
def footer (charge : Charge) (byte : UInt8) : Charge :=
  if charge.charged = 1 ∧ charge.opening ∧ byte = '/'.toUInt8 then { charge with limit := maxStreamHeaderBytes } else charge

def see (charge : Charge) (byte : UInt8) : Charge :=
  { charge with
    charged := charge.charged + 1
    skip := false
    opening := if charge.charged = 0 then byte = '<'.toUInt8 else charge.opening }

end Charge

/-- What happens to a stream of bytes, byte by byte. -/
def observe (consumer : Consumer σ) : Charge → σ → List UInt8 → List Entry × Outcome
  | charge, _, [] => ([], if charge.charged = charge.limit then .failed charge.limit else .ended)
  | charge, state, byte :: rest =>
    if charge.skip ∧ isWhitespace byte then
      let (log, outcome) := observe consumer { charge with skipped := true } state rest
      (.skipped byte :: log, outcome)
    else if (charge.footer byte).charged = (charge.footer byte).limit then ([], .failed (charge.footer byte).limit)
    else
      let charge := (charge.footer byte).see byte
      match consumer.completes state byte with
      | none =>
        let (log, outcome) := observe consumer charge (consumer.next state byte) rest
        (.seen byte :: log, outcome)
      | some limit =>
        let (log, outcome) := observe consumer (.new limit) (consumer.next state byte) rest
        (.seen byte :: .completed charge.limit charge.charged charge.skipped :: log, outcome)

/-! ### Looking ahead changes nothing -/

/-- What happens after some entries of the log. -/
def after (log : List Entry) (observed : List Entry × Outcome) : List Entry × Outcome :=
  (log ++ observed.1, observed.2)

theorem after_append (log log' : List Entry) (observed : List Entry × Outcome) :
    after (log ++ log') observed = after log (after log' observed) := by
  simp [after]

section Observe

variable {consumer : Consumer σ} {charge : Charge} {state : σ} {byte : UInt8} {bytes rest : List UInt8}

theorem observe_skipped (hskip : charge.skip = true) (hbyte : isWhitespace byte) :
    observe consumer charge state (byte :: rest) =
      after [.skipped byte] (observe consumer { charge with skipped := true } state rest) := by
  rw [observe, if_pos ⟨hskip, hbyte⟩]
  rfl

theorem observe_whitespace {whitespace : List UInt8} (hskip : charge.skip = true) (hne : whitespace ≠ [])
    (hall : ∀ byte ∈ whitespace, isWhitespace byte) :
    observe consumer charge state (whitespace ++ rest) =
      after (whitespace.map .skipped) (observe consumer { charge with skipped := true } state rest) := by
  induction whitespace generalizing charge with
  | nil => exact absurd rfl hne
  | cons byte others ih =>
    rw [List.cons_append, observe_skipped hskip (hall byte List.mem_cons_self)]
    by_cases hothers : others = []
    · rw [hothers]
      rfl
    · have hrest := @ih { charge with skipped := true } hskip hothers
        fun other hmem => hall other (List.mem_cons_of_mem byte hmem)
      rw [hrest, ← after_append]
      rfl

theorem observe_charged (hskip : ¬(charge.skip ∧ isWhitespace byte))
    (hlimit : (charge.footer byte).charged ≠ (charge.footer byte).limit)
    (hcompletes : consumer.completes state byte = none) :
    observe consumer charge state (byte :: rest) =
      after [.seen byte] (observe consumer ((charge.footer byte).see byte) (consumer.next state byte) rest) := by
  rw [observe, if_neg hskip, if_neg hlimit, hcompletes]
  rfl

theorem observe_completed {limit : Nat} (hskip : ¬(charge.skip ∧ isWhitespace byte))
    (hlimit : (charge.footer byte).charged ≠ (charge.footer byte).limit)
    (hcompletes : consumer.completes state byte = some limit) :
    observe consumer charge state (byte :: rest) =
      after [.seen byte, .completed (charge.footer byte).limit ((charge.footer byte).charged + 1)
        (charge.footer byte).skipped] (observe consumer (.new limit) (consumer.next state byte) rest) := by
  rw [observe, if_neg hskip, if_neg hlimit, hcompletes]
  rfl

theorem Charge.footer_skip (charge : Charge) (byte : UInt8) (skip : Bool) :
    ({ charge with skip := skip } : Charge).footer byte = { charge.footer byte with skip := skip } := by
  unfold Charge.footer
  split <;> rfl

theorem observe_noSkip (h : ∀ byte, bytes.head? = some byte → isWhitespace byte = false) :
    observe consumer { charge with skip := false } state bytes = observe consumer charge state bytes := by
  cases bytes with
  | nil => rfl
  | cons byte rest =>
    have hbyte := h byte rfl
    simp [observe, hbyte, Charge.footer_skip, Charge.see]

theorem Charge.footer_of_ne (hcharged : charge.charged ≠ 1) : charge.footer byte = charge :=
  if_neg fun h => hcharged h.1

theorem observe_opening (opening : Bool) (hskip : charge.skip = false) (hcharged : charge.charged = 0) :
    observe consumer { charge with opening := opening } state bytes = observe consumer charge state bytes := by
  cases bytes with
  | nil => rfl
  | cons byte rest =>
    have hne : charge.charged ≠ 1 := by omega
    have hne' : ({ charge with opening := opening } : Charge).charged ≠ 1 := hne
    rw [observe, observe, Charge.footer_of_ne hne, Charge.footer_of_ne hne']
    simp [Charge.see, hskip, hcharged]

theorem observe_footer_second (hskip : charge.skip = false) (hcharged : charge.charged = 1)
    (hopening : charge.opening = true) (h : bytes.head? = some '/'.toUInt8) :
    observe consumer { charge with limit := maxStreamHeaderBytes } state bytes =
      observe consumer charge state bytes := by
  obtain ⟨rest, rfl⟩ := List.head?_eq_some_iff.mp h
  have hfooter : charge.footer '/'.toUInt8 = { charge with limit := maxStreamHeaderBytes } :=
    if_pos ⟨hcharged, hopening, rfl⟩
  have hagain : ({ charge with limit := maxStreamHeaderBytes } : Charge).footer '/'.toUInt8 =
      { charge with limit := maxStreamHeaderBytes } := if_pos ⟨hcharged, hopening, rfl⟩
  have hseen : ¬(charge.skip = true ∧ isWhitespace '/'.toUInt8 = true) := by simp [hskip]
  rw [observe, observe, hfooter, hagain]
  exact (if_neg hseen).trans (if_neg hseen).symm

theorem observe_footer_first (hskip : charge.skip = false) (hcharged : charge.charged = 0) (hlimit : 0 < charge.limit)
    (h : ['<'.toUInt8, '/'.toUInt8] <+: bytes) :
    observe consumer { charge with limit := maxStreamHeaderBytes } state bytes =
      observe consumer charge state bytes := by
  obtain ⟨rest, rfl⟩ := h
  have hcompletes : consumer.completes state '<'.toUInt8 = none := by
    by_contra hne
    obtain ⟨limit, hlimit⟩ := Option.ne_none_iff_exists'.mp hne
    exact absurd (consumer.completes_end hlimit).1 (by decide)
  have hstep : ∀ limit, 0 < limit →
      observe consumer { charge with limit := limit } state ('<'.toUInt8 :: '/'.toUInt8 :: rest) =
        after [.seen '<'.toUInt8] (observe consumer ⟨limit, 1, false, charge.skipped, true⟩
          (consumer.next state '<'.toUInt8) ('/'.toUInt8 :: rest)) := by
    intro limit hpos
    have hne : ({ charge with limit := limit } : Charge).charged ≠ 1 := by
      simp only [hcharged]
      omega
    rw [observe_charged (by simp [hskip]) _ hcompletes, Charge.footer_of_ne hne]
    · simp [Charge.see, hcharged]
    · rw [Charge.footer_of_ne hne]
      simp only [hcharged]
      omega
  have hsecond := @observe_footer_second σ consumer ⟨charge.limit, 1, false, charge.skipped, true⟩
    (consumer.next state '<'.toUInt8) ('/'.toUInt8 :: rest) rfl rfl rfl rfl
  calc observe consumer { charge with limit := maxStreamHeaderBytes } state ('<'.toUInt8 :: '/'.toUInt8 :: rest)
      = _ := hstep _ (by decide)
    _ = _ := by rw [hsecond]
    _ = _ := (hstep charge.limit hlimit).symm

end Observe

/-! ### The reader -/

namespace LimitedReader

def charge (reader : LimitedReader) : Charge :=
  ⟨reader.limit, reader.consumed, reader.skipWhitespace, reader.whitespaceSkipped, reader.openingBracket⟩

theorem charge_new (limit : Nat) : (new limit).charge = .new limit := by
  simp only [charge, consumed, new, Nat.sub_self]
  rfl

structure Sound (reader : LimitedReader) : Prop where
  remaining : reader.remaining ≤ reader.limit
  limit : 0 < reader.limit

/-- What is still to be read and to be waited for. -/
def workload (input : Input UInt8) : Nat := input.bytes.length + input.pendings

variable {reader reader' : LimitedReader} {input input' : Input UInt8}

/-- White space is skipped in any number of rounds. -/
structure Skips (reader : LimitedReader) (input : Input UInt8) (reader' : LimitedReader) (input' : Input UInt8) :
    Prop where
  sound : reader'.Sound
  bytes : ∃ whitespace, input.bytes = whitespace ++ input'.bytes ∧ ∀ {σ : Type} (consumer : Consumer σ) (state : σ),
    observe consumer reader.charge state input.bytes =
      after (whitespace.map .skipped) (observe consumer reader'.charge state input'.bytes)
  workload : workload input' ≤ workload input

theorem Skips.refl (h : reader.Sound) : Skips reader input reader input :=
  ⟨h, ⟨[], rfl, fun _ _ => rfl⟩, Nat.le_refl _⟩

theorem Skips.trans {middle : LimitedReader} {between : Input UInt8} (h : Skips reader input middle between)
    (h' : Skips middle between reader' input') : Skips reader input reader' input' := by
  obtain ⟨whitespace, hbytes, hobserve⟩ := h.bytes
  obtain ⟨whitespace', hbytes', hobserve'⟩ := h'.bytes
  refine ⟨h'.sound, ⟨whitespace ++ whitespace', ?_, fun consumer state => ?_⟩, Nat.le_trans h'.workload h.workload⟩
  · rw [hbytes, hbytes', List.append_assoc]
  · rw [hobserve, hobserve', ← after_append, List.map_append]

theorem skips_round {available : List UInt8} (h : reader.Sound) (hskip : reader.skipWhitespace = true)
    (hpoll : input.poll = (some available, input')) (hne : (available.takeWhile isWhitespace).length ≠ 0) :
    Skips reader input { reader with whitespaceSkipped := true }
      (input.consume (available.takeWhile isWhitespace).length) ∧
      workload (input.consume (available.takeWhile isWhitespace).length) < workload input := by
  obtain ⟨-, hfront, -⟩ := Input.poll_ready hpoll
  have hle : (available.takeWhile isWhitespace).length ≤ available.length := (List.takeWhile_prefix _).length_le
  obtain ⟨hbytes, hpendings⟩ := Input.bytes_consume hpoll hle
  have hsplit : input.bytes = available.takeWhile isWhitespace ++
      (input.consume (available.takeWhile isWhitespace).length).bytes := by
    have htake : available.takeWhile isWhitespace = input.bytes.take (available.takeWhile isWhitespace).length :=
      List.prefix_iff_eq_take.mp ((List.takeWhile_prefix _).trans hfront)
    rw [hbytes]
    calc input.bytes = _ ++ _ := (List.take_append_drop (available.takeWhile isWhitespace).length _).symm
      _ = _ := by rw [← htake]
  have hlength := congrArg List.length hsplit
  rw [List.length_append] at hlength
  refine ⟨⟨⟨h.remaining, h.limit⟩, ⟨_, hsplit, fun consumer state => ?_⟩, ?_⟩, ?_⟩
  · nth_rewrite 1 [hsplit]
    refine observe_whitespace hskip ?_ fun byte hmem => List.mem_takeWhile_imp hmem
    exact fun hnil => hne (by rw [hnil]; rfl)
  · simp only [workload, hpendings]
    omega
  · simp only [workload, hpendings]
    omega

theorem skip_spec {rounds : Nat} {done : Bool} (h : reader.Sound)
    (heq : skip rounds reader input = (done, reader', input')) :
    Skips reader input reader' input' ∧ (done = true → reader'.skipWhitespace = false) ∧
      (done = false → rounds ≠ 0 → workload input' < workload input) := by
  induction rounds generalizing reader input with
  | zero =>
    cases heq
    exact ⟨.refl h, nofun, fun _ hne => absurd rfl hne⟩
  | succ rounds ih =>
    rw [skip] at heq
    split at heq
    next hskip =>
      cases heq
      exact ⟨.refl h, fun _ => by simpa using hskip, nofun⟩
    next hskip =>
      have hskip : reader.skipWhitespace = true := by simpa using hskip
      split at heq
      next input' hpoll =>
        cases heq
        obtain ⟨hbytes, hpendings⟩ := Input.poll_pending hpoll
        refine ⟨⟨h, ⟨[], hbytes.symm, fun _ _ => ?_⟩, ?_⟩, nofun, fun _ _ => ?_⟩
        · rw [hbytes]
          rfl
        · simp only [workload, hbytes]
          omega
        · simp only [workload, hbytes]
          omega
      next available input' hpoll =>
        obtain ⟨rfl, hfront, hend⟩ := Input.poll_ready hpoll
        simp only at heq
        split at heq
        next hnone =>
          cases heq
          refine ⟨⟨⟨h.remaining, h.limit⟩, ⟨[], rfl, fun consumer state => ?_⟩, Nat.le_refl _⟩, fun _ => rfl, nofun⟩
          refine (observe_noSkip fun byte hbyte => ?_).symm
          -- The first byte of the input is the first one available.
          cases available with
          | nil =>
            rw [hend rfl] at hbyte
            cases hbyte
          | cons first others =>
            obtain ⟨rest, hrest⟩ := hfront
            rw [← hrest] at hbyte
            cases hbyte
            by_contra hwhite
            rw [List.takeWhile_cons_of_pos (by simpa using hwhite)] at hnone
            cases hnone
        next hsome =>
          obtain ⟨hround, hless⟩ := skips_round h hskip hpoll hsome
          obtain ⟨hskips, hdone, -⟩ := ih hround.sound heq
          exact ⟨hround.trans hskips, hdone, fun _ _ => Nat.lt_of_le_of_lt hskips.workload hless⟩

/-- The reader has seen of the bytes that follow what it must know of them. -/
structure Settled (reader : LimitedReader) (bytes : List UInt8) : Prop where
  skip : reader.skipWhitespace = false
  opening : reader.consumed = 0 → ∀ byte, bytes.head? = some byte → reader.openingBracket = decide (byte = '<'.toUInt8)
  first : reader.consumed = 0 → ['<'.toUInt8, '/'.toUInt8] <+: bytes → reader.limit = maxStreamHeaderBytes
  second : reader.consumed = 1 → reader.openingBracket = true → bytes.head? = some '/'.toUInt8 →
    reader.limit = maxStreamHeaderBytes

section Fill

variable {consumer : Consumer σ} {state : σ} {available bytes : List UInt8}

theorem noteBracket_keeps (reader : LimitedReader) (available : List UInt8) :
    (reader.noteBracket available).remaining = reader.remaining ∧
      (reader.noteBracket available).limit = reader.limit ∧
      (reader.noteBracket available).consumed = reader.consumed ∧
      (reader.noteBracket available).skipWhitespace = reader.skipWhitespace := by
  unfold noteBracket
  split
  · exact ⟨rfl, rfl, rfl, rfl⟩
  · exact ⟨rfl, rfl, rfl, rfl⟩

theorem observe_noteBracket (hskip : reader.skipWhitespace = false) :
    observe consumer (reader.noteBracket available).charge state bytes = observe consumer reader.charge state bytes := by
  unfold noteBracket
  split
  next hconsumed =>
    have hcharged : reader.charge.charged = 0 := hconsumed
    exact observe_opening _ hskip hcharged
  · rfl

theorem isFooter_iff : reader.isFooter available = true ↔
    (reader.consumed = 0 ∧ ['<'.toUInt8, '/'.toUInt8] <+: available) ∨
      (reader.consumed = 1 ∧ reader.openingBracket = true ∧ available.head? = some '/'.toUInt8) := by
  simp [isFooter, and_assoc]

theorem head?_of_front {part whole : List UInt8} {byte : UInt8} (h : part <+: whole) (hbyte : part.head? = some byte) :
    whole.head? = some byte := by
  obtain ⟨rest, rfl⟩ := h
  rw [List.head?_append, hbyte]
  rfl

theorem observe_takeFooter (hskip : reader.skipWhitespace = false) (h : reader.Sound)
    (hfront : available <+: bytes) (hfooter : reader.isFooter available = true) :
    observe consumer reader.takeFooter.charge state bytes = observe consumer reader.charge state bytes := by
  have hconsumed : reader.takeFooter.consumed = reader.consumed := by
    have hle : reader.consumed ≤ maxStreamHeaderBytes := by
      rcases isFooter_iff.mp hfooter with ⟨hzero, -⟩ | ⟨hone, -⟩
      · omega
      · rw [hone]
        decide
    simp only [takeFooter, consumed] at hle ⊢
    omega
  have hcharge : reader.takeFooter.charge = { reader.charge with limit := maxStreamHeaderBytes } := by
    simp only [charge, hconsumed]
    rfl
  rw [hcharge]
  rcases isFooter_iff.mp hfooter with ⟨hzero, hstart⟩ | ⟨hone, hopening, hhead⟩
  · exact observe_footer_first hskip hzero h.limit (hstart.trans hfront)
  · exact observe_footer_second hskip hone hopening (head?_of_front hfront hhead)

theorem Settled.mono {part : List UInt8} (h : reader.Settled available) (hpart : part <+: available) :
    reader.Settled part :=
  ⟨h.skip, fun hzero byte hbyte => h.opening hzero byte (head?_of_front hpart hbyte),
    fun hzero hstart => h.first hzero (hstart.trans hpart),
    fun hone hopening hhead => h.second hone hopening (head?_of_front hpart hhead)⟩

/-- What is offered of the bytes that are available, or the error. -/
structure Offers (reader : LimitedReader) (available bytes : List UInt8) (result : Poll) : Prop where
  failed : ∀ limit, result = .failed limit → ∀ {σ : Type} (consumer : Consumer σ) (state : σ),
    observe consumer reader.charge state bytes = ([], .failed limit)
  ready : ∀ part, result = .ready part → part <+: available ∧ part.length ≤ reader.remaining ∧ reader.Settled part
  ended : result = .ready [] → ∀ {σ : Type} (consumer : Consumer σ) (state : σ),
    observe consumer reader.charge state bytes = ([], .ended)
  other : result ≠ .underflow ∧ result ≠ .pending

theorem observe_full (hskip : reader.skipWhitespace = false) (hfull : reader.remaining = 0)
    (hfooter : ∀ byte, bytes.head? = some byte → reader.charge.footer byte = reader.charge) :
    observe consumer reader.charge state bytes = ([], .failed reader.limit) := by
  have hcharged : reader.charge.charged = reader.charge.limit := by
    simp only [charge, consumed, hfull]
    rfl
  cases bytes with
  | nil =>
    rw [observe, if_pos hcharged]
    rfl
  | cons byte rest =>
    have hseen : ¬(reader.charge.skip = true ∧ isWhitespace byte = true) := by simp [charge, hskip]
    rw [observe, if_neg hseen, hfooter byte rfl, if_pos hcharged]
    rfl

variable {result : Poll}

theorem offer_spec (h : reader.Sound) (hsettled : reader.Settled available) (hfront : available <+: bytes)
    (hend : available = [] → bytes = []) (heq : reader.offer available = (result, reader')) :
    reader' = reader ∧ reader.Offers available bytes result := by
  unfold offer at heq
  split at heq
  next hfull =>
    cases heq
    refine ⟨rfl, fun limit heq => fun consumer state => ?_, nofun, nofun, nofun, nofun⟩
    cases heq
    refine observe_full hsettled.skip hfull fun byte hbyte => if_neg ?_
    rintro ⟨hone, hopening, rfl⟩
    cases available with
    | nil =>
      rw [hend rfl] at hbyte
      cases hbyte
    | cons first others =>
      obtain ⟨rest, rfl⟩ := hfront
      have hlimit := hsettled.second hone hopening hbyte
      have hconsumed : reader.limit - reader.remaining = 1 := hone
      rw [hfull, hlimit] at hconsumed
      cases hconsumed
  next hroom =>
    cases heq
    have hpart : available.take reader.remaining <+: available := List.take_prefix _ _
    refine ⟨rfl, nofun, fun part heq => ?_, fun heq => fun consumer state => ?_, nofun, nofun⟩
    · cases heq
      refine ⟨hpart, ?_, hsettled.mono hpart⟩
      rw [List.length_take]
      exact Nat.min_le_left _ _
    · have hnone : available = [] := by
        have htake := Poll.ready.inj heq
        rw [List.take_eq_nil_iff] at htake
        exact htake.resolve_left hroom
      rw [hend hnone, observe, if_neg]
      have hle := h.remaining
      simp only [charge, consumed]
      omega

theorem fill_spec (h : reader.Sound) (hskip : reader.skipWhitespace = false) (hfront : available <+: bytes)
    (hend : available = [] → bytes = []) (heq : reader.fill available = (result, reader')) :
    reader'.Sound ∧ reader'.Offers available bytes result ∧ ∀ {σ : Type} (consumer : Consumer σ) (state : σ),
      observe consumer reader'.charge state bytes = observe consumer reader.charge state bytes := by
  obtain ⟨hremaining, hlimit, hconsumed, hskip'⟩ := noteBracket_keeps reader available
  rw [hskip] at hskip'
  have hsound : (reader.noteBracket available).Sound := by
    constructor
    · rw [hremaining, hlimit]
      exact h.remaining
    · rw [hlimit]
      exact h.limit
  have hopening : (reader.noteBracket available).consumed = 0 → ∀ byte, available.head? = some byte →
      (reader.noteBracket available).openingBracket = decide (byte = '<'.toUInt8) := by
    intro hzero byte hbyte
    rw [noteBracket, if_pos (hconsumed.symm.trans hzero), hbyte]
    simp
  simp only [fill, if_neg (Nat.not_lt.mpr h.remaining)] at heq
  split at heq
  next hfooter =>
    have hle : (reader.noteBracket available).consumed ≤ 1 := by
      rcases isFooter_iff.mp hfooter with ⟨hzero, -⟩ | ⟨hone, -⟩ <;> omega
    have hheader : 1 < maxStreamHeaderBytes := by decide
    rw [if_neg (by omega)] at heq
    have hsound' : (reader.noteBracket available).takeFooter.Sound := ⟨Nat.sub_le _ _, Nat.zero_lt_of_lt hheader⟩
    have hsettled : (reader.noteBracket available).takeFooter.Settled available := by
      refine ⟨hskip', fun hzero => hopening ?_, fun _ _ => rfl, fun _ _ _ => rfl⟩
      simp only [takeFooter, consumed] at hzero hle ⊢
      omega
    obtain ⟨rfl, hoffers⟩ := offer_spec hsound' hsettled hfront hend heq
    refine ⟨hsound', hoffers, fun consumer state => ?_⟩
    rw [observe_takeFooter hskip' hsound hfront hfooter, observe_noteBracket hskip]
  next hfooter =>
    have hsettled : (reader.noteBracket available).Settled available :=
      ⟨hskip', hopening, fun hzero hstart => absurd (isFooter_iff.mpr (.inl ⟨hzero, hstart⟩)) hfooter,
        fun hone hbracket hhead => absurd (isFooter_iff.mpr (.inr ⟨hone, hbracket, hhead⟩)) hfooter⟩
    obtain ⟨rfl, hoffers⟩ := offer_spec hsound hsettled hfront hend heq
    exact ⟨hsound, hoffers, fun consumer state => observe_noteBracket hskip⟩

end Fill

/-- A poll of the reader. -/
structure Filled (reader : LimitedReader) (input : Input UInt8) (result : Poll) (reader' : LimitedReader)
    (input' : Input UInt8) : Prop extends Skips reader input reader' input' where
  pending : result = .pending → LimitedReader.workload input' < LimitedReader.workload input
  offers : result ≠ .pending → ∃ available, (∀ part, result = .ready part → input'.poll = (some available, input')) ∧
    reader'.Offers available input'.bytes result

theorem pollFillBuf_spec {result : Poll} (h : reader.Sound)
    (heq : reader.pollFillBuf input = (result, reader', input')) : Filled reader input result reader' input' := by
  unfold pollFillBuf at heq
  split at heq
  next middle between hskip =>
    cases heq
    obtain ⟨hskips, -, hless⟩ := skip_spec h hskip
    exact ⟨hskips, fun _ => hless rfl (by decide), fun hne => absurd rfl hne⟩
  next middle between hskip =>
    obtain ⟨hskips, hdone, -⟩ := skip_spec h hskip
    have hskipped := hdone rfl
    split at heq
    next hfull =>
      cases heq
      refine ⟨hskips, nofun, fun _ => ⟨[], nofun, ?_, nofun, nofun, nofun, nofun⟩⟩
      intro limit heq _ consumer state
      cases heq
      refine observe_full hskipped hfull.1 fun byte hbyte => if_neg ?_
      rintro ⟨hone, hopening, -⟩
      have hconsumed : reader'.limit - reader'.remaining = 1 := hone
      rw [hfull.1] at hconsumed
      exact hfull.2 ⟨hconsumed, hopening⟩
    next hroom =>
      split at heq
      next input' hpoll =>
        cases heq
        obtain ⟨hbytes, hpendings⟩ := Input.poll_pending hpoll
        have hless : workload input' < workload between := by
          simp only [workload, hbytes]
          omega
        refine ⟨⟨hskips.sound, ?_, Nat.le_trans (Nat.le_of_lt hless) hskips.workload⟩,
          fun _ => Nat.lt_of_lt_of_le hless hskips.workload, fun hne => absurd rfl hne⟩
        rw [hbytes]
        exact hskips.bytes
      next available input' hpoll =>
        obtain ⟨rfl, hfront, hend⟩ := Input.poll_ready hpoll
        simp only at heq
        cases hfill : middle.fill available with
        | mk result' reader'' =>
          rw [hfill] at heq
          cases heq
          obtain ⟨hsound, hoffers, hobserve⟩ := fill_spec hskips.sound hskipped hfront hend hfill
          obtain ⟨whitespace, hbytes, hobserve'⟩ := hskips.bytes
          refine ⟨⟨hsound, ⟨whitespace, hbytes, fun consumer state => ?_⟩, hskips.workload⟩, fun hpending => ?_,
            fun _ => ⟨available, fun _ _ => hpoll, hoffers⟩⟩
          · rw [hobserve', hobserve]
          · exact absurd hpending hoffers.other.2

def spend (reader : LimitedReader) (amount : Nat) : LimitedReader :=
  { reader with remaining := reader.remaining - amount }

theorem consume_eq {amount : Nat} (h : amount ≤ reader.remaining) : reader.consume amount = some (reader.spend amount) :=
  if_neg (Nat.not_lt.mpr h)

theorem spend_spend (reader : LimitedReader) (amount amount' : Nat) :
    (reader.spend amount).spend amount' = reader.spend (amount' + amount) := by
  simp only [spend, Nat.add_comm amount', Nat.sub_sub]

theorem Sound.spend (h : reader.Sound) (amount : Nat) : (reader.spend amount).Sound :=
  ⟨Nat.le_trans (Nat.sub_le _ _) h.remaining, h.limit⟩

theorem charge_spend {byte : UInt8} {part : List UInt8} (h : reader.Sound) (hsettled : reader.Settled (byte :: part))
    (hroom : 0 < reader.remaining) :
    reader.charge.footer byte = reader.charge ∧ reader.charge.charged ≠ reader.charge.limit ∧
      reader.charge.see byte = (reader.spend 1).charge ∧ (reader.spend 1).Settled part := by
  have hle := h.remaining
  have hconsumed : (reader.spend 1).consumed = reader.consumed + 1 := by
    simp only [spend, consumed]
    omega
  refine ⟨?_, ?_, ?_, ?_⟩
  · unfold Charge.footer
    split
    next hfooter =>
      obtain ⟨hone, hopening, rfl⟩ := hfooter
      have hlimit := hsettled.second hone hopening rfl
      simp only [charge, hlimit]
    · rfl
  · simp only [charge, consumed]
    omega
  · have hopening : (if reader.charge.charged = 0 then decide (byte = '<'.toUInt8) else reader.openingBracket) =
        reader.openingBracket := by
      split
      next hzero => exact (hsettled.opening hzero byte rfl).symm
      · rfl
    have hskip : (reader.spend 1).skipWhitespace = false := hsettled.skip
    simp only [Charge.see, charge, hconsumed, hskip]
    simp only [charge] at hopening
    rw [hopening]
    rfl
  · refine ⟨hsettled.skip, fun hzero => ?_, fun hzero => ?_, fun hone hopening hhead => ?_⟩
    · omega
    · omega
    · have hzero : reader.consumed = 0 := by omega
      have hbyte : byte = '<'.toUInt8 := by
        have hbracket := hsettled.opening hzero byte rfl
        have hopening : reader.openingBracket = true := hopening
        simpa [hopening] using hbracket
      obtain ⟨rest, rfl⟩ := List.head?_eq_some_iff.mp hhead
      refine hsettled.first hzero ?_
      rw [hbyte]
      exact List.prefix_append _ rest

theorem take_spec {consumer : Consumer σ} {state state' : σ} {count : Nat} {part taken rest : List UInt8}
    {completed : Option Nat} (h : reader.Sound) (hsettled : reader.Settled part) (hroom : part.length ≤ reader.remaining)
    (heq : consumer.take state count part = (taken, state', completed)) :
    taken <+: part ∧ (0 < count → part ≠ [] → taken ≠ []) ∧
      ∃ reader', reader.consume taken.length = some reader' ∧ reader'.Sound ∧
        (completed = none → observe consumer reader.charge state (part ++ rest) =
          after (taken.map .seen) (observe consumer reader'.charge state' ((part ++ rest).drop taken.length))) ∧
        ∀ limit, completed = some limit → 0 < limit ∧ observe consumer reader.charge state (part ++ rest) =
          after (taken.map .seen ++ [.completed reader'.limit reader'.consumed reader'.whitespaceSkipped])
            (observe consumer (.new limit) state' ((part ++ rest).drop taken.length)) := by
  induction part generalizing reader state count taken with
  | nil =>
    have htake : consumer.take state count [] = ([], state, none) := by cases count <;> rfl
    rw [htake] at heq
    cases heq
    exact ⟨List.prefix_rfl, fun _ hne => absurd rfl hne, reader, consume_eq (Nat.zero_le _), h, fun _ => rfl, nofun⟩
  | cons byte others ih =>
    cases count with
    | zero =>
      cases heq
      exact ⟨List.nil_prefix, fun hlt => absurd hlt (Nat.lt_irrefl 0), reader, consume_eq (Nat.zero_le _), h,
        fun _ => rfl, nofun⟩
    | succ count =>
      rw [List.length_cons] at hroom
      obtain ⟨hfooter, hlimit, hsee, hsettled'⟩ := charge_spend h hsettled (by omega)
      have hseen : ¬(reader.charge.skip = true ∧ isWhitespace byte = true) := by simp [charge, hsettled.skip]
      have hfooter' : (reader.charge.footer byte).charged ≠ (reader.charge.footer byte).limit := by rwa [hfooter]
      simp only [Consumer.take] at heq
      split at heq
      next limit hcompletes =>
        cases heq
        refine ⟨List.prefix_append [byte] others, fun _ _ => List.cons_ne_nil _ _, reader.spend 1,
          consume_eq (by simp only [List.length_singleton]; omega), h.spend 1, nofun, fun limit' heq => ?_⟩
        cases heq
        refine ⟨(consumer.completes_end hcompletes).2, ?_⟩
        rw [List.cons_append, observe_completed hseen hfooter' hcompletes, hfooter]
        have hcharged : reader.charge.charged + 1 = (reader.spend 1).consumed := congrArg Charge.charged hsee
        rw [hcharged]
        rfl
      next hcompletes =>
        cases htake : consumer.take (consumer.next state byte) count others with
        | mk taken' result =>
          obtain ⟨state'', completed'⟩ := result
          rw [htake] at heq
          cases heq
          have hroom' : others.length ≤ (reader.spend 1).remaining := by
            simp only [spend]
            omega
          obtain ⟨hfront, -, reader', hconsume, hsound, hnone, hsome⟩ :=
            ih (h.spend 1) hsettled' hroom' htake
          have hfirst : observe consumer reader.charge state (byte :: others ++ rest) =
              after [.seen byte] (observe consumer (reader.spend 1).charge (consumer.next state byte)
                (others ++ rest)) := by
            rw [List.cons_append, observe_charged hseen hfooter' hcompletes, hfooter, hsee]
          have hle : taken'.length ≤ (reader.spend 1).remaining := Nat.le_trans hfront.length_le hroom'
          rw [consume_eq hle, spend_spend] at hconsume
          have hconsume' : reader.consume (byte :: taken').length = some reader' := by
            rw [List.length_cons, consume_eq, hconsume]
            have hlength := hfront.length_le
            omega
          refine ⟨List.cons_prefix_cons.mpr ⟨rfl, hfront⟩, fun _ _ => List.cons_ne_nil _ _, reader', hconsume',
            hsound, fun hcompleted => ?_, fun limit hcompleted => ?_⟩
          · rw [hfirst, hnone hcompleted, ← after_append]
            rfl
          · obtain ⟨hpos, hobserve⟩ := hsome limit hcompleted
            refine ⟨hpos, ?_⟩
            rw [hfirst, hobserve, ← after_append]
            rfl

end LimitedReader

/-! ### Runs -/

namespace Session

open LimitedReader

variable {consumer : Consumer σ} {session session' : Session σ}

/-- What happens to the bytes that are still to be delivered. -/
def view (consumer : Consumer σ) (session : Session σ) : List Entry × Outcome :=
  observe consumer session.reader.charge session.state session.input.bytes

variable {result : Option Outcome}

theorem poll_spec {count : Nat} (h : session.reader.Sound) (heq : session.poll consumer count = (session', result)) :
    session'.reader.Sound ∧ ∃ log, session'.log = session.log ++ log ∧
      (result = none → session.view consumer = after log (session'.view consumer) ∧
        (0 < count → workload session'.input < workload session.input)) ∧
      ∀ outcome, result = some outcome → session.view consumer = (log, outcome) := by
  cases hpoll : session.reader.pollFillBuf session.input with
  | mk answer rest =>
    obtain ⟨reader, input⟩ := rest
    have hfilled := pollFillBuf_spec h hpoll
    obtain ⟨whitespace, hbytes, hobserve⟩ := hfilled.bytes
    have hskipped : session.input.bytes.take (session.input.bytes.length - input.bytes.length) = whitespace := by
      rw [hbytes, List.length_append, Nat.add_sub_cancel, List.take_left]
    have hview : session.view consumer =
        after (whitespace.map .skipped) (observe consumer reader.charge session.state input.bytes) :=
      hobserve consumer session.state
    simp only [poll, hpoll, hskipped] at heq
    cases answer with
    | pending =>
      cases heq
      exact ⟨hfilled.sound, _, rfl, fun _ => ⟨hview, fun _ => hfilled.pending rfl⟩, nofun⟩
    | failed limit =>
      cases heq
      obtain ⟨available, -, hoffers⟩ := hfilled.offers nofun
      refine ⟨hfilled.sound, _, rfl, nofun, fun outcome houtcome => ?_⟩
      cases houtcome
      rw [hview, hoffers.failed limit rfl, after, List.append_nil]
    | underflow =>
      obtain ⟨available, -, hoffers⟩ := hfilled.offers nofun
      exact absurd rfl hoffers.other.1
    | ready part =>
      obtain ⟨available, hready, hoffers⟩ := hfilled.offers nofun
      have hinput := hready part rfl
      obtain ⟨hpart, hroom, hsettled⟩ := hoffers.ready part rfl
      simp only at heq
      split at heq
      next hempty =>
        cases heq
        obtain rfl := List.isEmpty_iff.mp hempty
        refine ⟨hfilled.sound, _, rfl, nofun, fun outcome houtcome => ?_⟩
        cases houtcome
        rw [hview, hoffers.ended rfl, after, List.append_nil]
      next hempty =>
        have hne : part ≠ [] := fun hnil => hempty (List.isEmpty_iff.mpr hnil)
        cases htake : consumer.take session.state count part with
        | mk taken result' =>
          obtain ⟨state, completed⟩ := result'
          obtain ⟨-, hfront, -⟩ := Input.poll_ready hinput
          obtain ⟨others, hothers⟩ := hpart.trans hfront
          obtain ⟨htaken, hsome, reader', hconsume, hsound, hnone, hcompleted⟩ :=
            @take_spec σ reader consumer session.state state count part taken others completed hfilled.sound
              hsettled hroom htake
          rw [hothers] at hnone hcompleted
          obtain ⟨hrest, hpendings⟩ :=
            Input.bytes_consume hinput (Nat.le_trans htaken.length_le hpart.length_le)
          have hless : 0 < count → workload (input.consume taken.length) < workload session.input := by
            intro hcount
            have hlength : 0 < taken.length := List.length_pos_iff.mpr (hsome hcount hne)
            have hle : taken.length ≤ input.bytes.length :=
              Nat.le_trans htaken.length_le (hpart.trans hfront).length_le
            have hwork := hfilled.workload
            simp only [workload, hrest, hpendings, List.length_drop] at hwork ⊢
            omega
          simp only [htake, hconsume] at heq
          cases completed with
          | none =>
            cases heq
            refine ⟨hsound, whitespace.map .skipped ++ taken.map .seen, List.append_assoc _ _ _,
              fun _ => ⟨?_, hless⟩, nofun⟩
            rw [hview, hnone rfl, ← after_append, view, hrest]
          | some limit =>
            cases heq
            obtain ⟨hpos, hlast⟩ := hcompleted limit rfl
            refine ⟨⟨Nat.le_refl _, hpos⟩, whitespace.map .skipped ++ (taken.map .seen ++
              [.completed reader'.limit reader'.consumed reader'.whitespaceSkipped]), ?_,
              fun _ => ⟨?_, hless⟩, nofun⟩
            · simp only [List.append_assoc]
            · rw [hview, hlast, ← after_append, view, hrest, charge_new]

theorem run_spec {counts : List Nat} (h : session.reader.Sound) (heq : session.run consumer counts = (session', result))
    :
    session'.reader.Sound ∧ ∃ log, session'.log = session.log ++ log ∧
      (result = none → session.view consumer = after log (session'.view consumer)) ∧
      ∀ outcome, result = some outcome → session.view consumer = (log, outcome) := by
  induction counts generalizing session with
  | nil =>
    cases heq
    exact ⟨h, [], (List.append_nil _).symm, fun _ => rfl, nofun⟩
  | cons count counts ih =>
    cases hpoll : session.poll consumer count with
    | mk next answer =>
      obtain ⟨hsound, log, hlog, hnone, hsome⟩ := poll_spec h hpoll
      rw [run, hpoll] at heq
      cases answer with
      | some outcome =>
        cases heq
        exact ⟨hsound, log, hlog, nofun, hsome⟩
      | none =>
        obtain ⟨hsound', log', hlog', hnone', hsome'⟩ := ih hsound heq
        obtain ⟨hview, -⟩ := hnone rfl
        refine ⟨hsound', log ++ log', ?_, fun hresult => ?_, fun outcome hresult => ?_⟩
        · rw [hlog', hlog, List.append_assoc]
        · rw [hview, hnone' hresult, ← after_append]
        · rw [hview, hsome' outcome hresult]
          rfl

theorem run_append (counts counts' : List Nat) :
    session.run consumer (counts ++ counts') =
      match session.run consumer counts with
      | (session, none) => session.run consumer counts'
      | (session, some outcome) => (session, some outcome) := by
  induction counts generalizing session with
  | nil => rfl
  | cons count counts ih =>
    rw [List.cons_append, run, run]
    cases session.poll consumer count with
    | mk next answer =>
      cases answer with
      | some outcome => rfl
      | none => exact ih

theorem run_ends {count : Nat} (h : session.reader.Sound) (hcount : workload session.input < count) :
    ((session.run consumer (List.replicate count 1)).2).isSome := by
  induction count generalizing session with
  | zero => omega
  | succ count ih =>
    rw [List.replicate_succ, run]
    cases hpoll : session.poll consumer 1 with
    | mk next answer =>
      obtain ⟨hsound, log, -, hnone, -⟩ := poll_spec h hpoll
      cases answer with
      | some outcome => rfl
      | none =>
        obtain ⟨-, hless⟩ := hnone rfl
        have hnext := hless Nat.zero_lt_one
        exact ih hsound (by omega)

theorem exists_outcome (consumer : Consumer σ) (h : session.reader.Sound) :
    ∃ counts last outcome, session.run consumer counts = (last, some outcome) := by
  obtain ⟨outcome, houtcome⟩ := Option.isSome_iff_exists.mp
    (@run_ends σ consumer session _ h (Nat.lt_succ_self (workload session.input)))
  exact ⟨_, _, outcome, Prod.ext rfl houtcome⟩

end Session

theorem observe_ne_underflow (consumer : Consumer σ) (charge : Charge) (state : σ) (bytes : List UInt8) :
    (observe consumer charge state bytes).2 ≠ .underflow := by
  induction bytes generalizing charge state with
  | nil =>
    rw [observe]
    split <;> nofun
  | cons byte rest ih =>
    rw [observe]
    split
    · exact ih _ _
    · split
      · nofun
      · split
        · exact ih _ _
        · exact ih _ _

def Session.start (limit : Nat) (input : Input UInt8) (state : σ) : Session σ := ⟨.new limit, input, state, []⟩

/-- However the input is delivered and taken, the parser sees the same bytes, the same white space is skipped, the
same bytes are charged to each event, and the outcome is the same and comes at the same byte as when the input is
delivered in one piece, and as `observe` tells of its bytes. The counter stays within its limit. -/
theorem limited_reader_chunk_independent (consumer : Consumer σ) (state : σ) {limit : Nat} (hlimit : 0 < limit)
    (input : Input UInt8) (counts : List Nat) {session : Session σ} {result : Option Outcome}
    (h : (Session.start limit input state).run consumer counts = (session, result)) :
    session.reader.remaining ≤ session.reader.limit ∧ result ≠ some .underflow ∧
      (∀ counts' whole outcome,
        (Session.start limit (Input.whole input.bytes) state).run consumer counts' = (whole, some outcome) →
          session.log <+: whole.log ∧ ∀ outcome', result = some outcome' → outcome' = outcome ∧ session.log = whole.log) ∧
      (∃ counts' whole outcome,
        (Session.start limit (Input.whole input.bytes) state).run consumer counts' = (whole, some outcome)) ∧
      session.log <+: (observe consumer (.new limit) state input.bytes).1 ∧
      (∀ outcome, result = some outcome → observe consumer (.new limit) state input.bytes = (session.log, outcome)) ∧
      ∃ counts' last outcome,
        (Session.start limit input state).run consumer (counts ++ counts') = (last, some outcome) := by
  have hstart : ∀ input, (Session.start limit input state).reader.Sound := fun _ => ⟨Nat.le_refl _, hlimit⟩
  have hview : (Session.start limit (Input.whole input.bytes) state).view consumer =
      (Session.start limit input state).view consumer := by
    simp only [Session.view, Session.start, Input.bytes_whole]
  obtain ⟨hsound, log, hlog, hnone, hsome⟩ := Session.run_spec (hstart input) h
  have hlog : session.log = log := hlog
  have hobserve : (Session.start limit input state).view consumer = observe consumer (.new limit) state input.bytes := by
    rw [Session.view, Session.start, LimitedReader.charge_new]
  refine ⟨hsound.remaining, fun hunderflow => ?_, fun counts' whole outcome hwhole => ?_, ?_, ?_, ?_, ?_⟩
  · have houtcome := congrArg Prod.snd (hsome .underflow hunderflow)
    exact observe_ne_underflow _ _ _ _ houtcome
  · obtain ⟨-, log', hlog', -, hwhole'⟩ := Session.run_spec (hstart _) hwhole
    have hlog' : whole.log = log' := hlog'
    have hobserved := hview.symm.trans (hwhole' outcome rfl)
    rw [hlog, hlog']
    cases result with
    | none =>
      rw [hnone rfl] at hobserved
      exact ⟨⟨_, congrArg Prod.fst hobserved⟩, nofun⟩
    | some outcome' =>
      rw [hsome outcome' rfl] at hobserved
      cases hobserved
      refine ⟨List.prefix_rfl, fun other hother => ?_⟩
      cases hother
      exact ⟨rfl, rfl⟩
  · exact Session.exists_outcome consumer (hstart _)
  · rw [← hobserve, hlog]
    cases result with
    | none =>
      rw [hnone rfl]
      exact List.prefix_append _ _
    | some outcome => rw [hsome outcome rfl]
  · intro outcome houtcome
    rw [← hobserve, hsome outcome houtcome, hlog]
  · cases result with
    | none =>
      obtain ⟨counts', last, outcome, hlast⟩ := Session.exists_outcome consumer hsound
      refine ⟨counts', last, outcome, ?_⟩
      rw [Session.run_append, h]
      exact hlast
    | some outcome =>
      refine ⟨[], session, outcome, ?_⟩
      rw [List.append_nil, h]

/-- A parser whose events are tags of any kind. -/
def tagConsumer : Consumer Unit where
  next _ _ := ()
  completes _ byte := if byte = '>'.toUInt8 then some 4 else none
  completes_end h := by
    split at h
    next hbyte =>
      cases h
      exact ⟨hbyte, by decide⟩
    · cases h

/-- A footer that arrives in three pieces, after a tag that is as long as the limit. -/
def samplePieces : Input UInt8 :=
  [.piece ' '.toUInt8 ['<'.toUInt8], .pending, .piece 'a'.toUInt8 ['/'.toUInt8, '>'.toUInt8], .piece '\n'.toUInt8 [],
    .piece '<'.toUInt8 [], .piece '/'.toUInt8 ['a'.toUInt8, 'b'.toUInt8, 'c'.toUInt8, '>'.toUInt8]]

/-- The footer is charged to the limit of stream headers. -/
def sampleLog : List Entry :=
  .skipped ' '.toUInt8 :: ['<', 'a', '/', '>'].map (.seen ·.toUInt8) ++ [.completed 4 4 true, .skipped '\n'.toUInt8] ++
    ['<', '/', 'a', 'b', 'c', '>'].map (.seen ·.toUInt8) ++ [.completed maxStreamHeaderBytes 6 true]

theorem limited_reader_chunk_independent_sample :
    ((Session.start 4 samplePieces ()).run tagConsumer (List.replicate 8 5)).2 = some .ended ∧
      observe tagConsumer (.new 4) () samplePieces.bytes = (sampleLog, .ended) ∧
      ∀ counts whole outcome,
        (Session.start 4 (Input.whole samplePieces.bytes) ()).run tagConsumer counts = (whole, some outcome) →
          outcome = .ended ∧ whole.log = sampleLog := by
  have hended : ((Session.start 4 samplePieces ()).run tagConsumer (List.replicate 8 5)).2 = some .ended := by decide
  have hlog : ((Session.start 4 samplePieces ()).run tagConsumer (List.replicate 8 5)).1.log = sampleLog := by decide
  generalize hrun : (Session.start 4 samplePieces ()).run tagConsumer (List.replicate 8 5) = last at hended hlog
  obtain ⟨-, -, hsame, -, -, hobserved, -⟩ :=
    limited_reader_chunk_independent tagConsumer () (by decide : 0 < 4) samplePieces _ hrun
  refine ⟨hended, (hobserved .ended hended).trans (by rw [hlog]), fun counts whole outcome hwhole => ?_⟩
  obtain ⟨houtcome, hwholeLog⟩ := (hsame counts whole outcome hwhole).2 .ended hended
  exact ⟨houtcome.symm, hwholeLog.symm.trans hlog⟩

end Lonewolf.Xmpp

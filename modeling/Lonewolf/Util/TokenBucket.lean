import Lonewolf.Base.Meter

/-!
# The token bucket

`token_bucket.rs`: whole tokens, and the part of a token that has come since in units of a nanosecond at
one token a second. With its saturating arithmetic the bucket is a credit that grows with time: the
saturation is reached only where the burst caps the credit anyway.
-/

namespace Lonewolf.Util

open Meters

def nanosPerSecond : Nat := 1000000000

def usizeMax : Nat := 2 ^ 64 - 1

def u128Max : Nat := 2 ^ 128 - 1

structure NonZeroUsize where
  get : Nat
  pos : 0 < get
  le_max : get ≤ usizeMax

/-- Times are nanoseconds from some moment on. -/
@[ext] structure TokenBucket where
  tokens : Nat
  remainder : Nat
  updatedAt : Nat
  deriving DecidableEq

namespace TokenBucket

variable (perSecond burst : NonZeroUsize)

def new (now : Nat) : TokenBucket := ⟨burst.get, 0, now⟩

variable (bucket : TokenBucket)

def replenish (now : Nat) : TokenBucket :=
  let elapsed := now - bucket.updatedAt
  let credit := min (min (elapsed * perSecond.get) u128Max + bucket.remainder) u128Max
  let replenished := min (credit / nanosPerSecond) burst.get
  let tokens := min (min (bucket.tokens + replenished) usizeMax) burst.get
  { tokens := tokens
    remainder := if tokens = burst.get then 0 else credit % nanosPerSecond
    updatedAt := max bucket.updatedAt now }

/-- The result is absent when the assertion fails. -/
def consume (amount : Nat) : Option TokenBucket :=
  if amount ≤ bucket.tokens then some { bucket with tokens := bucket.tokens - amount } else none

/-- In nanoseconds. -/
def refillDelay : Nat :=
  let remaining := nanosPerSecond - bucket.remainder
  let nanos := max (remaining ⌈/⌉ perSecond.get) 1
  nanos % 2 ^ 64

inductive Call where
  | replenish (now : Nat)
  | consume (amount : Nat)

def call : Call → Option TokenBucket
  | .replenish now => some (bucket.replenish perSecond burst now)
  | .consume amount => bucket.consume amount

def calls (bucket : TokenBucket) : List Call → Option TokenBucket
  | [] => some bucket
  | first :: rest => (bucket.call perSecond burst first).bind fun bucket' => bucket'.calls rest

end TokenBucket

def consumed : List TokenBucket.Call → Nat
  | [] => 0
  | .replenish _ :: rest => consumed rest
  | .consume amount :: rest => amount + consumed rest

/-- The largest of a time and the times of some calls. -/
def latest (start : Nat) : List TokenBucket.Call → Nat
  | [] => start
  | .replenish now :: rest => latest (max start now) rest
  | .consume _ :: rest => latest start rest

/-! ### The bucket as a credit -/

namespace TokenBucket

/-- There are at most as many tokens as the burst allows, and the part is less than a token; a full bucket
has none. -/
structure Valid (burst : NonZeroUsize) (bucket : TokenBucket) : Prop where
  tokens_le : bucket.tokens ≤ burst.get
  remainder_lt : bucket.remainder < nanosPerSecond
  full : bucket.tokens = burst.get → bucket.remainder = 0

/-- The credit in parts of a token. -/
def meter (bucket : TokenBucket) : Meter :=
  ⟨bucket.tokens * nanosPerSecond + bucket.remainder, bucket.updatedAt⟩

def Call.event : Call → Event
  | .replenish now => .advance now
  | .consume amount => .spend (amount * nanosPerSecond)

variable {perSecond burst : NonZeroUsize} {bucket bucket' : TokenBucket}

theorem Valid.eq_of_meter_eq (h : bucket.Valid burst) (h' : bucket'.Valid burst)
    (heq : bucket.meter = bucket'.meter) : bucket = bucket' := by
  have hlt := h.remainder_lt
  have hlt' := h'.remainder_lt
  simp only [meter, Meter.mk.injEq, nanosPerSecond] at heq hlt hlt'
  ext
  · omega
  · omega
  · exact heq.2

theorem valid_new (burst : NonZeroUsize) (now : Nat) : (new burst now).Valid burst :=
  ⟨le_rfl, show 0 < nanosPerSecond by decide, fun _ => rfl⟩

theorem credit_cases (perSecond burst : NonZeroUsize) (elapsed remainder : Nat) :
    min (min (elapsed * perSecond.get) u128Max + remainder) u128Max = elapsed * perSecond.get + remainder ∨
      burst.get ≤ min (min (elapsed * perSecond.get) u128Max + remainder) u128Max / nanosPerSecond ∧
        burst.get ≤ (elapsed * perSecond.get + remainder) / nanosPerSecond := by
  generalize elapsed * perSecond.get = product
  by_cases hsmall : product + remainder ≤ u128Max
  · left
    omega
  · right
    have hlarge : min (min product u128Max + remainder) u128Max = u128Max := by omega
    have hfull : burst.get ≤ u128Max / nanosPerSecond := burst.le_max.trans (by decide)
    rw [hlarge]
    exact ⟨hfull, hfull.trans (Nat.div_le_div_right (by omega))⟩

theorem tokens_replenished (burst : NonZeroUsize) (credit tokens : Nat) :
    min (min (tokens + min (credit / nanosPerSecond) burst.get) usizeMax) burst.get =
      min (tokens + credit / nanosPerSecond) burst.get := by
  have hburst := burst.le_max
  omega

theorem meter_replenish (perSecond : NonZeroUsize) (h : bucket.Valid burst) (now : Nat) :
    (bucket.replenish perSecond burst now).Valid burst ∧
      (bucket.replenish perSecond burst now).meter =
        bucket.meter.advance perSecond.get (burst.get * nanosPerSecond) now := by
  have hcases := credit_cases perSecond burst (now - bucket.updatedAt) bucket.remainder
  have hlt := h.remainder_lt
  simp only [replenish, tokens_replenished, meter, Meter.advance, Meter.mk.injEq, and_true]
  generalize min (min ((now - bucket.updatedAt) * perSecond.get) u128Max + bucket.remainder) u128Max = credit at *
  generalize (now - bucket.updatedAt) * perSecond.get = earned at *
  by_cases hfull : burst.get ≤ bucket.tokens + credit / nanosPerSecond
  · rw [min_eq_right hfull, if_pos rfl]
    refine ⟨⟨le_rfl, show 0 < nanosPerSecond by decide, fun _ => rfl⟩, ?_⟩
    simp only [nanosPerSecond] at *
    omega
  · have htokens := min_eq_left (Nat.le_of_not_le hfull)
    rw [htokens, if_neg (by omega)]
    refine ⟨⟨by simp only; omega, Nat.mod_lt _ (by decide), fun heq => absurd heq (by simp only; omega)⟩, ?_⟩
    simp only [nanosPerSecond] at *
    omega

theorem consume_eq_some {amount : Nat} :
    bucket.consume amount = some bucket' ↔
      amount ≤ bucket.tokens ∧ bucket' = { bucket with tokens := bucket.tokens - amount } := by
  rw [consume]
  split
  case isTrue h => simp [h, eq_comm]
  case isFalse h => simp [h]

variable {cs : List Call}
variable {m : Meter}

section

variable (h : bucket.Valid burst)
include h

theorem meter_consume {amount : Nat} (hconsume : bucket.consume amount = some bucket') :
    bucket'.Valid burst ∧ bucket.meter.spend? (amount * nanosPerSecond) = some bucket'.meter := by
  obtain ⟨hle, rfl⟩ := consume_eq_some.mp hconsume
  have htokens := h.tokens_le
  refine ⟨⟨by simp only; omega, h.remainder_lt, ?_⟩, ?_⟩
  · intro hfull
    simp only at hfull
    exact h.full (by omega)
  · rw [Meter.spend?_eq_some]
    simp only [meter, nanosPerSecond, Meter.mk.injEq, and_true]
    omega

theorem meter_call {c : Call} (hcall : bucket.call perSecond burst c = some bucket') :
    bucket'.Valid burst ∧
      bucket.meter.apply perSecond.get (burst.get * nanosPerSecond) c.event = some bucket'.meter := by
  cases c with
  | replenish now =>
    cases hcall
    obtain ⟨hvalid, hmeter⟩ := meter_replenish perSecond h now
    exact ⟨hvalid, congrArg some hmeter.symm⟩
  | consume amount => exact meter_consume h hcall

theorem meter_calls (hcalls : bucket.calls perSecond burst cs = some bucket') :
    bucket'.Valid burst ∧
      bucket.meter.run perSecond.get (burst.get * nanosPerSecond) (cs.map Call.event) = some bucket'.meter := by
  induction cs generalizing bucket with
  | nil =>
    cases hcalls
    exact ⟨h, rfl⟩
  | cons c cs ih =>
    obtain ⟨bucket₁, hcall, hcalls⟩ := Option.bind_eq_some_iff.mp hcalls
    obtain ⟨hvalid, happly⟩ := meter_call h hcall
    obtain ⟨hvalid', hrun⟩ := ih hvalid hcalls
    exact ⟨hvalid', Meter.run_cons_eq_some.mpr ⟨_, happly, hrun⟩⟩

theorem exists_call {c : Call} (happly : bucket.meter.apply perSecond.get (burst.get * nanosPerSecond) c.event = some m)
    : ∃ bucket', bucket.call perSecond burst c = some bucket' := by
  cases c with
  | replenish now => exact ⟨_, rfl⟩
  | consume amount =>
    refine ⟨_, consume_eq_some.mpr ⟨?_, rfl⟩⟩
    have hle := (Meter.spend?_eq_some.mp happly).1
    have hlt := h.remainder_lt
    simp only [meter, nanosPerSecond] at hle hlt
    omega

theorem exists_calls (hrun : bucket.meter.run perSecond.get (burst.get * nanosPerSecond) (cs.map Call.event) = some m) :
    ∃ bucket', bucket.calls perSecond burst cs = some bucket' ∧ bucket'.Valid burst ∧ bucket'.meter = m := by
  induction cs generalizing bucket with
  | nil => exact ⟨bucket, rfl, h, Option.some.inj hrun⟩
  | cons c cs ih =>
    obtain ⟨m₁, happly, hrun⟩ := Meter.run_cons_eq_some.mp hrun
    obtain ⟨bucket₁, hcall⟩ := exists_call h happly
    obtain ⟨hvalid, happly'⟩ := meter_call h hcall
    rw [happly'] at happly
    cases happly
    obtain ⟨bucket', hcalls, hvalid', hmeter⟩ := ih hvalid hrun
    exact ⟨bucket', Option.bind_eq_some_iff.mpr ⟨bucket₁, hcall, hcalls⟩, hvalid', hmeter⟩

end

theorem spent_event (cs : List Call) : spent (cs.map Call.event) = consumed cs * nanosPerSecond := by
  induction cs with
  | nil => rfl
  | cons c cs ih =>
    cases c with
    | replenish now => exact ih
    | consume amount =>
      show amount * nanosPerSecond + spent (cs.map Call.event) = (amount + consumed cs) * nanosPerSecond
      rw [ih, add_mul]

theorem updatedAt_eq_latest (hcalls : bucket.calls perSecond burst cs = some bucket') :
    bucket'.updatedAt = latest bucket.updatedAt cs := by
  induction cs generalizing bucket with
  | nil =>
    cases hcalls
    rfl
  | cons c cs ih =>
    obtain ⟨bucket₁, hcall, hcalls⟩ := Option.bind_eq_some_iff.mp hcalls
    rw [ih hcalls]
    cases c with
    | replenish now =>
      cases hcall
      rfl
    | consume amount =>
      obtain ⟨_, rfl⟩ := consume_eq_some.mp hcall
      rfl

theorem refillDelay_eq (h : bucket.Valid burst) (perSecond : NonZeroUsize) :
    bucket.refillDelay perSecond = (nanosPerSecond - bucket.remainder) ⌈/⌉ perSecond.get := by
  have hlt := h.remainder_lt
  have hpos : 1 ≤ (nanosPerSecond - bucket.remainder) ⌈/⌉ perSecond.get := by
    by_contra hzero
    have hnone := (ceilDiv_le_iff_le_mul perSecond.pos).mp (Nat.le_of_lt_succ (Nat.lt_of_not_le hzero))
    omega
  have hle : (nanosPerSecond - bucket.remainder) ⌈/⌉ perSecond.get ≤ nanosPerSecond := by
    rw [ceilDiv_le_iff_le_mul perSecond.pos]
    exact (Nat.sub_le ..).trans (Nat.le_mul_of_pos_left _ perSecond.pos)
  rw [refillDelay, max_eq_left hpos]
  exact Nat.mod_eq_of_lt (hle.trans_lt (by decide))

theorem token_after_iff (h : bucket.Valid burst) (hempty : bucket.tokens = 0) (wait : Nat) :
    0 < (bucket.replenish perSecond burst (bucket.updatedAt + wait)).tokens ↔ bucket.refillDelay perSecond ≤ wait := by
  have hburst := burst.pos
  have hlt := h.remainder_lt
  obtain ⟨hvalid, hmeter⟩ := meter_replenish perSecond h (bucket.updatedAt + wait)
  have hlt' := hvalid.remainder_lt
  have hcredit := congrArg Meter.credit hmeter
  rw [refillDelay_eq h, ceilDiv_le_iff_le_mul perSecond.pos, mul_comm]
  simp only [meter, Meter.advance, hempty, Nat.add_sub_cancel_left] at hcredit
  generalize wait * perSecond.get = earned at *
  simp only [nanosPerSecond] at *
  omega

/-- **The token bucket.** The credit never exceeds the burst and is exact below it: no saturation of the
arithmetic shows. Between two moments no more is consumed than the burst and what the elapsed time brings. A
call to `replenish` in between that does not fill the bucket changes nothing at a later time. An empty bucket
tells the least wait after which there is a token. -/
theorem token_bucket_exact (perSecond burst : NonZeroUsize) (start : Nat) (cs : List Call) (bucket : TokenBucket)
    (hcalls : (new burst start).calls perSecond burst cs = some bucket) :
    bucket.tokens * nanosPerSecond + bucket.remainder ≤ burst.get * nanosPerSecond ∧
    bucket.updatedAt = latest start cs ∧
    (∀ now, (bucket.replenish perSecond burst now).meter.credit = min (burst.get * nanosPerSecond)
      (bucket.meter.credit + (now - bucket.updatedAt) * perSecond.get)) ∧
    (∀ later bucket', bucket.calls perSecond burst later = some bucket' →
      consumed later ≤
        burst.get + (bucket'.updatedAt - bucket.updatedAt) * perSecond.get / nanosPerSecond) ∧
    (∀ between, (bucket.replenish perSecond burst between).tokens < burst.get →
      ∀ later bucket', bucket.calls perSecond burst later = some bucket' →
        ∃ bucket'', (bucket.replenish perSecond burst between).calls perSecond burst later = some bucket'' ∧
          ∀ now, between ≤ now →
            bucket''.replenish perSecond burst now = bucket'.replenish perSecond burst now) ∧
    (bucket.tokens = 0 → ∀ wait,
      0 < (bucket.replenish perSecond burst (bucket.updatedAt + wait)).tokens ↔
        bucket.refillDelay perSecond ≤ wait) := by
  obtain ⟨hvalid, hrun⟩ := meter_calls (valid_new burst start) hcalls
  have hcredit : bucket.meter.credit ≤ burst.get * nanosPerSecond :=
    Meter.credit_le_of_run (by simp [meter, new]) hrun
  refine ⟨hcredit, updatedAt_eq_latest hcalls, ?_, ?_, ?_, fun hempty => token_after_iff hvalid hempty⟩
  · intro now
    exact congrArg Meter.credit (meter_replenish perSecond hvalid now).2
  · intro later bucket' hlater
    obtain ⟨_, hspent⟩ := Meter.spent_le (meter_calls hvalid hlater).2
    rw [spent_event] at hspent
    have hbound : consumed later * nanosPerSecond ≤
        burst.get * nanosPerSecond + (bucket'.updatedAt - bucket.updatedAt) * perSecond.get :=
      (Nat.le_add_left ..).trans (hspent.trans (Nat.add_le_add_right hcredit _))
    generalize (bucket'.updatedAt - bucket.updatedAt) * perSecond.get = earned at *
    simp only [nanosPerSecond] at *
    omega
  · intro between hbelow later bucket' hlater
    obtain ⟨hvalid₁, hmeter₁⟩ := meter_replenish perSecond hvalid between
    have hbelow' : (bucket.meter.advance perSecond.get (burst.get * nanosPerSecond) between).credit <
        burst.get * nanosPerSecond := by
      have hlt := hvalid₁.remainder_lt
      rw [← hmeter₁]
      simp only [meter, nanosPerSecond] at *
      omega
    obtain ⟨hvalid', hrun'⟩ := meter_calls hvalid hlater
    obtain ⟨m, hrun'', hsame⟩ := Meter.advance_inserted hbelow' hrun'
    rw [← hmeter₁] at hrun''
    obtain ⟨bucket'', hcalls'', hvalid'', rfl⟩ := exists_calls hvalid₁ hrun''
    refine ⟨bucket'', hcalls'', fun now hnow => ?_⟩
    obtain ⟨hv, hm⟩ := meter_replenish perSecond hvalid'' now
    obtain ⟨hv', hm'⟩ := meter_replenish perSecond hvalid' now
    exact hv.eq_of_meter_eq hv' (by rw [hm, hm', hsame now hnow])

/-- Three tokens a second and a burst of two, after the burst and a tenth of a second. -/
theorem token_bucket_exact_third :
    ∃ bucket : TokenBucket, bucket.tokens = 0 ∧
      ∀ wait, 0 < (bucket.replenish ⟨3, by decide, by decide⟩ ⟨2, by decide, by decide⟩
        (bucket.updatedAt + wait)).tokens ↔ 233333334 ≤ wait := by
  have hcalls : (new ⟨2, by decide, by decide⟩ 0).calls ⟨3, by decide, by decide⟩ ⟨2, by decide, by decide⟩
      [.consume 2, .replenish 100000000] = some ⟨0, 300000000, 100000000⟩ := by decide
  obtain ⟨_, _, _, _, _, hdelay⟩ := token_bucket_exact _ _ _ _ _ hcalls
  exact ⟨_, rfl, hdelay rfl⟩

end TokenBucket

end Lonewolf.Util

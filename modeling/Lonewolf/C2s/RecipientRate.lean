import Lonewolf.Base.Text
import Lonewolf.Util.TokenBucket

/-!
# New recipients

`c2s/stream/recipient_rate`: a recipient that is not among the last 64 that were charged costs a token. The
limiter keeps the hashes of these in a ring.
-/

namespace Lonewolf.C2s

open Texts Util

structure RecipientLimiter where
  perSecond : NonZeroUsize
  burst : NonZeroUsize
  bucket : TokenBucket
  recent : List UInt64
  len : ℕ
  next : ℕ
  size : recent.length = 64
  len_le : len ≤ 64
  next_lt : next < 64

namespace RecipientLimiter

/-- What `admit` answers: `true` for the first two. -/
inductive Answer where
  | free
  | charged
  | denied
deriving DecidableEq

structure Admission where
  recipient : Text
  now : ℕ

def new (perSecond burst : NonZeroUsize) (now : ℕ) : RecipientLimiter where
  perSecond := perSecond
  burst := burst
  bucket := .new burst now
  recent := List.replicate 64 0
  len := 0
  next := 0
  size := List.length_replicate
  len_le := Nat.zero_le _
  next_lt := Nat.zero_lt_succ _

def replenish (self : RecipientLimiter) (now : ℕ) : RecipientLimiter :=
  { self with bucket := self.bucket.replenish self.perSecond self.burst now }

/-- The end of `admit`, with the bucket that is left. -/
def charge (self : RecipientLimiter) (hash : UInt64) (bucket : TokenBucket) : RecipientLimiter :=
  { self with
    bucket := bucket
    recent := self.recent.set self.next hash
    next := (self.next + 1) % 64
    len := min (self.len + 1) 64
    size := (List.length_set ..).trans self.size
    len_le := Nat.min_le_right ..
    next_lt := Nat.mod_lt _ (Nat.zero_lt_succ _) }

/-- There is no result when the bucket's assertion fails. -/
def admits (hash : Text → UInt64) (self : RecipientLimiter) (recipient : Text) (now : ℕ) :
    Option (Answer × RecipientLimiter) :=
  if (self.recent.take self.len).contains (hash recipient) then some (.free, self)
  else if (self.replenish now).bucket.tokens = 0 then some (.denied, self.replenish now)
  else
    ((self.replenish now).bucket.consume 1).map fun bucket =>
      (.charged, (self.replenish now).charge (hash recipient) bucket)

/-- A limiter, and the admissions that it has charged; the code does not keep them. -/
structure History where
  limiter : RecipientLimiter
  charged : List Admission

namespace History

/-- The last recipients that were charged. -/
def window (s : History) : List Text := (s.charged.map Admission.recipient).drop (s.charged.length - 64)

/-- The admissions that were charged between two moments. -/
def count (s : History) (since until' : ℕ) : ℕ := s.charged.countP fun a => since ≤ a.now ∧ a.now ≤ until'

def next (s : History) (a : Admission) : Answer × RecipientLimiter → History
  | (answer, limiter) => ⟨limiter, if answer = .charged then s.charged ++ [a] else s.charged⟩

def run (hash : Text → UInt64) (s : History) : List Admission → Option History
  | [] => some s
  | a :: rest => (s.limiter.admits hash a.recipient a.now).bind fun result => (s.next a result).run hash rest

end History

/-! ### The ring -/

theorem ring_push {α : Type} {ring past : List α} {n : ℕ} (hsize : ring.length = 64) (hn : past.length = n) (x : α)
    (h : (ring.take (min n 64)).rotate (n % 64) = past.drop (n - 64)) :
    ((ring.set (n % 64) x).take (min (n + 1) 64)).rotate ((n + 1) % 64) = (past ++ [x]).drop (n + 1 - 64) := by
  subst hn
  have hlt : past.length % 64 < ring.length := by omega
  have hfirst : (ring.take (past.length % 64) ++ [x]).length = past.length % 64 + 1 := by
    rw [List.length_append, List.length_take_of_le hlt.le, List.length_singleton]
  rw [List.set_eq_take_append_cons_drop, if_pos hlt, List.append_cons]
  by_cases hroom : past.length < 64
  · -- The ring is filled from the front.
    rw [Nat.mod_eq_of_lt hroom] at h hfirst ⊢
    have hpast : ring.take past.length = past := by
      rw [min_eq_left hroom.le, Nat.sub_eq_zero_of_le hroom.le, List.drop_zero,
        List.rotate_eq_drop_append_take (by simp; omega), List.drop_take_self, List.take_take, min_self] at h
      exact h
    rw [min_eq_left hroom, ← hfirst, List.take_left, Nat.sub_eq_zero_of_le (hfirst ▸ hroom), List.drop_zero, hpast]
    rcases Nat.lt_or_ge (past ++ [x]).length 64 with hlast | hlast
    · rw [Nat.mod_eq_of_lt hlast, List.rotate_length]
    · rw [List.length_append, List.length_singleton] at hlast ⊢
      rw [show (past.length + 1) % 64 = 0 by omega, List.rotate_zero]
  · -- The oldest value is overwritten.
    have hrest : past.drop (past.length - 64 + 1) = ring.drop (past.length % 64 + 1) ++ ring.take (past.length % 64) := by
      rw [← List.drop_drop, ← h, min_eq_right (by omega), List.take_of_length_le hsize.le,
        List.rotate_eq_drop_append_take hlt.le, List.drop_append_of_le_length (by simp; omega), List.drop_drop]
    have hlength : (ring.take (past.length % 64) ++ [x] ++ ring.drop (past.length % 64 + 1)).length = 64 := by
      rw [List.length_append, hfirst, List.length_drop]
      omega
    have hturn : (past.length + 1) % 64 = (ring.take (past.length % 64) ++ [x]).length % 64 := by omega
    have hmod := List.rotate_mod (ring.take (past.length % 64) ++ [x] ++ ring.drop (past.length % 64 + 1))
      (ring.take (past.length % 64) ++ [x]).length
    rw [hlength] at hmod
    rw [min_eq_right (by omega), List.take_of_length_le hlength.le, hturn, hmod, List.rotate_append_length_eq,
      List.drop_append_of_le_length (by omega), show past.length + 1 - 64 = past.length - 64 + 1 by omega, hrest,
      List.append_assoc]

/-! ### The credit -/

/-- What is charged between two moments, with the credit while the second is not over, is paid for by the burst and by
the time between them. -/
theorem paid_later {count credit clock now since until' rate cap : ℕ} (hclock : clock ≤ now)
    (hnone : clock < since → count = 0)
    (h : count + (if clock ≤ until' then credit else 0) ≤ cap + (min clock until' - since) * rate) :
    count + (if now ≤ until' then min cap (credit + (now - clock) * rate) else 0) ≤
      cap + (min now until' - since) * rate := by
  by_cases hnow : now ≤ until'
  · rw [if_pos (hclock.trans hnow), min_eq_left (hclock.trans hnow)] at h
    rw [if_pos hnow, min_eq_left hnow]
    by_cases hsince : clock < since
    · rw [hnone hsince]
      omega
    · have hsplit : (now - since) * rate = (clock - since) * rate + (now - clock) * rate := by
        rw [← add_mul]
        congr 1
        omega
      omega
  · have hmono : (min clock until' - since) * rate ≤ (min now until' - since) * rate :=
      Nat.mul_le_mul_right _ (by omega)
    rw [if_neg hnow]
    omega

/-! ### Runs -/

/-- What holds of every limiter that was only asked for some recipients. -/
structure Inv (hash : Text → UInt64) (recipients : Set Text) (perSecond burst : NonZeroUsize) (s : History) : Prop where
  rates : s.limiter.perSecond = perSecond ∧ s.limiter.burst = burst
  len : s.limiter.len = min s.charged.length 64
  next : s.limiter.next = s.charged.length % 64
  ring : (s.limiter.recent.take s.limiter.len).rotate s.limiter.next = s.window.map hash
  nodup : s.window.Nodup
  known : ∀ a ∈ s.charged, a.recipient ∈ recipients
  valid : s.limiter.bucket.Valid burst
  past : ∀ a ∈ s.charged, a.now ≤ s.limiter.bucket.updatedAt
  paid : ∀ since until', s.count since until' * nanosPerSecond +
    (if s.limiter.bucket.updatedAt ≤ until' then s.limiter.bucket.meter.credit else 0) ≤
      burst.get * nanosPerSecond + (min s.limiter.bucket.updatedAt until' - since) * perSecond.get

theorem inv_new (hash : Text → UInt64) (recipients : Set Text) (perSecond burst : NonZeroUsize) (start : ℕ) :
    Inv hash recipients perSecond burst ⟨.new perSecond burst start, []⟩ where
  rates := ⟨rfl, rfl⟩
  len := rfl
  next := rfl
  ring := rfl
  nodup := List.nodup_nil
  known := nofun
  valid := TokenBucket.valid_new burst start
  past := nofun
  paid since until' := by
    show 0 * nanosPerSecond + (if start ≤ until' then burst.get * nanosPerSecond + 0 else 0) ≤ _
    split <;> omega

section Runs

variable {hash : Text → UInt64} {recipients : Set Text} {perSecond burst : NonZeroUsize} {s : History}
  (h : Inv hash recipients perSecond burst s)
include h

theorem Inv.replenish {now : ℕ} (hnow : s.limiter.bucket.updatedAt ≤ now) :
    Inv hash recipients perSecond burst ⟨s.limiter.replenish now, s.charged⟩ := by
  have hpast : s.limiter.bucket.updatedAt ≤ max s.limiter.bucket.updatedAt now := le_max_left ..
  have hmeter := TokenBucket.meter_replenish perSecond h.valid now
  have hbucket : (s.limiter.replenish now).bucket = s.limiter.bucket.replenish perSecond burst now := by
    rw [RecipientLimiter.replenish, h.rates.1, h.rates.2]
  refine ⟨h.rates, h.len, h.next, h.ring, h.nodup, h.known, hbucket ▸ hmeter.1,
    fun a ha => (h.past a ha).trans hpast, fun since until' => ?_⟩
  have hnone : s.limiter.bucket.updatedAt < since → s.count since until' * nanosPerSecond = 0 := by
    intro hlt
    have hzero : s.count since until' = 0 := by
      refine List.countP_eq_zero.mpr fun a ha hcounted => ?_
      have hle := h.past a ha
      simp only [decide_eq_true_eq] at hcounted
      omega
    rw [hzero, Nat.zero_mul]
  have hpaid := paid_later hnow hnone (h.paid since until')
  have hcredit := congrArg Meters.Meter.credit hmeter.2
  have hclock : (s.limiter.bucket.replenish perSecond burst now).updatedAt = now := max_eq_right hnow
  simp only [hbucket, hclock, hcredit]
  exact hpaid

theorem Inv.charge {a : Admission} {bucket : TokenBucket}
    (hnow : s.limiter.bucket.updatedAt = a.now) (hknown : a.recipient ∈ recipients) (hnew : a.recipient ∉ s.window)
    (hconsume : s.limiter.bucket.consume 1 = some bucket) :
    Inv hash recipients perSecond burst ⟨s.limiter.charge (hash a.recipient) bucket, s.charged ++ [a]⟩ := by
  obtain ⟨hvalid, hspend⟩ := TokenBucket.meter_consume h.valid hconsume
  obtain ⟨hcredit, hmeter⟩ := Meters.Meter.spend?_eq_some.mp hspend
  obtain ⟨-, hbucket⟩ := TokenBucket.consume_eq_some.mp hconsume
  have hclock : bucket.updatedAt = a.now := by rw [hbucket, ← hnow]
  have hlen : min (s.limiter.len + 1) 64 = min (s.charged.length + 1) 64 := by
    rw [h.len]
    omega
  have hnext : (s.limiter.next + 1) % 64 = (s.charged.length + 1) % 64 := by
    rw [h.next]
    omega
  have hring := h.ring
  rw [h.len, h.next, History.window, List.map_drop, List.map_map] at hring
  have hpush := ring_push s.limiter.size (List.length_map _) (hash a.recipient) hring
  have hsub : ((s.charged.map Admission.recipient).drop (s.charged.length + 1 - 64)).Sublist s.window :=
    List.drop_sublist_drop_left _ (by omega)
  refine ⟨h.rates, ?_, ?_, ?_, ?_, ?_, hvalid, ?_, fun since until' => ?_⟩
  · rw [List.length_append]
    exact hlen
  · rw [List.length_append]
    exact hnext
  · rw [History.window, List.map_drop, List.length_append]
    simp only [RecipientLimiter.charge, hlen, hnext, List.map_append, List.map_map]
    rw [h.next]
    exact hpush
  · rw [History.window, List.map_append, List.length_append, List.map_singleton, List.length_singleton,
      List.drop_append_of_le_length (by rw [List.length_map]; omega), List.nodup_append_comm]
    exact List.nodup_cons.mpr ⟨fun hmem => hnew (hsub.subset hmem), h.nodup.sublist hsub⟩
  · exact List.forall_mem_append.mpr ⟨h.known, List.forall_mem_singleton.mpr hknown⟩
  · refine List.forall_mem_append.mpr ⟨fun b hb => ?_, List.forall_mem_singleton.mpr hclock.ge⟩
    exact (h.past b hb).trans (hnow.trans hclock.symm).le
  · have hpaid := h.paid since until'
    simp only [hnow] at hpaid
    simp only [History.count, RecipientLimiter.charge, List.countP_append, List.countP_singleton, hclock, hmeter,
      decide_eq_true_eq, add_mul] at hpaid ⊢
    split_ifs at hpaid ⊢ <;> omega

variable (hinj : Set.InjOn hash recipients)
include hinj

/-- A recipient of the window is admitted for nothing, and another one is charged for or denied. -/
theorem Inv.admits {recipient : Text} (hknown : recipient ∈ recipients) (now : ℕ) :
    (recipient ∈ s.window ∧ s.limiter.admits hash recipient now = some (.free, s.limiter)) ∨
      recipient ∉ s.window ∧
        ((s.limiter.replenish now).bucket.tokens = 0 ∧
            s.limiter.admits hash recipient now = some (.denied, s.limiter.replenish now) ∨
          ∃ bucket, (s.limiter.replenish now).bucket.consume 1 = some bucket ∧
            s.limiter.admits hash recipient now =
              some (.charged, (s.limiter.replenish now).charge (hash recipient) bucket)) := by
  have hrecent : (s.limiter.recent.take s.limiter.len).contains (hash recipient) = true ↔ recipient ∈ s.window := by
    rw [List.contains_iff_mem, ← List.mem_rotate, h.ring, List.mem_map]
    refine ⟨?_, fun hmem => ⟨recipient, hmem, rfl⟩⟩
    rintro ⟨other, hmem, heq⟩
    obtain ⟨a, ha, rfl⟩ := List.mem_map.mp (List.mem_of_mem_drop hmem)
    rwa [← hinj (h.known a ha) hknown heq]
  rw [RecipientLimiter.admits, ← hrecent]
  split_ifs with hfree hempty
  · exact .inl ⟨hfree, rfl⟩
  · exact .inr ⟨hfree, .inl ⟨hempty, rfl⟩⟩
  · have hconsume := TokenBucket.consume_eq_some.mpr ⟨Nat.one_le_iff_ne_zero.mpr hempty, rfl⟩
    rw [hconsume]
    exact .inr ⟨hfree, .inr ⟨_, rfl, rfl⟩⟩

theorem Inv.admitted {a : Admission} (hknown : a.recipient ∈ recipients) (hnow : s.limiter.bucket.updatedAt ≤ a.now) :
    ∃ result, s.limiter.admits hash a.recipient a.now = some result ∧
      Inv hash recipients perSecond burst (s.next a result) ∧ result.2.bucket.updatedAt ≤ a.now := by
  have hclock : (s.limiter.replenish a.now).bucket.updatedAt = a.now := max_eq_right hnow
  rcases h.admits hinj hknown a.now with ⟨-, heq⟩ | ⟨hnew, ⟨-, heq⟩ | ⟨bucket, hconsume, heq⟩⟩
  · exact ⟨_, heq, h, hnow⟩
  · exact ⟨_, heq, h.replenish hnow, hclock.le⟩
  · refine ⟨_, heq, (h.replenish hnow).charge hclock hknown hnew hconsume, ?_⟩
    rw [← hclock, (TokenBucket.consume_eq_some.mp hconsume).2]
    rfl

theorem Inv.run {admissions : List Admission} (hknown : ∀ a ∈ admissions, a.recipient ∈ recipients)
    (htimes : (admissions.map Admission.now).Pairwise (· ≤ ·))
    (hlater : ∀ a ∈ admissions, s.limiter.bucket.updatedAt ≤ a.now) :
    ∃ last, s.run hash admissions = some last ∧ Inv hash recipients perSecond burst last := by
  induction admissions generalizing s with
  | nil => exact ⟨s, rfl, h⟩
  | cons a rest ih =>
    obtain ⟨hfirst, hrest⟩ := List.forall_mem_cons.mp hknown
    obtain ⟨hafter, htimes⟩ := List.pairwise_cons.mp htimes
    obtain ⟨result, heq, hinv, hle⟩ := h.admitted hinj hfirst (hlater a List.mem_cons_self)
    obtain ⟨last, hrun, hlast⟩ := ih hinv hrest htimes fun b hb => hle.trans (hafter _ (List.mem_map_of_mem hb))
    refine ⟨last, ?_, hlast⟩
    rw [History.run, heq]
    exact hrun

end Runs

/-- The ring holds the hashes of the last recipients that were charged, the oldest at the place that is written next.
These are told apart and admitted for nothing. Others are denied only without a token, and then nothing but the time
of the bucket changes. What is charged between two moments is bounded by the burst and the time between them. -/
theorem new_recipients_limited (perSecond burst : NonZeroUsize) (start : ℕ) {hash : Text → UInt64}
    {recipients : Set Text} (hinj : Set.InjOn hash recipients) {admissions : List Admission}
    (hknown : ∀ a ∈ admissions, a.recipient ∈ recipients)
    (htimes : (start :: admissions.map Admission.now).Pairwise (· ≤ ·)) :
    ∃ last : History, History.run hash ⟨.new perSecond burst start, []⟩ admissions = some last ∧
      last.window.Nodup ∧ last.limiter.len = min last.charged.length 64 ∧
      (last.limiter.recent.take last.limiter.len).rotate last.limiter.next = last.window.map hash ∧
      (∀ recipient ∈ recipients, ∀ now, ∃ answer later,
        last.limiter.admits hash recipient now = some (answer, later) ∧
          (answer = .free ↔ recipient ∈ last.window) ∧ (answer = .free → later = last.limiter) ∧
          (answer = .denied → (last.limiter.bucket.replenish perSecond burst now).tokens = 0 ∧
            later = { last.limiter with bucket := last.limiter.bucket.replenish perSecond burst now })) ∧
      ∀ since until', last.count since until' ≤ burst.get + (until' - since) * perSecond.get / nanosPerSecond := by
  obtain ⟨hlater, htimes⟩ := List.pairwise_cons.mp htimes
  obtain ⟨last, hrun, h⟩ := (inv_new hash recipients perSecond burst start).run hinj hknown htimes
    fun a ha => hlater _ (List.mem_map_of_mem ha)
  refine ⟨last, hrun, h.nodup, h.len, h.ring, fun recipient hrecipient now => ?_, fun since until' => ?_⟩
  · rw [← h.rates.1, ← h.rates.2]
    rcases h.admits hinj hrecipient now with ⟨hmem, heq⟩ | ⟨hnew, ⟨hempty, heq⟩ | ⟨_, -, heq⟩⟩
    · exact ⟨_, _, heq, iff_of_true rfl hmem, fun _ => rfl, nofun⟩
    · exact ⟨_, _, heq, iff_of_false nofun hnew, nofun, fun _ => ⟨hempty, rfl⟩⟩
    · exact ⟨_, _, heq, iff_of_false nofun hnew, nofun, nofun⟩
  · have hpaid := h.paid since until'
    have hmono : (min last.limiter.bucket.updatedAt until' - since) * perSecond.get ≤ (until' - since) * perSecond.get :=
      Nat.mul_le_mul_right _ (by omega)
    generalize (until' - since) * perSecond.get = earned at *
    simp only [nanosPerSecond] at *
    omega

/-- Two recipients that the hash tells apart, at one token a second and a burst of one. -/
theorem new_recipients_limited_pair :
    ∃ last, History.run (fun t => UInt64.ofNat t.length) ⟨.new ⟨1, by decide, by decide⟩ ⟨1, by decide, by decide⟩ 0, []⟩
      [⟨['a'], 0⟩, ⟨[], 5⟩] = some last ∧ last.count 0 5 ≤ 1 := by
  have hinj : Set.InjOn (fun t : Text => UInt64.ofNat t.length) {['a'], []} := by
    rintro _ (rfl | rfl) _ (rfl | rfl) heq <;> first | rfl | cases heq
  obtain ⟨last, hrun, -, -, -, -, hcount⟩ := @new_recipients_limited ⟨1, by decide, by decide⟩
    ⟨1, by decide, by decide⟩ 0 _ _ hinj [⟨['a'], 0⟩, ⟨[], 5⟩] (by simp) (by decide)
  exact ⟨last, hrun, (hcount 0 5).trans (by decide)⟩

end RecipientLimiter

end Lonewolf.C2s

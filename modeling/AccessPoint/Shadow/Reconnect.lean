/-
Retrying a reconnect (shadow/reconnect.go, `establishReconnectWithRetry`).

A reconnecting shadow tries the handshake at once and, while it fails for a passing reason, again after 4, 8, 16 and
then 32 seconds, unless the wait would end after a deadline: 45 seconds from the start, or the end of the job lease if
that is earlier. The loop counts no attempts; it ends because the waits grow faster than the window. The end of the
lease is computed from two attributes of the job ad in 64-bit integers, twice: their sum, and the sum as a `time.Time`,
whose seconds count from the year 1.

Times are nanoseconds of the Unix clock. The attempts, the clock and a cancelled context are the world's (`Turn`).

- `made_clock`: the clock when an attempt is made.
- `reconnect_bounds`: at most four attempts, no wait past the window or the lease, and when there is always a retry if
  there is time for it.
- `endless_lease_never_retries`: a lease that does not fit ends before it began.
-/
import AccessPoint.Core.Text
import AccessPoint.Literal

namespace AccessPoint.Reconnect

open ClassAdLib

/-- `time.Second` -/
def second : ℤ := 1000000000

/-- `DefaultReconnectWindow` -/
def defaultReconnectWindow : ℤ := 45 * second

/-- the seconds from the year 1 to the Unix epoch, which a `time.Time` adds -/
def unixToInternal : ℤ := 62135596800

/-- `time.Unix(sec, 0)`; the internal seconds wrap around -/
def unixTime (sec : ℤ) : ℤ := (Text.wrap64 (sec + unixToInternal) - unixToInternal) * second

variable {E : Type} [ClassAdLib E]

/-- the two attributes of the lease, when both are positive -/
def lease (ad : Ad E) : Option (ℤ × ℤ) :=
  match ad.evaluateAttrInt .jobLeaseDuration with
  | none => none
  | some dur =>
    if 0 < dur then
      match ad.evaluateAttrInt .lastJobLeaseRenewal with
      | none => none
      | some renewal => if 0 < renewal then some (renewal, dur) else none
    else none

/-- when the loop gives up -/
def deadline (ad : Ad E) (start : ℤ) : ℤ :=
  match lease ad with
  | none => start + defaultReconnectWindow
  | some (renewal, dur) =>
    let leaseEnd := unixTime (Text.wrap64 (renewal + dur))
    if leaseEnd < start + defaultReconnectWindow then leaseEnd else start + defaultReconnectWindow

/-- the wait after an attempt: `1<<uint(attempt+2)` seconds, at most 32 -/
def delay (attempt : ℕ) : ℤ :=
  let d := Text.wrap64 (Text.wrap64 (2 ^ (attempt + 2)) * second)
  if 32 * second < d then 32 * second else d

/-- how one handshake ends -/
inductive Handshake where
  | established
  | refused (err : String)
  | transient (err : String)
deriving DecidableEq, Repr

/-- what the world does in one turn of the loop -/
structure Turn where
  result : Handshake
  /-- the clock after the handshake -/
  now : ℤ
  /-- the error of the context, if it is done before the wait is over -/
  cancelled : Option String
deriving DecidableEq, Repr

inductive Outcome where
  | established
  | failed (err : String)
  /-- another attempt follows -/
  | again
deriving DecidableEq, Repr

/-- the turn starts its wait -/
def Turn.waits (stop : ℤ) (attempt : ℕ) (t : Turn) : Prop :=
  (∃ err, t.result = .transient err) ∧ ¬ stop < t.now + delay attempt

/-- one turn of the loop -/
def turn (stop : ℤ) (attempt : ℕ) (t : Turn) : Outcome :=
  match t.result with
  | .established => .established
  | .refused err => .failed err
  | .transient err =>
    if stop < t.now + delay attempt then .failed err
    else
      match t.cancelled with
      | some err => .failed err
      | none => .again

/-- `establishReconnectWithRetry` for so many turns at most, from an attempt on; `again` when they are used up -/
def establishReconnectWithRetry (stop : ℤ) (world : ℕ → Turn) : ℕ → ℕ → Outcome
  | 0, _ => .again
  | fuel + 1, attempt =>
    match turn stop attempt (world attempt) with
    | .again => establishReconnectWithRetry stop world fuel (attempt + 1)
    | out => out

/-- the attempt is made: every turn before it went on -/
def Made (stop : ℤ) (world : ℕ → Turn) (attempt : ℕ) : Prop := ∀ i < attempt, turn stop i (world i) = .again

/-- a clock that does not go back, on which every wait lasts its delay at least -/
structure Clock (start stop : ℤ) (world : ℕ → Turn) : Prop where
  first : start ≤ (world 0).now
  next : ∀ n, turn stop n (world n) = .again → (world n).now + delay n ≤ (world (n + 1)).now

/-- the earlier of 45 seconds from the start and the end of the lease, over the integers -/
def bound (ad : Ad E) (start : ℤ) : ℤ :=
  match lease ad with
  | none => start + defaultReconnectWindow
  | some (renewal, dur) => min (start + defaultReconnectWindow) ((renewal + dur) * second)

/-! ## The deadline -/

theorem unixTime_le {sec : ℤ} (h : -2 ^ 63 ≤ sec) : unixTime sec ≤ sec * second := by
  have hwrap : Text.wrap64 (sec + unixToInternal) ≤ sec + unixToInternal := by
    refine Text.wrap64_le ?_
    unfold unixToInternal
    omega
  unfold unixTime
  refine mul_le_mul_of_nonneg_right ?_ (by decide)
  omega

variable {ad : Ad E}

theorem lease_pos {renewal dur : ℤ} (h : lease ad = some (renewal, dur)) : 0 < renewal ∧ 0 < dur := by
  unfold lease at h
  split at h
  · cases h
  · split_ifs at h with hdur
    split at h
    · cases h
    · split_ifs at h with hrenewal
      cases h
      exact ⟨hrenewal, hdur⟩

/-- wrapping around makes the deadline only earlier -/
theorem deadline_le_bound (ad : Ad E) (start : ℤ) : deadline ad start ≤ bound ad start := by
  unfold deadline bound
  cases hlease : lease ad with
  | none => exact le_rfl
  | some l =>
    obtain ⟨renewal, dur⟩ := l
    obtain ⟨_, _⟩ := lease_pos hlease
    have hend : unixTime (Text.wrap64 (renewal + dur)) ≤ (renewal + dur) * second := by
      refine (unixTime_le (Text.le_wrap64 _)).trans ?_
      exact mul_le_mul_of_nonneg_right (Text.wrap64_le (by omega)) (by decide)
    dsimp only
    split_ifs with hearly
    · exact le_min hearly.le hend
    · exact le_min le_rfl ((not_lt.1 hearly).trans hend)

theorem deadline_le_window (ad : Ad E) (start : ℤ) : deadline ad start ≤ start + defaultReconnectWindow := by
  refine (deadline_le_bound ad start).trans ?_
  unfold bound
  cases lease ad with
  | none => exact le_rfl
  | some => exact min_le_left _ _

/-- a lease that fits ends when it should -/
theorem deadline_eq_bound (start : ℤ)
    (hfits : ∀ renewal dur, lease ad = some (renewal, dur) → renewal + dur + unixToInternal < 2 ^ 63) :
    deadline ad start = bound ad start := by
  unfold deadline bound
  cases hlease : lease ad with
  | none => rfl
  | some l =>
    obtain ⟨renewal, dur⟩ := l
    obtain ⟨_, _⟩ := lease_pos hlease
    have hsum := hfits renewal dur hlease
    unfold unixToInternal at hsum
    have hend : unixTime (Text.wrap64 (renewal + dur)) = (renewal + dur) * second := by
      rw [Text.wrap64_eq (by omega) (by omega), unixTime, Text.wrap64_eq (by unfold unixToInternal; omega) (by
        unfold unixToInternal; omega), add_sub_cancel_right]
    dsimp only
    rw [hend]
    split_ifs with hearly
    · exact (min_eq_right hearly.le).symm
    · exact (min_eq_left (not_lt.1 hearly)).symm

/-- a lease that does not fit ends before the epoch -/
theorem unixTime_neg {sum : ℤ} (hlow : 2 ^ 63 ≤ sum + unixToInternal) (hhigh : sum < 2 ^ 64) :
    unixTime (Text.wrap64 sum) < 0 := by
  unfold unixToInternal at hlow
  have hend : unixTime (Text.wrap64 sum) = (sum - 2 ^ 64) * second := by
    unfold unixTime unixToInternal
    rcases lt_or_ge sum (2 ^ 63) with hsum | hsum
    · rw [Text.wrap64_eq (by omega) hsum, Text.wrap64_over (by omega) (by omega)]
      ring
    · rw [Text.wrap64_over hsum (by omega), Text.wrap64_eq (by omega) (by omega), add_sub_cancel_right]
  rw [hend, second]
  omega

/-! ## The turns -/

variable {stop start : ℤ} {world : ℕ → Turn}

/-- a turn goes on when its handshake failed for a passing reason, the wait fits and the context stays -/
theorem turn_again {attempt : ℕ} {t : Turn} :
    turn stop attempt t = .again ↔ t.waits stop attempt ∧ t.cancelled = none := by
  unfold turn Turn.waits
  cases hr : t.result with
  | established | refused => simp
  | transient =>
    by_cases hlate : stop < t.now + delay attempt
    · simp [hlate]
    · cases t.cancelled <;> simp [hlate]

theorem Made.prior {n : ℕ} (h : Made stop world (n + 1)) : Made stop world n := fun i hi => h i (Nat.lt_succ_of_lt hi)

/-- **The clock when an attempt is made**: all the waits before it have passed. -/
theorem made_clock (hclock : Clock start stop world) {n : ℕ} (h : Made stop world n) :
    start + ∑ i ∈ Finset.range n, delay i ≤ (world n).now := by
  induction n with
  | zero => simpa using hclock.first
  | succ n ih =>
    calc start + ∑ i ∈ Finset.range (n + 1), delay i
        = start + ∑ i ∈ Finset.range n, delay i + delay n := by rw [Finset.sum_range_succ, add_assoc]
      _ ≤ (world n).now + delay n := by
          have := ih h.prior
          omega
      _ ≤ (world (n + 1)).now := hclock.next n (h n (Nat.lt_succ_self n))

/-- the fourth attempt has no time to wait after it -/
theorem made_lt_four (hclock : Clock start stop world) (hstop : stop ≤ start + defaultReconnectWindow) {n : ℕ}
    (h : Made stop world n) : n < 4 := by
  by_contra hge
  have hthree : Made stop world 3 := fun i hi => h i (by omega)
  obtain ⟨⟨-, hfits⟩, -⟩ := turn_again.1 (h 3 (by omega))
  have hnow := made_clock hclock hthree
  have hsum : ∑ i ∈ Finset.range 3, delay i = 28 * second := by decide
  have hlast : delay 3 = 32 * second := by decide
  rw [hsum] at hnow
  rw [hlast] at hfits
  unfold defaultReconnectWindow second at *
  omega

/-- running out of turns means that every one of them went on -/
theorem retry_again {fuel attempt : ℕ} (h : establishReconnectWithRetry stop world fuel attempt = .again) :
    ∀ i < fuel, turn stop (attempt + i) (world (attempt + i)) = .again := by
  induction fuel generalizing attempt with
  | zero => exact fun i hi => absurd hi (Nat.not_lt_zero i)
  | succ fuel ih =>
    rw [establishReconnectWithRetry] at h
    intro i hi
    cases hturn : turn stop attempt (world attempt) with
    | established | failed => rw [hturn] at h; cases h
    | again =>
      rw [hturn] at h
      cases i with
      | zero => exact hturn
      | succ i =>
        have hnext := ih h i (Nat.lt_of_succ_lt_succ hi)
        rwa [show attempt + (i + 1) = attempt + 1 + i by omega]

/-! ## Retries -/

/-- the attributes of the lease are 64-bit numbers -/
def LeaseInt64 (ad : Ad E) : Prop := ∀ renewal dur, lease ad = some (renewal, dur) → renewal < 2 ^ 63 ∧ dur < 2 ^ 63

/-- the end of the lease is a 64-bit time -/
def LeaseFits (ad : Ad E) : Prop :=
  ∀ renewal dur, lease ad = some (renewal, dur) → renewal + dur + unixToInternal < 2 ^ 63

/-- a first failure for a passing reason is followed by another attempt whenever the bound is four seconds away -/
def Retries (ad : Ad E) (start : ℤ) : Prop :=
  ∀ world, Clock start (deadline ad start) world → (∃ err, (world 0).result = .transient err) →
    (world 0).cancelled = none → (world 0).now + 4 * second ≤ bound ad start → Made (deadline ad start) world 1

theorem retries_of_fits (hfits : LeaseFits ad) (start : ℤ) : Retries ad start := by
  intro world _ hfail hctx htime i hi
  obtain rfl : i = 0 := by omega
  refine turn_again.2 ⟨⟨hfail, ?_⟩, hctx⟩
  rw [deadline_eq_bound start hfits]
  exact not_lt.2 htime

/-- every handshake fails after a second, every wait lasts as long as it should -/
def unlucky (start : ℤ) (n : ℕ) : Turn :=
  ⟨.transient "startd does not answer", start + (n + 1) * second + ∑ i ∈ Finset.range n, delay i, none⟩

theorem unlucky_now (start : ℤ) : (unlucky start 0).now = start + second := by
  simp [unlucky]

theorem unlucky_clock (start stop : ℤ) : Clock start stop (unlucky start) where
  first := by
    rw [unlucky_now, second]
    omega
  next := by
    intro n _
    simp only [unlucky, Finset.sum_range_succ, second]
    push_cast
    omega

/-- with a lease that does not fit, a first failure one second after the start is the last -/
theorem fits_of_retries {start : ℤ} (hlow : 0 ≤ start) (hhigh : start ≤ 2 ^ 62 * second)
    (h64 : LeaseInt64 ad) (h : Retries ad start) : LeaseFits ad := by
  intro renewal dur hlease
  by_contra hover
  obtain ⟨_, _⟩ := h64 renewal dur hlease
  have hneg : unixTime (Text.wrap64 (renewal + dur)) < 0 := unixTime_neg (by omega) (by omega)
  have htime : (unlucky start 0).now + 4 * second ≤ bound ad start := by
    simp only [bound, hlease, unlucky_now]
    unfold unixToInternal at hover
    simp only [defaultReconnectWindow, second] at hhigh ⊢
    omega
  have hmade := h (unlucky start) (unlucky_clock start _) ⟨_, rfl⟩ rfl htime 0 Nat.one_pos
  obtain ⟨⟨-, hwaits⟩, -⟩ := turn_again.1 hmade
  have hdelay : delay 0 = 4 * second := by decide
  refine hwaits ?_
  rw [unlucky_now, hdelay]
  simp only [deadline, hlease, second]
  split_ifs <;> omega

/-- **Reconnect retry bounds.** For every job ad, every pattern of handshakes and every clock that does not go back, the
loop returns within four attempts and starts no wait that would end after the window or the lease. After a first failure
for a passing reason it tries again whenever either leaves the time, if the end of the lease is a 64-bit time, and at
any plausible clock only then. -/
theorem reconnect_bounds (ad : Ad E) (start : ℤ) :
    (∀ world, Clock start (deadline ad start) world →
      establishReconnectWithRetry (deadline ad start) world 4 0 ≠ .again ∧
      (∀ n, Made (deadline ad start) world n → n < 4) ∧
      (∀ n, Made (deadline ad start) world n → (world n).waits (deadline ad start) n →
        (world n).now + delay n ≤ bound ad start)) ∧
    (LeaseFits ad → Retries ad start) ∧
    (0 ≤ start → start ≤ 2 ^ 62 * second → LeaseInt64 ad → (Retries ad start ↔ LeaseFits ad)) := by
  refine ⟨fun world hclock => ?_, fun hfits => retries_of_fits hfits start, fun hlow hhigh h64 =>
    ⟨fits_of_retries hlow hhigh h64, fun hfits => retries_of_fits hfits start⟩⟩
  have hfour : ∀ {n}, Made (deadline ad start) world n → n < 4 := made_lt_four hclock (deadline_le_window ad start)
  refine ⟨fun hagain => ?_, fun n h => hfour h, fun n _ hwaits => ?_⟩
  · have hmade : Made (deadline ad start) world 4 := fun i hi => by simpa using retry_again hagain i hi
    exact absurd (hfour hmade) (lt_irrefl 4)
  · exact (not_lt.1 hwaits.2).trans (deadline_le_bound ad start)

/-- a job ad with a lease -/
def leasedAd (renewal dur : ℤ) : Ad Value := (Ad.empty.setInt .lastJobLeaseRenewal renewal).setInt .jobLeaseDuration dur

/-- 40 minutes from a renewal of 100 seconds ago: the first failure is followed by another attempt -/
theorem short_lease_retried :
    Clock (1700000100 * second) (deadline (leasedAd 1700000000 2400) (1700000100 * second))
      (unlucky (1700000100 * second)) ∧
      Made (deadline (leasedAd 1700000000 2400) (1700000100 * second)) (unlucky (1700000100 * second)) 1 := by
  have hclock := unlucky_clock (1700000100 * second) (deadline (leasedAd 1700000000 2400) (1700000100 * second))
  have hlease : lease (leasedAd 1700000000 2400) = some (1700000000, 2400) := by decide +kernel
  refine ⟨hclock, (reconnect_bounds (leasedAd 1700000000 2400) (1700000100 * second)).2.1 (fun renewal dur h => ?_) _
    hclock ⟨_, rfl⟩ rfl (by decide +kernel)⟩
  rw [hlease] at h
  cases h
  decide

/-- the longest lease a client can ask for: its end wraps around to a time long past, and the first failure is the last
although the window leaves 44 seconds -/
theorem endless_lease_never_retries :
    (unlucky (1700000100 * second) 0).now + 4 * second ≤
        bound (leasedAd 1700000000 9223372036854775807) (1700000100 * second) ∧
      turn (deadline (leasedAd 1700000000 9223372036854775807) (1700000100 * second)) 0
        (unlucky (1700000100 * second) 0) = .failed "startd does not answer" := by
  decide +kernel

end AccessPoint.Reconnect

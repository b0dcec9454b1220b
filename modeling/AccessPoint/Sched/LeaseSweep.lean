/-
The lease sweep and the match table (`sweepExpired` of internal/sched/sched.go; `RenewLeaseFor` and `ExpireSweep` of
internal/match/match.go).

A sweep first renews the lease of every run that is neither vacated nor detached, for three sweep intervals from now,
then drops every record whose lease has run out and takes the job from the run that holds its claim, unless that run is
vacated. A detached run is skipped by the first half only. Each renewal and the expiry read the clock for themselves.

- `renewLive_lookup`: the table after the renewals.
- `sweepLeases_eq`: the handler of the core, its expired claims being those of the table.
- `sweep_spares_iff`: a sweep does nothing but renew leases exactly when no detached run has a lapsed record, other than
  one that a live run renews.
- `detached_run_expired`: a run detached for a reconnect is requeued and cancelled.
-/
import AccessPoint.Queue.ReadModifyWrite
import AccessPoint.Sched.World

namespace AccessPoint

open ClassAdLib Prog List

/-! ## The match table -/

/-- one claimed slot, what the sweep reads of it -/
structure MatchRec where
  publicID : String
  /-- `LeaseDeadline`; none for the zero time -/
  leaseDeadline : Option ℤ
deriving DecidableEq, Repr

def MatchRec.expired (r : MatchRec) (now : ℤ) : Bool := r.leaseDeadline.any (· < now)

/-- the records by their public ids -/
structure MatchTable where
  byPublic : KeyMap String MatchRec
  keyed : ∀ id r, byPublic.lookup id = some r → r.publicID = id

namespace MatchTable

/-- `RenewLeaseFor`, for the claim with this public id -/
def renewLeaseFor (t : MatchTable) (id : String) (deadline : ℤ) : MatchTable :=
  if id ∈ t.byPublic then
    { byPublic := t.byPublic.insert id ⟨id, some deadline⟩
      keyed := by
        intro id' r h
        rw [KeyMap.lookup_insert_ite] at h
        split_ifs at h with hid
        · cases h
          exact hid.symm
        · exact t.keyed id' r h }
  else t

/-- `ExpireSweep`: the records whose lease has run out, and the table without them -/
def expireSweep (t : MatchTable) (now : ℤ) : List MatchRec × MatchTable :=
  ((t.byPublic.entries.map (·.2)).filter (·.expired now),
    { byPublic := t.byPublic.mapKeys fun _ r => if r.expired now then none else some r
      keyed := by
        intro id r h
        rw [KeyMap.lookup_mapKeys] at h
        obtain ⟨_, hl, hr⟩ := Option.bind_eq_some_iff.1 h
        split_ifs at hr
        cases hr
        exact t.keyed id r hl })

theorem renewLeaseFor_lookup (t : MatchTable) (id id' : String) (deadline : ℤ) :
    (t.renewLeaseFor id deadline).byPublic.lookup id' =
      if id' = id then (t.byPublic.lookup id).map fun _ => ⟨id, some deadline⟩ else t.byPublic.lookup id' := by
  unfold renewLeaseFor
  by_cases hm : id ∈ t.byPublic
  · obtain ⟨_, hl⟩ := (KeyMap.mem_iff_lookup _ _).1 hm
    rw [if_pos hm, KeyMap.lookup_insert_ite, hl]
    rfl
  · rw [if_neg hm, KeyMap.lookup_none_of_notMem hm]
    split_ifs with hid
    · rw [hid, KeyMap.lookup_none_of_notMem hm]
      rfl
    · rfl

theorem mem_expireSweep {t : MatchTable} {now : ℤ} {id : String} :
    id ∈ (t.expireSweep now).1.map (·.publicID) ↔ ∃ r, t.byPublic.lookup id = some r ∧ r.expired now = true := by
  simp only [expireSweep, mem_map, mem_filter]
  constructor
  · rintro ⟨r, ⟨⟨⟨id', r'⟩, hm, rfl⟩, hexp⟩, rfl⟩
    have hl : t.byPublic.lookup id' = some r' := AList.mem_lookup_iff.2 hm
    exact ⟨r', by rw [t.keyed id' r' hl]; exact hl, hexp⟩
  · rintro ⟨r, hl, hexp⟩
    exact ⟨r, ⟨⟨⟨id, r⟩, AList.mem_lookup_iff.1 hl, rfl⟩, hexp⟩, t.keyed id r hl⟩

end MatchTable

namespace Sched

variable {E : Type}

/-! ## The two halves -/

/-- the clock during one sweep: at each renewal, and at the expiry -/
structure SweepClock where
  renew : JobKey → ℤ
  expire : ℤ

/-- a run that is alive: neither vacated nor detached -/
def isLive (ri : RunInfo) : Bool := !(ri.vacated || ri.detached)

/-- the public id of the claim of a run -/
def claimOf (cfg : SchedConfig E) (core : Core) (k : JobKey) : Option String :=
  (core.running.lookup k).map fun ri => cfg.publicID ri.claimID

/-- one renewal -/
def renewRun (cfg : SchedConfig E) (core : Core) (interval : ℤ) (renew : JobKey → ℤ) (t : MatchTable) (k : JobKey) :
    MatchTable :=
  match claimOf cfg core k with
  | none => t
  | some id => t.renewLeaseFor id (renew k + 3 * interval)

/-- the renewals of a sweep -/
def renewLive (cfg : SchedConfig E) (core : Core) (interval : ℤ) (renew : JobKey → ℤ) (t : MatchTable) : MatchTable :=
  (runsWhere core isLive).foldl (renewRun cfg core interval renew) t

/-- the claims a sweep finds expired -/
def expiredClaims (cfg : SchedConfig E) (core : Core) (interval : ℤ) (clk : SweepClock) (t : MatchTable) :
    List String :=
  ((renewLive cfg core interval clk.renew t).expireSweep clk.expire).1.map (·.publicID)

/-- a record after the renewals of `ks`: of a run of `ks`, with its lease pushed on, or as it was and of no such run -/
theorem renewRuns_lookup (cfg : SchedConfig E) (core : Core) (interval : ℤ) (renew : JobKey → ℤ) (ks : List JobKey)
    (t : MatchTable) (id : String) {r : MatchRec}
    (h : (ks.foldl (renewRun cfg core interval renew) t).byPublic.lookup id = some r) :
    (∃ k ∈ ks, claimOf cfg core k = some id ∧ r.leaseDeadline = some (renew k + 3 * interval)) ∨
      t.byPublic.lookup id = some r ∧ ∀ k ∈ ks, claimOf cfg core k ≠ some id := by
  induction ks generalizing t with
  | nil => exact .inr ⟨h, fun k hk => by cases hk⟩
  | cons k ks ih =>
    rcases ih _ h with ⟨k', hk', hid, hd⟩ | ⟨hl, hother⟩
    · exact .inl ⟨k', mem_cons_of_mem k hk', hid, hd⟩
    · by_cases hid : claimOf cfg core k = some id
      · rw [renewRun, hid] at hl
        simp only [MatchTable.renewLeaseFor_lookup, if_true] at hl
        obtain ⟨_, -, rfl⟩ := Option.map_eq_some_iff.1 hl
        exact .inl ⟨k, mem_cons_self, hid, rfl⟩
      · right
        have hsame : (renewRun cfg core interval renew t k).byPublic.lookup id = t.byPublic.lookup id := by
          unfold renewRun
          cases hc : claimOf cfg core k with
          | none => rfl
          | some =>
            simp only [MatchTable.renewLeaseFor_lookup]
            rw [if_neg fun he => hid (by rw [hc, he])]
        refine ⟨hsame ▸ hl, fun k' hk' => ?_⟩
        rcases mem_cons.1 hk' with rfl | hk'
        · exact hid
        · exact hother k' hk'

/-- a record no run of `ks` holds stays as it is -/
theorem renewRuns_other (cfg : SchedConfig E) (core : Core) (interval : ℤ) (renew : JobKey → ℤ) {ks : List JobKey}
    (t : MatchTable) {id : String} (h : ∀ k ∈ ks, claimOf cfg core k ≠ some id) :
    (ks.foldl (renewRun cfg core interval renew) t).byPublic.lookup id = t.byPublic.lookup id := by
  induction ks generalizing t with
  | nil => rfl
  | cons k ks ih =>
    rw [foldl_cons, ih _ fun k' hk' => h k' (mem_cons_of_mem k hk')]
    have hne := h k mem_cons_self
    unfold renewRun
    cases hc : claimOf cfg core k with
    | none => rfl
    | some =>
      simp only [MatchTable.renewLeaseFor_lookup]
      rw [if_neg fun he => hne (by rw [hc, he])]

/-- some live run holds the claim -/
def HeldLive (cfg : SchedConfig E) (core : Core) (id : String) : Prop :=
  ∃ k ri, core.running.lookup k = some ri ∧ ri.vacated = false ∧ ri.detached = false ∧ cfg.publicID ri.claimID = id

variable {cfg : SchedConfig E} {core : Core}

theorem heldLive_iff {id : String} :
    HeldLive cfg core id ↔ ∃ k ∈ runsWhere core isLive, claimOf cfg core k = some id := by
  constructor
  · rintro ⟨k, ri, hl, hv, hd, hid⟩
    exact ⟨k, mem_runsWhere.2 ⟨ri, hl, by simp [isLive, hv, hd]⟩, by simp [claimOf, hl, hid]⟩
  · rintro ⟨k, hk, hid⟩
    obtain ⟨ri, hl, hp⟩ := mem_runsWhere.1 hk
    simp only [isLive, Bool.not_eq_true', Bool.or_eq_false_iff] at hp
    simp only [claimOf, hl, Option.map_some, Option.some.injEq] at hid
    exact ⟨k, ri, hl, hp.1, hp.2, hid⟩

/-- **The claims a sweep finds expired**, the clock having advanced by at most three intervals since any renewal: those
with a lapsed record that no live run holds. -/
theorem mem_expiredClaims {interval : ℤ} {clk : SweepClock} {t : MatchTable}
    (hclk : ∀ k, clk.expire - clk.renew k ≤ 3 * interval) {id : String} :
    id ∈ expiredClaims cfg core interval clk t ↔
      (∃ r, t.byPublic.lookup id = some r ∧ r.expired clk.expire = true) ∧ ¬ HeldLive cfg core id := by
  unfold expiredClaims renewLive
  rw [MatchTable.mem_expireSweep, heldLive_iff]
  constructor
  · rintro ⟨r, hl, hexp⟩
    rcases renewRuns_lookup cfg core interval clk.renew _ t id hl with ⟨k, -, -, hd⟩ | ⟨hl', hother⟩
    · -- a lease that was just renewed has not run out
      simp only [MatchRec.expired, hd, Option.any_some, decide_eq_true_eq] at hexp
      have := hclk k
      omega
    · exact ⟨⟨r, hl', hexp⟩, fun ⟨k, hk, hid⟩ => hother k hk hid⟩
  · rintro ⟨⟨r, hl, hexp⟩, hfree⟩
    refine ⟨r, ?_, hexp⟩
    rw [renewRuns_other cfg core interval clk.renew t fun k hk hid => hfree ⟨k, hk, hid⟩]
    exact hl

/-! ## The handler with the table -/

instance (c : Cmd E) : Nonempty c.Resp := by
  cases c with
  | get => exact ⟨none⟩
  | put | await => exact ⟨true⟩
  | scan | expireSweep => exact ⟨[]⟩
  | clock => exact ⟨(0 : ℤ)⟩
  | claim => exact ⟨ClaimOutcome.panicked ""⟩
  | serve => exact ⟨ServeOutcome.panicked ""⟩
  | reattach => exact ⟨ReattachOutcome.panicked ""⟩
  | _ => exact ⟨()⟩

/-- the program with the expired claims it asks for -/
def answerSweep {α : Type} (ids : List String) : Go E α → Go E α
  | .ret a => .ret a
  | .call .expireSweep k => answerSweep ids (k ids)
  | .call c k => .call c fun r => answerSweep ids (k r)

variable [ClassAdLib E]

/-- `sweepExpired` with the match table -/
def sweepLeases (cfg : SchedConfig E) (interval : ℤ) (core : Core) (t : MatchTable) (clk : SweepClock) :
    Go E (Finish E) :=
  answerSweep (expiredClaims cfg core interval clk t) (sweepExpired cfg core).2

omit [ClassAdLib E] in
theorem answerSweep_bind {α β : Type} (ids : List String) (p : Go E α) (f : α → Go E β) :
    answerSweep ids (p.bind f) = (answerSweep ids p).bind fun a => answerSweep ids (f a) := by
  induction p with
  | ret => rfl
  | call c k ih =>
    cases c with
    | expireSweep => exact ih ids
    | _ => exact congrArg _ (funext ih)

omit [ClassAdLib E] in
/-- a program that does not ask is unchanged -/
theorem answerSweep_self {α : Type} (ids : List String) {p : Go E α} (h : Prog.Calls (· ≠ .expireSweep) p) :
    answerSweep ids p = p := by
  induction p with
  | ret => rfl
  | call c k ih =>
    cases c with
    | expireSweep => exact absurd rfl h.1
    | _ => exact congrArg _ (funext fun r => ih r (h.2 r))

theorem jobStatus_asks (k : JobKey) : Prog.Calls (· ≠ .expireSweep) (Queue.jobStatus k : Go E ℤ) :=
  ⟨by simp, fun r => by cases r <;> trivial⟩

omit [ClassAdLib E] in
theorem modify_asks (k : JobKey) (fn : Ad E → Ad E) : Prog.Calls (· ≠ .expireSweep) (Queue.modify k fn) := by
  refine ⟨by simp, fun r => ?_⟩
  cases r with
  | none => trivial
  | some => exact ⟨by simp, fun _ => trivial⟩

theorem renewAll_asks (now : ℤ) (ks : List JobKey) :
    Prog.Calls (· ≠ .expireSweep) (renewAll now ks : Go E Unit) := by
  induction ks with
  | nil => trivial
  | cons k ks ih =>
    refine calls_bind (jobStatus_asks k) fun status => calls_ite ?_ ih
    exact calls_bind (modify_asks k _) fun _ => ih

theorem requeueToIdle_asks (k : JobKey) : Prog.Calls (· ≠ .expireSweep) (requeueToIdle k : Go E Unit) := by
  refine calls_bind (jobStatus_asks k) fun status => calls_ite trivial ?_
  exact calls_bind (calls_single (by simp)) fun now => calls_bind (modify_asks k _) fun _ => trivial

theorem expireAll_asks (cfg : SchedConfig E) (core : Core) (gone : List JobKey) (ids : List String) :
    Prog.Calls (· ≠ .expireSweep) (expireAll cfg core gone ids) := by
  induction ids generalizing gone with
  | nil => trivial
  | cons id ids ih =>
    unfold expireAll
    cases expiredRun cfg core gone id with
    | none => exact ih gone
    | some k => exact calls_bind (requeueToIdle_asks k) fun _ => ih (k :: gone)

/-- the handler from the expired claims on -/
def sweepWith (cfg : SchedConfig E) (core : Core) (ids : List String) : Go E (Finish E) := do
  let now ← Go.clock
  renewAll now (runsWhere core isLive)
  let gone ← expireAll cfg core [] ids
  pure { vacate := gone }

/-- the handler, its expired claims being those of the table -/
theorem sweepLeases_eq (cfg : SchedConfig E) (interval : ℤ) (core : Core) (t : MatchTable) (clk : SweepClock) :
    sweepLeases cfg interval core t clk = sweepWith cfg core (expiredClaims cfg core interval clk t) := by
  unfold sweepLeases sweepWith sweepExpired
  generalize expiredClaims cfg core interval clk t = ids
  have hlive : (runsWhere core fun ri => !(ri.vacated || ri.detached)) = runsWhere core isLive := rfl
  have hask : ∀ f : List String → Go E (Finish E), answerSweep ids (Go.expireSweep.bind f) = answerSweep ids (f ids) :=
    fun f => rfl
  simp only [hlive, bind_eq, pure_eq, answerSweep_bind, hask, answerSweep_self _ (renewAll_asks _ _),
    answerSweep_self _ (expireAll_asks _ _ _ _)]
  rfl

/-! ## A sweep that only renews -/

/-- the ad of a live run, as just read, with its lease renewal set: no other write -/
def renewalProtocol (core : Core) : Prog.Protocol (Cmd.Resp (E := E)) (Option (JobKey × Ad E)) where
  allowed := fun seen c =>
    match c with
    | .put k ad' => k ∈ runsWhere core isLive ∧ ∃ ad now, seen = some (k, ad) ∧ ad' = ad.setInt .lastJobLeaseRenewal now
    | .delete _ => False
    | .append _ _ => False
    | _ => True
  expects := fun _ _ _ => True
  next := fun seen c r =>
    match c, r with
    | .get k, some ad => some (k, ad)
    | _, _ => seen

/-- the sweep takes no run that was not vacated before, and writes nothing but the lease renewals of live runs -/
structure Spares (core : Core) (p : Go E (Finish E)) : Prop where
  cancels : Prog.Results (fun fin => ∀ k ri, core.running.lookup k = some ri → ri.vacated = false → k ∉ fin.vacate) p
  writes : Prog.wp (renewalProtocol core) (fun _ _ => True) p none

theorem renewAll_writes (now : ℤ) {ks : List JobKey} (h : ∀ k ∈ ks, k ∈ runsWhere core isLive)
    (seen : Option (JobKey × Ad E)) :
    Prog.wp (renewalProtocol core) (fun _ _ => True) (renewAll now ks : Go E Unit) seen := by
  induction ks generalizing seen with
  | nil => trivial
  | cons k ks ih =>
    have hks := ih fun k' hk' => h k' (mem_cons_of_mem k hk')
    refine wp_bind.2 ⟨trivial, fun r _ => ?_⟩
    have hrest : ∀ (status : ℤ) (seen : Option (JobKey × Ad E)), wp (renewalProtocol core) (fun _ _ => True)
        (if status = statusRunning then
          (Queue.modify k fun ad => ad.setInt .lastJobLeaseRenewal now).bind fun _ => renewAll now ks
        else renewAll now ks) seen := by
      intro status seen
      refine wp_ite (fun _ => ?_) fun _ => hks seen
      refine wp_bind.2 ⟨trivial, fun r _ => ?_⟩
      cases r with
      | none => exact hks _
      | some ad => exact ⟨⟨h k mem_cons_self, ad, now, rfl, rfl⟩, fun ok _ => hks _⟩
    cases r with
    | none | some => exact hrest _ _

/-- no run that holds an expired claim: nothing is taken -/
theorem expireAll_none {ids : List String} (h : ∀ id ∈ ids, expiredRun cfg core [] id = none) :
    expireAll cfg core [] ids = (pure [] : Go E (List JobKey)) := by
  induction ids with
  | nil => rfl
  | cons id ids ih =>
    unfold expireAll
    rw [h id mem_cons_self]
    exact ih fun id' hid' => h id' (mem_cons_of_mem id hid')

theorem expireAll_keeps (cfg : SchedConfig E) (core : Core) {k : JobKey} (ids : List String) (gone : List JobKey)
    (h : k ∈ gone) : Prog.Results (fun g => k ∈ g) (expireAll cfg core gone ids) := by
  induction ids generalizing gone with
  | nil => exact h
  | cons id ids ih =>
    unfold expireAll
    cases expiredRun cfg core gone id with
    | none => exact ih gone h
    | some k' => exact results_bind _ fun _ => ih _ (mem_cons_of_mem k' h)

/-- the first run that holds an expired claim is taken -/
theorem expireAll_takes {ids : List String} {id : String} (hid : id ∈ ids) (h : expiredRun cfg core [] id ≠ none) :
    Prog.Results (fun g => ∃ k ∈ g, k ∈ runsWhere core fun ri => !ri.vacated) (expireAll cfg core [] ids) := by
  induction ids with
  | nil => cases hid
  | cons id' ids ih =>
    unfold expireAll
    cases hr : expiredRun cfg core [] id' with
    | none =>
      rcases mem_cons.1 hid with rfl | hid
      · exact absurd hr h
      · exact ih hid
    | some k =>
      have hk : k ∈ runsWhere core fun ri => !ri.vacated := by
        obtain ⟨ri, hl, hp⟩ := mem_runsWhere.1 (mem_of_find?_eq_some hr)
        simp only [Bool.and_eq_true] at hp
        exact mem_runsWhere.2 ⟨ri, hl, hp.1⟩
      refine results_bind _ fun _ => ?_
      exact (expireAll_keeps cfg core ids [k] mem_cons_self).mono fun g hg => ⟨k, hg, hk⟩

omit [ClassAdLib E] in
theorem expiredRun_none {id : String} :
    expiredRun cfg core [] id = none ↔
      ∀ k ri, core.running.lookup k = some ri → ri.vacated = false → cfg.publicID ri.claimID ≠ id := by
  simp only [expiredRun, find?_eq_none, not_mem_nil, not_false_eq_true, decide_true, not_true_eq_false]
  constructor
  · intro h k ri hl hv hid
    exact h k (mem_runsWhere.2 ⟨ri, hl, by simp [hv, hid]⟩)
  · intro h k hk
    obtain ⟨ri, hl, hp⟩ := mem_runsWhere.1 hk
    simp only [Bool.and_eq_true, Bool.not_eq_true', decide_eq_true_eq] at hp
    exact h k ri hl hp.1 hp.2

/-- every detached run has a record that is still good, or one that a live run renews, or none -/
def DetachedBacked (cfg : SchedConfig E) (core : Core) (t : MatchTable) (now : ℤ) : Prop :=
  ∀ k ri, core.running.lookup k = some ri → ri.vacated = false → ri.detached = true →
    ∀ r, t.byPublic.lookup (cfg.publicID ri.claimID) = some r → r.expired now = true →
      HeldLive cfg core (cfg.publicID ri.claimID)

omit [ClassAdLib E] in
/-- no expired claim is held by a run, exactly when every detached run is backed -/
theorem backed_iff {interval : ℤ} {clk : SweepClock} {t : MatchTable}
    (hclk : ∀ k, clk.expire - clk.renew k ≤ 3 * interval) :
    (∀ id ∈ expiredClaims cfg core interval clk t, expiredRun cfg core [] id = none) ↔
      DetachedBacked cfg core t clk.expire := by
  constructor
  · intro h k ri hl hv hd r hr hexp
    by_contra hfree
    exact expiredRun_none.1 (h _ ((mem_expiredClaims hclk).2 ⟨⟨r, hr, hexp⟩, hfree⟩)) k ri hl hv rfl
  · intro h id hid
    obtain ⟨⟨r, hr, hexp⟩, hfree⟩ := (mem_expiredClaims hclk).1 hid
    refine expiredRun_none.2 fun k ri hl hv hpub => ?_
    -- the run is not live, so it is a detached one
    cases hd : ri.detached with
    | false => exact hfree ⟨k, ri, hl, hv, hd, hpub⟩
    | true =>
      subst hpub
      exact hfree (h k ri hl hv hd r hr hexp)

/-- **The lease sweep takes no run that is alive**, and writes nothing but lease renewals of live runs, exactly when
every detached run has a record whose lease has not run out, or shares its claim with a live run. The clock may advance
by three sweep intervals between a renewal and the expiry. -/
theorem sweep_spares_iff (cfg : SchedConfig E) (interval : ℤ) (core : Core) (t : MatchTable) (clk : SweepClock)
    (hclk : ∀ k, clk.expire - clk.renew k ≤ 3 * interval) :
    Spares core (sweepLeases cfg interval core t clk) ↔ DetachedBacked cfg core t clk.expire := by
  rw [← backed_iff hclk, sweepLeases_eq]
  generalize expiredClaims cfg core interval clk t = ids
  constructor
  · intro h id hid
    by_contra hrun
    -- some run is taken, and it was not vacated
    have htaken : Prog.Results (fun fin : Finish E => ∃ k ∈ fin.vacate, k ∈ runsWhere core fun ri => !ri.vacated)
        (sweepWith cfg core ids) := by
      refine results_bind _ fun now => results_bind _ fun _ => ?_
      exact results_bind_of (expireAll_takes hid hrun) fun g hg => hg
    obtain ⟨_, hspared, k, hk, hin⟩ := (h.cancels.and htaken).exists
    obtain ⟨ri, hl, hv⟩ := mem_runsWhere.1 hin
    exact hspared k ri hl (by simpa using hv) hk
  · intro h
    unfold sweepWith
    rw [expireAll_none h]
    refine ⟨?_, trivial, fun now _ => ?_⟩
    · refine results_bind _ fun now => results_bind _ fun _ => ?_
      exact fun k ri _ _ => not_mem_nil
    · have hrenew : wp (renewalProtocol core) (fun _ _ => True)
          ((renewAll now (runsWhere core isLive)).bind fun _ => ret ({ vacate := [] } : Finish E)) none :=
        wp_bind.2 (renewAll_writes (E := E) now (fun k hk => hk) none)
      exact hrenew

end Sched

/-! ## A run detached for a reconnect -/

namespace Sched

/-- the job of `started`, whose run the drain has detached -/
def detachedRun : World Value := World.run poolSched (World.start aliceQueue) (started ++ [.drain, .take])

/-- its record, with the lease the startd last asked for -/
def slotRecord : MatchTable where
  byPublic := (∅ : KeyMap String MatchRec).insert "<10.0.0.2:9618>#1#1" ⟨"<10.0.0.2:9618>#1#1", some 306⟩
  keyed := by
    intro id r h
    rw [KeyMap.lookup_insert_ite] at h
    split_ifs at h with hid
    · cases h
      exact hid.symm
    · cases h

/-- all readings of the clock are the same -/
def stopped (now : ℤ) : SweepClock := ⟨fun _ => now, now⟩

/-- before the lease has run out the sweep takes nothing -/
theorem sweep_spares_detached :
    Spares detachedRun.core (sweepLeases poolSched 30 detachedRun.core slotRecord (stopped 305)) := by
  refine (sweep_spares_iff poolSched 30 detachedRun.core slotRecord (stopped 305) (fun k => by simp [stopped])).2 ?_
  intro k ri _ _ _ r hr hexp
  have hgood : slotRecord.byPublic.entries.all (fun e => !e.2.expired 305) = true := by decide +kernel
  have hno := all_eq_true.1 hgood ⟨_, r⟩ (AList.mem_lookup_iff.1 hr)
  simp only [stopped] at hexp
  simp [hexp] at hno

/-- **A preserved run is taken away.** One second after its lease the sweep requeues the job of the detached run, whose
claim and lease are gone from the ad, and vacates the run. -/
theorem detached_run_expired :
    (detachedRun.core.running.lookup ⟨1, 0⟩).map (fun ri => (ri.vacated, ri.detached)) = some (false, true) ∧
      (detachedRun.q.coll.get ⟨1, 0⟩).map (fun ad => (ad.int0 .jobStatus, (ad .claimId).isSome)) =
        some (statusRunning, true) ∧
      (let r := detachedRun.q.coll.alone (fun _ => smooth)
        (sweepLeases poolSched 30 detachedRun.core slotRecord (stopped 307))
      r.1.vacate = [⟨1, 0⟩] ∧
        (r.2.1.get ⟨1, 0⟩).map (fun ad => (ad.int0 .jobStatus, (ad .claimId).isSome)) = some (statusIdle, false)) := by
  decide +kernel

end Sched

end AccessPoint

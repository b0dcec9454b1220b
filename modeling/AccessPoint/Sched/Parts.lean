/-
What the handlers of the core are made of.

A handler reads jobs, looks at the clock, and rewrites a job in one of a few ways. A property of programs that
sequencing keeps and that the single parts have (`Parts`) therefore holds of every handler and of the sweep. Which job a
part rewrites is bounded by `writes`.
-/
import AccessPoint.Sched.Core

namespace AccessPoint.Sched

variable {E : Type} [ClassAdLib E]

/-- the jobs the handler of an event may write -/
def writes (core : Core) : Event → JobKey → Prop
  | .evStarted k _ _ => (· = k)
  | .evExited k _ _ => (· = k)
  | .evFailed k _ _ _ _ => (· = k)
  | .evReconnectFailed k _ _ => (· = k)
  | .evDrain _ => (· ∈ core.running)
  | .evRecover _ => fun _ => True
  | _ => fun _ => False

/-- the failure of a run an event reports, and whether it counts -/
def reportsFailure : Event → JobKey → Bool → Prop
  | .evExited k none _ => fun k' count => k' = k ∧ count = true
  | .evFailed k _ panicked _ _ => fun k' count => k' = k ∧ count = panicked
  | .evReconnectFailed k _ _ => fun k' count => k' = k ∧ count = false
  | _ => fun _ _ => False

section

variable {W : (α : Type) → Go E α → Prop} (ret : ∀ {α : Type} (a : α), W α (.ret a))
  (bind : ∀ {α β : Type} {p : Go E α} {f : α → Go E β}, W α p → (∀ a, W β (f a)) → W β (p.bind f))
  (get : ∀ k, W _ (Go.get k))
include ret bind get

theorem jobStatus_of (k : JobKey) : W _ (Queue.jobStatus k) := by
  refine bind (get k) fun r => ?_
  cases r <;> exact ret _

/-- a requeue out of its single steps -/
theorem requeueToIdle_of (clock : W _ Go.clock) {k : JobKey} (requeue : ∀ now, W _ (Queue.modify k (requeuedAd now))) :
    W _ (requeueToIdle k) := by
  refine bind (jobStatus_of ret bind get k) fun status => ?_
  split_ifs
  · exact ret _
  · exact bind clock fun now => bind (requeue now) fun _ => ret _

/-- so for a renewal -/
theorem renewAll_of (now : ℤ) {ks : List JobKey}
    (renew : ∀ k ∈ ks, W _ (Queue.modify k fun ad => ad.setInt .lastJobLeaseRenewal now)) : W _ (renewAll now ks) := by
  induction ks with
  | nil => exact ret _
  | cons k ks ih =>
    have hrest := ih fun k' hk' => renew k' (List.mem_cons_of_mem k hk')
    refine bind (jobStatus_of ret bind get k) fun status => ?_
    split_ifs
    · exact bind (renew k List.mem_cons_self) fun _ => hrest
    · exact hrest

end

/-- `W` holds of the parts of handlers that write only jobs in `may`; the first and the last write of a run are left to
`Parts.handle` -/
structure Parts (cfg : SchedConfig E) (may : JobKey → Prop) (W : (α : Type) → Go E α → Prop) : Prop where
  ret : ∀ {α : Type} (a : α), W α (.ret a)
  bind : ∀ {α β : Type} {p : Go E α} {f : α → Go E β}, W α p → (∀ a, W β (f a)) → W β (p.bind f)
  get : ∀ k, W _ (Go.get k)
  clock : W _ Go.clock
  scan : W _ Go.scan
  expireSweep : W _ Go.expireSweep
  requeueToIdle : ∀ k, may k → W _ (requeueToIdle k)
  renewAll : ∀ now ks, (∀ k ∈ ks, may k) → W _ (renewAll now ks)

namespace Parts

omit [ClassAdLib E] in
theorem ite_of {α : Type} {W : (α : Type) → Go E α → Prop} {c : Prop} [Decidable c] {p p' : Go E α} (hp : W α p)
    (hp' : W α p') : W α (if c then p else p') := by
  split_ifs
  · exact hp
  · exact hp'

variable {cfg : SchedConfig E} {may : JobKey → Prop} {W : (α : Type) → Go E α → Prop} (h : Parts cfg may W)
include h

theorem jobStatus (k : JobKey) : W _ (Queue.jobStatus k) := jobStatus_of h.ret h.bind h.get k

theorem logJob (k : JobKey) (f : Ad E → ULog E) : W _ (logJob cfg k f) := by
  refine ite_of (h.bind (h.get k) fun r => ?_) (h.ret _)
  cases r <;> exact h.ret _

theorem requeueAll {ks : List JobKey} (hks : ∀ k ∈ ks, may k) : W _ (requeueAll ks) := by
  induction ks with
  | nil => exact h.ret _
  | cons k ks ih =>
    exact h.bind (h.requeueToIdle k (hks k List.mem_cons_self)) fun _ => ih fun k' hk' =>
      hks k' (List.mem_cons_of_mem k hk')

variable {core : Core}

theorem recoverLoop (now : ℤ) {ads : List (Ad E)}
    (hout : ∀ ad ∈ ads, ⟨ad.int0 .clusterId, ad.int0 .procId⟩ ∉ core.running →
      may ⟨ad.int0 .clusterId, ad.int0 .procId⟩) :
    W _ (recoverLoop cfg core now ads) := by
  induction ads with
  | nil => exact h.ret _
  | cons ad ads ih =>
    have hrest := ih fun ad' hin => hout ad' (List.mem_cons_of_mem ad hin)
    unfold Sched.recoverLoop
    dsimp only
    by_cases hk : ad.int0 .jobStatus ≠ statusRunning ∨ ⟨ad.int0 .clusterId, ad.int0 .procId⟩ ∈ core.running
    · rw [if_pos hk]
      exact hrest
    · rw [if_neg hk]
      refine ite_of ?_ (h.bind hrest fun _ => h.ret _)
      exact h.bind (h.requeueToIdle _ (hout ad List.mem_cons_self fun hin => hk (.inr hin))) fun _ => hrest

theorem expireAll (hrun : ∀ k ri, core.running.lookup k = some ri → ri.vacated = false → may k)
    (gone : List JobKey) (recs : List String) : W _ (expireAll cfg core gone recs) := by
  induction recs generalizing gone with
  | nil => exact h.ret _
  | cons rec recs ih =>
    unfold Sched.expireAll
    cases hx : expiredRun cfg core gone rec with
    | none => exact ih gone
    | some k =>
      obtain ⟨ri, hl, hv⟩ := expiredRun_some hx
      exact h.bind (h.requeueToIdle k (hrun k ri hl hv)) fun _ => ih (k :: gone)

/-- a sweep writes the jobs of runs that are not vacated -/
theorem sweepExpired (hrun : ∀ k ri, core.running.lookup k = some ri → ri.vacated = false → may k) :
    W _ (sweepExpired cfg core).2 := by
  have hlive : ∀ k ∈ runsWhere core fun ri => !(ri.vacated || ri.detached), may k := by
    intro k hk
    obtain ⟨ri, hl, hp⟩ := mem_runsWhere.1 hk
    simp only [Bool.not_eq_true', Bool.or_eq_false_iff] at hp
    exact hrun k ri hl hp.1
  exact h.bind h.clock fun now => h.bind (h.renewAll now _ hlive) fun _ =>
    h.bind h.expireSweep fun recs => h.bind (h.expireAll hrun [] recs) fun _ => h.ret _

/-- **Every handler.** The write with which a run starts, a failed run and the end of a run that delivered a result come
as hypotheses. -/
theorem handle {ev : Event} (hmay : ∀ k, writes core ev k → may k)
    (hstart : ∀ k slotName claimID, ev = .evStarted k slotName claimID →
      ∀ claim now, W _ (Queue.modify k (startedAd cfg slotName claim now)))
    (hfail : ∀ k why count, writes core ev k → reportsFailure ev k count → W _ (jobFailed cfg k why count))
    (hexit : ∀ k res err, ev = .evExited k (some res) err → W _ (exitJob cfg k res)) :
    W _ (handle cfg core ev).2 := by
  cases ev with
  | evMatch m =>
    simp only [Sched.handle, handleMatch]
    split_ifs
    · exact h.ret _
    · refine h.bind (h.jobStatus m.key) fun _ => ite_of (h.ret _) (h.bind (h.get m.key) fun r => ?_)
      cases r <;> exact h.ret _
  | evStarted k slotName claimID =>
    exact h.bind h.clock fun now => h.bind (hstart k slotName claimID rfl _ now) fun ok =>
      ite_of (h.ret _) (h.bind (h.logJob k _) fun _ => h.ret _)
  | evExited k res err =>
    refine ite_of (h.ret _) ?_
    cases res with
    | none => exact h.bind (hfail k _ _ rfl ⟨rfl, rfl⟩) fun _ => h.ret _
    | some res => exact h.bind (hexit k res err rfl) fun _ => h.ret _
  | evFailed k =>
    exact ite_of (h.ret _) (h.bind (hfail k _ _ rfl ⟨rfl, rfl⟩) fun _ => h.ret _)
  | evReschedule | evPolicyDone => exact h.ret _
  | evTeardown =>
    simp only [Sched.handle, handleTeardown]
    split_ifs <;> exact h.ret _
  | evDrain =>
    simp only [Sched.handle, handleDrain]
    split_ifs
    · exact h.ret _
    · refine h.bind (h.requeueAll fun k hk => hmay k ?_) fun _ => h.ret _
      obtain ⟨ri, hl, -⟩ := mem_runsWhere.1 hk
      exact (KeyMap.mem_iff_lookup _ _).2 ⟨ri, hl⟩
    · exact h.ret _
  | evReconnectFailed k =>
    exact ite_of (h.ret _) (h.bind (h.logJob k _) fun _ => h.bind (hfail k _ _ rfl ⟨rfl, rfl⟩) fun _ => h.ret _)
  | evRecover =>
    exact ite_of (h.ret _) (h.bind h.clock fun now => h.bind h.scan fun ads =>
      h.bind (h.recoverLoop now fun _ _ _ => hmay _ trivial) fun _ => h.ret _)
  | evPolicyRemove k | evPolicyHold k | evPolicyRelease k =>
    exact ite_of (h.ret _) (h.bind (h.jobStatus k) fun _ => ite_of (h.ret _) (h.ret _))

end Parts

end AccessPoint.Sched

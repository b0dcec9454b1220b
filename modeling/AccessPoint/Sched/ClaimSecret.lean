/-
The claim secret (internal/sched/sched.go, `handleStarted` and `handleExited`; internal/queue/actions.go;
internal/spool/spool.go).

The claim id is a capability: whoever knows it can use the slot. `handleStarted` writes it to the job, together with the
status Running, and every rewrite that takes a job out of Running strips it. The exit handler does the two in different
writes: it strips the claim, reads the job again for the exit policy, and archives or rewrites what it then finds. A
transfer that read the ad before the first of these and writes it back after it puts the claim back, and the handler
archives it.

- `claim_only_on_running`: as long as no transfer writes a claim while the exit of the same job is handled, and the
  stripping write does not fail, a live ad has a claim only if its status is Running, and no history record has one.
- `download_archives_claim`: a download does it.
-/
import AccessPoint.Sched.Scheme
import AccessPoint.Spool.Transfers

namespace AccessPoint

open ClassAdLib Prog

variable {E : Type} [ClassAdLib E]

/-! ## Ads -/

/-- a claim only on a running job -/
def Ad.Guarded (ad : Ad E) : Prop := ad .claimId ≠ none → ad .jobStatus = some (lit (.int statusRunning))

/-- of the ad under `k`; a cluster ad has no claim, so no proc inherits one -/
def Ad.GuardedAt (k : JobKey) (ad : Ad E) : Prop := ad.Guarded ∧ (k.proc < 0 → ad .claimId = none)

namespace Ad

variable {k : JobKey} {ad ad' : Ad E}

theorem guardedAt_of_none (h : ad .claimId = none) : ad.GuardedAt k := ⟨fun hne => absurd h hne, fun _ => h⟩

theorem Guarded.claim_none (h : ad.Guarded) (hs : ad.int0 .jobStatus ≠ statusRunning) : ad .claimId = none := by
  by_contra hne
  exact hs (Ad.int0_lit (h hne))

theorem GuardedAt.of_butFor {S : List Attr} (h : ad.GuardedAt k) (hb : ad.ButFor S ad') (hclaim : Attr.claimId ∉ S)
    (hstatus : Attr.jobStatus ∉ S) : ad'.GuardedAt k := by
  unfold GuardedAt Guarded
  rw [hb _ hclaim, hb _ hstatus]
  exact h

end Ad

theorem requeuedAd_claim (now : ℤ) (ad : Ad E) : requeuedAd now ad .claimId = none := rfl

theorem failedAd_claim (cfg : SchedConfig E) (why : String) (count : Bool) (now : ℤ) (ad : Ad E) :
    failedAd cfg why count now ad .claimId = none := by
  unfold failedAd
  split_ifs <;> rfl

theorem exitedAd_claim (res : RunResult) (now : ℤ) (ad : Ad E) : exitedAd res now ad .claimId = none := by
  unfold exitedAd
  cases res.exitCode <;> cases res.termSignal <;> split <;> (try split_ifs) <;> rfl

theorem startedAd_status (cfg : SchedConfig E) (slotName claimID : String) (now : ℤ) (ad : Ad E) :
    startedAd cfg slotName claimID now ad .jobStatus = some (lit (.int statusRunning)) := by
  unfold startedAd setIfAbsent
  split_ifs <;> rfl

theorem holdAd_claim {ad : Ad E} (h : ad.Guarded) (req : ActionRequest) (now : ℤ) :
    Queue.holdAd req (ad.int0 .jobStatus) now ad .claimId = none := by
  by_cases hrun : ad.int0 .jobStatus = statusRunning
  · unfold Queue.holdAd
    rw [if_pos hrun]
    rfl
  · unfold Queue.holdAd
    rw [if_neg hrun]
    exact h.claim_none hrun

theorem releaseAd_claim {ad : Ad E} (h : ad.Guarded) (hheld : ad.int0 .jobStatus = statusHeld) (req : ActionRequest)
    (now : ℤ) : Queue.releaseAd req now ad .claimId = none := by
  rw [releaseAd_butFor req now ad _ (by decide)]
  exact h.claim_none (by rw [hheld]; decide)

theorem removeAd_claim {ad : Ad E} (h : ad.Guarded) (req : ActionRequest) (now : ℤ) :
    Queue.removeAd req (ad.int0 .jobStatus) now ad .claimId = none := by
  by_cases hrun : ad.int0 .jobStatus = statusRunning
  · unfold Queue.removeAd
    rw [if_pos hrun]
    split_ifs <;> rfl
  · unfold Queue.removeAd
    rw [if_neg hrun]
    split_ifs <;> exact h.claim_none hrun

/-! ## What each goroutine writes -/

/-- the exit handler strips the claim of its job first; `guest` is a goroutine that never writes a claim -/
inductive Watch where
  | guest
  | free
  | exiting (k : JobKey)
  | clean (k : JobKey)
deriving DecidableEq

/-- a run that starts is the run of a proc -/
def Event.Proper : Event → Prop
  | .evStarted k _ _ => 0 ≤ k.proc
  | _ => True

def secretProtocol (E : Type) [ClassAdLib E] : Prog.Protocol (Cmd.Resp (E := E)) Watch where
  allowed := fun st c =>
    match c with
    | .put k ad => ad.GuardedAt k ∧ (st ≠ .free → ad .claimId = none)
    | .append _ ad => ad .claimId = none
    | .submit ev => ev.Proper
    | _ => True
  expects := fun st c =>
    match c with
    | .get k => fun r : Option (Ad E) => ∀ ad, r = some ad → ad.GuardedAt k ∧ (st = .clean k → ad .claimId = none)
    | .put k _ => fun r : Bool => st = .exiting k → r = true
    | _ => fun _ => True
  next := fun st c =>
    match c with
    | .get k => fun r : Option (Ad E) => if st = .exiting k ∧ r.isNone then .clean k else st
    | .put k _ => fun _ => if st = .exiting k then .clean k else st
    | _ => fun _ => st

/-- where the core begins -/
def Watch.enter : Option Event → Watch
  | some (.evExited k (some _) _) => .exiting k
  | _ => .free

/-- the claim of the job is not about to be stripped -/
def Watch.Settled (st : Watch) : Prop := ∀ k, st ≠ .exiting k

theorem Watch.Settled.next {st : Watch} (hst : st.Settled) (c : Cmd E) (r : c.Resp) :
    (secretProtocol E).next st c r = st := by
  cases c with
  | get k => exact if_neg fun h => hst k h.1
  | put k => exact if_neg (hst k)
  | _ => rfl

theorem Watch.settled_guest : Watch.guest.Settled := fun _ h => nomatch h

theorem Watch.settled_free : Watch.free.Settled := fun _ h => nomatch h

theorem Watch.settled_clean (k : JobKey) : (Watch.clean k).Settled := fun _ h => nomatch h

/-- the program keeps to the protocol and leaves the state as it is -/
abbrev Steady {α : Type} (st : Watch) (p : Go E α) : Prop := Prog.wp (secretProtocol E) (fun st' _ => st' = st) p st

namespace Steady

variable {α β : Type} {st : Watch} {k : JobKey}

theorem bind {p : Go E α} {f : α → Go E β} (hp : Steady st p) (hf : ∀ a, Steady st (f a)) : Steady st (p.bind f) := by
  refine wp_bind.2 (wp_mono (fun st' a hst' => ?_) hp)
  rw [hst']
  exact hf a

theorem clock : Steady st (Go.clock : Go E ℤ) := ⟨trivial, fun _ _ => rfl⟩

theorem get_bind (hst : st.Settled) {f : Option (Ad E) → Go E α} (hnone : Steady st (f none))
    (hsome : ∀ ad, ad.GuardedAt k → (st = .clean k → ad .claimId = none) → Steady st (f (some ad))) :
    Steady st ((Go.get k).bind f) := by
  refine ⟨trivial, fun r hr => ?_⟩
  rw [hst.next]
  cases r with
  | none => exact hnone
  | some ad => exact hsome ad (hr ad rfl).1 (hr ad rfl).2

theorem get (hst : st.Settled) : Steady st (Go.get k : Go E (Option (Ad E))) := get_bind hst rfl fun _ _ _ => rfl

theorem put (hst : st.Settled) {ad : Ad E} (hat : ad.GuardedAt k) (hnone : st ≠ .free → ad .claimId = none) :
    Steady st (Go.put k ad) := ⟨⟨hat, hnone⟩, fun r _ => hst.next (.put k ad) r⟩

theorem modify (hst : st.Settled) {fn : Ad E → Ad E}
    (h : ∀ ad, ad.GuardedAt k → (st = .clean k → ad .claimId = none) →
      (fn ad).GuardedAt k ∧ (st ≠ .free → fn ad .claimId = none)) : Steady st (Queue.modify k fn) :=
  get_bind hst rfl fun ad hat hclean => put hst (h ad hat hclean).1 (h ad hat hclean).2

/-- a rewrite that touches neither the claim nor the status, by a goroutine that may write claims -/
theorem modify_butFor {fn : Ad E → Ad E} {S : List Attr} (hb : ∀ ad : Ad E, ad.ButFor S (fn ad))
    (hclaim : Attr.claimId ∉ S)
    (hstatus : Attr.jobStatus ∉ S) : Steady .free (Queue.modify k fn) :=
  modify Watch.settled_free fun ad hat _ => ⟨hat.of_butFor (hb ad) hclaim hstatus, fun hne => absurd rfl hne⟩

theorem jobStatus (hst : st.Settled) : Steady st (Queue.jobStatus k : Go E ℤ) := get_bind hst rfl fun _ _ _ => rfl

theorem logJob (hst : st.Settled) (cfg : SchedConfig E) (f : Ad E → ULog E) : Steady st (Sched.logJob cfg k f) :=
  wp_ite (fun _ => get_bind hst rfl fun _ _ _ => rfl) fun _ => rfl

theorem archiveAndDelete {ad : Ad E} (h : ad .claimId = none) : Steady st (archiveAndDelete k ad) :=
  ⟨h, fun _ _ => ⟨trivial, fun _ _ => ⟨trivial, fun _ _ => rfl⟩⟩⟩

theorem vacate (hook : Bool) (status : ℤ) : Steady st (Queue.vacate hook k status : Go E Unit) :=
  wp_ite (fun _ => ⟨trivial, fun _ _ => ⟨trivial, fun _ _ => rfl⟩⟩) fun _ => rfl

theorem submit_bind {ev : Event} {f : Unit → Go E α} (h : ev.Proper) (hf : Steady st (f ())) :
    Steady st ((Go.submit ev).bind f) := ⟨h, fun _ _ => hf⟩

theorem applyAction (q : Queue E) (hook : Bool) (k : JobKey) (req : ActionRequest) :
    Steady .guest (q.applyAction hook k req) := by
  have hput : ∀ (ad : Ad E) (yes no : ℤ × List (ULog E)), ad .claimId = none →
      Steady .guest ((Go.put k ad).bind fun ok => if ok then .ret yes else .ret no) := by
    intro ad yes no hnone
    refine (put Watch.settled_guest (Ad.guardedAt_of_none hnone) fun _ => hnone).bind fun ok => ?_
    cases ok <;> rfl
  refine get_bind Watch.settled_guest rfl fun ad hat _ => wp_ite (fun _ => rfl) fun _ => clock.bind fun now => ?_
  have hremove : Steady .guest (Queue.removeJob hook k req true ad now) := by
    refine wp_ite (fun _ => rfl) fun _ => wp_ite (fun _ => rfl) fun _ => ?_
    exact (vacate hook _).bind fun _ => (archiveAndDelete (removeAd_claim hat.1 req now)).bind fun _ => rfl
  cases req.kind with
  | hold =>
    refine wp_ite (fun _ => rfl) fun _ => wp_ite (fun _ => rfl) fun _ =>
      wp_ite (fun _ => rfl) fun _ => ?_
    exact (vacate hook _).bind fun _ => hput _ _ _ (holdAd_claim hat.1 req now)
  | release =>
    refine wp_ite (fun _ => rfl) fun hheld => wp_ite (fun _ => rfl) fun _ =>
      wp_ite (fun _ => rfl) fun _ => ?_
    exact hput _ _ _ (releaseAd_claim hat.1 (not_not.1 hheld) req now)
  | remove | removeX => exact hremove

end Steady

namespace Sched

variable (cfg : SchedConfig E) {core : Core} {k : JobKey}

theorem secret_parts : Parts cfg (fun _ => True) fun _ p => Steady .free p where
  ret := fun _ => rfl
  bind := Steady.bind
  get := fun _ => Steady.get Watch.settled_free
  clock := Steady.clock
  scan := ⟨trivial, fun _ _ => rfl⟩
  expireSweep := ⟨trivial, fun _ _ => rfl⟩
  requeueToIdle := fun k _ =>
    requeueToIdle_of (W := fun _ p => Steady .free p) (fun _ => rfl) Steady.bind (fun _ =>
      Steady.get Watch.settled_free)
      Steady.clock fun now =>
      Steady.modify Watch.settled_free fun ad _ _ =>
        ⟨Ad.guardedAt_of_none (requeuedAd_claim now ad), fun hne => absurd rfl hne⟩
  renewAll := fun now _ _ =>
    renewAll_of (W := fun _ p => Steady .free p) (fun _ => rfl) Steady.bind (fun _ => Steady.get Watch.settled_free) now
      fun k _ => Steady.modify_butFor (S := [.lastJobLeaseRenewal])
        (fun ad => (Ad.ButFor.refl ad).setInt now List.mem_cons_self) (by decide) (by decide)

theorem jobFailed_secret (k : JobKey) (why : String) (count : Bool) : Steady .free (jobFailed cfg k why count) := by
  refine (Steady.jobStatus Watch.settled_free).bind fun _ => wp_ite (fun _ => rfl) fun _ => ?_
  refine Steady.clock.bind fun now => Steady.get_bind Watch.settled_free ?_ fun ad _ _ => ?_
  · exact Steady.logJob Watch.settled_free cfg _
  · have hnone := failedAd_claim cfg why count now ad
    refine (Steady.put Watch.settled_free (Ad.guardedAt_of_none hnone) fun _ => hnone).bind fun _ => ?_
    exact Steady.logJob Watch.settled_free cfg _

/-- after the first write of the exit handler the job has no claim -/
theorem strip_clean (res : RunResult) (now : ℤ) :
    Prog.wp (secretProtocol E) (fun st _ => st = .clean k) (Queue.modify k (exitedAd res now)) (.exiting k) := by
  refine ⟨trivial, fun r _ => ?_⟩
  cases r with
  | none => exact if_pos ⟨rfl, rfl⟩
  | some ad =>
    have hnone := exitedAd_claim res now ad
    have hnext : (secretProtocol E).next (.exiting k) (.get k) (some ad) = .exiting k := if_neg fun h => nomatch h.2
    rw [hnext]
    exact ⟨⟨Ad.guardedAt_of_none hnone, fun _ => hnone⟩, fun _ _ => if_pos rfl⟩

theorem exitJob_secret (res : RunResult) :
    Prog.wp (secretProtocol E) (fun _ _ => True) (exitJob cfg k res) (.exiting k) := by
  have hclean := Watch.settled_clean k
  have hlog : ∀ f, Steady (.clean k) (logJob cfg k f) := fun f => Steady.logJob hclean cfg f
  have hdecision : ∀ now, Steady (.clean k) (exitDecision cfg k now) := fun now =>
    Steady.get_bind hclean rfl fun _ _ _ => rfl
  -- what is read of the job after the first write has no claim, and neither has what is written then
  have hmodify : ∀ fn : Ad E → Ad E, (∀ ad, fn ad .claimId = ad .claimId) → Steady (.clean k) (Queue.modify k fn) := by
    intro fn hfn
    refine Steady.modify hclean fun ad _ hnone => ?_
    have hstill : fn ad .claimId = none := (hfn ad).trans (hnone rfl)
    exact ⟨Ad.guardedAt_of_none hstill, fun _ => hstill⟩
  refine ⟨trivial, fun now _ => ?_⟩
  refine (wp_bind (p := Queue.modify k (exitedAd res now))).2
    (wp_mono (fun st _ hst => ?_) (strip_clean res now))
  rw [hst]
  refine wp_mono (fun _ _ _ => trivial) (Steady.bind (hdecision now) fun d => ?_)
  cases d.action with
  | hold => exact Steady.bind (hmodify (heldOnExitAd _ _ _ now) fun _ => rfl) fun _ => hlog _
  | requeue =>
    exact Steady.bind (hmodify (fun ad => moveTo ad statusRunning statusIdle now) fun _ => rfl) fun _ => hlog _
  | remove => exact Steady.submit_bind trivial rfl
  | _ =>
    refine (hlog _).bind fun logged => Steady.bind (Steady.get_bind hclean rfl fun ad _ hnone => ?_) fun _ => rfl
    exact Steady.clock.bind fun now => Steady.archiveAndDelete (hnone rfl)

theorem handle_secret {ev : Event} (hev : ev.Proper) :
    Prog.wp (secretProtocol E) (fun _ _ => True) (handle cfg core ev).2 (Watch.enter (some ev)) := by
  have hparts : (∀ k res err, ev ≠ .evExited k (some res) err) → Steady .free (handle cfg core ev).2 := by
    intro hne
    refine (secret_parts cfg).handle (fun _ _ => trivial) ?_ (fun k why count _ _ => jobFailed_secret cfg k why count)
      fun k res err he => absurd he (hne k res err)
    rintro k slotName claimID rfl claim now
    refine Steady.modify Watch.settled_free fun ad _ _ =>
      ⟨⟨fun _ => startedAd_status .., fun hneg => ?_⟩, fun hne => absurd rfl hne⟩
    exact absurd hev (not_le.2 hneg)
  cases ev with
  | evExited k res =>
    cases res with
    | none => exact wp_mono (fun _ _ _ => trivial) (hparts fun _ _ _ h => nomatch h)
    | some res =>
      refine wp_ite (fun _ => trivial) fun _ => wp_bind.2 ?_
      exact wp_mono (fun _ _ _ => trivial) (exitJob_secret cfg res)
  | _ => exact wp_mono (fun _ _ _ => trivial) (hparts fun _ _ _ h => nomatch h)

/-! ## Runs -/

theorem runJob_secret {m : Match} (h : 0 ≤ m.key.proc) : Steady .guest (runJob m : Go E (ℤ × List (ULog E))) := by
  refine ⟨trivial, fun r _ => ?_⟩
  cases r with
  | failed | panicked => exact Steady.submit_bind trivial rfl
  | activated =>
    refine Steady.submit_bind h ⟨trivial, fun r _ => ?_⟩
    cases r <;> exact Steady.submit_bind trivial rfl

theorem reconnectJob_secret (claimID : String) (job : Ad E) : Steady .guest (reconnectJob cfg k claimID job) := by
  refine ⟨trivial, fun r _ => ?_⟩
  cases r <;> exact Steady.submit_bind trivial rfl

theorem handle_startsSteady (ev : Event) :
    Prog.Results (fun fin => ∀ r ∈ fin.runs, Steady .guest r.prog) (handle cfg core ev).2 := by
  refine (handle_begun cfg core ev).mono fun fin hfin r hr => ?_
  cases hfin r hr with
  | matched m hproc => exact runJob_secret hproc
  | recovered done ad r h =>
    obtain ⟨claimID, _, -, hprog⟩ := h.run
    exact hprog ▸ reconnectJob_secret cfg claimID ad

end Sched

def secretScheme (cfg : SchedConfig E) : Scheme cfg Watch where
  protocol := secretProtocol E
  guest := .guest
  enter := Watch.enter
  event := Event.Proper
  tool := fun q k req => Prog.wp_mono (fun _ _ _ => trivial) (Steady.applyAction q cfg.hook k req)
  policy := fun q k req => Prog.wp_mono (fun _ _ _ => trivial)
    ((Steady.applyAction q cfg.hook k req).bind fun _ => Steady.submit_bind trivial rfl)
  handle := fun core ev hev =>
    Prog.wp_mono (fun _ _ hfin r hr => Prog.wp_mono (fun _ _ _ => trivial) (hfin.2 r hr))
      ((Sched.handle_startsSteady cfg ev).and_wp (Sched.handle_secret cfg hev))
  sweep := fun core =>
    Prog.wp_mono (fun _ _ hfin r hr => absurd hr (by rw [hfin.2.1]; exact List.not_mem_nil))
      ((Sched.sweepExpired_finish cfg core).and_wp ((Sched.secret_parts cfg).sweepExpired fun _ _ _ _ => trivial))
  call := by
    intro w s ev h
    cases s <;> cases h <;> trivial
  submits := by
    intro st c t ev hall h
    cases c with
    | submit => cases h; exact hall
    | teardown => cases h; trivial
    | _ => cases h

/-! ## Transfers -/

namespace Spool

theorem releaseSpoolHold_guardedAt {k : JobKey} {ad : Ad E} (h : ad.GuardedAt k) (now : ℤ) :
    (releaseSpoolHold ad now).GuardedAt k := by
  by_cases hheld : ad.int0 .jobStatus = statusHeld
  · refine Ad.guardedAt_of_none ?_
    rw [releaseSpoolHold_butFor ad now _ (by decide)]
    exact h.1.claim_none (by rw [hheld]; decide)
  · unfold releaseSpoolHold
    rw [if_pos hheld]
    exact h

theorem finishSpool_secret (k : JobKey) (dir : String) : Steady .free (finishSpool k dir : Go E Bool) := by
  refine Steady.clock.bind fun now => Steady.modify Watch.settled_free fun ad hat _ => ⟨?_, fun hne => absurd rfl hne⟩
  exact releaseSpoolHold_guardedAt (hat.of_butFor (uploadedAd_butFor dir now ad) (by decide) (by decide)) now

theorem forJobs_secret {p : JobKey → Go E (Except String Unit)} (hp : ∀ k, Steady .free (p k)) (ks : List JobKey) :
    Steady .free (forJobs p ks) := by
  induction ks with
  | nil => rfl
  | cons k ks ih =>
    refine (hp k).bind fun r => ?_
    cases r with
    | error => rfl
    | ok => exact ih

theorem preSpoolCheck_secret (q : Queue E) (authUser : String) (k : JobKey) (now : ℤ) :
    Steady .free (preSpoolCheck q authUser k now) := by
  refine Steady.get_bind Watch.settled_free rfl fun ad _ _ => wp_ite (fun _ => rfl) fun _ => ?_
  cases jobAccount ad with
  | error => rfl
  | ok _ =>
    refine wp_ite (fun _ => rfl) fun _ => wp_ite (fun _ => rfl) fun _ => Steady.bind ?_ fun _ => rfl
    exact Steady.modify_butFor (S := [.stageInStart]) (fun ad => (Ad.ButFor.refl ad).setInt now List.mem_cons_self)
      (by decide) (by decide)

theorem receiveSandbox_secret (received : JobKey → Except String Unit) (k : JobKey) :
    Steady .free (receiveSandbox received k : Go E (Except String Unit)) := by
  have howner : Steady .free (ownerOf k : Go E (Except String String)) :=
    Steady.get_bind Watch.settled_free rfl fun _ _ _ => rfl
  refine howner.bind fun r => ?_
  cases r <;> rfl

theorem doSpool_secret (q : Queue E) (authUser : String) (dir : JobKey → String)
    (received : JobKey → Except String Unit)
    (jobs : List JobKey) : Steady .free (doSpool q authUser dir received jobs) := by
  refine Steady.clock.bind fun now =>
    (forJobs_secret (fun k => preSpoolCheck_secret q authUser k now) jobs).bind fun r => ?_
  cases r with
  | error => rfl
  | ok _ =>
    refine (forJobs_secret (receiveSandbox_secret received) jobs).bind fun r => ?_
    cases r with
    | error => rfl
    | ok _ =>
      refine forJobs_secret (fun k => ?_) jobs
      exact (finishSpool_secret k (dir k)).bind fun _ => rfl

theorem sendJob_secret (sent : JobKey → Except String Unit) (k : JobKey) :
    Steady .free (sendJob sent k : Go E (Except String Unit)) := by
  unfold sendJob
  cases sent k with
  | error => rfl
  | ok _ =>
    refine Steady.clock.bind fun now => Steady.bind ?_ fun _ => rfl
    exact Steady.modify_butFor (S := [.stageOutFinish]) (fun ad => (Ad.ButFor.refl ad).setInt now List.mem_cons_self)
      (by decide) (by decide)

end Spool

/-- a transfer may write a claim, but only to a job that its own copy says is Running -/
theorem Transfer.prog_secret (q : Queue E) (tr : Transfer) : Steady .free (tr.prog q) := by
  cases tr with
  | upload authUser dir received jobs => exact Spool.doSpool_secret q authUser dir received jobs
  | download sent jobs => exact Spool.forJobs_secret (Spool.sendJob_secret sent) jobs
  | recorder k files =>
    refine Steady.bind ?_ fun _ => rfl
    exact Steady.modify_butFor (S := [.spooledOutputFiles]) (fun ad =>
      (Ad.ButFor.refl ad).setStr files List.mem_cons_self)
      (by decide) (by decide)

/-! ## The store -/

def Store.Guarded (s : Store E) : Prop := ∀ k own, s.lookup k = some own → own.GuardedAt k

/-- the job `k`, if it is there, has no claim -/
def Store.CleanAt (s : Store E) (k : JobKey) : Prop := ∀ own, s.lookup k = some own → own .claimId = none

namespace Store

variable {s : Store E} {k : JobKey} {ad : Ad E} {c : Cmd E} {st : Watch} {ch : Choice}

theorem Guarded.parent (h : s.Guarded) (k : JobKey) : s.parentAd k .claimId = none := by
  rcases lt_or_ge k.proc 0 with hk | hk
  · rw [parentAd_neg s hk]
    rfl
  · rw [parentAd_proc s hk]
    cases hl : s.lookup (clusterKey k.cluster) with
    | none => rfl
    | some own => exact (h _ own hl).2 (by simp)

theorem Guarded.get (h : s.Guarded) (hg : s.get k = some ad) : ad.GuardedAt k := by
  obtain ⟨own, hl, rfl⟩ := get_eq_some.1 hg
  obtain ⟨hown, hneg⟩ := h k own hl
  have hclaim : own.chainTo (s.parentAd k) .claimId = own .claimId := by simp [h.parent k]
  refine ⟨fun hne => ?_, fun hk => hclaim.trans (hneg hk)⟩
  rw [hclaim] at hne
  simp [hown hne]

theorem CleanAt.get (h : s.CleanAt k) (hs : s.Guarded) (hg : s.get k = some ad) : ad .claimId = none := by
  obtain ⟨own, hl, rfl⟩ := get_eq_some.1 hg
  simp [h own hl, hs.parent k]

omit [ClassAdLib E] in
/-- an ad after a command was there, or the command has written it -/
theorem lookup_perform {own : Ad E} (hl : (s.perform ch c).2.lookup k = some own) :
    s.lookup k = some own ∨ c = .put k own ∧ ch.ok = true := by
  cases c with
  | put =>
    simp only [Store.perform] at hl
    split_ifs at hl with hok
    · rw [lookup_put] at hl
      split_ifs at hl with hk
      · cases hl
        exact .inr ⟨by rw [hk], hok⟩
      · exact .inl hl
    · exact .inl hl
  | delete =>
    simp only [Store.perform, lookup_delete] at hl
    split_ifs at hl
    exact .inl hl
  | _ => exact .inl hl

theorem Guarded.perform (h : s.Guarded) (hall : (secretProtocol E).allowed st c) : (s.perform ch c).2.Guarded := by
  intro k own hl
  rcases lookup_perform hl with hl | ⟨rfl, -⟩
  · exact h k own hl
  · exact hall.1

omit [ClassAdLib E] in
theorem CleanAt.perform (h : s.CleanAt k) (hput : ∀ ad, c = .put k ad → ch.ok = true → ad .claimId = none) :
    (s.perform ch c).2.CleanAt k := by
  intro own hl
  rcases lookup_perform hl with hl | ⟨hc, hok⟩
  · exact h own hl
  · exact hput own hc hok

/-- the store answers as the protocol expects -/
theorem Guarded.answers (h : s.Guarded) (hclean : ∀ k, st = .clean k → s.CleanAt k)
    (hstrip : ∀ k ad, c = .put k ad → st = .exiting k → ch.ok = true) :
    (secretProtocol E).expects st c (s.perform ch c).1 := by
  cases c with
  | get k => exact fun ad hg => ⟨h.get hg, fun hst => (hclean k hst).get h hg⟩
  | put k ad =>
    intro hst
    simp [Store.perform, hstrip k ad rfl hst]
  | _ => trivial

end Store

/-- the claim is where it may be -/
structure Queue.Guarded (q : Queue E) : Prop where
  live : q.coll.Guarded
  past : ∀ ad ∈ q.hist, ad .claimId = none

/-! ## The schedd and its transfers, step by step -/

/-- the core has the exit of `k` in hand -/
def exits (k : JobKey) : Option Event → Bool
  | some (.evExited k' _ _) => k' = k
  | _ => false

def secretView (E : Type) [ClassAdLib E] : View E Watch where
  shared := Queue.Guarded
  core := fun q h st =>
    match st with
    | .guest => False
    | .free => True
    | .exiting k => exits k h = true
    | .clean k => exits k h = true ∧ q.coll.CleanAt k
  other := fun _ st => st = .guest

theorem secretView_fresh (cfg : SchedConfig E) : (secretScheme cfg).Fresh (secretView E) where
  guest := fun _ _ => rfl
  enter := by
    intro q ev _
    rcases ev with _ | ev
    · trivial
    · cases ev with
      | evExited k res =>
        cases res with
        | none => trivial
        | some => exact decide_eq_true rfl
      | _ => trivial

namespace World

variable {w w' : World E} {t : ℕ} {ch : Choice} {c : Cmd E} {r : c.Resp}

omit [ClassAdLib E] in
/-- a record is there because it was, or because it is appended -/
theorem exec_records (hx : w.exec t ch c = some (r, w')) {ad : Ad E} (h : ad ∈ w'.q.hist) :
    ad ∈ w.q.hist ∨ ∃ k, c = .append k ad := by
  cases c with
  | append k =>
    simp only [exec] at hx
    split_ifs at hx <;> cases hx
    · rcases List.mem_append.1 h with hin | hin
      · exact .inl hin
      · exact .inr ⟨k, by rw [List.mem_singleton.1 hin]⟩
    · exact .inl h
  | put | await =>
    simp only [exec] at hx
    split_ifs at hx <;> cases hx <;> exact .inl h
  | teardown | submit =>
    cases hx
    rw [(submit_frame _ _).2.2.2.2] at h
    exact .inl h
  | _ => cases hx; exact .inl h

theorem exec_guarded (hx : w.exec t ch c = some (r, w')) (h : w.q.Guarded) {st : Watch}
    (hall : (secretProtocol E).allowed st c) : w'.q.Guarded where
  live := by
    have hlive : (w.q.coll.perform ch c).2.Guarded := h.live.perform hall
    rwa [exec_perform hx] at hlive
  past := by
    intro ad hin
    rcases exec_records hx hin with hin | ⟨k, rfl⟩
    · exact h.past ad hin
    · exact hall

theorem exec_cleanAt (hx : w.exec t ch c = some (r, w')) {k : JobKey} (h : w.q.coll.CleanAt k) {st : Watch}
    (hst : st ≠ .free) (hall : (secretProtocol E).allowed st c) : w'.q.coll.CleanAt k := by
  have hclean : (w.q.coll.perform ch c).2.CleanAt k := h.perform fun ad hc _ => by
    subst hc
    exact hall.2 hst
  rwa [exec_perform hx] at hclean

end World

namespace Site

variable {cfg : SchedConfig E} {site : Site E}

/-- while the core handles the exit of a job, its write of the job does not fail, and no transfer writes a claim to the
job -/
def Strips (site : Site E) : Step → Bool
  | .sched s =>
    match site.world.command s, s.choice with
    | some (0, .put k _), some ch => !exits k site.world.handling || ch.ok
    | _, _ => true
  | .start _ => true
  | .transfer i ch =>
    match site.command (.transfer i ch) with
    | some (.put k ad) => !(exits k site.world.handling && ch.ok && (ad .claimId).isSome)
    | _ => true

variable {ch : Choice} {c : Cmd E}

/-- the core's place in the protocol through its own command -/
theorem core_next {w w' : World E} {r : c.Resp} (hx : w.exec 0 ch c = some (r, w'))
    {h : Option Event} {st : Watch} (hst : (secretView E).core w.q h st) (hall : (secretProtocol E).allowed st c)
    (hok : (secretProtocol E).expects st c r) : (secretView E).core w'.q h ((secretProtocol E).next st c r) := by
  cases st with
  | guest => exact hst.elim
  | free => rw [Watch.settled_free.next]; trivial
  | clean k =>
    rw [(Watch.settled_clean k).next]
    have hne : Watch.clean k ≠ .free := fun he => by cases he
    exact ⟨hst.1, World.exec_cleanAt hx hst.2 hne hall⟩
  | exiting k =>
    cases c with
    | get k' =>
      by_cases hgone : Watch.exiting k = .exiting k' ∧ r.isNone = true
      · obtain ⟨⟨rfl⟩, hnone⟩ := hgone
        have hnext : (secretProtocol E).next (.exiting k) (.get k) r = .clean k := if_pos ⟨rfl, hnone⟩
        rw [hnext]
        cases hx
        refine ⟨hst, fun own hl => ?_⟩
        change w.q.coll.lookup k = some own at hl
        rw [Store.get_eq_none.1 (Option.isNone_iff_eq_none.1 hnone)] at hl
        cases hl
      · have hnext : (secretProtocol E).next (.exiting k) (.get k') r = .exiting k := if_neg hgone
        rw [hnext]
        exact hst
    | put k' ad =>
      by_cases hk : Watch.exiting k = .exiting k'
      · obtain ⟨rfl⟩ := hk
        have hnext : (secretProtocol E).next (.exiting k) (.put k ad) r = .clean k := if_pos rfl
        rw [hnext]
        refine ⟨hst, fun own hl => ?_⟩
        have htrue : ch.ok = true := by
          obtain rfl : r = true := hok rfl
          simp only [World.exec] at hx
          split_ifs at hx with hwrite
          · exact hwrite
          · cases hx
        simp only [World.exec, htrue, if_true] at hx
        cases hx
        change (w.q.coll.put k ad).lookup k = some own at hl
        rw [Store.lookup_put, if_pos rfl] at hl
        cases hl
        exact hall.2 fun he => by cases he
      · have hnext : (secretProtocol E).next (.exiting k) (.put k' ad) r = .exiting k := if_neg hk
        rw [hnext]
        exact hst
    | _ => exact hst

/-- and through the commands of goroutines that write no claim -/
theorem core_keeps {w w' : World E} {t : ℕ} {r : c.Resp} (hx : w.exec t ch c = some (r, w'))
    (hall : (secretProtocol E).allowed .guest c) {h : Option Event} {st : Watch} (hst : (secretView E).core w.q h st) :
    (secretView E).core w'.q h st := by
  cases st with
  | clean =>
    have hne : Watch.guest ≠ .free := fun he => nomatch he
    exact ⟨hst.1, World.exec_cleanAt hx hst.2 hne hall⟩
  | _ => exact hst

theorem step_upholds_secret {s : World.Step} (h : site.world.q.Guarded) (hs : site.Strips (.sched s) = true) :
    World.Upholds (secretScheme cfg) (secretView E) (secretView E) site.world s := by
  refine ⟨h, fun _ hst => hst, fun _ hst => hst, ?_, ?_⟩
  · rintro ch c r w' rfl hcmd hx st hst hall
    have hok : (secretProtocol E).expects st c r := by
      have hr : (site.world.q.coll.perform ch c).1 = r := by rw [World.exec_perform hx]
      rw [← hr]
      refine h.live.answers (fun k hk => ?_) fun k ad hc hk => ?_
      · subst hk
        exact hst.2
      · subst hc hk
        have hexits : exits k site.world.handling = true := hst
        simpa [Strips, hcmd, World.Step.choice, hexits] using hs
    exact ⟨hok, World.exec_guarded hx h hall, core_next hx hst hall hok, fun _ hst' => hst'⟩
  · rintro i ch c r w' rfl hcmd hx st rfl hall
    refine ⟨?_, World.exec_guarded hx h hall, Watch.settled_guest.next c r, fun _ hst' => hst', fun st' hst' => ?_⟩
    · have hr : (site.world.q.coll.perform ch c).1 = r := by rw [World.exec_perform hx]
      rw [← hr]
      exact h.live.answers (fun k hk => nomatch hk) fun k ad _ hk => nomatch hk
    · exact core_keeps hx hall hst'

/-- everything the invariant says of the schedd and its transfers -/
structure Secret (cfg : SchedConfig E) (site : Site E) : Prop where
  follows : World.Follows (secretScheme cfg) (secretView E) site.world
  transfers : ∀ i p, site.transfers.lookup i = some p → Steady .free p

/-- one command of a transfer -/
theorem transfer_follows {cfg : SchedConfig E} {w : World E} (h : World.Follows (secretScheme cfg) (secretView E) w)
    (hall : (secretProtocol E).allowed .free c)
    (hput : ∀ k ad, c = .put k ad → exits k w.handling = true → ch.ok = true → ad .claimId = none) :
    World.Follows (secretScheme cfg) (secretView E) (w.setColl (w.q.coll.perform ch c).2) := by
  have hcore : ∀ st, (secretView E).core w.q w.handling st →
      (secretView E).core { w.q with coll := (w.q.coll.perform ch c).2 } w.handling st := by
    intro st hst
    cases st with
    | clean k => exact ⟨hst.1, Store.CleanAt.perform hst.2 fun ad hc => hput k ad hc hst.1⟩
    | _ => exact hst
  refine ⟨⟨⟨h.shared.live.perform hall, h.shared.past⟩, h.events, h.threads⟩, fun p hp => ?_, h.resting⟩
  obtain ⟨st, hst, hp⟩ := h.busy p hp
  exact ⟨st, hcore st hst, hp⟩

theorem step_secret {s : Step} (hs : site.Strips s = true) (h : Secret cfg site) : Secret cfg (step cfg site s) := by
  cases s with
  | sched => exact ⟨h.follows.step (secretView_fresh cfg) (step_upholds_secret h.follows.shared hs), h.transfers⟩
  | start tr =>
    refine ⟨h.follows, fun i p hl => ?_⟩
    simp only [step, KeyMap.lookup_insert_ite] at hl
    split_ifs at hl
    · cases hl
      exact tr.prog_secret site.world.q
    · exact h.transfers i p hl
  | transfer i ch =>
    rcases step_transfer cfg site i ch with hsame | ⟨c, f, hl, hstep⟩
    · rw [hsame]
      exact h
    · have hp : Steady .free (.call c f) := h.transfers i _ hl
      rw [hstep]
      refine ⟨transfer_follows h.follows hp.1 fun k ad hc hexits hok => ?_, fun j p hj => ?_⟩
      · subst hc
        simpa [Strips, command, hl, hexits, hok] using hs
      · simp only [KeyMap.lookup_insert_ite] at hj
        split_ifs at hj
        · cases hj
          have hanswer : (secretProtocol E).expects .free c (site.world.q.coll.perform ch c).1 :=
            h.follows.shared.live.answers (fun k hk => by cases hk) fun k ad _ hk => by cases hk
          have hgoes := hp.2 _ hanswer
          rwa [Watch.settled_free.next] at hgoes
        · exact h.transfers j p hj

/-- **The claim secret.** In every state of every run, with any number of actions and transfers under way: a live ad has
a claim only if its status is Running, and no record of the history has one. While the core handles the exit of a job,
its writes must not fail and no transfer may write a claim to that job. -/
theorem claim_only_on_running (cfg : SchedConfig E) (q : Queue E) (hq : q.Guarded) (steps : List Step)
    (hs : Runs.Meets (step cfg) (fun site s => site.Strips s = true) (start q) steps) :
    (∀ k ad, (run cfg (start q) steps).world.q.coll.get k = some ad → ad .claimId ≠ none →
      ad.int0 .jobStatus = statusRunning) ∧
    ∀ ad ∈ (run cfg (start q) steps).world.q.hist, ad .claimId = none := by
  have hstart : Secret cfg (start q) := ⟨World.start_follows hq, fun i p hl => nomatch hl⟩
  have h := Runs.foldl_inv_of (P := Secret cfg) (fun site s => step_secret) hstart hs
  refine ⟨fun k ad hg hne => ?_, h.follows.shared.past⟩
  exact Ad.int0_lit ((h.follows.shared.live.get hg).1 hne)

/-! ## Alice downloads the output -/

/-- alice's job is running and its output is being sent; the run ends, and the core handles the exit, its steps before
and after the first write of the job apart -/
def downloading (before between : List Step) : List Step :=
  let running : List World.Step := started
  let ended : List World.Step := List.replicate 2 (.thread 1 smooth) ++ [.take] ++ List.replicate 3 (.core smooth)
  let archived : List World.Step := List.replicate 7 (.core smooth)
  running.map .sched ++ [.start (.download (fun _ => .ok ()) [⟨1, 0⟩]), .transfer 0 smooth, .transfer 0 smooth] ++
    before ++ ended.map .sched ++ between ++ archived.map .sched

theorem aliceQueue_guarded : aliceQueue.Guarded where
  live := by
    have hnone : ∀ e ∈ aliceQueue.coll.entries, e.2 .claimId = none := by decide +kernel
    exact fun k own hl => Ad.guardedAt_of_none (hnone ⟨k, own⟩ (AList.mem_lookup_iff.1 hl))
  past := by
    have hnil : aliceQueue.hist.length = 0 := by decide +kernel
    rw [List.length_eq_zero_iff.1 hnil]
    exact fun ad hin => nomatch hin

/-- the download ends before the run does -/
theorem download_keeps_claim_secret :
    let site := run poolSched (start aliceQueue) (downloading [.transfer 0 smooth] [])
    (∀ k ad, site.world.q.coll.get k = some ad → ad .claimId ≠ none → ad.int0 .jobStatus = statusRunning) ∧
      (∀ ad ∈ site.world.q.hist, ad .claimId = none) ∧ site.world.q.hist.length = 1 := by
  have h := claim_only_on_running poolSched aliceQueue aliceQueue_guarded (downloading [.transfer 0 smooth] [])
    (by decide +kernel)
  exact ⟨h.1, h.2, by decide +kernel⟩

/-- **The exit handler archives a claim.** The download read the job while it ran and writes it back after the handler
has stripped the claim. -/
theorem download_archives_claim :
    ((run poolSched (start aliceQueue) (downloading [] [.transfer 0 smooth])).world.q.hist.map fun ad => ad .claimId) =
      [some (.str "<10.0.0.2:9618>#1#1")] := by
  decide +kernel

end Site

end AccessPoint

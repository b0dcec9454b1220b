/-
What a rewrite of a job stores (`Queue.Modify`, hold and release, the release of a spooled job, and the requeue of a
running one).

Each reads the flattened ad, the proc's own attributes over those of its cluster ad, and puts what it makes of it as the
proc's own ad. A deleted attribute is only deleted there: if the cluster ad has it, the next read finds it again.

- `rewrite_stores_iff`: a rewrite that took place stores what it computed exactly when the cluster ad has none of the
  attributes it deletes.
- `release_keeps_reason`: a job whose hold reason stands on the cluster ad keeps it when it is released.
-/
import AccessPoint.Spool
import AccessPoint.Queue.JobUpdates

namespace AccessPoint

open ClassAdLib Store Queue

variable {E : Type}

/-! ## Programs without a second writer -/

/-- a program alone with the store: its result, the store after it, and what the environment has yet to decide; `env n`
is its decision about the `n`-th step from here -/
def Store.alone {α : Type} (s : Store E) (env : ℕ → Choice) : Go E α → α × Store E × (ℕ → Choice)
  | .ret a => (a, s, env)
  | .call c f => (s.perform (env 0) c).2.alone (fun n => env (n + 1)) (f (s.perform (env 0) c).1)

namespace Store

variable {α β : Type} (s : Store E) (env : ℕ → Choice)

@[simp] theorem alone_ret (a : α) : s.alone env (.ret a : Go E α) = (a, s, env) := rfl

@[simp] theorem alone_bind (p : Go E α) (f : α → Go E β) :
    s.alone env (p.bind f) = (s.alone env p).2.1.alone (s.alone env p).2.2 (f (s.alone env p).1) := by
  induction p generalizing s env with
  | ret => rfl
  | call c g ih => exact ih _ _ _

/-- a program alone with the store returns something it can return -/
theorem alone_yields (p : Go E α) : Prog.Yields p (s.alone env p).1 := by
  induction p generalizing s env with
  | ret a => exact .ret a
  | call c f ih => exact .call c f _ _ (ih _ _ _)

variable (k : JobKey)

@[simp] theorem alone_get : s.alone env (Go.get k) = (s.get k, s, fun n => env (n + 1)) := rfl

@[simp] theorem alone_clock : s.alone env (Go.clock : Go E ℤ) = ((env 0).now, s, fun n => env (n + 1)) := rfl

@[simp] theorem alone_put (ad : Ad E) :
    s.alone env (Go.put k ad) = ((env 0).ok, if (env 0).ok then s.put k ad else s, fun n => env (n + 1)) := by
  cases h : (env 0).ok <;> simp [alone, Go.put, perform, h]

@[simp] theorem alone_teardown :
    s.alone env (Go.teardown k : Go E Unit) = ((), s, fun n => env (n + 1)) := rfl

@[simp] theorem alone_await : s.alone env (Go.await : Go E Bool) = (!(env 0).timeout, s, fun n => env (n + 1)) := rfl

/-- the choices left over are among those there were -/
theorem alone_env {P : Choice → Prop} {env : ℕ → Choice} (h : ∀ n, P (env n)) (p : Go E α) (n : ℕ) :
    P ((s.alone env p).2.2 n) := by
  induction p generalizing s env with
  | ret => exact h n
  | call c f ih => exact ih _ _ fun n => h (n + 1)

end Store

theorem Ad.chainTo_eq_self_iff (ad parent : Ad E) : ad.chainTo parent = ad ↔ ∀ a, ad a = none → parent a = none := by
  constructor
  · intro h a ha
    have := congrFun h a
    rwa [Ad.chainTo_apply, ha, Option.none_or] at this
  · intro h
    refine Ad.ext fun a => ?_
    cases ha : ad a with
    | none => rw [Ad.chainTo_apply, ha, Option.none_or, h a ha]
    | some => simp [ha]

/-- attributes the ad lacks are absent from the flattened ad exactly when the parent lacks them too -/
theorem Ad.chainTo_clear_iff {ad : Ad E} {as : List Attr} (h : ∀ a ∈ as, ad a = none) (parent : Ad E) :
    (∀ a ∈ as, ad.chainTo parent a = none) ↔ ∀ a ∈ as, parent a = none := by
  constructor <;> intro hall a ha
  · have := hall a ha
    rwa [Ad.chainTo_apply, h a ha, Option.none_or] at this
  · rw [Ad.chainTo_apply, h a ha, Option.none_or]
    exact hall a ha

variable [ClassAdLib E]

/-! ## The rewrites -/

/-- the rewrites of a job -/
inductive JobRewrite (E : Type) where
  | modify (fn : Ad E → Ad E)
  | release (req : ActionRequest)
  /-- `finishSpool` into the sandbox `dir` -/
  | spoolRelease (dir : String)
  | hold (req : ActionRequest)
  /-- `requeueToIdle` -/
  | requeue

namespace JobRewrite

/-- the rewrite as a program; the result is the success it reports, `requeueToIdle` reports nothing -/
def prog (q : Queue E) (hook : Bool) (k : JobKey) : JobRewrite E → Go E Bool
  | .modify fn => Queue.modify k fn
  | .release req => do
    let r ← q.applyAction hook k { req with kind := .release }
    pure (r.1 = arSuccess)
  | .spoolRelease dir => Spool.finishSpool k dir
  | .hold req => do
    let r ← q.applyAction hook k { req with kind := .hold }
    pure (r.1 = arSuccess)
  | .requeue => do
    Sched.requeueToIdle k
    pure true

/-- the reason of a hold -/
def holdAttrs : List Attr := [.holdReason, .holdReasonCode, .holdReasonSubCode]

/-- where a job runs: its host, its claim and its lease -/
def runAttrs : List Attr := [.remoteHost, .claimId, .lastJobLeaseRenewal]

/-- the rewrite took place: it reported success, a spooled job was on hold when its hold was lifted, a job held or
requeued was Running, and a requeued job is Idle afterwards -/
def Took (now : ℤ) (before : Ad E) (success : Bool) (after : Ad E) : JobRewrite E → Prop
  | .modify _ => success = true
  | .release _ => success = true
  | .spoolRelease dir => success = true ∧ (Spool.uploadedAd dir now before).int0 .jobStatus = statusHeld
  | .hold _ => success = true ∧ before.int0 .jobStatus = statusRunning
  | .requeue => before.int0 .jobStatus = statusRunning ∧ after.int0 .jobStatus = statusIdle

/-- what the flattened ad is to be afterwards -/
def Stored (before after : Ad E) : JobRewrite E → Prop
  | .modify fn => after = fn before
  | .release _ => ∀ a ∈ holdAttrs, after a = none
  | .spoolRelease _ => ∀ a ∈ holdAttrs, after a = none
  | .hold _ => ∀ a ∈ runAttrs, after a = none
  | .requeue => ∀ a ∈ runAttrs, after a = none

/-- the cluster ad has nothing that the rewrite deletes -/
def Unshadowed (before cluster : Ad E) : JobRewrite E → Prop
  | .modify fn => ∀ a, fn before a = none → cluster a = none
  | .release _ => ∀ a ∈ holdAttrs, cluster a = none
  | .spoolRelease _ => ∀ a ∈ holdAttrs, cluster a = none
  | .hold _ => ∀ a ∈ runAttrs, cluster a = none
  | .requeue => ∀ a ∈ runAttrs, cluster a = none

end JobRewrite

/-! ## What each rewrite puts -/

variable (req : ActionRequest) (now : ℤ) (ad : Ad E)

theorem releaseAd_holdAttrs : ∀ a ∈ JobRewrite.holdAttrs, Queue.releaseAd req now ad a = none := by
  intro a ha
  simp only [JobRewrite.holdAttrs, List.mem_cons, List.not_mem_nil, or_false] at ha
  unfold releaseAd
  rcases ha with rfl | rfl | rfl <;> split_ifs <;>
    simp [Ad.setStr_apply, Ad.delete_apply]

/-- a job that leaves its host has none of the attributes of the run -/
theorem leave_runAttrs : ∀ a ∈ JobRewrite.runAttrs, stripRunAttrs (leaveHost ad) a = none := by
  intro a ha
  simp only [JobRewrite.runAttrs, List.mem_cons, List.not_mem_nil, or_false] at ha
  rcases ha with rfl | rfl | rfl
  · simp [stripRunAttrs, leaveHost, Ad.delete_apply]
  · simp [stripRunAttrs, Ad.delete_apply]
  · simp [stripRunAttrs, Ad.delete_apply]

theorem moveTo_runAttrs {ad : Ad E} {a : Attr} (ha : a ∈ JobRewrite.runAttrs) (last status now : ℤ) :
    moveTo ad last status now a = ad a := by
  simp only [JobRewrite.runAttrs, List.mem_cons, List.not_mem_nil, or_false] at ha
  rcases ha with rfl | rfl | rfl <;> rfl

theorem holdAd_runAttrs : ∀ a ∈ JobRewrite.runAttrs, Queue.holdAd req statusRunning now ad a = none := by
  intro a ha
  have hleft := leave_runAttrs (moveTo ad statusRunning statusHeld now) a ha
  simp only [JobRewrite.runAttrs, List.mem_cons, List.not_mem_nil, or_false] at ha
  rcases ha with rfl | rfl | rfl <;>
    simpa [holdAd, Ad.setStr_apply, Ad.setInt_apply] using hleft

theorem requeuedAd_runAttrs : ∀ a ∈ JobRewrite.runAttrs, requeuedAd now ad a = none := by
  intro a ha
  unfold requeuedAd
  rw [moveTo_runAttrs ha]
  exact leave_runAttrs ad a ha

/-! ## Rewrites that took place -/

section Alone

variable {s : Store E} {k : JobKey} {env : ℕ → Choice} {before : Ad E}

omit [ClassAdLib E] in
/-- a `Modify` alone -/
theorem modify_alone (env : ℕ → Choice) (hb : s.get k = some before) (fn : Ad E → Ad E) :
    s.alone env (Queue.modify k fn) =
      ((env 1).ok, if (env 1).ok then s.put k (fn before) else s, fun n => env (n + 2)) := by
  simp [Queue.modify, hb]

omit [ClassAdLib E] in
/-- the vacate hook alone leaves the store as it is -/
theorem vacate_alone (s : Store E) (env : ℕ → Choice) (hook : Bool) (k : JobKey) (status : ℤ) :
    (s.alone env (Queue.vacate hook k status)).2.1 = s := by
  unfold vacate
  split_ifs <;> simp

/-- a hold that reports success has put the held ad -/
theorem holdJob_alone (hook : Bool) (req : ActionRequest) (now : ℤ)
    (hr : (s.alone env (Queue.holdJob hook k req true before now)).1.1 = arSuccess) :
    (s.alone env (Queue.holdJob hook k req true before now)).2.1 =
      s.put k (Queue.holdAd req (before.int0 .jobStatus) now before) := by
  unfold holdJob at hr ⊢
  dsimp only at hr ⊢
  by_cases hheld : before.int0 .jobStatus = statusHeld ∧
      (before.int0 .holdReasonCode = 1 ∨ before.int0 .holdReasonCode = 16)
  · rw [if_pos hheld] at hr
    exact absurd (show arAlreadyDone = arSuccess from hr) (by decide)
  rw [if_neg hheld] at hr ⊢
  by_cases hgone : before.int0 .jobStatus = statusRemoved ∨ before.int0 .jobStatus = statusCompleted
  · rw [if_pos hgone] at hr
    exact absurd (show arPermissionDenied = arSuccess from hr) (by decide)
  rw [if_neg hgone, if_neg (by simp)] at hr ⊢
  simp only [Prog.bind_eq, alone_bind, vacate_alone, alone_put] at hr ⊢
  split_ifs at hr ⊢ with hok
  · rfl
  · exact absurd (show arError = arSuccess from hr) (by decide)

/-- a release that reports success has put the released ad -/
theorem releaseJob_alone (hr : (s.alone env (Queue.releaseJob k req true before now)).1.1 = arSuccess) :
    (s.alone env (Queue.releaseJob k req true before now)).2.1 = s.put k (Queue.releaseAd req now before) := by
  unfold releaseJob at hr ⊢
  by_cases hheld : before.int0 .jobStatus ≠ statusHeld
  · rw [if_pos hheld] at hr
    exact absurd (show arBadStatus = arSuccess from hr) (by decide)
  rw [if_neg hheld] at hr ⊢
  by_cases hcode : before.int0 .holdReasonCode = 16
  · rw [if_pos hcode] at hr
    exact absurd (show arBadStatus = arSuccess from hr) (by decide)
  rw [if_neg hcode, if_neg (by simp)] at hr ⊢
  simp only [Prog.bind_eq, alone_bind, alone_put] at hr ⊢
  split_ifs at hr ⊢ with hok
  · rfl
  · exact absurd (show arError = arSuccess from hr) (by decide)

/-- a removal that reports success has deleted the job -/
theorem removeJob_alone (hook : Bool) (now : ℤ)
    (hr : (s.alone env (Queue.removeJob hook k req true before now)).1.1 = arSuccess) :
    (s.alone env (Queue.removeJob hook k req true before now)).2.1 = s.delete k := by
  unfold removeJob at hr ⊢
  dsimp only at hr ⊢
  by_cases hgone : before.int0 .jobStatus = statusRemoved
  · rw [if_pos hgone] at hr
    exact absurd (show arAlreadyDone = arSuccess from hr) (by decide)
  rw [if_neg hgone, if_neg (by simp)]
  simp only [Prog.bind_eq, alone_bind, vacate_alone]
  rfl

omit [ClassAdLib E] in
/-- the action of a rewrite: its code tells the success -/
theorem action_alone (p : Go E (ℤ × List (ULog E))) :
    s.alone env (do let r ← p; pure (decide (r.1 = arSuccess))) =
      (decide ((s.alone env p).1.1 = arSuccess), (s.alone env p).2) := by
  simp

/-- an action that reports success found the job and was permitted -/
theorem actOnJob_alone (q : Queue E) (hook : Bool) (req : ActionRequest) (hb : s.get k = some before)
    (hr : (s.alone env (q.actOnJob hook k req true)).1.1 = arSuccess) :
    s.alone env (q.actOnJob hook k req true) =
      s.alone (fun n => env (n + 2)) (match req.kind with
        | .hold => Queue.holdJob hook k req true before (env 1).now
        | .release => Queue.releaseJob k req true before (env 1).now
        | .remove => Queue.removeJob hook k req true before (env 1).now
        | .removeX => Queue.removeJob hook k req true before (env 1).now) := by
  unfold actOnJob at hr ⊢
  simp only [Prog.bind_eq, alone_bind, alone_get, hb] at hr ⊢
  by_cases hmay : q.mayAct req before = true
  · rw [if_neg (not_not.2 hmay)]
    exact alone_bind ..
  · rw [if_pos hmay] at hr
    exact absurd (show arPermissionDenied = arSuccess from hr) (by decide)

/-- the code an action gives, from the ad it reads -/
def Queue.actionCode (q : Queue E) (req : ActionRequest) : Option (Ad E) → ℤ
  | none => arNotFound
  | some ad =>
    if ¬ q.mayAct req ad then arPermissionDenied
    else
      match req.kind with
      | .hold =>
        if ad.int0 .jobStatus = statusHeld ∧
          (ad.int0 .holdReasonCode = 1 ∨ ad.int0 .holdReasonCode = 16) then arAlreadyDone
        else if ad.int0 .jobStatus = statusRemoved ∨ ad.int0 .jobStatus = statusCompleted then arPermissionDenied
        else arSuccess
      | .release =>
        if ad.int0 .jobStatus ≠ statusHeld then arBadStatus
        else if ad.int0 .holdReasonCode = 16 then arBadStatus else arSuccess
      | _ => if ad.int0 .jobStatus = statusRemoved then arAlreadyDone else arSuccess

/-- a removal ignores what the history and the store answer -/
theorem removeJob_code (s : Store E) (env : ℕ → Choice) (hook : Bool) (k : JobKey) (req : ActionRequest) (apply : Bool)
    (ad : Ad E) (now : ℤ) :
    (s.alone env (Queue.removeJob hook k req apply ad now)).1.1 =
      if ad.int0 .jobStatus = statusRemoved then arAlreadyDone else arSuccess := by
  unfold removeJob
  dsimp only
  split_ifs
  · rfl
  · simp only [Prog.bind_eq, alone_bind]
    rfl
  · rfl

/-- without a failed write, an action gives the same code whether it is carried out or only checked -/
theorem actOnJob_code (q : Queue E) (hook : Bool) (s : Store E) (k : JobKey) (req : ActionRequest) (apply : Bool)
    {env : ℕ → Choice} (henv : apply = true → ∀ n, (env n).ok = true) :
    (s.alone env (q.actOnJob hook k req apply)).1.1 = q.actionCode req (s.get k) := by
  simp only [actOnJob, Prog.bind_eq, alone_bind, alone_get]
  cases hg : s.get k with
  | none => rfl
  | some ad =>
    dsimp only [actionCode]
    by_cases hmay : q.mayAct req ad = true
    · rw [if_neg (not_not.2 hmay), if_neg (not_not.2 hmay)]
      simp only [alone_bind, alone_clock]
      have hput : apply = true → ∀ status n,
          ((s.alone (fun n => env (n + 1 + 1)) (vacate hook k status)).2.2 n).ok = true := fun ha status n =>
        alone_env (P := fun ch => ch.ok = true) s (fun n => henv ha (n + 1 + 1)) _ n
      cases req.kind with
      | hold =>
        simp only [holdJob]
        split_ifs with hheld hgone happly
        · rfl
        · rfl
        · simp only [Prog.bind_eq, alone_bind, alone_put, hput happly]
          rfl
        · rfl
      | release =>
        simp only [releaseJob]
        split_ifs with hheld hcode happly
        · rfl
        · rfl
        · simp only [Prog.bind_eq, alone_bind, alone_put, henv happly]
          rfl
        · rfl
      | remove | removeX => exact removeJob_code s _ hook k req apply ad _
    · rw [if_pos hmay, if_pos hmay]
      rfl

/-- a requeue alone of a Running job -/
theorem requeueToIdle_alone (hb : s.get k = some before) (hrun : before.int0 .jobStatus = statusRunning) :
    (s.alone env (Sched.requeueToIdle k)).2.1 =
      if (env 3).ok then s.put k (requeuedAd (env 1).now before) else s := by
  simp only [Sched.requeueToIdle, jobStatus, Prog.bind_eq, alone_bind, alone_get, hb, Prog.pure_eq,
    alone_ret]
  rw [if_neg (not_not.2 hrun)]
  simp [modify_alone _ hb]

end Alone

/-- **A rewrite stores what it computed exactly when the cluster ad has nothing it deletes.** For every proc, every
cluster ad it is chained to and every rewrite that took place with no other writer in between. -/
theorem rewrite_stores_iff (q : Queue E) (hook : Bool) (s : Store E) (env : ℕ → Choice) {k : JobKey}
    (op : JobRewrite E) {before after : Ad E} (hb : s.get k = some before)
    (ha : (s.alone env (op.prog q hook k)).2.1.get k = some after)
    (ht : op.Took (env 0).now before (s.alone env (op.prog q hook k)).1 after) :
    op.Stored before after ↔ op.Unshadowed before (s.parentAd k) := by
  -- in every case the new own ad is put, and the flattened ad afterwards is that ad over the cluster ad
  have hflat : ∀ ad, (s.alone env (op.prog q hook k)).2.1 = s.put k ad → after = ad.chainTo (s.parentAd k) := by
    intro ad hput
    rw [hput, Store.get_put_self s] at ha
    exact (Option.some.inj ha).symm
  cases op with
  | modify fn =>
    have hrun := modify_alone env hb fn
    have hok : (env 1).ok = true := by
      have hs : (s.alone env (modify k fn)).1 = true := ht
      rwa [hrun] at hs
    have hstore : (s.alone env (modify k fn)).2.1 = s.put k (fn before) := by rw [hrun, hok]; rfl
    show after = fn before ↔ _
    rw [hflat _ hstore]
    exact Ad.chainTo_eq_self_iff (fn before) (s.parentAd k)
  | release req =>
    have hprog : s.alone env ((JobRewrite.release req).prog q hook k) = _ :=
      action_alone (q.actOnJob hook k { req with kind := .release } true)
    have hcode : (s.alone env (q.actOnJob hook k { req with kind := .release } true)).1.1 = arSuccess := by
      have hs : (s.alone env ((JobRewrite.release req).prog q hook k)).1 = true := ht
      rw [hprog] at hs
      exact of_decide_eq_true hs
    have hstore : (s.alone env ((JobRewrite.release req).prog q hook k)).2.1 =
        s.put k (releaseAd { req with kind := .release } (env 1).now before) := by
      have hact := actOnJob_alone q hook _ hb hcode
      rw [hact] at hcode
      rw [hprog]
      exact (congrArg (·.2.1) hact).trans (releaseJob_alone _ _ hcode)
    show (∀ a ∈ JobRewrite.holdAttrs, after a = none) ↔ _
    rw [hflat _ hstore]
    exact Ad.chainTo_clear_iff (releaseAd_holdAttrs _ _ before) (s.parentAd k)
  | spoolRelease dir =>
    have hrun : s.alone env (Spool.finishSpool k dir) = _ := modify_alone (fun n => env (n + 1)) hb fun ad =>
      Spool.releaseSpoolHold (Spool.uploadedAd dir (env 0).now ad) (env 0).now
    have hok : (env 2).ok = true := by
      have hs : (s.alone env (Spool.finishSpool k dir)).1 = true := ht.1
      rwa [hrun] at hs
    have hstore : (s.alone env (Spool.finishSpool k dir)).2.1 =
        s.put k (Spool.releaseSpoolHold (Spool.uploadedAd dir (env 0).now before) (env 0).now) := by
      rw [hrun]
      exact if_pos hok
    show (∀ a ∈ JobRewrite.holdAttrs, after a = none) ↔ _
    rw [hflat _ hstore]
    exact Ad.chainTo_clear_iff (Spool.releaseSpoolHold_holdReason ht.2 _) (s.parentAd k)
  | hold req =>
    have hprog : s.alone env ((JobRewrite.hold req).prog q hook k) = _ :=
      action_alone (q.actOnJob hook k { req with kind := .hold } true)
    have hcode : (s.alone env (q.actOnJob hook k { req with kind := .hold } true)).1.1 = arSuccess := by
      have hs : (s.alone env ((JobRewrite.hold req).prog q hook k)).1 = true := ht.1
      rw [hprog] at hs
      exact of_decide_eq_true hs
    have hstore : (s.alone env ((JobRewrite.hold req).prog q hook k)).2.1 =
        s.put k (holdAd { req with kind := .hold } statusRunning (env 1).now before) := by
      have hact := actOnJob_alone q hook _ hb hcode
      rw [hact] at hcode
      have hput := holdJob_alone hook { req with kind := .hold } (env 1).now hcode
      rw [ht.2] at hput
      rw [hprog]
      exact (congrArg (·.2.1) hact).trans hput
    show (∀ a ∈ JobRewrite.runAttrs, after a = none) ↔ _
    rw [hflat _ hstore]
    exact Ad.chainTo_clear_iff (holdAd_runAttrs _ _ before) (s.parentAd k)
  | requeue =>
    have hrun : (s.alone env (JobRewrite.requeue.prog q hook k)).2.1 =
        if (env 3).ok then s.put k (requeuedAd (env 1).now before) else s := by
      have hidle : (s.alone env (Sched.requeueToIdle k)).2.1 = _ := requeueToIdle_alone hb ht.1
      rw [← hidle]
      simp only [JobRewrite.prog, Prog.bind_eq, alone_bind]
      rfl
    have hok : (env 3).ok = true := by
      -- a requeue whose put failed leaves the job Running
      by_contra hno
      have hsame : (s.alone env (JobRewrite.requeue.prog q hook k)).2.1 = s := hrun.trans (if_neg hno)
      rw [hsame, hb] at ha
      cases ha
      exact absurd (ht.1.symm.trans ht.2) (by decide)
    have hstore : (s.alone env (JobRewrite.requeue.prog q hook k)).2.1 = s.put k (requeuedAd (env 1).now before) :=
      hrun.trans (if_pos hok)
    show (∀ a ∈ JobRewrite.runAttrs, after a = none) ↔ _
    rw [hflat _ hstore]
    exact Ad.chainTo_clear_iff (requeuedAd_runAttrs _ before) (s.parentAd k)

/-! ## A hold reason on the cluster ad -/

/-- alice submits a job on hold; where the reason is given decides what a release can do about it -/
def aliceSubmitsHeld (reasonAt : JobKey) : List (Sys.Event Value) :=
  [.begin 0 "alice@pool", .request 0 (.newCluster none), .request 0 (.newProc 1),
    .request 0 (.setAttribute ⟨1, 0⟩ "JobStatus" "5"),
    .request 0 (.setAttribute reasonAt "HoldReason" "\"submitted on hold\""), .commit 0 100 none]

def heldQueue (reasonAt : JobKey) : Queue Value := (Sys.run (Sys.init poolOptions) (aliceSubmitsHeld reasonAt)).q

/-- the release of job 1.0 by its owner -/
def releaseHeld (reasonAt : JobKey) : Bool × Store Value × (ℕ → Choice) :=
  (heldQueue reasonAt).coll.alone (fun _ =>
    smooth) ((JobRewrite.release (aliceRequest .release)).prog (heldQueue reasonAt)
    true ⟨1, 0⟩)

/-- with the reason on the proc ad the release clears it -/
theorem release_clears_reason :
    ∃ before after, (heldQueue ⟨1, 0⟩).coll.get ⟨1, 0⟩ = some before ∧ before .holdReason ≠ none ∧
      (releaseHeld ⟨1, 0⟩).2.1.get ⟨1, 0⟩ = some after ∧
      (JobRewrite.release (aliceRequest .release)).Stored before after := by
  have hg : ∀ s : Store Value, (s.get ⟨1, 0⟩).isSome → ∃ ad, s.get ⟨1, 0⟩ = some ad := fun s =>
    Option.isSome_iff_exists.1
  obtain ⟨before, hb⟩ := hg (heldQueue ⟨1, 0⟩).coll (by decide +kernel)
  obtain ⟨after, ha⟩ := hg (releaseHeld ⟨1, 0⟩).2.1 (by decide +kernel)
  have hreason : ((heldQueue ⟨1, 0⟩).coll.get ⟨1, 0⟩).map (fun ad => ad .holdReason) ≠ some none := by decide +kernel
  refine ⟨before, after, hb, fun hnone => hreason (by rw [hb, Option.map_some, hnone]), ha, ?_⟩
  refine (rewrite_stores_iff (heldQueue ⟨1, 0⟩) true _ (fun _ => smooth)
    (JobRewrite.release (aliceRequest .release)) hb ha ?_).2 ?_
  · show (releaseHeld ⟨1, 0⟩).1 = true
    decide +kernel
  · have hclear : (JobRewrite.holdAttrs.all fun a => ((heldQueue ⟨1, 0⟩).coll.parentAd ⟨1, 0⟩ a).isNone) = true := by
      decide +kernel
    exact fun a ha => Option.isNone_iff_eq_none.1 (List.all_eq_true.1 hclear a ha)

/-- **A released job keeps its hold reason.** The reason stands on the cluster ad; the release reports success, the job
is Idle, and its flattened ad still says why it is on hold. -/
theorem release_keeps_reason :
    Sys.Reachable (heldQueue (clusterKey 1)) ∧ (releaseHeld (clusterKey 1)).1 = true ∧
      ((releaseHeld (clusterKey 1)).2.1.get ⟨1, 0⟩).map (fun ad => (ad.int0 .jobStatus, ad .holdReason)) =
        some (statusIdle, some (.str "submitted on hold")) :=
  ⟨⟨poolOptions, aliceSubmitsHeld (clusterKey 1), rfl⟩, by decide +kernel, by decide +kernel⟩

end AccessPoint

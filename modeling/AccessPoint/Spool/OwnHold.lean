/-
The hold a spooled job is submitted with (internal/spool/spool.go, `preSpoolCheck`, `finishSpool` and
`releaseSpoolHold`; internal/queue/actions.go, hold and release).

A job submitted with -spool is Held with code 16 until its files are there; `finishSpool` releases it. `preSpoolCheck`
refuses a job that is held for another reason, but lets a job through that is not held at all, and `finishSpool`
releases whatever hold it finds. Hold and release actions leave a job with code 16 alone, so nothing goes wrong as long
as the job has that hold when the upload starts and is named once.

- `upload_releases_own_hold`: of a job with the spooling hold, whatever holds and releases run beside the upload.
- `upload_releases_user_hold`: alice's Idle job, held by alice during the upload.
-/
import AccessPoint.Sched.Outstanding
import AccessPoint.Spool.Transfers

namespace AccessPoint

open ClassAdLib Prog

variable {E : Type} [ClassAdLib E]

/-- Held for spooling -/
structure Ad.SpoolHeld (ad : Ad E) : Prop where
  status : ad .jobStatus = some (lit (.int statusHeld))
  code : ad .holdReasonCode = some (lit (.int Spool.spoolingInput))

/-- the ad under `k` is there and is Held for spooling -/
def Store.SpoolHeld (s : Store E) (k : JobKey) : Prop := ∃ ad, s.get k = some ad ∧ ad.SpoolHeld

theorem Ad.SpoolHeld.chainTo {ad : Ad E} (h : ad.SpoolHeld) (parent : Ad E) : (ad.chainTo parent).SpoolHeld :=
  ⟨by simp [h.status], by simp [h.code]⟩

theorem Store.SpoolHeld.put_self (s : Store E) {k : JobKey} {ad : Ad E} (h : ad.SpoolHeld) :
    (s.put k ad).SpoolHeld k := by
  have hl : (s.put k ad).lookup k = some ad := by rw [lookup_put, if_pos rfl]
  exact ⟨_, get_of_lookup hl, h.chainTo _⟩

theorem Store.SpoolHeld.put_other {s : Store E} {k j : JobKey} (h : s.SpoolHeld k) (hj : 0 ≤ j.proc) (hne : j ≠ k)
    (ad : Ad E) : (s.put j ad).SpoolHeld k := by
  obtain ⟨own, hg, hheld⟩ := h
  refine ⟨own, (get_congr ?_ fun _ => ?_).trans hg, hheld⟩
  · rw [lookup_put, if_neg hne.symm]
  · rw [lookup_put, if_neg (proc_ne_clusterKey hj _).symm]

/-! ## Actions on a job with the spooling hold -/

/-- reads of `k` find the spooling hold, and nothing is written -/
def bystander (E : Type) [ClassAdLib E] (k : JobKey) : Prog.Protocol (Cmd.Resp (E := E)) Unit where
  allowed := fun _ c =>
    match c with
    | .put _ _ => False
    | .delete _ => False
    | _ => True
  expects := fun _ c =>
    match c with
    | .get k' => fun r : Option (Ad E) => k' = k → ∃ ad, r = some ad ∧ ad.SpoolHeld
    | _ => fun _ => True
  next := fun st _ _ => st

abbrev StandsBy {α : Type} (k : JobKey) (p : Go E α) : Prop := Prog.wp (bystander E k) (fun _ _ => True) p ()

/-- a hold finds the job already held, a release finds it not releasable -/
theorem applyAction_standsBy (q : Queue E) (hook : Bool) (k : JobKey) {req : ActionRequest}
    (hkind : req.kind = .hold ∨ req.kind = .release) : StandsBy k (q.applyAction hook k req) := by
  refine ⟨trivial, fun r hr => ?_⟩
  obtain ⟨ad, rfl, hheld⟩ := hr rfl
  have hstatus : ad.int0 .jobStatus = statusHeld := Ad.int0_lit hheld.status
  have hcode : ad.int0 .holdReasonCode = 16 := Ad.int0_lit hheld.code
  refine wp_ite (fun _ => trivial) fun _ => ⟨trivial, fun now _ => ?_⟩
  rcases hkind with hkind | hkind <;> rw [hkind]
  · refine wp_ite (fun _ => trivial) fun hne => ?_
    exact absurd ⟨hstatus, .inr hcode⟩ hne
  · refine wp_ite (fun _ => trivial) fun _ => wp_ite (fun _ => trivial) fun hne => ?_
    exact absurd hcode hne

/-! ## The upload -/

/-- whether the upload has released the job -/
inductive Release where
  | waiting
  | released

open Classical in
/-- until it has released `k`, the upload reads it with the spooling hold and may write it; after that it leaves it
alone -/
noncomputable def uploader (E : Type) [ClassAdLib E] (k : JobKey) : Prog.Protocol (Cmd.Resp (E := E)) Release where
  allowed := fun st c =>
    match c with
    | .put j _ => 0 ≤ j.proc ∧ (j = k → st = .waiting)
    | .delete _ => False
    | _ => True
  expects := fun st c =>
    match c with
    | .get j => fun r : Option (Ad E) => st = .waiting → j = k → ∃ ad, r = some ad ∧ ad.SpoolHeld
    | _ => fun _ => True
  next := fun st c =>
    match c with
    | .put j ad => fun _ => if j = k ∧ ¬ ad.SpoolHeld then .released else st
    | _ => fun _ => st

/-- the upload goes on from `st` -/
abbrev Uploads {α : Type} (k : JobKey) (p : Go E α) (st : Release) : Prop :=
  Prog.wp (uploader E k) (fun _ _ => True) p st

/-- a part of the upload after which `k` still waits -/
abbrev Waits {α : Type} (k : JobKey) (p : Go E α) : Prop :=
  Prog.wp (uploader E k) (fun st _ => st = .waiting) p .waiting

namespace Spool

variable {α β : Type} {k j : JobKey}

theorem waits_bind {p : Go E α} {f : α → Go E β} (hp : Waits k p) (hf : ∀ a, Waits k (f a)) : Waits k (p.bind f) := by
  refine wp_bind.2 (wp_mono (fun st a hst => ?_) hp)
  rw [hst]
  exact hf a

variable {jobs : List JobKey}

theorem waits_forJobs {p : JobKey → Go E (Except String Unit)} (hp : ∀ j ∈ jobs, Waits k (p j)) :
    Waits k (forJobs p jobs) := by
  induction jobs with
  | nil => rfl
  | cons j jobs ih =>
    refine waits_bind (hp j List.mem_cons_self) fun r => ?_
    cases r with
    | error => rfl
    | ok => exact ih fun j' hj' => hp j' (List.mem_cons_of_mem j hj')

theorem preSpoolCheck_waits (q : Queue E) (authUser : String) (hj : 0 ≤ j.proc) (now : ℤ) :
    Waits k (preSpoolCheck q authUser j now) := by
  have hstamp : Waits k (Queue.modify j fun ad : Ad E => ad.setInt .stageInStart now) := by
    refine ⟨trivial, fun r hr => ?_⟩
    cases r with
    | none => rfl
    | some =>
      refine ⟨⟨hj, fun _ => rfl⟩, fun _ _ => if_neg fun h => h.2 ?_⟩
      obtain ⟨_, had, hheld⟩ := hr rfl h.1
      cases had
      exact ⟨hheld.status, hheld.code⟩
  refine ⟨trivial, fun r _ => ?_⟩
  cases r with
  | none => rfl
  | some ad =>
    refine wp_ite (fun _ => rfl) fun _ => ?_
    cases jobAccount ad with
    | error => rfl
    | ok _ =>
      refine wp_ite (fun _ => rfl) fun _ => wp_ite (fun _ => rfl) fun _ => ?_
      exact waits_bind hstamp fun _ => rfl

theorem receiveSandbox_waits (received : JobKey → Except String Unit) (j : JobKey) :
    Waits k (receiveSandbox received j : Go E (Except String Unit)) := by
  have howner : Waits k (ownerOf j : Go E (Except String String)) := by
    refine ⟨trivial, fun r _ => ?_⟩
    cases r <;> rfl
  refine waits_bind howner fun r => ?_
  cases r <;> rfl

/-- the release of another job, in any state -/
theorem finishSpool_other (hj : 0 ≤ j.proc) (hne : j ≠ k) (dir : String) (st : Release) :
    Prog.wp (uploader E k) (fun st' _ => st' = st) (finishSpool j dir : Go E Bool) st := by
  refine ⟨trivial, fun now _ => ⟨trivial, fun r _ => ?_⟩⟩
  cases r with
  | none => rfl
  | some => exact ⟨⟨hj, fun he => absurd he hne⟩, fun _ _ => if_neg fun h => hne h.1⟩

/-- the releases at the end of the upload: `k` is not among them, or it waits and comes once -/
theorem finishAll_uploads (dir : JobKey → String) (hjobs : ∀ j ∈ jobs, 0 ≤ j.proc) {st : Release}
    (h : k ∉ jobs ∨ st = .waiting ∧ jobs.Nodup) :
    Uploads k (forJobs (fun j => (finishSpool j (dir j)).bind fun _ => .ret (.ok ())) jobs : Go E (Except String Unit))
      st := by
  induction jobs generalizing st with
  | nil => trivial
  | cons j jobs ih =>
    have hj : 0 ≤ j.proc := hjobs j List.mem_cons_self
    have hrest : ∀ j' ∈ jobs, 0 ≤ j'.proc := fun j' hj' => hjobs j' (List.mem_cons_of_mem j hj')
    refine wp_bind.2 (wp_bind.2 ?_)
    by_cases hk : j = k
    · -- the job itself: whatever the write does, it does not come again
      subst hk
      obtain ⟨rfl, hnodup⟩ := h.resolve_left fun hout => hout List.mem_cons_self
      have hout : j ∉ jobs := (List.nodup_cons.1 hnodup).1
      have hgoes : ∀ st, Uploads j (forJobs (fun j => (finishSpool j (dir j)).bind fun _ => .ret (.ok ())) jobs :
          Go E (Except String Unit)) st := fun st => ih hrest (.inl hout)
      refine ⟨trivial, fun now _ => ⟨trivial, fun r _ => ?_⟩⟩
      cases r with
      | none => exact hgoes _
      | some => exact ⟨⟨hj, fun _ => rfl⟩, fun _ _ => hgoes _⟩
    · refine wp_mono (fun st' _ hst' => ?_) (finishSpool_other hj hk (dir j) st)
      subst hst'
      refine ih hrest (h.imp (fun hout hin => hout (List.mem_cons_of_mem j hin)) fun hw => ?_)
      exact ⟨hw.1, (List.nodup_cons.1 hw.2).2⟩

theorem doSpool_uploads (q : Queue E) (authUser : String) (dir : JobKey → String)
    (received : JobKey → Except String Unit)
    (hjobs : ∀ j ∈ jobs, 0 ≤ j.proc) (hnodup : jobs.Nodup) :
    Uploads k (doSpool q authUser dir received jobs) .waiting := by
  refine ⟨trivial, fun now _ => (wp_bind (p := forJobs (fun j => preSpoolCheck q authUser j now) jobs)).2 ?_⟩
  have hchecks : Waits k (forJobs (fun j => preSpoolCheck q authUser j now) jobs) :=
    waits_forJobs fun j hj => preSpoolCheck_waits q authUser (hjobs j hj) now
  refine wp_mono (fun st r hst => ?_) hchecks
  subst hst
  cases r with
  | error => trivial
  | ok _ =>
    refine wp_bind.2 (wp_mono (fun st r hst => ?_) (waits_forJobs fun j _ => receiveSandbox_waits received j))
    subst hst
    cases r with
    | error => trivial
    | ok => exact finishAll_uploads dir hjobs (.inr ⟨rfl, hnodup⟩)

end Spool

/-! ## Beside the upload -/

namespace Site

variable {cfg : SchedConfig E} {k : JobKey} {site : Site E}

/-- a hold or a release of `k` by a user or by policy, or one command of a goroutine -/
def Step.actsOn (k : JobKey) : Step → Bool
  | .sched (.tool k' req) => k' = k && (req.kind = .hold || req.kind = .release)
  | .sched (.thread _ _) => true
  | .transfer _ _ => true
  | _ => false

/-- the job waits for its files and the actions stand by, or the upload has released it -/
inductive Spooling (k : JobKey) (site : Site E) : Prop where
  | waiting (held : site.world.q.coll.SpoolHeld k)
      (actions : ∀ i th, site.world.threads.lookup i = some th → StandsBy k th.prog)
      (uploads : ∀ i p, site.transfers.lookup i = some p → i = 0 ∧ Uploads k p .waiting)
  | released (uploads : ∀ i p, site.transfers.lookup i = some p → i = 0 ∧ Uploads k p .released)

/-- the one upload goes on with `p` -/
theorem uploads_insert {st st' : Release} (h : ∀ i p, site.transfers.lookup i = some p → i = 0 ∧ Uploads k p st) {i : ℕ}
    {p p' : Go E (Except String Unit)} (hl : site.transfers.lookup i = some p) (hp' : Uploads k p' st') :
    ∀ j p, (site.transfers.insert i p').lookup j = some p → j = 0 ∧ Uploads k p st' := by
  intro j p'' hj
  have hi := (h i p hl).1
  rw [KeyMap.lookup_insert_ite] at hj
  split_ifs at hj with hji
  · cases hj
    exact ⟨hji.trans hi, hp'⟩
  · exact absurd ((h j p'' hj).1.trans hi.symm) hji

/-- one command of the upload -/
theorem upload_spooling {i : ℕ} {ch : Choice} {c : Cmd E} {f : c.Resp → Go E (Except String Unit)}
    (hl : site.transfers.lookup i = some (.call c f)) (h : Spooling k site) :
    Spooling k { site with world := site.world.setColl (site.world.q.coll.perform ch c).2
                           transfers := site.transfers.insert i (f (site.world.q.coll.perform ch c).1) } := by
  cases h with
  | released uploads =>
    refine .released (uploads_insert uploads hl ?_)
    have hp := (uploads i _ hl).2
    cases c with
    | get => exact hp.2 _ fun hw => nomatch hw
    | put j ad =>
      have hgoes := hp.2 (site.world.q.coll.perform ch (.put j ad)).1 trivial
      have hnext : (uploader E k).next .released (.put j ad) (site.world.q.coll.perform ch (.put j ad)).1 = .released :=
        ite_self _
      rwa [hnext] at hgoes
    | _ => exact hp.2 _ trivial
  | waiting held actions uploads =>
    have hp := (uploads i _ hl).2
    cases c with
    | get =>
      refine .waiting held actions (uploads_insert uploads hl (hp.2 _ ?_))
      rintro - rfl
      exact held
    | put j ad =>
      have hgoes := hp.2 (site.world.q.coll.perform ch (.put j ad)).1 trivial
      by_cases hrelease : j = k ∧ ¬ ad.SpoolHeld
      · have hnext : (uploader E k).next .waiting (.put j ad) (site.world.q.coll.perform ch (.put j ad)).1 =
          .released := if_pos hrelease
        rw [hnext] at hgoes
        exact .released (uploads_insert uploads hl hgoes)
      · have hnext : (uploader E k).next .waiting (.put j ad) (site.world.q.coll.perform ch (.put j ad)).1 = .waiting :=
          if_neg hrelease
        rw [hnext] at hgoes
        refine .waiting ?_ actions (uploads_insert uploads hl hgoes)
        simp only [World.setColl, Store.perform]
        split_ifs
        · by_cases hj : j = k
          · subst hj
            exact .put_self _ (by_contra fun hne => hrelease ⟨rfl, hne⟩)
          · exact held.put_other hp.1.1 hj ad
        · exact held
    | delete => exact hp.1.elim
    | _ => exact .waiting held actions (uploads_insert uploads hl (hp.2 _ trivial))

theorem step_spooling {s : Step} (hs : s.actsOn k = true) (h : Spooling k site) : Spooling k (step cfg site s) := by
  cases s with
  | sched s =>
    cases h with
    | released uploads => exact .released uploads
    | waiting held actions uploads =>
      have hmove := World.step_move cfg site.world s
      simp only [step]
      generalize World.step cfg site.world s = w' at hmove
      cases hmove with
      | idle => exact .waiting held actions uploads
      | tool k' =>
        simp only [Step.actsOn, Bool.and_eq_true, Bool.or_eq_true, decide_eq_true_eq] at hs
        obtain ⟨rfl, hkind⟩ := hs
        refine .waiting held (fun i th hl => ?_) uploads
        simp only [World.spawn, KeyMap.lookup_insert_ite] at hl
        split_ifs at hl
        · cases hl
          exact applyAction_standsBy site.world.q cfg.hook k' hkind
        · exact actions i th hl
      | thread i ch job role c f r w₁ ht hx =>
        have hby := actions i _ ht
        have hcoll : w₁.q.coll = site.world.q.coll := by
          have hperform := congrArg Prod.snd (World.exec_perform hx)
          cases c with
          | put | delete => exact hby.1.elim
          | _ => exact hperform.symm
        have hq := (World.thread_frame hx k ⟨job, role, .call c f⟩ (f r)).q
        refine .waiting ?_ (fun j th hl => ?_) uploads
        · change (w₁.resumeThread i ⟨job, role, .call c f⟩ (f r)).q.coll.SpoolHeld k
          rw [hq, hcoll]
          exact held
        · rcases World.thread_threads hx _ _ hl with ⟨-, hold⟩ | ⟨-, rfl⟩
          · exact actions j th hold
          · refine hby.2 r ?_
            cases c with
            | get =>
              rintro rfl
              cases hx
              exact held
            | _ => trivial
      | call _ ev n os hev =>
        cases s with
        | tool | thread => cases hev
        | _ => cases hs
      | take | sweep | core => cases hs
  | start => cases hs
  | transfer i ch =>
    rcases step_transfer cfg site i ch with hsame | ⟨c, f, hl, hstep⟩
    · rw [hsame]
      exact h
    · rw [hstep]
      exact upload_spooling hl h

/-- **Spooling releases its own hold.** A job is Held for spooling when an upload that names it once begins. Whatever
holds and releases of the job run beside the upload, and however their store steps interleave with its own: at every
write of the job by the upload the job is Held with code 16, so the upload takes it out of no other hold. -/
theorem upload_releases_own_hold (cfg : SchedConfig E) (q : Queue E) (k : JobKey) (hheld : q.coll.SpoolHeld k)
    (authUser : String) (dir : JobKey → String) (received : JobKey → Except String Unit) (jobs : List JobKey)
    (hjobs : ∀ j ∈ jobs, 0 ≤ j.proc) (hnodup : jobs.Nodup) (steps : List Step) (hsteps : ∀ s ∈ steps, s.actsOn k = true)
    (i : ℕ) (ch : Choice) (ad : Ad E) :
    let site := run cfg (step cfg (start q) (.start (.upload authUser dir received jobs))) steps
    site.command (.transfer i ch) = some (.put k ad) →
      ∃ cur, site.world.q.coll.get k = some cur ∧ cur.int0 .jobStatus = statusHeld ∧
        cur.int0 .holdReasonCode = Spool.spoolingInput := by
  intro site hcmd
  have hstart : Spooling k (step cfg (start q) (.start (.upload authUser dir received jobs))) := by
    refine .waiting hheld (fun i th hl => by cases hl) fun i p hl => ?_
    simp only [step, start, KeyMap.lookup_insert_ite] at hl
    split_ifs at hl with hi
    · cases hl
      exact ⟨hi, Spool.doSpool_uploads q authUser dir received hjobs hnodup⟩
    · cases hl
  have hrun : Spooling k site := List.foldlRecOn steps (step cfg) hstart fun _ h s hs => step_spooling (hsteps s hs) h
  obtain ⟨f, hl⟩ : ∃ f, site.transfers.lookup i = some (.call (.put k ad) f) := by
    simp only [command] at hcmd
    split at hcmd
    · rename_i c f hl
      cases hcmd
      exact ⟨f, hl⟩
    · cases hcmd
  cases hrun with
  | waiting held =>
    obtain ⟨cur, hcur, hspool⟩ := held
    exact ⟨cur, hcur, Ad.int0_lit hspool.status, Ad.int0_lit hspool.code⟩
  | released uploads => cases (uploads i _ hl).2.1.2 rfl

/-! ## Alice's upload -/

/-- alice's job, Held for spooling -/
def spooledQueue : Queue Value :=
  let ad := (aliceQueue.coll.get ⟨1, 0⟩).getD Ad.empty
  { aliceQueue with coll := aliceQueue.coll.put ⟨1, 0⟩ ((ad.setInt .jobStatus statusHeld).setInt .holdReasonCode 16) }

/-- alice uploads the files of the job -/
def aliceUpload : Transfer :=
  .upload "alice@pool" (fun _ => "/spool/1/0/cluster1.proc0.subproc0") (fun _ => .ok ()) [⟨1, 0⟩]

/-- alice holds the job while the files come in: the upload has made its check and has read the job for the release -/
def heldMeanwhile : List Step :=
  List.replicate 4 (.transfer 0 smooth) ++ [.sched (.tool ⟨1, 0⟩ (aliceRequest .hold))] ++
    List.replicate 3 (.sched (.thread 1 smooth)) ++ List.replicate 3 (.transfer 0 smooth)

/-- the job a pending write is for, and the status it gives it -/
def writes : Option (Cmd Value) → Option (JobKey × ℤ)
  | some (.put k ad) => some (k, ad.int0 .jobStatus)
  | _ => none

/-- the hold has left the job alone, and the upload is about to make it Idle -/
theorem spooled_job_released :
    let site := run poolSched (step poolSched (start spooledQueue) (.start aliceUpload)) heldMeanwhile
    ∃ ad cur, site.command (.transfer 0 smooth) = some (.put ⟨1, 0⟩ ad) ∧ ad.int0 .jobStatus = statusIdle ∧
      site.world.q.coll.get ⟨1, 0⟩ = some cur ∧ cur.int0 .jobStatus = statusHeld ∧
      cur.int0 .holdReasonCode = Spool.spoolingInput := by
  intro site
  have hheld : spooledQueue.coll.SpoolHeld ⟨1, 0⟩ := Store.SpoolHeld.put_self aliceQueue.coll ⟨rfl, rfl⟩
  have hwrites : writes (site.command (.transfer 0 smooth)) = some (⟨1, 0⟩, statusIdle) := by decide +kernel
  unfold writes at hwrites
  split at hwrites
  · rename_i k ad hcmd
    obtain ⟨rfl, hidle⟩ := Prod.mk.inj (Option.some.inj hwrites)
    obtain ⟨cur, hcur⟩ := upload_releases_own_hold poolSched spooledQueue ⟨1, 0⟩ hheld "alice@pool" _ _ [⟨1, 0⟩]
      (by decide) (by decide) heldMeanwhile (by decide) 0 smooth ad hcmd
    exact ⟨ad, cur, hcmd, hidle, hcur⟩
  · cases hwrites

/-- the status and the hold code of alice's job -/
def holdState (q : Queue Value) : Option (ℤ × ℤ) :=
  (q.coll.get ⟨1, 0⟩).map fun ad => (ad.int0 .jobStatus, ad.int0 .holdReasonCode)

/-- **Spooling releases a user's hold.** The job is Idle when the upload begins; alice holds it; the end of the upload
makes it Idle again. -/
theorem upload_releases_user_hold :
    let site := run poolSched (step poolSched (start aliceQueue) (.start aliceUpload)) heldMeanwhile
    holdState aliceQueue = some (statusIdle, 0) ∧ holdState site.world.q = some (statusHeld, 1) ∧
      holdState (step poolSched site (.transfer 0 smooth)).world.q = some (statusIdle, 0) := by
  decide +kernel

end Site

end AccessPoint

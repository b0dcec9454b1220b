/-
The bookkeeping of the core against the channel (internal/sched/sched.go, `Submit`, `runJob`, `handlePolicyAction`).

The registry of runs and the set of pending policy actions are cleared only by events that a goroutine submits as its
last act, and a match is only known to the core through its event. `Submit` never blocks: it drops what does not fit
into the channel.

- `accounted_of_fits`: as long as no such event is submitted to a full channel, every entry has a live goroutine or its
  event in the channel, and no match is lost.
- `dropped_exit_strands_run`: one exit event lost in a burst leaves its entry in the registry for good.
-/
import AccessPoint.Literal
import AccessPoint.Sched.World

namespace AccessPoint

open ClassAdLib AList Prog

/-- a match still in the channel -/
def Event.match? : Event → Option Match
  | .evMatch m => some m
  | _ => none

/-- the matches that reached `OnMatch` -/
def Obs.matched? : Obs → Option Match
  | .matched m => some m
  | _ => none

/-- the matches the core has taken -/
def Obs.handled? : Obs → Option Match
  | .took ev => ev.match?
  | _ => none

/-- the events some bookkeeping waits for -/
def Event.vital : Event → Bool
  | .evMatch _ => true
  | .evExited _ _ _ => true
  | .evFailed _ _ _ _ _ => true
  | .evReconnectFailed _ _ _ => true
  | .evPolicyDone _ => true
  | _ => false

variable {k : JobKey} {ev : Event}

theorem Event.vital_of_terminalFor (h : ev.terminalFor k = true) : ev.vital = true := by
  cases ev <;> simp_all [Event.terminalFor, Event.vital]

theorem Event.vital_of_policyDoneFor (h : ev.policyDoneFor k = true) : ev.vital = true := by
  cases ev <;> simp_all [Event.policyDoneFor, Event.vital]

/-! ## Goroutines that report -/

/-- nothing is done after the submission of an event `done` selects -/
def reportProtocol (E : Type) (done : Event → Bool) : Prog.Protocol (Cmd.Resp (E := E)) Bool where
  allowed := fun reported _ => reported = false
  expects := fun _ _ _ => True
  next := fun _ c _ =>
    match c with
    | .submit ev => done ev
    | _ => false

/-- the program ends by submitting an event `done` selects -/
def Reports {E α : Type} (done : Event → Bool) (p : Go E α) : Prop :=
  Prog.wp (reportProtocol E done) (fun reported _ => reported = true) p false

section

variable {E : Type}

theorem runJob_reports (m : Match) : Reports (Event.terminalFor m.key) (runJob m : Go E (ℤ × List (ULog E))) := by
  refine ⟨rfl, fun r _ => ?_⟩
  cases r with
  | failed | panicked => exact ⟨rfl, fun _ _ => decide_eq_true rfl⟩
  | activated =>
    refine ⟨rfl, fun _ _ => ⟨rfl, fun r _ => ?_⟩⟩
    cases r with
    | failed | panicked | exited => exact ⟨rfl, fun _ _ => decide_eq_true rfl⟩

/-- the program submits no event but teardowns -/
def Quiet {α : Type} (p : Go E α) : Prop := Prog.Calls (fun c => ∀ ev, c ≠ .submit ev) p

variable {done : Event → Bool}

/-- a quiet program leaves the report to what follows -/
theorem Quiet.reports {α β : Type} {p : Go E α} (hp : Quiet p) {f : α → Go E β}
    (hf : ∀ a, Reports done (f a)) : Reports done (p.bind f) := by
  induction p with
  | ret a => exact hf a
  | call c k ih =>
    refine ⟨rfl, fun r _ => ?_⟩
    have hnext : (reportProtocol E done).next false c r = false := by
      cases c with
      | submit ev => exact absurd rfl (hp.1 ev)
      | _ => rfl
    rw [hnext]
    exact ih r (hp.2 r)

theorem vacate_quiet (hook : Bool) (k : JobKey) (status : ℤ) : Quiet (Queue.vacate hook k status : Go E Unit) := by
  unfold Queue.vacate
  split_ifs
  · exact ⟨fun _ => by simp, fun _ => ⟨fun _ => by simp, fun _ => trivial⟩⟩
  · trivial

theorem archiveAndDelete_quiet (k : JobKey) (ad : Ad E) : Quiet (archiveAndDelete k ad) :=
  ⟨fun _ => by simp, fun _ => ⟨fun _ => by simp, fun _ => ⟨fun _ => by simp, fun _ => trivial⟩⟩⟩

/-- every run a handler starts will report -/
def FinishReports (fin : Finish E) : Prop := ∀ r ∈ fin.runs, Reports (Event.terminalFor r.key) r.prog

/-! ## The invariant -/

/-- a goroutine with a duty will report before it ends -/
def Thread.Reporting (th : Thread E) : Prop :=
  match th.role with
  | .run => Reports (Event.terminalFor th.job) th.prog
  | .policy _ => Reports (Event.policyDoneFor th.job) th.prog
  | .tool _ => True

variable {c : Cmd E}

/-- a goroutine whose next command is not its report goes on reporting; one that ends has just reported -/
theorem Reports.resume {α : Type} {k : c.Resp → Go E α} (h : Reports done (.call c k))
    (r : c.Resp) : (∃ ev, c = .submit ev ∧ done ev = true ∧ ∃ a, k r = .ret a) ∨ (∃ c' k', k r = .call c' k') ∧
      Reports done (k r) := by
  have hnext := h.2 r trivial
  cases hk : k r with
  | ret a =>
    rw [hk] at hnext
    left
    cases c with
    | submit ev => exact ⟨ev, rfl, hnext, a, rfl⟩
    | _ => exact absurd hnext (by simp [reportProtocol])
  | call c' k' =>
    rw [hk] at hnext
    right
    have hs : (reportProtocol E done).next false c r = false := hnext.1
    rw [hs] at hnext
    exact ⟨⟨c', k', rfl⟩, hnext⟩

namespace World

def liveRun (w : World E) (k : JobKey) : Bool := w.threads.entries.any fun e => e.2.job = k && e.2.role = .run

def livePolicy (w : World E) (k : JobKey) : Bool :=
  w.threads.entries.any fun e => e.2.job = k && match e.2.role with
    | .policy _ => true
    | _ => false

/-- every entry of the registry and every pending policy action has its goroutine or its event, and every match, in its
order, has been taken or is in the channel -/
structure Accounted (w : World E) : Prop where
  runs : ∀ k ∈ w.core.running.keys, w.liveRun k = true ∨ ∃ ev ∈ w.events, ev.terminalFor k = true
  policies : ∀ k ∈ w.core.policyPending, w.livePolicy k = true ∨ ∃ ev ∈ w.events, ev.policyDoneFor k = true
  matched : (w.trace.filterMap Obs.matched?).Sublist
    (w.trace.filterMap Obs.handled? ++ w.events.filterMap Event.match?)

structure Inv (w : World E) : Prop where
  accounted : w.Accounted
  threads : ∀ i th, w.threads.lookup i = some th → th.Reporting
  tids : ∀ i th, w.threads.lookup i = some th → i < w.nextTid
  busy : ∀ p, w.busy = some p → Prog.Results FinishReports p

variable {w : World E}

theorem liveRun_iff : w.liveRun k = true ↔ ∃ i th, w.threads.lookup i = some th ∧ th.job = k ∧ th.role = .run := by
  simp only [liveRun, List.any_eq_true, Bool.and_eq_true, decide_eq_true_eq]
  constructor
  · rintro ⟨⟨i, th⟩, hm, h1, h2⟩
    exact ⟨i, th, mem_lookup_iff.2 hm, h1, h2⟩
  · rintro ⟨i, th, hl, h1, h2⟩
    exact ⟨⟨i, th⟩, mem_lookup_iff.1 hl, h1, h2⟩

theorem livePolicy_iff :
    w.livePolicy k = true ↔ ∃ i th req, w.threads.lookup i = some th ∧ th.job = k ∧ th.role = .policy req := by
  simp only [livePolicy, List.any_eq_true, Bool.and_eq_true, decide_eq_true_eq]
  constructor
  · rintro ⟨⟨i, th⟩, hm, h1, h2⟩
    cases hr : th.role with
    | policy req => exact ⟨i, th, req, mem_lookup_iff.2 hm, h1, hr⟩
    | tool | run => simp [hr] at h2
  · rintro ⟨i, th, _, hl, h1, h2⟩
    exact ⟨⟨i, th⟩, mem_lookup_iff.1 hl, h1, by simp [h2]⟩

/-- the goroutines of `w` are still there in `w'`, maybe further on -/
def KeepsThreads (w w' : World E) : Prop :=
  ∀ i th, w.threads.lookup i = some th → ∃ th', w'.threads.lookup i = some th' ∧ th'.job = th.job ∧ th'.role = th.role

theorem liveRun_keeps {w w' : World E} (h : KeepsThreads w w') (hk : w.liveRun k = true) : w'.liveRun k = true := by
  obtain ⟨i, th, hl, hj, hr⟩ := liveRun_iff.1 hk
  obtain ⟨th', hl', hj', hr'⟩ := h i th hl
  exact liveRun_iff.2 ⟨i, th', hl', hj'.trans hj, hr'.trans hr⟩

theorem livePolicy_keeps {w w' : World E} (h : KeepsThreads w w') (hk : w.livePolicy k = true) :
    w'.livePolicy k = true := by
  obtain ⟨i, th, req, hl, hj, hr⟩ := livePolicy_iff.1 hk
  obtain ⟨th', hl', hj', hr'⟩ := h i th hl
  exact livePolicy_iff.2 ⟨i, th', req, hl', hj'.trans hj, hr'.trans hr⟩

/-- more goroutines and more events, no more entries -/
theorem Accounted.mono {w w' : World E} (h : w.Accounted) (hrun : ∀ k ∈ w'.core.running.keys, k ∈ w.core.running.keys)
    (hpend : ∀ k ∈ w'.core.policyPending, k ∈ w.core.policyPending) (hth : KeepsThreads w w')
    (hev : ∀ ev ∈ w.events, ev ∈ w'.events)
    (hm : (w'.trace.filterMap Obs.matched?).Sublist
      (w'.trace.filterMap Obs.handled? ++ w'.events.filterMap Event.match?)) : w'.Accounted := by
  refine ⟨fun k hk => ?_, fun k hk => ?_, hm⟩
  · rcases h.runs k (hrun k hk) with hl | ⟨ev, he, ht⟩
    · exact .inl (liveRun_keeps hth hl)
    · exact .inr ⟨ev, hev ev he, ht⟩
  · rcases h.policies k (hpend k hk) with hl | ⟨ev, he, ht⟩
    · exact .inl (livePolicy_keeps hth hl)
    · exact .inr ⟨ev, hev ev he, ht⟩

theorem keepsThreads_spawn (htid : ∀ i th, w.threads.lookup i = some th → i < w.nextTid) (th : Thread E) :
    KeepsThreads w (w.spawn th) := by
  intro i th' hl
  have hne : i ≠ w.nextTid := (htid i th' hl).ne
  exact ⟨th', by rw [spawn, lookup_insert_ne hne]; exact hl, rfl, rfl⟩

theorem Inv.spawn (h : w.Inv) (th : Thread E) (hth : th.Reporting) : (w.spawn th).Inv := by
  refine ⟨h.accounted.mono (fun _ hk => hk) (fun _ hk => hk) (keepsThreads_spawn h.tids th) (fun _ he => he)
    h.accounted.matched, fun i th' hl => ?_, fun i th' hl => ?_, h.busy⟩
  · simp only [World.spawn, KeyMap.lookup_insert_ite] at hl
    split_ifs at hl
    · cases hl; exact hth
    · exact h.threads i th' hl
  · simp only [World.spawn, KeyMap.lookup_insert_ite] at hl
    split_ifs at hl with hi
    · rw [hi]; exact Nat.lt_succ_self _
    · exact Nat.lt_succ_of_lt (h.tids i th' hl)

theorem Inv.observe (h : w.Inv) {o : Obs} (hm : o.matched? = none) (hh : o.handled? = none) : (w.observe o).Inv :=
  ⟨⟨h.accounted.runs, h.accounted.policies, by simpa [World.observe, hm, hh] using h.accounted.matched⟩, h.threads,
    h.tids, h.busy⟩

/-- a run enters the registry together with its goroutine -/
theorem Inv.startRun (h : w.Inv) {r : NewRun E} (hr : Reports (Event.terminalFor r.key) r.prog) :
    (w.startRun r).Inv := by
  have hs := h.spawn ⟨r.key, .run, r.prog⟩ hr
  have hlive : (w.startRun r).liveRun r.key = true :=
    liveRun_iff.2 ⟨w.nextTid, ⟨r.key, .run, r.prog⟩, lookup_insert _, rfl, rfl⟩
  refine ⟨⟨fun k hk => ?_, hs.accounted.policies, hs.accounted.matched⟩, hs.threads, hs.tids, hs.busy⟩
  have hmem : k ∈ w.core.running.insert r.key r.info := hk
  rcases (mem_insert _).1 hmem with rfl | hk
  · exact .inl hlive
  · exact hs.accounted.runs k hk

variable {ch : Choice} {r : c.Resp}

/-- what a command does to the trace says nothing about matches -/
theorem exec_matched {w w' : World E} {t : ℕ} (h : w.exec t ch c = some (r, w')) :
    w'.trace.filterMap Obs.matched? = w.trace.filterMap Obs.matched? ∧
      w'.trace.filterMap Obs.handled? = w.trace.filterMap Obs.handled? := by
  cases c with
  | put | append | await =>
    simp only [exec] at h
    split_ifs at h <;> cases h <;> simp [World.observe, setColl, Obs.matched?, Obs.handled?]
  | teardown | submit =>
    simp only [exec, World.submit] at h
    split_ifs at h <;> cases h <;> exact ⟨rfl, rfl⟩
  | _ => cases h; simp [World.observe, setColl, Obs.matched?, Obs.handled?]

theorem matches_submit (w : World E) (ev : Event) :
    (w.events.filterMap Event.match?).Sublist ((w.submit ev).events.filterMap Event.match?) := by
  unfold World.submit
  split_ifs
  · simp
  · exact List.Sublist.refl _

theorem Inv.exec {w w' : World E} (h : w.Inv) {t : ℕ} (hx : w.exec t ch c = some (r, w')) : w'.Inv := by
  obtain ⟨hcore, hth, htid, hbusy, -⟩ := exec_frame hx
  obtain ⟨hm, hh⟩ := exec_matched hx
  have hmatches : (w.events.filterMap Event.match?).Sublist (w'.events.filterMap Event.match?) := by
    rw [exec_events hx]
    cases eventOf t c with
    | none => exact List.Sublist.refl _
    | some ev => exact matches_submit w ev
  refine ⟨h.accounted.mono (by simp [hcore]) (by simp [hcore]) ?_ (fun ev => exec_keeps_event hx) ?_, ?_, ?_, ?_⟩
  · intro i th hl
    exact ⟨th, hth ▸ hl, rfl, rfl⟩
  · rw [hm, hh]
    exact h.accounted.matched.trans (hmatches.append_left _)
  · rw [hth]; exact h.threads
  · rw [hth, htid]; exact h.tids
  · rw [hbusy]; exact h.busy

/-- the event that clears the books for the goroutine is in the channel -/
def Reported (w : World E) (th : Thread E) : Prop :=
  match th.role with
  | .run => ∃ ev ∈ w.events, ev.terminalFor th.job = true
  | .policy _ => ∃ ev ∈ w.events, ev.policyDoneFor th.job = true
  | .tool _ => True

/-- a goroutine may end once it has reported -/
theorem Inv.endThread (h : w.Inv) {i : ℕ} {th : Thread E} (hl : w.threads.lookup i = some th)
    (hrep : w.Reported th) (ulog : List (ULog E)) :
    World.Inv { w with threads := w.threads.erase i, ulog := ulog } := by
  -- an entry that counted on goroutine `i` now counts on the event it has submitted
  have hother : ∀ i' th', w.threads.lookup i' = some th' → i' ≠ i → (w.threads.erase i).lookup i' = some th' :=
    fun i' th' hl' hne => (lookup_erase_ne hne).trans hl'
  refine ⟨⟨fun k hk => ?_, fun k hk => ?_, h.accounted.matched⟩, fun i' th' hl' => ?_, fun i' th' hl' => ?_, h.busy⟩
  · rcases h.accounted.runs k hk with hlive | hev
    · obtain ⟨i', th', hl', hj, hr⟩ := liveRun_iff.1 hlive
      by_cases hi : i' = i
      · obtain rfl : th' = th := Option.some.inj (hl'.symm.trans (hi ▸ hl))
        subst hj
        simp only [Reported, hr] at hrep
        exact .inr hrep
      · exact .inl (liveRun_iff.2 ⟨i', th', hother i' th' hl' hi, hj, hr⟩)
    · exact .inr hev
  · rcases h.accounted.policies k hk with hlive | hev
    · obtain ⟨i', th', req, hl', hj, hr⟩ := livePolicy_iff.1 hlive
      by_cases hi : i' = i
      · obtain rfl : th' = th := Option.some.inj (hl'.symm.trans (hi ▸ hl))
        subst hj
        simp only [Reported, hr] at hrep
        exact .inr hrep
      · exact .inl (livePolicy_iff.2 ⟨i', th', req, hother i' th' hl' hi, hj, hr⟩)
    · exact .inr hev
  · exact h.threads i' th' (KeyMap.lookup_of_erase hl')
  · exact h.tids i' th' (KeyMap.lookup_of_erase hl')

/-- a goroutine that goes on keeps its duty -/
theorem Inv.goOn (h : w.Inv) {i : ℕ} {th th' : Thread E} (hl : w.threads.lookup i = some th)
    (hjob : th'.job = th.job) (hrole : th'.role = th.role) (hrep : th'.Reporting) :
    World.Inv { w with threads := w.threads.insert i th' } := by
  refine ⟨h.accounted.mono (fun _ hk => hk) (fun _ hk => hk) (fun i' th₁ hl' => ?_) (fun _ he =>
    he) h.accounted.matched, fun i' th₁ hl' => ?_, fun i' th₁ hl' => ?_, h.busy⟩
  · by_cases hi : i' = i
    · subst hi
      obtain rfl : th₁ = th := Option.some.inj (hl'.symm.trans hl)
      exact ⟨th', lookup_insert _, hjob, hrole⟩
    · exact ⟨th₁, (lookup_insert_ne hi).trans hl', rfl, rfl⟩
  · simp only [KeyMap.lookup_insert_ite] at hl'
    split_ifs at hl'
    · cases hl'; exact hrep
    · exact h.threads i' th₁ hl'
  · simp only [KeyMap.lookup_insert_ite] at hl'
    split_ifs at hl' with hi
    · exact hi ▸ h.tids i th hl
    · exact h.tids i' th₁ hl'

/-- the step submits no vital event, or the channel has room for it -/
def Fits (w : World E) (s : Step) : Bool :=
  match w.submits s with
  | some ev => !ev.vital || w.events.length < eventCap
  | none => true

theorem submit_vital {s : Step} (hfit : w.Fits s = true) (hs : w.submits s = some ev)
    (hv : ev.vital = true) : (w.submit ev).events = w.events ++ [ev] := by
  simp only [Fits, hs, hv, Bool.not_true, Bool.false_or, decide_eq_true_eq] at hfit
  exact submit_fits hfit

/-- a call from outside: a match that is announced also gets into the channel -/
theorem Inv.call (h : w.Inv) {s : Step} (hfit : w.Fits s = true) (hs : w.submits s = some ev)
    {n : ℕ} (hn : w.nextTid ≤ n) {os : List Obs} (hos : os = [] ∨ ∃ m, ev = .evMatch m ∧ os = [.matched m]) :
    World.Inv { w.submit ev with nextTid := n, trace := w.trace ++ os } := by
  have hframe : (w.submit ev).core = w.core ∧ (w.submit ev).threads = w.threads ∧ (w.submit ev).busy = w.busy := by
    unfold World.submit
    split_ifs <;> exact ⟨rfl, rfl, rfl⟩
  obtain ⟨hcore, hth, hbusy⟩ := hframe
  refine ⟨h.accounted.mono (by simp [hcore]) (by simp [hcore]) ?_ (fun _ he => mem_submit he) ?_, ?_, ?_, ?_⟩
  · intro i th hl
    exact ⟨th, by simpa only [hth] using hl, rfl, rfl⟩
  · have hmatched := h.accounted.matched
    rcases hos with rfl | ⟨m, rfl, rfl⟩
    · simp only [List.append_nil]
      exact hmatched.trans ((matches_submit w ev).append_left _)
    · have hev : (w.submit (.evMatch m)).events = w.events ++ [.evMatch m] := submit_vital hfit hs rfl
      simpa [hev, List.filterMap_cons, Obs.matched?, Obs.handled?, Event.match?, ← List.append_assoc] using hmatched
  · simp only [hth]; exact h.threads
  · simp only [hth]; exact fun i th hl => lt_of_lt_of_le (h.tids i th hl) hn
  · simp only [hbusy]; exact h.busy

/-- a goroutine performs a command: it goes on with its duty, or it ends and its report has got into the channel -/
theorem Inv.thread {w w₁ : World E} (h : w.Inv) {i : ℕ} {job : JobKey} {role : Role}
    {k : c.Resp → Go E (ℤ × List (ULog E))} (hfit : w.Fits (.thread i ch) = true)
    (ht : w.threads.lookup i = some ⟨job, role, .call c k⟩) (hx : w.exec i ch c = some (r, w₁)) :
    (w₁.resumeThread i ⟨job, role, .call c k⟩ (k r)).Inv := by
  have h₁ := h.exec hx
  have ht₁ : w₁.threads.lookup i = some ⟨job, role, .call c k⟩ := (exec_frame hx).2.1 ▸ ht
  have hsubmits : w.submits (.thread i ch) = eventOf i c := by simp [submits, ht]
  -- what goes on, and what has been reported, for either kind of duty
  have hduty : ∀ {done : Event → Bool}, (∀ ev, done ev = true → ev.vital = true) → Reports done (.call c k) →
      (∃ a, k r = .ret a) ∧ (∃ ev ∈ w₁.events, done ev = true) ∨ (∃ c' k', k r = .call c' k') ∧ Reports done (k r) := by
    intro done hvital hrep
    rcases hrep.resume r with ⟨ev, rfl, hdone, hret⟩ | hgo
    · refine .inl ⟨hret, ev, ?_, hdone⟩
      have hev : w₁.events = w.events ++ [ev] :=
        (exec_events hx).trans (submit_vital hfit hsubmits (hvital ev hdone))
      simp [hev]
    · exact .inr hgo
  have hrep := h.threads i _ ht
  have hcases : (∃ a, k r = .ret a) ∧ w₁.Reported ⟨job, role, .call c k⟩ ∨
      (∃ c' k', k r = .call c' k') ∧ Thread.Reporting ⟨job, role, k r⟩ := by
    cases role with
    | run => exact hduty (fun ev => Event.vital_of_terminalFor) hrep
    | policy => exact hduty (fun ev => Event.vital_of_policyDoneFor) hrep
    | tool =>
      cases hk : k r with
      | ret a => exact .inl ⟨⟨a, rfl⟩, trivial⟩
      | call c' k' => exact .inr ⟨⟨c', k', rfl⟩, trivial⟩
  rcases hcases with ⟨⟨_, ha⟩, hreported⟩ | ⟨⟨c', k', hk⟩, hgo⟩
  · rw [ha]
    exact (h₁.endThread ht₁ hreported _).observe rfl rfl
  · rw [hk] at hgo ⊢
    exact h₁.goOn ht₁ rfl rfl hgo

end World

variable [ClassAdLib E] (cfg : SchedConfig E)

theorem reconnectJob_reports (k : JobKey) (claimID : String) (job : Ad E) :
    Reports (Event.terminalFor k) (reconnectJob cfg k claimID job) := by
  refine ⟨rfl, fun r _ => ?_⟩
  cases r with
  | failed | panicked | exited => exact ⟨rfl, fun _ _ => decide_eq_true rfl⟩

theorem holdJob_quiet (hook : Bool) (k : JobKey) (req : ActionRequest) (apply : Bool) (ad : Ad E) (now : ℤ) :
    Quiet (Queue.holdJob hook k req apply ad now) := by
  refine calls_ite trivial (calls_ite trivial (calls_ite trivial ?_))
  refine calls_bind (vacate_quiet hook k _) fun _ => ⟨fun _ => by simp, fun ok => ?_⟩
  cases ok <;> trivial

theorem releaseJob_quiet (k : JobKey) (req : ActionRequest) (apply : Bool) (ad : Ad E) (now : ℤ) :
    Quiet (Queue.releaseJob k req apply ad now) := by
  refine calls_ite trivial (calls_ite trivial (calls_ite trivial ⟨fun _ => by simp, fun ok => ?_⟩))
  cases ok <;> trivial

theorem removeJob_quiet (hook : Bool) (k : JobKey) (req : ActionRequest) (apply : Bool) (ad : Ad E) (now : ℤ) :
    Quiet (Queue.removeJob hook k req apply ad now) := by
  refine calls_ite trivial (calls_ite trivial ?_)
  exact calls_bind (vacate_quiet hook k _) fun _ => calls_bind (archiveAndDelete_quiet k _) fun _ => trivial

variable (q : Queue E)

theorem actOnJob_quiet (hook : Bool) (k : JobKey) (req : ActionRequest) (apply : Bool) :
    Quiet (q.actOnJob hook k req apply) := by
  refine ⟨fun _ => by simp, fun r => ?_⟩
  cases r with
  | none => trivial
  | some ad =>
    refine calls_ite trivial ⟨fun _ => by simp, fun now => ?_⟩
    cases hkind : req.kind with
    | hold => exact holdJob_quiet hook k req apply ad now
    | release => exact releaseJob_quiet k req apply ad now
    | remove | removeX => exact removeJob_quiet hook k req apply ad now

theorem applyPolicy_reports (k : JobKey) (req : ActionRequest) :
    Reports (Event.policyDoneFor k) (World.applyPolicy cfg q k req) :=
  (actOnJob_quiet q cfg.hook k req true).reports fun _ => ⟨rfl, fun _ _ => decide_eq_true rfl⟩

theorem startsRuns_reports {cfg : SchedConfig E} {fin : Finish E} (h : Sched.StartsRuns cfg fin) :
    FinishReports fin := by
  intro r hr
  rcases h r hr with ⟨m, hm, hp⟩ | ⟨claimID, job, hp⟩
  · rw [hp, ← hm]; exact runJob_reports m
  · rw [hp]; exact reconnectJob_reports cfg r.key claimID job

/-! ## Every step keeps the books -/

namespace World

variable {w : World E}

theorem Inv.startPolicy (h : w.Inv) (cfg : SchedConfig E) (k : JobKey) (req : ActionRequest) :
    (startPolicy cfg w k req).Inv := by
  have hs := h.spawn ⟨k, .policy req, applyPolicy cfg w.q k req⟩ (applyPolicy_reports cfg w.q k req)
  have hlive : (World.startPolicy cfg w k req).livePolicy k = true :=
    livePolicy_iff.2 ⟨w.nextTid, _, req, lookup_insert _, rfl, rfl⟩
  refine ⟨⟨hs.accounted.runs, fun k' hk' => ?_, hs.accounted.matched⟩, hs.threads, hs.tids, hs.busy⟩
  rcases List.mem_cons.1 hk' with rfl | hk'
  · exact .inl hlive
  · exact hs.accounted.policies k' hk'

theorem Inv.finish (h : w.Inv) (cfg : SchedConfig E) {fin : Finish E} (hfin : FinishReports fin) :
    (w.finish cfg fin).Inv := by
  refine finish_inv (I := World.Inv) cfg ?_ (fun w' r hr hw' => hw'.startRun (hfin r hr)) (fun w' k req _ hw' =>
    hw'.startPolicy cfg k req)
    fun w' hw' => hw'.observe rfl rfl
  refine ⟨⟨fun k hk => ?_, h.accounted.policies, h.accounted.matched⟩, h.threads, h.tids, by simp⟩
  exact h.accounted.runs k (Core.mem_mapRuns.1 hk)

theorem Inv.resume (h : w.Inv) (cfg : SchedConfig E) {p : Go E (Finish E)}
    (hp : Prog.Results FinishReports p) : (w.resume cfg p).Inv := by
  cases p with
  | ret => exact h.finish cfg hp
  | call => exact ⟨h.accounted.mono (fun _ hk => hk) (fun _ hk => hk) (fun i th hl => ⟨th, hl, rfl, rfl⟩)
      (fun _ he => he) h.accounted.matched, h.threads, h.tids, fun p' hp' => by cases hp'; exact hp⟩

/-- the event the core takes is the one that clears the entry it was kept for -/
theorem Inv.take (h : w.Inv) (cfg : SchedConfig E) {rest : List Event} (he : w.events = ev :: rest) :
    World.Inv ({ w with events := rest, core := (Sched.handle cfg w.core ev).1 }.observe (.took ev)) := by
  obtain ⟨hrun, hpend⟩ := Sched.handle_registry cfg w.core ev
  have hother : ∀ {sel : Event → Bool}, sel ev = false → (∃ ev' ∈ w.events, sel ev' = true) →
      ∃ ev' ∈ rest, sel ev' = true := by
    rintro sel hsel ⟨ev', hm, hs⟩
    rw [he] at hm
    rcases List.mem_cons.1 hm with rfl | hm
    · rw [hsel] at hs; cases hs
    · exact ⟨ev', hm, hs⟩
  refine ⟨⟨fun k hk => ?_, fun k hk => ?_, ?_⟩, h.threads, h.tids, h.busy⟩
  · obtain ⟨hk', hterm⟩ := hrun k hk
    exact (h.accounted.runs k hk').imp id (hother hterm)
  · obtain ⟨hk', hdone⟩ := hpend k hk
    exact (h.accounted.policies k hk').imp id (hother hdone)
  · have hm := h.accounted.matched
    simp only [he, List.filterMap_cons] at hm
    cases hev : ev.match? with
    | none | some => simpa [World.observe, List.filterMap_cons, Obs.matched?, Obs.handled?, hev] using hm

theorem Inv.sweep (h : w.Inv) (cfg : SchedConfig E) : World.Inv { w with core := (Sched.sweepExpired cfg w.core).1 } :=
  ⟨⟨h.accounted.runs, h.accounted.policies, h.accounted.matched⟩, h.threads, h.tids, h.busy⟩

/-- **The books through one step.** -/
theorem step_inv (w : World E) (s : Step) (hfit : w.Fits s = true) (h : w.Inv) : (step cfg w s).Inv := by
  have hmove := step_move cfg w s
  generalize step cfg w s = w' at hmove
  cases hmove with
  | idle => exact h
  | tool => exact h.spawn _ trivial
  | call _ ev n os hev hn _ hos =>
    have hs : w.submits s = some ev := by cases s <;> simp_all [callEvent, submits]
    exact h.call hfit hs hn hos
  | take ev rest hb he =>
    exact (h.take cfg he).resume cfg ((Sched.handle_runs cfg w.core ev).mono fun _ => startsRuns_reports)
  | sweep => exact (h.sweep cfg).resume cfg ((Sched.sweepExpired_runs cfg w.core).mono fun _ => startsRuns_reports)
  | core ch c k r w₁ hb hx => exact (h.exec hx).resume cfg (h.busy _ hb r)
  | thread i ch job role c k r w₁ ht hx => exact h.thread hfit ht hx

omit [ClassAdLib E] in
theorem start_inv : (start q).Inv :=
  ⟨⟨fun k hk => by simp [start, Core.init] at hk, fun k hk => by simp [start, Core.init] at hk, List.Sublist.refl _⟩,
    fun i th hl => by simp [start] at hl, fun i th hl => by simp [start] at hl, fun p hp => by simp [start] at hp⟩

/-- **No bookkeeping is stranded while the channel has room.** In a run in which every match, every terminal event and
every `evPolicyDone` finds room in the channel, each state reached accounts for every entry and every match. -/
theorem accounted_of_fits (cfg : SchedConfig E) (q : Queue E) (steps : List Step)
    (hfit : Runs.Meets (step cfg) (fun w s => w.Fits s = true) (start q) steps) :
    (run cfg (start q) steps).Accounted :=
  (Runs.foldl_inv_of (P := World.Inv) (fun w s => step_inv cfg w s) (start_inv q) hfit).accounted

end World

end

namespace World

/-- the run is activated and ends, and the core takes both of its events -/
theorem smooth_run_accounted :
    (run poolSched (start aliceQueue) (accepted ++ List.replicate 4 (.thread 1 smooth) ++ [.take])).Accounted :=
  accounted_of_fits poolSched aliceQueue _ (by decide +kernel)

/-- the run has its claim when a burst fills the channel; it then reports its start and its exit, and the core empties
the channel -/
def burst : List Step :=
  accepted ++ [.thread 1 smooth] ++ List.replicate eventCap .reschedule ++ List.replicate 3 (.thread 1 smooth) ++
    List.replicate eventCap .take

/-- **A dropped exit event strands its run.** The goroutine is gone and the channel is empty, yet the entry stays: no
match for the job will be accepted and no drain will finish. -/
theorem dropped_exit_strands_run :
    (run poolSched (start aliceQueue) burst).core.running.keys = [⟨1, 0⟩] ∧
      (run poolSched (start aliceQueue) burst).threads.keys = [] ∧
        (run poolSched (start aliceQueue) burst).events = [] ∧
      (run poolSched (start aliceQueue) burst).busy.isNone = true ∧
      ¬ (run poolSched (start aliceQueue) burst).Accounted := by
  have hend : (run poolSched (start aliceQueue) burst).core.running.keys = [⟨1, 0⟩] ∧
      (run poolSched (start aliceQueue) burst).threads.keys = [] ∧
        (run poolSched (start aliceQueue) burst).events = [] ∧
      (run poolSched (start aliceQueue) burst).busy.isNone = true ∧
      (run poolSched (start aliceQueue) burst).liveRun ⟨1, 0⟩ = false := by decide +kernel
  obtain ⟨hkeys, hth, hev, hbusy, hlive⟩ := hend
  refine ⟨hkeys, hth, hev, hbusy, fun h => ?_⟩
  rcases h.runs ⟨1, 0⟩ (by rw [hkeys]; exact List.mem_singleton.2 rfl) with hl | ⟨ev, he, -⟩
  · rw [hlive] at hl; cases hl
  · rw [hev] at he; cases he

end World

end AccessPoint

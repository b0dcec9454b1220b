/-
The conduct of the goroutines around the run of a job.

- `IsRun.conduct`: a run reports its start and then its end, and does nothing after that.
- `applyAction_conduct`: a hold or removal of a Running job writes only after its teardown wait.
- `handle_finish`, `handle_entry`: what a handler leaves to do at its end, and what it does to the registry at once.
-/
import AccessPoint.Sched.Core

namespace AccessPoint

open ClassAdLib

namespace Event

/-- `evStarted` or a terminal event of a run of `k` -/
def ofRun (k : JobKey) (ev : Event) : Bool := ev.startedFor k || ev.terminalFor k

/-- a match of `k` -/
def starts (k : JobKey) : Event → Bool
  | .evMatch m => m.key = k
  | _ => false

def recovers : Event → Bool
  | .evRecover _ => true
  | _ => false

theorem ofRun_inj {ev : Event} {k k' : JobKey} (h : ev.ofRun k = true) (h' : ev.ofRun k' = true) : k = k' := by
  cases ev <;> simp_all [ofRun, startedFor, terminalFor]

theorem ofRun_of_terminalFor {ev : Event} {k : JobKey} (h : ev.terminalFor k = true) : ev.ofRun k = true := by
  simp [ofRun, h]

end Event

def ActionKind.removes : ActionKind → Bool
  | .remove => true
  | .removeX => true
  | _ => false

/-- the action takes the job away from its run -/
def ActionKind.ends (kind : ActionKind) : Bool := kind = .hold || kind.removes

section

variable {E : Type}

/-! ## Runs -/

/-- events of the run only, and nothing after the terminal one -/
def runProtocol (E : Type) (k : JobKey) : Prog.Protocol (Cmd.Resp (E := E)) Bool where
  allowed := fun reported c => reported = false ∧
    match c with
    | .submit ev => ev.ofRun k = true
    | .claim _ => True
    | .serve => True
    | .reattach => True
    | _ => False
  expects := fun _ _ _ => True
  next := fun _ c _ =>
    match c with
    | .submit ev => ev.terminalFor k
    | _ => false

/-- the rest of a run of `k` -/
def RunConduct {α : Type} (k : JobKey) (p : Go E α) : Prop := Prog.wp (runProtocol E k) (fun _ _ => True) p false

variable {α : Type}

theorem report_conduct {k : JobKey} {ev : Event} (h : ev.terminalFor k = true) (a : α) :
    RunConduct k ((Go.submit ev : Go E Unit).bind fun _ => .ret a) :=
  ⟨⟨rfl, Event.ofRun_of_terminalFor h⟩, fun _ _ => trivial⟩

theorem runJob_conduct (m : Match) : RunConduct m.key (runJob m : Go E (ℤ × List (ULog E))) := by
  refine ⟨⟨rfl, trivial⟩, fun r _ => ?_⟩
  cases r with
  | failed | panicked => exact report_conduct (by simp [Event.terminalFor]) _
  | activated =>
    refine ⟨⟨rfl, by simp [Event.ofRun, Event.startedFor]⟩, fun _ _ => ⟨⟨rfl, trivial⟩, fun r _ => ?_⟩⟩
    cases r with
    | failed | panicked | exited => exact report_conduct (by simp [Event.terminalFor]) _

variable {c : Cmd E} {f : c.Resp → Go E α}

/-- one step of a run: it submits its terminal event and ends, or goes on -/
theorem RunConduct.step {k : JobKey} (h : RunConduct k (.call c f)) (r : c.Resp) :
    (∃ ev, c = .submit ev ∧ ev.terminalFor k = true ∧ ∃ a, f r = .ret a) ∨
      RunConduct k (f r) ∧ ∀ ev, c = .submit ev → ev.ofRun k = true ∧ ev.terminalFor k = false := by
  have hnext := h.2 r trivial
  have hsubmit : ∀ ev, c = .submit ev → ev.ofRun k = true := by
    rintro ev rfl
    exact h.1.2
  cases hn : (runProtocol E k).next false c r with
  | true =>
    left
    cases c with
    | submit ev =>
      refine ⟨ev, rfl, hn, ?_⟩
      cases hf : f r with
      | ret a => exact ⟨a, rfl⟩
      | call =>
        rw [hf, hn] at hnext
        exact absurd hnext.1.1 (by simp)
    | _ => cases hn
  | false =>
    right
    rw [hn] at hnext
    refine ⟨hnext, fun ev hc => ⟨hsubmit ev hc, ?_⟩⟩
    subst hc
    exact hn

/-- a run touches neither the store nor other runs -/
theorem RunConduct.command {k : JobKey} (h : RunConduct k (.call c f)) :
    (∃ ev, c = .submit ev ∧ ev.ofRun k = true) ∨ (∃ m, c = .claim m) ∨ c = .serve ∨ c = .reattach := by
  have hall := h.1.2
  cases c with
  | submit ev => exact .inl ⟨ev, rfl, hall⟩
  | claim m => exact .inr (.inl ⟨m, rfl⟩)
  | serve => exact .inr (.inr (.inl rfl))
  | reattach => exact .inr (.inr (.inr rfl))
  | _ => exact absurd hall id

/-- the commands of a run, to its end -/
theorem RunConduct.calls {k : JobKey} {p : Go E α} (h : RunConduct k p) :
    Prog.Calls (fun c => (∃ ev, c = .submit ev ∧ ev.ofRun k = true) ∨ (∃ m, c = .claim m) ∨ c = .serve ∨
      c = .reattach) p := by
  induction p with
  | ret => trivial
  | call c f ih =>
    refine ⟨h.command, fun r => ?_⟩
    rcases h.step r with ⟨-, -, -, _, ha⟩ | ⟨hrest, -⟩
    · rw [ha]; trivial
    · exact ih r hrest

/-- `evStarted` of `k` is submitted at most once; the state says whether it was -/
def startProtocol (E : Type) (k : JobKey) : Prog.Protocol (Cmd.Resp (E := E)) Bool where
  allowed := fun sent c =>
    match c with
    | .submit ev => ev.startedFor k = true → sent = false
    | _ => True
  expects := fun _ _ _ => True
  next := fun sent c _ =>
    match c with
    | .submit ev => sent || ev.startedFor k
    | _ => sent

/-- the rest of a run of `k` whose `evStarted` was submitted, or not yet -/
abbrev StartsOnce {α : Type} (k : JobKey) (sent : Bool) (p : Go E α) : Prop :=
  Prog.wp (startProtocol E k) (fun _ _ => True) p sent

/-- a run that has submitted it does not do so again -/
theorem StartsOnce.sent {k : JobKey} (h : StartsOnce k true (.call c f))
    (r : c.Resp) : StartsOnce k true (f r) ∧ ∀ ev, c = .submit ev → ev.startedFor k = false := by
  have hnext := h.2 r trivial
  cases c with
  | submit =>
    refine ⟨hnext, fun ev' he => ?_⟩
    cases he
    exact Bool.eq_false_iff.2 fun hs => by cases h.1 hs
  | _ => exact ⟨hnext, fun ev he => by cases he⟩

/-- a command that submits no `evStarted` leaves the state alone -/
theorem StartsOnce.step {k : JobKey} {sent : Bool}
    (h : StartsOnce k sent (.call c f)) (hc : ∀ ev, c = .submit ev → ev.startedFor k = false) (r : c.Resp) :
    StartsOnce k sent (f r) := by
  have hnext := h.2 r trivial
  cases c with
  | submit ev =>
    have hsame : (startProtocol E k).next sent (.submit ev) r = sent := by simp [startProtocol, hc ev rfl]
    rwa [hsame] at hnext
  | _ => exact hnext

theorem runJob_startsOnce (m : Match) : StartsOnce m.key false (runJob m : Go E (ℤ × List (ULog E))) := by
  refine ⟨trivial, fun r _ => ?_⟩
  cases r with
  | failed | panicked => exact ⟨fun h => (nomatch h), fun _ _ => trivial⟩
  | activated =>
    refine ⟨fun _ => rfl, fun _ _ => ⟨trivial, fun r _ => ?_⟩⟩
    cases r <;> exact ⟨fun h => (nomatch h), fun _ _ => trivial⟩

/-- a handler submits policy removals only, and does not wait for itself -/
def Meek : Cmd E → Prop
  | .submit ev => ∃ k reason, ev = .evPolicyRemove k reason
  | .teardown _ => False
  | .await => False
  | _ => True

theorem Sched.logJob_meek (cfg : SchedConfig E) (k : JobKey) (f : Ad E → ULog E) :
    Prog.Calls Meek (Sched.logJob cfg k f) := by
  refine Prog.calls_ite ⟨trivial, fun r => ?_⟩ trivial
  cases r <;> trivial

theorem Sched.modify_meek (k : JobKey) (fn : Ad E → Ad E) : Prog.Calls Meek (Queue.modify k fn) := by
  refine ⟨trivial, fun r => ?_⟩
  cases r with
  | none => trivial
  | some => exact ⟨trivial, fun _ => trivial⟩

end

/-! ## Actions -/

/-- how far an action has come -/
inductive Stage where
  | start
  /-- it has read the job, Running or not -/
  | read (running : Bool)
  /-- the teardown is submitted -/
  | torn
  /-- the wait is over -/
  | ready
  /-- the record is in the history -/
  | archiving
  | ended
deriving DecidableEq, Repr

/-- from here the action writes without asking the core -/
def Stage.free : Stage → Bool
  | .read false => true
  | .ready => true
  | .archiving => true
  | _ => false

section

variable {E : Type} [ClassAdLib E]

/-- an action on `k`: a hold or removal of a Running job writes only after its wait, and a hold writes Held -/
def actProtocol (E : Type) [ClassAdLib E] (k : JobKey) (kind : ActionKind) :
    Prog.Protocol (Cmd.Resp (E := E)) Stage where
  allowed := fun st c =>
    match c with
    | .get k' => st = .start ∧ k' = k
    | .clock => ∃ running, st = .read running
    | .teardown k' => st = .read true ∧ k' = k
    | .await => st = .torn
    | .put k' ad => k' = k ∧ (kind = .release ∨
        kind = .hold ∧ (st = .read false ∨ st = .ready) ∧ ad .jobStatus = some (lit (.int statusHeld)))
    | .append k' _ => k' = k ∧ kind.removes = true ∧ (st = .read false ∨ st = .ready)
    | .flush => st = .archiving
    | .delete k' => st = .archiving ∧ k' = k ∧ kind.removes = true
    | .submit ev => ev = .evPolicyDone k
    | _ => False
  expects := fun _ _ _ => True
  next := fun st c =>
    match c with
    | .get _ => fun r : Option (Ad E) => match r with
      | some ad => .read (ad.int0 .jobStatus = statusRunning)
      | none => .ended
    | .teardown _ => fun _ => .torn
    | .await => fun _ => .ready
    | .put _ _ => fun _ => .ended
    | .append _ _ => fun _ => .archiving
    | .delete _ => fun _ => .ended
    | .submit _ => fun _ => .ended
    | _ => fun _ => st

omit [ClassAdLib E] in
/-- it asks, writes and reports for the job `k` -/
def Cmd.own (k : JobKey) : Cmd E → Prop
  | .submit ev => ev = .evPolicyDone k
  | .teardown k' => k' = k
  | .put k' _ => k' = k
  | .delete k' => k' = k
  | _ => True

theorem own_of_allowed {k : JobKey} {kind : ActionKind} {st : Stage} {c : Cmd E}
    (h : (actProtocol E k kind).allowed st c) : c.own k := by
  cases c with
  | submit => exact h
  | teardown => exact h.2
  | put => exact h.1
  | delete => exact h.2.1
  | _ => trivial

/-- the rest of an action on `k` -/
abbrev ActConduct (k : JobKey) (kind : ActionKind) {α : Type} (p : Go E α) (st : Stage) : Prop :=
  Prog.wp (actProtocol E k kind) (fun _ _ => True) p st

variable {k : JobKey} {kind : ActionKind} {α : Type}

/-- the vacate hook takes an action from its read to where it may write -/
theorem vacate_conduct {status : ℤ} {f : Unit → Go E α}
    (hf : ∀ st, st = .read false ∨ st = .ready → ActConduct k kind (f ()) st) :
    ActConduct k kind ((Queue.vacate true k status).bind f) (.read (status = statusRunning)) := by
  unfold Queue.vacate
  split_ifs with h
  · have hrun : decide (status = statusRunning) = true := decide_eq_true h.1
    rw [hrun]
    exact ⟨⟨rfl, rfl⟩, fun _ _ => ⟨rfl, fun _ _ => hf .ready (.inr rfl)⟩⟩
  · have hrun : decide (status = statusRunning) = false := decide_eq_false fun hs => h ⟨hs, rfl⟩
    rw [hrun]
    exact hf (.read false) (.inl rfl)

theorem removeJob_conduct (hkind : kind.removes = true) (req : ActionRequest) (ad : Ad E) (now : ℤ) :
    ActConduct k kind (Queue.removeJob true k req true ad now) (.read (ad.int0 .jobStatus = statusRunning)) := by
  refine Prog.wp_ite (fun _ => trivial) fun _ => Prog.wp_ite (fun h => absurd rfl h) fun _ => vacate_conduct ?_
  exact fun st hst => ⟨⟨rfl, hkind, hst⟩, fun _ _ => ⟨rfl, fun _ _ => ⟨⟨rfl, rfl, hkind⟩, fun _ _ => trivial⟩⟩⟩

/-- **Every action keeps to the protocol of its kind.** -/
theorem applyAction_conduct (q : Queue E) (k : JobKey) (req : ActionRequest) {f : ℤ × List (ULog E) → Go E α}
    (hf : ∀ r st, ActConduct k req.kind (f r) st) :
    ActConduct k req.kind ((q.applyAction true k req).bind f) .start := by
  refine Prog.wp_bind.2 (Prog.wp_mono (Q := fun _ _ => True) (fun st r _ => hf r st) ⟨⟨rfl, rfl⟩, fun r _ => ?_⟩)
  cases r with
  | none => trivial
  | some ad =>
    refine Prog.wp_ite (fun _ => trivial) fun _ => ⟨⟨_, rfl⟩, fun now _ => ?_⟩
    cases hkind : req.kind with
    | hold =>
      refine Prog.wp_ite (fun _ => trivial) fun _ => Prog.wp_ite (fun _ => trivial) fun _ =>
        Prog.wp_ite (fun h => absurd rfl h) fun _ => vacate_conduct fun st hst => ?_
      refine ⟨⟨rfl, .inr ⟨rfl, hst, Queue.holdAd_jobStatus _ _ _ _⟩⟩, fun ok _ => ?_⟩
      cases ok <;> trivial
    | release =>
      refine Prog.wp_ite (fun _ => trivial) fun _ => Prog.wp_ite (fun _ => trivial) fun _ =>
        Prog.wp_ite (fun h => absurd rfl h) fun _ => ⟨⟨rfl, .inl rfl⟩, fun ok _ => ?_⟩
      cases ok <;> trivial
    | remove | removeX => exact removeJob_conduct rfl req ad now

/-- the call of a tool -/
theorem tool_conduct (q : Queue E) (k : JobKey) (req : ActionRequest) :
    ActConduct k req.kind (q.applyAction true k req) .start :=
  Prog.wp_bind.1 (applyAction_conduct q k req (f := Prog.ret) fun _ _ => trivial)

theorem ActConduct.calls_own {p : Go E α} {st : Stage} (h : ActConduct k kind p st) : Prog.Calls (Cmd.own k) p := by
  induction p generalizing st with
  | ret => trivial
  | call c f ih => exact ⟨own_of_allowed h.1, fun r => ih r (h.2 r trivial)⟩

variable {p : Go E (ℤ × List (ULog E))}

theorem IsRun.conduct {cfg : SchedConfig E} {k : JobKey} (h : Sched.IsRun cfg k p) : RunConduct k p := by
  rcases h with ⟨m, rfl, rfl⟩ | ⟨claimID, job, rfl⟩
  · exact runJob_conduct m
  · refine ⟨⟨rfl, trivial⟩, fun r _ => ?_⟩
    cases r with
    | failed | panicked | exited => exact report_conduct (by simp [Event.terminalFor]) _

/-- a reconnect submits no `evStarted` -/
theorem reconnectJob_startsOnce (cfg : SchedConfig E) (k : JobKey) (claimID : String) (job : Ad E) (sent : Bool) :
    StartsOnce k sent (reconnectJob cfg k claimID job) := by
  refine ⟨trivial, fun r _ => ?_⟩
  cases r <;> exact ⟨fun h => (nomatch h), fun _ _ => trivial⟩

theorem IsRun.startsOnce {cfg : SchedConfig E} {k : JobKey} (h : Sched.IsRun cfg k p) : StartsOnce k false p := by
  rcases h with ⟨m, rfl, rfl⟩ | ⟨claimID, job, rfl⟩
  · exact runJob_startsOnce m
  · exact reconnectJob_startsOnce cfg k claimID job false

/-! ## Handlers -/

namespace Sched

open Prog

theorem jobStatus_meek (k : JobKey) : Calls Meek (Queue.jobStatus k : Go E ℤ) := by
  refine ⟨trivial, fun r => ?_⟩
  cases r <;> trivial

theorem complete_meek (k : JobKey) : Calls Meek (Queue.complete k : Go E Unit) := by
  refine ⟨trivial, fun r => ?_⟩
  cases r with
  | none => trivial
  | some => exact ⟨trivial, fun _ => ⟨trivial, fun _ => ⟨trivial, fun _ => ⟨trivial, fun _ => trivial⟩⟩⟩⟩

theorem requeueToIdle_meek (k : JobKey) : Calls Meek (requeueToIdle k : Go E Unit) :=
  calls_bind (jobStatus_meek k) fun _ => calls_ite trivial
    (calls_bind (calls_single trivial) fun _ => calls_bind (modify_meek k _) fun _ => trivial)

theorem jobFailed_meek (cfg : SchedConfig E) (k : JobKey) (why : String) (count : Bool) :
    Calls Meek (jobFailed cfg k why count) := by
  refine calls_bind (jobStatus_meek k) fun _ => calls_ite trivial
    (calls_bind (calls_single trivial) fun now => calls_bind (calls_single trivial) fun r => ?_)
  cases r with
  | none => exact logJob_meek cfg k _
  | some => exact calls_bind (calls_single trivial) fun _ => logJob_meek cfg k _

theorem exitJob_meek (cfg : SchedConfig E) (k : JobKey) (res : RunResult) : Calls Meek (exitJob cfg k res) := by
  refine calls_bind (calls_single trivial) fun now => calls_bind (modify_meek k _) fun _ => ?_
  have hdecision : Calls Meek (exitDecision cfg k now) := by
    refine ⟨trivial, fun r => ?_⟩
    cases r <;> trivial
  refine calls_bind hdecision fun d => ?_
  cases d.action with
  | hold | requeue => exact calls_bind (modify_meek k _) fun _ => logJob_meek cfg k _
  | remove => exact calls_bind (calls_single ⟨k, d.reason, rfl⟩) fun _ => trivial
  | _ => exact calls_bind (logJob_meek cfg k _) fun _ => calls_bind (complete_meek k) fun _ => trivial

theorem requeueAll_meek (ks : List JobKey) : Calls Meek (requeueAll ks : Go E Unit) := by
  induction ks with
  | nil => trivial
  | cons k ks ih => exact calls_bind (requeueToIdle_meek k) fun _ => ih

theorem renewAll_meek (now : ℤ) (ks : List JobKey) : Calls Meek (renewAll now ks : Go E Unit) := by
  induction ks with
  | nil => trivial
  | cons k ks ih =>
    exact calls_bind (jobStatus_meek k) fun _ => calls_ite (calls_bind (modify_meek k _) fun _ => ih) ih

theorem recoverLoop_meek (cfg : SchedConfig E) (core : Core) (now : ℤ) (ads : List (Ad E)) :
    Calls Meek (recoverLoop cfg core now ads) := by
  induction ads with
  | nil => trivial
  | cons ad ads ih =>
    unfold recoverLoop
    exact calls_ite ih (calls_ite (calls_bind (requeueToIdle_meek _) fun _ => ih) (calls_bind ih fun _ => trivial))

theorem expireAll_meek (cfg : SchedConfig E) (core : Core) (gone : List JobKey) (recs : List String) :
    Calls Meek (expireAll cfg core gone recs) := by
  induction recs generalizing gone with
  | nil => trivial
  | cons rec recs ih =>
    unfold expireAll
    cases expiredRun cfg core gone rec with
    | none => exact ih gone
    | some k => exact calls_bind (requeueToIdle_meek k) fun _ => ih (k :: gone)

theorem sweepExpired_meek (cfg : SchedConfig E) (core : Core) : Calls Meek (sweepExpired cfg core).2 :=
  calls_bind (calls_single trivial) fun now => calls_bind (renewAll_meek now _) fun _ =>
    calls_bind (calls_single trivial) fun recs => calls_bind (expireAll_meek cfg core [] recs) fun _ => trivial

theorem handle_meek (cfg : SchedConfig E) (core : Core) (ev : Event) : Calls Meek (handle cfg core ev).2 := by
  cases ev with
  | evMatch m =>
    simp only [handle, handleMatch]
    split_ifs
    · trivial
    · refine calls_bind (jobStatus_meek m.key) fun _ =>
        calls_ite trivial (calls_bind (calls_single trivial) fun r => ?_)
      cases r <;> trivial
  | evStarted k =>
    exact calls_bind (calls_single trivial) fun now => calls_bind (modify_meek k _) fun ok =>
      calls_ite trivial (calls_bind (logJob_meek cfg k _) fun _ => trivial)
  | evExited k res =>
    refine calls_ite trivial ?_
    cases res with
    | none => exact calls_bind (jobFailed_meek cfg k _ _) fun _ => trivial
    | some res => exact calls_bind (exitJob_meek cfg k res) fun _ => trivial
  | evFailed k =>
    exact calls_ite trivial (calls_bind (jobFailed_meek cfg k _ _) fun _ => trivial)
  | evReschedule | evPolicyDone => trivial
  | evTeardown =>
    simp only [handle, handleTeardown]
    split_ifs <;> trivial
  | evDrain =>
    simp only [handle, handleDrain]
    split_ifs
    · trivial
    · exact calls_bind (requeueAll_meek _) fun _ => trivial
    · trivial
  | evReconnectFailed k =>
    exact calls_ite trivial (calls_bind (logJob_meek cfg k _) fun _ =>
      calls_bind (jobFailed_meek cfg k _ _) fun _ => trivial)
  | evRecover =>
    exact calls_ite trivial (calls_bind (calls_single trivial) fun now => calls_bind (calls_single trivial) fun ads =>
      calls_bind (recoverLoop_meek cfg core now ads) fun _ => trivial)
  | evPolicyRemove k | evPolicyHold k | evPolicyRelease k =>
    exact calls_ite trivial (calls_bind (jobStatus_meek k) fun _ => calls_ite trivial trivial)

/-! ## The registry when an event is taken, entry by entry -/

variable (core : Core)

omit [ClassAdLib E] in
theorem lookup_mapRuns (f : JobKey → RunInfo → RunInfo) (k : JobKey) :
    (core.mapRuns f).running.lookup k = (core.running.lookup k).map (f k) := by
  rw [Core.mapRuns, KeyMap.lookup_mapKeys]
  cases core.running.lookup k <;> rfl

omit [ClassAdLib E] in
theorem lookup_reap {core : Core} {k k' : JobKey} {ri : RunInfo} (h : (reap core k).1.running.lookup k' = some ri) :
    core.running.lookup k' = some ri := by
  have hdrop : (core.drop k).running.lookup k' = some ri := by
    rw [← (core.drop k).maybeFinishDrain_running.1]
    exact h
  unfold Core.drop at hdrop
  split_ifs at hdrop
  · exact KeyMap.lookup_of_erase hdrop
  · exact hdrop

/-- what the handler of an event makes of an entry that it keeps -/
def entryAfter (cfg : SchedConfig E) (k : JobKey) (ri : RunInfo) : Event → RunInfo
  | .evStarted k' slotName claimID => if k = k' then noteStarted slotName claimID ri else ri
  | .evTeardown k' done => if k = k' then { vacateRun ri with waiters := ri.waiters ++ done.toList } else ri
  | .evDrain _ =>
    if cfg.reconnectDisabled then vacateRun ri
    else if ri.vacated || ri.detached then ri else { ri with detached := true, cancelled := true }
  | _ => ri

theorem lookup_handle (cfg : SchedConfig E) (core : Core) (ev : Event) {k : JobKey} {ri' : RunInfo}
    (h : (handle cfg core ev).1.running.lookup k = some ri') :
    ∃ ri, core.running.lookup k = some ri ∧ ri' = entryAfter cfg k ri ev := by
  have hmap : ∀ f : JobKey → RunInfo → RunInfo, (core.mapRuns f).running.lookup k = some ri' →
      (∀ ri, f k ri = entryAfter cfg k ri ev) → ∃ ri, core.running.lookup k = some ri ∧
        ri' = entryAfter cfg k ri ev := by
    intro f hl hf
    rw [lookup_mapRuns] at hl
    obtain ⟨ri, hri, rfl⟩ := Option.map_eq_some_iff.1 hl
    exact ⟨ri, hri, hf ri⟩
  have hin : core.running.lookup k = some ri' → k ∈ core.running := fun hl => (KeyMap.mem_iff_lookup _ _).2 ⟨ri', hl⟩
  cases ev with
  | evExited | evFailed | evReconnectFailed => exact ⟨ri', lookup_reap h, rfl⟩
  | evMatch =>
    simp only [handle, handleMatch] at h
    split_ifs at h <;> exact ⟨ri', h, rfl⟩
  | evStarted => exact hmap _ h fun _ => rfl
  | evTeardown k' =>
    simp only [handle, handleTeardown] at h
    split_ifs at h with hk
    · exact hmap _ h fun _ => rfl
    · exact ⟨ri', h, (if_neg fun he : k = k' => hk (he ▸ hin h)).symm⟩
  | evDrain =>
    simp only [handle, handleDrain] at h
    split_ifs at h with hnone hcfg
    · have hk : k ∈ core.running.keys := hin h
      rw [hnone] at hk
      cases hk
    · exact hmap _ h fun _ => (if_pos hcfg).symm
    · exact hmap _ h fun _ => (if_neg hcfg).symm
  | evReschedule | evRecover | evPolicyRemove | evPolicyHold | evPolicyRelease | evPolicyDone => exact ⟨ri', h, rfl⟩

omit [ClassAdLib E] in
theorem drop_drainDone (k : JobKey) : (core.drop k).drainDone = core.drainDone := by
  unfold Core.drop
  split_ifs <;> rfl

omit [ClassAdLib E] in
/-- the drain's channel is kept or closed -/
theorem maybeFinishDrain_channel :
    (∀ n, core.maybeFinishDrain.1.drainDone = some n → core.drainDone = some n) ∧
      ∀ t ∈ core.maybeFinishDrain.2, core.drainDone = some t := by
  unfold Core.maybeFinishDrain
  split
  · rename_i done hd
    split_ifs
    · refine ⟨fun n hn => ?_, fun t ht => ?_⟩
      · cases hn
      · rw [hd, List.mem_singleton.1 ht]
    · exact ⟨fun n hn => hn, fun t ht => absurd ht List.not_mem_nil⟩
  · exact ⟨fun n hn => hn, fun t ht => absurd ht List.not_mem_nil⟩

omit [ClassAdLib E] in
theorem reap_channel (k : JobKey) :
    (∀ n, (reap core k).1.drainDone = some n → core.drainDone = some n) ∧
      ∀ t ∈ (reap core k).2, core.drainDone = some t ∨ ∃ ri, core.running.lookup k = some ri ∧ t ∈ ri.waiters := by
  obtain ⟨h1, h2⟩ := maybeFinishDrain_channel (core.drop k)
  rw [drop_drainDone] at h1 h2
  refine ⟨h1, fun t ht => ?_⟩
  rcases List.mem_append.1 ht with ht | ht
  · exact .inl (h2 t ht)
  · right
    cases hl : core.running.lookup k with
    | none => rw [hl] at ht; cases ht
    | some ri => rw [hl] at ht; exact ⟨ri, rfl, ht⟩

theorem handle_drainDone (cfg : SchedConfig E) (core : Core) (ev : Event) {n : ℕ}
    (h : (handle cfg core ev).1.drainDone = some n) : core.drainDone = some n ∨ ev = .evDrain n := by
  cases ev with
  | evExited k | evFailed k | evReconnectFailed k =>
    exact .inl ((reap_channel core k).1 n h)
  | evMatch =>
    simp only [handle, handleMatch] at h
    split_ifs at h <;> exact .inl h
  | evTeardown =>
    simp only [handle, handleTeardown] at h
    split_ifs at h <;> exact .inl h
  | evDrain =>
    simp only [handle, handleDrain] at h
    split_ifs at h
    · exact .inl h
    · exact .inr (by rw [Option.some.inj h])
    · exact .inr (by rw [Option.some.inj h])
  | evStarted k slotName claimID | evReschedule | evRecover done | evPolicyRemove k reason
  | evPolicyHold k reason code sub
  | evPolicyRelease k reason | evPolicyDone k => exact .inl h

/-! ## What a handler leaves to do -/

/-- why a handler closes channel `t` -/
inductive Closes (core : Core) : Event → ℕ → Prop where
  | noEntry (k : JobKey) (t : ℕ) (h : k ∉ core.running) : Closes core (.evTeardown k (some t)) t
  | reaped (ev : Event) (k : JobKey) (ri : RunInfo) (t : ℕ) (hev : ev.terminalFor k = true)
      (hl : core.running.lookup k = some ri) (ht : t ∈ ri.waiters) : Closes core ev t
  | drained (t : ℕ) : Closes core (.evDrain t) t
  | drainEnds (ev : Event) (t : ℕ) (h : core.drainDone = some t) : Closes core ev t

/-- it closes channels, or it starts the run of the match it has taken -/
inductive Leaves (core : Core) (ev : Event) (fin : Finish E) : Prop where
  | closes (hruns : fin.runs = []) (h : ∀ t ∈ fin.close, Closes core ev t)
  | starts (m : Match) (r : NewRun E) (hev : ev = .evMatch m) (hk : m.key ∉ core.running) (hruns : fin.runs = [r])
      (hkey : r.key = m.key) (hprog : r.prog = runJob m) (hwait : r.info.waiters = []) (hclose : fin.close = [])

omit [ClassAdLib E] in
theorem leaves_nil {core : Core} {ev : Event} {fin : Finish E} (hruns : fin.runs = []) (hclose : fin.close = []) :
    Leaves core ev fin :=
  .closes hruns fun t ht => by rw [hclose] at ht; cases ht

theorem handle_finish (cfg : SchedConfig E) (core : Core) (ev : Event) (hev : ev.recovers = false) :
    Results (Leaves core ev) (handle cfg core ev).2 := by
  have hreap : ∀ k, ev.terminalFor k = true → ∀ t ∈ (reap core k).2, Closes core ev t := by
    intro k hk t ht
    rcases (reap_channel core k).2 t ht with hd | ⟨ri, hl, hw⟩
    · exact .drainEnds ev t hd
    · exact .reaped ev k ri t hk hl hw
  cases ev with
  | evMatch m =>
    simp only [handle, handleMatch]
    split_ifs with h
    · exact leaves_nil rfl rfl
    · refine results_bind _ fun status => ?_
      split_ifs
      · exact leaves_nil rfl rfl
      · refine results_bind _ fun job => ?_
        cases job with
        | none => exact leaves_nil rfl rfl
        | some => exact .starts m _ rfl (fun hk => h (.inr (.inr (.inr (.inr hk))))) rfl rfl rfl rfl rfl
  | evStarted =>
    refine results_bind _ fun now => results_bind _ fun ok => ?_
    split_ifs
    · exact leaves_nil rfl rfl
    · exact results_bind _ fun _ => leaves_nil rfl rfl
  | evExited k res =>
    have hclose := hreap k (decide_eq_true rfl)
    simp only [handle, handleExited]
    split_ifs
    · exact .closes rfl hclose
    · cases res <;> exact results_bind _ fun _ => .closes rfl hclose
  | evFailed k =>
    have hclose := hreap k (decide_eq_true rfl)
    simp only [handle, handleFailed]
    split_ifs
    · exact .closes rfl hclose
    · exact results_bind _ fun _ => .closes rfl hclose
  | evReschedule | evPolicyDone => exact leaves_nil rfl rfl
  | evTeardown k done =>
    simp only [handle, handleTeardown]
    split_ifs with h
    · exact leaves_nil rfl rfl
    · refine .closes rfl fun t ht => ?_
      cases done with
      | none => cases ht
      | some n => rw [List.mem_singleton.1 ht]; exact .noEntry k n h
  | evDrain done =>
    simp only [handle, handleDrain]
    split_ifs
    · exact .closes rfl fun t ht => by rw [List.mem_singleton.1 ht]; exact .drained done
    · exact results_bind _ fun _ => leaves_nil rfl rfl
    · exact leaves_nil rfl rfl
  | evReconnectFailed k =>
    have hclose := hreap k (decide_eq_true rfl)
    simp only [handle, handleReconnectFailed]
    split_ifs
    · exact .closes rfl hclose
    · exact results_bind _ fun _ => results_bind _ fun _ => .closes rfl hclose
  | evRecover => cases hev
  | evPolicyRemove | evPolicyHold | evPolicyRelease =>
    simp only [handle, handlePolicyAction]
    split_ifs
    · exact leaves_nil rfl rfl
    · refine results_bind _ fun status => ?_
      split_ifs <;> exact leaves_nil rfl rfl

theorem sweepExpired_finish (cfg : SchedConfig E) (core : Core) :
    Results (fun fin : Finish E => fin.runs = [] ∧ fin.close = []) (sweepExpired cfg core).2 :=
  results_bind _ fun _ => results_bind _ fun _ => results_bind _ fun _ => results_bind _ fun _ => ⟨rfl, rfl⟩

/-- what remains of an entry: its marks stay, and only a teardown adds a waiter -/
structure Remains (ev : Event) (k : JobKey) (ri ri' : RunInfo) : Prop where
  vacated : ri.vacated = true → ri'.vacated = true
  cancelled : ri.cancelled = true → ri'.cancelled = true
  waiters : ∀ t ∈ ri'.waiters, t ∈ ri.waiters ∨ ev = .evTeardown k (some t)
  reconnect : ri'.reconnect = ri.reconnect

theorem handle_entry (cfg : SchedConfig E) (core : Core) (ev : Event) {k : JobKey} {ri' : RunInfo}
    (h : (handle cfg core ev).1.running.lookup k = some ri') :
    ∃ ri, core.running.lookup k = some ri ∧ Remains ev k ri ri' := by
  obtain ⟨ri, hl, rfl⟩ := lookup_handle cfg core ev h
  refine ⟨ri, hl, ?_⟩
  have hsame : Remains ev k ri ri := ⟨id, id, fun t ht => .inl ht, rfl⟩
  cases ev with
  | evStarted =>
    simp only [entryAfter]
    split_ifs
    · exact ⟨id, id, fun t ht => .inl ht, rfl⟩
    · exact hsame
  | evTeardown =>
    simp only [entryAfter]
    split_ifs with hk
    · subst hk
      refine ⟨fun _ => rfl, fun _ => rfl, fun t ht => ?_, rfl⟩
      rcases List.mem_append.1 ht with ht | ht
      · exact .inl ht
      · exact .inr (by rw [Option.mem_toList.1 ht])
    · exact hsame
  | evDrain =>
    simp only [entryAfter]
    split_ifs
    · exact ⟨fun _ => rfl, fun _ => rfl, fun t ht => .inl ht, rfl⟩
    · exact hsame
    · exact ⟨id, fun _ => rfl, fun t ht => .inl ht, rfl⟩
  | _ => exact hsame

/-- only the terminal event of a run takes its entry away -/
theorem handle_keeps (cfg : SchedConfig E) (core : Core) (ev : Event) {k : JobKey} (hk : k ∈ core.running)
    (hev : ev.terminalFor k = false) : k ∈ (handle cfg core ev).1.running := by
  have hreap : ∀ k', decide (k' = k) = false → k ∈ (reap core k').1.running :=
    fun k' hne => ((reap_registry core k').1 k).2 ⟨fun he => of_decide_eq_false hne he.symm, hk⟩
  cases ev with
  | evExited k' | evFailed k' | evReconnectFailed k' =>
    exact hreap k' hev
  | evMatch =>
    simp only [handle, handleMatch]
    split_ifs <;> exact hk
  | evStarted => exact Core.mem_mapRuns.2 hk
  | evTeardown =>
    simp only [handle, handleTeardown]
    split_ifs
    · exact Core.mem_mapRuns.2 hk
    · exact hk
  | evDrain =>
    simp only [handle, handleDrain]
    split_ifs
    · exact hk
    · exact Core.mem_mapRuns.2 hk
    · exact Core.mem_mapRuns.2 hk
  | evReschedule | evRecover | evPolicyRemove | evPolicyHold | evPolicyRelease | evPolicyDone => exact hk

end Sched

end

end AccessPoint

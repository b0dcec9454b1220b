/-
The schedd as an interleaving of goroutines.

One step is one atomic command of the core's current handler or of another goroutine, the core taking its next event, a
sweep tick, or a call from outside: a tool's `ApplyAction`, a match from the negotiator, a periodic-policy firing, a
drain, a recovery scan. The event channel holds at most 256 events and `Submit` drops what does not fit. Goroutine 0 is
the core; the others are numbered as they start, and the number also names the completion channel of a call. `trace`
records the store steps, the returns of actions, and what the core took from the channel.

- `exec`: one command.
- `step`: one step; a blocked or finished goroutine does nothing.
-/
import AccessPoint.Core.Runs
import AccessPoint.Queue.System
import AccessPoint.Sched.Core

namespace AccessPoint

open ClassAdLib

/-- what a goroutine other than the core is -/
inductive Role where
  /-- `ApplyAction` called by a tool -/
  | tool (req : ActionRequest)
  /-- the apply goroutine of a policy action -/
  | policy (req : ActionRequest)
  /-- `runJob` or `reconnectJob` -/
  | run
deriving DecidableEq, Repr

/-- the action a goroutine performs -/
def Role.kind : Role → Option ActionKind
  | .tool req => some req.kind
  | .policy req => some req.kind
  | .run => none

structure Thread (E : Type) where
  job : JobKey
  role : Role
  prog : Go E (ℤ × List (ULog E))

/-- one entry of the trace; `t` is the goroutine -/
inductive Obs where
  | got (t : ℕ) (k : JobKey) (found : Bool)
  /-- `act` is the action the goroutine performs, if any -/
  | put (t : ℕ) (k : JobKey) (ok : Bool) (act : Option ActionKind)
  | deleted (t : ℕ) (k : JobKey) (act : Option ActionKind)
  | appended (t : ℕ) (k : JobKey) (ok : Bool)
  /-- a goroutine other than the core ended -/
  | returned (t : ℕ) (job : JobKey) (role : Role) (code : ℤ)
  /-- the core ended a handler -/
  | finished
  /-- the core took an event -/
  | took (ev : Event)
  /-- the negotiator's match reached `OnMatch` -/
  | matched (m : Match)
deriving DecidableEq, Repr

structure World (E : Type) where
  q : Queue E
  core : Core
  /-- the event channel, oldest first -/
  events : List Event
  /-- the handler in progress -/
  busy : Option (Go E (Finish E))
  threads : KeyMap ℕ (Thread E)
  nextTid : ℕ
  closed : List ℕ
  ulog : List (ULog E)
  trace : List Obs

/-- the capacity of the event channel -/
def eventCap : ℕ := 256

namespace World

variable {E : Type}

/-- the schedd at startup with the jobs of `q` -/
def start (q : Queue E) : World E := ⟨q, .init, [], none, ∅, 1, [], [], []⟩

def observe (w : World E) (o : Obs) : World E := { w with trace := w.trace ++ [o] }

/-- `Submit`: an event that does not fit is dropped -/
def submit (w : World E) (ev : Event) : World E :=
  if w.events.length < eventCap then { w with events := w.events ++ [ev] } else w

def setColl (w : World E) (coll : Store E) : World E := { w with q := { w.q with coll := coll } }

/-- the action goroutine `t` performs -/
def actor (w : World E) (t : ℕ) : Option ActionKind := (w.threads.lookup t).bind fun th => th.role.kind

/-- one command of goroutine `t`; none when it is blocked -/
def exec (w : World E) (t : ℕ) (ch : Choice) : (c : Cmd E) → Option (c.Resp × World E)
  | .get k => some (w.q.coll.get k, w.observe (.got t k (w.q.coll.get k).isSome))
  | .put k ad =>
    if ch.ok then some (true, (w.setColl (w.q.coll.put k ad)).observe (.put t k true (w.actor t)))
    else some (false, w.observe (.put t k false (w.actor t)))
  | .delete k => some ((), (w.setColl (w.q.coll.delete k)).observe (.deleted t k (w.actor t)))
  | .append k ad =>
    if ch.ok then some ((), { w with q := { w.q with hist := w.q.hist ++ [ad] } }.observe (.appended t k true))
    else some ((), w.observe (.appended t k false))
  | .flush => some ((), w)
  | .scan => some (w.q.coll.scan, w)
  | .clock => some (ch.now, w)
  | .teardown k => some ((), w.submit (.evTeardown k (some t)))
  | .await => if ch.timeout then some (false, w) else if t ∈ w.closed then some (true, w) else none
  | .submit ev => some ((), w.submit ev)
  | .expireSweep => some (ch.expired, w)
  | .claim _ => some (ch.claim, w)
  | .serve => some (ch.serve, w)
  | .reattach => some (ch.reattach, w)

variable {w w' : World E} {ch : Choice} {c : Cmd E} {t : ℕ} {r : c.Resp}

/-- a goroutine of the schedd does to the store what `perform` does -/
theorem exec_perform (h : w.exec t ch c = some (r, w')) : w.q.coll.perform ch c = (r, w'.q.coll) := by
  cases c with
  | put | append =>
    simp only [exec] at h
    split_ifs at h with hok <;> cases h <;> simp [Store.perform, observe, setColl, hok]
  | await =>
    simp only [exec] at h
    split_ifs at h with htime <;> cases h <;> simp [Store.perform, htime]
  | teardown | submit =>
    simp only [exec, submit] at h
    split_ifs at h <;> cases h <;> rfl
  | _ => cases h; rfl

/-- a goroutine starts -/
def spawn (w : World E) (th : Thread E) : World E :=
  { w with threads := w.threads.insert w.nextTid th, nextTid := w.nextTid + 1 }

/-- a run enters the registry and its goroutine starts -/
def startRun (w : World E) (r : NewRun E) : World E :=
  { w with core := w.core.add r.key r.info }.spawn ⟨r.key, .run, r.prog⟩

/-- goroutine `i` goes on with `p` -/
def resumeThread (w : World E) (i : ℕ) (th : Thread E) : Go E (ℤ × List (ULog E)) → World E
  | .ret r => { w with threads := w.threads.erase i, ulog := w.ulog ++ r.2 }.observe (.returned i th.job th.role r.1)
  | .call c k => { w with threads := w.threads.insert i { th with prog := .call c k } }

inductive Step where
  /-- a tool calls `ApplyAction` -/
  | tool (k : JobKey) (req : ActionRequest)
  /-- `OnMatch` -/
  | onMatch (m : Match)
  | reschedule
  | drain
  | recover
  /-- the periodic evaluator found a firing expression -/
  | policyRemove (k : JobKey) (reason : String)
  | policyHold (k : JobKey) (reason : String) (code sub : ℤ)
  | policyRelease (k : JobKey) (reason : String)
  /-- the core takes the next event -/
  | take
  /-- the sweep ticker fires -/
  | sweep
  /-- the core's handler performs its next command -/
  | core (ch : Choice)
  /-- goroutine `i` performs its next command -/
  | thread (i : ℕ) (ch : Choice)
deriving DecidableEq, Repr

/-- the event a command of goroutine `t` submits -/
def eventOf (t : ℕ) : Cmd E → Option Event
  | .submit ev => some ev
  | .teardown k => some (.evTeardown k (some t))
  | _ => none

/-- a command changes the store, the history, the channel and the trace, nothing else -/
theorem exec_frame (h : w.exec t ch c = some (r, w')) :
    w'.core = w.core ∧ w'.threads = w.threads ∧ w'.nextTid = w.nextTid ∧ w'.busy = w.busy ∧ w'.closed = w.closed := by
  cases c with
  | put | append | await =>
    simp only [exec] at h
    split_ifs at h <;> cases h <;> exact ⟨rfl, rfl, rfl, rfl, rfl⟩
  | teardown | submit =>
    simp only [exec, submit] at h
    split_ifs at h <;> cases h <;> exact ⟨rfl, rfl, rfl, rfl, rfl⟩
  | _ => cases h; exact ⟨rfl, rfl, rfl, rfl, rfl⟩

theorem exec_events (h : w.exec t ch c = some (r, w')) :
    w'.events = match eventOf t c with
      | some ev => (w.submit ev).events
      | none => w.events := by
  cases c with
  | put | append | await =>
    simp only [exec] at h
    split_ifs at h <;> cases h <;> rfl
  | _ => cases h; rfl

theorem submit_fits {w : World E} {ev : Event} (h : w.events.length < eventCap) :
    (w.submit ev).events = w.events ++ [ev] := by
  simp [submit, h]

theorem mem_submit {w : World E} {ev ev' : Event} (h : ev' ∈ w.events) : ev' ∈ (w.submit ev).events := by
  unfold submit
  split_ifs
  · exact List.mem_append_left _ h
  · exact h

theorem submit_frame (w : World E) (ev : Event) :
    (w.submit ev).core = w.core ∧ (w.submit ev).threads = w.threads ∧ (w.submit ev).busy = w.busy ∧
      (w.submit ev).closed = w.closed ∧ (w.submit ev).q = w.q := by
  unfold submit
  split_ifs <;> exact ⟨rfl, rfl, rfl, rfl, rfl⟩

theorem resumeThread_frame (w : World E) (i : ℕ) (th : Thread E) (p : Go E (ℤ × List (ULog E))) :
    (w.resumeThread i th p).core = w.core ∧ (w.resumeThread i th p).busy = w.busy ∧
      (w.resumeThread i th p).closed = w.closed ∧ (w.resumeThread i th p).q = w.q := by
  cases p <;> exact ⟨rfl, rfl, rfl, rfl⟩

/-- an event in the channel stays there through a command -/
theorem exec_keeps_event (h : w.exec t ch c = some (r, w')) {ev : Event} (hev : ev ∈ w.events) : ev ∈ w'.events := by
  rw [exec_events h]
  cases eventOf t c with
  | none => exact hev
  | some => exact mem_submit hev

variable [ClassAdLib E]

/-- the apply goroutine of a policy action -/
def applyPolicy (cfg : SchedConfig E) (q : Queue E) (k : JobKey) (req : ActionRequest) : Go E (ℤ × List (ULog E)) := do
  let r ← q.applyAction cfg.hook k req
  Go.submit (.evPolicyDone k)
  pure r

/-- a policy action is handed off -/
def startPolicy (cfg : SchedConfig E) (w : World E) (k : JobKey) (req : ActionRequest) : World E :=
  { w with core := { w.core with policyPending := k :: w.core.policyPending } }.spawn
    ⟨k, .policy req, applyPolicy cfg w.q k req⟩

/-- the end of a handler -/
def finish (cfg : SchedConfig E) (w : World E) (fin : Finish E) : World E :=
  let w := { w with busy := none, closed := fin.close ++ w.closed, ulog := w.ulog ++ fin.ulog
                    core := w.core.mapRuns fun k ri => if k ∈ fin.vacate then Sched.vacateRun ri else ri }
  let w := fin.runs.foldl startRun w
  let w := match fin.policy with
    | some (k, req) => startPolicy cfg w k req
    | none => w
  w.observe .finished

/-- the core goes on with `p` -/
def resume (cfg : SchedConfig E) (w : World E) : Go E (Finish E) → World E
  | .ret fin => w.finish cfg fin
  | .call c k => { w with busy := some (.call c k) }

def step (cfg : SchedConfig E) (w : World E) : Step → World E
  | .tool k req => w.spawn ⟨k, .tool req, w.q.applyAction cfg.hook k req⟩
  | .onMatch m => (w.submit (.evMatch m)).observe (.matched m)
  | .reschedule => w.submit .evReschedule
  | .drain => { w with nextTid := w.nextTid + 1 }.submit (.evDrain w.nextTid)
  | .recover => { w with nextTid := w.nextTid + 1 }.submit (.evRecover (some w.nextTid))
  | .policyRemove k reason => w.submit (.evPolicyRemove k reason)
  | .policyHold k reason code sub => w.submit (.evPolicyHold k reason code sub)
  | .policyRelease k reason => w.submit (.evPolicyRelease k reason)
  | .take =>
    match w.busy, w.events with
    | none, ev :: rest =>
      let h := Sched.handle cfg w.core ev
      ({ w with events := rest, core := h.1 }.observe (.took ev)).resume cfg h.2
    | _, _ => w
  | .sweep =>
    match w.busy with
    | none =>
      let h := Sched.sweepExpired cfg w.core
      { w with core := h.1 }.resume cfg h.2
    | some _ => w
  | .core ch =>
    match w.busy with
    | some (.call c k) =>
      match w.exec 0 ch c with
      | some (r, w') => w'.resume cfg (k r)
      | none => w
    | _ => w
  | .thread i ch =>
    match w.threads.lookup i with
    | some ⟨job, role, .call c k⟩ =>
      match w.exec i ch c with
      | some (r, w') => w'.resumeThread i ⟨job, role, .call c k⟩ (k r)
      | none => w
    | _ => w

def run (cfg : SchedConfig E) (w : World E) (steps : List Step) : World E := steps.foldl (step cfg) w

/-! ## What one step does -/

/-- the event a call from outside submits -/
def callEvent (w : World E) : Step → Option Event
  | .onMatch m => some (.evMatch m)
  | .reschedule => some .evReschedule
  | .drain => some (.evDrain w.nextTid)
  | .recover => some (.evRecover (some w.nextTid))
  | .policyRemove k reason => some (.evPolicyRemove k reason)
  | .policyHold k reason code sub => some (.evPolicyHold k reason code sub)
  | .policyRelease k reason => some (.evPolicyRelease k reason)
  | _ => none

/-- the event a step submits -/
def submits (w : World E) : Step → Option Event
  | .core _ =>
    match w.busy with
    | some (.call c _) => eventOf 0 c
    | _ => none
  | .thread i _ =>
    match w.threads.lookup i with
    | some ⟨_, _, .call c _⟩ => eventOf i c
    | _ => none
  | s => w.callEvent s

/-- every way a step changes the world -/
inductive Move (cfg : SchedConfig E) (w : World E) : Step → World E → Prop where
  /-- blocked, finished, or nothing to take -/
  | idle (s : Step) : Move cfg w s w
  | tool (k : JobKey) (req : ActionRequest) :
      Move cfg w (.tool k req) (w.spawn ⟨k, .tool req, w.q.applyAction cfg.hook k req⟩)
  /-- a call from outside submits an event; it may take a number for its channel -/
  | call (s : Step) (ev : Event) (n : ℕ) (os : List Obs) (hev : w.callEvent s = some ev) (hn : w.nextTid ≤ n)
      (hch : ∀ t, ev.channel = some t → t = w.nextTid ∧ t < n) (hos : os = [] ∨ ∃ m, ev = .evMatch m ∧
        os = [.matched m]) :
      Move cfg w s { w.submit ev with nextTid := n, trace := w.trace ++ os }
  | take (ev : Event) (rest : List Event) (hb : w.busy = none) (he : w.events = ev :: rest) :
      Move cfg w .take
        (({ w with events := rest, core := (Sched.handle cfg w.core ev).1 }.observe (.took ev)).resume cfg
          (Sched.handle cfg w.core ev).2)
  | sweep (hb : w.busy = none) :
      Move cfg w .sweep
        ({ w with core := (Sched.sweepExpired cfg w.core).1 }.resume cfg (Sched.sweepExpired cfg w.core).2)
  | core (ch : Choice) (c : Cmd E) (k : c.Resp → Go E (Finish E)) (r : c.Resp) (w₁ : World E)
      (hb : w.busy = some (.call c k)) (hx : w.exec 0 ch c = some (r, w₁)) :
      Move cfg w (.core ch) (w₁.resume cfg (k r))
  | thread (i : ℕ) (ch : Choice) (job : JobKey) (role : Role) (c : Cmd E) (k : c.Resp → Go E (ℤ × List (ULog E)))
      (r : c.Resp) (w₁ : World E) (ht : w.threads.lookup i = some ⟨job, role, .call c k⟩)
      (hx : w.exec i ch c = some (r, w₁)) :
      Move cfg w (.thread i ch) (w₁.resumeThread i ⟨job, role, .call c k⟩ (k r))

omit [ClassAdLib E] in
/-- a call from outside that takes its numbers and submits -/
theorem submit_numbered (w : World E) (n : ℕ) (ev : Event) :
    { w with nextTid := n }.submit ev = { w.submit ev with nextTid := n, trace := w.trace ++ [] } := by
  unfold submit
  split_ifs <;> simp

variable (cfg : SchedConfig E)

/-- **Everything a step can do.** -/
theorem step_move (w : World E) (s : Step) : Move cfg w s (step cfg w s) := by
  have hcall : ∀ ev, w.callEvent s = some ev → ev.channel = none → Move cfg w s (w.submit ev) := by
    intro ev hev hd
    rw [show w.submit ev = _ from submit_numbered w w.nextTid ev]
    exact .call s ev w.nextTid [] hev le_rfl (fun t ht => by rw [hd] at ht; cases ht) (.inl rfl)
  have hchannel : ∀ ev, w.callEvent s = some ev → ev.channel = some w.nextTid →
      Move cfg w s ({ w with nextTid := w.nextTid + 1 }.submit ev) := by
    intro ev hev hd
    rw [submit_numbered]
    refine .call s ev (w.nextTid + 1) [] hev (Nat.le_succ _) (fun t ht => ?_) (.inl rfl)
    rw [← Option.some.inj (hd.symm.trans ht)]
    exact ⟨rfl, Nat.lt_succ_self _⟩
  cases s with
  | tool k req => exact .tool k req
  | onMatch m =>
    have hw : (w.submit (.evMatch m)).observe (.matched m) =
        { w.submit (.evMatch m) with nextTid := w.nextTid, trace := w.trace ++ [.matched m] } := by
      unfold submit observe
      split_ifs <;> rfl
    simp only [step, hw]
    exact .call _ (.evMatch m) w.nextTid [.matched m] rfl le_rfl (fun t ht => (nomatch ht)) (.inr ⟨m, rfl, rfl⟩)
  | reschedule | policyRemove | policyHold | policyRelease => exact hcall _ rfl rfl
  | drain | recover => exact hchannel _ rfl rfl
  | take =>
    simp only [step]
    split
    · rename_i ev rest hb he
      exact .take ev rest hb he
    · exact .idle _
  | sweep =>
    simp only [step]
    split
    · rename_i hb
      exact .sweep hb
    · exact .idle _
  | core ch =>
    simp only [step]
    split
    · rename_i c k hb
      split
      · rename_i r w₁ hx
        exact .core ch c k r w₁ hb hx
      · exact .idle _
    · exact .idle _
  | thread i ch =>
    simp only [step]
    split
    · rename_i job role c k ht
      split
      · rename_i r w₁ hx
        exact .thread i ch job role c k r w₁ ht hx
      · exact .idle _
    · exact .idle _

/-- the end of a handler: `I` through the new goroutines, and `J` once the end is recorded -/
theorem finish_inv {I J : World E → Prop} {w : World E} {fin : Finish E}
    (hend : I { w with busy := none, closed := fin.close ++ w.closed, ulog := w.ulog ++ fin.ulog
                       core := w.core.mapRuns fun k ri => if k ∈ fin.vacate then Sched.vacateRun ri else ri })
    (hrun : ∀ w' : World E, ∀ r ∈ fin.runs, I w' → I (w'.startRun r))
    (hpolicy : ∀ w' : World E, ∀ k req, fin.policy = some (k, req) → I w' → I (startPolicy cfg w' k req))
    (hobs : ∀ w' : World E, I w' → J (w'.observe .finished)) : J (w.finish cfg fin) := by
  unfold finish
  have hruns : ∀ (rs : List (NewRun E)) (w' : World E), (∀ r ∈ rs, r ∈ fin.runs) → I w' → I (rs.foldl startRun w') := by
    intro rs
    induction rs with
    | nil => exact fun w' _ h => h
    | cons r rs ih =>
      intro w' hrs h
      exact ih _ (fun r' hr' => hrs r' (List.mem_cons_of_mem r hr')) (hrun w' r (hrs r List.mem_cons_self) h)
  have hI := hruns fin.runs _ (fun _ h => h) hend
  dsimp only
  cases hp : fin.policy with
  | none => exact hobs _ hI
  | some p => exact hobs _ (hpolicy _ p.1 p.2 hp hI)

theorem finish_frame (w : World E) (fin : Finish E) :
    (w.finish cfg fin).q = w.q ∧ (w.finish cfg fin).busy = none ∧ (w.finish cfg fin).core.draining = w.core.draining ∧
      (w.finish cfg fin).closed = fin.close ++ w.closed ∧ (w.finish cfg fin).events = w.events := by
  let I : World E → Prop := fun w' => w'.q = w.q ∧ w'.busy = none ∧ w'.core.draining = w.core.draining ∧
    w'.closed = fin.close ++ w.closed ∧ w'.events = w.events
  refine finish_inv (I := I) (J := I) cfg ⟨rfl, rfl, rfl, rfl, rfl⟩ ?_ ?_ ?_
  · exact fun w' r _ h => h
  · exact fun w' k req _ h => h
  · exact fun w' h => h

/-- the core has taken `ev` -/
def took (cfg : SchedConfig E) (w : World E) (ev : Event) (rest : List Event) : World E :=
  { w with events := rest, core := (Sched.handle cfg w.core ev).1 }.observe (.took ev)

end World

/-! ## One idle job and one slot -/

/-- a schedd with a user log and the vacate hook -/
def poolSched : SchedConfig Value where
  maxExceptions := 5
  reconnectDisabled := false
  defaultJobLease := 2400
  userlog := true
  hook := true
  sysPolicy := none
  publicID := id

/-- every write succeeds, no wait gives up, no lease expires, and a run is activated and exits with status 0 -/
def smooth : Choice where
  now := 300
  ok := true
  timeout := false
  expired := []
  claim := .activated "slot1@ep" "<10.0.0.2:9618>#1#1"
  serve := .exited (some ⟨0, 100⟩) none
  reattach := .exited (some ⟨0, 100⟩) none

/-- a match for the first job of `aliceQueue` -/
def aliceMatch : Match := ⟨⟨1, 0⟩, "<10.0.0.2:9618>#1#1", "slot1@ep"⟩

/-- the match arrives and is accepted: goroutine 1 is the run -/
def accepted : List World.Step := [.onMatch aliceMatch, .take, .core smooth, .core smooth]

/-- the run is activated and the core makes the job Running -/
def started : List World.Step :=
  accepted ++ List.replicate 2 (.thread 1 smooth) ++ [.take] ++ List.replicate 4 (.core smooth)

/-- an action of the owner of the job -/
def aliceRequest (kind : ActionKind) : ActionRequest := ⟨kind, "alice@pool", "", 0, 0, false⟩

end AccessPoint

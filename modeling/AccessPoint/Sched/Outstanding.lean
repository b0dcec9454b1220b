/-
What is outstanding for one job (internal/sched/sched.go, `handleStarted`, `handleTeardown`, `TeardownJobAndWait`,
`maybeFinishDrain`).

Two things of a job are on their way while the core does something else: the `evStarted` of its run, and the teardowns
that wait for its run to be reaped. Both travel through the event channel, and both are read off the channel, the
goroutines and the registry. The event in hand and whether the run has started are read off the trace.

- `Starts`: an `evStarted` in the channel is one of the run in the registry, and no run reports its start twice.
- `Numbered`: a channel closes only for the goroutine whose teardown carries it; where it is a teardown of the job, the
  job has no entry by then.
- `finish_threads`, `finish_entries`: what the end of a handler adds.
-/
import AccessPoint.Sched.Abandoned
import AccessPoint.Sched.OneRun

namespace AccessPoint

open ClassAdLib List Sched World KeyMap

namespace Event

def drains : Event → Bool
  | .evDrain _ => true
  | _ => false

end Event

namespace Obs

/-- the event in hand after one more entry of the trace -/
def hand (h : Option Event) : Obs → Option Event
  | .took ev => some ev
  | .finished => none
  | _ => h

/-- the run of `k` has started and is not over, after one more entry -/
def begins (k : JobKey) (b : Bool) : Obs → Bool
  | .took ev => ev.startedFor k || b && !ev.terminalFor k
  | _ => b

end Obs

namespace World

section

variable {E : Type}

/-- the event in hand; none between two handlers and in a sweep -/
def handling (w : World E) : Option Event := w.trace.foldl Obs.hand none

/-- the core has taken the `evStarted` of the run of `k`, and not yet its end -/
def begun (k : JobKey) (w : World E) : Bool := w.trace.foldl (Obs.begins k) false

theorem handling_observe (w : World E) (o : Obs) : (w.observe o).handling = Obs.hand w.handling o := by
  simp [handling, observe]

theorem begun_observe (k : JobKey) (w : World E) (o : Obs) : (w.observe o).begun k = Obs.begins k (w.begun k) o := by
  simp [begun, observe]

variable {k : JobKey} {w w' : World E} {t : ℕ} {ch : Choice} {c : Cmd E} {r : c.Resp}

/-- only the core's events move the two -/
theorem exec_hand (h : w.exec t ch c = some (r, w')) : w'.handling = w.handling ∧ w'.begun k = w.begun k := by
  have hsubmit : ∀ ev, (w.submit ev).handling = w.handling ∧ (w.submit ev).begun k = w.begun k := by
    intro ev
    simp [handling, begun, submit_trace]
  cases c with
  | put | append =>
    simp only [exec] at h
    split_ifs at h <;> cases h <;> exact ⟨handling_observe _ _, begun_observe k _ _⟩
  | await =>
    simp only [exec] at h
    split_ifs at h <;> cases h <;> exact ⟨rfl, rfl⟩
  | get | delete =>
    cases h
    exact ⟨handling_observe _ _, begun_observe k _ _⟩
  | teardown | submit => cases h; exact hsubmit _
  | _ => cases h; exact ⟨rfl, rfl⟩

/-- a goroutine's step: what it leaves as it is -/
structure ThreadFrame (k : JobKey) (w w₁ w' : World E) : Prop where
  core : w'.core = w.core
  busy : w'.busy = w.busy
  closed : w'.closed = w.closed
  tid : w'.nextTid = w.nextTid
  events : w'.events = w₁.events
  q : w'.q = w₁.q
  handling : w'.handling = w.handling
  begun : w'.begun k = w.begun k

variable {w₁ : World E}

theorem thread_frame (hx : w.exec t ch c = some (r, w₁)) (k : JobKey) (th : Thread E)
    (p : Go E (ℤ × List (ULog E))) : ThreadFrame k w w₁ (w₁.resumeThread t th p) := by
  obtain ⟨hcore, -, htid, hbusy, hclosed⟩ := exec_frame hx
  obtain ⟨hhand, hbegun⟩ := exec_hand (k := k) hx
  cases p with
  | ret => exact ⟨hcore, hbusy, hclosed, htid, rfl, rfl, (handling_observe _ _).trans hhand,
    (begun_observe k _ _).trans hbegun⟩
  | call => exact ⟨hcore, hbusy, hclosed, htid, rfl, rfl, hhand, hbegun⟩

/-- the goroutines after one of them has moved -/
theorem thread_threads (hx : w.exec t ch c = some (r, w₁)) (th : Thread E) (p : Go E (ℤ × List (ULog E)))
    {j : ℕ} {th' : Thread E} (h : (w₁.resumeThread t th p).threads.lookup j = some th') :
    j ≠ t ∧ w.threads.lookup j = some th' ∨ j = t ∧ th' = { th with prog := p } := by
  obtain ⟨-, hthreads, -⟩ := exec_frame hx
  cases p with
  | ret =>
    simp only [resumeThread, observe, hthreads, lookup_erase_ite] at h
    split_ifs at h with hj
    exact .inl ⟨hj, h⟩
  | call =>
    simp only [resumeThread, hthreads, lookup_insert_ite] at h
    split_ifs at h with hj
    · exact .inr ⟨hj, (Option.some.inj h).symm⟩
    · exact .inl ⟨hj, h⟩

/-- numbers are given once: the goroutines of `w'` that `w` could have had are those of `w`, each with its job -/
structure Grows (w w' : World E) : Prop where
  tid : w.nextTid ≤ w'.nextTid
  jobs : ∀ t < w.nextTid, ∀ th', w'.threads.lookup t = some th' → ∃ th, w.threads.lookup t = some th ∧ th.job = th'.job

theorem Grows.of_threads (hth : w'.threads = w.threads) (htid : w.nextTid ≤ w'.nextTid) : Grows w w' :=
  ⟨htid, fun _ _ th' h => ⟨th', hth ▸ h, rfl⟩⟩

theorem Grows.spawn (w : World E) (th : Thread E) : Grows w (w.spawn th) := by
  refine ⟨Nat.le_succ _, fun t ht th' hl => ?_⟩
  simp only [World.spawn, lookup_insert_ite, if_neg (Nat.ne_of_lt ht)] at hl
  exact ⟨th', hl, rfl⟩

theorem Grows.thread (hx : w.exec t ch c = some (r, w₁)) {job : JobKey} {role : Role}
    {f : c.Resp → Go E (ℤ × List (ULog E))} (ht : w.threads.lookup t = some ⟨job, role, .call c f⟩) :
    Grows w (w₁.resumeThread t ⟨job, role, .call c f⟩ (f r)) := by
  refine ⟨(thread_frame hx job _ _).tid.ge, fun j _ th' h => ?_⟩
  rcases thread_threads hx _ _ h with ⟨-, hold⟩ | ⟨rfl, rfl⟩
  · exact ⟨th', hold, rfl⟩
  · exact ⟨_, ht, rfl⟩

end

/-! ## The end of a handler -/

section

variable {E : Type} [ClassAdLib E] {k : JobKey} {w : World E} (cfg : SchedConfig E)

theorem finish_trace (w : World E) (fin : Finish E) :
    (w.finish cfg fin).trace = w.trace ++ [.finished] ∧ (w.finish cfg fin).core.drainDone = w.core.drainDone := by
  let I : World E → Prop := fun w' => w'.trace = w.trace ∧ w'.core.drainDone = w.core.drainDone
  let J : World E → Prop := fun w' => w'.trace = w.trace ++ [.finished] ∧ w'.core.drainDone = w.core.drainDone
  refine finish_inv (I := I) (J := J) cfg ⟨rfl, rfl⟩ (fun _ _ _ h => h) (fun _ _ _ _ h => h) fun w' h => ?_
  exact ⟨congrArg (· ++ [Obs.finished]) h.1, h.2⟩

/-- a goroutine the end of a handler starts -/
def Spawns (cfg : SchedConfig E) (fin : Finish E) (th : Thread E) : Prop :=
  (∃ r ∈ fin.runs, th = ⟨r.key, .run, r.prog⟩) ∨
    ∃ k req q, fin.policy = some (k, req) ∧ th = ⟨k, .policy req, applyPolicy cfg q k req⟩

theorem finish_threads (w : World E) (fin : Finish E) :
    w.nextTid ≤ (w.finish cfg fin).nextTid ∧ ∀ i th, (w.finish cfg fin).threads.lookup i = some th →
      w.threads.lookup i = some th ∨ w.nextTid ≤ i ∧ i < (w.finish cfg fin).nextTid ∧ Spawns cfg fin th := by
  let I : World E → Prop := fun w' => w.nextTid ≤ w'.nextTid ∧ ∀ i th, w'.threads.lookup i = some th →
    w.threads.lookup i = some th ∨ w.nextTid ≤ i ∧ i < w'.nextTid ∧ Spawns cfg fin th
  have hspawn : ∀ w' : World E, ∀ th, Spawns cfg fin th → I w' → I (w'.spawn th) := by
    rintro w' th hth ⟨htid, hold⟩
    refine ⟨Nat.le_succ_of_le htid, fun i th' hl => ?_⟩
    simp only [spawn, lookup_insert_ite] at hl
    split_ifs at hl with hi
    · obtain rfl := Option.some.inj hl
      exact .inr ⟨hi ▸ htid, hi ▸ Nat.lt_succ_self _, hth⟩
    · rcases hold i th' hl with h | ⟨h1, h2, h3⟩
      · exact .inl h
      · exact .inr ⟨h1, Nat.lt_succ_of_lt h2, h3⟩
  refine finish_inv (I := I) (J := I) cfg ⟨le_rfl, fun i th h => .inl h⟩ ?_ ?_ fun _ h => h
  · exact fun w' r hr h => hspawn { w' with core := w'.core.add r.key r.info } _ (.inl ⟨r, hr, rfl⟩) h
  · exact fun w' k req hp h => hspawn { w' with core := { w'.core with policyPending := k :: w'.core.policyPending } } _
      (.inr ⟨k, req, w'.q, hp, rfl⟩) h

theorem finish_grows (w : World E) (fin : Finish E) : Grows w (w.finish cfg fin) := by
  obtain ⟨htid, hth⟩ := finish_threads cfg w fin
  refine ⟨htid, fun t ht th' hl => ?_⟩
  rcases hth t th' hl with h | ⟨hge, -, -⟩
  · exact ⟨th', h, rfl⟩
  · exact absurd ht (Nat.not_lt.2 hge)

/-- an entry after a handler is one from before, vacated or not, or that of a run that starts -/
theorem finish_entries (w : World E) (fin : Finish E) {k : JobKey} {ri : RunInfo}
    (h : (w.finish cfg fin).core.running.lookup k = some ri) :
    (∃ ri₀, w.core.running.lookup k = some ri₀ ∧ (ri = ri₀ ∨ ri = Sched.vacateRun ri₀)) ∨
      ∃ r ∈ fin.runs, r.key = k ∧ ri = r.info := by
  let I : World E → Prop := fun w' => ∀ ri, w'.core.running.lookup k = some ri →
    (∃ ri₀, w.core.running.lookup k = some ri₀ ∧ (ri = ri₀ ∨ ri = vacateRun ri₀)) ∨ ∃ r ∈ fin.runs, r.key = k ∧
      ri = r.info
  refine finish_inv (I := I) (J := I) cfg ?_ ?_ (fun _ _ _ _ h => h) (fun _ h => h) ri h
  · intro ri hl
    rw [lookup_mapRuns] at hl
    obtain ⟨ri₀, hl₀, rfl⟩ := Option.map_eq_some_iff.1 hl
    refine .inl ⟨ri₀, hl₀, ?_⟩
    split_ifs
    · exact .inr rfl
    · exact .inl rfl
  · intro w' r hr hI ri hl
    simp only [startRun, spawn, Core.add, lookup_insert_ite] at hl
    split_ifs at hl with hk
    · exact .inr ⟨r, hr, hk.symm, (Option.some.inj hl).symm⟩
    · exact hI ri hl

theorem finish_keeps (w : World E) (fin : Finish E) {k : JobKey} (h : k ∈ w.core.running) :
    k ∈ (w.finish cfg fin).core.running := by
  let I : World E → Prop := fun w' => k ∈ w'.core.running
  refine finish_inv (I := I) (J := I) cfg (Core.mem_mapRuns.2 h) ?_ (fun _ _ _ _ h => h) fun _ h => h
  exact fun w' r _ hk => (AList.mem_insert _).2 (.inr hk)

theorem finish_hand (w : World E) (fin : Finish E) (k : JobKey) :
    (w.finish cfg fin).handling = none ∧ (w.finish cfg fin).begun k = w.begun k := by
  simp only [handling, begun, (finish_trace cfg w fin).1, foldl_append]
  exact ⟨rfl, rfl⟩

end

/-! ## The channel -/

section

variable {E : Type} {w w' : World E}

/-- at most one more event in the channel, one of `P` -/
def Adds (P : Event → Prop) (w w' : World E) : Prop := w'.events = w.events ∨ ∃ ev, P ev ∧ w'.events = w.events ++ [ev]

theorem submit_adds (w : World E) (ev : Event) : Adds (· = ev) w (w.submit ev) := by
  unfold submit
  split_ifs
  · exact .inr ⟨ev, rfl, rfl⟩
  · exact .inl rfl

theorem exec_adds {t : ℕ} {ch : Choice} {c : Cmd E} {r : c.Resp} (h : w.exec t ch c = some (r, w')) :
    Adds (fun ev => eventOf t c = some ev) w w' := by
  have hev := exec_events h
  cases hc : eventOf t c with
  | none =>
    rw [hc] at hev
    exact .inl hev
  | some ev =>
    rw [hc] at hev
    rcases submit_adds w ev with hs | ⟨ev', rfl, hs⟩
    · exact .inl (hev.trans hs)
    · exact .inr ⟨ev', rfl, hev.trans hs⟩

theorem Adds.mem {P : Event → Prop} (h : Adds P w w') {ev : Event} (hev : ev ∈ w'.events) : ev ∈ w.events ∨ P ev := by
  rcases h with h | ⟨ev', hp, h⟩
  · exact .inl (h ▸ hev)
  · rw [h] at hev
    rcases mem_append.1 hev with hev | hev
    · exact .inl hev
    · exact .inr (mem_singleton.1 hev ▸ hp)

theorem Adds.mono {P Q : Event → Prop} (h : Adds P w w') (hPQ : ∀ ev, P ev → Q ev) : Adds Q w w' :=
  h.imp_right fun ⟨ev, hp, he⟩ => ⟨ev, hPQ ev hp, he⟩

/-- an event is put behind those it may follow -/
theorem Adds.pairwise {P : Event → Prop} {R : Event → Event → Prop} (h : Adds P w w') (hw : w.events.Pairwise R)
    (hP : ∀ ev, P ev → ∀ a ∈ w.events, R a ev) : w'.events.Pairwise R := by
  rcases h with h | ⟨ev, hp, h⟩
  · rw [h]
    exact hw
  · rw [h]
    refine pairwise_append.2 ⟨hw, pairwise_singleton _ _, fun a ha b hb => ?_⟩
    rw [mem_singleton.1 hb]
    exact hP ev hp a ha

end

/-! ## Starts -/

section

variable {E : Type}

/-- no `evStarted` of `k` is in the channel, nor will one come from a run there is -/
structure NoStart (k : JobKey) (w : World E) : Prop where
  events : ∀ ev ∈ w.events, ev.startedFor k = false
  runs : ∀ i th, w.threads.lookup i = some th → th.job = k → th.role = .run → StartsOnce k true th.prog

structure Starts (k : JobKey) (w : World E) : Prop where
  /-- none behind an event of the same run -/
  order : w.events.Pairwise fun a b => a.ofRun k = true → b.startedFor k = false
  channel : ∀ ev ∈ w.events, ev.startedFor k = true → k ∈ w.core.running
  begun : w.begun k = true → k ∈ w.core.running ∧ NoStart k w
  reconnect : ∀ ri, w.core.running.lookup k = some ri → ri.reconnect = true → NoStart k w
  runs : ∀ i th, w.threads.lookup i = some th → th.job = k → th.role = .run →
    ∃ sent, StartsOnce k sent th.prog ∧ (sent = false → ∀ ev ∈ w.events, ev.startedFor k = false)

variable {k : JobKey} {w w' : World E}

theorem NoStart.frame (h : NoStart k w) (hth : w'.threads = w.threads) (hev : Adds (·.startedFor k = false) w w') :
    NoStart k w' := by
  refine ⟨fun ev hin => ?_, fun i th hl => h.runs i th (hth ▸ hl)⟩
  rcases hev.mem hin with hin | hp
  · exact h.events ev hin
  · exact hp

theorem Starts.frame (h : Starts k w) (hcore : w'.core = w.core) (hth : w'.threads = w.threads)
    (hbegun : w'.begun k = w.begun k) (hev : Adds (·.startedFor k = false) w w') : Starts k w' := by
  have hnone : (∀ ev ∈ w.events, ev.startedFor k = false) → ∀ ev ∈ w'.events, ev.startedFor k = false := by
    intro hall ev hin
    rcases hev.mem hin with hin | hp
    · exact hall ev hin
    · exact hp
  refine ⟨hev.pairwise h.order fun ev hp a _ _ => hp, fun ev hin hs => ?_, fun hb => ?_, fun ri hl hr => ?_,
    fun i th hl hjob hrole => ?_⟩
  · rw [hcore]
    rcases hev.mem hin with hin | hp
    · exact h.channel ev hin hs
    · rw [hp] at hs
      cases hs
  · rw [hbegun] at hb
    rw [hcore]
    exact ⟨(h.begun hb).1, (h.begun hb).2.frame hth hev⟩
  · rw [hcore] at hl
    exact (h.reconnect ri hl hr).frame hth hev
  · rw [hth] at hl
    obtain ⟨sent, hp, hsent⟩ := h.runs i th hl hjob hrole
    exact ⟨sent, hp, fun hf => hnone (hsent hf)⟩

variable {i : ℕ} {th : Thread E}

/-- the runs are the same after a goroutine has started that is not one -/
theorem spawn_runs (hrole : th.role ≠ .run) {th' : Thread E}
    (hl : (w.spawn th).threads.lookup i = some th') (hrun : th'.role = .run) : w.threads.lookup i = some th' := by
  simp only [spawn, lookup_insert_ite] at hl
  split_ifs at hl
  · rw [← Option.some.inj hl] at hrun
    exact absurd hrun hrole
  · exact hl

theorem NoStart.spawn (h : NoStart k w) (hrole : th.role ≠ .run) : NoStart k (w.spawn th) :=
  ⟨h.events, fun i th' hl hjob hrun => h.runs i th' (spawn_runs hrole hl hrun) hjob hrun⟩

theorem Starts.spawn (h : Starts k w) (hrole : th.role ≠ .run) : Starts k (w.spawn th) :=
  ⟨h.order, h.channel, fun hb => ⟨(h.begun hb).1, (h.begun hb).2.spawn hrole⟩,
    fun ri hl hr => (h.reconnect ri hl hr).spawn hrole,
    fun i th' hl hjob hrun => h.runs i th' (spawn_runs hrole hl hrun) hjob hrun⟩

variable [ClassAdLib E] {cfg : SchedConfig E}

/-- a live run of `k` has an entry, is the only one, and its terminal event is not in the channel -/
theorem Single.of_run (h : Single cfg w) (hl : w.threads.lookup i = some th) (hjob : th.job = k)
    (hrole : th.role = .run) :
    k ∈ w.core.running ∧ (∀ ev ∈ w.events, ev.terminalFor k = false) ∧
      ∀ j th', w.threads.lookup j = some th' → th'.job = k → th'.role = .run → j = i := by
  have herase := count_erase (fun th : Thread E => th.job = k && th.role = .run) w.threads i
  simp only [hl, Option.any_some, hjob, hrole, decide_true, Bool.and_true, if_true] at herase
  have hruns := h.runs k
  simp only [runsOf] at hruns
  refine ⟨hruns.2 (by omega), fun ev hev => ?_, fun j th' hl' hjob' hrole' => ?_⟩
  · by_contra hterm
    have hpos : 0 < w.endsOf k := countP_pos_iff.2 ⟨ev, hev, Bool.eq_true_of_not_eq_false hterm⟩
    omega
  · by_contra hne
    have herase' := count_erase (fun th : Thread E => th.job = k && th.role = .run) (w.threads.erase i) j
    simp only [lookup_erase_ite, if_neg hne, hl', Option.any_some, hjob', hrole', decide_true, Bool.and_true,
      if_true] at herase'
    omega

/-- a goroutine's command submits an `evStarted` of `k` only as the run of `k` -/
theorem Single.starts_of (h : Single cfg w) {job : JobKey} {role : Role} {c : Cmd E}
    {f : c.Resp → Go E (ℤ × List (ULog E))} (ht : w.threads.lookup i = some ⟨job, role, .call c f⟩)
    (hown : role ≠ .run → c.own job) {ev : Event} (hev : eventOf i c = some ev) (hs : ev.startedFor k = true) :
    job = k ∧ role = .run ∧ c = .submit ev := by
  cases c with
  | submit ev' =>
    obtain rfl : ev' = ev := Option.some.inj hev
    by_cases hrole : role = .run
    · subst hrole
      rcases RunConduct.command (h.threads i _ ht).1 with ⟨_, hc, hof⟩ | ⟨m, hc⟩ | hc | hc <;> cases hc
      exact ⟨Event.ofRun_inj hof (by simp [Event.ofRun, hs]), rfl, rfl⟩
    · have hdone : ev' = .evPolicyDone job := hown hrole
      rw [hdone] at hs
      cases hs
  | teardown =>
    obtain rfl := Option.some.inj hev
    cases hs
  | _ => cases hev

/-- the channel of a teardown is the number of the goroutine that submits it, which works on the job it names -/
theorem Single.channel_of (h : Single cfg w) {job : JobKey} {role : Role} {c : Cmd E}
    {f : c.Resp → Go E (ℤ × List (ULog E))} (ht : w.threads.lookup i = some ⟨job, role, .call c f⟩)
    (hown : role ≠ .run → c.own job) {ev : Event} (hev : eventOf i c = some ev) {t : ℕ} (hch : ev.channel = some t) :
    i = t ∧ ev.tearsDown job = true := by
  by_cases hrole : role = .run
  · subst hrole
    rcases RunConduct.command (h.threads i _ ht).1 with ⟨ev', rfl, _⟩ | ⟨m, rfl⟩ | rfl | rfl
    · obtain rfl := Option.some.inj hev
      cases ev' <;> simp_all [Event.channel, Event.ofRun, Event.startedFor, Event.terminalFor]
    all_goals cases hev
  · have hown' := hown hrole
    cases c with
    | submit ev' =>
      obtain rfl := Option.some.inj hev
      rw [show ev' = .evPolicyDone job from hown'] at hch
      cases hch
    | teardown =>
      obtain rfl := Option.some.inj hev
      exact ⟨Option.some.inj hch, decide_eq_true hown'⟩
    | _ => cases hev

theorem NoStart.thread (h : NoStart k w) (hsingle : Single cfg w) {ch : Choice} {job : JobKey} {role : Role}
    {c : Cmd E} {f : c.Resp → Go E (ℤ × List (ULog E))} {r : c.Resp} {w₁ : World E}
    (ht : w.threads.lookup i = some ⟨job, role, .call c f⟩) (hx : w.exec i ch c = some (r, w₁))
    (hown : role ≠ .run → c.own job) : NoStart k (w₁.resumeThread i ⟨job, role, .call c f⟩ (f r)) := by
  refine ⟨fun ev hin => ?_, fun j th hl hjob hrole => ?_⟩
  · rw [(thread_frame hx k _ _).events] at hin
    rcases (exec_adds hx).mem hin with hin | hev
    · exact h.events ev hin
    · by_contra hs
      obtain ⟨hjob, hrole, rfl⟩ := hsingle.starts_of ht hown hev (Bool.eq_true_of_not_eq_false hs)
      exact hs (((h.runs i _ ht hjob hrole).sent r).2 ev rfl)
  · rcases thread_threads hx _ _ hl with ⟨-, hold⟩ | ⟨rfl, rfl⟩
    · exact h.runs j th hold hjob hrole
    · exact ((h.runs j _ ht hjob hrole).sent r).1

/-- a goroutine's step: a run that reports its start had not done so -/
theorem Starts.thread (h : Starts k w) (hsingle : Single cfg w) {ch : Choice} {job : JobKey} {role : Role}
    {c : Cmd E} {f : c.Resp → Go E (ℤ × List (ULog E))} {r : c.Resp} {w₁ : World E}
    (ht : w.threads.lookup i = some ⟨job, role, .call c f⟩) (hx : w.exec i ch c = some (r, w₁))
    (hown : role ≠ .run → c.own job) : Starts k (w₁.resumeThread i ⟨job, role, .call c f⟩ (f r)) := by
  have hframe := thread_frame hx k ⟨job, role, .call c f⟩ (f r)
  have hadds : Adds (fun ev => eventOf i c = some ev) w (w₁.resumeThread i ⟨job, role, .call c f⟩ (f r)) := by
    unfold Adds
    rw [hframe.events]
    exact exec_adds hx
  have hbegun : w.begun k = true → k ∈ w.core.running ∧ NoStart k (w₁.resumeThread i ⟨job, role, .call c f⟩ (f r)) :=
    fun hb => ⟨(h.begun hb).1, (h.begun hb).2.thread hsingle ht hx hown⟩
  have hreconnect : ∀ ri, w.core.running.lookup k = some ri → ri.reconnect = true →
      NoStart k (w₁.resumeThread i ⟨job, role, .call c f⟩ (f r)) :=
    fun ri hl hr => (h.reconnect ri hl hr).thread hsingle ht hx hown
  by_cases hst : ∃ ev, eventOf i c = some ev ∧ ev.startedFor k = true
  · obtain ⟨ev, hev, hs⟩ := hst
    obtain ⟨rfl, rfl, rfl⟩ := hsingle.starts_of ht hown hev hs
    obtain ⟨hin, hterm, honly⟩ := hsingle.of_run ht rfl rfl
    obtain ⟨sent, hp, hnone⟩ := h.runs i _ ht rfl rfl
    have hfirst : sent = false := hp.1 hs
    subst hfirst
    have hafter : StartsOnce job true (f r) := by
      have hnext := hp.2 r trivial
      have htrue : (startProtocol E job).next false (.submit ev) r = true := by simp [startProtocol, hs]
      rwa [htrue] at hnext
    refine ⟨hadds.pairwise h.order fun ev' _ a ha hof => ?_, fun ev' hin' hs' =>
      ?_, ?_, ?_, fun j th hl hjob hrole => ?_⟩
    · simp only [Event.ofRun, hnone rfl a ha, hterm a ha, Bool.or_self] at hof
      cases hof
    · rw [hframe.core]
      exact hin
    · rw [hframe.begun, hframe.core]
      exact hbegun
    · rw [hframe.core]
      exact hreconnect
    · rcases thread_threads hx _ _ hl with ⟨hne, hold⟩ | ⟨-, rfl⟩
      · exact absurd (honly j th hold hjob hrole) hne
      · exact ⟨true, hafter, fun hf => by cases hf⟩
  · have hnot : ∀ ev, eventOf i c = some ev → ev.startedFor k = false :=
      fun ev hev => Bool.eq_false_iff.2 fun hs => hst ⟨ev, hev, hs⟩
    refine ⟨hadds.pairwise h.order fun ev hev a _ _ => hnot ev hev, fun ev hin hs =>
      ?_, ?_, ?_, fun j th hl hjob hrole => ?_⟩
    · rw [hframe.core]
      rcases hadds.mem hin with hin | hev
      · exact h.channel ev hin hs
      · rw [hnot ev hev] at hs
        cases hs
    · rw [hframe.begun, hframe.core]
      exact hbegun
    · rw [hframe.core]
      exact hreconnect
    · have hnone : (∀ ev ∈ w.events, ev.startedFor k = false) →
          ∀ ev ∈ (w₁.resumeThread i ⟨job, role, .call c f⟩ (f r)).events, ev.startedFor k = false := by
        intro hall ev hin
        rcases hadds.mem hin with hin | hev
        · exact hall ev hin
        · exact hnot ev hev
      rcases thread_threads hx _ _ hl with ⟨-, hold⟩ | ⟨rfl, rfl⟩
      · obtain ⟨sent, hp, hsent⟩ := h.runs j th hold hjob hrole
        exact ⟨sent, hp, fun hf => hnone (hsent hf)⟩
      · obtain ⟨sent, hp, hsent⟩ := h.runs j _ ht hjob hrole
        refine ⟨sent, hp.step (fun ev hc => ?_) r, fun hf => hnone (hsent hf)⟩
        exact hnot ev (by rw [hc]; rfl)

theorem begun_took (cfg : SchedConfig E) (w : World E) (ev : Event) (rest : List Event) :
    (took cfg w ev rest).begun k = (ev.startedFor k || w.begun k && !ev.terminalFor k) := begun_observe k _ _

theorem NoStart.took (h : NoStart k w) {ev : Event} {rest : List Event} (he : w.events = ev :: rest) :
    NoStart k (took cfg w ev rest) := by
  refine ⟨fun ev' hin => h.events ev' ?_, h.runs⟩
  rw [he]
  exact mem_cons_of_mem ev hin

/-- the core takes an event: an `evStarted` makes the run one that has started -/
theorem Starts.took (h : Starts k w) {ev : Event} {rest : List Event} (he : w.events = ev :: rest) :
    Starts k (World.took cfg w ev rest) := by
  have hhead : ev ∈ w.events := he ▸ mem_cons_self
  have hrest : ∀ ev' ∈ rest, ev' ∈ w.events := fun ev' hin => he ▸ mem_cons_of_mem ev hin
  have horder := h.order
  rw [he] at horder
  obtain ⟨hfirst, htail⟩ := pairwise_cons.1 horder
  have hstays : k ∈ w.core.running → ev.terminalFor k = false → k ∈ (World.took cfg w ev rest).core.running :=
    fun hin hterm => handle_keeps cfg w.core ev hin hterm
  refine ⟨htail, fun ev' hin hs => ?_, fun hb => ?_, fun ri' hl hr => ?_, fun i th hl hjob hrole => ?_⟩
  · refine hstays (h.channel ev' (hrest ev' hin) hs) (Bool.eq_false_iff.2 fun hterm => ?_)
    rw [hfirst ev' hin (Event.ofRun_of_terminalFor hterm)] at hs
    cases hs
  · rw [begun_took, Bool.or_eq_true, Bool.and_eq_true, Bool.not_eq_true'] at hb
    rcases hb with hs | ⟨hb, hterm⟩
    · have hterm : ev.terminalFor k = false := by
        cases ev <;> simp_all [Event.startedFor, Event.terminalFor]
      refine ⟨hstays (h.channel ev hhead hs) hterm, fun ev' hin => hfirst ev' hin (by simp [Event.ofRun, hs]),
        fun i th hl hjob hrole => ?_⟩
      obtain ⟨sent, hp, hsent⟩ := h.runs i th hl hjob hrole
      cases sent with
      | true => exact hp
      | false =>
        rw [hsent rfl ev hhead] at hs
        cases hs
    · exact ⟨hstays (h.begun hb).1 hterm, (h.begun hb).2.took he⟩
  · obtain ⟨ri, hl₀, hremains⟩ := handle_entry cfg w.core ev hl
    exact (h.reconnect ri hl₀ (hremains.reconnect ▸ hr)).took he
  · obtain ⟨sent, hp, hsent⟩ := h.runs i th hl hjob hrole
    exact ⟨sent, hp, fun hf ev' hin => hsent hf ev' (hrest ev' hin)⟩

theorem NoStart.finish (h : NoStart k w) {fin : Finish E} (hruns : ∀ r ∈ fin.runs, r.key ≠ k) :
    NoStart k (w.finish cfg fin) := by
  refine ⟨by rw [(finish_frame cfg w fin).2.2.2.2]; exact h.events, fun i th hl hjob hrole => ?_⟩
  rcases (finish_threads cfg w fin).2 i th hl with hold | ⟨-, -, ⟨r, hr, rfl⟩ | ⟨k', req, q, -, rfl⟩⟩
  · exact h.runs i th hold hjob hrole
  · exact absurd hjob (hruns r hr)
  · cases hrole

/-- without an entry nothing is outstanding -/
theorem Starts.noStart (h : Starts k w) (hsingle : Single cfg w) (hk : k ∉ w.core.running) : NoStart k w := by
  refine ⟨fun ev hin => Bool.eq_false_iff.2 fun hs => hk (h.channel ev hin hs), fun i th hl hjob hrole => ?_⟩
  exact absurd (hsingle.of_run hl hjob hrole).1 hk

/-- the end of a handler: a run starts only where there was none -/
theorem Starts.finish (h : Starts k w) (hsingle : Single cfg w) {fin : Finish E}
    (hfresh : Sched.FreshRuns cfg w.core fin.runs) (hnew : Sched.StartsNew w.core fin) :
    Starts k (w.finish cfg fin) := by
  obtain ⟨-, hbegun⟩ := finish_hand cfg w fin k
  have hevents := (finish_frame cfg w fin).2.2.2.2
  have hother : k ∈ w.core.running → ∀ r ∈ fin.runs, r.key ≠ k := fun hk r hr he => (hnew r hr).key (he ▸ hk)
  refine ⟨by rw [hevents]; exact h.order, fun ev hin hs => ?_, fun hb => ?_, fun ri hl hr => ?_,
    fun i th hl hjob hrole => ?_⟩
  · rw [hevents] at hin
    exact finish_keeps cfg w fin (h.channel ev hin hs)
  · rw [hbegun] at hb
    exact ⟨finish_keeps cfg w fin (h.begun hb).1, (h.begun hb).2.finish (hother (h.begun hb).1)⟩
  · rcases finish_entries cfg w fin hl with ⟨ri₀, hl₀, hri⟩ | ⟨r, hin, hkey, rfl⟩
    · have hr₀ : ri₀.reconnect = true := by
        rcases hri with rfl | rfl
        · exact hr
        · exact hr
      exact (h.reconnect ri₀ hl₀ hr₀).finish (hother ((mem_iff_lookup _ _).2 ⟨ri₀, hl₀⟩))
    · have hk : k ∉ w.core.running := hkey ▸ (hnew r hin).key
      have hnone := h.noStart hsingle hk
      refine ⟨by rw [hevents]; exact hnone.events, fun i th hl' hjob hrole => ?_⟩
      rcases (finish_threads cfg w fin).2 i th hl' with hold | ⟨-, -, ⟨r', hin', rfl⟩ | ⟨k', req, q, -, rfl⟩⟩
      · exact hnone.runs i th hold hjob hrole
      · obtain rfl : r' = r := inj_on_of_nodup_map hfresh.1 hin' hin (hjob.trans hkey.symm)
        exact hkey ▸ (hnew r' hin').reconnect hr
      · cases hrole
  · rw [hevents]
    rcases (finish_threads cfg w fin).2 i th hl with hold | ⟨-, -, ⟨r, hin, rfl⟩ | ⟨k', req, q, -, rfl⟩⟩
    · exact h.runs i th hold hjob hrole
    · obtain rfl : r.key = k := hjob
      exact ⟨false, IsRun.startsOnce (hfresh.2 r hin).2, fun _ => (h.noStart hsingle (hnew r hin).key).events⟩
    · cases hrole

end

end World

/-! ## Channels -/

namespace Sched

section

variable {E : Type} [ClassAdLib E]

open Prog

/-- a handler closes channels it was given; one of a teardown of `k` only when `k` has no entry -/
theorem handle_closable (cfg : SchedConfig E) {core : Core} {ev : Event} {k : JobKey} {P Q : ℕ → Prop}
    (hev : ∀ t, ev.channel = some t → Q t ∧ (ev.tearsDown k = true ∨ P t))
    (hwait : ∀ k' ri, core.running.lookup k' = some ri → ∀ t ∈ ri.waiters, Q t ∧ (k' = k ∨ P t))
    (hdrain : ∀ t, core.drainDone = some t → Q t ∧ P t) :
    Results (fun fin : Finish E => (∀ t ∈ fin.close, Q t) ∧
      ((∀ t ∈ fin.close, P t) ∨ k ∉ (handle cfg core ev).1.running ∧ fin.runs = [])) (handle cfg core ev).2 := by
  cases hrec : ev.recovers with
  | true =>
    cases ev with
    | evRecover done =>
      have hdone : ∀ t ∈ done.toList, Q t ∧ P t := by
        intro t ht
        obtain ⟨hq, hp⟩ := hev t (Option.mem_toList.1 ht)
        exact ⟨hq, hp.resolve_left fun h => by cases h⟩
      have hall : (∀ t ∈ done.toList, Q t) ∧ ∀ t ∈ done.toList, P t :=
        ⟨fun t ht => (hdone t ht).1, fun t ht => (hdone t ht).2⟩
      simp only [handle, handleRecover]
      split_ifs
      · exact ⟨hall.1, .inl hall.2⟩
      · exact results_bind _ fun _ => results_bind _ fun _ => results_bind _ fun _ => ⟨hall.1, .inl hall.2⟩
    | _ => cases hrec
  | false =>
    refine (handle_finish cfg core ev hrec).mono fun fin hfin => ?_
    have hafter := (handle_registry cfg core ev).1 k
    cases hfin with
    | starts m r hm hk hruns hkey hprog hinfo hclose =>
      rw [hclose]
      exact ⟨fun t ht => absurd ht not_mem_nil, .inl fun t ht => absurd ht not_mem_nil⟩
    | closes hruns hcloses =>
      have hboth : ∀ t ∈ fin.close, Q t ∧ (k ∈ (handle cfg core ev).1.running → P t) := by
        intro t ht
        cases hcloses t ht with
        | noEntry k' t hout =>
          obtain ⟨hq, hp⟩ := hev t rfl
          refine ⟨hq, fun hin => hp.resolve_left fun htear => hout ?_⟩
          obtain rfl : k' = k := of_decide_eq_true htear
          exact (hafter hin).1
        | reaped ev k' ri t hterm hl hw =>
          obtain ⟨hq, hp⟩ := hwait k' ri hl t hw
          refine ⟨hq, fun hin => hp.resolve_left fun he => ?_⟩
          rw [he, (hafter hin).2] at hterm
          cases hterm
        | drained t =>
          obtain ⟨hq, hp⟩ := hev t rfl
          exact ⟨hq, fun _ => hp.resolve_left fun h => by cases h⟩
        | drainEnds ev t hd => exact ⟨(hdrain t hd).1, fun _ => (hdrain t hd).2⟩
      refine ⟨fun t ht => (hboth t ht).1, ?_⟩
      by_cases hin : k ∈ (handle cfg core ev).1.running
      · exact .inl fun t ht => (hboth t ht).2 hin
      · exact .inr ⟨hin, hruns⟩

end

end Sched

namespace World

section

variable {E : Type}

/-- `t` is a number given out, and, unless it is `own`, not that of a goroutine that works on `k` -/
def Assigned (k : JobKey) (w : World E) (own : Prop) (t : ℕ) : Prop :=
  t < w.nextTid ∧ (¬ own → ∀ th, w.threads.lookup t = some th → th.job ≠ k)

/-- a channel of an action on `k` is closed only when `k` has no entry -/
def Closable (k : JobKey) (w : World E) (fin : Finish E) : Prop :=
  (∀ t ∈ fin.close, t < w.nextTid) ∧ ((∀ t ∈ fin.close, Assigned k w False t) ∨ k ∉ w.core.running ∧ fin.runs = [])

structure Numbered (k : JobKey) (w : World E) : Prop where
  /-- number 0 is the core's -/
  zero : w.threads.lookup 0 = none ∧ 0 < w.nextTid
  events : ∀ ev ∈ w.events, ∀ t, ev.channel = some t → Assigned k w (ev.tearsDown k = true) t
  waiters : ∀ k' ri, w.core.running.lookup k' = some ri → ∀ t ∈ ri.waiters, Assigned k w (k' = k) t
  drain : ∀ t, w.core.drainDone = some t → Assigned k w False t
  closed : ∀ t ∈ w.closed, t < w.nextTid
  busy : ∀ p, w.busy = some p → Prog.Results (Closable k w) p

variable {k : JobKey} {w w' : World E}

theorem Assigned.grow {own : Prop} {t : ℕ} (h : Assigned k w own t) (hg : Grows w w') : Assigned k w' own t := by
  refine ⟨lt_of_lt_of_le h.1 hg.tid, fun hown th' hl => ?_⟩
  obtain ⟨th, hl₀, hjob⟩ := hg.jobs t h.1 th' hl
  rw [← hjob]
  exact h.2 hown th hl₀

theorem Closable.grow {fin : Finish E} (h : Closable k w fin) (hg : Grows w w') (hcore : w'.core = w.core) :
    Closable k w' fin := by
  refine ⟨fun t ht => lt_of_lt_of_le (h.1 t ht) hg.tid, ?_⟩
  rw [hcore]
  exact h.2.imp_left fun hall t ht => (hall t ht).grow hg

theorem Numbered.grow (h : Numbered k w) (hg : Grows w w') (hcore : w'.core = w.core) (hbusy : w'.busy = w.busy)
    (hclosed : w'.closed = w.closed)
    (hev : Adds (fun ev => ∀ t, ev.channel = some t → Assigned k w' (ev.tearsDown k = true) t) w w') :
    Numbered k w' where
  zero := by
    refine ⟨Option.eq_none_iff_forall_ne_some.2 fun th' hl => ?_, lt_of_lt_of_le h.zero.2 hg.tid⟩
    obtain ⟨_, hl₀, -⟩ := hg.jobs 0 h.zero.2 th' hl
    rw [h.zero.1] at hl₀
    cases hl₀
  events := by
    intro ev hin t ht
    rcases hev.mem hin with hin | hnew
    · exact (h.events ev hin t ht).grow hg
    · exact hnew t ht
  waiters := fun k' ri hl t ht => (h.waiters k' ri (hcore ▸ hl) t ht).grow hg
  drain := fun t ht => (h.drain t (hcore ▸ ht)).grow hg
  closed := fun t ht => lt_of_lt_of_le (h.closed t (hclosed ▸ ht)) hg.tid
  busy := fun p hp => (h.busy p (hbusy ▸ hp)).mono fun _ hfin => hfin.grow hg hcore

variable [ClassAdLib E] {cfg : SchedConfig E}

theorem Numbered.took (h : Numbered k w) (cfg : SchedConfig E) (hb : w.busy = none) {ev : Event} {rest : List Event}
    (he : w.events = ev :: rest) :
    Numbered k (World.took cfg w ev rest) ∧
      Prog.Results (Closable k (World.took cfg w ev rest)) (Sched.handle cfg w.core ev).2 := by
  have hhead : ∀ t, ev.channel = some t → Assigned k w (ev.tearsDown k = true) t :=
    h.events ev (he ▸ mem_cons_self)
  refine ⟨⟨h.zero, fun ev' hin => h.events ev' (he ▸ mem_cons_of_mem ev hin), fun k' ri' hl t ht => ?_,
    fun t ht => ?_, h.closed, fun p hp => ?_⟩, ?_⟩
  · obtain ⟨ri, hl₀, hremains⟩ := handle_entry cfg w.core ev hl
    rcases hremains.waiters t ht with hold | rfl
    · exact h.waiters k' ri hl₀ t hold
    · obtain ⟨hlt, hjob⟩ := hhead t rfl
      exact ⟨hlt, fun hne => hjob fun htear => hne (of_decide_eq_true htear)⟩
  · rcases handle_drainDone cfg w.core ev ht with hold | rfl
    · exact h.drain t hold
    · obtain ⟨hlt, hjob⟩ := hhead t rfl
      exact ⟨hlt, fun _ => hjob fun htear => (nomatch htear)⟩
  · have hnone : (none : Option (Go E (Finish E))) = some p := hb ▸ hp
    cases hnone
  · refine handle_closable (k := k) (P := Assigned k (World.took cfg w ev rest) False) (Q := (· < w.nextTid)) cfg
      (fun t ht => ⟨(hhead t ht).1, ?_⟩) (fun k' ri hl t ht => ⟨(h.waiters k' ri hl t ht).1, ?_⟩)
      fun t ht => ⟨(h.drain t ht).1, h.drain t ht⟩
    · by_cases htear : ev.tearsDown k = true
      · exact .inl htear
      · exact .inr ⟨(hhead t ht).1, fun _ => (hhead t ht).2 htear⟩
    · by_cases hk : k' = k
      · exact .inl hk
      · exact .inr ⟨(h.waiters k' ri hl t ht).1, fun _ => (h.waiters k' ri hl t ht).2 hk⟩

theorem Numbered.finish (h : Numbered k w) {fin : Finish E} (hfin : Closable k w fin)
    (hnew : Sched.StartsNew w.core fin) :
    Numbered k (w.finish cfg fin) := by
  have hg := finish_grows cfg w fin
  obtain ⟨-, hb, -, hclosed, hevents⟩ := finish_frame cfg w fin
  refine ⟨⟨Option.eq_none_iff_forall_ne_some.2 fun th' hl => ?_, lt_of_lt_of_le h.zero.2 hg.tid⟩, fun ev hin t ht => ?_,
    fun k' ri hl t ht => ?_, fun t ht => ?_, fun t ht => ?_, fun p hp => ?_⟩
  · obtain ⟨_, hl₀, -⟩ := hg.jobs 0 h.zero.2 th' hl
    rw [h.zero.1] at hl₀
    cases hl₀
  · rw [hevents] at hin
    exact (h.events ev hin t ht).grow hg
  · rcases finish_entries cfg w fin hl with ⟨ri₀, hl₀, rfl | rfl⟩ | ⟨r, hr, -, rfl⟩
    · exact (h.waiters k' ri hl₀ t ht).grow hg
    · exact (h.waiters k' ri₀ hl₀ t ht).grow hg
    · rw [(hnew r hr).waiters] at ht
      cases ht
  · rw [(finish_trace cfg w fin).2] at ht
    exact (h.drain t ht).grow hg
  · rw [hclosed] at ht
    rcases mem_append.1 ht with ht | ht
    · exact lt_of_lt_of_le (hfin.1 t ht) hg.tid
    · exact lt_of_lt_of_le (h.closed t ht) hg.tid
  · rw [hb] at hp
    cases hp

variable {p : Go E (Finish E)}

theorem Numbered.resume (h : Numbered k w) (hp : Prog.Results (Closable k w) p)
    (hnew : Prog.Results (Sched.StartsNew w.core) p) : Numbered k (w.resume cfg p) := by
  cases p with
  | ret => exact h.finish hp hnew
  | call =>
    exact ⟨h.zero, h.events, h.waiters, h.drain, h.closed, fun p' hp' => Option.some.inj hp' ▸ hp⟩

theorem Starts.resume (h : Starts k w) (hsingle : Single cfg w)
    (hfresh : Orderly (fun fin : Finish E => Sched.FreshRuns cfg w.core fin.runs) p)
    (hnew : Prog.Results (Sched.StartsNew w.core) p) : Starts k (w.resume cfg p) := by
  cases p with
  | ret => exact h.finish hsingle hfresh hnew
  | call => exact h.frame rfl rfl rfl (.inl rfl)

/-! ## Executions -/

theorem Single.took (h : Single cfg w) (hb : w.busy = none) {ev : Event} {rest : List Event}
    (he : w.events = ev :: rest) :
    Single cfg (World.took cfg w ev rest) ∧
      Orderly (fun fin : Finish E => Sched.FreshRuns cfg (World.took cfg w ev rest).core fin.runs)
        (Sched.handle cfg w.core ev).2 := by
  refine ⟨h.take hb he, Prog.wp_mono (fun _ fin hfin => ⟨hfin.1, fun r hr => ⟨fun hk => ?_, (hfin.2 r hr).2⟩⟩)
    (handle_orderly cfg w.core ev)⟩
  exact (hfin.2 r hr).1 ((handle_registry cfg w.core ev).1 r.key hk).1

/-- what every execution keeps -/
structure Tracked (cfg : SchedConfig E) (k : JobKey) (w : World E) : Prop where
  single : Single cfg w
  news : w.NewRuns
  meek : ∀ p, w.busy = some p → Prog.Calls Meek p
  own : ∀ i th, w.threads.lookup i = some th → th.role ≠ .run → Prog.Calls (Cmd.own th.job) th.prog
  starts : Starts k w
  numbered : Numbered k w

theorem start_tracked (cfg : SchedConfig E) (k : JobKey) {q : Queue E} (hq : q.coll.Keyed) :
    Tracked cfg k (start q) where
  single := start_single cfg hq
  news := fun p hp => (nomatch hp)
  meek := fun p hp => (nomatch hp)
  own := fun i th hl => by simp [start] at hl
  starts := ⟨List.Pairwise.nil, fun ev hin => absurd hin not_mem_nil, fun hb => (nomatch hb),
    fun ri hl => by simp [start, Core.init] at hl, fun i th hl => by simp [start] at hl⟩
  numbered := ⟨⟨rfl, Nat.one_pos⟩, fun ev hin =>
    absurd hin not_mem_nil, fun k' ri hl => by simp [start, Core.init] at hl,
    fun t ht => (nomatch ht), fun t ht => absurd ht not_mem_nil, fun p hp => (nomatch hp)⟩

omit [ClassAdLib E] in
/-- the core has only policy removals to submit -/
theorem meek_event {c : Cmd E} (h : Meek c) {ev : Event} (hev : eventOf 0 c = some ev) :
    ∃ k reason, ev = .evPolicyRemove k reason := by
  cases c with
  | submit =>
    obtain rfl := Option.some.inj hev
    exact h
  | teardown => exact absurd h id
  | _ => cases hev

theorem resume_meek (hp : Prog.Calls Meek p) : ∀ p', (w.resume cfg p).busy = some p' → Prog.Calls Meek p' := by
  intro p' hb
  cases p with
  | ret fin =>
    rw [resume, (finish_frame cfg w fin).2.1] at hb
    cases hb
  | call => exact Option.some.inj hb ▸ hp

theorem resume_own (hhook : cfg.hook = true)
    (h : ∀ i th, w.threads.lookup i = some th → th.role ≠ .run →
      Prog.Calls (Cmd.own th.job) th.prog) (p : Go E (Finish E)) :
    ∀ i th, (w.resume cfg p).threads.lookup i = some th → th.role ≠ .run → Prog.Calls (Cmd.own th.job) th.prog := by
  intro i th hl hrole
  cases p with
  | ret fin =>
    rcases (finish_threads cfg w fin).2 i th hl with hold | ⟨-, -, ⟨r, -, rfl⟩ | ⟨k', req, q, -, rfl⟩⟩
    · exact h i th hold hrole
    · exact absurd rfl hrole
    · have hconduct := applyAction_conduct (α := ℤ × List (ULog E)) q k' req
        (f := fun r => (Go.submit (.evPolicyDone k')).bind fun _ => .ret r) fun r st => ⟨rfl, fun _ _ => trivial⟩
      rw [← hhook] at hconduct
      exact hconduct.calls_own
  | call => exact h i th hl hrole

/-- **One step.** -/
theorem Tracked.step (h : Tracked cfg k w) (hhook : cfg.hook = true) (s : Step) : Tracked cfg k (step cfg w s) := by
  have hsingle : Single cfg (World.step cfg w s) := act_single (a := .sched s) trivial h.single
  have hnews := step_newRuns cfg s h.news
  have hmove := step_move cfg w s
  revert hsingle hnews
  generalize World.step cfg w s = w' at hmove
  intro hsingle hnews
  cases hmove with
  | idle => exact h
  | tool k' req =>
    refine ⟨hsingle, hnews, h.meek, fun i th hl hrole => ?_, ?_, ?_⟩
    · simp only [spawn, lookup_insert_ite] at hl
      split_ifs at hl
      · obtain rfl := Option.some.inj hl
        rw [hhook]
        exact (tool_conduct w.q k' req).calls_own
      · exact h.own i th hl hrole
    · exact h.starts.spawn (by simp)
    · exact h.numbered.grow (Grows.spawn w _) rfl rfl rfl (.inl rfl)
  | call _ ev n os hev hn hch hos =>
    obtain ⟨hcore, hth, hbusy, hclosed, -⟩ := submit_frame w ev
    have hbegun : (w.trace ++ os).foldl (Obs.begins k) false = w.begun k := by
      rw [foldl_append]
      rcases hos with rfl | ⟨m, -, rfl⟩ <;> rfl
    have hadds : Adds (· = ev) w { w.submit ev with nextTid := n, trace := w.trace ++ os } := submit_adds w ev
    refine ⟨hsingle, hnews, by simp only [hbusy]; exact h.meek, by simp only [hth]; exact h.own, ?_, ?_⟩
    · refine h.starts.frame hcore hth hbegun (hadds.mono fun ev' he => ?_)
      subst he
      cases s <;> simp only [callEvent, reduceCtorEq, Option.some.injEq] at hev <;> subst hev <;> rfl
    · refine h.numbered.grow (Grows.of_threads hth hn) hcore hbusy hclosed (hadds.mono fun ev' he t ht => ?_)
      subst he
      obtain ⟨rfl, hlt⟩ := hch t ht
      refine ⟨hlt, fun _ th hl => ?_⟩
      simp only [hth] at hl
      exact absurd (h.single.threads _ _ hl).2 (lt_irrefl _)
  | take ev rest hb he =>
    obtain ⟨htook, hfresh⟩ := h.single.took hb he
    obtain ⟨hnum, hclose⟩ := h.numbered.took cfg hb he
    have hnew := handle_starts cfg w.core ev
    exact ⟨hsingle, hnews, resume_meek (handle_meek cfg w.core ev),
      resume_own (w := took cfg w ev rest) hhook h.own _, (h.starts.took he).resume htook hfresh hnew,
      hnum.resume hclose hnew⟩
  | sweep =>
    have hnew : Prog.Results (Sched.StartsNew w.core) (sweepExpired cfg w.core).2 :=
      (sweepExpired_finish cfg w.core).mono fun fin hfin => startsNew_nil hfin.1
    have hclose : Prog.Results (Closable k w) (sweepExpired cfg w.core).2 := by
      refine (sweepExpired_finish cfg w.core).mono fun fin hfin => ?_
      unfold Closable
      rw [hfin.2]
      exact ⟨fun t ht => absurd ht not_mem_nil, .inl fun t ht => absurd ht not_mem_nil⟩
    exact ⟨hsingle, hnews, resume_meek (sweepExpired_meek cfg w.core), resume_own hhook h.own _,
      h.starts.resume h.single (sweepExpired_orderly cfg w.core) hnew, h.numbered.resume hclose hnew⟩
  | core ch c f r w₁ hb hx =>
    obtain ⟨hcore, hthreads, htid, hbusy, hclosed⟩ := exec_frame hx
    obtain ⟨h₁, hfresh⟩ := h.single.exec hb hx
    obtain ⟨hmeek, hgo⟩ := h.meek _ hb
    have hnew : Prog.Results (Sched.StartsNew w₁.core) (f r) := hcore ▸ h.news _ hb r
    have hg : Grows w w₁ := Grows.of_threads hthreads htid.ge
    have hstarts : Starts k w₁ := by
      refine h.starts.frame hcore hthreads (exec_hand hx).2 ((exec_adds hx).mono fun ev hev => ?_)
      obtain ⟨k', reason, rfl⟩ := meek_event hmeek hev
      rfl
    have hnum : Numbered k w₁ := by
      refine h.numbered.grow hg hcore hbusy hclosed ((exec_adds hx).mono fun ev hev t ht => ?_)
      obtain ⟨_, _, rfl⟩ := meek_event hmeek hev
      cases ht
    have hclose : Prog.Results (Closable k w₁) (f r) :=
      Prog.Results.mono (fun _ hfin => hfin.grow hg hcore) (h.numbered.busy _ hb r)
    exact ⟨hsingle, hnews, resume_meek (hgo r), resume_own hhook (hthreads ▸ h.own) _, hstarts.resume h₁ hfresh hnew,
      hnum.resume hclose hnew⟩
  | thread i ch job role c f r w₁ ht hx =>
    have hframe := thread_frame hx k ⟨job, role, .call c f⟩ (f r)
    have hown : role ≠ .run → c.own job := fun hrole => (h.own i _ ht hrole).1
    refine ⟨hsingle, hnews,
      by rw [hframe.busy]; exact h.meek, fun j th hl hrole => ?_, h.starts.thread h.single ht hx hown, ?_⟩
    · rcases thread_threads hx _ _ hl with ⟨-, hold⟩ | ⟨rfl, rfl⟩
      · exact h.own j th hold hrole
      · exact (h.own j _ ht hrole).2 r
    · have hadds : Adds (fun ev => eventOf i c = some ev) w (w₁.resumeThread i ⟨job, role, .call c f⟩ (f r)) := by
        unfold Adds
        rw [hframe.events]
        exact exec_adds hx
      refine h.numbered.grow (Grows.thread hx ht) hframe.core hframe.busy hframe.closed
        (hadds.mono fun ev hev t hch => ?_)
      obtain ⟨rfl, htear⟩ := h.single.channel_of ht hown hev hch
      refine ⟨hframe.tid ▸ (h.single.threads i _ ht).2, fun hne th hl hjob => hne ?_⟩
      rcases thread_threads hx _ _ hl with ⟨hself, -⟩ | ⟨-, rfl⟩
      · exact absurd rfl hself
      · rw [← hjob]
        exact htear

end

end World

end AccessPoint

/-
The completion channels of the core (internal/sched/sched.go, `handleTeardown`, `handleDrain`, `maybeFinishDrain`,
`reapWaiters`).

A call that waits for the core hands it a channel in an event: a teardown, a drain, a recovery. The core closes it at
once, or keeps it with the run it is to be told about, or as the channel of the drain, and closes it from the handler
that ends the run or the last of the runs. Closing a channel twice would panic the core. Here the core handles any
sequence of events and sweeps, whether or not such events can arise, and whatever its handlers read in the store; only
the channels are assumed to be distinct.

- `handle_closes`: the channels a handler closes.
- `Kept`: the invariant: every channel the core keeps belongs to one event and is not closed yet.
- `channels_closed_once`: no channel is closed twice, none of a teardown while the job has an entry, none of a drain
  while the registry has one.
-/
import AccessPoint.Queue.ReadModifyWrite
import AccessPoint.Sched.Abandoned

namespace AccessPoint

open ClassAdLib List Sched

variable {E : Type}

/-! ## The core by itself -/

/-- the core when a handler has ended -/
def Core.after (core : Core) (fin : Finish E) : Core :=
  let core := core.mapRuns fun k ri => if k ∈ fin.vacate then Sched.vacateRun ri else ri
  let core := fin.runs.foldl (fun core r => core.add r.key r.info) core
  match fin.policy with
  | some (k, _) => { core with policyPending := k :: core.policyPending }
  | none => core

/-- what the core handles: an event, or a tick of the sweep -/
inductive Input where
  | event (ev : Event)
  | sweep
deriving DecidableEq

def Input.channel : Input → Option ℕ
  | .event ev => ev.channel
  | .sweep => none

section

variable [ClassAdLib E]

def Input.handled (cfg : SchedConfig E) (core : Core) : Input → Sched.Handler E
  | .event ev => Sched.handle cfg core ev
  | .sweep => Sched.sweepExpired cfg core

/-- the core after the given inputs, and the channels it has closed, each with the core at that moment -/
inductive CoreRun (cfg : SchedConfig E) : List Input → Core → List (ℕ × Core) → Prop where
  | start : CoreRun cfg [] .init []
  | handle {ins : List Input} {core : Core} {closed : List (ℕ × Core)} (h : CoreRun cfg ins core closed) (i : Input)
      (fin : Finish E) (hfin : Prog.Yields (i.handled cfg core).2 fin) :
      CoreRun cfg (ins ++ [i]) ((i.handled cfg core).1.after fin)
        (closed ++ fin.close.map fun n => (n, (i.handled cfg core).1.after fin))

end

namespace Core

variable {core : Core} {fin : Finish E}

theorem after_drainDone (core : Core) (fin : Finish E) : (core.after fin).drainDone = core.drainDone := by
  have hruns : ∀ (rs : List (NewRun E)) (core : Core),
      (rs.foldl (fun core r => core.add r.key r.info) core).drainDone = core.drainDone := by
    intro rs
    induction rs with
    | nil => exact fun _ => rfl
    | cons r rs ih => exact fun core => ih (core.add r.key r.info)
  unfold after
  cases fin.policy <;> exact hruns _ _

variable {k : JobKey}

/-- an entry at the end of a handler: one that was there, with its waiters, or that of a run which starts -/
theorem lookup_after {ri : RunInfo} (h : (core.after fin).running.lookup k = some ri) :
    (∃ ri₀, core.running.lookup k = some ri₀ ∧ ri.waiters = ri₀.waiters) ∨ ∃ r ∈ fin.runs, r.key = k ∧ ri = r.info := by
  have hruns : ∀ (rs : List (NewRun E)) (core : Core),
      (rs.foldl (fun core r => core.add r.key r.info) core).running.lookup k = some ri →
        core.running.lookup k = some ri ∨ ∃ r ∈ rs, r.key = k ∧ ri = r.info := by
    intro rs
    induction rs with
    | nil => exact fun _ hl => .inl hl
    | cons r rs ih =>
      intro core hl
      rcases ih (core.add r.key r.info) hl with hl | ⟨r', hr', he⟩
      · simp only [add, KeyMap.lookup_insert_ite] at hl
        split_ifs at hl with hk
        · exact .inr ⟨r, mem_cons_self, hk.symm, (Option.some.inj hl).symm⟩
        · exact .inl hl
      · exact .inr ⟨r', mem_cons_of_mem r hr', he⟩
  have hl : (fin.runs.foldl (fun core r => core.add r.key r.info)
      (core.mapRuns fun k ri => if k ∈ fin.vacate then vacateRun ri else ri)).running.lookup k = some ri := by
    unfold after at h
    cases hp : fin.policy <;> simpa [hp] using h
  rcases hruns _ _ hl with hl | hnew
  · rw [lookup_mapRuns] at hl
    obtain ⟨ri₀, hl₀, rfl⟩ := Option.map_eq_some_iff.1 hl
    refine .inl ⟨ri₀, hl₀, ?_⟩
    split_ifs <;> rfl
  · exact .inr hnew

theorem mem_after_or (h : k ∈ (core.after fin).running) : k ∈ core.running ∨ ∃ r ∈ fin.runs, r.key = k := by
  obtain ⟨_, hl⟩ := (KeyMap.mem_iff_lookup _ _).1 h
  rcases lookup_after hl with ⟨ri₀, hl₀, -⟩ | ⟨r, hr, hkey, -⟩
  · exact .inl ((KeyMap.mem_iff_lookup _ _).2 ⟨ri₀, hl₀⟩)
  · exact .inr ⟨r, hr, hkey⟩

theorem mem_after (hruns : fin.runs = []) (h : k ∈ (core.after fin).running) : k ∈ core.running := by
  rcases mem_after_or h with hk | ⟨r, hr, -⟩
  · exact hk
  · rw [hruns] at hr
    cases hr

end Core

/-! ## What a handler closes and what it keeps -/

namespace Sched

open Prog

variable [ClassAdLib E]

/-- the channels closed by the handler of an event -/
def closes (core : Core) : Event → List ℕ
  | .evExited k _ _ => (reap core k).2
  | .evFailed k _ _ _ _ => (reap core k).2
  | .evReconnectFailed k _ _ => (reap core k).2
  | .evTeardown k done => if k ∈ core.running then [] else done.toList
  | .evDrain done => if core.running.keys = [] then [done] else []
  | .evRecover done => done.toList
  | _ => []

theorem handle_closes (cfg : SchedConfig E) (core : Core) (ev : Event) :
    Results (fun fin : Finish E => fin.close = closes core ev) (handle cfg core ev).2 := by
  cases ev with
  | evMatch =>
    simp only [handle, handleMatch]
    split_ifs
    · rfl
    · refine results_bind _ fun status => ?_
      split_ifs
      · rfl
      · refine results_bind _ fun job => ?_
        cases job <;> rfl
  | evStarted =>
    refine results_bind _ fun now => results_bind _ fun ok => ?_
    split_ifs
    · rfl
    · exact results_bind _ fun _ => rfl
  | evExited k res =>
    simp only [handle, handleExited]
    split_ifs
    · rfl
    · cases res <;> exact results_bind _ fun _ => rfl
  | evFailed =>
    simp only [handle, handleFailed]
    split_ifs
    · rfl
    · exact results_bind _ fun _ => rfl
  | evReconnectFailed =>
    simp only [handle, handleReconnectFailed]
    split_ifs
    · rfl
    · exact results_bind _ fun _ => results_bind _ fun _ => rfl
  | evTeardown =>
    simp only [handle, handleTeardown, closes]
    split_ifs <;> rfl
  | evDrain =>
    simp only [handle, handleDrain, closes]
    split_ifs
    · rfl
    · exact results_bind _ fun _ => rfl
    · rfl
  | evRecover =>
    simp only [handle, handleRecover]
    split_ifs
    · rfl
    · exact results_bind _ fun _ => results_bind _ fun _ => results_bind _ fun _ => rfl
  | evPolicyRemove | evPolicyHold | evPolicyRelease =>
    simp only [handle, handlePolicyAction]
    split_ifs
    · rfl
    · refine results_bind _ fun status => ?_
      split_ifs <;> rfl
  | evReschedule | evPolicyDone => rfl

omit [ClassAdLib E] in
/-- a channel closed for a run that ended: a waiter of the run, or the drain's, and then nothing runs -/
theorem mem_reap_closes {core : Core} {k : JobKey} {n : ℕ} (h : n ∈ (reap core k).2) :
    (∃ ri, core.running.lookup k = some ri ∧ n ∈ ri.waiters) ∨
      core.drainDone = some n ∧ (reap core k).1.drainDone = none ∧ (reap core k).1.running.keys = [] := by
  rcases mem_append.1 h with h | h
  · right
    unfold reap
    unfold Core.maybeFinishDrain at h ⊢
    rw [drop_drainDone] at h ⊢
    cases hd : core.drainDone with
    | none => simp [hd] at h
    | some =>
      simp only [hd] at h ⊢
      split_ifs at h ⊢ with hend
      · exact ⟨by rw [mem_singleton.1 h], rfl, hend.2⟩
      · cases h
  · left
    cases hl : core.running.lookup k with
    | none => rw [hl] at h; cases h
    | some ri => rw [hl] at h; exact ⟨ri, rfl, h⟩

omit [ClassAdLib E] in
theorem reap_closes_nodup {core : Core} {k : JobKey} (hw : ∀ ri, core.running.lookup k = some ri → ri.waiters.Nodup)
    (hd : ∀ ri n, core.running.lookup k = some ri → core.drainDone = some n → n ∉ ri.waiters) :
    (reap core k).2.Nodup := by
  have hdrain : (core.drop k).maybeFinishDrain.2.Nodup := by
    unfold Core.maybeFinishDrain
    split
    · split_ifs
      · exact nodup_singleton _
      · exact nodup_nil
    · exact nodup_nil
  have hchannel := (maybeFinishDrain_channel (core.drop k)).2
  rw [drop_drainDone] at hchannel
  unfold reap
  cases hl : core.running.lookup k with
  | none => simpa using hdrain
  | some ri => exact nodup_append.2 ⟨hdrain, hw ri hl, fun n hn m hm he => hd ri n hl (hchannel n hn) (he ▸ hm)⟩

end Sched

/-- the waiter an event adds to the entry of `k` -/
def Event.waiterOf (k : JobKey) : Event → List ℕ
  | .evTeardown k' done => if k' = k then done.toList else []
  | _ => []

namespace Sched

variable [ClassAdLib E]

/-- the waiters of an entry once an event is taken -/
theorem handle_waiters (cfg : SchedConfig E) (core : Core) (ev : Event) {k : JobKey} {ri' : RunInfo}
    (h : (handle cfg core ev).1.running.lookup k = some ri') :
    ∃ ri, core.running.lookup k = some ri ∧ ri'.waiters = ri.waiters ++ ev.waiterOf k := by
  obtain ⟨ri, hl, rfl⟩ := lookup_handle cfg core ev h
  refine ⟨ri, hl, ?_⟩
  cases ev with
  | evStarted | evDrain =>
    simp only [entryAfter, Event.waiterOf, append_nil]
    split_ifs <;> rfl
  | evTeardown k' =>
    by_cases hk : k = k'
    · simp [entryAfter, hk, Event.waiterOf]
    · simp [entryAfter, hk, Event.waiterOf, Ne.symm hk]
  | _ => exact (append_nil _).symm

/-- a handler that closes a channel starts no run, a recovery apart -/
theorem handle_closes_starts (cfg : SchedConfig E) (core : Core) {ev : Event} (hev : ev.recovers = false)
    (hclose : closes core ev ≠ []) : Prog.Results (fun fin : Finish E => fin.runs = []) (handle cfg core ev).2 := by
  refine ((handle_finish cfg core ev hev).and (handle_closes cfg core ev)).mono fun fin hfin => ?_
  cases hfin.1 with
  | closes hruns => exact hruns
  | starts m r hm _ _ _ _ _ hnone => exact absurd (hfin.2.symm.trans hnone) hclose

end Sched

/-! ## The invariant -/

/-- the moment for the channel of an input -/
def Input.timely (core : Core) : Input → Prop
  | .event (.evTeardown k _) => k ∉ core.running
  | .event (.evDrain _) => core.running.keys = []
  | _ => True

/-- the channels the core keeps, and those it has closed -/
structure Kept (ins : List Input) (core : Core) (closed : List (ℕ × Core)) : Prop where
  nodup : ∀ k ri, core.running.lookup k = some ri → ri.waiters.Nodup
  waiters : ∀ k ri, core.running.lookup k = some ri → ∀ n ∈ ri.waiters,
    .event (.evTeardown k (some n)) ∈ ins ∧ n ∉ closed.map Prod.fst
  drain : ∀ n, core.drainDone = some n → .event (.evDrain n) ∈ ins ∧ n ∉ closed.map Prod.fst
  once : (closed.map Prod.fst).Nodup
  given : ∀ p ∈ closed, ∃ i ∈ ins, i.channel = some p.1 ∧ i.timely p.2

/-- distinct inputs have distinct channels -/
theorem Input.eq_of_channel {ins : List Input} (h : (ins.filterMap Input.channel).Nodup) {i j : Input} (hi : i ∈ ins)
    (hj : j ∈ ins) {n : ℕ} (hci : i.channel = some n) (hcj : j.channel = some n) : i = j := by
  induction ins with
  | nil => cases hi
  | cons a ins ih =>
    have htail : (ins.filterMap Input.channel).Nodup := h.sublist ((sublist_cons_self a ins).filterMap _)
    have hhead : a.channel = some n → ∀ b ∈ ins, b.channel ≠ some n := by
      intro ha b hb hcb
      rw [filterMap_cons_some ha, nodup_cons] at h
      exact h.1 (mem_filterMap.2 ⟨b, hb, hcb⟩)
    rcases mem_cons.1 hi with hia | hi' <;> rcases mem_cons.1 hj with hja | hj'
    · exact hia.trans hja.symm
    · exact absurd hcj (hhead (hia ▸ hci) j hj')
    · exact absurd hci (hhead (hja ▸ hcj) i hi')
    · exact ih htail hi' hj'

variable {i : Input}

/-- the channel of the last input is that of no input before -/
theorem Input.fresh {ins : List Input} (h : ((ins ++ [i]).filterMap Input.channel).Nodup) {n : ℕ}
    (hi : i.channel = some n) {j : Input} (hj : j ∈ ins) : j.channel ≠ some n := by
  intro hcj
  rw [filterMap_append, nodup_append] at h
  exact h.2.2 n (mem_filterMap.2 ⟨j, hj, hcj⟩) n (mem_filterMap.2 ⟨i, mem_singleton_self i, hi⟩) rfl

theorem Kept.fresh {ins : List Input} {core : Core} {closed : List (ℕ × Core)} (h : Kept ins core closed)
    (hdistinct : ((ins ++ [i]).filterMap Input.channel).Nodup) {n : ℕ} (hi : i.channel = some n) :
    n ∉ closed.map Prod.fst ∧ core.drainDone ≠ some n ∧ ∀ k ri, core.running.lookup k = some ri → n ∉ ri.waiters := by
  refine ⟨fun hmem => ?_, fun hd => ?_, fun k ri hl hn => ?_⟩
  · obtain ⟨p, hp, rfl⟩ := mem_map.1 hmem
    obtain ⟨_, hj, hcj, -⟩ := h.given p hp
    exact Input.fresh hdistinct hi hj hcj
  · exact Input.fresh hdistinct hi (h.drain n hd).1 rfl
  · exact Input.fresh hdistinct hi (h.waiters k ri hl n hn).1 rfl

section

variable [ClassAdLib E] {cfg : SchedConfig E} {ins : List Input} {core : Core} {closed : List (ℕ × Core)}

/-- what is to be known of the channels that one input closes: each belongs to an input whose moment it is, and the core
does not keep it for a drain -/
structure ClosesWell (ins : List Input) (closed : List (ℕ × Core)) (close : List ℕ) (after : Core) : Prop where
  nodup : close.Nodup
  unclosed : ∀ n ∈ close, n ∉ closed.map Prod.fst
  drain : ∀ n ∈ close, after.drainDone ≠ some n
  given : ∀ n ∈ close, ∃ i ∈ ins, i.channel = some n ∧ i.timely after

omit [ClassAdLib E] in
theorem closesWell_nil (ins : List Input) (closed : List (ℕ × Core)) (after : Core) : ClosesWell ins closed [] after :=
  ⟨nodup_nil, fun _ h => (nomatch h), fun _ h => (nomatch h), fun _ h => (nomatch h)⟩

omit [ClassAdLib E] in
/-- the channel of the input itself, closed at once -/
theorem Kept.closesOwn (h : Kept ins core closed) (hdistinct : ((ins ++ [i]).filterMap Input.channel).Nodup)
    {n : ℕ} (hi : i.channel = some n) {after : Core} (hdrain : after.drainDone = core.drainDone)
    (htimely : i.timely after) :
    ClosesWell (ins ++ [i]) closed [n] after := by
  obtain ⟨hopen, hd, -⟩ := h.fresh hdistinct hi
  refine ⟨nodup_singleton n, fun m hm => ?_, fun m hm => ?_, fun m hm => ?_⟩
  · rw [mem_singleton.1 hm]; exact hopen
  · rw [mem_singleton.1 hm, hdrain]; exact hd
  · rw [mem_singleton.1 hm]
    exact ⟨i, by simp, hi, htimely⟩

variable {fin : Finish E}

omit [ClassAdLib E] in
/-- the channels of a run that ended -/
theorem Kept.closesReaped (h : Kept ins core closed) (hdistinct : ((ins ++ [i]).filterMap Input.channel).Nodup)
    (k : JobKey) (hruns : fin.runs = []) :
    ClosesWell (ins ++ [i]) closed (Sched.reap core k).2 ((Sched.reap core k).1.after fin) := by
  have hins : ∀ {j}, j ∈ ins → j ∈ ins ++ [i] := fun hj => mem_append_left _ hj
  -- the drain's channel is no waiter's
  have hapart : ∀ ri n, core.running.lookup k = some ri → core.drainDone = some n → n ∉ ri.waiters := by
    intro ri n hl hd hn
    cases Input.eq_of_channel hdistinct (hins (h.drain n hd).1) (hins (h.waiters k ri hl n hn).1) rfl rfl
  refine ⟨reap_closes_nodup (h.nodup k) hapart, fun n hn => ?_, fun n hn hd => ?_, fun n hn => ?_⟩
  · rcases mem_reap_closes hn with ⟨ri, hl, hw⟩ | ⟨hd, -, -⟩
    · exact (h.waiters k ri hl n hw).2
    · exact (h.drain n hd).2
  · rw [Core.after_drainDone] at hd
    rcases mem_reap_closes hn with ⟨ri, hl, hw⟩ | ⟨-, hnone, -⟩
    · exact hapart ri n hl ((reap_channel core k).1 n hd) hw
    · rw [hnone] at hd
      cases hd
  · rcases mem_reap_closes hn with ⟨ri, hl, hw⟩ | ⟨hd, -, hempty⟩
    · refine ⟨_, hins (h.waiters k ri hl n hw).1, rfl, fun hk => ?_⟩
      exact (((reap_registry core k).1 k).1 (Core.mem_after hruns hk)).1 rfl
    · refine ⟨_, hins (h.drain n hd).1, rfl, eq_nil_iff_forall_not_mem.2 fun k' hk' => ?_⟩
      have hk := AList.mem_keys.1 (Core.mem_after hruns (AList.mem_keys.2 hk'))
      rw [hempty] at hk
      cases hk

/-- **What one input closes.** -/
theorem Kept.closes (h : Kept ins core closed) (i : Input) (hdistinct : ((ins ++ [i]).filterMap Input.channel).Nodup)
    (hfin : Prog.Yields (i.handled cfg core).2 fin) :
    ClosesWell (ins ++ [i]) closed fin.close ((i.handled cfg core).1.after fin) := by
  cases i with
  | sweep =>
    rw [((sweepExpired_finish cfg core).of_yields hfin).2]
    exact closesWell_nil _ _ _
  | event ev =>
    have hclose : fin.close = Sched.closes core ev := (Sched.handle_closes cfg core ev).of_yields hfin
    rw [hclose]
    by_cases hnil : Sched.closes core ev = []
    · rw [hnil]
      exact closesWell_nil _ _ _
    have hruns : ev.recovers = false → fin.runs = [] := fun hev =>
      (handle_closes_starts cfg core hev hnil).of_yields hfin
    cases ev with
    | evExited k | evFailed k | evReconnectFailed k =>
      exact h.closesReaped hdistinct k (hruns rfl)
    | evTeardown k done =>
      simp only [Sched.closes] at hnil ⊢
      split_ifs at hnil ⊢ with hk
      · exact absurd rfl hnil
      · cases done with
        | none => exact absurd rfl hnil
        | some n =>
          have hcore : (handle cfg core (.evTeardown k (some n))).1 = core := by
            simp [handle, handleTeardown, hk]
          refine h.closesOwn hdistinct rfl ?_ fun hin => hk ?_
          · rw [Core.after_drainDone, Input.handled, hcore]
          · rw [Input.handled, hcore] at hin
            exact Core.mem_after (hruns rfl) hin
    | evDrain done =>
      simp only [Sched.closes] at hnil ⊢
      split_ifs at hnil ⊢ with hk
      · have hcore : (Sched.handle cfg core (.evDrain done)).1 = { core with draining := true } := by
          simp [handle, handleDrain, hk]
        refine h.closesOwn hdistinct rfl ?_ (eq_nil_iff_forall_not_mem.2 fun k' hk' => ?_)
        · rw [Core.after_drainDone, Input.handled, hcore]
        · rw [Input.handled, hcore] at hk'
          have hin := AList.mem_keys.1 (Core.mem_after (hruns rfl) (AList.mem_keys.2 hk'))
          simp only [hk] at hin
          cases hin
      · exact absurd rfl hnil
    | evRecover done =>
      cases done with
      | none => exact absurd rfl hnil
      | some => exact h.closesOwn hdistinct rfl (Core.after_drainDone _ _) trivial
    | _ => exact absurd rfl hnil

/-- an entry after the input: its waiters are those it had and the input's, or it is new -/
theorem handled_entry (hfin : Prog.Yields (i.handled cfg core).2 fin) {k : JobKey} {ri : RunInfo}
    (hl : ((i.handled cfg core).1.after fin).running.lookup k = some ri) :
    ri.waiters = [] ∨ ∃ ri₀, core.running.lookup k = some ri₀ ∧
      (ri.waiters = ri₀.waiters ∨ ∃ n, i = .event (.evTeardown k (some n)) ∧ ri.waiters = ri₀.waiters ++ [n]) := by
  rcases Core.lookup_after hl with ⟨ri₁, hl₁, hw₁⟩ | ⟨r, hr, -, rfl⟩
  · right
    cases i with
    | sweep => exact ⟨ri₁, hl₁, .inl hw₁⟩
    | event ev =>
      obtain ⟨ri₀, hl₀, hw₀⟩ := handle_waiters cfg core ev hl₁
      refine ⟨ri₀, hl₀, ?_⟩
      rw [hw₁, hw₀]
      cases ev with
      | evTeardown k' done =>
        by_cases hk : k' = k
        · subst hk
          cases done with
          | none => exact .inl (by simp [Event.waiterOf])
          | some n => exact .inr ⟨n, rfl, by simp [Event.waiterOf]⟩
        · exact .inl (by simp [Event.waiterOf, hk])
      | _ => exact .inl (by simp [Event.waiterOf])
  · left
    cases i with
    | sweep =>
      rw [((sweepExpired_finish cfg core).of_yields hfin).1] at hr
      cases hr
    | event ev => exact ((handle_startsNew cfg core ev).of_yields hfin r hr).waiters

theorem handled_drainDone {n : ℕ} (h : ((i.handled cfg core).1.after fin).drainDone = some n) :
    core.drainDone = some n ∨ i = .event (.evDrain n) := by
  rw [Core.after_drainDone] at h
  cases i with
  | sweep => exact .inl h
  | event ev => exact (handle_drainDone cfg core ev h).imp_right fun he => by rw [he]

/-- **The step.** -/
theorem Kept.step (h : Kept ins core closed) (i : Input) (hdistinct : ((ins ++ [i]).filterMap Input.channel).Nodup)
    (hfin : Prog.Yields (i.handled cfg core).2 fin) :
    Kept (ins ++ [i]) ((i.handled cfg core).1.after fin)
      (closed ++ fin.close.map fun n => (n, (i.handled cfg core).1.after fin)) := by
  have hcloses := h.closes i hdistinct hfin
  have hnames : (closed ++ fin.close.map fun n => (n, (i.handled cfg core).1.after fin)).map Prod.fst =
      closed.map Prod.fst ++ fin.close := by simp [Function.comp_def]
  have hlast : i ∈ ins ++ [i] := by simp
  have hins : ∀ {j}, j ∈ ins → j ∈ ins ++ [i] := fun hj => mem_append_left _ hj
  -- a waiter whose job has an entry is not among the closed
  have hkept : ∀ {k ri n}, ((i.handled cfg core).1.after fin).running.lookup k = some ri →
      .event (.evTeardown k (some n)) ∈ ins ++ [i] → n ∉ fin.close := by
    intro k ri n hl hev hn
    obtain ⟨j, hj, hcj, htimely⟩ := hcloses.given n hn
    cases Input.eq_of_channel hdistinct hj hev hcj rfl
    exact htimely ((KeyMap.mem_iff_lookup _ _).2 ⟨ri, hl⟩)
  have hnot : ∀ {n}, n ∉ closed.map Prod.fst → n ∉ fin.close →
      n ∉ (closed ++ fin.close.map fun n => (n, (i.handled cfg core).1.after fin)).map Prod.fst := by
    intro n hold hnew hmem
    rw [hnames] at hmem
    exact (mem_append.1 hmem).elim hold hnew
  refine ⟨fun k ri hl => ?_, fun k ri hl n hn => ?_, fun n hd => ?_, ?_, fun p hp => ?_⟩
  · rcases handled_entry hfin hl with hnew | ⟨ri₀, hl₀, hsame | ⟨n, rfl, hw⟩⟩
    · rw [hnew]; exact nodup_nil
    · rw [hsame]; exact h.nodup k ri₀ hl₀
    · rw [hw]
      have hfresh := (h.fresh hdistinct (n := n) rfl).2.2 k ri₀ hl₀
      exact nodup_append.2 ⟨h.nodup k ri₀ hl₀, nodup_singleton n,
        fun m hm m' hm' he => hfresh (mem_singleton.1 hm' ▸ he ▸ hm)⟩
  · rcases handled_entry hfin hl with hnew | ⟨ri₀, hl₀, hw⟩
    · rw [hnew] at hn; cases hn
    · have hold : n ∈ ri₀.waiters → .event (.evTeardown k (some n)) ∈ ins ++ [i] ∧ n ∉ closed.map Prod.fst :=
        fun hmem =>
        ⟨hins (h.waiters k ri₀ hl₀ n hmem).1, (h.waiters k ri₀ hl₀ n hmem).2⟩
      have hboth : .event (.evTeardown k (some n)) ∈ ins ++ [i] ∧ n ∉ closed.map Prod.fst := by
        rcases hw with hw | ⟨m, rfl, hw⟩
        · exact hold (hw ▸ hn)
        · rw [hw] at hn
          rcases mem_append.1 hn with hn | hn
          · exact hold hn
          · rw [mem_singleton.1 hn]
            exact ⟨hlast, (h.fresh hdistinct rfl).1⟩
      exact ⟨hboth.1, hnot hboth.2 (hkept hl hboth.1)⟩
  · have hopen : n ∉ fin.close := fun hn => hcloses.drain n hn hd
    rcases handled_drainDone hd with hold | rfl
    · exact ⟨hins (h.drain n hold).1, hnot (h.drain n hold).2 hopen⟩
    · exact ⟨hlast, hnot (h.fresh hdistinct rfl).1 hopen⟩
  · rw [hnames]
    exact nodup_append.2 ⟨h.once, hcloses.nodup, fun n hn m hm he => hcloses.unclosed m hm (he ▸ hn)⟩
  · rcases mem_append.1 hp with hp | hp
    · obtain ⟨j, hj, hboth⟩ := h.given p hp
      exact ⟨j, hins hj, hboth⟩
    · obtain ⟨n, hn, rfl⟩ := mem_map.1 hp
      exact hcloses.given n hn

theorem CoreRun.kept (h : CoreRun cfg ins core closed) (hdistinct : (ins.filterMap Input.channel).Nodup) :
    Kept ins core closed := by
  induction h with
  | start =>
    exact ⟨fun k ri hl => by simp [Core.init] at hl, fun k ri hl => by simp [Core.init] at hl,
      fun n hd => by simp [Core.init] at hd, nodup_nil, fun p hp => (nomatch hp)⟩
  | handle h i fin hfin ih =>
    have hprefix := hdistinct.sublist ((sublist_append_left _ [i]).filterMap Input.channel)
    exact (ih hprefix).step i hdistinct hfin

/-- **Every channel is closed once, and not before its time.** In every run of the core over inputs with distinct
channels, no channel is closed twice; the channel of a teardown is closed only while the job has no entry of the
registry, that of a drain only while the registry is empty. -/
theorem channels_closed_once (h : CoreRun cfg ins core closed) (hdistinct : (ins.filterMap Input.channel).Nodup) :
    (closed.map Prod.fst).Nodup ∧
      (∀ n core', (n, core') ∈ closed → ∀ k, .event (.evTeardown k (some n)) ∈ ins → k ∉ core'.running) ∧
      ∀ n core', (n, core') ∈ closed → .event (.evDrain n) ∈ ins → core'.running.keys = [] := by
  have hkept := h.kept hdistinct
  refine ⟨hkept.once, fun n core' hp k hev => ?_, fun n core' hp hev => ?_⟩
  · obtain ⟨i, hi, hci, htimely⟩ := hkept.given _ hp
    cases Input.eq_of_channel hdistinct hi hev hci rfl
    exact htimely
  · obtain ⟨_, hi, hci, htimely⟩ := hkept.given _ hp
    cases Input.eq_of_channel hdistinct hi hev hci rfl
    exact htimely

/-! ## A run -/

/-- one input after another, every handler alone with the store `s` -/
def coreAlone (cfg : SchedConfig E) (s : Store E) (env : ℕ → Choice) (ins : List Input) : Core × List (ℕ × Core) :=
  ins.foldl (fun st i =>
    let fin := (s.alone env (i.handled cfg st.1).2).1
    let core := (i.handled cfg st.1).1.after fin
    (core, st.2 ++ fin.close.map fun n => (n, core))) (.init, [])

theorem coreAlone_run (s : Store E) (env : ℕ → Choice) (ins : List Input) :
    CoreRun cfg ins (coreAlone cfg s env ins).1 (coreAlone cfg s env ins).2 := by
  induction ins using reverseRecOn with
  | nil => exact .start
  | append_singleton ins i ih =>
    have hrun := CoreRun.handle ih i _ (Store.alone_yields s env (i.handled cfg (coreAlone cfg s env ins).1).2)
    simpa only [coreAlone, foldl_append, foldl_cons, foldl_nil] using hrun

end

/-- alice's job starts; two actions tear it down, a drain begins, and the run ends -/
def tornDownTwice : List Input :=
  [.event (.evMatch aliceMatch), .event (.evTeardown ⟨1, 0⟩ (some 1)), .event (.evDrain 2),
    .event (.evTeardown ⟨1, 0⟩ (some 3)), .event (.evExited ⟨1, 0⟩ none (some (.other "vacated"))),
    .event (.evTeardown ⟨1, 0⟩ (some 4))]

/-- both waiters and the drain are told when the run has ended, the last call at once -/
theorem torn_down_twice_closes :
    let closed := (coreAlone poolSched aliceQueue.coll (fun _ => smooth) tornDownTwice).2
    closed.map Prod.fst = [2, 1, 3, 4] ∧ (closed.map Prod.fst).Nodup ∧
      ∀ n core', (n, core') ∈ closed → .event (.evDrain n) ∈ tornDownTwice → core'.running.keys = [] := by
  intro closed
  have hrun : CoreRun poolSched tornDownTwice _ closed := coreAlone_run aliceQueue.coll (fun _ => smooth) tornDownTwice
  have h := channels_closed_once hrun (by decide)
  exact ⟨by decide +kernel, h.1, h.2.2⟩

end AccessPoint

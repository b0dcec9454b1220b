/-
Conservation of claims (internal/sched/sched.go, `handleMatch`, `runJob`, `handleFailed`, `handleDrain`;
shadow/shadow.go, `afterServe`).

Over every execution of the schedd, the claim of each entry of the registry is followed to its release: behind the entry
there is a goroutine at some stage, or the last event of the run in the channel, and either accounts for the claim.

- `Kept`: the invariant; `course_advances`, `Kept.took`, `Kept.finish`: a run, an event, the end of a handler.
- `claims_conserved`: without extra claims, and as long as a claim that fails is that of the match, no event is dropped
  and a drain finds its runs Running, every claim is registered or released, and a run that leaves the registry has its
  claim released unless it was detached while its job was Running.
- `claims_lost`: an extra claim is neither registered nor released, and each of the other conditions is needed.
-/
import AccessPoint.Sched.ClaimStages

namespace AccessPoint

open ClassAdLib World List Sched Event

variable {E : Type}

/-! ## Conditions on a step -/

namespace World

/-- the channel has room for what a step submits -/
def hasRoom (w : World E) (s : Step) : Bool :=
  match w.submits s with
  | some _ => w.events.length < eventCap
  | none => true

/-- a claim that fails before its activation is that of the match, and one that is activated has an id -/
def ownClaim (w : World E) : Step → Bool
  | .thread i ch =>
    match w.threads.lookup i with
    | some ⟨_, .run, .call (.claim m) _⟩ =>
      match ch.claim with
      | .failed _ claimID => claimID = m.claimID
      | .panicked _ => true
      | .activated _ claimID => claimID ≠ ""
    | _ => true
  | _ => true

/-- a drain detaches only runs whose job is Running -/
def drainsRunning [ClassAdLib E] (cfg : SchedConfig E) (w : World E) (s : Step) : Bool :=
  (w.detaches cfg s).all fun k => w.q.coll.isRunning k

end World

namespace Ledger

variable [ClassAdLib E] {cfg : SchedConfig E} {l : Ledger E}

/-- the step drops no event and the shadow answers as `afterServe` does; a claim is lost neither when it is re-keyed nor
in a drain -/
def conserves (cfg : SchedConfig E) (l : Ledger E) (s : World.Step) : Bool :=
  l.world.hasRoom s && l.world.ShadowAnswers s && l.world.ownClaim s && l.world.drainsRunning cfg s

def Conserving (cfg : SchedConfig E) (l : Ledger E) : World.Act E → Prop
  | .sched s => l.conserves cfg s = true
  | .edit q => q.coll.Keyed

theorem released_note (cfg : SchedConfig E) (l : Ledger E) (s : World.Step) :
    l.notes.released ⊆ (l.note cfg s).released :=
  subset_append_left _ _

theorem parted_note (cfg : SchedConfig E) (l : Ledger E) (s : World.Step) {k : JobKey} (h : k ∈ l.notes.parted)
    (hk : k ∈ (World.step cfg l.world s).core.running) : k ∈ (l.note cfg s).parted :=
  mem_filter.2 ⟨mem_append_left _ h, decide_eq_true hk⟩

variable {s : World.Step}

theorem served_note (h : l.world.activates s = none) : (l.note cfg s).served = l.notes.served := by
  simp only [note, h]

/-- another job's activation -/
theorem served_note_ne {k : JobKey} (h : ∀ claim, l.world.activates s ≠ some (k, claim)) :
    (l.note cfg s).served.lookup k = l.notes.served.lookup k := by
  cases ha : l.world.activates s with
  | none => rw [served_note ha]
  | some x =>
    have hne : k ≠ x.1 := fun he => h x.2 (by rw [ha, he])
    simp only [note, ha]
    exact AList.lookup_insert_ne hne

/-! ## A run goes on -/

section

variable {k : JobKey} {ri : RunInfo} {i : ℕ} {ch : Choice} {claim : String}

/-- the claim is requested and activated, or fails -/
theorem claim_holds (cfg : SchedConfig E) {m : Match} {f : ClaimOutcome → Go E (ℤ × List (ULog E))}
    (ht : l.world.threads.lookup i = some ⟨k, .run, .call (.claim m) f⟩) (hown : l.world.ownClaim (.thread i ch) = true)
    (h : (ClaimStage.claiming m.claimID).Holds k (l.world.mail k) l.notes ri) :
    ((stageProtocol E k).next (.claiming m.claimID) (.claim m) ch.claim).Holds k (l.world.mail k)
      (l.note cfg (.thread i ch)) ri := by
  obtain ⟨hnil, hclaim, hne⟩ := h
  have hheard : Heard k (l.world.mail k) ri m.claimID := ⟨hne, .inr ⟨hnil, hclaim⟩⟩
  cases hout : ch.claim with
  | failed msg claimID =>
    simp only [ownClaim, ht, hout, decide_eq_true_eq] at hown
    exact ⟨m.claimID, hheard, .inr hown⟩
  | panicked => exact ⟨m.claimID, hheard, .inl rfl⟩
  | activated =>
    simp only [ownClaim, ht, hout, decide_eq_true_eq] at hown
    refine ⟨hnil, hown, ?_⟩
    simp only [note, activates, ht, hout]
    exact AList.lookup_insert _

/-- the shadow ends: it was detached, or it has wound the claim down -/
theorem serve_holds (cfg : SchedConfig E) {f : ServeOutcome → Go E (ℤ × List (ULog E))}
    (ht : l.world.threads.lookup i = some ⟨k, .run, .call .serve f⟩) (hl : l.world.core.running.lookup k = some ri)
    (hanswers : l.world.ShadowAnswers (.thread i ch) = true)
    (h : (ClaimStage.serving claim).Holds k (l.world.mail k) l.notes ri) :
    ((stageProtocol E k).next (.serving claim) .serve ch.serve).Holds k (l.world.mail k) (l.note cfg (.thread i ch))
      ri := by
  obtain ⟨hheard, hserved⟩ := h
  cases hout : ch.serve with
  | failed => exact ⟨claim, hheard, .inr rfl⟩
  | panicked => exact ⟨claim, hheard, .inl rfl⟩
  | exited res =>
    refine ⟨claim, hheard, fun herr => ?_, fun herr => ?_⟩
    · simp only [World.ShadowAnswers, ht, hout, herr] at hanswers
      cases res with
      | none => simpa [Shadow.answers, detachFlag, hl] using hanswers
      | some => simp [Shadow.answers] at hanswers
    · apply mem_append_right
      apply mem_append_left
      simp [windsDown, ht, hout, herr, hserved]

omit [ClassAdLib E] in
/-- a run that has not reported is alive after its command -/
theorem course_lives {c : Cmd E} {f : c.Resp → Go E (ℤ × List (ULog E))} {r : c.Resp} {w w₁ : World E} {n : Notes}
    (hx : w.exec i ch c = some (r, w₁)) {st : ClaimStage} (hstaged : Staged k (f r) st)
    (hst : st.Holds k (w₁.mail k) n ri) : Course (w₁.resumeThread i ⟨k, .run, .call c f⟩ (f r)) n k ri := by
  have hmail : (w₁.resumeThread i ⟨k, .run, .call c f⟩ (f r)).mail k = w₁.mail k :=
    congrArg (filter (ofRun k)) (thread_frame hx k _ _).events
  refine .live i (f r) st ?_ hstaged (hmail ▸ hst)
  have hne : st ≠ .done := by
    rintro rfl
    exact hst
  obtain ⟨_, _, hf⟩ := hstaged.goes_on hne
  rw [hf]
  exact AList.lookup_insert _

omit [ClassAdLib E] in
/-- an event the run submits -/
theorem mail_submitted {ev : Event} {r : (Cmd.submit ev : Cmd E).Resp}
    {f : (Cmd.submit ev : Cmd E).Resp → Go E (ℤ × List (ULog E))}
    {w w₁ : World E} (ht : w.threads.lookup i = some ⟨k, .run, .call (.submit ev) f⟩)
    (hx : w.exec i ch (.submit ev) = some (r, w₁)) (hroom : w.hasRoom (.thread i ch) = true) (hof : ev.ofRun k = true) :
    w₁.mail k = w.mail k ++ [ev] := by
  have hsubmits : w.submits (.thread i ch) = some ev := by simp [submits, ht, eventOf]
  simp only [hasRoom, hsubmits, decide_eq_true_eq] at hroom
  have hevents : w₁.events = w.events ++ [ev] := (exec_events hx).trans (submit_fits hroom)
  simp [mail, hevents, hof]

omit [ClassAdLib E] in
/-- the last event of a run -/
theorem course_reports {ev : Event} {r : (Cmd.submit ev : Cmd E).Resp}
    {f : (Cmd.submit ev : Cmd E).Resp → Go E (ℤ × List (ULog E))}
    {w w₁ : World E} {n : Notes} (ht : w.threads.lookup i = some ⟨k, .run, .call (.submit ev) f⟩)
    (hx : w.exec i ch (.submit ev) = some (r, w₁)) (hroom : w.hasRoom (.thread i ch) = true)
    (hev : ev.terminalFor k = true)
    (hclaim : ri.reconnect = true ∧ w.mail k = [] ∨ ∃ claim, Heard k (w.mail k) ri claim ∧ Accounts n ri claim ev) :
    Course (w₁.resumeThread i ⟨k, .run, .call (.submit ev) f⟩ (f r)) n k ri := by
  have hmail : (w₁.resumeThread i ⟨k, .run, .call (.submit ev) f⟩ (f r)).mail k = w₁.mail k :=
    congrArg (filter (ofRun k)) (thread_frame hx k _ _).events
  exact .reported (w.mail k) ev (hmail.trans (mail_submitted ht hx hroom (ofRun_of_terminalFor hev))) hev hclaim

/-- the goroutine of a run performs a command -/
theorem course_advances (cfg : SchedConfig E) (hsingle : World.Single cfg l.world) (h : Course l.world l.notes k ri)
    (hl : l.world.core.running.lookup k = some ri) {c : Cmd E} {f : c.Resp → Go E (ℤ × List (ULog E))} {r : c.Resp}
    {w₁ : World E} (ht : l.world.threads.lookup i = some ⟨k, .run, .call c f⟩) (hx : l.world.exec i ch c = some (r, w₁))
    (hroom : l.world.hasRoom (.thread i ch) = true) (hanswers : l.world.ShadowAnswers (.thread i ch) = true)
    (hown : l.world.ownClaim (.thread i ch) = true) :
    Course (w₁.resumeThread i ⟨k, .run, .call c f⟩ (f r)) (l.note cfg (.thread i ch)) k ri := by
  obtain ⟨_, hterm, honly⟩ := hsingle.of_run ht rfl rfl
  cases h with
  | reported pre ev hm hev =>
    have hmem : ev ∈ l.world.mail k := by simp [hm]
    rw [hterm ev (mem_filter.1 hmem).1] at hev
    cases hev
  | live j p st hlj hp hst =>
    obtain rfl := honly j _ hlj rfl rfl
    rw [ht] at hlj
    cases hlj
    have hnext : Staged k (f r) ((stageProtocol E k).next st c r) := hp.2 r trivial
    have hup : Upkeep l.notes (l.note cfg (.thread j ch)) ri ri := ⟨rfl, id, released_note cfg l _⟩
    -- each stage allows one kind of command
    cases st with
    | claiming claim =>
      cases c with
      | claim m =>
        cases hx
        obtain rfl : m.claimID = claim := hp.1
        exact course_lives rfl hnext (claim_holds cfg ht hown hst)
      | _ => exact absurd hp.1 id
    | starting =>
      obtain ⟨hnil, hne, hserved⟩ := hst
      cases c with
      | submit =>
        obtain ⟨slotName, rfl⟩ := hp.1
        have hmail := mail_submitted ht hx hroom (by simp [ofRun, startedFor])
        rw [hnil] at hmail
        have hsame : (l.note cfg (.thread j ch)).served = l.notes.served := served_note (by simp [activates, ht])
        exact course_lives hx hnext ⟨⟨hne, .inl ⟨slotName, hmail⟩⟩, hsame ▸ hserved⟩
      | _ => exact absurd hp.1 id
    | serving =>
      cases c with
      | serve =>
        cases hx
        exact course_lives rfl hnext (serve_holds cfg ht hl hanswers hst)
      | _ => exact absurd hp.1 id
    | failing =>
      obtain ⟨claim', hheard, hclaim⟩ := hst
      cases c with
      | submit =>
        obtain ⟨_, _, rfl⟩ := hp.1
        exact course_reports ht hx hroom (decide_eq_true rfl) (.inr ⟨claim', hheard, by simp, rfl, hclaim⟩)
      | _ => exact absurd hp.1 id
    | exiting =>
      obtain ⟨claim', hheard, herr⟩ := hst
      cases c with
      | submit =>
        obtain ⟨_, rfl⟩ := hp.1
        exact course_reports ht hx hroom (decide_eq_true rfl) (.inr ⟨claim', hheard, herr.carry hup⟩)
      | _ => exact absurd hp.1 id
    | rejoining =>
      cases c with
      | reattach =>
        cases hx
        exact course_lives rfl hnext hst
      | _ => exact absurd hp.1 id
    | rejoined =>
      cases c with
      | submit => exact course_reports ht hx hroom hp.1 (.inl ⟨hst.2, hst.1⟩)
      | _ => exact absurd hp.1 id
    | done => exact absurd hst id

end

/-! ## The invariant -/

/-- every entry has a run behind it whose claim is accounted for, and no other run has events in the channel -/
structure Kept (w : World E) (n : Notes) : Prop where
  silent : ∀ k, k ∉ w.core.running → w.mail k = []
  parted : ∀ k ri, w.core.running.lookup k = some ri → ri.detached = true → k ∈ n.parted
  course : ∀ k ri, w.core.running.lookup k = some ri → Course w n k ri

variable {w w' : World E} {n n' : Notes}

omit [ClassAdLib E] in
/-- the runs go on as they are -/
theorem Kept.frame (h : Kept w n) (hcore : w'.core.running = w.core.running) (hmail : ∀ k, w'.mail k = w.mail k)
    (hth : ∀ i k p, w.threads.lookup i = some ⟨k, .run, p⟩ → ∃ j, w'.threads.lookup j = some ⟨k, .run, p⟩)
    (hserved : n'.served = n.served) (hreleased : n.released ⊆ n'.released)
    (hparted : ∀ k ∈ n.parted, k ∈ w.core.running → k ∈ n'.parted) : Kept w' n' where
  silent := fun k hk => (hmail k).trans (h.silent k (hcore ▸ hk))
  parted := by
    intro k ri hl hd
    rw [hcore] at hl
    exact hparted k (h.parted k ri hl hd) ((KeyMap.mem_iff_lookup _ _).2 ⟨ri, hl⟩)
  course := by
    intro k ri hl
    rw [hcore] at hl
    exact (h.course k ri hl).carry ⟨rfl, id, hreleased⟩ rfl (by rw [hserved]) (hmail k) fun i p => hth i k p

variable {fin : Finish E}

/-- the end of a handler: the runs it starts have no events yet -/
theorem Kept.finish (h : Kept w n) (hsingle : World.Single cfg w)
    (hfresh : Sched.FreshRuns cfg w.core fin.runs) (hopens : ∀ r ∈ fin.runs, Sched.Opens r) :
    Kept (w.finish cfg fin) n := by
  have hmail : ∀ k, (w.finish cfg fin).mail k = w.mail k :=
    fun k => congrArg (filter (ofRun k)) (finish_frame cfg w fin).2.2.2.2
  have hth : ∀ i k p, w.threads.lookup i = some ⟨k, .run, p⟩ →
      ∃ j, (w.finish cfg fin).threads.lookup j = some ⟨k, .run, p⟩ :=
    fun i k p hl => finish_thread cfg w fin (.inl ⟨i, (hsingle.threads i _ hl).2, hl⟩)
  refine ⟨fun k hk => ?_, fun k ri hl hd => ?_, fun k ri hl => ?_⟩
  · exact (hmail k).trans (h.silent k fun hin => hk (finish_keeps cfg w fin hin))
  · rcases finish_entries cfg w fin hl with ⟨ri₀, hl₀, hri⟩ | ⟨r, hr, -, rfl⟩
    · refine h.parted k ri₀ hl₀ ?_
      rcases hri with rfl | rfl <;> exact hd
    · rw [(hopens r hr).1] at hd
      cases hd
  · rcases finish_entries cfg w fin hl with ⟨ri₀, hl₀, hri⟩ | ⟨r, hr, rfl, rfl⟩
    · have hup : Upkeep n n ri₀ ri ∧ ri.claimID = ri₀.claimID := by
        rcases hri with rfl | rfl <;> exact ⟨⟨rfl, id, List.Subset.refl _⟩, rfl⟩
      exact (h.course k ri₀ hl₀).carry hup.1 hup.2 rfl (hmail k) fun i p => hth i k p
    · have hnil : (w.finish cfg fin).mail r.key = [] := (hmail _).trans (h.silent _ (hfresh.2 r hr).1)
      obtain ⟨i, hi⟩ := finish_thread cfg w fin (.inr ⟨r, hr, rfl⟩)
      rcases (hopens r hr).2 with ⟨-, hne, hstaged⟩ | ⟨hrec, hstaged⟩
      · exact .live i r.prog _ hi hstaged ⟨hnil, rfl, hne⟩
      · exact .live i r.prog _ hi hstaged ⟨hnil, hrec⟩

theorem Kept.resume (h : Kept w n) (hsingle : World.Single cfg w) {p : Go E (Finish E)} {ev : Option Event}
    (hfresh : Orderly (fun fin : Finish E => Sched.FreshRuns cfg w.core fin.runs) p)
    (hbegins : Prog.Results (Sched.Begins ev) p) : Kept (w.resume cfg p) n := by
  cases p with
  | ret => exact h.finish hsingle hfresh hbegins.1
  | call => exact h.frame rfl (fun _ => rfl) (fun i k p hl => ⟨i, hl⟩) rfl (List.Subset.refl _) fun _ hk _ => hk

variable {rest : List Event}

omit [ClassAdLib E] in
theorem mail_cons {ev : Event} (he : w.events = ev :: rest) {k : JobKey} (hof : ev.ofRun k = true) :
    w.mail k = ev :: rest.filter (Event.ofRun k) := by
  simp [mail, he, hof]

omit [ClassAdLib E] in
theorem mail_skip {ev : Event} (he : w.events = ev :: rest) {k : JobKey} (hof : ev.ofRun k = false) :
    w.mail k = rest.filter (Event.ofRun k) := by
  simp [mail, he, hof]

/-- the core takes an event -/
theorem Kept.took (h : Kept w n) {ev : Event} (he : w.events = ev :: rest)
    (hserved : n'.served = n.served) (hreleased : n.released ⊆ n'.released)
    (hparted : ∀ k ∈ n.parted, k ∈ (World.took cfg w ev rest).core.running → k ∈ n'.parted)
    (hdetached : ∀ done, ev = .evDrain done → cfg.reconnectDisabled = false →
      ∀ k ri, w.core.running.lookup k = some ri →
      ri.vacated = false → ri.detached = false → k ∈ (World.took cfg w ev rest).core.running → k ∈ n'.parted) :
    Kept (World.took cfg w ev rest) n' := by
  have hmem : ∀ k ri', (World.took cfg w ev rest).core.running.lookup k = some ri' →
      k ∈ (World.took cfg w ev rest).core.running := fun k ri' hl => (KeyMap.mem_iff_lookup _ _).2 ⟨ri', hl⟩
  refine ⟨fun k hk => ?_, fun k ri' hl hd => ?_, fun k ri' hl => ?_⟩
  · change rest.filter (ofRun k) = []
    by_cases hin : k ∈ w.core.running
    · -- the entry is gone, so this was the last event of its run
      have hterm : ev.terminalFor k = true :=
        Bool.eq_true_of_not_eq_false fun hnot => hk (handle_keeps cfg w.core ev hin hnot)
      obtain ⟨ri, hri⟩ := (KeyMap.mem_iff_lookup _ _).1 hin
      exact ((h.course k ri hri).ends (mail_cons he (ofRun_of_terminalFor hterm)) hterm).1
    · have hnil := h.silent k hin
      cases hof : ev.ofRun k with
      | true =>
        rw [mail_cons he hof] at hnil
        cases hnil
      | false => exact (mail_skip he hof).symm.trans hnil
  · obtain ⟨ri, hri, hcarries⟩ := handle_carries cfg w.core ev hl
    cases hold : ri.detached with
    | true => exact hparted k (h.parted k ri hri hold) (hmem k ri' hl)
    | false =>
      rcases hcarries.detached hd with hd' | ⟨⟨done, hev⟩, hcfg, hv⟩
      · rw [hold] at hd'
        cases hd'
      · exact hdetached done hev hcfg k ri hri hv hold (hmem k ri' hl)
  · obtain ⟨ri, hri, hcarries⟩ := handle_carries cfg w.core ev hl
    have hup : Upkeep n n' ri ri' := ⟨hcarries.reconnect, hcarries.kept, hreleased⟩
    have hcourse := h.course k ri hri
    have hterm : ev.terminalFor k = false := ((handle_registry cfg w.core ev).1 k (hmem k ri' hl)).2
    cases hs : ev.startedFor k with
    | false =>
      have hof : ev.ofRun k = false := by simp [ofRun, hs, hterm]
      exact hcourse.carry hup (hcarries.claim hs) (by rw [hserved]) (mail_skip he hof).symm fun i p hli => ⟨i, hli⟩
    | true =>
      cases ev with
      | evStarted k' slotName claimID =>
        obtain rfl : k' = k := of_decide_eq_true hs
        have hmail := mail_cons he (k := k') (by simp [ofRun, startedFor])
        exact hcourse.hear hup (hcarries.started slotName claimID rfl) (by rw [hserved]) hmail rfl
      | _ => cases hs

section

variable {i : ℕ} {ch : Choice} {job : JobKey} {role : Role} {c : Cmd E} {f : c.Resp → Go E (ℤ × List (ULog E))}

/-- the events of the other runs -/
theorem mail_others {r : c.Resp} {w₁ : World E} (hconducted : World.Conducted cfg w)
    (ht : w.threads.lookup i = some ⟨job, role, .call c f⟩) (hx : w.exec i ch c = some (r, w₁)) {k : JobKey}
    (hk : ¬ (k = job ∧ role = .run)) : (w₁.resumeThread i ⟨job, role, .call c f⟩ (f r)).mail k = w.mail k := by
  have hadds : World.Adds (fun ev =>
    eventOf i c = some ev) w (w₁.resumeThread i ⟨job, role, .call c f⟩ (f r)) := by
    unfold World.Adds
    rw [(thread_frame hx k _ _).events]
    exact exec_adds hx
  refine hadds.mail fun ev hev => ?_
  cases c with
  | submit ev' =>
    obtain rfl := Option.some.inj hev
    by_cases hrole : role = .run
    · subst hrole
      rcases RunConduct.command (hconducted.single.threads i _ ht).1 with ⟨_, hc, hof⟩ | ⟨m, hc⟩ | hc | hc <;>
        cases hc
      exact Bool.eq_false_iff.2 fun hof' => hk ⟨ofRun_inj hof' hof, rfl⟩
    · exact (hconducted.discreet i _ ht hrole).1 ev' rfl k
  | teardown =>
    obtain rfl := Option.some.inj hev
    rfl
  | _ => cases hev

omit [ClassAdLib E] in
/-- the goroutines of the other runs -/
theorem threads_others {r : c.Resp} {w₁ : World E} (ht : w.threads.lookup i = some ⟨job, role, .call c f⟩)
    (hx : w.exec i ch c = some (r, w₁)) {k : JobKey} (hk : ¬ (k = job ∧ role = .run)) (j : ℕ)
    (p : Go E (ℤ × List (ULog E))) (hl : w.threads.lookup j = some ⟨k, .run, p⟩) :
    (w₁.resumeThread i ⟨job, role, .call c f⟩ (f r)).threads.lookup j = some ⟨k, .run, p⟩ := by
  have hne : j ≠ i := by
    rintro rfl
    rw [ht] at hl
    cases hl
    exact hk ⟨rfl, rfl⟩
  rw [← (exec_frame hx).2.1] at hl
  cases f r with
  | ret => exact (AList.lookup_erase_ne hne).trans hl
  | call => exact (AList.lookup_insert_ne hne).trans hl

omit [ClassAdLib E] in
/-- only the run itself activates its claim -/
theorem activates_own (ht : w.threads.lookup i = some ⟨job, role, .call c f⟩) {k : JobKey} {claim : String}
    (h : w.activates (.thread i ch) = some (k, claim)) : k = job ∧ role = .run := by
  simp only [activates, ht] at h
  split at h
  · rename_i hthread
    cases hthread
    split at h
    · cases h
      exact ⟨rfl, rfl⟩
    · cases h
  · cases h

omit [ClassAdLib E] in
/-- a command that has to wait activates nothing -/
theorem activates_blocked (ht : w.threads.lookup i = some ⟨job, role, .call c f⟩) (hx : w.exec i ch c = none) :
    w.activates (.thread i ch) = none := by
  cases c with
  | await => cases role <;> simp only [activates, ht]
  | put | append =>
    simp only [exec] at hx
    split_ifs at hx
  | _ => cases hx

/-- a goroutine performs a command -/
theorem Kept.thread (h : Kept l.world l.notes) (hconducted : World.Conducted cfg l.world) {r : c.Resp} {w₁ : World E}
    (ht : l.world.threads.lookup i = some ⟨job, role, .call c f⟩) (hx : l.world.exec i ch c = some (r, w₁))
    (hstep : World.step cfg l.world (.thread i ch) = w₁.resumeThread i ⟨job, role, .call c f⟩ (f r))
    (hroom : l.world.hasRoom (.thread i ch) = true) (hanswers : l.world.ShadowAnswers (.thread i ch) = true)
    (hown : l.world.ownClaim (.thread i ch) = true) :
    Kept (w₁.resumeThread i ⟨job, role, .call c f⟩ (f r)) (l.note cfg (.thread i ch)) := by
  have hcore := (thread_frame hx ⟨0, 0⟩ ⟨job, role, .call c f⟩ (f r)).core
  refine ⟨fun k hk => ?_, fun k ri hl hd => ?_, fun k ri hl => ?_⟩
  · rw [hcore] at hk
    rw [mail_others hconducted ht hx fun hrun => ?_]
    · exact h.silent k hk
    · obtain ⟨rfl, rfl⟩ := hrun
      exact hk (hconducted.single.of_run ht rfl rfl).1
  · rw [hcore] at hl
    refine parted_note cfg l _ (h.parted k ri hl hd) ?_
    rw [hstep, hcore]
    exact (KeyMap.mem_iff_lookup _ _).2 ⟨ri, hl⟩
  · rw [hcore] at hl
    by_cases hrun : k = job ∧ role = .run
    · obtain ⟨rfl, rfl⟩ := hrun
      exact course_advances cfg hconducted.single (h.course k ri hl) hl ht hx hroom hanswers hown
    · exact (h.course k ri hl).carry ⟨rfl, id, released_note cfg l _⟩ rfl
        (served_note_ne fun claim ha => hrun (activates_own ht ha)) (mail_others hconducted ht hx hrun)
        (fun j p hj => ⟨j, threads_others ht hx hrun j p hj⟩)

end

/-- a goroutine is scheduled: it performs its next command, or has to wait -/
theorem Kept.scheduled (h : Kept l.world l.notes) (hconducted : World.Conducted cfg l.world) {i : ℕ} {ch : Choice}
    (hroom : l.world.hasRoom (.thread i ch) = true) (hanswers : l.world.ShadowAnswers (.thread i ch) = true)
    (hown : l.world.ownClaim (.thread i ch) = true) :
    Kept (World.step cfg l.world (.thread i ch)) (l.note cfg (.thread i ch)) := by
  have hstill : l.world.activates (.thread i ch) = none → World.step cfg l.world (.thread i ch) = l.world →
      Kept (World.step cfg l.world (.thread i ch)) (l.note cfg (.thread i ch)) := by
    intro hact he
    have hparted : ∀ k ∈ l.notes.parted, k ∈ (World.step cfg l.world (.thread i ch)).core.running →
        k ∈ (l.note cfg (.thread i ch)).parted := fun k hk => parted_note cfg l _ hk
    rw [he] at hparted ⊢
    exact h.frame rfl (fun _ => rfl) (fun j k p hl => ⟨j, hl⟩) (served_note hact) (released_note cfg l _) hparted
  cases ht : l.world.threads.lookup i with
  | none => exact hstill (by simp [World.activates, ht]) (by simp [World.step, ht])
  | some th =>
    obtain ⟨job, role, p⟩ := th
    cases p with
    | ret => exact hstill (by cases role <;> simp [World.activates, ht]) (by simp [World.step, ht])
    | call c f =>
      cases hx : l.world.exec i ch c with
      | none => exact hstill (activates_blocked ht hx) (by simp [World.step, ht, hx])
      | some rw₁ =>
        have hstep : World.step cfg l.world (.thread i ch) = rw₁.2.resumeThread i ⟨job, role, .call c f⟩ (f rw₁.1) := by
          simp [World.step, ht, hx]
        rw [hstep]
        exact h.thread hconducted ht hx hstep hroom hanswers hown

theorem resume_keeps {p : Go E (Finish E)} {k : JobKey} (h : k ∈ w.core.running) :
    k ∈ (w.resume cfg p).core.running := by
  cases p with
  | ret fin => exact finish_keeps cfg w fin h
  | call => exact h

/-- **One step.** -/
theorem Kept.step (h : Kept l.world l.notes) (hconducted : World.Conducted cfg l.world)
    (hs : l.conserves cfg s = true) : Kept (World.step cfg l.world s) (l.note cfg s) := by
  simp only [conserves, Bool.and_eq_true] at hs
  obtain ⟨⟨⟨hroom, hanswers⟩, hown⟩, hdrains⟩ := hs
  have hreleased := released_note cfg l s
  have hparted : ∀ k ∈ l.notes.parted, k ∈ (World.step cfg l.world s).core.running → k ∈ (l.note cfg s).parted :=
    fun k hk => parted_note cfg l s hk
  by_cases hthread : ∃ i ch, s = .thread i ch
  · obtain ⟨i, ch, rfl⟩ := hthread
    exact h.scheduled hconducted hroom hanswers hown
  · have hserved : (l.note cfg s).served = l.notes.served := by
      refine served_note ?_
      cases s with
      | thread i ch => exact absurd ⟨i, ch, rfl⟩ hthread
      | _ => rfl
    have hdetached : ∀ k ∈ l.world.detaches cfg s, k ∈ (World.step cfg l.world s).core.running →
      k ∈ (l.note cfg s).parted := by
      intro k hk hin
      have hrunning : l.world.q.coll.isRunning k = true := all_eq_true.1 hdrains k hk
      exact mem_filter.2 ⟨mem_append_right _ (mem_filter.2 ⟨hk, hrunning⟩), decide_eq_true hin⟩
    have hmove := World.step_move cfg l.world s
    generalize World.step cfg l.world s = w' at hmove hparted hdetached ⊢
    cases hmove with
    | idle => exact h.frame rfl (fun _ => rfl) (fun j k p hl => ⟨j, hl⟩) hserved hreleased hparted
    | tool k =>
      refine h.frame rfl (fun _ => rfl) (fun j k p hl => ⟨j, ?_⟩) hserved hreleased hparted
      exact (AList.lookup_insert_ne (hconducted.single.threads j _ hl).2.ne).trans hl
    | call _ ev n os hev =>
      obtain ⟨hcore, hth, -, -, -⟩ := submit_frame l.world ev
      have hadds : World.Adds (· = ev) l.world { l.world.submit ev with nextTid := n, trace := l.world.trace ++ os } :=
        submit_adds l.world ev
      refine h.frame (by simp only [hcore]) (fun k => hadds.mail fun ev' he => ?_)
        (fun j k p hl => ⟨j, by simp only [hth]; exact hl⟩) hserved hreleased (by simpa only [hcore] using hparted)
      subst he
      cases s <;> simp only [callEvent, reduceCtorEq, Option.some.injEq] at hev <;> subst hev <;> rfl
    | take ev rest hb he =>
      obtain ⟨htook, hfresh⟩ := hconducted.single.took hb he
      have hkept : Kept (World.took cfg l.world ev rest) (l.note cfg .take) := by
        refine h.took he hserved hreleased (fun k hk hin => hparted k hk (resume_keeps hin)) ?_
        intro done hev hcfg k ri hl hv hd hin
        refine hdetached k ?_ (resume_keeps hin)
        subst hev
        simp only [detaches, taking, hb, he, hcfg, Bool.false_eq_true, if_false]
        exact mem_runsWhere.2 ⟨ri, hl, by simp [hv, hd]⟩
      exact hkept.resume htook hfresh (handle_begins cfg l.world.core ev)
    | sweep =>
      have hkept : Kept l.world (l.note cfg .sweep) :=
        h.frame rfl (fun _ => rfl) (fun j k p hl => ⟨j, hl⟩) hserved hreleased fun k hk hin =>
          hparted k hk (resume_keeps hin)
      have hbegins : Prog.Results (Sched.Begins none) (sweepExpired cfg l.world.core).2 :=
        (sweepExpired_finish cfg l.world.core).mono fun fin hfin => begins_nil hfin.1
      exact hkept.resume hconducted.single (sweepExpired_orderly cfg l.world.core) hbegins
    | core ch c f r w₁ hb hx =>
      obtain ⟨hcore, hthreads, -, -, -⟩ := exec_frame hx
      obtain ⟨h₁, hfresh⟩ := hconducted.single.exec hb hx
      have hkept : Kept w₁ (l.note cfg (.core ch)) := by
        refine h.frame (by rw [hcore]) (fun k => (exec_adds hx).mail fun ev hev => ?_)
          (fun j k p hl => ⟨j, by rw [hthreads]; exact hl⟩) hserved hreleased
          (fun k hk hin => hparted k hk (resume_keeps (by rw [hcore]; exact hin)))
        obtain ⟨_, _, rfl⟩ := meek_event (hconducted.meek _ hb).1 hev
        rfl
      exact hkept.resume h₁ hfresh (hconducted.begins _ hb r)
    | thread i ch => exact absurd ⟨i, ch, rfl⟩ hthread

/-! ## Executions -/

/-- what every execution keeps -/
structure Sound (cfg : SchedConfig E) (l : Ledger E) : Prop where
  conducted : World.Conducted cfg l.world
  kept : Kept l.world l.notes

theorem start_sound (cfg : SchedConfig E) {q : Queue E} (hq : q.coll.Keyed) : Sound cfg (start q) where
  conducted := World.start_conducted cfg hq
  kept := ⟨fun _ _ => rfl, fun k ri hl => by simp [start, World.start, Core.init] at hl,
    fun k ri hl => by simp [start, World.start, Core.init] at hl⟩

theorem Sound.step (h : Sound cfg l) {a : World.Act E} (ha : Conserving cfg l a) : Sound cfg (l.step cfg a) := by
  cases a with
  | sched s => exact ⟨h.conducted.step s, h.kept.step h.conducted ha⟩
  | edit q =>
    have hsingle : World.Single cfg { l.world with q := q } := act_single (a := .edit q) ha h.conducted.single
    refine ⟨⟨hsingle, h.conducted.meek, h.conducted.discreet, h.conducted.begins⟩, ?_⟩
    exact h.kept.frame rfl (fun _ => rfl) (fun j k p hl => ⟨j, hl⟩) rfl (List.Subset.refl _) fun _ hk _ => hk

/-- a handler ends: the world it ends in, and what it leaves to do -/
theorem ended_spec (hconducted : World.Conducted cfg w) {ev : Option Event} (h : w.ended cfg s = some (ev, fin)) :
    (∃ w₁, World.step cfg w s = World.finish cfg w₁ fin) ∧ Sched.Begins ev fin := by
  have hret : ∀ {ev' : Option Event} {p : Go E (Finish E)}, endOf ev' p = some (ev, fin) → p = .ret fin ∧
    ev' = ev := by
    intro ev' p hend
    cases p with
    | ret =>
      cases hend
      exact ⟨rfl, rfl⟩
    | call => cases hend
  cases s with
  | take =>
    obtain ⟨ev', htaking, hend⟩ := Option.bind_eq_some_iff.1 h
    obtain ⟨hp, rfl⟩ := hret hend
    have hbegins := handle_begins cfg w.core ev'
    rw [hp] at hbegins
    refine ⟨?_, hbegins⟩
    cases hb : w.busy with
    | some => simp [taking, hb] at htaking
    | none =>
      cases he : w.events with
      | nil => simp [taking, hb, he] at htaking
      | cons ev rest =>
        obtain rfl : ev = ev' := by simpa [World.taking, hb, he] using htaking
        exact ⟨World.took cfg w ev rest, by simp [World.step, hb, he, hp, World.resume, World.took]⟩
  | core =>
    cases hb : w.busy with
    | none => simp [ended, hb] at h
    | some p =>
      cases p with
      | ret => simp [ended, hb] at h
      | call c f =>
        simp only [ended, hb] at h
        obtain ⟨⟨r, w₁⟩, hx, hend⟩ := Option.bind_eq_some_iff.1 h
        obtain ⟨hp, rfl⟩ := hret hend
        have hbegins : Prog.Results (Sched.Begins w.handling) (f r) := hconducted.begins _ hb r
        rw [hp] at hbegins
        exact ⟨⟨w₁, by simp [World.step, hb, hx, hp, World.resume]⟩, hbegins⟩
  | _ => cases h

theorem finish_lookup {r : NewRun E} (h : fin.runs = [r]) (cfg : SchedConfig E) (w : World E) :
    (World.finish cfg w fin).core.running.lookup r.key = some r.info := by
  unfold finish
  rw [h]
  cases fin.policy <;> exact AList.lookup_insert _

/-- the handler of a match ends: its claim is released, or that of the entry of the job -/
theorem match_handled (hconducted : World.Conducted cfg l.world) {m : Match}
    (h : l.world.ended cfg s = some (some (.evMatch m), fin)) :
    m.claimID ∈ (l.note cfg s).released ∨
      ∃ ri, (World.step cfg l.world s).core.running.lookup m.key = some ri ∧ ri.claimID = m.claimID := by
  obtain ⟨⟨w₁, hw₁⟩, -, hsettles⟩ := ended_spec hconducted h
  rcases hsettles with hnone | ⟨r, hr, hkey, hclaim⟩
  · left
    refine mem_append_right _ (mem_append_right _ (mem_append_right _ ?_))
    simp [h, matchReleases, hnone]
  · right
    refine ⟨r.info, ?_, hclaim⟩
    rw [hw₁, ← hkey]
    exact finish_lookup hr cfg w₁

/-- an entry goes: the core takes the last event of its run -/
theorem entry_goes {k : JobKey} (hin : k ∈ w.core.running) (hout : k ∉ (World.step cfg w s).core.running) :
    ∃ ev rest, w.taking s = some ev ∧ w.events = ev :: rest ∧ ev.terminalFor k = true := by
  have hmove := World.step_move cfg w s
  generalize World.step cfg w s = w' at hmove hout
  cases hmove with
  | idle | tool => exact absurd hin hout
  | call _ ev =>
    simp only [(World.submit_frame w ev).1] at hout
    exact absurd hin hout
  | take ev rest hb he =>
    refine ⟨ev, rest, by simp [taking, hb, he], he, Bool.eq_true_of_not_eq_false fun hterm => hout ?_⟩
    exact resume_keeps (w := took cfg w ev rest) (handle_keeps cfg w.core ev hin hterm)
  | sweep => exact absurd (resume_keeps (w := { w with core := (sweepExpired cfg w.core).1 }) hin) hout
  | core ch c f r w₁ hb hx => exact absurd (resume_keeps ((exec_frame hx).1 ▸ hin)) hout
  | thread i ch job role c f r w₁ ht hx =>
    rw [(thread_frame hx k _ _).core] at hout
    exact absurd hin hout

/-- an entry goes: its claim has been released, or the run had been detached while its job was Running -/
theorem entry_released (h : Kept l.world l.notes) {k : JobKey} {ri : RunInfo}
    (hl : l.world.core.running.lookup k = some ri)
    (hrec : ri.reconnect = false) (hout : k ∉ (World.step cfg l.world s).core.running) :
    ri.claimID ∈ (l.note cfg s).released ∨ k ∈ l.notes.parted := by
  obtain ⟨ev, _, htaking, he, hterm⟩ := entry_goes ((KeyMap.mem_iff_lookup _ _).2 ⟨ri, hl⟩) hout
  have hmail := mail_cons he (ofRun_of_terminalFor hterm)
  obtain ⟨-, hrec' | ⟨hne, hacc⟩⟩ := (h.course k ri hl).ends hmail hterm
  · rw [hrec] at hrec'
    cases hrec'
  cases hd : ri.detached with
  | true => exact .inr (h.parted k ri hl hd)
  | false =>
    left
    cases ev with
    | evFailed k' err panicked claimID =>
      obtain rfl : k' = k := of_decide_eq_true hterm
      obtain ⟨herr, rfl, hclaim⟩ := hacc
      refine mem_append_right _ (mem_append_right _ (mem_append_left _ ?_))
      have hreleases : failedReleases l.world.core (.evFailed k' err panicked claimID false) = [ri.claimID] := by
        rcases hclaim with rfl | rfl
        · simp [failedReleases, hl, hd, herr, hne]
        · simp [failedReleases, hl, hd, herr, hne]
      simp [htaking, hreleases]
    | evExited =>
      refine released_note cfg l s (hacc.2 fun herr => ?_)
      rw [hacc.1 herr] at hd
      cases hd
    | _ => exact absurd hacc id

open Negotiate in
/-- **Claims are conserved.** In every execution in which no event is dropped, a claim that fails before its activation
is that of the match, and a drain finds the jobs of its runs Running: once the core has handled a match whose blob has
no extra claims, every claim id of the blob is released or the claim of the entry of the job; and when the entry of a
run that began with a match is removed, its claim has been released, unless the run was detached while its job was
Running. -/
theorem claims_conserved (cfg : SchedConfig E) (q : Queue E) (hq : q.coll.Keyed) (acts : List (World.Act E))
    (a : World.Act E) (hacts : Runs.Meets (step cfg) (Conserving cfg) (start q) (acts ++ [a])) :
    let l := acts.foldl (step cfg) (start q)
    let l' := l.step cfg a
    (∀ claimBlob (matchAd : Ad E) k s fin, a = .sched s → (readMatch claimBlob matchAd).extraClaims = "" →
      l.world.ended cfg s = some (some (.evMatch ((readMatch claimBlob matchAd).forCore k)), fin) →
      ∀ claim ∈ claimIds claimBlob, claim ∈ l'.notes.released ∨
        ∃ ri, l'.world.core.running.lookup k = some ri ∧ ri.claimID = claim) ∧
    ∀ k ri, l.world.core.running.lookup k = some ri → ri.reconnect = false → k ∉ l'.world.core.running →
      ri.claimID ∈ l'.notes.released ∨ k ∈ l.notes.parted := by
  intro l l'
  have hstep : ∀ (l : Ledger E) a, Conserving cfg l a → Sound cfg l → Sound cfg (l.step cfg a) := fun l a ha h =>
    h.step ha
  have hsound : Sound cfg l := Runs.foldl_inv_of hstep (start_sound cfg hq) (Runs.meets_append.1 hacts).1
  refine ⟨fun claimBlob matchAd k s fin hs hextra hended claim hclaim => ?_, fun k ri hl hrec hout => ?_⟩
  · subst hs
    rw [claimIds_of_no_extra hextra, mem_singleton] at hclaim
    subst hclaim
    exact match_handled hsound.conducted hended
  · cases a with
    | sched => exact entry_released hsound.kept hl hrec hout
    | edit => exact absurd ((KeyMap.mem_iff_lookup _ _).2 ⟨ri, hl⟩) hout

end Ledger

namespace Ledger

/-- steps of the schedd alone -/
def run (cfg : SchedConfig Value) (l : Ledger Value) (steps : List World.Step) : Ledger Value :=
  steps.foldl (fun l s => l.step cfg (.sched s)) l

/-- the first job runs to its end, and the core takes its exit -/
theorem exited_claim_released :
    "<10.0.0.2:9618>#1#1" ∈ (run poolSched (start aliceQueue) (World.exitQueued ++ [.take])).notes.released := by
  have hq : aliceQueue.coll.Keyed := fun k ad h => Sys.reachable_wellKeyed aliceQueue_reachable h
  have hmeets : Runs.Meets (fun l s => step poolSched l (.sched s)) (fun l s => l.conserves poolSched s = true)
      (start aliceQueue) (exitQueued ++ [.take]) := by decide +kernel
  have hacts : Runs.Meets (step poolSched) (Conserving poolSched) (start aliceQueue)
      (exitQueued.map .sched ++ [.sched .take]) := by
    have hmap : Runs.Meets (step poolSched) (Conserving poolSched) (start aliceQueue)
        ((exitQueued ++ [World.Step.take]).map .sched) := (Runs.meets_map World.Act.sched).2 hmeets
    rwa [map_append] at hmap
  have hconserved := (claims_conserved poolSched aliceQueue hq _ _ hacts).2
  rw [foldl_map] at hconserved
  have hentry : ((run poolSched (start aliceQueue) exitQueued).world.core.running.lookup ⟨1, 0⟩).any
      (fun ri => ri.claimID = "<10.0.0.2:9618>#1#1" && !ri.reconnect) = true := by decide +kernel
  obtain ⟨ri, hl, hri⟩ := (Option.any_eq_true _ _).1 hentry
  rw [Bool.and_eq_true, decide_eq_true_eq, Bool.not_eq_true'] at hri
  have hgone : (⟨1, 0⟩ : JobKey) ∉
      ((run poolSched (start aliceQueue) exitQueued).step poolSched (.sched .take)).world.core.running := by
    decide +kernel
  have hparted : (run poolSched (start aliceQueue) exitQueued).notes.parted = [] := by decide +kernel
  rcases hconserved ⟨1, 0⟩ ri hl hri.2 hgone with hreleased | hin
  · rw [hri.1] at hreleased
    simpa [run, foldl_append] using hreleased
  · exact absurd (hparted ▸ hin) not_mem_nil

/-- a claim with one extra claim -/
def twoClaims : String := "<10.0.0.2:9618>#1#1 <10.0.0.2:9618>#1#2"

/-- the negotiator gives both to the first job of `aliceQueue` -/
def twoClaimsMatch : Match := (Negotiate.readMatch twoClaims (Ad.empty : Ad Value)).forCore ⟨1, 0⟩

/-- the startd re-keys the claim and refuses to activate it -/
def rekeyed : Choice := { smooth with claim := .failed "ACTIVATE_CLAIM failed: refused" "<10.0.0.2:9618>#1#7" }

/-- the drain cancels the run before it has its claim -/
def cancelled : Choice :=
  { smooth with claim := .failed "REQUEST_CLAIM failed: context canceled" "<10.0.0.2:9618>#1#1" }

/-- **Claims that are lost.** An extra claim is neither registered nor released when the core has handled its match. A
run that fails on a re-keyed claim leaves the registry with the claim of its entry not released. So does a run that a
drain detaches before its job is Running. -/
theorem claims_lost :
    (let l := run poolSched (start aliceQueue) [.onMatch twoClaimsMatch, .take, .core smooth]
      let l' := l.step poolSched (.sched (.core smooth))
      (l.world.ended poolSched (.core smooth)).map Prod.fst = some (some (.evMatch twoClaimsMatch)) ∧
        "<10.0.0.2:9618>#1#2" ∈ Negotiate.claimIds twoClaims ∧ l'.notes.released = [] ∧
        (l'.world.core.running.lookup ⟨1, 0⟩).map (·.claimID) = some "<10.0.0.2:9618>#1#1") ∧
    (let l := run poolSched (start aliceQueue) (accepted ++ [.thread 1 rekeyed, .thread 1 rekeyed])
      let l' := l.step poolSched (.sched .take)
      (l.world.core.running.lookup ⟨1, 0⟩).map (·.claimID) = some "<10.0.0.2:9618>#1#1" ∧
        l'.world.core.running.keys = [] ∧ l'.notes.released = ["<10.0.0.2:9618>#1#7"]) ∧
    (let l := run poolSched (start aliceQueue) (accepted ++ [.drain, .take, .thread 1 cancelled, .thread 1 cancelled])
      let l' := l.step poolSched (.sched .take)
      (l.world.core.running.lookup ⟨1, 0⟩).map (·.claimID) = some "<10.0.0.2:9618>#1#1" ∧ l.notes.parted = [] ∧
        l'.world.core.running.keys = [] ∧ l'.notes.released = []) := by
  decide +kernel

end Ledger

end AccessPoint

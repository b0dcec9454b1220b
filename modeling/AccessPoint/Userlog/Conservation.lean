/-
No event is lost and none is counted twice (internal/userlog/manager.go, `enqueue`, `drop`, `Close`, `buffered`).

`Close` takes the buffers for drained when one walk over the map finds nothing buffered and nothing owned. A producer
that looked its file up before `Close` may send after the walk has passed that file, and its event stays in the buffer.

- `Books`: what a step adds to the sends and the drops, one entry for each call.
- `Drained`: what the walk of `Close` has found empty is empty.
- `event_conservation`, `send_after_scan`.
-/
import AccessPoint.Userlog.Order

namespace AccessPoint.Userlog

open List

variable {R : Type}

/-- before its send -/
def Producer.pending : Producer R → Bool
  | .calling _ => true
  | .sending _ _ => true
  | _ => false

def Obs.sentPair : Obs R → Option (ℕ × QueuedEvent R)
  | .sent f _ ev => some (f, ev)
  | _ => none

def Obs.wrotePair : Obs R → Option (ℕ × QueuedEvent R)
  | .wrote _ f _ ev => some (f, ev)
  | _ => none

def Obs.droppedCall : Obs R → Option ℕ
  | .dropped i => some i
  | _ => none

/-- the context of `Close` is not done -/
def Step.timely : Step R → Bool
  | .closer ch => !ch.expired
  | _ => true

/-- two lists of pairs that have the same second components at each first one -/
theorem perm_of_fibers {α β : Type} [DecidableEq α] {l l' : List (α × β)}
    (h : ∀ a, (l.filter (·.1 = a)).map (·.2) = (l'.filter (·.1 = a)).map (·.2)) : l.Perm l' := by
  classical
  have hcount : ∀ (l : List (α × β)) a b, ((l.filter (·.1 = a)).map (·.2)).count b = l.count (a, b) := by
    intro l a b
    induction l with
    | nil => rfl
    | cons x l ih =>
      obtain ⟨a', _⟩ := x
      by_cases ha : a' = a
      · simp [ha, count_cons, ih]
      · simp [ha, ih]
  rw [perm_iff_count]
  rintro ⟨a, _⟩
  rw [← hcount l, ← hcount l', h a]

namespace Manager

variable {m m' : Manager R} {f : ℕ}

def sentPairs (m : Manager R) : List (ℕ × QueuedEvent R) := m.trace.filterMap Obs.sentPair

def wrotePairs (m : Manager R) : List (ℕ × QueuedEvent R) := m.trace.filterMap Obs.wrotePair

/-- the calls whose events were sent -/
def sentCalls (m : Manager R) : List ℕ := m.sentPairs.map (·.2.call)

/-- the calls whose events were written, one entry for each return of `WriteEvent` -/
def wroteCalls (m : Manager R) : List ℕ := m.wrotePairs.map (·.2.call)

def droppedCalls (m : Manager R) : List ℕ := m.trace.filterMap Obs.droppedCall

/-- the event of call `i` was sent or dropped -/
def done (m : Manager R) (i : ℕ) : Bool := (m.producers.lookup i).any fun p => !p.pending

/-! ## One entry for each call -/

/-- what a step adds to the sends and the drops -/
inductive Books (m m' : Manager R) : Prop where
  | same (hsent : m'.sentCalls = m.sentCalls) (hdrop : m'.droppedCalls = m.droppedCalls) (hn : m'.dropped = m.dropped)
      (hdone : ∀ i, m'.done i = m.done i)
  | sent (i : ℕ) (hi : m.done i = false) (hsent : m'.sentCalls = m.sentCalls ++ [i]) (hdrop : m'.droppedCalls =
    m.droppedCalls)
      (hn : m'.dropped = m.dropped) (hdone : ∀ i', m'.done i' = if i' = i then true else m.done i')
  | dropped (i : ℕ) (hi : m.done i = false) (hsent : m'.sentCalls = m.sentCalls)
      (hdrop : m'.droppedCalls = m.droppedCalls ++ [i]) (hn : m'.dropped = m.dropped + 1)
      (hdone : ∀ i', m'.done i' = if i' = i then true else m.done i')

theorem done_setProducer (m : Manager R) (i : ℕ) (p : Producer R) (i' : ℕ) :
    (m.setProducer i p).done i' = if i' = i then !p.pending else m.done i' := by
  simp only [done, setProducer, KeyMap.lookup_insert_ite]
  split_ifs <;> rfl

/-- a producer that goes on, its event sent or dropped before if it is after -/
theorem done_same {i : ℕ} {p p' : Producer R} (hp : m.producers.lookup i = some p) (h : p'.pending = p.pending)
    (i' : ℕ) :
    (m.setProducer i p').done i' = m.done i' := by
  rw [done_setProducer]
  split_ifs with he
  · rw [he, h, done, hp]
    rfl
  · rfl

theorem Books.drop {i : ℕ} {p : Producer R} (hp : m.producers.lookup i = some p) (hpending : p.pending = true)
    {m₁ : Manager R}
    (hprod : m₁.producers = m.producers) (htrace : m₁.trace = m.trace) (hn : m₁.dropped = m.dropped) :
    Books m (m₁.drop i) := by
  refine .dropped i ?_ ?_ ?_ (congrArg (· + 1) hn) fun i' => ?_
  · rw [done, hp]
    simp [hpending]
  · simp [sentCalls, sentPairs, Manager.drop, observe, setProducer, Obs.sentPair, htrace]
  · simp [droppedCalls, Manager.drop, observe, setProducer, Obs.droppedCall, htrace]
  · refine (done_setProducer _ i .returned i').trans ?_
    simp only [done, observe, hprod]
    rfl

/-- **One step** of an execution in which no producer finds the ready queue full. -/
theorem step_books (hs : m.Sound) (hr : m.Roomy) (s : Step R) : Books m (m.step s) := by
  have hmove := step_move m s
  generalize m.step s = m' at hmove
  cases hmove with
  | idle | reap => exact .same rfl rfl rfl fun _ => rfl
  | call =>
    refine .same rfl rfl rfl fun i => ?_
    rw [done_setProducer]
    split_ifs with he
    · rw [he, done, hs.allocated.calls m.calls le_rfl]
      rfl
    · rfl
  | producer i ch _ hprod =>
    cases hprod with
    | refuse c hp | giveUp c f hp => exact .drop hp rfl rfl rfl rfl
    | found c f hp | signal f hp | covered f hp =>
      exact .same rfl rfl rfl (done_same hp rfl)
    | create c now m₁ hp hmu hclosing hl hm => cases hm <;> exact .same rfl rfl rfl (done_same hp rfl)
    | send c f hp =>
      refine .sent i ?_ ?_ ?_ rfl fun i' => done_setProducer _ i (.sent f) i'
      · rw [done, hp]
        rfl
      · simp [sentCalls, sentPairs, Manager.send, observe, setProducer, setFile, Obs.sentPair]
      · simp [droppedCalls, Manager.send, observe, setProducer, setFile, Obs.droppedCall]
    | push f hp | overflow f hp => exact .same rfl rfl rfl (done_same hp rfl)
    | undo f hp => exact absurd hp (hr i f)
  | worker j ch _ hwork =>
    cases hwork with
    | write =>
      refine .same ?_ ?_ rfl fun _ => rfl
      · simp [sentCalls, sentPairs, Manager.write, observe, setWorker, setFile, Obs.sentPair]
      · simp [droppedCalls, Manager.write, observe, setWorker, setFile, Obs.droppedCall]
    | _ => exact .same rfl rfl rfl fun _ => rfl
  | closer ch _ hclose => cases hclose <;> exact .same rfl rfl rfl fun _ => rfl

/-- each call was sent or dropped once, if it is past that -/
def Balanced (m : Manager R) : Prop :=
  (∀ i, m.sentCalls.count i + m.droppedCalls.count i = (m.done i).toNat) ∧ m.dropped = m.droppedCalls.length

theorem Balanced.step (h : m.Balanced) (hs : m.Sound) (hr : m.Roomy) (s : Step R) : (m.step s).Balanced := by
  obtain ⟨hcount, hlen⟩ := h
  have hone : ∀ i, m.done i = false → ∀ i', (if i' = i then true else m.done i').toNat =
      (m.done i').toNat + [i].count i' := by
    intro i hi i'
    rw [count_singleton]
    by_cases he : i' = i
    · subst he
      simp [hi]
    · simp [he, Ne.symm he]
  cases step_books hs hr s with
  | same hsent hdrop hn hdone =>
    refine ⟨fun i => ?_, by rw [hn, hdrop, hlen]⟩
    rw [hsent, hdrop, hdone, hcount]
  | sent i hi hsent hdrop hn hdone =>
    refine ⟨fun i' => ?_, by rw [hn, hdrop, hlen]⟩
    have hold := hcount i'
    rw [hsent, hdrop, hdone, count_append, hone i hi i']
    omega
  | dropped i hi hsent hdrop hn hdone =>
    refine ⟨fun i' => ?_, by rw [hn, hdrop, hlen, length_append, length_singleton]⟩
    have hold := hcount i'
    rw [hsent, hdrop, hdone, count_append, hone i hi i']
    omega

/-! ## What `Close` sees -/

/-- `Close` has still to look at the file, or will walk the files again -/
def willLook (m : Manager R) (f : ℕ) : Bool :=
  match m.closer with
  | .scanning n todo => 0 < n || todo.contains f
  | .looked n _ todo => 0 < n || todo.contains f
  | .stopping => false
  | .waiting => false
  | .returned => false
  | _ => true

/-- a send that goes through is into the buffer of a file `Close` has still to look at -/
def heard (m : Manager R) : Step R → Bool
  | .producer i ch =>
    match m.producers.lookup i with
    | some (.sending _ f) => !m.sendsInto f (.producer i ch) || m.willLook f
    | _ => true
  | _ => true

variable {s : Step R}

theorem sendsInto_look (h : m.heard s = true) (hinto : m.sendsInto f s = true) : m.willLook f = true := by
  cases s with
  | producer i =>
    cases hl : m.producers.lookup i with
    | none => simp [sendsInto, hl] at hinto
    | some p =>
      cases p with
      | sending c f' =>
        obtain rfl : f' = f := by
          simp only [sendsInto, hl, Bool.and_eq_true, decide_eq_true_eq] at hinto
          exact hinto.1.1
        simp only [heard, hl, hinto, Bool.not_true, Bool.false_or] at h
        exact h
      | _ => simp [sendsInto, hl] at hinto
  | _ => cases hinto

/-- nothing buffered and nothing in hand -/
structure Empty (m : Manager R) (f : ℕ) : Prop where
  buffer : (m.heap f).ch = []
  workers : ∀ j ev, m.workers.lookup j ≠ some (.writing f ev)

theorem Empty.step (h : m.Empty f) (hs : m.sendsInto f s = false) : (m.step s).Empty f := by
  refine ⟨step_buffer m h.buffer hs, fun j ev hj => ?_⟩
  rcases step_writing m s hj with hold | hch
  · exact h.workers j ev hold
  · exact hch h.buffer

/-- what the walk has found empty is empty -/
def Drained (m : Manager R) : Prop :=
  match m.closer with
  | .scanning n todo => n = 0 → ∀ f, f ∉ todo → m.Empty f
  | .looked n f todo => n = 0 → (∀ f', f' ∉ f :: todo → m.Empty f') ∧ (f ∉ todo → (m.heap f).ch = [])
  | .stopping => ∀ f, m.Empty f
  | .waiting => ∀ f, m.Empty f
  | .returned => ∀ f, m.Empty f
  | _ => True

theorem Closes.keeps_drained {expired : Bool} (h : Closes m expired m') (hs : m.Sound)
    (hq : ∀ f, f ∉ m.tracked → m.Quiet f)
    (htimely : expired = false) (hd : m.Drained) : m'.Drained := by
  unfold Drained at hd
  cases h with
  | begin | marked | lock | skip | push | undo | again => trivial
  | poll order hc ho =>
    intro _ f hf
    have hquiet := hq f fun hin => hf (ho.mem_iff.2 hin)
    exact ⟨hquiet.buffer, hquiet.workers⟩
  | look n f todo hc =>
    rw [hc] at hd
    intro hn
    have hch : (m.heap f).ch = [] := length_eq_zero_iff.1 (Nat.eq_zero_of_add_eq_zero_left hn)
    have hrest := hd (Nat.eq_zero_of_add_eq_zero_right hn)
    exact ⟨fun f' hf' => ⟨(hrest f' hf').buffer, (hrest f' hf').workers⟩, fun _ => hch⟩
  | count n f todo hc =>
    rw [hc] at hd
    intro hn f' hf'
    -- nothing was counted: the file is not owned, so nobody has an event of it in hand
    have howned : (m.heap f).owned = false := by
      by_contra hne
      rw [if_pos (by simpa using hne)] at hn
      omega
    rw [howned, if_neg (by simp)] at hn
    obtain ⟨hrest, hch⟩ := hd hn
    by_cases he : f' = f
    · subst he
      refine ⟨hch hf', fun j ev hj => ?_⟩
      have howned' : (m.heap f').owned = true := hs.ownership.owned hj (decide_eq_true rfl)
      rw [howned] at howned'
      cases howned'
    · have hempty := hrest f' fun hin => (mem_cons.1 hin).elim he hf'
      exact ⟨hempty.buffer, hempty.workers⟩
  | drained hc =>
    rw [hc] at hd
    exact fun f => ⟨(hd rfl f not_mem_nil).buffer, (hd rfl f not_mem_nil).workers⟩
  | expire n hc he =>
    rw [htimely] at he
    cases he
  | quit hc | done hc =>
    rw [hc] at hd
    exact fun f => ⟨(hd f).buffer, (hd f).workers⟩

/-- a step of another goroutine leaves `Close` where it is -/
theorem Drained.other (hd : m.Drained) (hcloser : (m.step s).closer = m.closer) (hheard : m.heard s = true) :
    (m.step s).Drained := by
  -- a file `Close` will not look at any more gets no event
  have hunseen : ∀ f, m.willLook f = false → m.sendsInto f s = false := by
    intro f hlook
    by_contra hinto
    rw [sendsInto_look hheard (by simpa using hinto)] at hlook
    cases hlook
  have hover : m.willLook = (fun _ => false) → (∀ f, m.Empty f) → ∀ f, (m.step s).Empty f := by
    intro hlook hempty f
    exact (hempty f).step (hunseen f (congrFun hlook f))
  unfold Drained at hd ⊢
  rw [hcloser]
  cases hc : m.closer with
  | scanning =>
    rw [hc] at hd
    rintro rfl f hf
    exact (hd rfl f hf).step (hunseen f (by simp [willLook, hc, hf]))
  | looked n f todo =>
    rw [hc] at hd
    rintro rfl
    obtain ⟨hrest, hch⟩ := hd rfl
    refine ⟨fun f' hf' => ?_, fun hf => ?_⟩
    · have hf'' : f' ∉ todo := fun hin => hf' (mem_cons_of_mem f hin)
      exact (hrest f' hf').step (hunseen f' (by simp [willLook, hc, hf'']))
    · exact step_buffer m (hch hf) (hunseen f (by simp [willLook, hc, hf]))
  | stopping | waiting | returned =>
    rw [hc] at hd
    exact hover (by funext f; simp [willLook, hc]) hd
  | _ => trivial

theorem Move.closer_eq (h : Move m s m') (hs : ∀ ch, s ≠ .closer ch) : m'.closer = m.closer := by
  cases h with
  | idle | call | reap => rfl
  | producer i ch _ h =>
    cases h with
    | create c now m₁ hp hmu hclosing hl hm => cases hm <;> rfl
    | _ => rfl
  | worker j ch _ h => cases h <;> rfl
  | closer ch => exact absurd rfl (hs ch)

theorem Drained.step (hd : m.Drained) (hs : m.Sound) (hq : ∀ f, f ∉ m.tracked → m.Quiet f)
    (hheard : m.heard s = true) (htimely : s.timely = true) : (m.step s).Drained := by
  have hmove := step_move m s
  cases s with
  | closer ch =>
    generalize m.step (.closer ch) = m' at hmove
    cases hmove with
    | idle => exact hd
    | closer _ _ h => exact h.keeps_drained hs hq (by simpa [Step.timely] using htimely) hd
  | _ => exact hd.other (hmove.closer_eq fun _ h => (nomatch h)) hheard

/-! ## The balance -/

theorem spares_mono {held held' : ℕ → Producer R → Bool} (hle : ∀ f p, held f p = true → held' f p = true)
    (h : m.spares held' s = true) : m.spares held s = true := by
  unfold spares at h ⊢
  cases hout : m.takesOut s with
  | none => rfl
  | some f =>
    rw [hout] at h
    have hzero : m.producers.count (held' f) = 0 := eq_of_beq h
    have hcount := KeyMap.count_mono (hle f) m.producers
    exact beq_iff_eq.2 (by omega)

/-- what every execution keeps in which no file state is taken out of the map while a producer holds it, every send is
into a file `Close` has still to look at, and the context of `Close` is not done -/
structure Conserved (m : Manager R) : Prop where
  roomed : m.Roomed
  quiet : ∀ f, f ∉ m.tracked → m.Quiet f
  line : ∀ f, Line (fun f' _ => f' = f) (some f) m
  balanced : m.Balanced
  drained : m.Drained

theorem tells_file (m : Manager R) (f : ℕ) : Tells (fun f' _ => f' = f) (some f) m := by
  refine ⟨fun i c f' _ => ?_, fun j f' ev _ => ?_⟩ <;>
  · refine decide_eq_decide.2 ⟨?_, ?_⟩
    · rintro rfl
      rfl
    · intro h
      exact (Option.some.inj h).symm

theorem Conserved.step (h : m.Conserved) (hspares : m.spares Producer.holds s = true) (hheard : m.heard s = true)
    (htimely : s.timely = true) : (m.step s).Conserved := by
  have hsound := h.roomed.sound
  have hsends : m.spares Producer.sends s = true :=
    spares_mono (fun f p hp => by simp [Producer.holds, hp]) hspares
  refine ⟨h.roomed.step hspares, fun f hf => quiet_step hsound h.quiet hsends hf, fun f => ?_,
    h.balanced.step hsound h.roomed.roomy s, h.drained.step hsound h.quiet hheard htimely⟩
  refine (h.line f).step hsound.ownership (tells_file m f) (fun f' _ hf' => ?_) s
  refine (h.quiet f' fun hin => ?_).buffer
  obtain ⟨p, hl⟩ := (mem_tracked m f').1 hin
  exact absurd (hsound.allocated.files p f' hl).1 (Nat.not_lt.2 hf')

theorem new_conserved (cfg : Config) : (new cfg : Manager R).Conserved := by
  have hordered := new_ordered (R := R) cfg
  refine ⟨new_roomed cfg, hordered.quiet, fun f =>
    ⟨[], .empty _ fun f' _ j ev hj => ?_, rfl⟩, ⟨fun i => ?_, rfl⟩, trivial⟩
  · have hw := new_idle cfg hj
    cases hw
  · simp [new, sentCalls, sentPairs, droppedCalls, done]

theorem sentBy_file (m : Manager R) (f : ℕ) :
    m.sentBy (fun f' _ => f' = f) = (m.sentPairs.filter (·.1 = f)).map (·.2) := by
  unfold sentBy sentPairs
  induction m.trace with
  | nil => rfl
  | cons ob tr ih =>
    cases ob with
    | sent f' => by_cases he : f' = f <;> simp [Obs.sentEvent, Obs.sentPair, he, ih]
    | _ => exact ih

theorem wroteBy_file (m : Manager R) (f : ℕ) :
    m.wroteBy (fun f' _ => f' = f) = (m.wrotePairs.filter (·.1 = f)).map (·.2) := by
  unfold wroteBy wrotePairs
  induction m.trace with
  | nil => rfl
  | cons ob tr ih =>
    cases ob with
    | wrote j f' => by_cases he : f' = f <;> simp [Obs.wroteEvent, Obs.wrotePair, he, ih]
    | _ => exact ih

/-- when every file is empty, what was sent was written -/
theorem Conserved.written (h : m.Conserved) (hempty : ∀ f, m.Empty f) : m.wroteCalls.Perm m.sentCalls := by
  have hpairs : m.wrotePairs.Perm m.sentPairs := by
    refine perm_of_fibers fun f => ?_
    rw [← sentBy_file, ← wroteBy_file]
    obtain ⟨_, hhand, hline⟩ := h.line f
    have hbuffer : m.buffer (some f) = [] := (hempty f).buffer
    cases hhand with
    | empty =>
      rw [hline, hbuffer]
      simp
    | full _ j ev hj => exact absurd hj ((hempty f).workers j ev)
  exact hpairs.map _

/-- **Every event is accounted for,** along every execution in which no file state is taken out of the map while a
producer holds a pointer to it, every send that goes through is into a file `Close` has still to look at, and the
context of `Close` does not expire: once `Close` and all calls have returned, each call has exactly one entry among the
writes and the drops. -/
theorem event_conservation (cfg : Config) (steps : List (Step R))
    (hs : Runs.Meets step (fun m s => spares Producer.holds m s = true ∧ heard m s = true ∧
      s.timely = true) (new cfg) steps)
    (hclose : (run (new cfg) steps).closer = .returned)
    (hcalls : ∀ i < (run (new cfg) steps).calls, (run (new cfg) steps).producers.lookup i = some .returned) :
    let m := run (new cfg) steps
    m.wroteCalls.length + m.dropped = m.calls ∧ (m.wroteCalls ++ m.droppedCalls).Perm (range m.calls) := by
  intro m
  have hkept : m.Conserved :=
    Runs.foldl_inv_of (fun _ _ hstep h => h.step hstep.1 hstep.2.1 hstep.2.2) (new_conserved cfg) hs
  have hempty : ∀ f, m.Empty f := by
    have hdrained := hkept.drained
    unfold Drained at hdrained
    rw [show m.closer = .returned from hclose] at hdrained
    exact hdrained
  obtain ⟨hcount, hdropped⟩ := hkept.balanced
  have hperm : (m.wroteCalls ++ m.droppedCalls).Perm (range m.calls) := by
    refine ((hkept.written hempty).append_right _).trans (perm_iff_count.2 fun i => ?_)
    rw [count_append, hcount i]
    by_cases hi : i < m.calls
    · rw [count_eq_one_of_mem nodup_range (mem_range.2 hi), done, hcalls i hi]
      rfl
    · rw [count_eq_zero_of_not_mem fun hin => hi (mem_range.1 hin), done,
        hkept.roomed.sound.allocated.calls i (Nat.not_lt.1 hi)]
      rfl
  have hlen := hperm.length_eq
  rw [length_append, length_range] at hlen
  exact ⟨by rw [hdropped]; exact hlen, hperm⟩

/-- one event is written, a second one refused because `Close` has begun -/
def closedInTime : List (Step ℕ) :=
  poppedOnce ++ List.replicate 5 (.worker 0 plain) ++
    [.closer { plain with order := [0] }, .closer plain, .closer plain, .call ⟨"/a.log", ⟨1, 0, 0⟩, 8, true⟩,
      .producer 1 plain,
      .closer { plain with order := [0] }, .closer plain, .closer plain, .closer plain, .closer plain,
      .worker 0 { plain with leave := true }, .closer plain]

theorem closed_in_time_balances :
    (run (new oneFile) closedInTime).wroteCalls = [0] ∧ (run (new oneFile) closedInTime).droppedCalls = [1] ∧
      (run (new oneFile) closedInTime).wroteCalls.length + (run (new oneFile) closedInTime).dropped =
        (run (new oneFile) closedInTime).calls := by
  have hsteps : Runs.Meets step (fun m s => spares Producer.holds m s = true ∧ heard m s = true ∧
    s.timely = true) (new oneFile)
      closedInTime := by decide +kernel
  have hclose : (run (new oneFile) closedInTime).closer = .returned := by decide +kernel
  have hcalls : ∀ i < (run (new oneFile) closedInTime).calls,
      (run (new oneFile) closedInTime).producers.lookup i = some .returned := by decide +kernel
  refine ⟨?_, ?_, (event_conservation oneFile closedInTime hsteps hclose hcalls).1⟩
  · decide +kernel
  · decide +kernel

/-- the producer has looked its file up; `Close` finds nothing buffered and stops the workers; then the event is sent -/
def sentAfterScan : List (Step ℕ) :=
  [.call ⟨"/a.log", ⟨1, 0, 0⟩, 7, true⟩, .producer 0 plain, .closer { plain with order := [0] }, .closer plain,
    .closer plain, .closer { plain with order := [0] }, .closer plain, .closer plain, .closer plain, .closer plain,
    .worker 0 { plain with leave := true }, .closer plain, .producer 0 plain, .producer 0 plain, .producer 0 plain]

theorem send_after_scan :
    (∀ s ∈ sentAfterScan, s.timely = true) ∧ (run (new oneFile) sentAfterScan).closer = .returned ∧
      (run (new oneFile) sentAfterScan).producers.lookup 0 = some .returned ∧
        (run (new oneFile) sentAfterScan).calls = 1 ∧
      (run (new oneFile) sentAfterScan).wroteCalls = [] ∧ (run (new oneFile) sentAfterScan).dropped = 0 := by
  decide +kernel

end Manager

end AccessPoint.Userlog

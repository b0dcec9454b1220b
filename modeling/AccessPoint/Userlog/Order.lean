/-
The order of the events of one log (internal/userlog/manager.go, `enqueue`, `drainFile`, `reapLoop`, `evictIdleLocked`).

What was sent into a buffer is what a worker has written from it, then what its owner has in hand, then what is still
buffered (`Line`). This holds for each file state by ownership alone, and for a path as long as all events for it go
through one file state at a time: a file state that is taken out of the map must have no sender left, since the next
producer of the path gets another one.

- `Line.step`: the line of a file, for any selection of the observations that tells its events from the others.
- `per_path_order`, `two_states_of_one_path`.
-/
import AccessPoint.Userlog.Capacity

namespace AccessPoint.Userlog

open KeyMap List

variable {R : Type}

/-- an event sent into a buffer that `S` selects by file and path -/
def Obs.sentEvent (S : ℕ → String → Bool) : Obs R → Option (QueuedEvent R)
  | .sent f path ev => if S f path then some ev else none
  | _ => none

def Obs.wroteEvent (S : ℕ → String → Bool) : Obs R → Option (QueuedEvent R)
  | .wrote _ f w ev => if S f w.path then some ev else none
  | _ => none

def Worker.inWrite : Worker R → Bool
  | .writing _ _ => true
  | _ => false

namespace Manager

variable {m m' : Manager R} {f : ℕ} {S : ℕ → String → Bool} {o : Option ℕ}

/-- the events sent, in the order in which the sends completed -/
def sentBy (S : ℕ → String → Bool) (m : Manager R) : List (QueuedEvent R) := m.trace.filterMap (Obs.sentEvent S)

/-- the events written -/
def wroteBy (S : ℕ → String → Bool) (m : Manager R) : List (QueuedEvent R) := m.trace.filterMap (Obs.wroteEvent S)

def sentTo (m : Manager R) (path : String) : List (QueuedEvent R) := m.sentBy fun _ p => p = path

def wroteTo (m : Manager R) (path : String) : List (QueuedEvent R) := m.wroteBy fun _ p => p = path

theorem sentBy_observe (m : Manager R) (S : ℕ → String → Bool) (ob : Obs R) :
    (m.observe ob).sentBy S = m.sentBy S ++ (ob.sentEvent S).toList := by
  simp only [sentBy, observe, filterMap_append]
  cases h : ob.sentEvent S <;> simp [h]

theorem wroteBy_observe (m : Manager R) (S : ℕ → String → Bool) (ob : Obs R) :
    (m.observe ob).wroteBy S = m.wroteBy S ++ (ob.wroteEvent S).toList := by
  simp only [wroteBy, observe, filterMap_append]
  cases h : ob.wroteEvent S <;> simp [h]

/-! ## The line of a file -/

/-- what a worker has taken from the buffer of the file and not written -/
inductive Hand (m : Manager R) : Option ℕ → List (QueuedEvent R) → Prop where
  | empty (o : Option ℕ) (h : ∀ f ∈ o, ∀ j ev, m.workers.lookup j ≠ some (.writing f ev)) : Hand m o []
  | full (f j : ℕ) (ev : QueuedEvent R) (h : m.workers.lookup j = some (.writing f ev)) : Hand m (some f) [ev]

def buffer (m : Manager R) : Option ℕ → List (QueuedEvent R)
  | some f => (m.heap f).ch
  | none => []

/-- the events that `S` selects: written, in hand, buffered -/
def Line (S : ℕ → String → Bool) (o : Option ℕ) (m : Manager R) : Prop :=
  ∃ hand, m.Hand o hand ∧ m.sentBy S = m.wroteBy S ++ hand ++ m.buffer o

/-- `S` tells the events of the file from those of any other -/
structure Tells (S : ℕ → String → Bool) (o : Option ℕ) (m : Manager R) : Prop where
  sending : ∀ i c f, m.producers.lookup i = some (.sending c f) → S f c.path = decide (o = some f)
  writing : ∀ j f ev, m.workers.lookup j = some (.writing f ev) →
    S f ((m.heap f).writerFor ev.key).path = decide (o = some f)

/-- a step that neither sends, receives nor writes an event of the file -/
theorem Line.same (h : Line S o m) (hsent : m'.sentBy S = m.sentBy S) (hwrote : m'.wroteBy S = m.wroteBy S)
    (hch : ∀ f ∈ o, (m'.heap f).ch = (m.heap f).ch)
    (hw : ∀ f ∈ o, ∀ j ev, m'.workers.lookup j = some (.writing f ev) ↔ m.workers.lookup j = some (.writing f ev)) :
    Line S o m' := by
  obtain ⟨hand, hhand, hline⟩ := h
  have hbuffer : m'.buffer o = m.buffer o := by
    cases o with
    | none => rfl
    | some f => exact hch f rfl
  refine ⟨hand, ?_, by rw [hsent, hwrote, hbuffer, hline]⟩
  cases hhand with
  | empty _ hnone => exact .empty o fun f hf j ev hl => hnone f hf j ev ((hw f hf j ev).1 hl)
  | full f j ev hl => exact .full f j ev ((hw f rfl j ev).2 hl)

/-- a file with nothing in it may leave the line -/
theorem Line.leave (h : Line S (some f) m) (hch : (m.heap f).ch = [])
    (hw : ∀ j ev, m.workers.lookup j ≠ some (.writing f ev)) :
    Line S none m := by
  obtain ⟨_, hhand, hline⟩ := h
  have hbuffer : m.buffer (some f) = [] := hch
  cases hhand with
  | empty => exact ⟨[], .empty none fun f' hf' => (nomatch hf'), by rw [hline, hbuffer]; rfl⟩
  | full _ j ev hj => exact absurd hj (hw j ev)

/-- and come into it -/
theorem Line.enter (h : Line S none m) (hch : (m.heap f).ch = [])
    (hw : ∀ j ev, m.workers.lookup j ≠ some (.writing f ev)) :
    Line S (some f) m := by
  obtain ⟨_, hhand, hline⟩ := h
  have hbuffer : m.buffer (some f) = [] := hch
  cases hhand with
  | empty _ _ =>
    refine ⟨[], .empty _ fun f' hf' => ?_, by rw [hline, hbuffer]; rfl⟩
    obtain rfl := Option.some.inj hf'
    exact hw

variable {j : ℕ}

/-- a worker goes on, neither from a write nor to one -/
theorem Line.worker (h : Line S o m) {w : Worker R} (hj : m.workers.lookup j = some w) (w' : Worker R)
    (hold : w.inWrite = false) (hnew : w'.inWrite = false) : Line S o (m.setWorker j w') := by
  refine h.same rfl rfl (fun _ _ => rfl) fun f _ j' ev => ?_
  simp only [setWorker, lookup_insert_ite]
  split_ifs with he
  · subst he
    rw [hj]
    constructor
    · intro hl
      obtain rfl := Option.some.inj hl
      cases hnew
    · intro hl
      obtain rfl := Option.some.inj hl
      cases hold
  · exact Iff.rfl

/-- the file state of a producer's step keeps its buffer -/
theorem Line.keep (h : Line S o m) (hfiles : ∀ f, (m'.heap f).ch = (m.heap f).ch) (hworkers : m'.workers = m.workers)
    (hsent : m'.sentBy S = m.sentBy S) (hwrote : m'.wroteBy S = m.wroteBy S) : Line S o m' :=
  h.same hsent hwrote (fun f _ => hfiles f) fun f _ j ev => by rw [hworkers]

theorem Line.drop (h : Line S o m) (i : ℕ) : Line S o (m.drop i) := by
  refine h.keep (fun _ => rfl) rfl ?_ ?_
  · exact (sentBy_observe { m with dropped := m.dropped + 1 } S (.dropped i)).trans (append_nil _)
  · exact (wroteBy_observe { m with dropped := m.dropped + 1 } S (.dropped i)).trans (append_nil _)

/-- a send goes to the end of the buffer -/
theorem Line.send (h : Line S o m) (hS : Tells S o m) {i : ℕ} {c : Call R}
    (hp : m.producers.lookup i = some (.sending c f)) :
    Line S o (m.send i c f) := by
  have hsent : (m.send i c f).sentBy S = m.sentBy S ++ if o = some f then [⟨i, c.key, c.record⟩] else [] := by
    refine (sentBy_observe (m.setFile f ((m.heap f).push ⟨i, c.key, c.record⟩)) S
      (.sent f c.path ⟨i, c.key, c.record⟩)).trans ?_
    congr 1
    simp only [Obs.sentEvent, hS.sending i c f hp, decide_eq_true_eq]
    split_ifs <;> rfl
  have hwrote : (m.send i c f).wroteBy S = m.wroteBy S :=
    (wroteBy_observe (m.setFile f ((m.heap f).push ⟨i, c.key, c.record⟩)) S (.sent f c.path ⟨i, c.key, c.record⟩)).trans
      (append_nil _)
  by_cases ho : o = some f
  · subst ho
    obtain ⟨hand, hhand, hline⟩ := h
    have hbuffer : (m.send i c f).buffer (some f) = m.buffer (some f) ++ [⟨i, c.key, c.record⟩] := by
      have hheap : (m.send i c f).heap f = (m.heap f).push ⟨i, c.key, c.record⟩ := Function.update_self ..
      simp only [buffer, hheap]
      rfl
    refine ⟨hand, ?_, ?_⟩
    · cases hhand with
      | empty _ hnone => exact .empty _ hnone
      | full _ j ev hl => exact .full f j ev hl
    · rw [hsent, hwrote, hbuffer, if_pos rfl, hline]
      simp only [append_assoc]
  · rw [if_neg ho, append_nil] at hsent
    refine h.same hsent hwrote (fun f' hf' => ?_) fun _ _ _ _ => Iff.rfl
    have hne : f' ≠ f := by
      rintro rfl
      exact ho hf'
    have hheap : (m.send i c f).heap f' = m.heap f' := Function.update_of_ne hne _ _
    rw [hheap]

variable {ev : QueuedEvent R}

/-- the owner takes the oldest event in hand -/
theorem Line.receive (h : Line S o m) (hown : m.Ownership) {rest : List (QueuedEvent R)}
    (hj : m.workers.lookup j = some (.draining f)) (hch : (m.heap f).ch = ev :: rest) :
    Line S o ((m.setFile f ((m.heap f).setCh rest)).setWorker j (.writing f ev)) := by
  by_cases ho : o = some f
  · subst ho
    obtain ⟨hand, hhand, hline⟩ := h
    -- no other worker has an event of the file in hand
    have hnone : hand = [] := by
      cases hhand with
      | empty => rfl
      | full _ j' ev' hj' =>
        obtain rfl := (hown f).unique hj hj' (decide_eq_true rfl) (decide_eq_true rfl)
        rw [hj] at hj'
        cases hj'
    have hbuffer : ((m.setFile f ((m.heap f).setCh rest)).setWorker j (.writing f ev)).buffer (some f) = rest := by
      have hheap : (m.setFile f ((m.heap f).setCh rest)).heap f = (m.heap f).setCh rest := Function.update_self ..
      simp only [buffer, setWorker, hheap]
      rfl
    refine ⟨[ev], .full f j ev (AList.lookup_insert _), ?_⟩
    have hold : m.buffer (some f) = ev :: rest := hch
    rw [hnone, hold] at hline
    rw [hbuffer]
    change m.sentBy S = m.wroteBy S ++ [ev] ++ rest
    rw [hline]
    simp
  · refine h.same rfl rfl (fun f' hf' => ?_) fun f' hf' j' ev' => ?_
    · have hne : f' ≠ f := by
        rintro rfl
        exact ho hf'
      have hheap : (m.setFile f ((m.heap f).setCh rest)).heap f' = m.heap f' := Function.update_of_ne hne _ _
      simp only [setWorker, hheap]
    · simp only [setWorker, lookup_insert_ite]
      split_ifs with he
      · subst he
        have hne : f ≠ f' := by
          rintro rfl
          exact ho hf'
        constructor
        · intro hl
          exact absurd (Worker.writing.inj (Option.some.inj hl)).1 hne
        · intro hl
          have hl' : m.workers.lookup j' = some (.writing f' ev') := hl
          rw [hj] at hl'
          cases hl'
      · exact Iff.rfl

/-- the event in hand is written -/
theorem Line.write (h : Line S o m) (hown : m.Ownership) (hS : Tells S o m)
    (hj : m.workers.lookup j = some (.writing f ev)) : Line S o ((m.write j f ev).setWorker j (.draining f)) := by
  let w := (m.heap f).writerFor ev.key
  have hsent : ((m.write j f ev).setWorker j (.draining f)).sentBy S = m.sentBy S :=
    (sentBy_observe (m.setFile f ((m.heap f).cache ev.key)) S (.wrote j f w ev)).trans (append_nil _)
  have hwrote : ((m.write j f ev).setWorker j (.draining f)).wroteBy S = m.wroteBy S ++ if o = some f then [ev]
    else [] := by
    refine (wroteBy_observe (m.setFile f ((m.heap f).cache ev.key)) S (.wrote j f w ev)).trans ?_
    congr 1
    simp only [Obs.wroteEvent, w, hS.writing j f ev hj, decide_eq_true_eq]
    split_ifs <;> rfl
  have hch : ∀ f', (((m.write j f ev).setWorker j (.draining f)).heap f').ch = (m.heap f').ch :=
    ch_setFile m f ((m.heap f).cache ev.key) rfl
  have hbuffer : ((m.write j f ev).setWorker j (.draining f)).buffer o = m.buffer o := by
    cases o with
    | none => rfl
    | some f' => exact hch f'
  by_cases ho : o = some f
  · subst ho
    obtain ⟨hand, hhand, hline⟩ := h
    -- what is in hand is the event of this worker
    have honly : ∀ j' ev', m.workers.lookup j' = some (.writing f ev') → j' = j := fun j' ev' hj' =>
      (hown f).unique hj' hj (decide_eq_true rfl) (decide_eq_true rfl)
    have hhas : hand = [ev] := by
      cases hhand with
      | empty _ hnone => exact absurd hj (hnone f rfl j ev)
      | full _ j' ev' hj' =>
        obtain rfl := honly j' ev' hj'
        rw [hj] at hj'
        cases hj'
        rfl
    refine ⟨[], .empty _ fun f' hf' j' ev' hl => ?_, ?_⟩
    · obtain rfl := Option.some.inj hf'
      simp only [setWorker, lookup_insert_ite] at hl
      split_ifs at hl with he
      · cases hl
      · exact he (honly j' ev' hl)
    · rw [hsent, hwrote, hbuffer, if_pos rfl, append_nil, hline, hhas]
  · rw [if_neg ho, append_nil] at hwrote
    refine h.same hsent hwrote (fun f' _ => hch f') fun f' hf' j' ev' => ?_
    simp only [setWorker, lookup_insert_ite]
    split_ifs with he
    · subst he
      constructor
      · intro hl
        cases hl
      · intro hl
        have hl' : m.workers.lookup j' = some (.writing f' ev') := hl
        rw [hj] at hl'
        cases hl'
        exact absurd hf' ho
    · exact Iff.rfl

/-- **One step** keeps the line. -/
theorem Line.step (h : Line S o m) (hown : m.Ownership) (hS : Tells S o m)
    (hfresh : ∀ f ∈ o, m.next ≤ f → (m.heap f).ch = [])
    (s : Step R) : Line S o (m.step s) := by
  have hflag : ∀ f fs, fs.ch = (m.heap f).ch → Line S o (m.setFile f fs) :=
    fun f fs hfs => h.keep (ch_setFile m f fs hfs) rfl rfl rfl
  have hmove := step_move m s
  generalize m.step s = m' at hmove
  cases hmove with
  | idle => exact h
  | call | reap => exact h.keep (fun _ => rfl) rfl rfl rfl
  | producer i ch _ hprod =>
    cases hprod with
    | refuse => exact h.drop i
    | found | covered | push | overflow =>
      exact h.keep (fun _ => rfl) rfl rfl rfl
    | create c now m₁ hp hmu hclosing hl hm =>
      have hmade : Line S o (m.setFile m.next (.new c.path now)) := by
        refine h.same rfl rfl (fun f hf => ?_) fun _ _ _ _ => Iff.rfl
        rw [heap_setFile]
        split_ifs with he
        · exact (hfresh f hf he.ge).symm
        · rfl
      cases hm <;> exact hmade.keep (fun _ => rfl) rfl rfl rfl
    | send c f hp => exact h.send hS hp
    | giveUp c f => exact (hflag f (m.heap f).countDrop rfl).drop i
    | signal f => exact (hflag f ((m.heap f).setEnqueued true) rfl).keep (fun _ => rfl) rfl rfl rfl
    | undo f => exact (hflag f ((m.heap f).setEnqueued false) rfl).drop i
  | worker j ch _ hwork =>
    cases hwork with
    | stop hj => exact h.worker hj .stopped rfl rfl
    | pop f rest hj =>
      have hready : Line S o { m with ready := rest } := h.keep (fun _ => rfl) rfl rfl rfl
      exact hready.worker hj (.popped f) rfl rfl
    | mark f hj => exact (hflag f (m.heap f).own rfl).worker hj (.draining f) rfl rfl
    | receive f ev rest hj hch => exact h.receive hown hj hch
    | empty f hj => exact h.worker hj (.emptied f) rfl rfl
    | write f ev hj => exact h.write hown hS hj
    | release f now hj => exact (hflag f ((m.heap f).disown now) rfl).worker hj .idle rfl rfl
    | again f hj => exact h.worker hj (.draining f) rfl rfl
  | closer ch _ hclose =>
    cases hclose with
    | lock f =>
      exact (hflag f ((m.heap f).setEnqueued true) rfl).keep (fun _ => rfl) rfl rfl rfl
    | undo f => exact (hflag f ((m.heap f).setEnqueued false) rfl).keep (fun _ => rfl) rfl rfl rfl
    | _ => exact h.keep (fun _ => rfl) rfl rfl rfl

/-! ## File states out of the map -/

/-- nothing is in the file state or on its way to it -/
structure Quiet (m : Manager R) (f : ℕ) : Prop where
  buffer : (m.heap f).ch = []
  workers : ∀ j ev, m.workers.lookup j ≠ some (.writing f ev)
  producers : ∀ i c, m.producers.lookup i ≠ some (.sending c f)

theorem sendsInto_false (hp : ∀ i c, m.producers.lookup i ≠ some (.sending c f)) (s : Step R) :
    m.sendsInto f s = false := by
  cases s with
  | producer i =>
    cases hl : m.producers.lookup i with
    | none => simp only [sendsInto, hl]
    | some p =>
      cases p with
      | sending c f' =>
        have hne : f' ≠ f := by
          rintro rfl
          exact hp i c hl
        simp [sendsInto, hl, hne]
      | _ => simp only [sendsInto, hl]
  | _ => rfl

/-- the buffer fills by a send -/
theorem step_buffer (m : Manager R) {s : Step R} (hch : (m.heap f).ch = []) (hs : m.sendsInto f s = false) :
    ((m.step s).heap f).ch = [] := by
  have htouch := step_touch m s f
  generalize (m.step s).heap f = fs at htouch
  cases htouch with
  | made => rfl
  | push i c hp hinto =>
    rw [hs] at hinto
    cases hinto
  | receive ev rest hch' =>
    rw [hch] at hch'
    cases hch'
  | _ => exact hch

/-- a worker has an event in hand from the buffer -/
theorem step_writing (m : Manager R) (s : Step R) (h : (m.step s).workers.lookup j = some (.writing f ev)) :
    m.workers.lookup j = some (.writing f ev) ∨ (m.heap f).ch ≠ [] := by
  have hmove := step_move m s
  generalize m.step s = m' at hmove h
  cases hmove with
  | idle | call | reap => exact .inl h
  | producer i ch _ hprod =>
    cases hprod with
    | create c now m₁ hp hmu hclosing hl hm => cases hm <;> exact .inl h
    | _ => exact .inl h
  | worker j' ch _ hwork =>
    by_cases he : j = j'
    · subst he
      cases hwork with
      | receive f' ev' rest hj hch =>
        have hself := Option.some.inj ((AList.lookup_insert _).symm.trans h)
        cases hself
        exact .inr (by rw [hch]; simp)
      | _ => exact absurd ((AList.lookup_insert _).symm.trans h) (by simp)
    · cases hwork <;> exact .inl ((AList.lookup_insert_ne he).symm.trans h)
  | closer ch _ hclose => cases hclose <;> exact .inl h

/-- a producer that will send has its file from the map -/
theorem step_sending (m : Manager R) (s : Step R) {i : ℕ} {c : Call R}
    (h : (m.step s).producers.lookup i = some (.sending c f)) :
    m.producers.lookup i = some (.sending c f) ∨ (m.step s).files.lookup c.path = some f := by
  have hmove := step_move m s
  generalize m.step s = m' at hmove h
  cases hmove with
  | idle | reap => exact .inl h
  | call =>
    simp only [setProducer, lookup_insert_ite] at h
    split_ifs at h
    · cases h
    · exact .inl h
  | producer i' ch _ hprod =>
    by_cases he : i = i'
    · subst he
      cases hprod with
      | found c' f' hp hmu hclosing hl =>
        have hself := Option.some.inj ((AList.lookup_insert _).symm.trans h)
        cases hself
        exact .inr hl
      | create c' now m₁ hp hmu hclosing hl hm =>
        have hself := Option.some.inj ((AList.lookup_insert _).symm.trans h)
        cases hself
        have hnext : m₁.next = m.next := by cases hm <;> rfl
        rw [← hnext]
        exact .inr (AList.lookup_insert _)
      | _ => exact absurd ((AList.lookup_insert _).symm.trans h) (by simp)
    · obtain ⟨_, hp, -⟩ := hprod.producers
      rw [hp, AList.lookup_insert_ne he] at h
      exact .inl h
  | worker j ch _ hwork => cases hwork <;> exact .inl h
  | closer ch _ hclose => cases hclose <;> exact .inl h

theorem step_path (m : Manager R) (s : Step R) (hf : f < m.next) : ((m.step s).heap f).path = (m.heap f).path := by
  have htouch := step_touch m s f
  generalize (m.step s).heap f = fs at htouch
  cases htouch with
  | made path now he => exact absurd he hf.ne
  | _ => rfl

/-- **One step** that takes no file state out of the map while a producer will send into it. -/
theorem quiet_step (hs : m.Sound) (hq : ∀ f, f ∉ m.tracked → m.Quiet f) {s : Step R}
    (hspares : m.spares Producer.sends s = true) (hf : f ∉ (m.step s).tracked) : (m.step s).Quiet f := by
  have hquiet : m.Quiet f := by
    by_cases hin : f ∈ m.tracked
    · have hout : m.takesOut s = some f := (step_tracked m s hin).resolve_left hf
      obtain ⟨howned, -, hch⟩ := FileState.idle_iff.1 (takesOut_idle hout)
      refine ⟨hch, fun j ev hj => ?_, fun i c hp => ?_⟩
      · rw [hs.ownership.owned hj (decide_eq_true rfl)] at howned
        cases howned
      · have hnot : (Producer.sending c f).sends f = false := spares_not hspares hout hp
        simp [Producer.sends] at hnot
    · exact hq f hin
  refine ⟨step_buffer m hquiet.buffer (sendsInto_false hquiet.producers s), fun j ev hj => ?_, fun i c hp => ?_⟩
  · rcases step_writing m s hj with hold | hch
    · exact hquiet.workers j ev hold
    · exact hch hquiet.buffer
  · rcases step_sending m s hp with hold | hl
    · exact hquiet.producers i c hold
    · exact hf ((mem_tracked _ f).2 ⟨c.path, hl⟩)

/-! ## The order -/

/-- what every execution keeps that takes no file state out of the map while a producer will send into it -/
structure Ordered (m : Manager R) : Prop where
  sound : m.Sound
  quiet : ∀ f, f ∉ m.tracked → m.Quiet f
  paths : ∀ i c f, m.producers.lookup i = some (.sending c f) → (m.heap f).path = c.path
  writers : ∀ f key w, (m.heap f).writers.lookup key = some w → w.path = (m.heap f).path
  line : ∀ path, Line (fun _ p => p = path) (m.files.lookup path) m

theorem Ordered.writerFor (h : m.Ordered) (f : ℕ) (key : ProcKey) :
    ((m.heap f).writerFor key).path = (m.heap f).path := by
  unfold FileState.writerFor
  cases hl : (m.heap f).writers.lookup key with
  | none => rfl
  | some w => exact h.writers f key w hl

/-- a file state with something in it or on its way to it is the one of its path -/
theorem Ordered.busy (h : m.Ordered) (hbusy : ¬ m.Quiet f) : m.files.lookup (m.heap f).path = some f := by
  have hin : f ∈ m.tracked := by
    by_contra hout
    exact hbusy (h.quiet f hout)
  obtain ⟨p, hl⟩ := (mem_tracked m f).1 hin
  rw [(h.sound.allocated.files p f hl).2]
  exact hl

theorem Ordered.tells (h : m.Ordered) (path : String) : Tells (fun _ p => p = path) (m.files.lookup path) m := by
  -- the path of a busy file state decides
  have hpath : ∀ f, ¬ m.Quiet f → decide ((m.heap f).path = path) = decide (m.files.lookup path = some f) := by
    intro f hbusy
    refine decide_eq_decide.2 ⟨?_, fun hl => (h.sound.allocated.files path f hl).2⟩
    rintro rfl
    exact h.busy hbusy
  refine ⟨fun i c f hp => ?_, fun j f ev hj => ?_⟩
  · have hbusy : ¬ m.Quiet f := fun hq => hq.producers i c hp
    rw [← hpath f hbusy, h.paths i c f hp]
  · have hbusy : ¬ m.Quiet f := fun hq => hq.workers j ev hj
    rw [← hpath f hbusy, h.writerFor]

/-- **One step.** -/
theorem Ordered.step (h : m.Ordered) {s : Step R} (hspares : m.spares Producer.sends s = true) :
    (m.step s).Ordered := by
  have hsound := h.sound.step s
  have hquiet : ∀ f, f ∉ (m.step s).tracked → (m.step s).Quiet f := fun f hf => quiet_step h.sound h.quiet hspares hf
  have hfresh : ∀ f, m.next ≤ f → m.Quiet f := by
    intro f hf
    refine h.quiet f fun hin => ?_
    obtain ⟨p, hl⟩ := (mem_tracked m f).1 hin
    exact absurd (h.sound.allocated.files p f hl).1 (Nat.not_lt.2 hf)
  refine ⟨hsound, hquiet, fun i c f hp => ?_, fun f key w hl => ?_, fun path => ?_⟩
  · rcases step_sending m s hp with hold | hl
    · rw [step_path m s (h.sound.allocated.producers i _ hold f (by simp))]
      exact h.paths i c f hold
    · exact (hsound.allocated.files c.path f hl).2
  · have htouch := step_touch m s f
    generalize (m.step s).heap f = fs at htouch hl
    cases htouch with
    | made => simp [FileState.new] at hl
    | cache key' =>
      simp only [FileState.cache, lookup_insert_ite] at hl
      split_ifs at hl with he
      · obtain rfl := Option.some.inj hl
        exact h.writerFor f key'
      · exact h.writers f key w hl
    | _ => exact h.writers f key w hl
  · have hline : Line (fun _ p => p = path) (m.files.lookup path) (m.step s) :=
      (h.line path).step h.sound.ownership (h.tells path) (fun f _ hf => (hfresh f hf).buffer) s
    -- the line goes on when the path loses its file state or gets a new one: either is quiet
    cases step_slot m s path with
    | same heq =>
      rw [heq]
      exact hline
    | lost f hl hout hgone =>
      rw [hgone]
      rw [hl] at hline
      have hout' : f ∉ (m.step s).tracked := by
        intro hin
        obtain ⟨p, hl'⟩ := (mem_tracked _ f).1 hin
        have hlt := (h.sound.allocated.files path f hl).1
        have hp : p = path := by
          rw [← (hsound.allocated.files p f hl').2, step_path m s hlt]
          exact (h.sound.allocated.files path f hl).2
        rw [hp, hgone] at hl'
        cases hl'
      exact hline.leave (hquiet f hout').buffer (hquiet f hout').workers
    | made hl hnew =>
      rw [hnew]
      rw [hl] at hline
      have hq := hfresh m.next le_rfl
      refine hline.enter (step_buffer m hq.buffer (sendsInto_false hq.producers s)) fun j ev hj => ?_
      rcases step_writing m s hj with hold | hch
      · exact hq.workers j ev hold
      · exact hch hq.buffer

theorem new_ordered (cfg : Config) : (new cfg : Manager R).Ordered := by
  have hidle : ∀ j f ev, (new cfg : Manager R).workers.lookup j ≠ some (.writing f ev) := by
    intro j f ev hj
    have hw := new_idle cfg hj
    cases hw
  refine ⟨new_sound cfg, fun f _ => ⟨rfl, fun j ev => hidle j f ev, fun i c hp => ?_⟩, fun i c f hp =>
    ?_, fun f key w hl => ?_, fun path => ⟨[], .empty _ fun f _ j ev => hidle j f ev, rfl⟩⟩
  · simp [new] at hp
  · simp [new] at hp
  · simp [new, FileState.new] at hl

/-- **The order of one log,** along every execution that takes no file state out of the map while a producer will send
into it: at most one worker at a time is writing to a path, and what was written to it is, in order, the first of what
was sent to it. -/
theorem per_path_order (cfg : Config) (steps : List (Step R))
    (hs : Runs.Meets step (fun m s => spares Producer.sends m s = true) (new cfg) steps) (path : String) :
    let m := run (new cfg) steps
    (∀ j j' f f' ev ev', m.workers.lookup j = some (.writing f ev) → m.workers.lookup j' = some (.writing f' ev') →
        ((m.heap f).writerFor ev.key).path = path → ((m.heap f').writerFor ev'.key).path = path → j = j') ∧
      m.wroteTo path <+: m.sentTo path := by
  intro m
  have hordered : m.Ordered := Runs.foldl_inv_of (fun _ _ hspares h => h.step hspares) (new_ordered cfg) hs
  refine ⟨fun j j' f f' ev ev' hj hj' hpath hpath' => ?_, ?_⟩
  · rw [hordered.writerFor] at hpath hpath'
    have hl := hordered.busy fun hq => hq.workers j ev hj
    have hl' := hordered.busy fun hq => hq.workers j' ev' hj'
    rw [hpath] at hl
    rw [hpath', hl] at hl'
    obtain rfl := Option.some.inj hl'
    exact (hordered.sound.ownership f).unique hj hj' (decide_eq_true rfl) (decide_eq_true rfl)
  · obtain ⟨hand, -, hline⟩ := hordered.line path
    exact ⟨hand ++ m.buffer (m.files.lookup path), by rw [← append_assoc]; exact hline.symm⟩

/-- an event for `/a.log` is written and its file reaped; a second one is written through a new file state -/
def reapedBetween : List (Step ℕ) :=
  poppedOnce ++ List.replicate 5 (.worker 0 plain) ++
    [.reap "/a.log" 1, .call ⟨"/a.log", ⟨1, 0, 0⟩, 8, true⟩, .producer 1 plain, .producer 1 plain, .producer 1 plain,
      .producer 1 plain] ++ List.replicate 4 (.worker 0 plain)

theorem reaped_path_in_order :
    Runs.Meets step (fun m s => spares Producer.sends m s = true) (new oneFile) reapedBetween ∧
      (run (new oneFile) reapedBetween).next = 2 ∧
      (run (new oneFile) reapedBetween).wroteTo "/a.log" = [⟨0, ⟨1, 0, 0⟩, 7⟩, ⟨1, ⟨1, 0, 0⟩, 8⟩] ∧
      (run (new oneFile) reapedBetween).wroteTo "/a.log" <+: (run (new oneFile) reapedBetween).sentTo "/a.log" := by
  have hspares : Runs.Meets step (fun m s => spares Producer.sends m s = true) (new oneFile) reapedBetween :=
    by decide +kernel
  refine ⟨hspares, ?_, ?_, (per_path_order oneFile reapedBetween hspares "/a.log").2⟩
  · decide +kernel
  · decide +kernel

/-- two workers -/
def twoWorkers : Config := ⟨2, 1, 1, 1⟩

/-- a producer of `/a.log` has looked its file state up, which is reaped then; a second one sends through a new file
state, the first through the old one, and each has a worker -/
def reapedWhileHeld : List (Step ℕ) :=
  [.call ⟨"/a.log", ⟨1, 0, 0⟩, 7, true⟩, .producer 0 plain, .reap "/a.log" 1, .call ⟨"/a.log", ⟨1, 0, 0⟩, 8, true⟩] ++
    List.replicate 4 (.producer 1 plain) ++ List.replicate 3 (.worker 0 plain) ++
      List.replicate 3 (.producer 0 plain) ++
    List.replicate 3 (.worker 1 plain)

theorem two_states_of_one_path :
    (run (new twoWorkers) reapedWhileHeld).workers.lookup 0 = some (.writing 1 ⟨1, ⟨1, 0, 0⟩, 8⟩) ∧
      (run (new twoWorkers) reapedWhileHeld).workers.lookup 1 = some (.writing 0 ⟨0, ⟨1, 0, 0⟩, 7⟩) ∧
      ((run (new twoWorkers) reapedWhileHeld).heap 0).path = "/a.log" ∧
      ((run (new twoWorkers) reapedWhileHeld).heap 1).path = "/a.log" ∧
      (run (new twoWorkers) (reapedWhileHeld ++ [.worker 1 plain])).sentTo "/a.log" =
        [⟨1, ⟨1, 0, 0⟩, 8⟩, ⟨0, ⟨1, 0, 0⟩, 7⟩] ∧
      (run (new twoWorkers) (reapedWhileHeld ++ [.worker 1 plain])).wroteTo "/a.log" = [⟨0, ⟨1, 0, 0⟩, 7⟩] := by
  decide +kernel

end Manager

end AccessPoint.Userlog

/-
The capacity of the ready queue (internal/userlog/manager.go, the signal of `enqueue`, `fileFor`, `evictIdleLocked`,
`reapLoop`).

The ready queue has a place for each file the map may hold. A file state in the ready queue is in the map as long as
none is taken out of it that a producer still holds a pointer to; one that is taken out so may be signalled beside the
files in the map.

- `takesOut`: the file state a step takes out of the map.
- `step_slot`, `step_touch`: what a step does to the entry of one path and to one file state.
- `Kept`: what producers hold and what is queued is in the map.
- `ready_queue_has_room`, `evicted_file_overflows`.
-/
import AccessPoint.Userlog.Ownership

namespace AccessPoint.Userlog.Manager

open AList

variable {R : Type} {m m' : Manager R} {f : ℕ}

/-- the file state the step takes out of the map, if it does -/
def takesOut (m : Manager R) : Step R → Option ℕ
  | .reap path now =>
    if m.closer.busy then none
    else (m.files.lookup path).filter fun f =>
      (m.heap f).idle && decide (m.cfg.idleTimeout ≤ now - (m.heap f).lastActive)
  | .producer i ch =>
    match m.producers.lookup i with
    | some (.calling c) =>
      if m.closer.busy || m.closing || (m.files.lookup c.path).isSome || decide ((m.files.keys.length : ℤ) <
        m.cfg.maxFiles) then none
      else (ch.victim.bind fun p => m.files.lookup p).filter fun f => (m.heap f).idle
    | _ => none
  | _ => none

/-- the step takes no file state out of the map that a producer has in one of the ways `held` -/
def spares (held : ℕ → Producer R → Bool) (m : Manager R) (s : Step R) : Bool :=
  (m.takesOut s).all fun f => m.producers.count (held f) == 0

variable {s : Step R} {p : Producer R} {i : ℕ}

theorem spares_not {held : ℕ → Producer R → Bool} (h : m.spares held s = true) (hf : m.takesOut s = some f)
    (hp : m.producers.lookup i = some p) : held f p = false := by
  rw [spares, hf] at h
  have hzero : m.producers.count (held f) = 0 := eq_of_beq h
  by_contra hne
  have hpos : 0 < m.producers.count (held f) := KeyMap.count_pos.2 ⟨i, p, hp, by simpa using hne⟩
  omega

theorem takesOut_idle (h : m.takesOut s = some f) : (m.heap f).idle = true := by
  cases s with
  | reap =>
    simp only [takesOut] at h
    split_ifs at h
    obtain ⟨-, hidle⟩ := Option.filter_eq_some_iff.1 h
    simp only [Bool.and_eq_true] at hidle
    exact hidle.1
  | producer =>
    simp only [takesOut] at h
    split at h
    · split_ifs at h
      exact (Option.filter_eq_some_iff.1 h).2
    · cases h
  | _ => cases h

/-! ## The map -/

theorem next_tracked (m : Manager R) (path : String) (now : ℤ) : m.next ∈ (m.newFile path now).tracked :=
  (mem_tracked _ m.next).2 ⟨path, lookup_insert _⟩

/-- what a step does to the file of `path` -/
inductive Slot (m : Manager R) (s : Step R) (path : String) : Prop where
  | same (h : (m.step s).files.lookup path = m.files.lookup path)
  | lost (f : ℕ) (hl : m.files.lookup path = some f) (hout : m.takesOut s = some f)
    (h : (m.step s).files.lookup path = none)
  | made (hl : m.files.lookup path = none) (h : (m.step s).files.lookup path = some m.next)

/-- **The map** loses the file state a step takes out, and gains the one it allocates. -/
theorem step_slot (m : Manager R) (s : Step R) (path : String) : Slot m s path := by
  have hmove := step_move m s
  generalize hm' : m.step s = m' at hmove
  cases hmove with
  | idle | call => exact .same (congrArg (fun m => m.files.lookup path) hm')
  | producer i ch _ h =>
    cases h with
    | create c now m₁ hp hmu hclosing hl hm =>
      have hfiles : (m.step (.producer i ch)).files = m₁.files.insert c.path m₁.next := by rw [hm']; rfl
      have hnext : m₁.next = m.next := by cases hm <;> rfl
      by_cases hc : path = c.path
      · subst hc
        refine .made hl ?_
        rw [hfiles, lookup_insert, hnext]
      · have hother : (m.step (.producer i ch)).files.lookup path = m₁.files.lookup path := by
          rw [hfiles]
          exact lookup_insert_ne hc
        cases hm with
        | below => exact .same hother
        | evict p f hl' hidle hv hcap =>
          by_cases hp' : path = p
          · subst hp'
            refine .lost f hl' ?_ (hother.trans (lookup_erase path m.files))
            simp [takesOut, hp, hmu, hclosing, hl, hv, hl', hidle, hcap]
          · exact .same (hother.trans (lookup_erase_ne hp'))
    | _ => exact .same (congrArg (fun m => m.files.lookup path) hm')
  | worker j ch _ h | closer ch _ h => cases h <;> exact .same (congrArg (fun m => m.files.lookup path) hm')
  | reap path' now f hmu hl hidle hold =>
    have hfiles : (m.step (.reap path' now)).files = m.files.erase path' := by rw [hm']
    by_cases hp : path = path'
    · subst hp
      refine .lost f hl ?_ ?_
      · simp [takesOut, hmu, hl, hidle, hold]
      · rw [hfiles]
        exact lookup_erase path m.files
    · refine .same ?_
      rw [hfiles]
      exact lookup_erase_ne hp

theorem step_tracked (m : Manager R) (s : Step R) (hf : f ∈ m.tracked) :
    f ∈ (m.step s).tracked ∨ m.takesOut s = some f := by
  obtain ⟨path, hl⟩ := (mem_tracked m f).1 hf
  cases step_slot m s path with
  | same h => exact .inl ((mem_tracked _ f).2 ⟨path, h.trans hl⟩)
  | lost f' hl' hout =>
    rw [hl] at hl'
    obtain rfl := Option.some.inj hl'
    exact .inr hout
  | made hl' =>
    rw [hl] at hl'
    cases hl'

/-- a producer has its pointers from the map -/
theorem Produces.pointers {ch : Choice} (h : Produces m i ch m') (hp' : m'.producers.lookup i = some p)
    (hf : p.holds f = true) : (∃ p', m.producers.lookup i = some p' ∧ p'.holds f = true) ∨ f ∈ m'.tracked := by
  have hnow : ∀ (m₁ : Manager R) (p' : Producer R), (m₁.setProducer i p').producers.lookup i = some p → p' = p := by
    intro m₁ p' hl
    have hself : (m₁.setProducer i p').producers.lookup i = some p' := lookup_insert _
    exact Option.some.inj (hself.symm.trans hl)
  cases h with
  | refuse | giveUp | covered | push | undo =>
    obtain rfl := hnow _ _ hp'
    cases hf
  | found c f' hp hmu hclosing hl =>
    obtain rfl := hnow _ _ hp'
    obtain rfl : f' = f := by simpa using hf
    exact .inr ((mem_tracked m f').2 ⟨c.path, hl⟩)
  | create c now m₁ hp hmu hclosing hl hm =>
    obtain rfl := hnow _ _ hp'
    obtain rfl : m.next = f := by simpa using hf
    cases hm <;> exact .inr (next_tracked _ c.path now)
  | send c f' hp | signal f' hp | overflow f' hp =>
    obtain rfl := hnow _ _ hp'
    exact .inl ⟨_, hp, by simpa using hf⟩

theorem step_holds (m : Manager R) (s : Step R) (hp : (m.step s).producers.lookup i = some p) (hf : p.holds f = true) :
    (∃ p', m.producers.lookup i = some p' ∧ p'.holds f = true) ∨ f ∈ (m.step s).tracked := by
  have hmove := step_move m s
  generalize m.step s = m' at hmove hp
  cases hmove with
  | idle | reap => exact .inl ⟨p, hp, hf⟩
  | call =>
    simp only [setProducer, KeyMap.lookup_insert_ite] at hp
    split_ifs at hp
    · rw [← Option.some.inj hp] at hf
      cases hf
    · exact .inl ⟨p, hp, hf⟩
  | producer i' ch _ h =>
    by_cases he : i = i'
    · subst he
      exact h.pointers hp hf
    · obtain ⟨_, hq, -⟩ := h.producers
      rw [hq, lookup_insert_ne he] at hp
      exact .inl ⟨p, hp, hf⟩
  | worker j ch _ h | closer ch _ h => cases h <;> exact .inl ⟨p, hp, hf⟩

/-! ## One file state -/

/-- the step is a send into the buffer of `f` that goes through -/
def sendsInto (m : Manager R) (f : ℕ) : Step R → Bool
  | .producer i ch =>
    match m.producers.lookup i with
    | some (.sending c f') => f' = f && m.fits f && !(c.block && ch.giveUp)
    | _ => false
  | _ => false

/-- what becomes of the file state `f` in a step -/
inductive Touch (m : Manager R) (s : Step R) (f : ℕ) : FileState R → Prop where
  | same : Touch m s f (m.heap f)
  | made (path : String) (now : ℤ) (hf : f = m.next) : Touch m s f (.new path now)
  | push (i : ℕ) (c : Call R) (hp : m.producers.lookup i = some (.sending c f)) (hinto : m.sendsInto f s = true) :
      Touch m s f ((m.heap f).push ⟨i, c.key, c.record⟩)
  | countDrop : Touch m s f (m.heap f).countDrop
  | queue (h : (∃ i p, m.producers.lookup i = some p ∧ p.holds f = true) ∨ f ∈ m.closer.todo) :
      Touch m s f ((m.heap f).setEnqueued true)
  | unqueue : Touch m s f ((m.heap f).setEnqueued false)
  | own : Touch m s f (m.heap f).own
  | receive (ev : QueuedEvent R) (rest : List (QueuedEvent R)) (hch : (m.heap f).ch = ev :: rest) :
      Touch m s f ((m.heap f).setCh rest)
  | cache (key : ProcKey) : Touch m s f ((m.heap f).cache key)
  | disown (now : ℤ) : Touch m s f ((m.heap f).disown now)

theorem Touch.setFile {f' : ℕ} {fs : FileState R} (h : Touch m s f' fs) : Touch m s f ((m.setFile f' fs).heap f) := by
  rw [heap_setFile]
  split_ifs with he
  · rw [he]
    exact h
  · exact .same

theorem step_touch (m : Manager R) (s : Step R) (f : ℕ) : Touch m s f ((m.step s).heap f) := by
  have hmove := step_move m s
  generalize m.step s = m' at hmove
  cases hmove with
  | idle | call | reap => exact .same
  | producer i ch _ hprod =>
    cases hprod with
    | refuse | found | covered | push | overflow =>
      exact .same
    | create c now m₁ hp hmu hclosing hl hm =>
      have hmade : Touch m (.producer i ch) f ((m.setFile m.next (.new c.path now)).heap f) :=
        (Touch.made c.path now rfl).setFile
      cases hm <;> exact hmade
    | send c f' hp hfits hgo => exact (Touch.push i c hp (by simp only [sendsInto, hp, hfits, hgo]; simp)).setFile
    | giveUp c f' => exact (Touch.countDrop (m := m) (s := .producer i ch) (f := f')).setFile
    | signal f' hp => exact (Touch.queue (.inl ⟨i, _, hp, by simp⟩)).setFile
    | undo f' => exact (Touch.unqueue (m := m) (s := .producer i ch) (f := f')).setFile
  | worker j ch _ hwork =>
    cases hwork with
    | stop | pop | empty | again => exact .same
    | mark f' => exact (Touch.own (m := m) (s := .worker j ch) (f := f')).setFile
    | receive f' ev rest hw hch => exact (Touch.receive ev rest hch).setFile
    | write f' ev => exact (Touch.cache (m := m) (s := .worker j ch) (f := f') ev.key).setFile
    | release f' now => exact (Touch.disown (m := m) (s := .worker j ch) (f := f') now).setFile
  | closer ch _ hclose =>
    cases hclose with
    | lock f' todo hc => exact (Touch.queue (.inr (by rw [hc]; exact List.mem_cons_self))).setFile
    | undo f' => exact (Touch.unqueue (m := m) (s := .closer ch) (f := f')).setFile
    | _ => exact .same

/-- a file is put on the ready queue by a producer that has it, or by `Close` -/
theorem step_enqueued (m : Manager R) (s : Step R) (h : ((m.step s).heap f).enqueued = true) :
    (m.heap f).enqueued = true ∨ (∃ i p, m.producers.lookup i = some p ∧ p.holds f = true) ∨ f ∈ m.closer.todo := by
  have htouch := step_touch m s f
  generalize (m.step s).heap f = fs at htouch h
  cases htouch with
  | queue hq => exact .inr hq
  | made | unqueue | own => cases h
  | _ => exact .inl h

/-- while `Close` walks the files, none is taken out -/
theorem takesOut_free (h : m.takesOut s = some f) : m.closer.busy = false := by
  by_contra hbusy
  rw [Bool.not_eq_false] at hbusy
  cases s with
  | reap => simp [takesOut, hbusy] at h
  | producer =>
    simp only [takesOut, hbusy] at h
    split at h <;> simp at h
  | _ => cases h

/-! ## The queue -/

/-- what producers hold and what is queued is in the map -/
structure Kept (m : Manager R) : Prop where
  cap : (m.files.keys.length : ℤ) ≤ m.cfg.maxFiles
  held : ∀ i p, m.producers.lookup i = some p → ∀ f, p.holds f = true → f ∈ m.tracked
  queued : ∀ f, (m.heap f).enqueued = true → f ∈ m.tracked

theorem length_newFile (path : String) (now : ℤ) (hl : m.files.lookup path = none) :
    (m.newFile path now).files.keys.length = m.files.keys.length + 1 := by
  have hnot : path ∉ m.files.keys := lookup_eq_none.1 hl
  simp only [newFile, keys_insert, List.length_cons, List.erase_of_not_mem hnot]

theorem step_cap (m : Manager R) (s : Step R) (h : (m.files.keys.length : ℤ) ≤ m.cfg.maxFiles) :
    ((m.step s).files.keys.length : ℤ) ≤ (m.step s).cfg.maxFiles := by
  have hlost : ∀ p f, m.files.lookup p = some f → (m.files.erase p).keys.length + 1 = m.files.keys.length := by
    intro p f hl
    have hin : p ∈ m.files.keys := (KeyMap.mem_iff_lookup m.files p).2 ⟨f, hl⟩
    rw [keys_erase, List.length_erase_of_mem hin]
    have hpos := List.length_pos_of_mem hin
    omega
  have hmove := step_move m s
  generalize m.step s = m' at hmove
  cases hmove with
  | idle | call => exact h
  | producer i ch _ hprod =>
    cases hprod with
    | create c now m₁ hp hmu hclosing hl hm =>
      cases hm with
      | below hlt =>
        have hlen := length_newFile c.path now hl
        simp only [setProducer, hlen]
        exact_mod_cast hlt
      | evict p f hl' =>
        have hgone : ({ m with files := m.files.erase p } : Manager R).files.lookup c.path = none :=
          KeyMap.lookup_none_of_notMem fun hin => lookup_eq_none.1 hl (mem_erase.1 hin).2
        have hlen := length_newFile (m := { m with files := m.files.erase p }) c.path now hgone
        simp only [setProducer, hlen, hlost p f hl']
        exact h
    | _ => exact h
  | worker j ch _ hwork => cases hwork <;> exact h
  | reap path now f hmu hl =>
    have hlen := hlost path f hl
    simp only
    omega
  | closer ch _ hclose => cases hclose <;> exact h

/-- **One step** that takes no file state out of the map while a producer holds it. -/
theorem Kept.step (hk : m.Kept) (hs : m.Sound) (hspares : m.spares Producer.holds s = true) : (m.step s).Kept := by
  have hheld : ∀ i p f, m.producers.lookup i = some p → p.holds f = true → f ∈ (m.step s).tracked := by
    intro i p f hp hf
    refine (step_tracked m s (hk.held i p hp f hf)).resolve_right fun hout => ?_
    have hnot := spares_not hspares hout hp
    rw [hf] at hnot
    cases hnot
  refine ⟨step_cap m s hk.cap, fun i p hp f hf => ?_, fun f henq => ?_⟩
  · rcases step_holds m s hp hf with ⟨p', hp', hf'⟩ | hin
    · exact hheld i p' f hp' hf'
    · exact hin
  · rcases step_enqueued m s henq with hold | ⟨i, p, hp, hf⟩ | htodo
    · refine (step_tracked m s (hk.queued f hold)).resolve_right fun hout => ?_
      have hidle := FileState.idle_iff.1 (takesOut_idle hout)
      rw [hidle.2.1] at hold
      cases hold
    · exact hheld i p f hp hf
    · refine (step_tracked m s (hs.allocated.todo f htodo)).resolve_right fun hout => ?_
      rw [Closer.todo_nil (takesOut_free hout)] at htodo
      cases htodo

/-- **There is room** for a file that is queued and not in the ready queue. -/
theorem Kept.room (hk : m.Kept) (hs : m.Sound) (henq : (m.heap f).enqueued = true) (hnot : m.ready.count f = 0) :
    m.hasRoom = true := by
  -- the files in the ready queue and this one are different files of the map
  have hnodup : (f :: m.ready).Nodup := by
    refine List.nodup_cons.2 ⟨List.count_eq_zero.1 hnot, List.nodup_iff_count_le_one.2 fun f' => ?_⟩
    have htoken := (hs.ownership f').token
    have hone := Bool.toNat_le (m.heap f').enqueued
    unfold tokens at htoken
    omega
  have hsub : f :: m.ready ⊆ m.tracked := by
    intro f' hf'
    rcases List.mem_cons.1 hf' with rfl | hin
    · exact hk.queued f' henq
    · exact hk.queued f' (hs.ownership.enqueued (tokens_ready hin))
  have hle := hnodup.length_le_of_subset hsub
  have hlen : m.tracked.length = m.files.keys.length := by simp [tracked, keys, List.keys]
  have hcap := hk.cap
  rw [hlen, List.length_cons] at hle
  rw [hasRoom, decide_eq_true_eq]
  omega

/-- a producer that has set `enqueued` finds room -/
theorem Kept.signal (hk : m.Kept) (hs : m.Sound) (hp : m.producers.lookup i = some (.signalling f)) :
    m.hasRoom = true := by
  have hsig : (Producer.signalling f : Producer R).signals f = true := decide_eq_true rfl
  have hpos : 0 < m.producers.count (·.signals f) := KeyMap.count_pos.2 ⟨i, _, hp, hsig⟩
  have htoken := (hs.ownership f).token
  have hone := Bool.toNat_le (m.heap f).enqueued
  refine hk.room hs (hs.ownership.enqueued (tokens_signals hp hsig)) ?_
  unfold tokens at htoken
  omega

/-- what every execution keeps that takes no file state out of the map while a producer holds it -/
structure Roomed (m : Manager R) : Prop where
  sound : m.Sound
  kept : m.Kept
  roomy : m.Roomy

theorem Roomed.step (h : m.Roomed) (hspares : m.spares Producer.holds s = true) : (m.step s).Roomed := by
  refine ⟨h.sound.step s, h.kept.step h.sound hspares, ?_⟩
  have hroomy := h.roomy
  have hmove := step_move m s
  generalize m.step s = m' at hmove
  cases hmove with
  | idle | reap => exact hroomy
  | call =>
    intro i f hl
    simp only [setProducer, KeyMap.lookup_insert_ite] at hl
    split_ifs at hl
    · cases hl
    · exact hroomy i f hl
  | producer i ch _ hprod => exact hprod.roomy hroomy fun f hp => h.kept.signal h.sound hp
  | worker j ch _ hwork => cases hwork <;> exact hroomy
  | closer ch _ hclose => cases hclose <;> exact hroomy

theorem new_roomed (cfg : Config) : (new cfg : Manager R).Roomed := by
  refine ⟨new_sound cfg, ⟨?_, fun i p hp => ?_, fun f henq => (nomatch henq)⟩, fun i f hp => ?_⟩
  · have hpos : 0 < cfg.withDefaults.maxFiles := by
      unfold Config.withDefaults
      simp only
      split_ifs
      · norm_num
      · omega
    simpa [new] using hpos.le
  · simp [new] at hp
  · simp [new] at hp

/-- **The ready queue has room:** along every execution that takes no file state out of the map while a producer holds a
pointer to it, a producer that has set `enqueued` finds room in the ready queue, and none is ever where it did not. -/
theorem ready_queue_has_room (cfg : Config) (steps : List (Step R))
    (hs : Runs.Meets step (fun m s => spares Producer.holds m s = true) (new cfg) steps) :
    let m := run (new cfg) steps
    (∀ i f, m.producers.lookup i = some (.signalling f) → m.hasRoom = true) ∧
      ∀ i f, m.producers.lookup i ≠ some (.overflowed f) := by
  intro m
  have hroomed : m.Roomed := Runs.foldl_inv_of (fun _ _ hspares h => h.step hspares) (new_roomed cfg) hs
  exact ⟨fun i f hp => hroomed.kept.signal hroomed.sound hp, hroomed.roomy⟩

/-- the producer of `/a.log` signals, its file in the map all along -/
theorem kept_file_has_room :
    Runs.Meets step (fun m s => spares Producer.holds m s = true) (new oneFile) (poppedOnce.take 4) ∧
      (run (new oneFile) (poppedOnce.take 4)).producers.lookup 0 = some (.signalling 0) ∧
      (run (new oneFile) (poppedOnce.take 4)).hasRoom = true := by
  have hspares : Runs.Meets step (fun m s => spares Producer.holds m s = true) (new oneFile) (poppedOnce.take 4) :=
    by decide +kernel
  have hp : (run (new oneFile) (poppedOnce.take 4)).producers.lookup 0 = some (.signalling 0) := by decide +kernel
  exact ⟨hspares, hp, (ready_queue_has_room oneFile (poppedOnce.take 4) hspares).1 0 0 hp⟩

/-- at a cap of one file: the producer of `/a.log` has looked its file up, the producer of `/b.log` evicts it; the first
then signals the evicted file, and the second finds the queue full -/
def evictedWhileHeld : List (Step ℕ) :=
  [.call ⟨"/a.log", ⟨1, 0, 0⟩, 7, true⟩, .producer 0 plain, .call ⟨"/b.log", ⟨2, 0, 0⟩, 8, true⟩,
    .producer 1 { plain with victim := some "/a.log" }, .producer 0 plain, .producer 0 plain, .producer 0 plain,
      .producer 1 plain,
    .producer 1 plain, .producer 1 plain]

theorem evicted_file_overflows :
    (run (new oneFile) evictedWhileHeld).producers.lookup 1 = some (.overflowed 1) ∧
      (run (new oneFile) evictedWhileHeld).ready = [0] ∧ (run (new oneFile) evictedWhileHeld).tracked = [1] := by
  decide +kernel

end AccessPoint.Userlog.Manager

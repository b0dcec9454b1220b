/-
Who has a file of the user log (internal/userlog/manager.go, `worker`, `drainFile`, the signal of `enqueue`, `Close`).

`enqueued` stands for one token: the producer that has set it, then the place in the ready queue, then the worker that
has taken the file from there. `owned` stands for one worker. The two are never set together, and each step moves a
token, or turns it into ownership, under the lock of the file.

- `Ownership`: each flag is set exactly when somebody has what it stands for (`Produces.ownership`, `Works.ownership`,
  `Closes.ownership`).
- `Awake`: a buffered event is somebody's to write, or to signal.
- `ownership_protocol`: along every execution in which no producer finds the ready queue full.
-/
import AccessPoint.Userlog.Manager

namespace AccessPoint.Userlog

open Producer KeyMap Worker List

variable {R : Type}

/-- it has set `enqueued` on `f` and not put the file on the ready queue -/
def Producer.signals (f : ℕ) : Producer R → Bool
  | .signalling f' => f' = f
  | .overflowed f' => f' = f
  | _ => false

/-- it has sent into the buffer of `f` and not looked at the flags -/
def Producer.waits (f : ℕ) : Producer R → Bool
  | .sent f' => f' = f
  | _ => false

/-- it will send into the buffer of `f` -/
def Producer.sends (f : ℕ) : Producer R → Bool
  | .sending _ f' => f' = f
  | _ => false

/-- it has sent into the buffer of `f` and not finished signalling -/
def Producer.unsignalled (f : ℕ) (p : Producer R) : Bool := p.waits f || p.signals f

/-- it keeps the pointer `f` -/
def Producer.holds (f : ℕ) (p : Producer R) : Bool := p.sends f || p.unsignalled f

@[simp] theorem Producer.holds_sending (f f' : ℕ) (c : Call R) : (Producer.sending c f').holds f = decide (f' = f) := by
  simp [holds, unsignalled, sends, waits, signals]

@[simp] theorem Producer.holds_sent (f f' : ℕ) : (Producer.sent f' : Producer R).holds f = decide (f' = f) := by
  simp [holds, unsignalled, sends, waits, signals]

@[simp] theorem Producer.holds_signalling (f f' : ℕ) :
    (Producer.signalling f' : Producer R).holds f = decide (f' = f) := by
  simp [holds, unsignalled, sends, waits, signals]

@[simp] theorem Producer.holds_overflowed (f f' : ℕ) :
    (Producer.overflowed f' : Producer R).holds f = decide (f' = f) := by
  simp [holds, unsignalled, sends, waits, signals]

/-- it has taken `f` from the ready queue and not marked it -/
def Worker.took (f : ℕ) : Worker R → Bool
  | .popped f' => f' = f
  | _ => false

def Worker.owns (f : ℕ) : Worker R → Bool
  | .draining f' => f' = f
  | .writing f' _ => f' = f
  | .emptied f' => f' = f
  | _ => false

/-- the files of the walk in progress that `Close` has not looked at -/
def Closer.todo : Closer → List ℕ
  | .marking todo => todo
  | .locked f todo => f :: todo
  | .scanning _ todo => todo
  | .looked _ f todo => f :: todo
  | _ => []

theorem Closer.todo_nil {c : Closer} (h : c.busy = false) : c.todo = [] := by
  cases c <;> first | rfl | cases h

namespace Manager

/-- the tokens of `f` -/
def tokens (m : Manager R) (f : ℕ) : ℕ :=
  m.producers.count (·.signals f) + m.ready.count f + m.workers.count (·.took f) + (m.closer.locks f).toNat

def owners (m : Manager R) (f : ℕ) : ℕ := m.workers.count (·.owns f)

variable {m m' : Manager R} {f : ℕ}

theorem heap_setFile (m : Manager R) (f f' : ℕ) (fs : FileState R) :
    (m.setFile f fs).heap f' = if f' = f then fs else m.heap f' := Function.update_apply m.heap f fs f'

variable {i : ℕ} {p : Producer R}

/-- a producer goes from one point to the next -/
theorem count_setProducer (hp : m.producers.lookup i = some p) (p' : Producer R) (P : Producer R → Bool) :
    (m.setProducer i p').producers.count P + (P p).toNat = m.producers.count P + (P p').toNat := by
  have h := count_insert P m.producers i p'
  rw [hp] at h
  cases hold : P p <;> cases hnew : P p' <;> simp [hold, hnew] at h <;> simpa [setProducer] using h

variable {j : ℕ} {w : Worker R}

theorem count_setWorker (hw : m.workers.lookup j = some w) (w' : Worker R) (P : Worker R → Bool) :
    (m.setWorker j w').workers.count P + (P w).toNat = m.workers.count P + (P w').toNat := by
  have h := count_insert P m.workers j w'
  rw [hw] at h
  cases hold : P w <;> cases hnew : P w' <;> simp [hold, hnew] at h <;> simpa [setWorker] using h

theorem tokens_setProducer (hp : m.producers.lookup i = some p) (p' : Producer R) (f : ℕ) :
    (m.setProducer i p').tokens f + (p.signals f).toNat = m.tokens f + (p'.signals f).toNat := by
  have h := count_setProducer hp p' (·.signals f)
  simp only [tokens, setProducer] at h ⊢
  omega

theorem tokens_drop (hp : m.producers.lookup i = some p) (f : ℕ) :
    (m.drop i).tokens f + (p.signals f).toNat = m.tokens f := by
  have h := tokens_setProducer (m := { m with dropped := m.dropped + 1 }.observe (.dropped i)) hp .returned f
  exact h

theorem tokens_setWorker (hw : m.workers.lookup j = some w) (w' : Worker R) (f : ℕ) :
    (m.setWorker j w').tokens f + (w.took f).toNat = m.tokens f + (w'.took f).toNat := by
  have h := count_setWorker hw w' (·.took f)
  simp only [tokens, setWorker] at h ⊢
  omega

theorem owners_setWorker (hw : m.workers.lookup j = some w) (w' : Worker R) (f : ℕ) :
    (m.setWorker j w').owners f + (w.owns f).toNat = m.owners f + (w'.owns f).toNat :=
  count_setWorker hw w' (·.owns f)

/-! ## Pointers -/

/-- every pointer in use is that of a file state that was allocated -/
structure Allocated (m : Manager R) : Prop where
  calls : ∀ i, m.calls ≤ i → m.producers.lookup i = none
  flags : ∀ f, m.next ≤ f → (m.heap f).owned = false ∧ (m.heap f).enqueued = false
  producers : ∀ i p, m.producers.lookup i = some p → ∀ f, p.holds f = true → f < m.next
  files : ∀ p f, m.files.lookup p = some f → f < m.next ∧ (m.heap f).path = p
  todo : ∀ f ∈ m.closer.todo, f ∈ m.tracked

theorem mem_tracked (m : Manager R) (f : ℕ) : f ∈ m.tracked ↔ ∃ p, m.files.lookup p = some f := by
  unfold tracked
  rw [mem_map]
  constructor
  · rintro ⟨⟨p, _⟩, hin, rfl⟩
    exact ⟨p, AList.mem_lookup_iff.2 hin⟩
  · rintro ⟨p, hl⟩
    exact ⟨⟨p, f⟩, AList.mem_lookup_iff.1 hl, rfl⟩

/-! ## Tokens -/

/-- each flag of `f` is set exactly when somebody has what it stands for, and not both are -/
structure Held (m : Manager R) (f : ℕ) : Prop where
  token : m.tokens f = (m.heap f).enqueued.toNat
  owner : m.owners f = (m.heap f).owned.toNat
  apart : (m.heap f).enqueued.toNat + (m.heap f).owned.toNat ≤ 1

def Ownership (m : Manager R) : Prop := ∀ f, m.Held f

/-- no two workers own a file -/
theorem Held.unique (h : m.Held f) {j' : ℕ} {w' : Worker R} (hj : m.workers.lookup j = some w)
    (hj' : m.workers.lookup j' = some w') (hw : w.owns f = true) (hw' : w'.owns f = true) : j = j' :=
  eq_of_count_le_one (h.owner.trans_le (Bool.toNat_le _)) hj hj' hw hw'

/-- a step that leaves the flags and the tokens of `f` alone -/
theorem Held.same (h : m.Held f)
    (hfs : (m'.heap f).enqueued = (m.heap f).enqueued ∧ (m'.heap f).owned = (m.heap f).owned)
    (htokens : m'.tokens f = m.tokens f) (howners : m'.owners f = m.owners f) : m'.Held f := by
  refine ⟨?_, ?_, ?_⟩
  · rw [htokens, hfs.1]
    exact h.token
  · rw [howners, hfs.2]
    exact h.owner
  · rw [hfs.1, hfs.2]
    exact h.apart

/-- a new value for `f`, with the same flags -/
theorem Held.setFile (h : m.Held f) {f' : ℕ} {fs : FileState R}
    (hfs : fs.enqueued = (m.heap f').enqueued ∧ fs.owned = (m.heap f').owned) : (m.setFile f' fs).Held f := by
  refine h.same ?_ rfl rfl
  rw [heap_setFile]
  split_ifs with he
  · rw [he]
    exact hfs
  · exact ⟨rfl, rfl⟩

/-- a producer that neither sets nor gives away a token -/
theorem Held.producer (h : m.Held f) {p p' : Producer R} (hp : m.producers.lookup i = some p)
    (hs : p'.signals f = p.signals f) : (m.setProducer i p').Held f := by
  have htokens := tokens_setProducer hp p' f
  rw [hs] at htokens
  exact h.same ⟨rfl, rfl⟩ (Nat.add_right_cancel htokens) rfl

theorem Held.drop (h : m.Held f) (hp : m.producers.lookup i = some p) (hs : p.signals f = false) :
    (m.drop i).Held f := by
  have hobs : ({ m with dropped := m.dropped + 1 }.observe (.dropped i)).Held f := ⟨h.token, h.owner, h.apart⟩
  exact hobs.producer hp hs.symm

theorem Held.worker (h : m.Held f) {w w' : Worker R} (hw : m.workers.lookup j = some w)
    (hs : w'.took f = w.took f ∧ w'.owns f = w.owns f) : (m.setWorker j w').Held f := by
  have htokens := tokens_setWorker hw w' f
  have howners := owners_setWorker hw w' f
  rw [hs.1] at htokens
  rw [hs.2] at howners
  exact h.same ⟨rfl, rfl⟩ (Nat.add_right_cancel htokens) (Nat.add_right_cancel howners)

/-- a step that sets the flags of `f` and moves what they stand for -/
theorem Ownership.change (h : m.Ownership) {fs : FileState R} (hheap : m'.heap = Function.update m.heap f fs)
    (hother : ∀ f', f' ≠ f → m'.tokens f' = m.tokens f' ∧ m'.owners f' = m.owners f')
    (htokens : m'.tokens f = fs.enqueued.toNat) (howners : m'.owners f = fs.owned.toNat)
    (hapart : fs.enqueued.toNat + fs.owned.toNat ≤ 1) : m'.Ownership := by
  intro f'
  by_cases he : f' = f
  · subst he
    refine ⟨?_, ?_, ?_⟩ <;> rw [hheap, Function.update_self]
    · exact htokens
    · exact howners
    · exact hapart
  · refine (h f').same ?_ (hother f' he).1 (hother f' he).2
    rw [hheap, Function.update_of_ne he]
    exact ⟨rfl, rfl⟩

variable {ch : Choice}

theorem Produces.ownership (h : Produces m i ch m') (ha : m.Allocated) (ho : m.Ownership) : m'.Ownership := by
  cases h with
  | refuse c hp => exact fun f' => (ho f').drop hp rfl
  | found c f hp | covered f hp | overflow f hp => exact fun f' => (ho f').producer hp rfl
  | create c now m₁ hp hmu hclosing hl hm =>
    have hnew := ha.flags m.next le_rfl
    have hset : (m.setFile m.next (.new c.path now)).Ownership := fun f' => (ho f').setFile ⟨hnew.2.symm, hnew.1.symm⟩
    cases hm with
    | below =>
      have hmade : (m.newFile c.path now).Ownership := fun f' => ⟨(hset f').token, (hset f').owner, (hset f').apart⟩
      exact fun f' => (hmade f').producer hp rfl
    | evict p =>
      have hmade : ({ m with files := m.files.erase p }.newFile c.path now).Ownership :=
        fun f' => ⟨(hset f').token, (hset f').owner, (hset f').apart⟩
      exact fun f' => (hmade f').producer hp rfl
  | send c f hp =>
    intro f'
    have hset : (m.setFile f ((m.heap f).push ⟨i, c.key, c.record⟩)).Held f' :=
      (ho f').setFile ⟨rfl, rfl⟩
    have hsent : ((m.setFile f ((m.heap f).push ⟨i, c.key, c.record⟩)).observe
      (.sent f c.path ⟨i, c.key, c.record⟩)).Held f' := ⟨hset.token, hset.owner, hset.apart⟩
    exact hsent.producer hp rfl
  | giveUp c f hp =>
    intro f'
    have hset : (m.setFile f (m.heap f).countDrop).Held f' := (ho f').setFile ⟨rfl, rfl⟩
    exact hset.drop hp rfl
  | signal f hp hmu howned henq =>
    have htokens := tokens_setProducer (m := m.setEnqueued f true) hp (.signalling f)
    have hsame : ∀ f', (m.setEnqueued f true).tokens f' = m.tokens f' := fun _ => rfl
    simp only [hsame, signals, Bool.toNat_false, Nat.add_zero] at htokens
    refine ho.change rfl (fun f' hne => ⟨?_, rfl⟩) ?_ (ho f).owner ?_
    · rw [htokens f', decide_eq_false (Ne.symm hne)]
      rfl
    · rw [htokens f, (ho f).token, henq, decide_eq_true (rfl : f = f)]
      rfl
    · simp [howned]
  | push f hp =>
    intro f'
    have htokens := tokens_setProducer (m := { m with ready := m.ready ++ [f] }) hp .returned f'
    refine (ho f').same ⟨rfl, rfl⟩ ?_ rfl
    simp only [signals, Bool.toNat_false, tokens, count_append, count_singleton] at htokens ⊢
    by_cases he : f = f'
    · simp [he] at htokens ⊢
      omega
    · simp [he] at htokens ⊢
      omega
  | undo f hp =>
    have htokens := tokens_drop (m := m.setEnqueued f false) hp
    have hsame : ∀ f', (m.setEnqueued f false).tokens f' = m.tokens f' := fun _ => rfl
    simp only [hsame, signals] at htokens
    have hone := (ho f).apart
    refine ho.change rfl (fun f' hne => ⟨?_, rfl⟩) ?_ (ho f).owner ?_
    · have h := htokens f'
      rw [decide_eq_false (Ne.symm hne)] at h
      exact h
    · have h := htokens f
      rw [decide_eq_true (rfl : f = f), (ho f).token] at h
      simp only [Bool.toNat_true, FileState.setEnqueued_enqueued, Bool.toNat_false] at h ⊢
      omega
    · simpa using Bool.toNat_le (m.heap f).owned

theorem Works.ownership (h : Works m j m') (ho : m.Ownership) : m'.Ownership := by
  cases h with
  | stop hw | empty f hw | again f hw => exact fun f' => (ho f').worker hw ⟨rfl, rfl⟩
  | pop f rest hw hr =>
    intro f'
    have htokens := tokens_setWorker (m := { m with ready := rest }) hw (.popped f) f'
    have howners := owners_setWorker (m := { m with ready := rest }) hw (.popped f) f'
    refine (ho f').same ⟨rfl, rfl⟩ ?_ howners
    simp only [took, Bool.toNat_false, tokens, hr, count_cons] at htokens ⊢
    by_cases he : f = f'
    · simp [he] at htokens ⊢
      omega
    · simp [he] at htokens ⊢
      omega
  | mark f hw =>
    have htokens := tokens_setWorker (m := m.setFile f (m.heap f).own) hw (.draining f)
    have howners := owners_setWorker (m := m.setFile f (m.heap f).own) hw (.draining f)
    have hsame : ∀ f', (m.setFile f (m.heap f).own).tokens f' = m.tokens f' ∧
        (m.setFile f (m.heap f).own).owners f' = m.owners f' := fun _ => ⟨rfl, rfl⟩
    simp only [(hsame _).1, took, Bool.toNat_false, Nat.add_zero] at htokens
    simp only [(hsame _).2, owns, Bool.toNat_false, Nat.add_zero] at howners
    obtain ⟨htoken, howner, hapart⟩ := ho f
    refine ho.change rfl (fun f' hne => ⟨?_, ?_⟩) ?_ ?_ (by simp)
    · have h := htokens f'
      rwa [decide_eq_false (Ne.symm hne)] at h
    · rw [howners f', decide_eq_false (Ne.symm hne)]
      rfl
    · have h := htokens f
      simp only [decide_true, Bool.toNat_true, FileState.own_enqueued, Bool.toNat_false] at h ⊢
      omega
    · have h := htokens f
      rw [howners f]
      simp only [decide_true, Bool.toNat_true, FileState.own_owned] at h ⊢
      omega
  | receive f ev rest hw =>
    intro f'
    have hset : (m.setFile f ((m.heap f).setCh rest)).Held f' := (ho f').setFile ⟨rfl, rfl⟩
    exact hset.worker hw ⟨rfl, rfl⟩
  | write f ev hw =>
    intro f'
    have hset : (m.write j f ev).Held f' := by
      refine (ho f').same ?_ rfl rfl
      simp only [Manager.write, observe, heap_setFile]
      split_ifs with he
      · rw [he]
        exact ⟨rfl, rfl⟩
      · exact ⟨rfl, rfl⟩
    exact hset.worker hw ⟨rfl, rfl⟩
  | release f now hw =>
    have htokens := tokens_setWorker (m := m.setFile f ((m.heap f).disown now)) hw .idle
    have howners := owners_setWorker (m := m.setFile f ((m.heap f).disown now)) hw .idle
    have hsame : ∀ f', (m.setFile f ((m.heap f).disown now)).owners f' = m.owners f' :=
      fun _ => rfl
    simp only [hsame, owns, Bool.toNat_false, Nat.add_zero] at howners
    obtain ⟨htoken, _, _⟩ := ho f
    refine ho.change rfl (fun f' hne => ⟨htokens f', ?_⟩) ((htokens f).trans htoken) ?_ ?_
    · have h := howners f'
      rwa [decide_eq_false (Ne.symm hne)] at h
    · have h := howners f
      simp only [decide_true, Bool.toNat_true, FileState.disown_owned, Bool.toNat_false] at h ⊢
      omega
    · simp only [FileState.disown_owned, Bool.toNat_false]
      exact Nat.add_le_of_le_sub (by omega) (Bool.toNat_le _)

/-- what `Close` does to the tokens it does with the lock of the file -/
theorem Closes.ownership {expired : Bool} (h : Closes m expired m') (ho : m.Ownership) : m'.Ownership := by
  cases h with
  | lock f todo hc howned henq =>
    have htoken := (ho f).token
    refine ho.change rfl (fun f' hne => ⟨?_, rfl⟩) ?_ (ho f).owner ?_
    · simp [tokens, setEnqueued, setFile, hc, Closer.locks, Ne.symm hne]
    · simp only [tokens, hc, henq, Closer.locks, Bool.toNat_false] at htoken
      simp only [tokens, setEnqueued, setFile, Closer.locks, decide_true, FileState.setEnqueued_enqueued,
        Bool.toNat_true]
      omega
    · simp [howned]
  | push f todo hc =>
    intro f'
    refine (ho f').same ⟨rfl, rfl⟩ ?_ rfl
    simp only [tokens, hc, Closer.locks, Bool.toNat_false, count_append]
    by_cases he : f = f'
    · simp [he]
      omega
    · simp [he]
  | undo f todo hc =>
    have htoken := (ho f).token
    have hapart := (ho f).apart
    simp only [tokens, hc, Closer.locks, decide_true, Bool.toNat_true] at htoken
    refine ho.change rfl (fun f' hne => ⟨?_, rfl⟩) ?_ (ho f).owner ?_
    · simp [tokens, setEnqueued, setFile, hc, Closer.locks, Ne.symm hne]
    · simp only [tokens, setEnqueued, setFile, Closer.locks, FileState.setEnqueued_enqueued, Bool.toNat_false]
      omega
    · simpa using Bool.toNat_le (m.heap f).owned
  | begin order hc ho' | marked hc | skip f todo hc | poll order hc ho' | look n f todo hc | count n f todo hc
  | drained hc
  | again n hc | expire n hc he | quit hc | done hc hs =>
    intro f'
    refine (ho f').same ⟨rfl, rfl⟩ ?_ rfl
    simp [tokens, hc, Closer.locks]

/-- a producer that has come to the point `p'` keeps no pointer of its own making -/
theorem Allocated.setProducer (h : m.Allocated) {p p' : Producer R} (hp : m.producers.lookup i = some p)
    (hholds : ∀ f, p'.holds f = true → f < m.next) : (m.setProducer i p').Allocated := by
  refine ⟨fun i' hi' => ?_, h.flags, fun i' q hq f hf => ?_, h.files, h.todo⟩
  · have hne : i' ≠ i := by
      rintro rfl
      rw [h.calls i' hi'] at hp
      cases hp
    simp only [Manager.setProducer, lookup_insert_ite, if_neg hne]
    exact h.calls i' hi'
  · simp only [Manager.setProducer, lookup_insert_ite] at hq
    split_ifs at hq
    · obtain rfl := Option.some.inj hq
      exact hholds f hf
    · exact h.producers i' q hq f hf

theorem Allocated.drop (h : m.Allocated) (hp : m.producers.lookup i = some p) : (m.drop i).Allocated := by
  have hobs : ({ m with dropped := m.dropped + 1 }.observe (.dropped i)).Allocated :=
    ⟨h.calls, h.flags, h.producers, h.files, h.todo⟩
  exact hobs.setProducer hp fun f hf => (nomatch hf)

theorem Allocated.setFile (h : m.Allocated) (f : ℕ) (fs : FileState R) (hpath : fs.path = (m.heap f).path)
    (hflags : m.next ≤ f → fs.owned = false ∧ fs.enqueued = false) : (m.setFile f fs).Allocated := by
  refine ⟨h.calls, fun f' hf' => ?_, h.producers, fun p f' hl => ⟨(h.files p f' hl).1, ?_⟩, h.todo⟩
  · rw [heap_setFile]
    split_ifs with he
    · exact hflags (he ▸ hf')
    · exact h.flags f' hf'
  · rw [heap_setFile]
    split_ifs with he
    · rw [hpath, ← he]
      exact (h.files p f' hl).2
    · exact (h.files p f' hl).2

/-- a file leaves the map -/
theorem Allocated.erase (h : m.Allocated) (hmu : m.closer.busy = false) (p : String) :
    ({ m with files := m.files.erase p } : Manager R).Allocated := by
  refine ⟨h.calls, h.flags, h.producers, fun p' f hl => h.files p' f (lookup_of_erase hl), fun f hf => ?_⟩
  have hnil : m.closer.todo = [] := Closer.todo_nil hmu
  rw [show ({ m with files := m.files.erase p } : Manager R).closer.todo = [] from hnil] at hf
  cases hf

theorem Allocated.newFile (h : m.Allocated) (hmu : m.closer.busy = false) (path : String) (now : ℤ) :
    (m.newFile path now).Allocated := by
  refine ⟨h.calls, fun f hf => ?_, fun i p hp f hf => ?_, fun p f hl => ?_, fun f hf => ?_⟩
  · have hlt : m.next < f := hf
    have hsame : (m.newFile path now).heap f = m.heap f := Function.update_of_ne hlt.ne' _ _
    rw [hsame]
    exact h.flags f hlt.le
  · exact Nat.lt_succ_of_lt (h.producers i p hp f hf)
  · simp only [Manager.newFile, lookup_insert_ite] at hl
    split_ifs at hl with hp
    · obtain rfl := Option.some.inj hl
      have hself : (m.newFile path now).heap m.next = .new path now := Function.update_self ..
      rw [hself]
      exact ⟨Nat.lt_succ_self _, hp.symm⟩
    · obtain ⟨hlt, hpath⟩ := h.files p f hl
      have hsame : (m.newFile path now).heap f = m.heap f := Function.update_of_ne hlt.ne _ _
      rw [hsame]
      exact ⟨Nat.lt_succ_of_lt hlt, hpath⟩
  · have hnil : m.closer.todo = [] := Closer.todo_nil hmu
    rw [show (m.newFile path now).closer.todo = [] from hnil] at hf
    cases hf

theorem Produces.allocated (h : Produces m i ch m') (ha : m.Allocated) : m'.Allocated := by
  have hkeep : ∀ p, m.producers.lookup i = some p → ∀ f, p.holds f = true → f < m.next := ha.producers i
  have hset : ∀ p, m.producers.lookup i = some p → ∀ f, p.holds f = true → ∀ fs : FileState R,
      fs.path = (m.heap f).path → (m.setFile f fs).Allocated := fun p hp f hf fs hpath =>
    ha.setFile f fs hpath fun hle => absurd (hkeep p hp f hf) (Nat.not_lt.2 hle)
  cases h with
  | refuse c hp => exact ha.drop hp
  | found c f hp hmu hclosing hl =>
    refine ha.setProducer hp fun f' hf' => ?_
    obtain rfl : f = f' := by simpa using hf'
    exact (ha.files c.path f hl).1
  | create c now m₁ hp hmu hclosing hl hm =>
    have hmade : (m₁.newFile c.path now).Allocated ∧ (m₁.newFile c.path now).next = m.next + 1 ∧
        (m₁.newFile c.path now).producers = m.producers := by
      cases hm with
      | below => exact ⟨ha.newFile hmu c.path now, rfl, rfl⟩
      | evict p => exact ⟨(ha.erase hmu p).newFile hmu c.path now, rfl, rfl⟩
    obtain ⟨hmade, hnext, hprod⟩ := hmade
    refine hmade.setProducer (hprod ▸ hp) fun f' hf' => ?_
    obtain rfl : m.next = f' := by simpa using hf'
    rw [hnext]
    exact Nat.lt_succ_self _
  | send c f hp =>
    have hf : f < m.next := hkeep _ hp f (by simp)
    have hset := hset _ hp f (by simp) ((m.heap f).push ⟨i, c.key, c.record⟩) rfl
    have hsent : ((m.setFile f ((m.heap f).push ⟨i, c.key, c.record⟩)).observe
      (.sent f c.path ⟨i, c.key, c.record⟩)).Allocated :=
        ⟨hset.calls, hset.flags, hset.producers, hset.files, hset.todo⟩
    refine hsent.setProducer hp fun f' hf' => ?_
    obtain rfl : f = f' := by simpa using hf'
    exact hf
  | giveUp c f hp => exact (hset _ hp f (by simp) (m.heap f).countDrop rfl).drop hp
  | signal f hp =>
    refine (hset _ hp f (by simp) ((m.heap f).setEnqueued true) rfl).setProducer hp fun f' hf' => ?_
    obtain rfl : f = f' := by simpa using hf'
    exact hkeep _ hp f (by simp)
  | covered f hp => exact ha.setProducer hp fun f' hf' => (nomatch hf')
  | push f hp =>
    have hready : ({ m with ready := m.ready ++ [f] } : Manager R).Allocated :=
      ⟨ha.calls, ha.flags, ha.producers, ha.files, ha.todo⟩
    exact hready.setProducer hp fun f' hf' => (nomatch hf')
  | overflow f hp =>
    refine ha.setProducer hp fun f' hf' => hkeep _ hp f' ?_
    simpa using hf'
  | undo f hp => exact (hset _ hp f (by simp) ((m.heap f).setEnqueued false) rfl).drop hp

/-- a worker that owns a file is the owner its flag stands for -/
theorem Ownership.owned (h : m.Ownership) (hw : m.workers.lookup j = some w) (hf : w.owns f = true) :
    (m.heap f).owned = true := by
  have hpos : 0 < m.owners f := count_pos.2 ⟨j, w, hw, hf⟩
  rw [(h f).owner] at hpos
  cases ho : (m.heap f).owned with
  | true => rfl
  | false => simp [ho] at hpos

theorem Ownership.enqueued (h : m.Ownership) (hpos : 0 < m.tokens f) : (m.heap f).enqueued = true := by
  rw [(h f).token] at hpos
  cases he : (m.heap f).enqueued with
  | true => rfl
  | false => simp [he] at hpos

theorem tokens_took (hw : m.workers.lookup j = some w) (hf : w.took f = true) : 0 < m.tokens f := by
  have hpos : 0 < m.workers.count (·.took f) := count_pos.2 ⟨j, w, hw, hf⟩
  unfold tokens
  omega

theorem tokens_signals (hp : m.producers.lookup i = some p) (hf : p.signals f = true) : 0 < m.tokens f := by
  have hpos : 0 < m.producers.count (·.signals f) := count_pos.2 ⟨i, p, hp, hf⟩
  unfold tokens
  omega

theorem tokens_ready (h : f ∈ m.ready) : 0 < m.tokens f := by
  have hpos : 0 < m.ready.count f := count_pos_iff.2 h
  unfold tokens
  omega

/-- a file with a flag set was allocated -/
theorem Allocated.flagged (h : m.Allocated) (hf : (m.heap f).owned = true ∨ (m.heap f).enqueued = true) :
    f < m.next := by
  by_contra hle
  obtain ⟨howned, henq⟩ := h.flags f (Nat.not_lt.1 hle)
  rw [howned, henq] at hf
  simp at hf

theorem Works.allocated (h : Works m j m') (ha : m.Allocated) (ho : m.Ownership) : m'.Allocated := by
  have hset : ∀ m₁ : Manager R, m₁.Allocated → ∀ w, (m₁.setWorker j w).Allocated :=
    fun m₁ h w => ⟨h.calls, h.flags, h.producers, h.files, h.todo⟩
  have hown : ∀ w f, m.workers.lookup j = some w → w.owns f = true → f < m.next :=
    fun w f hw hf => ha.flagged (.inl (ho.owned hw hf))
  cases h with
  | stop | empty | again => exact hset m ha _
  | pop f rest => exact hset { m with ready := rest } ⟨ha.calls, ha.flags, ha.producers, ha.files, ha.todo⟩ _
  | mark f hw =>
    have hf : f < m.next := ha.flagged (.inr (ho.enqueued (tokens_took hw (by simp [took]))))
    refine hset _ (ha.setFile f _ ?_ fun hle => absurd hf (Nat.not_lt.2 hle)) _
    rfl
  | receive f ev rest hw | release f now hw =>
    have hf : f < m.next := hown _ f hw (by simp [owns])
    refine hset _ (ha.setFile f _ ?_ fun hle => absurd hf (Nat.not_lt.2 hle)) _
    rfl
  | write f ev hw =>
    have hf : f < m.next := hown _ f hw (by simp [owns])
    have hcache := ha.setFile f ((m.heap f).cache ev.key) rfl
      fun hle => absurd hf (Nat.not_lt.2 hle)
    exact hset (m.write j f ev) ⟨hcache.calls, hcache.flags, hcache.producers, hcache.files, hcache.todo⟩ _

theorem Closes.allocated {expired : Bool} (h : Closes m expired m') (ha : m.Allocated) : m'.Allocated := by
  have hstay : ∀ c : Closer, (∀ f ∈ c.todo, f ∈ m.tracked) → ({ m with closer := c } : Manager R).Allocated :=
    fun c hc => ⟨ha.calls, ha.flags, ha.producers, ha.files, hc⟩
  have hlt : ∀ f ∈ m.closer.todo, f < m.next := by
    intro f hf
    obtain ⟨p, hl⟩ := (mem_tracked m f).1 (ha.todo f hf)
    exact (ha.files p f hl).1
  have htodo := ha.todo
  cases h with
  | begin order hc ho =>
    exact ⟨ha.calls, ha.flags, ha.producers, ha.files, fun f hf => ho.mem_iff.1 hf⟩
  | marked | drained | again | expire | done =>
    exact hstay _ fun f hf => absurd hf not_mem_nil
  | lock f todo hc =>
    rw [hc] at htodo hlt
    have hset := ha.setFile f ((m.heap f).setEnqueued true) rfl
      fun hle => absurd (hlt f mem_cons_self) (Nat.not_lt.2 hle)
    exact ⟨hset.calls, hset.flags, hset.producers, hset.files, htodo⟩
  | skip f todo hc | count n f todo hc =>
    rw [hc] at htodo
    exact hstay _ fun f' hf' => htodo f' (mem_cons_of_mem f hf')
  | push f todo hc =>
    rw [hc] at htodo
    exact ⟨ha.calls, ha.flags, ha.producers, ha.files, fun f' hf' => htodo f' (mem_cons_of_mem f hf')⟩
  | undo f todo hc =>
    rw [hc] at htodo hlt
    have hset := ha.setFile f ((m.heap f).setEnqueued false) rfl
      fun hle => absurd (hlt f mem_cons_self) (Nat.not_lt.2 hle)
    exact ⟨hset.calls, hset.flags, hset.producers, hset.files, fun f' hf' => htodo f' (mem_cons_of_mem f hf')⟩
  | poll order hc ho => exact hstay _ fun f hf => ho.mem_iff.1 hf
  | look n f todo hc =>
    rw [hc] at htodo
    exact hstay _ htodo
  | quit => exact ⟨ha.calls, ha.flags, ha.producers, ha.files, fun f hf => absurd hf not_mem_nil⟩

/-- what every execution keeps -/
structure Sound (m : Manager R) : Prop where
  allocated : m.Allocated
  ownership : m.Ownership

/-- **One step.** -/
theorem Sound.step (h : m.Sound) (s : Step R) : (m.step s).Sound := by
  obtain ⟨ha, ho⟩ := h
  have hmove := step_move m s
  generalize m.step s = m' at hmove
  cases hmove with
  | idle => exact ⟨ha, ho⟩
  | call c =>
    have hnone : m.producers.lookup m.calls = none := ha.calls m.calls le_rfl
    refine ⟨⟨fun i hi => ?_, ha.flags, fun i p hp f hf => ?_, ha.files, ha.todo⟩, fun f => ?_⟩
    · have hlt : m.calls < i := hi
      simp only [setProducer, lookup_insert_ite, if_neg hlt.ne']
      exact ha.calls i hlt.le
    · simp only [setProducer, lookup_insert_ite] at hp
      split_ifs at hp
      · rw [← Option.some.inj hp] at hf
        cases hf
      · exact ha.producers i p hp f hf
    · have hcount := count_insert (·.signals f) m.producers m.calls (.calling c)
      rw [hnone] at hcount
      refine (ho f).same ⟨rfl, rfl⟩ ?_ rfl
      simpa [tokens, setProducer, signals] using hcount
  | producer i ch _ h => exact ⟨h.allocated ha, h.ownership ha ho⟩
  | worker j ch _ h => exact ⟨h.allocated ha ho, h.ownership ho⟩
  | reap path now f hmu =>
    exact ⟨ha.erase hmu path, fun f' => ⟨(ho f').token, (ho f').owner, (ho f').apart⟩⟩
  | closer ch _ h => exact ⟨h.allocated ha, h.ownership ho⟩

theorem new_idle (cfg : Config) (hw : (new cfg : Manager R).workers.lookup j = some w) : w = .idle := by
  have hall : ∀ (js : List ℕ) (ws : KeyMap ℕ (Worker R)), (∀ j w, ws.lookup j = some w → w = .idle) →
      ∀ j w, (js.foldl (fun ws j => ws.insert j .idle) ws).lookup j = some w → w = .idle := by
    intro js
    induction js with
    | nil => exact fun ws h => h
    | cons j₀ js ih =>
      intro ws h
      refine ih _ fun j w hw => ?_
      rw [lookup_insert_ite] at hw
      split_ifs at hw
      · exact (Option.some.inj hw).symm
      · exact h j w hw
  refine hall _ ∅ (fun j w hw => ?_) j w hw
  simp at hw

theorem new_sound (cfg : Config) : (new cfg : Manager R).Sound := by
  refine ⟨⟨fun i _ => rfl, fun f _ => ⟨rfl, rfl⟩, fun i p hp => by simp [new] at hp, fun p f hl => by simp [new] at hl,
    fun f hf => absurd hf not_mem_nil⟩, fun f => ?_⟩
  have hnone : ∀ P : Worker R → Bool, P .idle = false → (new cfg : Manager R).workers.count P = 0 := by
    intro P hP
    by_contra hne
    obtain ⟨_, _, hw, hw'⟩ := count_pos.1 (Nat.pos_of_ne_zero hne)
    rw [new_idle cfg hw, hP] at hw'
    cases hw'
  have htook := hnone (·.took f) rfl
  have howns := hnone (·.owns f) rfl
  refine ⟨?_, ?_, ?_⟩
  · simp only [tokens, htook]
    rfl
  · exact howns
  · exact Nat.zero_le _

/-! ## No event is forgotten -/

/-- a producer that sets `enqueued` finds room in the ready queue -/
def signalFits (m : Manager R) : Step R → Bool
  | .producer i _ =>
    match m.producers.lookup i with
    | some (.signalling _) => m.hasRoom
    | _ => true
  | _ => true

/-- those who will see to the events in the buffer of `f` -/
def cover (m : Manager R) (f : ℕ) : ℕ :=
  m.owners f + m.ready.count f + m.workers.count (·.took f) + m.producers.count (·.unsignalled f)

theorem cover_setProducer (hp : m.producers.lookup i = some p) (p' : Producer R) (f : ℕ) :
    (m.setProducer i p').cover f + (p.unsignalled f).toNat = m.cover f + (p'.unsignalled f).toNat := by
  have h := count_setProducer hp p' (·.unsignalled f)
  simp only [cover, owners, setProducer] at h ⊢
  omega

theorem cover_drop (hp : m.producers.lookup i = some p) (f : ℕ) :
    (m.drop i).cover f + (p.unsignalled f).toNat = m.cover f := by
  have h := cover_setProducer (m := { m with dropped := m.dropped + 1 }.observe (.dropped i)) hp .returned f
  exact h

theorem cover_setWorker (hw : m.workers.lookup j = some w) (w' : Worker R) (f : ℕ) :
    (m.setWorker j w').cover f + (w.took f).toNat + (w.owns f).toNat = m.cover f + (w'.took f).toNat +
    (w'.owns f).toNat := by
  have htook := count_setWorker hw w' (·.took f)
  have howns := count_setWorker hw w' (·.owns f)
  simp only [cover, owners, setWorker] at htook howns ⊢
  omega

/-- a producer that goes on without sending or signalling -/
theorem cover_same {p p' : Producer R} (hp : m.producers.lookup i = some p) {f : ℕ}
    (h : p'.unsignalled f = p.unsignalled f) : (m.setProducer i p').cover f = m.cover f := by
  have hcover := cover_setProducer hp p' f
  rw [h] at hcover
  exact Nat.add_right_cancel hcover

theorem cover_send {c : Call R} {f : ℕ} (hp : m.producers.lookup i = some (.sending c f)) (f' : ℕ) :
    (m.send i c f).cover f' = m.cover f' + (decide (f = f')).toNat := by
  have hcover := cover_setProducer (m := (m.setFile f ((m.heap f).push ⟨i, c.key, c.record⟩)).observe
    (.sent f c.path ⟨i, c.key, c.record⟩)) hp (.sent f) f'
  simp only [unsignalled, waits, signals, Bool.or_false, Bool.toNat_false,
    Nat.add_zero] at hcover
  exact hcover

/-- no producer is where it found the ready queue full -/
def Roomy (m : Manager R) : Prop := ∀ i f, m.producers.lookup i ≠ some (.overflowed f)

/-- every buffered event has somebody who will see to it -/
def Awake (m : Manager R) : Prop := ∀ f, (m.heap f).ch ≠ [] → 0 < m.cover f

/-- nobody leaves a file -/
theorem Awake.mono (h : m.Awake)
    (hcover : ∀ f, (m'.heap f).ch ≠ [] → 0 < m'.cover f ∨ (m.heap f).ch ≠ [] ∧ m.cover f ≤ m'.cover f) : m'.Awake := by
  intro f hch
  rcases hcover f hch with hpos | ⟨hold, hle⟩
  · exact hpos
  · exact lt_of_lt_of_le (h f hold) hle

/-- a producer's step moves that producer only -/
theorem Produces.producers (h : Produces m i ch m') :
    ∃ p, m'.producers = m.producers.insert i p ∧
      ∀ f, p = .overflowed f → m.producers.lookup i = some (.signalling f) ∧ m.hasRoom = false := by
  cases h with
  | refuse | giveUp c f | covered f hp hmu h | push f =>
    exact ⟨.returned, rfl, fun f h => (nomatch h)⟩
  | found c f => exact ⟨.sending c f, rfl, fun f h => (nomatch h)⟩
  | create c now m₁ hp hmu hclosing hl hm =>
    refine ⟨.sending c m.next, ?_, fun f h => (nomatch h)⟩
    cases hm <;> rfl
  | send c f => exact ⟨.sent f, rfl, fun f h => (nomatch h)⟩
  | signal f => exact ⟨.signalling f, rfl, fun f h => (nomatch h)⟩
  | overflow f hp hroom =>
    refine ⟨.overflowed f, rfl, fun f' h => ?_⟩
    cases h
    exact ⟨hp, hroom⟩
  | undo f => exact ⟨.returned, rfl, fun f h => (nomatch h)⟩

theorem Produces.roomy (h : Produces m i ch m') (hr : m.Roomy)
    (hfits : ∀ f, m.producers.lookup i = some (.signalling f) → m.hasRoom = true) : m'.Roomy := by
  obtain ⟨_, hprod, hover⟩ := h.producers
  intro i' f hl
  rw [hprod, lookup_insert_ite] at hl
  split_ifs at hl
  · obtain ⟨hp, hroom⟩ := hover f (Option.some.inj hl)
    rw [hfits f hp] at hroom
    cases hroom
  · exact hr i' f hl

theorem ch_setFile (m : Manager R) (f : ℕ) (fs : FileState R) (hfs : fs.ch = (m.heap f).ch) (f' : ℕ) :
    ((m.setFile f fs).heap f').ch = (m.heap f').ch := by
  rw [heap_setFile]
  split_ifs with he
  · rw [he, hfs]
  · rfl

/-- a token that `Close` does not have is one of those who see to the file -/
theorem tokens_le_cover (hmu : m.closer.locks f = false) : m.tokens f ≤ m.cover f := by
  have hle : m.producers.count (·.signals f) ≤ m.producers.count (·.unsignalled f) := by
    refine count_mono (fun p hp => ?_) m.producers
    simp [unsignalled, hp]
  simp only [tokens, cover, hmu, Bool.toNat_false]
  omega

/-- a file with a flag set has somebody -/
theorem Ownership.cover_pos (h : m.Ownership) (hmu : m.closer.locks f = false)
    (hf : (m.heap f).owned = true ∨ (m.heap f).enqueued = true) : 0 < m.cover f := by
  rcases hf with howned | henq
  · have howner := (h f).owner
    rw [howned] at howner
    simp only [Bool.toNat_true] at howner
    unfold cover
    omega
  · have htoken := (h f).token
    rw [henq] at htoken
    simp only [Bool.toNat_true] at htoken
    have hle := tokens_le_cover hmu
    omega

theorem Produces.awake (h : Produces m i ch m') (hs : m.Sound) (hw : m.Awake) (hr : m.Roomy) (hr' : m'.Roomy) :
    m'.Awake := by
  have howned := h.ownership hs.allocated hs.ownership
  cases h with
  | refuse c hp => exact hw.mono fun f hch => .inr ⟨hch, (cover_drop hp f).ge⟩
  | found c f hp => exact hw.mono fun f' hch => .inr ⟨hch, (cover_same hp rfl).ge⟩
  | create c now m₁ hp hmu hclosing hl hm =>
    have hmade : (m₁.newFile c.path now).heap = Function.update m.heap m.next (.new c.path now) ∧
        (m₁.newFile c.path now).producers = m.producers ∧ ∀ f, (m₁.newFile c.path now).cover f = m.cover f := by
      cases hm <;> exact ⟨rfl, rfl, fun _ => rfl⟩
    obtain ⟨hheap, hprod, hcover⟩ := hmade
    refine hw.mono fun f' hch => .inr ⟨?_, ?_⟩
    · have hch' : ((m₁.newFile c.path now).heap f').ch ≠ [] := hch
      rw [hheap, Function.update_apply] at hch'
      split_ifs at hch'
      · exact absurd rfl hch'
      · exact hch'
    · have hp' : (m₁.newFile c.path now).producers.lookup i = some (.calling c) := hprod ▸ hp
      have hsame : ((m₁.newFile c.path now).setProducer i (.sending c m.next)).cover f' =
        (m₁.newFile c.path now).cover f' := cover_same hp' rfl
      rw [hsame, hcover f']
  | send c f hp =>
    refine hw.mono fun f' hch => ?_
    have hcover := cover_send hp f'
    by_cases he : f' = f
    · left
      subst he
      simp at hcover
      omega
    · right
      have hsame : (m.send i c f).heap f' = m.heap f' := Function.update_of_ne he _ _
      rw [hsame] at hch
      rw [hcover]
      exact ⟨hch, Nat.le_add_right _ _⟩
  | giveUp c f hp =>
    refine hw.mono fun f' hch => .inr ⟨?_, (cover_drop (m := m.setFile f _) hp f').ge⟩
    rw [← ch_setFile m f (m.heap f).countDrop rfl f']
    exact hch
  | signal f hp =>
    refine hw.mono fun f' hch => .inr ⟨?_, ?_⟩
    · rw [← ch_setFile m f ((m.heap f).setEnqueued true) rfl f']
      exact hch
    · have hcover : ((m.setEnqueued f true).setProducer i (.signalling f)).cover f' = (m.setEnqueued f true).cover f' :=
        cover_same hp (by simp [unsignalled, waits, signals])
      exact hcover.ge
  | covered f hp hmu hflag =>
    refine hw.mono fun f' hch => ?_
    by_cases he : f' = f
    · subst he
      exact .inl (howned.cover_pos hmu hflag)
    · have hne : f ≠ f' := fun h => he h.symm
      exact .inr ⟨hch, (cover_same hp (by simp [unsignalled, waits, signals, hne])).ge⟩
  | push f hp =>
    refine hw.mono fun f' hch => .inr ⟨hch, ?_⟩
    have hcover := cover_setProducer (m := { m with ready := m.ready ++ [f] }) hp .returned f'
    have hready : ({ m with ready := m.ready ++ [f] } : Manager R).cover f' = m.cover f' + (decide (f = f')).toNat := by
      simp only [cover, owners, count_append]
      by_cases he : f = f' <;> simp [he]
      omega
    rw [hready] at hcover
    simp [unsignalled, waits, signals] at hcover
    omega
  | overflow f => exact absurd (AList.lookup_insert _) (hr' i f)
  | undo f hp => exact absurd hp (hr i f)

theorem Works.awake (h : Works m j m') (hw : m.Awake) : m'.Awake := by
  cases h with
  | stop hj => exact hw.mono fun f hch => .inr ⟨hch, (cover_setWorker hj .stopped f).ge⟩
  | pop f rest hj hr =>
    refine hw.mono fun f' hch => .inr ⟨hch, ?_⟩
    have hcover := cover_setWorker (m := { m with ready := rest }) hj (.popped f) f'
    have hready : m.cover f' = ({ m with ready := rest } : Manager R).cover f' + (decide (f = f')).toNat := by
      simp only [cover, owners, hr, count_cons]
      by_cases he : f = f' <;> simp [he]
      omega
    simp only [took, owns, Bool.toNat_false] at hcover
    omega
  | mark f hj =>
    refine hw.mono fun f' hch => .inr ⟨?_, ?_⟩
    · rw [← ch_setFile m f (m.heap f).own rfl f']
      exact hch
    · have hcover := cover_setWorker (m := m.setFile f (m.heap f).own) hj (.draining f) f'
      have hbase : (m.setFile f (m.heap f).own).cover f' = m.cover f' := rfl
      simp only [took, owns, Bool.toNat_false, hbase] at hcover
      omega
  | receive f ev rest hj hch =>
    refine hw.mono fun f' hch' => .inr ⟨?_, ?_⟩
    · have hch'' : ((m.setFile f ((m.heap f).setCh rest)).heap f').ch ≠ [] := hch'
      rw [heap_setFile] at hch''
      split_ifs at hch'' with he
      · rw [he, hch]
        simp
      · exact hch''
    · have hcover := cover_setWorker (m := m.setFile f ((m.heap f).setCh rest)) hj (.writing f ev) f'
      have hbase : (m.setFile f ((m.heap f).setCh rest)).cover f' = m.cover f' := rfl
      simp only [took, owns, hbase] at hcover
      omega
  | empty f hj =>
    refine hw.mono fun f' hch' => .inr ⟨hch', ?_⟩
    have hcover := cover_setWorker hj (.emptied f) f'
    simp only [took, owns] at hcover
    omega
  | write f ev hj =>
    refine hw.mono fun f' hch' => .inr ⟨?_, ?_⟩
    · rw [← ch_setFile m f ((m.heap f).cache ev.key) rfl f']
      exact hch'
    · have hcover := cover_setWorker (m := m.write j f ev) hj (.draining f) f'
      have hbase : (m.write j f ev).cover f' = m.cover f' := rfl
      simp only [took, owns, hbase] at hcover
      omega
  | release f now hj hmu hch =>
    refine hw.mono fun f' hch' => .inr ?_
    have hcover := cover_setWorker (m := m.setFile f ((m.heap f).disown now)) hj .idle f'
    have hbase : (m.setFile f ((m.heap f).disown now)).cover f' = m.cover f' := rfl
    have hold : (m.heap f').ch ≠ [] := by
      rw [← ch_setFile m f ((m.heap f).disown now) rfl f']
      exact hch'
    have hne : f ≠ f' := by
      rintro rfl
      exact hold hch
    refine ⟨hold, ?_⟩
    simp only [took, owns, hbase, hne, decide_false, Bool.toNat_false] at hcover
    omega
  | again f hj =>
    refine hw.mono fun f' hch' => .inr ⟨hch', ?_⟩
    have hcover := cover_setWorker hj (.draining f) f'
    simp only [took, owns] at hcover
    omega

theorem Closes.awake {expired : Bool} (h : Closes m expired m') (hw : m.Awake) : m'.Awake := by
  cases h with
  | lock f =>
    refine hw.mono fun f' hch' => .inr ⟨?_, le_rfl⟩
    rw [← ch_setFile m f ((m.heap f).setEnqueued true) rfl f']
    exact hch'
  | push =>
    refine hw.mono fun f' hch' => .inr ⟨hch', ?_⟩
    simp only [cover, owners, count_append]
    omega
  | undo f =>
    refine hw.mono fun f' hch' => .inr ⟨?_, le_rfl⟩
    rw [← ch_setFile m f ((m.heap f).setEnqueued false) rfl f']
    exact hch'
  | _ => exact hw

/-- **One step** that finds room when it signals. -/
theorem awake_step (hs : m.Sound) (hw : m.Awake) (hr : m.Roomy) {s : Step R} (hfits : m.signalFits s = true) :
    (m.step s).Awake ∧ (m.step s).Roomy := by
  have hmove := step_move m s
  generalize m.step s = m' at hmove
  cases hmove with
  | idle | reap => exact ⟨hw, hr⟩
  | call c =>
    have hnone : m.producers.lookup m.calls = none := hs.allocated.calls m.calls le_rfl
    refine ⟨hw.mono fun f hch => .inr ⟨hch, ?_⟩, fun i f hl => ?_⟩
    · have hcount := count_insert (·.unsignalled f) m.producers m.calls (.calling c)
      rw [hnone] at hcount
      simp only [cover, owners, setProducer, Option.any_none] at hcount ⊢
      simp at hcount
      omega
    · simp only [setProducer, lookup_insert_ite] at hl
      split_ifs at hl with he
      · cases hl
      · exact hr i f hl
  | producer i ch _ h =>
    have hroom : ∀ f, m.producers.lookup i = some (.signalling f) → m.hasRoom = true := by
      intro f hp
      simpa [signalFits, hp] using hfits
    have hr' := h.roomy hr hroom
    exact ⟨h.awake hs hw hr hr', hr'⟩
  | worker j ch _ h | closer ch _ h =>
    refine ⟨h.awake hw, ?_⟩
    cases h <;> exact hr

/-- **The ownership protocol,** along every execution in which no producer finds the ready queue full: a file has at
most one owner and at most one place in the ready queue, and a buffered event belongs to an owned file, or to one in the
ready queue, or to one a worker has taken from there, or a producer has yet to finish signalling it. -/
theorem ownership_protocol (cfg : Config) (steps : List (Step R))
    (hs : Runs.Meets step (fun m s => signalFits m s = true) (new cfg) steps) (f : ℕ) :
    let m := run (new cfg) steps
    (∀ j j' w w', m.workers.lookup j = some w → m.workers.lookup j' = some w' → w.owns f = true → w'.owns f = true →
      j = j') ∧ m.ready.count f ≤ 1 ∧
      ((m.heap f).ch ≠ [] →
        (∃ j w, m.workers.lookup j = some w ∧ w.owns f = true) ∨ f ∈ m.ready ∨
          (∃ j, m.workers.lookup j = some (.popped f)) ∨
          ∃ i, m.producers.lookup i = some (.sent f) ∨ m.producers.lookup i = some (.signalling f)) := by
  let I : Manager R → Prop := fun m => m.Sound ∧ m.Awake ∧ m.Roomy
  have hnew : I (new cfg) := by
    refine ⟨new_sound cfg, fun f hch => absurd rfl hch, fun i f hp => ?_⟩
    simp [new] at hp
  have hrun : I (run (new cfg) steps) := by
    refine Runs.foldl_inv_of (P := I) (fun m s hfits hI => ?_) hnew hs
    obtain ⟨hsound, hawake, hroom⟩ := hI
    exact ⟨hsound.step s, awake_step hsound hawake hroom hfits⟩
  obtain ⟨hsound, hawake, hroom⟩ := hrun
  intro m
  have hheld := hsound.ownership f
  have hone := hheld.apart
  refine ⟨fun j j' w w' hj hj' hw hw' => hheld.unique hj hj' hw hw', ?_, fun hch => ?_⟩
  · have htoken : m.tokens f = (m.heap f).enqueued.toNat := hheld.token
    have hone' : (m.heap f).enqueued.toNat + (m.heap f).owned.toNat ≤ 1 := hone
    unfold tokens at htoken
    omega
  · have hpos : 0 < m.cover f := hawake f hch
    unfold cover at hpos
    have hsome : 0 < m.owners f ∨ 0 < m.ready.count f ∨ 0 < m.workers.count (·.took f) ∨
        0 < m.producers.count (·.unsignalled f) := by omega
    rcases hsome with h | h | h | h
    · exact .inl (count_pos.1 h)
    · exact .inr (.inl (count_pos_iff.1 h))
    · obtain ⟨j, w, hw, htook⟩ := count_pos.1 h
      cases w with
      | popped f' =>
        obtain rfl : f' = f := of_decide_eq_true htook
        exact .inr (.inr (.inl ⟨j, hw⟩))
      | _ => cases htook
    · obtain ⟨i, p, hp, hun⟩ := count_pos.1 h
      right; right; right
      cases p with
      | sent f' =>
        obtain rfl : f' = f := by simpa [unsignalled, waits, signals] using hun
        exact ⟨i, .inl hp⟩
      | signalling f' =>
        obtain rfl : f' = f := by simpa [unsignalled, waits, signals] using hun
        exact ⟨i, .inr hp⟩
      | overflowed f' => exact absurd hp (hroom i f')
      | _ => cases hun

/-- one worker, one file, room for one event -/
def oneFile : Config := ⟨1, 1, 1, 1⟩

/-- nothing in particular decided -/
def plain : Choice := ⟨0, none, false, false, [], false⟩

/-- an event for `/a.log` is buffered and a worker has taken the file from the ready queue -/
def poppedOnce : List (Step ℕ) :=
  [.call ⟨"/a.log", ⟨1, 0, 0⟩, 7, true⟩, .producer 0 plain, .producer 0 plain, .producer 0 plain, .producer 0 plain,
    .worker 0 plain]

theorem popped_file_found :
    Runs.Meets step (fun m s => signalFits m s = true) (new oneFile) poppedOnce ∧
      ((run (new oneFile) poppedOnce).heap 0).ch = [⟨0, ⟨1, 0, 0⟩, 7⟩] ∧
      (run (new oneFile) poppedOnce).ready.count 0 ≤ 1 ∧
      ((∃ j w, (run (new oneFile) poppedOnce).workers.lookup j = some w ∧ w.owns 0 = true) ∨
        0 ∈ (run (new oneFile) poppedOnce).ready ∨
          (∃ j, (run (new oneFile) poppedOnce).workers.lookup j = some (.popped 0)) ∨
          ∃ i, (run (new oneFile) poppedOnce).producers.lookup i = some (.sent 0) ∨
            (run (new oneFile) poppedOnce).producers.lookup i = some (.signalling 0)) := by
  have hfits : Runs.Meets step (fun m s => signalFits m s = true) (new oneFile) poppedOnce := by decide +kernel
  have hch : ((run (new oneFile) poppedOnce).heap 0).ch = [⟨0, ⟨1, 0, 0⟩, 7⟩] := by decide +kernel
  obtain ⟨-, hready, hfound⟩ := ownership_protocol oneFile poppedOnce hfits 0
  exact ⟨hfits, hch, hready, hfound (by rw [hch]; simp)⟩

end Manager

end AccessPoint.Userlog

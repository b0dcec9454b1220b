/-
An archived job stays archived (internal/queue/actions.go, `archiveAndDelete`; internal/sched/sched.go, `handleExited`).

A job leaves the live queue by an append to the history and a delete, two separate store steps, done by the core when
the job completes and by any removal. A goroutine that has read the job before may still write its copy back.

- `archived_stays`: as long as nobody else holds a copy of a job when it is archived, and nobody reads it between the
  append and the delete, an archived job never comes back and is archived once.
- `hold_revives_completed_job`: a hold whose teardown is queued behind the exit event of the run puts the completed job
  back, and a removal in its place archives the job twice.
-/
import AccessPoint.Sched.Discipline
import AccessPoint.Sched.World

namespace AccessPoint

open ClassAdLib World KeyMap

/-- what goroutine `t` holds after one more entry of the trace -/
def Copy.note (t : ℕ) (s : Copy) : Obs → Copy
  | .got t' k found => if t' = t then (if found then .read k else .none) else s
  | .put t' _ _ _ => if t' = t then .none else s
  | .appended t' k _ => if t' = t then .archiving k else s
  | .deleted t' _ _ => if t' = t then .none else s
  | .returned t' _ _ _ => if t' = t then .none else s
  | .finished => if t = 0 then .none else s
  | _ => s

/-- an append of the record of `k`, successful or not -/
def Obs.appends (k : JobKey) : Obs → Bool
  | .appended _ k' _ => k' = k
  | _ => false

/-- the command appends a record of `k` -/
def Cmd.appends {E : Type} (k : JobKey) : Cmd E → Bool
  | .append k' _ => k' = k
  | _ => false

variable {k : JobKey}

theorem Cmd.appends_iff {E : Type} {c : Cmd E} : c.appends k = true ↔ ∃ ad, c = .append k ad := by
  cases c <;> simp [Cmd.appends, eq_comm]

def Obs.deletes (k : JobKey) : Obs → Bool
  | .deleted _ k' _ => k' = k
  | _ => false

namespace World

section

variable {E : Type}

/-- what goroutine `t` holds of the store -/
def copy (w : World E) (t : ℕ) : Copy := w.trace.foldl (Copy.note t) .none

/-- how often a record of `k` was handed to the history -/
def appends (w : World E) (k : JobKey) : ℕ := w.trace.countP (Obs.appends k)

/-- the goroutine that moves in a step, and its next command -/
def command (w : World E) : Step → Option (ℕ × Cmd E)
  | .core _ =>
    match w.busy with
    | some (.call c _) => some (0, c)
    | _ => none
  | .thread i _ =>
    match w.threads.lookup i with
    | some ⟨_, _, .call c _⟩ => some (i, c)
    | _ => none
  | _ => none

/-- the goroutines there are, `t` apart -/
def others (w : World E) (t : ℕ) : List ℕ := (0 :: w.threads.keys).filter (· ≠ t)

/-- a record is appended only when no other goroutine has a copy of the job, and a job is read only when no other
goroutine is about to delete it -/
def Calm (w : World E) (s : Step) : Bool :=
  match w.command s with
  | some (t, .append k _) => (w.others t).all fun t' => w.copy t' ≠ .read k
  | some (t, .get k) => (w.others t).all fun t' => w.copy t' ≠ .archiving k
  | _ => true

/-! ## Copies through a step -/

theorem copy_observe (w : World E) (o : Obs) (t : ℕ) : (w.observe o).copy t = Copy.note t (w.copy t) o := by
  simp [copy, observe]

theorem appends_observe (w : World E) (o : Obs) (k : JobKey) :
    (w.observe o).appends k = w.appends k + if o.appends k then 1 else 0 := by
  simp [appends, observe, List.countP_append, List.countP_cons]

theorem submit_trace (w : World E) (ev : Event) : (w.submit ev).trace = w.trace ∧ (w.submit ev).q = w.q := by
  unfold submit
  split_ifs <;> exact ⟨rfl, rfl⟩

theorem copy_submit (w : World E) (ev : Event) (t : ℕ) : (w.submit ev).copy t = w.copy t := by
  simp only [copy, submit_trace]

theorem appends_submit (w : World E) (ev : Event) (k : JobKey) : (w.submit ev).appends k = w.appends k := by
  simp only [appends, submit_trace]

variable {w w' : World E} {t : ℕ} {ch : Choice} {c : Cmd E} {r : c.Resp}

/-- the copy of the goroutine that moves follows the automaton -/
theorem exec_copy (may : JobKey → Prop) (h : w.exec t ch c = some (r, w')) :
    w'.copy t = (storeProtocol E may).next (w.copy t) c r := by
  cases c with
  | put | append =>
    simp only [exec] at h
    split_ifs at h <;> cases h <;> exact (copy_observe _ _ t).trans (if_pos rfl)
  | await =>
    simp only [exec] at h
    split_ifs at h <;> cases h <;> rfl
  | get | delete => cases h; exact (copy_observe _ _ t).trans (if_pos rfl)
  | teardown | submit => cases h; exact copy_submit _ _ t
  | _ => cases h; rfl

theorem exec_copy_other (h : w.exec t ch c = some (r, w')) {t' : ℕ} (ht : t' ≠ t) : w'.copy t' = w.copy t' := by
  have hne : ¬ t = t' := fun he => ht he.symm
  cases c with
  | put | append =>
    simp only [exec] at h
    split_ifs at h <;> cases h <;> exact (copy_observe _ _ t').trans (if_neg hne)
  | await =>
    simp only [exec] at h
    split_ifs at h <;> cases h <;> rfl
  | get | delete => cases h; exact (copy_observe _ _ t').trans (if_neg hne)
  | teardown | submit => cases h; exact copy_submit _ _ t'
  | _ => cases h; rfl

theorem exec_appends (h : w.exec t ch c = some (r, w')) (k : JobKey) :
    w'.appends k = w.appends k + if c.appends k then 1 else 0 := by
  cases c with
  | put | append =>
    simp only [exec] at h
    split_ifs at h <;> cases h <;> exact appends_observe _ _ k
  | await =>
    simp only [exec] at h
    split_ifs at h <;> cases h <;> rfl
  | get | delete => cases h; exact appends_observe _ _ k
  | teardown | submit => cases h; exact appends_submit _ _ k
  | _ => cases h; rfl

/-- only a `Put` brings a key into the store -/
theorem exec_mem (h : w.exec t ch c = some (r, w')) (hk : k ∈ w'.q.coll) :
    (k ∈ w.q.coll ∧ c ≠ .delete k) ∨ ∃ ad, c = .put k ad := by
  cases c with
  | put k' ad =>
    simp only [exec] at h
    split_ifs at h <;> cases h
    · rcases (AList.mem_insert _).1 hk with rfl | hk
      · exact .inr ⟨ad, rfl⟩
      · exact .inl ⟨hk, by simp⟩
    · exact .inl ⟨hk, by simp⟩
  | append | await =>
    simp only [exec] at h
    split_ifs at h <;> cases h <;> exact .inl ⟨hk, by simp⟩
  | delete =>
    cases h
    obtain ⟨hne, hin⟩ := AList.mem_erase.1 hk
    exact .inl ⟨hin, fun he => hne (Cmd.delete.inj he).symm⟩
  | teardown | submit =>
    cases h
    exact .inl ⟨(submit_trace w _).2 ▸ hk, by simp⟩
  | _ => cases h; exact .inl ⟨hk, by simp⟩

theorem exec_deletes (h : w.exec t ch c = some (r, w')) (hk : ∃ o ∈ w'.trace, o.deletes k = true) :
    (∃ o ∈ w.trace, o.deletes k = true) ∨ c = .delete k := by
  have hlast : ∀ {w₁ : World E} {o : Obs}, (∃ o' ∈ (w₁.observe o).trace, o'.deletes k = true) →
      (∃ o' ∈ w₁.trace, o'.deletes k = true) ∨ o.deletes k = true := by
    rintro w₁ o ⟨o', hm, ho'⟩
    rcases List.mem_append.1 hm with hm | hm
    · exact .inl ⟨o', hm, ho'⟩
    · exact .inr (List.mem_singleton.1 hm ▸ ho')
  cases c with
  | put | append =>
    simp only [exec] at h
    split_ifs at h <;> cases h <;> exact (hlast hk).imp id fun hd => by cases hd
  | await =>
    simp only [exec] at h
    split_ifs at h <;> cases h <;> exact .inl hk
  | get => cases h; exact (hlast hk).imp id fun hd => by cases hd
  | delete => cases h; exact (hlast hk).imp id fun hd => by rw [of_decide_eq_true hd]
  | teardown | submit => cases h; exact .inl ((submit_trace w _).1 ▸ hk)
  | _ => cases h; exact .inl hk

/-! ## The invariant -/

/-- the program keeps to the discipline from copy `s` on -/
abbrev Kept {α : Type} (p : Go E α) (s : Copy) : Prop :=
  Prog.wp (storeProtocol E fun _ => True) (fun s' _ => s'.Settled) p s

/-- the goroutines besides the core -/
structure Goroutines (w : World E) : Prop where
  threads : ∀ i th, w.threads.lookup i = some th → Kept th.prog (w.copy i)
  gone : ∀ i, i ≠ 0 → w.threads.lookup i = none → w.copy i = .none
  first : 0 < w.nextTid
  numbers : ∀ i th, w.threads.lookup i = some th → 0 < i ∧ i < w.nextTid

/-- the core; the runs it starts are goroutines of their own -/
structure CoreKept (w : World E) : Prop where
  busy : ∀ p, w.busy = some p → Kept p (w.copy 0)
  resting : w.busy = none → w.copy 0 = .none
  runs : ∀ p, w.busy = some p → Prog.Results (fun fin : Finish E => ∀ r ∈ fin.runs, Kept r.prog .none) p

/-- once a record of `k` is handed to the history nobody has a copy of `k`, and `k` is in the store only while a
goroutine is about to delete it -/
structure Archives (w : World E) : Prop where
  marked : ∀ t k, w.copy t = .archiving k → w.appends k ≠ 0
  copies : ∀ k, w.appends k ≠ 0 → ∀ t, w.copy t ≠ .read k
  leaving : ∀ k, w.appends k ≠ 0 → k ∈ w.q.coll → ∃ t, w.copy t = .archiving k
  once : ∀ k, w.appends k ≤ 1
  deleted : ∀ k, (∃ o ∈ w.trace, o.deletes k = true) → w.appends k ≠ 0 ∧ k ∉ w.q.coll

/-- the condition on the next command of goroutine `t`, said of all numbers -/
def Undisturbed (w : World E) (t : ℕ) : Cmd E → Prop
  | .append k _ => ∀ t', t' ≠ t → w.copy t' ≠ .read k
  | .get k => ∀ t', t' ≠ t → w.copy t' ≠ .archiving k
  | _ => True

/-- numbers that are no goroutine's hold nothing -/
theorem Goroutines.all_others (h : w.Goroutines) {x : Copy} (hx : x ≠ .none) (hall : ∀ t' ∈ w.others t, w.copy t' ≠ x) :
    ∀ t', t' ≠ t → w.copy t' ≠ x := by
  intro t' ht' hcopy
  refine hall t' (List.mem_filter.2 ⟨?_, decide_eq_true ht'⟩) hcopy
  by_cases h0 : t' = 0
  · exact h0 ▸ List.mem_cons_self
  · cases hl : w.threads.lookup t' with
    | none => exact absurd ((h.gone t' h0 hl).symm.trans hcopy).symm hx
    | some th => exact List.mem_cons_of_mem _ (AList.mem_keys.1 ((mem_iff_lookup _ _).2 ⟨th, hl⟩))

theorem Calm.undisturbed {s : Step} (hcalm : w.Calm s = true) (h : w.Goroutines) (hc : w.command s = some (t, c)) :
    w.Undisturbed t c := by
  simp only [Calm, hc] at hcalm
  cases c with
  | append | get =>
    simp only [List.all_eq_true, decide_eq_true_eq] at hcalm
    exact h.all_others (by simp) hcalm
  | _ => trivial

/-- what a goroutine newly holds after a command is what it has just read or just appended -/
theorem exec_gains (h : w.exec t ch c = some (r, w')) {t' : ℕ} {x : Copy} (hx : w'.copy t' = x) (hne : x ≠ .none) :
    w.copy t' = x ∨ (∃ k, c = .get k ∧ x = .read k ∧ k ∈ w.q.coll) ∨ ∃ k ad, c = .append k ad ∧ x = .archiving k := by
  by_cases ht : t' = t
  · subst ht
    rw [exec_copy (fun _ => True) h] at hx
    cases c with
    | get k =>
      have hr : r = w.q.coll.get k := by cases h; rfl
      cases hg : w.q.coll.get k with
      | none => rw [hr, hg] at hx; exact absurd hx.symm hne
      | some =>
        rw [hr, hg] at hx
        obtain ⟨own, hl, -⟩ := Store.get_eq_some.1 hg
        exact .inr (.inl ⟨k, rfl, hx.symm, (mem_iff_lookup _ _).2 ⟨own, hl⟩⟩)
    | append k ad => exact .inr (.inr ⟨k, ad, rfl, hx.symm⟩)
    | put | delete => exact absurd hx.symm hne
    | _ => exact .inl hx
  · exact .inl ((exec_copy_other h ht).symm.trans hx)

/-- a goroutine about to delete `k` does nothing else to the store first -/
theorem next_archiving {may : JobKey → Prop} (hall : (storeProtocol E may).allowed (.archiving k) c)
    (hc : c ≠ .delete k) : (storeProtocol E may).next (.archiving k) c r = .archiving k := by
  cases c with
  | get => exact absurd rfl (hall k)
  | put | append => cases hall.2
  | delete => cases hall.2; exact absurd rfl hc
  | _ => rfl

/-- a command that keeps to the discipline and is undisturbed keeps the archive sound -/
theorem Archives.exec (h : w.Archives) (hall : (storeProtocol E fun _ => True).allowed (w.copy t) c)
    (hquiet : w.Undisturbed t c) (hx : w.exec t ch c = some (r, w')) : w'.Archives := by
  have hcount := exec_appends hx
  have hself := exec_copy (fun _ => True) hx
  -- a job that is written has no record yet
  have hfirst : ∀ k, w.copy t = .read k → w.appends k = 0 := fun k hk => by_contra fun hn => h.copies k hn t hk
  -- an append of `k`, or nothing new for `k`
  have hnew : ∀ k, w'.appends k ≠ 0 → w.appends k ≠ 0 ∨ ∃ ad, c = .append k ad := by
    intro k hk
    by_cases hc : c.appends k = true
    · exact .inr (Cmd.appends_iff.1 hc)
    · rw [hcount, if_neg hc] at hk; exact .inl hk
  refine ⟨fun t' k hk => ?_, fun k hk t' hread => ?_, fun k hk hmem => ?_, fun k => ?_, fun k hk => ?_⟩
  · rcases exec_gains hx hk (by simp) with hold | ⟨k', -, hk', -⟩ | ⟨k', ad, rfl, hk'⟩
    · have := h.marked t' k hold
      rw [hcount]; omega
    · cases hk'
    · cases hk'
      rw [hcount]; simp [Cmd.appends]
  · rcases exec_gains hx hread (by simp) with hold | ⟨k', rfl, hk', hin⟩ | ⟨k', ad, rfl, hk'⟩
    · rcases hnew k hk with hn | ⟨ad, rfl⟩
      · exact h.copies k hn t' hold
      · by_cases ht : t' = t
        · rw [ht, hself] at hread; cases hread
        · exact hquiet t' ht hold
    · cases hk'
      rcases hnew k hk with hn | ⟨ad, hc⟩
      · obtain ⟨t₁, ht₁⟩ := h.leaving k hn hin
        have hne : t₁ ≠ t := fun he => hall k (he ▸ ht₁)
        exact hquiet t₁ hne ht₁
      · cases hc
    · cases hk'
  · rcases hnew k hk with hn | ⟨ad, rfl⟩
    · rcases exec_mem hx hmem with ⟨hin, hc⟩ | ⟨ad, rfl⟩
      · obtain ⟨t₁, ht₁⟩ := h.leaving k hn hin
        by_cases ht : t₁ = t
        · subst ht
          rw [ht₁] at hself hall
          exact ⟨t₁, hself.trans (next_archiving hall hc)⟩
        · exact ⟨t₁, (exec_copy_other hx ht).trans ht₁⟩
      · exact absurd (hfirst k hall.2) hn
    · exact ⟨t, hself⟩
  · rw [hcount]
    split_ifs with hc
    · obtain ⟨ad, rfl⟩ := Cmd.appends_iff.1 hc
      rw [hfirst k hall.2]
    · exact h.once k
  · rcases exec_deletes hx hk with hold | rfl
    · obtain ⟨hn, hout⟩ := h.deleted k hold
      refine ⟨by rw [hcount]; omega, fun hin => ?_⟩
      rcases exec_mem hx hin with ⟨hin, -⟩ | ⟨ad, rfl⟩
      · exact hout hin
      · exact hn (hfirst k hall.2)
    · refine ⟨by rw [hcount]; have := h.marked t k hall.2; omega, fun hin => ?_⟩
      rcases exec_mem hx hin with ⟨-, hc⟩ | ⟨ad, hc⟩
      · exact hc rfl
      · cases hc

/-! ## Every step keeps the archive sound -/

structure Sound (w : World E) : Prop where
  goroutines : w.Goroutines
  core : w.CoreKept
  archives : w.Archives

/-- nothing is stored or archived, and only settled goroutines let go of their copy -/
theorem Archives.settle (h : w.Archives) (hcoll : w'.q.coll = w.q.coll) (happ : ∀ k, w'.appends k = w.appends k)
    (hdel : ∀ k, (∃ o ∈ w'.trace, o.deletes k = true) → ∃ o ∈ w.trace, o.deletes k = true)
    (hcopy : ∀ t, w'.copy t = w.copy t ∨ (w.copy t).Settled ∧ w'.copy t = .none) : w'.Archives := by
  refine ⟨fun t k hk => ?_, fun k hk t hread => ?_, fun k hk hin => ?_, fun k => ?_, fun k hk => ?_⟩
  · rcases hcopy t with he | ⟨-, he⟩
    · rw [happ]; exact h.marked t k (he ▸ hk)
    · rw [he] at hk; cases hk
  · rw [happ] at hk
    rcases hcopy t with he | ⟨-, he⟩
    · exact h.copies k hk t (he ▸ hread)
    · rw [he] at hread; cases hread
  · rw [happ] at hk
    obtain ⟨t, ht⟩ := h.leaving k hk (hcoll ▸ hin)
    rcases hcopy t with he | ⟨hs, -⟩
    · exact ⟨t, he.trans ht⟩
    · exact absurd ht (hs k)
  · rw [happ]; exact h.once k
  · rw [happ, hcoll]; exact h.deleted k (hdel k hk)

/-- an entry that is no store step -/
theorem Archives.observe (h : w.Archives) {o : Obs} (happ : ∀ k, o.appends k = false) (hdel : ∀ k, o.deletes k = false)
    (hcopy : ∀ t, Copy.note t (w.copy t) o = w.copy t ∨ (w.copy t).Settled ∧ Copy.note t (w.copy t) o = .none) :
    (w.observe o).Archives := by
  refine h.settle rfl (fun k => by rw [appends_observe, happ]; rfl) (fun k hk => ?_) fun t => by
    rw [copy_observe]; exact hcopy t
  obtain ⟨o', hm, ho'⟩ := hk
  rcases List.mem_append.1 hm with hm | hm
  · exact ⟨o', hm, ho'⟩
  · rw [List.mem_singleton.1 hm, hdel] at ho'; cases ho'

theorem Goroutines.frame (h : w.Goroutines) (hth : w'.threads = w.threads) (hn : w.nextTid ≤ w'.nextTid)
    (hcopy : ∀ i, i ≠ 0 → w'.copy i = w.copy i) : w'.Goroutines := by
  refine ⟨fun i th hl => ?_, fun i hi hl => ?_, lt_of_lt_of_le h.first hn, fun i th hl => ?_⟩
  · rw [hth] at hl
    rw [hcopy i (h.numbers i th hl).1.ne']
    exact h.threads i th hl
  · rw [hth] at hl
    rw [hcopy i hi]
    exact h.gone i hi hl
  · rw [hth] at hl
    exact ⟨(h.numbers i th hl).1, lt_of_lt_of_le (h.numbers i th hl).2 hn⟩

variable {th : Thread E}

theorem Goroutines.spawn (h : w.Goroutines) (hth : Kept th.prog .none) : (w.spawn th).Goroutines := by
  have hnew : w.threads.lookup w.nextTid = none := by
    cases hl : w.threads.lookup w.nextTid with
    | none => rfl
    | some th' => exact absurd (h.numbers _ th' hl).2 (lt_irrefl _)
  have hcopy : ∀ i, (w.spawn th).copy i = w.copy i := fun _ => rfl
  refine ⟨fun i th' hl => ?_, fun i hi hl => ?_, Nat.succ_pos _, fun i th' hl => ?_⟩
  · simp only [World.spawn, lookup_insert_ite] at hl
    rw [hcopy]
    split_ifs at hl with hi
    · cases hl
      rw [hi, h.gone _ h.first.ne' hnew]
      exact hth
    · exact h.threads i th' hl
  · simp only [World.spawn, lookup_insert_ite] at hl
    split_ifs at hl
    exact h.gone i hi hl
  · simp only [World.spawn, lookup_insert_ite] at hl
    split_ifs at hl with hi
    · rw [hi]; exact ⟨h.first, Nat.lt_succ_self _⟩
    · exact ⟨(h.numbers i th' hl).1, Nat.lt_succ_of_lt (h.numbers i th' hl).2⟩

/-- a goroutine performed a command; `p` is the rest of its program -/
theorem Sound.resumeThread (h : w.Sound) {i : ℕ} (hl : w.threads.lookup i = some th)
    (hx : w.exec i ch c = some (r, w')) (harch : w'.Archives) {p : Go E (ℤ × List (ULog E))} (hp : Kept p (w'.copy i)) :
    (w'.resumeThread i th p).Sound := by
  obtain ⟨-, hth, htid, hbusy, -⟩ := exec_frame hx
  have hi := (h.goroutines.numbers i th hl).1.ne'
  have hcopy : ∀ j, j ≠ i → w'.copy j = w.copy j := fun j hj => exec_copy_other hx hj
  have hcore : w'.CoreKept := by
    refine ⟨fun p hp => ?_, fun hb => ?_, fun p hp => ?_⟩
    · rw [hcopy 0 hi.symm]; exact h.core.busy p (hbusy ▸ hp)
    · rw [hcopy 0 hi.symm]; exact h.core.resting (hbusy ▸ hb)
    · exact h.core.runs p (hbusy ▸ hp)
  have hnum : 0 < w'.nextTid ∧ ∀ j th', w'.threads.lookup j = some th' → 0 < j ∧ j < w'.nextTid := by
    rw [hth, htid]; exact ⟨h.goroutines.first, h.goroutines.numbers⟩
  cases p with
  | ret a =>
    -- the goroutine ends and lets go of its copy
    have hnote : ∀ j, (w'.resumeThread i th (.ret a)).copy j = if i = j then .none else w'.copy j :=
      fun j => copy_observe _ _ j
    have hother : ∀ j, j ≠ i → (w'.resumeThread i th (.ret a)).copy j = w.copy j := fun j hj => by
      rw [hnote, if_neg fun he => hj he.symm, hcopy j hj]
    refine ⟨⟨fun j th' hl' => ?_, fun j hj hl' => ?_, hnum.1, fun j th' hl' => ?_⟩, ?_, ?_⟩
    · have hne : j ≠ i := fun he => by
        rw [he] at hl'; exact absurd hl' (by simp [World.resumeThread, World.observe, AList.lookup_erase])
      rw [hother j hne]
      exact h.goroutines.threads j th' (hth ▸ lookup_of_erase hl')
    · by_cases hne : j = i
      · rw [hnote, if_pos hne.symm]
      · rw [hother j hne]
        refine h.goroutines.gone j hj ?_
        rw [← hth, ← hl']
        exact (AList.lookup_erase_ne hne).symm
    · exact hnum.2 j th' (lookup_of_erase hl')
    · refine ⟨fun p hp => ?_, fun hb => ?_, hcore.runs⟩
      · rw [hnote, if_neg hi]; exact hcore.busy p hp
      · rw [hnote, if_neg hi]; exact hcore.resting hb
    · refine Archives.observe (w := { w' with threads := w'.threads.erase i, ulog := w'.ulog ++ a.2 }) ?_ (fun _ => rfl)
        (fun _ => rfl) fun t => ?_
      · exact harch.settle rfl (fun _ => rfl) (fun _ hk => hk) fun _ => .inl rfl
      · by_cases ht : i = t
        · subst ht; exact .inr ⟨hp, if_pos rfl⟩
        · exact .inl (if_neg ht)
  | call c' k' =>
    refine ⟨⟨fun j th' hl' => ?_, fun j hj hl' => ?_, hnum.1, fun j th' hl' => ?_⟩,
      ⟨hcore.busy, hcore.resting, hcore.runs⟩, ?_⟩
    · simp only [World.resumeThread, lookup_insert_ite] at hl'
      split_ifs at hl' with hne
      · cases hl'; rw [hne]; exact hp
      · have hcj : (w'.resumeThread i th (.call c' k')).copy j = w.copy j := hcopy j hne
        rw [hcj]; exact h.goroutines.threads j th' (hth ▸ hl')
    · simp only [World.resumeThread, lookup_insert_ite] at hl'
      split_ifs at hl' with hne
      have hcj : (w'.resumeThread i th (.call c' k')).copy j = w.copy j := hcopy j hne
      rw [hcj]; exact h.goroutines.gone j hj (hth ▸ hl')
    · simp only [World.resumeThread, lookup_insert_ite] at hl'
      split_ifs at hl' with hne
      · rw [hne]; exact hnum.2 i th (hth ▸ hl)
      · exact hnum.2 j th' hl'
    · exact harch.settle rfl (fun _ => rfl) (fun _ hk => hk) fun _ => .inl rfl

/-- a call from outside stores and archives nothing -/
theorem Sound.call (h : w.Sound) {ev : Event} {n : ℕ} (hn : w.nextTid ≤ n) {os : List Obs}
    (hos : os = [] ∨ ∃ m, ev = .evMatch m ∧ os = [.matched m]) :
    World.Sound { w.submit ev with nextTid := n, trace := w.trace ++ os } := by
  have hframe : (w.submit ev).threads = w.threads ∧ (w.submit ev).busy = w.busy ∧ (w.submit ev).q = w.q := by
    unfold submit
    split_ifs <;> exact ⟨rfl, rfl, rfl⟩
  obtain ⟨hth, hbusy, hq⟩ := hframe
  have hcopy : ∀ t, copy { w.submit ev with nextTid := n, trace := w.trace ++ os } t = w.copy t := by
    intro t
    rcases hos with rfl | ⟨m, -, rfl⟩ <;> simp [copy, Copy.note]
  refine ⟨h.goroutines.frame hth hn fun i _ => hcopy i, ⟨fun p hp => ?_, fun hb => ?_, fun p hp => ?_⟩,
    h.archives.settle (congrArg Queue.coll hq) (fun k => ?_) (fun k hk => ?_) fun t => .inl (hcopy t)⟩
  · rw [hcopy]; exact h.core.busy p (hbusy ▸ hp)
  · rw [hcopy]; exact h.core.resting (hbusy ▸ hb)
  · exact h.core.runs p (hbusy ▸ hp)
  · rcases hos with rfl | ⟨m, -, rfl⟩ <;> simp [appends, Obs.appends]
  · rcases hos with rfl | ⟨m, -, rfl⟩ <;> simpa [Obs.deletes] using hk

theorem start_sound (q : Queue E) : (start q).Sound := by
  refine ⟨⟨fun i th hl => ?_, fun _ _ _ => rfl, Nat.one_pos, fun i th hl => ?_⟩, ⟨fun p hp => ?_, fun _ => rfl,
    fun p hp => ?_⟩, ⟨fun t k hk => ?_, fun k hk => ?_, fun k hk => ?_, fun k => Nat.zero_le _, fun k hk => ?_⟩⟩
  · cases hl
  · cases hl
  · cases hp
  · cases hp
  · cases hk
  · exact absurd rfl hk
  · exact absurd rfl hk
  · obtain ⟨_, ho, -⟩ := hk
    cases ho

variable [ClassAdLib E]

theorem startsRuns_kept {cfg : SchedConfig E} {fin : Finish E} (h : Sched.StartsRuns cfg fin) :
    ∀ r ∈ fin.runs, Kept r.prog .none := by
  intro r hr
  rcases h r hr with ⟨m, -, hp⟩ | ⟨claimID, job, hp⟩
  · rw [hp]; exact runJob_tidy m _ Copy.settled_none
  · rw [hp]; exact reconnectJob_tidy cfg r.key claimID job _ Copy.settled_none

theorem applyPolicy_tidy (cfg : SchedConfig E) (q : Queue E) (k : JobKey) (req : ActionRequest) :
    Tidy (fun _ => True) (applyPolicy cfg q k req) :=
  (applyAction_tidy trivial q cfg.hook req).bind fun _ => (Tidy.submit _).bind fun _ => Tidy.ret _

/-- between the last command of a handler and its end -/
structure Ending (w : World E) : Prop where
  goroutines : w.Goroutines
  archives : w.Archives
  busy : w.busy = none
  settled : (w.copy 0).Settled

omit [ClassAdLib E] in
theorem Ending.spawn (h : w.Ending) (hth : Kept th.prog .none) : (w.spawn th).Ending :=
  ⟨h.goroutines.spawn hth, h.archives.settle rfl (fun _ => rfl) (fun _ hk => hk) fun _ => .inl rfl, h.busy, h.settled⟩

theorem Sound.finish (hg : w.Goroutines) (ha : w.Archives) (hs : (w.copy 0).Settled) (cfg : SchedConfig E)
    {fin : Finish E} (hfin : ∀ r ∈ fin.runs, Kept r.prog .none) : (w.finish cfg fin).Sound := by
  refine finish_inv (I := Ending) cfg ?_ (fun w' r hr hw' => ?_) (fun w' k req _ hw' => ?_) fun w' hw' => ?_
  · exact ⟨hg.frame rfl le_rfl fun _ _ => rfl, ha.settle rfl (fun _ => rfl) (fun _ hk => hk) fun _ => .inl rfl, rfl, hs⟩
  · have hadd : Ending { w' with core := w'.core.add r.key r.info } :=
      ⟨hw'.goroutines.frame rfl le_rfl fun _ _ => rfl,
        hw'.archives.settle rfl (fun _ => rfl) (fun _ hk => hk) fun _ => .inl rfl, hw'.busy, hw'.settled⟩
    exact hadd.spawn (hfin r hr)
  · have hadd : Ending { w' with core := { w'.core with policyPending := k :: w'.core.policyPending } } :=
      ⟨hw'.goroutines.frame rfl le_rfl fun _ _ => rfl,
        hw'.archives.settle rfl (fun _ => rfl) (fun _ hk => hk) fun _ => .inl rfl, hw'.busy, hw'.settled⟩
    exact hadd.spawn (applyPolicy_tidy cfg w'.q k req _ Copy.settled_none)
  · have hcopy : ∀ t, (w'.observe .finished).copy t = if t = 0 then .none else w'.copy t := fun t => copy_observe _ _ t
    refine ⟨hw'.goroutines.frame rfl le_rfl fun i hi => (hcopy i).trans (if_neg hi), ⟨fun p hp => ?_, fun _ => ?_,
      fun p hp => ?_⟩, hw'.archives.observe (fun _ => rfl) (fun _ => rfl) fun t => ?_⟩
    · exact absurd (hw'.busy.symm.trans hp) (by simp)
    · exact (hcopy 0).trans (if_pos rfl)
    · exact absurd (hw'.busy.symm.trans hp) (by simp)
    · by_cases ht : t = 0
      · subst ht; exact .inr ⟨hw'.settled, rfl⟩
      · exact .inl (if_neg ht)

/-- the core goes on with `p` -/
theorem Sound.resume (hg : w.Goroutines) (ha : w.Archives) (cfg : SchedConfig E) {p : Go E (Finish E)}
    (hp : Kept p (w.copy 0)) (hruns : Prog.Results (fun fin : Finish E => ∀ r ∈ fin.runs, Kept r.prog .none) p) :
    (w.resume cfg p).Sound := by
  cases p with
  | ret => exact Sound.finish hg ha hp cfg hruns
  | call =>
    refine ⟨hg.frame rfl le_rfl fun _ _ => rfl, ⟨fun p hp' => ?_, fun hb => ?_, fun p hp' => ?_⟩,
      ha.settle rfl (fun _ => rfl) (fun _ hk => hk) fun _ => .inl rfl⟩
    · cases hp'; exact hp
    · cases hb
    · cases hp'; exact hruns

/-- **The archive through one step.** -/
theorem step_sound (cfg : SchedConfig E) (w : World E) (s : Step) (hcalm : w.Calm s = true) (h : w.Sound) :
    (step cfg w s).Sound := by
  have hmove := step_move cfg w s
  generalize step cfg w s = w' at hmove
  cases hmove with
  | idle => exact h
  | tool k req =>
    have hth : Kept (w.q.applyAction cfg.hook k req) .none :=
      applyAction_tidy trivial w.q cfg.hook req _ Copy.settled_none
    exact ⟨h.goroutines.spawn hth, ⟨h.core.busy, h.core.resting, h.core.runs⟩,
      h.archives.settle rfl (fun _ => rfl) (fun _ hk => hk) fun _ => .inl rfl⟩
  | call _ ev n os hev hn _ hos => exact h.call hn hos
  | take ev rest hb =>
    have hcopy : ∀ t, ({ w with events := rest, core := (Sched.handle cfg w.core ev).1 }.observe (.took ev)).copy t =
        w.copy t := fun t => copy_observe _ _ t
    refine Sound.resume ?_ ?_ cfg ?_ ((Sched.handle_runs cfg w.core ev).mono fun _ => startsRuns_kept)
    · exact h.goroutines.frame rfl le_rfl fun i _ => hcopy i
    · exact h.archives.settle rfl (fun k =>
        appends_observe _ _ k) (fun k hk => by simpa [observe, Obs.deletes] using hk)
        fun t => .inl (hcopy t)
    · rw [hcopy, h.core.resting hb]
      exact Sched.handle_tidy cfg w.core ev (fun _ _ => trivial) _ Copy.settled_none
  | sweep hb =>
    have h0 : copy { w with core := (Sched.sweepExpired cfg w.core).1 } 0 = .none := h.core.resting hb
    refine Sound.resume ?_ ?_ cfg ?_ ((Sched.sweepExpired_runs cfg w.core).mono fun _ => startsRuns_kept)
    · exact h.goroutines.frame rfl le_rfl fun _ _ => rfl
    · exact h.archives.settle rfl (fun _ => rfl) (fun _ hk => hk) fun _ => .inl rfl
    · rw [h0]
      exact Sched.sweepExpired_tidy cfg (fun _ _ _ _ => trivial) _ Copy.settled_none
  | core ch c k r w₁ hb hx =>
    have hkept := h.core.busy _ hb
    have hquiet : w.Undisturbed 0 c := Calm.undisturbed hcalm h.goroutines (by simp [command, hb])
    obtain ⟨-, hth, htid, -, -⟩ := exec_frame hx
    refine Sound.resume (h.goroutines.frame hth htid.ge fun i hi => exec_copy_other hx hi)
      (h.archives.exec hkept.1 hquiet hx) cfg ?_ (h.core.runs _ hb r)
    rw [exec_copy (fun _ => True) hx]
    exact hkept.2 r trivial
  | thread i ch job role c k r w₁ ht hx =>
    have hkept := h.goroutines.threads i _ ht
    have hquiet : w.Undisturbed i c := Calm.undisturbed hcalm h.goroutines (by simp [command, ht])
    refine h.resumeThread ht hx (h.archives.exec hkept.1 hquiet hx) ?_
    rw [exec_copy (fun _ => True) hx]
    exact hkept.2 r trivial

/-- **An archived job stays archived.** In a run whose steps are all calm, a job that has been deleted from the live
queue is not in it again, and no job is handed to the history twice. -/
theorem archived_stays (cfg : SchedConfig E) (q : Queue E) (steps : List Step)
    (hcalm : Runs.Meets (step cfg) (fun w s => w.Calm s = true) (start q) steps) (k : JobKey) :
    ((∃ o ∈ (run cfg (start q) steps).trace, o.deletes k = true) → k ∉ (run cfg (start q) steps).q.coll) ∧
      (run cfg (start q) steps).appends k ≤ 1 := by
  have h := Runs.foldl_inv_of (P := Sound) (fun w s => step_sound cfg w s) (start_sound q) hcalm
  exact ⟨fun hk => (h.archives.deleted k hk).2, h.archives.once k⟩

end

/-- the run exits, the core completes the job, and a hold comes after that -/
def completed : List Step :=
  started ++ List.replicate 2 (.thread 1 smooth) ++ [.take] ++ List.replicate 10 (.core smooth) ++
    [.tool ⟨1, 0⟩ (aliceRequest .hold), .thread 2 smooth]

theorem completed_stays :
    (∃ o ∈ (run poolSched (start aliceQueue) completed).trace, o.deletes ⟨1, 0⟩ = true) ∧
      (⟨1, 0⟩ : JobKey) ∉ (run poolSched (start aliceQueue) completed).q.coll ∧
      (run poolSched (start aliceQueue) completed).appends ⟨1, 0⟩ ≤ 1 := by
  have hdel : ∃ o ∈ (run poolSched (start aliceQueue) completed).trace, o.deletes ⟨1, 0⟩ = true := by decide +kernel
  have h := archived_stays poolSched aliceQueue completed (by decide +kernel) ⟨1, 0⟩
  exact ⟨hdel, h.1 hdel, h.2⟩

/-- the run exits; before the core takes the exit event an action has read the Running job and queued its teardown
behind it. The core completes the job and answers the teardown, and the action goes on with its copy. -/
def overtaken (kind : ActionKind) : List Step :=
  started ++ List.replicate 2 (.thread 1 smooth) ++ [.tool ⟨1, 0⟩ (aliceRequest kind)] ++
    List.replicate 3 (.thread 2 smooth) ++ [.take] ++ List.replicate 10 (.core smooth) ++ [.take] ++
    List.replicate 4 (.thread 2 smooth)

/-- **A hold revives a completed job, and a removal archives it again.** -/
theorem hold_revives_completed_job :
    ((run poolSched (start aliceQueue) (overtaken .hold)).trace.any (Obs.deletes ⟨1, 0⟩) = true ∧
      (run poolSched (start aliceQueue) (overtaken .hold)).q.hist.length = 1 ∧
      ((run poolSched (start aliceQueue) (overtaken .hold)).q.coll.get ⟨1, 0⟩).map (fun ad => ad.int0 .jobStatus) =
        some statusHeld) ∧
      (run poolSched (start aliceQueue) (overtaken .remove)).q.hist.map (fun ad =>
        (ad.int0 .clusterId, ad.int0 .jobStatus)) = [(1, statusCompleted), (1, statusRemoved)] := by
  decide +kernel

end World

end AccessPoint

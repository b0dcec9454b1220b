/-
Operations that read a shared state once and write it at most once, interleaved at the level of single steps.

An `Access` says what one step of an operation does to the shared state: it reads it, it writes it, or it has nothing to
do with it. `State.readers` holds the operations that have read since the last write. If an operation only writes while
it is among them, that is, if nobody else has written since it read, then the interleaving is as good as a serial order.

- `serializable`: the operations one after the other, in some order, each with the choices it had in the interleaving,
  lead to the same shared state and bring every operation to the same point.
-/
import AccessPoint.Core.Runs

namespace AccessPoint.Serial

open List

/-- what a step does with the shared state -/
inductive Access where
  | read | write | quiet
deriving DecidableEq, Repr

/-- operations with local state `ℓ` over shared state `σ`; `γ` is what the environment decides about a step -/
structure Machine (ℓ σ γ : Type) where
  step : ℓ → γ → σ → ℓ × σ
  access : ℓ → γ → Access

structure State (ι ℓ σ : Type) where
  locals : ι → ℓ
  shared : σ
  /-- the operations that have read since the last write -/
  readers : List ι

variable {ι ℓ σ γ : Type} [DecidableEq ι]

namespace Machine

/-- an operation reads once, in its first step, and writes at most once after that -/
structure Updates (M : Machine ℓ σ γ) (Fresh Opened Closed : ℓ → Prop) : Prop where
  fresh : ∀ l, Fresh l → ∀ c, M.access l c = .read ∧ ∀ s, (M.step l c s).2 = s ∧ Opened (M.step l c s).1
  write : ∀ l, Opened l → ∀ c, M.access l c = .write → ∀ s, Closed (M.step l c s).1
  quiet : ∀ l, Opened l → ∀ c, M.access l c ≠ .write → M.access l c = .quiet ∧
    ∀ s, (M.step l c s).2 = s ∧ Opened (M.step l c s).1 ∧ ∀ s', (M.step l c s).1 = (M.step l c s').1
  closed : ∀ l, Closed l → ∀ c, M.access l c = .quiet ∧
    ∀ s, (M.step l c s).2 = s ∧ Closed (M.step l c s).1 ∧ ∀ s', (M.step l c s).1 = (M.step l c s').1

variable (M : Machine ℓ σ γ)

/-- operation `i` takes a step -/
def next (st : State ι ℓ σ) (o : ι × γ) : State ι ℓ σ where
  locals := Function.update st.locals o.1 (M.step (st.locals o.1) o.2 st.shared).1
  shared := (M.step (st.locals o.1) o.2 st.shared).2
  readers :=
    match M.access (st.locals o.1) o.2 with
    | .read => o.1 :: st.readers
    | .write => []
    | .quiet => st.readers

/-- a write is based on a read that no other write has overtaken -/
def Current (st : State ι ℓ σ) (o : ι × γ) : Prop := M.access (st.locals o.1) o.2 = .write → o.1 ∈ st.readers

instance (st : State ι ℓ σ) (o : ι × γ) : Decidable (M.Current st o) := inferInstanceAs (Decidable (_ → _))

/-- an operation alone -/
def solo (l : ℓ) (s : σ) (cs : List γ) : ℓ × σ := cs.foldl (fun x c => M.step x.1 c x.2) (l, s)

/-- the turn of operation `i`, with all its choices -/
def turn (cs : ι → List γ) (x : (ι → ℓ) × σ) (i : ι) : (ι → ℓ) × σ :=
  (Function.update x.1 i (M.solo (x.1 i) x.2 (cs i)).1, (M.solo (x.1 i) x.2 (cs i)).2)

/-- the operations one after the other -/
def serialRun (cs : ι → List γ) (order : List ι) (x : (ι → ℓ) × σ) : (ι → ℓ) × σ := order.foldl (M.turn cs) x

end Machine

/-- the choices operation `i` has in a schedule -/
def choices (sched : List (ι × γ)) (i : ι) : List γ := sched.filterMap fun o => if o.1 = i then some o.2 else none

variable {M : Machine ℓ σ γ}

namespace Machine

theorem solo_snoc (l : ℓ) (s : σ) (cs : List γ) (c : γ) :
    M.solo l s (cs ++ [c]) = M.step (M.solo l s cs).1 c (M.solo l s cs).2 := by
  simp [solo]

/-! ## Orders that explain a state -/

/-- from `s` the operations of `L` take their turns at the states noted in `L`, up to `s'` -/
def Chain (M : Machine ℓ σ γ) (l₀ : ι → ℓ) (cs : ι → List γ) : σ → List (ι × σ) → σ → Prop
  | s, [], s' => s' = s
  | s, (i, t) :: L, s' => t = s ∧ Chain M l₀ cs (M.solo (l₀ i) s (cs i)).2 L s'

variable {l₀ : ι → ℓ} {cs : ι → List γ} {s s' : σ} {L : List (ι × σ)}

omit [DecidableEq ι] in
theorem Chain.snoc (h : Chain M l₀ cs s L s') (i : ι) :
    Chain M l₀ cs s (L ++ [(i, s')]) (M.solo (l₀ i) s' (cs i)).2 := by
  induction L generalizing s with
  | nil => cases h; exact ⟨rfl, rfl⟩
  | cons e L ih => exact ⟨h.1, ih h.2⟩

omit [DecidableEq ι] in
/-- only the effect of each turn matters -/
theorem Chain.congr (h : Chain M l₀ cs s L s') (cs' : ι → List γ)
    (he : ∀ i t, (i, t) ∈ L → (M.solo (l₀ i) t (cs' i)).2 = (M.solo (l₀ i) t (cs i)).2) : Chain M l₀ cs' s L s' := by
  induction L generalizing s with
  | nil => exact h
  | cons e L ih =>
    obtain ⟨i, t⟩ := e
    obtain ⟨rfl, h⟩ := h
    refine ⟨rfl, ?_⟩
    rw [he i t mem_cons_self]
    exact ih h fun j u hm => he j u (mem_cons_of_mem _ hm)

variable {i : ι}

/-- a turn without effect can be left out -/
theorem Chain.remove (h : Chain M l₀ cs s L s') (hi : ∀ t, (i, t) ∈ L → (M.solo (l₀ i) t (cs i)).2 = t) :
    Chain M l₀ cs s (L.filter fun e => e.1 ≠ i) s' := by
  induction L generalizing s with
  | nil => exact h
  | cons e L ih =>
    obtain ⟨j, t⟩ := e
    obtain ⟨rfl, h⟩ := h
    have hrest : ∀ u, (i, u) ∈ L → (M.solo (l₀ i) u (cs i)).2 = u := fun u hm => hi u (mem_cons_of_mem _ hm)
    by_cases hj : j = i
    · subst hj
      rw [hi t mem_cons_self] at h
      rw [filter_cons_of_neg (by simp)]
      exact ih h hrest
    · rw [filter_cons_of_pos (by simpa using hj)]
      exact ⟨rfl, ih h hrest⟩

/-- `L` explains the state `st` that a schedule with choices `cs` has led to -/
structure Explains (M : Machine ℓ σ γ) (Opened Closed : ℓ → Prop) (l₀ : ι → ℓ) (s₀ : σ) (cs : ι → List γ)
    (st : State ι ℓ σ) (L : List (ι × σ)) : Prop where
  nodup : (L.map Prod.fst).Nodup
  waiting : ∀ i, i ∉ L.map Prod.fst → cs i = [] ∧ st.locals i = l₀ i ∧ i ∉ st.readers
  chain : Chain M l₀ cs s₀ L st.shared
  locals : ∀ i t, (i, t) ∈ L → st.locals i = (M.solo (l₀ i) t (cs i)).1
  phase : ∀ i t, (i, t) ∈ L →
    Opened (st.locals i) ∧ (M.solo (l₀ i) t (cs i)).2 = t ∨ Closed (st.locals i) ∧ i ∉ st.readers
  current : ∀ i t, (i, t) ∈ L → i ∈ st.readers → t = st.shared

variable {Fresh Opened Closed : ℓ → Prop} {s₀ : σ} {st : State ι ℓ σ}

/-- one more choice for operation `i` -/
def grant (cs : ι → List γ) (i : ι) (c : γ) : ι → List γ := Function.update cs i (cs i ++ [c])

omit [DecidableEq ι] in
theorem fst_mem {t : σ} (h : (i, t) ∈ L) : i ∈ L.map Prod.fst := mem_map.2 ⟨(i, t), h, rfl⟩

omit [DecidableEq ι] in
theorem turn_unique (h : (L.map Prod.fst).Nodup) {t u : σ} (ht : (i, t) ∈ L) (hu : (i, u) ∈ L) : t = u :=
  congrArg Prod.snd (inj_on_of_nodup_map h ht hu rfl)

theorem locals_next_of_ne {j : ι} {c : γ} (hj : j ≠ i) : (M.next st (i, c)).locals j = st.locals j :=
  Function.update_of_ne hj _ _

theorem grant_of_ne {j : ι} {c : γ} (hj : j ≠ i) : grant cs i c j = cs j := Function.update_of_ne hj _ _

/-- the first step of an operation: it joins the order at the end -/
theorem Explains.read (hM : M.Updates Fresh Opened Closed) (hl₀ : ∀ i, Fresh (l₀ i))
    (h : Explains M Opened Closed l₀ s₀ cs st L) (hi : i ∉ L.map Prod.fst) (c : γ) :
    Explains M Opened Closed l₀ s₀ (grant cs i c) (M.next st (i, c)) (L ++ [(i, st.shared)]) := by
  obtain ⟨hcs, hloc, _⟩ := h.waiting i hi
  obtain ⟨hacc, hstep⟩ := hM.fresh (l₀ i) (hl₀ i) c
  have hacc' : M.access (st.locals i) c = .read := by rw [hloc]; exact hacc
  have hshared : (M.next st (i, c)).shared = st.shared := by simp [next, hloc, (hstep st.shared).1]
  have hreaders : (M.next st (i, c)).readers = i :: st.readers := by simp [next, hacc']
  have hsolo : M.solo (l₀ i) st.shared (grant cs i c i) = M.step (l₀ i) c st.shared := by simp [grant, hcs, solo]
  have hself : (M.next st (i, c)).locals i = (M.step (l₀ i) c st.shared).1 := by simp [next, hloc]
  have hne : ∀ j t, (j, t) ∈ L → j ≠ i := fun j t hm he => hi (he ▸ fst_mem hm)
  refine ⟨?_, fun j hj => ?_, ?_, fun j t hm => ?_, fun j t hm => ?_, fun j t hm hr => ?_⟩
  · rw [map_append]
    exact h.nodup.append (nodup_singleton i) (by simpa using hi)
  · simp only [map_append, mem_append, map_cons, map_nil, mem_singleton, not_or] at hj
    obtain ⟨hw, hl, hr⟩ := h.waiting j hj.1
    rw [locals_next_of_ne hj.2, grant_of_ne hj.2, hreaders]
    exact ⟨hw, hl, by simp [hj.2, hr]⟩
  · rw [hshared]
    have hchain := (h.chain.congr (grant cs i c) fun j t hm => by rw [grant_of_ne (hne j t hm)]).snoc i
    rwa [hsolo, (hstep st.shared).1] at hchain
  · rcases mem_append.1 hm with hm | hm
    · rw [locals_next_of_ne (hne j t hm), grant_of_ne (hne j t hm)]
      exact h.locals j t hm
    · obtain ⟨rfl, rfl⟩ := Prod.mk.inj (mem_singleton.1 hm)
      rw [hsolo, hself]
  · rcases mem_append.1 hm with hm | hm
    · have hj := hne j t hm
      rw [locals_next_of_ne hj, grant_of_ne hj, hreaders]
      exact (h.phase j t hm).imp id fun hp => ⟨hp.1, by simp [hj, hp.2]⟩
    · obtain ⟨rfl, rfl⟩ := Prod.mk.inj (mem_singleton.1 hm)
      rw [hsolo, hself]
      exact .inl ⟨(hstep _).2, (hstep _).1⟩
  · rcases mem_append.1 hm with hm | hm
    · rw [hreaders] at hr
      rw [hshared]
      exact h.current j t hm ((mem_cons.1 hr).resolve_left (hne j t hm))
    · obtain ⟨rfl, rfl⟩ := Prod.mk.inj (mem_singleton.1 hm)
      exact hshared.symm

/-- a step that has nothing to do with the shared state -/
theorem Explains.quiet (h : Explains M Opened Closed l₀ s₀ cs st L) {t : σ} (hi : (i, t) ∈ L) {c : γ}
    (hacc : M.access (st.locals i) c = .quiet)
    (hstep : ∀ s, (M.step (st.locals i) c s).2 = s ∧ ∀ s', (M.step (st.locals i) c s).1 = (M.step (st.locals i) c s').1)
    (hphase : Opened (M.step (st.locals i) c st.shared).1 ∧ (M.solo (l₀ i) t (cs i)).2 = t ∨
      Closed (M.step (st.locals i) c st.shared).1 ∧ i ∉ st.readers) :
    Explains M Opened Closed l₀ s₀ (grant cs i c) (M.next st (i, c)) L := by
  have hshared : (M.next st (i, c)).shared = st.shared := by simp [next, (hstep st.shared).1]
  have hreaders : (M.next st (i, c)).readers = st.readers := by simp [next, hacc]
  have hsolo : M.solo (l₀ i) t (grant cs i c i) =
      ((M.step (st.locals i) c st.shared).1, (M.solo (l₀ i) t (cs i)).2) := by
    simp only [grant, Function.update_self, solo_snoc]
    rw [← h.locals i t hi]
    exact Prod.ext ((hstep _).2 _) (hstep _).1
  have hself : (M.next st (i, c)).locals i = (M.step (st.locals i) c st.shared).1 := by simp [next]
  refine ⟨h.nodup, fun j hj => ?_, ?_, fun j u hm => ?_, fun j u hm => ?_, fun j u hm hr => ?_⟩
  · have hji : j ≠ i := fun he => hj (he ▸ fst_mem hi)
    rw [locals_next_of_ne hji, grant_of_ne hji, hreaders]
    exact h.waiting j hj
  · rw [hshared]
    refine h.chain.congr _ fun j u hm => ?_
    by_cases hj : j = i
    · subst hj
      rw [turn_unique h.nodup hm hi, hsolo]
    · rw [grant_of_ne hj]
  · by_cases hj : j = i
    · subst hj
      rw [turn_unique h.nodup hm hi, hsolo, hself]
    · rw [locals_next_of_ne hj, grant_of_ne hj]
      exact h.locals j u hm
  · rw [hreaders]
    by_cases hj : j = i
    · subst hj
      rw [turn_unique h.nodup hm hi, hsolo, hself]
      exact hphase
    · rw [locals_next_of_ne hj, grant_of_ne hj]
      exact h.phase j u hm
  · rw [hreaders] at hr
    rw [hshared]
    exact h.current j u hm hr

/-- a write based on a current read: the operation moves to the end of the order -/
theorem Explains.write (hM : M.Updates Fresh Opened Closed) (h : Explains M Opened Closed l₀ s₀ cs st L) {t : σ}
    (hi : (i, t) ∈ L) {c : γ} (hopen : Opened (st.locals i)) (hidle : (M.solo (l₀ i) t (cs i)).2 = t)
    (hacc : M.access (st.locals i) c = .write) (hcur : i ∈ st.readers) :
    Explains M Opened Closed l₀ s₀ (grant cs i c) (M.next st (i, c))
      ((L.filter fun e => e.1 ≠ i) ++ [(i, st.shared)]) := by
  have hreaders : (M.next st (i, c)).readers = [] := by simp [next, hacc]
  have ht : t = st.shared := h.current i t hi hcur
  -- alone at the end it reads what it has read
  have hsolo : M.solo (l₀ i) st.shared (grant cs i c i) = M.step (st.locals i) c st.shared := by
    simp only [grant, Function.update_self, solo_snoc]
    rw [← ht, ← h.locals i t hi, hidle]
  have hself : (M.next st (i, c)).locals i = (M.step (st.locals i) c st.shared).1 := by simp [next]
  have hrest : ∀ j u, (j, u) ∈ L.filter (fun e => e.1 ≠ i) → (j, u) ∈ L ∧ j ≠ i := by
    intro j u hm
    obtain ⟨hm, hj⟩ := mem_filter.1 hm
    exact ⟨hm, of_decide_eq_true hj⟩
  refine ⟨?_, fun j hj => ?_, ?_, fun j u hm => ?_, fun j u hm => ?_, fun j u hm hr => ?_⟩
  · rw [map_append]
    refine (h.nodup.sublist (filter_sublist.map _)).append (nodup_singleton i) ?_
    intro j hj hji
    obtain ⟨⟨j', u⟩, hm, rfl⟩ := mem_map.1 hj
    exact (hrest j' u hm).2 (mem_singleton.1 hji)
  · have hji : j ≠ i := fun he =>
      hj (mem_map.2 ⟨(i, st.shared), mem_append_right _ mem_cons_self, he.symm⟩)
    have hjL : j ∉ L.map Prod.fst := by
      intro hin
      obtain ⟨⟨_, u⟩, hm, rfl⟩ := mem_map.1 hin
      exact hj (fst_mem (t := u) (mem_append_left _ (mem_filter.2 ⟨hm, decide_eq_true hji⟩)))
    obtain ⟨hw, hl, -⟩ := h.waiting j hjL
    rw [locals_next_of_ne hji, grant_of_ne hji, hreaders]
    exact ⟨hw, hl, not_mem_nil⟩
  · have hremoved := h.chain.remove (i := i) fun u hm => by rw [turn_unique h.nodup hm hi]; exact hidle
    have hchain := (hremoved.congr (grant cs i c) fun j u hm => by rw [grant_of_ne (hrest j u hm).2]).snoc i
    rwa [hsolo] at hchain
  · rcases mem_append.1 hm with hm | hm
    · obtain ⟨hm, hj⟩ := hrest j u hm
      rw [locals_next_of_ne hj, grant_of_ne hj]
      exact h.locals j u hm
    · obtain ⟨rfl, rfl⟩ := Prod.mk.inj (mem_singleton.1 hm)
      rw [hsolo, hself]
  · rw [hreaders]
    rcases mem_append.1 hm with hm | hm
    · obtain ⟨hm, hj⟩ := hrest j u hm
      rw [locals_next_of_ne hj, grant_of_ne hj]
      exact (h.phase j u hm).imp id fun hp => ⟨hp.1, not_mem_nil⟩
    · obtain ⟨rfl, rfl⟩ := Prod.mk.inj (mem_singleton.1 hm)
      rw [hself]
      exact .inr ⟨hM.write _ hopen c hacc _, not_mem_nil⟩
  · rw [hreaders] at hr
    cases hr

/-- every step keeps the state explained -/
theorem explains_next (hM : M.Updates Fresh Opened Closed) (hl₀ : ∀ i, Fresh (l₀ i))
    (h : ∃ L, Explains M Opened Closed l₀ s₀ cs st L) (i : ι) (c : γ) (hcur : M.Current st (i, c)) :
    ∃ L, Explains M Opened Closed l₀ s₀ (grant cs i c) (M.next st (i, c)) L := by
  obtain ⟨L, h⟩ := h
  by_cases hi : i ∈ L.map Prod.fst
  · obtain ⟨⟨i', t⟩, hm, rfl⟩ := mem_map.1 hi
    rcases h.phase i' t hm with ⟨hopen, hidle⟩ | ⟨hclosed, hr⟩
    · by_cases hw : M.access (st.locals i') c = .write
      · exact ⟨_, h.write hM hm hopen hidle hw (hcur hw)⟩
      · obtain ⟨hq, hstep⟩ := hM.quiet _ hopen c hw
        exact ⟨L, h.quiet hm hq (fun s => ⟨(hstep s).1, (hstep s).2.2⟩) (.inl ⟨(hstep _).2.1, hidle⟩)⟩
    · obtain ⟨hq, hstep⟩ := hM.closed _ hclosed c
      exact ⟨L, h.quiet hm hq (fun s => ⟨(hstep s).1, (hstep s).2.2⟩) (.inr ⟨(hstep _).2.1, hr⟩)⟩
  · exact ⟨_, h.read hM hl₀ hi c⟩

/-! ## The serial order -/

theorem serialRun_append (cs : ι → List γ) (order order' : List ι) (x : (ι → ℓ) × σ) :
    M.serialRun cs (order ++ order') x = M.serialRun cs order' (M.serialRun cs order x) := foldl_append

/-- nobody moves an operation but its own turn -/
theorem serialRun_of_notMem {order : List ι} (hi : i ∉ order) (x : (ι → ℓ) × σ) :
    (M.serialRun cs order x).1 i = x.1 i := by
  induction order generalizing x with
  | nil => rfl
  | cons j order ih =>
    have hij : i ≠ j := fun he => hi (he ▸ mem_cons_self)
    have hrest := ih (fun hm => hi (mem_cons_of_mem j hm)) (M.turn cs x j)
    exact hrest.trans (Function.update_of_ne hij _ _)

/-- the turns of a chain, operation by operation -/
theorem Chain.serialRun (h : Chain M l₀ cs s L s') (hn : (L.map Prod.fst).Nodup) {g : ι → ℓ}
    (hg : ∀ i t, (i, t) ∈ L → g i = l₀ i) :
    (M.serialRun cs (L.map Prod.fst) (g, s)).2 = s' ∧
      ∀ i t, (i, t) ∈ L → (M.serialRun cs (L.map Prod.fst) (g, s)).1 i = (M.solo (l₀ i) t (cs i)).1 := by
  induction L generalizing s g with
  | nil => exact ⟨h.symm, fun i t hm => absurd hm not_mem_nil⟩
  | cons e L ih =>
    obtain ⟨i, t⟩ := e
    obtain ⟨rfl, h⟩ := h
    obtain ⟨hni, hn⟩ := nodup_cons.1 hn
    have hg' : ∀ j u, (j, u) ∈ L → Function.update g i (M.solo (l₀ i) t (cs i)).1 j = l₀ j := by
      intro j u hm
      have hji : j ≠ i := fun he => hni (he ▸ fst_mem hm)
      rw [Function.update_of_ne hji]
      exact hg j u (mem_cons_of_mem _ hm)
    have hrun : M.serialRun cs (((i, t) :: L).map Prod.fst) (g, t) =
        M.serialRun cs (L.map Prod.fst) (Function.update g i (M.solo (l₀ i) t (cs i)).1,
          (M.solo (l₀ i) t (cs i)).2) := by
      simp [Machine.serialRun, turn, hg i t mem_cons_self]
    obtain ⟨hs, hl⟩ := ih h hn hg'
    rw [hrun]
    refine ⟨hs, fun j u hm => ?_⟩
    rcases mem_cons.1 hm with he | hm
    · obtain ⟨rfl, rfl⟩ := Prod.mk.inj he
      exact (serialRun_of_notMem hni _).trans (Function.update_self ..)
    · exact hl j u hm

/-- operations without choices take an empty turn -/
theorem serialRun_idle {order : List ι} (h : ∀ i ∈ order, cs i = []) (x : (ι → ℓ) × σ) :
    M.serialRun cs order x = x := by
  induction order with
  | nil => rfl
  | cons i order ih =>
    have hturn : M.turn cs x i = x := by simp [turn, solo, h i mem_cons_self]
    simp only [Machine.serialRun, foldl_cons, hturn]
    exact ih fun j hj => h j (mem_cons_of_mem i hj)

omit [DecidableEq ι] in
theorem start_explains (l₀ : ι → ℓ) (s₀ : σ) :
    Explains M Opened Closed l₀ s₀ (fun _ => []) ⟨l₀, s₀, []⟩ [] :=
  ⟨nodup_nil, fun _ _ => ⟨rfl, rfl, not_mem_nil⟩, rfl, fun _ _ h => absurd h not_mem_nil,
    fun _ _ h => absurd h not_mem_nil, fun _ _ h => absurd h not_mem_nil⟩

end Machine

theorem choices_snoc (sched : List (ι × γ)) (i : ι) (c : γ) :
    choices (sched ++ [(i, c)]) = Machine.grant (choices sched) i c := by
  funext j
  by_cases hj : j = i
  · subst hj; simp [choices, Machine.grant]
  · have hne : ¬ i = j := fun he => hj he.symm
    simp [choices, Machine.grant, Function.update_of_ne hj, hne]


/-- **Current writes are serializable.** If every write is based on a read that no other write has overtaken, some order
of the operations, one after the other and each with its own choices, leads to the same shared state and brings every
operation to the same point. -/
theorem serializable {Fresh Opened Closed : ℓ → Prop} (hM : M.Updates Fresh Opened Closed) {l₀ : ι → ℓ}
    (hl₀ : ∀ i, Fresh (l₀ i)) (s₀ : σ) {all : List ι} (hall : all.Nodup) (hmem : ∀ i, i ∈ all) (sched : List (ι × γ))
    (hcur : Runs.Meets M.next M.Current ⟨l₀, s₀, []⟩ sched) :
    ∃ order : List ι, order.Perm all ∧
      ((sched.foldl M.next ⟨l₀, s₀, []⟩).locals, (sched.foldl M.next ⟨l₀, s₀, []⟩).shared) =
        M.serialRun (choices sched) order (l₀, s₀) := by
  obtain ⟨L, h⟩ : ∃ L, Machine.Explains M Opened Closed l₀ s₀ (choices sched) (sched.foldl M.next ⟨l₀, s₀, []⟩) L := by
    refine Runs.foldl_history_of (P := fun done st => ∃ L, Machine.Explains M Opened Closed l₀ s₀ (choices done) st L)
      ⟨[], Machine.start_explains l₀ s₀⟩ (fun done st o ho hst => ?_) hcur
    rw [choices_snoc]
    exact Machine.explains_next hM hl₀ hst o.1 o.2 ho
  obtain ⟨hs, hl⟩ := h.chain.serialRun h.nodup (g := l₀) fun _ _ _ => rfl
  -- the operations that have not begun take their empty turns at the end
  refine ⟨L.map Prod.fst ++ all.filter (· ∉ L.map Prod.fst), ?_, ?_⟩
  · refine (perm_ext_iff_of_nodup (h.nodup.append (hall.filter _) ?_) hall).2 fun i => ?_
    · intro i hi hi'
      exact of_decide_eq_true (mem_filter.1 hi').2 hi
    · simp only [mem_append, mem_filter, decide_eq_true_eq, hmem, true_and, iff_true]
      exact em _
  · have happend : M.serialRun (choices sched) (L.map Prod.fst ++ all.filter (· ∉ L.map Prod.fst)) (l₀, s₀) =
        M.serialRun (choices sched) (L.map Prod.fst) (l₀, s₀) := by
      rw [Machine.serialRun_append]
      exact Machine.serialRun_idle (fun i hi => (h.waiting i (of_decide_eq_true (mem_filter.1 hi).2)).1) _
    rw [happend]
    refine Prod.ext (funext fun i => ?_) hs.symm
    by_cases hi : i ∈ L.map Prod.fst
    · obtain ⟨⟨j, t⟩, hm, rfl⟩ := mem_map.1 hi
      exact (h.locals j t hm).trans (hl j t hm).symm
    · exact (h.waiting i hi).2.1.trans (Machine.serialRun_of_notMem hi (l₀, s₀)).symm

end AccessPoint.Serial

/-
How many procs a factory may have, and from which rows (internal/factory/engine.go).

`materializeCluster` takes the number of procs to be `QueueNum` times the number of rows, cut at the limit of the
cluster ad. Two things come between that and the intended number: the product is one of 64-bit integers, and a factory
whose items file is missing or holds no row counts as one with a single implicit row, like a plain `queue N`.

- `procLimit_exact_iff`: when the limit is the intended one.
- `committed_rows_exist`: over whole histories of a factory (`Production`), no proc is committed beyond the rows of its
  items file when the file has any.
-/
import AccessPoint.Factory.ExactlyOnce

namespace AccessPoint

open ClassAdLib Engine

/-! ## The limit -/

theorem procLimit_le (fi : FactoryInfo) (fc : FactoryCache) :
    Engine.procLimit fi fc ≤ fc.digest.queueNum * Engine.rowCount fc.rows := by
  have hpos := total_pos fc.digest fc.rows
  have hwrap := Text.wrap64_le (n := fc.digest.queueNum * rowCount fc.rows) (by omega)
  rw [procLimit_eq_min]
  split_ifs <;> omega

/-- **When the size of a factory is exact.** The limit of a visit is the product over the integers, or the limit of the
cluster ad when that is positive and smaller, exactly when the product is a 64-bit number or that limit is not above the
wrapped product; a positive limit below the product is then reached. -/
theorem procLimit_exact_iff (d : Digest) (rows : List String) (fi : FactoryInfo) :
    (Engine.procLimit fi ⟨d, rows⟩ =
        (if 0 < fi.limit then min (d.queueNum * Engine.rowCount rows) fi.limit else d.queueNum * Engine.rowCount rows) ∧
      (0 < fi.limit → fi.limit < d.queueNum * Engine.rowCount rows → Engine.procLimit fi ⟨d, rows⟩ = fi.limit)) ↔
    d.queueNum * Engine.rowCount rows < 2 ^ 63 ∨
      0 < fi.limit ∧ fi.limit ≤ Text.wrap64 (d.queueNum * Engine.rowCount rows) := by
  have hpos := total_pos d rows
  rw [procLimit_eq_min]
  dsimp only
  generalize d.queueNum * rowCount rows = total at hpos ⊢
  have hlt := Text.wrap64_lt total
  by_cases hfits : total < 2 ^ 63
  · rw [Text.wrap64_eq (by omega) hfits]
    refine ⟨fun _ => .inl hfits, fun _ => ⟨rfl, fun hlim hlow => ?_⟩⟩
    rw [if_pos hlim]
    exact min_eq_right hlow.le
  · -- the wrapped product is smaller than the product: only a limit below it hides that
    by_cases hlim : 0 < fi.limit
    · simp only [hlim, hfits, if_true, true_and, false_or, forall_const]
      omega
    · simp only [hlim, hfits, if_false, false_and, or_self, iff_false, not_and]
      omega

/-- bookkeeping of a factory with a limit -/
def limitedInfo (limit : ℤ) : FactoryInfo where
  cluster := 1
  digestFile := "/spool/1/d"
  itemsFile := "/spool/1/i"
  limit := limit
  maxIdle := -1
  nextProcId := 0
  nextRow := 0
  itemCount := 0
  paused := 0
  totalProcs := 0
  idleProcs := 0

/-- a digest with the largest count -/
def hugeDigest : String := "arguments=$(x)\nQueue 9223372036854775807 x from /spool/1/i\n"

/-- the product of that count and two rows wraps around to -2: no proc is made, and the limit of ten is never reached -/
theorem huge_factory_makes_nothing :
    (parseDigest hugeDigest).toOption.map (fun d =>
      (d.queueNum, d.queueNum * Engine.rowCount ["a", "b"], Engine.procLimit (limitedInfo 10) ⟨d, ["a", "b"]⟩)) =
      some (9223372036854775807, 18446744073709551614, -2) := by
  decide +kernel

/-! ## The rows of the procs committed -/

/-- below the product, the row index is below the number of rows -/
theorem rowIndex_lt {d : Digest} {rows : List String} (hrows : rows ≠ []) {p : ℤ} (hp : p < d.queueNum * rows.length) :
    d.rowIndex p < rows.length := by
  have hn : 0 < d.queueNum := by
    have := d.queueNum_pos
    omega
  have hlen := List.length_pos_of_ne_nil hrows
  unfold Digest.rowIndex
  rcases le_or_gt 0 p with h | h
  · rw [Int.tdiv_eq_ediv_of_nonneg h]
    exact Int.ediv_lt_of_lt_mul hn (by rwa [mul_comm])
  · have hneg : 0 ≤ (-p).tdiv d.queueNum := Int.tdiv_nonneg (by omega) hn.le
    rw [Int.neg_tdiv] at hneg
    omega

namespace Production

variable {E : Type} [ConfigLib] [ClassAdLib E]

/-- a visit that has to load the factory and can read the items file finds these rows in it -/
def FindsRows (rows : List String) (c : ℤ) (s : Production E) : Event E → Prop
  | .visit w => (s.engine.cache.lookup c).isSome ∨
      ∀ fi, s.engine.q.factoryInfo c = some fi → ∀ found, Engine.loadRows w fi.itemsFile = .ok found → found = rows
  | _ => True

structure WithinRows (rows : List String) (c : ℤ) (s : Production E) : Prop where
  cached : ∀ fc, s.engine.cache.lookup c = some fc → fc.rows = rows
  visiting : ∀ v, s.visit = some v → v.rows = rows ∧ v.limit ≤ v.digest.queueNum * rows.length
  made : ∀ m ∈ s.engine.made, m.digest.rowIndex m.proc < rows.length

omit [ClassAdLib E] in
theorem readFactory_rows {w : Engine.World} {fi : FactoryInfo} {fc : FactoryCache}
    (h : Engine.readFactory w fi = .ok fc) :
    Engine.loadRows w fi.itemsFile = .ok fc.rows := by
  unfold readFactory at h
  cases hfile : w.file fi.digestFile with
  | notExist | err => rw [hfile] at h; cases h
  | ok text =>
    rw [hfile] at h
    dsimp only at h
    cases hparse : parseDigest text with
    | error => rw [hparse] at h; cases h
    | ok =>
      rw [hparse] at h
      dsimp only at h
      cases hload : loadRows w fi.itemsFile with
      | error => rw [hload] at h; cases h
      | ok =>
        rw [hload] at h
        injection h with h
        rw [← h]

variable {rows : List String} {c : ℤ} {e : Engine E}

omit [ClassAdLib E] in
/-- a factory that loads has these rows; a failed load leaves the cache -/
theorem loadFactory_rows (w : Engine.World) (fi : FactoryInfo)
    (hcached : ∀ fc, e.cache.lookup c = some fc → fc.rows = rows)
    (hread : (e.cache.lookup c).isSome ∨ ∀ found, Engine.loadRows w fi.itemsFile = .ok found → found = rows) :
    match Engine.loadFactory w e c fi with
    | (.ok fc, _) => fc.rows = rows
    | (.error _, e') => e'.cache = e.cache := by
  unfold loadFactory
  cases hc : e.cache.lookup c with
  | some fc => exact hcached fc hc
  | none =>
    dsimp only
    cases hr : readFactory w fi with
    | error => rfl
    | ok => exact (hread.resolve_left (by simp [hc])) _ (readFactory_rows hr)

theorem begin_rows (hrows : rows ≠ []) {w : Engine.World} (h : WithinRows rows c ⟨e, none⟩)
    (hfinds : FindsRows rows c ⟨e, none⟩ (.visit w)) : WithinRows rows c (begin c w e) := by
  unfold begin
  cases hfi : e.q.factoryInfo c with
  | none => exact ⟨fun fc hc => h.cached fc (KeyMap.lookup_of_erase hc), fun v hv => (nomatch hv), h.made⟩
  | some fi =>
    dsimp only
    by_cases hp : fi.paused ≠ 0
    · rw [if_pos hp]
      obtain ⟨hmade, hcache⟩ := cleanup_rest e c
      exact ⟨fun fc hc => h.cached fc (hcache fc hc), fun v hv => (nomatch hv), fun m hm => h.made m (hmade ▸ hm)⟩
    · rw [if_neg hp]
      have hload := loadFactory_rows w fi h.cached (hfinds.imp_right fun hf => hf fi hfi)
      obtain ⟨-, hmade⟩ := loadFactory_q w e c fi
      rcases hl : loadFactory w e c fi with ⟨_ | fc, _⟩
      · rw [hl] at hload hmade
        exact ⟨fun fc hc => h.cached fc (hload ▸ hc), fun v hv => (nomatch hv), fun m hm => h.made m (hmade ▸ hm)⟩
      · rw [hl] at hload hmade
        dsimp only at hload hmade ⊢
        refine ⟨fun fc' hc' => ?_, fun v hv => ?_, fun m hm => h.made m (hmade ▸ hm)⟩
        · rw [AList.lookup_insert] at hc'
          cases hc'
          exact hload
        · cases hv
          refine ⟨hload, ?_⟩
          have hle := procLimit_le fi fc
          rwa [hload, rowCount, if_neg hrows] at hle

theorem advance_rows (hrows : rows ≠ []) {v : Visit} (w : Engine.World) (h : WithinRows rows c ⟨e, some v⟩) :
    WithinRows rows c (advance c w e v) := by
  obtain ⟨hv, hlim⟩ := h.visiting v rfl
  have hcached : ∀ d fc, (e.cache.insert c ⟨d, v.rows⟩).lookup c = some fc → fc.rows = rows := by
    intro d fc hc
    rw [AList.lookup_insert] at hc
    cases hc
    exact hv
  unfold advance
  by_cases hgo : v.next < v.limit ∧ ¬ (0 ≤ v.maxIdle ∧ v.maxIdle ≤ v.idle)
  · rw [if_pos hgo]
    cases rowAt v.rows (v.digest.rowIndex v.next) with
    | none => exact ⟨h.cached, fun v hv => (nomatch hv), h.made⟩
    | some =>
      dsimp only
      split
      · exact ⟨hcached _, fun v hv => (nomatch hv), h.made⟩
      · refine ⟨hcached _, fun v' hv' => ?_, fun m hm => ?_⟩
        · cases hv'
          exact ⟨hv, hlim⟩
        · rcases List.mem_append.1 hm with hm | hm
          · exact h.made m hm
          · rw [List.mem_singleton.1 hm]
            exact rowIndex_lt hrows (lt_of_lt_of_le hgo.1 hlim)
  · rw [if_neg hgo]
    split_ifs <;> exact ⟨h.cached, fun v hv => (nomatch hv), h.made⟩

theorem step_rows (hrows : rows ≠ []) {s : Production E} (h : WithinRows rows c s) {ev : Event E}
    (hev : FindsRows rows c s ev) : WithinRows rows c (step c s ev) := by
  obtain ⟨e, visit⟩ := s
  cases ev with
  | visit =>
    simp only [step]
    split_ifs with hbusy
    · exact h
    · obtain rfl : visit = none := by
        cases visit with
        | none => rfl
        | some => exact absurd (.inr rfl) hbusy
      exact begin_rows hrows h hev
  | advance w =>
    cases visit with
    | none => exact h
    | some => exact advance_rows hrows w h
  | cleanup =>
    obtain ⟨hmade, hcache⟩ := cleanup_rest e c
    exact ⟨fun fc hc => h.cached fc (hcache fc hc), h.visiting, fun m hm => h.made m (hmade ▸ hm)⟩
  | edit => exact ⟨h.cached, h.visiting, h.made⟩
  | restart => exact ⟨fun fc hc => (by cases hc), fun v hv => (by cases hv), h.made⟩

/-- **Item factories materialize only real rows**, when the items file has rows whenever it is loaded: over every
history of sweeps, failed writes, edits of the queue by anyone, crashes and restarts, the row index of every proc
committed is below the number of rows. -/
theorem committed_rows_exist (hrows : rows ≠ []) {s₀ : Production E} (hcache : s₀.engine.cache.lookup c = none)
    (hvisit : s₀.visit = none) (hmade : s₀.engine.made = []) (evs : List (Event E))
    (hevs : Runs.Meets (step c) (FindsRows rows c) s₀ evs) :
    ∀ m ∈ (evs.foldl (step c) s₀).engine.made, m.digest.rowIndex m.proc < rows.length := by
  have hstart : WithinRows rows c s₀ := by
    refine ⟨fun fc hc => ?_, fun v hv => ?_, fun m hm => ?_⟩
    · rw [hcache] at hc
      cases hc
    · rw [hvisit] at hv
      cases hv
    · rw [hmade] at hm
      cases hm
  have hstep : ∀ (s : Production E) ev, FindsRows rows c s ev → WithinRows rows c s → WithinRows rows c (step c s ev) :=
    fun s ev hev h => step_rows hrows h hev
  exact (Runs.foldl_inv_of hstep hstart hevs).made

end Production

/-! ### A factory with its items and without -/

namespace Production

theorem itemsWorld_rows {s : Production Value} (full : Bool)
    (h : (s.engine.q.factoryInfo 1).all (fun fi => fi.itemsFile = "/spool/1/i") = true) :
    FindsRows ["a", "b"] 1 s (.visit (itemsWorld full)) := by
  refine .inr fun fi hfi found hload => ?_
  have hread : loadRows (itemsWorld full) "/spool/1/i" = .ok ["a", "b"] := by
    cases full <;> decide +kernel
  rw [hfi, Option.all_some, decide_eq_true_eq] at h
  rw [h, hread] at hload
  injection hload with hload
  exact hload.symm

theorem items_rows_exist :
    (itemsHistory.foldl (step 1) itemsStart).engine.made.map (fun m => (m.proc, m.digest.rowIndex m.proc)) =
        [(0, 0), (1, 0), (2, 1)] ∧
      ∀ m ∈ (itemsHistory.foldl (step 1) itemsStart).engine.made, m.digest.rowIndex m.proc < ["a", "b"].length :=
  ⟨by decide +kernel,
    committed_rows_exist (List.cons_ne_nil _ _) rfl rfl rfl itemsHistory
      ⟨itemsWorld_rows false (by decide +kernel), trivial, trivial, trivial, trivial, trivial,
        itemsWorld_rows true (by decide +kernel), trivial, itemsWorld_rows false (by decide +kernel), trivial, trivial⟩⟩

/-- the same factory when its items file is as given -/
def strippedWorld (items : FileResult) : Engine.World :=
  { itemsWorld false with file := fun path => if path = "/spool/1/i" then items else (itemsWorld false).file path }

/-- the procs it then commits, each with the index of its row and the row -/
def strippedRows (items : FileResult) : List (ℤ × ℤ × String) :=
  (Engine.materializeCluster (strippedWorld items) itemsStart.engine 1).made.map fun m =>
    (m.proc, m.digest.rowIndex m.proc, m.rawRow)

/-- with the items file gone, or empty, there are no rows and two procs are committed all the same -/
theorem missing_items_still_materialize :
    (Engine.loadRows (strippedWorld .notExist) "/spool/1/i" = .ok [] ∧
      strippedRows .notExist = [(0, 0, ""), (1, 0, "")]) ∧
      Engine.loadRows (strippedWorld (.ok "")) "/spool/1/i" = .ok [] ∧
        strippedRows (.ok "") = [(0, 0, ""), (1, 0, "")] := by
  decide +kernel

end Production

end AccessPoint

/-
The claims of the schedd and their keepalives (internal/match/match.go, `Table` and `RegisterALIVE`).

A record is kept under the public id of its claim and has a lease: some keepalives may be missed, then a sweep drops it.
Every method of the table holds its lock throughout, but two of the callers do not: `CreateFromClaim` makes the record
before it takes the lock, and the ALIVE handler looks the claim up, renews it and answers in three steps. `Keeper`
interleaves any number of them with the sweeps, the removals and the clock.

- `lease_exact`: a record that was put in or renewed is there later, with no renewal in between, exactly if no sweep
  since then read a clock past its deadline.
- `Table.view_renewLeaseFor`, `Table.view_expireSweep`: the table of the lease sweep (`MatchTable`) is this one, seen by
  its deadlines.
-/
import AccessPoint.Core.Runs
import AccessPoint.Core.Text
import AccessPoint.Sched.LeaseSweep

namespace AccessPoint.Keepalive

/-- `claimSinful`: the address before the first '#' -/
def claimSinful (claimID : String) : String :=
  if '#' ∈ claimID.toList then String.ofList (claimID.toList.takeWhile (· ≠ '#')) else ""

/-- `DefaultAlivesMissed` -/
def defaultAlivesMissed : ℤ := 6

/-- `State` -/
inductive State where
  | claimed | active
deriving DecidableEq, Repr

/-- `MatchRec`; times are in nanoseconds, a deadline is none for the zero time -/
structure MatchRec (E : Type) where
  slotAd : Option (Ad E)
  peerAddr : String
  state : State
  aliveInterval : ℤ
  leaseDeadline : Option ℤ
  sessionID : String
  publicID : String

variable {E : Type}

/-- the lease has run out, as `ExpireSweep` asks -/
def MatchRec.expired (r : MatchRec E) (now : ℤ) : Bool := r.leaseDeadline.any (· < now)

/-- `leaseDuration`: the keepalives that may be missed times their interval in seconds, in 64 bits -/
def leaseDuration (alivesMissed aliveInterval : ℤ) : ℤ :=
  let n := if alivesMissed ≤ 0 then defaultAlivesMissed else alivesMissed
  let interval := if aliveInterval ≤ 0 then 1 else aliveInterval
  Text.wrap64 (Text.wrap64 (n * interval) * 1000000000)

/-- the key of a claim id: the session id in it (`SecSessionID`), or the id itself when it has none -/
def publicKey (secSessionID : String → String) (claimID : String) : String :=
  if secSessionID claimID = "" then claimID else secSessionID claimID

/-- `Table`: the records by the public ids of their claims -/
structure Table (E : Type) where
  byPublic : KeyMap String (MatchRec E)
  alivesMissed : ℤ
  keyed : ∀ id r, byPublic.lookup id = some r → r.publicID = id

namespace Table

/-- `NewTable` -/
def new : Table E := ⟨∅, defaultAlivesMissed, fun id r h => by simp at h⟩

/-- `SetAlivesMissed` -/
def setAlivesMissed (t : Table E) (n : ℤ) : Table E :=
  { t with alivesMissed := if n ≤ 0 then defaultAlivesMissed else n }

/-- the record under its own public id -/
def put (t : Table E) (r : MatchRec E) : Table E where
  byPublic := t.byPublic.insert r.publicID r
  alivesMissed := t.alivesMissed
  keyed := by
    intro id r' h
    rw [KeyMap.lookup_insert_ite] at h
    split_ifs at h with hid
    · cases h
      exact hid.symm
    · exact t.keyed id r' h

/-- what the methods that change one record do; false, and nothing, when the claim is unknown -/
def adjust (t : Table E) (id : String) (f : MatchRec E → MatchRec E) : Bool × Table E :=
  match t.byPublic.lookup id with
  | none => (false, t)
  | some r => (true, t.put (f r))

section

variable (secSessionID : String → String)

/-- the record `CreateFromClaim` makes, once the session is imported -/
def newRec (t : Table E) (claimID : String) (slotAd : Option (Ad E)) (aliveInterval : ℤ) (sessionID : String)
    (now : ℤ) :
    MatchRec E where
  slotAd := slotAd
  peerAddr := claimSinful claimID
  state := .claimed
  aliveInterval := aliveInterval
  leaseDeadline := some (now + leaseDuration t.alivesMissed aliveInterval)
  sessionID := sessionID
  publicID := publicKey secSessionID claimID

/-- `FindByClaimID` -/
def findByClaimID (t : Table E) (claimID : String) : Option (MatchRec E) :=
  t.byPublic.lookup (publicKey secSessionID claimID)

/-- `RenewLease` -/
def renewLease (t : Table E) (claimID : String) (now : ℤ) : Bool × Table E :=
  t.adjust (publicKey secSessionID claimID) fun r =>
    { r with leaseDeadline := some (now + leaseDuration t.alivesMissed r.aliveInterval) }

/-- `RenewLeaseFor` -/
def renewLeaseFor (t : Table E) (claimID : String) (now d : ℤ) : Bool × Table E :=
  t.adjust (publicKey secSessionID claimID) fun r => { r with leaseDeadline := some (now + d) }

/-- `UpdateSlotAd` -/
def updateSlotAd (t : Table E) (claimID : String) (ad : Option (Ad E)) : Bool × Table E :=
  t.adjust (publicKey secSessionID claimID) fun r => { r with slotAd := ad }

/-- `Remove` -/
def remove (t : Table E) (claimID : String) : Option (MatchRec E) × Table E :=
  (t.byPublic.lookup (publicKey secSessionID claimID),
    { byPublic := t.byPublic.erase (publicKey secSessionID claimID)
      alivesMissed := t.alivesMissed
      keyed := fun id r h => t.keyed id r (KeyMap.lookup_of_erase h) })

end

/-- `ExpireSweep`: the records whose lease has run out, and the table without them -/
def expireSweep (t : Table E) (now : ℤ) : List (MatchRec E) × Table E :=
  ((t.byPublic.entries.map (·.2)).filter (·.expired now),
    { byPublic := t.byPublic.mapKeys fun _ r => if r.expired now then none else some r
      alivesMissed := t.alivesMissed
      keyed := by
        intro id r h
        rw [KeyMap.lookup_mapKeys] at h
        obtain ⟨_, hl, hr⟩ := Option.bind_eq_some_iff.1 h
        split_ifs at hr
        cases hr
        exact t.keyed id r hl })

/-! ### Lookups -/

theorem put_lookup (t : Table E) (r : MatchRec E) (id : String) :
    (t.put r).byPublic.lookup id = if id = r.publicID then some r else t.byPublic.lookup id :=
  KeyMap.lookup_insert_ite _ _ _ _

/-- a change that keeps the public id changes the record under `id` and no other -/
theorem adjust_lookup (t : Table E) (id id' : String) {f : MatchRec E → MatchRec E}
    (hf : ∀ r, (f r).publicID = r.publicID) :
    (t.adjust id f).2.byPublic.lookup id' = if id' = id then (t.byPublic.lookup id).map f
      else t.byPublic.lookup id' := by
  unfold adjust
  cases hl : t.byPublic.lookup id with
  | none =>
    split_ifs with hid
    · rw [hid, hl]
      rfl
    · rfl
  | some r =>
    have hkey : (f r).publicID = id := (hf r).trans (t.keyed id r hl)
    simp only [put_lookup, hkey, Option.map_some]

section

variable (secSessionID : String → String) (t : Table E) (claimID : String)

theorem renewLease_lookup (now : ℤ) (id : String) :
    (t.renewLease secSessionID claimID now).2.byPublic.lookup id =
      if id = publicKey secSessionID claimID then
        (t.byPublic.lookup (publicKey secSessionID claimID)).map fun r =>
          { r with leaseDeadline := some (now + leaseDuration t.alivesMissed r.aliveInterval) }
      else t.byPublic.lookup id :=
  adjust_lookup t _ _ fun _ => rfl

theorem renewLeaseFor_lookup (now d : ℤ) (id : String) :
    (t.renewLeaseFor secSessionID claimID now d).2.byPublic.lookup id =
      if id = publicKey secSessionID claimID then
        (t.byPublic.lookup (publicKey secSessionID claimID)).map fun r => { r with leaseDeadline := some (now + d) }
      else t.byPublic.lookup id :=
  adjust_lookup t _ _ fun _ => rfl

theorem updateSlotAd_lookup (ad : Option (Ad E)) (id : String) :
    (t.updateSlotAd secSessionID claimID ad).2.byPublic.lookup id =
      if id = publicKey secSessionID claimID then
        (t.byPublic.lookup (publicKey secSessionID claimID)).map fun r => { r with slotAd := ad }
      else t.byPublic.lookup id :=
  adjust_lookup t _ _ fun _ => rfl

theorem remove_lookup (id : String) :
    (t.remove secSessionID claimID).2.byPublic.lookup id =
      if id = publicKey secSessionID claimID then none else t.byPublic.lookup id :=
  KeyMap.lookup_erase_ite _ _ _

end

theorem expireSweep_lookup (t : Table E) (now : ℤ) (id : String) :
    (t.expireSweep now).2.byPublic.lookup id = (t.byPublic.lookup id).filter fun r => !r.expired now := by
  simp only [expireSweep, KeyMap.lookup_mapKeys]
  cases t.byPublic.lookup id with
  | none => rfl
  | some r => cases h : r.expired now <;> simp [Option.filter, h]

/-! ### The table of the lease sweep -/

/-- the deadlines -/
def view (t : Table E) : MatchTable where
  byPublic := t.byPublic.mapKeys fun _ r => some ⟨r.publicID, r.leaseDeadline⟩
  keyed := by
    intro id r h
    rw [KeyMap.lookup_mapKeys] at h
    obtain ⟨r', hl, hr⟩ := Option.bind_eq_some_iff.1 h
    cases hr
    exact t.keyed id r' hl

theorem view_lookup (t : Table E) (id : String) :
    t.view.byPublic.lookup id = (t.byPublic.lookup id).map fun r => ⟨r.publicID, r.leaseDeadline⟩ := by
  simp only [view, KeyMap.lookup_mapKeys]
  exact (Option.map_eq_bind ..).symm

theorem view_renewLeaseFor (secSessionID : String → String) (t : Table E) (claimID : String) (now d : ℤ) (id : String) :
    (t.renewLeaseFor secSessionID claimID now d).2.view.byPublic.lookup id =
      (t.view.renewLeaseFor (publicKey secSessionID claimID) (now + d)).byPublic.lookup id := by
  rw [view_lookup, MatchTable.renewLeaseFor_lookup, view_lookup, view_lookup, renewLeaseFor_lookup]
  split_ifs
  · cases hl : t.byPublic.lookup (publicKey secSessionID claimID) with
    | none => rfl
    | some r => simp [t.keyed _ r hl]
  · rfl

theorem view_expireSweep (t : Table E) (now : ℤ) (id : String) :
    id ∈ (t.expireSweep now).1.map (·.publicID) ↔ id ∈ (t.view.expireSweep now).1.map (·.publicID) := by
  rw [MatchTable.mem_expireSweep]
  simp only [expireSweep, List.mem_map, List.mem_filter, view_lookup, Option.map_eq_some_iff]
  constructor
  · rintro ⟨r, ⟨⟨⟨id', r'⟩, hm, rfl⟩, hexp⟩, rfl⟩
    have hl : t.byPublic.lookup id' = some r' := AList.mem_lookup_iff.2 hm
    exact ⟨⟨r'.publicID, r'.leaseDeadline⟩, ⟨r', by rw [t.keyed id' r' hl]; exact hl, rfl⟩, hexp⟩
  · rintro ⟨_, ⟨r, hl, rfl⟩, hexp⟩
    exact ⟨r, ⟨⟨⟨id, r⟩, AList.mem_lookup_iff.1 hl, rfl⟩, hexp⟩, t.keyed id r hl⟩

end Table

/-! ## Keepalives, creations and sweeps, interleaved -/

/-- a goroutine between two of its steps -/
inductive Task (E : Type) where
  /-- `CreateFromClaim`: the record is made and not put in -/
  | insert (r : MatchRec E)
  /-- the ALIVE handler: the claim was found, with this interval -/
  | renew (claimID : String) (interval : ℤ)
  /-- the ALIVE handler before its answer -/
  | answer (claimID : String) (interval : ℤ)

structure Keeper (E : Type) where
  table : Table E
  now : ℤ
  tasks : KeyMap ℕ (Task E)
  /-- the answers to keepalives, the last one first -/
  answers : List (String × ℤ)

inductive Step (E : Type) where
  /-- time passes -/
  | tick (d : ℕ)
  /-- a goroutine calls `CreateFromClaim`; the session it imports, or the error -/
  | create (i : ℕ) (claimID : String) (slotAd : Option (Ad E)) (aliveInterval : ℤ) (session : Except String String)
  /-- an ALIVE arrives -/
  | alive (i : ℕ) (claimID : String)
  /-- the next step of a goroutine -/
  | resume (i : ℕ)
  | renewLeaseFor (claimID : String) (d : ℤ)
  /-- with the clock the caller has read -/
  | expireSweep (now : ℤ)
  | remove (claimID : String)
  | updateSlotAd (claimID : String) (ad : Option (Ad E))
  | setAlivesMissed (n : ℤ)

namespace Keeper

variable (secSessionID : String → String)

def start (now : ℤ) : Keeper E := ⟨.new, now, ∅, []⟩

/-- what the ALIVE handler goes on to do: it renews a claim it finds, and answers -1 for any other -/
def onAlive (s : Keeper E) (claimID : String) : Task E :=
  match s.table.findByClaimID secSessionID claimID with
  | none => .answer claimID (-1)
  | some r => .renew claimID r.aliveInterval

def step (s : Keeper E) : Step E → Keeper E
  | .tick d => { s with now := s.now + d }
  | .create i claimID slotAd aliveInterval session =>
    match s.tasks.lookup i, session with
    | none, .ok sessionID =>
      { s with tasks := s.tasks.insert i
                (.insert (s.table.newRec secSessionID claimID slotAd aliveInterval sessionID s.now)) }
    | _, _ => s
  | .alive i claimID =>
    match s.tasks.lookup i with
    | none => { s with tasks := s.tasks.insert i (s.onAlive secSessionID claimID) }
    | some _ => s
  | .resume i =>
    match s.tasks.lookup i with
    | none => s
    | some (.insert r) => { s with table := s.table.put r, tasks := s.tasks.erase i }
    | some (.renew claimID interval) =>
      { s with table := (s.table.renewLease secSessionID claimID s.now).2,
               tasks := s.tasks.insert i (.answer claimID interval) }
    | some (.answer claimID interval) =>
      { s with tasks := s.tasks.erase i, answers := (claimID, interval) :: s.answers }
  | .renewLeaseFor claimID d => { s with table := (s.table.renewLeaseFor secSessionID claimID s.now d).2 }
  | .expireSweep now => { s with table := (s.table.expireSweep now).2 }
  | .remove claimID => { s with table := (s.table.remove secSessionID claimID).2 }
  | .updateSlotAd claimID ad => { s with table := (s.table.updateSlotAd secSessionID claimID ad).2 }
  | .setAlivesMissed n => { s with table := s.table.setAlivesMissed n }

def run (s : Keeper E) (steps : List (Step E)) : Keeper E := steps.foldl (step secSessionID) s

/-- the deadline a step gives the claim `id` -/
def grants (s : Keeper E) (id : String) : Step E → Option ℤ
  | .resume i =>
    match s.tasks.lookup i with
    | some (.insert r) => if r.publicID = id then r.leaseDeadline else none
    | some (.renew claimID _) =>
      if publicKey secSessionID claimID = id then
        (s.table.byPublic.lookup id).map fun r => s.now + leaseDuration s.table.alivesMissed r.aliveInterval
      else none
    | _ => none
  | .renewLeaseFor claimID d =>
    if publicKey secSessionID claimID = id then (s.table.byPublic.lookup id).map fun _ => s.now + d else none
  | _ => none

/-- the step puts in, renews or removes the claim `id` -/
def touches (s : Keeper E) (id : String) : Step E → Bool
  | .resume i =>
    match s.tasks.lookup i with
    | some (.insert r) => r.publicID = id
    | some (.renew claimID _) => publicKey secSessionID claimID = id && id ∈ s.table.byPublic
    | _ => false
  | .renewLeaseFor claimID _ => publicKey secSessionID claimID = id && id ∈ s.table.byPublic
  | .remove claimID => publicKey secSessionID claimID = id
  | _ => false

/-! ### The lease of one claim -/

variable {secSessionID} {s : Keeper E} {id : String}

/-- the deadline of the record of `id`, if there is one -/
def deadline (s : Keeper E) (id : String) : Option (Option ℤ) := (s.table.byPublic.lookup id).map MatchRec.leaseDeadline

theorem mem_iff_deadline : id ∈ s.table.byPublic ↔ ∃ d, s.deadline id = some d := by
  rw [KeyMap.mem_iff_lookup]
  simp [deadline, Option.map_eq_some_iff]

/-- what a step that does not touch the claim does to its deadline: a sweep past it drops the record -/
def lapse (d : Option (Option ℤ)) : Step E → Option (Option ℤ)
  | .expireSweep now => d.filter fun d => !d.any (· < now)
  | _ => d

theorem grants_deadline {st : Step E} {d : ℤ} (h : s.grants secSessionID id st = some d) :
    (step secSessionID s st).deadline id = some (some d) := by
  cases st with
  | resume i =>
    simp only [grants] at h
    cases ht : s.tasks.lookup i with
    | none => simp [ht] at h
    | some task =>
      cases task with
      | insert =>
        simp only [ht, Option.ite_none_right_eq_some] at h
        obtain ⟨rfl, hd⟩ := h
        simp [deadline, step, ht, Table.put_lookup, hd]
      | renew =>
        simp only [ht, Option.ite_none_right_eq_some, Option.map_eq_some_iff] at h
        obtain ⟨rfl, r, hl, rfl⟩ := h
        simp [deadline, step, ht, Table.renewLease_lookup, hl]
      | answer => simp [ht] at h
  | renewLeaseFor =>
    simp only [grants, Option.ite_none_right_eq_some, Option.map_eq_some_iff] at h
    obtain ⟨rfl, _, hl, rfl⟩ := h
    simp [deadline, step, Table.renewLeaseFor_lookup, hl]
  | _ => simp [grants] at h

/-- a renewal of another claim, or of one that is not there -/
theorem adjust_deadline {id' : String} {f : MatchRec E → MatchRec E} (h : (id' = id && id ∈ s.table.byPublic) = false) :
    (if id = id' then (s.table.byPublic.lookup id').map f else s.table.byPublic.lookup id) =
      s.table.byPublic.lookup id := by
  split_ifs with hid
  · subst hid
    have hout : id ∉ s.table.byPublic := by simpa using h
    rw [KeyMap.lookup_none_of_notMem hout]
    rfl
  · rfl

theorem untouched_deadline {st : Step E} (h : s.touches secSessionID id st = false) :
    (step secSessionID s st).deadline id = lapse (s.deadline id) st := by
  cases st with
  | tick | setAlivesMissed => rfl
  | create | alive =>
    simp only [step]
    split <;> rfl
  | resume i =>
    simp only [touches] at h
    cases ht : s.tasks.lookup i with
    | none => simp [step, ht, lapse]
    | some task =>
      cases task with
      | insert =>
        simp only [ht, decide_eq_false_iff_not] at h
        simp [deadline, step, ht, lapse, Table.put_lookup, Ne.symm h]
      | renew =>
        simp only [ht] at h
        simp only [deadline, step, ht, lapse, Table.renewLease_lookup, adjust_deadline h]
      | answer => simp [deadline, step, ht, lapse]
  | renewLeaseFor =>
    simp only [touches] at h
    simp only [deadline, step, lapse, Table.renewLeaseFor_lookup, adjust_deadline h]
  | expireSweep now =>
    simp only [deadline, step, lapse, Table.expireSweep_lookup]
    cases s.table.byPublic.lookup id with
    | none => rfl
    | some r => cases hr : r.leaseDeadline.any (· < now) <;> simp [Option.filter, MatchRec.expired, hr]
  | remove =>
    simp only [touches, decide_eq_false_iff_not] at h
    simp [deadline, step, lapse, Table.remove_lookup, Ne.symm h]
  | updateSlotAd claimID =>
    simp only [deadline, step, lapse, Table.updateSlotAd_lookup]
    split_ifs with hid
    · subst hid
      cases s.table.byPublic.lookup (publicKey secSessionID claimID) <;> rfl
    · rfl

/-- a run that does not touch the claim: what the sweeps leave of its deadline -/
theorem untouched_run {steps : List (Step E)}
    (h : Runs.Meets (step secSessionID) (fun s st => s.touches secSessionID id st = false) s steps) :
    (run secSessionID s steps).deadline id = steps.foldl lapse (s.deadline id) := by
  induction steps generalizing s with
  | nil => rfl
  | cons st steps ih =>
    obtain ⟨hst, hrest⟩ := h
    rw [List.foldl_cons, ← untouched_deadline hst]
    exact ih hrest

theorem foldl_lapse_none (steps : List (Step E)) : steps.foldl lapse none = none := by
  induction steps with
  | nil => rfl
  | cons st steps ih => cases st <;> exact ih

theorem foldl_lapse (steps : List (Step E)) (d : ℤ) :
    (∃ d', steps.foldl lapse (some (some d)) = some d') ↔ ∀ now, .expireSweep now ∈ steps → now ≤ d := by
  induction steps with
  | nil => simp
  | cons st steps ih =>
    cases st with
    | expireSweep now =>
      by_cases hd : d < now
      · have hgone : lapse (some (some d)) (.expireSweep now : Step E) = none := by simp [lapse, Option.filter, hd]
        rw [List.foldl_cons, hgone, foldl_lapse_none]
        refine iff_of_false (by simp) fun hall => ?_
        exact absurd (hall now List.mem_cons_self) (not_le.2 hd)
      · have hkept : lapse (some (some d)) (.expireSweep now : Step E) =
          some (some d) := by simp [lapse, Option.filter, hd]
        rw [List.foldl_cons, hkept, ih]
        constructor
        · intro hall now' hnow
          rcases List.mem_cons.1 hnow with he | hnow
          · cases he
            exact not_lt.1 hd
          · exact hall now' hnow
        · exact fun hall now' hnow => hall now' (List.mem_cons_of_mem _ hnow)
    | _ => simpa [lapse] using ih

/-- **Exact leases.** In every state, with any goroutines under way: once a step has given a claim the deadline `d`, and
over any steps that do not put it in, renew it or remove it, the claim is in the table if and only if no sweep came with
a clock past `d`. -/
theorem lease_exact (secSessionID : String → String) (s : Keeper E) (id : String) (st : Step E) (d : ℤ)
    (hgrant : s.grants secSessionID id st = some d) (steps : List (Step E))
    (hsteps : Runs.Meets (step secSessionID) (fun s st => s.touches secSessionID id st = false) (step secSessionID s st)
      steps) :
    id ∈ (run secSessionID (step secSessionID s st) steps).table.byPublic ↔
      ∀ now, Step.expireSweep now ∈ steps → now ≤ d := by
  rw [mem_iff_deadline, untouched_run hsteps, grants_deadline hgrant]
  exact foldl_lapse steps d

/-- a claim of a startd that is asked for keepalives every five minutes -/
def slotClaim : String := "<10.0.0.2:9618>#1700000000#1#secret"

/-- the claim is taken and its record put in; two seconds pass -/
def claimed : List (Step Value) := [.create 1 slotClaim none 300 (.ok "s"), .tick 2000000000]

/-- the steps after the record is put in: a keepalive that is only looked up, another claim removed, half an hour and
two sweeps -/
def halfHour (late : ℤ) : List (Step Value) :=
  [.alive 2 slotClaim, .remove "other", .tick 1800000000000, .expireSweep 1000000000000, .expireSweep late]

/-- claim ids that carry no session -/
def noSession : String → String := fun _ => ""

/-- The lease of a new record is counted from when it was made: 1800 seconds. A sweep then keeps it, one a nanosecond
later does not. -/
theorem half_hour_lease :
    (run noSession (start 0) (claimed ++ .resume 1 :: halfHour 1800000000001)).table.byPublic.lookup slotClaim = none ∧
      (slotClaim ∈ (run noSession (step noSession (run noSession (start 0) claimed) (.resume 1))
          (halfHour 1800000000000)).table.byPublic ↔
        ∀ now, Step.expireSweep now ∈ halfHour 1800000000000 → now ≤ 1800000000000) := by
  refine ⟨by decide, ?_⟩
  exact lease_exact noSession (run noSession (start 0) claimed) slotClaim (.resume 1) 1800000000000 (by decide)
    (halfHour 1800000000000) (by decide)

end Keeper

end AccessPoint.Keepalive

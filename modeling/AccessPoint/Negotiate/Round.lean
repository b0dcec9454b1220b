/-
A negotiation round (internal/negotiate/negotiate.go, `Handler.Handle` and the methods of `round`).

The negotiator asks for requests, grants matches and rejects, in any order. A request stands for a group of idle jobs,
drawn from a snapshot of the idle jobs that is taken with the first request; a match names the first job of a group and
is given to the next job of the group that is still Idle, as the live queue says. An opcode comes with the queue as its
reads find it, so that any other goroutine may have changed jobs before each of them.

- `Round.step`: one opcode.
- `Round.Sound`: what relates the cursors of the groups, the index by representative and everything forwarded.
- `round_assignment`: whom the matches of a round go to.
- `named_rejection`: a rejection stops the group its reason names, unless the reason holds the separator.
-/
import AccessPoint.Core.Runs
import AccessPoint.Core.Decimal
import AccessPoint.Queue.RequestList

namespace AccessPoint.Negotiate

open ClassAdLib Text List KeyMap

variable {E : Type}

/-! ## Requests -/

section

variable [ClassAdLib E]

def alwaysSignificant : List String :=
  ["Requirements", "Rank", "ConcurrencyLimits", "RequestCpus", "RequestMemory", "RequestDisk"]

/-- the attributes the negotiator names and those that always count, each once -/
def buildProjection (header : Ad E) : List String :=
  let named := match header.evaluateAttrString (canon E "AutoClusterAttrs") with
    | some s => (Text.splitAt ',' s.toList).map String.ofList
    | none => []
  (named ++ alwaysSignificant).foldl (fun out name =>
    let name := String.ofList (Text.trimSpace name.toList)
    if name = "" ∨ name ∈ out then out else out ++ [name]) []

/-- the ad of a request -/
def buildRequestAd (job : Ad E) (rep : JobKey) (count : ℕ) (acid : ℕ) : Ad E :=
  let ad := (job.setInt .clusterId rep.cluster).setInt .procId rep.proc
  let ad := ad.setInt (canon E "_condor_RESOURCE_COUNT") count
  let ad := ad.setInt (canon E "AutoClusterId") acid
  let ad := ad.setInt (canon E "WantMatchDiagnostics") 2
  ad.set (canon E "WantPslotPreemption") (.bool true)

/-! ## Matches and rejections -/

/-- `Match` -/
structure Match (E : Type) where
  cluster : ℤ
  proc : ℤ
  claimID : String
  extraClaims : String
  slotName : String
  matchAd : Ad E

omit [ClassAdLib E] in
def Match.key (m : Match E) : JobKey := ⟨m.cluster, m.proc⟩

/-- the claim id and, after the first blank, the extra claims -/
def splitClaims (claimBlob : String) : String × String :=
  match claimBlob.toList.span (· ≠ ' ') with
  | (_, []) => (claimBlob, "")
  | (claim, _ :: extra) => (String.ofList claim, String.ofList (Text.trimSpace extra))

/-- the body of a `PERMISSION_AND_AD` -/
def readMatch (claimBlob : String) (matchAd : Ad E) : Match E where
  cluster := (matchAd.evaluateAttrInt (canon E "_condor_RESOURCE_CLUSTER")).getD (-1)
  proc := (matchAd.evaluateAttrInt (canon E "_condor_RESOURCE_PROC")).getD (-1)
  claimID := (splitClaims claimBlob).1
  extraClaims := (splitClaims claimBlob).2
  slotName := (matchAd.evaluateAttrString (canon E "Name")).getD ""
  matchAd := matchAd

/-- the representative named in a reason `text |autocluster|cluster.proc|` -/
def parseRejectRep (reason : String) : Option JobKey :=
  match Text.splitAt '|' reason.toList with
  | _ :: _ :: jid :: _ =>
    match (Text.trimSpace jid).span (· ≠ '.') with
    | (_, []) => none
    | (c, _ :: p) =>
      match Text.atoi c, Text.atoi p with
      | some c, some p => some ⟨c, p⟩
      | _, _ => none
  | _ => none

/-- the reason without the suffix, for the log -/
def trimReason (reason : String) : String :=
  if '|' ∈ reason.toList then String.ofList (Text.trimSpace (reason.toList.takeWhile (· ≠ '|'))) else reason

/-- the text of a rejection: a free reason, the autocluster and the representative -/
def rejectionText (reason : String) (autocluster : ℤ) (rep : JobKey) : String :=
  reason ++ " |" ++ toString autocluster ++ "|" ++ toString rep.cluster ++ "." ++ toString rep.proc ++ "|"

/-- both ids are numbers of the host language -/
def InRange (k : JobKey) : Prop := (-2 ^ 63 ≤ k.cluster ∧ k.cluster < 2 ^ 63) ∧ -2 ^ 63 ≤ k.proc ∧ k.proc < 2 ^ 63

instance (k : JobKey) : Decidable (InRange k) := inferInstanceAs (Decidable (_ ∧ _))

theorem not_mem_numeral {c : Char} (hc : c.isDigit = false) (hsign : c ≠ '-') (n : ℤ) : c ∉ (toString n).toList := by
  intro hmem
  rcases numeral_chars n c hmem with h | h
  · rw [hc] at h
    cases h
  · exact hsign h

theorem rejectionText_toList (reason : String) (autocluster : ℤ) (rep : JobKey) :
    (rejectionText reason autocluster rep).toList =
      (reason.toList ++ [' ']) ++ '|' :: ((toString autocluster).toList ++ '|' ::
        (((toString rep.cluster).toList ++ '.' :: (toString rep.proc).toList) ++ '|' :: [])) := by
  simp [rejectionText, String.toList_append]

variable {rep : JobKey} {reason : String}

/-- a reason without the separator leaves the representative to be read -/
theorem parseRejectRep_text (hreason : '|' ∉ reason.toList) (autocluster : ℤ)
    (hrep : InRange rep) : parseRejectRep (rejectionText reason autocluster rep) = some rep := by
  have hbar : ∀ n : ℤ, '|' ∉ (toString n).toList := not_mem_numeral (by decide) (by decide)
  have hdot : ∀ n : ℤ, '.' ∉ (toString n).toList := not_mem_numeral (by decide) (by decide)
  have hjid : '|' ∉ (toString rep.cluster).toList ++ '.' :: (toString rep.proc).toList := by
    intro h
    rcases mem_append.1 h with h | h
    · exact hbar _ h
    · rcases mem_cons.1 h with h | h
      · exact absurd h (by decide)
      · exact hbar _ h
  have hsplit : splitAt '|' (rejectionText reason autocluster rep).toList =
      [reason.toList ++ [' '], (toString autocluster).toList,
        (toString rep.cluster).toList ++ '.' :: (toString rep.proc).toList, []] := by
    rw [rejectionText_toList, splitAt_append (by simpa using hreason), splitAt_append (hbar _),
      splitAt_append hjid]
    rfl
  have hplain : Text.Plain ((toString rep.cluster).toList ++ '.' :: (toString rep.proc).toList) := by
    intro c hc
    simp only [mem_append, mem_cons] at hc
    rcases hc with hc | rfl | hc
    · exact numeral_plain _ c hc
    · decide
    · exact numeral_plain _ c hc
  have hspan := takeWhile_ne_append (hdot rep.cluster) (toString rep.proc).toList
  simp only [parseRejectRep, hsplit, trimSpace_plain hplain, span_eq_takeWhile_dropWhile, hspan.1, hspan.2,
    atoi_toString hrep.1.1 hrep.1.2, atoi_toString hrep.2.1 hrep.2.2]

/-- a reason is logged without its trailing white space exactly when it holds no separator and has no white space in
front, or nothing else -/
theorem trimReason_iff (reason : String) (autocluster : ℤ) (rep : JobKey) :
    trimReason (rejectionText reason autocluster rep) = String.ofList (Text.trimRight Text.isSpace reason.toList) ↔
      '|' ∉ reason.toList ∧ (Text.Blank reason.toList ∨ ∀ c ∈ reason.toList.head?, Text.isSpace c = false) := by
  have hmem : '|' ∈ (rejectionText reason autocluster rep).toList := by simp [rejectionText_toList]
  rw [trimReason, if_pos hmem, String.ofList_inj]
  by_cases hbar : '|' ∈ reason.toList
  · -- what is logged ends before the first separator
    simp only [hbar, not_true, false_and, iff_false]
    intro heq
    have hin : '|' ∈ trimRight isSpace reason.toList := mem_trimRight_of hbar (by decide)
    rw [← heq] at hin
    have htake := mem_takeWhile_imp (mem_of_mem_trimSpace hin)
    exact absurd rfl (of_decide_eq_true htake)
  · have htake : (rejectionText reason autocluster rep).toList.takeWhile (· ≠ '|') = reason.toList ++ [' '] := by
      rw [rejectionText_toList]
      exact (takeWhile_ne_append (by simpa using hbar) _).1
    have hblank : isSpace ' ' = true := by decide
    have hright : trimRight isSpace (reason.toList ++ [' ']) = trimRight isSpace reason.toList := by
      simp [trimRight, hblank]
    rw [htake, ← hright, trimSpace_eq_trimRight_iff, and_iff_right hbar]
    cases reason.toList <;> simp [Text.Blank, or_imp, forall_and, hblank]

/-! ## The round -/

structure GroupState where
  rep : JobKey
  acid : ℕ
  ids : List JobKey
  assignIdx : ℕ
  rejected : Bool
deriving DecidableEq, Repr

/-- a message to the negotiator -/
inductive Sent (E : Type) where
  | jobInfo (ad : Ad E)
  | noMoreJobs

/-- a match handed to the core, with the representative it named and the queue as the assignment found its job -/
structure Forwarded (E : Type) where
  echoed : JobKey
  m : Match E
  found : Option (Store E)

structure Round (E : Type) where
  owner : String
  projection : List String
  /-- the groups still to offer; none before the first is asked for -/
  cursor : Option (List (RequestGroup E))
  byRep : KeyMap JobKey GroupState
  /-- the representative of the group offered last -/
  last : Option JobKey
  sent : List (Sent E)
  offered : List (RequestGroup E)
  matched : ℕ
  forwarded : List (Forwarded E)

/-- the round of a header; none when it names no submitter -/
def Round.start (header : Ad E) : Option (Round E) :=
  match header.evaluateAttrString .owner with
  | some owner => if owner = "" then none else some ⟨owner, buildProjection header, none, ∅, none, [], [], 0, []⟩
  | none => none

namespace Round

variable (lib : RequestLib E)

/-- `next`: the snapshot is taken with the first call -/
def next (s : Store E) (r : Round E) : Option (RequestGroup E) × Round E :=
  match r.cursor.getD (idleRequestGroups lib s r.owner r.projection) with
  | [] => (none, { r with cursor := some [] })
  | g :: gs => (some g, { r with cursor := some gs })

def sendGroup (g : RequestGroup E) (r : Round E) : Round E :=
  let acid := g.checksum % 2 ^ 31
  { r with
    byRep := r.byRep.insert g.first ⟨g.first, acid, g.jobIDs, 0, false⟩
    last := some g.first
    sent := r.sent ++ [.jobInfo (buildRequestAd g.rep g.first g.jobIDs.length acid)]
    offered := r.offered ++ [g] }

def sendRequests (s : Store E) : ℕ → Round E → Round E
  | 0, r => r
  | n + 1, r =>
    match r.next lib s with
    | (none, r) => { r with sent := r.sent ++ [.noMoreJobs] }
    | (some g, r) => sendRequests s n (r.sendGroup g)

end Round

/-- `JobStatus` -/
def statusIn (s : Store E) (id : JobKey) : ℤ :=
  match s.get id with
  | none => 0
  | some ad => ad.int0 .jobStatus

/-- the loop of `nextIdle` over the jobs not yet looked at, the `i`-th of which is read next: how many it looks at, and
the job it finds with the queue at that moment -/
def nextFrom (view : ℕ → Store E) (i : ℕ) : List JobKey → ℕ × Option (JobKey × Store E)
  | [] => (0, none)
  | id :: ids =>
    if statusIn (view i) id = statusIdle then (1, some (id, view i))
    else
      let r := nextFrom view (i + 1) ids
      (r.1 + 1, r.2)

/-- `nextIdle` -/
def GroupState.nextIdle (view : ℕ → Store E) (gs : GroupState) : GroupState × Option (JobKey × Store E) :=
  if gs.rejected then (gs, none)
  else
    let r := nextFrom view 0 (gs.ids.drop gs.assignIdx)
    ({ gs with assignIdx := gs.assignIdx + r.1 }, r.2)

namespace Round

/-- the end of `handleMatch`: the match goes to the core -/
def hand (echoed : JobKey) (m : Match E) (found : Option (Store E)) (r : Round E) : Round E :=
  { r with
    matched := if 0 ≤ m.cluster then r.matched + 1 else r.matched
    forwarded := r.forwarded ++ [⟨echoed, m, found⟩] }

def handleMatch (view : ℕ → Store E) (m : Match E) (r : Round E) : Round E :=
  match r.byRep.lookup m.key with
  | none => r.hand m.key m none
  | some gs =>
    let out := gs.nextIdle view
    let r := { r with byRep := r.byRep.insert m.key out.1 }
    match out.2 with
    -- the core releases the claim of a match without a job
    | none => r.hand m.key { m with cluster := -1, proc := -1 } none
    | some (job, s) => r.hand m.key { m with cluster := job.cluster, proc := job.proc } (some s)

omit [ClassAdLib E] in
/-- the group a rejection is about: the one its reason names, else the one offered last -/
def rejectTarget (r : Round E) (reason : String) : Option JobKey :=
  match parseRejectRep reason with
  | some rep => if rep ∈ r.byRep then some rep else r.last
  | none => r.last

omit [ClassAdLib E] in
def handleReject (reason : String) (r : Round E) : Round E :=
  match r.rejectTarget reason with
  | none => r
  | some rep =>
    match r.byRep.lookup rep with
    | none => r
    | some gs => { r with byRep := r.byRep.insert rep { gs with rejected := true } }

end Round

/-- the opcodes within a round -/
inductive Opcode (E : Type) where
  | sendJobInfo
  | sendResourceRequestList (n : ℤ)
  | permissionAndAd (claimBlob : String) (matchAd : Ad E)
  | rejected
  | rejectedWithReason (reason : String)

/-- the representative a match names -/
def Opcode.echo : Opcode E → Option JobKey
  | .permissionAndAd claimBlob matchAd => some (readMatch claimBlob matchAd).key
  | _ => none

/-- one opcode, with the queue at each of the reads it makes -/
def Round.step (lib : RequestLib E) (r : Round E) (d : Opcode E × (ℕ → Store E)) : Round E :=
  match d.1 with
  | .sendJobInfo => r.sendRequests lib (d.2 0) 1
  | .sendResourceRequestList n => r.sendRequests lib (d.2 0) n.toNat
  | .permissionAndAd claimBlob matchAd => r.handleMatch d.2 (readMatch claimBlob matchAd)
  | .rejected => r.handleReject ""
  | .rejectedWithReason reason => r.handleReject reason

variable {lib : RequestLib E}

/-! ## Looking for an idle job -/

variable (view : ℕ → Store E)

/-- the search passes over some jobs and stops at an idle one, or passes over all -/
theorem nextFrom_spec (i : ℕ) (ids : List JobKey) :
    match nextFrom view i ids with
    | (n, none) => n = ids.length
    | (n, some (id, s)) => (∃ pre post, ids = pre ++ id :: post ∧ n = pre.length + 1) ∧ (∃ j, s = view j) ∧
        statusIn s id = statusIdle := by
  induction ids generalizing i with
  | nil => rfl
  | cons id ids ih =>
    by_cases hidle : statusIn (view i) id = statusIdle
    · simp only [nextFrom, if_pos hidle]
      exact ⟨⟨[], ids, rfl, rfl⟩, ⟨i, rfl⟩, hidle⟩
    · simp only [nextFrom, if_neg hidle]
      have hrest := ih (i + 1)
      rcases hr : nextFrom view (i + 1) ids with ⟨_, _ | ⟨_, _⟩⟩
      · rw [hr] at hrest
        simpa using hrest
      · rw [hr] at hrest
        obtain ⟨⟨pre, post, hids, hn⟩, hview, hjob⟩ := hrest
        exact ⟨⟨id :: pre, post, by simp [hids], by simp [hn]⟩, hview, hjob⟩

/-- what `nextIdle` leaves of a group -/
structure Advances (gs gs' : GroupState) (out : Option (JobKey × Store E)) : Prop where
  ids : gs'.ids = gs.ids
  rejected : gs'.rejected = gs.rejected
  stops : gs.rejected = true → out = none
  /-- the job found comes after those looked at before -/
  takes : ((gs.ids.take gs.assignIdx) ++ out.toList.map Prod.fst).Sublist (gs.ids.take gs'.assignIdx)
  idle : ∀ id s, out = some (id, s) → statusIn s id = statusIdle

theorem nextIdle_advances (gs : GroupState) : Advances gs (gs.nextIdle view).1 (gs.nextIdle view).2 := by
  unfold GroupState.nextIdle
  split_ifs with hrej
  · exact ⟨rfl, rfl, fun _ => rfl, by simp, fun _ _ h => nomatch h⟩
  · have hspec := nextFrom_spec view 0 (gs.ids.drop gs.assignIdx)
    rcases hr : nextFrom view 0 (gs.ids.drop gs.assignIdx) with ⟨_, _ | ⟨job, _⟩⟩
    · refine ⟨rfl, rfl, fun h => absurd h hrej, ?_, fun _ _ h => nomatch h⟩
      simp [take_add]
    · rw [hr] at hspec
      obtain ⟨⟨pre, post, hids, rfl⟩, -, hidle⟩ := hspec
      refine ⟨rfl, rfl, fun h => absurd h hrej, ?_, ?_⟩
      · have htake : (pre ++ job :: post).take (pre.length + 1) = pre ++ [job] := by simp [take_append]
        simp only [take_add, hids, htake]
        simp
      · rintro _ _ ⟨⟩
        exact hidle

/-! ## What is forwarded -/

/-- the id of a match without a job -/
def noJob : JobKey := ⟨-1, -1⟩

namespace Round

variable {r : Round E}

omit [ClassAdLib E] in
/-- the jobs forwarded -/
def given (r : Round E) : List JobKey := (r.forwarded.map (·.m.key)).filter (· ≠ noJob)

omit [ClassAdLib E] in
/-- the jobs forwarded for the group of a representative -/
def givenFor (r : Round E) (rep : JobKey) : List JobKey :=
  ((r.forwarded.filter (·.echoed = rep)).map (·.m.key)).filter (· ≠ noJob)

omit [ClassAdLib E] in
/-- the jobs of the groups offered and of those still to come -/
def covered (r : Round E) : List JobKey := (r.offered ++ r.cursor.getD []).flatMap RequestGroup.jobIDs

/-- what holds throughout a round -/
structure Sound (r : Round E) : Prop where
  unopened : r.cursor = none → r.offered = []
  distinct : r.covered.Nodup
  procs : ∀ id ∈ r.covered, 0 ≤ id.proc
  /-- the index holds the offered groups -/
  indexed : ∀ rep gs, r.byRep.lookup rep = some gs → ∃ g ∈ r.offered, g.first = rep ∧ gs.ids = g.jobIDs
  offers : ∀ g ∈ r.offered, g.first ∈ r.byRep
  latest : ∀ rep, r.last = some rep → rep ∈ r.byRep
  echoes : ∀ f ∈ r.forwarded, f.echoed ∈ r.byRep
  /-- the jobs given out for a group are among those its cursor has passed, in their order -/
  ordered : ∀ rep gs, r.byRep.lookup rep = some gs → (r.givenFor rep).Sublist (gs.ids.take gs.assignIdx)
  given_nodup : r.given.Nodup
  surplus : ∀ f ∈ r.forwarded, f.found = none → f.m.key = noJob
  idle : ∀ f ∈ r.forwarded, ∀ s, f.found = some s → statusIn s f.m.key = statusIdle

theorem start_eq {header : Ad E} (h : Round.start header = some r) :
    r = ⟨r.owner, r.projection, none, ∅, none, [], [], 0, []⟩ := by
  unfold Round.start at h
  split at h
  · split_ifs at h
    injection h with h
    rw [← h]
  · exact nomatch h

namespace Sound

theorem start {header : Ad E} (h : Round.start header = some r) : Sound r := by
  rw [start_eq h]
  constructor <;> simp [covered, givenFor, given]

/-- offered groups do not overlap -/
theorem same_group (hr : Sound r) {g g' : RequestGroup E} (hg : g ∈ r.offered) (hg' : g' ∈ r.offered) {id : JobKey}
    (hid : id ∈ g.jobIDs) (hid' : id ∈ g'.jobIDs) : g = g' := by
  by_contra hne
  have hnodup : (r.offered.flatMap RequestGroup.jobIDs).Nodup := by
    have hd := hr.distinct
    rw [covered, flatMap_append] at hd
    exact hd.of_append_left
  have hpair := (nodup_flatMap.1 hnodup).2
  have : Std.Symm (Function.onFun List.Disjoint (RequestGroup.jobIDs : RequestGroup E → _)) := ⟨fun _ _ h => h.symm⟩
  exact hpair.forall hg hg' hne hid hid'

/-- a group still to come has a representative that none of the offered ones has -/
theorem fresh (hr : Sound r) {g : RequestGroup E} {gs : List (RequestGroup E)} (hc : r.cursor = some (g :: gs)) :
    g.first ∉ r.byRep := by
  intro hmem
  obtain ⟨_, hst⟩ := (mem_iff_lookup _ _).1 hmem
  obtain ⟨g', hg', hfirst, -⟩ := hr.indexed _ _ hst
  have hd := hr.distinct
  rw [covered, hc, flatMap_append] at hd
  refine disjoint_of_nodup_append hd (mem_flatMap.2 ⟨g', hg', ?_⟩) (mem_flatMap.2 ⟨g, by simp, ?_⟩)
    (a := g.first)
  · rw [← hfirst]
    exact mem_cons_self
  · exact mem_cons_self

/-- the snapshot is taken -/
theorem opened (hr : Sound r) {s : Store E} (hs : s.Keyed) :
    Sound { r with cursor := some (r.cursor.getD (idleRequestGroups lib s r.owner r.projection)) } := by
  cases hc : r.cursor with
  | some gs =>
    have heq : { r with cursor := some gs } = r := by rw [← hc]
    simpa [heq] using hr
  | none =>
    have hoff := hr.unopened hc
    refine { hr with
      unopened := fun h => (nomatch h)
      distinct := ?_
      procs := ?_ }
    · simpa [covered, hoff] using idleRequestGroups_nodup hs r.owner r.projection
    · intro id hid
      exact idleRequestGroups_proc hs (by simpa [covered, hoff] using hid)

theorem sends (hr : Sound r) {g : RequestGroup E} {gs : List (RequestGroup E)} (hc : r.cursor = some (g :: gs)) :
    Sound ({ r with cursor := some gs }.sendGroup g) := by
  have hfresh := hr.fresh hc
  have hcov : ({ r with cursor := some gs }.sendGroup g).covered = r.covered := by simp [covered, sendGroup, hc]
  have hmem : ∀ {k}, k ∈ r.byRep → k ∈ ({ r with cursor := some gs }.sendGroup g).byRep :=
    fun hk => (AList.mem_insert _).2 (.inr hk)
  refine
    { unopened := fun h => (nomatch h)
      distinct := hcov ▸ hr.distinct
      procs := hcov ▸ hr.procs
      indexed := ?_
      offers := ?_
      latest := ?_
      echoes := fun f hf => hmem (hr.echoes f hf)
      ordered := ?_
      given_nodup := hr.given_nodup
      surplus := hr.surplus
      idle := hr.idle }
  · intro rep st hst
    simp only [sendGroup, lookup_insert_ite] at hst
    split_ifs at hst with hrep
    · injection hst with hst
      exact ⟨g, by simp [sendGroup], hrep.symm, by rw [← hst]⟩
    · obtain ⟨g', hg', hfirst, hids⟩ := hr.indexed rep st hst
      exact ⟨g', by simp [sendGroup, hg'], hfirst, hids⟩
  · intro g' hg'
    rcases mem_append.1 hg' with hg' | hg'
    · exact hmem (hr.offers g' hg')
    · rw [mem_singleton.1 hg']
      exact (AList.mem_insert _).2 (.inl rfl)
  · rintro rep ⟨⟩
    exact (AList.mem_insert _).2 (.inl rfl)
  · intro rep st hst
    simp only [sendGroup, lookup_insert_ite] at hst
    split_ifs at hst with hrep
    · -- nothing was forwarded for a representative not yet offered
      have hnone : r.givenFor rep = [] := by
        have hempty : r.forwarded.filter (·.echoed = rep) = [] := by
          refine filter_eq_nil_iff.2 fun f hf hecho => hfresh ?_
          rw [← hrep, ← of_decide_eq_true hecho]
          exact hr.echoes f hf
        simp [givenFor, hempty]
      have hsame : ({ r with cursor := some gs }.sendGroup g).givenFor rep = r.givenFor rep := rfl
      rw [hsame, hnone]
      exact nil_sublist _
    · exact hr.ordered rep st hst

variable {gs gs' : GroupState}

/-- a group's record is replaced by one with the same jobs whose cursor stands no earlier -/
theorem reindex (hr : Sound r) (hgs : r.byRep.lookup rep = some gs)
    (hids : gs'.ids = gs.ids) (htake : (gs.ids.take gs.assignIdx).Sublist (gs'.ids.take gs'.assignIdx)) :
    Sound { r with byRep := r.byRep.insert rep gs' } := by
  have hmem : ∀ {k}, k ∈ r.byRep → k ∈ r.byRep.insert rep gs' := fun hk => (AList.mem_insert _).2 (.inr hk)
  refine { hr with
    indexed := ?_
    offers := fun g hg => hmem (hr.offers g hg)
    latest := fun k hk => hmem (hr.latest k hk)
    echoes := fun f hf => hmem (hr.echoes f hf)
    ordered := ?_ }
  · intro k st hst
    simp only [lookup_insert_ite] at hst
    split_ifs at hst with hk
    · injection hst with hst
      subst hk hst
      rw [hids]
      exact hr.indexed k gs hgs
    · exact hr.indexed k st hst
  · intro k st hst
    simp only [lookup_insert_ite] at hst
    split_ifs at hst with hk
    · injection hst with hst
      subst hk hst
      exact (hr.ordered k gs hgs).trans htake
    · exact hr.ordered k st hst

/-- a job just found was given to no match before -/
theorem not_given (hr : Sound r) (hgs : r.byRep.lookup rep = some gs) {id : JobKey}
    {s : Store E} (ha : Advances gs gs' (some (id, s))) : id ∉ r.given := by
  intro hmem
  obtain ⟨hmem, hne⟩ := mem_filter.1 hmem
  obtain ⟨f, hf, hkey⟩ := mem_map.1 hmem
  obtain ⟨gs₁, hgs₁⟩ := (mem_iff_lookup _ _).1 (hr.echoes f hf)
  have hfor : id ∈ r.givenFor f.echoed := by
    refine mem_filter.2 ⟨mem_map.2 ⟨f, mem_filter.2 ⟨hf, by simp⟩, hkey⟩, hne⟩
  obtain ⟨g, hg, hfirst, hids⟩ := hr.indexed rep gs hgs
  obtain ⟨g₁, hg₁, hfirst₁, hids₁⟩ := hr.indexed _ gs₁ hgs₁
  have hin₁ : id ∈ g₁.jobIDs := hids₁ ▸ mem_of_mem_take ((hr.ordered _ gs₁ hgs₁).subset hfor)
  have hin : id ∈ g.jobIDs := hids ▸ mem_of_mem_take (ha.takes.subset (by simp))
  -- the earlier match named the same group, whose cursor has then passed the job
  have hsame : f.echoed = rep := by rw [← hfirst₁, ← hfirst, hr.same_group hg₁ hg hin₁ hin]
  rw [hsame] at hfor
  have hnodup : (gs.ids.take gs'.assignIdx).Nodup := by
    have hd := hr.distinct
    rw [covered, flatMap_append] at hd
    rw [hids]
    exact ((nodup_flatMap.1 hd.of_append_left).1 g hg).sublist (take_sublist _ _)
  have htwice := ha.takes.nodup hnodup
  exact disjoint_of_nodup_append htwice ((hr.ordered rep gs hgs).subset hfor) (by simp)

/-- a match of an offered group is handed on -/
theorem hands (hr : Sound r) (hgs : r.byRep.lookup rep = some gs)
    {out : Option (JobKey × Store E)} (ha : Advances gs gs' out) {m : Match E}
    (hm : m.key = (out.map Prod.fst).getD noJob) :
    Sound ({ r with byRep := r.byRep.insert rep gs' }.hand rep m (out.map Prod.snd)) := by
  have hnew : ∀ id s, out = some (id, s) → id ≠ noJob := by
    rintro id s rfl rfl
    obtain ⟨g, hg, -, hids⟩ := hr.indexed rep gs hgs
    have hin : noJob ∈ g.jobIDs := hids ▸ mem_of_mem_take (ha.takes.subset (by simp))
    exact absurd (hr.procs noJob (mem_flatMap.2 ⟨g, mem_append_left _ hg, hin⟩)) (by decide)
  have hlast : ([m.key].filter (· ≠ noJob)) = out.toList.map Prod.fst := by
    rw [hm]
    rcases out with _ | ⟨id, s⟩
    · simp
    · simp [hnew id s rfl]
  have htake : (gs.ids.take gs.assignIdx).Sublist (gs'.ids.take gs'.assignIdx) := by
    rw [ha.ids]
    exact (sublist_append_left _ _).trans ha.takes
  have hre := hr.reindex hgs ha.ids htake
  have hrep : rep ∈ r.byRep.insert rep gs' := (AList.mem_insert _).2 (.inl rfl)
  refine { hre with
    echoes := ?_
    ordered := ?_
    given_nodup := ?_
    surplus := ?_
    idle := ?_ }
  · intro f hf
    rcases mem_append.1 hf with hf | hf
    · exact hre.echoes f hf
    · rw [mem_singleton.1 hf]
      exact hrep
  · intro k st hst
    have hst' : (r.byRep.insert rep gs').lookup k = some st := hst
    by_cases hk : k = rep
    · subst hk
      rw [lookup_insert_ite, if_pos rfl] at hst'
      injection hst' with hst'
      subst hst'
      have hgiven : ({ r with byRep := r.byRep.insert k gs' }.hand k m (out.map Prod.snd)).givenFor k =
          r.givenFor k ++ out.toList.map Prod.fst := by
        rw [← hlast]
        simp [givenFor, hand]
      rw [hgiven, ha.ids]
      exact ((hr.ordered k gs hgs).append_right _).trans ha.takes
    · have hgiven : ({ r with byRep := r.byRep.insert rep gs' }.hand rep m (out.map Prod.snd)).givenFor k =
        r.givenFor k := by
        simp [givenFor, hand, Ne.symm hk]
      rw [hgiven]
      exact hre.ordered k st hst
  · have hgiven : ({ r with byRep := r.byRep.insert rep gs' }.hand rep m (out.map Prod.snd)).given =
        r.given ++ out.toList.map Prod.fst := by
      rw [← hlast]
      simp [given, hand]
    rw [hgiven]
    rcases out with _ | ⟨id, s⟩
    · simpa using hr.given_nodup
    · refine nodup_append.2 ⟨hr.given_nodup, by simp, ?_⟩
      rintro a hin b hb rfl
      rw [mem_singleton.1 hb] at hin
      exact hr.not_given hgs ha hin
  · intro f hf hfound
    rcases mem_append.1 hf with hf | hf
    · exact hr.surplus f hf hfound
    · rw [mem_singleton.1 hf] at hfound ⊢
      rw [Option.map_eq_none_iff] at hfound
      simpa [hfound] using hm
  · intro f hf s hfound
    rcases mem_append.1 hf with hf | hf
    · exact hr.idle f hf s hfound
    · rw [mem_singleton.1 hf] at hfound ⊢
      obtain ⟨⟨id, _⟩, rfl, rfl⟩ := Option.map_eq_some_iff.1 hfound
      have hkey : m.key = id := hm
      rw [hkey]
      exact ha.idle id _ rfl

end Sound

variable {gs : GroupState}

theorem handleMatch_indexed {m : Match E} (hgs : r.byRep.lookup m.key = some gs) :
    let job := ((gs.nextIdle view).2.map Prod.fst).getD noJob
    r.handleMatch view m = { r with byRep := r.byRep.insert m.key (gs.nextIdle view).1 }.hand m.key
      { m with cluster := job.cluster, proc := job.proc } ((gs.nextIdle view).2.map Prod.snd) := by
  unfold handleMatch
  simp only [hgs]
  rcases (gs.nextIdle view).2 with _ | ⟨id, s⟩ <;> rfl

/-- what sending requests preserves: the snapshot, each group sent, and the end of the list -/
theorem sendRequests_inv {P : Round E → Prop} {s : Store E}
    (hopen : ∀ r, P r → P { r with cursor := some (r.cursor.getD (idleRequestGroups lib s r.owner r.projection)) })
    (hsend : ∀ r g gs, P r → r.cursor = some (g :: gs) → P ({ r with cursor := some gs }.sendGroup g))
    (hend : ∀ r, P r → P { r with sent := r.sent ++ [.noMoreJobs] }) (n : ℕ) {r : Round E} (hr : P r) :
    P (r.sendRequests lib s n) := by
  induction n generalizing r with
  | zero => exact hr
  | succ n ih =>
    have hopened := hopen r hr
    unfold sendRequests next
    cases hgs : r.cursor.getD (idleRequestGroups lib s r.owner r.projection) with
    | nil =>
      rw [hgs] at hopened
      exact hend _ hopened
    | cons g gs =>
      rw [hgs] at hopened
      exact ih (hsend { r with cursor := some (g :: gs) } g gs hopened rfl)

/-! ## The run of a round -/

/-- the queue is keyed, and a match names the representative of an offered group -/
def Fair (r : Round E) (d : Opcode E × (ℕ → Store E)) : Prop :=
  (d.2 0).Keyed ∧ ∀ rep ∈ d.1.echo, rep ∈ r.offered.map RequestGroup.first

/-- the opcode rejects the group of a representative: the one its reason names, or the one offered last -/
inductive Rejects (r : Round E) : Opcode E → JobKey → Prop
  | last {rep : JobKey} (hlast : r.last = some rep) : Rejects r .rejected rep
  | unnamed {rep : JobKey} {reason : String} (hreason : '|' ∉ reason.toList) (hlast : r.last = some rep) :
      Rejects r (.rejectedWithReason reason) rep
  | named {rep : JobKey} {reason : String} {autocluster : ℤ} (hreason : '|' ∉ reason.toList) (hrep : InRange rep)
      (hoffered : rep ∈ r.offered.map RequestGroup.first) :
      Rejects r (.rejectedWithReason (rejectionText reason autocluster rep)) rep

omit [ClassAdLib E] in
theorem rejectTarget_unnamed (hreason : '|' ∉ reason.toList) (hlast : r.last = some rep) :
    r.rejectTarget reason = some rep := by
  have hparse : parseRejectRep reason = none := by
    simp only [parseRejectRep, splitAt_whole hreason]
  simp only [rejectTarget, hparse, hlast]

omit [ClassAdLib E] in
theorem rejectTarget_named (hreason : '|' ∉ reason.toList) {autocluster : ℤ}
    (hrep : InRange rep) (hmem : rep ∈ r.byRep) : r.rejectTarget (rejectionText reason autocluster rep) = some rep := by
  simp only [rejectTarget, parseRejectRep_text hreason autocluster hrep, if_pos hmem]

omit [ClassAdLib E] in
theorem handleReject_target (htarget : r.rejectTarget reason = some rep) (hgs : r.byRep.lookup rep = some gs) :
    r.handleReject reason = { r with byRep := r.byRep.insert rep { gs with rejected := true } } := by
  simp only [handleReject, htarget, hgs]

omit [ClassAdLib E] in
theorem rejectTarget_indexed (hlast : ∀ rep, r.last = some rep → rep ∈ r.byRep)
    (h : r.rejectTarget reason = some rep) : rep ∈ r.byRep := by
  unfold rejectTarget at h
  split at h
  · split_ifs at h with hmem
    · injection h with h
      exact h ▸ hmem
    · exact hlast rep h
  · exact hlast rep h

omit [ClassAdLib E] in
/-- a rejection marks one group or does nothing -/
theorem handleReject_cases (r : Round E) (reason : String) :
    r.handleReject reason = r ∨ ∃ rep gs, r.byRep.lookup rep = some gs ∧
      r.handleReject reason = { r with byRep := r.byRep.insert rep { gs with rejected := true } } := by
  cases htarget : r.rejectTarget reason with
  | none => exact .inl (by simp only [handleReject, htarget])
  | some rep =>
    cases hgs : r.byRep.lookup rep with
    | none => exact .inl (by simp only [handleReject, htarget, hgs])
    | some gs => exact .inr ⟨rep, gs, hgs, handleReject_target htarget hgs⟩

/-- a match of an offered group goes to the next idle job of the group, or to none -/
theorem Sound.permission (hr : Sound r) {claimBlob : String} {matchAd : Ad E} {view : ℕ → Store E}
    (hd : r.Fair (.permissionAndAd claimBlob matchAd, view)) :
    ∃ gs job, r.byRep.lookup (readMatch claimBlob matchAd).key = some gs ∧
      job = ((gs.nextIdle view).2.map Prod.fst).getD noJob ∧
      r.step lib (.permissionAndAd claimBlob matchAd, view) =
        { r with byRep := r.byRep.insert (readMatch claimBlob matchAd).key (gs.nextIdle view).1 }.hand
          (readMatch claimBlob matchAd).key
          { readMatch claimBlob matchAd with cluster := job.cluster, proc := job.proc }
          ((gs.nextIdle view).2.map Prod.snd) := by
  obtain ⟨g, hg, hkey⟩ := mem_map.1 (hd.2 _ rfl)
  obtain ⟨gs, hgs⟩ := (mem_iff_lookup _ _).1 (hkey ▸ hr.offers g hg)
  exact ⟨gs, _, hgs, rfl, handleMatch_indexed view hgs⟩

theorem Sound.rejects (hr : Sound r) (reason : String) : Sound (r.handleReject reason) := by
  rcases r.handleReject_cases reason with heq | ⟨rep, gs, hgs, heq⟩
  · rw [heq]
    exact hr
  · rw [heq]
    exact hr.reindex hgs rfl (List.Sublist.refl _)

variable {d : Opcode E × (ℕ → Store E)}

theorem Sound.step (hr : Sound r) (hd : r.Fair d) : Sound (r.step lib d) := by
  obtain ⟨op, view⟩ := d
  have hsend : ∀ n, Sound (r.sendRequests lib (view 0) n) := fun n =>
    sendRequests_inv (fun _ h => h.opened hd.1) (fun _ _ _ h hc => h.sends hc) (fun _ h => { h with }) n hr
  cases op with
  | sendJobInfo => exact hsend 1
  | sendResourceRequestList n => exact hsend n.toNat
  | rejected => exact hr.rejects ""
  | rejectedWithReason reason => exact hr.rejects reason
  | permissionAndAd =>
    obtain ⟨gs, _, hgs, hjob, heq⟩ := hr.permission hd
    rw [heq]
    exact hr.hands hgs (nextIdle_advances view gs) hjob

/-- the group of a representative is rejected, and what was forwarded since gives it no job -/
structure Barred (rep : JobKey) (before : ℕ) (r : Round E) : Prop where
  rejected : ∃ gs, r.byRep.lookup rep = some gs ∧ gs.rejected = true
  forwarded : before ≤ r.forwarded.length
  nothing : ∀ f ∈ r.forwarded.drop before, f.echoed = rep → f.m.key = noJob

variable {before : ℕ}

omit [ClassAdLib E] in
theorem Barred.rejects (h : Barred rep before r) (reason : String) : Barred rep before (r.handleReject reason) := by
  rcases r.handleReject_cases reason with heq | ⟨rep', gs, hgs, heq⟩
  · rw [heq]
    exact h
  · rw [heq]
    refine { h with rejected := ?_ }
    by_cases hrep : rep = rep'
    · subst hrep
      exact ⟨_, AList.lookup_insert _, rfl⟩
    · obtain ⟨gs', hgs', hrej⟩ := h.rejected
      exact ⟨gs', by simpa [hrep] using hgs', hrej⟩

theorem Barred.hands (h : Barred rep before r) {k : JobKey} {gs gs' : GroupState}
    (hgs : r.byRep.lookup k = some gs) {out : Option (JobKey × Store E)} (ha : Advances gs gs' out) {m : Match E}
    (hm : m.key = (out.map Prod.fst).getD noJob) :
    Barred rep before ({ r with byRep := r.byRep.insert k gs' }.hand k m (out.map Prod.snd)) := by
  obtain ⟨st, hst, hrej⟩ := h.rejected
  refine ⟨?_, le_trans h.forwarded (by simp [hand]), ?_⟩
  · by_cases hk : rep = k
    · subst hk
      obtain rfl : st = gs := Option.some.inj (hst.symm.trans hgs)
      exact ⟨gs', AList.lookup_insert _, ha.rejected.trans hrej⟩
    · exact ⟨st, by simp [hand, hk, hst], hrej⟩
  · intro f hf hecho
    have hsplit : ({ r with byRep := r.byRep.insert k gs' }.hand k m (out.map Prod.snd)).forwarded.drop before =
        r.forwarded.drop before ++ [⟨k, m, out.map Prod.snd⟩] := drop_append_of_le_length h.forwarded
    rw [hsplit] at hf
    rcases mem_append.1 hf with hf | hf
    · exact h.nothing f hf hecho
    · obtain rfl := mem_singleton.1 hf
      have hk : k = rep := hecho
      subst hk
      obtain rfl : st = gs := Option.some.inj (hst.symm.trans hgs)
      simpa [ha.stops hrej] using hm

theorem Barred.step (h : Barred rep before r) (hr : Sound r) (hd : r.Fair d) : Barred rep before (r.step lib d) := by
  obtain ⟨op, view⟩ := d
  have hsend : ∀ n, Barred rep before (r.sendRequests lib (view 0) n) := by
    intro n
    have hboth : Sound (r.sendRequests lib (view 0) n) ∧ Barred rep before (r.sendRequests lib (view 0) n) := by
      refine sendRequests_inv (P := fun r => Sound r ∧ Barred rep before r) ?_ ?_ ?_ n ⟨hr, h⟩
      · exact fun _ h => ⟨h.1.opened hd.1, { h.2 with }⟩
      · intro r g gs h hc
        obtain ⟨st, hst, hrej⟩ := h.2.rejected
        -- the new group is not filed under the rejected representative
        have hne : rep ≠ g.first := fun he => h.1.fresh hc (he ▸ (mem_iff_lookup _ _).2 ⟨st, hst⟩)
        exact ⟨h.1.sends hc, ⟨st, by simp [sendGroup, hne, hst], hrej⟩, h.2.forwarded, h.2.nothing⟩
      · exact fun _ h => ⟨{ h.1 with }, { h.2 with }⟩
    exact hboth.2
  cases op with
  | sendJobInfo => exact hsend 1
  | sendResourceRequestList n => exact hsend n.toNat
  | rejected => exact h.rejects ""
  | rejectedWithReason reason => exact h.rejects reason
  | permissionAndAd =>
    obtain ⟨gs, _, hgs, hjob, heq⟩ := hr.permission hd
    rw [heq]
    exact h.hands hgs (nextIdle_advances view gs) hjob

theorem handleReject_bars (hr : Sound r) (htarget : r.rejectTarget reason = some rep) :
    Barred rep r.forwarded.length (r.handleReject reason) := by
  obtain ⟨_, hgs⟩ := (mem_iff_lookup _ _).1 (rejectTarget_indexed hr.latest htarget)
  rw [handleReject_target htarget hgs]
  exact ⟨⟨_, AList.lookup_insert _, rfl⟩, le_refl _, by simp⟩

theorem Rejects.bars (hr : Sound r) (h : r.Rejects d.1 rep) : Barred rep r.forwarded.length (r.step lib d) := by
  obtain ⟨_, _⟩ := d
  cases h with
  | last hlast => exact handleReject_bars hr (rejectTarget_unnamed (by decide) hlast)
  | unnamed hreason hlast => exact handleReject_bars hr (rejectTarget_unnamed hreason hlast)
  | named hreason hrep hoffered =>
    obtain ⟨g, hg, hfirst⟩ := mem_map.1 hoffered
    exact handleReject_bars hr (rejectTarget_named hreason hrep (hfirst ▸ hr.offers g hg))

/-- the entry is what the core receives for a `PERMISSION_AND_AD`: the match as read but for the job, which was found in
the queue at one of the reads made -/
def Answers (f : Forwarded E) (d : Opcode E × (ℕ → Store E)) : Prop :=
  ∃ claimBlob matchAd, d.1 = .permissionAndAd claimBlob matchAd ∧ f.echoed = (readMatch claimBlob matchAd).key ∧
    f.m = { readMatch claimBlob matchAd with cluster := f.m.cluster, proc := f.m.proc } ∧
    ∀ s, f.found = some s → ∃ i, s = d.2 i

theorem nextIdle_view {view : ℕ → Store E} {s : Store E}
    (h : (gs.nextIdle view).2.map Prod.snd = some s) : ∃ i, s = view i := by
  obtain ⟨⟨id, _⟩, hout, rfl⟩ := Option.map_eq_some_iff.1 h
  unfold GroupState.nextIdle at hout
  split_ifs at hout
  have hspec := nextFrom_spec view 0 (gs.ids.drop gs.assignIdx)
  rcases hr : nextFrom view 0 (gs.ids.drop gs.assignIdx) with ⟨_, out⟩
  rw [hr] at hspec hout
  obtain rfl : out = some (id, _) := hout
  exact hspec.2.1

/-- each match is answered once, in turn -/
theorem Sound.answers (hr : Sound r) (hd : r.Fair d) {done : List (Opcode E × (ℕ → Store E))}
    (h : List.Forall₂ Answers r.forwarded (done.filter (·.1.echo.isSome))) :
    List.Forall₂ Answers (r.step lib d).forwarded ((done ++ [d]).filter (·.1.echo.isSome)) := by
  obtain ⟨op, view⟩ := d
  have hsend : ∀ n, (r.sendRequests lib (view 0) n).forwarded = r.forwarded := fun n =>
    sendRequests_inv (P := fun r' => r'.forwarded = r.forwarded) (fun _ h => h) (fun _ _ _ h _ => h) (fun _ h =>
      h) n rfl
  have hreject : ∀ reason, (r.handleReject reason).forwarded = r.forwarded := by
    intro reason
    rcases r.handleReject_cases reason with heq | ⟨_, _, _, heq⟩ <;> rw [heq]
  rw [filter_append]
  cases op with
  | sendJobInfo | sendResourceRequestList => simpa [Round.step, Opcode.echo, hsend] using h
  | rejected | rejectedWithReason => simpa [Round.step, Opcode.echo, hreject] using h
  | permissionAndAd claimBlob matchAd =>
    obtain ⟨_, _, _, _, heq⟩ := hr.permission hd
    rw [heq]
    refine rel_append h (List.Forall₂.cons ?_ List.Forall₂.nil)
    exact ⟨claimBlob, matchAd, rfl, rfl, rfl, fun s hs => nextIdle_view hs⟩

/-- **The assignment of a round.** Whatever the opcodes and whatever happens to the queue meanwhile, with each match
naming the representative of an offered group: no job is forwarded twice; a job forwarded belongs to the group named and
was found Idle; the jobs of a group go out in the group's order, and none after the group was rejected; and each match
is forwarded once, as a match without a job where none was found. -/
theorem round_assignment {header : Ad E} {r₀ : Round E} (h₀ : Round.start header = some r₀)
    {ops : List (Opcode E × (ℕ → Store E))} (hops : Runs.Meets (Round.step lib) Fair r₀ ops) :
    let after := fun ops => foldl (Round.step lib) r₀ ops
    (after ops).given.Nodup ∧
    (∀ f ∈ (after ops).forwarded, f.m.key ≠ noJob →
      (∃ g ∈ (after ops).offered, g.first = f.echoed ∧ f.m.key ∈ g.jobIDs) ∧
      ∃ s, f.found = some s ∧ statusIn s f.m.key = statusIdle) ∧
    (∀ g ∈ (after ops).offered, ((after ops).givenFor g.first).Sublist g.jobIDs) ∧
    (∀ pre d post rep, ops = pre ++ d :: post → (after pre).Rejects d.1 rep →
      ∀ f ∈ (after ops).forwarded.drop (after pre).forwarded.length, f.echoed = rep → f.m.key = noJob) ∧
    List.Forall₂ Answers (after ops).forwarded (ops.filter (·.1.echo.isSome)) ∧
    ∀ f ∈ (after ops).forwarded, f.found = none → f.m.key = noJob := by
  intro after
  have hstart := Sound.start h₀
  have hstep : ∀ r d, Fair r d → Sound r → Sound (Round.step lib r d) := fun _ _ hd hr => hr.step hd
  have hr : Sound (after ops) := Runs.foldl_inv_of hstep hstart hops
  refine ⟨hr.given_nodup, ?_, ?_, ?_, ?_, hr.surplus⟩
  · intro f hf hne
    obtain ⟨gs, hgs⟩ := (mem_iff_lookup _ _).1 (hr.echoes f hf)
    obtain ⟨g, hg, hfirst, hids⟩ := hr.indexed _ gs hgs
    have hfor : f.m.key ∈ (after ops).givenFor f.echoed :=
      mem_filter.2 ⟨mem_map.2 ⟨f, mem_filter.2 ⟨hf, by simp⟩, rfl⟩, by simpa using hne⟩
    refine ⟨⟨g, hg, hfirst, hids ▸ mem_of_mem_take ((hr.ordered _ gs hgs).subset hfor)⟩, ?_⟩
    cases hfound : f.found with
    | none => exact absurd (hr.surplus f hf hfound) hne
    | some s => exact ⟨s, rfl, hr.idle f hf s hfound⟩
  · intro g hg
    obtain ⟨gs, hgs⟩ := (mem_iff_lookup _ _).1 (hr.offers g hg)
    obtain ⟨g', hg', hfirst, hids⟩ := hr.indexed _ gs hgs
    have hin : g.first ∈ g'.jobIDs := hfirst ▸ mem_cons_self
    obtain rfl : g' = g := hr.same_group hg' hg hin mem_cons_self
    rw [← hids]
    exact (hr.ordered _ gs hgs).trans (take_sublist _ _)
  · rintro pre d post rep rfl hrej
    obtain ⟨hpre, hd, hpost⟩ := Runs.meets_append.1 hops
    have hsound := Runs.foldl_inv_of hstep hstart hpre
    have hboth : ∀ r d, Fair r d → Sound r ∧ Barred rep (after pre).forwarded.length r →
        Sound (Round.step lib r d) ∧ Barred rep (after pre).forwarded.length (Round.step lib r d) :=
      fun _ _ hd h => ⟨h.1.step hd, h.2.step h.1 hd⟩
    have hend := (Runs.foldl_inv_of hboth ⟨hsound.step hd, Rejects.bars hsound hrej⟩ hpost).2.nothing
    simpa [after, foldl_append] using hend
  · have hnone : List.Forall₂ Answers r₀.forwarded
      (([] : List (Opcode E × (ℕ → Store E))).filter (·.1.echo.isSome)) := by
      rw [start_eq h₀]
      exact List.Forall₂.nil
    exact (Runs.foldl_history_of
      (P := fun done r => Sound r ∧ List.Forall₂ Answers r.forwarded (done.filter (·.1.echo.isSome)))
      ⟨hstart, hnone⟩ (fun _ _ _ hd h => ⟨h.1.step hd, h.1.answers hd h.2⟩) hops).2

end Round

end

/-! ## Rejections that name their group -/

/-- exactly the group of `rep` is marked, and nothing else of the round changes -/
def Round.MarksOnly (r r' : Round E) (rep : JobKey) (gs : GroupState) : Prop :=
  (∀ k, r'.byRep.lookup k = if k = rep then some { gs with rejected := true } else r.byRep.lookup k) ∧
    r' = { r with byRep := r'.byRep }

/-- **A rejection stops the group it names** when its reason holds no separator. It does so and the log shows the reason
without its trailing white space exactly when, besides, the reason has no white space in front, or nothing else. -/
theorem Round.named_rejection {r : Round E} {rep : JobKey} {gs : GroupState} (hgs : r.byRep.lookup rep = some gs)
    (hrep : InRange rep) (reason : String) (autocluster : ℤ) :
    let text := rejectionText reason autocluster rep
    ('|' ∉ reason.toList → r.MarksOnly (r.handleReject text) rep gs) ∧
      (r.MarksOnly (r.handleReject text) rep gs ∧
          trimReason text = String.ofList (trimRight isSpace reason.toList) ↔
        '|' ∉ reason.toList ∧
          (Text.Blank reason.toList ∨ ∀ c ∈ reason.toList.head?, isSpace c = false)) := by
  intro text
  have hmarks : '|' ∉ reason.toList → r.MarksOnly (r.handleReject text) rep gs := by
    intro hreason
    have hmem : rep ∈ r.byRep := (mem_iff_lookup _ _).2 ⟨gs, hgs⟩
    rw [Round.handleReject_target (Round.rejectTarget_named hreason hrep hmem) hgs]
    exact ⟨fun k => lookup_insert_ite _ _ _ _, rfl⟩
  exact ⟨hmarks, fun h => (trimReason_iff reason autocluster rep).1 h.2,
    fun h => ⟨hmarks h.1, (trimReason_iff reason autocluster rep).2 h⟩⟩

/-! ## Rounds over two jobs -/

/-- a second cluster of the same user -/
def aliceSubmitsMore : List (Sys.Event Value) :=
  [.begin 0 "alice@pool", .request 0 (.newCluster none), .request 0 (.newProc 2),
    .request 0 (.setAttribute (clusterKey 2) "Cmd" "\"/bin/false\""), .commit 0 100 none]

def twoClusters : Queue Value := (Sys.run (Sys.init poolOptions) (aliceSubmits ++ aliceSubmitsMore)).q

theorem twoClusters_keyed : twoClusters.coll.Keyed := fun _ _ h =>
  Sys.reachable_wellKeyed ⟨poolOptions, aliceSubmits ++ aliceSubmitsMore, rfl⟩ h

def aliceHeader : Ad Value := (Ad.empty : Ad Value).set .owner (.str "alice@pool")

def aliceRound : Round Value := ⟨"alice@pool", buildProjection aliceHeader, none, ∅, none, [], [], 0, []⟩

theorem aliceRound_start : Round.start aliceHeader = some aliceRound := rfl

/-- a match for a representative -/
def grant (rep : JobKey) : Ad Value :=
  ((Ad.empty : Ad Value).setInt (canon Value "_condor_RESOURCE_CLUSTER") rep.cluster).setInt
    (canon Value "_condor_RESOURCE_PROC") rep.proc

def overTwoClusters (ops : List (Opcode Value)) : List (Opcode Value × (ℕ → Store Value)) :=
  ops.map fun op => (op, fun _ => twoClusters.coll)

/-- both groups offered, two matches for the first, its rejection, and one more match -/
def servedRound : List (Opcode Value) :=
  [.sendResourceRequestList 2, .permissionAndAd "<slot1>#1" (grant ⟨2, 0⟩), .permissionAndAd "<slot2>#1" (grant ⟨2, 0⟩),
    .rejectedWithReason (rejectionText "no match found" 7 ⟨2, 0⟩), .permissionAndAd "<slot3>#1" (grant ⟨2, 0⟩)]

theorem one_match_gets_the_job :
    Round.start aliceHeader = some aliceRound ∧
      Runs.Meets (Round.step clusterLib) Round.Fair aliceRound (overTwoClusters servedRound) ∧
      ((overTwoClusters servedRound).foldl (Round.step clusterLib) aliceRound).forwarded.map
        (fun f => (f.m.claimID, f.m.key)) =
        [("<slot1>#1", ⟨2, 0⟩), ("<slot2>#1", noJob), ("<slot3>#1", noJob)] ∧
      ((overTwoClusters servedRound).foldl (Round.step clusterLib) aliceRound).given.Nodup := by
  have hmeets : Runs.Meets (Round.step clusterLib) Round.Fair aliceRound (overTwoClusters servedRound) :=
    ⟨⟨twoClusters_keyed, by decide +kernel⟩, ⟨twoClusters_keyed, by decide +kernel⟩,
      ⟨twoClusters_keyed, by decide +kernel⟩,
      ⟨twoClusters_keyed, by decide +kernel⟩, ⟨twoClusters_keyed, by decide +kernel⟩, trivial⟩
  refine ⟨aliceRound_start, hmeets, by decide +kernel, ?_⟩
  exact (Round.round_assignment aliceRound_start hmeets).1

/-- both groups offered, and the first rejected with a reason that holds the separator -/
def misreadRound : List (Opcode Value) :=
  [.sendResourceRequestList 2, .rejectedWithReason (rejectionText "limit a|b reached" 7 ⟨2, 0⟩)]

/-- the rejected group still gets a match -/
theorem misread_rejection_serves_group :
    Runs.Meets (Round.step clusterLib) Round.Fair aliceRound
        (overTwoClusters (misreadRound ++ [.permissionAndAd "<slot1>#1" (grant ⟨2, 0⟩)])) ∧
      ((overTwoClusters (misreadRound ++ [.permissionAndAd "<slot1>#1" (grant ⟨2, 0⟩)])).foldl
        (Round.step clusterLib) aliceRound).forwarded.map (fun f => (f.echoed, f.m.key)) = [(⟨2, 0⟩, ⟨2, 0⟩)] := by
  refine ⟨⟨⟨twoClusters_keyed, by decide +kernel⟩, ⟨twoClusters_keyed, by decide +kernel⟩,
    ⟨twoClusters_keyed, by decide +kernel⟩, trivial⟩, by decide +kernel⟩

/-- the groups marked rejected, after the opcodes -/
def rejectedAfter (ops : List (Opcode Value)) (reps : List JobKey) : List (Option Bool) :=
  reps.map fun rep =>
    (((overTwoClusters ops).foldl (Round.step clusterLib) aliceRound).byRep.lookup rep).map GroupState.rejected

/-- the group named goes on and the other is stopped; and a reason loses the white space in front -/
theorem misread_rejection_stops_other :
    rejectedAfter [.sendResourceRequestList 2] [⟨2, 0⟩, ⟨1, 0⟩] = [some false, some false] ∧
      rejectedAfter misreadRound [⟨2, 0⟩, ⟨1, 0⟩] = [some false, some true] ∧
      trimReason (rejectionText " slow" 7 ⟨2, 0⟩) = "slow" := by
  decide +kernel

/-- the round with both groups offered -/
def offeredRound : Round Value :=
  (overTwoClusters [.sendResourceRequestList 2]).foldl (Round.step clusterLib) aliceRound

theorem named_rejection_stops_first :
    ∃ gs, offeredRound.byRep.lookup ⟨2, 0⟩ = some gs ∧
      (offeredRound.handleReject (rejectionText "no match found " 7 ⟨2, 0⟩)).byRep.lookup ⟨2, 0⟩ =
        some { gs with rejected := true } ∧
      trimReason (rejectionText "no match found " 7 ⟨2, 0⟩) = "no match found" := by
  have hgs : offeredRound.byRep.lookup ⟨2, 0⟩ = some ⟨⟨2, 0⟩, 2, [⟨2, 0⟩], 0, false⟩ := by decide +kernel
  have hhead : ("no match found ").toList.head? = some 'n' := by decide
  obtain ⟨hmarks, htrims⟩ := (Round.named_rejection hgs (by decide) "no match found " 7).2.2
    ⟨by decide, .inr fun c hc => by rw [hhead] at hc; cases hc; rfl⟩
  exact ⟨_, hgs, by rw [hmarks.1, if_pos rfl], htrims.trans (by decide)⟩

end AccessPoint.Negotiate

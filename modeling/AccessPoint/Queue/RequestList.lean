/-
The resource-request list and the counts it is advertised with (internal/queue/rrl.go, `IdleRequestGroups`;
internal/queue/sched.go, `SubmitterCounts`).

A submitter is advertised with the number of its idle jobs, under `owner@ACCOUNTING_DOMAIN`. A negotiator that asks for
that name is offered the idle jobs of the owner in priority order, consecutive jobs of one projection checksum as one
group. The ordered index and the checksum come from the library of the queue (`RequestLib`).

- `requestLoop`: the iterator as the source has it, which hands its groups to a consumer that may stop.
- `requestLoop_eq`: a consumer sees a prefix of the groups of the whole sequence (`foldGroups`).
- `pulled_runs`: the groups are the maximal runs of equal checksum.
- `advertised_is_offered_iff`: when every submitter is offered as many jobs as were advertised.
-/
import AccessPoint.Sched.Orderly
import AccessPoint.Queue.OwnerNames

namespace AccessPoint

open ClassAdLib List Queue

/-- one entry of the resource-request list: `JobIDs` is `first` and the rest -/
structure RequestGroup (E : Type) where
  checksum : ℕ
  rep : Ad E
  first : JobKey
  rest : List JobKey

def RequestGroup.jobIDs {E : Type} (g : RequestGroup E) : List JobKey := g.first :: g.rest

/-- what the list takes from the library of the queue -/
structure RequestLib (E : Type) [ClassAdLib E] where
  /-- `Collection.Ordered` over the idle jobs of an owner, in the order of their priority -/
  ordered : Store E → String → List (Ad E)
  ordered_perm : ∀ s owner, (ordered s owner).Perm
    (s.scan.filter fun ad => ad.int0 .jobStatus = statusIdle && ad.evaluateAttrString .owner = some owner)
  projectionChecksum : Ad E → List String → ℕ

variable {E : Type} [ClassAdLib E]

/-! ## Groups -/

/-- the id an ad carries, if it carries both numbers -/
def jobID (ad : Ad E) : Option JobKey :=
  match ad.evaluateAttrInt .clusterId, ad.evaluateAttrInt .procId with
  | some c, some p => some ⟨c, p⟩
  | _, _ => none

/-- the loop of `IdleRequestGroups`: `cur` is the group being formed, and `yield` hands a group to the consumer and says
whether it goes on -/
def requestLoop {σ : Type} (sum : Ad E → ℕ) (yield : σ → RequestGroup E → σ × Bool) (s : σ)
    (cur : Option (RequestGroup E)) :
    List (Ad E) → σ
  | [] =>
    match cur with
    | none => s
    | some g => (yield s g).1
  | ad :: ads =>
    match jobID ad with
    | none => requestLoop sum yield s cur ads
    | some id =>
      match cur with
      | none => requestLoop sum yield s (some ⟨sum ad, ad, id, []⟩) ads
      | some g =>
        if sum ad = g.checksum then requestLoop sum yield s (some { g with rest := g.rest ++ [id] }) ads
        else
          let r := yield s g
          if r.2 then requestLoop sum yield r.1 (some ⟨sum ad, ad, id, []⟩) ads else r.1

/-- the groups a consumer that never stops is handed -/
def foldGroups (sum : Ad E → ℕ) (cur : Option (RequestGroup E)) : List (Ad E) → List (RequestGroup E)
  | [] => cur.toList
  | ad :: ads =>
    match jobID ad with
    | none => foldGroups sum cur ads
    | some id =>
      match cur with
      | none => foldGroups sum (some ⟨sum ad, ad, id, []⟩) ads
      | some g =>
        if sum ad = g.checksum then foldGroups sum (some { g with rest := g.rest ++ [id] }) ads
        else g :: foldGroups sum (some ⟨sum ad, ad, id, []⟩) ads

/-- `IdleRequestGroups`, all groups -/
def idleRequestGroups (lib : RequestLib E) (s : Store E) (submitter : String) (projection : List String) :
    List (RequestGroup E) :=
  foldGroups (fun ad => lib.projectionChecksum ad projection) none (lib.ordered s (shortName submitter))

/-- a consumer going through a list of groups until it stops -/
def consume {σ γ : Type} (yield : σ → γ → σ × Bool) (s : σ) : List γ → σ
  | [] => s
  | g :: gs => if (yield s g).2 then consume yield (yield s g).1 gs else (yield s g).1

variable (sum : Ad E → ℕ)

/-- the loop hands out the groups one by one until the consumer stops -/
theorem requestLoop_eq {σ : Type} (yield : σ → RequestGroup E → σ × Bool) (s : σ)
    (cur : Option (RequestGroup E)) (ads : List (Ad E)) :
    requestLoop sum yield s cur ads = consume yield s (foldGroups sum cur ads) := by
  induction ads generalizing s cur with
  | nil =>
    cases cur with
    | none => rfl
    | some => simp [requestLoop, foldGroups, consume]
  | cons ad ads ih =>
    cases hid : jobID ad with
    | none => simp only [requestLoop, foldGroups, hid, ih]
    | some =>
      cases cur with
      | none => simp only [requestLoop, foldGroups, hid, ih]
      | some =>
        simp only [requestLoop, foldGroups, hid]
        split_ifs with hsum hgo
        · exact ih _ _
        · rw [consume, if_pos hgo]
          exact ih _ _
        · rw [consume, if_neg hgo]

/-- what a consumer is handed that takes `k` groups and stops with the last; one that takes none does not start the loop
-/
def pulled (sum : Ad E → ℕ) (k : ℕ) (ads : List (Ad E)) : List (RequestGroup E) :=
  if k = 0 then [] else requestLoop sum (fun seen g => (seen ++ [g], decide (seen.length + 1 < k))) [] none ads

omit [ClassAdLib E] in
theorem consume_take {k : ℕ} (seen gs : List (RequestGroup E)) (h : seen.length < k) :
    consume (fun seen g => (seen ++ [g], decide (seen.length + 1 < k))) seen gs = seen ++
      gs.take (k - seen.length) := by
  induction gs generalizing seen with
  | nil => simp [consume]
  | cons g gs ih =>
    have hk : k - seen.length = (k - (seen.length + 1)) + 1 := by omega
    rw [consume, hk, take_succ_cons]
    by_cases hlt : seen.length + 1 < k
    · rw [if_pos (decide_eq_true hlt), ih _ (by simpa using hlt)]
      simp
    · have hlast : k - (seen.length + 1) = 0 := by omega
      rw [if_neg (by simpa using hlt), hlast]
      simp

theorem pulled_eq (k : ℕ) (ads : List (Ad E)) : pulled sum k ads = (foldGroups sum none ads).take k := by
  unfold pulled
  split_ifs with hk
  · simp [hk]
  · rw [requestLoop_eq, consume_take _ _ (by simpa using Nat.pos_of_ne_zero hk)]
    simp

/-! ### The groups are the runs -/

variable {ad : Ad E} {id : JobKey}

theorem jobID_ids (h : jobID ad = some id) : ad.ids = id := by
  unfold jobID at h
  split at h
  · rename_i c p hc hp
    injection h with h
    subst h
    simp [Ad.ids, Ad.int0, hc, hp]
  · cases h

/-- every job of the index with both ids is in one place of one group, in the order of the index -/
theorem foldGroups_ids (cur : Option (RequestGroup E)) (ads : List (Ad E)) :
    (foldGroups sum cur ads).flatMap RequestGroup.jobIDs =
      cur.toList.flatMap RequestGroup.jobIDs ++ ads.filterMap jobID := by
  induction ads generalizing cur with
  | nil => simp [foldGroups]
  | cons ad ads ih =>
    cases hid : jobID ad with
    | none => simp [foldGroups, hid, ih]
    | some =>
      cases cur with
      | none => simp [foldGroups, hid, ih, RequestGroup.jobIDs]
      | some => simp only [foldGroups, hid]; split_ifs <;> simp [ih, hid, RequestGroup.jobIDs]

/-- the group stands for a block of the sequence: its first ad, the ids in order, one checksum -/
structure IsRun (sum : Ad E → ℕ) (g : RequestGroup E) (block : List (Ad E)) : Prop where
  rep : block.head? = some g.rep
  ids : block.map jobID = g.jobIDs.map some
  same : ∀ ad ∈ block, sum ad = g.checksum

theorem IsRun.single (h : jobID ad = some id) :
    IsRun sum ⟨sum ad, ad, id, []⟩ [ad] where
  rep := rfl
  ids := by simp [RequestGroup.jobIDs, h]
  same := by simp

theorem IsRun.extend {sum : Ad E → ℕ} {g : RequestGroup E} {block : List (Ad E)} (hg : IsRun sum g block)
    (h : jobID ad = some id) (hsum : sum ad = g.checksum) :
    IsRun sum { g with rest := g.rest ++ [id] } (block ++ [ad]) where
  rep := by
    rw [head?_append, hg.rep]
    rfl
  ids := by
    have hids := hg.ids
    simp only [RequestGroup.jobIDs, map_append, map_cons] at hids ⊢
    rw [hids, h]
    rfl
  same := by
    intro ad' had
    rcases mem_append.1 had with had | had
    · exact hg.same ad' had
    · rw [mem_singleton.1 had]
      exact hsum

/-- the group being formed comes first -/
theorem foldGroups_head (g : RequestGroup E) (ads : List (Ad E)) :
    (foldGroups sum (some g) ads).head?.map RequestGroup.checksum = some g.checksum := by
  induction ads generalizing g with
  | nil => rfl
  | cons ad ads ih =>
    cases hid : jobID ad with
    | none =>
      simp only [foldGroups, hid]
      exact ih g
    | some id =>
      simp only [foldGroups, hid]
      split_ifs
      · exact ih { g with rest := g.rest ++ [id] }
      · rfl

/-- the groups cut the sequence into blocks, with the group being formed in front of it -/
theorem foldGroups_blocks {g : RequestGroup E} {block : List (Ad E)} (hg : IsRun sum g block) (ads : List (Ad E)) :
    ∃ blocks : List (List (Ad E)), blocks.flatten = block ++ ads.filter (fun ad => (jobID ad).isSome) ∧
      List.Forall₂ (IsRun sum) (foldGroups sum (some g) ads) blocks ∧
      (foldGroups sum (some g) ads).IsChain (fun g g' => g.checksum ≠ g'.checksum) := by
  induction ads generalizing g block with
  | nil => exact ⟨[block], by simp, List.Forall₂.cons hg List.Forall₂.nil, by simp [foldGroups]⟩
  | cons ad ads ih =>
    cases hid : jobID ad with
    | none =>
      obtain ⟨blocks, hflat, hruns, hchain⟩ := ih hg
      exact ⟨blocks, by simp [hflat, hid], by simpa only [foldGroups, hid] using hruns,
        by simpa only [foldGroups, hid] using hchain⟩
    | some id =>
      by_cases hsum : sum ad = g.checksum
      · obtain ⟨blocks, hflat, hruns, hchain⟩ := ih (hg.extend hid hsum)
        simp only [foldGroups, hid, if_pos hsum]
        exact ⟨blocks, by simp [hflat, hid], hruns, hchain⟩
      · obtain ⟨blocks, hflat, hruns, hchain⟩ := ih (IsRun.single sum hid)
        simp only [foldGroups, hid, if_neg hsum]
        refine ⟨block :: blocks, by simp [hflat, hid], List.Forall₂.cons hg hruns, ?_⟩
        -- the next group starts at the job whose checksum differed
        have hhead := foldGroups_head sum ⟨sum ad, ad, id, []⟩ ads
        cases hgs : foldGroups sum (some ⟨sum ad, ad, id, []⟩) ads with
        | nil => simp
        | cons g' =>
          rw [hgs] at hhead hchain
          have hg' : g'.checksum = sum ad := Option.some.inj hhead
          exact List.IsChain.cons_cons (fun he => hsum (hg'.symm.trans he.symm)) hchain

theorem foldGroups_runs (ads : List (Ad E)) :
    ∃ blocks : List (List (Ad E)), blocks.flatten = ads.filter (fun ad => (jobID ad).isSome) ∧
      List.Forall₂ (IsRun sum) (foldGroups sum none ads) blocks ∧
      (foldGroups sum none ads).IsChain (fun g g' => g.checksum ≠ g'.checksum) := by
  induction ads with
  | nil => exact ⟨[], rfl, List.Forall₂.nil, List.IsChain.nil⟩
  | cons ad ads ih =>
    cases hid : jobID ad with
    | none => simpa [foldGroups, hid] using ih
    | some =>
      obtain ⟨blocks, hflat, hruns, hchain⟩ := foldGroups_blocks sum (IsRun.single sum hid) ads
      simp only [foldGroups, hid]
      exact ⟨blocks, by simp [hflat, hid], hruns, hchain⟩

/-- **Resource-request grouping.** The jobs with both ids fall into blocks of one checksum each, adjacent blocks of
different ones; a consumer that takes `k` groups is handed those of the first `k` blocks and no more, and one that takes
them all gets every id in order. -/
theorem pulled_runs (sum : Ad E → ℕ) (ads : List (Ad E)) :
    ∃ blocks : List (List (Ad E)), blocks.flatten = ads.filter (fun ad => (jobID ad).isSome) ∧
      ∀ k, List.Forall₂ (IsRun sum) (pulled sum k ads) (blocks.take k) ∧
        (pulled sum k ads).IsChain (fun g g' => g.checksum ≠ g'.checksum) ∧
        (blocks.length ≤ k → (pulled sum k ads).flatMap RequestGroup.jobIDs = ads.filterMap jobID) := by
  obtain ⟨blocks, hflat, hruns, hchain⟩ := foldGroups_runs sum ads
  refine ⟨blocks, hflat, fun k => ?_⟩
  rw [pulled_eq]
  refine ⟨forall₂_take k hruns, hchain.take k, fun hk => ?_⟩
  rw [take_of_length_le (hruns.length_eq.trans_le hk), foldGroups_ids]
  rfl

/-! ## The groups of a snapshot -/

theorem filterMap_jobID_sublist (ads : List (Ad E)) : (ads.filterMap jobID).Sublist (ads.map Ad.ids) := by
  induction ads with
  | nil => exact List.Sublist.refl _
  | cons ad ads ih =>
    cases hid : jobID ad with
    | none => simpa [hid] using ih.cons ad.ids
    | some => simpa [hid, jobID_ids hid] using ih

variable {lib : RequestLib E} {s : Store E}

/-- the groups of a snapshot share no job -/
theorem idleRequestGroups_nodup (hs : s.Keyed) (submitter : String) (projection : List String) :
    ((idleRequestGroups lib s submitter projection).flatMap RequestGroup.jobIDs).Nodup := by
  rw [idleRequestGroups, foldGroups_ids]
  have hperm := (lib.ordered_perm s (shortName submitter)).map Ad.ids
  refine (filterMap_jobID_sublist _).nodup (hperm.nodup_iff.2 ?_)
  exact (filter_sublist.map Ad.ids).nodup hs.scan

theorem idleRequestGroups_proc (hs : s.Keyed) {submitter : String} {projection : List String}
    (hid : id ∈ (idleRequestGroups lib s submitter projection).flatMap RequestGroup.jobIDs) : 0 ≤ id.proc := by
  rw [idleRequestGroups, foldGroups_ids] at hid
  obtain ⟨ad, had, hadid⟩ := mem_filterMap.1 (by simpa using hid)
  have hscan := (mem_filter.1 ((lib.ordered_perm s (shortName submitter)).mem_iff.1 had)).1
  obtain ⟨k, hk, hget⟩ := Store.mem_scan.1 hscan
  have hids : ad.ids = k := (hs.get hget).ids hk
  rw [← jobID_ids hadid, hids]
  exact hk

/-- a stored job carries both ids -/
theorem Store.Keyed.jobID (hs : s.Keyed) (had : ad ∈ s.scan) : (AccessPoint.jobID ad).isSome := by
  obtain ⟨_, hk, hget⟩ := Store.mem_scan.1 had
  obtain ⟨hc, hp⟩ := hs.get hget hk
  simp [AccessPoint.jobID, Ad.evaluateAttrInt_lit hc, Ad.evaluateAttrInt_lit hp]

/-- as many jobs are offered as are idle under the owner -/
theorem idleRequestGroups_length (hs : s.Keyed) (submitter : String) (projection : List String) :
    ((idleRequestGroups lib s submitter projection).flatMap RequestGroup.jobIDs).length =
      s.scan.countP fun ad =>
        ad.int0 .jobStatus = statusIdle && ad.evaluateAttrString .owner = some (shortName submitter) := by
  have hperm := lib.ordered_perm s (shortName submitter)
  have hall : ∀ ad ∈ lib.ordered s (shortName submitter), (jobID ad).isSome := fun ad had =>
    hs.jobID (mem_filter.1 (hperm.mem_iff.1 had)).1
  rw [idleRequestGroups, foldGroups_ids, countP_eq_length_filter, ← hperm.length_eq]
  simp [length_filterMap_eq_countP, countP_eq_length.2 hall]

/-! ## Submitters -/

/-- one submitter's tallies -/
structure SubmitterCount where
  name : String
  owner : String
  idle : ℕ
  running : ℕ
  held : ℕ
  removed : ℕ
  total : ℕ
deriving DecidableEq, Repr

/-- one more job of the status -/
def SubmitterCount.count (sc : SubmitterCount) (status : ℤ) : SubmitterCount :=
  let sc := { sc with total := sc.total + 1 }
  if status = statusIdle then { sc with idle := sc.idle + 1 }
  else if status = statusRunning then { sc with running := sc.running + 1 }
  else if status = statusHeld then { sc with held := sc.held + 1 }
  else if status = statusRemoved then { sc with removed := sc.removed + 1 }
  else sc

/-- the accounting domain: `ACCOUNTING_DOMAIN`, or `UID_DOMAIN` when it is not set -/
def acctDomainOf (accountingDomain uidDomain : String) : String :=
  if accountingDomain = "" then uidDomain else accountingDomain

/-- `submitterName` with `q.acctDomain` -/
def submitterName (acctDomain owner : String) : String :=
  if acctDomain = "" then owner else owner ++ "@" ++ acctDomain

namespace Queue

/-- the owner a job is negotiated under -/
def jobOwner (q : Queue E) (ad : Ad E) : String :=
  match ad.evaluateAttrString .owner with
  | some o => if o ≠ "" then o else shortName (q.jobUser ad)
  | none => shortName (q.jobUser ad)

/-- the loop body of `SubmitterCounts` -/
def countJob (q : Queue E) (acctDomain : String) (byName : KeyMap String SubmitterCount) (ad : Ad E) :
    KeyMap String SubmitterCount :=
  let owner := q.jobOwner ad
  if owner = "" then byName
  else
    let name := submitterName acctDomain owner
    let sc := (byName.lookup name).getD ⟨name, owner, 0, 0, 0, 0, 0⟩
    byName.insert name (sc.count (ad.int0 .jobStatus))

/-- `SubmitterCounts`, in some order -/
def submitterCounts (q : Queue E) (acctDomain : String) : List SubmitterCount :=
  (q.coll.scan.foldl (q.countJob acctDomain) ∅).entries.map Sigma.snd

end Queue

theorem SubmitterCount.count_name (sc : SubmitterCount) (status : ℤ) : (sc.count status).name = sc.name := by
  unfold SubmitterCount.count
  dsimp only
  split_ifs <;> rfl

theorem SubmitterCount.count_idle (sc : SubmitterCount) (status : ℤ) :
    (sc.count status).idle = sc.idle + if status = statusIdle then 1 else 0 := by
  unfold SubmitterCount.count
  dsimp only
  split_ifs <;> rfl

/-- an idle job of the submitter -/
def Queue.idleOf (q : Queue E) (acctDomain name : String) (ad : Ad E) : Bool :=
  ad.int0 .jobStatus = statusIdle && (q.jobOwner ad ≠ "" && submitterName acctDomain (q.jobOwner ad) = name)

/-- what the tally holds after some jobs -/
structure Tallied (q : Queue E) (acctDomain : String) (ads : List (Ad E)) (byName : KeyMap String SubmitterCount) :
    Prop where
  counted : ∀ ad ∈ ads, q.jobOwner ad ≠ "" → submitterName acctDomain (q.jobOwner ad) ∈ byName
  exact : ∀ name sc, byName.lookup name = some sc → sc.name = name ∧ sc.idle = ads.countP (q.idleOf acctDomain name)
  met : ∀ name sc, byName.lookup name = some sc →
    ∃ ad ∈ ads, q.jobOwner ad ≠ "" ∧ submitterName acctDomain (q.jobOwner ad) = name

variable {q : Queue E}

theorem Tallied.add {acctDomain : String} {ads : List (Ad E)} {byName : KeyMap String SubmitterCount}
    (h : Tallied q acctDomain ads byName) (ad : Ad E) :
    Tallied q acctDomain (ads ++ [ad]) (q.countJob acctDomain byName ad) := by
  by_cases hown : q.jobOwner ad = ""
  · -- a job without an owner is not counted
    simp only [countJob, if_pos hown]
    refine ⟨fun ad' had' hne => ?_, fun name sc hsc => ?_, fun name sc hsc => ?_⟩
    · rcases mem_append.1 had' with had' | had'
      · exact h.counted ad' had' hne
      · rw [mem_singleton.1 had'] at hne
        exact absurd hown hne
    · obtain ⟨hn, hi⟩ := h.exact name sc hsc
      exact ⟨hn, by simp [hi, idleOf, hown]⟩
    · obtain ⟨ad', had', hn⟩ := h.met name sc hsc
      exact ⟨ad', mem_append_left _ had', hn⟩
  -- a name not met yet has no idle job
  have hnew : byName.lookup (submitterName acctDomain (q.jobOwner ad)) = none →
      ads.countP (q.idleOf acctDomain (submitterName acctDomain (q.jobOwner ad))) = 0 := by
    intro hnone
    refine countP_eq_zero.2 fun ad' had' hidle => ?_
    simp only [idleOf, Bool.and_eq_true, decide_eq_true_eq] at hidle
    exact AList.lookup_eq_none.1 hnone (hidle.2.2 ▸ h.counted ad' had' hidle.2.1)
  simp only [countJob, if_neg hown]
  refine ⟨?_, ?_, ?_⟩
  · intro ad' had' hne
    rcases mem_append.1 had' with had' | had'
    · exact (AList.mem_insert _).2 (.inr (h.counted ad' had' hne))
    · rw [mem_singleton.1 had']
      exact (AList.mem_insert _).2 (.inl rfl)
  · intro name sc hsc
    rw [KeyMap.lookup_insert_ite] at hsc
    rw [countP_append]
    split_ifs at hsc with hname
    · injection hsc with hsc
      subst hname hsc
      rw [SubmitterCount.count_name, SubmitterCount.count_idle]
      cases hl : byName.lookup (submitterName acctDomain (q.jobOwner ad)) with
      | none => simp [hnew hl, idleOf, hown]
      | some sc =>
        obtain ⟨hn, hi⟩ := h.exact _ sc hl
        simp [hn, hi, idleOf, hown]
    · obtain ⟨hn, hi⟩ := h.exact name sc hsc
      refine ⟨hn, ?_⟩
      simp [hi, idleOf, Ne.symm hname]
  · intro name sc hsc
    rw [KeyMap.lookup_insert_ite] at hsc
    split_ifs at hsc with hname
    · exact ⟨ad, by simp, hown, hname.symm⟩
    · obtain ⟨ad', had', hn⟩ := h.met name sc hsc
      exact ⟨ad', mem_append_left _ had', hn⟩

theorem tallied (q : Queue E) (acctDomain : String) (ads : List (Ad E)) :
    Tallied q acctDomain ads (ads.foldl (q.countJob acctDomain) ∅) := by
  induction ads using reverseRecOn with
  | nil => exact ⟨by simp, by simp, by simp⟩
  | append_singleton ads ad ih =>
    rw [foldl_append]
    exact ih.add ad

/-- an entry of the result is what the tally holds under its name -/
theorem mem_submitterCounts {acctDomain : String} {sc : SubmitterCount} :
    sc ∈ q.submitterCounts acctDomain ↔
      (q.coll.scan.foldl (q.countJob acctDomain) ∅).lookup sc.name = some sc := by
  simp only [submitterCounts, mem_map]
  constructor
  · rintro ⟨⟨name, sc'⟩, hmem, rfl⟩
    have hl := AList.mem_lookup_iff.2 hmem
    rw [((tallied q acctDomain q.coll.scan).exact name sc' hl).1]
    exact hl
  · intro hl
    exact ⟨⟨sc.name, sc⟩, AList.mem_lookup_iff.1 hl, rfl⟩

/-- a job that has an owner is counted under its submitter name, and under no other -/
theorem counted_once (acctDomain : String) (had : ad ∈ q.coll.scan) (hne : q.jobOwner ad ≠ "") :
    ∃! sc, sc ∈ q.submitterCounts acctDomain ∧ sc.name = submitterName acctDomain (q.jobOwner ad) := by
  have ht := tallied q acctDomain q.coll.scan
  obtain ⟨sc, hsc⟩ := (KeyMap.mem_iff_lookup _ _).1 (ht.counted ad had hne)
  have hname := (ht.exact _ sc hsc).1
  refine ⟨sc, ⟨mem_submitterCounts.2 (hname ▸ hsc), hname⟩, ?_⟩
  rintro sc' ⟨hmem', hname'⟩
  have hsc' := mem_submitterCounts.1 hmem'
  rw [hname', hsc] at hsc'
  exact (Option.some.inj hsc').symm

/-! ### The name and the owner -/

/-- the owner can be told from the submitter name -/
def Reversible (acctDomain owner : String) : Prop := '@' ∉ (if acctDomain = "" then owner else acctDomain).toList

instance (acctDomain owner : String) : Decidable (Reversible acctDomain owner) := inferInstanceAs (Decidable (¬ _))

theorem shortName_submitterName {acctDomain owner : String} (h : Reversible acctDomain owner) :
    shortName (submitterName acctDomain owner) = owner := by
  unfold Reversible at h
  unfold submitterName
  split_ifs at h ⊢ with hd
  · exact shortName_bare h
  · have htext : owner ++ "@" ++ acctDomain = String.ofList (owner.toList ++ '@' :: acctDomain.toList) :=
      String.toList_inj.1 (by simp)
    have hdrop : acctDomain.toList.reverse.dropWhile (· ≠ '@') = [] := by
      refine dropWhile_eq_nil_iff.2 fun c hc => decide_eq_true fun he => h ?_
      exact he ▸ mem_reverse.1 hc
    rw [htext, shortName, splitFQU_join, hdrop]
    simp

theorem submitterName_inj {acctDomain owner owner' : String}
    (h : submitterName acctDomain owner = submitterName acctDomain owner') : owner = owner' := by
  unfold submitterName at h
  split_ifs at h
  · exact h
  · simpa using h

/-- the names a commit stamps: `User`, and its name part as `Owner` -/
def Ad.Stamped (ad : Ad E) : Prop :=
  ∃ user, ad.evaluateAttrString .user = some user ∧ ad.evaluateAttrString .owner = some (shortName user)

theorem Ad.Stamped.owner (h : ad.Stamped) : ad.evaluateAttrString .owner = some (q.jobOwner ad) := by
  obtain ⟨user, hu, ho⟩ := h
  rw [ho, jobOwner, ho]
  by_cases hne : shortName user = ""
  · -- the user is then empty too, or nothing but a domain
    by_cases hu' : user = ""
    · subst hu'
      simp [jobUser, jobUser.ownerUser, hu, ho, hne]
    · simp [hne, jobUser, hu, hu']
  · simp [hne]

/-- the idle jobs of an owner -/
def Queue.idleOwned (q : Queue E) (owner : String) : ℕ :=
  q.coll.scan.countP fun ad => ad.int0 .jobStatus = statusIdle && ad.evaluateAttrString .owner = some owner

/-- **Advertised idle jobs are the ones offered.** Each count is the number of idle jobs of its name. Each idle job is
counted under one submitter, and the groups offered for a submitter hold as many jobs as were counted, exactly when no
idle job has an empty owner and, for every job whose owner cannot be told from its submitter name, the owner that is
taken for it has as many idle jobs. -/
theorem advertised_is_offered_iff (lib : RequestLib E) (q : Queue E) (acctDomain : String) (hq : q.coll.Keyed)
    (hstamped : ∀ ad ∈ q.coll.scan, ad.Stamped) :
    (∀ sc ∈ q.submitterCounts acctDomain, sc.idle = q.coll.scan.countP (q.idleOf acctDomain sc.name)) ∧
    ((∀ ad ∈ q.coll.scan, ad.int0 .jobStatus = statusIdle →
        ∃! sc, sc ∈ q.submitterCounts acctDomain ∧ sc.name = submitterName acctDomain (q.jobOwner ad)) ∧
      (∀ sc ∈ q.submitterCounts acctDomain, ∀ projection,
        ((idleRequestGroups lib q.coll sc.name projection).flatMap RequestGroup.jobIDs).length = sc.idle) ↔
      (∀ ad ∈ q.coll.scan, ad.int0 .jobStatus = statusIdle → ad.evaluateAttrString .owner ≠ some "") ∧
      ∀ ad ∈ q.coll.scan, ∀ owner, ad.evaluateAttrString .owner = some owner → owner ≠ "" →
        ¬ Reversible acctDomain owner →
          q.idleOwned (shortName (submitterName acctDomain owner)) = q.idleOwned owner) := by
  have ht := tallied q acctDomain q.coll.scan
  have hcount : ∀ sc ∈ q.submitterCounts acctDomain, sc.idle = q.coll.scan.countP (q.idleOf acctDomain sc.name) :=
    fun sc hsc => (ht.exact _ sc (mem_submitterCounts.1 hsc)).2
  -- the two numbers of a submitter, over the owners of the jobs
  have hidle : ∀ sc ∈ q.submitterCounts acctDomain, ∀ owner, owner ≠ "" → sc.name = submitterName acctDomain owner →
      sc.idle = q.idleOwned owner := by
    intro sc hsc owner hne hname
    rw [hcount sc hsc, idleOwned]
    refine countP_congr fun ad had => ?_
    simp only [idleOf, Bool.and_eq_true, decide_eq_true_eq, (hstamped ad had).owner (q := q), hname,
      Option.some.injEq]
    refine and_congr_right fun _ => ⟨fun h => submitterName_inj h.2, fun h => ?_⟩
    rw [h]
    exact ⟨hne, rfl⟩
  have hoffered : ∀ name projection,
      ((idleRequestGroups lib q.coll name projection).flatMap RequestGroup.jobIDs).length =
        q.idleOwned (shortName name) := fun name projection => idleRequestGroups_length hq name projection
  refine ⟨hcount, fun ⟨hone, hsame⟩ => ⟨fun ad had hst hempty => ?_, fun ad had owner howner hne _ => ?_⟩,
    fun ⟨howned, hsame⟩ => ⟨fun ad had hst => ?_, fun sc hsc projection => ?_⟩⟩
  · obtain ⟨sc, ⟨hsc, hname⟩, -⟩ := hone ad had hst
    obtain ⟨_, _, hne, hname'⟩ := ht.met _ sc (mem_submitterCounts.1 hsc)
    rw [(hstamped ad had).owner (q := q)] at hempty
    exact hne ((submitterName_inj (hname'.trans hname)).trans (Option.some.inj hempty))
  · obtain rfl : q.jobOwner ad = owner := Option.some.inj ((hstamped ad had).owner.symm.trans howner)
    obtain ⟨sc, ⟨hsc, hname⟩, -⟩ := counted_once acctDomain had hne
    rw [← hidle sc hsc _ hne hname, ← hsame sc hsc [], hoffered, hname]
  · refine counted_once acctDomain had fun hempty => howned ad had hst ?_
    rw [(hstamped ad had).owner (q := q), hempty]
  · obtain ⟨ad, had, hne, hname⟩ := ht.met _ sc (mem_submitterCounts.1 hsc)
    rw [hoffered, hidle sc hsc _ hne hname.symm, ← hname]
    by_cases hrev : Reversible acctDomain (q.jobOwner ad)
    · rw [shortName_submitterName hrev]
    · exact hsame ad had _ (hstamped ad had).owner hne hrev

/-! ### Submitters of two queues -/

/-- jobs in the order of the store, every cluster a group of its own -/
def clusterLib : RequestLib Value where
  ordered := fun s owner =>
    s.scan.filter fun ad => ad.int0 .jobStatus = statusIdle && ad.evaluateAttrString .owner = some owner
  ordered_perm := fun _ _ => List.Perm.refl _
  projectionChecksum := fun ad _ => (ad.int0 .clusterId).toNat

theorem alice_is_offered :
    (∀ ad ∈ aliceQueue.coll.scan, ad.Stamped) ∧
      aliceQueue.submitterCounts "pool" = [⟨"alice@pool", "alice", 1, 0, 0, 0, 1⟩] ∧
      ((idleRequestGroups clusterLib aliceQueue.coll "alice@pool" []).flatMap RequestGroup.jobIDs).length = 1 := by
  have hkeyed : aliceQueue.coll.Keyed := fun k ad h => Sys.reachable_wellKeyed aliceQueue_reachable h
  have hnames : ∀ ad ∈ aliceQueue.coll.scan, ad.evaluateAttrString .user = some "alice@pool" ∧
      ad.evaluateAttrString .owner = some "alice" := by decide +kernel
  have hstamped : ∀ ad ∈ aliceQueue.coll.scan, ad.Stamped := fun ad had =>
    ⟨"alice@pool", (hnames ad had).1, (hnames ad had).2.trans (by decide)⟩
  have hcounts : aliceQueue.submitterCounts "pool" = [⟨"alice@pool", "alice", 1, 0, 0, 0, 1⟩] := by decide +kernel
  refine ⟨hstamped, hcounts, ?_⟩
  refine ((advertised_is_offered_iff clusterLib aliceQueue "pool" hkeyed hstamped).2.2 ⟨fun ad had _ => ?_,
    fun ad had owner howner _ hrev => ?_⟩).2 ⟨"alice@pool", "alice", 1, 0, 0, 0, 1⟩
      (by rw [hcounts]; exact mem_cons_self) []
  · rw [(hnames ad had).2]
    decide
  · exact absurd (show Reversible "pool" owner from (by decide : '@' ∉ "pool".toList)) hrev

/-- a schedd with neither domain set, and a job of a user whose name part has an '@' -/
def bareQueue : Queue Value :=
  (Sys.run (Sys.init { poolOptions with uidDomain := "" })
    [.begin 0 "alice@cs@pool", .request 0 (.newCluster none), .request 0 (.newProc 1),
      .request 0 (.setAttribute (clusterKey 1) "Cmd" "\"/bin/true\""), .commit 0 100 none]).q

/-- the submitter is advertised with an idle job and offered none -/
theorem advertised_never_offered :
    (bareQueue.coll.get ⟨1, 0⟩).map (fun ad => (ad .owner, ad .user)) =
        some (some (.str "alice@cs"), some (.str "alice@cs@pool")) ∧
      bareQueue.submitterCounts (acctDomainOf "" "") = [⟨"alice@cs", "alice@cs", 1, 0, 0, 0, 1⟩] ∧
      ((idleRequestGroups clusterLib bareQueue.coll "alice@cs" []).flatMap RequestGroup.jobIDs).length = 0 := by
  decide +kernel

end AccessPoint

/-
The ACT_ON_JOBS command (internal/actions/actions.go): hold, release or remove jobs named by ids or by a constraint.

`Server.Handle` works in two phases. The first checks every target against the unchanged queue and sends the codes to
the tool; the second, after the tool's ack, applies the action to every target whose code was success, one after the
other. Whether what was announced is what then happens depends on the list: a target that stands in it twice is checked
twice against the same queue, but its second turn finds the job already dealt with.

- `announced_eq`: the successes a result ad announces, in both of its forms.
- `Dealt`: the queue once some targets have been dealt with; a later one is read as at first, or over its cluster ad.
- `announced_is_done_iff`: what is announced is what is done exactly when no id fit for the action is named twice and no
  proc named behind its cluster ad loses its fitness by the action on that ad.
- `repeated_id_announced_twice`: a job named twice is announced twice and removed once.
-/
import AccessPoint.Core.Decimal
import AccessPoint.Queue.FactorySet
import AccessPoint.Queue.RequestList

namespace AccessPoint

open ClassAdLib List Store Prog

/-- `ArLimitExceeded` -/
def arLimitExceeded : ℤ := 6

namespace Actions

/-- HTCondor's OK reply -/
def wireOK : ℤ := 1

/-- the command ad, as far as the handler evaluates it -/
structure Command where
  jobAction : Option ℤ
  actionResultType : Option ℤ
  holdReasonSubCode : Option ℤ
  holdReason : Option String
  releaseReason : Option String
  removeReason : Option String
  /-- the text of the constraint expression -/
  actionConstraint : Option String
  actionIds : Option String

/-- AR_LONG when asked for, otherwise AR_TOTALS -/
def Command.resultType (cmd : Command) : ℤ := if cmd.actionResultType = some 1 then 1 else 0

/-- what a JobAction number asks for; `some none` for the actions that affect no job here: vacate, fast vacate, clear
dirty attributes, suspend and continue -/
def actionKind (actionNum : ℤ) : Option (Option ActionKind) :=
  if actionNum = 1 then some (some .hold)
  else if actionNum = 2 then some (some .release)
  else if actionNum = 3 then some (some .remove)
  else if actionNum = 4 then some (some .removeX)
  else if 5 ≤ actionNum ∧ actionNum ≤ 9 then some none
  else none

/-- the reason attribute of an action -/
def Command.reason (cmd : Command) : ActionKind → Option String
  | .hold => cmd.holdReason
  | .release => cmd.releaseReason
  | .remove => cmd.removeReason
  | .removeX => cmd.removeReason

def Command.request (cmd : Command) (authUser : String) (kind : ActionKind) : ActionRequest where
  kind := kind
  actor := authUser
  reason :=
    match cmd.reason kind with
    | some r => if r ≠ "" then r ++ " (by user " ++ authUser ++ ")" else ""
    | none => ""
  holdReasonCode := 0
  holdReasonSub := if kind = .hold then cmd.holdReasonSubCode.getD 0 else 0
  system := false

/-! ## Results -/

/-- the attributes of a result ad -/
inductive ResultAttr where
  | actionResultType
  /-- `job_<c>_<p>` -/
  | job (k : JobKey)
  /-- `result_total_<code>` -/
  | resultTotal (code : ℤ)
  | jobAction
  | actionResult
  | totalJobAds
  | isQueueSuperUser
deriving DecidableEq, Repr

inductive ResultValue where
  | int (n : ℤ)
  | bool (b : Bool)
deriving DecidableEq, Repr

abbrev ResultAd := KeyMap ResultAttr ResultValue

/-- the codes of a result, `ArError` to `ArLimitExceeded` -/
def resultCodes : List ℤ :=
  [arError, arSuccess, arNotFound, arBadStatus, arAlreadyDone, arPermissionDenied, arLimitExceeded]

def successes (codes : List (JobKey × ℤ)) : ℕ := codes.countP fun e => e.2 = arSuccess

/-- the codes in the result ad: one attribute a job in the long form, otherwise one a code -/
def codeSets (resultType : ℤ) (codes : List (JobKey × ℤ)) : List (ResultAttr × ResultValue) :=
  if resultType = 1 then codes.map fun e => (.job e.1, .int e.2)
  else resultCodes.map fun code => (.resultTotal code, .int (codes.countP fun e => e.2 = code))

/-- what `Handle` sets in the result ad, in order -/
def resultSets (resultType : ℤ) (codes : List (JobKey × ℤ)) (actionNum total : ℤ) (super : Bool) :
    List (ResultAttr × ResultValue) :=
  (.actionResultType, .int resultType) ::
    (codeSets resultType codes ++
      [(.jobAction, .int actionNum), (.actionResult, .int (if 0 < successes codes then 1 else 0)),
        (.totalJobAds, .int total), (.isQueueSuperUser, .bool super)])

def resultAd (sets : List (ResultAttr × ResultValue)) : ResultAd := sets.foldl (fun ad e => ad.insert e.1 e.2) ∅

/-- the job an attribute announces a success for -/
def announcedJob : ResultAttr → ResultValue → Option JobKey
  | .job k, v => if v = .int arSuccess then some k else none
  | _, _ => none

def ResultAd.announcedJobs (ad : ResultAd) : List JobKey := ad.entries.filterMap fun e => announcedJob e.1 e.2

/-- the successes a result ad announces: `result_total_1`, or the job attributes of the long form -/
def ResultAd.announced (ad : ResultAd) : ℤ :=
  match ad.lookup (.resultTotal arSuccess) with
  | some (.int n) => n
  | _ => ad.announcedJobs.length

/-! ## The handler -/

variable {E : Type} [ClassAdLib E]

/-- `matchConstraint`; `parse` is `vm.Parse` with the query it makes -/
def matchConstraint (parse : String → Option (Ad E → Bool)) (constraint : String) : Go E (List JobKey) :=
  let constraint := String.ofList (Text.trimSpace constraint.toList)
  if constraint = "" ∨ constraint = "true" ∨ constraint = "TRUE" then do
    let ads ← Go.scan
    pure (ads.filterMap jobID)
  else
    match parse constraint with
    | none => pure []
    | some p => do
      let ads ← Go.scan
      pure ((ads.filter p).filterMap jobID)

/-- the jobs one token of `ActionIds` names: a proc, or the live procs of a cluster -/
def parseToken (tok : List Char) : Go E (List JobKey) :=
  if '.' ∈ tok then
    match Text.atoi (tok.takeWhile (· ≠ '.')), Text.atoi ((tok.dropWhile (· ≠ '.')).drop 1) with
    | some c, some p => pure [⟨c, p⟩]
    | _, _ => pure []
  else
    match Text.atoi tok with
    | none => pure []
    | some cid => do
      let ads ← Go.scan
      pure ((ads.filterMap jobID).filter fun id => id.cluster = cid)

def parseTokens : List (List Char) → Go E (List JobKey)
  | [] => pure []
  | tok :: toks => do
    let ids ← parseToken tok
    let rest ← parseTokens toks
    pure (ids ++ rest)

/-- `parseIDs` -/
def parseIDs (ids : String) : Go E (List JobKey) :=
  parseTokens (Text.fieldsFunc (fun c => c = ',' || c = ' ' || c = '\t') ids.toList)

/-- the first phase: the code of every target -/
def checkAll (q : Queue E) (req : Option ActionRequest) : List JobKey → Go E (List (JobKey × ℤ))
  | [] => pure []
  | k :: ks => do
    let code ← match req with
      | none => pure arBadStatus
      | some req => do
        let r ← q.checkAction k req
        pure r.1
    let rest ← checkAll q req ks
    pure ((k, code) :: rest)

/-- the second phase: the targets whose code was success, with the codes of `ApplyAction` -/
def applyAll (q : Queue E) (hook : Bool) (req : ActionRequest) : List (JobKey × ℤ) → Go E (List (JobKey × ℤ))
  | [] => pure []
  | e :: rest =>
    if e.2 = arSuccess then do
      let r ← q.applyAction hook e.1 req
      let done ← applyAll q hook req rest
      pure ((e.1, r.1) :: done)
    else applyAll q hook req rest

/-- one request served -/
structure Reply where
  result : ResultAd
  codes : List (JobKey × ℤ)
  /-- what was applied, with the codes of the application -/
  applied : List (JobKey × ℤ)

/-- exactly one of `ActionConstraint` and `ActionIds` -/
def targets (parse : String → Option (Ad E → Bool)) (cmd : Command) : Except String (Go E (List JobKey)) :=
  match cmd.actionConstraint, cmd.actionIds with
  | some _, some _ => .error "ACT_ON_JOBS: both ActionConstraint and ActionIds present"
  | some constraint, none => .ok (matchConstraint parse constraint)
  | none, some ids => .ok (parseIDs ids)
  | none, none => .error "ACT_ON_JOBS: neither ActionConstraint nor ActionIds present"

/-- `Handle` once the targets are known; `ack` is the tool's answer, `none` when it cannot be read -/
def serve (q : Queue E) (hook : Bool) (authUser : String) (cmd : Command) (actionNum : ℤ) (req : Option ActionRequest)
    (ids : List JobKey) (ack : Option ℤ) : Go E Reply := do
  let codes ← checkAll q req ids
  let ads ← Go.scan
  let result := resultAd (resultSets cmd.resultType codes actionNum ads.length (q.isSuperUser authUser))
  match req with
  | none => pure ⟨result, codes, []⟩
  | some req =>
    if successes codes = 0 ∨ ack ≠ some wireOK then pure ⟨result, codes, []⟩
    else do
      let applied ← applyAll q hook req codes
      pure ⟨result, codes, applied⟩

/-- `Handle` -/
def handle (q : Queue E) (hook : Bool) (parse : String → Option (Ad E → Bool)) (authUser : String) (cmd : Command)
    (ack : Option ℤ) : Except String (Go E Reply) :=
  match cmd.jobAction with
  | none => .error "ACT_ON_JOBS command ad missing JobAction"
  | some actionNum =>
    match actionKind actionNum with
    | none => .error ("ACT_ON_JOBS: invalid JobAction " ++ toString actionNum)
    | some kind =>
      match targets parse cmd with
      | .error e => .error e
      | .ok ids => .ok do
        let ids ← ids
        serve q hook authUser cmd actionNum (kind.map (cmd.request authUser)) ids ack

/-! ## The announcement -/

section Announced

variable {k : JobKey}

theorem announcedJob_eq_some {a : ResultAttr} {v : ResultValue} :
    announcedJob a v = some k ↔ a = .job k ∧ v = .int arSuccess := by
  cases a <;> simp [announcedJob, and_comm]

theorem nodup_announcedJobs (ad : ResultAd) : ad.announcedJobs.Nodup := by
  refine (List.NodupKeys.nodup ad.nodupKeys).filterMap fun e e' k h h' => ?_
  obtain ⟨ha, hv⟩ := announcedJob_eq_some.1 h
  obtain ⟨ha', hv'⟩ := announcedJob_eq_some.1 h'
  exact Sigma.ext (ha.trans ha'.symm) (heq_of_eq (hv.trans hv'.symm))

theorem mem_announcedJobs {ad : ResultAd} : k ∈ ad.announcedJobs ↔ ad.lookup (.job k) = some (.int arSuccess) := by
  rw [ResultAd.announcedJobs, mem_filterMap, ← Option.mem_def, AList.mem_lookup_iff]
  constructor
  · rintro ⟨⟨_, _⟩, he, h⟩
    obtain ⟨rfl, rfl⟩ := announcedJob_eq_some.1 h
    exact he
  · exact fun he => ⟨_, he, announcedJob_eq_some.2 ⟨rfl, rfl⟩⟩

variable {codes : List (JobKey × ℤ)} {resultType actionNum total : ℤ} {super : Bool}
  (hcodes : ∀ k n n', (k, n) ∈ codes → (k, n') ∈ codes → n = n')

/-- the targets whose code is success, in order -/
def fit (codes : List (JobKey × ℤ)) : List JobKey := (codes.filter fun e => e.2 = arSuccess).map Prod.fst

theorem fit_length (codes : List (JobKey × ℤ)) : (fit codes).length = successes codes := by
  rw [fit, length_map, successes, countP_eq_length_filter]

theorem mem_fit : k ∈ fit codes ↔ (k, arSuccess) ∈ codes := by simp [fit]

include hcodes

/-- a target that stands in the list twice has one code, so an attribute set twice is set to one value -/
theorem lookup_resultAd (a : ResultAttr) (v : ResultValue) :
    (resultAd (resultSets resultType codes actionNum total super)).lookup a = some v ↔
      (a, v) ∈ resultSets resultType codes actionNum total super := by
  refine KeyMap.lookup_foldl_insert _ (fun a v v' h h' => ?_) a v
  by_cases hlong : resultType = 1
  · simp only [resultSets, codeSets, if_pos hlong] at h h'
    cases a with
    | job k =>
      simp only [mem_cons, mem_append, mem_map] at h h'
      obtain ⟨n, hn, rfl⟩ : ∃ n, (k, n) ∈ codes ∧ .int n = v := by simpa using h
      obtain ⟨n', hn', rfl⟩ : ∃ n, (k, n) ∈ codes ∧ .int n = v' := by simpa using h'
      rw [hcodes k n n' hn hn']
    | _ => simp_all
  · simp only [resultSets, codeSets, if_neg hlong] at h h'
    cases a with
    | resultTotal code =>
      have hv : code ∈ resultCodes ∧ v = .int (codes.countP fun e => e.2 = code) := by simpa [eq_comm] using h
      have hv' : code ∈ resultCodes ∧ v' = .int (codes.countP fun e => e.2 = code) := by simpa [eq_comm] using h'
      rw [hv.2, hv'.2]
    | _ => simp_all

theorem lookup_job (hlong : resultType = 1) :
    (resultAd (resultSets resultType codes actionNum total super)).lookup (.job k) = some (.int arSuccess) ↔
      k ∈ fit codes := by
  rw [lookup_resultAd hcodes, mem_fit]
  simp [resultSets, codeSets, hlong]

/-- **The successes a result ad announces**: the targets that are fit, in the long form without repetitions. -/
theorem announced_eq :
    ResultAd.announced (resultAd (resultSets resultType codes actionNum total super)) =
      if resultType = 1 then ((fit codes).dedup.length : ℤ) else (fit codes).length := by
  unfold ResultAd.announced
  split_ifs with hlong
  · have htotal :
        (resultAd (resultSets resultType codes actionNum total super)).lookup (.resultTotal arSuccess) = none := by
      rw [Option.eq_none_iff_forall_ne_some]
      intro v hv
      have hin := (lookup_resultAd hcodes _ _).1 hv
      simp [resultSets, codeSets, hlong] at hin
    rw [htotal]
    have hmem : ∀ k, k ∈ (resultAd (resultSets resultType codes actionNum total super)).announcedJobs ↔
        k ∈ (fit codes).dedup := by
      intro k
      rw [mem_announcedJobs, lookup_job hcodes hlong, mem_dedup]
    exact congrArg Nat.cast ((perm_ext_iff_of_nodup (nodup_announcedJobs _) (nodup_dedup _)).2 hmem).length_eq
  · have htotal : (resultAd (resultSets resultType codes actionNum total super)).lookup (.resultTotal arSuccess) =
        some (.int (successes codes)) :=
      (lookup_resultAd hcodes _ _).2 (by simp [resultSets, codeSets, hlong, successes, resultCodes])
    rw [htotal, fit_length]

end Announced

/-! ## Targets -/

/-- procs, none of them twice -/
structure Distinct (ids : List JobKey) : Prop where
  nodup : ids.Nodup
  proc : ∀ k ∈ ids, 0 ≤ k.proc

/-- the program only looks at the queue: it leaves it, and what it finds is not up to the environment -/
def Looks {α : Type} (s : Store E) (p : Go E α) : Prop :=
  ∀ env, (s.alone env p).1 = (s.alone (fun _ => smooth) p).1 ∧ (s.alone env p).2.1 = s

variable {s : Store E} {env : ℕ → Choice}

omit [ClassAdLib E] in
@[simp] theorem alone_scan : s.alone env (Go.scan : Go E (List (Ad E))) = (s.scan, s, fun n => env (n + 1)) := rfl

section Looks

variable {α β : Type}

omit [ClassAdLib E] in
theorem looks_ret (a : α) : Looks s (pure a : Go E α) := fun _ => ⟨rfl, rfl⟩

omit [ClassAdLib E] in
theorem looks_scan : Looks s (Go.scan : Go E (List (Ad E))) := fun _ => ⟨rfl, rfl⟩

omit [ClassAdLib E] in
theorem Looks.bind {p : Go E α} {f : α → Go E β} (hp : Looks s p) (hf : ∀ a, Looks s (f a)) : Looks s (p >>= f) := by
  intro env
  simp only [bind_eq, alone_bind, (hp _).2]
  rw [(hp env).1, (hf _ _).1, (hf _ (s.alone (fun _ => smooth) p).2.2).1]
  exact ⟨rfl, (hf _ _).2⟩

end Looks

/-- the jobs a scan or a query finds are distinct procs -/
theorem distinct_scan (hs : s.Keyed) {ads : List (Ad E)} (hads : ads.Sublist s.scan) :
    Distinct (ads.filterMap jobID) := by
  refine ⟨(filterMap_jobID_sublist ads).nodup ((hads.map Ad.ids).nodup hs.scan), fun id hid => ?_⟩
  obtain ⟨ad, had, hadid⟩ := mem_filterMap.1 hid
  obtain ⟨k, hk, hget⟩ := mem_scan.1 (hads.subset had)
  have hids : ad.ids = k := (hs.get hget).ids hk
  rw [← jobID_ids hadid, hids]
  exact hk

/-- a constraint only looks, and names distinct procs -/
theorem matchConstraint_looks (parse : String → Option (Ad E → Bool)) (constraint : String) :
    Looks s (matchConstraint parse constraint) := by
  unfold matchConstraint
  dsimp only
  split_ifs
  · exact looks_scan.bind fun _ => looks_ret _
  · cases parse (String.ofList (Text.trimSpace constraint.toList)) with
    | none => exact looks_ret _
    | some => exact looks_scan.bind fun _ => looks_ret _

theorem matchConstraint_distinct (hs : s.Keyed) (parse : String → Option (Ad E → Bool)) (constraint : String) :
    Distinct (s.alone env (matchConstraint parse constraint)).1 := by
  unfold matchConstraint
  dsimp only
  split_ifs
  · exact distinct_scan hs (List.Sublist.refl _)
  · cases parse (String.ofList (Text.trimSpace constraint.toList)) with
    | none => exact ⟨nodup_nil, nofun⟩
    | some => exact distinct_scan hs filter_sublist

theorem parseToken_looks (tok : List Char) : Looks s (parseToken tok) := by
  unfold parseToken
  split_ifs
  · split <;> exact looks_ret _
  · split
    · exact looks_ret _
    · exact looks_scan.bind fun _ => looks_ret _

theorem parseTokens_looks (toks : List (List Char)) : Looks s (parseTokens toks) := by
  induction toks with
  | nil => exact looks_ret _
  | cons tok toks ih => exact (parseToken_looks tok).bind fun _ => ih.bind fun _ => looks_ret _

theorem targets_looks {parse : String → Option (Ad E → Bool)} {cmd : Command} {find : Go E (List JobKey)}
    (h : targets parse cmd = .ok find) : Looks s find := by
  unfold targets at h
  split at h
  · cases h
  · cases h
    exact matchConstraint_looks parse _
  · cases h
    exact parseTokens_looks _
  · cases h

/-- the ids a command names, in order, in the queue as it is -/
def Command.targetIDs (parse : String → Option (Ad E → Bool)) (s : Store E) (cmd : Command) : List JobKey :=
  match targets parse cmd with
  | .ok find => (s.alone (fun _ => smooth) find).1
  | .error _ => []

/-- those of a constraint are distinct procs -/
theorem targetIDs_constraint (hs : s.Keyed) (parse : String → Option (Ad E → Bool)) {cmd : Command}
    (hc : cmd.actionConstraint ≠ none) : Distinct (cmd.targetIDs parse s) := by
  unfold Command.targetIDs targets
  obtain ⟨constraint, hc⟩ := Option.ne_none_iff_exists'.1 hc
  rw [hc]
  cases cmd.actionIds with
  | some => exact ⟨nodup_nil, nofun⟩
  | none => exact matchConstraint_distinct hs parse constraint

/-! ## The phases -/

/-- the code the first phase gives a target, from the ad it reads -/
def targetCode (q : Queue E) (req : Option ActionRequest) (ad : Option (Ad E)) : ℤ :=
  match req with
  | none => arBadStatus
  | some req => q.actionCode req ad

/-- the codes of the targets, from the queue as it is -/
def codesOf (q : Queue E) (s : Store E) (req : Option ActionRequest) (ids : List JobKey) : List (JobKey × ℤ) :=
  ids.map fun k => (k, targetCode q req (s.get k))

theorem checkAction_store (q : Queue E) (k : JobKey) (req : ActionRequest) :
    (s.alone env (q.checkAction k req)).2.1 = s := by
  simp only [Queue.checkAction, Queue.actOnJob, bind_eq, alone_bind, alone_get]
  cases s.get k with
  | none => rfl
  | some ad =>
    by_cases hmay : q.mayAct req ad = true
    · simp only [hmay, not_true, if_false, alone_bind, alone_clock]
      cases req.kind with
      | hold => simp only [Queue.holdJob]; split_ifs <;> first | rfl | contradiction
      | release => simp only [Queue.releaseJob]; split_ifs <;> first | rfl | contradiction
      | remove | removeX => simp only [Queue.removeJob]; split_ifs <;> first | rfl | contradiction
    · simp only [hmay]
      rfl

/-- the first phase reads the codes off the queue and leaves it -/
theorem checkAll_alone (q : Queue E) (req : Option ActionRequest) (ids : List JobKey) :
    (s.alone env (checkAll q req ids)).1 = codesOf q s req ids ∧
      (s.alone env (checkAll q req ids)).2.1 = s := by
  induction ids generalizing env with
  | nil => exact ⟨rfl, rfl⟩
  | cons k ids ih =>
    cases req with
    | none =>
      simp only [checkAll, bind_eq, pure_eq, ret_bind, alone_bind, alone_ret, ih]
      exact ⟨rfl, trivial⟩
    | some req =>
      have hcode : (s.alone env (q.checkAction k req)).1.1 = q.actionCode req (s.get k) :=
        actOnJob_code q true s k req false nofun
      simp only [checkAll, bind_eq, pure_eq, alone_bind, alone_ret, checkAction_store, ih, hcode]
      exact ⟨rfl, trivial⟩

/-- the targets one after the other, each acted on -/
def applyEach (q : Queue E) (hook : Bool) (req : ActionRequest) : List JobKey → Go E (List (JobKey × ℤ))
  | [] => pure []
  | k :: ks => do
    let r ← q.applyAction hook k req
    let done ← applyEach q hook req ks
    pure ((k, r.1) :: done)

/-- the second phase acts on the targets that are fit -/
theorem applyAll_eq (q : Queue E) (hook : Bool) (req : ActionRequest) (codes : List (JobKey × ℤ)) :
    applyAll q hook req codes = applyEach q hook req (fit codes) := by
  induction codes with
  | nil => rfl
  | cons e codes ih =>
    rw [applyAll, ih]
    by_cases hsucc : e.2 = arSuccess
    · have hfit : fit (e :: codes) = e.1 :: fit codes := by simp [fit, hsucc]
      rw [if_pos hsucc, hfit, applyEach]
    · have hfit : fit (e :: codes) = fit codes := by simp [fit, hsucc]
      rw [if_neg hsucc, hfit]

/-- whatever the codes, every target of the list has its turn -/
theorem applyEach_fst (q : Queue E) (hook : Bool) (req : ActionRequest) (ks : List JobKey) :
    (s.alone env (applyEach q hook req ks)).1.map Prod.fst = ks := by
  induction ks generalizing s env with
  | nil => rfl
  | cons k ks ih => simp only [applyEach, bind_eq, pure_eq, alone_bind, alone_ret,
    map_cons, ih]

/-- the store once an action has dealt with a key -/
def acted (s : Store E) (req : ActionRequest) (now : ℤ) (k : JobKey) : Store E :=
  match s.get k with
  | none => s
  | some ad =>
    match req.kind with
    | .hold => s.put k (Queue.holdAd req (ad.int0 .jobStatus) now ad)
    | .release => s.put k (Queue.releaseAd req now ad)
    | .remove => s.delete k
    | .removeX => s.delete k

/-- an action that succeeds has dealt with its key, at the time it reads -/
theorem applyAction_acted (q : Queue E) (hook : Bool) {k : JobKey} (req : ActionRequest)
    (hr : (s.alone env (q.applyAction hook k req)).1.1 = arSuccess) :
    (s.alone env (q.applyAction hook k req)).2.1 = acted s req (env 1).now k := by
  unfold Queue.applyAction at hr ⊢
  unfold acted
  cases hb : s.get k with
  | none =>
    simp only [Queue.actOnJob, bind_eq, alone_bind, alone_get, hb] at hr
    exact absurd (show arNotFound = arSuccess from hr) (by decide)
  | some =>
    have hrun := actOnJob_alone q hook req hb hr
    rw [hrun] at hr ⊢
    cases hkind : req.kind with
    | hold =>
      simp only [hkind] at hr
      exact holdJob_alone hook req _ hr
    | release =>
      simp only [hkind] at hr
      exact releaseJob_alone req _ hr
    | remove | removeX =>
      simp only [hkind] at hr
      exact removeJob_alone req hook _ hr

section Dealt

variable {req : ActionRequest} {k k' : JobKey} {now : ℤ}

theorem lookup_acted_ne (hne : k' ≠ k) : (acted s req now k).lookup k' = s.lookup k' := by
  unfold acted
  cases s.get k with
  | none => rfl
  | some => cases req.kind <;> simp only [lookup_put, lookup_delete, if_neg hne]

/-- what becomes of a cluster ad depends on that ad alone -/
theorem lookup_acted_cluster {s' : Store E} {c : ℤ} (h : s'.lookup (clusterKey c) = s.lookup (clusterKey c)) :
    (acted s' req now (clusterKey c)).lookup (clusterKey c) =
    (acted s req now (clusterKey c)).lookup (clusterKey c) := by
  have hread : s'.get (clusterKey c) = s.get (clusterKey c) := by
    rw [get_neg s' (by simp), get_neg s (by simp), h]
  unfold acted
  rw [hread]
  cases s.get (clusterKey c) with
  | none => exact h
  | some => cases req.kind <;> simp only [lookup_put, lookup_delete, if_true]

/-- the store `s'` once the keys of `done` have been dealt with, each once and at one of the times `T`; a proc that has
been dealt with is of no interest any more -/
structure Dealt (req : ActionRequest) (T : Set ℤ) (s : Store E) (done : List JobKey) (s' : Store E) : Prop where
  same : ∀ k ∉ done, s'.lookup k = s.lookup k
  cluster : ∀ c, clusterKey c ∈ done →
    ∃ now ∈ T, s'.lookup (clusterKey c) = (acted s req now (clusterKey c)).lookup (clusterKey c)

variable {T : Set ℤ} {done : List JobKey} {s' : Store E}

theorem Dealt.next (h : Dealt req T s done s') (hk : k ∉ done) (hnow : now ∈ T) :
    Dealt req T s (k :: done) (acted s' req now k) := by
  refine ⟨fun k' hk' => ?_, fun c hc => ?_⟩
  · obtain ⟨hne, hnot⟩ := not_or.1 (mem_cons.not.1 hk')
    rw [lookup_acted_ne hne, h.same k' hnot]
  · by_cases heq : clusterKey c = k
    · subst heq
      exact ⟨now, hnow, lookup_acted_cluster (h.same _ hk)⟩
    · rw [lookup_acted_ne heq]
      exact h.cluster c ((mem_cons.1 hc).resolve_left heq)

/-- a key that has not had its turn is read as at first, unless it is a proc whose cluster ad has been dealt with -/
theorem Dealt.get (h : Dealt req T s done s') (hk : k ∉ done) (hfirst : 0 ≤ k.proc → clusterKey k.cluster ∉ done) :
    s'.get k = s.get k := get_congr (h.same k hk) fun hproc => h.same _ (hfirst hproc)

theorem Dealt.get_behind (h : Dealt req T s done s') (hk : k ∉ done) (hproc : 0 ≤ k.proc)
    (hc : clusterKey k.cluster ∈ done) : ∃ now ∈ T, s'.get k = (acted s req now (clusterKey k.cluster)).get k := by
  obtain ⟨now, hnow, hcluster⟩ := h.cluster k.cluster hc
  refine ⟨now, hnow, get_congr ?_ fun _ => hcluster⟩
  rw [lookup_acted_ne (proc_ne_clusterKey hproc _), h.same k hk]

/-- the procs of the list that come behind their cluster ad, or whose cluster ad was dealt with before, are fit once it
has been -/
def StaysFit (q : Queue E) (s : Store E) (req : ActionRequest) (done ks : List JobKey) (now : ℤ) : Prop :=
  ∀ k ∈ ks, 0 ≤ k.proc → clusterKey k.cluster ∈ done ∨ [clusterKey k.cluster, k].Sublist ks →
    q.actionCode req ((acted s req now (clusterKey k.cluster)).get k) = arSuccess

variable {q : Queue E} {ks : List JobKey}

theorem StaysFit.tail (h : StaysFit q s req done (k :: ks) now) : StaysFit q s req (k :: done) ks now := by
  intro k' hk' hproc hbehind
  refine h k' (mem_cons_of_mem k hk') hproc ?_
  rcases hbehind with hc | hsub
  · rcases mem_cons.1 hc with heq | hc
    · rw [heq]
      exact .inr ((singleton_sublist.2 hk').cons_cons k)
    · exact .inl hc
  · exact .inr (hsub.cons k)

theorem StaysFit.cons (hk : k ∉ ks) (hhead : 0 ≤ k.proc → clusterKey k.cluster ∈ done →
      q.actionCode req ((acted s req now (clusterKey k.cluster)).get k) = arSuccess)
    (h : StaysFit q s req (k :: done) ks now) : StaysFit q s req done (k :: ks) now := by
  intro k' hk' hproc hbehind
  rcases mem_cons.1 hk' with rfl | hk'
  · refine hhead hproc (hbehind.resolve_right fun hsub => ?_)
    rcases sublist_cons_iff.1 hsub with hsub | ⟨r, heq, hsub⟩
    · exact hk (hsub.subset (by simp))
    · obtain ⟨-, rfl⟩ := cons.inj heq
      exact hk (hsub.subset (by simp))
  · refine h k' hk' hproc ?_
    rcases hbehind with hc | hsub
    · exact .inl (mem_cons_of_mem k hc)
    · rcases sublist_cons_iff.1 hsub with hsub | ⟨r, heq, -⟩
      · exact .inr hsub
      · exact .inl (mem_cons.2 (.inl (cons.inj heq).1))

/-- no write fails, and the clock reads times of `T` -/
def Smooth (T : Set ℤ) (env : ℕ → Choice) : Prop := ∀ n, (env n).ok = true ∧ (env n).now ∈ T

omit [ClassAdLib E] in
theorem Smooth.after (h : Smooth T env) (s : Store E) (p : Go E α) : Smooth T (s.alone env p).2.2 :=
  alone_env (P := fun ch => ch.ok = true ∧ ch.now ∈ T) s h p

/-- **The turns.** Over distinct targets that are fit at first, every action succeeds if those named behind their
cluster ad stay fit, and only then when the clock stands still. -/
theorem applyEach_success (hook : Bool) (hdealt : Dealt req T s done s') (hnodup : ks.Nodup)
    (hnew : ∀ k ∈ ks, k ∉ done) (hfit : ∀ k ∈ ks, q.actionCode req (s.get k) = arSuccess)
    (henv : Smooth T env) :
    ((∀ now ∈ T, StaysFit q s req done ks now) →
        ∀ e ∈ (s'.alone env (applyEach q hook req ks)).1, e.2 = arSuccess) ∧
      ((∀ e ∈ (s'.alone env (applyEach q hook req ks)).1, e.2 = arSuccess) →
        ∀ t, T = {t} → StaysFit q s req done ks t) := by
  induction ks generalizing s' env done with
  | nil => exact ⟨fun _ => nofun, fun _ _ _ => nofun⟩
  | cons k ks ih =>
    obtain ⟨hk, hnodup⟩ := nodup_cons.1 hnodup
    have hcode : (s'.alone env (q.applyAction hook k req)).1.1 = q.actionCode req (s'.get k) :=
      actOnJob_code q hook s' k req true fun _ n => (henv n).1
    have hkdone := hnew k mem_cons_self
    have hrest : ∀ k' ∈ ks, k' ∉ k :: done := fun k' hk' hin =>
      (mem_cons.1 hin).elim (fun heq => hk (heq ▸ hk')) (hnew k' (mem_cons_of_mem k hk'))
    have hrun : (s'.alone env (applyEach q hook req (k :: ks))).1 =
        (k, q.actionCode req (s'.get k)) :: ((s'.alone env (q.applyAction hook k req)).2.1.alone
          (s'.alone env (q.applyAction hook k req)).2.2 (applyEach q hook req ks)).1 := by
      simp only [applyEach, bind_eq, pure_eq, alone_bind, alone_ret, hcode]
    -- once the first target is dealt with, the others are in the same position
    have hnext := fun hsucc : q.actionCode req (s'.get k) = arSuccess =>
      ih (applyAction_acted q hook req (hcode.trans hsucc) ▸ hdealt.next hkdone (henv 1).2) hnodup hrest
        (fun k' hk' => hfit k' (mem_cons_of_mem k hk'))
        (henv.after s' (q.applyAction hook k req))
    rw [hrun]
    refine ⟨fun hstays e he => ?_, fun hall t ht => ?_⟩
    · have hsucc : q.actionCode req (s'.get k) = arSuccess := by
        by_cases hbehind : 0 ≤ k.proc ∧ clusterKey k.cluster ∈ done
        · obtain ⟨now, hnow, hread⟩ := hdealt.get_behind hkdone hbehind.1 hbehind.2
          rw [hread]
          exact hstays now hnow k mem_cons_self hbehind.1 (.inl hbehind.2)
        · rw [hdealt.get hkdone fun hproc hc => hbehind ⟨hproc, hc⟩]
          exact hfit k mem_cons_self
      rcases mem_cons.1 he with rfl | he
      · exact hsucc
      · exact (hnext hsucc).1 (fun now hnow => (hstays now hnow).tail) e he
    · have hsucc := hall _ mem_cons_self
      refine StaysFit.cons hk (fun hproc hc =>
        ?_) ((hnext hsucc).2 (fun e he => hall e (mem_cons_of_mem _ he)) t ht)
      obtain ⟨_, hnow, hread⟩ := hdealt.get_behind hkdone hproc hc
      rw [ht, Set.mem_singleton_iff] at hnow
      rw [← hnow, ← hread]
      exact hsucc

end Dealt

/-! ## The handler's report -/

/-- the successes announced are those that come about, and each target announced as one is acted on exactly once -/
def Reply.Reports (r : Reply) : Prop :=
  r.result.announced = successes r.applied ∧ ∀ k, (k, arSuccess) ∈ r.codes → (r.applied.map Prod.fst).count k = 1

/-- when the targets announced have their turns, the report is right if none is named twice and every turn succeeds -/
theorem reports_iff {codes applied : List (JobKey × ℤ)} {resultType actionNum total : ℤ} {super : Bool}
    (hcodes : ∀ k n n', (k, n) ∈ codes → (k, n') ∈ codes → n = n') (happlied : applied.map Prod.fst = fit codes) :
    (Reply.mk (resultAd (resultSets resultType codes actionNum total super)) codes applied).Reports ↔
      (fit codes).Nodup ∧ ∀ e ∈ applied, e.2 = arSuccess := by
  have honce : (∀ k, (k, arSuccess) ∈ codes → (fit codes).count k = 1) ↔ (fit codes).Nodup := by
    rw [nodup_iff_count_eq_one]
    exact forall_congr' fun k => by rw [mem_fit]
  have hall : applied.length = successes applied ↔ ∀ e ∈ applied, e.2 = arSuccess := by
    rw [eq_comm, successes, countP_eq_length]
    simp
  rw [Reply.Reports, happlied, honce, announced_eq hcodes, and_comm, ← hall]
  refine and_congr_right fun hnodup => ?_
  rw [hnodup.dedup, ite_self, Nat.cast_inj, ← happlied, length_map]

/-- the request a command makes of the queue, if its action affects jobs here -/
def Command.asked (cmd : Command) (authUser : String) : Option ActionRequest :=
  (cmd.jobAction.bind actionKind).join.map (cmd.request authUser)

section Serve

variable (q : Queue E) (hook : Bool) (authUser : String) (cmd : Command) (actionNum : ℤ) (ids : List JobKey)

theorem codesOf_one (req : Option ActionRequest) (k : JobKey) (n n' : ℤ) (h : (k, n) ∈ codesOf q q.coll req ids)
    (h' : (k, n') ∈ codesOf q q.coll req ids) : n = n' := by
  obtain ⟨_, -, heq⟩ := mem_map.1 h
  obtain ⟨_, -, heq'⟩ := mem_map.1 h'
  cases heq
  cases heq'
  rfl

theorem fit_none : fit (codesOf q q.coll none ids) = [] := by
  simp [fit, codesOf, targetCode, arBadStatus, arSuccess]

/-- an action that affects no job here announces nothing and does nothing -/
theorem serve_none (ack : Option ℤ) :
    (q.coll.alone env (serve q hook authUser cmd actionNum none ids ack)).1.Reports := by
  obtain ⟨hcodes, hstore⟩ : (q.coll.alone env (checkAll q none ids)).1 = codesOf q q.coll none ids ∧
      (q.coll.alone env (checkAll q none ids)).2.1 = q.coll := checkAll_alone q none ids
  have hunfit := fit_none q ids
  simp only [serve, bind_eq, alone_bind, hcodes, hstore, alone_scan]
  exact (reports_iff (codesOf_one q ids none) (show [].map Prod.fst = _ from hunfit.symm)).2
    ⟨hunfit ▸ nodup_nil, nofun⟩

variable (req : ActionRequest) {T : Set ℤ}

/-- the second phase, acked, gives each target that is fit its turn -/
theorem serve_some (henv : Smooth T env) :
    ∃ env', Smooth T env' ∧
      (q.coll.alone env (serve q hook authUser cmd actionNum (some req) ids (some wireOK))).1 =
        ⟨resultAd (resultSets cmd.resultType (codesOf q q.coll (some req) ids) actionNum q.coll.scan.length
          (q.isSuperUser authUser)), codesOf q q.coll (some req) ids,
          (q.coll.alone env' (applyEach q hook req (fit (codesOf q q.coll (some req) ids)))).1⟩ := by
  obtain ⟨hcodes, hstore⟩ : (q.coll.alone env (checkAll q (some req) ids)).1 = codesOf q q.coll (some req) ids ∧
      (q.coll.alone env (checkAll q (some req) ids)).2.1 = q.coll := checkAll_alone q (some req) ids
  refine ⟨fun n => (q.coll.alone env (checkAll q (some req) ids)).2.2 (n + 1), fun n =>
    henv.after q.coll (checkAll q (some req) ids) (n + 1), ?_⟩
  simp only [serve, bind_eq, alone_bind, hcodes, hstore, alone_scan]
  split_ifs with hnone
  · have hempty : fit (codesOf q q.coll (some req) ids) = [] :=
      length_eq_zero_iff.1 ((fit_length _).trans (hnone.resolve_right fun hack => hack rfl))
    rw [hempty]
    rfl
  · rw [← applyAll_eq]
    exact congrArg Prod.fst (alone_bind q.coll _ _ _)

/-- one request served: the report is right if no target is named twice and those behind their cluster ad stay fit -/
theorem serve_reports (henv : Smooth T env) :
    let done := fit (codesOf q q.coll (some req) ids)
    let r := (q.coll.alone env (serve q hook authUser cmd actionNum (some req) ids (some wireOK))).1
    (done.Nodup → (∀ now ∈ T, StaysFit q q.coll req [] done now) → r.Reports) ∧
      (r.Reports → done.Nodup ∧ ∀ t, T = {t} → StaysFit q q.coll req [] done t) := by
  obtain ⟨_, henv', hrun⟩ := serve_some q hook authUser cmd actionNum ids req henv
  have hfit : ∀ k ∈ fit (codesOf q q.coll (some req) ids), q.actionCode req (q.coll.get k) = arSuccess := by
    intro k hk
    obtain ⟨_, -, heq⟩ := mem_map.1 (mem_fit.1 hk)
    obtain ⟨rfl, hcode⟩ := Prod.mk.inj heq
    exact hcode
  have hturns := fun hnodup => applyEach_success (q := q) hook
    (⟨fun _ _ => rfl, fun _ => nofun⟩ : Dealt req T q.coll [] q.coll) hnodup (fun _ _ => nofun) hfit henv'
  dsimp only
  rw [hrun, reports_iff (codesOf_one q ids (some req)) (applyEach_fst q hook req _)]
  exact ⟨fun hnodup hstays => ⟨hnodup, (hturns hnodup).1 hstays⟩,
    fun h => ⟨h.1, (hturns h.1).2 h.2⟩⟩

variable {q hook authUser cmd}

/-- a request that is not refused finds its targets and serves them -/
theorem handle_ok {parse : String → Option (Ad E → Bool)} {ack : Option ℤ} {prog : Go E Reply}
    (h : handle q hook parse authUser cmd ack = .ok prog) :
    ∃ actionNum find, targets parse cmd = .ok find ∧
      prog = find.bind fun ids => serve q hook authUser cmd actionNum (cmd.asked authUser) ids ack := by
  unfold handle at h
  unfold Command.asked
  cases hnum : cmd.jobAction with
  | none => rw [hnum] at h; cases h
  | some actionNum =>
    rw [hnum] at h
    dsimp only at h
    cases hkind : actionKind actionNum with
    | none => rw [hkind] at h; cases h
    | some =>
      rw [hkind] at h
      dsimp only at h
      cases htargets : targets parse cmd with
      | error => rw [htargets] at h; cases h
      | ok find =>
        rw [htargets] at h
        cases h
        exact ⟨actionNum, find, rfl, by simp [hkind]⟩

end Serve

/-- the ids of a command that are fit for its action, in order -/
def fitIDs (q : Queue E) (parse : String → Option (Ad E → Bool)) (authUser : String) (cmd : Command) : List JobKey :=
  (cmd.targetIDs parse q.coll).filter fun k => targetCode q (cmd.asked authUser) (q.coll.get k) = arSuccess

section Report

variable (q : Queue E) (hook : Bool) (parse : String → Option (Ad E → Bool)) (authUser : String) (cmd : Command)
  (prog : Go E Reply) (hprog : handle q hook parse authUser cmd (some wireOK) = .ok prog)

theorem fitIDs_eq : fitIDs q parse authUser cmd =
    fit (codesOf q q.coll (cmd.asked authUser) (cmd.targetIDs parse q.coll)) := by
  rw [fitIDs, fit, codesOf, filter_map, map_map]
  exact (map_id _).symm

variable {q hook parse authUser cmd prog}

include hprog

/-- a request handled is its targets served -/
theorem handle_serves {T : Set ℤ} (henv : Smooth T env) :
    ∃ actionNum, ∃ env', Smooth T env' ∧
      (q.coll.alone env prog).1 = (q.coll.alone env' (serve q hook authUser cmd actionNum (cmd.asked authUser)
        (cmd.targetIDs parse q.coll) (some wireOK))).1 := by
  obtain ⟨actionNum, find, hfind, rfl⟩ := handle_ok hprog
  obtain ⟨hids, hstore⟩ := (targets_looks (s := q.coll) hfind) env
  refine ⟨actionNum, _, henv.after q.coll find, ?_⟩
  rw [alone_bind, hstore, hids, Command.targetIDs, hfind]

theorem handle_reports {T : Set ℤ} (henv : Smooth T env) :
    let ids := fitIDs q parse authUser cmd
    (ids.Nodup → (∀ req ∈ cmd.asked authUser, ∀ now ∈ T, StaysFit q q.coll req [] ids now) →
        (q.coll.alone env prog).1.Reports) ∧
      ((q.coll.alone env prog).1.Reports → ids.Nodup ∧
        ∀ req ∈ cmd.asked authUser, ∀ t, T = {t} → StaysFit q q.coll req [] ids t) := by
  obtain ⟨actionNum, _, henv', hrun⟩ := handle_serves hprog henv
  dsimp only
  rw [hrun, fitIDs_eq]
  cases cmd.asked authUser with
  | none =>
    have hunfit : fit (codesOf q q.coll none (cmd.targetIDs parse q.coll)) = [] := fit_none q _
    rw [hunfit]
    exact ⟨fun _ _ => serve_none q hook authUser cmd actionNum _ _, fun _ => ⟨nodup_nil, nofun⟩⟩
  | some req =>
    obtain ⟨hif, honly⟩ := serve_reports q hook authUser cmd actionNum (cmd.targetIDs parse q.coll) req henv'
    exact ⟨fun hnodup hstays => hif hnodup (hstays req rfl),
      fun h => ⟨(honly h).1, fun _ heq t ht => Option.some.inj heq ▸ (honly h).2 t ht⟩⟩

end Report

/-- **ACT_ON_JOBS reports what it does** when the ids it parses allow it, and only then. With no write of the queue
failing and nothing else changing it, the successes announced before the ack are those of the actions that follow, each
target announced being acted on once, whatever the clock reads, exactly when no id that is fit for the action stands in
the list twice and each proc that stands behind its own cluster ad is still fit once that ad has been acted on. What a
constraint finds is of this kind. -/
theorem announced_is_done_iff (q : Queue E) (hook : Bool) (parse : String → Option (Ad E → Bool)) (authUser : String)
    (cmd : Command) (prog : Go E Reply) (hprog : handle q hook parse authUser cmd (some wireOK) = .ok prog) :
    let ids := fitIDs q parse authUser cmd
    let right := ∀ env : ℕ → Choice, (∀ n, (env n).ok = true) → (q.coll.alone env prog).1.Reports
    (right ↔ ids.Nodup ∧ ∀ req ∈ cmd.asked authUser, ∀ k, 0 ≤ k.proc → [clusterKey k.cluster, k].Sublist ids → ∀ now,
        q.actionCode req ((acted q.coll req now (clusterKey k.cluster)).get k) = arSuccess) ∧
      (q.coll.Keyed → cmd.actionConstraint ≠ none → right) := by
  have hif : (fitIDs q parse authUser cmd).Nodup →
      (∀ req ∈ cmd.asked authUser, ∀ now, StaysFit q q.coll req [] (fitIDs q parse authUser cmd) now) →
      ∀ env : ℕ → Choice, (∀ n, (env n).ok = true) → (q.coll.alone env prog).1.Reports :=
    fun hnodup hstays env henv => (handle_reports (T := Set.univ) hprog fun n => ⟨henv n, trivial⟩).1 hnodup
      fun req hreq now _ => hstays req hreq now
  refine ⟨⟨fun hright => ⟨?_, fun req hreq k hproc hsub now => ?_⟩, fun ⟨hnodup, hstays⟩ => hif hnodup ?_⟩, ?_⟩
  · exact ((handle_reports (T := Set.univ) hprog fun _ => ⟨rfl, trivial⟩).2 (hright (fun _ => smooth) fun _ => rfl)).1
  · -- the clock stands still at the time in question
    have hclock : Smooth {now} fun _ => { smooth with now := now } := fun _ => ⟨rfl, rfl⟩
    have hat := (handle_reports hprog hclock).2 (hright _ fun _ => rfl)
    exact hat.2 req hreq now rfl k (hsub.subset (by simp)) hproc (.inr hsub)
  · exact fun req hreq now k _ hproc hbehind => hstays req hreq k hproc (hbehind.resolve_left nofun) now
  · intro hq hc
    obtain ⟨hnodup, hprocs⟩ := targetIDs_constraint hq parse hc
    refine hif (hnodup.filter _) fun req _ now k _ hproc hbehind => ?_
    have hmem := (hbehind.resolve_left nofun).subset mem_cons_self
    exact absurd (hprocs _ (mem_filter.1 hmem).1) (by simp)

/-! ### A job named twice -/

/-- the removal of the jobs named -/
def removal (ids : String) : Command where
  jobAction := some 3
  actionResultType := none
  holdReasonSubCode := none
  holdReason := none
  releaseReason := none
  removeReason := none
  actionConstraint := none
  actionIds := some ids

/-- alice's request on a queue with one job -/
def aliceRequests (ids : String) : Except String (Go Value Reply) :=
  handle aliceQueue true (fun _ => none) "alice@pool" (removal ids) (some wireOK)

/-- what is announced, and what is applied -/
def outcome (prog : Go Value Reply) : ℤ × List (JobKey × ℤ) :=
  let r := (aliceQueue.coll.alone (fun _ => smooth) prog).1
  (r.result.announced, r.applied)

/-- the jobs of cluster 1, and twice a job that is not there: one success, one removal -/
theorem removed_as_announced :
    ∃ prog, aliceRequests "1, 7.0, 7.0" = .ok prog ∧ outcome prog = (1, [(⟨1, 0⟩, arSuccess)]) ∧
      ∀ env : ℕ → Choice, (∀ n, (env n).ok = true) → (aliceQueue.coll.alone env prog).1.Reports := by
  obtain ⟨prog, hprog⟩ : ∃ prog, aliceRequests "1, 7.0, 7.0" = .ok prog := ⟨_, rfl⟩
  have hrun : (aliceRequests "1, 7.0, 7.0").toOption.map outcome = some (1, [(⟨1, 0⟩, arSuccess)]) := by decide +kernel
  have hids : fitIDs aliceQueue (fun _ => none) "alice@pool" (removal "1, 7.0, 7.0") = [⟨1, 0⟩] := by decide +kernel
  rw [hprog] at hrun
  refine ⟨prog, hprog, Option.some.inj hrun, ?_⟩
  refine (announced_is_done_iff aliceQueue true (fun _ => none) "alice@pool" (removal "1, 7.0, 7.0") prog hprog).1.2 ?_
  rw [hids]
  exact ⟨nodup_singleton _, fun _ _ _ _ hsub => absurd hsub.length_le (by simp)⟩

/-- a job named twice, and a job named with its cluster: two successes are announced, the second removal finds nothing
-/
theorem repeated_id_announced_twice :
    (aliceRequests "1.0,1.0").toOption.map outcome = some (2, [(⟨1, 0⟩, arSuccess), (⟨1, 0⟩, arNotFound)]) ∧
      (aliceRequests "1 1.0").toOption.map outcome = some (2, [(⟨1, 0⟩, arSuccess), (⟨1, 0⟩, arNotFound)]) := by
  decide +kernel

end Actions

end AccessPoint

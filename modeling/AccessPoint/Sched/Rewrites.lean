/-
What each rewrite of a job ad leaves alone.

The core, the actions and the end of an upload rewrite an ad in a fixed set of attributes; every other attribute stays.
One lemma for each rewrite says which attributes these are (`Ad.ButFor`); what later modules need about ids, claims and
counters follows by looking an attribute up in the list.
-/
import AccessPoint.Spool
import AccessPoint.Sched.Core

namespace AccessPoint

open ClassAdLib

variable {E : Type}

/-- `ad'` is `ad` but for attributes in `S` -/
def Ad.ButFor (S : List Attr) (ad ad' : Ad E) : Prop := ∀ a ∉ S, ad' a = ad a

namespace Ad.ButFor

variable {S : List Attr} {ad ad' ad'' : Ad E} {b : Attr}

theorem refl (ad : Ad E) : ButFor S ad ad := fun _ _ => rfl

theorem insertExpr (h : ButFor S ad ad') (e : E) (hb : b ∈ S) : ButFor S ad (ad'.insertExpr b e) := by
  intro a ha
  have hne : a ≠ b := fun he => ha (he ▸ hb)
  rw [Ad.insertExpr_apply, if_neg hne]
  exact h a ha

theorem delete (h : ButFor S ad ad') (hb : b ∈ S) : ButFor S ad (ad'.delete b) := by
  intro a ha
  have hne : a ≠ b := fun he => ha (he ▸ hb)
  rw [Ad.delete_apply, if_neg hne]
  exact h a ha

theorem deletes (h : ButFor S ad ad') (bs : List Attr) (hbs : bs ⊆ S) : ButFor S ad (bs.foldl Ad.delete ad') := by
  induction bs generalizing ad' with
  | nil => exact h
  | cons b bs ih => exact ih (h.delete (hbs List.mem_cons_self)) fun a ha => hbs (List.mem_cons_of_mem b ha)

theorem branch {c : Prop} [Decidable c] (h : ButFor S ad ad') (h' : ButFor S ad ad'') :
    ButFor S ad (if c then ad' else ad'') := by
  split_ifs
  · exact h
  · exact h'

variable [ClassAdLib E]

theorem set (h : ButFor S ad ad') (v : Value) (hb : b ∈ S) : ButFor S ad (ad'.set b v) := h.insertExpr _ hb

theorem setInt (h : ButFor S ad ad') (i : ℤ) (hb : b ∈ S) : ButFor S ad (ad'.setInt b i) := h.set _ hb

theorem setStr (h : ButFor S ad ad') (s : String) (hb : b ∈ S) : ButFor S ad (ad'.setStr b s) := h.set _ hb

theorem bump (h : ButFor S ad ad') (hb : b ∈ S) : ButFor S ad (bump ad' b) := h.setInt _ hb

theorem setIfAbsent (h : ButFor S ad ad') (i : ℤ) (hb : b ∈ S) : ButFor S ad (setIfAbsent ad' b i) :=
  h.branch (h.setInt i hb)

theorem moveTo (h : ButFor S ad ad') (last status now : ℤ)
    (hS : [.lastJobStatus, .jobStatus, .enteredCurrentStatus] ⊆ S) :
    ButFor S ad (moveTo ad' last status now) :=
  ((h.setInt last (hS (by decide))).setInt status (hS (by decide))).setInt now (hS (by decide))

omit [ClassAdLib E] in
theorem stripRunAttrs (h : ButFor S ad ad') (hS : [.claimId, .startdIpAddr, .lastJobLeaseRenewal] ⊆ S) :
    ButFor S ad (stripRunAttrs ad') :=
  ((h.delete (hS (by decide))).delete (hS (by decide))).delete (hS (by decide))

theorem leaveHost (h : ButFor S ad ad') (hS : [.remoteHost, .lastRemoteHost] ⊆ S) : ButFor S ad (leaveHost ad') := by
  intro a ha
  rw [leaveHost_apply _ (fun he => ha (hS (by simp [he]))) fun he => ha (hS (by simp [he]))]
  exact h a ha

end Ad.ButFor

variable [ClassAdLib E]

/-! ## The core -/

/-- the status and its dates -/
def statusAttrs : List Attr := [.lastJobStatus, .jobStatus, .enteredCurrentStatus]

/-- where the job runs -/
def placeAttrs : List Attr := [.remoteHost, .lastRemoteHost, .claimId, .startdIpAddr, .lastJobLeaseRenewal]

/-- why the job is held -/
def reasonAttrs : List Attr := [.holdReason, .holdReasonCode, .holdReasonSubCode, .numHolds]

def startedAttrs : List Attr :=
  statusAttrs ++ placeAttrs ++
    [.jobCurrentStartDate, .jobStartDate, .numJobStarts, .numShadowStarts, .jobRunCount, .shadowBday, .jobLeaseDuration]

def exitedAttrs : List Attr :=
  placeAttrs ++ [.exitCode, .exitBySignal, .exitStatus, .exitSignal, .remoteWallClockTime, .numJobCompletions,
    .lastJobStatus]

def failedAttrs : List Attr :=
  statusAttrs ++ placeAttrs ++ reasonAttrs ++
    [.numShadowExceptions, .vacateReason, .vacateReasonCode, .vacateReasonSubCode]

theorem startedAd_butFor (cfg : SchedConfig E) (slotName claimID : String) (now : ℤ) (ad : Ad E) :
    ad.ButFor startedAttrs (startedAd cfg slotName claimID now ad) := by
  have hmoved : ad.ButFor startedAttrs (moveTo ad (ad.int0 .jobStatus) statusRunning now) :=
    (Ad.ButFor.refl ad).moveTo _ _ _ (by decide)
  have hstarted := (((hmoved.setStr (b := .remoteHost) slotName (by decide)).setInt (b := .jobCurrentStartDate) now
    (by decide)).setIfAbsent (b := .jobStartDate) now (by decide))
  have hcounted := (((hstarted.bump (b := .numJobStarts) (by decide)).bump (b := .numShadowStarts) (by decide)).bump
    (b := .jobRunCount) (by decide)).setInt (b := .shadowBday) now (by decide)
  have hclaim := hcounted.setStr (b := .claimId) claimID (by decide)
  exact ((Ad.ButFor.branch (.branch (hclaim.setStr _ (by decide)) hclaim) hcounted).setIfAbsent _ (by decide)).setInt _
    (by decide)

theorem exitedAd_butFor (res : RunResult) (now : ℤ) (ad : Ad E) : ad.ButFor exitedAttrs (exitedAd res now ad) := by
  unfold exitedAd
  extract_lets bare coded clocked
  have hleft : ad.ButFor exitedAttrs bare := ((Ad.ButFor.refl ad).leaveHost (by decide)).stripRunAttrs (by decide)
  have hcode : ad.ButFor exitedAttrs coded := by
    unfold coded
    split
    · exact ((hleft.setInt _ (by decide)).set _ (by decide)).setInt _ (by decide)
    · exact (hleft.set _ (by decide)).setInt _ (by decide)
    · exact ((hleft.set _ (by decide)).setInt _ (by decide)).setInt _ (by decide)
  refine (Ad.ButFor.bump ?_ (by decide)).setInt _ (by decide)
  unfold clocked
  split
  · exact .branch (hcode.setInt _ (by decide)) hcode
  · exact hcode

theorem requeuedAd_butFor (now : ℤ) (ad : Ad E) : ad.ButFor (statusAttrs ++ placeAttrs) (requeuedAd now ad) :=
  (((Ad.ButFor.refl ad).leaveHost (by decide)).stripRunAttrs (by decide)).moveTo _ _ _ (by decide)

theorem heldOnExitAd_butFor (reason : String) (code sub now : ℤ) (ad : Ad E) :
    ad.ButFor (statusAttrs ++ reasonAttrs) (heldOnExitAd reason code sub now ad) :=
  (((((Ad.ButFor.refl ad).moveTo _ _ _ (by decide)).setStr _ (by decide)).setInt _ (by decide)).setInt _
    (by decide)).bump (by decide)

theorem failedBase_butFor (now : ℤ) (ad : Ad E) : ad.ButFor (statusAttrs ++ placeAttrs) (failedBase now ad) :=
  ((((Ad.ButFor.refl ad).leaveHost (by decide)).stripRunAttrs (by decide)).setInt _ (by decide)).setInt _ (by decide)

theorem failedAd_butFor (cfg : SchedConfig E) (why : String) (count : Bool) (now : ℤ) (ad : Ad E) :
    ad.ButFor failedAttrs (failedAd cfg why count now ad) := by
  have hbase : ad.ButFor failedAttrs (failedBase now ad) := fun a ha =>
    failedBase_butFor now ad a fun hin => ha (List.mem_append_left _ (List.mem_append_left _ hin))
  have hcounted := Ad.ButFor.branch (c := count = true)
    ((((hbase.setInt (b := .numShadowExceptions) (failures count now ad) (by decide)).setStr (b := .vacateReason)
      ("Shadow exception: " ++ why) (by decide)).setInt (b := .vacateReasonCode) holdCodeShadowException
      (by decide)).setInt (b := .vacateReasonSubCode) 0 (by decide)) hbase
  exact .branch (((((hcounted.setInt _ (by decide)).setStr _ (by decide)).setInt _ (by decide)).setInt _
    (by decide)).bump (by decide)) (hcounted.setInt _ (by decide))

/-! ## Actions -/

def holdAttrs : List Attr := statusAttrs ++ placeAttrs ++ reasonAttrs

/-- what a release clears -/
def clearedAttrs : List Attr :=
  [.holdReason, .holdReasonCode, .holdReasonSubCode, .numShadowExceptions, .vacateReason, .vacateReasonCode,
    .vacateReasonSubCode]

def releaseAttrs : List Attr := clearedAttrs ++ [.jobStatus, .enteredCurrentStatus, .releaseReason]

def removeAttrs : List Attr := statusAttrs ++ placeAttrs ++ [.removeReason]

variable (req : ActionRequest)

theorem holdAd_butFor (status now : ℤ) (ad : Ad E) : ad.ButFor holdAttrs (Queue.holdAd req status now ad) := by
  have hmoved : ad.ButFor holdAttrs (moveTo ad status statusHeld now) := (Ad.ButFor.refl ad).moveTo _ _ _ (by decide)
  have hleft := Ad.ButFor.branch (c := status = statusRunning)
    ((hmoved.leaveHost (by decide)).stripRunAttrs (by decide)) hmoved
  exact (((hleft.setStr _ (by decide)).setInt _ (by decide)).setInt _ (by decide)).setInt _ (by decide)

theorem releaseAd_butFor (now : ℤ) (ad : Ad E) : ad.ButFor releaseAttrs (Queue.releaseAd req now ad) := by
  have hreleased : ad.ButFor releaseAttrs
    ((ad.setInt .jobStatus (Queue.releaseStatus ad)).setInt .enteredCurrentStatus now) :=
    ((Ad.ButFor.refl ad).setInt _ (by decide)).setInt _ (by decide)
  have hcleared := hreleased.deletes clearedAttrs (by decide)
  exact .branch (hcleared.setStr _ (by decide)) hcleared

theorem removeAd_butFor (status now : ℤ) (ad : Ad E) : ad.ButFor removeAttrs (Queue.removeAd req status now ad) := by
  have hleft := Ad.ButFor.branch (c := status = statusRunning)
    ((Ad.ButFor.refl (S := removeAttrs) ad).stripRunAttrs (by decide)) (.refl ad)
  have hmoved := hleft.moveTo status statusRemoved now (by decide)
  exact .branch (hmoved.setStr _ (by decide)) hmoved

/-! ## The end of an upload -/

namespace Spool

/-- the files of the job and the originals kept beside them -/
def uploadAttrs : List Attr :=
  [.stageInFinish, .iwd, .submitIwd, .transferOutputRemaps, .submitTransferOutputRemaps, .cmd, .submitCmd, .inFile,
    .submitIn, .userLog, .submitUserLog, .transferInput, .submitTransferInput]

variable {ad ad' : Ad E} {S : List Attr}

theorem rewriteBasename_butFor (h : ad.ButFor S ad') (a backup : Attr) (ha : a ∈ S)
    (hb : backup ∈ S) : ad.ButFor S (rewriteBasename ad' a backup) := by
  unfold rewriteBasename
  split
  · exact h
  · exact .branch h (.branch h ((h.setStr _ hb).setStr _ ha))

theorem rewriteBasenameList_butFor (h : ad.ButFor S ad') (a backup : Attr) (ha : a ∈ S)
    (hb : backup ∈ S) : ad.ButFor S (rewriteBasenameList ad' a backup) := by
  unfold rewriteBasenameList
  split
  · exact h
  · exact .branch h ((h.setStr _ hb).setStr _ ha)

theorem rewriteIwd_butFor (h : ad.ButFor S ad') (dir : String)
    (hS : [.iwd, .submitIwd, .transferOutputRemaps, .submitTransferOutputRemaps] ⊆ S) :
    ad.ButFor S (rewriteIwd ad' dir) := by
  have hiwd : ad.ButFor S ((ad'.setStr .submitIwd ((ad'.evaluateAttrString .iwd).getD "")).setStr .iwd dir) :=
    (h.setStr _ (hS (by decide))).setStr _ (hS (by decide))
  unfold rewriteIwd
  dsimp only
  split
  · exact .branch ((hiwd.setStr _ (hS (by decide))).delete (hS (by decide))) hiwd
  · exact hiwd

theorem rewriteIwd_places (ad : Ad E) (dir : String) :
    rewriteIwd ad dir .iwd = some (lit (.str dir)) ∧ (rewriteIwd ad dir .submitIwd).isSome := by
  simp only [rewriteIwd]
  cases ((ad.setStr .submitIwd ((ad.evaluateAttrString .iwd).getD "")).setStr .iwd dir).evaluateAttrString
    .transferOutputRemaps with
  | none => exact ⟨rfl, rfl⟩
  | some remaps => by_cases hne : remaps = "" <;> simp [hne, Ad.delete_apply, Ad.setStr_apply]

theorem rewriteSpooledJobAd_butFor (h : ad.ButFor uploadAttrs ad') (dir : String) :
    ad.ButFor uploadAttrs (rewriteSpooledJobAd ad' dir) := by
  refine .branch h ?_
  have hiwd := rewriteIwd_butFor h dir (by decide)
  have hcmd := Ad.ButFor.branch (c := transferExecutable (rewriteIwd ad' dir) = true)
    (rewriteBasename_butFor hiwd .cmd .submitCmd (by decide) (by decide)) hiwd
  refine rewriteBasenameList_butFor (rewriteBasename_butFor (.branch ?_ hcmd) _ _ (by decide) (by decide)) _ _
    (by decide) (by decide)
  exact rewriteBasename_butFor hcmd _ _ (by decide) (by decide)

theorem uploadedAd_butFor (dir : String) (now : ℤ) (ad : Ad E) : ad.ButFor uploadAttrs (uploadedAd dir now ad) :=
  rewriteSpooledJobAd_butFor (.branch ((Ad.ButFor.refl ad).setInt _ (by decide)) (.refl ad)) dir

/-- what the release of a spooled job changes -/
def spoolReleaseAttrs : List Attr :=
  statusAttrs ++ [.holdReason, .lastHoldReason, .holdReasonCode, .lastHoldReasonCode, .holdReasonSubCode,
    .lastHoldReasonSubCode, .jobStatusOnRelease, .releaseReason, .lastSuspensionTime]

omit [ClassAdLib E] in
theorem moveAttr_butFor (h : ad.ButFor S ad') (source target : Attr) (hs : source ∈ S)
    (ht : target ∈ S) : ad.ButFor S (moveAttr ad' source target) := by
  unfold moveAttr
  split
  · exact (h.insertExpr _ ht).delete hs
  · exact h

theorem releaseSpoolHold_butFor (ad : Ad E) (now : ℤ) : ad.ButFor spoolReleaseAttrs (releaseSpoolHold ad now) := by
  have hlast : ad.ButFor spoolReleaseAttrs (ad.setInt .lastJobStatus (ad.int0 .jobStatus)) :=
    (Ad.ButFor.refl ad).setInt _ (by decide)
  have hreason := moveAttr_butFor hlast .holdReason .lastHoldReason (by decide) (by decide)
  have hcode := moveAttr_butFor hreason .holdReasonCode .lastHoldReasonCode (by decide) (by decide)
  have hmoved := moveAttr_butFor hcode .holdReasonSubCode .lastHoldReasonSubCode (by decide) (by decide)
  refine .branch (.refl ad) ?_
  exact ((((hmoved.delete (by decide)).setStr _ (by decide)).setInt _ (by decide)).setInt _ (by decide)).setInt _
    (by decide)

end Spool

end AccessPoint
